import AegisMerchant.Routers.Dlq
import AegisMerchant.Services.OneDecision
import AegisMerchant.Workers.DrainLaws
import AegisMerchant.Workers.ExperimentRuns

/-!
# Nothing is sent for a control case

Runs of the experiment and of batches, webhooks, polls, passes of the drainer, sweeps, and what
reviewers and operators do, interleaved in any way and cut off anywhere. Whoever reads the database
reads that nothing was sent for a control case, and so sends nothing for one and credits none.

`heldOut_spares` is the invariant, with one rule for each party that writes:
`keeps_processSettlement`, `keeps_reconcileOutstanding`, `keeps_drainOnce`, `sparesWrite_execute`.
`Experiment.parties_withhold` is the run.
-/

namespace AegisMerchant

open Time Rows

namespace Experiment

open ExperimentAct

/-! ## The invariant -/

def Uncredited (rt : Runtime) (t : Tables) : Prop :=
  ∀ case ∈ t.cases, InControl rt case.id →
    case.status ≠ .recovered ∧ case.recoveryVerifiedBy = none

/-- Every case of the experiment has its arm on record. -/
def Drawn (side : SideTables) (t : Tables) : Prop :=
  ∀ case ∈ t.cases, named case.id = true → (∃ number, case.id = caseId number) ∧
    ∃ a ∈ side.assignments, a.caseId = case.id ∧ a.experimentKey = experimentKey

/-- Nothing is sent for a control case and none is credited; every case of the experiment has its arm
on record, and no other case has one under the experiment's key. -/
structure HeldOut (rt : Runtime) (w : BatchWorld) : Prop where
  withheld : Withheld rt w
  uncredited : Uncredited rt w.world.db.tables
  drawn : Drawn w.side w.world.db.tables
  own : ∀ a ∈ w.side.assignments, a.experimentKey = experimentKey →
    ∃ number, a.caseId = caseId number

section Steps

variable {rt : Runtime}

/-- A column that is written is not a credit's, and the others stay. -/
theorem store_uncredited {read new row : CaseRow} (hstatus : new.status ≠ .recovered)
    (hproof : new.recoveryVerifiedBy = read.recoveryVerifiedBy)
    (h : row.status ≠ .recovered ∧ row.recoveryVerifiedBy = none) :
    (read.store new row).status ≠ .recovered ∧ (read.store new row).recoveryVerifiedBy = none := by
  refine ⟨?_, ?_⟩
  · simp only [CaseRow.store, dirty]
    split
    · exact h.1
    · exact hstatus
  · simp only [CaseRow.store, dirty, hproof]
    simpa using h.2

theorem uncredited_apply {t : Tables} {write : Write} (hwrite : SparesWrite rt write)
    (h : Uncredited rt t) : Uncredited rt (t.apply write) := by
  cases write with
  | updateCase read new =>
    intro case hcase hcontrol
    obtain ⟨row, hrow, rfl⟩ := mem_updateWhere.mp hcase
    by_cases hread : row.id = read.id
    · rw [if_pos hread] at hcontrol ⊢
      have hcontrol : InControl rt row.id := hcontrol
      obtain ⟨hstatus, hproof⟩ := hwrite.resolve_left (not_not.mpr (hread ▸ hcontrol))
      exact store_uncredited hstatus hproof (h row hrow hcontrol)
    · rw [if_neg hread] at hcontrol ⊢
      exact h row hrow hcontrol
  | _ => exact h

theorem drawn_apply {side : SideTables} {t : Tables} (write : Write) (h : Drawn side t) :
    Drawn side (t.apply write) := by
  cases write with
  | updateCase read new =>
    intro case hcase hnamed
    obtain ⟨row, hrow, rfl⟩ := mem_updateWhere.mp hcase
    have hid : (if row.id = read.id then read.store new row else row).id = row.id := by
      split <;> rfl
    rw [hid] at hnamed ⊢
    exact h row hrow hnamed
  | _ => exact h

/-- What leaves the cases and the arms alone. -/
theorem HeldOut.of_cases {w w' : BatchWorld} (h : HeldOut rt w) (hwithheld : Withheld rt w')
    (hside : w'.side = w.side) (hcases : w'.world.db.tables.cases = w.world.db.tables.cases) :
    HeldOut rt w' where
  withheld := hwithheld
  uncredited case hcase := h.uncredited case (hcases ▸ hcase)
  drawn case hcase := by
    rw [hside]
    exact h.drawn case (hcases ▸ hcase)
  own := hside ▸ h.own

/-- A case that is stored with its arm. -/
theorem HeldOut.insert {w w' : BatchWorld} {s : CaseSession} (h : HeldOut rt w)
    (hs : SparesSession rt s) (hwithheld : Withheld rt w')
    (hside : w'.side = w.side.insertCase s)
    (hcases : w'.world.db.tables.cases = w.world.db.tables.cases ++ [s.case]) : HeldOut rt w' := by
  have hassignments : w'.side.assignments = w.side.assignments ++ s.assignment.toList := by
    rw [hside]
    rfl
  refine ⟨hwithheld, fun case hcase hcontrol => ?_, fun case hcase hnamed => ?_,
    fun a ha hkey => ?_⟩
  · rw [hcases] at hcase
    rcases List.mem_append.mp hcase with hcase | hcase
    · exact h.uncredited case hcase hcontrol
    · obtain rfl := List.mem_singleton.mp hcase
      exact hs.uncredited hcontrol
  · rw [hcases] at hcase
    rw [hassignments]
    rcases List.mem_append.mp hcase with hcase | hcase
    · obtain ⟨hnumber, a, ha, harm⟩ := h.drawn case hcase hnamed
      exact ⟨hnumber, a, List.mem_append_left _ ha, harm⟩
    · obtain rfl := List.mem_singleton.mp hcase
      obtain ⟨hnumber, a, ha, harm⟩ := hs.drawn hnamed
      exact ⟨hnumber, a, List.mem_append_right _ (Option.mem_toList.mpr ha), harm⟩
  · rw [hassignments] at ha
    rcases List.mem_append.mp ha with ha | ha
    · exact h.own a ha hkey
    · exact (hs.keyed a (Option.mem_toList.mp ha)).resolve_right fun hne => hne hkey

/-- **Step.** A command of the experiment, or of a batch under another key. -/
theorem heldOut_spares {β : Type} (d : ExperimentCmd β) (w : BatchWorld)
    (hd : Spares rt d) (h : HeldOut rt w) :
    HeldOut rt (BatchWorld.experimentHandler.exec d w).2 := by
  have hwithheld := withheld_step d w hd h.withheld
  cases d with
  | commitIntent s row =>
    simp only [BatchWorld.experimentHandler, BatchWorld.serveExperiment] at hwithheld ⊢
    cases hinsert : w.insertIntent? s row with
    | none =>
      rw [hinsert] at hwithheld
      exact h.of_cases hwithheld rfl rfl
    | some w' =>
      rw [hinsert] at hwithheld
      unfold BatchWorld.insertIntent? at hinsert
      split at hinsert
      · cases hinsert
        exact h.insert hd.1 hwithheld rfl rfl
      · cases hinsert
  | books d =>
    cases d with
    | serve d =>
      refine ⟨hwithheld, ?_, ?_, h.own⟩
      · exact World.exec_keeps_of_writes (I := Uncredited rt)
          (fun t write hwrite ht => uncredited_apply hwrite ht) hd w.world h.uncredited
      · exact World.exec_keeps_of_writes (I := Drawn w.side)
          (fun t write _ ht => drawn_apply write ht) hd w.world h.drawn
    | flush s =>
      refine h.of_cases hwithheld ?_ ?_
      · show (BatchWorld.handler.exec (.flush s) w).2.side = w.side
        rw [BatchWorld.exec_flush]
        rfl
      · show (BatchWorld.handler.exec (.flush s) w).2.world.db.tables.cases = _
        rw [BatchWorld.exec_flush]
        rfl
    | clear keep =>
      -- a case that is kept keeps its arm
      refine ⟨hwithheld, fun case hcase => h.uncredited case (List.mem_filter.mp hcase).1,
        fun case hcase hnamed => ?_, fun a ha => h.own a (List.mem_filter.mp ha).1⟩
      obtain ⟨hcase, hkept⟩ := List.mem_filter.mp hcase
      obtain ⟨hnumber, a, ha, hid, hkey⟩ := h.drawn case hcase hnamed
      exact ⟨hnumber, a, List.mem_filter.mpr ⟨ha, by rwa [hid]⟩, hid, hkey⟩
    | commit s =>
      have hexec : BatchWorld.experimentHandler.exec (.books (.commit s)) w =
          BatchWorld.handler.exec (.commit s) w := rfl
      rw [hexec, BatchWorld.exec_commit] at hwithheld ⊢
      cases hinsert : w.insert? s with
      | none =>
        rw [hinsert] at hwithheld
        exact h.of_cases hwithheld rfl rfl
      | some w' =>
        rw [hinsert] at hwithheld
        unfold BatchWorld.insert? at hinsert
        split at hinsert
        · cases hinsert
          exact h.insert hd hwithheld rfl rfl
        · cases hinsert

end Steps

/-! ## Those who settle -/

/-- The contract of everyone here: what is held out stays so, and everyone sees it so. -/
def heldContract (rt : Runtime) : Contract ExperimentCmd BatchWorld where
  toHandler := BatchWorld.experimentHandler
  rely w w' := HeldOut rt w → HeldOut rt w'
  guar w w' := HeldOut rt w → HeldOut rt w'
  cond _ w := HeldOut rt w

/-- It, for the commands of the services. -/
def serveContract (rt : Runtime) : Contract Cmd BatchWorld :=
  (Prog.comap (Prog.comap (heldContract rt) ExperimentCmd.books) BatchCmd.serve)

section Settlers

variable {rt : Runtime} {α β : Type}

theorem keeps_serve {p : Act α} (h : p.Keeps (serveContract rt)) :
    (serve p).Keeps (heldContract rt) := fun w =>
  (Prog.wp_mapCmd _).mpr ((Prog.wp_mapCmd _).mpr (h w))

/-- What commits nothing for a control case, and no credit of one. -/
theorem keeps_sparesWrite {p : Act α} {R : Except PyError α → Prop}
    (h : p.All (Cmd.Writes (SparesWrite rt)) R) : p.Keeps (serveContract rt) :=
  h.keeps fun d w hd hw _ => heldOut_spares (.books (.serve d)) w hd hw

theorem keeps_quiet {p : Act α} {R : Except PyError α → Prop} (h : p.All Cmd.Quiet R) :
    p.Keeps (serveContract rt) :=
  keeps_sparesWrite (h.mono (fun d hd => writes_of_quiet d hd) fun _ hr => hr)

/-- A settlement that credits no control case. -/
theorem sparesWrite_of_settles {credit : CaseRow → CaseRow → Prop}
    (hcredit : ∀ read new, credit read new → ¬InControl rt read.id) {β : Type} (d : Cmd β)
    (h : d.Settles credit) : d.Writes (SparesWrite rt) := by
  cases d with
  | commit ws =>
    intro write hwrite
    cases h with
    | organic =>
      rw [List.mem_singleton.mp hwrite]
      exact .inr ⟨CaseStatus.noConfusion, rfl⟩
    | credited hcredited =>
      rcases List.mem_cons.mp hwrite with rfl | hwrite
      · exact .inl (hcredit _ _ hcredited)
      · rw [List.mem_singleton.mp hwrite]
        trivial
    | lost =>
      rw [List.mem_singleton.mp hwrite]
      trivial
  | _ => trivial

theorem keeps_settles {credit : CaseRow → CaseRow → Prop}
    (hcredit : ∀ read new, credit read new → ¬InControl rt read.id) {p : Act α}
    {R : Except PyError α → Prop} (h : p.All (Cmd.Settles credit) R) :
    p.Keeps (serveContract rt) :=
  keeps_sparesWrite (h.mono (sparesWrite_of_settles hcredit) fun _ hr => hr)

/-! ### What a settler reads -/

/-- **What is read, is read of a database that is held out.** -/
theorem wp_select {q : Tables → β} {f : β → Act α} {Q : Except PyError α → BatchWorld → Prop}
    {w : BatchWorld} (hf : ∀ v : BatchWorld, HeldOut rt v →
      ∀ v', (f (q v.world.db.tables)).wp (serveContract rt) Q v') :
    (Act.select q >>= f).wp (serveContract rt) Q w := by
  intro v hrely hheld
  refine ⟨fun _ => ?_, hf v hheld _⟩
  exact heldOut_spares (.books (.serve (.select [] q))) v trivial hheld

theorem caseById_id {t : Tables} {id : String} {case : CaseRow} (h : t.caseById id = some case) :
    case.id = id := by
  simpa using List.find?_some h

/-- A case found by a reference of ours, and no control case. -/
def Credible (rt : Runtime) (found : Option (CaseRow × Option String)) : Prop :=
  ∀ case issued, found = some (case, issued) → issued ≠ none → ¬InControl rt case.id

/-- The case of a row of ours. -/
theorem wp_caseById {id : String} (hid : ¬InControl rt id) (issued : Option String)
    (w : BatchWorld) :
    (Act.select (·.caseById id) >>= fun found =>
      (return found.map (·, issued) : Act (Option (CaseRow × Option String)))).wp
        (serveContract rt) (fun r _ => ∀ found, r = .ok found → Credible rt found) w := by
  refine wp_select fun v _ v' => ?_
  rintro _ ⟨⟩ case issued' hfound -
  obtain ⟨c, hc, heq⟩ := Option.map_eq_some_iff.mp hfound
  cases heq
  rwa [caseById_id hc]

/-- **A reference finds a control case only as the merchant's own.** -/
theorem wp_findCase (referenceId : String) (w : BatchWorld) :
    (Settle.findCase referenceId).wp (serveContract rt)
      (fun r _ => ∀ found, r = .ok found → Credible rt found) w := by
  unfold Settle.findCase
  -- each query sees another database, and each of them is held out
  refine wp_select fun v hv v' => ?_
  cases hentry : v.world.db.tables.outboxByLower (Text.lower (Text.strip referenceId)) with
  | some entry =>
    have hmem := List.mem_of_find?_eq_some hentry
    exact wp_caseById (fun hcontrol => (hv.withheld.unsent _ hcontrol).outbox entry hmem rfl) _ v'
  | none =>
    refine wp_select fun u hu u' => ?_
    cases haction : u.world.db.tables.actionByLower (Text.lower (Text.strip referenceId)) with
    | some action =>
      have hmem := List.mem_of_find?_eq_some haction
      exact wp_caseById (fun hcontrol => (hu.withheld.unsent _ hcontrol).actions action hmem rfl)
        _ u'
    | none =>
      -- found as the merchant's own: no reference of ours
      refine wp_select fun x _ x' => ?_
      rintro _ ⟨⟩ case issued hfound hissued
      obtain ⟨c, -, heq⟩ := Option.map_eq_some_iff.mp hfound
      cases heq
      exact absurd rfl hissued

/-! ### What a settler writes -/

/-- The judgement on it. -/
theorem keeps_settleCase (event : RevenueRiskEvent) (referenceId : String) {case : CaseRow}
    {issued : Option String} (h : issued ≠ none → ¬InControl rt case.id) :
    (Settle.settleCase rt event referenceId case issued).Keeps (serveContract rt) := by
  refine keeps_settles (fun read new hcredit => ?_)
    (settles_settleCase rt event referenceId case issued)
  obtain ⟨rfl, now, now', hcounts, -⟩ := hcredit
  -- a payment counts under a reference of ours only
  apply h
  rintro rfl
  exact hcounts.issued (by simp [Settle.facts, normaliseReference, Text.lower, Text.strip])

/-- **A webhook.** -/
theorem keeps_processSettlement (payload : Json) (eventId : String) :
    (Settle.processSettlement rt payload eventId).Keeps (serveContract rt) := by
  unfold Settle.processSettlement
  simp only
  split
  · exact Prog.keeps_pure _
  · split
    · exact Prog.keeps_pure _
    · refine Prog.Keeps.bind (Prog.Keeps.attempt ?_) fun r => ?_
      · unfold Settle.settle
        split
        · -- whatever it finds under the reference, it found in a database that is held out
          intro w
          refine Prog.wp_bind_keeps (wp_findCase _ w) fun found hfound => ?_
          cases found with
          | none => exact Prog.keeps_pure _
          | some found => exact keeps_settleCase _ _ (hfound found.1 found.2 rfl)
        · exact Prog.keeps_throw _
      · cases r <;> exact Prog.keeps_pure _

/-- A payment that a poll saw. -/
theorem keeps_creditLink (entry : OutboxRow) {id : String} (hid : ¬InControl rt id)
    (link : PaymentLinkResult) :
    (Reconcile.creditLink rt entry id link).Keeps (serveContract rt) := by
  unfold Reconcile.creditLink
  intro w
  refine wp_select fun v _ v' => ?_
  cases hfound : v.world.db.tables.caseById id with
  | none => trivial
  | some fresh =>
    -- read again: the row may be another, its id is not
    have hfresh : ¬InControl rt fresh.id := by rwa [caseById_id hfound]
    refine @keeps_settles rt _ (fun read _ => ¬InControl rt read.id) (fun _ _ h => h) _
      (fun _ => True) ?_ v'
    simp only
    split
    · trivial
    · rw [Prog.all_bind, Act.all_nowUtc]
      refine ⟨trivial, fun now => ?_⟩
      refine settles_append hfresh rfl rfl fun block session htxn => ?_
      exact (settles_commit htxn).seq fun _ => trivial

theorem keeps_pollOne (result : ReconcileResult) (entry : OutboxRow) {case : CaseRow}
    (hcase : ¬InControl rt case.id) :
    (Reconcile.pollOne rt result entry case).Keeps (serveContract rt) := by
  have hlookup : (Act.getPaymentLinkByReference entry.referenceId).All Cmd.Quiet fun _ => True :=
    Act.all_call.mpr ⟨trivial, fun _ => trivial⟩
  unfold Reconcile.pollOne
  refine Prog.Keeps.bind (Prog.Keeps.attempt (keeps_quiet hlookup)) fun r => ?_
  rcases r with exc | _ | link
  · exact Prog.keeps_pure _
  · exact Prog.keeps_pure _
  · simp only
    split
    · exact Prog.keeps_pure _
    · refine Prog.Keeps.bind (keeps_creditLink entry hcase link) fun settled => ?_
      split <;> exact Prog.keeps_pure _

/-- **A poll.** -/
theorem keeps_reconcileOutstanding (limit : ℕ) :
    (Reconcile.reconcileOutstanding rt limit).Keeps (serveContract rt) := by
  have hall : ∀ rows : List (OutboxRow × CaseRow), (∀ row ∈ rows, ¬InControl rt row.2.id) →
      ∀ result, (Reconcile.pollAll rt result rows).Keeps (serveContract rt) := by
    intro rows hrows
    -- on the rows of the poll; the list was read once, and no row of it is of a control case
    induction rows with
    | nil => exact fun result => Prog.keeps_pure _
    | cons row rest ih =>
      intro result
      exact Prog.Keeps.bind (keeps_pollOne result row.1 (hrows row List.mem_cons_self))
        fun result' => ih (fun r hr => hrows r (List.mem_cons_of_mem _ hr)) result'
  unfold Reconcile.reconcileOutstanding
  intro w
  refine wp_select fun v hv v' => hall _ (fun row hrow hcontrol => ?_) _ v'
  -- what a poll asks for has a row in the outbox
  obtain ⟨entry, hentry, hrow⟩ := List.mem_flatMap.mp (List.mem_of_mem_take hrow)
  split at hrow
  · obtain ⟨case, hcase, rfl⟩ := List.mem_map.mp hrow
    have hid : case.id = entry.caseId := (of_decide_eq_true (List.mem_filter.mp hcase).2).1
    exact (hv.withheld.unsent _ hcontrol).outbox entry hentry hid.symm
  · cases hrow

theorem keeps_settler {p : Act Unit} (h : Settler rt (fun _ => True) p) :
    (serve p).Keeps (heldContract rt) := by
  apply keeps_serve
  cases h with
  | webhook payload eventId =>
    exact Prog.Keeps.bind (keeps_processSettlement payload eventId) fun _ => Prog.keeps_pure _
  | poll limit =>
    exact Prog.Keeps.bind (keeps_reconcileOutstanding limit) fun _ => Prog.keeps_pure _

end Settlers

/-! ## The drainer -/

section Drainer

variable {rt : Runtime} {s : RecoveryState} {α : Type}

/-! ### An execution -/

theorem sparesWrite_phaseOne (hid : ¬InControl rt s.caseId) (applied : AppliedAction) :
    (OutboxExecutor.phaseOne s applied).All (Cmd.Writes (SparesWrite rt)) fun _ => True := by
  rw [OutboxExecutor.phaseOne, Prog.all_bind, Act.all_select]
  refine ⟨trivial, fun found => ?_⟩
  cases found with
  | some existing => trivial
  | none =>
    simp only [OutboxExecutor.intentRow, Prog.all_bind, Prog.all_attempt, Act.all_freshId,
      Act.all_nowUtc, Prog.all_pure, Act.all_commit]
    refine ⟨trivial, fun i => ⟨trivial, fun now => ⟨trivial, fun now' => ⟨?_, fun r => ?_⟩⟩⟩⟩
    · intro write hwrite
      obtain rfl := List.mem_singleton.mp hwrite
      exact hid
    · rcases r with e | _
      · cases e with
        | integrityError =>
          rw [Prog.all_bind, Act.all_select]
          refine ⟨trivial, fun won => ?_⟩
          cases won <;> trivial
        | _ => trivial
      · trivial

theorem sparesWrite_phaseTwo (hid : ¬InControl rt s.caseId) (applied : AppliedAction) (i : String)
    (result : PaymentLinkResult) :
    (OutboxExecutor.phaseTwo s applied i result).All (Cmd.Writes (SparesWrite rt))
      fun _ => True := by
  simp only [OutboxExecutor.phaseTwo, Prog.all_bind, Act.all_nowUtc, Act.all_select]
  refine ⟨trivial, fun now => ⟨trivial, fun found => ?_⟩⟩
  cases found with
  | none => trivial
  | some row =>
    simp only
    split
    · trivial
    · simp only [OutboxExecutor.contactWrites]
      split <;> simp [Cmd.Writes, SparesWrite, OutboxExecutor.actionRow, hid]

theorem sparesWrite_scheduleRetry (ex : OutboxExecutor) (i : String) (exc : PyError) :
    (ex.scheduleRetry i exc).All (Cmd.Writes (SparesWrite rt)) fun _ => True := by
  rw [OutboxExecutor.scheduleRetry, Prog.all_bind, Act.all_select]
  refine ⟨trivial, fun found => ?_⟩
  cases found with
  | none => trivial
  | some row =>
    simp only
    split
    · simp [OutboxExecutor.dlqRow, Cmd.Writes, SparesWrite]
    · simp [Cmd.Writes, SparesWrite]

theorem sparesWrite_deadLetter (i : String) (exc : PyError) (message : String) :
    (OutboxExecutor.deadLetter i exc message).All (Cmd.Writes (SparesWrite rt)) fun _ => True := by
  rw [OutboxExecutor.deadLetter, Prog.all_bind, Act.all_select]
  refine ⟨trivial, fun found => ?_⟩
  cases found with
  | none => trivial
  | some row => simp [OutboxExecutor.dlqRow, Cmd.Writes, SparesWrite]

/-- **An execution** records what it did for its own case. -/
theorem sparesWrite_execute (ex : OutboxExecutor) (hid : ¬InControl rt s.caseId) :
    (ex.execute rt s).All (Cmd.Writes (SparesWrite rt)) fun _ => True := by
  have htrace : ∀ (s' : RecoveryState) (status : CaseStatus),
      (OutboxExecutor.trace s' status).All (Cmd.Writes (SparesWrite rt)) fun _ => True := by
    simp [OutboxExecutor.trace, Cmd.Writes]
  unfold OutboxExecutor.execute
  split
  · next applied token _ _ =>
      refine Prog.All.seq (by simp) fun _ => (sparesWrite_phaseOne hid applied).seq fun i => ?_
      have hcall : (OutboxExecutor.callProvider s applied).attempt.All
          (Cmd.Writes (SparesWrite rt)) fun _ => True :=
        (Prog.all_attempt _).mpr ((OutboxExecutor.quiet_callProvider s applied).mono
          (fun c hc => writes_of_quiet c hc) fun _ hr => hr)
      refine Prog.All.seq hcall fun r => ?_
      rcases r with e | ⟨result, _⟩
      · cases e with
        | providerRetryable m => exact (sparesWrite_scheduleRetry ex i _).seq fun _ => htrace s _
        | providerPermanent m => exact (sparesWrite_deadLetter i _ m).seq fun _ => htrace s _
        | _ => trivial
      · exact (sparesWrite_phaseTwo hid applied i result).seq fun _ => htrace _ _
  · exact htrace s _

theorem sparesWrite_of_marks {β : Type} (d : Cmd β) (h : d.Marks) : d.Writes (SparesWrite rt) := by
  cases d with
  | commit ws =>
    intro write hwrite
    obtain ⟨read, new, rfl⟩ := h write hwrite
    trivial
  | _ => trivial

/-! ### What a pass reads -/

/-- What returns, and writes nothing. -/
theorem wp_quiet {p : Act α} {R : Except PyError α → Prop} (h : p.All Cmd.Quiet R)
    (w : BatchWorld) : p.wp (serveContract rt) (fun r _ => R r) w := by
  refine Prog.wp_mono _ (fun r v hr => hr.1) (h.wp (I := fun _ => True) (fun _ _ => trivial)
    (fun d v hd _ hheld => ⟨fun _ => ?_, trivial⟩) trivial)
  exact heldOut_spares (.books (.serve d)) v (writes_of_quiet d hd) hheld

/-- What is read of such a database, and returned. -/
theorem wp_query {β : Type} {q : Tables → β} {Q : β → Prop}
    (h : ∀ v : BatchWorld, HeldOut rt v → Q (q v.world.db.tables)) (w : BatchWorld) :
    (Act.select q).wp (serveContract rt) (fun r _ => ∀ b, r = .ok b → Q b) w := by
  intro v _ hheld
  refine ⟨fun _ => ?_, ?_⟩
  · exact heldOut_spares (.books (.serve (.select [] q))) v trivial hheld
  · rintro _ ⟨⟩
    exact h v hheld

theorem wp_now (w : BatchWorld) :
    Act.nowUtc.wp (serveContract rt) (fun r _ => ∀ now, r = .ok now → True) w :=
  Prog.wp_mono _ (fun _ _ _ _ _ => trivial)
    (wp_quiet (R := fun _ => True) (Act.all_nowUtc.mpr ⟨trivial, fun _ => trivial⟩) w)

/-- **The rows of a pass are of cases that are not held.** -/
theorem wp_rows (d : OutboxDrainer) (includeStale : Bool) (w : BatchWorld) :
    (d.rows includeStale).wp (serveContract rt)
      (fun r _ => ∀ rows, r = .ok rows → ∀ row ∈ rows, ¬InControl rt row.caseId) w := by
  -- an intent on record is of a case that is not in the control arm
  have hsent : ∀ v : BatchWorld, HeldOut rt v → ∀ row ∈ v.world.db.tables.outbox,
      ¬InControl rt row.caseId := fun v hv row hrow hcontrol =>
    (hv.withheld.unsent _ hcontrol).outbox row hrow rfl
  have hdue : ∀ u, OutboxDrainer.due.wp (serveContract rt)
      (fun r _ => ∀ rows, r = .ok rows → ∀ row ∈ rows, ¬InControl rt row.caseId) u := fun u =>
    Prog.wp_bind_returns (wp_now u) fun now _ v => wp_query (fun x hx row hrow =>
      hsent x hx row (List.mem_of_mem_filter ((List.mem_insertionSort _).mp hrow))) v
  have hstale : ∀ u, d.stale.wp (serveContract rt)
      (fun r _ => ∀ rows, r = .ok rows → ∀ row ∈ rows, ¬InControl rt row.caseId) u := fun u =>
    Prog.wp_bind_returns (wp_now u) fun now _ v => wp_query (fun x hx row hrow =>
      hsent x hx row (List.mem_of_mem_filter hrow)) v
  unfold OutboxDrainer.rows
  refine Prog.wp_bind_returns (hdue w) fun due hrows v => ?_
  cases includeStale with
  | false =>
    rintro _ ⟨⟩
    exact hrows
  | true =>
    refine Prog.wp_bind_returns (hstale v) fun stale hstale u => ?_
    rintro _ ⟨⟩ row hrow
    -- the rows that are due, then the stale ones that are not among them
    rcases List.mem_append.mp hrow with hrow | hrow
    · exact hrows row hrow
    · exact hstale row (List.mem_of_mem_filter hrow)

/-- A row is resumed as its own case. -/
theorem wp_rebuildState (row : OutboxRow) (w : BatchWorld) :
    (OutboxDrainer.rebuildState rt row).wp (serveContract rt)
      (fun r _ => ∀ state, r = .ok state → ∀ s ∈ state, s.caseId = row.caseId) w := by
  unfold OutboxDrainer.rebuildState
  refine wp_select fun v _ v' => ?_
  cases hcase : v.world.db.tables.caseById row.caseId with
  | none =>
    rintro _ ⟨⟩ s hs
    cases hs
  | some case =>
    have hid := caseById_id hcase
    simp only
    split
    · rintro _ ⟨⟩ s hs
      cases hs
    · refine Prog.wp_bind_returns (wp_now v') fun now _ u => ?_
      cases reissueFromCommittedIntent rt row.payloadJson now with
      | error exc =>
        intro state hstate
        cases hstate
      | ok issued =>
        rintro _ ⟨⟩ s ⟨⟩
        exact hid

/-! ### A pass -/

theorem keeps_drainRow (d : OutboxDrainer) (report : DrainReport) {row : OutboxRow}
    (hrow : ¬InControl rt row.caseId) :
    (d.drainRow rt report row).Keeps (serveContract rt) := by
  unfold OutboxDrainer.drainRow
  intro w
  refine Prog.wp_bind_keeps (wp_rebuildState row w) fun state hstate => ?_
  cases state with
  | none =>
    -- nothing to resume: the row is marked, and no case is written
    have hdead := OutboxDrainer.marks_markDead row.id "case reached a terminal state"
    exact Prog.Keeps.bind (keeps_sparesWrite (hdead.mono sparesWrite_of_marks fun _ hr => hr))
      fun _ => Prog.keeps_pure _
  | some s =>
    have hid : ¬InControl rt s.caseId := by rwa [hstate s rfl]
    exact Prog.Keeps.bind (keeps_sparesWrite (sparesWrite_execute d.executor hid)) fun _ =>
      Prog.keeps_pure _

/-- **A pass of the drainer.** -/
theorem keeps_drainOnce (d : OutboxDrainer) (includeStale : Bool) :
    (d.drainOnce rt includeStale).Keeps (serveContract rt) := by
  have hall : ∀ rows : List OutboxRow, (∀ row ∈ rows, ¬InControl rt row.caseId) →
      ∀ report, (d.drainRows rt report rows).Keeps (serveContract rt) := by
    intro rows hrows
    induction rows with
    | nil => exact fun report => Prog.keeps_pure _
    | cons row rest ih =>
      intro report
      exact Prog.Keeps.bind (keeps_drainRow d report (hrows row List.mem_cons_self))
        fun report' => ih (fun r hr => hrows r (List.mem_cons_of_mem _ hr)) report'
  unfold OutboxDrainer.drainOnce
  intro w
  exact Prog.wp_bind_keeps (wp_rows d includeStale w) fun rows hrows => hall rows hrows _

end Drainer

/-! ## Reviewers, sweeps and replays -/

section Operators

variable {rt : Runtime} {α : Type}

/-- Statements that send nothing for a control case, and credit none. -/
def Spared (rt : Runtime) (ws : List Write) : Prop := ∀ write ∈ ws, SparesWrite rt write

theorem Spared.append {ws ws' : List Write} (h : Spared rt ws) (h' : Spared rt ws') :
    Spared rt (ws ++ ws') := by
  intro write hwrite
  rcases List.mem_append.mp hwrite with hwrite | hwrite
  · exact h write hwrite
  · exact h' write hwrite

theorem spared_block (block : AuditBlockRow) : Spared rt [.insertBlock block] := by
  intro write hwrite
  rw [List.mem_singleton.mp hwrite]
  trivial

/-- A case that is released is not credited. -/
theorem spared_releaseCase {released : CaseRow → CaseRow}
    (hstatus : ∀ case, (released case).status ≠ .recovered)
    (hproof : ∀ case, (released case).recoveryVerifiedBy = case.recoveryVerifiedBy)
    (case : Option CaseRow) : Spared rt (releaseCase released case) := by
  intro write hwrite
  cases case with
  | none => cases hwrite
  | some case =>
    rw [releaseCase] at hwrite
    split at hwrite
    · rw [List.mem_singleton.mp hwrite]
      exact .inr ⟨hstatus case, hproof case⟩
    · cases hwrite

/-- A block is appended to what a session holds, or to nothing after a rollback. -/
theorem spared_append {session : Session} (h : Spared rt session.pending) (e : AuditEvent) :
    (AuditChain.append rt session e).All (Cmd.Writes (SparesWrite rt))
      (Prog.IfReturned fun appended => Spared rt appended.2.pending) := by
  refine (AuditChain.all_append rt session e).mono (fun d hd => writes_of_quiet d hd) fun r hr => ?_
  rcases r with exc | ⟨block, session'⟩
  · trivial
  · show Spared rt session'.pending
    rcases hr.2 with hpending | hpending <;> rw [hpending]
    · exact h.append (spared_block block)
    · exact spared_block block

theorem sparesWrite_select {q : Tables → α} :
    (Act.select q).All (Cmd.Writes (SparesWrite rt)) fun _ => True :=
  Act.all_select.mpr ⟨trivial, fun _ => trivial⟩

theorem sparesWrite_nowUtc : Act.nowUtc.All (Cmd.Writes (SparesWrite rt)) fun _ => True :=
  Act.all_nowUtc.mpr ⟨trivial, fun _ => trivial⟩

/-! ### Decisions -/

theorem sparesWrite_decide (principal : Principal) (body : Approvals.ActionRequest)
    (approval : ApprovalRow) (now : DateTime) :
    (Approvals.decide rt principal body approval now).All (Cmd.Writes (SparesWrite rt))
      fun _ => True := by
  unfold Approvals.decide
  refine sparesWrite_select.seq fun case => ?_
  have hreleased : Spared rt (releaseCase (Approvals.released body now) case) := by
    refine spared_releaseCase (fun case => ?_) (fun case => ?_) case
    · unfold Approvals.released
      split <;> exact CaseStatus.noConfusion
    · unfold Approvals.released
      split <;> rfl
  refine (spared_append (fun write hwrite => ?_) _).bind (fun appended happended => ?_)
    fun _ _ => trivial
  · rcases List.mem_cons.mp hwrite with rfl | hwrite
    · trivial
    · exact hreleased write hwrite
  · refine Prog.All.seq (Act.all_commit.mpr ⟨happended, fun _ => trivial⟩) fun _ => ?_
    split <;> trivial

/-- **A reviewer** decides on an approval and releases its case. -/
theorem sparesWrite_actionApproval (principal : Principal) (approvalId : String)
    (body : Approvals.ActionRequest) :
    (Approvals.actionApproval rt principal approvalId body).All (Cmd.Writes (SparesWrite rt))
      fun _ => True := by
  unfold Approvals.actionApproval
  refine sparesWrite_select.seq fun found => ?_
  cases found with
  | none => trivial
  | some approval =>
    refine sparesWrite_nowUtc.seq fun now => ?_
    split
    · trivial
    · split
      · refine Prog.All.seq (Act.all_commit.mpr ⟨fun write hwrite => ?_, fun _ => trivial⟩)
          fun _ => trivial
        rw [List.mem_singleton.mp hwrite]
        trivial
      · exact Prog.All.seq (Act.all_liftExcept.mpr trivial) fun _ => sparesWrite_decide _ _ _ _

/-! ### The sweeps -/

theorem spared_expireAll {now : DateTime} (rows : List ApprovalRow) :
    ∀ {count : ℕ} {session : Session}, Spared rt session.pending →
      (Scheduler.expireAll rt now rows count session).All (Cmd.Writes (SparesWrite rt))
        (Prog.IfReturned fun result => Spared rt result.2.pending) := by
  induction rows with
  | nil => exact fun h => h
  | cons approval rest ih =>
    intro count session h
    have hexpire : (Scheduler.expireApproval rt now approval session).All
        (Cmd.Writes (SparesWrite rt)) (Prog.IfReturned fun s => Spared rt s.pending) := by
      unfold Scheduler.expireApproval
      refine (Prog.all_bind _ _).mpr ⟨trivial, fun case => ?_⟩
      refine (spared_append ?_ _).bind (fun appended happended => happended) fun _ _ => trivial
      have hreleased : Spared rt (releaseCase (Scheduler.expiredCase now) case) :=
        @spared_releaseCase rt (Scheduler.expiredCase now) (fun _ => CaseStatus.noConfusion)
          (fun _ => rfl) case
      have happroval : Spared rt [.updateApproval approval (approval.expire now)] := by
        intro write hwrite
        rw [List.mem_singleton.mp hwrite]
        trivial
      show Spared rt (session.sent ++ ((session.fresh ++ [_]) ++ releaseCase _ case))
      rw [← List.append_assoc, ← List.append_assoc]
      exact (h.append happroval).append hreleased
    unfold Scheduler.expireAll
    split
    · trivial
    · split
      · exact ih h
      · exact hexpire.bind (fun s hs => ih hs) fun _ _ => trivial

theorem spared_cancelAll (rows : List OutboxRow) {count : ℕ} {session : Session}
    (h : Spared rt session.pending) :
    (Scheduler.cancelAll rt rows count session).All (Cmd.Writes (SparesWrite rt))
      fun r => ∀ result, r = .ok result → Spared rt result.2.pending := by
  refine Prog.All.mono (Scheduler.all_cancelAll (I := fun s => Spared rt s.pending)
    (fun session entry reason block session' hsession _ hpending => ?_) rows h)
      (fun d hd => writes_of_reads d hd) fun _ hr => hr
  have hcancelled : Spared rt [.updateOutbox entry (Scheduler.cancelled entry reason)] := by
    intro write hwrite
    rw [List.mem_singleton.mp hwrite]
    trivial
  rcases hpending with hpending | hpending <;> rw [hpending]
  · refine Spared.append ?_ (spared_block block)
    show Spared rt (session.sent ++ (session.fresh ++ [_]))
    rw [← List.append_assoc]
    exact Spared.append hsession hcancelled
  · exact spared_block block

/-- **A sweep** expires approvals with their cases, and cancels sends. -/
theorem sparesWrite_sweep :
    (Scheduler.sweep rt).All (Cmd.Writes (SparesWrite rt)) fun _ => True := by
  have hexpire : (Scheduler.expireApprovals rt {}).All (Cmd.Writes (SparesWrite rt))
      (Prog.IfReturned fun result => Spared rt result.2.pending) := by
    refine (Prog.all_bind _ _).mpr ⟨trivial, fun now => (Prog.all_bind _ _).mpr ⟨trivial, ?_⟩⟩
    exact fun rows => spared_expireAll rows fun _ hwrite => absurd hwrite List.not_mem_nil
  have hcancel : ∀ {session : Session}, Spared rt session.pending →
      (Scheduler.killStaleDeferrals rt session).All (Cmd.Writes (SparesWrite rt))
        fun r => ∀ result, r = .ok result → Spared rt result.2.pending := by
    intro session h
    refine (Prog.all_bind _ _).mpr ⟨trivial, fun now => (Prog.all_bind _ _).mpr ⟨trivial, ?_⟩⟩
    exact fun rows => spared_cancelAll rows h
  refine hexpire.bind (fun expired hexpired => ?_) fun _ _ => trivial
  refine (hcancel hexpired).bind (fun stale hstale => ?_) fun _ _ => trivial
  exact Prog.All.seq (Act.all_commit.mpr ⟨hstale stale rfl, fun _ => trivial⟩) fun _ => trivial

/-! ### Replays -/

/-- **A replay** puts a row back. -/
theorem sparesWrite_replay (principal : Principal) (deadLetterId : String) :
    (Dlq.replay rt principal deadLetterId).All (Cmd.Writes (SparesWrite rt)) fun _ => True := by
  unfold Dlq.replay
  refine sparesWrite_select.seq fun dead => ?_
  cases dead with
  | none => trivial
  | some dead =>
    simp only
    split
    · trivial
    · refine sparesWrite_select.seq fun entry => ?_
      cases entry with
      | none => trivial
      | some entry =>
        refine sparesWrite_nowUtc.seq fun now => ?_
        refine (spared_append (fun write hwrite => ?_) _).bind (fun appended happended => ?_)
          fun _ _ => trivial
        · rcases List.mem_cons.mp hwrite with rfl | hwrite
          · trivial
          · rw [List.mem_singleton.mp hwrite]
            trivial
        · refine Prog.All.seq (Act.all_commit.mpr ⟨happended, fun _ => trivial⟩) fun _ => ?_
          split <;> trivial

theorem keeps_decider {p : Act Unit} (h : Decider rt p) : p.Keeps (serveContract rt) := by
  cases h with
  | review principal approvalId body =>
    exact keeps_sparesWrite ((sparesWrite_actionApproval principal approvalId body).seq
      fun _ => trivial)
  | sweep => exact keeps_sparesWrite (Prog.All.seq sparesWrite_sweep fun _ => trivial)

end Operators

/-! ## Every run -/

/-- Who runs beside each other: the experiment, batches that draw their arms under another key, those
who settle, the drainer, reviewers and sweeps, and operators who replay dead letters. -/
inductive Party (rt : Runtime) : ExperimentAct Unit → Prop
  | experiment (c : Config) (hthinks : c.Thinks) :
      Party rt (do let _ ← runTestmodeExperiment rt c)
  | batch (b : BatchConfig) (corpus : List AttemptRow) (hthinks : b.Thinks)
      (hkey : b.experimentKey ≠ experimentKey) :
      Party rt (books (do let _ ← BatchStore.runBatch rt b corpus))
  | settler {p : Act Unit} (h : Settler rt (fun _ => True) p) : Party rt (serve p)
  | drainer (d : OutboxDrainer) (includeStale : Bool) :
      Party rt (serve (do let _ ← d.drainOnce rt includeStale))
  | decider {p : Act Unit} (h : Decider rt p) : Party rt (serve p)
  | replayer (principal : Principal) (deadLetterId : String) :
      Party rt (serve (do let _ ← Dlq.replay rt principal deadLetterId))

section Runs

variable {rt : Runtime}

theorem keeps_party {p : ExperimentAct Unit} (h : Party rt p) : p.Keeps (heldContract rt) := by
  have hspares : ∀ {p : ExperimentAct Unit}, p.All (Spares rt) (fun _ => True) →
      p.Keeps (heldContract rt) := fun hall =>
    hall.keeps fun d w hd hw _ => heldOut_spares d w hd hw
  cases h with
  | experiment c hthinks =>
    exact hspares (Prog.All.seq (spares_runTestmodeExperiment hthinks) fun _ => trivial)
  | batch b corpus hthinks hkey =>
    exact hspares (spares_books
      (Prog.All.seq (sparesBooks_runBatch hthinks hkey corpus) fun _ => trivial))
  | settler h => exact keeps_settler h
  | drainer d includeStale =>
    exact keeps_serve (Prog.Keeps.bind (keeps_drainOnce d includeStale) fun _ => Prog.keeps_pure _)
  | decider h => exact keeps_serve (keeps_decider h)
  | replayer principal deadLetterId =>
    exact keeps_serve (keeps_sparesWrite ((sparesWrite_replay principal deadLetterId).seq
      fun _ => trivial))

theorem heldContract_closed : (heldContract rt).Closed where
  refl _ := id
  trans h h' := fun hw => h' (h hw)
  guar h := h

def runAll (w : BatchWorld) (moves : List (Move ExperimentCmd PyError)) : BatchWorld :=
  (({ state := w } : Pool ExperimentCmd PyError BatchWorld).run BatchWorld.experimentHandler
    moves).state

theorem heldOut_runAll {w : BatchWorld} (hw : HeldOut rt w)
    {moves : List (Move ExperimentCmd PyError)}
    (hstart : ∀ m ∈ moves, Pool.StartsOnly (Party rt) m) : HeldOut rt (runAll w moves) :=
  Pool.inv_of_keeps heldContract_closed (fun hrely hu => hrely hu) (fun _ _ hv => hv)
    (fun _ hp => keeps_party hp) (fun _ hp => absurd hp List.not_mem_nil) hw hstart

/-- **Nothing is ever sent for a control case, and none is ever credited.** However runs of the
experiment, batches, webhooks, polls, passes of the drainer, reviews, sweeps and replays are
interleaved, and wherever they die: a control case has no outbox row, no action, no contact and no
approval, its payment is never ours, and every arm on record is the one its case's id decides. -/
theorem parties_withhold {w : BatchWorld} (hw : HeldOut rt w)
    {moves : List (Move ExperimentCmd PyError)}
    (hstart : ∀ m ∈ moves, Pool.StartsOnly (Party rt) m) :
    Withheld rt (runAll w moves) ∧ ∀ case ∈ (runAll w moves).world.db.tables.cases,
      InControl rt case.id → case.status ≠ .recovered ∧ case.recoveryVerifiedBy = none := by
  have hheld := heldOut_runAll hw hstart
  exact ⟨hheld.withheld, hheld.uncredited⟩

/-! ## Two runs of the experiment, a batch and a webhook -/

/-- Books without cases hold nobody out. -/
theorem heldOut_seededBooks : HeldOut rt seededBooks := by
  refine ⟨⟨fun id _ => ⟨?_, ?_, ?_, ?_⟩, ?_⟩, ?_, ?_, ?_⟩
  all_goals exact fun _ h => absurd h List.not_mem_nil

/-- The webhook of a payment on a merchant's own checkout. -/
def checkoutWebhook (reference : String) : Json :=
  .obj [("event", .str "payment_link.paid"),
    ("payload", .obj [("payment_link", .obj [("entity",
      .obj [("reference_id", .str reference), ("amount", .int amountPaise)])])])]

/-- A batch and a run of the experiment that dies in its third case; then another run beside a
webhook of the control case's checkout and a pass of the drainer. It ends with two treated cases on
record, and a control case that paid on its own. -/
def twoExperiments : List (Move ExperimentCmd PyError) :=
  let experiment : ExperimentAct Unit := do let _ ← runTestmodeExperiment drawingRuntime tenCases
  let batch : BatchAct Unit := do
    let _ ← BatchStore.runBatch drawingRuntime treatedBatch oneAttempt
  let webhook : Act Unit := do
    let _ ← Settle.processSettlement drawingRuntime
      (checkoutWebhook (observedReferenceId (caseId 2))) "evt_1"
  let drain : Act Unit := do let _ ← ({} : OutboxDrainer).drainOnce drawingRuntime true
  [.spawn (books batch), .spawn experiment] ++ List.replicate 14 (.run 0) ++
    List.replicate 40 (.run 1) ++ [.crash 1, .spawn experiment, .spawn (serve webhook),
      .spawn (serve drain)] ++
    List.replicate 12 (.run 1) ++ List.replicate 10 (.run 2) ++ List.replicate 10 (.run 3) ++
      List.replicate 12 (.run 1)

theorem startsOnly_twoExperiments :
    ∀ m ∈ twoExperiments, Pool.StartsOnly (Party drawingRuntime) m := by
  intro m hm
  have hexperiment := @Party.experiment drawingRuntime tenCases thinks_completeStructured
  simp only [twoExperiments, List.mem_append, List.mem_cons, List.mem_replicate, List.not_mem_nil,
    or_false, ne_eq] at hm
  rcases hm with (((((((rfl | rfl) | ⟨-, rfl⟩) | ⟨-, rfl⟩) | rfl | rfl | rfl | rfl) | ⟨-, rfl⟩) |
    ⟨-, rfl⟩) | ⟨-, rfl⟩) | ⟨-, rfl⟩
  · exact .batch treatedBatch oneAttempt treatedBatch_thinking (by decide)
  · exact hexperiment
  · trivial
  · trivial
  · trivial
  · exact hexperiment
  · exact .settler (.webhook _ _ fun _ _ => trivial)
  · exact .drainer {} true
  all_goals trivial

theorem parties_withhold_twoExperiments :
    Withheld drawingRuntime (runAll seededBooks twoExperiments) ∧
      ∀ case ∈ (runAll seededBooks twoExperiments).world.db.tables.cases,
        InControl drawingRuntime case.id →
          case.status ≠ .recovered ∧ case.recoveryVerifiedBy = none :=
  parties_withhold heldOut_seededBooks startsOnly_twoExperiments

end Runs

end Experiment

end AegisMerchant
