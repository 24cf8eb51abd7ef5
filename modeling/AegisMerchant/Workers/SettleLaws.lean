import AegisMerchant.Base.Pool
import AegisMerchant.Workers.Reconcile

/-!
# What a settler commits

A webhook and a poll settle a case in the same way: the case they read, changed, and the block that
records it. Between the read and the commit anything may happen to the stored case.

`settles_processSettlement` and `settles_reconcileOutstanding` list what a webhook and a poll
commit.
-/

namespace AegisMerchant

open Time

/-! ## Their transactions -/

/-- The name of the block that records a recovery. -/
def verifiedName : String := "recovery.verified"

/-- **The transactions of a settler**, by what it may credit. -/
inductive SettleTxn (credit : CaseRow → CaseRow → Prop) : List Write → Prop
  | organic {case : CaseRow} {now : DateTime} (hrecovered : case.status ≠ .recovered)
      (horganic : case.status ≠ .resolvedOrganic) :
      SettleTxn credit [.updateCase case (Settle.organic case now)]
  | credited {case new : CaseRow} {block : AuditBlockRow} (hcredit : credit case new)
      (hname : block.eventName = verifiedName) (hcase : block.caseId = some case.id) :
      SettleTxn credit [.updateCase case new, .insertBlock block]
  /-- The append was retried, and the case's change rolled back. -/
  | lost {case new : CaseRow} {block : AuditBlockRow} (hcredit : credit case new)
      (hname : block.eventName = verifiedName) (hcase : block.caseId = some case.id) :
      SettleTxn credit [.insertBlock block]

/-- A command of a settler. -/
def Cmd.Settles (credit : CaseRow → CaseRow → Prop) : {β : Type} → Cmd β → Prop
  | _, .commit ws => SettleTxn credit ws
  | _, _ => True

/-- What a webhook may credit: a case that meets the six conditions, with the amount that counts. -/
def WebhookCredit (payload : Json) (eventId : String) (case new : CaseRow) : Prop :=
  ∃ referenceId issued now now',
    let facts := Settle.facts (Ingest.normalise payload eventId) referenceId case issued now
    facts.Counts ∧ new = Settle.recovered case facts.amount eventId .webhook now'

/-- What a poll may credit: a case nothing proves yet, with its whole amount. -/
def PollCredit (case new : CaseRow) : Prop :=
  case.recoveryVerifiedBy = none ∧
    ∃ by' now, new = Settle.recovered case case.amountPaise by' .apiReconciliation now

section Settlers

variable {credit : CaseRow → CaseRow → Prop}

theorem SettleTxn.mono {credit' : CaseRow → CaseRow → Prop} {ws : List Write}
    (h : SettleTxn credit ws) (hcredit : ∀ case new, credit case new → credit' case new) :
    SettleTxn credit' ws := by
  cases h with
  | organic hrecovered horganic => exact .organic hrecovered horganic
  | credited hcredited hname hcase => exact .credited (hcredit _ _ hcredited) hname hcase
  | lost hcredited hname hcase => exact .lost (hcredit _ _ hcredited) hname hcase

theorem Cmd.Settles.mono {credit' : CaseRow → CaseRow → Prop}
    (hcredit : ∀ case new, credit case new → credit' case new) {β : Type} (c : Cmd β)
    (h : c.Settles credit) : c.Settles credit' := by
  cases c with
  | commit ws => exact SettleTxn.mono h hcredit
  | _ => exact h

theorem settles_select {α : Type} (q : Tables → α) :
    (Act.select q).All (Cmd.Settles credit) fun _ => True :=
  Act.all_select.mpr ⟨trivial, fun _ => trivial⟩

theorem settles_nowUtc : Act.nowUtc.All (Cmd.Settles credit) fun _ => True :=
  Act.all_nowUtc.mpr ⟨trivial, fun _ => trivial⟩

theorem settles_commit {ws : List Write} (h : SettleTxn credit ws) :
    (Act.commit ws).All (Cmd.Settles credit) fun _ => True :=
  Act.all_commit.mpr ⟨h, fun _ => trivial⟩

theorem settles_of_quiet {β : Type} (c : Cmd β) (h : c.Quiet) : c.Settles credit := by
  cases c with
  | commit ws => exact h.elim
  | _ => trivial

/-- The session that appended the block of a credit commits the transaction of a settler. -/
theorem settleTxn_of_appended {rt : Runtime} {case new : CaseRow} {e : AuditEvent}
    {block : AuditBlockRow} {session : Session} (hcredit : credit case new)
    (hname : e.eventName = verifiedName) (hcase : e.caseId = some case.id)
    (h : AuditChain.Appended rt e [.updateCase case new] (.ok (block, session))) :
    SettleTxn credit session.pending := by
  obtain ⟨hrecords, hpending⟩ := h
  rcases hpending with h | h <;> rw [h]
  · exact .credited hcredit (hrecords.eventName.trans hname) (hrecords.caseId.trans hcase)
  · exact .lost hcredit (hrecords.eventName.trans hname) (hrecords.caseId.trans hcase)

/-- A change of a case and its block, committed together. -/
theorem settles_append {rt : Runtime} {case new : CaseRow} {e : AuditEvent} {α : Type}
    {f : AuditBlockRow × Session → Act α} (hcredit : credit case new)
    (hname : e.eventName = verifiedName) (hcase : e.caseId = some case.id)
    (hf : ∀ block session, SettleTxn credit session.pending →
      (f (block, session)).All (Cmd.Settles credit) fun _ => True) :
    (AuditChain.append rt { fresh := [.updateCase case new] } e >>= f).All (Cmd.Settles credit)
      fun _ => True := by
  refine ((AuditChain.all_append rt _ e).mono settles_of_quiet fun _ h => h).bind
    (fun appended happended => ?_) fun _ _ => trivial
  exact hf _ _ (settleTxn_of_appended hcredit hname hcase happended)

/-! ## The lookup -/

/-- Looking for the case commits nothing. -/
theorem quiet_findCase (referenceId : String) :
    (Settle.findCase referenceId).All Cmd.Quiet fun _ => True := by
  have hselect : ∀ {α : Type} (q : Tables → α), (Act.select q).All Cmd.Quiet fun _ => True :=
    fun q => Act.all_select.mpr ⟨trivial, fun _ => trivial⟩
  refine (hselect _).seq fun entry => ?_
  cases entry with
  | some entry => exact (hselect _).seq fun _ => trivial
  | none =>
    refine (hselect _).seq fun action => ?_
    cases action with
    | some action => exact (hselect _).seq fun _ => trivial
    | none => exact (hselect _).seq fun _ => trivial

/-- The case `_find_case` answers in some tables, and the reference it was issued. -/
def Tables.foundCase (t : Tables) (referenceId : String) : Option (CaseRow × Option String) :=
  let needle := Text.lower (Text.strip referenceId)
  match t.outboxByLower needle with
  | some entry => (t.caseById entry.caseId).map (·, some entry.referenceId)
  | none =>
    match t.actionByLower needle with
    | some action => (t.caseById action.caseId).map (·, action.referenceId)
    | none => (t.caseByObserved needle).map (·, none)

theorem run_findCase (referenceId : String) (w : World) :
    ∃ n, (Settle.findCase referenceId).run World.handler w =
      (.ok (w.db.tables.foundCase referenceId), w.after n) := by
  unfold Settle.findCase
  rw [Prog.run_bind, Act.run_select]
  simp only [Tables.foundCase]
  cases w.db.tables.outboxByLower (Text.lower (Text.strip referenceId)) with
  | some entry => exact ⟨2, rfl⟩
  | none =>
    simp only
    rw [Prog.run_bind, Act.run_select, World.after_db]
    cases w.db.tables.actionByLower (Text.lower (Text.strip referenceId)) with
    | some action => exact ⟨3, rfl⟩
    | none => exact ⟨3, rfl⟩

/-- It is a stored case; and one that was issued a reference was acted on. -/
theorem foundCase_cases {t : Tables} {referenceId : String} {case : CaseRow}
    {issued : Option String} (h : t.foundCase referenceId = some (case, issued)) :
    case ∈ t.cases ∧ (issued = none ∨ (∃ row ∈ t.outbox, row.caseId = case.id) ∨
      ∃ a ∈ t.actions, a.caseId = case.id) := by
  have hcase : ∀ {caseId : String} {issued' : Option String},
      (t.caseById caseId).map (·, issued') = some (case, issued) →
        case ∈ t.cases ∧ caseId = case.id := by
    intro caseId issued' h
    obtain ⟨c, hc, heq⟩ := Option.map_eq_some_iff.mp h
    cases heq
    have hid : case.id = caseId := by simpa using List.find?_some hc
    exact ⟨List.mem_of_find?_eq_some hc, hid.symm⟩
  unfold Tables.foundCase at h
  simp only at h
  split at h
  · next entry hentry =>
      obtain ⟨hmem, hid⟩ := hcase h
      exact ⟨hmem, .inr (.inl ⟨entry, List.mem_of_find?_eq_some hentry, hid⟩)⟩
  · split at h
    · next action haction =>
        obtain ⟨hmem, hid⟩ := hcase h
        exact ⟨hmem, .inr (.inr ⟨action, List.mem_of_find?_eq_some haction, hid⟩)⟩
    · obtain ⟨c, hc, heq⟩ := Option.map_eq_some_iff.mp h
      cases heq
      exact ⟨List.mem_of_find?_eq_some hc, .inl rfl⟩

/-- **A webhook does what its judgement on the case it finds does**, and otherwise reads. -/
theorem along_processSettlement_of {φ : {β : Type} → Cmd β → World → Prop} {rt : Runtime}
    {payload : Json} {eventId : String} {w : World}
    (hφ : ∀ {β : Type} (c : Cmd β) (v : World), c.Quiet → φ c v)
    (h : ∀ referenceId case issued n, w.db.tables.foundCase referenceId = some (case, issued) →
      (Settle.settleCase rt (Ingest.normalise payload eventId) referenceId case issued).Along
        World.handler φ (w.after n)) :
    (Settle.processSettlement rt payload eventId).Along World.handler φ w := by
  unfold Settle.processSettlement
  simp only
  split
  · trivial
  · split
    · trivial
    · next reference _ =>
        rw [Prog.along_bind, Prog.along_attempt, Prog.run_attempt]
        refine ⟨?_, ?_⟩
        · unfold Settle.settle
          split
          · next referenceId _ =>
              obtain ⟨n, hrun⟩ := run_findCase referenceId w
              rw [Prog.along_bind, hrun]
              refine ⟨(quiet_findCase _).along hφ w, ?_⟩
              cases hfound : w.db.tables.foundCase referenceId with
              | none => trivial
              | some found => exact h referenceId found.1 found.2 n hfound
          · trivial
        · rcases ((Settle.settle rt (Ingest.normalise payload eventId) reference).run
            World.handler w).1 with exc | outcome <;> trivial

/-! ## The workers -/

/-- The commits of a webhook on the case it found. -/
theorem settles_settleCase (rt : Runtime) (event : RevenueRiskEvent) (referenceId : String)
    (case : CaseRow) (issued : Option String) :
    (Settle.settleCase rt event referenceId case issued).All
      (Cmd.Settles fun read new => read = case ∧ ∃ now now',
        (Settle.facts event referenceId case issued now).Counts ∧
          new = Settle.recovered case (Settle.facts event referenceId case issued now).amount
            event.eventId .webhook now') fun _ => True := by
  rw [Settle.settleCase, Prog.all_bind, Act.all_nowUtc]
  refine ⟨trivial, fun now => ?_⟩
  simp only
  split
  · next hcounted =>
      have hcounts := (SettlingFacts.attribution_counted_iff _).mp hcounted
      have hamount := (SettlingFacts.attribution_of_counts hcounts).1
      rw [Prog.all_bind, Act.all_nowUtc]
      refine ⟨trivial, fun now' => ?_⟩
      refine settles_append ⟨rfl, now, now', hcounts, ?_⟩ rfl rfl fun block session htxn => ?_
      · rw [hamount]
      · refine (settles_commit htxn).seq fun _ => ?_
        simp only
        split <;> trivial
  · split
    · next h =>
        exact settles_nowUtc.seq fun now' =>
          (settles_commit (.organic h.2.1 h.2.2)).seq fun _ => trivial
    · trivial

/-- **The commits of a webhook.** -/
theorem settles_processSettlement (rt : Runtime) (payload : Json) (eventId : String) :
    (Settle.processSettlement rt payload eventId).All (Cmd.Settles (WebhookCredit payload eventId))
      fun _ => True := by
  have hcase : ∀ referenceId case issued,
      (Settle.settleCase rt (Ingest.normalise payload eventId) referenceId case issued).All
        (Cmd.Settles (WebhookCredit payload eventId)) fun _ => True := by
    intro referenceId case issued
    refine (settles_settleCase rt _ _ _ _).mono (Cmd.Settles.mono ?_) fun _ h => h
    rintro read new ⟨rfl, now, now', hcounts, rfl⟩
    exact ⟨referenceId, issued, now, now', hcounts, rfl⟩
  unfold Settle.processSettlement
  simp only
  split
  · trivial
  · split
    · trivial
    · next reference _ =>
        refine Prog.All.seq ((Prog.all_attempt _).mpr ?_) fun r => ?_
        · unfold Settle.settle
          split
          · refine ((quiet_findCase _).mono settles_of_quiet fun _ h => h).seq fun found => ?_
            cases found with
            | none => trivial
            | some found => exact hcase _ _ _
          · trivial
        · cases r <;> trivial

/-- **The commits of a poll.** -/
theorem settles_reconcileOutstanding (rt : Runtime) (limit : ℕ) :
    (Reconcile.reconcileOutstanding rt limit).All (Cmd.Settles PollCredit) fun _ => True := by
  have hcredit : ∀ entry caseId link, (Reconcile.creditLink rt entry caseId link).All
      (Cmd.Settles PollCredit) fun _ => True := by
    intro entry caseId link
    refine (settles_select _).seq fun found => ?_
    cases found with
    | none => trivial
    | some fresh =>
      simp only
      split
      · trivial
      · next hnone =>
          rw [Prog.all_bind, Act.all_nowUtc]
          refine ⟨trivial, fun now => ?_⟩
          refine settles_append ⟨by simpa using hnone, _, now, rfl⟩ rfl rfl
            fun block session htxn => ?_
          exact (settles_commit htxn).seq fun _ => trivial
  have hone : ∀ result entry case, (Reconcile.pollOne rt result entry case).All
      (Cmd.Settles PollCredit) fun _ => True := by
    intro result entry case
    refine Prog.All.seq ((Prog.all_attempt _).mpr (Act.all_call.mpr
      ⟨trivial, fun _ => trivial⟩)) fun r => ?_
    rcases r with exc | _ | link
    · trivial
    · trivial
    · simp only
      split
      · trivial
      · refine (hcredit _ _ _).seq fun settled => ?_
        split <;> trivial
  have hall : ∀ rows result, (Reconcile.pollAll rt result rows).All (Cmd.Settles PollCredit)
      fun _ => True := by
    intro rows
    induction rows with
    | nil => exact fun result => trivial
    | cons row rest ih => exact fun result => (hone _ _ _).seq fun result' => ih result'
  exact (settles_select _).seq fun rows => hall _ _

end Settlers

end AegisMerchant
