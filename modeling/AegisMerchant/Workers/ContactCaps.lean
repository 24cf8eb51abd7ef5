import AegisMerchant.Agent.ControlArm
import AegisMerchant.Agent.NoAction

/-!
# Contact caps in the batch

The rules on contacts count what they are given, and the batch gives them nothing: in every case it
runs, nobody was contacted yet. Whatever limits come with its dependencies are left behind, too.

`admitted_of_contacts` says that only an admitted case is contacted. `batch_capped` counts them, and
`not_batch_capped` has two in an hour.
-/

namespace AegisMerchant

open Time

/-! ## Cases triage stops -/

/-- Triage ends the case: a rule stops it, in a state that is final. -/
def TriageEnds (s : RecoveryState) (limits : PolicyLimits) (now : DateTime) : Prop :=
  match evaluate (stoppingContext s limits now) with
  | .ok v => v.decision = .stop ∧ (v.terminalStatus.getD .suppressed).isTerminal = true
  | .error _ => True

instance (s : RecoveryState) (limits : PolicyLimits) (now : DateTime) :
    Decidable (TriageEnds s limits now) := by
  unfold TriageEnds
  split <;> infer_instance

/-- What a run that ends in triage goes through. -/
def EndedAt (s₀ : RecoveryState) : Node → RecoveryState → Prop
  | .enrich, s | .triage, s =>
    ∀ limits now, stoppingContext s limits now = stoppingContext s₀ limits now
  | .audit, s => s.status ≠ .monitoring
  | _, _ => False

def NotMonitored : Except PyError RecoveryState → Prop
  | .ok s => s.status ≠ .monitoring
  | .error _ => True

section Ended

variable {rt : Runtime} {deps : AgentDeps Act} {moment : DateTime} {s₀ s : RecoveryState}

theorem ended_finalise (hnow : deps.now = pure moment) (node : Node) (exc : PyError) :
    (finalise deps node s exc).All (fun _ => True) NotMonitored := by
  simp only [finalise, auditNode, hnow, Prog.all_bind, Prog.all_pure]
  simp [NotMonitored, failedState, RecoveryState.withTrace]

theorem ended_triage (hnow : deps.now = pure moment)
    (hends : TriageEnds s₀ deps.stoppingLimits moment) (h : EndedAt s₀ .triage s) :
    (triageNode rt s deps).All (fun _ => True) fun r =>
      match r with
      | .ok s' =>
        match nextNode .triage s' with
        | some next => EndedAt s₀ next s'
        | none => NotMonitored (.ok s')
      | .error exc => (finalise deps .triage s exc).All (fun _ => True) NotMonitored := by
  -- a case TRIAGE ends goes straight to AUDIT, and is not monitored
  have hnext : ∀ s' : RecoveryState, s'.isTerminal = true →
      EndedAt s₀ (if s'.isTerminal then .audit else .diagnose) s' := by
    intro s' hterminal
    rw [if_pos hterminal]
    intro hstatus
    simp [RecoveryState.isTerminal, hstatus, CaseStatus.isTerminal] at hterminal
  unfold TriageEnds at hends
  simp only [triageNode, hnow, Prog.all_bind, Prog.all_pure, Act.all_liftExcept, h _ _]
  cases hv : evaluate (stoppingContext s₀ deps.stoppingLimits moment) with
  | error exc => exact ended_finalise hnow _ _
  | ok verdict =>
    simp only [hv] at hends
    cases assignArm rt s.caseId deps.experimentKey deps.controlArmFraction with
    | error exc => exact ended_finalise hnow _ _
    | ok assignment =>
      simp only [if_pos hends.1]
      exact (Prog.all_pure _).mpr (hnext _ hends.2)

/-- **A case that triage ends is not acted on.** -/
theorem ended_runCase (hnow : deps.now = pure moment)
    (hends : TriageEnds s₀ deps.stoppingLimits moment) :
    (runCase rt s₀ deps).All (fun _ => True) NotMonitored := by
  unfold runCase
  split
  · next hterminal =>
      intro hstatus
      simp [RecoveryState.isTerminal, hstatus, CaseStatus.isTerminal] at hterminal
  · refine all_runFrom (I := EndedAt s₀) (fun node s h => ?_) trivial fun _ _ => rfl
    -- no node after TRIAGE but AUDIT is reached
    cases node with
    | enrich =>
      simp only [runNode, enrichNode, hnow, Prog.all_bind, Prog.all_pure]
      exact h
    | triage => exact ended_triage hnow hends h
    | audit =>
      simp only [runNode, auditNode, hnow, Prog.all_bind, Prog.all_pure]
      exact h
    | _ => exact h.elim

end Ended

/-! ## The turns of the batch -/

namespace Batch

/-- One turn of the loop: the case it is about, and where it starts. -/
structure Turn where
  tally : BatchTally
  row : CorpusRow
  playbook : Playbook
  /-- What the run read before its loop. -/
  now : DateTime
  world : World

def turns (rt : Runtime) (c : BatchConfig) (now : DateTime) :
    BatchTally → List CorpusRow → World → List Turn
  | _, [], _ => []
  | tally, row :: rest, w =>
    match playbookFor row.kind row.status with
    | none => turns rt c now tally rest w
    | some playbook =>
      if ∃ limit ∈ c.limit, limit ≤ tally.created then []
      else ⟨tally, row, playbook, now, w⟩ ::
        match (runRow rt c now tally row playbook).run World.handler w with
        | (.ok tally, v) => turns rt c now tally rest v
        | (.error _, _) => []

/-- The turns of `run_batch`. -/
def batchTurns (rt : Runtime) (c : BatchConfig) (corpus : List CorpusRow) (w : World) :
    List Turn :=
  match Act.nowUtc.run World.handler w with
  | (.ok now, v) => turns rt c now {} corpus v
  | (.error _, _) => []

namespace Turn

def state (c : BatchConfig) (turn : Turn) : RecoveryState :=
  stateOf c turn.tally turn.row turn.playbook (caseId (turn.tally.created + 1))

/-- The turn records an action on an outbound channel. -/
def Contacts (rt : Runtime) (c : BatchConfig) (turn : Turn) : Prop :=
  match (runRow rt c turn.now turn.tally turn.row turn.playbook).run World.handler turn.world with
  | (.ok tally, _) => ∃ r ∈ tally.records.getLast?, ∃ a ∈ r.action, a.channel ≠ some .none
  | (.error _, _) => False

/-- Triage lets the case through, in the treatment arm. -/
def Admitted (rt : Runtime) (c : BatchConfig) (turn : Turn) : Prop :=
  ¬Controlled rt (depsAt c (caseNow turn.row)) (caseId (turn.tally.created + 1)) ∧
    ¬TriageEnds (turn.state c) (depsAt c (caseNow turn.row)).stoppingLimits (caseNow turn.row)

/-- The case is the customer's, and its own time is in the span. -/
def In (customerId : String) (start : DateTime) (length : ℤ) (turn : Turn) : Prop :=
  turn.row.customerId = customerId ∧ start ≤ caseNow turn.row ∧
    caseNow turn.row < start.add length

instance (rt : Runtime) (c : BatchConfig) (turn : Turn) : Decidable (turn.Contacts rt c) := by
  unfold Contacts
  split <;> infer_instance

instance (rt : Runtime) (c : BatchConfig) (turn : Turn) : Decidable (turn.Admitted rt c) :=
  inferInstanceAs (Decidable (_ ∧ _))

instance (customerId : String) (start : DateTime) (length : ℤ) (turn : Turn) :
    Decidable (turn.In customerId start length) := inferInstanceAs (Decidable (_ ∧ _))

end Turn

/-- A case that is not acted on gets no action. -/
theorem record_actionless {rt : Runtime} {c : BatchConfig} {final : RecoveryState} {case : CaseRow}
    {now : DateTime} (h : acted final = false) :
    (record rt c final case now).All (fun _ => True) fun r =>
      match r with
      | .ok r => r.action = none
      | .error _ => True := by
  have haction : actionFor final case.id now = pure none := by simp [actionFor, h]
  unfold record
  rw [haction]
  refine (Prog.all_true _).bind (fun assignment _ => ?_) fun _ _ => trivial
  refine (Prog.all_true _).bind (fun approval _ => ?_) fun _ _ => trivial
  exact (Prog.all_pure _).mpr rfl

/-- A case that is not left monitored is not recorded as acted on. -/
theorem runRow_actionless {rt : Runtime} {c : BatchConfig} (now : DateTime) {tally : BatchTally}
    {row : CorpusRow} {playbook : Playbook}
    (h : (runCase rt (stateOf c tally row playbook (caseId (tally.created + 1)))
      (depsAt c (caseNow row))).All (fun _ => True) NotMonitored) :
    (runRow rt c now tally row playbook).All (fun _ => True) fun r =>
      match r with
      | .ok tally => ∀ r ∈ tally.records.getLast?, r.action = none
      | .error _ => True := by
  refine h.bind (fun final hfinal => ?_) fun _ _ => trivial
  have hacted : acted final = false := by
    have hstatus : final.status ≠ .monitoring := hfinal
    simp [acted, hstatus]
  refine (record_actionless hacted).bind (fun r hr => ?_) fun _ _ => trivial
  refine (Prog.all_pure _).mpr ?_
  simpa [addCase] using hr

/-- **A case that is acted on was admitted.** -/
theorem admitted_of_contacts {rt : Runtime} {c : BatchConfig} {turn : Turn}
    (hadapter : (depsAt c (caseNow turn.row)).Thinks) (h : turn.Contacts rt c) :
    turn.Admitted rt c := by
  -- what is recorded as an action was left monitored
  have hmonitored : ¬(runCase rt (turn.state c) (depsAt c (caseNow turn.row))).All
      (fun _ => True) NotMonitored := by
    intro hnot
    have hactionless := runRow_actionless turn.now hnot
    have hrun := hactionless.run (H := World.handler) turn.world
    unfold Turn.Contacts at h
    split at h
    · next tally v hbatch =>
        rw [hbatch] at hrun
        obtain ⟨r, hr, a, ha, -⟩ := h
        rw [hrun r hr] at ha
        cases ha
    · exact h
  refine ⟨fun hcontrol => hmonitored ?_, fun hends => hmonitored (ended_runCase rfl hends)⟩
  -- a control case is never monitored
  have hends : (runCase rt (turn.state c) (depsAt c (caseNow turn.row))).All Cmd.Thinks
      (ControlEnds (turn.state c)) := control_runCase hadapter hcontrol
  refine hends.mono (fun _ _ => trivial) fun r hr => ?_
  cases r with
  | ok s => exact hr.monitoring
  | error e => trivial

/-! ## The caps -/

/-- **How often a customer may be contacted**: in any span of a day no more than one limit, and in any
span of two no more than the other. -/
def Capped (limits : PolicyLimits) (contacted : Turn → Bool) (turns : List Turn) : Prop :=
  ∀ (customerId : String) (start : DateTime),
    turns.countP (fun turn => turn.In customerId start day && contacted turn) ≤
        limits.maxContacts24h.toNat ∧
      turns.countP (fun turn => turn.In customerId start (2 * day) && contacted turn) ≤
        limits.maxContacts48h.toNat

/-- What is capped stays so if fewer are contacted. -/
theorem Capped.mono {limits : PolicyLimits} {contacted contacted' : Turn → Bool}
    {turns : List Turn} (h : Capped limits contacted turns)
    (hle : ∀ turn ∈ turns, contacted' turn = true → contacted turn = true) :
    Capped limits contacted' turns := by
  intro customerId start
  have hcount : ∀ length, turns.countP (fun turn =>
      turn.In customerId start length && contacted' turn) ≤
        turns.countP fun turn => turn.In customerId start length && contacted turn := by
    intro length
    refine List.countP_mono_left fun turn hturn hboth => ?_
    simp only [Bool.and_eq_true] at hboth ⊢
    exact ⟨hboth.1, hle turn hturn hboth.2⟩
  obtain ⟨hday, htwo⟩ := h customerId start
  exact ⟨(hcount _).trans hday, (hcount _).trans htwo⟩

/-- **The batch keeps to the caps where the cases it admits do**: nothing in it but the corpus spaces
a customer's contacts. -/
theorem batch_capped (rt : Runtime) (c : BatchConfig) (limits : PolicyLimits)
    (corpus : List CorpusRow) (w : World)
    (hadapter : ∀ moment, (depsAt c moment).Thinks)
    (h : Capped limits (fun turn => turn.Admitted rt c) (batchTurns rt c corpus w)) :
    Capped limits (fun turn => turn.Contacts rt c) (batchTurns rt c corpus w) := by
  refine h.mono fun turn _ hcontacts => ?_
  rw [decide_eq_true_eq] at hcontacts ⊢
  exact admitted_of_contacts (hadapter _) hcontacts

/-! ## Two attempts of one customer -/

/-- A payment of a customer that failed at the bank. -/
def failedAt (attemptedAt : DateTime) : CorpusRow where
  merchantId := "mch_1"
  kind := .checkout
  status := .failed
  amountPaise := 250000
  errorSource := some .bank
  errorReason := some "payment_timed_out"
  attemptedAt
  customerId := "cus_1"
  firstName := "Asha"
  consent := { customerId := "cus_1" }

def onlyTurn (row : CorpusRow) (w : World) : Turn :=
  ⟨{}, row, .paymentFailure, (w.after 1).clock, w.after 1⟩

theorem batchTurns_only (rt : Runtime) {c : BatchConfig} {row : CorpusRow} (w : World)
    (hplaybook : playbookFor row.kind row.status = some .paymentFailure) (hlimit : c.limit = none) :
    batchTurns rt c [row] w = [onlyTurn row w] := by
  have hnow : Act.nowUtc.run World.handler w = (.ok (w.after 1).clock, w.after 1) := rfl
  simp only [batchTurns, hnow, turns, hplaybook, hlimit, Option.mem_def, reduceCtorEq, false_and,
    exists_false, if_false, onlyTurn, List.cons.injEq, true_and]
  split <;> rfl

theorem treatedBatch_thinks (moment : DateTime) : (depsAt treatedBatch moment).Thinks where
  now := thinks_return moment
  adapter complete h := by cases h

/-- The turns are turns of the rows, in their order. -/
theorem rows_turns (rt : Runtime) (c : BatchConfig) (now : DateTime) (rows : List CorpusRow)
    (tally : BatchTally) (w : World) :
    ((turns rt c now tally rows w).map Turn.row).Sublist rows := by
  induction rows generalizing tally w with
  | nil => exact List.Sublist.slnil
  | cons row rest ih =>
    rw [turns]
    split
    · exact (ih tally w).cons row
    · split
      · exact List.nil_sublist _
      · refine List.Sublist.cons_cons row ?_
        split
        · exact ih _ _
        · exact List.nil_sublist _

/-- In a span there are no more turns of a customer than rows. -/
theorem countP_batchTurns_le (rt : Runtime) (c : BatchConfig) (corpus : List CorpusRow) (w : World)
    (p : CorpusRow → Bool) (q : Turn → Bool) :
    (batchTurns rt c corpus w).countP (fun turn => p turn.row && q turn) ≤ corpus.countP p := by
  have hrows : ((batchTurns rt c corpus w).map Turn.row).Sublist corpus :=
    rows_turns rt c _ corpus {} _
  have hboth : (batchTurns rt c corpus w).countP (fun turn => p turn.row && q turn) ≤
      (batchTurns rt c corpus w).countP (p ∘ Turn.row) := by
    refine List.countP_mono_left fun turn _ h => ?_
    exact (Bool.and_eq_true_iff.mp h).1
  rw [← List.countP_map] at hboth
  exact hboth.trans hrows.countP_le

/-- Two payments of a customer, more than a day apart. -/
def dayApart : List CorpusRow := [failedAt { utc := 8 * hour }, failedAt { utc := 40 * hour }]

/-- Both may be acted on. -/
theorem batch_capped_dayApart :
    (batchTurns plainRuntime treatedBatch dayApart (afternoon oneCase)).countP
        (fun turn => turn.Admitted plainRuntime treatedBatch) = 2 ∧
      Capped {} (fun turn => turn.Contacts plainRuntime treatedBatch)
        (batchTurns plainRuntime treatedBatch dayApart (afternoon oneCase)) := by
  refine ⟨by decide +kernel, batch_capped plainRuntime treatedBatch {} _ _ treatedBatch_thinks
    fun customerId start => ?_⟩
  have hspan := fun length => countP_batchTurns_le plainRuntime treatedBatch dayApart
    (afternoon oneCase)
    (fun row => decide (row.customerId = customerId ∧ start ≤ caseNow row ∧
      caseNow row < start.add length))
    (fun turn => decide (turn.Admitted plainRuntime treatedBatch))
  refine ⟨(hspan day).trans ?_, (hspan (2 * day)).trans List.countP_le_length⟩
  show List.countP _ _ ≤ 1
  by_contra hmany
  -- a span that has both is longer than a day
  have hall := List.countP_eq_length.mp (le_antisymm List.countP_le_length
    (show dayApart.length ≤ _ from Nat.lt_of_not_le hmany))
  have hfirst := (of_decide_eq_true (hall _ List.mem_cons_self)).2.1
  have hsecond := (of_decide_eq_true (hall _ (List.mem_cons_of_mem _ List.mem_cons_self))).2.2
  have hfirst : start.utc ≤ 8 * hour + hour / 2 := hfirst
  have hsecond : 40 * hour + hour / 2 < start.utc + day := hsecond
  unfold day hour second at *
  omega

/-- Two in an hour are two. -/
theorem not_batch_capped :
    ¬∀ (rt : Runtime) (c : BatchConfig) (limits : PolicyLimits) (corpus : List CorpusRow)
      (w : World), (∀ moment, (depsAt c moment).Thinks) →
        Capped limits (fun turn => turn.Contacts rt c) (batchTurns rt c corpus w) := by
  intro h
  have hday := (h plainRuntime treatedBatch {} [failedAt { utc := 8 * hour },
    failedAt { utc := 9 * hour }] (afternoon oneCase) treatedBatch_thinks "cus_1"
    { utc := 8 * hour }).1
  revert hday
  decide +kernel

end Batch

end AegisMerchant
