import AegisMerchant.Agent.GraphLaws
import AegisMerchant.Workers.Batch

/-!
# What becomes of `NO_ACTION`

`NO_ACTION` is exempt from the approval ladder because it cannot move money. It is passed all the
same, with a token; and nothing that takes the token looks at the strategy again. With an executor
the run creates a link for the whole order amount, and without one the batch records an action.

`idle_execute_iff` is about the executor, `runCase_idle_iff` about the run, and `noAction_idle_iff`
about both ways to a case. `not_noAction_idle` is the link for the whole amount.
-/

namespace AegisMerchant

open Time

/-! ## With an executor -/

/-- **What a run that takes no action keeps to**: no request to create a link, and no transaction
that goes in with an outbox, action or contact row. -/
def Idle : {β : Type} → Cmd β → World → Prop
  | _, .createPaymentLink _, _ => False
  | _, .commit ws, w => (w.db.commit ws).isSome = true → ∀ write ∈ ws, write.Aside
  | _, _, _ => True

instance : {β : Type} → (c : Cmd β) → (w : World) → Decidable (Idle c w)
  | _, .createPaymentLink _, _ => inferInstanceAs (Decidable False)
  | _, .commit ws, w =>
    inferInstanceAs (Decidable ((w.db.commit ws).isSome = true → ∀ write ∈ ws, write.Aside))
  | _, .now, _ | _, .select _ _, _ | _, .flush _ _, _ | _, .tokenHex, _ | _, .uniform, _
  | _, .getPaymentLinkByReference _, _ | _, .completeStructured _ _, _ =>
    inferInstanceAs (Decidable True)

theorem idle_of_thinks {β : Type} (c : Cmd β) (w : World) (h : c.Thinks) : Idle c w := by
  cases c with
  | now | completeStructured => trivial
  | _ => exact h.elim

namespace OutboxExecutor

/-- The intent is refused exactly when no row is stored under its reference and its own would break
a constraint. -/
theorem intended_eq_none {s : RecoveryState} {applied : AppliedAction} {w : World} :
    intended s applied w = none ↔
      (∀ row ∈ w.db.tables.outbox, row.referenceId ≠ applied.referenceId) ∧
        ¬(intentOf (w.after 1) s applied).Fits w.db.tables := by
  unfold intended
  rw [← outboxByReference_eq_none]
  cases w.db.tables.outboxByReference applied.referenceId with
  | some row => simp
  | none =>
    rw [← valid_insertOutbox w.db.valid]
    simp only [true_and]
    exact Option.map_eq_none_iff.trans Database.commit_eq_none

/-- Phase one of a refused intent writes nothing. -/
theorem idle_phaseOne {s : RecoveryState} {applied : AppliedAction} {w : World}
    (h : intended s applied w = none) :
    (phaseOne s applied).Along World.handler Idle w := by
  have hrefused := intended_eq_none.mp h
  have hfound := outboxByReference_eq_none.mpr hrefused.1
  -- the insert is refused by a constraint, and the lookup after it finds nothing
  have hcommit : w.db.commit [.insertOutbox (intentOf (w.after 1) s applied)] = none :=
    Database.commit_eq_none.mpr fun hvalid =>
      hrefused.2 ((valid_insertOutbox w.db.valid).mp hvalid)
  rw [phaseOne, Prog.along_bind, Act.along_select, Act.run_select, hfound]
  refine ⟨trivial, ?_⟩
  simp only
  rw [Prog.along_bind, run_intentRow]
  refine ⟨by simp [intentRow, Prog.along_bind, Idle], ?_⟩
  simp only [Prog.along_bind, Prog.along_attempt, Prog.run_attempt, Act.along_commit,
    Act.run_commit, World.after_after, World.after_db, Nat.reduceAdd, hcommit]
  refine ⟨fun hok => ?_, ?_⟩
  · simp [hcommit] at hok
  · simp only [Act.along_select, Act.run_select, World.after_db, hfound]
    exact ⟨trivial, trivial⟩

/-- **An authorised execution of a chargeable action takes no action exactly when its intent is
refused.** -/
theorem idle_execute_iff {rt : Runtime} {s : RecoveryState} {applied : AppliedAction}
    {token : PolicyToken} (ex : OutboxExecutor) (happlied : s.policyApplied = some applied)
    (htoken : s.policyToken = some token) (hverify : token.verify rt = .ok ())
    (hcharge : Chargeable applied) (w : World) :
    (ex.execute rt s).Along World.handler Idle w ↔ intended s applied w = none := by
  constructor
  · intro h
    by_contra hsome
    obtain ⟨v, hv⟩ := Option.ne_none_iff_exists'.mp hsome
    -- if phase one went through, the request for a link follows
    have hcreates := (along_execute ex happlied htoken hverify w).mp
      (h.mono (ψ := World.Creates fun _ _ => False) fun c u hc => by
        cases c with
        | createPaymentLink request => exact hc
        | _ => trivial) v hv
    rcases requestOf_cases s applied (v.after 1).clock with ⟨-, request, hok, -⟩ | ⟨hfree, -⟩
    · exact hcreates request hok
    · exact hfree hcharge
  · intro h
    have hrun := run_phaseOne s applied w
    rw [h] at hrun
    unfold execute
    simp only [happlied, htoken, hverify]
    rw [Prog.along_bind, Act.run_liftExcept]
    refine ⟨Act.along_liftExcept, ?_⟩
    simp only
    rw [Prog.along_bind, hrun]
    exact ⟨idle_phaseOne h, trivial⟩

end OutboxExecutor

section Run

variable {rt : Runtime} {deps : AgentDeps Act} {ex : OutboxExecutor} {s : RecoveryState}
  {w : World} {a : AppliedAction}

/-- An action the firewall applies as `NO_ACTION` can be charged like any other. -/
theorem noAction_chargeable (hdeps : deps.Thinks) (ha : firewallApplied rt deps s w = some a)
    (hno : a.strategy = .noAction) : OutboxExecutor.Chargeable a := by
  obtain ⟨-, proposal, ctx, now, d, hd, happlied⟩ := firewallApplied_eq_some hdeps ha
  obtain ⟨-, -, -, hcharge, href⟩ := noAction_passes hd happlied hno
  exact ⟨hcharge, href ▸ referenceId_ne_empty _ _⟩

/-- **A run with `NO_ACTION` applied takes none exactly when the executor is refused its intent.** -/
theorem runCase_idle_iff (hdeps : deps.Thinks) (hexecutor : deps.executor = some (ex.execute rt))
    (ha : firewallApplied rt deps s w = some a) (hno : a.strategy = .noAction) :
    (runCase rt s deps).Along World.handler Idle w ↔
      ∀ s' v, entered rt deps .execute .enrich s w = some (s', v) →
        (∀ row ∈ w.db.tables.outbox, row.referenceId ≠ a.referenceId) ∧
          ¬(OutboxExecutor.intentOf (v.after 1) s' a).Fits w.db.tables := by
  obtain ⟨hopen, -⟩ := firewallApplied_eq_some hdeps ha
  rw [runCase, if_neg (by simp [hopen]),
    along_runFrom rt hdeps (fun c v hc => idle_of_thinks c v hc)]
  refine forall₃_congr fun s' v hentered => ?_
  obtain ⟨a', token, n, ha', happlied, htoken, hverify, rfl⟩ :=
    entered_execute_authorised hdeps hopen hentered
  obtain rfl : a = a' := Option.some.inj (ha.symm.trans ha')
  rw [along_executeNode hexecutor happlied htoken hverify,
    OutboxExecutor.idle_execute_iff ex happlied htoken hverify (noAction_chargeable hdeps ha hno),
    OutboxExecutor.intended_eq_none, World.after_db]

end Run

/-! ## Without one -/

/-- A case with `NO_ACTION` applied counts as acted on, and has a proposal to record. -/
def NoActionCounts (s : RecoveryState) : Prop :=
  ∀ a, s.policyApplied = some a → a.strategy = .noAction →
    Batch.acted s = true ∧ s.proposal.isSome = true

/-- What each node is entered with, as far as `NO_ACTION` is concerned. -/
def NoActionAt (rt : Runtime) : Node → RecoveryState → Prop
  | .enrich, s | .triage, s | .diagnose, s | .strategise, s => s.policyApplied = none
  | .policy, s => s.policyApplied = none ∧ s.proposal.isSome = true
  | .execute, s => ∀ a, s.policyApplied = some a → a.strategy = .noAction →
      s.experimentArm.getD .treatment = .treatment ∧ s.proposal.isSome = true ∧
        ∃ token, s.policyToken = some token ∧ token.verify rt = .ok ()
  | .escalate, s => ∀ a, s.policyApplied = some a → a.strategy ≠ .noAction
  | .audit, s => NoActionCounts s

section Steps

variable {rt : Runtime} {deps : AgentDeps Act} {moment : DateTime} {s : RecoveryState}

/-- What a path may end with. -/
def NoActionEnds : Except PyError RecoveryState → Prop
  | .ok s => NoActionCounts s
  | .error _ => True

theorem noActionCounts_of_none (h : s.policyApplied = none) : NoActionCounts s := by
  intro a ha
  rw [h] at ha
  cases ha

/-- Before the firewall decides there is nothing to keep but a proposal. -/
theorem noActionAt_of_none {node : Node} (hnode : node ≠ .policy) (h : s.policyApplied = none) :
    NoActionAt rt node s := by
  have hnone : ∀ a, s.policyApplied ≠ some a := by simp [h]
  cases node with
  | policy => exact absurd rfl hnode
  | enrich | triage | diagnose | strategise => exact h
  | execute | escalate | audit => exact fun a ha => absurd ha (hnone a)

theorem all_finalise (hnow : deps.now = pure moment) {node : Node} {exc : PyError}
    (h : s.policyApplied = none) :
    (finalise deps node s exc).All (fun _ => True) NoActionEnds := by
  simp only [finalise, auditNode, hnow, Prog.all_bind, Prog.all_pure]
  exact noActionCounts_of_none h

theorem all_triageNode (hnow : deps.now = pure moment) (h : s.policyApplied = none) :
    (triageNode rt s deps).All (fun _ => True) fun r =>
      match r with
      | .ok s' =>
        match nextNode .triage s' with
        | some next => NoActionAt rt next s'
        | none => NoActionEnds (.ok s')
      | .error exc => (finalise deps .triage s exc).All (fun _ => True) NoActionEnds := by
  have hnext : ∀ s', s'.policyApplied = none →
      NoActionAt rt (if s'.isTerminal then .audit else .diagnose) s' := by
    intro s' hs'
    refine noActionAt_of_none ?_ hs'
    split <;> decide
  simp only [triageNode, hnow, Prog.all_bind, Prog.all_pure, Act.all_liftExcept]
  cases evaluate (stoppingContext s deps.stoppingLimits moment) with
  | error exc => exact all_finalise hnow h
  | ok verdict =>
    cases assignArm rt s.caseId deps.experimentKey deps.controlArmFraction with
    | error exc => exact all_finalise hnow h
    | ok assignment =>
      simp only
      split
      · exact (Prog.all_pure _).mpr (hnext _ h)
      · exact (Prog.all_pure _).mpr (hnext _ h)

/-- POLICY hands `NO_ACTION` on to EXECUTE, passed, for the treatment arm, under its token. -/
theorem all_policyNode (hnow : deps.now = pure moment) (h : NoActionAt rt .policy s) :
    (policyNode rt s deps).All (fun _ => True) fun r =>
      match r with
      | .ok s' =>
        match nextNode .policy s' with
        | some next => NoActionAt rt next s'
        | none => NoActionEnds (.ok s')
      | .error exc => (finalise deps .policy s exc).All (fun _ => True) NoActionEnds := by
  simp only [policyNode, hnow, Prog.all_bind, Prog.all_pure, Act.all_liftExcept]
  cases hd : evaluatePolicy rt (s.proposal.getD { strategy := .noAction })
      (policyContext s deps.stoppingLimits deps.moneyLimits moment) moment with
  | error exc => exact all_finalise hnow h.1
  | ok d =>
    have hdecided : ∀ s', s'.policyVerdict = some d.verdict → s'.policyApplied = d.applied →
        s'.policyToken = d.token → s'.experimentArm = s.experimentArm → s'.proposal = s.proposal →
          match nextNode .policy s' with
          | some next => NoActionAt rt next s'
          | none => NoActionEnds (.ok s') := by
      intro s' hverdict happlied htoken harm hproposal
      have hpasses : ∀ a, s'.policyApplied = some a → a.strategy = .noAction →
          d.verdict = .passed ∧ (∃ token, s'.policyToken = some token ∧ token.verify rt = .ok ()) ∧
            s'.experimentArm.getD .treatment = .treatment := by
        intro a ha hno
        obtain ⟨hpassed, htok, harm', -⟩ := noAction_passes hd (happlied.symm.trans ha) hno
        refine ⟨hpassed, ⟨_, htoken.trans htok, verify_mint _ _ _⟩, ?_⟩
        have htreated : (s.experimentArm.getD .treatment) ≠ .control := harm'
        rw [harm]
        cases hcase : s.experimentArm.getD .treatment with
        | treatment => rfl
        | control => exact absurd hcase htreated
      simp only [nextNode, hverdict]
      cases hd' : d.verdict with
      | passed =>
        intro a ha hno
        obtain ⟨-, htok, harm'⟩ := hpasses a ha hno
        exact ⟨harm', by rw [hproposal]; exact h.2, htok⟩
      | escalateHitl =>
        intro a ha hno
        have hpassed := (hpasses a ha hno).1
        rw [hd'] at hpassed
        cases hpassed
      | blocked =>
        intro a ha hno
        have hpassed := (hpasses a ha hno).1
        rw [hd'] at hpassed
        cases hpassed
    exact hdecided _ rfl rfl rfl rfl rfl

/-- Without an executor, EXECUTE reports a `NO_ACTION` as sent. -/
theorem all_executeNode (hnow : deps.now = pure moment) (hexecutor : deps.executor = none)
    (h : NoActionAt rt .execute s) :
    (executeNode rt s deps).All (fun _ => True) fun r =>
      match r with
      | .ok s' => NoActionCounts s'
      | .error exc => (finalise deps .execute s exc).All (fun _ => True) NoActionEnds := by
  unfold executeNode
  cases happlied : s.policyApplied with
  | none =>
    simp only [hnow, Prog.all_bind, Prog.all_pure]
    exact noActionCounts_of_none happlied
  | some a =>
    cases htoken : s.policyToken with
    | none =>
      simp only [hnow, Prog.all_bind, Prog.all_pure]
      -- a NO_ACTION comes with its token, so this branch is not taken
      intro a' ha' hno
      obtain ⟨-, -, token, htok, -⟩ := h a' ha' hno
      rw [htoken] at htok
      cases htok
    | some token =>
      simp only [hnow, hexecutor, Prog.all_bind, Prog.all_pure, Act.all_liftExcept]
      cases hverify : token.verify rt with
      | error exc =>
        simp only [finalise, auditNode, hnow, Prog.all_bind, Prog.all_pure]
        intro a' ha' hno
        obtain ⟨-, -, token', htok, hok⟩ := h a' ha' hno
        -- the token verified when it was minted, and verifies here
        obtain rfl : token = token' := Option.some.inj (htoken.symm.trans htok)
        rw [hverify] at hok
        cases hok
      | ok _ =>
        intro a' ha' hno
        obtain ⟨harm, hproposal, -⟩ := h a' ha' hno
        refine ⟨?_, hproposal⟩
        show ((s.experimentArm.getD .treatment) = .treatment && _) = true
        simp [harm]

end Steps

/-- **A run of the batch never leaves a `NO_ACTION` out of its count.** -/
theorem all_runCase_noAction {rt : Runtime} {deps : AgentDeps Act} {moment : DateTime}
    {s : RecoveryState} (hnow : deps.now = pure moment) (hexecutor : deps.executor = none)
    (hs : s.policyApplied = none) :
    (runCase rt s deps).All (fun _ => True) NoActionEnds := by
  unfold runCase
  split
  · exact noActionCounts_of_none hs
  · refine all_runFrom (I := NoActionAt rt) (fun node s h => ?_) trivial hs
    -- POLICY and EXECUTE carry the argument; the other nodes leave the action alone
    cases node with
    | policy => exact all_policyNode hnow h
    | execute =>
      refine (all_executeNode hnow hexecutor h).mono (fun _ hc => hc) fun r hr => ?_
      cases r <;> exact hr
    | enrich =>
      simp only [runNode, enrichNode, hnow, Prog.all_bind, Prog.all_pure]
      exact h
    | triage => exact all_triageNode hnow h
    | diagnose =>
      simp only [runNode, diagnoseNode, hnow]
      refine (Prog.all_true _).bind (fun routed _ => ?_) fun exc _ => all_finalise hnow h
      simp only [Prog.all_bind, Prog.all_pure]
      exact h
    | strategise =>
      simp only [runNode, strategiseNode, hnow]
      refine (Prog.all_true _).bind (fun proposed _ => ?_) fun exc _ => all_finalise hnow h
      simp only [Prog.all_bind, Prog.all_pure]
      exact ⟨h, rfl⟩
    | escalate =>
      simp only [runNode, escalateNode, hnow, Prog.all_bind, Prog.all_pure]
      exact fun a ha hno => absurd hno (h a ha)
    | audit =>
      simp only [runNode, auditNode, hnow, Prog.all_bind, Prog.all_pure]
      exact h

/-! ## The batch -/

/-- **What the batch should never store**: an action of a case with `NO_ACTION` applied, or its
recovery. -/
def BatchRecord.Idle (r : BatchRecord) : Prop :=
  ∀ a, r.applied = some a → a.strategy = .noAction →
    r.action = none ∧ r.case.status ≠ .recovered

/-- What it always stores of one: the action, and the case as monitored or recovered. -/
def BatchRecord.Counts (r : BatchRecord) : Prop :=
  ∀ a, r.applied = some a → a.strategy = .noAction →
    r.action.isSome = true ∧ (r.case.status = .recovered ∨ r.case.status = .monitoring)

namespace Batch

variable {rt : Runtime} {c : BatchConfig} {now : DateTime}

theorem settlement_acted {final : RecoveryState} {id : String} {paid : Bool}
    (h : acted final = true) :
    (settlement final id paid).1 = .recovered ∨ (settlement final id paid).1 = .monitoring := by
  have hstatus : final.status = .monitoring := by
    simp only [acted, Bool.and_eq_true, decide_eq_true_eq] at h
    exact h.2
  unfold settlement
  cases paid with
  | true => simp [h]
  | false => simp [hstatus]

/-- One record. -/
theorem all_record {final : RecoveryState} {row : CorpusRow} {playbook : Playbook} {id : String}
    {paid : Bool} (h : NoActionCounts final) :
    (record rt c final (caseRow final row playbook id paid now) now).All (fun _ => True) fun r =>
      match r with
      | .ok r => BatchRecord.Counts r
      | .error _ => True := by
  -- the batch writes an action for every proposal it holds to have acted
  have haction : (actionFor final id now).All (fun _ => True) fun r =>
      ∀ action, r = .ok action → acted final = true → final.proposal.isSome = true →
        action.isSome = true := by
    unfold actionFor
    split
    · simp
    · next hne =>
        refine (Prog.all_pure _).mpr fun _ _ hacted hproposal => ?_
        obtain ⟨proposal, hsome⟩ := Option.isSome_iff_exists.mp hproposal
        exact absurd hsome (hne proposal hacted)
  refine (Prog.all_true _).bind (fun assignment _ => ?_) fun _ _ => trivial
  refine (Prog.all_true _).bind (fun approval _ => ?_) fun _ _ => trivial
  refine haction.bind (fun action hsome => ?_) fun _ _ => trivial
  refine (Prog.all_pure _).mpr fun a ha hno => ?_
  obtain ⟨hacted, hproposal⟩ := h a ha hno
  exact ⟨hsome action rfl hacted hproposal, settlement_acted hacted⟩

/-- One turn of the loop keeps what every record has. -/
theorem all_runRow {tally : BatchTally} {row : CorpusRow} {playbook : Playbook}
    (h : ∀ r ∈ tally.records, BatchRecord.Counts r) :
    (runRow rt c now tally row playbook).All (fun _ => True) fun r =>
      match r with
      | .ok tally' => ∀ r ∈ tally'.records, BatchRecord.Counts r
      | .error _ => True := by
  refine (all_runCase_noAction rfl rfl rfl).bind (fun final hfinal => ?_) fun _ _ => trivial
  refine (all_record hfinal).bind (fun r hr => ?_) fun _ _ => trivial
  refine (Prog.all_pure _).mpr fun r' hr' => ?_
  rcases List.mem_append.mp hr' with hr' | hr'
  · exact h r' hr'
  · exact List.mem_singleton.mp hr' ▸ hr

theorem all_runRows {rows : List CorpusRow} {tally : BatchTally}
    (h : ∀ r ∈ tally.records, BatchRecord.Counts r) :
    (runRows rt c now tally rows).All (fun _ => True) fun r =>
      match r with
      | .ok tally' => ∀ r ∈ tally'.records, BatchRecord.Counts r
      | .error _ => True := by
  induction rows generalizing tally with
  | nil => exact (Prog.all_pure _).mpr h
  | cons row rest ih =>
    rw [runRows]
    split
    · exact ih h
    · split
      · exact (Prog.all_pure _).mpr h
      · exact (all_runRow h).bind (fun _ htally => ih htally) fun _ _ => trivial

end Batch

/-! ## Both -/

/-- **`NO_ACTION` takes no action in a run exactly when the executor is refused its intent; in the
batch it always takes one.** -/
theorem noAction_idle_iff (rt : Runtime) :
    (∀ (deps : AgentDeps Act) (ex : OutboxExecutor) (s : RecoveryState) (w : World)
      (a : AppliedAction), deps.Thinks → deps.executor = some (ex.execute rt) →
        firewallApplied rt deps s w = some a → a.strategy = .noAction →
          ((runCase rt s deps).Along World.handler Idle w ↔
            ∀ s' v, entered rt deps .execute .enrich s w = some (s', v) →
              (∀ row ∈ w.db.tables.outbox, row.referenceId ≠ a.referenceId) ∧
                ¬(OutboxExecutor.intentOf (v.after 1) s' a).Fits w.db.tables)) ∧
    ∀ (c : BatchConfig) (corpus : List CorpusRow) (w v : World) (tally : BatchTally),
      (Batch.runBatch rt c corpus).run World.handler w = (.ok tally, v) →
        ∀ r ∈ tally.records, ∀ a, r.applied = some a → a.strategy = .noAction → ¬r.Idle := by
  refine ⟨fun deps ex s w a hdeps hexecutor ha hno => runCase_idle_iff hdeps hexecutor ha hno,
    fun c corpus w v tally hrun r hr a ha hno hidle => ?_⟩
  -- no batch is idle: every NO_ACTION it passes has its action row
  have hall : (Batch.runBatch rt c corpus).All (fun _ => True) fun r =>
      match r with
      | .ok tally => ∀ r ∈ tally.records, r.Counts
      | .error _ => True := by
    unfold Batch.runBatch
    split
    · trivial
    · exact (Prog.all_true _).bind (fun now _ => Batch.all_runRows (by simp)) fun _ _ => trivial
  have hcounts := hall.run (H := World.handler) w
  rw [hrun] at hcounts
  have hsome := (hcounts r hr a ha hno).1
  rw [(hidle a ha hno).1] at hsome
  cases hsome

/-- A payment the merchant's own risk controls refused. -/
def refusedPayment : RecoveryState where
  caseId := "RC-0001"
  merchantId := "mch_1"
  customerId := "cus_1"
  playbook := .paymentFailure
  amountPaise := 250000
  errorSource := some "business"
  errorReason := some "blocked_by_risk"

def afternoon (db : Database) : World := { worldOf db with clock := { utc := 8 * hour } }

/-- What the firewall makes of it. -/
def refusedAction : AppliedAction where
  caseId := "RC-0001"
  strategy := .noAction
  amountPaise := 250000
  discountPct := 0
  discountAmountPaise := 0
  chargeAmountPaise := 250000
  linkExpiryMinutes := 30
  channel := .whatsapp
  messageClass := .transactional
  escalationRung := .a0Autonomous
  referenceId := referenceId "RC-0001" 1
  attemptNo := 1

def refusedCorpus : List CorpusRow :=
  [{ merchantId := "mch_1", kind := .checkout, status := .failed, amountPaise := 250000
     errorSource := some .business, errorReason := some "blocked_by_risk"
     attemptedAt := { utc := 8 * hour }, customerId := "cus_1", firstName := "Asha"
     consent := { customerId := "cus_1" } }]

/-- Every case treated, and nobody paying unaided. -/
def treatedBatch : BatchConfig := { controlArmFraction := 0, draws := fun _ => 1 }

def appliedIn : Except PyError BatchTally → List (Option AppliedAction)
  | .ok tally => tally.records.map (·.applied)
  | .error _ => []

/-- Of a case no row is stored of, the intent is refused; of such a corpus, the batch records an
action. -/
theorem noAction_idle_refused :
    (runCase plainRuntime refusedPayment treatedDeps).Along World.handler Idle
        (afternoon ⟨{}, by decide⟩) ∧
      ∃ tally v, (Batch.runBatch plainRuntime treatedBatch refusedCorpus).run World.handler
          (afternoon oneCase) = (.ok tally, v) ∧ ∃ r ∈ tally.records, ¬r.Idle := by
  obtain ⟨hrun, hbatch⟩ := noAction_idle_iff plainRuntime
  refine ⟨(hrun treatedDeps {} refusedPayment _ refusedAction treatedDeps_thinks rfl
    (by decide +kernel) rfl).mpr fun s' v _ => ⟨by simp [afternoon, worldOf], fun hfits => ?_⟩, ?_⟩
  · obtain ⟨case, hcase, -⟩ := hfits.case
    simp [afternoon, worldOf] at hcase
  · have happlied : appliedIn ((Batch.runBatch plainRuntime treatedBatch refusedCorpus).run
        World.handler (afternoon oneCase)).1 = [some refusedAction] := by decide +kernel
    rcases hbrun : (Batch.runBatch plainRuntime treatedBatch refusedCorpus).run World.handler
      (afternoon oneCase) with ⟨e | tally, v⟩
    · rw [hbrun] at happlied
      cases happlied
    · rw [hbrun] at happlied
      obtain ⟨r, hr, ha⟩ : ∃ r ∈ tally.records, r.applied = some refusedAction := by
        refine List.mem_map.mp ?_
        rw [show tally.records.map (·.applied) = _ from happlied]
        exact List.mem_singleton_self _
      exact ⟨tally, v, rfl, r, hr, hbatch _ _ _ _ _ hbrun r hr refusedAction ha rfl⟩

/-- Of the stored case, a link is created for the whole order amount. -/
theorem not_noAction_idle :
    ¬∀ (rt : Runtime) (deps : AgentDeps Act) (ex : OutboxExecutor) (s : RecoveryState) (w : World)
      (a : AppliedAction), deps.Thinks → deps.executor = some (ex.execute rt) →
        firewallApplied rt deps s w = some a → a.strategy = .noAction →
          (runCase rt s deps).Along World.handler Idle w := by
  intro h
  have hidle := h plainRuntime treatedDeps {} refusedPayment (afternoon oneCase) refusedAction
    treatedDeps_thinks rfl (by decide +kernel) rfl
  revert hidle
  decide +kernel

end AegisMerchant
