import AegisMerchant.Workers.ContactCaps

/-!
# What a monitored case was passed for

In a run without an executor a case ends monitored only through EXECUTE, so with an action the
firewall passed; and what the firewall looks at is what the case was from its start.

`passage_runCase` lists the nodes a run may pass through, and what each leaves alone.
-/

namespace AegisMerchant

open Time

/-- The case as the firewall finds it, in the arm triage assigns. -/
def decidedContext (deps : AgentDeps Act) (moment : DateTime) (s₀ : RecoveryState)
    (arm : ExperimentArm) : PolicyContext :=
  policyContext { s₀ with status := .strategyFormed, experimentArm := some arm }
    deps.stoppingLimits deps.moneyLimits moment

/-- **The firewall may pass an action for a case**: triage does not end the case, and some proposal
comes out of the firewall as that action. -/
structure MayPass (rt : Runtime) (deps : AgentDeps Act) (moment : DateTime) (s₀ : RecoveryState)
    (a : AppliedAction) : Prop where
  notEnded : ¬TriageEnds s₀ deps.stoppingLimits moment
  passed : ∃ assignment proposal d,
    assignArm rt s₀.caseId deps.experimentKey deps.controlArmFraction = .ok assignment ∧
      evaluatePolicy rt proposal (decidedContext deps moment s₀ assignment.arm) moment = .ok d ∧
        d.verdict = .passed ∧ d.applied = some a

/-- What may pass stays within the bounds on money. -/
theorem MayPass.withinBounds {rt : Runtime} {deps : AgentDeps Act} {moment : DateTime}
    {s₀ : RecoveryState} {a : AppliedAction} (h : MayPass rt deps moment s₀ a)
    (hsound : deps.moneyLimits.Sound) :
    ∃ proposal ctx clamps, ctx.limits = deps.moneyLimits ∧ WithinBounds proposal ctx clamps a := by
  obtain ⟨assignment, proposal, d, -, hd, -, happlied⟩ := h.passed
  obtain ⟨v, hv⟩ := admitted_of_applied hd happlied
  exact ⟨proposal, _, d.clamps, rfl, hv.withinBounds hsound⟩

/-! ## The invariant of a run -/

/-- Nothing the firewall looks at has changed, but the status and the arm. -/
structure Carries (s₀ s : RecoveryState) : Prop where
  caseId : s.caseId = s₀.caseId
  context : ∀ status arm limits moneyLimits now,
    policyContext { s with status := status, experimentArm := arm } limits moneyLimits now =
      policyContext { s₀ with status := status, experimentArm := arm } limits moneyLimits now

/-- Triage lets a case through, and gives it an arm. -/
def LetThrough (rt : Runtime) (deps : AgentDeps Act) (moment : DateTime) (s₀ s : RecoveryState) :
    Prop :=
  ¬TriageEnds s₀ deps.stoppingLimits moment ∧
    ∃ assignment, assignArm rt s₀.caseId deps.experimentKey deps.controlArmFraction =
      .ok assignment ∧ s.experimentArm = some assignment.arm

/-- A monitored case was passed for the action applied. -/
def PassedIfMonitored (rt : Runtime) (deps : AgentDeps Act) (moment : DateTime)
    (s₀ s : RecoveryState) : Prop :=
  s.status = .monitoring → ∃ a, s.policyApplied = some a ∧ MayPass rt deps moment s₀ a

/-- What each node is entered with. -/
def PassageAt (rt : Runtime) (deps : AgentDeps Act) (moment : DateTime) (s₀ : RecoveryState) :
    Node → RecoveryState → Prop
  | .enrich, s | .triage, s => Carries s₀ s ∧ s.status = s₀.status
  | .diagnose, s | .strategise, s => Carries s₀ s ∧ LetThrough rt deps moment s₀ s
  | .policy, s =>
    Carries s₀ s ∧ LetThrough rt deps moment s₀ s ∧ s.status = .strategyFormed
  | .execute, s => ∃ a, s.policyApplied = some a ∧ MayPass rt deps moment s₀ a
  | .escalate, _ => True
  | .audit, s => PassedIfMonitored rt deps moment s₀ s

/-- What a path may end with. -/
def PassageEnds (rt : Runtime) (deps : AgentDeps Act) (moment : DateTime) (s₀ : RecoveryState) :
    Except PyError RecoveryState → Prop
  | .ok s => PassedIfMonitored rt deps moment s₀ s
  | .error _ => True

section Steps

variable {rt : Runtime} {deps : AgentDeps Act} {moment : DateTime} {s₀ s : RecoveryState}

theorem passedIfMonitored_of_ne (h : s.status ≠ .monitoring) :
    PassedIfMonitored rt deps moment s₀ s := fun hstatus => absurd hstatus h

theorem passedIfMonitored_of_terminal (h : s.isTerminal = true) :
    PassedIfMonitored rt deps moment s₀ s := by
  refine passedIfMonitored_of_ne fun hstatus => ?_
  simp [RecoveryState.isTerminal, hstatus, CaseStatus.isTerminal] at h

/-- POLICY leaves no case monitored. -/
theorem decidedStatus_ne_monitoring (d : PolicyDecision) : decidedStatus d ≠ .monitoring := by
  intro hstatus
  unfold decidedStatus at hstatus
  split at hstatus
  · cases hstatus
  · split at hstatus
    · cases hstatus
    · have hterminal := blockedStatus_terminal d.blockReasons
      rw [hstatus] at hterminal
      cases hterminal

theorem passage_finalise (hnow : deps.now = pure moment) (node : Node) (exc : PyError) :
    (finalise deps node s exc).All (fun _ => True) (PassageEnds rt deps moment s₀) :=
  (ended_finalise hnow node exc).mono (fun _ hc => hc) fun r hr => by
    cases r with
    | ok s => exact passedIfMonitored_of_ne hr
    | error e => trivial

theorem passage_triage (hnow : deps.now = pure moment)
    (h : PassageAt rt deps moment s₀ .triage s) :
    (triageNode rt s deps).All (fun _ => True) fun r =>
      match r with
      | .ok s' =>
        match nextNode .triage s' with
        | some next => PassageAt rt deps moment s₀ next s'
        | none => PassageEnds rt deps moment s₀ (.ok s')
      | .error exc =>
        (finalise deps .triage s exc).All (fun _ => True) (PassageEnds rt deps moment s₀) := by
  obtain ⟨hcarries, hstatus⟩ := h
  have hcontext : stoppingContext s deps.stoppingLimits moment =
      stoppingContext s₀ deps.stoppingLimits moment := by
    have hpolicy := congrArg PolicyContext.stopping
      (hcarries.context s.status none deps.stoppingLimits deps.moneyLimits moment)
    refine hpolicy.trans ?_
    rw [hstatus]
    rfl
  -- a case that is not final goes on, in the arm it was given
  have hnext : ∀ (s' : RecoveryState) (assignment : Assignment), Carries s₀ s' →
      assignArm rt s₀.caseId deps.experimentKey deps.controlArmFraction = .ok assignment →
      s'.experimentArm = some assignment.arm →
      (s'.isTerminal = false → ¬TriageEnds s₀ deps.stoppingLimits moment) →
      PassageAt rt deps moment s₀ (if s'.isTerminal then .audit else .diagnose) s' := by
    intro s' assignment hcarries' hassigned harm hends
    split
    · next hterminal => exact passedIfMonitored_of_terminal hterminal
    · next hopen =>
      exact ⟨hcarries', hends (Bool.eq_false_of_not_eq_true hopen), assignment, hassigned, harm⟩
  simp only [triageNode, hnow, Prog.all_bind, Prog.all_pure, Act.all_liftExcept, hcontext,
    hcarries.caseId]
  cases hv : evaluate (stoppingContext s₀ deps.stoppingLimits moment) with
  | error exc => exact passage_finalise hnow _ _
  | ok verdict =>
    cases hassign : assignArm rt s₀.caseId deps.experimentKey deps.controlArmFraction with
    | error exc => exact passage_finalise hnow _ _
    | ok assignment =>
      simp only
      split
      · next hstop =>
        refine (Prog.all_pure _).mpr (hnext _ assignment ⟨hcarries.caseId, hcarries.context⟩
          hassign rfl fun hopen hends => ?_)
        unfold TriageEnds at hends
        simp only [hv] at hends
        exact absurd hends.2 (Bool.eq_false_iff.mp hopen)
      · next hgo =>
        refine (Prog.all_pure _).mpr (hnext _ assignment ⟨hcarries.caseId, hcarries.context⟩
          hassign rfl fun _ hends => ?_)
        unfold TriageEnds at hends
        simp only [hv] at hends
        exact hgo hends.1

/-- POLICY decides on the case as it was from its start. -/
theorem passage_policy (hnow : deps.now = pure moment)
    (h : PassageAt rt deps moment s₀ .policy s) :
    (policyNode rt s deps).All (fun _ => True) fun r =>
      match r with
      | .ok s' =>
        match nextNode .policy s' with
        | some next => PassageAt rt deps moment s₀ next s'
        | none => PassageEnds rt deps moment s₀ (.ok s')
      | .error exc =>
        (finalise deps .policy s exc).All (fun _ => True) (PassageEnds rt deps moment s₀) := by
  obtain ⟨hcarries, ⟨hnot, assignment, hassign, harm⟩, hstatus⟩ := h
  have hcontext : policyContext s deps.stoppingLimits deps.moneyLimits moment =
      decidedContext deps moment s₀ assignment.arm := by
    have hsame := hcarries.context s.status s.experimentArm deps.stoppingLimits deps.moneyLimits
      moment
    rw [hstatus, harm] at hsame
    rw [decidedContext, ← hsame, ← hstatus, ← harm]
  simp only [policyNode, hnow, Prog.all_bind, Prog.all_pure, Act.all_liftExcept, hcontext]
  cases hd : evaluatePolicy rt (s.proposal.getD { strategy := .noAction })
      (decidedContext deps moment s₀ assignment.arm) moment with
  | error exc => exact passage_finalise hnow _ _
  | ok d =>
    simp only [nextNode]
    cases hverdict : d.verdict with
    | passed =>
      obtain ⟨hiff, hsigned⟩ := evaluatePolicy_token hd
      obtain ⟨token, htoken⟩ := Option.isSome_iff_exists.mp (hiff.mp hverdict)
      have happlied := (hsigned token htoken).1
      exact ⟨token.applied, happlied, hnot, assignment, _, d, hassign, hd, hverdict, happlied⟩
    | escalateHitl => trivial
    | blocked => exact passedIfMonitored_of_ne (decidedStatus_ne_monitoring d)

/-- EXECUTE keeps the action it is entered with. -/
theorem passage_execute (hnow : deps.now = pure moment) (hexecutor : deps.executor = none)
    (h : PassageAt rt deps moment s₀ .execute s) :
    (executeNode rt s deps).All (fun _ => True) fun r =>
      match r with
      | .ok s' => PassedIfMonitored rt deps moment s₀ s'
      | .error exc =>
        (finalise deps .execute s exc).All (fun _ => True) (PassageEnds rt deps moment s₀) := by
  obtain ⟨a, happlied, hpass⟩ := h
  unfold executeNode
  cases htoken : s.policyToken with
  | none =>
    simp only [happlied, hnow, Prog.all_bind, Prog.all_pure]
    exact passedIfMonitored_of_ne (by simp)
  | some token =>
    simp only [happlied, hnow, hexecutor, Prog.all_bind, Prog.all_pure, Act.all_liftExcept]
    cases token.verify rt with
    | error exc => exact passage_finalise hnow _ _
    | ok _ => exact fun _ => ⟨a, happlied, hpass⟩

end Steps

/-! ## Every run -/

/-- **A case that ends monitored, without an executor, was passed for the action applied.** -/
theorem passage_runCase {rt : Runtime} {deps : AgentDeps Act} {moment : DateTime}
    {s₀ : RecoveryState} (hnow : deps.now = pure moment) (hexecutor : deps.executor = none) :
    (runCase rt s₀ deps).All (fun _ => True) (PassageEnds rt deps moment s₀) := by
  unfold runCase
  split
  · next hterminal => exact passedIfMonitored_of_terminal hterminal
  · refine all_runFrom (I := PassageAt rt deps moment s₀) (fun node s h => ?_) trivial
      ⟨⟨rfl, fun _ _ _ _ _ => rfl⟩, rfl⟩
    cases node with
    | enrich =>
      simp only [runNode, enrichNode, hnow, Prog.all_bind, Prog.all_pure]
      exact ⟨⟨h.1.caseId, h.1.context⟩, h.2⟩
    | triage => exact passage_triage hnow h
    | diagnose =>
      simp only [runNode, diagnoseNode, hnow]
      refine (Prog.all_true _).bind (fun routed _ => ?_) fun exc _ => passage_finalise hnow _ _
      simp only [Prog.all_bind, Prog.all_pure]
      exact ⟨⟨h.1.caseId, h.1.context⟩, h.2⟩
    | strategise =>
      simp only [runNode, strategiseNode, hnow]
      refine (Prog.all_true _).bind (fun proposed _ => ?_) fun exc _ => passage_finalise hnow _ _
      simp only [Prog.all_bind, Prog.all_pure]
      exact ⟨⟨h.1.caseId, h.1.context⟩, h.2, rfl⟩
    | policy => exact passage_policy hnow h
    | execute =>
      refine (passage_execute hnow hexecutor h).mono (fun _ hc => hc) fun r hr => ?_
      cases r <;> exact hr
    | escalate =>
      simp only [runNode, escalateNode, hnow, Prog.all_bind, Prog.all_pure]
      exact passedIfMonitored_of_ne (by simp)
    | audit =>
      simp only [runNode, auditNode, hnow, Prog.all_bind, Prog.all_pure]
      exact h

end AegisMerchant
