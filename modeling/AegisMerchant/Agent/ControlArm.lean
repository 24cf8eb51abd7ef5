import AegisMerchant.Agent.GraphLaws
import AegisMerchant.Guardrails.PolicyLaws

/-!
# The control arm

A case in the control arm goes through the graph like any other, up to the firewall. Nothing that
acts is entered.

`control_runNode` is the step, `control_runCase` the run, and `control_entered` says that EXECUTE is
never entered.
-/

namespace AegisMerchant

open Time

/-! ## The arm, and what it may leave -/

/-- Triage assigns a case to the control arm. -/
def Controlled (rt : Runtime) (deps : AgentDeps Act) (caseId : String) : Prop :=
  ∃ assignment, assignArm rt caseId deps.experimentKey deps.controlArmFraction = .ok assignment ∧
    assignment.arm = .control

instance (rt : Runtime) (deps : AgentDeps Act) (caseId : String) :
    Decidable (Controlled rt deps caseId) :=
  decidable_of_iff
    ((assignArm rt caseId deps.experimentKey deps.controlArmFraction).toOption.any
      fun assignment => assignment.arm = .control)
    (by
      unfold Controlled
      cases assignArm rt caseId deps.experimentKey deps.controlArmFraction <;>
        simp [Except.toOption])

/-- A state with no token but the one its run began with. -/
def NoNewToken (s₀ s : RecoveryState) : Prop :=
  s.policyToken = none ∨ s.policyToken = s₀.policyToken

/-- Where a run leaves a case nobody acts on: not monitored, not waiting for approval, and with no
new token. -/
structure LeftAlone (s₀ s : RecoveryState) : Prop where
  monitoring : s.status ≠ .monitoring
  approval : s.status ≠ .awaitingApproval
  token : NoNewToken s₀ s

theorem leftAlone_of_terminal {s₀ s : RecoveryState} (h : s.isTerminal = true)
    (htoken : NoNewToken s₀ s) : LeftAlone s₀ s := by
  refine ⟨fun hstatus => ?_, fun hstatus => ?_, htoken⟩ <;>
    simp [RecoveryState.isTerminal, hstatus, CaseStatus.isTerminal] at h

/-- What each node of a controlled run is entered with. -/
def ControlAt (s₀ : RecoveryState) : Node → RecoveryState → Prop
  | .enrich, s | .triage, s => s.caseId = s₀.caseId ∧ NoNewToken s₀ s
  | .diagnose, s | .strategise, s | .policy, s =>
    s.experimentArm = some .control ∧ NoNewToken s₀ s
  | .execute, _ | .escalate, _ => False
  | .audit, s => LeftAlone s₀ s

/-- What a controlled run may end with. -/
def ControlEnds (s₀ : RecoveryState) : Except PyError RecoveryState → Prop
  | .ok s => LeftAlone s₀ s
  | .error _ => True

section Steps

variable {rt : Runtime} {deps : AgentDeps Act} {s₀ s : RecoveryState}

/-- What a node hands on. -/
def ControlHandsOn (deps : AgentDeps Act) (s₀ : RecoveryState) (node : Node) (s : RecoveryState) :
    Except PyError RecoveryState → Prop
  | .ok s' =>
    match nextNode node s' with
    | some next => ControlAt s₀ next s'
    | none => ControlEnds s₀ (.ok s')
  | .error exc => (finalise deps node s exc).All Cmd.Thinks (ControlEnds s₀)

/-- A node that raises ends a run as a failure. -/
theorem controlHandsOn_error (hdeps : deps.Thinks) {node : Node} {exc : PyError}
    (htoken : NoNewToken s₀ s) : ControlHandsOn deps s₀ node s (.error exc) := by
  refine hdeps.now.bind (fun now _ => hdeps.now.bind (fun now' _ => ?_) fun _ _ => trivial)
    fun _ _ => trivial
  exact leftAlone_of_terminal rfl htoken

theorem control_triage (hdeps : deps.Thinks) (harm : Controlled rt deps s₀.caseId)
    (h : ControlAt s₀ .triage s) :
    (triageNode rt s deps).All Cmd.Thinks (ControlHandsOn deps s₀ .triage s) := by
  obtain ⟨hid, htoken⟩ := h
  obtain ⟨assignment, hassign, hcontrol⟩ := harm
  rw [← hid] at hassign
  have hnext : ∀ s', s'.experimentArm = some .control → s'.policyToken = s.policyToken →
      ControlHandsOn deps s₀ .triage s (.ok s') := by
    intro s' harm' htoken'
    have htoken' : NoNewToken s₀ s' := by
      unfold NoNewToken
      rwa [htoken']
    show ControlAt s₀ (if s'.isTerminal then .audit else .diagnose) s'
    cases hterminal : s'.isTerminal with
    | true => exact leftAlone_of_terminal hterminal htoken'
    | false => exact ⟨harm', htoken'⟩
  have herror : ∀ exc, ControlHandsOn deps s₀ .triage s (.error exc) :=
    fun exc => controlHandsOn_error hdeps htoken
  refine hdeps.now.bind (fun now _ => ?_) fun exc _ => herror exc
  rw [Prog.all_bind, Act.all_liftExcept]
  cases evaluate (stoppingContext s deps.stoppingLimits now) with
  | error exc => exact herror exc
  | ok verdict =>
    simp only [Prog.all_bind, Act.all_liftExcept, hassign]
    refine hdeps.now.mono (fun _ hc => hc) fun r _ => ?_
    cases r with
    | error exc => exact herror exc
    | ok now' =>
      simp only
      split
      · exact (Prog.all_pure _).mpr (hnext _ (congrArg some hcontrol) rfl)
      · exact (Prog.all_pure _).mpr (hnext _ (congrArg some hcontrol) rfl)

/-- The firewall refuses a controlled case. -/
theorem evaluatePolicy_control {proposal : RecoveryProposal} {ctx : PolicyContext} {now : DateTime}
    {d : PolicyDecision} (harm : ctx.arm = .control)
    (h : evaluatePolicy rt proposal ctx now = .ok d) : d.verdict = .blocked ∧ d.token = none := by
  obtain ⟨v, -, rfl⟩ := evaluatePolicy_eq_ok h
  have hrefused : hardRefusals ctx v ≠ [] := fun hnil => (hardRefusals_eq_nil.mp hnil).2.2 harm
  obtain ⟨hverdict, -, htoken⟩ := policyDecision_of_refused rt proposal now hrefused
  exact ⟨hverdict, htoken⟩

theorem blockedStatus_terminal (reasons : List String) :
    (blockedStatus reasons).isTerminal = true := by
  unfold blockedStatus
  simp only
  split
  · rfl
  · split
    · rfl
    · split <;> rfl

theorem control_policy (hdeps : deps.Thinks) (h : ControlAt s₀ .policy s) :
    (policyNode rt s deps).All Cmd.Thinks (ControlHandsOn deps s₀ .policy s) := by
  obtain ⟨harm, htoken⟩ := h
  have herror : ∀ exc, ControlHandsOn deps s₀ .policy s (.error exc) :=
    fun exc => controlHandsOn_error hdeps htoken
  refine hdeps.now.bind (fun now _ => ?_) fun exc _ => herror exc
  refine hdeps.now.bind (fun now' _ => ?_) fun exc _ => herror exc
  rw [Prog.all_bind, Act.all_liftExcept]
  cases hd : evaluatePolicy rt (s.proposal.getD { strategy := .noAction })
      (policyContext s deps.stoppingLimits deps.moneyLimits now) now' with
  | error exc => exact herror exc
  | ok d =>
    have hctx : (policyContext s deps.stoppingLimits deps.moneyLimits now).arm = .control := by
      simp [policyContext, harm]
    obtain ⟨hverdict, hnone⟩ := evaluatePolicy_control hctx hd
    refine hdeps.now.bind (fun now'' _ => ?_) fun exc _ => herror exc
    refine (Prog.all_pure _).mpr ?_
    simp only [ControlHandsOn, nextNode, hverdict, ControlAt]
    refine leftAlone_of_terminal ?_ (.inl hnone)
    show (decidedStatus d).isTerminal = true
    rw [decidedStatus, if_neg (by simp [hverdict]), if_neg (by simp [hverdict])]
    exact blockedStatus_terminal _

/-- **What every node of a controlled run hands on.** -/
theorem control_runNode (hdeps : deps.Thinks) (harm : Controlled rt deps s₀.caseId) {node : Node}
    (h : ControlAt s₀ node s) :
    (runNode rt deps node s).All Cmd.Thinks (ControlHandsOn deps s₀ node s) := by
  cases node with
  | enrich =>
    exact hdeps.now.bind (fun now _ => (Prog.all_pure _).mpr h) fun exc _ =>
      controlHandsOn_error hdeps h.2
  | triage => exact control_triage hdeps harm h
  | diagnose =>
    have herror : ∀ exc, ControlHandsOn deps s₀ .diagnose s (.error exc) :=
      fun exc => controlHandsOn_error hdeps h.2
    exact (thinks_routed hdeps s _).bind (fun routed _ => hdeps.now.bind (fun now _ =>
      (Prog.all_pure _).mpr h) fun exc _ => herror exc) fun exc _ => herror exc
  | strategise =>
    have herror : ∀ exc, ControlHandsOn deps s₀ .strategise s (.error exc) :=
      fun exc => controlHandsOn_error hdeps h.2
    exact (thinks_propose hdeps s).bind (fun proposed _ => hdeps.now.bind (fun now _ =>
      (Prog.all_pure _).mpr h) fun exc _ => herror exc) fun exc _ => herror exc
  | policy => exact control_policy hdeps h
  | execute | escalate => exact h.elim
  | audit =>
    exact hdeps.now.bind (fun now _ => (Prog.all_pure _).mpr ⟨h.1, h.2, h.3⟩) fun exc _ =>
      controlHandsOn_error hdeps h.3

end Steps

section Run

variable {rt : Runtime} {deps : AgentDeps Act} {s : RecoveryState}

theorem controlAt_enrich (s : RecoveryState) : ControlAt s .enrich s := ⟨rfl, .inr rfl⟩

/-- **A controlled case is left alone**, on every path. -/
theorem control_runCase (hdeps : deps.Thinks) (harm : Controlled rt deps s.caseId) :
    (runCase rt s deps).All Cmd.Thinks (ControlEnds s) := by
  unfold runCase
  split
  · next hterminal => exact leftAlone_of_terminal hterminal (.inr rfl)
  · refine all_runFrom (I := ControlAt s) (fun node s' h => ?_) trivial (controlAt_enrich s)
    refine (control_runNode hdeps harm h).mono (fun _ hc => hc) fun r hr => ?_
    cases r <;> exact hr

/-- **And its executor is never called.** -/
theorem control_entered (hdeps : deps.Thinks) (harm : Controlled rt deps s.caseId) (w : World) :
    entered rt deps .execute .enrich s w = none := by
  rcases hentered : entered rt deps .execute .enrich s w with _ | ⟨s', v⟩
  · rfl
  · refine (entered_of_inv (I := ControlAt s) (P := Cmd.Thinks) (fun node s' h => ?_)
      (controlAt_enrich s) hentered).elim
    refine (control_runNode hdeps harm h).mono (fun _ hc => hc) ?_
    rintro _ hr s'' next rfl hnext
    simpa [ControlHandsOn, hnext] using hr

end Run

end AegisMerchant
