import AegisMerchant.Agent.ControlArm
import AegisMerchant.Guardrails.Stops

/-!
# What a run does not settle

A run without an executor leaves the amount of its case alone, never writes it recovered, and never
leaves a case of the control arm monitored: settling is the batch's to do, and the webhooks'.

`unsettled_runCase` and `thinks_runCase` are the two laws of a run without an executor.
-/

namespace AegisMerchant

open Time

/-! ## What the rules report -/

/-- A rule that stops a case does not make it recovered. -/
theorem ruleResults_ne_recovered {ctx : StoppingContext} {quiet r : RuleResult}
    (hquiet : s09QuietHours ctx = .ok quiet) (hopen : ctx.caseStatus ≠ .recovered)
    (hr : r ∈ ruleResults ctx quiet) (hstop : r.decision = .stop) :
    r.terminalStatus ≠ some .recovered := by
  intro hstatus
  simp only [ruleResults, List.mem_cons, List.not_mem_nil, or_false] at hr
  rcases hr with rfl | rfl | rfl | rfl | rfl | rfl | rfl | rfl | rfl | rfl | rfl | rfl
  · unfold s12KillSwitch at hstatus
    split at hstatus <;> cases hstatus
  · unfold s01AlreadyResolved at hstatus
    simp only at hstatus
    split at hstatus
    · cases hstatus
    · split at hstatus
      -- S-01 repeats the status of the case, which is not RECOVERED
      · exact hopen (Option.some.inj hstatus)
      · cases hstatus
  · unfold s07OptOut at hstatus
    split at hstatus <;> cases hstatus
  · unfold s06RecoveryWindow at hstatus
    split at hstatus
    · split at hstatus <;> cases hstatus
    · cases hstatus
  · unfold s02AttemptBudget at hstatus
    simp only at hstatus
    split at hstatus <;> cases hstatus
  · unfold s11MerchantBudget at hstatus
    split at hstatus
    · cases hstatus
    · split at hstatus <;> cases hstatus
  · unfold s05ContactCap48h at hstatus
    split at hstatus
    · cases hstatus
    · split at hstatus <;> cases hstatus
  · unfold s08ConsentClass at hstatus
    split at hstatus
    · cases hstatus
    · split at hstatus
      · simp only at hstatus
        split at hstatus <;> cases hstatus
      · split at hstatus <;> cases hstatus
  · exact s10_ne_stop hstop
  · unfold s04ContactCap24h at hstatus
    split at hstatus
    · cases hstatus
    · split at hstatus
      · cases hstatus
      · split at hstatus
        · cases hstatus
        · simp only at hstatus
          split at hstatus <;> cases hstatus
  · exact s09_ne_stop hquiet hstop
  · exact s03_ne_stop hstop

theorem evaluate_stop_ne_recovered {ctx : StoppingContext} {v : StoppingVerdict}
    (h : evaluate ctx = .ok v) (hopen : ctx.caseStatus ≠ .recovered) (hstop : v.decision = .stop) :
    v.terminalStatus ≠ some .recovered := by
  obtain ⟨quiet, hquiet, -⟩ := evaluate_eq_ok h
  obtain ⟨r, -, hterminal, hrstop, hr⟩ := evaluate_stop h hquiet hstop
  rw [hterminal]
  rcases hr with hr | hr
  · exact ruleResults_ne_recovered hquiet hopen hr hrstop
  · rw [hr.expired]
    simp

/-- POLICY leaves no case recovered. -/
theorem decidedStatus_ne_recovered (d : PolicyDecision) : decidedStatus d ≠ .recovered := by
  intro hstatus
  unfold decidedStatus blockedStatus at hstatus
  simp only at hstatus
  split at hstatus
  · cases hstatus
  · split at hstatus
    · cases hstatus
    · split at hstatus
      · cases hstatus
      · split at hstatus
        · cases hstatus
        · split at hstatus <;> cases hstatus

/-! ## The run -/

/-- **What a run leaves to others**: the amount is what it was, and the case is not recovered. -/
structure Unsettled (s₀ s : RecoveryState) : Prop where
  amount : s.amountPaise = s₀.amountPaise
  unrecovered : s.status ≠ .recovered

/-- A case held as control is not monitored. -/
def NotHeldMonitored (s : RecoveryState) : Prop :=
  s.experimentArm = some .control → s.status ≠ .monitoring

/-- What each node is entered with. -/
def UnsettledAt (s₀ : RecoveryState) : Node → RecoveryState → Prop
  | .execute, s => Unsettled s₀ s ∧ s.experimentArm ≠ some .control
  | .audit, s => Unsettled s₀ s ∧ NotHeldMonitored s
  | _, s => Unsettled s₀ s

/-- What a path may end with. -/
def UnsettledEnds (s₀ : RecoveryState) : Except PyError RecoveryState → Prop
  | .ok s => Unsettled s₀ s ∧ NotHeldMonitored s
  | .error _ => True

section Steps

variable {rt : Runtime} {deps : AgentDeps Act} {moment : DateTime} {s₀ s : RecoveryState}

theorem notHeldMonitored_of_terminal (h : s.isTerminal = true) : NotHeldMonitored s := by
  intro _ hstatus
  simp [RecoveryState.isTerminal, hstatus, CaseStatus.isTerminal] at h

/-- A node that raises closes the case as failed. -/
theorem unsettled_finalise (hnow : deps.now = pure moment) (h : Unsettled s₀ s) (node : Node)
    (exc : PyError) : (finalise deps node s exc).All (fun _ => True) (UnsettledEnds s₀) := by
  simp only [finalise, auditNode, hnow, Prog.all_bind, Prog.all_pure]
  refine ⟨⟨h.amount, ?_⟩, ?_⟩
  · show CaseStatus.failedPermanent ≠ .recovered
    decide
  · exact notHeldMonitored_of_terminal rfl

theorem unsettled_triage (hnow : deps.now = pure moment) (h : Unsettled s₀ s) :
    (triageNode rt s deps).All (fun _ => True) fun r =>
      match r with
      | .ok s' =>
        match nextNode .triage s' with
        | some next => UnsettledAt s₀ next s'
        | none => UnsettledEnds s₀ (.ok s')
      | .error exc => (finalise deps .triage s exc).All (fun _ => True) (UnsettledEnds s₀) := by
  -- whether it goes on or is closed, the amount stays and the case is not recovered
  have hnext : ∀ s', Unsettled s₀ s' →
      UnsettledAt s₀ (if s'.isTerminal then .audit else .diagnose) s' := by
    intro s' h'
    split
    · next hterminal => exact ⟨h', notHeldMonitored_of_terminal hterminal⟩
    · exact h'
  simp only [triageNode, hnow, Prog.all_bind, Prog.all_pure, Act.all_liftExcept]
  cases hv : evaluate (stoppingContext s deps.stoppingLimits moment) with
  | error exc => exact unsettled_finalise hnow h _ _
  | ok verdict =>
    cases assignArm rt s.caseId deps.experimentKey deps.controlArmFraction with
    | error exc => exact unsettled_finalise hnow h _ _
    | ok assignment =>
      simp only
      split
      · next hstop =>
        apply (Prog.all_pure _).mpr
        apply hnext
        refine ⟨h.amount, fun hstatus => ?_⟩
        -- a stop may close the case, though never as recovered
        have hne := evaluate_stop_ne_recovered hv h.unrecovered hstop
        change verdict.terminalStatus.getD .suppressed = .recovered at hstatus
        cases hterminal : verdict.terminalStatus with
        | none => simp [hterminal] at hstatus
        | some status =>
          rw [hterminal] at hne hstatus
          exact hne (congrArg some hstatus)
      · apply (Prog.all_pure _).mpr
        apply hnext
        exact ⟨h.amount, by simp⟩

/-- Only a case that is not held passes POLICY. -/
theorem unsettled_policy (hnow : deps.now = pure moment) (h : Unsettled s₀ s) :
    (policyNode rt s deps).All (fun _ => True) fun r =>
      match r with
      | .ok s' =>
        match nextNode .policy s' with
        | some next => UnsettledAt s₀ next s'
        | none => UnsettledEnds s₀ (.ok s')
      | .error exc => (finalise deps .policy s exc).All (fun _ => True) (UnsettledEnds s₀) := by
  simp only [policyNode, hnow, Prog.all_bind, Prog.all_pure, Act.all_liftExcept]
  cases hd : evaluatePolicy rt (s.proposal.getD { strategy := .noAction })
      (policyContext s deps.stoppingLimits deps.moneyLimits moment) moment with
  | error exc => exact unsettled_finalise hnow h _ _
  | ok d =>
    have hkeeps : ∀ s' : RecoveryState, s'.amountPaise = s.amountPaise →
        s'.status = decidedStatus d → Unsettled s₀ s' := by
      intro s' hamount hstatus
      refine ⟨hamount.trans h.amount, ?_⟩
      rw [hstatus]
      exact decidedStatus_ne_recovered d
    simp only [nextNode]
    cases hverdict : d.verdict with
    | passed =>
      refine ⟨hkeeps _ rfl rfl, fun harm => ?_⟩
      -- the firewall passes no case of the control arm
      have hctx : (policyContext s deps.stoppingLimits deps.moneyLimits moment).arm = .control := by
        show s.experimentArm.getD .treatment = .control
        rw [show s.experimentArm = some .control from harm]
        rfl
      rw [(evaluatePolicy_control hctx hd).1] at hverdict
      cases hverdict
    | escalateHitl => exact hkeeps _ rfl rfl
    | blocked =>
      refine ⟨hkeeps _ rfl rfl, fun _ hstatus => ?_⟩
      -- a block closes the case, and MONITORING is not closed
      have hblocked : decidedStatus d = blockedStatus d.blockReasons := by
        simp [decidedStatus, hverdict]
      have hterminal := blockedStatus_terminal d.blockReasons
      rw [← hblocked, show decidedStatus d = .monitoring from hstatus] at hterminal
      cases hterminal

theorem unsettled_execute (hnow : deps.now = pure moment) (hexecutor : deps.executor = none)
    (h : UnsettledAt s₀ .execute s) :
    (executeNode rt s deps).All (fun _ => True) fun r =>
      match r with
      | .ok s' => UnsettledEnds s₀ (.ok s')
      | .error exc => (finalise deps .execute s exc).All (fun _ => True) (UnsettledEnds s₀) := by
  obtain ⟨hkeeps, harm⟩ := h
  unfold executeNode
  split
  · next applied token _ _ =>
    simp only [hnow, hexecutor, Prog.all_bind, Prog.all_pure, Act.all_liftExcept]
    cases token.verify rt with
    | error exc => exact unsettled_finalise hnow hkeeps _ _
    | ok _ =>
      refine ⟨⟨hkeeps.amount, ?_⟩, fun hcontrol => absurd hcontrol harm⟩
      show CaseStatus.monitoring ≠ .recovered
      decide
  · simp only [hnow, Prog.all_bind, Prog.all_pure]
    refine ⟨⟨hkeeps.amount, ?_⟩, notHeldMonitored_of_terminal rfl⟩
    show CaseStatus.suppressed ≠ .recovered
    decide

end Steps

/-- **A run without an executor settles nothing**, whatever the model answers. -/
theorem unsettled_runCase {rt : Runtime} {deps : AgentDeps Act} {moment : DateTime}
    {s₀ : RecoveryState} (hnow : deps.now = pure moment) (hexecutor : deps.executor = none)
    (hopen : s₀.status ≠ .recovered) :
    (runCase rt s₀ deps).All (fun _ => True) (UnsettledEnds s₀) := by
  have hstart : Unsettled s₀ s₀ := ⟨rfl, hopen⟩
  unfold runCase
  split
  · next hterminal => exact ⟨hstart, notHeldMonitored_of_terminal hterminal⟩
  · refine all_runFrom (I := UnsettledAt s₀) (fun node s h => ?_) trivial hstart
    -- TRIAGE, POLICY and EXECUTE decide; the others keep the amount and the status open
    cases node with
    | triage => exact unsettled_triage hnow h
    | policy => exact unsettled_policy hnow h
    | execute =>
      refine (unsettled_execute hnow hexecutor h).mono (fun _ hc => hc) fun r hr => ?_
      cases r <;> exact hr
    | enrich =>
      simp only [runNode, enrichNode, hnow, Prog.all_bind, Prog.all_pure]
      exact ⟨h.amount, h.unrecovered⟩
    | diagnose =>
      simp only [runNode, diagnoseNode, hnow]
      refine (Prog.all_true _).bind (fun routed _ => ?_) fun exc _ => unsettled_finalise hnow h _ _
      simp only [Prog.all_bind, Prog.all_pure]
      exact ⟨h.amount, by simp⟩
    | strategise =>
      simp only [runNode, strategiseNode, hnow]
      refine (Prog.all_true _).bind (fun proposed _ => ?_) fun exc _ =>
        unsettled_finalise hnow h _ _
      simp only [Prog.all_bind, Prog.all_pure]
      exact ⟨h.amount, by simp⟩
    | escalate =>
      simp only [runNode, escalateNode, hnow, Prog.all_bind, Prog.all_pure]
      exact ⟨⟨h.amount, by simp⟩, fun _ => by simp⟩
    | audit =>
      simp only [runNode, auditNode, hnow, Prog.all_bind, Prog.all_pure]
      exact ⟨⟨h.1.amount, h.1.unrecovered⟩, h.2⟩

/-! ## What it asks of the world -/

section Thinks

variable {rt : Runtime} {deps : AgentDeps Act}

/-- Without an executor, EXECUTE only thinks too. -/
theorem thinks_execute (hdeps : deps.Thinks) (hexecutor : deps.executor = none)
    (s : RecoveryState) : (executeNode rt s deps).All Cmd.Thinks fun _ => True := by
  unfold executeNode
  split
  · apply (thinks_liftExcept _).seq
    intro _
    rw [hexecutor]
    exact hdeps.now.seq fun _ => thinks_return _
  · exact hdeps.now.seq fun _ => thinks_return _

/-- **A run without an executor reads the clock and asks the model**, and nothing else. -/
theorem thinks_runCase (hdeps : deps.Thinks) (hexecutor : deps.executor = none)
    (s : RecoveryState) : (runCase rt s deps).All Cmd.Thinks fun _ => True := by
  have hnode : ∀ node s, (runNode rt deps node s).All Cmd.Thinks fun _ => True := by
    intro node s
    cases node with
    | execute => exact thinks_execute hdeps hexecutor s
    | _ => exact thinks_runNode rt hdeps s (by intro h; cases h)
  unfold runCase
  split
  · trivial
  · apply all_runFrom (I := fun _ _ => True)
    · intro node s _
      refine (hnode node s).mono (fun _ hc => hc) fun r _ => ?_
      cases r with
      | error exc => exact thinks_finalise hdeps node s exc
      | ok s' =>
        simp only
        split <;> trivial
    · trivial
    · trivial

end Thinks

end AegisMerchant
