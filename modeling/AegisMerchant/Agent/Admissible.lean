import AegisMerchant.Agent.Graph
import AegisMerchant.Core.World
import AegisMerchant.Guardrails.PolicyLaws

/-!
# What a playbook may be asked for

Five branches make a proposal, and a sixth turns a model's answer down. None of them proposes what
the playbook forbids, and the firewall keeps it so: it changes the discount and the message class,
never the strategy, and there is no discount it would put where none was asked for.

`selectStrategy_violations` says what the rules propose, `accepts_applied` that a clamp changes
nothing about it. The result is `strategiseNode_accepts`, for any diagnosis and any answers of a
model.
-/

namespace AegisMerchant

open Time Numeric Prog

/-! ## The playbook's objections -/

theorem objection_eq_nil {p : Prop} [Decidable p] (text : String) :
    (if p then [text] else []) = [] ↔ ¬p := by
  split
  · next h => exact iff_of_false (List.cons_ne_nil _ _) (not_not_intro h)
  · next h => exact iff_of_true rfl h

/-- What an acceptable proposal is. -/
theorem violations_eq_nil {playbook : Playbook} {strategy : RecoveryStrategy} {pct : ℚ}
    {requiresReauth : Bool} :
    violations playbook strategy pct requiresReauth = [] ↔
      playbook.forbids strategy = false ∧ (0 < pct → playbook.discountPermitted = true) ∧
        ¬(requiresReauth = true ∧ strategy = .mandateRetry) := by
  unfold violations
  rw [List.append_eq_nil_iff, List.append_eq_nil_iff, and_assoc]
  rw [objection_eq_nil, objection_eq_nil, objection_eq_nil]
  refine and_congr (Bool.not_eq_true _).to_iff (and_congr ?_ Iff.rfl)
  rw [not_and, Bool.not_eq_false]

/-- A discount of zero or less is no objection. -/
theorem violations_of_le {playbook : Playbook} {strategy : RecoveryStrategy} {p q : ℚ}
    {requiresReauth : Bool} (h : violations playbook strategy p requiresReauth = [])
    (hq : 0 < q → 0 < p) : violations playbook strategy q requiresReauth = [] := by
  obtain ⟨hforbids, hpct, hretry⟩ := violations_eq_nil.mp h
  exact violations_eq_nil.mpr ⟨hforbids, fun hpos => hpct (hq hpos), hretry⟩

/-- **The playbook's own answer is one it has no objection to.** -/
theorem selectStrategy_violations (playbook : Playbook) (category : Option FailureCategory)
    (requiresReauth retrySameRail : Bool) (rail : Option String) :
    violations playbook
      (selectStrategy playbook category requiresReauth retrySameRail rail).strategy 0
      requiresReauth = [] := by
  apply violations_eq_nil.mpr
  refine ⟨?_, fun h => absurd h (lt_irrefl _), ?_⟩
  · unfold selectStrategy
    cases playbook with
    | receivable => by_cases h : category = some .riskBlocked <;> simp [h, Playbook.forbids]
    | subscription =>
      by_cases h : category = some .riskBlocked
      · simp [h, Playbook.forbids]
      · simp only [h, if_false, if_true]
        split_ifs <;> rfl
    | paymentFailure => rfl
    | checkoutAbandon => rfl
  · rintro ⟨hreauth, hretry⟩
    subst hreauth
    revert hretry
    unfold selectStrategy
    cases playbook <;> by_cases h : category = some .riskBlocked <;> simp [h]

/-! ## The proposal -/

/-- Whether the diagnosis of a case says its mandate is dead. -/
def RecoveryState.requiresReauth (s : RecoveryState) : Bool :=
  (s.diagnosis.map (·.requiresReauth)).getD false

/-- The playbook has no objection to a proposal for the case. -/
def RecoveryState.Accepts (s : RecoveryState) (proposal : RecoveryProposal) : Prop :=
  ∃ pct, proposal.discountPct = .fin pct ∧
    violations s.playbook proposal.strategy pct s.requiresReauth = []

variable {s : RecoveryState}

theorem accepts_noAction {rationale : String} : s.Accepts { strategy := .noAction, rationale } :=
  ⟨0, rfl, (violations_noAction _ _ _).mpr fun h => absurd h (lt_irrefl _)⟩

theorem accepts_fallback {d : Diagnosis} (hd : s.diagnosis = some d) :
    s.Accepts (fallbackProposal d s) := by
  refine ⟨0, rfl, ?_⟩
  rw [RecoveryState.requiresReauth, hd]
  exact selectStrategy_violations _ _ _ _ _

/-- The model's answer is taken only where the playbook has no objection. -/
theorem accepts_proposalOfAnswer {d : Diagnosis} (hd : s.diagnosis = some d)
    (result : StructuredResult) : s.Accepts (proposalOfAnswer d s result) := by
  have hfall := accepts_fallback hd
  unfold proposalOfAnswer
  split
  · next output _ =>
      split
      · exact hfall
      · next h =>
          refine ⟨output.discountPct, rfl, ?_⟩
          rw [RecoveryState.requiresReauth, hd]
          exact h
  · exact hfall

/-- Each branch proposes what the playbook accepts. -/
theorem propose_accepts (s : RecoveryState) (deps : AgentDeps Act) :
    (propose s deps).All (fun _ => True) (IfReturned fun r => s.Accepts r.1) := by
  unfold propose
  split
  · exact accepts_noAction
  · next d hd =>
      split
      · exact accepts_fallback hd
      · split
        · exact accepts_noAction
        · split
          · split
            · exact (all_returned _).next fun result _ => accepts_proposalOfAnswer hd result
            · exact accepts_fallback hd
          · exact accepts_fallback hd

/-! ## The applied action -/

/-- There is no discount where none was proposed, under any limits. -/
theorem finalDiscount_pos {limits : PolicyLimitsFull} {strategy : RecoveryStrategy}
    {cls : MessageClass} {amountPaise : ℤ} {pct : ℚ}
    (h : 0 < (finalDiscount limits strategy cls amountPaise (.fin pct)).1) : 0 < pct := by
  by_contra hpct
  have hbounded : boundedPct limits (.fin pct) ≤ 0 := by
    simp only [boundedPct]
    split
    · exact le_refl _
    · split
      · next hmax => exact (min_le_right _ _).trans (hmax.le.trans (not_lt.mp hpct))
      · exact not_lt.mp hpct
  revert h
  unfold finalDiscount
  split
  · simp
  · split
    · simp
    · simp [cappedDiscount, hbounded]

/-- **What the playbook accepts as a proposal, it accepts as the action that is applied.** -/
theorem accepts_applied {rt : Runtime} {proposal : RecoveryProposal} {ctx : PolicyContext}
    {now : DateTime} {d : PolicyDecision} {a : AppliedAction} (hs : s.Accepts proposal)
    (h : evaluatePolicy rt proposal ctx now = .ok d) (ha : d.applied = some a) :
    violations s.playbook a.strategy a.discountPct s.requiresReauth = [] := by
  obtain ⟨pct, hpct, hnone⟩ := hs
  obtain ⟨v, hadmitted⟩ := admitted_of_applied h ha
  have hstrategy : a.strategy = proposal.strategy := by
    have hclamped := congrArg Prod.fst hadmitted.clamped
    exact (congrArg AppliedAction.strategy hclamped).trans (clampedAction_strategy _ _ _ _ _)
  have hdiscount : a.discountPct = (finalDiscount ctx.limits proposal.strategy
      (effectiveClass proposal ctx) ctx.orderAmountPaise (.fin pct)).1 := by
    rw [← hpct, ← hadmitted.discount]
  rw [hstrategy]
  refine violations_of_le hnone fun hpos => ?_
  rw [hdiscount] at hpos
  exact finalDiscount_pos hpos

/-- **Whatever the diagnosis, the rail alternative and the model's answers, what STRATEGISE proposes
is acceptable to the playbook, and so is the action the firewall makes of it under any limits.** -/
theorem strategiseNode_accepts (s : RecoveryState) (deps : AgentDeps Act) :
    (strategiseNode s deps).All (fun _ => True) (IfReturned fun final =>
      ∃ proposal, final.proposal = some proposal ∧ final.Accepts proposal ∧
        ∀ (rt : Runtime) (ctx : PolicyContext) (now : DateTime) (d : PolicyDecision)
          (a : AppliedAction), evaluatePolicy rt proposal ctx now = .ok d → d.applied = some a →
          violations final.playbook a.strategy a.discountPct final.requiresReauth = []) := by
  refine (propose_accepts s deps).next fun proposed haccepts =>
    (all_returned _).next fun _ _ => ?_
  exact ⟨proposed.1, rfl, haccepts, fun _ _ _ _ _ h ha => accepts_applied haccepts h ha⟩

end AegisMerchant
