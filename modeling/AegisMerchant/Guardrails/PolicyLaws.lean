import AegisMerchant.Guardrails.PolicyEngine
import AegisMerchant.Guardrails.StoppingLaws

/-!
# What the firewall guarantees

The clamping pipeline read as two things: the numbers it ends with, stage by stage and without the
clamps, and the clamps it recorded on the way. The bounds on an applied action and the fate of the
stopping engine's degradations are read off these.

`evaluatePolicy_eq_ok` and `authorise_cases` are the ways through the firewall,
`admitted_of_applied` what an applied action went through.
-/

namespace AegisMerchant

open Time Numeric

variable {rt : Runtime}

/-! ## The numbers, without the clamps -/

/-- The proposed percentage as a number: a non-finite or negative one counts as zero. -/
def RecoveryProposal.pct (proposal : RecoveryProposal) : ℚ := max 0 proposal.discountPct.finiteOrZero

/-- The percentage `_sanitise_discount` lets through. -/
def boundedPct (limits : PolicyLimitsFull) : ExtRat → ℚ
  | .fin value =>
    if value < 0 then 0
    else if limits.maxDiscountPct < value then min limits.defaultDiscountPct limits.maxDiscountPct
    else value
  | _ => 0

/-- The discount `_apply_absolute_cap` lets through. -/
def cappedDiscount (pct : ℚ) (amountPaise capPaise : ℤ) : ℚ × ℤ :=
  if pct ≤ 0 ∨ amountPaise ≤ 0 then (0, 0)
  else if truncInt (amountPaise * pct / 100) ≤ capPaise then
    (pct, truncInt (amountPaise * pct / 100))
  else (roundDigits 4 (capPaise * 100 / amountPaise), capPaise)

/-- The discount an action of a given strategy and class ends with. -/
def finalDiscount (limits : PolicyLimitsFull) (strategy : RecoveryStrategy) (cls : MessageClass)
    (amountPaise : ℤ) (proposed : ExtRat) : ℚ × ℤ :=
  if strategy = .noAction then (0, 0)
  else if cls = .transactional ∧ 0 < boundedPct limits proposed then (0, 0)
  else cappedDiscount (boundedPct limits proposed) amountPaise limits.maxDiscountAbsolutePaise

theorem sanitiseDiscount_fst (limits : PolicyLimitsFull) (p : ExtRat) (cs : List Clamp) :
    (sanitiseDiscount rt p limits cs).1 = boundedPct limits p := by
  cases p with
  | fin value =>
    simp only [sanitiseDiscount, boundedPct]
    split
    · rfl
    · split <;> rfl
  | nan => rfl
  | posInf => rfl
  | negInf => rfl

theorem stripTransactional_fst (cls : MessageClass) (pct : ℚ) (cs : List Clamp) :
    (stripTransactional cls pct cs).1 = if cls = .transactional ∧ 0 < pct then 0 else pct := by
  unfold stripTransactional
  split <;> rfl

theorem applyAbsoluteCap_fst (pct : ℚ) (amountPaise : ℤ) (limits : PolicyLimitsFull)
    (cs : List Clamp) :
    (applyAbsoluteCap rt pct amountPaise limits cs).1 =
      cappedDiscount pct amountPaise limits.maxDiscountAbsolutePaise := by
  unfold applyAbsoluteCap cappedDiscount
  split
  · rfl
  · simp only
    split <;> rfl

theorem zeroNoAction_fst (strategy : RecoveryStrategy) (discount : ℚ × ℤ) (cs : List Clamp) :
    (zeroNoAction strategy discount cs).1 = if strategy = .noAction then (0, 0) else discount := by
  obtain ⟨pct, paise⟩ := discount
  unfold zeroNoAction
  by_cases hs : strategy = .noAction <;> by_cases hp : pct = 0 <;> by_cases hq : paise = 0 <;>
    simp [hs, hp, hq]

/-- Nothing is left of a discount in a transactional message. -/
theorem finalDiscount_transactional (limits : PolicyLimitsFull) (strategy : RecoveryStrategy)
    (amountPaise : ℤ) (p : ExtRat) :
    finalDiscount limits strategy .transactional amountPaise p = (0, 0) := by
  unfold finalDiscount
  split
  · rfl
  · split
    · rfl
    · next hnot =>
        have : boundedPct limits p ≤ 0 := by simpa using hnot
        simp [cappedDiscount, this]

section ClampedAction

variable (proposal : RecoveryProposal) (ctx : PolicyContext) (stopping : StoppingVerdict)
  (cls : MessageClass) (cs : List Clamp)

/-- The clamped action carries the discount the pipeline ends with. -/
theorem clampedAction_discount :
    ((clampedAction rt proposal ctx stopping cls cs).1.discountPct,
      (clampedAction rt proposal ctx stopping cls cs).1.discountAmountPaise) =
      finalDiscount ctx.limits proposal.strategy cls ctx.orderAmountPaise proposal.discountPct := by
  simp only [clampedAction, zeroNoAction_fst, applyAbsoluteCap_fst, stripTransactional_fst,
    sanitiseDiscount_fst, finalDiscount]
  by_cases hs : proposal.strategy = .noAction
  · simp [hs]
  · simp only [hs, if_false]
    split
    · simp [cappedDiscount]
    · rfl

@[simp] theorem clampedAction_amount :
    (clampedAction rt proposal ctx stopping cls cs).1.amountPaise = ctx.orderAmountPaise := rfl

@[simp] theorem clampedAction_charge :
    (clampedAction rt proposal ctx stopping cls cs).1.chargeAmountPaise =
      ctx.orderAmountPaise -
        (clampedAction rt proposal ctx stopping cls cs).1.discountAmountPaise := rfl

@[simp] theorem clampedAction_class :
    (clampedAction rt proposal ctx stopping cls cs).1.messageClass = cls := rfl

@[simp] theorem clampedAction_strategy :
    (clampedAction rt proposal ctx stopping cls cs).1.strategy = proposal.strategy := rfl

@[simp] theorem clampedAction_referenceId :
    (clampedAction rt proposal ctx stopping cls cs).1.referenceId =
      referenceId ctx.caseId ctx.attemptNo := rfl

@[simp] theorem clampedAction_sendAfter :
    (clampedAction rt proposal ctx stopping cls cs).1.sendAfter =
      if stopping.decision = .defer then stopping.deferUntil else none := rfl

end ClampedAction

/-! ## How a decision comes about -/

theorem hardRefusals_eq_nil {ctx : PolicyContext} {v : StoppingVerdict} :
    hardRefusals ctx v = [] ↔
      0 < ctx.orderAmountPaise ∧ v.decision ≠ .stop ∧ ctx.arm ≠ .control := by
  unfold hardRefusals
  by_cases ha : ctx.orderAmountPaise ≤ 0 <;> by_cases hv : v.decision = .stop <;>
    by_cases hc : ctx.arm = .control <;> simp [ha, hv, hc]
  all_goals omega

/-- `evaluate_policy` decides on a verdict of the stopping rules, or raises with them. -/
theorem evaluatePolicy_eq_ok {proposal : RecoveryProposal} {ctx : PolicyContext} {now : DateTime}
    {d : PolicyDecision} (h : evaluatePolicy rt proposal ctx now = .ok d) :
    ∃ v, evaluate (proposedContext proposal ctx) = .ok v ∧
      d = policyDecision rt proposal ctx v now := by
  unfold evaluatePolicy at h
  cases hv : evaluate (proposedContext proposal ctx) with
  | error e => simp [hv, bind, Except.bind] at h
  | ok v =>
    simp only [hv, bind, Except.bind, pure, Except.pure, Except.ok.injEq] at h
    exact ⟨v, rfl, h.symm⟩

/-- A refused decision carries nothing to execute. -/
theorem policyDecision_of_refused (rt : Runtime) (proposal : RecoveryProposal)
    {ctx : PolicyContext} {v : StoppingVerdict} (now : DateTime) (h : hardRefusals ctx v ≠ []) :
    (policyDecision rt proposal ctx v now).verdict = .blocked ∧
      (policyDecision rt proposal ctx v now).applied = none ∧
      (policyDecision rt proposal ctx v now).token = none := by
  simp [policyDecision, h]

/-- What authorisation adds to a clamped action: a token or a request for approval. -/
theorem authorise_cases (rt : Runtime) (ctx : PolicyContext) (v : StoppingVerdict) (a : AppliedAction)
    (cs : List Clamp) (now : DateTime) :
    (authorise rt ctx v a cs now).applied = some a ∧
      (authorise rt ctx v a cs now).clamps = cs ∧
      (authorise rt ctx v a cs now).stopping = some v ∧
      (((authorise rt ctx v a cs now).verdict = .passed ∧
          (authorise rt ctx v a cs now).token = some (mint rt a now)) ∨
        ((authorise rt ctx v a cs now).verdict = .escalateHitl ∧
          (authorise rt ctx v a cs now).token = none)) := by
  unfold authorise
  split <;> simp

/-- The verdict of the rules is on every decision. -/
@[simp] theorem policyDecision_stopping (proposal : RecoveryProposal) (ctx : PolicyContext)
    (v : StoppingVerdict) (now : DateTime) :
    (policyDecision rt proposal ctx v now).stopping = some v := by
  unfold policyDecision
  simp only
  split
  · rfl
  · exact (authorise_cases _ _ _ _ _ _).2.2.1

/-- The class the rules leave an action they do not stop. -/
def effectiveClass (proposal : RecoveryProposal) (ctx : PolicyContext) : MessageClass :=
  if ClassRefused (proposedContext proposal ctx) then .transactional else proposal.messageClass

/-- **Where an applied action comes from.** The order amount is positive, the case is not in the
control arm, the rules did not stop, and the action is the clamped proposal under the class the
rules left it. -/
structure Admitted (rt : Runtime) (proposal : RecoveryProposal) (ctx : PolicyContext)
    (now : DateTime) (d : PolicyDecision) (a : AppliedAction) (v : StoppingVerdict) : Prop where
  evaluated : evaluate (proposedContext proposal ctx) = .ok v
  stopping : d.stopping = some v
  notStopped : v.decision ≠ .stop
  positive : 0 < ctx.orderAmountPaise
  notControl : ctx.arm ≠ .control
  clamped : (a, d.clamps) = clampedAction rt proposal ctx v (effectiveClass proposal ctx)
    (classClamps proposal (effectiveClass proposal ctx))
  outcome : (d.verdict = .passed ∧ d.token = some (mint rt a now)) ∨
    (d.verdict = .escalateHitl ∧ d.token = none)

/-- The discount of an admitted action is the one the pipeline ends with. -/
theorem Admitted.discount {proposal : RecoveryProposal} {ctx : PolicyContext} {now : DateTime}
    {d : PolicyDecision} {a : AppliedAction} {v : StoppingVerdict}
    (h : Admitted rt proposal ctx now d a v) :
    (a.discountPct, a.discountAmountPaise) = finalDiscount ctx.limits proposal.strategy
      (effectiveClass proposal ctx) ctx.orderAmountPaise proposal.discountPct := by
  have ha : a = _ := congrArg Prod.fst h.clamped
  rw [ha]
  exact clampedAction_discount _ _ _ _ _

theorem Admitted.messageClass {proposal : RecoveryProposal} {ctx : PolicyContext}
    {now : DateTime} {d : PolicyDecision} {a : AppliedAction} {v : StoppingVerdict}
    (h : Admitted rt proposal ctx now d a v) :
    a.messageClass = effectiveClass proposal ctx := by
  have ha : a = _ := congrArg Prod.fst h.clamped
  rw [ha]
  rfl

theorem admitted_of_applied {proposal : RecoveryProposal} {ctx : PolicyContext} {now : DateTime}
    {d : PolicyDecision} {a : AppliedAction} (h : evaluatePolicy rt proposal ctx now = .ok d)
    (ha : d.applied = some a) : ∃ v, Admitted rt proposal ctx now d a v := by
  obtain ⟨v, hv, rfl⟩ := evaluatePolicy_eq_ok h
  by_cases hr : hardRefusals ctx v = []
  · obtain ⟨hpos, hstop, hctl⟩ := hardRefusals_eq_nil.mp hr
    have hclass : (applyDegradations (proposedContext proposal ctx) v).proposedMessageClass =
        effectiveClass proposal ctx := evaluate_class hv hstop
    simp only [policyDecision, hr, ne_eq, not_true_eq_false, if_false, hclass] at ha ⊢
    obtain ⟨happ, hcs, hst, hout⟩ := authorise_cases rt ctx v
      (clampedAction rt proposal ctx v _ (classClamps proposal _)).1
      (clampedAction rt proposal ctx v _ (classClamps proposal _)).2 now
    rw [happ] at ha
    cases ha
    exact ⟨v, hv, hst, hstop, hpos, hctl, by rw [hcs], hout⟩
  · have := (policyDecision_of_refused rt proposal now hr).2.1
    simp [this] at ha

/-- Only a rung that needs a person is handed to one. -/
theorem needsHuman_of_escalated {proposal : RecoveryProposal} {ctx : PolicyContext}
    {now : DateTime} {d : PolicyDecision} {a : AppliedAction}
    (h : evaluatePolicy rt proposal ctx now = .ok d) (ha : d.applied = some a)
    (hverdict : d.verdict = .escalateHitl) : a.escalationRung.needsHuman = true := by
  obtain ⟨v, -, rfl⟩ := evaluatePolicy_eq_ok h
  by_cases hr : hardRefusals ctx v = []
  · simp only [policyDecision, hr, ne_eq, not_true_eq_false, if_false, authorise] at ha hverdict
    split at ha
    · next hcond =>
        cases ha
        exact hcond.1
    · next hcond =>
        rw [if_neg hcond] at hverdict
        cases hverdict
  · rw [(policyDecision_of_refused rt proposal now hr).1] at hverdict
    cases hverdict

/-- **`NO_ACTION` is exempt from the ladder**: applied, it is passed, with a token and the whole order
amount to charge. -/
theorem noAction_passes {proposal : RecoveryProposal} {ctx : PolicyContext} {now : DateTime}
    {d : PolicyDecision} {a : AppliedAction} (h : evaluatePolicy rt proposal ctx now = .ok d)
    (ha : d.applied = some a) (hno : a.strategy = .noAction) :
    d.verdict = .passed ∧ d.token = some (mint rt a now) ∧ ctx.arm ≠ .control ∧
      0 < a.chargeAmountPaise ∧ a.referenceId = referenceId ctx.caseId ctx.attemptNo := by
  obtain ⟨v, hv⟩ := admitted_of_applied h ha
  have hclamped : a = _ := congrArg Prod.fst hv.clamped
  have hproposed : proposal.strategy = .noAction := by rw [← hno, hclamped, clampedAction_strategy]
  have hdiscount := hv.discount
  simp only [finalDiscount, hproposed, if_true, Prod.mk.injEq] at hdiscount
  have hcharge : a.chargeAmountPaise = ctx.orderAmountPaise - a.discountAmountPaise := by
    rw [hclamped, clampedAction_charge]
  have hrung : a.escalationRung = .a0Autonomous := by
    rw [hclamped]
    simp [clampedAction, escalationRung, hproposed]
  rcases hv.outcome with ⟨hpassed, htoken⟩ | ⟨hescalated, -⟩
  · refine ⟨hpassed, htoken, hv.notControl, ?_, by rw [hclamped, clampedAction_referenceId]⟩
    rw [hcharge, hdiscount.2]
    have := hv.positive
    omega
  · have hhuman := needsHuman_of_escalated h ha hescalated
    rw [hrung] at hhuman
    cases hhuman

end AegisMerchant
