import AegisMerchant.Guardrails.PolicyBounds

/-!
# What becomes of the rules' degradations

S-08's class downgrade reaches the applied action, S-03's exhausted discount budget does not: the
firewall sanitises the discount of the original proposal, and only takes the message class from the
degraded context. A discount therefore escapes the budget exactly on a marketing message that the
consents allow.

`honoursDegradations_iff` is exact; the discount of `not_honoursDegradations_second_offer` is the
one the budget was to stop.
-/

namespace AegisMerchant

open Time Numeric

variable {rt : Runtime}

/-- An applied action carries nothing the verdict removes, and nothing beyond the case's budget of
discount-bearing attempts. -/
structure HonoursDegradations (ctx : PolicyContext) (v : StoppingVerdict) (a : AppliedAction) :
    Prop where
  budget : ctx.stopping.policy.maxDiscountBearingAttempts ≤ ctx.stopping.discountBearingAttempts →
    a.discountPct = 0 ∧ a.discountAmountPaise = 0 ∧ a.chargeAmountPaise = ctx.orderAmountPaise
  discount : v.degradations.discountPct.isSome = true →
    a.discountPct = 0 ∧ a.discountAmountPaise = 0
  messageClass : ∀ c, v.degradations.messageClass = some c → a.messageClass = c

/-- The proposals whose discount survives an exhausted budget: a permitted marketing message with a
positive discount that the rupee cap does not bring down to nothing. -/
structure EscapesBudget (proposal : RecoveryProposal) (ctx : PolicyContext) : Prop where
  exhausted :
    ctx.stopping.policy.maxDiscountBearingAttempts ≤ ctx.stopping.discountBearingAttempts
  acts : proposal.strategy ≠ .noAction
  marketing : proposal.messageClass = .marketing
  permitted : ¬ClassRefused (proposedContext proposal ctx)
  positive : 0 < boundedPct ctx.limits proposal.discountPct
  notCapped : ¬(ctx.limits.maxDiscountAbsolutePaise = 0 ∧
    0 < truncInt (ctx.orderAmountPaise * boundedPct ctx.limits proposal.discountPct / 100))

/-! ## When the discount is nothing -/

/-- The cap brings a positive discount down to nothing only when it is zero and bites. -/
theorem cappedDiscount_eq_zero_iff {pct : ℚ} {amountPaise capPaise : ℤ} (hp : 0 < pct)
    (ha : 0 < amountPaise) :
    cappedDiscount pct amountPaise capPaise = (0, 0) ↔
      capPaise = 0 ∧ 0 < truncInt (amountPaise * pct / 100) := by
  have hneither : ¬(pct ≤ 0 ∨ amountPaise ≤ 0) := by
    rw [not_or]
    exact ⟨not_le.mpr hp, not_le.mpr ha⟩
  rw [cappedDiscount, if_neg hneither]
  split
  · next hle =>
      constructor
      · intro h
        exact absurd (congrArg Prod.fst h) hp.ne'
      · rintro ⟨rfl, hpos⟩
        omega
  · next hgt =>
      constructor
      · intro h
        have hcap : capPaise = 0 := congrArg Prod.snd h
        exact ⟨hcap, by omega⟩
      · rintro ⟨rfl, -⟩
        simp [roundDigits_zero]

/-- When the discount an action ends with is nothing. -/
theorem finalDiscount_eq_zero_iff (limits : PolicyLimitsFull) (strategy : RecoveryStrategy)
    (cls : MessageClass) {amountPaise : ℤ} (ha : 0 < amountPaise) (p : ExtRat) :
    finalDiscount limits strategy cls amountPaise p = (0, 0) ↔
      strategy = .noAction ∨ cls = .transactional ∨ boundedPct limits p ≤ 0 ∨
        (limits.maxDiscountAbsolutePaise = 0 ∧
          0 < truncInt (amountPaise * boundedPct limits p / 100)) := by
  cases cls with
  | transactional => simp [finalDiscount_transactional]
  | marketing =>
    by_cases hs : strategy = .noAction
    · simp [finalDiscount, hs]
    · by_cases hp : boundedPct limits p ≤ 0
      · simp [finalDiscount, cappedDiscount, hp]
      · simp only [finalDiscount, hs, if_false, reduceCtorEq, false_and, false_or, hp]
        exact cappedDiscount_eq_zero_iff (not_le.mp hp) ha

/-- The class of an admitted action is the one the degradations leave. -/
theorem Admitted.degradations {proposal : RecoveryProposal} {ctx : PolicyContext} {now : DateTime}
    {d : PolicyDecision} {a : AppliedAction} {v : StoppingVerdict}
    (h : Admitted rt proposal ctx now d a v) :
    (∀ c, v.degradations.messageClass = some c → a.messageClass = c) ∧
      (v.degradations.discountPct.isSome = true →
        a.messageClass = .transactional ∨ ctx.stopping.policy.maxDiscountBearingAttempts ≤
          ctx.stopping.discountBearingAttempts) := by
  rw [h.messageClass, evaluate_degradations h.evaluated]
  constructor
  · intro c hc
    by_cases hr : ClassRefused (proposedContext proposal ctx)
    · simp_all [effectiveClass]
    · simp [hr] at hc
  · intro hsome
    by_cases hr : ClassRefused (proposedContext proposal ctx)
    · exact .inl (by simp [effectiveClass, hr])
    · by_cases hd : DiscountRefused (proposedContext proposal ctx)
      · exact .inr hd.2
      · simp [hr, hd] at hsome

/-! ## Every proposal -/

/-- **The degradations are honoured exactly when no discount escapes the budget.** -/
theorem honoursDegradations_iff {proposal : RecoveryProposal} {ctx : PolicyContext}
    {now : DateTime} {d : PolicyDecision} {a : AppliedAction} {v : StoppingVerdict}
    (h : evaluatePolicy rt proposal ctx now = .ok d) (ha : d.applied = some a)
    (hv : d.stopping = some v) : HonoursDegradations ctx v a ↔ ¬EscapesBudget proposal ctx := by
  obtain ⟨v', hadm⟩ := admitted_of_applied h ha
  have hvv : v' = v := Option.some.inj (hadm.stopping.symm.trans hv)
  subst hvv
  obtain ⟨hclass, hremoved⟩ := hadm.degradations
  have hcharge : a.chargeAmountPaise = ctx.orderAmountPaise - a.discountAmountPaise := by
    have ha : a = _ := congrArg Prod.fst hadm.clamped
    rw [ha]
    rfl
  have hzero := finalDiscount_eq_zero_iff ctx.limits proposal.strategy (effectiveClass proposal ctx)
    hadm.positive proposal.discountPct
  rw [← hadm.discount, Prod.mk.injEq] at hzero
  constructor
  · -- an escaping proposal is none of the four ways a discount vanishes
    intro hon hesc
    obtain ⟨hpct, hpaise, -⟩ := hon.budget hesc.exhausted
    rcases hzero.mp ⟨hpct, hpaise⟩ with hs | ht | hp | hcap
    · exact hesc.acts hs
    · rw [effectiveClass, if_neg hesc.permitted, hesc.marketing] at ht
      cases ht
    · exact absurd hesc.positive (not_lt.mpr hp)
    · exact hesc.notCapped hcap
  · intro hesc
    have hnone : ctx.stopping.policy.maxDiscountBearingAttempts ≤
        ctx.stopping.discountBearingAttempts → a.discountPct = 0 ∧ a.discountAmountPaise = 0 := by
      intro hex
      rw [hzero]
      by_contra hnot
      simp only [not_or] at hnot
      obtain ⟨hs, ht, hp, hcap⟩ := hnot
      have hperm : ¬ClassRefused (proposedContext proposal ctx) := fun hr =>
        ht (by simp [effectiveClass, hr])
      have hmark : proposal.messageClass = .marketing := by
        rw [effectiveClass, if_neg hperm] at ht
        cases hc : proposal.messageClass with
        | transactional => exact absurd hc ht
        | marketing => rfl
      exact hesc ⟨hex, hs, hmark, hperm, not_le.mp hp, hcap⟩
    refine ⟨fun hex => ?_, fun hsome => ?_, hclass⟩
    · obtain ⟨hpct, hpaise⟩ := hnone hex
      exact ⟨hpct, hpaise, by rw [hcharge, hpaise, sub_zero]⟩
    · rcases hremoved hsome with ht | hex
      · rw [hzero]
        exact .inr (.inl (hadm.messageClass ▸ ht))
      · exact hnone hex

/-- Read an applied action off a computed decision. -/
theorem exists_applied (rt : Runtime) (proposal : RecoveryProposal) (ctx : PolicyContext)
    (now : DateTime) (q : ℚ)
    (h : ((evaluatePolicy rt proposal ctx now).toOption.bind (·.applied)).map (·.discountPct) =
      some q) :
    ∃ d a v, evaluatePolicy rt proposal ctx now = .ok d ∧ d.applied = some a ∧
      d.stopping = some v ∧ a.discountPct = q := by
  obtain ⟨a, ha, hq⟩ := Option.map_eq_some_iff.mp h
  obtain ⟨d, hd, hda⟩ := Option.bind_eq_some_iff.mp ha
  cases hr : evaluatePolicy rt proposal ctx now with
  | error e =>
    rw [hr] at hd
    cases hd
  | ok d' =>
    rw [hr] at hd
    cases hd
    obtain ⟨v, hadm⟩ := admitted_of_applied hr hda
    exact ⟨d, a, v, rfl, hda, hadm.stopping, hq⟩

/-! ## The first offer and the second -/

def offerProposal : RecoveryProposal :=
  { strategy := .incentivisedLink, discountPct := .fin 5, messageClass := .marketing }

/-- The budget is still there: the offer goes out and nothing is violated. -/
theorem honoursDegradations_first_offer : ∃ d a v,
    evaluatePolicy plainRuntime offerProposal (openContext 250000) { utc := 0 } = .ok d ∧
      d.applied = some a ∧ d.stopping = some v ∧ a.discountPct = 5 ∧
      HonoursDegradations (openContext 250000) v a := by
  obtain ⟨d, a, v, hd, ha, hv, hpct⟩ := exists_applied plainRuntime offerProposal
    (openContext 250000) { utc := 0 } 5 (by decide +kernel)
  refine ⟨d, a, v, hd, ha, hv, hpct, (honoursDegradations_iff hd ha hv).mpr fun hesc => ?_⟩
  exact absurd hesc.exhausted (by decide)

/-- The budget is spent, S-03 says so, and the 5% offer goes out all the same. -/
theorem not_honoursDegradations_second_offer :
    ¬∀ (proposal : RecoveryProposal) (ctx : PolicyContext) (now : DateTime) (d : PolicyDecision)
        (a : AppliedAction) (v : StoppingVerdict),
      evaluatePolicy plainRuntime proposal ctx now = .ok d → d.applied = some a →
        d.stopping = some v → HonoursDegradations ctx v a := fun h => by
  obtain ⟨d, a, v, hd, ha, hv, hpct⟩ := exists_applied plainRuntime offerProposal
    (openContext 250000 1) { utc := 0 } 5 (by decide +kernel)
  have hon := h offerProposal (openContext 250000 1) { utc := 0 } d a v hd ha hv
  rw [(hon.budget (by decide)).1] at hpct
  norm_num at hpct

end AegisMerchant
