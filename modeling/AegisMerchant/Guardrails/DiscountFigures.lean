import AegisMerchant.Guardrails.DiscountBudget

/-!
# The two figures of a discount

An applied action carries its discount twice, as a percentage and in paise. The rupee ceiling
derives the percentage from the paise, everything else the paise from the percentage, and each
derivation rounds its own way. The two figures tell one story exactly when the discount is worth a
paisa and the ceiling's percentage survives its fourth decimal.

`truncInt_le_cap_iff` and `figuresAgree_rounded_iff` are the two roundings, `figures_agree_iff` is
about the action that is applied, and `not_figures_agree` an offer too small for a paisa.
-/

namespace AegisMerchant

open Time Numeric

variable {rt : Runtime}

/-- The figures of a discount on an amount: not above a proposed percentage, positive together, and
each worth the other up to what its rounding loses, a paisa or half a fourth decimal. -/
structure FiguresAgree (proposedPct : ℚ) (amountPaise : ℤ) (discount : ℚ × ℤ) : Prop where
  neverAbove : discount.1 ≤ proposedPct
  together : 0 < discount.1 ↔ 0 < discount.2
  worth : |(discount.2 : ℚ) - amountPaise * discount.1 / 100| < 1 ∨
    |discount.1 - discount.2 * 100 / amountPaise| ≤ 1 / 20000

/-- A cap's share of an amount, in percent to four decimals, is not nothing and not above a
percentage. -/
structure CapReads (proposedPct : ℚ) (amountPaise capPaise : ℤ) : Prop where
  /-- The share is more than half a fourth decimal. -/
  visible : amountPaise < 2000000 * capPaise
  /-- The share is at most half a step above the last four-decimal percentage within the proposed
  one. -/
  within : (capPaise * 100 / amountPaise * 10 ^ 4 : ℚ) < ⌊proposedPct * 10 ^ 4⌋ + 1 / 2 ∨
    ((capPaise * 100 / amountPaise * 10 ^ 4 : ℚ) = ⌊proposedPct * 10 ^ 4⌋ + 1 / 2 ∧
      Even ⌊proposedPct * 10 ^ 4⌋)

/-- The offers whose figures stay together: where a percentage is left, it is worth a paisa of the
amount if the cap does not bite, and a cap that bites and is positive reads as a percentage. -/
structure FiguresMeet (limits : PolicyLimitsFull) (strategy : RecoveryStrategy) (cls : MessageClass)
    (amountPaise : ℤ) (proposal : RecoveryProposal) : Prop where
  worth : strategy ≠ .noAction → cls = .marketing → 0 < boundedPct limits proposal.discountPct →
    amountPaise * boundedPct limits proposal.discountPct <
      100 * (limits.maxDiscountAbsolutePaise + 1) →
    100 ≤ amountPaise * boundedPct limits proposal.discountPct
  capped : strategy ≠ .noAction → cls = .marketing → 0 < boundedPct limits proposal.discountPct →
    100 * (limits.maxDiscountAbsolutePaise + 1) ≤
      amountPaise * boundedPct limits proposal.discountPct →
    0 < limits.maxDiscountAbsolutePaise →
    CapReads proposal.pct amountPaise limits.maxDiscountAbsolutePaise

/-! ## The two figures -/

/-- The sanitised percentage is not above the proposed one. -/
theorem boundedPct_le_pct (limits : PolicyLimitsFull) (proposal : RecoveryProposal) :
    boundedPct limits proposal.discountPct ≤ proposal.pct := by
  unfold RecoveryProposal.pct
  cases hp : proposal.discountPct with
  | fin value =>
    simp only [boundedPct, ExtRat.finiteOrZero_fin]
    split_ifs with hneg habove
    · exact le_max_left _ _
    · -- the safe default is below the ceiling, and the proposal was above it
      exact ((min_le_right _ _).trans habove.le).trans (le_max_right _ _)
    · exact le_max_right _ _
  | nan => exact le_max_left _ _
  | posInf => exact le_max_left _ _
  | negInf => exact le_max_left _ _

/-- No discount is consistent with itself. -/
theorem figuresAgree_zero {proposedPct : ℚ} (h : 0 ≤ proposedPct) (amountPaise : ℤ) :
    FiguresAgree proposedPct amountPaise (0, 0) where
  neverAbove := h
  together := by simp
  worth := .inl (by norm_num)

/-- The paise of a percentage, truncated: the two agree when they come to a paisa. -/
theorem figuresAgree_truncated_iff {proposedPct pct : ℚ} {amountPaise : ℤ} (hp : 0 < pct)
    (ha : 0 < amountPaise) (hle : pct ≤ proposedPct) :
    FiguresAgree proposedPct amountPaise (pct, truncInt (amountPaise * pct / 100)) ↔
      100 ≤ amountPaise * pct := by
  have haq : (0 : ℚ) < amountPaise := by exact_mod_cast ha
  have hnonneg : 0 ≤ amountPaise * pct / 100 := by positivity
  have hpaisa : 0 < truncInt (amountPaise * pct / 100) ↔ 100 ≤ amountPaise * pct := by
    rw [truncInt_of_nonneg hnonneg, Int.floor_pos, le_div_iff₀ (by norm_num), one_mul]
  constructor
  · intro h
    exact hpaisa.mp (h.together.mp hp)
  · intro h
    refine ⟨hle, iff_of_true hp (hpaisa.mpr h), .inl ?_⟩
    rw [truncInt_of_nonneg hnonneg, abs_lt]
    have h0 := Int.floor_le (amountPaise * pct / 100)
    have h1 := Int.lt_floor_add_one (amountPaise * pct / 100)
    constructor <;> linarith

/-- The percentage of a cap, rounded: the two agree when the share is neither lost nor rounded above
the proposed percentage, and below zero they always do. -/
theorem figuresAgree_rounded_iff {proposedPct : ℚ} {amountPaise capPaise : ℤ}
    (hproposed : 0 ≤ proposedPct) (ha : 0 < amountPaise) :
    FiguresAgree proposedPct amountPaise
        (roundDigits 4 (capPaise * 100 / amountPaise), capPaise) ↔
      (0 < capPaise → CapReads proposedPct amountPaise capPaise) := by
  have haq : (0 : ℚ) < amountPaise := by exact_mod_cast ha
  have hvisible : 0 < roundDigits 4 (capPaise * 100 / amountPaise : ℚ) ↔
      amountPaise < 2000000 * capPaise := by
    rw [roundDigits_pos_iff, div_mul_eq_mul_div, lt_div_iff₀ haq, ← Int.cast_lt (R := ℚ)]
    push_cast
    constructor <;> intro h <;> linarith
  constructor
  · intro h hcap
    exact ⟨hvisible.mp (h.together.mpr hcap), (roundDigits_le_iff _ _ _).mp h.neverAbove⟩
  · intro h
    refine ⟨?_, ⟨fun hpct => ?_, fun hcap => hvisible.mpr (h hcap).visible⟩, .inr ?_⟩
    · by_cases hcap : 0 < capPaise
      · exact (roundDigits_le_iff _ _ _).mpr (h hcap).within
      · have hlost : ¬0 < roundDigits 4 (capPaise * 100 / amountPaise : ℚ) := by
          rw [hvisible]
          omega
        exact (not_lt.mp hlost).trans hproposed
    · have := hvisible.mp hpct
      show 0 < capPaise
      omega
    · have hround := abs_roundDigits_sub_le 4 (capPaise * 100 / amountPaise : ℚ)
      norm_num at hround ⊢
      exact hround

/-- Whether the cap bites, read off the product. -/
theorem truncInt_le_cap_iff {pct : ℚ} {amountPaise capPaise : ℤ} (hp : 0 < pct)
    (ha : 0 < amountPaise) :
    truncInt (amountPaise * pct / 100) ≤ capPaise ↔ amountPaise * pct < 100 * (capPaise + 1) := by
  have haq : (0 : ℚ) < amountPaise := by exact_mod_cast ha
  rw [truncInt_of_nonneg (by positivity), ← Int.lt_add_one_iff, Int.floor_lt,
    div_lt_iff₀ (by norm_num), mul_comm ((_ : ℤ) : ℚ) 100]
  push_cast
  rfl

/-- When the discount an action ends with agrees with itself. -/
theorem finalDiscount_agrees_iff (limits : PolicyLimitsFull) (strategy : RecoveryStrategy)
    (cls : MessageClass) {amountPaise : ℤ} (ha : 0 < amountPaise) (proposal : RecoveryProposal) :
    FiguresAgree proposal.pct amountPaise
        (finalDiscount limits strategy cls amountPaise proposal.discountPct) ↔
      FiguresMeet limits strategy cls amountPaise proposal := by
  have hproposed : 0 ≤ proposal.pct := le_max_left _ _
  by_cases hs : strategy = .noAction
  · rw [finalDiscount, if_pos hs]
    exact iff_of_true (figuresAgree_zero hproposed _)
      ⟨fun hne => absurd hs hne, fun hne => absurd hs hne⟩
  cases cls with
  | transactional =>
    rw [finalDiscount_transactional]
    exact iff_of_true (figuresAgree_zero hproposed _)
      ⟨fun _ hcls => absurd hcls (by decide), fun _ hcls => absurd hcls (by decide)⟩
  | marketing =>
    have hfinal : finalDiscount limits strategy .marketing amountPaise proposal.discountPct =
        cappedDiscount (boundedPct limits proposal.discountPct) amountPaise
          limits.maxDiscountAbsolutePaise := by
      simp [finalDiscount, hs]
    rw [hfinal]
    by_cases hp : boundedPct limits proposal.discountPct ≤ 0
    · rw [cappedDiscount, if_pos (.inl hp)]
      exact iff_of_true (figuresAgree_zero hproposed _)
        ⟨fun _ _ hpos => absurd hpos (not_lt.mpr hp), fun _ _ hpos => absurd hpos (not_lt.mpr hp)⟩
    rw [not_le] at hp
    have hneither : ¬(boundedPct limits proposal.discountPct ≤ 0 ∨ amountPaise ≤ 0) := by
      rw [not_or]
      exact ⟨not_le.mpr hp, not_le.mpr ha⟩
    rw [cappedDiscount, if_neg hneither]
    split
    · next hfits =>
      rw [figuresAgree_truncated_iff hp ha (boundedPct_le_pct limits proposal)]
      have hroom := (truncInt_le_cap_iff hp ha).mp hfits
      exact ⟨fun h => ⟨fun _ _ _ _ => h, fun _ _ _ hbites => absurd hroom (not_lt.mpr hbites)⟩,
        fun h => h.worth hs rfl hp hroom⟩
    · next hbites =>
      rw [figuresAgree_rounded_iff hproposed ha]
      rw [truncInt_le_cap_iff hp ha] at hbites
      exact ⟨fun h => ⟨fun _ _ _ hroom => absurd hroom hbites, fun _ _ _ _ => h⟩,
        fun h => h.capped hs rfl hp (not_lt.mp hbites)⟩

/-! ## Every decision -/

/-- The figures of an admitted action are those the pipeline ends with. -/
theorem Admitted.figures {proposal : RecoveryProposal} {ctx : PolicyContext} {now : DateTime}
    {d : PolicyDecision} {a : AppliedAction} {v : StoppingVerdict}
    (h : Admitted rt proposal ctx now d a v) :
    FiguresAgree proposal.pct a.amountPaise (a.discountPct, a.discountAmountPaise) ↔
      FiguresMeet ctx.limits proposal.strategy (effectiveClass proposal ctx)
        ctx.orderAmountPaise proposal := by
  have hamount : a.amountPaise = ctx.orderAmountPaise := by
    rw [show a = _ from congrArg Prod.fst h.clamped, clampedAction_amount]
  rw [hamount, h.discount]
  exact finalDiscount_agrees_iff _ _ _ h.positive _

/-- **The two figures of an applied action agree exactly on the offers where they meet.** -/
theorem figures_agree_iff {proposal : RecoveryProposal} {ctx : PolicyContext} {now : DateTime}
    {d : PolicyDecision} {a : AppliedAction} (h : evaluatePolicy rt proposal ctx now = .ok d)
    (ha : d.applied = some a) :
    FiguresAgree proposal.pct a.amountPaise (a.discountPct, a.discountAmountPaise) ↔
      FiguresMeet ctx.limits proposal.strategy (effectiveClass proposal ctx)
        ctx.orderAmountPaise proposal := by
  obtain ⟨v, hadm⟩ := admitted_of_applied h ha
  exact hadm.figures

/-- The usual 5% of a ₹2,500 cart. -/
theorem figures_agree_first_offer : ∃ d a,
    evaluatePolicy plainRuntime offerProposal (openContext 250000) { utc := 0 } = .ok d ∧
      d.applied = some a ∧ a.discountPct = 5 ∧
      FiguresAgree offerProposal.pct a.amountPaise (a.discountPct, a.discountAmountPaise) := by
  obtain ⟨d, a, v, hd, ha, -, hpct⟩ := exists_applied plainRuntime offerProposal
    (openContext 250000) { utc := 0 } 5 (by decide +kernel)
  refine ⟨d, a, hd, ha, hpct, (figures_agree_iff hd ha).mpr ⟨fun _ _ _ _ => ?_, ?_⟩⟩
  · norm_num [openContext, offerProposal, boundedPct]
  · intro _ _ _ hbites
    norm_num [openContext, offerProposal, boundedPct] at hbites

/-- Half a percent of a ₹1 cart is worth no paisa: the action reads as a discount that nobody
gets. -/
theorem not_figures_agree :
    ¬∀ (proposal : RecoveryProposal) (ctx : PolicyContext) (now : DateTime) (d : PolicyDecision)
        (a : AppliedAction), evaluatePolicy plainRuntime proposal ctx now = .ok d →
      d.applied = some a →
      FiguresAgree proposal.pct a.amountPaise (a.discountPct, a.discountAmountPaise) := fun h => by
  obtain ⟨d, a, v, hd, ha, -, hpct⟩ := exists_applied plainRuntime
    { offerProposal with discountPct := .fin (1 / 2) } (openContext 100) { utc := 0 } (1 / 2)
    (by decide +kernel)
  obtain ⟨v, hadm⟩ := admitted_of_applied hd ha
  have hmarketing : effectiveClass { offerProposal with discountPct := .fin (1 / 2) }
      (openContext 100) = .marketing := by
    cases hcls : effectiveClass { offerProposal with discountPct := .fin (1 / 2) }
        (openContext 100) with
    | marketing => rfl
    | transactional =>
      have hnone := hadm.discount
      rw [hcls, finalDiscount_transactional, Prod.mk.injEq, hpct] at hnone
      norm_num at hnone
  have hpaisa := (hadm.figures.mp (h _ _ _ d a hd ha)).worth (by decide) hmarketing
  norm_num [openContext, boundedPct] at hpaisa

end AegisMerchant
