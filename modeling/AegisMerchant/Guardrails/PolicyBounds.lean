import AegisMerchant.Guardrails.PolicyLaws

/-!
# The firewall keeps every bound

Whatever is proposed, an applied action lies inside the merchant's limits, every reduction left a
clamp, and only a `PASSED` decision carries a token.

Each sanitiser has its bound (`boundedPct_le`, `cappedDiscount_bounds`, `sanitiseExpiry_bounds`) and
leaves its clamp on record; `evaluatePolicy_closed` is the firewall as a whole.
-/

namespace AegisMerchant

open Time Numeric

variable {rt : Runtime}

/-- Limits a merchant can mean: the default discount under the ceiling, the ceiling a multiple of
the last decimal the cap rounds to, and the default expiry between the two expiry bounds. -/
structure PolicyLimitsFull.Sound (limits : PolicyLimitsFull) : Prop where
  default_nonneg : 0 ≤ limits.defaultDiscountPct
  default_le : limits.defaultDiscountPct ≤ limits.maxDiscountPct
  max_le : limits.maxDiscountPct ≤ 100
  max_multiple : ∃ n : ℤ, limits.maxDiscountPct * 10 ^ 4 = n
  cap_nonneg : 0 ≤ limits.maxDiscountAbsolutePaise
  min_le_expiry : limits.linkExpiryMinMinutes ≤ limits.linkExpiryMinutes
  expiry_le_max : limits.linkExpiryMinutes ≤ limits.linkExpiryMaxMinutes

theorem PolicyLimitsFull.Sound.max_nonneg {limits : PolicyLimitsFull} (h : limits.Sound) :
    0 ≤ limits.maxDiscountPct := le_trans h.default_nonneg h.default_le

/-! ## The discount -/

theorem boundedPct_nonneg {limits : PolicyLimitsFull} (hl : limits.Sound) (p : ExtRat) :
    0 ≤ boundedPct limits p := by
  cases p with
  | fin value =>
    simp only [boundedPct]
    split
    · exact le_refl 0
    · split
      · exact le_min hl.default_nonneg hl.max_nonneg
      · exact not_lt.mp ‹_›
  | nan => exact le_refl 0
  | posInf => exact le_refl 0
  | negInf => exact le_refl 0

/-- The sanitised percentage is at most what was proposed and at most the ceiling. -/
theorem boundedPct_le {limits : PolicyLimitsFull} (hl : limits.Sound)
    (proposal : RecoveryProposal) :
    boundedPct limits proposal.discountPct ≤ min proposal.pct limits.maxDiscountPct := by
  have hmax := hl.max_nonneg
  unfold RecoveryProposal.pct
  cases proposal.discountPct with
  | fin value =>
    simp only [boundedPct, ExtRat.finiteOrZero_fin]
    split
    · exact le_min (le_max_left _ _) hmax
    · split
      · next habove =>
          have hmin : min limits.defaultDiscountPct limits.maxDiscountPct ≤ limits.maxDiscountPct :=
            min_le_right _ _
          exact le_min (le_trans hmin (le_trans habove.le (le_max_right _ _))) hmin
      · next hbelow => exact le_min (le_max_right _ _) (not_lt.mp hbelow)
  | nan => exact le_min (le_max_left _ _) hmax
  | posInf => exact le_min (le_max_left _ _) hmax
  | negInf => exact le_min (le_max_left _ _) hmax

/-- What the capped discount satisfies, from the percentage it starts with. -/
theorem cappedDiscount_bounds {limits : PolicyLimitsFull} (hl : limits.Sound) {pct : ℚ}
    (amountPaise : ℤ) (hp : 0 ≤ pct) (hmax : pct ≤ limits.maxDiscountPct) :
    (0 ≤ (cappedDiscount pct amountPaise limits.maxDiscountAbsolutePaise).1 ∧
      (cappedDiscount pct amountPaise limits.maxDiscountAbsolutePaise).1 ≤
        limits.maxDiscountPct) ∧
    (0 ≤ (cappedDiscount pct amountPaise limits.maxDiscountAbsolutePaise).2 ∧
      (cappedDiscount pct amountPaise limits.maxDiscountAbsolutePaise).2 ≤
        limits.maxDiscountAbsolutePaise) ∧
    (0 ≤ amountPaise →
      ((cappedDiscount pct amountPaise limits.maxDiscountAbsolutePaise).2 : ℚ) ≤
        amountPaise * pct / 100) := by
  have hcap := hl.cap_nonneg
  unfold cappedDiscount
  split
  -- nothing is taken off
  · refine ⟨⟨le_refl 0, hl.max_nonneg⟩, ⟨le_refl 0, hcap⟩, fun ha => ?_⟩
    have : (0 : ℚ) ≤ amountPaise := by exact_mod_cast ha
    push_cast
    positivity
  · next hpos =>
      simp only [not_or, not_le] at hpos
      have hamount : (0 : ℚ) < amountPaise := by exact_mod_cast hpos.2
      have hval : (0 : ℚ) ≤ amountPaise * pct / 100 := by positivity
      split
      · next hle => exact ⟨⟨hp, hmax⟩, ⟨truncInt_nonneg hval, hle⟩, fun _ => truncInt_le hval⟩
      · next hgt =>
          -- the cap bites, so the capped percentage is below the one it replaces
          have hover : (limits.maxDiscountAbsolutePaise : ℚ) < amountPaise * pct / 100 :=
            lt_of_lt_of_le (by exact_mod_cast not_le.mp hgt) (truncInt_le hval)
          have hq : (limits.maxDiscountAbsolutePaise : ℚ) * 100 / amountPaise ≤ pct := by
            rw [div_le_iff₀ hamount]
            linarith
          have hq0 : (0 : ℚ) ≤ limits.maxDiscountAbsolutePaise * 100 / amountPaise := by
            have : (0 : ℚ) ≤ limits.maxDiscountAbsolutePaise := by exact_mod_cast hcap
            positivity
          exact ⟨⟨roundDigits_nonneg 4 hq0, roundDigits_le hl.max_multiple (le_trans hq hmax)⟩,
            ⟨hcap, le_refl _⟩, fun _ => hover.le⟩

/-- What the final discount satisfies, from the proposal. -/
theorem finalDiscount_bounds {limits : PolicyLimitsFull} (hl : limits.Sound)
    (proposal : RecoveryProposal) (cls : MessageClass) {amountPaise : ℤ} (ha : 0 ≤ amountPaise) :
    let discount := finalDiscount limits proposal.strategy cls amountPaise proposal.discountPct
    (0 ≤ discount.1 ∧ discount.1 ≤ limits.maxDiscountPct) ∧
      (0 ≤ discount.2 ∧ discount.2 ≤ limits.maxDiscountAbsolutePaise) ∧
      (discount.2 : ℚ) ≤ amountPaise * min proposal.pct limits.maxDiscountPct / 100 := by
  have hamount : (0 : ℚ) ≤ amountPaise := by exact_mod_cast ha
  have hpct : (0 : ℚ) ≤ proposal.pct := le_max_left _ _
  have hceil : (0 : ℚ) ≤ amountPaise * min proposal.pct limits.maxDiscountPct / 100 := by
    have := le_min hpct hl.max_nonneg
    positivity
  -- no discount is within every bound
  have hzero : (0 ≤ (0 : ℚ) ∧ (0 : ℚ) ≤ limits.maxDiscountPct) ∧
      (0 ≤ (0 : ℤ) ∧ (0 : ℤ) ≤ limits.maxDiscountAbsolutePaise) ∧
      ((0 : ℤ) : ℚ) ≤ amountPaise * min proposal.pct limits.maxDiscountPct / 100 :=
    ⟨⟨le_refl 0, hl.max_nonneg⟩, ⟨le_refl 0, hl.cap_nonneg⟩, by simpa using hceil⟩
  simp only [finalDiscount]
  split
  · exact hzero
  · split
    · exact hzero
    · have hle := boundedPct_le hl proposal
      obtain ⟨h1, h2, h3⟩ := cappedDiscount_bounds hl amountPaise
        (boundedPct_nonneg hl proposal.discountPct) (le_trans hle (min_le_right _ _))
      refine ⟨h1, h2, le_trans (h3 ha) ?_⟩
      gcongr

/-! ## The expiry -/

theorem sanitiseExpiry_bounds {limits : PolicyLimitsFull} (hl : limits.Sound) (v : Validity)
    (cs : List Clamp) :
    limits.linkExpiryMinMinutes ≤ (sanitiseExpiry v limits cs).1 ∧
      (sanitiseExpiry v limits cs).1 ≤ limits.linkExpiryMaxMinutes := by
  have hmin := hl.min_le_expiry
  have hmax := hl.expiry_le_max
  cases v with
  | unreadable text => exact ⟨hmin, hmax⟩
  | minutes value =>
    simp only [sanitiseExpiry]
    split
    · exact ⟨le_refl _, le_trans hmin hmax⟩
    · split
      · exact ⟨le_trans hmin hmax, le_refl _⟩
      · omega

/-! ## Every reduction leaves a clamp -/

/-- The clamps account for a discount: it is the one proposed, or the last clamp on it says so. -/
def DiscountRecorded (proposed : ExtRat) (clamps : List Clamp) (pct : ℚ) (paise : ℤ) : Prop :=
  proposed ≠ .fin pct → ∃ c ∈ clamps,
    (c.fieldName = "discount_pct" ∧ c.applied = .number (.fin pct)) ∨
      (c.fieldName = "discount_amount_paise" ∧ c.applied = .integer paise)

/-- The clamps account for a percentage. -/
def PctRecorded (proposed : ExtRat) (clamps : List Clamp) (pct : ℚ) : Prop :=
  proposed ≠ .fin pct →
    ∃ c ∈ clamps, c.fieldName = "discount_pct" ∧ c.applied = .number (.fin pct)

theorem PctRecorded.discount {p : ExtRat} {cs : List Clamp} {pct : ℚ} (h : PctRecorded p cs pct)
    (paise : ℤ) : DiscountRecorded p cs pct paise := fun hne =>
  let ⟨c, hc, hrec⟩ := h hne
  ⟨c, hc, .inl hrec⟩

theorem sanitiseDiscount_recorded (rt : Runtime) (p : ExtRat) (limits : PolicyLimitsFull) (cs : List Clamp) :
    PctRecorded p (sanitiseDiscount rt p limits cs).2 (sanitiseDiscount rt p limits cs).1 := by
  unfold PctRecorded
  cases p with
  | fin value =>
    simp only [sanitiseDiscount]
    split
    · simp
    · split <;> simp
  | nan => simp [sanitiseDiscount]
  | posInf => simp [sanitiseDiscount]
  | negInf => simp [sanitiseDiscount]

theorem stripTransactional_recorded {p : ExtRat} {pct : ℚ} {cs : List Clamp}
    (h : PctRecorded p cs pct) (cls : MessageClass) :
    PctRecorded p (stripTransactional cls pct cs).2 (stripTransactional cls pct cs).1 := by
  unfold stripTransactional
  split
  · simp [PctRecorded]
  · exact h

theorem applyAbsoluteCap_recorded (rt : Runtime) {p : ExtRat} {pct : ℚ} {cs : List Clamp}
    (h : PctRecorded p cs pct) (hp : 0 ≤ pct) {amountPaise : ℤ} (ha : 0 < amountPaise)
    (limits : PolicyLimitsFull) :
    DiscountRecorded p (applyAbsoluteCap rt pct amountPaise limits cs).2
      (applyAbsoluteCap rt pct amountPaise limits cs).1.1
      (applyAbsoluteCap rt pct amountPaise limits cs).1.2 := by
  unfold applyAbsoluteCap
  split
  · next hz =>
      have : pct = 0 := le_antisymm (hz.resolve_right (not_le.mpr ha)) hp
      subst this
      exact h.discount 0
  · simp only
    split
    · exact h.discount _
    · simp [DiscountRecorded]

theorem zeroNoAction_recorded {p : ExtRat} {discount : ℚ × ℤ} {cs : List Clamp}
    (h : DiscountRecorded p cs discount.1 discount.2) (strategy : RecoveryStrategy) :
    DiscountRecorded p (zeroNoAction strategy discount cs).2
      (zeroNoAction strategy discount cs).1.1 (zeroNoAction strategy discount cs).1.2 := by
  unfold zeroNoAction
  split
  · simp [DiscountRecorded]
  · exact h

/-- Every stage appends to the clamps it is given. -/
theorem prefix_sanitiseDiscount (p : ExtRat) (limits : PolicyLimitsFull) (cs : List Clamp) :
    cs <+: (sanitiseDiscount rt p limits cs).2 := by
  cases p with
  | fin value =>
    simp only [sanitiseDiscount]
    split
    · exact List.prefix_append _ _
    · split
      · exact List.prefix_append _ _
      · exact List.prefix_refl _
  | nan => exact List.prefix_append _ _
  | posInf => exact List.prefix_append _ _
  | negInf => exact List.prefix_append _ _

theorem prefix_stripTransactional (cls : MessageClass) (pct : ℚ) (cs : List Clamp) :
    cs <+: (stripTransactional cls pct cs).2 := by
  unfold stripTransactional
  split
  · exact List.prefix_append _ _
  · exact List.prefix_refl _

theorem prefix_applyAbsoluteCap (pct : ℚ) (amountPaise : ℤ) (limits : PolicyLimitsFull)
    (cs : List Clamp) : cs <+: (applyAbsoluteCap rt pct amountPaise limits cs).2 := by
  unfold applyAbsoluteCap
  split
  · exact List.prefix_refl _
  · simp only
    split
    · exact List.prefix_refl _
    · exact List.prefix_append _ _

theorem prefix_zeroNoAction (strategy : RecoveryStrategy) (discount : ℚ × ℤ) (cs : List Clamp) :
    cs <+: (zeroNoAction strategy discount cs).2 := by
  unfold zeroNoAction
  split
  · exact List.prefix_append _ _
  · exact List.prefix_refl _

theorem prefix_sanitiseExpiry (v : Validity) (limits : PolicyLimitsFull) (cs : List Clamp) :
    cs <+: (sanitiseExpiry v limits cs).2 := by
  cases v with
  | unreadable text => exact List.prefix_append _ _
  | minutes value =>
    simp only [sanitiseExpiry]
    split
    · exact List.prefix_append _ _
    · split
      · exact List.prefix_append _ _
      · exact List.prefix_refl _

theorem sanitiseExpiry_recorded (v : Validity) (limits : PolicyLimitsFull) (cs : List Clamp)
    (hne : v ≠ .minutes (sanitiseExpiry v limits cs).1) :
    ∃ c ∈ (sanitiseExpiry v limits cs).2, c.fieldName = "link_expiry_minutes" ∧
      c.applied = .integer (sanitiseExpiry v limits cs).1 := by
  cases v with
  | unreadable text => simp [sanitiseExpiry]
  | minutes value =>
    by_cases hlow : value < limits.linkExpiryMinMinutes
    · simp [sanitiseExpiry, hlow]
    · by_cases hhigh : limits.linkExpiryMaxMinutes < value
      · simp [sanitiseExpiry, hlow, hhigh]
      · simp [sanitiseExpiry, hlow, hhigh] at hne

theorem classClamps_recorded {proposal : RecoveryProposal} {cls : MessageClass}
    (hne : cls ≠ proposal.messageClass) :
    ∃ c ∈ classClamps proposal cls, c.fieldName = "message_class" ∧
      c.proposed = .messageClass proposal.messageClass ∧ c.applied = .messageClass cls := by
  simp [classClamps, hne]

section ClampedAction

variable (proposal : RecoveryProposal) (ctx : PolicyContext) (stopping : StoppingVerdict)
  (cls : MessageClass) (cs : List Clamp)

/-- The clamps the pipeline starts with are still there at its end. -/
theorem prefix_clampedAction : cs <+: (clampedAction rt proposal ctx stopping cls cs).2 :=
  ((((prefix_sanitiseDiscount _ _ _).trans (prefix_stripTransactional _ _ _)).trans
    (prefix_applyAbsoluteCap _ _ _ _)).trans (prefix_zeroNoAction _ _ _)).trans
    (prefix_sanitiseExpiry _ _ _)

/-- The discount of the clamped action is accounted for. -/
theorem clampedAction_discountRecorded (hl : ctx.limits.Sound) (ha : 0 < ctx.orderAmountPaise) :
    DiscountRecorded proposal.discountPct (clampedAction rt proposal ctx stopping cls cs).2
      (clampedAction rt proposal ctx stopping cls cs).1.discountPct
      (clampedAction rt proposal ctx stopping cls cs).1.discountAmountPaise := by
  have hstrip := stripTransactional_recorded
    (sanitiseDiscount_recorded rt proposal.discountPct ctx.limits cs) cls
  have hnonneg : 0 ≤ (stripTransactional cls
      (sanitiseDiscount rt proposal.discountPct ctx.limits cs).1
      (sanitiseDiscount rt proposal.discountPct ctx.limits cs).2).1 := by
    rw [stripTransactional_fst, sanitiseDiscount_fst]
    split
    · exact le_refl 0
    · exact boundedPct_nonneg hl _
  have hzero := zeroNoAction_recorded
    (applyAbsoluteCap_recorded rt hstrip hnonneg ha ctx.limits) proposal.strategy
  intro hne
  obtain ⟨c, hc, hrec⟩ := hzero hne
  exact ⟨c, (prefix_sanitiseExpiry _ _ _).subset hc, hrec⟩

/-- The expiry of the clamped action is accounted for. -/
theorem clampedAction_expiryRecorded
    (hne : proposal.linkValidityMinutes ≠
      .minutes (clampedAction rt proposal ctx stopping cls cs).1.linkExpiryMinutes) :
    ∃ c ∈ (clampedAction rt proposal ctx stopping cls cs).2,
      c.fieldName = "link_expiry_minutes" ∧ c.applied =
        .integer (clampedAction rt proposal ctx stopping cls cs).1.linkExpiryMinutes :=
  sanitiseExpiry_recorded _ _ _ hne

theorem clampedAction_expiry_bounds (hl : ctx.limits.Sound) :
    ctx.limits.linkExpiryMinMinutes ≤
        (clampedAction rt proposal ctx stopping cls cs).1.linkExpiryMinutes ∧
      (clampedAction rt proposal ctx stopping cls cs).1.linkExpiryMinutes ≤
        ctx.limits.linkExpiryMaxMinutes :=
  sanitiseExpiry_bounds hl _ _

end ClampedAction

/-! ## The guarantee -/

/-- **What an applied action may be**, given the proposal and the ground truth it was checked
against. -/
structure WithinBounds (proposal : RecoveryProposal) (ctx : PolicyContext) (clamps : List Clamp)
    (a : AppliedAction) : Prop where
  amount : a.amountPaise = ctx.orderAmountPaise
  amount_pos : 0 < a.amountPaise
  pct_nonneg : 0 ≤ a.discountPct
  pct_le : a.discountPct ≤ ctx.limits.maxDiscountPct
  paise_nonneg : 0 ≤ a.discountAmountPaise
  paise_le_cap : a.discountAmountPaise ≤ ctx.limits.maxDiscountAbsolutePaise
  paise_le_proposed : (a.discountAmountPaise : ℚ) ≤
    ctx.orderAmountPaise * min proposal.pct ctx.limits.maxDiscountPct / 100
  charge : a.chargeAmountPaise = a.amountPaise - a.discountAmountPaise
  expiry : ctx.limits.linkExpiryMinMinutes ≤ a.linkExpiryMinutes ∧
    a.linkExpiryMinutes ≤ ctx.limits.linkExpiryMaxMinutes
  transactional : a.messageClass = .transactional → a.discountPct = 0 ∧ a.discountAmountPaise = 0
  marketing : a.messageClass = .marketing → ctx.stopping.isOutboundContact = true →
    ctx.stopping.marketingConsent = true ∧ ctx.stopping.dndRegistered = false
  unchanged : a.strategy = proposal.strategy ∧ a.channel = proposal.channel
  discountRecorded : DiscountRecorded proposal.discountPct clamps a.discountPct
    a.discountAmountPaise
  classRecorded : a.messageClass ≠ proposal.messageClass → ∃ c ∈ clamps,
    c.fieldName = "message_class" ∧ c.proposed = .messageClass proposal.messageClass ∧
      c.applied = .messageClass a.messageClass
  expiryRecorded : proposal.linkValidityMinutes ≠ .minutes a.linkExpiryMinutes → ∃ c ∈ clamps,
    c.fieldName = "link_expiry_minutes" ∧ c.applied = .integer a.linkExpiryMinutes

/-- An admitted action is within the bounds. -/
theorem Admitted.withinBounds {proposal : RecoveryProposal} {ctx : PolicyContext} {now : DateTime}
    {d : PolicyDecision} {a : AppliedAction} {v : StoppingVerdict}
    (h : Admitted rt proposal ctx now d a v) (hl : ctx.limits.Sound) :
    WithinBounds proposal ctx d.clamps a := by
  have ha := congrArg Prod.fst h.clamped
  have hcs := congrArg Prod.snd h.clamped
  simp only at ha hcs
  have hpct := congrArg Prod.fst h.discount
  have hpaise := congrArg Prod.snd h.discount
  simp only at hpct hpaise
  have hb := finalDiscount_bounds hl proposal (effectiveClass proposal ctx) h.positive.le
  simp only at hb
  rw [← hpct, ← hpaise] at hb
  have hclass := h.messageClass
  rw [hcs]
  constructor
  case amount => rw [ha]; rfl
  case amount_pos => rw [ha]; exact h.positive
  case pct_nonneg => exact hb.1.1
  case pct_le => exact hb.1.2
  case paise_nonneg => exact hb.2.1.1
  case paise_le_cap => exact hb.2.1.2
  case paise_le_proposed => exact hb.2.2
  case charge => rw [ha]; rfl
  case expiry => rw [ha]; exact clampedAction_expiry_bounds _ _ _ _ _ hl
  case transactional =>
    intro ht
    rw [hpct, hpaise, ← hclass, ht, finalDiscount_transactional]
    exact ⟨rfl, rfl⟩
  case marketing =>
    intro hm hout
    rw [hclass, effectiveClass] at hm
    split at hm
    · cases hm
    · next hnot =>
        simpa [ClassRefused, proposedContext, hout, hm] using hnot
  case unchanged => rw [ha]; exact ⟨rfl, rfl⟩
  case discountRecorded =>
    rw [ha]
    exact clampedAction_discountRecorded _ _ _ _ _ hl h.positive
  case classRecorded =>
    intro hne
    rw [hclass] at hne ⊢
    obtain ⟨c, hc, hrec⟩ := classClamps_recorded hne
    exact ⟨c, (prefix_clampedAction _ _ _ _ _).subset hc, hrec⟩
  case expiryRecorded =>
    rw [ha]
    exact clampedAction_expiryRecorded _ _ _ _ _

/-- What the firewall answers when it is told not to act. -/
theorem evaluatePolicy_refuses {proposal : RecoveryProposal} {ctx : PolicyContext}
    {now : DateTime} {d : PolicyDecision} (h : evaluatePolicy rt proposal ctx now = .ok d)
    (hr : ctx.arm = .control ∨ ctx.orderAmountPaise ≤ 0 ∨
      ∃ v, evaluate (proposedContext proposal ctx) = .ok v ∧ v.decision = .stop) :
    d.verdict = .blocked ∧ d.applied = none ∧ d.token = none := by
  obtain ⟨v, hv, rfl⟩ := evaluatePolicy_eq_ok h
  refine policyDecision_of_refused rt proposal now fun hnil => ?_
  obtain ⟨hpos, hstop, hctl⟩ := hardRefusals_eq_nil.mp hnil
  rcases hr with hc | ha | ⟨v', hv', hs⟩
  · exact hctl hc
  · omega
  · rw [hv] at hv'
    cases hv'
    exact hstop hs

/-- A token exists exactly on `PASSED`, and signs exactly the applied action. -/
theorem evaluatePolicy_token {proposal : RecoveryProposal} {ctx : PolicyContext} {now : DateTime}
    {d : PolicyDecision} (h : evaluatePolicy rt proposal ctx now = .ok d) :
    (d.verdict = .passed ↔ d.token.isSome = true) ∧
      ∀ token, d.token = some token →
        d.applied = some token.applied ∧ token.mintedAt = now ∧
          token.signature = sign rt token.applied now ∧ token.verify rt = .ok () := by
  obtain ⟨v, hv, rfl⟩ := evaluatePolicy_eq_ok h
  -- refused outright, or authorised: only a pass mints
  by_cases hr : hardRefusals ctx v = []
  · simp only [policyDecision, hr, ne_eq, not_true_eq_false, if_false]
    obtain ⟨happ, -, -, ⟨hp, ht⟩ | ⟨hp, ht⟩⟩ := authorise_cases rt ctx v
      (clampedAction rt proposal ctx v _ (classClamps proposal _)).1
      (clampedAction rt proposal ctx v _ (classClamps proposal _)).2 now
    · rw [happ, hp, ht]
      refine ⟨by simp, fun token htok => ?_⟩
      cases htok
      exact ⟨rfl, rfl, rfl, verify_mint _ _ _⟩
    · rw [hp, ht]
      simp
  · obtain ⟨hp, -, ht⟩ :=
      policyDecision_of_refused rt proposal now hr
    rw [hp, ht]
    simp

/-- Quiet-hour settings that name a time of day. -/
def PolicyLimits.QuietHoursValid (p : PolicyLimits) : Prop :=
  (0 ≤ p.quietHoursEndIst ∧ p.quietHoursEndIst < 24) ∧
    0 ≤ p.quietHoursReleaseMinute ∧ p.quietHoursReleaseMinute < 60

theorem evaluate_isOk (ctx : StoppingContext) (h : ctx.policy.QuietHoursValid) :
    ∃ v, evaluate ctx = .ok v := by
  obtain ⟨⟨h0, h1⟩, h2, h3⟩ := h
  have hquiet : ∃ r, s09QuietHours ctx = .ok r := by
    unfold s09QuietHours
    split
    · exact ⟨_, rfl⟩
    · split
      · exact ⟨_, rfl⟩
      · next hin =>
          have hvalid : 0 ≤ ctx.policy.quietHoursEndIst ∧ ctx.policy.quietHoursEndIst < 24 ∧
              0 ≤ ctx.policy.quietHoursReleaseMinute ∧ ctx.policy.quietHoursReleaseMinute < 60 :=
            ⟨h0, h1, h2, h3⟩
          simp only [nextQuietHoursRelease, hin, DateTime.replaceTime, if_pos hvalid]
          exact ⟨_, rfl⟩
  obtain ⟨r, hr⟩ := hquiet
  exact ⟨_, by rw [evaluate, hr]; rfl⟩

/-- **The firewall is closed.** Under sound limits every applied action is within its bounds,
whatever was proposed; a token exists exactly on `PASSED` and signs exactly that action; the
control arm, a stopped case and a non-positive amount are always blocked; and the firewall answers
whenever the quiet hours name a time of day. -/
theorem evaluatePolicy_closed (rt : Runtime) (proposal : RecoveryProposal) (ctx : PolicyContext)
    (now : DateTime) (hl : ctx.limits.Sound) :
    (∀ d a, evaluatePolicy rt proposal ctx now = .ok d → d.applied = some a →
      WithinBounds proposal ctx d.clamps a) ∧
    (∀ d, evaluatePolicy rt proposal ctx now = .ok d →
      (d.verdict = .passed ↔ d.token.isSome = true) ∧
      ∀ token, d.token = some token →
        d.applied = some token.applied ∧ token.mintedAt = now ∧
          token.signature = sign rt token.applied now ∧ token.verify rt = .ok ()) ∧
    (∀ d, evaluatePolicy rt proposal ctx now = .ok d →
      (ctx.arm = .control ∨ ctx.orderAmountPaise ≤ 0 ∨
        ∃ v, evaluate (proposedContext proposal ctx) = .ok v ∧ v.decision = .stop) →
      d.verdict = .blocked ∧ d.applied = none ∧ d.token = none) ∧
    (ctx.stopping.policy.QuietHoursValid →
      ∃ d, evaluatePolicy rt proposal ctx now = .ok d) := by
  refine ⟨fun d a h ha => ?_, fun d h => evaluatePolicy_token h,
    fun d h hr => evaluatePolicy_refuses h hr, fun hq => ?_⟩
  · obtain ⟨v, hv⟩ := admitted_of_applied h ha
    exact hv.withinBounds hl
  · obtain ⟨v, hv⟩ := evaluate_isOk (proposedContext proposal ctx) hq
    exact ⟨_, by rw [evaluatePolicy, hv]; rfl⟩

/-! ### The default limits, under attack -/

theorem defaultLimits_sound : ({} : PolicyLimitsFull).Sound where
  default_nonneg := by norm_num
  default_le := by norm_num
  max_le := by norm_num
  max_multiple := ⟨70000, by norm_num⟩
  cap_nonneg := by decide
  min_le_expiry := by decide
  expiry_le_max := by decide

/-- A treated case on a weekday afternoon, the customer having opted in to offers. -/
def openContext (amountPaise : ℤ) (discountBearingAttempts : ℤ := 0) : PolicyContext where
  caseId := "RC-0142"
  orderAmountPaise := amountPaise
  attemptNo := 1
  arm := .treatment
  stopping :=
    { nowUtc := { utc := 1788345000000000 }
      policy := {}
      attemptNo := 1
      discountBearingAttempts
      marketingConsent := true }

/-- A proposal of an infinite discount on a link that expires now. -/
def hostileProposal : RecoveryProposal :=
  { strategy := .incentivisedLink, discountPct := .posInf, linkValidityMinutes := .minutes 0
    messageClass := .marketing }

theorem evaluatePolicy_closed_hostile :
    ∃ d a, evaluatePolicy plainRuntime hostileProposal (openContext 250000) { utc := 0 } = .ok d ∧
      d.applied = some a ∧ WithinBounds hostileProposal (openContext 250000) d.clamps a := by
  have h := evaluatePolicy_closed plainRuntime hostileProposal (openContext 250000)
    { utc := 0 } defaultLimits_sound
  exact ⟨_, _, rfl, rfl, h.1 _ _ rfl rfl⟩

end AegisMerchant
