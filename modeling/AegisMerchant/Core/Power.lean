import AegisMerchant.Core.Runtime
import AegisMerchant.Db.Enums
import Mathlib.Tactic.GCongr

/-!
# The sample size of the causal question

How many cases each arm needs before a lift can be told from nothing, and where the experiment
stands against that. The sizes are rounded up, which keeps the standard error the test needs; the
plan's figures say one thing in several ways, except for an experiment that needs no cases at all.

`Asks.detects` is the statistical part, `power_figures_iff` the law of the plan, and
`not_power_figures` the experiment without cases.
-/

namespace AegisMerchant

/-! ## The sizes -/

/-- The normal quantiles of a test: of its rejection threshold and of its power. -/
structure Quantiles where
  zAlpha : ℚ
  zPower : ℚ
  zAlpha_pos : 0 < zAlpha
  zPower_pos : 0 < zPower

theorem zAlpha05_pos : (0 : ℚ) < 1959964 / 1000000 := by norm_num

theorem zPower80_pos : (0 : ℚ) < 841621 / 1000000 := by norm_num

/-- `Z_ALPHA_05` and `Z_POWER_80`. -/
def Quantiles.usual : Quantiles where
  zAlpha := 1959964 / 1000000
  zPower := 841621 / 1000000
  zAlpha_pos := zAlpha05_pos
  zPower_pos := zPower80_pos

/-- The variance of one case of an arm that pays with a given probability. -/
def variance (p : ℚ) : ℚ := p * (1 - p)

def refuse (rejected : Prop) [Decidable rejected] (message : String) : Except PyError Unit :=
  if rejected then throw (.valueError message) else pure ()

/-- `required_per_arm`: the cases of the control and of the treatment arm. -/
def requiredPerArm (rt : Runtime) (pControl pTreatment : ℚ) (controlFraction : ℚ := 1 / 2)
    (z : Quantiles := .usual) : Except PyError (ℤ × ℤ) := do
  refuse (¬(0 < controlFraction ∧ controlFraction < 1))
    ("control_fraction must be in (0.0, 1.0), got " ++ rt.floatRepr controlFraction)
  refuse (¬(0 ≤ pControl ∧ pControl ≤ 1))
    ("p_control must be a probability, got " ++ rt.floatRepr pControl)
  refuse (¬(0 ≤ pTreatment ∧ pTreatment ≤ 1))
    ("p_treatment must be a probability, got " ++ rt.floatRepr pTreatment)
  let delta := pTreatment - pControl
  refuse (delta ≤ 0)
    ("no sample size detects a non-positive lift (control " ++ rt.floatRepr pControl ++
      ", treatment " ++ rt.floatRepr pTreatment ++ "); state the effect you are looking for")
  let k := (1 - controlFraction) / controlFraction
  let seTarget := delta / (z.zAlpha + z.zPower)
  let nControl := (variance pControl + variance pTreatment / k) / seTarget ^ 2
  return (⌈nControl⌉, ⌈k * nControl⌉)

/-! ## The plan -/

/-- Where the experiment stands against what it needs. -/
structure PowerPlan where
  controlNow : ℤ
  treatmentNow : ℤ
  controlRequired : ℤ
  treatmentRequired : ℤ
  pControl : ℚ
  pTreatment : ℚ
  controlFraction : ℚ
  deriving DecidableEq, Repr

namespace PowerPlan

variable (plan : PowerPlan)

/-- Fraction of the way to a powered study, governed by the binding arm. -/
def completion : ℚ :=
  if plan.controlRequired ≤ 0 ∨ plan.treatmentRequired ≤ 0 then 0
  else min 1 (min ((plan.controlNow : ℚ) / plan.controlRequired)
    ((plan.treatmentNow : ℚ) / plan.treatmentRequired))

def progress (now required : ℤ) : ℚ := if required ≤ 0 then 0 else min 1 ((now : ℚ) / required)

def controlCompletion : ℚ := progress plan.controlNow plan.controlRequired

def treatmentCompletion : ℚ := progress plan.treatmentNow plan.treatmentRequired

/-- Which arm is holding the study back. -/
def bindingArm : ExperimentArm :=
  if plan.controlCompletion ≤ plan.treatmentCompletion then .control else .treatment

def isPowered : Bool :=
  plan.controlRequired ≤ plan.controlNow && plan.treatmentRequired ≤ plan.treatmentNow

def casesRemaining : ℤ :=
  max 0 (plan.controlRequired - plan.controlNow) +
    max 0 (plan.treatmentRequired - plan.treatmentNow)

def armCompletion : ExperimentArm → ℚ
  | .control => plan.controlCompletion
  | .treatment => plan.treatmentCompletion

/-- A plan's figures agree: a study is powered when nothing remains, which is when it is complete,
and it is as complete as its binding arm. -/
structure Agrees : Prop where
  powered_iff : plan.isPowered = true ↔ plan.casesRemaining = 0
  remaining_iff : plan.casesRemaining = 0 ↔ plan.completion = 1
  binding : plan.completion = plan.armCompletion plan.bindingArm

end PowerPlan

def sampleSizePlan (rt : Runtime) (controlNow treatmentNow : ℤ) (pControl pTreatment : ℚ)
    (controlFraction : ℚ := 1 / 2) : Except PyError PowerPlan := do
  let (controlRequired, treatmentRequired) ←
    requiredPerArm rt pControl pTreatment controlFraction
  return { controlNow, treatmentNow, controlRequired, treatmentRequired, pControl, pTreatment
           controlFraction }

/-- Sizes that separate a lift from zero: the variance of the difference of the two rates is within
the square of the standard error the test needs. -/
def Detects (pControl pTreatment : ℚ) (z : Quantiles) (sizes : ℤ × ℤ) : Prop :=
  0 < sizes.1 → 0 < sizes.2 →
    variance pControl / sizes.1 + variance pTreatment / sizes.2 ≤
      ((pTreatment - pControl) / (z.zAlpha + z.zPower)) ^ 2

/-! ## What the sizes are -/

section Sizes

variable {rt : Runtime} {pControl pTreatment controlFraction : ℚ} {z : Quantiles}
  {sizes : ℤ × ℤ}

/-- The inputs that are not refused. -/
structure Asks (pControl pTreatment controlFraction : ℚ) : Prop where
  fraction_pos : 0 < controlFraction
  fraction_lt : controlFraction < 1
  control_nonneg : 0 ≤ pControl
  treatment_le : pTreatment ≤ 1
  lift : pControl < pTreatment

/-- The unrounded size of the control arm for an allocation ratio. -/
def exactControl (pControl pTreatment k : ℚ) (z : Quantiles) : ℚ :=
  (variance pControl + variance pTreatment / k) /
    ((pTreatment - pControl) / (z.zAlpha + z.zPower)) ^ 2

/-- What goes on was not refused. -/
theorem refuse_bind {α : Type} {rejected : Prop} [Decidable rejected] {message : String}
    {rest : Unit → Except PyError α} {a : α} (h : (refuse rejected message >>= rest) = .ok a) :
    ¬rejected ∧ rest () = .ok a := by
  unfold refuse at h
  split at h
  · cases h
  · next hrejected => exact ⟨hrejected, h⟩

/-- Sizes come from inputs that are not refused, rounded up. -/
theorem requiredPerArm_eq_ok
    (h : requiredPerArm rt pControl pTreatment controlFraction z = .ok sizes) :
    Asks pControl pTreatment controlFraction ∧
      sizes = (⌈exactControl pControl pTreatment ((1 - controlFraction) / controlFraction) z⌉,
        ⌈(1 - controlFraction) / controlFraction *
          exactControl pControl pTreatment ((1 - controlFraction) / controlFraction) z⌉) := by
  obtain ⟨hfraction, h⟩ := refuse_bind h
  obtain ⟨hcontrol, h⟩ := refuse_bind h
  obtain ⟨htreatment, h⟩ := refuse_bind h
  obtain ⟨hlift, h⟩ := refuse_bind h
  rw [not_not] at hfraction hcontrol htreatment
  rw [not_le, sub_pos] at hlift
  exact ⟨⟨hfraction.1, hfraction.2, hcontrol.1, htreatment.2, hlift⟩, (Except.ok.inj h).symm⟩

/-- The variance of a probability, with the two certain ones having none. -/
theorem variance_nonneg {p : ℚ} (h0 : 0 ≤ p) (h1 : p ≤ 1) : 0 ≤ variance p :=
  mul_nonneg h0 (sub_nonneg.mpr h1)

theorem variance_eq_zero_iff (p : ℚ) : variance p = 0 ↔ p = 0 ∨ p = 1 := by
  rw [variance, mul_eq_zero, sub_eq_zero, eq_comm (a := 1)]

variable (h : Asks pControl pTreatment controlFraction)

include h

theorem Asks.ratio_pos : 0 < (1 - controlFraction) / controlFraction :=
  div_pos (sub_pos.mpr h.fraction_lt) h.fraction_pos

theorem Asks.variances_nonneg : 0 ≤ variance pControl ∧ 0 ≤ variance pTreatment :=
  ⟨variance_nonneg h.control_nonneg (h.lift.le.trans h.treatment_le),
    variance_nonneg (h.control_nonneg.trans h.lift.le) h.treatment_le⟩

theorem Asks.target_pos (z : Quantiles) :
    0 < ((pTreatment - pControl) / (z.zAlpha + z.zPower)) ^ 2 := by
  have hz : 0 < z.zAlpha + z.zPower := add_pos z.zAlpha_pos z.zPower_pos
  have hlift : 0 < pTreatment - pControl := sub_pos.mpr h.lift
  positivity

/-- No cases are needed exactly to tell never from always. -/
theorem Asks.exactControl_pos_iff {k : ℚ} (hk : 0 < k) (z : Quantiles) :
    0 < exactControl pControl pTreatment k z ↔ ¬(pControl = 0 ∧ pTreatment = 1) := by
  obtain ⟨hc, ht⟩ := h.variances_nonneg
  have hshare : 0 ≤ variance pTreatment / k := div_nonneg ht hk.le
  rw [exactControl, div_pos_iff_of_pos_right (h.target_pos z), lt_iff_le_and_ne,
    and_iff_right (add_nonneg hc hshare), ne_comm, ne_eq, add_eq_zero_iff_of_nonneg hc hshare,
    div_eq_zero_iff, or_iff_left hk.ne', variance_eq_zero_iff, variance_eq_zero_iff]
  have hlift := h.lift
  have hlow := h.control_nonneg
  have hhigh := h.treatment_le
  apply not_congr
  constructor
  · rintro ⟨hp | hp, hq | hq⟩
    · linarith
    · exact ⟨hp, hq⟩
    · linarith
    · linarith
  · rintro ⟨hp, hq⟩
    exact ⟨.inl hp, .inr hq⟩

/-- **Rounding up keeps the power.** Each arm has at least its exact size, and the exact sizes meet
the target on the nose. -/
theorem Asks.detects {k : ℚ} (hk : 0 < k) (z : Quantiles) :
    Detects pControl pTreatment z (⌈exactControl pControl pTreatment k z⌉,
      ⌈k * exactControl pControl pTreatment k z⌉) := by
  intro hcontrol htreatment
  obtain ⟨hc, ht⟩ := h.variances_nonneg
  have hn : 0 < exactControl pControl pTreatment k z := by
    rw [← Int.ceil_pos]
    exact hcontrol
  have hkn : 0 < k * exactControl pControl pTreatment k z := mul_pos hk hn
  have htarget := h.target_pos z
  -- rounding both sizes up only lowers the variance of the difference
  calc variance pControl / (⌈exactControl pControl pTreatment k z⌉ : ℚ) +
        variance pTreatment / (⌈k * exactControl pControl pTreatment k z⌉ : ℚ)
      ≤ variance pControl / exactControl pControl pTreatment k z +
        variance pTreatment / (k * exactControl pControl pTreatment k z) := by
        gcongr
        · exact Int.le_ceil _
        · exact Int.le_ceil _
    _ = (variance pControl + variance pTreatment / k) /
        exactControl pControl pTreatment k z := by
        field_simp
    _ = ((pTreatment - pControl) / (z.zAlpha + z.zPower)) ^ 2 := by
        have hne : variance pControl + variance pTreatment / k ≠ 0 := by
          intro hzero
          rw [exactControl, hzero, zero_div] at hn
          exact lt_irrefl _ hn
        rw [exactControl, div_div_cancel₀ hne]

end Sizes

/-! ## What the figures of a plan say -/

namespace PowerPlan

variable {plan : PowerPlan}

/-- Nothing remains exactly when both arms are full. -/
theorem casesRemaining_eq_zero_iff : plan.casesRemaining = 0 ↔
    plan.controlRequired ≤ plan.controlNow ∧ plan.treatmentRequired ≤ plan.treatmentNow := by
  unfold casesRemaining
  omega

theorem isPowered_iff : plan.isPowered = true ↔ plan.casesRemaining = 0 := by
  rw [casesRemaining_eq_zero_iff, isPowered, Bool.and_eq_true, decide_eq_true_eq,
    decide_eq_true_eq]

/-- The figures of a plan that needs cases in both arms agree. -/
theorem agrees_of_pos (hc : 0 < plan.controlRequired) (ht : 0 < plan.treatmentRequired) :
    plan.Agrees := by
  have hcq : (0 : ℚ) < plan.controlRequired := by exact_mod_cast hc
  have htq : (0 : ℚ) < plan.treatmentRequired := by exact_mod_cast ht
  have hneither : ¬(plan.controlRequired ≤ 0 ∨ plan.treatmentRequired ≤ 0) := by omega
  refine ⟨isPowered_iff, ?_, ?_⟩
  · rw [casesRemaining_eq_zero_iff, completion, if_neg hneither, min_eq_left_iff, le_min_iff,
      one_le_div hcq, one_le_div htq, Int.cast_le, Int.cast_le]
  · have hcontrol :
        plan.controlCompletion = min 1 ((plan.controlNow : ℚ) / plan.controlRequired) :=
      if_neg (not_le.mpr hc)
    have htreatment :
        plan.treatmentCompletion = min 1 ((plan.treatmentNow : ℚ) / plan.treatmentRequired) :=
      if_neg (not_le.mpr ht)
    rw [completion, if_neg hneither, inf_inf_distrib_left, ← hcontrol, ← htreatment, bindingArm]
    split
    · next hle => exact min_eq_left hle
    · next hle => exact min_eq_right (not_le.mp hle).le

/-- A plan that needs no control cases and lacks none is powered, and reads as not begun. -/
theorem not_agrees_of_zero (hc : plan.controlRequired ≤ 0) (ht : plan.treatmentRequired ≤ 0)
    (hcontrol : 0 ≤ plan.controlNow) (htreatment : 0 ≤ plan.treatmentNow) : ¬plan.Agrees := by
  intro h
  have hcomplete := h.remaining_iff.mp
    (casesRemaining_eq_zero_iff.mpr ⟨hc.trans hcontrol, ht.trans htreatment⟩)
  rw [completion, if_pos (.inl hc)] at hcomplete
  exact absurd hcomplete (by norm_num)

end PowerPlan

variable {rt : Runtime} {controlNow treatmentNow nControl nTreatment : ℤ}
  {pControl pTreatment controlFraction : ℚ} {plan : PowerPlan}

/-- A plan stands on the sizes of its inputs. -/
theorem sampleSizePlan_eq_ok
    (h : sampleSizePlan rt controlNow treatmentNow pControl pTreatment controlFraction =
      .ok plan) :
    requiredPerArm rt pControl pTreatment controlFraction =
        .ok (plan.controlRequired, plan.treatmentRequired) ∧
      plan.controlNow = controlNow ∧ plan.treatmentNow = treatmentNow := by
  unfold sampleSizePlan at h
  cases hsizes : requiredPerArm rt pControl pTreatment controlFraction with
  | error e =>
    rw [hsizes] at h
    cases h
  | ok sizes =>
    rw [hsizes] at h
    obtain rfl := (Except.ok.inj h).symm
    exact ⟨rfl, rfl, rfl⟩

/-- **The sizes detect the lift, and the figures of the plan agree**, exactly unless the lift is from
never to always. -/
theorem power_figures_iff {z : Quantiles}
    (hsizes : requiredPerArm rt pControl pTreatment controlFraction z =
      .ok (nControl, nTreatment))
    (hplan : sampleSizePlan rt controlNow treatmentNow pControl pTreatment controlFraction =
      .ok plan)
    (hcontrol : 0 ≤ controlNow) (htreatment : 0 ≤ treatmentNow) :
    (Detects pControl pTreatment z (nControl, nTreatment) ∧ plan.Agrees) ↔
      ¬(pControl = 0 ∧ pTreatment = 1) := by
  obtain ⟨hasks, hceil⟩ := requiredPerArm_eq_ok hsizes
  obtain ⟨hplanned, rfl, rfl⟩ := sampleSizePlan_eq_ok hplan
  obtain ⟨-, hrequired⟩ := requiredPerArm_eq_ok hplanned
  obtain ⟨hc, ht⟩ := Prod.mk.inj hrequired
  have hratio := hasks.ratio_pos
  -- the sizes detect the difference whatever they are asked
  have hdetects : Detects pControl pTreatment z (nControl, nTreatment) := by
    rw [hceil]
    exact hasks.detects hratio z
  rw [and_iff_right hdetects, ← hasks.exactControl_pos_iff hratio .usual]
  -- what is left is whether the two figures agree, which a size of zero breaks
  constructor
  · intro hagrees
    by_contra hnone
    rw [not_lt] at hnone
    refine PowerPlan.not_agrees_of_zero ?_ ?_ hcontrol htreatment hagrees
    · rw [hc, Int.ceil_le, Int.cast_zero]
      exact hnone
    · rw [ht, Int.ceil_le, Int.cast_zero]
      exact mul_nonpos_of_nonneg_of_nonpos hratio.le hnone
  · intro hpos
    apply PowerPlan.agrees_of_pos
    · rw [hc]
      exact Int.ceil_pos.mpr hpos
    · rw [ht]
      exact Int.ceil_pos.mpr (mul_pos hratio hpos)

/-- The first weeks of a balanced experiment: 20% against 30%. -/
def firstWeeks : PowerPlan where
  controlNow := 39
  treatmentNow := 171
  controlRequired := 291
  treatmentRequired := 291
  pControl := 1 / 5
  pTreatment := 3 / 10
  controlFraction := 1 / 2

theorem power_figures_firstWeeks :
    Detects (1 / 5) (3 / 10) .usual (291, 291) ∧ firstWeeks.Agrees :=
  (@power_figures_iff plainRuntime 39 171 291 291 (1 / 5) (3 / 10) (1 / 2) firstWeeks .usual
    (by decide +kernel) (by decide +kernel) (by decide) (by decide)).mpr (by norm_num)

/-- Telling never from always takes no cases: the study is powered at once, and reads as not begun
for good. -/
theorem not_power_figures :
    ¬∀ (controlNow treatmentNow : ℤ) (pControl pTreatment controlFraction : ℚ) (plan : PowerPlan),
      sampleSizePlan plainRuntime controlNow treatmentNow pControl pTreatment controlFraction =
        .ok plan → 0 ≤ controlNow → 0 ≤ treatmentNow → plan.Agrees := fun h => by
  have hagrees := h 10 10 0 1 (1 / 2)
    { controlNow := 10, treatmentNow := 10, controlRequired := 0, treatmentRequired := 0
      pControl := 0, pTreatment := 1, controlFraction := 1 / 2 }
    (by decide +kernel) (by decide) (by decide)
  exact PowerPlan.not_agrees_of_zero le_rfl le_rfl (by decide) (by decide) hagrees

end AegisMerchant
