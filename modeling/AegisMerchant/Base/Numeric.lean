import Mathlib.Data.Rat.Floor
import Mathlib.Algebra.Order.Round
import Mathlib.Tactic.Linarith
import Mathlib.Tactic.Positivity
import Mathlib.Tactic.FieldSimp
import Mathlib.Tactic.Ring

/-!
# Numbers of a program, in exact arithmetic

A floating-point value whose finite part is an exact rational, with the comparisons a program can
make on it, and the two roundings a program applies to a rational: towards zero (`int`) and to the
nearest, ties to even (`round`). Nothing here mentions a particular program.
-/

namespace Numeric

/-! ## Extended rationals -/

/-- What a variable of floating-point type can hold. -/
inductive ExtRat where
  | nan
  | posInf
  | negInf
  | fin (q : ℚ)
  deriving DecidableEq, Repr

namespace ExtRat

def isFinite : ExtRat → Bool
  | fin _ => true
  | _ => false

/-- The finite value, and `0` for the others: what a caller substitutes after `isfinite` failed. -/
def finiteOrZero : ExtRat → ℚ
  | fin q => q
  | _ => 0

/-- `x < y`, false as soon as one side is NaN. -/
def Lt : ExtRat → ExtRat → Prop
  | nan, _ => False
  | _, nan => False
  | posInf, _ => False
  | _, negInf => False
  | negInf, _ => True
  | _, posInf => True
  | fin p, fin q => p < q

instance : DecidableRel Lt := fun x y => by
  cases x <;> cases y <;> unfold Lt <;> infer_instance

/-- `x <= y`, false as soon as one side is NaN. -/
def Le (x y : ExtRat) : Prop := x ≠ nan ∧ y ≠ nan ∧ ¬Lt y x

instance : DecidableRel Le := fun x y => by unfold Le; infer_instance

@[simp] theorem finiteOrZero_fin (q : ℚ) : (fin q).finiteOrZero = q := rfl
@[simp] theorem lt_fin (p q : ℚ) : Lt (fin p) (fin q) ↔ p < q := Iff.rfl
@[simp] theorem le_fin (p q : ℚ) : Le (fin p) (fin q) ↔ p ≤ q := by simp [Le]
@[simp] theorem isFinite_fin (q : ℚ) : (fin q).isFinite = true := rfl

end ExtRat

/-! ## Truncation -/

/-- `int(q)`: towards zero. -/
def truncInt (q : ℚ) : ℤ := if q < 0 then ⌈q⌉ else ⌊q⌋

theorem truncInt_of_nonneg {q : ℚ} (h : 0 ≤ q) : truncInt q = ⌊q⌋ := if_neg (not_lt.mpr h)

theorem truncInt_nonneg {q : ℚ} (h : 0 ≤ q) : 0 ≤ truncInt q := by
  rw [truncInt_of_nonneg h]
  exact Int.floor_nonneg.mpr h

theorem truncInt_le {q : ℚ} (h : 0 ≤ q) : (truncInt q : ℚ) ≤ q := by
  rw [truncInt_of_nonneg h]
  exact Int.floor_le q

/-! ## Rounding half to even -/

/-- `round(q)`: to the nearest integer, a tie going to the even neighbour. -/
def roundHalfEven (q : ℚ) : ℤ :=
  let f := ⌊q⌋
  if q - f < 1 / 2 then f
  else if 1 / 2 < q - f then f + 1
  else if f % 2 = 0 then f else f + 1

/-- Rounding is not below any integer bound that holds of the value. -/
theorem le_roundHalfEven {n : ℤ} {q : ℚ} (h : (n : ℚ) ≤ q) : n ≤ roundHalfEven q := by
  have hn : n ≤ ⌊q⌋ := Int.le_floor.mpr h
  unfold roundHalfEven
  simp only
  split_ifs <;> omega

/-- Rounding is not above any integer bound that holds of the value. -/
theorem roundHalfEven_le {n : ℤ} {q : ℚ} (h : q ≤ n) : roundHalfEven q ≤ n := by
  have hf : ⌊q⌋ ≤ n := by exact_mod_cast le_trans (Int.floor_le q) h
  rcases eq_or_lt_of_le hf with heq | hlt
  · -- here the value is the integer itself, so no fraction is left to round up
    have hq : q - (⌊q⌋ : ℚ) < 1 / 2 := by
      rw [heq]
      linarith
    simp only [roundHalfEven, if_pos hq]
    exact hf
  · unfold roundHalfEven
    simp only
    split_ifs <;> omega

/-- Rounding moves a value by at most one half. -/
theorem abs_roundHalfEven_sub_le (q : ℚ) : |(roundHalfEven q : ℚ) - q| ≤ 1 / 2 := by
  have h0 := Int.floor_le q
  have h1 := Int.lt_floor_add_one q
  unfold roundHalfEven
  simp only
  rw [abs_le]
  split_ifs with ha hb hc <;> push_cast <;> constructor <;> linarith

/-- `round(q, digits)`. -/
def roundDigits (digits : ℕ) (q : ℚ) : ℚ := (roundHalfEven (q * 10 ^ digits) : ℚ) / 10 ^ digits

theorem roundDigits_nonneg (digits : ℕ) {q : ℚ} (h : 0 ≤ q) : 0 ≤ roundDigits digits q := by
  have : (0 : ℤ) ≤ roundHalfEven (q * 10 ^ digits) :=
    le_roundHalfEven (by push_cast; positivity)
  exact div_nonneg (by exact_mod_cast this) (by positivity)

/-- A bound that is a multiple of the last digit kept survives the rounding. -/
theorem roundDigits_le {digits : ℕ} {q b : ℚ} (hb : ∃ n : ℤ, b * 10 ^ digits = n) (h : q ≤ b) :
    roundDigits digits q ≤ b := by
  obtain ⟨n, hn⟩ := hb
  have hpos : (0 : ℚ) < 10 ^ digits := by positivity
  have : roundHalfEven (q * 10 ^ digits) ≤ n :=
    roundHalfEven_le (by rw [← hn]; exact mul_le_mul_of_nonneg_right h hpos.le)
  rw [roundDigits, div_le_iff₀ hpos, hn]
  exact_mod_cast this

theorem roundDigits_zero (digits : ℕ) : roundDigits digits 0 = 0 := by
  simp [roundDigits, roundHalfEven]

/-- Rounding stays at or below an integer up to half a step above it, and at the half itself when
the integer is even. -/
theorem roundHalfEven_le_iff (n : ℤ) (q : ℚ) :
    roundHalfEven q ≤ n ↔ q < n + 1 / 2 ∨ (q = n + 1 / 2 ∧ Even n) := by
  have hmono : ⌊q⌋ < n ∨ ⌊q⌋ = n ∨ n < ⌊q⌋ := lt_trichotomy _ _
  have h0 := Int.floor_le q
  have h1 := Int.lt_floor_add_one q
  rcases hmono with hlt | heq | hgt
  · -- a whole step below: neither neighbour of the value is above the integer
    have hstep : (⌊q⌋ : ℚ) + 1 ≤ n := by exact_mod_cast hlt
    have hround : roundHalfEven q ≤ n := roundHalfEven_le (by linarith)
    exact iff_of_true hround (.inl (by linarith))
  · subst heq
    rw [Int.even_iff]
    unfold roundHalfEven
    simp only
    split_ifs with hdown hup heven
    · exact iff_of_true le_rfl (.inl (by linarith))
    · refine iff_of_false (by omega) ?_
      rintro (hq | ⟨hq, -⟩) <;> linarith
    · have htie : q = ⌊q⌋ + 1 / 2 := by linarith
      exact iff_of_true le_rfl (.inr ⟨htie, heven⟩)
    · refine iff_of_false (by omega) ?_
      rintro (hq | ⟨-, he⟩)
      · linarith
      · exact heven he
  · have hstep : (n : ℚ) + 1 ≤ ⌊q⌋ := by exact_mod_cast hgt
    have hround : n + 1 ≤ roundHalfEven q := le_roundHalfEven (by push_cast; linarith)
    refine iff_of_false (by omega) ?_
    rintro (hq | ⟨hq, -⟩) <;> linarith

/-- Whether a value is above a bound once rounded is decided by the last rounded value that is not
above it. -/
theorem roundDigits_le_iff (digits : ℕ) (q b : ℚ) :
    roundDigits digits q ≤ b ↔
      q * 10 ^ digits < ⌊b * 10 ^ digits⌋ + 1 / 2 ∨
        (q * 10 ^ digits = ⌊b * 10 ^ digits⌋ + 1 / 2 ∧ Even ⌊b * 10 ^ digits⌋) := by
  have hpos : (0 : ℚ) < 10 ^ digits := by positivity
  rw [roundDigits, div_le_iff₀ hpos, ← Int.le_floor]
  exact roundHalfEven_le_iff _ _

/-- What rounds to something positive is more than half a step. -/
theorem roundDigits_pos_iff (digits : ℕ) (q : ℚ) :
    0 < roundDigits digits q ↔ 1 / 2 < q * 10 ^ digits := by
  rw [← not_le, roundDigits_le_iff, zero_mul, Int.floor_zero, Int.cast_zero, zero_add]
  simp only [Even.zero, and_true, ← le_iff_lt_or_eq, not_le]

/-- Rounding to some digits moves a value by at most half a step. -/
theorem abs_roundDigits_sub_le (digits : ℕ) (q : ℚ) :
    |roundDigits digits q - q| ≤ 1 / (2 * 10 ^ digits) := by
  have hpos : (0 : ℚ) < 10 ^ digits := by positivity
  have hscaled : roundDigits digits q - q =
      ((roundHalfEven (q * 10 ^ digits) : ℚ) - q * 10 ^ digits) / 10 ^ digits := by
    rw [roundDigits]
    field_simp
  rw [hscaled, abs_div, abs_of_pos hpos, div_le_iff₀ hpos]
  calc |(roundHalfEven (q * 10 ^ digits) : ℚ) - q * 10 ^ digits| ≤ 1 / 2 :=
        abs_roundHalfEven_sub_le _
    _ = 1 / (2 * 10 ^ digits) * 10 ^ digits := by field_simp

end Numeric
