import AegisMerchant.Base.Text
import Mathlib.Tactic.Common

/-!
# Reading texts back

A text is cut where a separator stands, and a number, padded or not, is read back from its digits.
Nothing here mentions a particular program.
-/

namespace Text

/-! ## Cutting a text -/

/-- Two texts cut at the first place a separator stands. -/
theorem cut_first {c : Char} : ∀ {a a' rest rest' : List Char}, c ∉ a → c ∉ a' →
    a ++ c :: rest = a' ++ c :: rest' → a = a' ∧ rest = rest'
  | [], [], _, _, _, _, h => ⟨rfl, (List.cons.inj h).2⟩
  | [], d :: a', _, _, _, ha', h => by
    obtain ⟨rfl, -⟩ := List.cons.inj h
    exact absurd List.mem_cons_self ha'
  | d :: a, [], _, _, ha, _, h => by
    obtain ⟨rfl, -⟩ := List.cons.inj h
    exact absurd List.mem_cons_self ha
  | d :: a, e :: a', _, _, ha, ha', h => by
    obtain ⟨rfl, htail⟩ := List.cons.inj h
    have hrest := cut_first (fun hc => ha (List.mem_cons_of_mem _ hc))
      (fun hc => ha' (List.mem_cons_of_mem _ hc)) htail
    exact ⟨by rw [hrest.1], hrest.2⟩

/-- Two texts cut at the last place a separator stands. -/
theorem cut_last {c : Char} {a a' rest rest' : List Char} (h : c ∉ rest) (h' : c ∉ rest')
    (heq : a ++ c :: rest = a' ++ c :: rest') : a = a' ∧ rest = rest' := by
  have hrev := congrArg List.reverse heq
  simp only [List.reverse_append, List.reverse_cons, List.append_assoc, List.singleton_append]
    at hrev
  have hcut := cut_first (by simpa using h) (by simpa using h') hrev
  exact ⟨List.reverse_injective hcut.2, List.reverse_injective hcut.1⟩

/-- A reading, once its first part was read. -/
theorem read_of_eq {α β : Type} {x : Option α} {a : α} {f : α → Option β} {b : Option β}
    (hx : x = some a) (hf : f a = b) : (x >>= f) = b := by
  rw [hx]
  exact hf

def IsHex (s : String) : Prop :=
  ∀ c ∈ s.toList, c.isDigit = true ∨ c ∈ ['a', 'b', 'c', 'd', 'e', 'f']

instance (s : String) : Decidable (IsHex s) := List.decidableBAll _ s.toList

/-! ## Padded numbers -/

theorem toList_padNat (width n : ℕ) :
    (padNat width n).toList =
      List.replicate (width - (Nat.toDigits 10 n).length) '0' ++ Nat.toDigits 10 n := by
  have hdigits : (toString n).toList = Nat.toDigits 10 n := Nat.toList_repr
  have hlength : (toString n).length = (Nat.toDigits 10 n).length := by
    rw [← String.length_toList, hdigits]
  simp only [padNat, String.toList_append, String.toList_ofList, hdigits, hlength]

/-- A padded number is written in digits. -/
theorem isDigit_of_mem_padNat {width n : ℕ} {c : Char} (h : c ∈ (padNat width n).toList) :
    c.isDigit = true := by
  rw [toList_padNat] at h
  rcases List.mem_append.mp h with h | h
  · rw [List.eq_of_mem_replicate h]
    decide
  · exact Nat.isDigit_of_mem_toDigits (by decide) (by decide) h

/-- A padded number is read back. -/
theorem ofDigitChars_padNat (width n : ℕ) :
    Nat.ofDigitChars 10 (padNat width n).toList 0 = n := by
  rw [toList_padNat, Nat.ofDigitChars_append, Nat.ofDigitChars_replicate_zero, Nat.mul_zero]
  exact Nat.ofDigitChars_ten_toDigits

theorem padNat_inj {width m n : ℕ} (h : (padNat width m).toList = (padNat width n).toList) :
    m = n := by
  rw [← ofDigitChars_padNat width m, h, ofDigitChars_padNat]

/-- A number that fits is padded to the width. -/
theorem length_padNat {width n : ℕ} (hwidth : 0 < width) (h : n < 10 ^ width) :
    (padNat width n).toList.length = width := by
  have hle := (Nat.length_toDigits_le_iff (by decide : 1 < 10) hwidth).mpr h
  rw [toList_padNat, List.length_append, List.length_replicate]
  omega

/-! ## Numbers -/

/-- The digits of a number are read back. -/
theorem repr_nat_inj {m n : ℕ} (h : m.repr.toList = n.repr.toList) : m = n := by
  rw [Nat.toList_repr, Nat.toList_repr] at h
  rw [← Nat.ofDigitChars_ten_toDigits (n := m), h, Nat.ofDigitChars_ten_toDigits]

/-- A number is written in digits, after a sign. -/
theorem mem_toString_int {n : ℤ} {c : Char} (h : c ∈ (toString n).toList) :
    c.isDigit = true ∨ c = '-' := by
  have hnat : ∀ {m : ℕ}, c ∈ m.repr.toList → c.isDigit = true := by
    intro m hmem
    rw [Nat.toList_repr] at hmem
    exact Nat.isDigit_of_mem_toDigits (by decide) (by decide) hmem
  have hrepr : c ∈ n.repr.toList := h
  rw [Int.repr_eq_if] at hrepr
  split at hrepr
  · exact .inl (hnat hrepr)
  · rw [String.toList_append] at hrepr
    rcases List.mem_append.mp hrepr with hsign | hdigits
    · exact .inr (by simpa using hsign)
    · exact .inl (hnat hdigits)

/-- A number written in full is read back. -/
theorem toString_int_inj {m n : ℤ} (h : toString m = toString n) : m = n := by
  have hlist : m.repr.toList = n.repr.toList := congrArg String.toList h
  have hsign : ∀ k : ℕ, ∀ s : List Char, k.repr.toList ≠ '-' :: s := by
    intro k s hk
    have hmem : '-' ∈ k.repr.toList := by rw [hk]; exact List.mem_cons_self
    rw [Nat.toList_repr] at hmem
    exact absurd (Nat.isDigit_of_mem_toDigits (by decide) (by decide) hmem) (by decide)
  have hminus : ∀ k : ℕ, ("-" ++ k.repr).toList = '-' :: k.repr.toList := by
    intro k
    rw [String.toList_append]
    rfl
  rw [Int.repr_eq_if, Int.repr_eq_if] at hlist
  split at hlist
  · split at hlist
    · have := repr_nat_inj hlist
      omega
    · rw [hminus] at hlist
      exact absurd hlist (hsign _ _)
  · split at hlist
    · rw [hminus] at hlist
      exact absurd hlist.symm (hsign _ _)
    · rw [hminus, hminus, List.cons.injEq] at hlist
      have := repr_nat_inj hlist.2
      omega

end Text
