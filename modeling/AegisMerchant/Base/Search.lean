import AegisMerchant.Base.TimeText

/-!
# Where a text cannot occur

A text made of fixed and variable parts does not contain a word when in no part an occurrence can
start: neither one that ends in the part, nor one that runs into what follows. For a fixed part this
is a check, and for a variable one it is enough that the word's first character is not in it.
Nothing here mentions a particular program.

A needle is kept out of an append by `Clear.append`, and out of numbers and dates by
`clear_lower_numeral`.
-/

namespace Text

/-! ## Parts in which no occurrence starts -/

/-- No occurrence of `needle` starts in the part, whatever follows the part. -/
def Clear (needle : List Char) : List Char → Prop
  | [] => True
  | c :: rest => ¬c :: rest <+: needle ∧ ¬needle <+: c :: rest ∧ Clear needle rest

instance Clear.decidable (needle : List Char) : (part : List Char) → Decidable (Clear needle part)
  | [] => .isTrue trivial
  | _ :: rest =>
    have := Clear.decidable needle rest
    inferInstanceAs (Decidable (_ ∧ _ ∧ _))

/-- Two clear parts in a row are clear. -/
theorem Clear.append {needle : List Char} {xs ys : List Char} (hx : Clear needle xs)
    (hy : Clear needle ys) : Clear needle (xs ++ ys) := by
  induction xs with
  | nil => exact hy
  | cons c rest ih =>
    obtain ⟨hshort, hlong, hrest⟩ := hx
    refine ⟨fun h => hshort ((List.prefix_append _ _).trans h), fun h => ?_, ih hrest⟩
    rcases List.prefix_or_prefix_of_prefix h (List.prefix_append (c :: rest) ys) with h | h
    · exact hlong h
    · exact hshort h

/-- The first character of the word is not in the part. -/
theorem clear_of_not_mem {c : Char} {needle part : List Char} (h : c ∉ part) :
    Clear (c :: needle) part := by
  induction part with
  | nil => trivial
  | cons x rest ih =>
    have hne : x ≠ c := fun hx => h (hx ▸ List.mem_cons_self)
    refine ⟨fun hprefix => hne ?_, fun hprefix => hne ?_, ih fun hmem => h (.tail _ hmem)⟩
    · exact (List.cons_prefix_cons.mp hprefix).1
    · exact (List.cons_prefix_cons.mp hprefix).1.symm

/-- A clear text does not contain the word. -/
theorem Clear.not_infix {needle text : List Char} (hne : needle ≠ []) (h : Clear needle text) :
    ¬needle <:+: text := by
  induction text with
  | nil => exact fun hin => hne (List.eq_nil_of_infix_nil hin)
  | cons c rest ih =>
    intro hin
    rcases List.infix_cons_iff.mp hin with hprefix | hin
    · exact h.2.1 hprefix
    · exact ih h.2.2 hin

attribute [irreducible] Clear

theorem Clear.lower_append {needle : List Char} {s t : String}
    (hs : Clear needle (lower s).toList) (ht : Clear needle (lower t).toList) :
    Clear needle (lower (s ++ t)).toList := by
  rw [Text.lower_append, String.toList_append]
  exact hs.append ht

/-! ## Lowercased numbers and dates -/

/-- A character a number or a date is written in. -/
def Numeral (c : Char) : Prop := c.isDigit = true ∨ c ∈ ['-', '+', ':', '.', 'T']

theorem lowerChar_of_isDigit {c : Char} (h : c.isDigit = true) : lowerChar c = [c] := by
  obtain ⟨-, hhigh⟩ := Char.isDigit_iff_toNat.mp h
  have hle : c.val.toNat ≤ 57 := hhigh
  have hkelvin : c.val ≠ 0x212A := fun hc => by rw [hc] at hle; exact absurd hle (by decide)
  have hdotted : c.val ≠ 0x130 := fun hc => by rw [hc] at hle; exact absurd hle (by decide)
  have hupper : ¬(c.val ≥ 'A'.val ∧ c.val ≤ 'Z'.val) := fun hc => by
    have hA : 65 ≤ c.val.toNat := hc.1
    omega
  unfold lowerChar
  rw [if_neg hkelvin, if_neg hdotted]
  congr 1
  unfold Char.toLower
  exact dif_neg hupper

/-- Lowercased, such a character is the same, but for one letter. -/
theorem mem_lowerChar_numeral {c x : Char} (hc : Numeral c) (hx : x ∈ lowerChar c) :
    x.isDigit = true ∨ x ∈ ['-', '+', ':', '.', 't'] := by
  rcases hc with hdigit | hc
  · rw [lowerChar_of_isDigit hdigit] at hx
    exact .inl (List.mem_singleton.mp hx ▸ hdigit)
  · have hlower : lowerChar c = [if c = 'T' then 't' else c] := by
      simp only [List.mem_cons, List.not_mem_nil, or_false] at hc
      rcases hc with rfl | rfl | rfl | rfl | rfl <;> rfl
    rw [hlower, List.mem_singleton] at hx
    subst hx
    refine .inr ?_
    simp only [List.mem_cons, List.not_mem_nil, or_false] at hc ⊢
    rcases hc with rfl | rfl | rfl | rfl | rfl <;> simp

/-- A word that starts with another character cannot start in a number or a date. -/
theorem clear_lower_numeral {c : Char} {needle : List Char} {s : String}
    (h : ∀ x ∈ s.toList, Numeral x) (hc : ¬(c.isDigit = true ∨ c ∈ ['-', '+', ':', '.', 't'])) :
    Clear (c :: needle) (lower s).toList := by
  apply clear_of_not_mem
  rw [toList_lower]
  intro hmem
  obtain ⟨x, hx, hlower⟩ := List.mem_flatMap.mp hmem
  exact hc (mem_lowerChar_numeral (h x hx) hlower)

theorem toString_numeral (n : ℤ) : ∀ x ∈ (toString n).toList, Numeral x := by
  intro x hx
  rcases mem_toString_int hx with hdigit | rfl
  · exact .inl hdigit
  · exact .inr (by decide)

end Text

namespace Time

open Text

theorem offsetText_numeral (offset : ℤ) : ∀ x ∈ (offsetText offset).toList, Numeral x := by
  have hpad : ∀ {width n : ℕ} {x : Char}, x ∈ (padNat width n).toList → Numeral x :=
    fun h => .inl (isDigit_of_mem_padNat h)
  have hcolon : Numeral ':' := .inr (by decide)
  have hsign : ∀ x ∈ (if offset < 0 then "-" else "+").toList, Numeral x := by
    intro x hx
    split at hx
    · exact .inr (by revert hx; simp +contextual)
    · exact .inr (by revert hx; simp +contextual)
  intro x hx
  unfold offsetText at hx
  simp only [String.toList_append, List.mem_append] at hx
  rcases hx with (((hx | hx) | hx) | hx) | hx
  · exact hsign x hx
  · exact hpad hx
  · exact List.mem_singleton.mp hx ▸ hcolon
  · exact hpad hx
  · split at hx
    · cases hx
    · rw [String.toList_append] at hx
      rcases List.mem_append.mp hx with hx | hx
      · exact List.mem_singleton.mp hx ▸ hcolon
      · exact hpad hx

theorem isoformat_numeral (t : DateTime) : ∀ x ∈ (isoformat t).toList, Numeral x := by
  intro x hx
  rw [toList_isoformat] at hx
  rcases List.mem_append.mp hx with hx | hx
  · exact .inl (isDigit_of_mem_padNat hx)
  rcases List.mem_append.mp hx with hx | hx
  · rcases mem_clockText hx with hdigit | hmark
    · exact .inl hdigit
    · refine .inr ?_
      simp only [List.mem_cons, List.not_mem_nil, or_false] at hmark ⊢
      rcases hmark with rfl | rfl | rfl <;> simp
  rcases List.mem_append.mp hx with hx | hx
  · unfold fractionText at hx
    split at hx
    · cases hx
    · rcases List.mem_cons.mp hx with rfl | hx
      · exact .inr (by decide)
      · exact .inl (isDigit_of_mem_padNat hx)
  · exact offsetText_numeral _ x hx

end Time
