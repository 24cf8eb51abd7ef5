import AegisMerchant.Base.Reading

/-!
# Texts up to letter case and surrounding whitespace

What lowering and stripping make of a text that another party may have rewritten in another casing,
with blanks around it. Nothing here mentions a particular program.
-/

namespace Text

/-! ## Lowering -/

def Ascii (s : String) : Prop := ∀ c ∈ s.toList, c.toNat < 128

instance (s : String) : Decidable (Ascii s) := List.decidableBAll _ s.toList

/-- Equal up to letter case, for texts in ASCII. -/
def SameLetters (s t : String) : Prop := lower s = lower t

theorem lowerChar_of_ascii {c : Char} (h : c.toNat < 128) : lowerChar c = [c.toLower] := by
  have hkelvin : c.val ≠ 0x212A := fun hc => by
    have : c.toNat = 0x212A := congrArg UInt32.toNat hc
    omega
  have hdotted : c.val ≠ 0x130 := fun hc => by
    have : c.toNat = 0x130 := congrArg UInt32.toNat hc
    omega
  rw [lowerChar, if_neg hkelvin, if_neg hdotted]

theorem toList_lower_of_ascii {s : String} (h : Ascii s) :
    (lower s).toList = s.toList.map Char.toLower := by
  rw [toList_lower, List.map_eq_flatMap]
  exact List.flatMap_congr fun c hc => lowerChar_of_ascii (h c hc)

theorem ascii_append {s t : String} : Ascii (s ++ t) ↔ Ascii s ∧ Ascii t := by
  simp only [Ascii, String.toList_append, List.mem_append, or_imp, forall_and]

/-- A number is written in ASCII. -/
theorem ascii_toString_int (n : ℤ) : Ascii (toString n) := by
  intro c hc
  rcases mem_toString_int hc with hdigit | rfl
  · have hhigh : c.toNat ≤ 57 := (Char.isDigit_iff_toNat.mp hdigit).2
    omega
  · exact Nat.lt_of_sub_eq_succ rfl

/-- The letters of ASCII, lowered. -/
theorem toLower_of_ascii {c : Char} (h : c.toNat < 128) :
    c.toLower.toNat < 128 ∧ c.toLower.toLower = c.toLower ∧
      (isSpace c = true → c.toLower = c) := by
  have hall : ∀ n : Fin 128, (Char.ofNat n).toLower.toNat < 128 ∧
      (Char.ofNat n).toLower.toLower = (Char.ofNat n).toLower ∧
        (isSpace (Char.ofNat n) = true → (Char.ofNat n).toLower = Char.ofNat n) := by decide
  have hc := hall ⟨c.toNat, h⟩
  rwa [Char.ofNat_toNat] at hc

/-- Beyond ASCII there is nothing to lower. -/
theorem toLower_of_not_ascii {c : Char} (h : ¬c.toNat < 128) : c.toLower = c := by
  have hupper : ¬(c.val ≥ 'A'.val ∧ c.val ≤ 'Z'.val) := fun hc => by
    have hZ : c.toNat ≤ 90 := hc.2
    omega
  unfold Char.toLower
  exact dif_neg hupper

/-- Lowering once is enough. -/
theorem lowerChar_of_mem {c x : Char} (h : x ∈ lowerChar c) : lowerChar x = [x] := by
  unfold lowerChar at h
  split at h
  · obtain rfl := List.mem_singleton.mp h
    rfl
  · next hkelvin =>
    split at h
    · rcases List.mem_pair.mp h with rfl | rfl <;> rfl
    · next hdotted =>
      obtain rfl := List.mem_singleton.mp h
      by_cases hascii : c.toNat < 128
      · obtain ⟨hlow, htwice, -⟩ := toLower_of_ascii hascii
        rw [lowerChar_of_ascii hlow, htwice]
      · rw [toLower_of_not_ascii hascii, lowerChar, if_neg hkelvin, if_neg hdotted,
          toLower_of_not_ascii hascii]

theorem lower_lower (s : String) : lower (lower s) = lower s := by
  rw [← String.toList_inj, toList_lower, toList_lower]
  generalize hcs : s.toList = cs
  clear hcs
  induction cs with
  | nil => rfl
  | cons c cs ih =>
    rw [List.flatMap_cons, List.flatMap_append, ih]
    congr 1
    calc (lowerChar c).flatMap lowerChar = (lowerChar c).flatMap fun x => [x] :=
          List.flatMap_congr fun x hx => lowerChar_of_mem hx
      _ = lowerChar c := List.flatMap_singleton' _

/-! ## Stripping -/

theorem lowerChar_of_isSpace {c : Char} (h : isSpace c = true) : lowerChar c = [c] := by
  have hspecial : ∀ n : ℕ, n = 0x212A ∨ n = 0x130 → c.toNat ≠ n := by
    rintro n (rfl | rfl) hc <;> simp [isSpace, hc] at h
  have hkelvin : c.val ≠ 0x212A := fun hc => hspecial _ (.inl rfl) (congrArg UInt32.toNat hc)
  have hdotted : c.val ≠ 0x130 := fun hc => hspecial _ (.inr rfl) (congrArg UInt32.toNat hc)
  rw [lowerChar, if_neg hkelvin, if_neg hdotted]
  by_cases hascii : c.toNat < 128
  · rw [(toLower_of_ascii hascii).2.2 h]
  · rw [toLower_of_not_ascii hascii]

theorem dropWhile_padded {before cs : List Char} (hbefore : ∀ c ∈ before, isSpace c = true)
    (hfirst : ∀ c ∈ cs.head?, isSpace c = false) : (before ++ cs).dropWhile isSpace = cs := by
  rw [List.dropWhile_append_of_pos hbefore]
  cases cs with
  | nil => rfl
  | cons c rest =>
    have hc : isSpace c = false := hfirst c rfl
    rw [List.dropWhile_cons, hc]
    rfl

theorem isSpace_of_isDigit {c : Char} (h : c.isDigit = true) : isSpace c = false := by
  obtain ⟨hlow, hhigh⟩ : 48 ≤ c.toNat ∧ c.toNat ≤ 57 := Char.isDigit_iff_toNat.mp h
  simp only [isSpace, Bool.or_eq_false_iff, Bool.and_eq_false_iff, decide_eq_false_iff_not,
    beq_eq_false_iff_ne]
  omega

/-- What is left of a text that starts with no whitespace is a prefix of it. -/
theorem prefix_strip {before s : String} (hbefore : ∀ c ∈ before.toList, isSpace c = true)
    (hne : s ≠ "") (hfirst : ∀ c ∈ s.toList.head?, isSpace c = false) (after : String) :
    (strip (before ++ s ++ after)).toList <+: (s ++ after).toList := by
  have hfirst' : ∀ c ∈ (s.toList ++ after.toList).head?, isSpace c = false := by
    have hs : s.toList ≠ [] := by simpa using hne
    rw [List.head?_append_of_ne_nil _ hs]
    exact hfirst
  rw [strip, String.toList_append, String.toList_append, List.append_assoc,
    dropWhile_padded hbefore hfirst', String.toList_ofList, String.toList_append]
  rw [← List.reverse_suffix, List.reverse_reverse]
  exact List.dropWhile_suffix _

theorem prefix_lower {s t : String} (h : s.toList <+: t.toList) :
    (lower s).toList <+: (lower t).toList := by
  obtain ⟨rest, hrest⟩ := h
  rw [toList_lower, toList_lower, ← hrest, List.flatMap_append]
  exact List.prefix_append _ _

/-- Whitespace around a text that neither starts nor ends with any is stripped. -/
theorem strip_padded {before s after : String} (hbefore : ∀ c ∈ before.toList, isSpace c = true)
    (hafter : ∀ c ∈ after.toList, isSpace c = true) (hne : s ≠ "")
    (hfirst : ∀ c ∈ s.toList.head?, isSpace c = false)
    (hlast : ∀ c ∈ s.toList.getLast?, isSpace c = false) : strip (before ++ s ++ after) = s := by
  have hfirst' : ∀ c ∈ (s.toList ++ after.toList).head?, isSpace c = false := by
    have hs : s.toList ≠ [] := by simpa using hne
    rw [List.head?_append_of_ne_nil _ hs]
    exact hfirst
  have hlast' : ∀ c ∈ s.toList.reverse.head?, isSpace c = false := by
    rw [List.head?_reverse]
    exact hlast
  rw [strip, String.toList_append, String.toList_append, List.append_assoc,
    dropWhile_padded hbefore hfirst', List.reverse_append,
    dropWhile_padded (fun c hc => hafter c (List.mem_reverse.mp hc)) hlast', List.reverse_reverse,
    String.ofList_toList]

/-- The same text to a reader who minds neither letter case nor whitespace around it. -/
def Echoes (incoming reference : String) : Prop :=
  ∃ before s after, incoming = before ++ s ++ after ∧
    (∀ c ∈ before.toList, isSpace c = true) ∧ (∀ c ∈ after.toList, isSpace c = true) ∧
      lower s = lower reference

/-- Whitespace at an end is still there in lower case. -/
theorem ends_lower {s : String} {c : Char} (h : isSpace c = true) :
    (c ∈ s.toList.head? → c ∈ (lower s).toList.head?) ∧
      (c ∈ s.toList.getLast? → c ∈ (lower s).toList.getLast?) := by
  rw [toList_lower]
  constructor
  · intro hc
    obtain ⟨rest, hrest⟩ := List.head?_eq_some_iff.mp hc
    rw [hrest, List.flatMap_cons, lowerChar_of_isSpace h]
    exact rfl
  · intro hc
    obtain ⟨rest, hrest⟩ := List.getLast?_eq_some_iff.mp hc
    rw [hrest, List.flatMap_append, List.flatMap_singleton, lowerChar_of_isSpace h,
      List.getLast?_concat]
    exact rfl

/-- Such a reader recovers a text that is in lower case with no whitespace at its ends. -/
theorem Echoes.lower_strip {incoming reference : String} (h : Echoes incoming reference)
    (hlower : lower reference = reference) (hne : reference ≠ "")
    (hfirst : ∀ c ∈ reference.toList.head?, isSpace c = false)
    (hlast : ∀ c ∈ reference.toList.getLast?, isSpace c = false) :
    lower (strip incoming) = reference := by
  obtain ⟨before, s, after, rfl, hbefore, hafter, hs⟩ := h
  rw [hlower] at hs
  have hs_ne : s ≠ "" := by
    rintro rfl
    exact hne hs.symm
  rw [strip_padded hbefore hafter hs_ne ?_ ?_, hs]
  · intro c hc
    by_contra hspace
    have hc' := (ends_lower (eq_true_of_ne_false hspace)).1 hc
    rw [hs] at hc'
    exact hspace (hfirst c hc')
  · intro c hc
    by_contra hspace
    have hc' := (ends_lower (eq_true_of_ne_false hspace)).2 hc
    rw [hs] at hc'
    exact hspace (hlast c hc')

end Text
