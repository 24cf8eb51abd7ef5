import AegisMerchant.Base.JsonLoads

/-!
# Rupees

An amount in paise is written in rupees with the lakh grouping of Indian amounts. The grouping peels
pairs of digits off the front part, and is read back by leaving the commas out.

`grouped_spec` is the grouping, `rupees_reads_back` the amount.
-/

namespace AegisMerchant

open Json Text

namespace Provenance

/-- The loop of `rupees`: pairs of digits move from the end of `head` to the front of `parts`. -/
def peel (head : List Char) (parts : List (List Char)) : List (List Char) :=
  if 2 < head.length then
    peel (head.take (head.length - 2)) (head.drop (head.length - 2) :: parts)
  else if head = [] then parts
  else head :: parts
termination_by head.length
decreasing_by
  rw [List.length_take]
  omega

def grouped (digits : List Char) : List Char :=
  if 3 < digits.length then
    [','].intercalate
      (peel (digits.take (digits.length - 3)) [] ++ [digits.drop (digits.length - 3)])
  else digits

/-- `rupees`: paise as rupees, in Indian digit grouping. -/
def rupees (paise : ℤ) : String :=
  let whole := paise.natAbs / 100
  let frac := paise.natAbs % 100
  (if paise < 0 then "-" else "") ++ String.ofList (grouped (toString whole).toList) ++ "." ++
    padNat 2 frac

/-! ## The groups -/

/-- Digits in Indian groups: a single group of up to three, or a first group of one or two, pairs,
and a last group of three. -/
inductive IndianGroups : List Char → Prop
  | single {group : List Char} (hdigits : IsDigits group) (hlength : group.length ≤ 3) :
    IndianGroups group
  | many {first last : List Char} {pairs : List (List Char)} (hfirst : IsDigits first)
    (hfirstLength : first.length ≤ 2) (hpairs : ∀ pair ∈ pairs, IsDigits pair ∧ pair.length = 2)
    (hlast : IsDigits last) (hlastLength : last.length = 3) :
    IndianGroups ([','].intercalate (first :: pairs ++ [last]))

/-- What the loop makes of a non-empty front part: the same digits, as a short group and pairs. -/
theorem peel_eq {head : List Char} (hne : head ≠ []) (parts : List (List Char)) :
    ∃ first pairs, peel head parts = first :: pairs ++ parts ∧ head = first ++ pairs.flatten ∧
      first ≠ [] ∧ first.length ≤ 2 ∧ ∀ pair ∈ pairs, pair.length = 2 := by
  induction head, parts using peel.induct with
  | case1 head parts hlong ih =>
    have hkept : head.take (head.length - 2) ≠ [] := by
      intro hnil
      have := congrArg List.length hnil
      rw [List.length_take, List.length_nil] at this
      omega
    obtain ⟨first, pairs, hpeel, hhead, hrest⟩ := ih hkept
    refine ⟨first, pairs ++ [head.drop (head.length - 2)], ?_, ?_, hrest.1, hrest.2.1, ?_⟩
    · rw [peel, if_pos hlong, hpeel]
      simp
    · rw [List.flatten_append, ← List.append_assoc, ← hhead]
      simp
    · intro pair hpair
      rcases List.mem_append.mp hpair with hpair | hpair
      · exact hrest.2.2 pair hpair
      · rw [List.mem_singleton.mp hpair, List.length_drop]
        omega
  | case2 parts => exact absurd rfl hne
  | case3 head parts hshort hnil =>
    refine ⟨head, [], ?_, by simp, hne, by omega, by simp⟩
    rw [peel, if_neg hshort, if_neg hnil]
    rfl

/-- Without its commas, a joined text is its parts. -/
theorem filter_intercalate {parts : List (List Char)} (h : ∀ part ∈ parts, ',' ∉ part) :
    ([','].intercalate parts).filter (· ≠ ',') = parts.flatten := by
  have hkept {part : List Char} (hpart : ',' ∉ part) : part.filter (· ≠ ',') = part :=
    List.filter_eq_self.mpr fun c hc => by
      simpa using fun heq : c = ',' => hpart (heq ▸ hc)
  induction parts with
  | nil => rfl
  | cons part parts ih =>
    have hpart := hkept (h part List.mem_cons_self)
    have hrest := ih fun p hp => h p (.tail _ hp)
    cases parts with
    | nil => simpa using hpart
    | cons next parts =>
      rw [List.intercalate_cons_cons, List.filter_append, List.filter_append, hpart, hrest,
        List.flatten_cons]
      simp

/-- A part of a text in digits is in digits. -/
theorem isDigits_of_subset {part digits : List Char} (h : IsDigits digits) (hne : part ≠ [])
    (hsub : part ⊆ digits) : IsDigits part :=
  ⟨hne, fun c hc => h.2 c (hsub hc)⟩

theorem comma_not_mem {digits : List Char} (h : ∀ c ∈ digits, c.isDigit = true) : ',' ∉ digits :=
  fun hmem => absurd (h _ hmem) (by decide)

/-- The first of several joined parts stays in front. -/
theorem head_intercalate {first : List Char} (hne : first ≠ []) (parts : List (List Char)) :
    ([','].intercalate (first :: parts)).head? = first.head? := by
  cases parts with
  | nil => rw [List.intercalate_singleton]
  | cons next parts =>
    rw [List.intercalate_cons_cons, List.append_assoc, List.head?_append_of_ne_nil _ hne]

/-- **Grouping**: the groups are Indian, and without their commas are the digits. -/
theorem grouped_spec {digits : List Char} (h : IsDigits digits) :
    IndianGroups (grouped digits) ∧ (grouped digits).filter (· ≠ ',') = digits ∧
      (grouped digits).head? = digits.head? := by
  by_cases hlong : 3 < digits.length
  · have hfront : digits.take (digits.length - 3) ≠ [] := by
      intro hnil
      have hlength := congrArg List.length hnil
      rw [List.length_take, List.length_nil] at hlength
      omega
    have hlastLength : (digits.drop (digits.length - 3)).length = 3 := by
      rw [List.length_drop]
      omega
    obtain ⟨first, pairs, hpeel, hhead, hfirst, hfirstLength, hpairs⟩ := peel_eq hfront []
    have hgrouped : grouped digits = [','].intercalate
        (first :: (pairs ++ [digits.drop (digits.length - 3)])) := by
      rw [grouped, if_pos hlong, hpeel, List.append_nil, List.cons_append]
    have hwhole : first ++ pairs.flatten ++ digits.drop (digits.length - 3) = digits := by
      rw [← hhead, List.take_append_drop]
    -- every part is one of digits
    have hdigits {part : List Char} (hne : part ≠ [])
        (hpart : part ∈ first :: (pairs ++ [digits.drop (digits.length - 3)])) :
        IsDigits part := by
      refine isDigits_of_subset h hne fun c hc => ?_
      rw [← hwhole, List.append_assoc]
      have hflat : c ∈ (first :: (pairs ++ [digits.drop (digits.length - 3)])).flatten :=
        List.mem_flatten_of_mem hpart hc
      simpa using hflat
    have hne {part : List Char} {n : ℕ} (hlength : part.length = n + 1) : part ≠ [] :=
      List.ne_nil_of_length_eq_add_one hlength
    rw [hgrouped]
    refine ⟨?_, ?_, ?_⟩
    · refine .many (hdigits hfirst List.mem_cons_self) hfirstLength (fun pair hpair => ?_)
        (hdigits (hne hlastLength) (by simp)) hlastLength
      exact ⟨hdigits (hne (hpairs pair hpair)) (by simp [hpair]), hpairs pair hpair⟩
    · rw [filter_intercalate, List.flatten_cons, List.flatten_append, ← List.append_assoc]
      · simpa using hwhole
      · intro part hpart
        by_cases hnil : part = []
        · rw [hnil]
          exact List.not_mem_nil
        · exact comma_not_mem (hdigits hnil hpart).2
    · rw [head_intercalate hfirst]
      conv_rhs => rw [← hwhole, List.append_assoc, List.head?_append_of_ne_nil _ hfirst]
  · rw [grouped, if_neg hlong]
    refine ⟨.single h (by omega), List.filter_eq_self.mpr fun c hc => ?_, rfl⟩
    simpa using fun heq : c = ',' => comma_not_mem h.2 (heq ▸ hc)

/-! ## Reading an amount back -/

/-- The value of a decimal with two decimals: an optional sign, digits, a point and two digits. -/
def readDecimal (text : List Char) : Option ℚ :=
  let negative := text.head? = some '-'
  let body := if negative then text.tail else text
  let whole := body.takeWhile Char.isDigit
  match body.dropWhile Char.isDigit with
  | ['.', tenth, hundredth] =>
    if whole ≠ [] ∧ tenth.isDigit ∧ hundredth.isDigit then
      let value := (Nat.ofDigitChars 10 whole 0 : ℚ) +
        (Nat.ofDigitChars 10 [tenth, hundredth] 0 : ℚ) / 100
      some (if negative then -value else value)
    else none
  | _ => none

def sign (paise : ℤ) : List Char := if paise < 0 then ['-'] else []

/-- What is asked of the text of an amount: without its commas it reads as the rupees, its whole part
is in Indian groups without a superfluous zero in front, and two decimals follow. -/
structure Rendered (paise : ℤ) (text : String) : Prop where
  reads : readDecimal (text.toList.filter (· ≠ ',')) = some ((paise : ℚ) / 100)
  shape : ∃ whole frac, text.toList = sign paise ++ whole ++ '.' :: frac ∧ IndianGroups whole ∧
    (whole.head? = some '0' → whole = ['0']) ∧ IsDigits frac ∧ frac.length = 2

theorem readDecimal_signed {whole : List Char} {tenth hundredth : Char} (hwhole : IsDigits whole)
    (hfrac : ∀ c ∈ [tenth, hundredth], c.isDigit = true) (paise : ℤ) :
    readDecimal (sign paise ++ whole ++ ['.', tenth, hundredth]) =
      some (if paise < 0 then
        -((Nat.ofDigitChars 10 whole 0 : ℚ) + (Nat.ofDigitChars 10 [tenth, hundredth] 0 : ℚ) / 100)
      else
        (Nat.ofDigitChars 10 whole 0 : ℚ) +
          (Nat.ofDigitChars 10 [tenth, hundredth] 0 : ℚ) / 100) := by
  obtain ⟨htake, hdrop⟩ := @cut_digits whole ['.', tenth, hundredth] hwhole.2 (by simp)
  have ht : tenth.isDigit = true := hfrac _ (by simp)
  have hh : hundredth.isDigit = true := hfrac _ (by simp)
  unfold sign
  split
  · simp [readDecimal, htake, hdrop, hwhole.1, ht, hh]
  · have hhead : ¬(whole ++ ['.', tenth, hundredth]).head? = some '-' := by
      obtain ⟨c, tail, rfl⟩ := List.exists_cons_of_ne_nil hwhole.1
      intro heq
      obtain rfl : c = '-' := Option.some.inj heq
      exact absurd (hwhole.2 _ List.mem_cons_self) (by decide)
    simp only [readDecimal, List.nil_append, hhead, if_false, htake, hdrop, hwhole.1, ht, hh,
      ne_eq, not_false_eq_true, and_self, if_true]

theorem toList_rupees (paise : ℤ) :
    (rupees paise).toList = sign paise ++ grouped (Nat.toDigits 10 (paise.natAbs / 100)) ++
      '.' :: (padNat 2 (paise.natAbs % 100)).toList := by
  have hdigits : (toString (paise.natAbs / 100)).toList = Nat.toDigits 10 (paise.natAbs / 100) :=
    Nat.toList_repr
  have hsign : (if paise < 0 then "-" else "").toList = sign paise := by
    unfold sign
    split <;> rfl
  simp only [rupees, String.toList_append, String.toList_ofList, hdigits, hsign, List.append_assoc]
  rfl

theorem rupees_rendered (paise : ℤ) : Rendered paise (rupees paise) := by
  have hwhole : IsDigits (Nat.toDigits 10 (paise.natAbs / 100)) := by
    rw [← Nat.toList_repr]
    exact isDigits_repr _
  obtain ⟨hshape, hfilter, hhead⟩ := grouped_spec hwhole
  have hlength : (padNat 2 (paise.natAbs % 100)).toList.length = 2 :=
    length_padNat (by decide) (Nat.mod_lt _ (by decide))
  have hfrac : ∀ c ∈ (padNat 2 (paise.natAbs % 100)).toList, c.isDigit = true :=
    fun c hc => isDigit_of_mem_padNat hc
  refine ⟨?_, _, _, toList_rupees paise, hshape, fun hzero => ?_,
    ⟨List.ne_nil_of_length_eq_add_one hlength, hfrac⟩, hlength⟩
  · have hvalue := ofDigitChars_padNat 2 (paise.natAbs % 100)
    obtain ⟨tenth, hundredth, htwo⟩ := List.length_eq_two.mp hlength
    rw [htwo] at hvalue hfrac
    have hclean : ([tenth, hundredth] : List Char).filter (· ≠ ',') = [tenth, hundredth] :=
      List.filter_eq_self.mpr fun c hc => by
        simpa using fun heq : c = ',' => comma_not_mem hfrac (heq ▸ hc)
    have hkept : (sign paise).filter (· ≠ ',') = sign paise := by
      unfold sign
      split <;> rfl
    have hpoint : ('.' :: [tenth, hundredth]).filter (· ≠ ',') = ['.', tenth, hundredth] := by
      rw [List.filter_cons_of_pos (by decide), hclean]
    rw [toList_rupees, htwo, List.filter_append, List.filter_append, hfilter, hkept, hpoint,
      readDecimal_signed hwhole hfrac, Nat.ofDigitChars_ten_toDigits, hvalue]
    -- the rupees and the paise left over are the amount again
    have hsplit : ((paise.natAbs / 100 : ℕ) : ℚ) + ((paise.natAbs % 100 : ℕ) : ℚ) / 100 =
        |(paise : ℚ)| / 100 := by
      have hdiv := Nat.div_add_mod paise.natAbs 100
      have hcast : (100 : ℚ) * ((paise.natAbs / 100 : ℕ) : ℚ) + ((paise.natAbs % 100 : ℕ) : ℚ) =
          (paise.natAbs : ℚ) := by exact_mod_cast hdiv
      rw [Nat.cast_natAbs, Int.cast_abs] at hcast
      linarith
    rw [hsplit]
    split
    · next hneg => rw [abs_of_neg (by exact_mod_cast hneg), neg_div, neg_neg]
    · next hneg => rw [abs_of_nonneg (by exact_mod_cast not_lt.mp hneg)]
  · -- a zero in front is the only digit, which stays alone
    rw [hhead] at hzero
    rw [head_toDigits _ hzero]
    rfl

/-- **Every amount is rendered so that it reads back**, and no two amounts alike. -/
theorem rupees_reads_back :
    (∀ paise, Rendered paise (rupees paise)) ∧ Function.Injective rupees := by
  refine ⟨rupees_rendered, fun m n h => ?_⟩
  have hm := (rupees_rendered m).reads
  rw [h, (rupees_rendered n).reads, Option.some.injEq] at hm
  have hcast : (n : ℚ) = m := by linarith
  exact_mod_cast hcast.symm

example : rupees (-1234567890) = "-1,23,45,678.90" := by decide +kernel

end Provenance

end AegisMerchant
