import AegisMerchant.Base.TimeRead
import Mathlib.Data.List.Lex
import Mathlib.Data.String.Basic

/-!
# Instants in the order of their texts

Digits of one width are in the order of the numbers they write, and civil dates in the order of
their days, the year first and the day of the month last. So texts of one layout, the greater units
in front, sort as the instants do. Nothing here mentions a particular program.

`civilFromDays_lt` is the order of dates, by the order of the days they stand for.
-/

namespace Text

/-- What follows a common front decides. -/
theorem append_lt_append (common : List Char) {rest rest' : List Char} (h : rest < rest') :
    common ++ rest < common ++ rest' := by
  induction common with
  | nil => exact h
  | cons c common ih => exact List.Lex.cons ih

theorem digit_bounds {c : Char} (h : c.isDigit = true) : 48 ≤ c.toNat ∧ c.toNat ≤ 57 :=
  Char.isDigit_iff_toNat.mp h

/-- A digit in front of others of one length counts by their power of ten. -/
theorem ofDigitChars_cons_zero (c : Char) (ds : List Char) :
    Nat.ofDigitChars 10 (c :: ds) 0 =
      10 ^ ds.length * (c.toNat - 48) + Nat.ofDigitChars 10 ds 0 := by
  rw [Nat.ofDigitChars_cons, Nat.ofDigitChars_eq_ofDigitChars_zero, Nat.mul_zero, Nat.zero_add]
  rfl

/-- Digits write a number below the power of ten their length gives. -/
theorem ofDigitChars_lt {ds : List Char} (h : ∀ c ∈ ds, c.isDigit = true) :
    Nat.ofDigitChars 10 ds 0 < 10 ^ ds.length := by
  induction ds with
  | nil => exact Nat.one_pos
  | cons c ds ih =>
    have hc := digit_bounds (h c List.mem_cons_self)
    have htail := ih fun d hd => h d (List.mem_cons_of_mem c hd)
    have hhead : 10 ^ ds.length * (c.toNat - 48) ≤ 10 ^ ds.length * 9 :=
      Nat.mul_le_mul_left _ (by omega)
    rw [ofDigitChars_cons_zero, List.length_cons, pow_succ]
    omega

/-- Digits of one length are in the order of the numbers they write, whatever follows them. -/
theorem append_lt_of_ofDigitChars_lt {rest rest' : List Char} : ∀ {ds ds' : List Char},
    ds.length = ds'.length → (∀ c ∈ ds, c.isDigit = true) → (∀ c ∈ ds', c.isDigit = true) →
      Nat.ofDigitChars 10 ds 0 < Nat.ofDigitChars 10 ds' 0 → ds ++ rest < ds' ++ rest'
  | [], [], _, _, _, h => absurd h (lt_irrefl _)
  | c :: ds, c' :: ds', hlength, hdigits, hdigits', h => by
    have hc := digit_bounds (hdigits c List.mem_cons_self)
    have hc' := digit_bounds (hdigits' c' List.mem_cons_self)
    have htail := fun d hd => hdigits d (List.mem_cons_of_mem c hd)
    have htail' := fun d hd => hdigits' d (List.mem_cons_of_mem c' hd)
    have hlen : ds.length = ds'.length := Nat.succ.inj hlength
    have hbound := ofDigitChars_lt htail'
    rw [← hlen] at hbound
    rw [ofDigitChars_cons_zero, ofDigitChars_cons_zero, ← hlen] at h
    -- the first digit decides, unless the two are the same
    rcases lt_trichotomy c.toNat c'.toNat with hlt | heq | hgt
    · exact List.Lex.rel (Char.lt_def.mpr (UInt32.lt_iff_toNat_lt.mpr hlt))
    · rw [Char.toNat_inj.mp heq] at h ⊢
      exact List.Lex.cons (append_lt_of_ofDigitChars_lt hlen htail htail' (by omega))
    · have hle : 10 ^ ds.length * (c'.toNat - 48).succ ≤ 10 ^ ds.length * (c.toNat - 48) :=
        Nat.mul_le_mul_left _ (by omega)
      rw [Nat.mul_succ] at hle
      omega

/-- Texts that begin with a padded number of one width are in the order of the numbers, and then of
what follows. -/
theorem padNat_append_lt {width m n : ℕ} {rest rest' : List Char} (hn : n < 10 ^ width)
    (h : m < n ∨ m = n ∧ rest < rest') :
    (padNat width m).toList ++ rest < (padNat width n).toList ++ rest' := by
  rcases h with hmn | ⟨rfl, hrest⟩
  swap
  · exact append_lt_append _ hrest
  have hwidth : 0 < width := by
    by_contra hzero
    have : width = 0 := by omega
    subst this
    omega
  refine append_lt_of_ofDigitChars_lt ?_ (fun c => isDigit_of_mem_padNat)
    (fun c => isDigit_of_mem_padNat) ?_
  · rw [length_padNat hwidth (hmn.trans hn), length_padNat hwidth hn]
  · rw [ofDigitChars_padNat, ofDigitChars_padNat]
    exact hmn

end Text

namespace Time

/-! ## Fields -/

theorem pad2_append_lt {m n : ℤ} {rest rest' : List Char} (hm : 0 ≤ m) (hn : 0 ≤ n ∧ n < 100)
    (h : m < n ∨ m = n ∧ rest < rest') :
    (pad2 m).toList ++ rest < (pad2 n).toList ++ rest' := by
  apply Text.padNat_append_lt
  · omega
  · rcases h with hmn | ⟨rfl, hrest⟩
    · exact .inl (by omega)
    · exact .inr ⟨rfl, hrest⟩

/-! ## The civil calendar -/

/-- One date is before another: the year first, then the month, then the day. -/
def DateLt (d d' : ℤ × ℤ × ℤ) : Prop :=
  d.1 < d'.1 ∨ d.1 = d'.1 ∧ (d.2.1 < d'.2.1 ∨ d.2.1 = d'.2.1 ∧ d.2.2 < d'.2.2)

/-- Within an era the year grows with the day. -/
theorem yearOfEra_mono {doe doe' y y' : ℤ} (h : doe ≤ doe')
    (hy : YearOfEra doe y) (hy' : YearOfEra doe' y') : y ≤ y' := by
  unfold YearOfEra at hy hy'
  have hcentury : doe' / 36524 - doe / 36524 ≥ doe' / 146096 - doe / 146096 := by omega
  have hleap : doe' / 1460 - doe / 1460 ≤ doe' - doe := by omega
  omega

/-- Within a year the month, counted from March, grows with the day, and within a month the day. -/
theorem dayOfYear_lt {doy doy' : ℤ} (h : doy < doy') :
    (5 * doy + 2) / 153 < (5 * doy' + 2) / 153 ∨ (5 * doy + 2) / 153 = (5 * doy' + 2) / 153 ∧
      doy - (153 * ((5 * doy + 2) / 153) + 2) / 5 < doy' - (153 * ((5 * doy' + 2) / 153) + 2) / 5 := by
  omega

/-- A date whose year and month are counted from March. -/
def fromMarch (year m dom : ℤ) : ℤ × ℤ × ℤ :=
  (year + (if m < 10 then 0 else 1), if m < 10 then m + 3 else m - 9, dom)

theorem dateLt_fromMarch {year year' m m' dom dom' : ℤ} (hm : m < 12) (hm' : 0 ≤ m')
    (h : year < year' ∨ year = year' ∧ (m < m' ∨ m = m' ∧ dom < dom')) :
    DateLt (fromMarch year m dom) (fromMarch year' m' dom') := by
  unfold DateLt fromMarch
  split <;> split <;> simp only <;> omega

/-- The era of a day, the day in it, the year of that day and the day in that year. -/
theorem civilFromDays_march (days : ℤ) :
    ∃ era doe y doy : ℤ, days = era * 146097 + doe - 719468 ∧ (0 ≤ doe ∧ doe < 146097) ∧
      YearOfEra doe y ∧ doy = doe - (365 * y + y / 4 - y / 100) ∧
      civilFromDays days = fromMarch (y + era * 400) ((5 * doy + 2) / 153)
        (doy - (153 * ((5 * doy + 2) / 153) + 2) / 5 + 1) := by
  have h0 : 0 ≤ (days + 719468) % 146097 := by omega
  have h1 : (days + 719468) % 146097 < 146097 := by omega
  have hera : days = (days + 719468) / 146097 * 146097 + (days + 719468) % 146097 - 719468 := by
    omega
  generalize hdoe : (days + 719468) % 146097 = doe at h0 h1 hera
  obtain ⟨y, hy⟩ : ∃ y, YearOfEra doe y := ⟨_, rfl⟩
  have hnonneg := dayOfYear_nonneg h0 h1 hy
  have hle := dayOfYear_le h0 h1 hy
  have hyear := hy
  unfold YearOfEra at hyear
  refine ⟨_, doe, y, _, hera, ⟨h0, h1⟩, hy, rfl, ?_⟩
  unfold civilFromDays fromMarch
  simp only [hdoe, ← hyear]
  split
  · rw [if_neg (by omega)]
  · rw [if_pos (by omega)]

/-- **Dates are in the order of their days.** -/
theorem civilFromDays_lt {days days' : ℤ} (h : days < days') :
    DateLt (civilFromDays days) (civilFromDays days') := by
  obtain ⟨era, doe, y, doy, hdays, hdoe, hy, hdoy, hdate⟩ := civilFromDays_march days
  obtain ⟨era', doe', y', doy', hdays', hdoe', hy', hdoy', hdate'⟩ := civilFromDays_march days'
  have hbounds := yearOfEra_bounds hdoe.1 hdoe.2 hy
  have hbounds' := yearOfEra_bounds hdoe'.1 hdoe'.2 hy'
  have hle := dayOfYear_le hdoe.1 hdoe.2 hy
  have hnonneg' := dayOfYear_nonneg hdoe'.1 hdoe'.2 hy'
  rw [hdate, hdate']
  apply dateLt_fromMarch
  · omega
  · omega
  rcases (show era < era' ∨ era = era' ∧ doe < doe' by omega) with hera | ⟨rfl, hday⟩
  · exact .inl (by omega)
  · rcases lt_or_eq_of_le (yearOfEra_mono hday.le hy hy') with hyear | rfl
    · exact .inl (by omega)
    · refine .inr ⟨rfl, ?_⟩
      have hdoy : doy < doy' := by omega
      rcases dayOfYear_lt hdoy with hmonth | ⟨hmonth, hdom⟩
      · exact .inl hmonth
      · exact .inr ⟨hmonth, by omega⟩

/-- A month is from 1 to 12, and a day from 1 to 31. -/
theorem civilFromDays_fields (days : ℤ) :
    (1 ≤ (civilFromDays days).2.1 ∧ (civilFromDays days).2.1 ≤ 12) ∧
      1 ≤ (civilFromDays days).2.2 ∧ (civilFromDays days).2.2 ≤ 31 := by
  obtain ⟨era, doe, y, doy, -, hdoe, hy, hdoy, hdate⟩ := civilFromDays_march days
  have hnonneg := dayOfYear_nonneg hdoe.1 hdoe.2 hy
  have hle := dayOfYear_le hdoe.1 hdoe.2 hy
  rw [hdate]
  unfold fromMarch
  simp only
  constructor
  · split <;> omega
  · omega

/-! ## The wall clock -/

/-- Clocks of one year are in the order of the date and then of the second, whatever is written
behind them. -/
theorem clockText_append_lt {t t' : DateTime} {rest rest' : List Char}
    (h : ((civilFromDays t.wallDay).2.1 < (civilFromDays t'.wallDay).2.1 ∨
      (civilFromDays t.wallDay).2.1 = (civilFromDays t'.wallDay).2.1 ∧
        ((civilFromDays t.wallDay).2.2 < (civilFromDays t'.wallDay).2.2 ∨
          (civilFromDays t.wallDay).2.2 = (civilFromDays t'.wallDay).2.2 ∧
            (t.wallTime / second < t'.wallTime / second ∨
              t.wallTime / second = t'.wallTime / second ∧ rest < rest')))) :
    clockText t ++ rest < clockText t' ++ rest' := by
  obtain ⟨hmonth, hdom⟩ := civilFromDays_bounds t.wallDay
  obtain ⟨hmonth', hdom'⟩ := civilFromDays_bounds t'.wallDay
  have htime := wallTime_bounds t
  have htime' := wallTime_bounds t'
  have hseconds : ∀ t : DateTime, 0 ≤ t.wallTime ∧ t.wallTime < 86400 * second →
      0 ≤ t.wallTime / second ∧ t.wallTime / second < 86400 := by
    intro t ht
    unfold second at ht ⊢
    omega
  have hs := hseconds t htime
  have hs' := hseconds t' htime'
  simp only [clockText, List.cons_append, List.append_assoc]
  refine List.Lex.cons (pad2_append_lt hmonth.1 hmonth' (h.imp_right (And.imp_right fun h => ?_)))
  refine List.Lex.cons (pad2_append_lt hdom.1 hdom' (h.imp_right (And.imp_right fun h => ?_)))
  generalize t.wallTime / second = s at h hs
  generalize t'.wallTime / second = s' at h hs'
  refine List.Lex.cons (pad2_append_lt (by omega) (by omega) ?_)
  rcases lt_trichotomy (s / 3600) (s' / 3600) with hlt | heq | hgt
  · exact .inl hlt
  · refine .inr ⟨heq, List.Lex.cons (pad2_append_lt (by omega) (by omega) ?_)⟩
    rcases lt_trichotomy (s / 60 % 60) (s' / 60 % 60) with hlt | heq' | hgt
    · exact .inl hlt
    · refine .inr ⟨heq', List.Lex.cons (pad2_append_lt (by omega) (by omega) ?_)⟩
      rcases h with hlt | ⟨rfl, hrest⟩
      · exact .inl (by omega)
      · exact .inr ⟨rfl, hrest⟩
    · omega
  · omega

end Time
