import AegisMerchant.Base.Reading
import AegisMerchant.Base.Time
import Mathlib.Tactic.Common

/-!
# Reading instants back

A civil date tells its day, and an ISO text tells the wall clock it was written from and the offset:
two instants that are written alike are the same. Nothing here mentions a particular program.

`civilFromDays_inj` and `isoformat_inj` say that neither a date nor a text stands for two instants.
-/

namespace Time

/-! ## Two digits -/

theorem isDigit_of_mem_pad2 {n : ℤ} {c : Char} (h : c ∈ (pad2 n).toList) : c.isDigit = true :=
  Text.isDigit_of_mem_padNat h

theorem length_pad2 {n : ℤ} (h : n < 100) : (pad2 n).toList.length = 2 :=
  Text.length_padNat (by decide) (by omega)

theorem pad2_inj {m n : ℤ} (hm : 0 ≤ m) (hn : 0 ≤ n) (h : (pad2 m).toList = (pad2 n).toList) :
    m = n := by
  have := Text.padNat_inj h
  omega

/-- Two numbers below a hundred, cut off in front. -/
theorem cut_pad2 {m n : ℤ} {rest rest' : List Char} (hm : 0 ≤ m ∧ m < 100) (hn : 0 ≤ n ∧ n < 100)
    (h : (pad2 m).toList ++ rest = (pad2 n).toList ++ rest') : m = n ∧ rest = rest' := by
  have hlength : (pad2 m).toList.length = (pad2 n).toList.length := by
    rw [length_pad2 hm.2, length_pad2 hn.2]
  have hcut := List.append_inj h hlength
  exact ⟨pad2_inj hm.1 hn.1 hcut.1, hcut.2⟩

/-! ## The civil calendar -/

section Era

variable {doe y : ℤ}

/-- The year of its era a day of the era falls in. -/
def YearOfEra (doe y : ℤ) : Prop :=
  y = (doe - doe / 1460 + doe / 36524 - doe / 146096) / 365

theorem yearOfEra_bounds (h0 : 0 ≤ doe) (h1 : doe < 146097) (hy : YearOfEra doe y) :
    0 ≤ y ∧ y < 400 := by
  unfold YearOfEra at hy
  omega

/-- No day comes before the first of its year. -/
theorem dayOfYear_nonneg (h0 : 0 ≤ doe) (h1 : doe < 146097) (hy : YearOfEra doe y) :
    0 ≤ doe - (365 * y + y / 4 - y / 100) := by
  unfold YearOfEra at hy
  by_contra hneg
  by_cases hlast : doe = 146096
  · subst hlast
    omega
  · have he : doe / 146096 = 0 := by omega
    rw [he] at hy
    have hd : doe / 36524 ≤ 3 := by omega
    have hf : y / 4 ≤ doe / 1460 := by omega
    have hg : y / 100 < doe / 36524 := by omega
    omega

theorem dayOfYear_le (h0 : 0 ≤ doe) (h1 : doe < 146097) (hy : YearOfEra doe y) :
    doe - (365 * y + y / 4 - y / 100) ≤ 366 := by
  unfold YearOfEra at hy
  by_contra hneg
  by_cases hlast : doe = 146096
  · subst hlast
    omega
  · have he : doe / 146096 = 0 := by omega
    rw [he] at hy
    have hf : doe / 1460 ≤ y / 4 + 1 := by omega
    have hg : doe / 36524 + 2 ≤ y / 100 := by omega
    omega

end Era

/-- The parts of a civil date: the era and its year, the month counted from March, the day. -/
theorem civilFromDays_parts (days : ℤ) :
    ∃ era y m dom : ℤ, (0 ≤ y ∧ y < 400) ∧ (0 ≤ m ∧ m < 12) ∧ (1 ≤ dom ∧ dom < 33) ∧
      days = era * 146097 + (365 * y + y / 4 - y / 100) + ((153 * m + 2) / 5 + dom - 1) - 719468 ∧
      civilFromDays days = (y + era * 400 + (if m < 10 then 0 else 1),
        if m < 10 then m + 3 else m - 9, dom) := by
  have h0 : 0 ≤ (days + 719468) % 146097 := by omega
  have h1 : (days + 719468) % 146097 < 146097 := by omega
  generalize hdoe : (days + 719468) % 146097 = doe at h0 h1
  obtain ⟨y, hy⟩ : ∃ y, YearOfEra doe y := ⟨_, rfl⟩
  have hbounds := yearOfEra_bounds h0 h1 hy
  have hnonneg := dayOfYear_nonneg h0 h1 hy
  have hle := dayOfYear_le h0 h1 hy
  generalize hdoy : doe - (365 * y + y / 4 - y / 100) = doy at hnonneg hle
  refine ⟨(days + 719468) / 146097, y, (5 * doy + 2) / 153,
    doy - (153 * ((5 * doy + 2) / 153) + 2) / 5 + 1, hbounds, by omega, by omega, by omega, ?_⟩
  unfold YearOfEra at hy
  unfold civilFromDays
  simp only [hdoe, ← hy, hdoy]
  split
  · next hm =>
    rw [if_neg (by omega)]
  · next hm =>
    rw [if_pos (by omega)]

/-- **A civil date tells its day.** -/
theorem civilFromDays_inj {days days' : ℤ} (h : civilFromDays days = civilFromDays days') :
    days = days' := by
  obtain ⟨era, y, m, dom, hy, hm, -, hdays, hdate⟩ := civilFromDays_parts days
  obtain ⟨era', y', m', dom', hy', hm', -, hdays', hdate'⟩ := civilFromDays_parts days'
  rw [hdate, hdate', Prod.mk.injEq, Prod.mk.injEq] at h
  obtain ⟨hyear, hmonth, rfl⟩ := h
  have hmm : m = m' := by split at hmonth <;> split at hmonth <;> omega
  subst hmm
  have hera : y + era * 400 = y' + era' * 400 := by omega
  have hsame : era = era' ∧ y = y' := by omega
  rw [hdays, hdays', hsame.1, hsame.2]

/-- Months and days are written in two digits. -/
theorem civilFromDays_bounds (days : ℤ) :
    (0 ≤ (civilFromDays days).2.1 ∧ (civilFromDays days).2.1 < 100) ∧
      0 ≤ (civilFromDays days).2.2 ∧ (civilFromDays days).2.2 < 100 := by
  obtain ⟨era, y, m, dom, -, hm, hdom, -, hdate⟩ := civilFromDays_parts days
  rw [hdate]
  simp only
  constructor
  · split <;> omega
  · omega

/-! ## The wall clock -/

/-- The month, the day and the time of an ISO text. -/
def clockText (t : DateTime) : List Char :=
  '-' :: ((pad2 (civilFromDays t.wallDay).2.1).toList ++
    '-' :: ((pad2 (civilFromDays t.wallDay).2.2).toList ++
      'T' :: ((pad2 (t.wallTime / second / 3600)).toList ++
        ':' :: ((pad2 (t.wallTime / second / 60 % 60)).toList ++
          ':' :: (pad2 (t.wallTime / second % 60)).toList))))

theorem wallTime_bounds (t : DateTime) : 0 ≤ t.wallTime ∧ t.wallTime < 86400 * second := by
  unfold DateTime.wallTime day hour second
  omega

/-- The clock, cut off in front. -/
theorem cut_clockText {t t' : DateTime} {rest rest' : List Char}
    (h : clockText t ++ rest = clockText t' ++ rest') :
    (civilFromDays t.wallDay).2 = (civilFromDays t'.wallDay).2 ∧
      t.wallTime / second = t'.wallTime / second ∧ rest = rest' := by
  obtain ⟨hmonth, hdom⟩ := civilFromDays_bounds t.wallDay
  obtain ⟨hmonth', hdom'⟩ := civilFromDays_bounds t'.wallDay
  have htime := wallTime_bounds t
  have htime' := wallTime_bounds t'
  unfold second at htime htime'
  simp only [clockText, List.cons_append, List.append_assoc, List.cons.injEq, true_and] at h
  obtain ⟨h1, h⟩ := cut_pad2 hmonth hmonth' h
  obtain ⟨h2, h⟩ := cut_pad2 hdom hdom' (List.cons.inj h).2
  obtain ⟨h3, h⟩ := cut_pad2 (by unfold second; omega) (by unfold second; omega) (List.cons.inj h).2
  obtain ⟨h4, h⟩ := cut_pad2 (by unfold second; omega) (by unfold second; omega) (List.cons.inj h).2
  obtain ⟨h5, h⟩ := cut_pad2 (by unfold second; omega) (by unfold second; omega) (List.cons.inj h).2
  exact ⟨Prod.ext h1 h2, by omega, h⟩

/-- No character of the clock is outside digits and `-T:`. -/
theorem mem_clockText {t : DateTime} {c : Char} (h : c ∈ clockText t) :
    c.isDigit = true ∨ c ∈ ['-', 'T', ':'] := by
  simp only [clockText, List.mem_cons, List.mem_append] at h
  rcases h with rfl | h | rfl | h | rfl | h | rfl | h | rfl | h
  · exact .inr (by decide)
  · exact .inl (isDigit_of_mem_pad2 h)
  · exact .inr (by decide)
  · exact .inl (isDigit_of_mem_pad2 h)
  · exact .inr (by decide)
  · exact .inl (isDigit_of_mem_pad2 h)
  · exact .inr (by decide)
  · exact .inl (isDigit_of_mem_pad2 h)
  · exact .inr (by decide)
  · exact .inl (isDigit_of_mem_pad2 h)

/-! ## The offset and the fraction -/

theorem toList_offsetText (offset : ℤ) :
    (offsetText offset).toList = (if offset < 0 then '-' else '+') ::
      ((Text.padNat 2 (offset.natAbs / 3600)).toList ++
        ':' :: ((Text.padNat 2 (offset.natAbs / 60 % 60)).toList ++
          (if offset.natAbs % 60 = 0 then []
            else ':' :: (Text.padNat 2 (offset.natAbs % 60)).toList))) := by
  unfold offsetText
  simp only [String.toList_append, List.append_assoc]
  split <;> split <;> simp

/-- An offset is read back. -/
theorem offsetText_inj {o o' : ℤ} (h : (offsetText o).toList = (offsetText o').toList) :
    o = o' := by
  rw [toList_offsetText, toList_offsetText, List.cons.injEq] at h
  obtain ⟨hsign, h⟩ := h
  have hcolon : ∀ n, ':' ∉ (Text.padNat 2 n).toList := fun n hmem =>
    absurd (Text.isDigit_of_mem_padNat hmem) (by decide)
  obtain ⟨hhours, h⟩ := Text.cut_first (hcolon _) (hcolon _) h
  have hlength : ∀ n < 60, (Text.padNat 2 n).toList.length = 2 := fun n hn =>
    Text.length_padNat (by decide) (by omega)
  obtain ⟨hminutes, h⟩ := List.append_inj h (by
    rw [hlength _ (Nat.mod_lt _ (by decide)), hlength _ (Nat.mod_lt _ (by decide))])
  have hhours := Text.padNat_inj hhours
  have hminutes := Text.padNat_inj hminutes
  have hseconds : o.natAbs % 60 = o'.natAbs % 60 := by
    split at h
    · next hzero =>
      split at h
      · next hzero' => rw [hzero, hzero']
      · cases h
    · split at h
      · cases h
      · exact Text.padNat_inj (List.cons.inj h).2
  have habs : o.natAbs = o'.natAbs := by omega
  split at hsign <;> split at hsign
  · omega
  · cases hsign
  · cases hsign
  · omega

/-- The microseconds of an ISO text, nothing when there are none. -/
def fractionText (micro : ℤ) : List Char :=
  if micro = 0 then [] else '.' :: (Text.padNat 6 micro.toNat).toList

/-- The fraction and the offset are read back. -/
theorem fractionText_inj {micro micro' o o' : ℤ} (hmicro : 0 ≤ micro ∧ micro < 1000000)
    (hmicro' : 0 ≤ micro' ∧ micro' < 1000000)
    (h : fractionText micro ++ (offsetText o).toList =
      fractionText micro' ++ (offsetText o').toList) : micro = micro' ∧ o = o' := by
  have hdot : ∀ {m o o' : ℤ}, m ≠ 0 →
      (offsetText o).toList ≠ fractionText m ++ (offsetText o').toList := by
    intro m o o' hm h
    rw [toList_offsetText, fractionText, if_neg hm] at h
    have hsign := (List.cons.inj h).1
    split at hsign <;> cases hsign
  by_cases hzero : micro = 0
  · subst hzero
    by_cases hzero' : micro' = 0
    · subst hzero'
      exact ⟨rfl, offsetText_inj h⟩
    · exact absurd h (hdot hzero')
  · by_cases hzero' : micro' = 0
    · subst hzero'
      exact absurd h.symm (hdot hzero)
    · unfold fractionText at h
      rw [if_neg hzero, if_neg hzero'] at h
      have hlength : ∀ m : ℤ, m < 1000000 → (Text.padNat 6 m.toNat).toList.length = 6 :=
        fun m hm => Text.length_padNat (by decide) (by omega)
      obtain ⟨hdigits, hoffset⟩ := List.append_inj (List.cons.inj h).2 (by
        rw [hlength _ hmicro.2, hlength _ hmicro'.2])
      have := Text.padNat_inj hdigits
      exact ⟨by omega, offsetText_inj hoffset⟩

/-! ## The whole text -/

/-- What a datetime can hold: its year is from 1 to 9999. -/
def DateTime.InRange (t : DateTime) : Prop :=
  1 ≤ (civilFromDays t.wallDay).1 ∧ (civilFromDays t.wallDay).1 ≤ 9999

instance (t : DateTime) : Decidable t.InRange :=
  inferInstanceAs (Decidable (_ ∧ _))

theorem toList_isoformat (t : DateTime) :
    (isoformat t).toList = (Text.padNat 4 (civilFromDays t.wallDay).1.toNat).toList ++
      (clockText t ++ (fractionText (t.wallTime % second) ++ (offsetText t.offset).toList)) := by
  unfold isoformat clockText fractionText
  simp only [String.toList_append, List.append_assoc, List.cons_append]
  split <;> simp

/-- The instant a day, a time of day and an offset stand for. -/
theorem DateTime.eq_of_wall {t t' : DateTime} (hday : t.wallDay = t'.wallDay)
    (htime : t.wallTime = t'.wallTime) (hoffset : t.offset = t'.offset) : t = t' := by
  obtain ⟨utc, offset⟩ := t
  obtain ⟨utc', offset'⟩ := t'
  obtain rfl : offset = offset' := hoffset
  have : utc = utc' := by
    simp only [DateTime.wallDay, DateTime.wallTime, DateTime.wall, day, hour, second] at hday htime
    omega
  rw [this]

/-- **Two datetimes that are written alike are the same.** -/
theorem isoformat_inj {t t' : DateTime} (hrange : t.InRange) (hrange' : t'.InRange)
    (h : isoformat t = isoformat t') : t = t' := by
  have hlist := congrArg String.toList h
  rw [toList_isoformat, toList_isoformat] at hlist
  have hdash : ∀ n, '-' ∉ (Text.padNat 4 n).toList := fun n hmem =>
    absurd (Text.isDigit_of_mem_padNat hmem) (by decide)
  -- the year ends at the first dash
  obtain ⟨hyear, hrest⟩ := Text.cut_first (hdash _) (hdash _) hlist
  have hclock : clockText t ++ (fractionText (t.wallTime % second) ++ (offsetText t.offset).toList) =
      clockText t' ++ (fractionText (t'.wallTime % second) ++ (offsetText t'.offset).toList) :=
    congrArg ('-' :: ·) hrest
  obtain ⟨hdate, hseconds, hrest⟩ := cut_clockText hclock
  have hmicro : ∀ t : DateTime, 0 ≤ t.wallTime % second ∧ t.wallTime % second < 1000000 := by
    intro t
    unfold second
    omega
  obtain ⟨hfraction, hoffset⟩ := fractionText_inj (hmicro t) (hmicro t') hrest
  have hyear := Text.padNat_inj hyear
  have hday : t.wallDay = t'.wallDay := by
    apply civilFromDays_inj
    refine Prod.ext ?_ hdate
    have := hrange.1
    have := hrange'.1
    omega
  refine DateTime.eq_of_wall hday ?_ hoffset
  unfold second at hseconds hfraction
  omega

end Time
