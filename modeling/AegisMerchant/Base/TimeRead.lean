import AegisMerchant.Base.TimeText

/-!
# An ISO text, parsed

A number padded to its width is read in that width, a civil date is turned back into its day, and so
`fromisoformat` gives back the datetime an ISO text was written from. Nothing here mentions a
particular program.

`daysFromCivil_civilFromDays` inverts the calendar, and `fromIsoformat_isoformat` the text.
-/

namespace Time

/-! ## Numbers of a fixed width -/

theorem readDigits_eq {cs : List Char} (h : ∀ c ∈ cs, c.isDigit = true) :
    readDigits cs = some (Nat.ofDigitChars 10 cs 0 : ℕ) := by
  have hfold : ∀ (n : ℕ), cs.foldlM (fun (n : ℤ) c => if c.isDigit then
      some (n * 10 + (c.toNat - 48 : ℕ)) else none) (n : ℤ) =
        some (Nat.ofDigitChars 10 cs n : ℕ) := by
    induction cs with
    | nil =>
      intro n
      rfl
    | cons c cs ih =>
      intro n
      have hc := h c List.mem_cons_self
      have htail := ih (fun d hd => h d (List.mem_cons_of_mem c hd)) (10 * n + (c.toNat - 48))
      rw [Nat.ofDigitChars_cons, List.foldlM_cons]
      rw [show ((10 * n + (c.toNat - 48) : ℕ) : ℤ) = n * 10 + (c.toNat - 48 : ℕ) by
        rw [Nat.cast_add, Nat.cast_mul, mul_comm]; rfl] at htail
      simp only [hc, if_true, Option.bind_eq_bind, Option.bind_some]
      exact htail
  exact hfold 0

/-- A padded number is read in its width. -/
theorem takeNumber_padNat {width n : ℕ} (hwidth : 0 < width) (h : n < 10 ^ width)
    (rest : List Char) :
    takeNumber width ((Text.padNat width n).toList ++ rest) = some ((n : ℤ), rest) := by
  have hlength := Text.length_padNat hwidth h
  have hle : width ≤ ((Text.padNat width n).toList ++ rest).length := by
    rw [List.length_append, hlength]
    omega
  have htake : ((Text.padNat width n).toList ++ rest).take width = (Text.padNat width n).toList := by
    exact List.take_left' hlength
  have hdrop : ((Text.padNat width n).toList ++ rest).drop width = rest := by
    exact List.drop_left' hlength
  have hread := readDigits_eq fun c hc => @Text.isDigit_of_mem_padNat width n c hc
  rw [Text.ofDigitChars_padNat] at hread
  rw [takeNumber, if_pos hle, htake, hdrop, hread]
  rfl

theorem takeNumber_pad2 {n : ℤ} (h : 0 ≤ n ∧ n < 100) (rest : List Char) :
    takeNumber 2 ((pad2 n).toList ++ rest) = some (n, rest) := by
  have hread := @takeNumber_padNat 2 n.toNat (by decide) (by omega) rest
  rw [Int.toNat_of_nonneg h.1] at hread
  exact hread

@[simp] theorem expect_cons (c : Char) (rest : List Char) : expect c (c :: rest) = some rest :=
  if_pos rfl

/-! ## The civil calendar -/

/-- **A civil date is turned back into its day.** -/
theorem daysFromCivil_civilFromDays (days : ℤ) :
    daysFromCivil (civilFromDays days).1 (civilFromDays days).2.1 (civilFromDays days).2.2 =
      days := by
  obtain ⟨era, y, m, dom, hy, hm, -, hdays, hdate⟩ := civilFromDays_parts days
  have hmonth : ∀ year, daysFromCivil (year + era * 400 + (if m < 10 then 0 else 1))
      (if m < 10 then m + 3 else m - 9) dom =
        (year + era * 400) / 400 * 146097 + ((year + era * 400) % 400 * 365 +
          (year + era * 400) % 400 / 4 - (year + era * 400) % 400 / 100 +
            ((153 * m + 2) / 5 + dom - 1)) - 719468 := by
    intro year
    unfold daysFromCivil
    by_cases hmarch : m < 10
    · rw [if_pos hmarch, if_pos hmarch]
      simp only [if_neg (show ¬m + 3 ≤ 2 by omega), if_pos (show 2 < m + 3 by omega), add_zero,
        add_sub_cancel_right]
    · rw [if_neg hmarch, if_neg hmarch]
      simp only [if_pos (show m - 9 ≤ 2 by omega), if_neg (show ¬2 < m - 9 by omega),
        add_sub_cancel_right, sub_add_cancel]
  rw [hdate, hmonth y]
  have hera : (y + era * 400) / 400 = era := by omega
  have hyear : (y + era * 400) % 400 = y := by omega
  rw [hera, hyear, hdays]
  ring

/-! ## The offset -/

theorem readOffset_offsetText {offset : ℤ} (h : offset.natAbs < 86400) :
    readOffset (offsetText offset).toList = some offset := by
  have hhours := @takeNumber_padNat 2 (offset.natAbs / 3600) (by decide) (by omega)
  have hminutes := @takeNumber_padNat 2 (offset.natAbs / 60 % 60) (by decide) (by omega)
  have hseconds := @takeNumber_padNat 2 (offset.natAbs % 60) (by decide) (by omega) []
  rw [List.append_nil] at hseconds
  rw [toList_offsetText]
  by_cases hneg : offset < 0
  · rw [if_pos hneg]
    simp only [readOffset, Option.bind_eq_bind, Option.bind_some, hhours, expect_cons, hminutes,
      Char.reduceEq, if_false, if_true]
    by_cases hzero : offset.natAbs % 60 = 0
    · simp only [if_pos hzero, if_true, Option.some.injEq]
      omega
    · simp only [if_neg hzero, reduceCtorEq, if_false, expect_cons, Option.bind_some, hseconds,
        if_true, Option.some.injEq]
      omega
  · rw [if_neg hneg]
    simp only [readOffset, Option.bind_eq_bind, Option.bind_some, hhours, expect_cons, hminutes,
      if_true]
    by_cases hzero : offset.natAbs % 60 = 0
    · simp only [if_pos hzero, if_true, Option.some.injEq]
      omega
    · simp only [if_neg hzero, reduceCtorEq, if_false, expect_cons, Option.bind_some, hseconds,
        if_true, Option.some.injEq]
      omega

/-! ## The whole text -/

/-- The offset of a datetime is less than a day. -/
def DateTime.OffsetInRange (t : DateTime) : Prop := t.offset.natAbs < 86400

instance (t : DateTime) : Decidable t.OffsetInRange := inferInstanceAs (Decidable (_ < _))

/-- The microseconds of an ISO text, when it has any. -/
def readFraction : List Char → Option (ℤ × List Char)
  | '.' :: rest => takeNumber 6 rest
  | cs => some (0, cs)

theorem readFraction_fractionText {micro offset : ℤ} (h : 0 ≤ micro ∧ micro < 1000000) :
    readFraction (fractionText micro ++ (offsetText offset).toList) =
      some (micro, (offsetText offset).toList) := by
  unfold fractionText readFraction
  by_cases hzero : micro = 0
  · rw [if_pos hzero, List.nil_append, toList_offsetText]
    subst hzero
    split
    · next hsign =>
      have hdot := (List.cons.inj hsign).1
      split at hdot <;> cases hdot
    · rfl
  · rw [if_neg hzero, List.cons_append]
    have hread := @takeNumber_padNat 6 micro.toNat (by decide) (by omega) (offsetText offset).toList
    rw [Int.toNat_of_nonneg h.1] at hread
    exact hread

/-- The parts of an ISO text, each read where the one before it ends. -/
theorem fromIsoformat_parts {s : String} {year month dom h m sec micro offset : ℤ}
    {monthText domText hourText minuteText secondText fraction offsetText : List Char}
    (hyear : takeNumber 4 s.toList = some (year, '-' :: monthText))
    (hmonth : takeNumber 2 monthText = some (month, '-' :: domText))
    (hdom : takeNumber 2 domText = some (dom, 'T' :: hourText))
    (hhour : takeNumber 2 hourText = some (h, ':' :: minuteText))
    (hminute : takeNumber 2 minuteText = some (m, ':' :: secondText))
    (hsecond : takeNumber 2 secondText = some (sec, fraction))
    (hfraction : readFraction fraction = some (micro, offsetText))
    (hoffset : readOffset offsetText = some offset)
    (hdate : civilFromDays (daysFromCivil year month dom) = (year, month, dom))
    (hclock : h < 24 ∧ m < 60 ∧ sec < 60) :
    fromIsoformat s = some {
      utc := daysFromCivil year month dom * day + h * hour + m * (60 * second) + sec * second +
        micro - offset * second
      offset } := by
  have hend : ∀ cs, readOffset cs = some offset → (do
      let offset ← readOffset cs
      let days := daysFromCivil year month dom
      if civilFromDays days = (year, month, dom) ∧ h < 24 ∧ m < 60 ∧ sec < 60 then
        some ({ utc := days * day + h * hour + m * (60 * second) + sec * second + micro
                          - offset * second
                offset } : DateTime)
      else none) = some {
        utc := daysFromCivil year month dom * day + h * hour + m * (60 * second) + sec * second +
          micro - offset * second
        offset } := fun cs hcs =>
    Text.read_of_eq hcs (if_pos ⟨hdate, hclock⟩)
  unfold fromIsoformat
  refine Text.read_of_eq hyear ?_
  refine Text.read_of_eq (expect_cons _ _) ?_
  refine Text.read_of_eq hmonth ?_
  refine Text.read_of_eq (expect_cons _ _) ?_
  refine Text.read_of_eq hdom ?_
  refine Text.read_of_eq (expect_cons _ _) ?_
  refine Text.read_of_eq hhour ?_
  refine Text.read_of_eq (expect_cons _ _) ?_
  refine Text.read_of_eq hminute ?_
  refine Text.read_of_eq (expect_cons _ _) ?_
  refine Text.read_of_eq hsecond ?_
  unfold readFraction at hfraction
  split at hfraction
  · exact Text.read_of_eq hfraction (hend _ hoffset)
  · next hdot =>
    obtain ⟨rfl, rfl⟩ := Prod.mk.inj (Option.some.inj hfraction)
    dsimp only
    split
    · exact absurd rfl (hdot _)
    · exact hend _ hoffset

/-- **An ISO text is parsed to the datetime it was written from.** -/
theorem fromIsoformat_isoformat {t : DateTime} (hrange : t.InRange) (hoffset : t.OffsetInRange) :
    fromIsoformat (isoformat t) = some t := by
  obtain ⟨hmonth, hdom⟩ := civilFromDays_bounds t.wallDay
  have htime := wallTime_bounds t
  unfold second at htime
  have hyear := @takeNumber_padNat 4 (civilFromDays t.wallDay).1.toNat (by decide) (by
    have := hrange.2
    omega)
  rw [Int.toNat_of_nonneg (by have := hrange.1; omega)] at hyear
  have htext := toList_isoformat t
  simp only [clockText, List.cons_append, List.append_assoc] at htext
  have hhour := @takeNumber_pad2 (t.wallTime / second / 3600) (by unfold second; omega)
  have hminute := @takeNumber_pad2 (t.wallTime / second / 60 % 60) (by omega)
  have hsecond := @takeNumber_pad2 (t.wallTime / second % 60) (by omega)
  have hfraction := @readFraction_fractionText (t.wallTime % second) t.offset (by
    unfold second
    omega)
  have hday := daysFromCivil_civilFromDays t.wallDay
  have hutc : t.wallDay * day + t.wallTime / second / 3600 * hour +
      t.wallTime / second / 60 % 60 * (60 * second) + t.wallTime / second % 60 * second +
        t.wallTime % second - t.offset * second = t.utc := by
    simp only [DateTime.wallDay, DateTime.wallTime, DateTime.wall, day, hour, second]
    omega
  have hstart := (congrArg (takeNumber 4) htext).trans (hyear _)
  rw [fromIsoformat_parts hstart (takeNumber_pad2 hmonth _) (takeNumber_pad2 hdom _)
    (hhour _) (hminute _) (hsecond _) hfraction (readOffset_offsetText hoffset) (by rw [hday])
    ⟨by unfold second; omega, by omega, by omega⟩, hday, hutc]

end Time
