import AegisMerchant.Base.TimeOrder
import AegisMerchant.Tools.ChainPins

/-!
# The timestamp column

An instant is stored as the text `YYYY-MM-DDTHH:MM:SS.sssZ`, in UTC and cut down to the millisecond.
While the year takes four digits the texts are of one width: they read back, and they sort as the
instants do.

`length_toDbIso`, `fromDbIso_toDbIso` and `toDbIso_lt_iff` are the three laws of the column: its
width, its round trip (`processResultValue_processBindParam`) and its order.
-/

namespace AegisMerchant

open Time

namespace DbTypes

/-! ## Writing -/

/-- A datetime as a caller hands it over: a bare wall clock, or one with a zone. -/
inductive PyDatetime where
  | naive (wall : ℤ)
  | aware (t : DateTime)

inductive TypeError where
  | valueError (message : String)
  | overflowError (message : String)
  deriving DecidableEq

/-- `repr` of a bare wall clock. The seconds are left out when nothing is in them or after them. -/
def naiveRepr (wall : ℤ) : String :=
  let t : DateTime := { utc := wall }
  let (year, month, dom) := civilFromDays t.wallDay
  let s := t.wallTime / second
  let micro := t.wallTime % second
  let fields := [year, month, dom, s / 3600, s / 60 % 60] ++
    if micro ≠ 0 then [s % 60, micro] else if s % 60 ≠ 0 then [s % 60] else []
  "datetime.datetime(" ++ ", ".intercalate (fields.map toString) ++ ")"

def toDbIso : PyDatetime → Except TypeError String
  | .naive wall => .error (.valueError ("naive datetime rejected at the database boundary: " ++
      naiveRepr wall ++ ". Use clock.now_utc() / clock.now_ist(), never a bare datetime."))
  -- `astimezone` has no year to write outside the ones a datetime can hold
  | .aware value => if (value.astimezone 0).InRange then .ok (AegisMerchant.toDbIso value)
      else .error (.overflowError "date value out of range")

/-! ## Reading -/

/-- One or more digits in front, at most `width` of them, with a value from `lo` to `hi`. -/
def readField (width : ℕ) (lo hi : ℤ) (cs : List Char) : Option (ℤ × List Char) := do
  let digits := cs.takeWhile (·.isDigit)
  let n ← readDigits digits
  if digits ≠ [] ∧ digits.length ≤ width ∧ lo ≤ n ∧ n ≤ hi then
    some (n, cs.dropWhile (·.isDigit))
  else none

/-- `%d`, which takes a blank for the first digit too. -/
def readDayOfMonth : List Char → Option (ℤ × List Char)
  | ' ' :: cs => readField 1 1 9 cs
  | cs => readField 2 1 31 cs

/-- `%f`: up to six digits, filled up with zeros behind. -/
def readMicrosecond (cs : List Char) : Option (ℤ × List Char) := do
  let (n, rest) ← readField 6 0 999999 cs
  some (n * 10 ^ (6 - (cs.length - rest.length)), rest)

/-- A letter of the format, which matches in either case. -/
def expectLetter (c : Char) : List Char → Option (List Char)
  | d :: cs => if d.toUpper = c then some cs else none
  | [] => none

/-- `from_db_iso`: `strptime` with `_READ_FMT`, in UTC. -/
def fromDbIso (value : String) : Option DateTime := do
  let (year, cs) ← takeNumber 4 value.toList
  let (month, cs) ← readField 2 1 12 (← expect '-' cs)
  let (dom, cs) ← readDayOfMonth (← expect '-' cs)
  let (h, cs) ← readField 2 0 23 (← expectLetter 'T' cs)
  let (m, cs) ← readField 2 0 59 (← expect ':' cs)
  let (sec, cs) ← readField 2 0 59 (← expect ':' cs)
  let (micro, cs) ← readMicrosecond (← expect '.' cs)
  let rest ← expectLetter 'Z' cs
  let days := daysFromCivil year month dom
  -- a date that does not exist is refused, and so is what is left over
  if rest = [] ∧ 1 ≤ year ∧ civilFromDays days = (year, month, dom) then
    some { utc := days * day + h * hour + m * (60 * second) + sec * second + micro }
  else none

/-! ## The column -/

/-- What a driver hands back: nothing, a datetime, or anything else by its `str`. -/
inductive DriverValue where
  | null
  | datetime (value : PyDatetime)
  | other (str : String)

def processBindParam : Option PyDatetime → Except TypeError (Option String)
  | none => .ok none
  | some value => (toDbIso value).map some

/-- `process_result_value`, none when the text cannot be read. -/
def processResultValue : DriverValue → Option (Option DateTime)
  | .null => some none
  | .datetime (.aware t) => some (some t)
  | .datetime (.naive wall) => some (some { utc := wall })
  | .other str => (fromDbIso str).map some

/-! ## Years of four digits -/

/-- The year of an instant, in UTC, takes four digits. -/
def FourDigits (t : DateTime) : Prop :=
  1000 ≤ (civilFromDays (t.astimezone 0).wallDay).1 ∧
    (civilFromDays (t.astimezone 0).wallDay).1 ≤ 9999

instance (t : DateTime) : Decidable (FourDigits t) := inferInstanceAs (Decidable (_ ∧ _))

theorem inRange_of_fourDigits {t : DateTime} (h : FourDigits t) : (t.astimezone 0).InRange :=
  ⟨by have := h.1; omega, h.2⟩

/-- An instant is stored while its year is one a datetime can hold. -/
theorem toDbIso_ok_iff {t : DateTime} :
    (∃ s, toDbIso (.aware t) = .ok s) ↔ (t.astimezone 0).InRange := by
  by_cases hrange : (t.astimezone 0).InRange
  · exact ⟨fun _ => hrange, fun _ => ⟨_, if_pos hrange⟩⟩
  · have herror : toDbIso (.aware t) = .error (.overflowError "date value out of range") :=
      if_neg hrange
    refine ⟨fun ⟨s, hs⟩ => ?_, fun h => absurd h hrange⟩
    rw [herror] at hs
    cases hs

theorem toDbIso_aware {t : DateTime} (h : FourDigits t) :
    toDbIso (.aware t) = .ok (AegisMerchant.toDbIso t) :=
  if_pos (inRange_of_fourDigits h)

/-- A number of four digits is padded to itself. -/
theorem toString_fourDigits {n : ℤ} (h : 1000 ≤ n ∧ n ≤ 9999) :
    (toString n).toList = (Text.padNat 4 n.toNat).toList := by
  obtain ⟨m, rfl⟩ := Int.eq_ofNat_of_zero_le (show 0 ≤ n by omega)
  have hlength : 3 < (Nat.toDigits 10 m).length := by
    have := (Nat.length_toDigits_le_iff (by decide : 1 < 10) (by decide : 0 < 3)).not.mpr
      (show ¬m < 10 ^ 3 by omega)
    omega
  have hzero : 4 - (Nat.toDigits 10 m).length = 0 := by omega
  rw [Text.toList_padNat, Int.toNat_natCast, hzero]
  exact Nat.toList_repr

/-- The storage text, field by field. -/
theorem toList_toDbIso {t : DateTime} (h : FourDigits t) :
    (AegisMerchant.toDbIso t).toList =
      (Text.padNat 4 (civilFromDays (t.astimezone 0).wallDay).1.toNat).toList ++
        (clockText (t.astimezone 0) ++
          '.' :: ((Text.padNat 3 ((t.astimezone 0).wallTime % second / 1000).toNat).toList ++
            ['Z'])) := by
  rw [AegisMerchant.toList_toDbIso, toString_fourDigits h]

/-- **A storage text is of 24 characters.** -/
theorem length_toDbIso {t : DateTime} (h : FourDigits t) :
    (AegisMerchant.toDbIso t).length = 24 := by
  have hyear := @Text.length_padNat 4 (civilFromDays (t.astimezone 0).wallDay).1.toNat
    (by decide) (by have := h.2; omega)
  have hmillis := @Text.length_padNat 3 ((t.astimezone 0).wallTime % second / 1000).toNat
    (by decide) (by unfold second; omega)
  rw [← String.length_toList, toList_toDbIso h]
  simp only [List.length_append, List.length_cons, List.length_nil, length_clockText, hyear, hmillis]

/-! ## Reading back -/

/-- A padded number is read up to what is no digit. -/
theorem readField_padNat {width w n : ℕ} {lo hi : ℤ} {c : Char} {rest : List Char} (hw : 0 < w)
    (hn : n < 10 ^ w) (hwidth : w ≤ width) (hlo : lo ≤ n) (hhi : n ≤ hi)
    (hc : c.isDigit = false) :
    readField width lo hi ((Text.padNat w n).toList ++ c :: rest) = some ((n : ℤ), c :: rest) := by
  have hdigits : ∀ d ∈ (Text.padNat w n).toList, d.isDigit = true :=
    fun d => Text.isDigit_of_mem_padNat
  have hlength := Text.length_padNat hw hn
  have htake : ((Text.padNat w n).toList ++ c :: rest).takeWhile (·.isDigit) =
      (Text.padNat w n).toList := by
    rw [List.takeWhile_append_of_pos hdigits, List.takeWhile_cons_of_neg (by rw [hc]; decide),
      List.append_nil]
  have hdrop : ((Text.padNat w n).toList ++ c :: rest).dropWhile (·.isDigit) = c :: rest := by
    rw [List.dropWhile_append_of_pos hdigits, List.dropWhile_cons_of_neg (by rw [hc]; decide)]
  have hread := readDigits_eq hdigits
  rw [Text.ofDigitChars_padNat] at hread
  have hne : (Text.padNat w n).toList ≠ [] := by
    intro hnil
    rw [hnil] at hlength
    exact absurd hlength.symm hw.ne'
  unfold readField
  rw [htake, hdrop]
  exact Text.read_of_eq hread (if_pos ⟨hne, by omega, hlo, hhi⟩)

theorem readField_pad2 {n lo hi : ℤ} {c : Char} (rest : List Char) (h0 : 0 ≤ n) (hn : n < 100)
    (hlo : lo ≤ n) (hhi : n ≤ hi) (hc : c.isDigit = false) :
    readField 2 lo hi ((pad2 n).toList ++ c :: rest) = some (n, c :: rest) := by
  obtain ⟨m, rfl⟩ := Int.eq_ofNat_of_zero_le h0
  exact readField_padNat (by decide) (by omega) le_rfl hlo hhi hc

theorem readDayOfMonth_pad2 {n : ℤ} {c : Char} (rest : List Char) (hn : 1 ≤ n ∧ n ≤ 31)
    (hc : c.isDigit = false) :
    readDayOfMonth ((pad2 n).toList ++ c :: rest) = some (n, c :: rest) := by
  have hread := @readField_pad2 n 1 31 c rest (by omega) (by omega) hn.1 hn.2 hc
  unfold readDayOfMonth
  split
  · next cs hblank =>
    -- the first character is a digit
    have hne : (pad2 n).toList ≠ [] := by
      intro hnil
      have hlength := length_pad2 (show n < 100 by omega)
      rw [hnil] at hlength
      cases hlength
    obtain ⟨d, ds, hds⟩ := List.exists_cons_of_ne_nil hne
    rw [hds, List.cons_append, List.cons.injEq] at hblank
    have hdigit := @isDigit_of_mem_pad2 n d (by rw [hds]; exact List.mem_cons_self)
    rw [hblank.1] at hdigit
    exact absurd hdigit (by decide)
  · exact hread

theorem expectLetter_self {c : Char} (h : c.toUpper = c) (rest : List Char) :
    expectLetter c (c :: rest) = some rest :=
  if_pos h

/-- The milliseconds are read as microseconds. -/
theorem readMicrosecond_padNat {n : ℕ} (hn : n < 1000) :
    readMicrosecond ((Text.padNat 3 n).toList ++ ['Z']) = some ((n : ℤ) * 1000, ['Z']) := by
  have hlength := Text.length_padNat (show 0 < 3 by decide) hn
  have hread := @readField_padNat 6 3 n 0 999999 'Z' [] (by decide) hn (by decide) (by omega)
    (by omega) (by decide)
  unfold readMicrosecond
  refine Text.read_of_eq hread ?_
  simp only [List.length_append, hlength, List.length_cons, List.length_nil, Option.some.injEq,
    Prod.mk.injEq, and_true]
  norm_num

/-- **A storage text is read back as the instant, cut down to the millisecond.** -/
theorem fromDbIso_toDbIso {t : DateTime} (h : FourDigits t) :
    fromDbIso (AegisMerchant.toDbIso t) = some (dbTime t) := by
  obtain ⟨hmonth, hdom⟩ := civilFromDays_fields (t.astimezone 0).wallDay
  have htime := wallTime_bounds (t.astimezone 0)
  unfold second at htime
  have htext := toList_toDbIso h
  simp only [clockText, List.cons_append, List.append_assoc] at htext
  have hyear := @takeNumber_padNat 4 (civilFromDays (t.astimezone 0).wallDay).1.toNat (by decide)
    (by have := h.2; omega)
  rw [Int.toNat_of_nonneg (by have := h.1; omega)] at hyear
  have hdate := daysFromCivil_civilFromDays (t.astimezone 0).wallDay
  unfold fromDbIso
  rw [htext]
  refine Text.read_of_eq (hyear _) ?_
  refine Text.read_of_eq (expect_cons _ _) ?_
  refine Text.read_of_eq (readField_pad2 _ (by omega) (by omega) hmonth.1 hmonth.2 (by decide)) ?_
  refine Text.read_of_eq (expect_cons _ _) ?_
  refine Text.read_of_eq (readDayOfMonth_pad2 _ hdom (by decide)) ?_
  refine Text.read_of_eq (@expectLetter_self 'T' (by decide) _) ?_
  refine Text.read_of_eq (readField_pad2 _ (by unfold second; omega) (by unfold second; omega)
    (by unfold second; omega) (by unfold second; omega) (by decide)) ?_
  refine Text.read_of_eq (expect_cons _ _) ?_
  refine Text.read_of_eq (readField_pad2 _ (by omega) (by omega) (by omega) (by omega)
    (by decide)) ?_
  refine Text.read_of_eq (expect_cons _ _) ?_
  refine Text.read_of_eq (readField_pad2 _ (by omega) (by omega) (by omega) (by omega)
    (by decide)) ?_
  refine Text.read_of_eq (expect_cons _ _) ?_
  refine Text.read_of_eq (readMicrosecond_padNat (by unfold second; omega)) ?_
  refine Text.read_of_eq (@expectLetter_self 'Z' (by decide) _) ?_
  have hms : ((((t.astimezone 0).wallTime % second / 1000).toNat : ℕ) : ℤ) =
      (t.astimezone 0).wallTime % second / 1000 := Int.toNat_of_nonneg (by unfold second; omega)
  refine (if_pos ⟨rfl, by have := h.1; omega, by rw [hdate]⟩).trans ?_
  rw [hdate, hms]
  simp only [dbTime, DateTime.truncateMs, Option.some.injEq, DateTime.mk.injEq, and_true,
    DateTime.wallDay, DateTime.wallTime, DateTime.wall, DateTime.astimezone, day, hour, second]
  omega

/-- What the column stores it gives back, cut down to the millisecond. -/
theorem processResultValue_processBindParam {t : DateTime} (h : FourDigits t) :
    ∃ s, processBindParam (some (.aware t)) = .ok (some s) ∧
      processResultValue (.other s) = some (some (dbTime t)) := by
  refine ⟨AegisMerchant.toDbIso t, ?_, ?_⟩
  · simp only [processBindParam, toDbIso_aware h, Except.map]
  · simp only [processResultValue, fromDbIso_toDbIso h, Option.map_some]

/-! ## Order -/

/-- An earlier millisecond is written in an earlier text. -/
theorem toDbIso_lt {t t' : DateTime} (h : FourDigits t) (h' : FourDigits t')
    (hlt : dbTime t < dbTime t') : AegisMerchant.toDbIso t < AegisMerchant.toDbIso t' := by
  have hutc : t.utc / 1000 < t'.utc / 1000 := by
    have : t.utc - t.utc % 1000 < t'.utc - t'.utc % 1000 := hlt
    omega
  rw [String.lt_iff_toList_lt, toList_toDbIso h, toList_toDbIso h']
  have hyears := h.1
  have hyears' := h'.2
  apply Text.padNat_append_lt (by omega)
  rcases lt_trichotomy (t.astimezone 0).wallDay (t'.astimezone 0).wallDay with hday | hday | hday
  · rcases civilFromDays_lt hday with hyear | ⟨hyear, hdate⟩
    · exact .inl (by omega)
    · refine .inr ⟨congrArg Int.toNat hyear, clockText_append_lt ?_⟩
      exact hdate.imp_right (And.imp_right .inl)
  · refine .inr ⟨by rw [hday], clockText_append_lt (.inr ⟨by rw [hday], .inr ⟨by rw [hday], ?_⟩⟩)⟩
    have htime : (t.astimezone 0).wallTime / 1000 < (t'.astimezone 0).wallTime / 1000 := by
      simp only [DateTime.wallDay, DateTime.wallTime, DateTime.wall, DateTime.astimezone, day, hour,
        second] at hday ⊢
      omega
    generalize (t.astimezone 0).wallTime = w at htime
    generalize (t'.astimezone 0).wallTime = w' at htime
    unfold second
    rcases lt_or_eq_of_le (show w / 1000000 ≤ w' / 1000000 by omega) with hsecond | hsecond
    · exact .inl hsecond
    · refine .inr ⟨hsecond, List.Lex.cons (Text.padNat_append_lt (by omega) (.inl (by omega)))⟩
  · exfalso
    simp only [DateTime.wallDay, DateTime.wall, DateTime.astimezone, day, hour, second] at hday
    omega

/-- **The texts are in the order of the instants, cut down to the millisecond.** -/
theorem toDbIso_lt_iff {t t' : DateTime} (h : FourDigits t) (h' : FourDigits t') :
    AegisMerchant.toDbIso t < AegisMerchant.toDbIso t' ↔ dbTime t < dbTime t' := by
  refine ⟨fun hlt => ?_, toDbIso_lt h h'⟩
  by_contra hle
  rw [DateTime.not_lt] at hle
  rcases lt_or_eq_of_le (show (dbTime t').utc ≤ (dbTime t).utc from hle) with hgt | heq
  · exact lt_asymm hlt (toDbIso_lt h' h hgt)
  · have hsame : dbTime t = dbTime t' := DateTime.mk.injEq _ _ _ _ ▸ ⟨heq.symm, rfl⟩
    rw [← toDbIso_dbTime t, hsame, toDbIso_dbTime] at hlt
    exact lt_irrefl _ hlt

theorem toDbIso_le_iff {t t' : DateTime} (h : FourDigits t) (h' : FourDigits t') :
    AegisMerchant.toDbIso t ≤ AegisMerchant.toDbIso t' ↔ dbTime t ≤ dbTime t' := by
  rw [← not_lt, toDbIso_lt_iff h' h, DateTime.not_lt]

end DbTypes

end AegisMerchant
