import AegisMerchant.Base.Text
import Mathlib.Order.Lattice

/-!
# Aware datetimes

An aware datetime is an instant together with the UTC offset it is written in. Two of them are
compared by their instants; the offset only decides the fields a reader sees. Years are not bounded
here, so no operation overflows. Nothing here mentions a particular program.
-/

namespace Time

/-- Microseconds in a second, an hour, a day. -/
def second : ℤ := 1000000
def hour : ℤ := 3600 * second
def day : ℤ := 24 * hour

/-- An aware datetime: `utc` in microseconds since the epoch, `offset` in seconds. -/
structure DateTime where
  utc : ℤ
  offset : ℤ := 0
  deriving DecidableEq, Repr

namespace DateTime

/-! ## Order -/

instance : LE DateTime := ⟨fun a b => a.utc ≤ b.utc⟩
instance : LT DateTime := ⟨fun a b => a.utc < b.utc⟩

theorem le_def {a b : DateTime} : a ≤ b ↔ a.utc ≤ b.utc := Iff.rfl
theorem lt_def {a b : DateTime} : a < b ↔ a.utc < b.utc := Iff.rfl

instance (a b : DateTime) : Decidable (a ≤ b) := inferInstanceAs (Decidable (a.utc ≤ b.utc))
instance (a b : DateTime) : Decidable (a < b) := inferInstanceAs (Decidable (a.utc < b.utc))

instance : Preorder DateTime where
  le_refl a := le_refl a.utc
  le_trans _ _ _ h h' := Int.le_trans h h'
  lt_iff_le_not_ge _ _ := Int.lt_iff_le_and_not_ge

@[simp] theorem not_le {a b : DateTime} : ¬a ≤ b ↔ b < a := Int.not_le
@[simp] theorem not_lt {a b : DateTime} : ¬a < b ↔ b ≤ a := Int.not_lt

/-! ## Arithmetic and zones -/

/-- `t + timedelta(microseconds=d)`. -/
def add (t : DateTime) (d : ℤ) : DateTime := { t with utc := t.utc + d }

/-- `t.astimezone(tz)` for a zone of fixed offset. -/
def astimezone (t : DateTime) (offset : ℤ) : DateTime := { t with offset := offset }

@[simp] theorem add_utc (t : DateTime) (d : ℤ) : (t.add d).utc = t.utc + d := rfl
@[simp] theorem astimezone_utc (t : DateTime) (o : ℤ) : (t.astimezone o).utc = t.utc := rfl

/-- The wall-clock reading, in microseconds since the epoch's midnight. -/
def wall (t : DateTime) : ℤ := t.utc + t.offset * second

/-- Days since the epoch, on the wall calendar. -/
def wallDay (t : DateTime) : ℤ := t.wall / day

/-- Microseconds since the wall midnight. -/
def wallTime (t : DateTime) : ℤ := t.wall % day

/-- `t.hour`. -/
def hourOf (t : DateTime) : ℤ := t.wallTime / hour

theorem hourOf_nonneg (t : DateTime) : 0 ≤ t.hourOf := by
  unfold hourOf wallTime day hour second
  omega

theorem hourOf_lt (t : DateTime) : t.hourOf < 24 := by
  unfold hourOf wallTime day hour second
  omega

/-- `t.replace(hour=h, minute=m, second=0, microsecond=0)`, which refuses a field out of range. -/
def replaceTime (t : DateTime) (h m : ℤ) : Option DateTime :=
  if 0 ≤ h ∧ h < 24 ∧ 0 ≤ m ∧ m < 60 then
    some { t with utc := t.utc - t.wallTime + h * hour + m * (60 * second) }
  else none

/-- The instant cut down to the millisecond. -/
def truncateMs (t : DateTime) : DateTime := { utc := t.utc - t.utc % 1000 }

theorem truncateMs_le (t : DateTime) : t.truncateMs ≤ t := by
  show t.utc - t.utc % 1000 ≤ t.utc
  omega

end DateTime

/-! ## The civil calendar -/

/-- Year, month and day of a day number (day `0` is 1970-01-01), in the proleptic Gregorian
calendar. Years are counted from 1 March, so that the leap day is the last one. -/
def civilFromDays (days : ℤ) : ℤ × ℤ × ℤ :=
  let z := days + 719468
  let era := z / 146097
  let dayOfEra := z % 146097
  let yearOfEra := (dayOfEra - dayOfEra / 1460 + dayOfEra / 36524 - dayOfEra / 146096) / 365
  let dayOfYear := dayOfEra - (365 * yearOfEra + yearOfEra / 4 - yearOfEra / 100)
  let m := (5 * dayOfYear + 2) / 153
  let month := if m < 10 then m + 3 else m - 9
  (yearOfEra + era * 400 + (if month ≤ 2 then 1 else 0), month,
    dayOfYear - (153 * m + 2) / 5 + 1)

/-- The day number of a civil date. -/
def daysFromCivil (year month dayOfMonth : ℤ) : ℤ :=
  let y := if month ≤ 2 then year - 1 else year
  let era := y / 400
  let yearOfEra := y % 400
  let m := if 2 < month then month - 3 else month + 9
  let dayOfYear := (153 * m + 2) / 5 + dayOfMonth - 1
  let dayOfEra := yearOfEra * 365 + yearOfEra / 4 - yearOfEra / 100 + dayOfYear
  era * 146097 + dayOfEra - 719468

/-! ## ISO 8601 text -/

def pad2 (n : ℤ) : String := Text.padNat 2 n.toNat

/-- `±HH:MM`, with the seconds when there are any. -/
def offsetText (offset : ℤ) : String :=
  let a := offset.natAbs
  (if offset < 0 then "-" else "+") ++ Text.padNat 2 (a / 3600) ++ ":" ++
    Text.padNat 2 (a / 60 % 60) ++ (if a % 60 = 0 then "" else ":" ++ Text.padNat 2 (a % 60))

/-- `t.isoformat()`. -/
def isoformat (t : DateTime) : String :=
  let (year, month, dom) := civilFromDays t.wallDay
  let s := t.wallTime / second
  let micro := t.wallTime % second
  Text.padNat 4 year.toNat ++ "-" ++ pad2 month ++ "-" ++ pad2 dom ++ "T" ++ pad2 (s / 3600) ++
    ":" ++ pad2 (s / 60 % 60) ++ ":" ++ pad2 (s % 60) ++
    (if micro = 0 then "" else "." ++ Text.padNat 6 micro.toNat) ++ offsetText t.offset

/-- `t.strftime("%H:%M")`. -/
def hourMinute (t : DateTime) : String :=
  pad2 t.hourOf ++ ":" ++ pad2 (t.wallTime / (60 * second) % 60)

/-- A run of decimal digits as a number, none when another character occurs. -/
def readDigits (cs : List Char) : Option ℤ :=
  cs.foldlM (fun n c => if c.isDigit then some (n * 10 + (c.toNat - 48 : ℕ)) else none) 0

/-- The number written in `width` digits at the front, and what follows it. -/
def takeNumber (width : ℕ) (cs : List Char) : Option (ℤ × List Char) :=
  if width ≤ cs.length then (readDigits (cs.take width)).map (·, cs.drop width) else none

/-- Drop one expected character. -/
def expect (c : Char) : List Char → Option (List Char)
  | d :: cs => if d = c then some cs else none
  | [] => none

/-- The offset part of an ISO text: `±HH:MM` or `±HH:MM:SS`, and nothing after it. -/
def readOffset : List Char → Option ℤ
  | sign :: cs => do
    let sgn : ℤ ← if sign = '+' then some 1 else if sign = '-' then some (-1) else none
    let (h, cs) ← takeNumber 2 cs
    let (m, cs) ← takeNumber 2 (← expect ':' cs)
    if cs = [] then some (sgn * (h * 3600 + m * 60))
    else
      let (s, cs) ← takeNumber 2 (← expect ':' cs)
      if cs = [] then some (sgn * (h * 3600 + m * 60 + s)) else none
  | [] => none

/-- `datetime.fromisoformat` on the texts `isoformat` writes for an aware datetime. -/
def fromIsoformat (s : String) : Option DateTime := do
  let (year, cs) ← takeNumber 4 s.toList
  let (month, cs) ← takeNumber 2 (← expect '-' cs)
  let (dom, cs) ← takeNumber 2 (← expect '-' cs)
  let (h, cs) ← takeNumber 2 (← expect 'T' cs)
  let (m, cs) ← takeNumber 2 (← expect ':' cs)
  let (sec, cs) ← takeNumber 2 (← expect ':' cs)
  let (micro, cs) ←
    match cs with
    | '.' :: rest => takeNumber 6 rest
    | _ => some (0, cs)
  let offset ← readOffset cs
  let days := daysFromCivil year month dom
  -- a date that does not exist is refused, and so is a time of day out of range
  if civilFromDays days = (year, month, dom) ∧ h < 24 ∧ m < 60 ∧ sec < 60 then
    some { utc := days * day + h * hour + m * (60 * second) + sec * second + micro
                    - offset * second
           offset }
  else none

example : isoformat { utc := 1788364800123456, offset := 19800 } =
    "2026-09-02T21:30:00.123456+05:30" := by decide +kernel

example : fromIsoformat "2026-09-02T20:30:00+05:30" =
    some { utc := 1788361200000000, offset := 19800 } := by decide +kernel

end Time
