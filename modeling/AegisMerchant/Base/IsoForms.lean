import AegisMerchant.Base.TimeRead

/-!
# The other texts `datetime.fromisoformat` reads

A date with or without its dashes, or a week and its day; a character of any kind; a time with or
without its colons, cut off where it likes; and a zone, or none. The reader of `Base.Time` reads what
`isoformat` writes; `readIso` reads that and, where it reads nothing, what the interpreter's own
scanner makes of the text. A text without a zone is read in UTC, and no part of an offset below a
second is kept.
-/

namespace Time

/-- How many characters of a text are its date. -/
def dateEnd (cs : List Char) : Option ℕ :=
  if cs.length < 7 then none
  else if cs.length = 7 then some 7
  else if cs[4]? = some '-' then
    if cs[5]? = some 'W' then
      if cs[8]? = some '-' then
        -- a dash and digits behind a week: taken for a time behind a dash
        if cs.length = 9 then none
        else if cs[10]?.any Char.isDigit then some 8
        else some 10
      else some 8
    else some 10
  else if cs[4]? = some 'W' then
    let digits := ((cs.drop 7).takeWhile Char.isDigit).length
    if digits < 2 then some (7 + digits)
    else if digits % 2 = 1 then some 7
    else some 8
  else some 8

/-- The Monday of the first week of a year, in days. -/
def firstMonday (year : ℤ) : ℤ :=
  let first := daysFromCivil year 1 1
  let weekday := (first + 3) % 7
  if weekday ≤ 3 then first - weekday else first - weekday + 7

/-- A day of a week of a year. -/
def isoWeek (year week weekday : ℤ) : Option ℤ :=
  let days := firstMonday year + (week - 1) * 7 + (weekday - 1)
  if 1 ≤ year ∧ 1 ≤ week ∧ firstMonday year + (week - 1) * 7 < firstMonday (year + 1) ∧
      1 ≤ weekday ∧ weekday ≤ 7 then some days
  else none

def dash (dashed : Bool) (cs : List Char) : Option (List Char) :=
  if dashed then expect '-' cs else some cs

def readDate (cs : List Char) : Option ℤ := do
  let (year, cs) ← takeNumber 4 cs
  let dashed := cs.head? == some '-'
  let cs ← dash dashed cs
  let days ←
    match cs with
    | 'W' :: cs => do
      let (week, cs) ← takeNumber 2 cs
      if cs = [] then isoWeek year week 1
      else isoWeek year week (← takeNumber 1 (← dash dashed cs)).1
    | cs => do
      let (month, cs) ← takeNumber 2 cs
      let (dom, _) ← takeNumber 2 (← dash dashed cs)
      let days := daysFromCivil year month dom
      if civilFromDays days = (year, month, dom) then some days else none
  if 1 ≤ (civilFromDays days).1 ∧ (civilFromDays days).1 ≤ 9999 then some days else none

/-- A fraction of a second in microseconds, and what stands behind its digits. -/
def readMicros (cs : List Char) : Option (ℤ × List Char) := do
  let width := min 6 cs.length
  let (n, cs) ← takeNumber width cs
  return (n * 10 ^ (6 - width), cs.dropWhile Char.isDigit)

/-- Up to `parts` numbers of two digits and a fraction, each worth so many microseconds less than the
one before, and what was not read. -/
def readClock : ℕ → Option Bool → List ℤ → List Char → Option (List ℤ × ℤ × List Char)
  | 0, _, read, cs => do
    let (micros, cs) ← readMicros cs
    return (read.reverse, micros, cs)
  | parts + 1, colons, read, cs => do
    let (n, cs) ← takeNumber 2 cs
    let colons := colons.getD (cs.head? == some ':')
    match cs with
    | c :: d :: rest =>
      if colons && c == ':' then readClock parts (some colons) (n :: read) (d :: rest)
      else if c == '.' || c == ',' then readClock 0 (some colons) (n :: read) (d :: rest)
      else if colons then none
      else readClock parts (some colons) (n :: read) (c :: d :: rest)
    | cs => return ((n :: read).reverse, 0, cs)

/-- The hours, minutes and seconds that were read, in seconds. -/
def inSeconds (read : List ℤ) : ℤ :=
  read.getD 0 0 * 3600 + read.getD 1 0 * 60 + read.getD 2 0

/-- The microseconds of a time of day, and the seconds of its offset. -/
def readTime (cs : List Char) : Option (ℤ × ℤ) := do
  let clock := cs.takeWhile fun c => !(c == '+' || c == '-' || c == 'Z')
  let (read, micros, left) ← readClock 3 none [] clock
  let offset ←
    match cs.drop clock.length with
    | [] => if left = [] then some 0 else none
    | 'Z' :: zone => if zone = [] then some 0 else none
    | sign :: zone => do
      let (read, _, left) ← readClock 3 none [] zone
      if left = [] then some (if sign = '-' then -inSeconds read else inSeconds read) else none
  if read.getD 0 0 < 24 ∧ read.getD 1 0 < 60 ∧ read.getD 2 0 < 60 ∧
      -86400 < offset ∧ offset < 86400 then
    some (inSeconds read * second + micros, offset)
  else none

/-- A date, one character, and a time. -/
def readForms (s : String) : Option DateTime := do
  let cs := s.toList
  let ending ← dateEnd cs
  let days ← readDate (cs.take ending)
  let (micros, offset) ← if cs.length = ending then some (0, 0)
    else readTime (cs.drop (ending + 1))
  return { utc := days * day + micros - offset * second, offset }

/-- `datetime.fromisoformat`; none for its `ValueError`. -/
def readIso (s : String) : Option DateTime :=
  ((fromIsoformat s).filter fun t => t.InRange ∧ t.OffsetInRange) <|> readForms s

/-- What `isoformat` wrote is read back. -/
theorem readIso_isoformat {t : DateTime} (hrange : t.InRange) (hoffset : t.OffsetInRange) :
    readIso (isoformat t) = some t := by
  rw [readIso, fromIsoformat_isoformat hrange hoffset, Option.filter_some,
    if_pos (decide_eq_true ⟨hrange, hoffset⟩)]
  rfl

end Time
