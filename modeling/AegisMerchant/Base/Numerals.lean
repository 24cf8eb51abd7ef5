import AegisMerchant.Base.Text
import Mathlib.Algebra.Order.Ring.Rat
import Mathlib.Data.Int.Notation

/-!
# Numbers read from texts

`int(text)`: blanks around the number, a sign, digits of any script with single underscores between
them, and no more digits than the interpreter converts. `float(text)` reads the same digits, with a
point and a power of ten. Nothing here mentions a particular program.
-/

namespace Text

/-- The zeros of the decimal digits of Unicode. The nine characters after each are the others. -/
def digitZeros : List ℕ :=
  [0x30, 0x660, 0x6F0, 0x7C0, 0x966, 0x9E6, 0xA66, 0xAE6, 0xB66, 0xBE6, 0xC66, 0xCE6, 0xD66, 0xDE6,
    0xE50, 0xED0, 0xF20, 0x1040, 0x1090, 0x17E0, 0x1810, 0x1946, 0x19D0, 0x1A80, 0x1A90, 0x1B50,
    0x1BB0, 0x1C40, 0x1C50, 0xA620, 0xA8D0, 0xA900, 0xA9D0, 0xA9F0, 0xAA50, 0xABF0, 0xFF10, 0x104A0,
    0x10D30, 0x11066, 0x110F0, 0x11136, 0x111D0, 0x112F0, 0x11450, 0x114D0, 0x11650, 0x116C0, 0x11730,
    0x118E0, 0x11950, 0x11C50, 0x11D50, 0x11DA0, 0x16A60, 0x16AC0, 0x16B50, 0x1D7CE, 0x1D7D8, 0x1D7E2,
    0x1D7EC, 0x1D7F6, 0x1E140, 0x1E2F0, 0x1E950, 0x1FBF0]

/-- `unicodedata.decimal`. -/
def decimal? (c : Char) : Option ℕ :=
  (digitZeros.find? fun z => z ≤ c.toNat ∧ c.toNat ≤ z + 9).map (c.toNat - ·)

/-- A character as `int` sees it: beyond ASCII, digits and spaces stand for those of ASCII. -/
def numeralChar (c : Char) : Char :=
  if c.toNat < 127 then c
  else if isSpace c then ' '
  else ((decimal? c).map Nat.digitChar).getD '?'

/-- The blanks that may stand around a number: fewer than `str.strip` removes. -/
def isBlank (c : Char) : Bool := (9 ≤ c.toNat && c.toNat ≤ 13) || c == ' '

/-- A text without the blanks around it, in ASCII. -/
def numeral (s : String) : List Char :=
  (((s.toList.map numeralChar).dropWhile isBlank).reverse.dropWhile isBlank).reverse

/-- The digits of a run in which single underscores may stand between two digits. -/
def digitsOf : Bool → List Char → Option (List Char)
  | afterDigit, [] => if afterDigit then some [] else none
  | afterDigit, c :: cs =>
    if c.isDigit then (digitsOf true cs).map (c :: ·)
    else if c = '_' ∧ afterDigit = true then digitsOf false cs
    else none

/-- `sys.int_info.default_max_str_digits`. -/
def maxDigits : ℕ := 4300

def natOf? (cs : List Char) : Option ℕ := do
  let digits ← digitsOf false cs
  if digits.length ≤ maxDigits then some (Nat.ofDigitChars 10 digits 0) else none

/-- `int(text)`; none for its `ValueError`. -/
def int? (s : String) : Option ℤ :=
  match numeral s with
  | '-' :: cs => (natOf? cs).map fun n => -(n : ℤ)
  | '+' :: cs => (natOf? cs).map fun n => (n : ℤ)
  | cs => (natOf? cs).map fun n => (n : ℤ)

example : ["+0", " 1_000\n", "-٣", "1__0", "+ 1", "1.0", ""].map int? =
    [some 0, some 1000, some (-3), none, none, none, none] := by decide +kernel

def digitsOrNone (cs : List Char) : Option (List Char) :=
  if cs = [] then some [] else digitsOf false cs

/-- The sign of a number, and the number behind it. -/
def signed : List Char → ℤ × List Char
  | '-' :: cs => (-1, cs)
  | '+' :: cs => (1, cs)
  | cs => (1, cs)

/-- `float(text)`, exactly; none for its `ValueError` and for the texts of what is no number. -/
def float? (s : String) : Option ℚ := do
  let (sign, cs) := signed (numeral s)
  let mantissa := cs.takeWhile fun c => !(c == 'e' || c == 'E')
  let whole ← digitsOrNone (mantissa.takeWhile (· ≠ '.'))
  let fraction ← digitsOrNone ((mantissa.dropWhile (· ≠ '.')).drop 1)
  let power ←
    match cs.drop mantissa.length with
    | [] => some 0
    | _ :: cs =>
      let (sign, cs) := signed cs
      (digitsOf false cs).map fun digits => sign * (Nat.ofDigitChars 10 digits 0 : ℤ)
  if whole = [] ∧ fraction = [] then none
  else some (sign * (Nat.ofDigitChars 10 (whole ++ fraction) 0 : ℕ) *
    (10 : ℚ) ^ (power - fraction.length))

example : ["0.05", " -1_0.\n", ".5e+1", "2E-2", ".", "1e", "1_.5", ""].map float? =
    [some (1 / 20), some (-10), some 5, some (1 / 50), none, none, none, none] := by decide +kernel

end Text
