import Mathlib.Data.List.Basic
import Mathlib.Data.Nat.Digits.Defs

/-!
# Text

The string operations of a Python program that a model has to compute: lowercasing, stripping,
zero padding, digit grouping and `repr`. Each works on the character list, so that a result on a
concrete string is settled by `decide`. Nothing here mentions a particular program.
-/

namespace Text

/-! ## Letter case -/

/-- `str.lower` on one character. Outside ASCII only the two characters whose lowercase form
contains an ASCII letter are mapped: no other one can make a lowered text equal to, or contain,
an ASCII word. -/
def lowerChar (c : Char) : List Char :=
  if c.val = 0x212A then ['k']
  else if c.val = 0x130 then ['i', Char.ofNat 0x307]
  else [c.toLower]

def lower (s : String) : String := String.ofList (s.toList.flatMap lowerChar)

@[simp] theorem toList_lower (s : String) : (lower s).toList = s.toList.flatMap lowerChar := by
  simp [lower]

/-- Lowercasing is done character by character. -/
theorem lower_append (s t : String) : lower (s ++ t) = lower s ++ lower t := by
  rw [← String.toList_inj]
  simp

/-! ## Whitespace -/

/-- The characters `str.isspace` accepts, which are the ones `str.strip` removes. -/
def isSpace (c : Char) : Bool :=
  let n := c.toNat
  (9 ≤ n && n ≤ 13) || (28 ≤ n && n ≤ 32) || n == 0x85 || n == 0xA0 || n == 0x1680 ||
    (0x2000 ≤ n && n ≤ 0x200A) || n == 0x2028 || n == 0x2029 || n == 0x202F || n == 0x205F ||
    n == 0x3000

/-- `str.strip` without arguments. -/
def strip (s : String) : String :=
  String.ofList (((s.toList.dropWhile isSpace).reverse.dropWhile isSpace).reverse)

/-- `s[:n]`. -/
def slice (n : Nat) (s : String) : String := String.ofList (s.toList.take n)

/-- `needle in haystack`. -/
def Contains (needle haystack : String) : Prop := needle.toList <:+: haystack.toList

instance (needle haystack : String) : Decidable (Contains needle haystack) :=
  inferInstanceAs (Decidable (needle.toList <:+: haystack.toList))

/-! ## Numbers as text -/

/-- `f"{n:0{width}d}"` for a natural number. -/
def padNat (width n : Nat) : String :=
  let digits := toString n
  String.ofList (List.replicate (width - digits.length) '0') ++ digits

/-- Put a comma after every third digit, the digits listed from the least significant one. -/
def groupDigits : List Char → List Char
  | a :: b :: c :: d :: rest => a :: b :: c :: ',' :: groupDigits (d :: rest)
  | rest => rest

/-- `f"{n:,d}"`. -/
def thousands (n : Int) : String :=
  let digits := String.ofList (groupDigits (toString n.natAbs).toList.reverse).reverse
  if n < 0 then "-" ++ digits else digits

/-! ## `repr` -/

/-- One lowercase hexadecimal digit. -/
def hexDigit (n : Nat) : Char := Nat.digitChar (n % 16)

/-- `repr` of one character inside a string quoted by `quote`. Characters beyond ASCII are taken to
be printable. -/
def reprChar (quote c : Char) : List Char :=
  if c = quote ∨ c = '\\' then ['\\', c]
  else if c = '\n' then ['\\', 'n']
  else if c = '\r' then ['\\', 'r']
  else if c = '\t' then ['\\', 't']
  else if c.toNat < 32 ∨ c.toNat = 127 then
    ['\\', 'x', hexDigit (c.toNat / 16), hexDigit c.toNat]
  else [c]

/-- `repr` of a string: single quotes, unless the text holds one and no double quote. -/
def repr (s : String) : String :=
  let quote : Char := if '\'' ∈ s.toList ∧ '"' ∉ s.toList then '"' else '\''
  String.ofList (quote :: s.toList.flatMap (reprChar quote) ++ [quote])

/-- `repr` of an optional string. -/
def reprOption (s : Option String) : String := s.elim "None" repr

example : thousands 1234567 = "1,234,567" := by decide
example : repr "paid\n" = "'paid\\n'" := by decide

end Text
