import AegisMerchant.Base.Numerals
import AegisMerchant.Base.Numeric
import Mathlib.Data.List.Sort
import Mathlib.Data.Rat.Defs

/-!
# JSON values

The values a Python program passes to `json.dumps`, and the text it gets back. Integers and floats
are different constructors, as they are different types in the program; how a float is written is a
parameter. Nothing here mentions a particular program.
-/

/-- The floats that are not numbers, which `json.loads` reads and `json.dumps` writes. -/
inductive NonFinite where
  | nan | posInf | negInf
  deriving DecidableEq

inductive Json where
  | null
  | bool (b : Bool)
  | int (n : ℤ)
  | float (q : ℚ)
  | nonFinite (x : NonFinite)
  | str (s : String)
  | arr (elems : List Json)
  | obj (fields : List (String × Json))

namespace Json

/-! ## Reading -/

/-- `d.get(key)` on an object; none on anything else. -/
def get? (key : String) : Json → Option Json
  | obj fields => fields.lookup key
  | _ => none

/-- `int(v)`: numbers are cut towards zero, a text is read as one; none for an exception. -/
def toInt? : Json → Option ℤ
  | int n => some n
  | float q => some (Numeric.truncInt q)
  | bool b => some (if b then 1 else 0)
  | str s => Text.int? s
  | _ => none

/-- `float(v)` where it is a number: an integer as it is, a text read as one; none for an exception. -/
def toRat? : Json → Option ℚ
  | int n => some n
  | float q => some q
  | bool b => some (if b then 1 else 0)
  | str s => Text.float? s
  | _ => none

def toStr? : Json → Option String
  | str s => some s
  | _ => none

/-- An optional text: `null` is none. -/
def ofOption (v : Option String) : Json := v.elim null str

/-- `str(v)` on a text, an integer, a truth value, `None` or a float that is no number. How the other
values are written is not followed: they give no text. -/
def scalarText : Json → String
  | null => "None"
  | bool b => if b then "True" else "False"
  | int n => toString n
  | nonFinite .nan => "nan"
  | nonFinite .posInf => "inf"
  | nonFinite .negInf => "-inf"
  | str s => s
  | float _ | arr _ | obj _ => ""

/-- `int(v)` raises `OverflowError`: an infinite float. -/
def overflows : Json → Bool
  | nonFinite .posInf | nonFinite .negInf => true
  | _ => false

def truthy : Json → Bool
  | .null => false
  | .bool b => b
  | .int n => n ≠ 0
  | .float q => q ≠ 0
  | .nonFinite _ => true
  | .str s => s ≠ ""
  | .arr elems => !elems.isEmpty
  | .obj fields => !fields.isEmpty

/-- An entry, if it is there and true. -/
def getTrue? (key : String) (v : Json) : Option Json := (v.get? key).filter truthy

/-- An entry that is an object. -/
def getObj? (key : String) (v : Json) : Option Json :=
  (v.get? key).filter fun
    | .obj _ => true
    | _ => false

@[simp] theorem toInt?_int (n : ℤ) : (int n).toInt? = some n := rfl
@[simp] theorem toRat?_float (q : ℚ) : (float q).toRat? = some q := rfl
@[simp] theorem toStr?_str (s : String) : (str s).toStr? = some s := rfl

/-! ## Writing -/

/-- One character of a JSON string, with `ensure_ascii=False`. -/
def escapeChar (c : Char) : List Char :=
  if c = '"' ∨ c = '\\' then ['\\', c]
  else if c = '\n' then ['\\', 'n']
  else if c = '\r' then ['\\', 'r']
  else if c = '\t' then ['\\', 't']
  else if c.toNat = 8 then ['\\', 'b']
  else if c.toNat = 12 then ['\\', 'f']
  else if c.toNat < 32 then
    ['\\', 'u', '0', '0', Text.hexDigit (c.toNat / 16), Text.hexDigit c.toNat]
  else [c]

def quote (s : String) : String :=
  "\"" ++ String.ofList (s.toList.flatMap escapeChar) ++ "\""

/-- The fields of an object in the order `sort_keys=True` writes them. -/
def sortFields {α : Type} (fields : List (String × α)) : List (String × α) :=
  fields.insertionSort (fun a b => a.1 ≤ b.1)

mutual

/-- `json.dumps(v, sort_keys=True, separators=(",", ":"), ensure_ascii=False)`. -/
def dumps (floatRepr : ℚ → String) : Json → String
  | null => "null"
  | bool b => if b then "true" else "false"
  | int n => toString n
  | float q => floatRepr q
  | nonFinite .nan => "NaN"
  | nonFinite .posInf => "Infinity"
  | nonFinite .negInf => "-Infinity"
  | str s => quote s
  | arr elems => "[" ++ ",".intercalate (dumpsList floatRepr elems) ++ "]"
  | obj fields =>
    let written := (sortFields (dumpsFields floatRepr fields)).map fun f => quote f.1 ++ ":" ++ f.2
    "\x7b" ++ ",".intercalate written ++ "\x7d"

def dumpsList (floatRepr : ℚ → String) : List Json → List String
  | [] => []
  | v :: rest => dumps floatRepr v :: dumpsList floatRepr rest

def dumpsFields (floatRepr : ℚ → String) : List (String × Json) → List (String × String)
  | [] => []
  | (k, v) :: rest => (k, dumps floatRepr v) :: dumpsFields floatRepr rest

end

end Json
