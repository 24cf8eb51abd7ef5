import AegisMerchant.Base.JsonText
import AegisMerchant.Base.Numeric

/-!
# JSON, written for any reader and read back

`json.dumps` with its default separators and `ensure_ascii=True`, `json.loads`, and the round trip of
an object whose values are scalars. How a float is written and how a decimal text is read as one are
parameters. Nothing here mentions a particular document.

`scanValue_dumpsAscii` is the induction, over the value and with the rest of the text left open;
`loads_dumpsAscii` is the round trip.
-/

namespace Json

open Numeric

/-! ## Writing -/

/-- `\uXXXX`. -/
def unicodeEscape (n : ℕ) : List Char :=
  ['\\', 'u', Text.hexDigit (n / 4096), Text.hexDigit (n / 256), Text.hexDigit (n / 16),
    Text.hexDigit n]

/-- One character of a JSON string, with `ensure_ascii=True`. -/
def escapeAscii (c : Char) : List Char :=
  if c = '"' ∨ c = '\\' then ['\\', c]
  else if c = '\n' then ['\\', 'n']
  else if c = '\r' then ['\\', 'r']
  else if c = '\t' then ['\\', 't']
  else if c.toNat = 8 then ['\\', 'b']
  else if c.toNat = 12 then ['\\', 'f']
  else if 32 ≤ c.toNat ∧ c.toNat < 127 then [c]
  else if c.toNat < 0x10000 then unicodeEscape c.toNat
  else
    -- beyond the basic plane, two surrogates
    unicodeEscape (0xD800 + (c.toNat - 0x10000) / 0x400) ++
      unicodeEscape (0xDC00 + (c.toNat - 0x10000) % 0x400)

def quoteAscii (s : String) : String :=
  "\"" ++ String.ofList (s.toList.flatMap escapeAscii) ++ "\""

mutual

/-- `json.dumps(v, sort_keys=True)`. -/
def dumpsAscii (floatRepr : ℚ → String) : Json → String
  | null => "null"
  | bool b => if b then "true" else "false"
  | int n => toString n
  | float q => floatRepr q
  | nonFinite .nan => "NaN"
  | nonFinite .posInf => "Infinity"
  | nonFinite .negInf => "-Infinity"
  | str s => quoteAscii s
  | arr elems => "[" ++ ", ".intercalate (dumpsAsciiList floatRepr elems) ++ "]"
  | obj fields =>
    let written := (sortFields (dumpsAsciiFields floatRepr fields)).map fun f =>
      quoteAscii f.1 ++ ": " ++ f.2
    "\x7b" ++ ", ".intercalate written ++ "\x7d"

def dumpsAsciiList (floatRepr : ℚ → String) : List Json → List String
  | [] => []
  | v :: rest => dumpsAscii floatRepr v :: dumpsAsciiList floatRepr rest

def dumpsAsciiFields (floatRepr : ℚ → String) : List (String × Json) → List (String × String)
  | [] => []
  | (k, v) :: rest => (k, dumpsAscii floatRepr v) :: dumpsAsciiFields floatRepr rest

end

/-! ## Reading strings -/

/-- The value of a hexadecimal digit, in either case. -/
def hexDigitValue? (c : Char) : Option ℕ :=
  if c.isDigit then some (c.toNat - 48)
  else if 'a' ≤ c ∧ c ≤ 'f' then some (c.toNat - 87)
  else if 'A' ≤ c ∧ c ≤ 'F' then some (c.toNat - 55)
  else none

def readHex : List Char → Option (ℕ × List Char)
  | a :: b :: c :: d :: rest => do
    let a ← hexDigitValue? a
    let b ← hexDigitValue? b
    let c ← hexDigitValue? c
    let d ← hexDigitValue? d
    some (4096 * a + 256 * b + 16 * c + d, rest)
  | _ => none

/-- What follows `\u`. Two surrogates are one character; one alone is none of Lean's. -/
def readUnicode (cs : List Char) : Option (Char × List Char) := do
  let (n, rest) ← readHex cs
  if 0xD800 ≤ n ∧ n < 0xE000 then
    match rest with
    | '\\' :: 'u' :: low => do
      let (m, rest) ← readHex low
      if n < 0xDC00 ∧ 0xDC00 ≤ m ∧ m < 0xE000 then
        some (Char.ofNat (0x10000 + (n - 0xD800) * 0x400 + (m - 0xDC00)), rest)
      else none
    | _ => none
  else some (Char.ofNat n, rest)

def readBackslash : List Char → Option (Char × List Char)
  | [] => none
  | c :: rest =>
    if c = 'u' then readUnicode rest
    else if c ∈ ['"', '\\', '/', 'b', 'f', 'n', 'r', 't'] then some (unescape c, rest)
    else none

/-- One character of a JSON string. A control character is refused. -/
def readAscii : List Char → Option (Char × List Char)
  | [] => none
  | c :: rest =>
    if c = '\\' then readBackslash rest else if c.toNat < 32 then none else some (c, rest)

/-- A JSON string, from behind its opening quote. The fuel is the length of what is left. -/
def scanString : ℕ → List Char → Option (List Char × List Char)
  | 0, _ => none
  | _ + 1, '"' :: rest => some ([], rest)
  | fuel + 1, cs => do
    let (c, rest) ← readAscii cs
    let (s, rest) ← scanString fuel rest
    some (c :: s, rest)

/-! ## Reading numbers -/

/-- `-?(0|[1-9][0-9]*)`. -/
def matchInteger (cs : List Char) : Option (List Char × List Char) :=
  let (sign, digits) := match cs with
    | '-' :: rest => (['-'], rest)
    | _ => ([], cs)
  match digits with
  | '0' :: rest => some (sign ++ ['0'], rest)
  | c :: rest =>
    if c.isDigit then
      some (sign ++ c :: rest.takeWhile Char.isDigit, rest.dropWhile Char.isDigit)
    else none
  | [] => none

/-- `(\.[0-9]+)?`. -/
def matchFraction : List Char → List Char × List Char
  | '.' :: c :: rest =>
    if c.isDigit then ('.' :: c :: rest.takeWhile Char.isDigit, rest.dropWhile Char.isDigit)
    else ([], '.' :: c :: rest)
  | cs => ([], cs)

/-- `[-+]?`. -/
def matchSign : List Char → List Char × List Char
  | '-' :: rest => (['-'], rest)
  | '+' :: rest => (['+'], rest)
  | cs => ([], cs)

/-- `([eE][-+]?[0-9]+)?`. -/
def matchExponent : List Char → List Char × List Char
  | [] => ([], [])
  | e :: cs =>
    if e = 'e' ∨ e = 'E' then
      match matchSign cs with
      | (sign, c :: rest) =>
        if c.isDigit then
          (e :: sign ++ c :: rest.takeWhile Char.isDigit, rest.dropWhile Char.isDigit)
        else ([], e :: cs)
      | _ => ([], e :: cs)
    else ([], e :: cs)

/-- `int(text)`, for the text of an integer. -/
def intOf : List Char → ℤ
  | '-' :: digits => -(Nat.ofDigitChars 10 digits 0 : ℕ)
  | digits => (Nat.ofDigitChars 10 digits 0 : ℕ)

def ofFloat : ExtRat → Json
  | .nan => nonFinite .nan
  | .posInf => nonFinite .posInf
  | .negInf => nonFinite .negInf
  | .fin q => float q

/-- A number: an integer, unless it has a fraction or an exponent. -/
def scanNumber (readFloat : String → ExtRat) (cs : List Char) : Option (Json × List Char) := do
  let (integer, rest) ← matchInteger cs
  let (fraction, rest) := matchFraction rest
  let (exponent, rest) := matchExponent rest
  if fraction = [] ∧ exponent = [] then some (int (intOf integer), rest)
  else some (ofFloat (readFloat (String.ofList (integer ++ fraction ++ exponent))), rest)

/-! ## Reading values -/

/-- The words of JSON, and those Python adds to them. -/
def words : List (String × Json) :=
  [("null", null), ("true", bool true), ("false", bool false), ("NaN", nonFinite .nan),
    ("Infinity", nonFinite .posInf), ("-Infinity", nonFinite .negInf)]

def scanWord (cs : List Char) : Option (Json × List Char) :=
  (words.find? fun w => w.1.toList.isPrefixOf cs).map fun w => (w.2, cs.drop w.1.toList.length)

/-- Whitespace between tokens. -/
def skipSpace (cs : List Char) : List Char := cs.dropWhile fun c => c ∈ [' ', '\t', '\n', '\r']

/-- `d[key] = value`. -/
def setField {α : Type} (fields : List (String × α)) (f : String × α) : List (String × α) :=
  if f.1 ∈ fields.map Prod.fst then fields.map fun g => if g.1 = f.1 then f else g
  else fields ++ [f]

/-- `dict(pairs)`: the last value of a key counts. -/
def dictOf {α : Type} (pairs : List (String × α)) : List (String × α) := pairs.foldl setField []

mutual

/-- A value at the front of a text, and what follows it. The fuel bounds the nesting and the entries
of a text that is as long. -/
def scanValue (readFloat : String → ExtRat) : ℕ → List Char → Option (Json × List Char)
  | 0, _ => none
  | _ + 1, '"' :: cs => (scanString cs.length cs).map fun s => (str (String.ofList s.1), s.2)
  | fuel + 1, '\x7b' :: cs =>
    match skipSpace cs with
    | '\x7d' :: rest => some (obj [], rest)
    | cs => (scanMembers readFloat fuel cs).map fun m => (obj (dictOf m.1), m.2)
  | fuel + 1, '[' :: cs =>
    match skipSpace cs with
    | ']' :: rest => some (arr [], rest)
    | cs => (scanElements readFloat fuel cs).map fun e => (arr e.1, e.2)
  | _ + 1, cs => (scanNumber readFloat cs).or (scanWord cs)

/-- The entries of an object, up to its closing brace. -/
def scanMembers (readFloat : String → ExtRat) :
    ℕ → List Char → Option (List (String × Json) × List Char)
  | fuel + 1, '"' :: cs => do
    let (key, cs) ← scanString cs.length cs
    match skipSpace cs with
    | ':' :: cs =>
      let (v, cs) ← scanValue readFloat fuel (skipSpace cs)
      match skipSpace cs with
      | '\x7d' :: rest => some ([(String.ofList key, v)], rest)
      | ',' :: cs =>
        (scanMembers readFloat fuel (skipSpace cs)).map fun m => ((String.ofList key, v) :: m.1, m.2)
      | _ => none
    | _ => none
  | _, _ => none

/-- The elements of an array, up to its closing bracket. -/
def scanElements (readFloat : String → ExtRat) : ℕ → List Char → Option (List Json × List Char)
  | 0, _ => none
  | fuel + 1, cs => do
    let (v, cs) ← scanValue readFloat fuel cs
    match skipSpace cs with
    | ']' :: rest => some ([v], rest)
    | ',' :: cs => (scanElements readFloat fuel (skipSpace cs)).map fun e => (v :: e.1, e.2)
    | _ => none

end

/-- `json.loads`; none for its `JSONDecodeError`. -/
def loads (readFloat : String → ExtRat) (s : String) : Option Json := do
  let (v, rest) ← scanValue readFloat (s.toList.length + 1) (skipSpace s.toList)
  if skipSpace rest = [] then some v else none

/-! ## A string reads back -/

theorem hexDigitValue?_hexDigit (n : ℕ) : hexDigitValue? (Text.hexDigit n) = some (n % 16) := by
  have hdigit : ∀ m < 16, hexDigitValue? (Nat.digitChar m) = some m := by decide
  exact hdigit (n % 16) (Nat.mod_lt n (by decide))

theorem readHex_digits {n : ℕ} (h : n < 0x10000) (rest : List Char) :
    readHex ((unicodeEscape n).drop 2 ++ rest) = some (n, rest) := by
  show (do
    let a ← hexDigitValue? (Text.hexDigit (n / 4096))
    let b ← hexDigitValue? (Text.hexDigit (n / 256))
    let c ← hexDigitValue? (Text.hexDigit (n / 16))
    let d ← hexDigitValue? (Text.hexDigit n)
    some (4096 * a + 256 * b + 16 * c + d, rest)) = some (n, rest)
  simp only [hexDigitValue?_hexDigit, Option.bind_eq_bind, Option.bind_some, Option.some.injEq,
    Prod.mk.injEq, and_true]
  omega

/-- No character is a surrogate. -/
theorem toNat_not_surrogate (c : Char) :
    c.toNat < 0xD800 ∨ 0xDFFF < c.toNat ∧ c.toNat < 0x110000 := c.valid

theorem readAscii_unicodeEscape (n : ℕ) (rest : List Char) :
    readAscii (unicodeEscape n ++ rest) = readUnicode ((unicodeEscape n).drop 2 ++ rest) := rfl

theorem readAscii_plane {n : ℕ} (h : n < 0xD800 ∨ 0xDFFF < n ∧ n < 0x10000) (rest : List Char) :
    readAscii (unicodeEscape n ++ rest) = some (Char.ofNat n, rest) := by
  rw [readAscii_unicodeEscape]
  refine Text.read_of_eq (readHex_digits (by omega) rest) ?_
  dsimp only
  rw [if_neg (by omega)]

/-- Two surrogates are one character. -/
theorem readAscii_surrogates {n : ℕ} (h : 0x10000 ≤ n ∧ n < 0x110000) (rest : List Char) :
    readAscii (unicodeEscape (0xD800 + (n - 0x10000) / 0x400) ++
      unicodeEscape (0xDC00 + (n - 0x10000) % 0x400) ++ rest) = some (Char.ofNat n, rest) := by
  have hhigh : 0xD800 + (n - 0x10000) / 0x400 < 0x10000 := by omega
  have hlow : 0xDC00 + (n - 0x10000) % 0x400 < 0x10000 := by omega
  have hcode : 0x10000 + (0xD800 + (n - 0x10000) / 0x400 - 0xD800) * 0x400 +
      (0xDC00 + (n - 0x10000) % 0x400 - 0xDC00) = n := by omega
  rw [List.append_assoc, readAscii_unicodeEscape]
  refine Text.read_of_eq (readHex_digits hhigh _) ?_
  dsimp only
  rw [if_pos (by omega)]
  refine Text.read_of_eq (readHex_digits hlow rest) ?_
  dsimp only
  rw [if_pos (by omega), hcode]

/-- A character that was written reads back. -/
theorem readAscii_escapeAscii (c : Char) (rest : List Char) :
    readAscii (escapeAscii c ++ rest) = some (c, rest) := by
  have hvalid := toNat_not_surrogate c
  have hcode := Char.ofNat_toNat c
  unfold escapeAscii
  split
  · next h => rcases h with rfl | rfl <;> rfl
  · next h =>
    rw [not_or] at h
    split
    · next hc => subst hc; rfl
    · split
      · next hc => subst hc; rfl
      · split
        · next hc => subst hc; rfl
        · split
          · next hc => rw [← hcode, hc]; rfl
          · split
            · next hc => rw [← hcode, hc]; rfl
            · split
              · next hc => rw [List.singleton_append, readAscii, if_neg h.2, if_neg (by omega)]
              · split
                · next hc => rw [readAscii_plane (by omega), hcode]
                · next hc => rw [readAscii_surrogates (by omega), hcode]

/-- No written character starts with the closing quote. -/
theorem head_escapeAscii (c : Char) : ∃ d ds, escapeAscii c = d :: ds ∧ d ≠ '"' := by
  unfold escapeAscii unicodeEscape
  split
  · exact ⟨_, _, rfl, by decide⟩
  · next h =>
    iterate 5
      split
      · exact ⟨_, _, rfl, by decide⟩
    split
    · exact ⟨c, [], rfl, fun hc => h (.inl hc)⟩
    · split <;> exact ⟨_, _, rfl, by decide⟩

theorem length_le_escapeAscii (s : List Char) : s.length ≤ (s.flatMap escapeAscii).length := by
  induction s with
  | nil => exact Nat.le_refl 0
  | cons c s ih =>
    obtain ⟨d, ds, hd, -⟩ := head_escapeAscii c
    rw [List.flatMap_cons, hd, List.length_append, List.length_cons, List.length_cons]
    omega

/-- A string that was written reads back, up to its closing quote. -/
theorem scanString_escapeAscii {s : List Char} {fuel : ℕ} (h : s.length < fuel)
    (rest : List Char) : scanString fuel (s.flatMap escapeAscii ++ '"' :: rest) = some (s, rest) := by
  induction s generalizing fuel with
  | nil =>
    cases fuel with
    | zero => cases h
    | succ fuel => rfl
  | cons c s ih =>
    cases fuel with
    | zero => cases h
    | succ fuel =>
      -- one character of the string is one escape of the text
      have hread := readAscii_escapeAscii c (s.flatMap escapeAscii ++ '"' :: rest)
      obtain ⟨d, ds, hd, hquote⟩ := head_escapeAscii c
      rw [hd, List.cons_append] at hread
      rw [List.flatMap_cons, List.append_assoc, hd, List.cons_append]
      unfold scanString
      split
      · cases ‹_›
      · next hhead => exact absurd (List.cons.inj hhead).1 hquote
      · next hfuel hcs =>
        obtain rfl := Nat.succ.inj hfuel
        exact Text.read_of_eq hread (Text.read_of_eq (ih (Nat.lt_of_succ_lt_succ h)) rfl)

theorem toList_quoteAscii (s : String) :
    (quoteAscii s).toList = '"' :: (s.toList.flatMap escapeAscii ++ ['"']) := by
  simp only [quoteAscii, String.toList_append, String.toList_ofList]
  rfl

/-- A quoted string reads back, with the fuel its text gives. -/
theorem scanString_quoteAscii (s : String) (rest : List Char) :
    scanString (s.toList.flatMap escapeAscii ++ '"' :: rest).length
      (s.toList.flatMap escapeAscii ++ '"' :: rest) = some (s.toList, rest) := by
  refine scanString_escapeAscii ?_ rest
  have := length_le_escapeAscii s.toList
  rw [List.length_append, List.length_cons]
  omega

/-! ## A number reads back -/

def IsDigits (cs : List Char) : Prop := cs ≠ [] ∧ ∀ c ∈ cs, c.isDigit = true

/-- The text of an integer: no zero stands in front of other digits. -/
def IsInteger (cs : List Char) : Prop :=
  ∃ sign digits, (sign = [] ∨ sign = ['-']) ∧ IsDigits digits ∧
    (digits.head? = some '0' → digits = ['0']) ∧ cs = sign ++ digits

def IsFraction (cs : List Char) : Prop := ∃ digits, IsDigits digits ∧ cs = '.' :: digits

def IsExponent (cs : List Char) : Prop :=
  ∃ sign digits, (sign = [] ∨ sign = ['+'] ∨ sign = ['-']) ∧ IsDigits digits ∧
    cs = 'e' :: (sign ++ digits)

/-- A decimal text: an integer with a fraction, an exponent, or both. -/
def IsDecimal (cs : List Char) : Prop :=
  ∃ integer fraction exponent, IsInteger integer ∧ (fraction = [] ∨ IsFraction fraction) ∧
    (exponent = [] ∨ IsExponent exponent) ∧ ¬(fraction = [] ∧ exponent = []) ∧
      cs = integer ++ (fraction ++ exponent)

/-- Digits end where no digit follows. -/
theorem cut_digits {digits rest : List Char} (h : ∀ c ∈ digits, c.isDigit = true)
    (hrest : ∀ c ∈ rest.head?, c.isDigit = false) :
    (digits ++ rest).takeWhile Char.isDigit = digits ∧
      (digits ++ rest).dropWhile Char.isDigit = rest := by
  rw [List.takeWhile_append_of_pos h, List.dropWhile_append_of_pos h]
  cases rest with
  | nil => exact ⟨List.append_nil digits, rfl⟩
  | cons c rest =>
    have hc : ¬c.isDigit = true := by
      rw [hrest c rfl]
      exact Bool.false_ne_true
    rw [List.takeWhile_cons_of_neg hc, List.dropWhile_cons_of_neg hc]
    exact ⟨List.append_nil digits, rfl⟩

theorem matchInteger_append {integer rest : List Char} (h : IsInteger integer)
    (hrest : ∀ c ∈ rest.head?, c.isDigit = false) :
    matchInteger (integer ++ rest) = some (integer, rest) := by
  obtain ⟨sign, digits, hsign, ⟨hne, hdigits⟩, hzero, rfl⟩ := h
  cases digits with
  | nil => exact absurd rfl hne
  | cons d ds =>
    have hd := hdigits d List.mem_cons_self
    obtain ⟨htake, hdrop⟩ := @cut_digits ds rest (fun c hc => hdigits c (List.mem_cons_of_mem d hc))
      hrest
    -- the digits after the sign: a zero alone, or a run that ends where the rest begins
    have hbody : (match d :: (ds ++ rest) with
        | '0' :: rest => some (sign ++ ['0'], rest)
        | c :: rest =>
          if c.isDigit then
            some (sign ++ c :: rest.takeWhile Char.isDigit, rest.dropWhile Char.isDigit)
          else none
        | [] => none) = some (sign ++ d :: ds, rest) := by
      split
      · next hcs =>
        obtain ⟨rfl, rfl⟩ := List.cons.inj hcs
        obtain ⟨-, rfl⟩ := List.cons.inj (hzero rfl)
        rfl
      · next hcs =>
        obtain ⟨rfl, rfl⟩ := List.cons.inj hcs
        rw [if_pos hd, htake, hdrop]
      · next hcs => cases hcs
    rcases hsign with rfl | rfl
    -- with no sign in front, the first digit is not taken for one
    · have hminus : d ≠ '-' := by
        rintro rfl
        exact absurd hd (by decide)
      unfold matchInteger
      rw [List.nil_append, List.cons_append]
      split
      next sign' digits' hcs =>
      split at hcs
      · next hhead => exact absurd (List.cons.inj hhead).1 hminus
      · obtain ⟨rfl, rfl⟩ := Prod.mk.inj hcs
        exact hbody
    · exact hbody

theorem matchFraction_append {fraction rest : List Char}
    (h : fraction = [] ∨ IsFraction fraction)
    (hrest : ∀ c ∈ rest.head?, c.isDigit = false ∧ c ≠ '.') :
    matchFraction (fraction ++ rest) = (fraction, rest) := by
  rcases h with rfl | ⟨digits, ⟨hne, hdigits⟩, rfl⟩
  · rw [List.nil_append]
    unfold matchFraction
    split
    · exact absurd rfl (hrest '.' rfl).2
    · rfl
  · cases digits with
    | nil => exact absurd rfl hne
    | cons d ds =>
      obtain ⟨htake, hdrop⟩ := @cut_digits ds rest
        (fun c hc => hdigits c (List.mem_cons_of_mem d hc)) fun c hc => (hrest c hc).1
      rw [List.cons_append, List.cons_append, matchFraction, if_pos (hdigits d List.mem_cons_self),
        htake, hdrop]

theorem matchExponent_append {exponent rest : List Char} (h : exponent = [] ∨ IsExponent exponent)
    (hrest : ∀ c ∈ rest.head?, c.isDigit = false ∧ c ≠ 'e' ∧ c ≠ 'E') :
    matchExponent (exponent ++ rest) = (exponent, rest) := by
  rcases h with rfl | ⟨sign, digits, hsign, ⟨hne, hdigits⟩, rfl⟩
  · rw [List.nil_append]
    cases rest with
    | nil => rfl
    | cons c rest =>
      have hc := (hrest c rfl).2
      rw [matchExponent, if_neg (not_or.mpr hc)]
  · cases digits with
    | nil => exact absurd rfl hne
    | cons d ds =>
      have hd := hdigits d List.mem_cons_self
      obtain ⟨htake, hdrop⟩ := @cut_digits ds rest
        (fun c hc => hdigits c (List.mem_cons_of_mem d hc)) fun c hc => (hrest c hc).1
      -- the sign of the exponent may be left out
      have hmatch : matchSign (sign ++ d :: ds ++ rest) = (sign, d :: (ds ++ rest)) := by
        rcases hsign with rfl | rfl | rfl
        · rw [List.nil_append, List.cons_append]
          unfold matchSign
          split
          · next hcs =>
            rw [(List.cons.inj hcs).1] at hd
            exact absurd hd (by decide)
          · next hcs =>
            rw [(List.cons.inj hcs).1] at hd
            exact absurd hd (by decide)
          · rfl
        · rfl
        · rfl
      rw [List.cons_append, matchExponent, if_pos (.inl rfl), hmatch]
      dsimp only
      rw [if_pos hd, htake, hdrop]
      rfl

/-- What goes on with no character that could belong to a number. -/
def Stops (rest : List Char) : Prop :=
  ∀ c ∈ rest.head?, c.isDigit = false ∧ c ≠ '.' ∧ c ≠ 'e' ∧ c ≠ 'E'

/-- What follows a value in an object stops a number. -/
theorem Delimited.stops {rest : List Char} (h : Delimited rest) : Stops rest := by
  obtain ⟨d, r, rfl, hd⟩ := h
  intro c hc
  obtain rfl := Option.some.inj hc
  rcases hd with rfl | rfl <;> decide

/-- A decimal text reads back as one float. -/
theorem scanNumber_decimal (readFloat : String → ExtRat) {s : String} {rest : List Char}
    (h : IsDecimal s.toList) (hstops : Stops rest) :
    scanNumber readFloat (s.toList ++ rest) = some (ofFloat (readFloat s), rest) := by
  obtain ⟨integer, fraction, exponent, hinteger, hfraction, hexponent, hne, htext⟩ := h
  -- each part ends where the next begins, and the last where the rest does
  have hexpHead : ∀ c ∈ (exponent ++ rest).head?, c.isDigit = false ∧ c ≠ '.' := by
    rcases hexponent with rfl | ⟨sign, digits, -, -, rfl⟩
    · exact fun c hc => ⟨(hstops c hc).1, (hstops c hc).2.1⟩
    · intro c hc
      obtain rfl := Option.some.inj hc
      decide
  have hfracHead : ∀ c ∈ (fraction ++ (exponent ++ rest)).head?, c.isDigit = false := by
    rcases hfraction with rfl | ⟨digits, -, rfl⟩
    · exact fun c hc => (hexpHead c hc).1
    · intro c hc
      obtain rfl := Option.some.inj hc
      decide
  have hs : s = String.ofList (integer ++ fraction ++ exponent) := by
    rw [← String.toList_inj, htext, String.toList_ofList, List.append_assoc]
  rw [htext, List.append_assoc, List.append_assoc]
  refine Text.read_of_eq (matchInteger_append hinteger hfracHead) ?_
  dsimp only
  rw [matchFraction_append hfraction hexpHead]
  dsimp only
  rw [matchExponent_append hexponent fun c hc => ⟨(hstops c hc).1, (hstops c hc).2.2⟩]
  dsimp only
  rw [if_neg hne, ← hs]

/-- No zero stands in front of the digits of a number. -/
theorem head_toDigits (n : ℕ) :
    (Nat.toDigits 10 n).head? = some '0' → Nat.toDigits 10 n = ['0'] := by
  induction n using Nat.strongRecOn with
  | ind n ih =>
    intro hhead
    by_cases hlt : n < 10
    · rw [Nat.toDigits_of_lt_base hlt] at hhead ⊢
      rw [Option.some.inj hhead]
    · rw [Nat.toDigits_of_base_le (by decide) (by omega),
        List.head?_append_of_ne_nil _ Nat.toDigits_ne_nil] at hhead
      have hzero := ih (n / 10) (by omega) hhead
      have hvalue := @Nat.ofDigitChars_ten_toDigits (n / 10)
      rw [hzero] at hvalue
      have : n / 10 = 0 := hvalue.symm
      omega

theorem isDigits_repr (n : ℕ) : IsDigits n.repr.toList := by
  rw [Nat.toList_repr]
  exact ⟨Nat.toDigits_ne_nil, fun c hc =>
    Nat.isDigit_of_mem_toDigits (by decide) (by decide) hc⟩

theorem isInteger_toString (n : ℤ) : IsInteger (toString n).toList := by
  have hhead : ∀ m : ℕ, m.repr.toList.head? = some '0' → m.repr.toList = ['0'] := by
    intro m
    rw [Nat.toList_repr]
    exact head_toDigits m
  show IsInteger n.repr.toList
  rw [Int.repr_eq_if]
  split
  · exact ⟨[], _, .inl rfl, isDigits_repr _, hhead _, rfl⟩
  · exact ⟨['-'], _, .inr rfl, isDigits_repr _, hhead _, by rw [String.toList_append]; rfl⟩

theorem intOf_toString (n : ℤ) : intOf (toString n).toList = n := by
  have hread : ∀ m : ℕ, Nat.ofDigitChars 10 m.repr.toList 0 = m := by
    intro m
    rw [Nat.toList_repr, Nat.ofDigitChars_ten_toDigits]
  show intOf n.repr.toList = n
  rw [Int.repr_eq_if]
  split
  · unfold intOf
    split
    · next hsign =>
      have hmem : '-' ∈ n.toNat.repr.toList := by
        rw [hsign]
        exact List.mem_cons_self
      rw [Nat.toList_repr] at hmem
      exact absurd (Nat.isDigit_of_mem_toDigits (by decide) (by decide) hmem) (by decide)
    · rw [hread]
      omega
  · rw [String.toList_append]
    show -(Nat.ofDigitChars 10 (-n).toNat.repr.toList 0 : ℤ) = n
    rw [hread]
    omega

/-- An integer reads back as one. -/
theorem scanNumber_toString (readFloat : String → ExtRat) (n : ℤ) {rest : List Char}
    (hstops : Stops rest) :
    scanNumber readFloat ((toString n).toList ++ rest) = some (int n, rest) := by
  refine Text.read_of_eq
    (matchInteger_append (isInteger_toString n) fun c hc => (hstops c hc).1) ?_
  have hfraction := @matchFraction_append [] rest (.inl rfl) fun c hc =>
    ⟨(hstops c hc).1, (hstops c hc).2.1⟩
  have hexponent := @matchExponent_append [] rest (.inl rfl) fun c hc =>
    ⟨(hstops c hc).1, (hstops c hc).2.2⟩
  rw [List.nil_append] at hfraction hexponent
  dsimp only
  rw [hfraction]
  dsimp only
  rw [hexponent]
  dsimp only
  rw [if_pos ⟨rfl, rfl⟩, intOf_toString]

/-! ## Scalars -/

/-- How floats are written and read: a decimal text, read as the float it was written for. -/
structure FloatReads (floatRepr : ℚ → String) (readFloat : String → ExtRat) : Prop where
  decimal : ∀ q, IsDecimal (floatRepr q).toList
  reads : ∀ q, readFloat (floatRepr q) = .fin q

/-- A value without parts. -/
def Scalar : Json → Prop
  | arr _ | obj _ => False
  | _ => True

/-- A number starts with a digit or a sign. -/
theorem IsInteger.head {cs : List Char} (h : IsInteger cs) :
    ∃ d ds, cs = d :: ds ∧ (d.isDigit = true ∨ d = '-') := by
  obtain ⟨sign, digits, hsign, ⟨hne, hdigits⟩, -, rfl⟩ := h
  rcases hsign with rfl | rfl
  · cases digits with
    | nil => exact absurd rfl hne
    | cons d ds => exact ⟨d, ds, rfl, .inl (hdigits d List.mem_cons_self)⟩
  · exact ⟨'-', digits, rfl, .inr rfl⟩

/-- A number starts like one, so no other kind of value is tried. -/
theorem scanValue_number {readFloat : String → ExtRat} {fuel : ℕ} {cs rest more : List Char}
    {v : Json} (hcs : IsInteger cs) (h : scanNumber readFloat (cs ++ more) = some (v, rest)) :
    scanValue readFloat (fuel + 1) (cs ++ more) = some (v, rest) := by
  obtain ⟨d, ds, rfl, hd⟩ := hcs.head
  -- a number opens no string, object or array
  have hhead : ∀ e es, d :: ds ++ more = e :: es → e ≠ '"' ∧ e ≠ '\x7b' ∧ e ≠ '[' := by
    intro e es heq
    obtain rfl : d = e := (List.cons.inj heq).1
    refine ⟨?_, ?_, ?_⟩
    · rintro rfl
      exact absurd hd (by decide)
    · rintro rfl
      exact absurd hd (by decide)
    · rintro rfl
      exact absurd hd (by decide)
  generalize d :: ds ++ more = text at h hhead
  unfold scanValue
  split
  · next hfuel => cases hfuel
  · exact absurd rfl (hhead _ _ rfl).1
  · exact absurd rfl (hhead _ _ rfl).2.1
  · exact absurd rfl (hhead _ _ rfl).2.2
  · rw [h]
    rfl

/-- A decimal text starts with its integer. -/
theorem scanValue_decimal {readFloat : String → ExtRat} {fuel : ℕ} {s : String} {rest : List Char}
    (h : IsDecimal s.toList) (hstops : Stops rest) :
    scanValue readFloat (fuel + 1) (s.toList ++ rest) = some (ofFloat (readFloat s), rest) := by
  have hscan := scanNumber_decimal readFloat h hstops
  obtain ⟨integer, fraction, exponent, hinteger, -, -, -, htext⟩ := h
  rw [htext, List.append_assoc] at hscan ⊢
  exact scanValue_number hinteger hscan

/-- **A scalar that was written reads back.** -/
theorem scanValue_dumpsAscii {floatRepr : ℚ → String} {readFloat : String → ExtRat}
    (hfloat : FloatReads floatRepr readFloat) {v : Json} (hv : v.Scalar) (fuel : ℕ)
    {rest : List Char} (hrest : Delimited rest) :
    scanValue readFloat (fuel + 1) ((v.dumpsAscii floatRepr).toList ++ rest) = some (v, rest) := by
  cases v with
  | null =>
    rw [dumpsAscii]
    rfl
  | bool b =>
    rw [dumpsAscii]
    cases b <;> rfl
  | int n =>
    exact scanValue_number (isInteger_toString n) (scanNumber_toString readFloat n hrest.stops)
  | float q =>
    have hread := @scanValue_decimal readFloat fuel _ rest (hfloat.decimal q) hrest.stops
    rw [hfloat.reads q] at hread
    exact hread
  | nonFinite x =>
    cases x with
    | nan => rw [dumpsAscii]; rfl
    | posInf => rw [dumpsAscii]; rfl
    | negInf => rw [dumpsAscii]; rfl
  | str s =>
    rw [dumpsAscii, toList_quoteAscii, List.cons_append, List.append_assoc, List.singleton_append,
      scanValue, scanString_quoteAscii, Option.map_some, String.ofList_toList]
  | arr elems => exact hv.elim
  | obj fields => exact hv.elim

/-! ## Objects -/

def memberText (f : String × String) : List Char := (quoteAscii f.1).toList ++ ':' :: ' ' :: f.2.toList

/-- The entries of an object as they are written, the closing brace last. -/
def membersText : List (String × String) → List Char
  | [] => ['\x7d']
  | [f] => memberText f ++ ['\x7d']
  | f :: g :: rest => memberText f ++ ',' :: ' ' :: membersText (g :: rest)

theorem membersText_eq (fields : List (String × String)) :
    (", ".intercalate (fields.map fun f => quoteAscii f.1 ++ ": " ++ f.2) ++ "\x7d").toList =
      membersText fields := by
  have hmember : ∀ f : String × String, (quoteAscii f.1 ++ ": " ++ f.2).toList = memberText f := by
    intro f
    rw [String.toList_append, String.toList_append, List.append_assoc]
    rfl
  induction fields with
  | nil => rfl
  | cons f rest ih =>
    cases rest with
    | nil =>
      rw [List.map_cons, List.map_nil, String.intercalate_singleton, String.toList_append, hmember]
      rfl
    | cons g rest =>
      rw [List.map_cons, List.map_cons, String.intercalate_cons_cons, String.append_assoc,
        String.toList_append, String.toList_append, hmember, List.append_assoc]
      rw [List.map_cons] at ih
      rw [ih]
      rfl

/-- An entry starts with its quote, so no space is skipped before it. -/
theorem membersText_cons (f : String × String) (rest : List (String × String)) :
    ∃ more, Delimited more ∧
      membersText (f :: rest) = '"' :: (f.1.toList.flatMap escapeAscii ++
        '"' :: ':' :: ' ' :: (f.2.toList ++ more)) ∧
      (rest = [] → more = ['\x7d']) ∧ (rest ≠ [] → more = ',' :: ' ' :: membersText rest) := by
  cases rest with
  | nil =>
    refine ⟨['\x7d'], ⟨_, [], rfl, .inr rfl⟩, ?_, fun _ => rfl, fun h => absurd rfl h⟩
    simp only [membersText, memberText, toList_quoteAscii, List.cons_append, List.append_assoc,
      List.nil_append]
  | cons g rest =>
    refine ⟨',' :: ' ' :: membersText (g :: rest), ⟨_, _, rfl, .inl rfl⟩, ?_, ?_, fun _ => rfl⟩
    · simp only [membersText, memberText, toList_quoteAscii, List.cons_append, List.append_assoc,
        List.nil_append]
    · intro h
      cases h

theorem length_le_membersText (fields : List (String × String)) :
    fields.length < (membersText fields).length := by
  induction fields with
  | nil => exact Nat.one_pos
  | cons f rest ih =>
    obtain ⟨more, -, htext, hnil, hcons⟩ := membersText_cons f rest
    rw [htext]
    by_cases hrest : rest = []
    · subst hrest
      simp only [List.length_cons, List.length_append, List.length_nil]
      omega
    · rw [hcons hrest]
      simp only [List.length_cons, List.length_append]
      omega

/-! ## Objects read back -/

theorem skipSpace_cons {c : Char} (h : c ∉ [' ', '\t', '\n', '\r']) (cs : List Char) :
    skipSpace (c :: cs) = c :: cs :=
  List.dropWhile_cons_of_neg (by simpa using h)

theorem Delimited.skipSpace {rest : List Char} (h : Delimited rest) : skipSpace rest = rest := by
  obtain ⟨c, r, rfl, hc⟩ := h
  refine skipSpace_cons ?_ r
  rcases hc with rfl | rfl <;> decide

theorem skipSpace_number {cs : List Char} (h : IsInteger cs) (rest : List Char) :
    skipSpace (' ' :: (cs ++ rest)) = cs ++ rest := by
  obtain ⟨d, ds, rfl, hd⟩ := h.head
  refine (List.dropWhile_cons_of_pos (by decide)).trans (skipSpace_cons ?_ (ds ++ rest))
  intro hmem
  simp only [List.mem_cons, List.not_mem_nil, or_false] at hmem
  rcases hmem with rfl | rfl | rfl | rfl <;> exact absurd hd (by decide)

/-- The space in front of a scalar is skipped, and nothing of the scalar. -/
theorem skipSpace_dumpsAscii {floatRepr : ℚ → String} {readFloat : String → ExtRat}
    (hfloat : FloatReads floatRepr readFloat) {v : Json} (hv : v.Scalar) (rest : List Char) :
    skipSpace (' ' :: ((v.dumpsAscii floatRepr).toList ++ rest)) =
      (v.dumpsAscii floatRepr).toList ++ rest := by
  cases v with
  | null =>
    rw [dumpsAscii]
    rfl
  | bool b =>
    rw [dumpsAscii]
    cases b <;> rfl
  | int n => exact skipSpace_number (isInteger_toString n) rest
  | float q =>
    obtain ⟨integer, fraction, exponent, hinteger, -, -, -, htext⟩ := hfloat.decimal q
    rw [dumpsAscii, htext, List.append_assoc]
    exact skipSpace_number hinteger _
  | nonFinite x =>
    cases x with
    | nan => rw [dumpsAscii]; rfl
    | posInf => rw [dumpsAscii]; rfl
    | negInf => rw [dumpsAscii]; rfl
  | str s =>
    rw [dumpsAscii, toList_quoteAscii]
    rfl
  | arr elems => exact hv.elim
  | obj fields => exact hv.elim

/-- Entries start with a quote. -/
theorem skipSpace_membersText {fields : List (String × String)} (h : fields ≠ [])
    (rest : List Char) :
    skipSpace (' ' :: (membersText fields ++ rest)) = membersText fields ++ rest := by
  cases fields with
  | nil => exact absurd rfl h
  | cons f fields =>
    obtain ⟨more, -, htext, -⟩ := membersText_cons f fields
    rw [htext]
    rfl

/-- Pairs with different keys are a dictionary as they stand. -/
theorem dictOf_eq {α : Type} {pairs : List (String × α)} (h : (pairs.map Prod.fst).Nodup) :
    dictOf pairs = pairs := by
  have hfold : ∀ {done rest : List (String × α)}, ((done ++ rest).map Prod.fst).Nodup →
      rest.foldl setField done = done ++ rest := by
    intro done rest
    induction rest generalizing done with
    | nil =>
      intro _
      rw [List.foldl_nil, List.append_nil]
    | cons f rest ih =>
      intro hnodup
      have hnew : f.1 ∉ done.map Prod.fst := by
        rw [List.map_append, List.map_cons] at hnodup
        intro hmem
        exact (List.nodup_append.mp hnodup).2.2 _ hmem _ List.mem_cons_self rfl
      rw [List.foldl_cons, setField, if_neg hnew, ih (by rwa [List.append_assoc]), List.append_assoc]
      rfl
  exact hfold h

/-- Fields are sorted before or after their values are written. -/
theorem sortFields_map {α β : Type} (g : α → β) (fields : List (String × α)) :
    sortFields (fields.map fun f => (f.1, g f.2)) = (sortFields fields).map fun f => (f.1, g f.2) :=
  (List.map_insertionSort (fun a b : String × α => a.1 ≤ b.1) (fun a b : String × β => a.1 ≤ b.1)
    (fun f => (f.1, g f.2)) fields fun _ _ _ _ => Iff.rfl).symm

theorem sortFields_perm {α : Type} (fields : List (String × α)) :
    List.Perm (sortFields fields) fields := List.perm_insertionSort _ fields

section Members

variable {floatRepr : ℚ → String} {readFloat : String → ExtRat}

theorem dumpsAsciiFields_eq (fields : List (String × Json)) :
    dumpsAsciiFields floatRepr fields = fields.map fun f => (f.1, f.2.dumpsAscii floatRepr) := by
  induction fields with
  | nil => rw [dumpsAsciiFields, List.map_nil]
  | cons f rest ih => rw [dumpsAsciiFields, ih, List.map_cons]

/-- The entries that were written read back, in their order. -/
theorem scanMembers_membersText (hfloat : FloatReads floatRepr readFloat)
    {fields : List (String × Json)} (hscalar : ∀ f ∈ fields, f.2.Scalar) (hne : fields ≠ [])
    {fuel : ℕ} (hfuel : fields.length < fuel) (rest : List Char) :
    scanMembers readFloat fuel (membersText (dumpsAsciiFields floatRepr fields) ++ rest) =
      some (fields, rest) := by
  induction fields generalizing fuel with
  | nil => exact absurd rfl hne
  | cons f fields ih =>
    obtain ⟨key, v⟩ := f
    obtain ⟨fuel, rfl⟩ : ∃ k, fuel = k + 2 := ⟨fuel - 2, by
      rw [List.length_cons] at hfuel
      omega⟩
    have hv : v.Scalar := hscalar _ List.mem_cons_self
    rw [dumpsAsciiFields]
    obtain ⟨more, hmore, htext, hnil, hcons⟩ :=
      membersText_cons (key, v.dumpsAscii floatRepr) (dumpsAsciiFields floatRepr fields)
    have hmore' : Delimited (more ++ rest) := by
      obtain ⟨c, r, rfl, hc⟩ := hmore
      exact ⟨c, r ++ rest, rfl, hc⟩
    -- the value is read up to the comma or brace that follows it
    have hvalue := scanValue_dumpsAscii hfloat hv fuel hmore'
    rw [← skipSpace_dumpsAscii hfloat hv (more ++ rest)] at hvalue
    rw [htext]
    simp only [List.cons_append, List.append_assoc]
    rw [scanMembers]
    refine Text.read_of_eq (scanString_quoteAscii key _) ?_
    dsimp only
    rw [skipSpace_cons (by decide)]
    refine Text.read_of_eq hvalue ?_
    dsimp only
    rw [hmore'.skipSpace, String.ofList_toList]
    -- the last member, or one with a tail
    by_cases hfields : fields = []
    · rw [hnil (by rw [hfields, dumpsAsciiFields]), hfields]
      rfl
    · have hwritten : dumpsAsciiFields floatRepr fields ≠ [] := by
        rw [dumpsAsciiFields_eq]
        exact fun h => hfields (List.map_eq_nil_iff.mp h)
      have htail := ih (fun f hf => hscalar f (List.mem_cons_of_mem _ hf)) hfields
        (show fields.length < fuel + 1 by rw [List.length_cons] at hfuel; omega)
      rw [hcons hwritten]
      show Option.map _ (scanMembers readFloat (fuel + 1) (skipSpace (' ' :: (_ ++ rest)))) = _
      rw [skipSpace_membersText hwritten, htail]
      rfl

/-- **An object of scalars that was written reads back, its keys sorted.** -/
theorem loads_dumpsAscii (hfloat : FloatReads floatRepr readFloat) {fields : List (String × Json)}
    (hscalar : ∀ f ∈ fields, f.2.Scalar) (hkeys : (fields.map Prod.fst).Nodup) :
    loads readFloat ((obj fields).dumpsAscii floatRepr) = some (obj (sortFields fields)) := by
  have htext : ((obj fields).dumpsAscii floatRepr).toList =
      '\x7b' :: membersText (dumpsAsciiFields floatRepr (sortFields fields)) := by
    rw [dumpsAscii, dumpsAsciiFields_eq, dumpsAsciiFields_eq, sortFields_map, String.append_assoc,
      String.toList_append, membersText_eq]
    rfl
  have hsorted : ((sortFields fields).map Prod.fst).Nodup :=
    ((sortFields_perm fields).map Prod.fst).nodup_iff.mpr hkeys
  unfold loads
  rw [htext, skipSpace_cons (by decide)]
  cases hfields : sortFields fields with
  | nil =>
    rw [dumpsAsciiFields]
    rfl
  | cons f rest =>
    rw [hfields] at hsorted
    have hwritten : dumpsAsciiFields floatRepr (f :: rest) ≠ [] := by
      rw [dumpsAsciiFields]
      exact List.cons_ne_nil _ _
    -- the text is at least as long as there are members, so the fuel is enough
    have hlength := length_le_membersText (dumpsAsciiFields floatRepr (f :: rest))
    rw [dumpsAsciiFields_eq, List.length_map, ← dumpsAsciiFields_eq] at hlength
    have hscan := scanMembers_membersText hfloat (fun g hg => hscalar g
      ((sortFields_perm fields).subset (hfields ▸ hg))) (List.cons_ne_nil f rest)
      (Nat.lt_succ_of_lt hlength) []
    rw [List.append_nil] at hscan
    obtain ⟨more, -, hhead, -⟩ := membersText_cons (f.1, f.2.dumpsAscii floatRepr)
      (dumpsAsciiFields floatRepr rest)
    have hvalue : scanValue readFloat ((membersText (dumpsAsciiFields floatRepr (f :: rest))).length +
        1 + 1) ('\x7b' :: membersText (dumpsAsciiFields floatRepr (f :: rest))) =
          some (obj (f :: rest), []) := by
      rw [dumpsAsciiFields, hhead] at hscan ⊢
      rw [scanValue, skipSpace_cons (by decide)]
      show Option.map _ (scanMembers readFloat _ _) = _
      rw [hscan, Option.map_some, dictOf_eq hsorted]
    exact Text.read_of_eq hvalue rfl

/-- With different keys, what is looked up is what is there. -/
theorem lookup_eq_some_iff_mem {α : Type} {fields : List (String × α)}
    (hkeys : (fields.map Prod.fst).Nodup) {key : String} {v : α} :
    fields.lookup key = some v ↔ (key, v) ∈ fields := by
  induction fields with
  | nil => simp
  | cons f fields ih =>
    obtain ⟨key', v'⟩ := f
    rw [List.map_cons, List.nodup_cons] at hkeys
    rw [List.lookup_cons, List.mem_cons]
    by_cases hkey : key = key'
    · subst hkey
      have hnew : (key, v) ∉ fields := fun hmem => hkeys.1 (List.mem_map.mpr ⟨_, hmem, rfl⟩)
      simp [hnew, eq_comm]
    · rw [beq_eq_false_iff_ne.mpr hkey]
      dsimp only
      rw [ih hkeys.2]
      simp [hkey]

/-- The entries of an object with different keys do not depend on their order. -/
theorem get?_sortFields {fields : List (String × Json)} (hkeys : (fields.map Prod.fst).Nodup)
    (key : String) : (obj (sortFields fields)).get? key = (obj fields).get? key := by
  have hsorted : ((sortFields fields).map Prod.fst).Nodup :=
    ((sortFields_perm fields).map Prod.fst).nodup_iff.mpr hkeys
  refine Option.ext fun v => ?_
  show (sortFields fields).lookup key = some v ↔ fields.lookup key = some v
  rw [lookup_eq_some_iff_mem hsorted, lookup_eq_some_iff_mem hkeys]
  exact (sortFields_perm fields).mem_iff

end Members

end Json
