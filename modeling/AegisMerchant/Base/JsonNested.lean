import AegisMerchant.Base.Dict
import AegisMerchant.Base.JsonLoads

/-!
# Nested JSON, written in one line and read back

`json.dumps` with its default separators, sorted keys and `ensure_ascii=False`, for values of any
depth, and what `json.loads` makes of the text: the same value with the keys of every object in
order. Nothing here mentions a particular document.

`readsBack` is the induction over a nested value, `loads_write` the round trip it gives, and
`keyed_loads` says that what was read has each key once.
-/

namespace Json

open Numeric

instance decidableForallChar {p : Char → Prop} [DecidablePred p] (s : String) :
    Decidable (∀ c ∈ s.toList, p c) :=
  List.decidableBAll p s.toList

/-! ## Writing -/

/-- A way to write: how a character of a string is escaped, and what follows a separator. Whatever
the way, a reader gets the character back, and takes no character for the end of the string. -/
structure Style where
  escape : Char → List Char
  gap : List Char
  reads : ∀ c rest, readAscii (escape c ++ rest) = some (c, rest)
  head : ∀ c, ∃ d ds, escape c = d :: ds ∧ d ≠ '"'
  plain : ∀ c d, d ∈ escape c → 32 ≤ d.toNat ∧ (d.toNat < 128 ∨ d = c)
  gap_space : gap = [] ∨ gap = [' ']

def Style.quote (style : Style) (s : String) : String :=
  "\"" ++ String.ofList (s.toList.flatMap style.escape) ++ "\""

/-- Between two items. -/
def Style.itemSep (style : Style) : String := String.ofList (',' :: style.gap)

/-- Between a key and its value. -/
def Style.keySep (style : Style) : String := String.ofList (':' :: style.gap)

mutual

/-- `json.dumps(v, sort_keys=True)` in a style. -/
def write (style : Style) (floatRepr : ℚ → String) : Json → String
  | null => "null"
  | bool b => if b then "true" else "false"
  | int n => toString n
  | float q => floatRepr q
  | nonFinite .nan => "NaN"
  | nonFinite .posInf => "Infinity"
  | nonFinite .negInf => "-Infinity"
  | str s => style.quote s
  | arr elems => "[" ++ style.itemSep.intercalate (writeList style floatRepr elems) ++ "]"
  | obj fields =>
    let written := (sortFields (writeFields style floatRepr fields)).map fun f =>
      style.quote f.1 ++ style.keySep ++ f.2
    "\x7b" ++ style.itemSep.intercalate written ++ "\x7d"

def writeList (style : Style) (floatRepr : ℚ → String) : List Json → List String
  | [] => []
  | v :: rest => write style floatRepr v :: writeList style floatRepr rest

def writeFields (style : Style) (floatRepr : ℚ → String) :
    List (String × Json) → List (String × String)
  | [] => []
  | (k, v) :: rest => (k, write style floatRepr v) :: writeFields style floatRepr rest

end

mutual

/-- The value with the keys of every object in order. -/
def sortKeys : Json → Json
  | arr elems => arr (sortKeysList elems)
  | obj fields => obj (sortFields (sortKeysFields fields))
  | v => v

def sortKeysList : List Json → List Json
  | [] => []
  | v :: rest => sortKeys v :: sortKeysList rest

def sortKeysFields : List (String × Json) → List (String × Json)
  | [] => []
  | (k, v) :: rest => (k, sortKeys v) :: sortKeysFields rest

end

theorem writeList_eq (style : Style) (floatRepr : ℚ → String) (elems : List Json) :
    writeList style floatRepr elems = elems.map (write style floatRepr) := by
  induction elems with
  | nil => rw [writeList, List.map_nil]
  | cons v rest ih => rw [writeList, ih, List.map_cons]

theorem writeFields_eq (style : Style) (floatRepr : ℚ → String) (fields : List (String × Json)) :
    writeFields style floatRepr fields = fields.map fun f => (f.1, f.2.write style floatRepr) := by
  induction fields with
  | nil => rw [writeFields, List.map_nil]
  | cons f rest ih => rw [writeFields, ih, List.map_cons]

theorem sortKeysList_eq (elems : List Json) : sortKeysList elems = elems.map sortKeys := by
  induction elems with
  | nil => rw [sortKeysList, List.map_nil]
  | cons v rest ih => rw [sortKeysList, ih, List.map_cons]

theorem sortKeysFields_eq (fields : List (String × Json)) :
    sortKeysFields fields = fields.map fun f => (f.1, f.2.sortKeys) := by
  induction fields with
  | nil => rw [sortKeysFields, List.map_nil]
  | cons f rest ih => rw [sortKeysFields, ih, List.map_cons]

theorem sortKeys_arr (elems : List Json) : (arr elems).sortKeys = arr (elems.map sortKeys) := by
  rw [sortKeys, sortKeysList_eq]

theorem sortKeys_obj (fields : List (String × Json)) :
    (obj fields).sortKeys = obj ((sortFields fields).map fun f => (f.1, f.2.sortKeys)) := by
  rw [sortKeys, sortKeysFields_eq, sortFields_map]

theorem sortKeys_scalar {v : Json} (h : v.Scalar) : v.sortKeys = v := by
  cases v with
  | arr elems => exact h.elim
  | obj fields => exact h.elim
  | _ => simp [sortKeys]

/-! ## Induction over values -/

/-- What holds of scalars, and of a container when it holds of its parts, holds of every value. -/
theorem induct {P : Json → Prop} (hscalar : ∀ v : Json, v.Scalar → P v)
    (harr : ∀ elems, (∀ v ∈ elems, P v) → P (arr elems))
    (hobj : ∀ fields, (∀ f ∈ fields, P (Prod.snd f)) → P (obj fields)) : ∀ v : Json, P v
  | null => hscalar _ trivial
  | bool _ => hscalar _ trivial
  | int _ => hscalar _ trivial
  | float _ => hscalar _ trivial
  | nonFinite _ => hscalar _ trivial
  | str _ => hscalar _ trivial
  | arr elems => harr elems fun v _ => induct hscalar harr hobj v
  | obj fields => hobj fields fun f _ => induct hscalar harr hobj f.2
termination_by v => sizeOf v
decreasing_by
  · have := List.sizeOf_lt_of_mem ‹v ∈ elems›
    simp only [arr.sizeOf_spec]
    omega
  · have := List.sizeOf_lt_of_mem ‹f ∈ fields›
    obtain ⟨k, v⟩ := f
    simp only [obj.sizeOf_spec, Prod.mk.sizeOf_spec] at this ⊢
    omega

/-- Every object of the value has different keys, as a dictionary does. -/
inductive Keyed : Json → Prop
  | scalar {v : Json} (h : v.Scalar) : Keyed v
  | arr {elems : List Json} (h : ∀ v ∈ elems, Keyed v) : Keyed (arr elems)
  | obj {fields : List (String × Json)} (hkeys : (fields.map Prod.fst).Nodup)
      (h : ∀ f ∈ fields, Keyed f.2) : Keyed (obj fields)

/-- No string of the value holds a character of a kind. -/
inductive Without (p : Char → Bool) : Json → Prop
  | scalar {v : Json} (h : v.Scalar) (hstr : ∀ s, v = str s → ∀ c ∈ s.toList, p c = false) :
      Without p v
  | arr {elems : List Json} (h : ∀ v ∈ elems, Without p v) : Without p (arr elems)
  | obj {fields : List (String × Json)} (hkeys : ∀ f ∈ fields, ∀ c ∈ f.1.toList, p c = false)
      (h : ∀ f ∈ fields, Without p f.2) : Without p (obj fields)

/-! ## A string reads back -/

/-- A character that was written reads back. -/
theorem readAscii_escapeChar (c : Char) (rest : List Char) :
    readAscii (escapeChar c ++ rest) = some (c, rest) := by
  have hcode := Char.ofNat_toNat c
  unfold escapeChar
  split
  · next h =>
    rcases h with rfl | rfl
    · rfl
    · rfl
  split
  · next h => subst h; rfl
  split
  · next h => subst h; rfl
  split
  · next h => subst h; rfl
  split
  · next h =>
    rw [h] at hcode
    rw [← hcode]
    rfl
  split
  · next h =>
    rw [h] at hcode
    rw [← hcode]
    rfl
  split
  · next h =>
    -- a control character is four hexadecimal digits, the first two of them zero
    have hread := @readAscii_plane c.toNat (.inl (by omega)) rest
    rw [hcode] at hread
    have hzero : Text.hexDigit (c.toNat / 4096) = '0' ∧ Text.hexDigit (c.toNat / 256) = '0' := by
      rw [Nat.div_eq_of_lt (by omega), Nat.div_eq_of_lt (by omega)]
      exact ⟨rfl, rfl⟩
    rw [unicodeEscape, hzero.1, hzero.2] at hread
    exact hread
  · next hspecial _ _ _ _ _ hcontrol =>
    rw [List.singleton_append, readAscii, if_neg (fun h => hspecial (.inr h)), if_neg hcontrol]

theorem head_escapeChar (c : Char) : ∃ d ds, escapeChar c = d :: ds ∧ d ≠ '"' := by
  unfold escapeChar
  split
  · exact ⟨_, _, rfl, by decide⟩
  split
  · exact ⟨_, _, rfl, by decide⟩
  split
  · exact ⟨_, _, rfl, by decide⟩
  split
  · exact ⟨_, _, rfl, by decide⟩
  split
  · exact ⟨_, _, rfl, by decide⟩
  split
  · exact ⟨_, _, rfl, by decide⟩
  split
  · exact ⟨_, _, rfl, by decide⟩
  · next hspecial _ _ _ _ _ _ => exact ⟨c, [], rfl, fun h => hspecial (.inl h)⟩

/-- A character of ASCII that is no control character. -/
def IsPlain (c : Char) : Prop := 32 ≤ c.toNat ∧ c.toNat < 128

instance (c : Char) : Decidable (IsPlain c) :=
  inferInstanceAs (Decidable (32 ≤ c.toNat ∧ c.toNat < 128))

theorem isPlain_of_isDigit {c : Char} (h : c.isDigit = true) : IsPlain c := by
  simp only [Char.isDigit, Bool.and_eq_true, decide_eq_true_eq] at h
  have hge : '0'.toNat ≤ c.toNat := h.1
  have hle : c.toNat ≤ '9'.toNat := h.2
  exact ⟨(by decide : 32 ≤ '0'.toNat).trans hge, hle.trans_lt (by decide)⟩

theorem IsInteger.ascii {cs : List Char} (h : IsInteger cs) : ∀ c ∈ cs, IsPlain c := by
  obtain ⟨sign, digits, hsign, ⟨-, hdigits⟩, -, rfl⟩ := h
  intro c hc
  rcases List.mem_append.mp hc with hc | hc
  · rcases hsign with rfl | rfl
    · cases hc
    · obtain rfl := List.mem_singleton.mp hc
      exact (by decide : IsPlain '-')
  · exact isPlain_of_isDigit (hdigits c hc)

theorem IsDecimal.ascii {cs : List Char} (h : IsDecimal cs) : ∀ c ∈ cs, IsPlain c := by
  obtain ⟨integer, fraction, exponent, hinteger, hfraction, hexponent, -, rfl⟩ := h
  intro c hc
  rcases List.mem_append.mp hc with hc | hc
  · exact hinteger.ascii c hc
  rcases List.mem_append.mp hc with hc | hc
  · rcases hfraction with rfl | ⟨digits, ⟨-, hdigits⟩, rfl⟩
    · cases hc
    · rcases List.mem_cons.mp hc with rfl | hc
      · exact (by decide : IsPlain '.')
      · exact isPlain_of_isDigit (hdigits c hc)
  · rcases hexponent with rfl | ⟨sign, digits, hsign, ⟨-, hdigits⟩, rfl⟩
    · cases hc
    · rcases List.mem_cons.mp hc with rfl | hc
      · exact (by decide : IsPlain 'e')
      rcases List.mem_append.mp hc with hc | hc
      · rcases hsign with rfl | rfl | rfl
        · cases hc
        · obtain rfl := List.mem_singleton.mp hc
          exact (by decide : IsPlain '+')
        · obtain rfl := List.mem_singleton.mp hc
          exact (by decide : IsPlain '-')
      · exact isPlain_of_isDigit (hdigits c hc)

theorem isPlain_hexDigit (n : ℕ) : IsPlain (Text.hexDigit n) := by
  have h : ∀ m < 16, IsPlain (Nat.digitChar m) := by decide
  exact h _ (Nat.mod_lt n (by decide))

theorem isPlain_pair {d e : Char} (h : d ∈ ['\\', e]) (he : IsPlain e) : IsPlain d := by
  simp only [List.mem_cons, List.not_mem_nil, or_false] at h
  rcases h with rfl | rfl
  · exact (by decide : IsPlain '\\')
  · exact he

theorem isPlain_unicodeEscape {d : Char} {n : ℕ} (h : d ∈ unicodeEscape n) : IsPlain d := by
  simp only [unicodeEscape, List.mem_cons, List.not_mem_nil, or_false] at h
  rcases h with rfl | rfl | rfl | rfl | rfl | rfl
  · exact (by decide : IsPlain '\\')
  · exact (by decide : IsPlain 'u')
  all_goals exact isPlain_hexDigit _

/-- What is written for a character is plain, or the character itself. -/
theorem mem_escapeChar {c d : Char} (h : d ∈ escapeChar c) :
    32 ≤ d.toNat ∧ (d.toNat < 128 ∨ d = c) := by
  have hplain : ∀ {e : Char}, IsPlain e → 32 ≤ e.toNat ∧ (e.toNat < 128 ∨ e = c) :=
    fun he => ⟨he.1, .inl he.2⟩
  unfold escapeChar at h
  split at h
  · next hspecial =>
    refine hplain (isPlain_pair h ?_)
    rcases hspecial with rfl | rfl <;> decide
  split at h
  · exact hplain (isPlain_pair h (by decide))
  split at h
  · exact hplain (isPlain_pair h (by decide))
  split at h
  · exact hplain (isPlain_pair h (by decide))
  split at h
  · exact hplain (isPlain_pair h (by decide))
  split at h
  · exact hplain (isPlain_pair h (by decide))
  split at h
  · simp only [List.mem_cons, List.not_mem_nil, or_false] at h
    rcases h with rfl | rfl | rfl | rfl | rfl | rfl
    · exact hplain (by decide)
    · exact hplain (by decide)
    · exact hplain (by decide)
    · exact hplain (by decide)
    · exact hplain (isPlain_hexDigit _)
    · exact hplain (isPlain_hexDigit _)
  · next hcontrol =>
    obtain rfl := List.mem_singleton.mp h
    exact ⟨Nat.le_of_not_lt hcontrol, .inr rfl⟩

/-- In ASCII, every character that is written is plain. -/
theorem mem_escapeAscii {c d : Char} (h : d ∈ escapeAscii c) : IsPlain d := by
  unfold escapeAscii at h
  split at h
  · next hspecial =>
    refine isPlain_pair h ?_
    rcases hspecial with rfl | rfl <;> decide
  split at h
  · exact isPlain_pair h (by decide)
  split at h
  · exact isPlain_pair h (by decide)
  split at h
  · exact isPlain_pair h (by decide)
  split at h
  · exact isPlain_pair h (by decide)
  split at h
  · exact isPlain_pair h (by decide)
  split at h
  · next hplain =>
    obtain rfl := List.mem_singleton.mp h
    exact ⟨hplain.1, hplain.2.trans (by decide)⟩
  split at h
  · exact isPlain_unicodeEscape h
  · rcases List.mem_append.mp h with h | h
    · exact isPlain_unicodeEscape h
    · exact isPlain_unicodeEscape h

/-! ## The two styles -/

/-- Compact or spaced, with every character beyond ASCII as it is. -/
def rawStyle (gap : List Char) (h : gap = [] ∨ gap = [' ']) : Style where
  escape := escapeChar
  gap := gap
  reads := readAscii_escapeChar
  head := head_escapeChar
  plain := fun _ _ h => mem_escapeChar h
  gap_space := h

/-- Compact or spaced, in ASCII. -/
def asciiStyle (gap : List Char) (h : gap = [] ∨ gap = [' ']) : Style where
  escape := escapeAscii
  gap := gap
  reads := readAscii_escapeAscii
  head := head_escapeAscii
  plain := fun _ _ h => ⟨(mem_escapeAscii h).1, .inl (mem_escapeAscii h).2⟩
  gap_space := h

section Strings

variable (style : Style)

theorem length_le_escape (s : List Char) : s.length ≤ (s.flatMap style.escape).length := by
  induction s with
  | nil => exact Nat.le_refl 0
  | cons c s ih =>
    obtain ⟨d, ds, hd, -⟩ := style.head c
    rw [List.flatMap_cons, hd, List.length_append, List.length_cons, List.length_cons]
    omega

/-- A string that was written reads back, up to its closing quote. -/
theorem scanString_escape {s : List Char} {fuel : ℕ} (h : s.length < fuel) (rest : List Char) :
    scanString fuel (s.flatMap style.escape ++ '"' :: rest) = some (s, rest) := by
  induction s generalizing fuel with
  | nil =>
    cases fuel with
    | zero => cases h
    | succ fuel => rfl
  | cons c s ih =>
    cases fuel with
    | zero => cases h
    | succ fuel =>
      -- one character of the string is one escape of the text
      have hread := style.reads c (s.flatMap style.escape ++ '"' :: rest)
      obtain ⟨d, ds, hd, hquote⟩ := style.head c
      rw [hd, List.cons_append] at hread
      rw [List.flatMap_cons, List.append_assoc, hd, List.cons_append]
      unfold scanString
      split
      · cases ‹_›
      · next hhead => exact absurd (List.cons.inj hhead).1 hquote
      · next hfuel hcs =>
        obtain rfl := Nat.succ.inj hfuel
        exact Text.read_of_eq hread (Text.read_of_eq (ih (Nat.lt_of_succ_lt_succ h)) rfl)

theorem toList_quote (s : String) :
    (style.quote s).toList = '"' :: (s.toList.flatMap style.escape ++ ['"']) := by
  simp only [Style.quote, String.toList_append, String.toList_ofList]
  rfl

/-- A quoted string reads back, with the fuel its text gives. -/
theorem scanString_quote (s : String) (rest : List Char) :
    scanString (s.toList.flatMap style.escape ++ '"' :: rest).length
      (s.toList.flatMap style.escape ++ '"' :: rest) = some (s.toList, rest) := by
  refine scanString_escape style ?_ rest
  have := length_le_escape style s.toList
  rw [List.length_append, List.length_cons]
  omega

end Strings

/-! ## Items between brackets -/

/-- Items as they are written, up to the closing bracket. -/
def itemsText (style : Style) (close : Char) : List (List Char) → List Char
  | [] => [close]
  | [i] => i ++ [close]
  | i :: j :: rest => i ++ ',' :: (style.gap ++ itemsText style close (j :: rest))

theorem itemsText_eq (style : Style) (close : Char) (items : List String) :
    (style.itemSep.intercalate items).toList ++ [close] =
      itemsText style close (items.map String.toList) := by
  induction items with
  | nil => rfl
  | cons i rest ih =>
    cases rest with
    | nil =>
      rw [String.intercalate_singleton]
      rfl
    | cons j rest =>
      rw [String.intercalate_cons_cons, String.toList_append, String.toList_append,
        List.append_assoc, List.append_assoc, ih, Style.itemSep, String.toList_ofList,
        List.cons_append]
      rfl

/-- What follows an item: the closing bracket, or a separator and the other items. -/
theorem itemsText_cons (style : Style) (close : Char) (i : List Char) (rest : List (List Char)) :
    ∃ more, itemsText style close (i :: rest) = i ++ more ∧ (rest = [] → more = [close]) ∧
      (rest ≠ [] → more = ',' :: (style.gap ++ itemsText style close rest)) := by
  cases rest with
  | nil => exact ⟨[close], rfl, fun _ => rfl, fun h => absurd rfl h⟩
  | cons j rest =>
    exact ⟨',' :: (style.gap ++ itemsText style close (j :: rest)), rfl, by simp, fun _ => rfl⟩

/-- A text that no reader takes for a space or for the end of a container. -/
def Headed (cs : List Char) : Prop :=
  ∃ d ds, cs = d :: ds ∧ d ∉ [' ', '\t', '\n', '\r', ']', '\x7d']

theorem Headed.append {cs : List Char} (h : Headed cs) (more : List Char) : Headed (cs ++ more) := by
  obtain ⟨d, ds, rfl, hd⟩ := h
  exact ⟨d, ds ++ more, rfl, hd⟩

theorem Headed.skipSpace {cs : List Char} (h : Headed cs) : skipSpace cs = cs := by
  obtain ⟨d, ds, rfl, hd⟩ := h
  refine skipSpace_cons (fun hmem => hd ?_) ds
  simp only [List.mem_cons, List.not_mem_nil, or_false] at hmem ⊢
  tauto

/-- What follows a separator is skipped, and no more. -/
theorem Headed.skipGap {cs : List Char} (h : Headed cs) (style : Style) :
    Json.skipSpace (style.gap ++ cs) = cs := by
  rcases style.gap_space with hgap | hgap
  · rw [hgap]
    exact h.skipSpace
  · rw [hgap]
    exact (List.dropWhile_cons_of_pos (by decide)).trans h.skipSpace

theorem Headed.itemsText {style : Style} {close : Char} {i : List Char} {rest : List (List Char)}
    (h : Headed i) : Headed (itemsText style close (i :: rest)) := by
  obtain ⟨more, htext, -⟩ := itemsText_cons style close i rest
  rw [htext]
  exact h.append more

theorem IsInteger.headed {cs : List Char} (h : IsInteger cs) : Headed cs := by
  obtain ⟨d, ds, rfl, hd⟩ := h.head
  refine ⟨d, ds, rfl, fun hmem => ?_⟩
  simp only [List.mem_cons, List.not_mem_nil, or_false] at hmem
  rcases hmem with rfl | rfl | rfl | rfl | rfl | rfl <;> exact absurd hd (by decide)

theorem headed_quote (style : Style) (s : String) : Headed (style.quote s).toList := by
  rw [toList_quote]
  exact ⟨_, _, rfl, by decide⟩

section Reading

variable {style : Style} {floatRepr : ℚ → String} {readFloat : String → ExtRat}

/-- Every value starts with a character of its own. -/
theorem headed_write (hfloat : FloatReads floatRepr readFloat) (v : Json) :
    Headed (v.write style floatRepr).toList := by
  cases v with
  | null =>
    rw [write]
    exact ⟨_, _, rfl, by decide⟩
  | bool b =>
    rw [write]
    cases b
    · exact ⟨_, _, rfl, by decide⟩
    · exact ⟨_, _, rfl, by decide⟩
  | int n =>
    rw [write]
    exact (isInteger_toString n).headed
  | float q =>
    obtain ⟨integer, fraction, exponent, hinteger, -, -, -, htext⟩ := hfloat.decimal q
    rw [write, htext]
    exact hinteger.headed.append _
  | nonFinite x =>
    cases x
    · rw [write]
      exact ⟨_, _, rfl, by decide⟩
    · rw [write]
      exact ⟨_, _, rfl, by decide⟩
    · rw [write]
      exact ⟨_, _, rfl, by decide⟩
  | str s =>
    rw [write]
    exact headed_quote style s
  | arr elems =>
    rw [write, String.append_assoc, String.toList_append]
    exact ⟨_, _, rfl, by decide⟩
  | obj fields =>
    rw [write, String.append_assoc, String.toList_append]
    exact ⟨_, _, rfl, by decide⟩

/-- The text of an array, bracket by bracket. -/
theorem toList_write_arr (elems : List Json) : ((arr elems).write style floatRepr).toList =
    '[' :: itemsText style ']' (elems.map fun v => (v.write style floatRepr).toList) := by
  have hclose : "]".toList = [']'] := rfl
  rw [write, String.append_assoc, String.toList_append, String.toList_append, hclose,
    itemsText_eq, writeList_eq, List.map_map]
  rfl

def entryText (style : Style) (floatRepr : ℚ → String) (f : String × Json) : List Char :=
  (style.quote f.1).toList ++ ':' :: (style.gap ++ (f.2.write style floatRepr).toList)

/-- The text of an object: its entries in the order of their keys. -/
theorem toList_write_obj (fields : List (String × Json)) :
    ((obj fields).write style floatRepr).toList =
      '\x7b' :: itemsText style '\x7d' ((sortFields fields).map (entryText style floatRepr)) := by
  have hclose : "\x7d".toList = ['\x7d'] := rfl
  rw [write, String.append_assoc, String.toList_append, String.toList_append, hclose,
    itemsText_eq, writeFields_eq, sortFields_map, List.map_map, List.map_map]
  refine congrArg (fun items => '\x7b' :: itemsText style '\x7d' items)
    (List.map_congr_left fun f _ => ?_)
  simp only [Function.comp_apply, String.toList_append, List.append_assoc, Style.keySep,
    String.toList_ofList, List.cons_append]
  rfl

theorem headed_entryText (f : String × Json) : Headed (entryText style floatRepr f) :=
  (headed_quote style f.1).append _

/-! ## Values read back -/

/-- A value reads back from its text, whatever stops it. -/
def ReadsBack (style : Style) (floatRepr : ℚ → String) (readFloat : String → ExtRat) (v : Json) :
    Prop :=
  ∀ fuel rest, (v.write style floatRepr).toList.length < fuel → Stops rest →
    scanValue readFloat fuel ((v.write style floatRepr).toList ++ rest) = some (v.sortKeys, rest)

/-- A separator or a closing bracket stops a number. -/
theorem stops_of_head {c : Char} {cs : List Char} (h : c = ',' ∨ c = ']' ∨ c = '\x7d') :
    Stops (c :: cs) := by
  intro d hd
  obtain rfl := Option.some.inj hd
  rcases h with rfl | rfl | rfl <;> decide

theorem readsBack_scalar (hfloat : FloatReads floatRepr readFloat) {v : Json} (hv : v.Scalar) :
    ReadsBack style floatRepr readFloat v := by
  intro fuel rest hfuel hrest
  obtain ⟨fuel, rfl⟩ : ∃ k, fuel = k + 1 := ⟨fuel - 1, by omega⟩
  rw [sortKeys_scalar hv]
  cases v with
  | null =>
    rw [write]
    rfl
  | bool b =>
    rw [write]
    cases b <;> rfl
  | int n =>
    rw [write]
    exact scanValue_number (isInteger_toString n) (scanNumber_toString readFloat n hrest)
  | float q =>
    have hread := @scanValue_decimal readFloat fuel _ rest (hfloat.decimal q) hrest
    rw [hfloat.reads q] at hread
    rw [write]
    exact hread
  | nonFinite x =>
    cases x with
    | nan => rw [write]; rfl
    | posInf => rw [write]; rfl
    | negInf => rw [write]; rfl
  | str s =>
    rw [write, toList_quote, List.cons_append, List.append_assoc, List.singleton_append,
      scanValue, scanString_quote, Option.map_some, String.ofList_toList]
  | arr elems => exact hv.elim
  | obj fields => exact hv.elim

/-- The elements of an array read back, one after another. -/
theorem scanElements_itemsText (hfloat : FloatReads floatRepr readFloat) {elems : List Json}
    (h : ∀ v ∈ elems, ReadsBack style floatRepr readFloat v) (hne : elems ≠ []) {fuel : ℕ}
    (hfuel : (itemsText style ']' (elems.map fun v => (v.write style floatRepr).toList)).length < fuel)
    (rest : List Char) :
    scanElements readFloat fuel
      (itemsText style ']' (elems.map fun v => (v.write style floatRepr).toList) ++ rest) =
        some (elems.map sortKeys, rest) := by
  induction elems generalizing fuel with
  | nil => exact absurd rfl hne
  | cons v elems ih =>
    obtain ⟨fuel, rfl⟩ : ∃ k, fuel = k + 1 := ⟨fuel - 1, by omega⟩
    rw [List.map_cons] at hfuel ⊢
    obtain ⟨more, htext, hlast, hmore⟩ := itemsText_cons style ']' (v.write style floatRepr).toList
      (elems.map fun v => (v.write style floatRepr).toList)
    rw [htext, List.length_append] at hfuel
    rw [htext, List.append_assoc, scanElements, List.map_cons]
    -- the last element is followed by the bracket, any other by a comma
    by_cases helems : elems = []
    · have hmore' := hlast (by rw [helems]; rfl)
      subst helems
      subst hmore'
      have hvalue := h v List.mem_cons_self fuel (']' :: rest) (by simp at hfuel; omega)
        (stops_of_head (.inr (.inl rfl)))
      exact Text.read_of_eq hvalue rfl
    · have hmore' := hmore (by simpa using helems)
      subst hmore'
      have hvalue := h v List.mem_cons_self fuel
        (',' :: (style.gap ++ itemsText style ']'
          (elems.map fun v => (v.write style floatRepr).toList)) ++ rest)
        (by simp at hfuel; omega) (stops_of_head (.inl rfl))
      refine Text.read_of_eq hvalue ?_
      obtain ⟨w, others, rfl⟩ := List.exists_cons_of_ne_nil helems
      have htail := ih (fun w hw => h w (List.mem_cons_of_mem v hw)) helems
        (show _ < fuel by
          simp only [List.length_cons, List.length_append] at hfuel ⊢
          omega)
      have hhead : Headed (itemsText style ']' ((w :: others).map fun v =>
          (v.write style floatRepr).toList) ++ rest) :=
        (Headed.itemsText (headed_write hfloat w)).append rest
      show Option.map _ (scanElements readFloat fuel (skipSpace ((style.gap ++ _) ++ rest))) = _
      rw [List.append_assoc, hhead.skipGap, htail]
      rfl

/-- The entries of an object read back, one after another. -/
theorem scanMembers_itemsText (hfloat : FloatReads floatRepr readFloat)
    {fields : List (String × Json)} (h : ∀ f ∈ fields, ReadsBack style floatRepr readFloat f.2)
    (hne : fields ≠ []) {fuel : ℕ}
    (hfuel : (itemsText style '\x7d' (fields.map (entryText style floatRepr))).length < fuel)
    (rest : List Char) :
    scanMembers readFloat fuel (itemsText style '\x7d' (fields.map (entryText style floatRepr)) ++ rest) =
      some (fields.map fun f => (f.1, f.2.sortKeys), rest) := by
  induction fields generalizing fuel with
  | nil => exact absurd rfl hne
  | cons f fields ih =>
    obtain ⟨key, v⟩ := f
    obtain ⟨fuel, rfl⟩ : ∃ k, fuel = k + 1 := ⟨fuel - 1, by omega⟩
    rw [List.map_cons] at hfuel ⊢
    obtain ⟨more, htext, hlast, hmore⟩ :=
      itemsText_cons style '\x7d' (entryText style floatRepr (key, v))
        (fields.map (entryText style floatRepr))
    rw [htext, List.length_append, entryText, List.length_append, List.length_cons,
      List.length_append] at hfuel
    have hread : ∀ tail, Stops (more ++ tail) →
        scanValue readFloat fuel (skipSpace (style.gap ++ ((v.write style floatRepr).toList ++
          (more ++ tail)))) = some (v.sortKeys, more ++ tail) := by
      intro tail hstops
      rw [((headed_write hfloat v).append _).skipGap]
      refine h (key, v) List.mem_cons_self fuel (more ++ tail) ?_ hstops
      dsimp only at hfuel ⊢
      omega
    rw [htext, entryText, toList_quote]
    simp only [List.cons_append, List.append_assoc, List.nil_append]
    rw [scanMembers, List.map_cons]
    refine Text.read_of_eq (scanString_quote style key _) ?_
    dsimp only
    rw [skipSpace_cons (by decide)]
    -- as for the elements: a brace after the last member, a comma after the others
    by_cases hfields : fields = []
    · have hmore' := hlast (by rw [hfields]; rfl)
      subst hfields
      subst hmore'
      refine Text.read_of_eq (hread rest (stops_of_head (.inr (.inr rfl)))) ?_
      rw [String.ofList_toList]
      rfl
    · have hmore' := hmore (by simpa using hfields)
      subst hmore'
      refine Text.read_of_eq (hread rest (stops_of_head (.inl rfl))) ?_
      obtain ⟨g, others, rfl⟩ := List.exists_cons_of_ne_nil hfields
      have htail := ih (fun w hw => h w (List.mem_cons_of_mem _ hw)) hfields
        (show _ < fuel by
          simp only [List.length_cons, List.length_append] at hfuel ⊢
          omega)
      have hhead : Headed (itemsText style '\x7d' ((g :: others).map (entryText style floatRepr)) ++
          rest) := (Headed.itemsText (headed_entryText g)).append rest
      show Option.map _ (scanMembers readFloat fuel (skipSpace ((style.gap ++ _) ++ rest))) = _
      rw [List.append_assoc, hhead.skipGap, htail, String.ofList_toList]
      rfl

/-- **Every value reads back**, the keys of its objects sorted. -/
theorem readsBack (hfloat : FloatReads floatRepr readFloat) {v : Json} (hv : v.Keyed) :
    ReadsBack style floatRepr readFloat v := by
  induction v using induct with
  | hscalar v hscalar => exact readsBack_scalar hfloat hscalar
  | harr elems ih =>
    -- induction on the value: the elements read back, so the array does
    have helems : ∀ v ∈ elems, ReadsBack style floatRepr readFloat v := by
      cases hv with
      | scalar h => exact h.elim
      | arr h => exact fun v hv => ih v hv (h v hv)
    intro fuel rest hfuel _
    obtain ⟨fuel, rfl⟩ : ∃ k, fuel = k + 1 := ⟨fuel - 1, by omega⟩
    rw [toList_write_arr] at hfuel ⊢
    rw [sortKeys_arr, List.cons_append, scanValue]
    by_cases hempty : elems = []
    · subst hempty
      rfl
    · have hscan := scanElements_itemsText hfloat helems hempty
        (show _ < fuel by simp only [List.length_cons] at hfuel; omega) rest
      obtain ⟨v, others, rfl⟩ := List.exists_cons_of_ne_nil hempty
      have hhead : Headed (itemsText style ']' ((v :: others).map fun v =>
          (v.write style floatRepr).toList) ++ rest) :=
        (Headed.itemsText (headed_write hfloat v)).append rest
      rw [hhead.skipSpace]
      obtain ⟨d, ds, htext, hd⟩ := hhead
      rw [htext] at hscan ⊢
      split
      · next hclose => exact absurd (List.cons.inj hclose).1 (by rintro rfl; simp at hd)
      · rw [hscan]
        rfl
  | hobj fields ih =>
    obtain ⟨hkeys, hfields⟩ : (fields.map Prod.fst).Nodup ∧
        ∀ f ∈ fields, ReadsBack style floatRepr readFloat f.2 := by
      cases hv with
      | scalar h => exact h.elim
      | obj hkeys h => exact ⟨hkeys, fun f hf => ih f hf (h f hf)⟩
    -- the members are written in the order of their keys, which are distinct
    have hsorted : ((sortFields fields).map Prod.fst).Nodup :=
      ((sortFields_perm fields).map Prod.fst).nodup_iff.mpr hkeys
    intro fuel rest hfuel _
    obtain ⟨fuel, rfl⟩ : ∃ k, fuel = k + 1 := ⟨fuel - 1, by omega⟩
    rw [toList_write_obj] at hfuel ⊢
    rw [sortKeys_obj, List.cons_append, scanValue]
    by_cases hempty : sortFields fields = []
    · rw [hempty]
      rfl
    · have hscan := scanMembers_itemsText hfloat
        (fun f hf => hfields f ((sortFields_perm fields).subset hf)) hempty
        (show _ < fuel by simp only [List.length_cons] at hfuel; omega) rest
      have hdict : dictOf ((sortFields fields).map fun f => (f.1, f.2.sortKeys)) =
          (sortFields fields).map fun f => (f.1, f.2.sortKeys) :=
        dictOf_eq (by rw [List.map_map]; exact hsorted)
      obtain ⟨f, others, hcons⟩ := List.exists_cons_of_ne_nil hempty
      have hhead : Headed
          (itemsText style '\x7d' ((sortFields fields).map (entryText style floatRepr)) ++ rest) := by
        rw [hcons]
        exact (Headed.itemsText (headed_entryText f)).append rest
      rw [hhead.skipSpace]
      obtain ⟨d, ds, htext, hd⟩ := hhead
      rw [htext] at hscan ⊢
      split
      · next hclose => exact absurd (List.cons.inj hclose).1 (by rintro rfl; simp at hd)
      · rw [hscan, Option.map_some, hdict]

/-- **The round trip of a document.** -/
theorem loads_write (hfloat : FloatReads floatRepr readFloat) {v : Json} (hv : v.Keyed) :
    loads readFloat (v.write style floatRepr) = some v.sortKeys := by
  have hread := readsBack hfloat hv ((v.write style floatRepr).toList.length + 1) []
    (Nat.lt_succ_self _) fun c hc => by cases hc
  rw [List.append_nil] at hread
  rw [loads, (headed_write hfloat v).skipSpace]
  exact Text.read_of_eq hread rfl

/-- Two values with the same text are the same, up to the order of keys. -/
theorem sortKeys_eq_of_write_eq (hfloat : FloatReads floatRepr readFloat) {v w : Json}
    (hv : v.Keyed) (hw : w.Keyed) (h : v.write style floatRepr = w.write style floatRepr) :
    v.sortKeys = w.sortKeys := by
  have hread := @loads_write style _ _ hfloat _ hv
  rw [h, loads_write hfloat hw] at hread
  exact (Option.some.inj hread).symm

end Reading

/-! ## The text is canonical -/

theorem sortFields_eq {α : Type} {fields : List (String × α)}
    (h : fields.Pairwise fun a b => a.1 ≤ b.1) : sortFields fields = fields :=
  List.Pairwise.insertionSort_eq h

theorem pairwise_sortFields {α : Type} (fields : List (String × α)) :
    (sortFields fields).Pairwise fun a b => a.1 ≤ b.1 :=
  List.pairwise_insertionSort _ _

/-- A value and its sorted form have the same text. -/
theorem write_sortKeys (style : Style) (floatRepr : ℚ → String) (v : Json) :
    v.sortKeys.write style floatRepr = v.write style floatRepr := by
  induction v using induct with
  | hscalar v hscalar => rw [sortKeys_scalar hscalar]
  | harr elems ih =>
    have hsame : (elems.map sortKeys).map (write style floatRepr) =
        elems.map (write style floatRepr) := by
      rw [List.map_map]
      exact List.map_congr_left ih
    rw [sortKeys_arr, write, write, writeList_eq, writeList_eq, hsame]
  | hobj fields ih =>
    -- fields that are sorted are sorted to themselves
    have hsorted : ((sortFields fields).map fun f => (f.1, f.2.sortKeys)).Pairwise
        fun a b => a.1 ≤ b.1 := List.pairwise_map.mpr (pairwise_sortFields fields)
    have hsame : ((sortFields fields).map fun f => (f.1, f.2.sortKeys)).map (fun f =>
        (f.1, f.2.write style floatRepr)) =
          (sortFields fields).map fun f => (f.1, f.2.write style floatRepr) := by
      rw [List.map_map]
      exact List.map_congr_left fun f hf =>
        Prod.ext rfl (ih f ((sortFields_perm fields).subset hf))
    rw [sortKeys_obj, write, write, writeFields_eq, writeFields_eq,
      sortFields_map (write style floatRepr), sortFields_map (write style floatRepr),
      sortFields_eq hsorted, hsame]

/-- Sorting keeps the keys different. -/
theorem Keyed.sortKeys {v : Json} (hv : v.Keyed) : v.sortKeys.Keyed := by
  induction hv with
  | scalar h => exact (sortKeys_scalar h).symm ▸ .scalar h
  | arr h ih =>
    rw [sortKeys_arr]
    refine .arr fun v hv => ?_
    obtain ⟨w, hw, rfl⟩ := List.mem_map.mp hv
    exact ih w hw
  | @obj fields hkeys h ih =>
    rw [sortKeys_obj]
    refine .obj ?_ fun f hf => ?_
    · rw [List.map_map]
      exact (((sortFields_perm fields).map Prod.fst).nodup_iff).mpr hkeys
    · obtain ⟨g, hg, rfl⟩ := List.mem_map.mp hf
      exact ih g ((sortFields_perm fields).subset hg)

theorem Without.sortKeys {p : Char → Bool} {v : Json} (hv : v.Without p) :
    v.sortKeys.Without p := by
  induction hv with
  | scalar h hstr => exact (sortKeys_scalar h).symm ▸ .scalar h hstr
  | arr h ih =>
    rw [sortKeys_arr]
    refine .arr fun v hv => ?_
    obtain ⟨w, hw, rfl⟩ := List.mem_map.mp hv
    exact ih w hw
  | @obj fields hkeys h ih =>
    rw [sortKeys_obj]
    refine .obj (fun f hf => ?_) fun f hf => ?_
    all_goals obtain ⟨g, hg, rfl⟩ := List.mem_map.mp hf
    · exact hkeys g ((sortFields_perm fields).subset hg)
    · exact ih g ((sortFields_perm fields).subset hg)

/-- Sorting the keys sorts those of every value looked up. -/
theorem get?_sortKeys {v : Json} (hv : v.Keyed) (key : String) :
    v.sortKeys.get? key = (v.get? key).map sortKeys := by
  cases v with
  | obj fields =>
    have hkeys : (fields.map Prod.fst).Nodup := by
      cases hv with
      | scalar h => exact h.elim
      | obj hkeys _ => exact hkeys
    have hsame : ((fields.map fun f => (f.1, f.2.sortKeys)).map Prod.fst).Nodup := by
      rw [List.map_map]
      exact hkeys
    rw [sortKeys, sortKeysFields_eq, get?_sortFields hsame]
    exact Dict.lookup_map sortKeys fields key
  | _ => simp [sortKeys, get?]

/-! ## Which characters are written -/

/-- What holds of the separators and of every item holds of the whole. -/
theorem forall_itemsText {style : Style} {P : Char → Prop} {close : Char} {items : List (List Char)}
    (hclose : P close) (hcomma : P ',') (hspace : P ' ') (h : ∀ i ∈ items, ∀ c ∈ i, P c) :
    ∀ c ∈ itemsText style close items, P c := by
  -- between two items stands a comma and at most one space
  have hgap : ∀ c ∈ style.gap, P c := by
    intro c hc
    rcases style.gap_space with hempty | hone
    · rw [hempty] at hc
      cases hc
    · rw [hone] at hc
      exact List.mem_singleton.mp hc ▸ hspace
  induction items with
  | nil =>
    intro c hc
    exact List.mem_singleton.mp hc ▸ hclose
  | cons i rest ih =>
    obtain ⟨more, htext, hlast, hmore⟩ := itemsText_cons style close i rest
    intro c hc
    rw [htext] at hc
    rcases List.mem_append.mp hc with hc | hc
    · exact h i List.mem_cons_self c hc
    · by_cases hrest : rest = []
      · rw [hlast hrest] at hc
        exact List.mem_singleton.mp hc ▸ hclose
      · rw [hmore hrest] at hc
        rcases List.mem_cons.mp hc with rfl | hc
        · exact hcomma
        rcases List.mem_append.mp hc with hc | hc
        · exact hgap c hc
        · exact ih (fun j hj => h j (List.mem_cons_of_mem _ hj)) c hc

section Written

variable {style : Style} {floatRepr : ℚ → String} {readFloat : String → ExtRat} {p : Char → Bool}

/-- A character of a text without characters of a kind: plain, or beyond ASCII and of no such kind. -/
def Written (p : Char → Bool) (c : Char) : Prop := IsPlain c ∨ 128 ≤ c.toNat ∧ p c = false

theorem written_quote {s : String} (h : ∀ c ∈ s.toList, p c = false) :
    ∀ c ∈ (style.quote s).toList, Written p c := by
  intro c hc
  rw [toList_quote] at hc
  rcases List.mem_cons.mp hc with rfl | hc
  · exact .inl (by decide)
  rcases List.mem_append.mp hc with hc | hc
  · obtain ⟨d, hd, hc⟩ := List.mem_flatMap.mp hc
    obtain ⟨hge, hlt | rfl⟩ := style.plain d c hc
    · exact .inl ⟨hge, hlt⟩
    · by_cases hlt : c.toNat < 128
      · exact .inl ⟨hge, hlt⟩
      · exact .inr ⟨Nat.le_of_not_lt hlt, h c hd⟩
  · obtain rfl := List.mem_singleton.mp hc
    exact .inl (by decide)

/-- **A kind of character that no string of a value holds is not in its text**, plain characters
apart. -/
theorem written_write (hfloat : FloatReads floatRepr readFloat) {v : Json} (hv : v.Without p) :
    ∀ c ∈ (v.write style floatRepr).toList, Written p c := by
  induction v using induct with
  | hscalar v hscalar =>
    cases hv with
    | scalar _ hstr =>
      cases v with
      | null =>
        rw [write]
        exact fun c hc => .inl ((by decide : ∀ c ∈ "null".toList, IsPlain c) c hc)
      | bool b =>
        rw [write]
        cases b
        · exact fun c hc => .inl ((by decide : ∀ c ∈ "false".toList, IsPlain c) c hc)
        · exact fun c hc => .inl ((by decide : ∀ c ∈ "true".toList, IsPlain c) c hc)
      | int n =>
        rw [write]
        exact fun c hc => .inl ((isInteger_toString n).ascii c hc)
      | float q =>
        rw [write]
        exact fun c hc => .inl ((hfloat.decimal q).ascii c hc)
      | nonFinite x =>
        cases x
        · rw [write]
          exact fun c hc => .inl ((by decide : ∀ c ∈ "NaN".toList, IsPlain c) c hc)
        · rw [write]
          exact fun c hc => .inl ((by decide : ∀ c ∈ "Infinity".toList, IsPlain c) c hc)
        · rw [write]
          exact fun c hc => .inl ((by decide : ∀ c ∈ "-Infinity".toList, IsPlain c) c hc)
      | str s =>
        rw [write]
        exact written_quote (hstr s rfl)
      | arr elems => exact hscalar.elim
      | obj fields => exact hscalar.elim
    | arr h => exact hscalar.elim
    | obj hkeys h => exact hscalar.elim
  | harr elems ih =>
    -- the items, and the commas and spaces between them
    have helems : ∀ v ∈ elems, v.Without p := by
      cases hv with
      | scalar h => exact h.elim
      | arr h => exact h
    intro c hc
    rw [toList_write_arr] at hc
    rcases List.mem_cons.mp hc with rfl | hc
    · exact .inl (by decide)
    · refine forall_itemsText (.inl (by decide)) (.inl (by decide))
        (.inl (by decide)) (fun i hi => ?_) c hc
      obtain ⟨v, hv, rfl⟩ := List.mem_map.mp hi
      exact ih v hv (helems v hv)
  | hobj fields ih =>
    obtain ⟨hkeys, hfields⟩ : (∀ f ∈ fields, ∀ c ∈ f.1.toList, p c = false) ∧
        ∀ f ∈ fields, f.2.Without p := by
      cases hv with
      | scalar h => exact h.elim
      | obj hkeys h => exact ⟨hkeys, h⟩
    intro c hc
    rw [toList_write_obj] at hc
    rcases List.mem_cons.mp hc with rfl | hc
    · exact .inl (by decide)
    · refine forall_itemsText (.inl (by decide)) (.inl (by decide))
        (.inl (by decide)) (fun i hi => ?_) c hc
      obtain ⟨f, hf, rfl⟩ := List.mem_map.mp hi
      have hf := (sortFields_perm fields).subset hf
      intro c hc
      rcases List.mem_append.mp hc with hc | hc
      -- the key, the colon with its space, then the value
      · exact written_quote (hkeys f hf) c hc
      rcases List.mem_cons.mp hc with rfl | hc
      · exact .inl (by decide)
      rcases List.mem_append.mp hc with hc | hc
      · rcases style.gap_space with hgap | hgap
        · rw [hgap] at hc
          cases hc
        · rw [hgap] at hc
          obtain rfl := List.mem_singleton.mp hc
          exact .inl (by decide)
      · exact ih f hf (hfields f hf) c hc

end Written

/-! ## What is read has different keys -/

/-- A dictionary has different keys, and nothing but the pairs it was made of. -/
theorem dictOf_spec {α : Type} (pairs : List (String × α)) :
    ((dictOf pairs).map Prod.fst).Nodup ∧ ∀ f ∈ dictOf pairs, f ∈ pairs := by
  obtain ⟨hnodup, hmem⟩ := Dict.foldl_set_spec pairs [] List.nodup_nil
  exact ⟨hnodup, fun f hf => (hmem f hf).resolve_left List.not_mem_nil⟩

theorem scalar_ofFloat (x : ExtRat) : (ofFloat x).Scalar := by
  cases x <;> trivial

theorem scalar_scanNumber {readFloat : String → ExtRat} {cs rest : List Char} {v : Json}
    (h : scanNumber readFloat cs = some (v, rest)) : v.Scalar := by
  unfold scanNumber at h
  obtain ⟨m, -, h⟩ := Option.bind_eq_some_iff.mp h
  dsimp only at h
  split at h
  · obtain ⟨rfl, -⟩ := Prod.mk.inj (Option.some.inj h)
    trivial
  · obtain ⟨rfl, -⟩ := Prod.mk.inj (Option.some.inj h)
    exact scalar_ofFloat _

theorem scalar_scanWord {cs rest : List Char} {v : Json} (h : scanWord cs = some (v, rest)) :
    v.Scalar := by
  obtain ⟨w, hw, hv⟩ := Option.map_eq_some_iff.mp h
  obtain ⟨rfl, -⟩ := Prod.mk.inj hv
  have hmem := List.mem_of_find?_eq_some hw
  simp only [words, List.mem_cons, List.not_mem_nil, or_false] at hmem
  rcases hmem with rfl | rfl | rfl | rfl | rfl | rfl <;> trivial

/-- The readers of values, of entries and of elements, with the same fuel. -/
theorem keyed_scan (readFloat : String → ExtRat) (fuel : ℕ) :
    (∀ cs v rest, scanValue readFloat fuel cs = some (v, rest) → v.Keyed) ∧
      (∀ cs m rest, scanMembers readFloat fuel cs = some (m, rest) → ∀ f ∈ m, f.2.Keyed) ∧
        ∀ cs e rest, scanElements readFloat fuel cs = some (e, rest) → ∀ v ∈ e, v.Keyed := by
  -- the three scanners call one another, so they go together, on the fuel
  induction fuel with
  | zero =>
    refine ⟨fun cs v rest h => ?_, fun cs m rest h => ?_, fun cs e rest h => ?_⟩
    · rw [scanValue] at h
      cases h
    · rw [scanMembers] at h
      · cases h
      · rintro _ _ ⟨⟩
    · rw [scanElements] at h
      cases h
  | succ fuel ih =>
    obtain ⟨hvalue, hmembers, helements⟩ := ih
    refine ⟨fun cs v rest h => ?_, fun cs m rest h => ?_, fun cs e rest h => ?_⟩
    · unfold scanValue at h
      split at h
      · cases ‹_›
      · obtain ⟨s, -, hs⟩ := Option.map_eq_some_iff.mp h
        obtain ⟨rfl, -⟩ := Prod.mk.inj hs
        exact .scalar trivial
      · next hfuel =>
        obtain rfl := Nat.succ.inj hfuel
        split at h
        · obtain ⟨rfl, -⟩ := Prod.mk.inj (Option.some.inj h)
          exact .obj List.nodup_nil (by simp)
        · obtain ⟨m, hm, hv⟩ := Option.map_eq_some_iff.mp h
          obtain ⟨rfl, -⟩ := Prod.mk.inj hv
          -- of members with one key the last is kept, so the keys are distinct
          obtain ⟨hnodup, hmem⟩ := dictOf_spec m.1
          exact .obj hnodup fun f hf => hmembers _ m.1 m.2 hm f (hmem f hf)
      · next hfuel =>
        obtain rfl := Nat.succ.inj hfuel
        split at h
        · obtain ⟨rfl, -⟩ := Prod.mk.inj (Option.some.inj h)
          exact .arr (by simp)
        · obtain ⟨e, he, hv⟩ := Option.map_eq_some_iff.mp h
          obtain ⟨rfl, -⟩ := Prod.mk.inj hv
          exact .arr (helements _ e.1 e.2 he)
      · rcases Option.or_eq_some_iff.mp h with h | ⟨-, h⟩
        · exact .scalar (scalar_scanNumber h)
        · exact .scalar (scalar_scanWord h)
    · unfold scanMembers at h
      split at h
      · next hfuel =>
        obtain rfl := Nat.succ.inj hfuel
        obtain ⟨s, -, h⟩ := Option.bind_eq_some_iff.mp h
        dsimp only at h
        split at h
        · obtain ⟨x, hx, h⟩ := Option.bind_eq_some_iff.mp h
          have hfirst := hvalue _ x.1 x.2 hx
          split at h
          · obtain ⟨rfl, -⟩ := Prod.mk.inj (Option.some.inj h)
            intro f hf
            rw [List.mem_singleton.mp hf]
            exact hfirst
          · obtain ⟨n, hn, h⟩ := Option.map_eq_some_iff.mp h
            obtain ⟨rfl, -⟩ := Prod.mk.inj h
            intro f hf
            rcases List.mem_cons.mp hf with rfl | hf
            · exact hfirst
            · exact hmembers _ n.1 n.2 hn f hf
          · cases h
        · cases h
      · cases h
    · rw [scanElements] at h
      obtain ⟨x, hx, h⟩ := Option.bind_eq_some_iff.mp h
      have hfirst := hvalue _ x.1 x.2 hx
      dsimp only at h
      split at h
      · obtain ⟨rfl, -⟩ := Prod.mk.inj (Option.some.inj h)
        intro v hv
        rw [List.mem_singleton.mp hv]
        exact hfirst
      · obtain ⟨n, hn, h⟩ := Option.map_eq_some_iff.mp h
        obtain ⟨rfl, -⟩ := Prod.mk.inj h
        intro v hv
        rcases List.mem_cons.mp hv with rfl | hv
        · exact hfirst
        · exact helements _ n.1 n.2 hn v hv
      · cases h

/-- **Whatever `json.loads` answers**, its objects have different keys. -/
theorem keyed_loads {readFloat : String → ExtRat} {s : String} {v : Json}
    (h : loads readFloat s = some v) : v.Keyed := by
  obtain ⟨x, hx, h⟩ := Option.bind_eq_some_iff.mp h
  dsimp only at h
  split at h
  · obtain rfl := Option.some.inj h
    exact (keyed_scan readFloat _).1 _ x.1 x.2 hx
  · cases h

end Json
