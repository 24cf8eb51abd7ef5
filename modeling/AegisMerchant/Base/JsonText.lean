import AegisMerchant.Base.Json
import AegisMerchant.Base.Reading
import Mathlib.Data.List.Forall2

/-!
# Reading JSON strings back

What a string is written as ends where its closing quote stands: two strings that are written alike,
up to there, are the same. And a number holds no comma. Nothing here mentions a particular document.
-/

namespace Json

/-- The character a letter stands for after a backslash. -/
def unescape (c : Char) : Char :=
  if c = 'n' then '\n' else if c = 'r' then '\r' else if c = 't' then '\t'
  else if c = 'b' then Char.ofNat 8 else if c = 'f' then Char.ofNat 12 else c

/-- The value of a digit. -/
def hexValue (c : Char) : ℕ := "0123456789abcdef".toList.idxOf c

/-- What follows a backslash, read back, and the rest. -/
def readEscape : List Char → Option (Char × List Char)
  | c :: rest =>
    if c = 'u' then
      match rest with
      | _ :: _ :: high :: low :: rest => some (Char.ofNat (16 * hexValue high + hexValue low), rest)
      | _ => none
    else some (unescape c, rest)
  | [] => none

/-- One character of a JSON string, read back, and the rest. -/
def readChar : List Char → Option (Char × List Char)
  | c :: rest => if c = '\\' then readEscape rest else some (c, rest)
  | [] => none

theorem hexValue_hexDigit : ∀ n < 32, 16 * hexValue (Text.hexDigit (n / 16)) +
    hexValue (Text.hexDigit n) = n := by decide

/-- A character that was written reads back. -/
theorem readChar_escapeChar (c : Char) (rest : List Char) :
    readChar (escapeChar c ++ rest) = some (c, rest) := by
  unfold escapeChar
  split
  · next h => rcases h with rfl | rfl <;> rfl
  · next h =>
    split
    · next h => subst h; rfl
    · split
      · next h => subst h; rfl
      · split
        · next h => subst h; rfl
        · split
          · next h => rw [← Char.ofNat_toNat c, h]; rfl
          · split
            · next h => rw [← Char.ofNat_toNat c, h]; rfl
            · split
              · next h =>
                show some (Char.ofNat _, rest) = _
                rw [hexValue_hexDigit _ h, Char.ofNat_toNat]
              · rw [List.singleton_append, readChar, if_neg fun hc => h (.inr hc)]

/-- A string that was written reads back: two that are written alike, up to their closing quotes, are
the same. -/
theorem escape_inj : ∀ {s s' rest rest' : List Char},
    s.flatMap escapeChar ++ '"' :: rest = s'.flatMap escapeChar ++ '"' :: rest' → s = s' := by
  have hquote : ∀ {c : Char} {s rest rest' : List Char},
      '"' :: rest ≠ (c :: s).flatMap escapeChar ++ '"' :: rest' := by
    intro c s rest rest' h
    have hread := readChar_escapeChar c (s.flatMap escapeChar ++ '"' :: rest')
    rw [← List.append_assoc, ← List.flatMap_cons, ← h] at hread
    obtain ⟨rfl, -⟩ := Prod.mk.inj (Option.some.inj hread)
    rw [List.flatMap_cons] at h
    cases h
  intro s
  induction s with
  | nil =>
    rintro (_ | ⟨c, s'⟩) rest rest' h
    · rfl
    · exact absurd h hquote
  | cons c s ih =>
    rintro (_ | ⟨c', s'⟩) rest rest' h
    · exact absurd h.symm hquote
    · rw [List.flatMap_cons, List.flatMap_cons, List.append_assoc, List.append_assoc] at h
      have hread := readChar_escapeChar c (s.flatMap escapeChar ++ '"' :: rest)
      rw [h, readChar_escapeChar] at hread
      obtain ⟨rfl, htail⟩ := Prod.mk.inj (Option.some.inj hread)
      rw [ih htail.symm]

/-- A number is written without a comma. -/
theorem ne_comma_of_mem_toString {n : ℤ} {c : Char} (h : c ∈ (toString n).toList) : c ≠ ',' := by
  rintro rfl
  rcases Text.mem_toString_int h with h | h
  · exact absurd h (by decide)
  · exact absurd h (by decide)

/-! ## Objects with the same keys -/

/-- What follows a value in an object: a comma or the closing brace. -/
def Delimited (rest : List Char) : Prop := ∃ c r, rest = c :: r ∧ (c = ',' ∨ c = '\x7d')

/-- Two texts that are the same as soon as they start, delimited, the same text. -/
def Separates (s s' : String) : Prop :=
  ∀ rest rest' : List Char, Delimited rest → Delimited rest' →
    s.toList ++ rest = s'.toList ++ rest' → s = s'

def Plain (s : String) : Prop := ∀ c ∈ s.toList, c ≠ ',' ∧ c ≠ '\x7d'

/-- Texts without delimiters end at the first one. -/
theorem separates_plain {s s' : String} (hs : Plain s) (hs' : Plain s') : Separates s s' := by
  intro rest rest' hrest hrest' h
  have hcut : ∀ {t : String} {r : List Char}, Plain t → Delimited r →
      (t.toList ++ r).takeWhile (fun c => decide (c ≠ ',' ∧ c ≠ '\x7d')) = t.toList := by
    rintro t r ht ⟨c, r, rfl, hc⟩
    rw [List.takeWhile_append_of_pos fun d hd => decide_eq_true (ht d hd),
      List.takeWhile_cons_of_neg, List.append_nil]
    rcases hc with rfl | rfl <;> decide
  rw [← String.toList_inj, ← hcut hs hrest, h, hcut hs' hrest']

/-- Quoted strings end at their closing quotes. -/
theorem separates_quote (s s' : String) : Separates (quote s) (quote s') := by
  intro rest rest' _ _ h
  simp only [quote, String.toList_append, String.toList_ofList, List.append_assoc] at h
  have hs : s.toList = s'.toList := escape_inj (List.append_cancel_left h)
  rw [String.toList_inj.mp hs]

theorem quote_inj {s s' : String} (h : quote s = quote s') : s = s' := by
  have hlist := congrArg String.toList h
  simp only [quote, String.toList_append, String.toList_ofList, List.append_assoc] at hlist
  exact String.toList_inj.mp (escape_inj (List.append_cancel_left hlist))

/-- The fields of an object as they are written, the closing brace last. -/
def fieldsText (fields : List (String × String)) : String :=
  ",".intercalate (fields.map fun f => quote f.1 ++ ":" ++ f.2) ++ "\x7d"

theorem fieldsText_cons (f : String × String) (rest : List (String × String)) :
    ∃ more, Delimited more ∧
      (fieldsText (f :: rest)).toList = (quote f.1 ++ ":").toList ++ (f.2.toList ++ more) ∧
      ∀ g tail, rest = g :: tail → more = ',' :: (fieldsText rest).toList := by
  cases rest with
  | nil =>
    refine ⟨['\x7d'], ⟨_, [], rfl, .inr rfl⟩, ?_, fun g tail h => by cases h⟩
    simp only [fieldsText, List.map_cons, List.map_nil, String.intercalate_singleton,
      String.toList_append, List.append_assoc]
    rfl
  | cons g tail =>
    refine ⟨',' :: (fieldsText (g :: tail)).toList, ⟨_, _, rfl, .inl rfl⟩, ?_, fun _ _ _ => rfl⟩
    simp only [fieldsText, List.map_cons, String.intercalate_cons_cons, String.toList_append,
      List.append_assoc]
    rfl

/-- **Two objects with the same keys that are written alike have the same values.** -/
theorem fieldsText_inj {fields fields' : List (String × String)}
    (hkeys : List.Forall₂ (fun f f' => f.1 = f'.1 ∧ Separates f.2 f'.2) fields fields')
    (h : (fieldsText fields).toList = (fieldsText fields').toList) : fields = fields' := by
  induction hkeys with
  | nil => rfl
  | @cons f f' rest rest' hf hrest ih =>
    obtain ⟨more, hmore, htext, hnext⟩ := fieldsText_cons f rest
    obtain ⟨more', hmore', htext', hnext'⟩ := fieldsText_cons f' rest'
    rw [htext, htext', hf.1] at h
    have hvalue := List.append_cancel_left h
    have hsame := hf.2 more more' hmore hmore' hvalue
    rw [hsame] at hvalue
    have htail := List.append_cancel_left hvalue
    rw [Prod.ext hf.1 hsame]
    cases hrest with
    | nil => rfl
    | @cons g g' tail tail' hg htails =>
      rw [hnext _ _ rfl, hnext' _ _ rfl] at htail
      rw [ih (List.cons.inj htail).2]

end Json
