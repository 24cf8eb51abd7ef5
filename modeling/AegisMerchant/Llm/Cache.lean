import AegisMerchant.Base.JsonNested
import AegisMerchant.Base.Lines
import AegisMerchant.Guardrails.Reissue
import Mathlib.Data.List.TakeWhile

/-!
# The file of cached responses

`ResponseCache`: one JSON object a line. What a file means, line by line, and that a saved cache is
loaded again as it was, unless a string in it holds one of the line breaks that JSON does not
escape.

`ResponseCache.load_means` is the meaning of a file, `ResponseCache.load_save` the round trip.
-/

namespace AegisMerchant

open Numeric

namespace ResponseCache

/-! ## The dictionary of the responses -/

/-- A key of a dictionary: a text, a number (a bool is one), or `None`. -/
inductive EntryKey where
  | text (s : String)
  | number (x : ExtRat)
  | none
  deriving DecidableEq

/-- What `load` and `save` raise. -/
inductive Error where
  /-- `.get` of a line that is no object. -/
  | attributeError
  | unhashable (typeName : String)
  /-- `<` between keys of two kinds. -/
  | unorderable
  deriving DecidableEq

def entryKey : Json → Except Error EntryKey
  | .null => .ok .none
  | .bool b => .ok (.number (.fin (if b then 1 else 0)))
  | .int n => .ok (.number (.fin n))
  | .float q => .ok (.number (.fin q))
  | .nonFinite .nan => .ok (.number .nan)
  | .nonFinite .posInf => .ok (.number .posInf)
  | .nonFinite .negInf => .ok (.number .negInf)
  | .str s => .ok (.text s)
  | .arr _ => .error (.unhashable "list")
  | .obj _ => .error (.unhashable "dict")

abbrev Entries := List (EntryKey × Json)

/-- `get`, of a text. -/
def get (entries : Entries) (key : String) : Option Json := entries.lookup (.text key)

def put (entries : Entries) (key : String) (row : Json) : Entries :=
  Dict.set entries (.text key) row

/-! ## Loading -/

/-- The entry on a line; none if it is blank, not JSON, or without a key. -/
def readLine (readFloat : String → ExtRat) (line : List Char) :
    Except Error (Option (EntryKey × Json)) :=
  if Text.strip (String.ofList line) = "" then .ok none
  else
    match Json.loads readFloat (String.ofList line) with
    | none => .ok none
    | some (.obj fields) =>
      match (Json.obj fields).getTrue? "cache_key" with
      | none => .ok none
      | some key => (entryKey key).map fun k => some (k, .obj fields)
    | some _ => .error .attributeError

/-- One turn of the loop over the lines. -/
def loadLine (readFloat : String → ExtRat) (entries : Entries) (line : List Char) :
    Except Error Entries :=
  (readLine readFloat line).map fun e => e.elim entries fun e => Dict.set entries e.1 e.2

/-- The lines of a text, as `read_text` and `splitlines` give them. -/
def linesOf (text : String) : List (List Char) :=
  Text.splitlines (Text.universalNewlines text.toList)

theorem linesOf_eq (text : String) : linesOf text = Text.splitlines text.toList :=
  Text.splitlines_universalNewlines text.toList

/-- `ResponseCache.load`, of a file that is there or not. -/
def load (readFloat : String → ExtRat) (file : Option String) : Except Error Entries :=
  match file with
  | none => .ok []
  | some text => (linesOf text).foldlM (loadLine readFloat) []

/-! ## Saving -/

/-- The kinds of keys that `<` orders among themselves. -/
def EntryKey.kind : EntryKey → ℕ
  | text _ => 0
  | number _ => 1
  | none => 2

/-- The order of keys of one kind. -/
def EntryKey.Le : EntryKey → EntryKey → Prop
  | text s, text t => s ≤ t
  | number x, number y => ¬ExtRat.Lt y x
  | _, _ => True

instance : DecidableRel EntryKey.Le := fun a b => by
  cases a <;> cases b <;> unfold EntryKey.Le <;> infer_instance

theorem extRat_asymm {x y : ExtRat} (h : ExtRat.Lt x y) : ¬ExtRat.Lt y x := by
  cases x <;> cases y <;> simp only [ExtRat.Lt, not_false_eq_true] at h ⊢
  exact lt_asymm h

theorem EntryKey.le_total (a b : EntryKey) : a.Le b ∨ b.Le a := by
  cases a <;> cases b <;> simp only [EntryKey.Le, or_true]
  · exact String.le_total _ _
  · next x y => exact not_and_or.mp fun ⟨hyx, hxy⟩ => extRat_asymm hyx hxy

/-- `sorted(self.entries)`, with the rows. -/
def sortEntries (entries : Entries) : Except Error Entries :=
  if entries.Pairwise fun a b => a.1.kind = b.1.kind then
    .ok (entries.insertionSort fun a b => a.1.Le b.1)
  else .error .unorderable

/-- How a row is written: with the default separators, keys sorted, `ensure_ascii=False`. -/
def rowStyle : Json.Style := Json.rawStyle [' '] (.inr rfl)

def rowLine (floatRepr : ℚ → String) (row : Json) : List Char :=
  (row.write rowStyle floatRepr).toList

/-- `save`: the text of the file. -/
def save (floatRepr : ℚ → String) (entries : Entries) : Except Error String :=
  (sortEntries entries).map fun sorted =>
    String.ofList (Text.unlines (sorted.map fun e => rowLine floatRepr e.2))

/-! ## What a file means -/

def Loadable (readFloat : String → ExtRat) (line : List Char) : Prop :=
  Text.strip (String.ofList line) = "" ∨ Json.loads readFloat (String.ofList line) = none ∨
    ∃ fields, Json.loads readFloat (String.ofList line) = some (.obj fields) ∧
      ∀ key, (Json.obj fields).getTrue? "cache_key" = some key →
        ¬(∃ elems, key = .arr elems) ∧ ¬∃ entries, key = .obj entries

/-- The entries that lines file, in their order. -/
def filed (readFloat : String → ExtRat) (lines : List (List Char)) : Entries :=
  lines.filterMap fun line =>
    match readLine readFloat line with
    | .ok e => e
    | .error _ => none

structure Filed (e : EntryKey × Json) : Prop where
  keyed : e.2.Keyed
  key : ∃ fields key, e.2 = .obj fields ∧ (Json.obj fields).getTrue? "cache_key" = some key ∧
    entryKey key = .ok e.1

def Files (readFloat : String → ExtRat) (line : List Char) (e : EntryKey × Json) : Prop :=
  readLine readFloat line = .ok (some e)

section Loading

variable {readFloat : String → ExtRat}

theorem entryKey_isOk {key : Json} :
    (∃ k, entryKey key = .ok k) ↔ ¬(∃ elems, key = .arr elems) ∧ ¬∃ entries, key = .obj entries := by
  cases key with
  | arr elems => exact ⟨fun h => (by obtain ⟨_, ⟨⟩⟩ := h), fun h => absurd ⟨elems, rfl⟩ h.1⟩
  | obj entries => exact ⟨fun h => (by obtain ⟨_, ⟨⟩⟩ := h), fun h => absurd ⟨entries, rfl⟩ h.2⟩
  | nonFinite x => cases x <;> exact ⟨fun _ => ⟨by simp, by simp⟩, fun _ => ⟨_, rfl⟩⟩
  | _ => exact ⟨fun _ => ⟨by simp, by simp⟩, fun _ => ⟨_, rfl⟩⟩

/-- A line is read without an error if it is blank, no JSON, or an object with no key that does not
hash. -/
theorem readLine_isOk {line : List Char} :
    (∃ e, readLine readFloat line = .ok e) ↔ Loadable readFloat line := by
  unfold readLine Loadable
  -- a line is blank, no JSON, no object, or an object with or without a key
  by_cases hblank : Text.strip (String.ofList line) = ""
  · rw [if_pos hblank]
    exact ⟨fun _ => .inl hblank, fun _ => ⟨_, rfl⟩⟩
  · rw [if_neg hblank]
    cases hloads : Json.loads readFloat (String.ofList line) with
    | none => exact ⟨fun _ => .inr (.inl rfl), fun _ => ⟨_, rfl⟩⟩
    | some row =>
      cases row with
      | obj fields =>
        dsimp only
        cases hkey : (Json.obj fields).getTrue? "cache_key" with
        | none => exact ⟨fun _ => .inr (.inr ⟨fields, rfl, by simp [hkey]⟩), fun _ => ⟨_, rfl⟩⟩
        -- what an object's key is decides
        | some key =>
          dsimp only
          constructor
          · rintro ⟨e, he⟩
            refine .inr (.inr ⟨fields, rfl, fun key' hkey' => ?_⟩)
            obtain rfl : key = key' := Option.some.inj (hkey.symm.trans hkey')
            refine entryKey_isOk.mp ?_
            cases hentry : entryKey key with
            | ok k => exact ⟨k, rfl⟩
            | error x =>
              rw [hentry] at he
              cases he
          · rintro (h | h | ⟨fields', hfields', h⟩)
            · exact absurd h hblank
            · cases h
            · obtain rfl := Json.obj.inj (Option.some.inj hfields')
              obtain ⟨k, hk⟩ := entryKey_isOk.mpr (h key hkey)
              exact ⟨_, by rw [hk]; rfl⟩
      | _ =>
        constructor
        · rintro ⟨e, he⟩
          cases he
        · rintro (h | h | ⟨fields', hfields', -⟩)
          · exact absurd h hblank
          · cases h
          · cases hfields'

/-- What a line files carries its key. -/
theorem Files.filed {line : List Char} {e : EntryKey × Json} (h : Files readFloat line e) :
    Filed e := by
  unfold Files readLine at h
  split at h
  · cases h
  · split at h
    · cases h
    · next fields hloads =>
      split at h
      · cases h
      · next key hkey =>
        cases hentry : entryKey key with
        | error x =>
          rw [hentry] at h
          cases h
        | ok k =>
          rw [hentry] at h
          obtain rfl := Option.some.inj (Except.ok.inj h)
          exact ⟨Json.keyed_loads hloads, fields, key, rfl, hkey, hentry⟩
    · cases h

theorem loadLine_isOk {entries : Entries} {line : List Char} :
    (∃ after, loadLine readFloat entries line = .ok after) ↔ Loadable readFloat line := by
  rw [← readLine_isOk, loadLine]
  cases readLine readFloat line with
  | ok e => exact ⟨fun _ => ⟨e, rfl⟩, fun _ => ⟨_, rfl⟩⟩
  | error x => exact ⟨fun h => (by obtain ⟨_, ⟨⟩⟩ := h), fun h => (by obtain ⟨_, ⟨⟩⟩ := h)⟩

theorem foldlM_loadLine_isOk {lines : List (List Char)} {entries : Entries} :
    (∃ after, lines.foldlM (loadLine readFloat) entries = .ok after) ↔
      ∀ line ∈ lines, Loadable readFloat line := by
  induction lines generalizing entries with
  | nil => exact ⟨fun _ => by simp, fun _ => ⟨entries, rfl⟩⟩
  | cons line lines ih =>
    rw [List.forall_mem_cons, ← @loadLine_isOk readFloat entries line]
    constructor
    · rintro ⟨after, h⟩
      rw [List.foldlM_cons] at h
      cases hline : loadLine readFloat entries line with
      | error x =>
        rw [hline] at h
        cases h
      | ok mid =>
        rw [hline] at h
        exact ⟨⟨mid, rfl⟩, ih.mp ⟨after, h⟩⟩
    · rintro ⟨⟨mid, hline⟩, hlines⟩
      obtain ⟨after, hafter⟩ := (@ih mid).mpr hlines
      exact ⟨after, by rw [List.foldlM_cons, hline]; exact hafter⟩

/-- Lines that load write the entries they file, one after another. -/
theorem foldlM_loadLine {lines : List (List Char)} {before after : Entries}
    (h : lines.foldlM (loadLine readFloat) before = .ok after) :
    after = (filed readFloat lines).foldl (fun d e => Dict.set d e.1 e.2) before := by
  induction lines generalizing before with
  | nil => exact (Except.ok.inj h).symm
  | cons line lines ih =>
    rw [List.foldlM_cons, loadLine] at h
    rw [filed, List.filterMap_cons]
    cases hread : readLine readFloat line with
    | error x =>
      rw [hread] at h
      cases h
    | ok found =>
      rw [hread] at h
      cases found with
      | none => exact ih h
      | some e => exact ih h

theorem mem_filed {lines : List (List Char)} {e : EntryKey × Json} :
    e ∈ filed readFloat lines ↔ ∃ line ∈ lines, Files readFloat line e := by
  unfold filed Files
  rw [List.mem_filterMap]
  refine exists_congr fun line => and_congr_right fun _ => ?_
  cases readLine readFloat line with
  | error x => exact ⟨fun h => (by cases h), fun h => (by cases h)⟩
  | ok found => exact ⟨fun h => congrArg Except.ok h, fun h => Except.ok.inj h⟩

/-- **What a file of responses means.** It loads exactly when every line of it is blank, no JSON, or
an object whose key hashes. A key then stands for the last row that carries it, and every row is
under its own key. -/
theorem load_means (readFloat : String → ExtRat) (text : String) :
    ((∃ entries, load readFloat (some text) = .ok entries) ↔
      ∀ line ∈ linesOf text, Loadable readFloat line) ∧
    ∀ entries, load readFloat (some text) = .ok entries →
      (entries.map Prod.fst).Nodup ∧ (∀ e ∈ entries, Filed e) ∧
        ∀ k, entries.lookup k = (filed readFloat (linesOf text)).reverse.lookup k := by
  refine ⟨foldlM_loadLine_isOk, fun entries h => ?_⟩
  have hfold := foldlM_loadLine h
  obtain ⟨hdifferent, hmem⟩ := Dict.foldl_set_spec (filed readFloat (linesOf text)) []
    List.nodup_nil
  refine ⟨hfold ▸ hdifferent, fun e he => ?_, fun k => ?_⟩
  · obtain ⟨line, -, hfiles⟩ := mem_filed.mp ((hmem e (hfold ▸ he)).resolve_left List.not_mem_nil)
    exact hfiles.filed
  · rw [hfold, Dict.lookup_foldl_set, List.lookup_nil, Option.or_none]

end Loading

/-! ## A saved cache is loaded again -/

/-- A line break beyond ASCII, which `ensure_ascii=False` leaves as it is in a string. -/
def isWideBreak (c : Char) : Bool := c.toNat == 0x85 || c.toNat == 0x2028 || c.toNat == 0x2029

theorem isLineBreak_of_written {c : Char} (h : Json.Written isWideBreak c) :
    Text.isLineBreak c = false := by
  unfold Text.isLineBreak
  rcases h with ⟨hge, hlt⟩ | ⟨hge, hwide⟩
  · simp
    omega
  · simp only [isWideBreak, Bool.or_eq_false_iff, beq_eq_false_iff_ne] at hwide
    simp
    omega

section Saving

variable {floatRepr : ℚ → String} {readFloat : String → ExtRat}

theorem unbroken_rowLine (hfloat : Json.FloatReads floatRepr readFloat) {row : Json}
    (h : row.Without isWideBreak) : Text.Unbroken (rowLine floatRepr row) := fun c hc =>
  isLineBreak_of_written (Json.written_write hfloat h c hc)

/-- A key that hashes has no parts. -/
theorem scalar_of_entryKey {key : Json} {k : EntryKey} (h : entryKey key = .ok k) : key.Scalar := by
  cases key with
  | arr elems => cases h
  | obj fields => cases h
  | _ => trivial

/-- A text that starts with a brace is not blank. -/
theorem strip_brace (cs : List Char) : Text.strip (String.ofList ('\x7b' :: cs)) ≠ "" := by
  intro h
  have hempty := congrArg String.toList h
  rw [Text.strip, String.toList_ofList, String.toList_ofList,
    List.dropWhile_cons_of_neg (by decide), List.reverse_cons] at hempty
  rw [String.toList_ofList] at hempty
  have hspace := List.dropWhile_eq_nil_iff.mp (List.reverse_eq_nil_iff.mp hempty) '\x7b'
    (List.mem_append_right _ List.mem_cons_self)
  exact absurd hspace (by decide)

/-- The line of a row files it. -/
theorem files_rowLine (hfloat : Json.FloatReads floatRepr readFloat) {e : EntryKey × Json}
    (h : Filed e) : Files readFloat (rowLine floatRepr e.2) (e.1, e.2.sortKeys) := by
  obtain ⟨k, row⟩ := e
  obtain ⟨hkeyed, fields, key, rfl, htrue, hkey⟩ := h
  have htext : ∃ cs, rowLine floatRepr (.obj fields) = '\x7b' :: cs := ⟨_, Json.toList_write_obj fields⟩
  have hloads := @Json.loads_write rowStyle floatRepr readFloat hfloat _ hkeyed
  have hread : Json.loads readFloat (String.ofList (rowLine floatRepr (.obj fields))) =
      some (.obj ((Json.sortFields fields).map fun f => (f.1, f.2.sortKeys))) := by
    rw [rowLine, String.ofList_toList, hloads, Json.sortKeys_obj]
  obtain ⟨cs, hcs⟩ := htext
  -- sorting the fields moves the key and does not change it
  have hsorted : (Json.obj ((Json.sortFields fields).map fun f => (f.1, f.2.sortKeys))).getTrue?
      "cache_key" = some key := by
    obtain ⟨hget, htruthy⟩ := Option.filter_eq_some_iff.mp htrue
    rw [← Json.sortKeys_obj, Json.getTrue?, Json.get?_sortKeys hkeyed, hget, Option.map_some,
      Json.sortKeys_scalar (scalar_of_entryKey hkey)]
    exact Option.filter_eq_some_iff.mpr ⟨rfl, htruthy⟩
  unfold Files readLine
  rw [if_neg (hcs ▸ strip_brace cs), hread, Json.sortKeys_obj]
  dsimp only
  rw [hsorted]
  dsimp only
  rw [hkey]
  rfl

/-- Rows of different keys that are loaded from their lines. -/
theorem foldlM_rowLines (hfloat : Json.FloatReads floatRepr readFloat) {entries before : Entries}
    (hfiled : ∀ e ∈ entries, Filed e) (hkeys : ((before ++ entries).map Prod.fst).Nodup) :
    (entries.map fun e => rowLine floatRepr e.2).foldlM (loadLine readFloat) before =
      .ok (before ++ entries.map fun e => (e.1, e.2.sortKeys)) := by
  induction entries generalizing before with
  | nil =>
    rw [List.map_nil, List.map_nil, List.append_nil]
    rfl
  | cons e rest ih =>
    -- the keys are distinct, so each line appends its entry
    have hnew : e.1 ∉ before.map Prod.fst := by
      rw [List.map_append, List.map_cons] at hkeys
      exact fun hmem => (List.nodup_append.mp hkeys).2.2 _ hmem _ List.mem_cons_self rfl
    have hline : loadLine readFloat before (rowLine floatRepr e.2) =
        .ok (before ++ [(e.1, e.2.sortKeys)]) := by
      have hfiles := files_rowLine hfloat (hfiled e List.mem_cons_self)
      unfold Files at hfiles
      rw [loadLine, hfiles]
      exact congrArg Except.ok (if_neg hnew)
    have hrest := @ih (before ++ [(e.1, e.2.sortKeys)])
      (fun f hf => hfiled f (List.mem_cons_of_mem e hf)) (by simpa using hkeys)
    rw [List.map_cons, List.foldlM_cons, hline, List.map_cons]
    refine hrest.trans ?_
    rw [List.append_assoc]
    rfl

/-- Sorting orders the entries that are there. -/
theorem sortEntries_perm {entries sorted : Entries} (h : sortEntries entries = .ok sorted) :
    sorted.Perm entries := by
  unfold sortEntries at h
  split at h
  · obtain rfl := Except.ok.inj h
    exact List.perm_insertionSort _ _
  · cases h

/-- Sorting again changes nothing. -/
theorem sortEntries_sorted {entries sorted : Entries} (h : sortEntries entries = .ok sorted)
    (g : Json → Json) :
    sortEntries (sorted.map fun e => (e.1, g e.2)) = .ok (sorted.map fun e => (e.1, g e.2)) := by
  have hperm := sortEntries_perm h
  unfold sortEntries at h
  split at h
  · next hkind =>
    have hsame : sorted.insertionSort (fun a b => a.1.Le b.1) = sorted := by
      rw [← Except.ok.inj h]
      exact Dict.insertionSort_insertionSort (fun a b => EntryKey.le_total a.1 b.1) entries
    have hkinds : (sorted.map fun e => (e.1, g e.2)).Pairwise fun a b => a.1.kind = b.1.kind :=
      List.pairwise_map.mpr ((hperm.pairwise_iff fun h => h.symm).mpr hkind)
    rw [sortEntries, if_pos hkinds, ← List.map_insertionSort (fun a b : EntryKey × Json =>
      a.1.Le b.1) _ (fun e => (e.1, g e.2)) sorted fun _ _ _ _ => Iff.rfl, hsame]
  · cases h

/-- **The round trip of the cache.** What was saved is loaded again: the same keys, and under each
key its row with the keys of its objects in order, if no string of a row holds a line break beyond
ASCII. Saved once more it is the same text, and what is appended to the file is read after it. -/
theorem load_save (hfloat : Json.FloatReads floatRepr readFloat) {entries : Entries} {text : String}
    (hdifferent : (entries.map Prod.fst).Nodup) (hfiled : ∀ e ∈ entries, Filed e)
    (hbreaks : ∀ e ∈ entries, e.2.Without isWideBreak) (hsave : save floatRepr entries = .ok text) :
    ∃ reloaded, load readFloat (some text) = .ok reloaded ∧
      (∀ k, reloaded.lookup k = (entries.lookup k).map Json.sortKeys) ∧
      save floatRepr reloaded = .ok text ∧
      ∀ more, load readFloat (some (text ++ more)) =
        (linesOf more).foldlM (loadLine readFloat) reloaded := by
  obtain ⟨sorted, hsorted, rfl⟩ : ∃ sorted, sortEntries entries = .ok sorted ∧
      text = String.ofList (Text.unlines (sorted.map fun e => rowLine floatRepr e.2)) := by
    unfold save at hsave
    cases hsort : sortEntries entries with
    | ok sorted =>
      rw [hsort] at hsave
      exact ⟨sorted, rfl, (Except.ok.inj hsave).symm⟩
    | error x =>
      rw [hsort] at hsave
      cases hsave
  have hperm := sortEntries_perm hsorted
  have hmem : ∀ e ∈ sorted, e ∈ entries := fun e he => hperm.subset he
  have hkeys : (sorted.map Prod.fst).Nodup := ((hperm.map Prod.fst).nodup_iff).mpr hdifferent
  -- no row breaks in the middle, so the text splits at the ends of the rows
  have hlines : ∀ more, linesOf (String.ofList (Text.unlines (sorted.map fun e =>
      rowLine floatRepr e.2)) ++ more) =
        (sorted.map fun e => rowLine floatRepr e.2) ++ linesOf more := by
    intro more
    rw [linesOf_eq, linesOf_eq, String.toList_append, String.toList_ofList,
      Text.splitlines_append (Text.ended_unlines _), Text.splitlines_unlines]
    intro line hline
    obtain ⟨e, he, rfl⟩ := List.mem_map.mp hline
    exact unbroken_rowLine hfloat (hbreaks e (hmem e he))
  have hload : (sorted.map fun e => rowLine floatRepr e.2).foldlM (loadLine readFloat) [] =
      .ok (sorted.map fun e => (e.1, e.2.sortKeys)) :=
    foldlM_rowLines hfloat (fun e he => hfiled e (hmem e he)) (by rwa [List.nil_append])
  have happend : ∀ more, load readFloat (some (String.ofList (Text.unlines (sorted.map fun e =>
      rowLine floatRepr e.2)) ++ more)) = (linesOf more).foldlM (loadLine readFloat)
        (sorted.map fun e => (e.1, e.2.sortKeys)) := by
    intro more
    rw [load, hlines, List.foldlM_append, hload]
    rfl
  refine ⟨sorted.map fun e => (e.1, e.2.sortKeys), ?_, fun k => ?_, ?_, happend⟩
  · have hall := happend ""
    rwa [String.append_empty] at hall
  · rw [Dict.lookup_map, Dict.lookup_perm hperm hkeys]
  · rw [save, sortEntries_sorted hsorted]
    refine congrArg Except.ok (congrArg String.ofList (congrArg Text.unlines ?_))
    rw [List.map_map]
    exact List.map_congr_left fun e _ =>
      congrArg String.toList (Json.write_sortKeys rowStyle floatRepr e.2)

end Saving

/-! ## Two lines -/

/-- A response with a line break in it. -/
def twoLines : Json :=
  .obj [("response", .obj [("reasoning", .str "bank\nfault"), ("confidence", .float (1 / 2))]),
    ("cache_key", .str "00a2"), ("input_tokens", .int 647)]

theorem filed_twoLines : Filed (.text "00a2", twoLines) where
  keyed := by
    refine .obj (by decide) fun f hf => ?_
    simp only [List.mem_cons, List.not_mem_nil, or_false] at hf
    rcases hf with rfl | rfl | rfl
    · refine .obj (by decide) fun g hg => ?_
      simp only [List.mem_cons, List.not_mem_nil, or_false] at hg
      rcases hg with rfl | rfl <;> exact .scalar trivial
    · exact .scalar trivial
    · exact .scalar trivial
  key := ⟨_, .str "00a2", rfl, rfl, rfl⟩

theorem without_twoLines : twoLines.Without isWideBreak := by
  refine .obj (by decide) fun f hf => ?_
  simp only [List.mem_cons, List.not_mem_nil, or_false] at hf
  rcases hf with rfl | rfl | rfl
  · refine .obj (by decide) fun g hg => ?_
    simp only [List.mem_cons, List.not_mem_nil, or_false] at hg
    rcases hg with rfl | rfl
    · refine .scalar trivial fun s hs => ?_
      obtain rfl := Json.str.inj hs
      decide
    · exact .scalar trivial (by rintro _ ⟨⟩)
  · refine .scalar trivial fun s hs => ?_
    obtain rfl := Json.str.inj hs
    decide
  · exact .scalar trivial (by rintro _ ⟨⟩)

theorem load_save_twoLines : ∃ text reloaded,
    save spelledRuntime.floatRepr [(.text "00a2", twoLines)] = .ok text ∧
      load readSpelled (some text) = .ok reloaded ∧
        get reloaded "00a2" = some twoLines.sortKeys := by
  obtain ⟨reloaded, hload, hlookup, -⟩ := @load_save spelledRuntime.floatRepr readSpelled
    spelledRuntime_floatReads [(.text "00a2", twoLines)] _ (by decide) (by simpa using filed_twoLines)
    (by simpa using without_twoLines) rfl
  exact ⟨_, reloaded, rfl, hload, hlookup (.text "00a2")⟩

end ResponseCache

end AegisMerchant
