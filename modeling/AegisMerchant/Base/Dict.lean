import Mathlib.Data.List.Chain
import Mathlib.Data.List.Nodup
import Mathlib.Data.List.Sort

/-!
# Dictionaries

A dictionary as the list of its entries, in the order their keys first came.

`lookup_set` and `lookup_foldl_set` say what is read after writes, `lookup_perm` that the order of
different keys does not matter.
-/

namespace Dict

variable {κ α : Type} [DecidableEq κ]

/-- `d[k] = v`: a key that is there keeps its place. -/
def set (entries : List (κ × α)) (k : κ) (v : α) : List (κ × α) :=
  if k ∈ entries.map Prod.fst then entries.map fun e => if e.1 = k then (k, v) else e
  else entries ++ [(k, v)]

theorem keys_set (entries : List (κ × α)) (k : κ) (v : α) :
    (set entries k v).map Prod.fst =
      if k ∈ entries.map Prod.fst then entries.map Prod.fst else entries.map Prod.fst ++ [k] := by
  unfold set
  split
  · rw [List.map_map]
    refine List.map_congr_left fun e _ => ?_
    by_cases he : e.1 = k
    · simp [he]
    · simp [he]
  · rw [List.map_append]
    rfl

theorem nodup_set {entries : List (κ × α)} (h : (entries.map Prod.fst).Nodup) (k : κ) (v : α) :
    ((set entries k v).map Prod.fst).Nodup := by
  rw [keys_set]
  split
  · exact h
  · next hnew => exact List.nodup_append.mpr ⟨h, List.nodup_singleton _, by
      intro a ha b hb
      rw [List.mem_singleton.mp hb]
      exact fun hab => hnew (hab ▸ ha)⟩

/-- What is stored after a write was written, or was there under another key. -/
theorem mem_set {entries : List (κ × α)} {k : κ} {v : α} {e : κ × α} (h : e ∈ set entries k v) :
    e = (k, v) ∨ e ∈ entries ∧ e.1 ≠ k := by
  unfold set at h
  split at h
  · obtain ⟨f, hf, rfl⟩ := List.mem_map.mp h
    by_cases hkey : f.1 = k
    · exact .inl (if_pos hkey)
    · rw [if_neg hkey]
      exact .inr ⟨hf, hkey⟩
  · next hnew =>
    rcases List.mem_append.mp h with h | h
    · exact .inr ⟨h, fun hkey => hnew (List.mem_map.mpr ⟨e, h, hkey⟩)⟩
    · exact .inl (List.mem_singleton.mp h)

theorem lookup_eq_none {entries : List (κ × α)} {k : κ} :
    entries.lookup k = none ↔ k ∉ entries.map Prod.fst := by
  rw [List.lookup_eq_none_iff, List.mem_map]
  refine ⟨fun h ⟨e, he, hkey⟩ => ?_, fun h e he => ?_⟩
  · have := h e he
    rw [hkey, bne_self_eq_false] at this
    cases this
  · exact bne_iff_ne.mpr fun hkey => h ⟨e, he, hkey.symm⟩

theorem lookup_map {β : Type} (g : α → β) (entries : List (κ × α)) (k : κ) :
    (entries.map fun e => (e.1, g e.2)).lookup k = (entries.lookup k).map g := by
  induction entries with
  | nil => rfl
  | cons e rest ih =>
    rw [List.map_cons, List.lookup_cons, List.lookup_cons]
    cases k == e.1
    · exact ih
    · rfl

theorem lookup_map_ite {entries : List (κ × α)} {k : κ} (h : k ∈ entries.map Prod.fst) (k' : κ)
    (v : α) : (entries.map fun e => if e.1 = k then (k, v) else e).lookup k' =
      if k' = k then some v else entries.lookup k' := by
  induction entries with
  | nil => cases h
  | cons e rest ih =>
    obtain ⟨key, old⟩ := e
    rw [List.map_cons, List.lookup_cons]
    by_cases hkey : key = k
    · subst hkey
      rw [if_pos rfl, List.lookup_cons]
      by_cases hk' : k' = key
      · rw [if_pos hk', beq_iff_eq.mpr hk']
      · rw [if_neg hk', beq_eq_false_iff_ne.mpr hk']
        by_cases hrest : key ∈ rest.map Prod.fst
        · exact (ih hrest).trans (if_neg hk')
        · refine congrArg (List.lookup k') (List.map_congr_left fun e he => ?_) |>.trans
            (congrArg _ (List.map_id rest))
          exact if_neg fun hkey => hrest (List.mem_map.mpr ⟨e, he, hkey⟩)
    · have hrest : k ∈ rest.map Prod.fst := by
        rcases List.mem_cons.mp h with h | h
        · exact absurd h.symm hkey
        · exact h
      rw [if_neg hkey, List.lookup_cons]
      by_cases hk' : k' = key
      · subst hk'
        rw [if_neg hkey, beq_self_eq_true]
      · rw [beq_eq_false_iff_ne.mpr hk']
        exact ih hrest

/-- A write changes what is read under its key, and nothing else. -/
theorem lookup_set (entries : List (κ × α)) (k k' : κ) (v : α) :
    (set entries k v).lookup k' = if k' = k then some v else entries.lookup k' := by
  unfold set
  split
  · next hold => exact lookup_map_ite hold k' v
  · next hnew =>
    rw [List.lookup_append, List.lookup_cons]
    by_cases hk' : k' = k
    · subst hk'
      rw [if_pos rfl, lookup_eq_none.mpr hnew, beq_self_eq_true, Option.none_or]
    · rw [if_neg hk', beq_eq_false_iff_ne.mpr hk', List.lookup_nil, Option.or_none]

/-- Writes one after another leave different keys, and nothing that was not there or written. -/
theorem foldl_set_spec (pairs entries : List (κ × α)) (h : (entries.map Prod.fst).Nodup) :
    ((pairs.foldl (fun d e => set d e.1 e.2) entries).map Prod.fst).Nodup ∧
      ∀ e ∈ pairs.foldl (fun d e => set d e.1 e.2) entries, e ∈ entries ∨ e ∈ pairs := by
  induction pairs generalizing entries with
  | nil => exact ⟨h, fun e he => .inl he⟩
  | cons p rest ih =>
    obtain ⟨hnodup, hmem⟩ := ih _ (nodup_set h p.1 p.2)
    refine ⟨hnodup, fun e he => ?_⟩
    rcases hmem e he with he | he
    · rcases mem_set he with rfl | ⟨he, -⟩
      · exact .inr List.mem_cons_self
      · exact .inl he
    · exact .inr (List.mem_cons_of_mem p he)

/-- The last write under a key counts. -/
theorem lookup_foldl_set (pairs entries : List (κ × α)) (k : κ) :
    (pairs.foldl (fun d e => set d e.1 e.2) entries).lookup k =
      (pairs.reverse.lookup k).or (entries.lookup k) := by
  induction pairs generalizing entries with
  | nil => rfl
  | cons p rest ih =>
    rw [List.foldl_cons, ih, lookup_set, List.reverse_cons, List.lookup_append, Option.or_assoc,
      List.lookup_cons, List.lookup_nil]
    by_cases hk : k = p.1
    · rw [if_pos hk, beq_iff_eq.mpr hk, Option.some_or]
    · rw [if_neg hk, beq_eq_false_iff_ne.mpr hk, Option.none_or]

/-- With different keys, what is read is what is there. -/
theorem lookup_eq_some_iff {entries : List (κ × α)} (h : (entries.map Prod.fst).Nodup) {k : κ}
    {v : α} : entries.lookup k = some v ↔ (k, v) ∈ entries := by
  induction entries with
  | nil => simp
  | cons e rest ih =>
    obtain ⟨k', v'⟩ := e
    rw [List.map_cons, List.nodup_cons] at h
    rw [List.lookup_cons, List.mem_cons]
    by_cases hkey : k = k'
    · subst hkey
      have hnew : (k, v) ∉ rest := fun hmem => h.1 (List.mem_map.mpr ⟨_, hmem, rfl⟩)
      simp [hnew, eq_comm]
    · rw [beq_eq_false_iff_ne.mpr hkey]
      dsimp only
      rw [ih h.2]
      simp [hkey]

/-- With different keys, what is read does not depend on the order. -/
theorem lookup_perm {entries entries' : List (κ × α)} (hperm : entries.Perm entries')
    (h : (entries.map Prod.fst).Nodup) (k : κ) : entries.lookup k = entries'.lookup k := by
  refine Option.ext fun v => ?_
  rw [lookup_eq_some_iff h, lookup_eq_some_iff ((hperm.map Prod.fst).nodup_iff.mp h)]
  exact hperm.mem_iff

/-! ## Sorting twice -/

section Sorting

variable {r : α → α → Prop} [DecidableRel r]

/-- Every element of a sorted list is below the next, also where the order is not transitive. -/
theorem isChain_orderedInsert (htotal : ∀ a b, r a b ∨ r b a) (a : α) {l : List α}
    (h : l.IsChain r) : (l.orderedInsert r a).IsChain r := by
  induction l with
  | nil => exact List.isChain_singleton a
  | cons b l ih =>
    rw [List.orderedInsert_cons]
    split
    · next hab => exact List.isChain_cons_cons.mpr ⟨hab, h⟩
    · next hab =>
      have hba := (htotal a b).resolve_left hab
      have htail := ih h.tail
      cases l with
      | nil => exact List.isChain_cons_cons.mpr ⟨hba, htail⟩
      | cons c l =>
        rw [List.orderedInsert_cons] at htail ⊢
        split at htail
        · next hac =>
          rw [if_pos hac]
          exact List.isChain_cons_cons.mpr ⟨hba, htail⟩
        · next hac =>
          rw [if_neg hac]
          exact List.isChain_cons_cons.mpr ⟨(List.isChain_cons_cons.mp h).1, htail⟩

theorem isChain_insertionSort (htotal : ∀ a b, r a b ∨ r b a) (l : List α) :
    (l.insertionSort r).IsChain r := by
  induction l with
  | nil => exact List.IsChain.nil
  | cons a l ih => exact isChain_orderedInsert htotal a ih

theorem insertionSort_of_isChain {l : List α} (h : l.IsChain r) : l.insertionSort r = l := by
  induction l with
  | nil => rfl
  | cons a l ih =>
    rw [List.insertionSort_cons, ih h.tail]
    cases l with
    | nil => rfl
    | cons b l => rw [List.orderedInsert_cons, if_pos (List.isChain_cons_cons.mp h).1]

/-- Sorting again changes nothing. -/
theorem insertionSort_insertionSort (htotal : ∀ a b, r a b ∨ r b a) (l : List α) :
    (l.insertionSort r).insertionSort r = l.insertionSort r :=
  insertionSort_of_isChain (isChain_insertionSort htotal l)

end Sorting

end Dict
