import Mathlib.Data.List.Basic
import Mathlib.Data.List.Nodup

/-!
# Tables as lists of rows

A table is a list of rows, one row per key. `updateWhere` rewrites the row under a key and leaves
the others alone. Nothing here mentions a particular schema.
-/

namespace Rows

variable {α κ : Type} [DecidableEq κ]

/-- Rewrite the rows under a key. -/
def updateWhere (key : α → κ) (k : κ) (f : α → α) (rows : List α) : List α :=
  rows.map fun r => if key r = k then f r else r

/-- The value an `UPDATE` leaves in a column: written when the writer changed it since its read. -/
def dirty {β : Type} [DecidableEq β] (read new current : β) : β :=
  if new = read then current else new

@[simp] theorem dirty_self {β : Type} [DecidableEq β] (v current : β) :
    dirty v v current = current := by
  simp [dirty]

/-- A column nobody else wrote since the read holds what the writer left. -/
theorem dirty_current {β : Type} [DecidableEq β] (v new : β) : dirty v new v = new := by
  unfold dirty
  split
  · next h => exact h.symm
  · rfl

section Update

variable {key : α → κ} {k : κ} {f : α → α} {rows : List α}

/-- A column the update leaves alone reads the same. -/
theorem map_updateWhere {β : Type} (g : α → β) (h : ∀ r, g (f r) = g r) :
    (updateWhere key k f rows).map g = rows.map g := by
  rw [updateWhere, List.map_map]
  refine List.map_congr_left fun r _ => ?_
  simp only [Function.comp_apply]
  split
  · exact h r
  · rfl

/-- A row after the update comes from one before it. -/
theorem mem_updateWhere {r : α} :
    r ∈ updateWhere key k f rows ↔ ∃ r₀ ∈ rows, r = if key r₀ = k then f r₀ else r₀ := by
  rw [updateWhere, List.mem_map]
  refine exists_congr fun r₀ => and_congr_right fun _ => ?_
  exact eq_comm

/-- A row before the update survives it, rewritten or not. -/
theorem updateWhere_of_mem {r : α} (h : r ∈ rows) :
    (if key r = k then f r else r) ∈ updateWhere key k f rows :=
  mem_updateWhere.mpr ⟨r, h, rfl⟩

/-- The row under the key is the rewritten one. -/
theorem updateWhere_mem {r : α} (hkey : key r = k) (h : r ∈ rows) :
    f r ∈ updateWhere key k f rows :=
  mem_updateWhere.mpr ⟨r, h, (if_pos hkey).symm⟩

/-- A row that no longer passes once it is rewritten is filtered out with its key. -/
theorem filter_updateWhere {p : α → Bool} (h : ∀ r ∈ rows, key r = k → p (f r) = false) :
    (updateWhere key k f rows).filter p = rows.filter fun r => key r ≠ k ∧ p r = true := by
  induction rows with
  | nil => rfl
  | cons r rest ih =>
    rw [List.forall_mem_cons] at h
    have ih := ih h.2
    unfold updateWhere at ih ⊢
    rw [List.map_cons, List.filter_cons, List.filter_cons, ih]
    by_cases hkey : key r = k
    · simp [hkey, h.1 hkey]
    · simp [hkey]

end Update

omit [DecidableEq κ] in
/-- Two rows of a table with one row per key are the same when their keys are. -/
theorem eq_of_key_eq {key : α → κ} {rows : List α} (h : (rows.map key).Nodup) {r s : α}
    (hr : r ∈ rows) (hs : s ∈ rows) (hkey : key r = key s) : r = s :=
  List.inj_on_of_nodup_map h hr hs hkey

/-- A column stays unique through an update when the row it rewrites meets no other row there. -/
theorem nodup_map_updateWhere {β : Type} {key : α → κ} {k : κ} {f : α → α} {g : α → β}
    {rows : List α} (hkey : (rows.map key).Nodup) (hg : (rows.map g).Nodup) :
    ((updateWhere key k f rows).map g).Nodup ↔
      ∀ r ∈ rows, key r = k → ∀ r' ∈ rows, key r' ≠ k → g r' ≠ g (f r) := by
  rw [updateWhere, List.map_map]
  constructor
  · intro h r hr hrk r' hr' hrk' heq
    have hrr' : r' = r := List.inj_on_of_nodup_map h hr' hr (by simpa [hrk, hrk'] using heq)
    exact hrk' (hrr' ▸ hrk)
  · intro h
    rw [List.Nodup, List.pairwise_map] at hkey hg ⊢
    refine (hkey.and hg).imp_of_mem fun {a b} ha hb hab => ?_
    simp only [Function.comp_apply]
    split
    · next hak =>
        have hbk : key b ≠ k := fun hbk => hab.1 (hak.trans hbk.symm)
        rw [if_neg hbk]
        exact (h a ha hak b hb hbk).symm
    · next hak =>
        split
        · next hbk => exact h b hb hbk a ha hak
        · exact hab.2

omit [DecidableEq κ] in
/-- A new row keeps a column unique when no row holds its value. -/
theorem nodup_map_concat {key : α → κ} {rows : List α} {r : α} :
    ((rows ++ [r]).map key).Nodup ↔ (rows.map key).Nodup ∧ ∀ r' ∈ rows, key r' ≠ key r := by
  simp [List.nodup_append]

end Rows
