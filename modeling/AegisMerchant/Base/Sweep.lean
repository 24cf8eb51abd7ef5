import Mathlib.Data.List.Basic
import Mathlib.Data.List.TakeWhile
import Mathlib.Logic.Function.Iterate
import Mathlib.Tactic.Common

/-!
# Sweeps over the front of a list

A worker that looks at the first rows of a list, again and again: each sweep serves the keys of the
ready rows it sees, and every row of a served key leaves the list. The rows that are not ready stay
where they are, in front of the others. Nothing here mentions a particular program.

`Clear.sweep` and `Clear.length_sweep_lt` make sweeping end, `Blocked.sweep` keeps a full front
full, and `done_iff_clear` is the law: sweeping comes to an end exactly when the front is clear.
-/

namespace Sweep

variable {ρ κ : Type} [DecidableEq κ] (key : ρ → κ) (ready : ρ → Bool) (limit : ℕ)

def readyKeys (rows : List ρ) : List κ := (rows.filter ready).map key

/-- The rows that are left after one sweep. -/
def sweep (rows : List ρ) : List ρ :=
  rows.filter fun r => key r ∉ readyKeys key ready (rows.take limit)

/-- The rows no ready row shares the key of. -/
def stuck (rows : List ρ) : List ρ := rows.filter fun r => key r ∉ readyKeys key ready rows

def Done (rows : List ρ) : Prop := ∀ r ∈ rows, ready r = false

/-- Before the first ready row of each key there are fewer than `limit` rows that stay. -/
def Clear (rows : List ρ) : Prop :=
  ∀ front r back, rows = front ++ r :: back → ready r = true → key r ∉ readyKeys key ready front →
    (stuck key ready front).length < limit

variable {key ready limit}

omit [DecidableEq κ] in
theorem mem_readyKeys {rows : List ρ} {k : κ} :
    k ∈ readyKeys key ready rows ↔ ∃ r ∈ rows, ready r = true ∧ key r = k := by
  unfold readyKeys
  rw [List.mem_map]
  refine exists_congr fun r => ?_
  rw [List.mem_filter, and_assoc]

omit [DecidableEq κ] in
theorem readyKeys_mono {rows rows' : List ρ} (h : rows ⊆ rows') {k : κ}
    (hk : k ∈ readyKeys key ready rows) : k ∈ readyKeys key ready rows' := by
  obtain ⟨r, hr, hready⟩ := mem_readyKeys.mp hk
  exact mem_readyKeys.mpr ⟨r, h hr, hready⟩

omit [DecidableEq κ] in
/-- Leaving out whole keys leaves the ready keys of the others alone. -/
theorem mem_readyKeys_filter {rows : List ρ} {keep : κ → Bool} {k : κ} (hk : keep k = true) :
    k ∈ readyKeys key ready (rows.filter fun r => keep (key r)) ↔
      k ∈ readyKeys key ready rows := by
  constructor
  · exact readyKeys_mono fun r hr => (List.mem_filter.mp hr).1
  · intro h
    obtain ⟨r, hr, hready, rfl⟩ := mem_readyKeys.mp h
    exact mem_readyKeys.mpr ⟨r, List.mem_filter.mpr ⟨hr, hk⟩, hready, rfl⟩

/-- Leaving out whole keys makes no row stuck. -/
theorem stuck_filter_length_le (rows : List ρ) (keep : κ → Bool) :
    (stuck key ready (rows.filter fun r => keep (key r))).length ≤
      (stuck key ready rows).length := by
  refine List.Sublist.length_le ?_
  unfold stuck
  rw [List.filter_filter]
  refine List.monotone_filter_right rows fun r hr => ?_
  rw [Bool.and_eq_true, decide_eq_true_iff] at hr
  rw [decide_eq_true_iff]
  exact fun hk => hr.1 ((mem_readyKeys_filter hr.2).mpr hk)

/-! ## A sweep that gets through -/

/-- The rows a sweep leaves are clear when all of them were. -/
theorem Clear.sweep {rows : List ρ} (h : Clear key ready limit rows) :
    Clear key ready limit (sweep key ready limit rows) := by
  intro front r back hrows hready hfirst
  unfold Sweep.sweep at hrows
  obtain ⟨front', rest, rfl, hfront, hrest⟩ := List.filter_eq_append_iff.mp hrows
  obtain ⟨skipped, back', rfl, hskipped, hkeep, -⟩ := List.filter_eq_cons_iff.mp hrest
  generalize hkeys : readyKeys key ready _ = keys at hfront hskipped hkeep hrest
  rw [decide_eq_true_iff] at hkeep
  -- the rows in front of it, in the list before the sweep
  have hall : (front' ++ skipped).filter (fun x => decide (key x ∉ keys)) = front := by
    have hnone : skipped.filter (fun x => decide (key x ∉ keys)) = [] := by
      rw [List.filter_eq_nil_iff]
      exact fun x hx => hskipped x hx
    rw [List.filter_append, hfront, hnone, List.append_nil]
  have hfirst' : key r ∉ readyKeys key ready (front' ++ skipped) := by
    rw [← hall] at hfirst
    intro hmem
    have hiff := @mem_readyKeys_filter ρ κ key ready (front' ++ skipped)
      (fun k => decide (k ∉ keys)) (key r) (decide_eq_true hkeep)
    exact hfirst (hiff.mpr hmem)
  have hlt := h (front' ++ skipped) r back' (by rw [List.append_assoc]) hready hfirst'
  rw [← hall]
  exact lt_of_le_of_lt (stuck_filter_length_le (front' ++ skipped) fun k => decide (k ∉ keys)) hlt

/-- The first ready row of a list. -/
theorem exists_first_ready {rows : List ρ} (h : ¬Done ready rows) :
    ∃ front r back, rows = front ++ r :: back ∧ ready r = true ∧ ∀ x ∈ front, ready x = false := by
  have hsome : (rows.find? ready).isSome = true := by
    rw [List.find?_isSome]
    by_contra hnone
    exact h fun r hr => Bool.eq_false_iff.mpr fun hready => hnone ⟨r, hr, hready⟩
  obtain ⟨r, hr⟩ := Option.isSome_iff_exists.mp hsome
  obtain ⟨hready, front, back, rfl, hfront⟩ := List.find?_eq_some_iff_append.mp hr
  exact ⟨front, r, back, rfl, hready, fun x hx => Bool.eq_false_iff.mpr (by simpa using hfront x hx)⟩

/-- A sweep over clear rows serves one, as long as one is ready. -/
theorem Clear.length_sweep_lt {rows : List ρ} (h : Clear key ready limit rows)
    (hready : ¬Done ready rows) : (Sweep.sweep key ready limit rows).length < rows.length := by
  obtain ⟨front, r, back, rfl, hr, hfront⟩ := exists_first_ready hready
  have hnone : ∀ k, k ∉ readyKeys key ready front := by
    intro k hk
    obtain ⟨x, hx, hxready, -⟩ := mem_readyKeys.mp hk
    rw [hfront x hx] at hxready
    cases hxready
  have hstuck : stuck key ready front = front := by
    unfold stuck
    rw [List.filter_eq_self]
    exact fun x _ => decide_eq_true (hnone (key x))
  have hlt := h front r back rfl hr (hnone (key r))
  rw [hstuck] at hlt
  have hseen : r ∈ (front ++ r :: back).take limit := by
    rw [List.take_append]
    apply List.mem_append_right
    obtain ⟨n, hn⟩ := Nat.exists_eq_add_of_lt hlt
    rw [show limit - front.length = n + 1 by omega, List.take_succ_cons]
    exact List.mem_cons_self
  refine lt_of_le_of_ne (List.length_filter_le _ _) fun heq => ?_
  unfold Sweep.sweep at heq
  rw [List.length_filter_eq_length_iff] at heq
  have hkept := heq r (List.mem_append_right _ List.mem_cons_self)
  rw [decide_eq_true_iff] at hkept
  exact hkept (mem_readyKeys.mpr ⟨r, hseen, hr, rfl⟩)

/-- Clear rows are served after finitely many sweeps. -/
theorem Clear.done {rows : List ρ} (h : Clear key ready limit rows) :
    ∃ n, Done ready ((Sweep.sweep key ready limit)^[n] rows) := by
  induction hlength : rows.length using Nat.strongRecOn generalizing rows with
  | ind n ih =>
    by_cases hdone : Done ready rows
    · exact ⟨0, hdone⟩
    · have hlt := h.length_sweep_lt hdone
      rw [hlength] at hlt
      obtain ⟨m, hm⟩ := ih _ hlt h.sweep rfl
      refine ⟨m + 1, ?_⟩
      rw [Function.iterate_succ_apply]
      exact hm

/-! ## A sweep that does not -/

/-- A ready row with `limit` rows in front of it that stay. -/
def Blocked (key : ρ → κ) (ready : ρ → Bool) (limit : ℕ) (rows : List ρ) : Prop :=
  ∃ front r back, rows = front ++ r :: back ∧ ready r = true ∧
    key r ∉ readyKeys key ready front ∧ limit ≤ (stuck key ready front).length

theorem not_clear_iff {rows : List ρ} :
    ¬Clear key ready limit rows ↔ Blocked key ready limit rows := by
  unfold Clear Blocked
  push Not
  exact Iff.rfl

/-- A blocked row stays blocked. -/
theorem Blocked.sweep {rows : List ρ} (h : Blocked key ready limit rows) :
    Blocked key ready limit (Sweep.sweep key ready limit rows) := by
  obtain ⟨front, r, back, rfl, hready, hfirst, hlimit⟩ := h
  have hshort : limit ≤ front.length := le_trans hlimit (List.length_filter_le _ _)
  have htake : (front ++ r :: back).take limit = front.take limit :=
    List.take_append_of_le_length hshort
  have hserved : ∀ {k}, k ∉ readyKeys key ready front →
      k ∉ readyKeys key ready (front.take limit) := fun hk hmem =>
    hk (readyKeys_mono (List.take_subset limit front) hmem)
  refine ⟨front.filter fun x => decide (key x ∉ readyKeys key ready (front.take limit)), r,
    back.filter fun x => decide (key x ∉ readyKeys key ready (front.take limit)), ?_, hready, ?_, ?_⟩
  · unfold Sweep.sweep
    rw [htake, List.filter_append]
    exact congrArg _ (List.filter_cons_of_pos (decide_eq_true (hserved hfirst)))
  · exact fun hmem => hfirst (readyKeys_mono List.filter_sublist.subset hmem)
  · -- what is stuck in front of it is not served, and still stuck
    refine le_trans hlimit (List.Sublist.length_le ?_)
    unfold stuck
    rw [List.filter_filter]
    refine List.monotone_filter_right front fun x hx => ?_
    rw [decide_eq_true_iff] at hx
    rw [Bool.and_eq_true, decide_eq_true_iff, decide_eq_true_iff]
    exact ⟨fun hmem => hx (readyKeys_mono List.filter_sublist.subset hmem), hserved hx⟩

theorem Blocked.not_done {rows : List ρ} (h : Blocked key ready limit rows) :
    ¬Done ready rows := by
  obtain ⟨front, r, back, rfl, hready, -, -⟩ := h
  intro hdone
  rw [hdone r (List.mem_append_right _ List.mem_cons_self)] at hready
  cases hready

theorem Blocked.iterate {rows : List ρ} (h : Blocked key ready limit rows) (n : ℕ) :
    Blocked key ready limit ((Sweep.sweep key ready limit)^[n] rows) := by
  induction n generalizing rows with
  | zero => exact h
  | succ n ih =>
    rw [Function.iterate_succ_apply]
    exact ih h.sweep

/-- **All ready rows are served after finitely many sweeps exactly when they are clear.** -/
theorem done_iff_clear (rows : List ρ) :
    (∃ n, Done ready ((Sweep.sweep key ready limit)^[n] rows)) ↔ Clear key ready limit rows := by
  constructor
  · rintro ⟨n, hn⟩
    by_contra hblocked
    rw [not_clear_iff] at hblocked
    exact (hblocked.iterate n).not_done hn
  · exact Clear.done

end Sweep
