import Mathlib.Data.List.Basic

/-!
# Bounded queues

A first-in-first-out queue that refuses to grow past its size. Forcing an element into a full queue
means taking the oldest one out first. Nothing here mentions a particular program.

`get_put_of_full` says which item a full queue loses.
-/

/-- A queue of at most `size` elements, the oldest in front. -/
structure BoundedQueue (α : Type) (size : ℕ) where
  items : List α := []
  length_le : items.length ≤ size := by exact Nat.zero_le _

namespace BoundedQueue

variable {α : Type} {size : ℕ}

/-- `put_nowait`: none when the queue is full. -/
def put (q : BoundedQueue α size) (x : α) : Option (BoundedQueue α size) :=
  if h : q.items.length < size then
    some ⟨q.items ++ [x], by rw [List.length_append]; exact h⟩
  else none

/-- `get_nowait`: none when the queue is empty. -/
def get : BoundedQueue α size → Option (α × BoundedQueue α size)
  | ⟨[], _⟩ => none
  | ⟨x :: rest, h⟩ => some (x, ⟨rest, Nat.le_of_succ_le h⟩)

/-- A queue with room takes an element at its end. -/
theorem put_of_lt {q : BoundedQueue α size} (h : q.items.length < size) (x : α) :
    ∃ q', q.put x = some q' ∧ q'.items = q.items ++ [x] :=
  ⟨_, dif_pos h, rfl⟩

theorem put_of_full {q : BoundedQueue α size} (h : q.items.length = size) (x : α) :
    q.put x = none := dif_neg (Nat.not_lt.mpr (Nat.le_of_eq h.symm))

theorem get_eq_some {q q' : BoundedQueue α size} {x : α} (h : q.get = some (x, q')) :
    q.items = x :: q'.items := by
  obtain ⟨_ | ⟨y, rest⟩, hlength⟩ := q
  · cases h
  · cases h
    rfl

/-- **A full queue makes room**: its oldest element goes, and then a new one fits. -/
theorem get_put_of_full (hsize : 0 < size) {q : BoundedQueue α size} (h : q.items.length = size)
    (x : α) : ∃ oldest shorter q', q.get = some (oldest, shorter) ∧ shorter.put x = some q' ∧
      q.items = oldest :: shorter.items ∧ q'.items = shorter.items ++ [x] := by
  obtain ⟨_ | ⟨oldest, rest⟩, hlength⟩ := q
  · exact absurd h (Nat.ne_of_lt hsize)
  · obtain ⟨q', hput, hitems⟩ := @put_of_lt α size ⟨rest, Nat.le_of_succ_le hlength⟩ hlength x
    exact ⟨oldest, _, q', rfl, hput, rfl, hitems⟩

end BoundedQueue
