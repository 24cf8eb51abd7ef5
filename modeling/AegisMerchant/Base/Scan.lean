import Mathlib.Data.List.Basic

/-!
# Leftmost matches

What `re.finditer` and `re.sub` do with a pattern: scan from the left, take the match at a position
if there is one, and go on behind it. The pattern is any function that says what a match at the front
of a text is and how long it is. Nothing here mentions a particular program.

`fill_pieces` says that filling the pieces of a scan with their own matches gives the text back.
-/

namespace Scan

variable {χ α : Type}

/-- A pattern at the front of a text: what it matches and how long the match is. -/
abbrev Pattern (χ α : Type) := List χ → Option (α × ℕ)

/-- A text in pieces: characters outside every match, and matches. The count is how much of the
last match is still to be passed over. -/
def pieces (m : Pattern χ α) : ℕ → List χ → List (χ ⊕ α)
  | _, [] => []
  | k + 1, _ :: cs => pieces m k cs
  | 0, c :: cs =>
    match m (c :: cs) with
    | some (a, n) => .inr a :: pieces m (n - 1) cs
    | none => .inl c :: pieces m 0 cs

def finditer (m : Pattern χ α) (cs : List χ) : List α :=
  (pieces m 0 cs).filterMap (Sum.elim (fun _ => none) some)

def fill (f : α → List χ) (ps : List (χ ⊕ α)) : List χ := ps.flatMap (Sum.elim ([·]) f)

/-- `re.sub`, with a function of the match. -/
def sub (m : Pattern χ α) (f : α → List χ) (cs : List χ) : List χ := fill f (pieces m 0 cs)

theorem mem_finditer {m : Pattern χ α} {cs : List χ} {a : α} :
    a ∈ finditer m cs ↔ .inr a ∈ pieces m 0 cs := by
  unfold finditer
  rw [List.mem_filterMap]
  constructor
  · rintro ⟨c | b, hmem, hb⟩
    · cases hb
    · cases hb
      exact hmem
  · exact fun hmem => ⟨_, hmem, rfl⟩

@[simp] theorem fill_nil (f : α → List χ) : fill f [] = [] := rfl

@[simp] theorem fill_cons (f : α → List χ) (p : χ ⊕ α) (ps : List (χ ⊕ α)) :
    fill f (p :: ps) = Sum.elim ([·]) f p ++ fill f ps := rfl

/-- With the matches taken out, what is left is what is outside them. -/
theorem mem_sub_nil {m : Pattern χ α} {cs : List χ} {c : χ} :
    c ∈ sub m (fun _ => []) cs ↔ .inl c ∈ pieces m 0 cs := by
  unfold sub
  induction pieces m 0 cs with
  | nil => simp
  | cons p ps ih => cases p <;> simp [ih]

/-- A pattern whose matches have a source, which is what stands where they are. -/
def Spells (m : Pattern χ α) (source : α → List χ) : Prop :=
  ∀ cs a n, m cs = some (a, n) → n = (source a).length ∧ source a ≠ [] ∧ source a <+: cs

/-- **The pieces of a text put together again are the text.** -/
theorem fill_pieces {m : Pattern χ α} {source : α → List χ} (h : Spells m source) (k : ℕ)
    (cs : List χ) : fill source (pieces m k cs) = cs.drop k := by
  induction cs generalizing k with
  | nil => cases k <;> rfl
  | cons c cs ih =>
    cases k with
    | succ k => exact ih k
    | zero =>
      rw [pieces]
      cases hm : m (c :: cs) with
      | none =>
        show fill source (.inl c :: pieces m 0 cs) = c :: cs
        rw [fill_cons, ih 0]
        rfl
      | some match' =>
        obtain ⟨a, n⟩ := match'
        obtain ⟨hlength, hne, rest, hrest⟩ := h _ _ _ hm
        obtain ⟨d, tail, hsource⟩ := List.exists_cons_of_ne_nil hne
        show fill source (.inr a :: pieces m (n - 1) cs) = c :: cs
        rw [fill_cons, ih, Sum.elim_inr]
        -- the match takes up its first character and the ones still to be passed over
        rw [hsource, List.cons_append, List.cons.injEq] at hrest
        obtain ⟨rfl, rfl⟩ := hrest
        rw [hlength, hsource, List.length_cons, Nat.add_sub_cancel, List.drop_left,
          List.cons_append]

/-- Whatever is found matches somewhere. -/
theorem matches_of_mem {m : Pattern χ α} {a : α} {k : ℕ} {cs : List χ}
    (h : .inr a ∈ pieces m k cs) : ∃ cs' n, m cs' = some (a, n) := by
  induction cs generalizing k with
  | nil => cases k <;> cases h
  | cons c cs ih =>
    cases k with
    | succ k => exact ih h
    | zero =>
      rw [pieces] at h
      cases hm : m (c :: cs) with
      | none =>
        rw [hm] at h
        rcases List.mem_cons.mp h with h | h
        · cases h
        · exact ih h
      | some match' =>
        rw [hm] at h
        rcases List.mem_cons.mp h with h | h
        · cases h
          exact ⟨c :: cs, match'.2, hm⟩
        · exact ih h

end Scan
