import AegisMerchant.Base.Scan
import Mathlib.Data.List.Infix

/-!
# Replacing a word

What `str.replace` does with a non-empty word, as a scan for the word itself, and how often a word
occurs in a text. A replacement whose ends can be no part of a word leaves no new occurrence of it,
and a word whose first character occurs nowhere else in it is counted piece by piece. Nothing here
mentions a particular program.

`exists_of_infix_fill` says where a needle that a filling makes can lie, and
`occurrences_append_cons` counts across a seam.
-/

namespace Replace

open Scan

variable {α : Type}

/-! ## Replacement -/

/-- A replacement that a word cannot overlap: the word starts with a character the replacement does
not have, and does not have the one the replacement starts with. -/
inductive Apart : List α → List α → Prop
  | mk {c d : α} {word new : List α} (hc : c ∉ d :: new) (hd : d ∉ c :: word) :
    Apart (c :: word) (d :: new)

/-- What stands at the front after a replacement and has nothing of it stood there before. -/
theorem prefix_of_prefix_fill {m : Pattern α Unit} {d : α} {new word cs : List α}
    (hd : d ∉ word) (h : word <+: fill (fun _ => d :: new) (pieces m 0 cs)) : word <+: cs := by
  induction cs generalizing word with
  | nil => exact h
  | cons x cs ih =>
    cases word with
    | nil => exact List.nil_prefix
    | cons c word =>
      rw [pieces] at h
      cases hm : m (x :: cs) with
      | none =>
        rw [hm] at h
        obtain ⟨rfl, hrest⟩ := List.cons_prefix_cons.mp h
        exact List.cons_prefix_cons.mpr ⟨rfl, ih (fun hmem => hd (.tail _ hmem)) hrest⟩
      | some match' =>
        rw [hm] at h
        exact absurd ((List.cons_prefix_cons.mp h).1 ▸ List.mem_cons_self) hd

/-- An occurrence does not start in a part that lacks its first character. -/
theorem infix_of_infix_append {c : α} {word part rest : List α} (hc : c ∉ part)
    (h : c :: word <:+: part ++ rest) : c :: word <:+: rest := by
  induction part with
  | nil => exact h
  | cons x part ih =>
    rcases List.infix_cons_iff.mp h with hfront | hin
    · exact absurd ((List.cons_prefix_cons.mp hfront).1 ▸ List.mem_cons_self) hc
    · exact ih (fun hmem => hc (.tail _ hmem)) hin

/-- A word does not run over its first character when it has it only once. -/
theorem prefix_append_cons_iff {c : α} {word : List α} (hc : c ∉ word) (xs ys : List α) :
    word <+: xs ++ c :: ys ↔ word <+: xs := by
  refine ⟨fun h => ?_, fun h => h.trans (List.prefix_append _ _)⟩
  rcases List.prefix_or_prefix_of_prefix h (List.prefix_append xs _) with h' | ⟨more, rfl⟩
  · exact h'
  · cases more with
    | nil => simp
    | cons e more =>
      rw [List.prefix_append_right_inj] at h
      exact absurd (by simp [(List.cons_prefix_cons.mp h).1]) hc

/-- **Where a word in the result comes from**: a place of the text at which nothing was replaced. -/
theorem exists_of_infix_fill {m : Pattern α Unit} {word new : List α} (hapart : Apart word new)
    {k : ℕ} {cs : List α} (h : word <:+: fill (fun _ => new) (pieces m k cs)) :
    ∃ s, s <:+ cs ∧ word <+: s ∧ m s = none := by
  obtain @⟨c, d, word, new, hc, hd⟩ := hapart
  induction cs generalizing k with
  | nil => cases k <;> exact absurd (List.eq_nil_of_infix_nil h) (List.cons_ne_nil _ _)
  | cons x cs ih =>
    -- an occurrence further on stands in the text behind the first character
    have hlater (k : ℕ) (hin : c :: word <:+: fill (fun _ => d :: new) (pieces m k cs)) :
        ∃ s, s <:+ x :: cs ∧ c :: word <+: s ∧ m s = none := by
      obtain ⟨s, hs, hword⟩ := ih hin
      exact ⟨s, hs.trans (List.suffix_cons x cs), hword⟩
    cases k with
    | succ k => exact hlater k h
    | zero =>
      cases hm : m (x :: cs) with
      | none =>
        have hfill : fill (fun _ => d :: new) (pieces m 0 (x :: cs)) =
            x :: fill (fun _ => d :: new) (pieces m 0 cs) := by
          rw [pieces, hm]
          rfl
        rw [hfill] at h
        rcases List.infix_cons_iff.mp h with hfront | hin
        · exact ⟨x :: cs, List.suffix_rfl, prefix_of_prefix_fill hd (hfill ▸ hfront), hm⟩
        · exact hlater 0 hin
      | some match' =>
        rw [pieces, hm] at h
        exact hlater _ (infix_of_infix_append hc h)

variable [DecidableEq α]

instance : (word new : List α) → Decidable (Apart word new)
  | [], _ => .isFalse fun h => by cases h
  | _ :: _, [] => .isFalse fun h => by cases h
  | c :: word, d :: new =>
    decidable_of_iff (c ∉ d :: new ∧ d ∉ c :: word)
      ⟨fun h => .mk h.1 h.2, fun h => by cases h with | mk hc hd => exact ⟨hc, hd⟩⟩

def literal (old : List α) : Pattern α Unit := fun cs =>
  if old <+: cs then some ((), old.length) else none

/-- `str.replace`: every match from the left, none overlapping another. -/
def replaceAll (old new : List α) : List α → List α := sub (literal old) fun _ => new

/-- A word apart from what replaces it is gone. -/
theorem not_infix_replaceAll {old new : List α} (hapart : Apart old new) (cs : List α) :
    ¬old <:+: replaceAll old new cs := by
  intro h
  obtain ⟨s, -, hfront, hnone⟩ := exists_of_infix_fill hapart h
  rw [literal, if_pos hfront] at hnone
  cases hnone

/-- A word apart from a replacement is not made by it. -/
theorem infix_of_infix_replaceAll {old new word : List α} (hapart : Apart word new) {cs : List α}
    (h : word <:+: replaceAll old new cs) : word <:+: cs := by
  obtain ⟨s, hs, hfront, -⟩ := exists_of_infix_fill hapart h
  exact hfront.isInfix.trans hs.isInfix

/-! ## Occurrences -/

def occurrences (word : List α) : List α → ℕ
  | [] => 0
  | x :: cs => (if word <+: x :: cs then 1 else 0) + occurrences word cs

theorem occurrences_eq_zero {word cs : List α} (h : ¬word <:+: cs) : occurrences word cs = 0 := by
  induction cs with
  | nil => rfl
  | cons x cs ih =>
    rw [List.infix_cons_iff, not_or] at h
    rw [occurrences, if_neg h.1, ih h.2]

/-- No occurrence starts in a part that lacks the first character. -/
theorem occurrences_append_of_not_mem {c : α} {word part : List α} (hc : c ∉ part)
    (rest : List α) : occurrences (c :: word) (part ++ rest) = occurrences (c :: word) rest := by
  induction part with
  | nil => rfl
  | cons x part ih =>
    have hfront : ¬c :: word <+: x :: (part ++ rest) := fun h =>
      hc ((List.cons_prefix_cons.mp h).1 ▸ List.mem_cons_self)
    rw [List.cons_append, occurrences, if_neg hfront, Nat.zero_add]
    exact ih fun hmem => hc (.tail _ hmem)

/-- A word against a part that starts with its first character and has it only there. -/
theorem occurrences_cons_append {c : α} {part : List α} (hc : c ∉ part) (word rest : List α) :
    occurrences (c :: word) (c :: part ++ rest) =
      (if word <+: part ++ rest then 1 else 0) + occurrences (c :: word) rest := by
  rw [List.cons_append, occurrences, occurrences_append_of_not_mem hc]
  simp only [List.cons_prefix_cons, true_and]

/-- **Occurrences add up** where a part starts with the word's first character. -/
theorem occurrences_append_cons {c : α} {word : List α} (hc : c ∉ word) (xs ys : List α) :
    occurrences (c :: word) (xs ++ c :: ys) =
      occurrences (c :: word) xs + occurrences (c :: word) (c :: ys) := by
  induction xs with
  | nil => simp [occurrences]
  | cons x xs ih =>
    have hfront : c :: word <+: x :: (xs ++ c :: ys) ↔ c :: word <+: x :: xs := by
      rw [List.cons_prefix_cons, List.cons_prefix_cons, prefix_append_cons_iff hc]
    rw [List.cons_append, occurrences, occurrences, ih, Nat.add_assoc]
    simp only [hfront]

end Replace
