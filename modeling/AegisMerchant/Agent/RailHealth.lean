import AegisMerchant.Base.Rows
import AegisMerchant.Base.Time
import Mathlib.Data.List.MinMax
import Mathlib.Data.Prod.Lex
import Mathlib.Data.String.Basic
import Mathlib.Algebra.Group.Prod
import Mathlib.Algebra.Order.Ring.Rat

/-!
# Rail health

Attempts are counted by rail, and the rail to retry on is the one with the best score. The index
keeps its rails in the order of their first attempts. The ranking breaks ties by name, the choice of
an alternative by that order, so the choice is one of the evidence exactly where no two rails tie.

`exists_chosen` says that a choice leads every other candidate; `chosen_stable_iff` says when it is
the evidence's alone. Two rails of one score tell the order they came in (`not_chosen_stable`).
-/

namespace AegisMerchant

open Time

/-- A payment rail. The issuer may be absent. -/
structure RailKey where
  method : String
  issuer : Option String := none
  deriving DecidableEq, Repr

/-- `str(key)`. -/
def RailKey.text (key : RailKey) : String :=
  match key.issuer with
  | none => key.method
  | some issuer => if issuer = "" then key.method else key.method ++ "/" ++ issuer

structure AttemptRecord where
  method : Option String
  issuer : Option String
  succeeded : Bool
  attemptedAt : DateTime
  deriving DecidableEq, Repr

structure RailStats where
  key : RailKey
  attempts : ℕ
  successes : ℕ
  deriving DecidableEq, Repr

/-- Success rates per rail over a window. The rails are in the order of the dictionary, which is
that of their first attempts. -/
structure RailHealthIndex where
  stats : List RailStats := []
  window : ℤ
  computedAt : DateTime
  totalAttempts : ℕ := 0
  totalSuccesses : ℕ := 0
  deriving DecidableEq, Repr

/-- The rail a record is evidence about: none without a method or outside the window. -/
def AttemptRecord.rail? (now : DateTime) (window : ℤ) (record : AttemptRecord) : Option RailKey :=
  match record.method with
  | none => none
  | some method =>
    if record.attemptedAt < now.add (-window) ∨ now < record.attemptedAt then none
    else some { method, issuer := record.issuer.filter (· ≠ "") }

/-- One attempt more in the bucket of its rail, which is made at the end if it is new. -/
def countAttempt (key : RailKey) (succeeded : Bool) : List RailStats → List RailStats
  | [] => [{ key, attempts := 1, successes := succeeded.toNat }]
  | s :: rest =>
    if s.key = key then
      { s with attempts := s.attempts + 1, successes := s.successes + succeeded.toNat } :: rest
    else s :: countAttempt key succeeded rest

namespace RailHealthIndex

/-- The body of the loop of `from_attempts`. -/
def tally (index : RailHealthIndex) (record : AttemptRecord) : RailHealthIndex :=
  match record.rail? index.computedAt index.window with
  | none => index
  | some key =>
    { index with
      stats := countAttempt key record.succeeded index.stats
      totalAttempts := index.totalAttempts + 1
      totalSuccesses := index.totalSuccesses + record.succeeded.toNat }

def fromAttempts (attempts : List AttemptRecord) (now : DateTime) (window : ℤ := day) :
    RailHealthIndex :=
  attempts.foldl tally { window, computedAt := now }

/-- `get`: the exact rail, then the method as a whole. -/
def get (index : RailHealthIndex) (method : String) (issuer : Option String := none) :
    Option RailStats :=
  match index.stats.find? fun s => s.key = { method, issuer } with
  | some exact => some exact
  | none =>
    if issuer = none then none
    else
      let merged := index.stats.filter fun s => s.key.method = method
      let attempts := (merged.map (·.attempts)).sum
      if attempts = 0 then none
      else some { key := { method }, attempts, successes := (merged.map (·.successes)).sum }

end RailHealthIndex

/-! ## Ranking

`wilson_bounds` is a function of the successes and the attempts. -/

variable (bounds : ℕ → ℕ → ℚ × ℚ)

/-- The pessimistic end of the interval. -/
def RailStats.score (s : RailStats) : ℚ := (bounds s.successes s.attempts).1

/-- What `ranked` sorts by. -/
def RailStats.rankKey (s : RailStats) : ℚ ×ₗ ℤ ×ₗ String :=
  toLex (-s.score bounds, toLex (-(s.attempts : ℤ), s.key.text))

/-- What `best_alternative` takes the maximum of. -/
def RailStats.standing (s : RailStats) : ℚ ×ₗ ℕ := toLex (s.score bounds, s.attempts)

/-- A rail the failed one may be left for. -/
def RailStats.Eligible (failed : RailKey) (minAttempts : ℤ) (s : RailStats) : Prop :=
  s.key ≠ failed ∧ minAttempts ≤ s.attempts ∧ s.key.method ≠ "emandate"

instance (failed : RailKey) (minAttempts : ℤ) (s : RailStats) :
    Decidable (s.Eligible failed minAttempts) := inferInstanceAs (Decidable (_ ∧ _ ∧ _))

namespace RailHealthIndex

/-- `ranked`: rails best-first. -/
def ranked (index : RailHealthIndex) (exclude : Option RailKey := none) : List RailStats :=
  (index.stats.filter fun s => exclude ≠ some s.key).mergeSort fun a b =>
    a.rankKey bounds ≤ b.rankKey bounds

/-- Whether a score beats what is known of the failed rail. -/
def Beats (failedStats : Option RailStats) (minAttempts : ℤ) (score : ℚ) : Prop :=
  ∀ f ∈ failedStats, minAttempts ≤ f.attempts → (bounds f.successes f.attempts).2 < score

instance (failedStats : Option RailStats) (minAttempts : ℤ) (score : ℚ) :
    Decidable (Beats bounds failedStats minAttempts score) :=
  match failedStats with
  | none => .isTrue fun _ h => absurd h (Option.not_mem_none _)
  | some f =>
    decidable_of_iff (minAttempts ≤ f.attempts → (bounds f.successes f.attempts).2 < score)
      (by simp [Beats])

/-- `best_alternative`: the healthiest rail that is not the one that failed. The maximum is the first
of the rails that have it. -/
def bestAlternative (index : RailHealthIndex) (failedMethod : String)
    (failedIssuer : Option String := none) (minAttempts : ℤ := 8) : Option RailStats :=
  let failed : RailKey := { method := failedMethod, issuer := failedIssuer }
  let candidates := index.stats.filter fun s => s.Eligible failed minAttempts
  match candidates.argmax (·.standing bounds) with
  | none => none
  | some best =>
    if Beats bounds (index.get failedMethod failedIssuer) minAttempts (best.score bounds) then
      some best
    else none

end RailHealthIndex

/-! ## What is counted -/

/-- The attempts and successes a list of buckets holds for a rail. -/
def countsFor (stats : List RailStats) (key : RailKey) : ℕ × ℕ :=
  ((stats.find? fun s => s.key = key).map fun s => (s.attempts, s.successes)).getD (0, 0)

/-- Buckets of distinct rails, none of them empty. -/
structure Tallied (stats : List RailStats) : Prop where
  nodup : (stats.map (·.key)).Nodup
  pos : ∀ s ∈ stats, 0 < s.attempts

theorem countsFor_cons (s : RailStats) (rest : List RailStats) (key : RailKey) :
    countsFor (s :: rest) key =
      if s.key = key then (s.attempts, s.successes) else countsFor rest key := by
  unfold countsFor
  by_cases h : s.key = key
  · simp [h]
  · simp [h]

/-- A bucket is found under its rail, and nothing else is. -/
theorem Tallied.mem_iff {stats : List RailStats} (h : Tallied stats) (s : RailStats) :
    s ∈ stats ↔ 0 < s.attempts ∧ countsFor stats s.key = (s.attempts, s.successes) := by
  obtain ⟨hnodup, hpos⟩ := h
  induction stats with
  | nil =>
    refine iff_of_false List.not_mem_nil fun hs => ?_
    rw [show s.attempts = 0 from (congrArg Prod.fst hs.2).symm] at hs
    exact absurd hs.1 (lt_irrefl 0)
  | cons t rest ih =>
    rw [List.map_cons, List.nodup_cons] at hnodup
    have hrest := ih hnodup.2 fun s hs => hpos s (.tail _ hs)
    rw [List.mem_cons, countsFor_cons, hrest]
    by_cases hkey : t.key = s.key
    · rw [if_pos hkey]
      constructor
      -- the keys are distinct, so a later entry of the same key cannot be
      · rintro (rfl | hs)
        · exact ⟨hpos _ List.mem_cons_self, rfl⟩
        · exact absurd (hkey ▸ List.mem_map_of_mem (hrest.mpr hs)) hnodup.1
      · rintro ⟨-, hcounts⟩
        obtain ⟨hattempts, hsuccesses⟩ := Prod.mk.inj hcounts
        left
        cases s
        cases t
        simp_all
    · rw [if_neg hkey, or_iff_right fun heq : s = t => hkey (by rw [heq])]

/-- One attempt more is counted for its rail only. -/
theorem countsFor_countAttempt (key : RailKey) (succeeded : Bool) (stats : List RailStats)
    (k : RailKey) :
    countsFor (countAttempt key succeeded stats) k =
      if key = k then countsFor stats k + (1, succeeded.toNat) else countsFor stats k := by
  induction stats with
  | nil => by_cases hk : key = k <;> simp [countAttempt, hk, countsFor]
  | cons s rest ih =>
    rw [countAttempt]
    by_cases hs : s.key = key
    · rw [if_pos hs, countsFor_cons, countsFor_cons]
      by_cases hk : key = k
      · simp [hs, hk]
      · simp [hs, hk]
    · rw [if_neg hs, countsFor_cons, countsFor_cons, ih]
      by_cases hk : key = k
      · have hne : ¬s.key = k := fun h => hs (h.trans hk.symm)
        simp [hk, hne]
      · simp [hk]

theorem key_mem_countAttempt {key : RailKey} {succeeded : Bool} {stats : List RailStats}
    {k : RailKey} :
    k ∈ (countAttempt key succeeded stats).map (·.key) ↔ k = key ∨ k ∈ stats.map (·.key) := by
  induction stats with
  | nil => simp [countAttempt]
  | cons s rest ih =>
    rw [countAttempt]
    split
    · next hs =>
      simp only [List.map_cons, List.mem_cons, hs]
      tauto
    · simp only [List.map_cons, List.mem_cons, ih]
      tauto

theorem Tallied.countAttempt {stats : List RailStats} (h : Tallied stats) (key : RailKey)
    (succeeded : Bool) : Tallied (countAttempt key succeeded stats) := by
  obtain ⟨hnodup, hpos⟩ := h
  induction stats with
  | nil => exact ⟨List.nodup_singleton _, by simp [AegisMerchant.countAttempt]⟩
  | cons s rest ih =>
    rw [List.map_cons, List.nodup_cons] at hnodup
    have hrest := ih hnodup.2 fun t ht => hpos t (.tail _ ht)
    rw [AegisMerchant.countAttempt]
    split
    · refine ⟨List.nodup_cons.mpr hnodup, fun t ht => ?_⟩
      rcases List.mem_cons.mp ht with rfl | ht
      · exact Nat.succ_pos _
      · exact hpos t (.tail _ ht)
    · next hs =>
      refine ⟨List.nodup_cons.mpr ⟨?_, hrest.nodup⟩, fun t ht => ?_⟩
      · rw [key_mem_countAttempt, not_or]
        exact ⟨hs, hnodup.1⟩
      · rcases List.mem_cons.mp ht with rfl | ht
        · exact hpos _ List.mem_cons_self
        · exact hrest.pos t ht

/-! ## The evidence for a rail -/

/-- The successes and attempts of a method, over its rails. -/
def mergedFor (stats : List RailStats) (method : String) : ℕ × ℕ :=
  let merged := stats.filter fun s => s.key.method = method
  ((merged.map (·.attempts)).sum, (merged.map (·.successes)).sum)

theorem mergedFor_countAttempt (key : RailKey) (succeeded : Bool) (stats : List RailStats)
    (method : String) :
    mergedFor (countAttempt key succeeded stats) method =
      if key.method = method then mergedFor stats method + (1, succeeded.toNat)
      else mergedFor stats method := by
  induction stats with
  | nil => by_cases hm : key.method = method <;> simp [countAttempt, mergedFor, hm]
  | cons s rest ih =>
    -- one entry counts towards its own method only
    have hcons (t : RailStats) (more : List RailStats) : mergedFor (t :: more) method =
        if t.key.method = method then (t.attempts, t.successes) + mergedFor more method
        else mergedFor more method := by
      by_cases ht : t.key.method = method <;> simp [mergedFor, ht]
    rw [countAttempt]
    split
    · next hs =>
      rw [hcons, hcons]
      by_cases hm : key.method = method
      · simp only [hs, hm, if_true, Prod.ext_iff, Prod.fst_add, Prod.snd_add]
        omega
      · simp [hs, hm]
    · rw [hcons, hcons, ih]
      by_cases ht : s.key.method = method
      · by_cases hm : key.method = method
        · simp only [ht, hm, if_true, add_assoc]
        · simp [ht, hm]
      · simp [ht]

section Evidence

variable (now : DateTime) (window : ℤ) (attempts : List AttemptRecord)

/-- The evidence about a rail: the attempts on it in the window, and those that succeeded. -/
def evidence (key : RailKey) : RailStats where
  key
  attempts := attempts.countP fun r => r.rail? now window = some key
  successes := attempts.countP fun r => r.rail? now window = some key ∧ r.succeeded = true

def methodEvidence (method : String) : RailStats where
  key := { method }
  attempts := attempts.countP fun r => ((r.rail? now window).map (·.method)) = some method
  successes := attempts.countP fun r =>
    ((r.rail? now window).map (·.method)) = some method ∧ r.succeeded = true

/-- What is known of a rail: the evidence about it, or else about its method. -/
def evidenceFor (key : RailKey) : Option RailStats :=
  if 0 < (evidence now window attempts key).attempts then
    some (evidence now window attempts key)
  else if key.issuer = none then none
  else if (methodEvidence now window attempts key.method).attempts = 0 then none
  else some (methodEvidence now window attempts key.method)

/-- The loop of `from_attempts` counts what there is. -/
theorem fromAttempts_spec :
    (RailHealthIndex.fromAttempts attempts now window).computedAt = now ∧
      (RailHealthIndex.fromAttempts attempts now window).window = window ∧
      Tallied (RailHealthIndex.fromAttempts attempts now window).stats ∧
      (∀ key, countsFor (RailHealthIndex.fromAttempts attempts now window).stats key =
        ((evidence now window attempts key).attempts,
          (evidence now window attempts key).successes)) ∧
      ∀ method, mergedFor (RailHealthIndex.fromAttempts attempts now window).stats method =
        ((methodEvidence now window attempts method).attempts,
          (methodEvidence now window attempts method).successes) := by
  induction attempts using List.reverseRecOn with
  | nil => exact ⟨rfl, rfl, ⟨List.nodup_nil, by simp [RailHealthIndex.fromAttempts]⟩,
      fun _ => rfl, fun _ => rfl⟩
  -- the index counts the records in order, so the induction adds the last one
  | append_singleton attempts record ih =>
    obtain ⟨hnow, hwindow, htallied, hcounts, hmerged⟩ := ih
    have hstep : RailHealthIndex.fromAttempts (attempts ++ [record]) now window =
        (RailHealthIndex.fromAttempts attempts now window).tally record := by
      simp [RailHealthIndex.fromAttempts]
    rw [hstep, RailHealthIndex.tally, hnow, hwindow]
    cases hrail : record.rail? now window with
    | none =>
      refine ⟨hnow, hwindow, htallied, fun key => ?_, fun method => ?_⟩
      · rw [hcounts]
        simp [evidence, hrail]
      · rw [hmerged]
        simp [methodEvidence, hrail]
    | some rail =>
      refine ⟨rfl, rfl, htallied.countAttempt _ _, fun key => ?_, fun method => ?_⟩
      · rw [countsFor_countAttempt, hcounts]
        by_cases hkey : rail = key
        · cases hs : record.succeeded <;> simp [evidence, hrail, hkey, hs]
        · simp [evidence, hrail, hkey]
      · rw [mergedFor_countAttempt, hmerged]
        by_cases hm : rail.method = method
        · cases hs : record.succeeded <;> simp [methodEvidence, hrail, hm, hs]
        · simp [methodEvidence, hrail, hm]

/-- The buckets are the rails there is evidence about. -/
theorem mem_stats_iff (s : RailStats) :
    s ∈ (RailHealthIndex.fromAttempts attempts now window).stats ↔
      0 < s.attempts ∧ s = evidence now window attempts s.key := by
  obtain ⟨-, -, htallied, hcounts, -⟩ := fromAttempts_spec now window attempts
  rw [htallied.mem_iff, hcounts]
  refine and_congr_right fun _ => ⟨fun h => ?_, fun h => ?_⟩
  · obtain ⟨hattempts, hsuccesses⟩ := Prod.mk.inj h
    cases s
    simp only [evidence, RailStats.mk.injEq, true_and]
    exact ⟨hattempts.symm, hsuccesses.symm⟩
  · rw [← h]

theorem get_fromAttempts (method : String) (issuer : Option String) :
    (RailHealthIndex.fromAttempts attempts now window).get method issuer =
      evidenceFor now window attempts { method, issuer } := by
  obtain ⟨-, -, htallied, hcounts, hmerged⟩ := fromAttempts_spec now window attempts
  have hfound := hcounts { method, issuer }
  unfold RailHealthIndex.get evidenceFor
  cases hfind : (RailHealthIndex.fromAttempts attempts now window).stats.find? fun s =>
      s.key = { method, issuer } with
  | some exact' =>
    have hkey : exact'.key = { method, issuer } := by simpa using List.find?_some hfind
    obtain ⟨hpos, heq⟩ := (mem_stats_iff now window attempts exact').mp
      (List.mem_of_find?_eq_some hfind)
    rw [hkey] at heq
    rw [heq] at hpos
    rw [if_pos hpos, ← heq]
  | none =>
    rw [countsFor, hfind] at hfound
    -- no entry of this rail: the method's own figures answer
    have hzero : (evidence now window attempts { method, issuer }).attempts = 0 :=
      (congrArg Prod.fst hfound).symm
    have hattempts := congrArg Prod.fst (hmerged method)
    have hsuccesses := congrArg Prod.snd (hmerged method)
    simp only [mergedFor] at hattempts hsuccesses
    simp only [hzero, lt_irrefl, if_false, hattempts, hsuccesses]
    rfl

end Evidence

/-! ## The order of the evidence -/

section Orders

variable (now : DateTime) (window : ℤ) {attempts : List AttemptRecord}

/-- The evidence does not depend on the order it came in. -/
theorem evidence_perm {xs ys : List AttemptRecord} (h : xs.Perm ys) (key : RailKey) :
    evidence now window xs key = evidence now window ys key := by
  simp only [evidence, h.countP_eq]

theorem methodEvidence_perm {xs ys : List AttemptRecord} (h : xs.Perm ys) (method : String) :
    methodEvidence now window xs method = methodEvidence now window ys method := by
  simp only [methodEvidence, h.countP_eq]

theorem evidenceFor_perm {xs ys : List AttemptRecord} (h : xs.Perm ys) (key : RailKey) :
    evidenceFor now window xs key = evidenceFor now window ys key := by
  rw [evidenceFor, evidenceFor, evidence_perm now window h, methodEvidence_perm now window h]

/-- The rail of the first bucket stays the first. -/
theorem head_foldl_tally {key : RailKey} {index : RailHealthIndex}
    (h : (index.stats.map (·.key)).head? = some key) (attempts : List AttemptRecord) :
    ((attempts.foldl RailHealthIndex.tally index).stats.map (·.key)).head? = some key := by
  induction attempts generalizing index with
  | nil => exact h
  | cons record rest ih =>
    apply ih
    rw [RailHealthIndex.tally]
    cases record.rail? index.computedAt index.window with
    | none => exact h
    | some rail =>
      show ((countAttempt rail record.succeeded index.stats).map (·.key)).head? = some key
      cases hstats : index.stats with
      | nil =>
        rw [hstats] at h
        cases h
      | cons s more =>
        rw [hstats] at h
        rw [countAttempt]
        split
        · exact h
        · exact h

/-- Some order of the evidence has a given rail's attempts in front. -/
theorem exists_perm_head {key : RailKey} (h : 0 < (evidence now window attempts key).attempts) :
    ∃ ys rest, ys.Perm attempts ∧ (RailHealthIndex.fromAttempts ys now window).stats =
      evidence now window attempts key :: rest := by
  obtain ⟨record, hmem, hrail⟩ := List.countP_pos_iff.mp h
  rw [decide_eq_true_eq] at hrail
  -- the record of this rail is moved to the front, and its rail is counted first
  have hperm : (record :: attempts.erase record).Perm attempts := (List.perm_cons_erase hmem).symm
  have hhead := @head_foldl_tally key
    (RailHealthIndex.tally { window, computedAt := now } record)
    (by simp [RailHealthIndex.tally, hrail, countAttempt]) (attempts.erase record)
  rw [← List.foldl_cons] at hhead
  cases hstats : (RailHealthIndex.fromAttempts (record :: attempts.erase record) now window).stats with
  | nil =>
    rw [RailHealthIndex.fromAttempts] at hstats
    rw [hstats] at hhead
    cases hhead
  | cons s rest =>
    have hkey : s.key = key := by
      rw [RailHealthIndex.fromAttempts] at hstats
      rw [hstats] at hhead
      exact Option.some.inj hhead
    have hs := ((mem_stats_iff now window (record :: attempts.erase record) s).mp
      (hstats ▸ List.mem_cons_self)).2
    rw [hkey, evidence_perm now window hperm] at hs
    exact ⟨_, rest, hperm, by rw [hstats, hs]⟩

end Orders

/-! ## The choice of an alternative -/

section Choice

variable (now : DateTime) (window : ℤ) (failed : RailKey) (minAttempts : ℤ)
  (attempts : List AttemptRecord)

structure Candidate (key : RailKey) : Prop where
  seen : 0 < (evidence now window attempts key).attempts
  eligible : (evidence now window attempts key).Eligible failed minAttempts

/-- The candidates of the best standing. -/
structure Leads (key : RailKey) : Prop where
  candidate : Candidate now window failed minAttempts attempts key
  best : ∀ other, Candidate now window failed minAttempts attempts other →
    (evidence now window attempts other).standing bounds ≤
      (evidence now window attempts key).standing bounds

/-- Two rails of the same best score and number of attempts, which beat what is known of the failed
one. -/
structure TiedAtTop (first second : RailKey) : Prop where
  differ : first ≠ second
  firstLeads : Leads bounds now window failed minAttempts attempts first
  secondLeads : Leads bounds now window failed minAttempts attempts second
  beats : RailHealthIndex.Beats bounds (evidenceFor now window attempts failed) minAttempts
    ((evidence now window attempts first).score bounds)

/-- `best_alternative` on an index made of attempts. -/
def chosen : Option RailStats :=
  (RailHealthIndex.fromAttempts attempts now window).bestAlternative bounds failed.method
    failed.issuer minAttempts

/-- The first rail of the ranking that could be chosen. -/
def firstRanked : Option RailStats :=
  ((RailHealthIndex.fromAttempts attempts now window).ranked bounds (some failed)).find? fun s =>
    s.Eligible failed minAttempts

variable {bounds now window failed minAttempts attempts}

theorem mem_eligible_iff (s : RailStats) :
    s ∈ ((RailHealthIndex.fromAttempts attempts now window).stats.filter fun s =>
        s.Eligible failed minAttempts) ↔
      Candidate now window failed minAttempts attempts s.key ∧
        s = evidence now window attempts s.key := by
  rw [List.mem_filter, mem_stats_iff, decide_eq_true_eq]
  constructor
  · rintro ⟨⟨hpos, heq⟩, heligible⟩
    rw [heq] at hpos heligible
    exact ⟨⟨hpos, heligible⟩, heq⟩
  · rintro ⟨⟨hpos, heligible⟩, heq⟩
    rw [← heq] at hpos heligible
    exact ⟨⟨hpos, heq⟩, heligible⟩

/-- The choice in terms of the evidence: the first of the candidates of the best standing, if it
beats what is known of the failed rail. -/
theorem chosen_eq :
    chosen bounds now window failed minAttempts attempts =
      (((RailHealthIndex.fromAttempts attempts now window).stats.filter fun s =>
          s.Eligible failed minAttempts).argmax (·.standing bounds)).filter fun best =>
        RailHealthIndex.Beats bounds (evidenceFor now window attempts failed) minAttempts
          (best.score bounds) := by
  unfold chosen RailHealthIndex.bestAlternative
  rw [get_fromAttempts]
  simp only
  split
  · next hnone => rw [hnone, Option.filter_none]
  · next best hbest => rw [hbest, Option.filter_some]; simp only [decide_eq_true_eq]

/-- The first best of the candidates leads. -/
theorem leads_of_argmax {s : RailStats}
    (h : ((RailHealthIndex.fromAttempts attempts now window).stats.filter fun s =>
      s.Eligible failed minAttempts).argmax (·.standing bounds) = some s) :
    s = evidence now window attempts s.key ∧
      Leads bounds now window failed minAttempts attempts s.key := by
  obtain ⟨hmem, hmax, -⟩ := List.argmax_eq_some_iff.mp h
  obtain ⟨hcandidate, heq⟩ := (mem_eligible_iff s).mp hmem
  refine ⟨heq, hcandidate, fun other hother => ?_⟩
  rw [← heq]
  exact hmax _ ((mem_eligible_iff _).mpr ⟨hother, rfl⟩)

theorem chosen_eq_some {s : RailStats}
    (h : chosen bounds now window failed minAttempts attempts = some s) :
    s = evidence now window attempts s.key ∧
      Leads bounds now window failed minAttempts attempts s.key ∧
      RailHealthIndex.Beats bounds (evidenceFor now window attempts failed) minAttempts
        (s.score bounds) := by
  rw [chosen_eq, Option.filter_eq_some_iff, decide_eq_true_eq] at h
  obtain ⟨heq, hleads⟩ := leads_of_argmax h.1
  exact ⟨heq, hleads, h.2⟩

/-- Being a candidate and leading do not depend on the order of the evidence. -/
theorem Candidate.perm {xs ys : List AttemptRecord} {key : RailKey}
    (hcandidate : Candidate now window failed minAttempts xs key) (h : xs.Perm ys) :
    Candidate now window failed minAttempts ys key := by
  obtain ⟨hseen, heligible⟩ := hcandidate
  rw [evidence_perm now window h] at hseen heligible
  exact ⟨hseen, heligible⟩

theorem Leads.perm {xs ys : List AttemptRecord} {key : RailKey}
    (hleads : Leads bounds now window failed minAttempts xs key) (h : xs.Perm ys) :
    Leads bounds now window failed minAttempts ys key := by
  refine ⟨hleads.candidate.perm h, fun other hother => ?_⟩
  rw [← evidence_perm now window h, ← evidence_perm now window h]
  exact hleads.best other (hother.perm h.symm)

/-- Two rails that lead have the same standing. -/
theorem Leads.standing_eq {first second : RailKey}
    (h : Leads bounds now window failed minAttempts attempts first)
    (h' : Leads bounds now window failed minAttempts attempts second) :
    (evidence now window attempts first).standing bounds =
      (evidence now window attempts second).standing bounds :=
  le_antisymm (h'.best _ h.candidate) (h.best _ h'.candidate)

/-! ## Who is chosen -/

/-- **A rail that leads is chosen by some order of the evidence.** -/
theorem exists_chosen {key : RailKey}
    (h : Leads bounds now window failed minAttempts attempts key)
    (hbeats : RailHealthIndex.Beats bounds (evidenceFor now window attempts failed) minAttempts
      ((evidence now window attempts key).score bounds)) :
    ∃ ys, ys.Perm attempts ∧ chosen bounds now window failed minAttempts ys =
      some (evidence now window attempts key) := by
  obtain ⟨ys, rest, hperm, hstats⟩ := exists_perm_head now window h.candidate.seen
  refine ⟨ys, hperm, ?_⟩
  rw [chosen_eq, evidenceFor_perm now window hperm, Option.filter_eq_some_iff,
    List.argmax_eq_some_iff]
  have hfront : ((RailHealthIndex.fromAttempts ys now window).stats.filter fun s =>
      s.Eligible failed minAttempts) = evidence now window attempts key ::
        rest.filter fun s => s.Eligible failed minAttempts := by
    rw [hstats]
    exact List.filter_cons_of_pos (decide_eq_true h.candidate.eligible)
  refine ⟨⟨?_, fun s hs => ?_, fun s _ _ => ?_⟩, decide_eq_true hbeats⟩
  · rw [hfront]
    exact List.mem_cons_self
  · obtain ⟨hcandidate, heq⟩ := (mem_eligible_iff s).mp hs
    rw [heq, evidence_perm now window hperm]
    exact h.best s.key (hcandidate.perm hperm)
  -- ties go to the first, and this rail is the first
  · rw [hfront, List.idxOf_cons_self]
    exact Nat.zero_le _

/-- Where no two rails tie at the top, any two orders of the evidence lead to the same choice. -/
theorem chosen_perm (h : ∀ first second,
      ¬TiedAtTop bounds now window failed minAttempts attempts first second)
    {ys zs : List AttemptRecord} (hy : ys.Perm attempts) (hz : zs.Perm attempts) {s : RailStats}
    (hs : chosen bounds now window failed minAttempts ys = some s) :
    chosen bounds now window failed minAttempts zs = some s := by
  obtain ⟨heq, hleads, hbeats⟩ := chosen_eq_some hs
  rw [evidence_perm now window hy] at heq
  rw [evidenceFor_perm now window hy] at hbeats
  replace hleads := hleads.perm hy
  -- the other order has a first best too, and it has the same standing
  cases hbest : ((RailHealthIndex.fromAttempts zs now window).stats.filter fun s =>
      s.Eligible failed minAttempts).argmax (·.standing bounds) with
  | none =>
    rw [List.argmax_eq_none] at hbest
    have hmem := (mem_eligible_iff (evidence now window zs s.key)).mpr
      ⟨hleads.candidate.perm hz.symm, rfl⟩
    rw [hbest] at hmem
    cases hmem
  | some t =>
    obtain ⟨hteq, htleads⟩ := leads_of_argmax hbest
    rw [evidence_perm now window hz] at hteq
    replace htleads := htleads.perm hz
    -- two rails with the best standing would be a tie
    by_cases hkey : s.key = t.key
    · obtain rfl : s = t := by rw [heq, hteq, hkey]
      rw [chosen_eq, hbest, evidenceFor_perm now window hz, Option.filter_eq_some_iff]
      exact ⟨rfl, decide_eq_true hbeats⟩
    · refine absurd ⟨hkey, hleads, htleads, ?_⟩ (h s.key t.key)
      rw [← heq]
      exact hbeats

/-- In an ordered list the first element with a property is one that none other with it precedes. -/
theorem find?_of_first {α : Type} {r : α → α → Prop} {p : α → Bool} {x : α} :
    ∀ {l : List α}, l.Pairwise r → x ∈ l → p x = true → (∀ y ∈ l, p y = true → y ≠ x → ¬r y x) →
      l.find? p = some x
  | y :: l, hsorted, hx, hp, hfirst => by
    rw [List.pairwise_cons] at hsorted
    rcases List.mem_cons.mp hx with rfl | hmem
    · rw [List.find?_cons_of_pos hp]
    · by_cases hy : p y = true
      · by_cases hne : y = x
        · rw [List.find?_cons_of_pos hy, hne]
        · exact absurd (hsorted.1 x hmem) (hfirst y List.mem_cons_self hy hne)
      · rw [List.find?_cons_of_neg hy]
        exact find?_of_first hsorted.2 hmem hp fun z hz => hfirst z (.tail _ hz)

/-- The ranking is sorted. -/
theorem ranked_sorted (bounds : ℕ → ℕ → ℚ × ℚ) (index : RailHealthIndex)
    (exclude : Option RailKey) :
    (index.ranked bounds exclude).Pairwise fun a b => a.rankKey bounds ≤ b.rankKey bounds := by
  refine List.Pairwise.imp (fun hle => of_decide_eq_true hle)
    (List.pairwise_mergeSort (fun a b c hab hbc => ?_) (fun a b => ?_) _)
  · exact decide_eq_true (le_trans (of_decide_eq_true hab) (of_decide_eq_true hbc))
  · rw [Bool.or_eq_true, decide_eq_true_eq, decide_eq_true_eq]
    exact le_total _ _

theorem mem_ranked {index : RailHealthIndex} {exclude : Option RailKey} {s : RailStats} :
    s ∈ index.ranked bounds exclude ↔ s ∈ index.stats ∧ exclude ≠ some s.key := by
  rw [RailHealthIndex.ranked, List.mem_mergeSort, List.mem_filter, decide_eq_true_eq]

/-- What is ranked at least as high stands at least as high. -/
theorem standing_le_of_rankKey_le {s t : RailStats}
    (h : t.rankKey bounds ≤ s.rankKey bounds) : s.standing bounds ≤ t.standing bounds := by
  rw [RailStats.rankKey, RailStats.rankKey, Prod.Lex.toLex_le_toLex] at h
  rw [RailStats.standing, RailStats.standing, Prod.Lex.toLex_le_toLex]
  rcases h with hlt | ⟨heq, hle⟩
  · exact .inl (neg_lt_neg_iff.mp hlt)
  · refine .inr ⟨(neg_inj.mp heq).symm, ?_⟩
    rw [Prod.Lex.toLex_le_toLex] at hle
    simp only [neg_lt_neg_iff, neg_inj] at hle
    show s.attempts ≤ t.attempts
    omega

/-- Where no two rails tie at the top, the choice is the first of the ranking. -/
theorem firstRanked_of_chosen (h : ∀ first second,
      ¬TiedAtTop bounds now window failed minAttempts attempts first second)
    {s : RailStats} (hs : chosen bounds now window failed minAttempts attempts = some s) :
    firstRanked bounds now window failed minAttempts attempts = some s := by
  obtain ⟨heq, hleads, hbeats⟩ := chosen_eq_some hs
  have hstats := (mem_eligible_iff s).mpr ⟨hleads.candidate, heq⟩
  rw [List.mem_filter, decide_eq_true_eq] at hstats
  refine find?_of_first (ranked_sorted bounds _ _) ?_ (decide_eq_true hstats.2) ?_
  · refine mem_ranked.mpr ⟨hstats.1, fun hfailed => ?_⟩
    exact hstats.2.1 (Option.some.inj hfailed).symm
  · intro t ht heligible hne hle
    have htstats : t ∈ ((RailHealthIndex.fromAttempts attempts now window).stats.filter fun s =>
        s.Eligible failed minAttempts) := List.mem_filter.mpr ⟨(mem_ranked.mp ht).1, heligible⟩
    obtain ⟨hcandidate, hteq⟩ := (mem_eligible_iff t).mp htstats
    have hstanding : s.standing bounds ≤ t.standing bounds := standing_le_of_rankKey_le hle
    have htleads : Leads bounds now window failed minAttempts attempts t.key := by
      refine ⟨hcandidate, fun other hother => ?_⟩
      rw [← hteq]
      refine (hleads.best other hother).trans ?_
      rw [← heq]
      exact hstanding
    -- a rail ranked before it would lead as well, and tie with it
    refine h s.key t.key ⟨fun hkey => hne ?_, hleads, htleads, heq ▸ hbeats⟩
    rw [hteq, heq, hkey]

/-- **Alternatives and ties.** Every order of the evidence leads to one choice, the first of the
ranking, exactly when no two rails tie at the top. -/
theorem chosen_stable_iff (bounds : ℕ → ℕ → ℚ × ℚ) (now : DateTime) (window : ℤ)
    (failed : RailKey) (minAttempts : ℤ) (attempts : List AttemptRecord) :
    (∀ ys zs, ys.Perm attempts → zs.Perm attempts →
      chosen bounds now window failed minAttempts ys =
        chosen bounds now window failed minAttempts zs ∧
      ∀ s, chosen bounds now window failed minAttempts ys = some s →
        firstRanked bounds now window failed minAttempts ys = some s) ↔
      ∀ first second, ¬TiedAtTop bounds now window failed minAttempts attempts first second := by
  constructor
  · intro h first second htied
    have hstanding := htied.firstLeads.standing_eq htied.secondLeads
    have hscore : (evidence now window attempts first).score bounds =
        (evidence now window attempts second).score bounds :=
      congrArg (fun x => (ofLex x).1) hstanding
    -- each of the two tied rails is chosen in some order
    obtain ⟨ys, hys, hfirst⟩ := exists_chosen htied.firstLeads htied.beats
    obtain ⟨zs, hzs, hsecond⟩ := exists_chosen htied.secondLeads (hscore ▸ htied.beats)
    have hsame := (h ys zs hys hzs).1
    rw [hfirst, hsecond] at hsame
    exact htied.differ (congrArg RailStats.key (Option.some.inj hsame))
  · intro h ys zs hys hzs
    -- a tie in one order of the records is a tie in every other
    have htransfer {first second : RailKey}
        (htied : TiedAtTop bounds now window failed minAttempts ys first second) : False := by
      refine h first second ⟨htied.differ, htied.firstLeads.perm hys, htied.secondLeads.perm hys, ?_⟩
      rw [← evidenceFor_perm now window hys, ← evidence_perm now window hys]
      exact htied.beats
    refine ⟨?_, fun s hs => firstRanked_of_chosen (fun _ _ htied => htransfer htied) hs⟩
    cases hy : chosen bounds now window failed minAttempts ys with
    | some s => exact (chosen_perm h hys hzs hy).symm
    | none =>
      cases hz : chosen bounds now window failed minAttempts zs with
      | none => rfl
      | some s =>
        have := chosen_perm h hzs hys hz
        rw [hy] at this
        cases this

/-! ## Two rails that tie -/

/-- Eight paid attempts on each of two rails. -/
def evenAttempts (first second : String) : List AttemptRecord :=
  List.replicate 8 ⟨some first, none, true, { utc := 0 }⟩ ++
    List.replicate 8 ⟨some second, none, true, { utc := 0 }⟩

/-- The same attempts in two orders lead to two alternatives for a failed netbanking payment. -/
theorem not_chosen_stable :
    ¬∀ (bounds : ℕ → ℕ → ℚ × ℚ) (now : DateTime) (window : ℤ) (failed : RailKey)
        (minAttempts : ℤ) (ys zs : List AttemptRecord), ys.Perm zs →
      chosen bounds now window failed minAttempts ys =
        chosen bounds now window failed minAttempts zs := fun h => by
  have hsame := h (fun successes attempts => (successes / attempts, 1)) { utc := 0 } day
    { method := "netbanking" } 8 (evenAttempts "card" "upi") (evenAttempts "upi" "card")
    List.perm_append_comm
  exact absurd hsame (by decide +kernel)

end Choice

end AegisMerchant
