import AegisMerchant.Core.Runtime
import Mathlib.Algebra.Order.Floor.Ring
import Mathlib.Tactic.Linarith

/-!
# Free-tier quota control

A token bucket limits the requests of a minute, a counter those of a day in India. Calls come in any
order, each with the readings of the clocks it makes, and a call that waits is resumed in between
other calls. The bucket is a potential: what it holds and what it gave out is bounded by what flowed
in.

`Kept.run` is the invariant of the potential over a run, `limiter_limited` the limits it gives.
-/

namespace AegisMerchant

open Time Numeric

namespace RateLimit

/-- `f"{q:.1f}"` of a number that is not negative. -/
def fixedOne (q : ℚ) : String :=
  let tenths := (roundHalfEven (q * 10)).toNat
  toString (tenths / 10) ++ "." ++ toString (tenths % 10)

/-- `day.isoformat()`. -/
def dayText (day : ℤ) : String :=
  let (year, month, dom) := civilFromDays day
  Text.padNat 4 year.toNat ++ "-" ++ pad2 month ++ "-" ++ pad2 dom

structure QuotaState where
  day : ℤ
  usedToday : ℕ
  dailyLimit : ℤ

/-- `RateLimiter`, with the counts of its in-memory store. Days are numbered as the calendar of India
has them. -/
structure RateLimiter where
  rpm : ℤ
  rpd : ℤ
  counts : ℤ → ℕ
  tokens : ℚ
  lastRefill : ℚ
  rpm_pos : 1 ≤ rpm
  rpd_pos : 1 ≤ rpd

/-- `RateLimiter.__init__`, on a store that may have counted before. -/
def RateLimiter.new (rpm rpd : ℤ) (counts : ℤ → ℕ) (monotonic : ℚ) : Except PyError RateLimiter :=
  if h : rpm < 1 ∨ rpd < 1 then throw (.valueError "rate limits must be at least 1")
  else
    pure { rpm, rpd, counts, tokens := rpm, lastRefill := monotonic
           rpm_pos := Int.not_lt.mp fun hlt => h (.inl hlt)
           rpd_pos := Int.not_lt.mp fun hlt => h (.inr hlt) }

/-- One reading of the clocks: the wall clock, and seconds of the monotonic one. -/
structure Reading where
  wall : DateTime
  monotonic : ℚ
  deriving DecidableEq

/-- `_today`: the day in India. -/
def today (now : DateTime) : ℤ := (toIst now).wallDay

namespace RateLimiter

variable (l : RateLimiter)

def refill (now : ℚ) : RateLimiter :=
  let elapsed := max 0 (now - l.lastRefill)
  { l with lastRefill := now, tokens := min (l.rpm : ℚ) (l.tokens + elapsed * ((l.rpm : ℚ) / 60)) }

def state (now : DateTime) : QuotaState where
  day := today now
  usedToday := l.counts (today now)
  dailyLimit := l.rpd

/-- `try_acquire`, which holds the lock and never sleeps. -/
def tryAcquire (at' : Reading) : RateLimiter × Bool × String :=
  let day := today at'.wall
  let used := l.counts day
  if l.rpd ≤ used then
    (l, false, s!"daily quota exhausted ({used}/{l.rpd} on " ++ dayText day ++ ")")
  else
    let l := l.refill at'.monotonic
    if l.tokens < 1 then
      (l, false, "per-minute limit reached; " ++ fixedOne ((1 - l.tokens) * (60 / l.rpm)) ++
        "s until the next slot")
    else
      ({ l with tokens := l.tokens - 1, counts := Function.update l.counts day (used + 1) },
        true, "ok")

def secondsUntilSlot (now : ℚ) : RateLimiter × ℚ :=
  let l := l.refill now
  (l, if 1 ≤ l.tokens then 0 else (1 - l.tokens) * (60 / l.rpm))

/-- What a turn of the loop of `acquire` comes to. -/
inductive Turn where
  | returns (allowed : Bool) (reason : String)
  | sleeps (delay : ℚ)

/-- One turn of the loop of `acquire`, up to its sleep. The monotonic clock is read again for the
delay. -/
def acquireTurn (maxWaitS waited : ℚ) (at' : Reading) (again : ℚ) : RateLimiter × Turn :=
  let (l, allowed, reason) := l.tryAcquire at'
  if allowed then (l, .returns true "ok")
  else if Text.Contains "daily quota" reason then (l, .returns false reason)
  else
    let (l, slot) := l.secondsUntilSlot again
    let delay := min (slot + 1 / 20) (maxWaitS - waited)
    if delay ≤ 0 then (l, .returns false (reason ++ " (waited " ++ fixedOne waited ++ "s)"))
    else (l, .sleeps delay)

end RateLimiter

/-! ## Runs -/

/-- A call of `acquire`: how long it may wait and has slept, how many turns its loop has made, and
what it returned. -/
structure Call where
  maxWaitS : ℚ
  waited : ℚ := 0
  turns : ℕ := 0
  result : Option (Bool × String) := none

/-- A limiter with the calls of `acquire` on it, and the readings at which slots were granted. -/
structure Use where
  limiter : RateLimiter
  calls : List Call := []
  grants : List Reading := []

/-- What happens to the limiter. A call of `acquire` makes its first turn at once, and a turn more
each time it is resumed after a sleep. -/
inductive Move where
  | tryAcquire (at' : Reading)
  | state (now : DateTime)
  | secondsUntilSlot (now : ℚ)
  | acquire (maxWaitS : ℚ) (at' : Reading) (again : ℚ)
  | resume (k : ℕ) (at' : Reading) (again : ℚ)

def Call.after (c : Call) : RateLimiter.Turn → Call
  | .returns allowed reason => { c with turns := c.turns + 1, result := some (allowed, reason) }
  | .sleeps delay => { c with turns := c.turns + 1, waited := c.waited + delay }

def granted (grants : List Reading) (at' : Reading) (allowed : Bool) : List Reading :=
  if allowed then grants ++ [at'] else grants

def RateLimiter.Turn.allowed : RateLimiter.Turn → Bool
  | .returns allowed _ => allowed
  | .sleeps _ => false

def step (u : Use) : Move → Use
  | .tryAcquire at' =>
    let (limiter, allowed, _) := u.limiter.tryAcquire at'
    { u with limiter, grants := granted u.grants at' allowed }
  | .state _ => u
  | .secondsUntilSlot now => { u with limiter := (u.limiter.secondsUntilSlot now).1 }
  | .acquire maxWaitS at' again =>
    let (limiter, turn) := u.limiter.acquireTurn maxWaitS 0 at' again
    { limiter
      calls := u.calls ++ [Call.after { maxWaitS } turn]
      grants := granted u.grants at' turn.allowed }
  | .resume k at' again =>
    match u.calls[k]? with
    | none => u
    | some c =>
      -- a call that returned is not resumed
      if c.result.isSome then u
      else
        let (limiter, turn) := u.limiter.acquireTurn c.maxWaitS c.waited at' again
        { limiter
          calls := u.calls.set k (c.after turn)
          grants := granted u.grants at' turn.allowed }

/-- The readings of the monotonic clock in one move, in their order. -/
def Move.readings : Move → List ℚ
  | .tryAcquire at' => [at'.monotonic]
  | .state _ => []
  | .secondsUntilSlot now => [now]
  | .acquire _ at' again => [at'.monotonic, again]
  | .resume _ at' again => [at'.monotonic, again]

def run (limiter : RateLimiter) (moves : List Move) : Use := moves.foldl step { limiter }

/-- The monotonic clock does not go back, from the reading the limiter was made at on. -/
def ClockRuns (start : ℚ) (moves : List Move) : Prop :=
  (start :: moves.flatMap Move.readings).Pairwise (· ≤ ·)

/-! ## What one call does -/

namespace RateLimiter

/-- A token and one of the day's slots are taken. -/
def take (l : RateLimiter) (day : ℤ) : RateLimiter :=
  { l with tokens := l.tokens - 1, counts := Function.update l.counts day (l.counts day + 1) }

/-- An attempt changes nothing, only refills, or refills and takes. -/
theorem tryAcquire_cases (l : RateLimiter) (at' : Reading) :
    ((l.tryAcquire at').2.1 = false ∧
        ((l.tryAcquire at').1 = l ∨ (l.tryAcquire at').1 = l.refill at'.monotonic)) ∨
      ((l.tryAcquire at').2.1 = true ∧
        (l.counts (today at'.wall) : ℤ) < l.rpd ∧ 1 ≤ (l.refill at'.monotonic).tokens ∧
        (l.tryAcquire at').1 = (l.refill at'.monotonic).take (today at'.wall)) := by
  unfold tryAcquire
  simp only
  split
  · exact .inl ⟨rfl, .inl rfl⟩
  · next hday =>
    split
    · exact .inl ⟨rfl, .inr rfl⟩
    · next htoken => exact .inr ⟨rfl, not_le.mp hday, not_lt.mp htoken, rfl⟩

/-- A turn is an attempt, and after a refusal perhaps one refill more. -/
theorem acquireTurn_cases (l : RateLimiter) (maxWaitS waited : ℚ) (at' : Reading) (again : ℚ) :
    (l.acquireTurn maxWaitS waited at' again).2.allowed = (l.tryAcquire at').2.1 ∧
      ((l.acquireTurn maxWaitS waited at' again).1 = (l.tryAcquire at').1 ∨
        ((l.tryAcquire at').2.1 = false ∧
          (l.acquireTurn maxWaitS waited at' again).1 = (l.tryAcquire at').1.refill again)) := by
  unfold acquireTurn
  obtain ⟨l', allowed, reason⟩ := l.tryAcquire at'
  cases allowed with
  | true => exact ⟨rfl, .inl rfl⟩
  | false =>
    simp only [Bool.false_eq_true, if_false]
    split
    · exact ⟨rfl, .inl rfl⟩
    · split
      · exact ⟨rfl, .inr ⟨trivial, rfl⟩⟩
      · exact ⟨rfl, .inr ⟨trivial, rfl⟩⟩

/-- A sleep is a twentieth of a second past the next slot, or what is left of the wait. -/
theorem acquireTurn_sleeps {l : RateLimiter} {maxWaitS waited : ℚ} {at' : Reading} {again delay : ℚ}
    (h : (l.acquireTurn maxWaitS waited at' again).2 = .sleeps delay) :
    0 < delay ∧ delay ≤ maxWaitS - waited ∧ (1 / 20 ≤ delay ∨ delay = maxWaitS - waited) := by
  unfold acquireTurn at h
  generalize l.tryAcquire at' = attempt at h
  obtain ⟨l', allowed, reason⟩ := attempt
  cases allowed with
  | true => cases h
  | false =>
    simp only [Bool.false_eq_true, if_false] at h
    split at h
    · cases h
    · split at h
      · cases h
      · next hpos =>
        -- the time to the next token is never negative
        have hslot : 0 ≤ (l'.secondsUntilSlot again).2 := by
          unfold secondsUntilSlot
          simp only
          split
          · exact le_rfl
          · next htoken =>
            have hrpm : (0 : ℚ) < (l'.refill again).rpm :=
              Int.cast_pos.mpr (lt_of_lt_of_le one_pos (l'.refill again).rpm_pos)
            exact mul_nonneg (sub_nonneg.mpr (not_le.mp htoken).le) (div_nonneg (by norm_num) hrpm.le)
        obtain rfl := Turn.sleeps.inj h
        refine ⟨not_le.mp hpos, min_le_right _ _, ?_⟩
        -- a twentieth of a second is added, unless the budget is nearer
        rcases min_choice ((l'.secondsUntilSlot again).2 + 1 / 20) (maxWaitS - waited) with hc | hc
        · rw [hc]
          exact .inl (by linarith)
        · rw [hc]
          exact .inr rfl

end RateLimiter

/-! ## The rule of runs -/

/-- A property of the limiter and the grants that refilling and taking keep. -/
structure Kept (P : RateLimiter → List Reading → Prop) : Prop where
  refill : ∀ l grants now, P l grants → l.lastRefill ≤ now → P (l.refill now) grants
  take : ∀ l grants (at' : Reading), P l grants → l.lastRefill = at'.monotonic →
    (l.counts (today at'.wall) : ℤ) < l.rpd → 1 ≤ l.tokens →
    P (l.take (today at'.wall)) (grants ++ [at'])

section Rule

variable {P : RateLimiter → List Reading → Prop} (hkept : Kept P)

include hkept

theorem Kept.tryAcquire {l : RateLimiter} {grants : List Reading} (h : P l grants) {at' : Reading}
    (hclock : l.lastRefill ≤ at'.monotonic) :
    P (l.tryAcquire at').1 (granted grants at' (l.tryAcquire at').2.1) ∧
      ((l.tryAcquire at').1.lastRefill = l.lastRefill ∨
        (l.tryAcquire at').1.lastRefill = at'.monotonic) := by
  rcases l.tryAcquire_cases at' with ⟨hallowed, hsame | hrefill⟩ | ⟨hallowed, hday, htoken, htake⟩
  · rw [hallowed, hsame]
    exact ⟨h, .inl rfl⟩
  · rw [hallowed, hrefill]
    exact ⟨hkept.refill _ _ _ h hclock, .inr rfl⟩
  · rw [hallowed, htake]
    exact ⟨hkept.take _ _ _ (hkept.refill _ _ _ h hclock) rfl hday htoken, .inr rfl⟩

theorem Kept.acquireTurn {l : RateLimiter} {grants : List Reading} (h : P l grants)
    (maxWaitS waited : ℚ) {at' : Reading} {again : ℚ} (hclock : l.lastRefill ≤ at'.monotonic)
    (hagain : at'.monotonic ≤ again) :
    P (l.acquireTurn maxWaitS waited at' again).1
        (granted grants at' (l.acquireTurn maxWaitS waited at' again).2.allowed) ∧
      (l.acquireTurn maxWaitS waited at' again).1.lastRefill ∈
        [l.lastRefill, at'.monotonic, again] := by
  obtain ⟨htry, hlast⟩ := hkept.tryAcquire h hclock
  obtain ⟨hallowed, hsame | ⟨hrefused, hrefill⟩⟩ :=
    l.acquireTurn_cases maxWaitS waited at' again
  · rw [hallowed, hsame]
    refine ⟨htry, ?_⟩
    rcases hlast with hlast | hlast
    · simp [hlast]
    · simp [hlast]
  · rw [hallowed, hrefill]
    refine ⟨?_, by simp [RateLimiter.refill]⟩
    -- the second reading is not before the first, so the refill may use it
    have hbefore : (l.tryAcquire at').1.lastRefill ≤ again := by
      rcases hlast with hlast | hlast
      · rw [hlast]
        exact hclock.trans hagain
      · rw [hlast]
        exact hagain
    have := hkept.refill _ _ again htry hbefore
    rw [hrefused] at this ⊢
    exact this

/-- One move keeps it, and the bucket was last filled at a reading of the move or before it. -/
theorem Kept.step {u : Use} (h : P u.limiter u.grants) {move : Move}
    (hclock : (u.limiter.lastRefill :: move.readings).Pairwise (· ≤ ·)) :
    P (step u move).limiter (step u move).grants ∧
      (RateLimit.step u move).limiter.lastRefill ∈ u.limiter.lastRefill :: move.readings := by
  cases move with
  | tryAcquire at' =>
    have hnow := List.rel_of_pairwise_cons hclock
      (show at'.monotonic ∈ Move.readings (.tryAcquire at') by simp [Move.readings])
    obtain ⟨htry, hlast⟩ := hkept.tryAcquire h hnow
    exact ⟨htry, by simpa [RateLimit.step, Move.readings] using hlast⟩
  | state now => exact ⟨h, List.mem_cons_self⟩
  -- asking for the wait refills the bucket too
  | secondsUntilSlot now =>
    have hnow := List.rel_of_pairwise_cons hclock
      (show now ∈ Move.readings (.secondsUntilSlot now) by simp [Move.readings])
    exact ⟨hkept.refill _ _ _ h hnow, by simp [RateLimit.step, Move.readings,
      RateLimiter.secondsUntilSlot, RateLimiter.refill]⟩
  | acquire maxWaitS at' again =>
    simp only [Move.readings, List.pairwise_cons, List.mem_cons, forall_eq_or_imp] at hclock
    exact hkept.acquireTurn h maxWaitS 0 hclock.1.1 hclock.2.1.1
  | resume k at' again =>
    simp only [RateLimit.step]
    split
    · exact ⟨h, List.mem_cons_self⟩
    · split
      · exact ⟨h, List.mem_cons_self⟩
      · simp only [Move.readings, List.pairwise_cons, List.mem_cons, forall_eq_or_imp] at hclock
        exact hkept.acquireTurn h _ _ hclock.1.1 hclock.2.1.1

/-- **Runs**: what refilling and taking keep holds along every run of a clock that does not go
back. -/
theorem Kept.run {l : RateLimiter} (h : P l []) {moves : List Move}
    (hclock : ClockRuns l.lastRefill moves) :
    P (run l moves).limiter (run l moves).grants := by
  have hmoves : ∀ u : Use, P u.limiter u.grants → ClockRuns u.limiter.lastRefill moves →
      P (moves.foldl RateLimit.step u).limiter (moves.foldl RateLimit.step u).grants := by
    clear hclock
    induction moves with
    | nil => exact fun u h _ => h
    | cons move rest ih =>
      intro u h hclock
      rw [ClockRuns, List.flatMap_cons, ← List.cons_append, List.pairwise_append] at hclock
      obtain ⟨hmove, hrest, hacross⟩ := hclock
      obtain ⟨hstep, hlast⟩ := hkept.step h hmove
      exact ih _ hstep (List.pairwise_cons.mpr ⟨fun t ht => hacross _ hlast t ht, hrest⟩)
  exact hmoves _ h hclock

end Rule

/-! ## The two limits -/

def grantsOn (day : ℤ) (grants : List Reading) : ℕ :=
  grants.countP fun g => today g.wall = day

/-- How many slots were granted in an interval of the monotonic clock. -/
def grantsWithin (start stop : ℚ) (grants : List Reading) : ℕ :=
  grants.countP fun g => start ≤ g.monotonic ∧ g.monotonic ≤ stop

/-- A day's grants are counted, and the count stops at the limit. -/
structure DayBook (rpd : ℤ) (l : RateLimiter) (grants : List Reading) : Prop where
  rpd_eq : l.rpd = rpd
  counted : ∀ day, grantsOn day grants ≤ l.counts day
  limited : ∀ day, grantsOn day grants = 0 ∨ (l.counts day : ℤ) ≤ rpd

theorem dayBook_kept (rpd : ℤ) : Kept (DayBook rpd) where
  refill _ _ _ h _ := ⟨h.rpd_eq, h.counted, h.limited⟩
  take l grants at' h _ hday _ := by
    have hgrants (day : ℤ) : grantsOn day (grants ++ [at']) =
        grantsOn day grants + if today at'.wall = day then 1 else 0 := by
      simp [grantsOn, List.countP_append, List.countP_singleton]
    refine ⟨h.rpd_eq, fun day => ?_, fun day => ?_⟩
    · have := h.counted day
      rw [hgrants]
      by_cases hsame : today at'.wall = day
      · subst hsame
        simpa [RateLimiter.take] using this
      · simpa [RateLimiter.take, hsame, Ne.symm hsame] using this
    · rw [hgrants]
      by_cases hsame : today at'.wall = day
      · subst hsame
        right
        have := h.rpd_eq
        simp only [RateLimiter.take, Function.update_self]
        push_cast
        omega
      · simpa [RateLimiter.take, hsame, Ne.symm hsame] using h.limited day

/-- **The potential of the bucket.** What it holds, together with what it gave out since the interval
began, is no more than it can hold and what flowed in since. -/
structure Bucket (rpm : ℤ) (start stop : ℚ) (l : RateLimiter) (grants : List Reading) : Prop where
  rpm_eq : l.rpm = rpm
  tokens_nonneg : 0 ≤ l.tokens
  tokens_le : l.tokens ≤ rpm
  before : l.lastRefill < start → grantsWithin start stop grants = 0
  inside : start ≤ l.lastRefill → l.lastRefill ≤ stop →
    l.tokens + grantsWithin start stop grants ≤ rpm + (l.lastRefill - start) * ((rpm : ℚ) / 60)
  bound : start ≤ stop →
    grantsWithin start stop grants ≤ rpm + (stop - start) * ((rpm : ℚ) / 60)

theorem bucket_kept {rpm : ℤ} (hrpm : 1 ≤ rpm) (start stop : ℚ) :
    Kept (Bucket rpm start stop) where
  refill l grants now h hclock := by
    have hrate : (0 : ℚ) ≤ (rpm : ℚ) / 60 :=
      div_nonneg (Int.cast_nonneg (le_trans zero_le_one hrpm)) (by norm_num)
    -- what flows in between the two readings
    have hflow : 0 ≤ (now - l.lastRefill) * ((rpm : ℚ) / 60) :=
      mul_nonneg (sub_nonneg.mpr hclock) hrate
    have htokens : (l.refill now).tokens =
        min (rpm : ℚ) (l.tokens + (now - l.lastRefill) * ((rpm : ℚ) / 60)) := by
      show min (l.rpm : ℚ) (l.tokens + max 0 (now - l.lastRefill) * ((l.rpm : ℚ) / 60)) = _
      rw [max_eq_right (sub_nonneg.mpr hclock), h.rpm_eq]
    have hfull : (l.refill now).tokens ≤ rpm := htokens ▸ min_le_left _ _
    have hfilled : (l.refill now).tokens ≤ l.tokens + (now - l.lastRefill) * ((rpm : ℚ) / 60) :=
      htokens ▸ min_le_right _ _
    refine ⟨h.rpm_eq, ?_, hfull, fun hbefore => h.before (lt_of_le_of_lt hclock hbefore),
      fun hstart hstop => ?_, h.bound⟩
    · rw [htokens]
      exact le_min (h.tokens_nonneg.trans h.tokens_le) (add_nonneg h.tokens_nonneg hflow)
    · replace hstart : start ≤ now := hstart
      replace hstop : now ≤ stop := hstop
      show (l.refill now).tokens + _ ≤ rpm + (now - start) * ((rpm : ℚ) / 60)
      by_cases hopen : start ≤ l.lastRefill
      · have := h.inside hopen (hclock.trans hstop)
        linarith
      · -- nothing was granted in the interval yet, and the bucket is at most full
        have hnone := h.before (not_le.mp hopen)
        have hinflow : 0 ≤ (now - start) * ((rpm : ℚ) / 60) :=
          mul_nonneg (sub_nonneg.mpr hstart) hrate
        rw [hnone, Nat.cast_zero, add_zero]
        linarith
  take l grants at' h hlast _ htoken := by
    have hrate : (0 : ℚ) ≤ (rpm : ℚ) / 60 :=
      div_nonneg (Int.cast_nonneg (le_trans zero_le_one hrpm)) (by norm_num)
    -- a grant counts once, if its reading is within the interval
    have hgrants : grantsWithin start stop (grants ++ [at']) = grantsWithin start stop grants +
        if start ≤ at'.monotonic ∧ at'.monotonic ≤ stop then 1 else 0 := by
      simp [grantsWithin, List.countP_append, List.countP_singleton]
    have hinside : start ≤ at'.monotonic → at'.monotonic ≤ stop →
        l.tokens - 1 + ((grantsWithin start stop grants : ℚ) + 1) ≤
          rpm + (at'.monotonic - start) * ((rpm : ℚ) / 60) := by
      intro hstart hstop
      have := h.inside (hlast ▸ hstart) (hlast ▸ hstop)
      rw [hlast] at this
      linarith
    refine ⟨h.rpm_eq, sub_nonneg.mpr htoken, ?_, fun hbefore => ?_, fun hstart hstop => ?_,
      fun hle => ?_⟩
    · exact (sub_le_self _ zero_le_one).trans h.tokens_le
    · have hlate : ¬start ≤ at'.monotonic := not_le.mpr (hlast ▸ hbefore)
      rw [hgrants, if_neg fun hin => hlate hin.1, h.before hbefore]
    · replace hstart : start ≤ at'.monotonic := hlast ▸ hstart
      replace hstop : at'.monotonic ≤ stop := hlast ▸ hstop
      rw [hgrants, if_pos ⟨hstart, hstop⟩]
      have := hinside hstart hstop
      simp only [RateLimiter.take, hlast]
      push_cast
      exact this
    · rw [hgrants]
      by_cases hin : start ≤ at'.monotonic ∧ at'.monotonic ≤ stop
      · rw [if_pos hin]
        have hnow := hinside hin.1 hin.2
        -- inside the interval the flow is at most that of the whole of it
        have hinflow : (at'.monotonic - start) * ((rpm : ℚ) / 60) ≤
            (stop - start) * ((rpm : ℚ) / 60) :=
          mul_le_mul_of_nonneg_right (by linarith [hin.2]) hrate
        push_cast
        linarith
      · rw [if_neg hin, add_zero]
        exact h.bound hle

/-! ## Waiting -/

/-- A call sleeps within its wait. While it has not returned, every turn but the last slept for a
twentieth of a second at least. -/
structure Call.Bounded (c : Call) : Prop where
  waited_nonneg : 0 ≤ c.waited
  waited_le : c.waited ≤ max 0 c.maxWaitS
  turns_le : c.result = none → (c.turns : ℚ) ≤ 20 * c.waited + 1
  turns_lt : c.result = none → c.waited < c.maxWaitS → (c.turns : ℚ) ≤ 20 * c.waited

theorem Call.bounded_new (maxWaitS : ℚ) : Call.Bounded { maxWaitS } where
  waited_nonneg := le_rfl
  waited_le := le_max_left _ _
  turns_le _ := by norm_num
  turns_lt _ _ := by norm_num

/-- A turn keeps a waiting call within its bounds. -/
theorem Call.Bounded.after {c : Call} (h : c.Bounded) (hwaits : c.result = none)
    (l : RateLimiter) (at' : Reading) (again : ℚ) :
    (c.after (l.acquireTurn c.maxWaitS c.waited at' again).2).Bounded := by
  cases hturn : (l.acquireTurn c.maxWaitS c.waited at' again).2 with
  | returns allowed reason =>
    have hreturned : (c.after (.returns allowed reason)).result ≠ none := Option.some_ne_none _
    exact ⟨h.waited_nonneg, h.waited_le, fun hnone => absurd hnone hreturned,
      fun hnone => absurd hnone hreturned⟩
  | sleeps delay =>
    obtain ⟨hpos, hle, hlong⟩ := RateLimiter.acquireTurn_sleeps hturn
    have hroom : c.waited < c.maxWaitS := by linarith
    have hturns := h.turns_lt hwaits hroom
    refine ⟨add_nonneg h.waited_nonneg hpos.le, ?_, fun _ => ?_, fun _ hmore => ?_⟩
    · exact le_max_of_le_right (show c.waited + delay ≤ c.maxWaitS by linarith)
    · simp only [Call.after]
      push_cast
      linarith
    · replace hmore : c.waited + delay < c.maxWaitS := hmore
      simp only [Call.after]
      push_cast
      rcases hlong with hlong | hlast
      · linarith
      · linarith

theorem calls_bounded_step {u : Use} (h : ∀ c ∈ u.calls, c.Bounded) (move : Move) :
    ∀ c ∈ (step u move).calls, c.Bounded := by
  cases move with
  | tryAcquire at' => exact h
  | state now => exact h
  | secondsUntilSlot now => exact h
  -- a new call has waited nothing; one resumed keeps to its budget
  | acquire maxWaitS at' again =>
    intro c hc
    rcases List.mem_append.mp hc with hc | hc
    · exact h c hc
    · rw [List.mem_singleton.mp hc]
      exact (Call.bounded_new maxWaitS).after rfl u.limiter at' again
  | resume k at' again =>
    simp only [step]
    split
    · exact h
    · next c hcall =>
      split
      · exact h
      · next hwaits =>
        intro d hd
        rcases List.mem_or_eq_of_mem_set hd with hd | rfl
        · exact h d hd
        · exact (h c (List.mem_of_getElem? hcall)).after (by simpa using hwaits) u.limiter at' again

theorem calls_bounded_run (l : RateLimiter) (moves : List Move) :
    ∀ c ∈ (run l moves).calls, c.Bounded := by
  have hmoves : ∀ u : Use, (∀ c ∈ u.calls, c.Bounded) →
      ∀ c ∈ (moves.foldl step u).calls, c.Bounded := by
    induction moves with
    | nil => exact fun u h => h
    | cons move rest ih => exact fun u h => ih _ (calls_bounded_step h move)
  exact hmoves _ fun c hc => absurd hc List.not_mem_nil

/-! ## The limiter -/

/-- **What the limiter promises** after a run: the two limits, that a refusal takes nothing, and that
a call of `acquire` sleeps no longer than it may and returns. -/
structure Limited (rpm rpd : ℤ) (u : Use) : Prop where
  perDay : ∀ day, (grantsOn day u.grants : ℤ) ≤ rpd
  perInterval : ∀ start seconds, 0 ≤ seconds →
    (grantsWithin start (start + seconds) u.grants : ℚ) ≤ rpm + seconds * (rpm / 60)
  refused : ∀ at' : Reading, u.limiter.lastRefill ≤ at'.monotonic →
    (u.limiter.tryAcquire at').2.1 = false →
    (u.limiter.tryAcquire at').1.counts = u.limiter.counts ∧
      u.limiter.tokens ≤ (u.limiter.tryAcquire at').1.tokens
  sleeps : ∀ c ∈ u.calls, c.waited ≤ max 0 c.maxWaitS
  returns : ∀ c ∈ u.calls, 20 * max 0 c.maxWaitS + 1 < c.turns → c.result.isSome = true

/-- A new limiter is full and has granted nothing. -/
theorem RateLimiter.new_eq_ok {rpm rpd : ℤ} {counts : ℤ → ℕ} {start : ℚ} {l : RateLimiter}
    (h : RateLimiter.new rpm rpd counts start = .ok l) :
    l.rpm = rpm ∧ l.rpd = rpd ∧ l.tokens = rpm ∧ l.lastRefill = start := by
  unfold RateLimiter.new at h
  split at h
  · cases h
  · obtain rfl := Except.ok.inj h
    exact ⟨rfl, rfl, rfl, rfl⟩

theorem limiter_limited {rpm rpd : ℤ} {counts : ℤ → ℕ} {start : ℚ} {l : RateLimiter}
    (hnew : RateLimiter.new rpm rpd counts start = .ok l) {moves : List Move}
    (hclock : ClockRuns start moves) : Limited rpm rpd (run l moves) := by
  obtain ⟨hrpm, hrpd, htokens, hlast⟩ := RateLimiter.new_eq_ok hnew
  have hpos : 1 ≤ rpm := hrpm ▸ l.rpm_pos
  have hposq : (0 : ℚ) ≤ rpm := Int.cast_nonneg (le_trans zero_le_one hpos)
  rw [← hlast] at hclock
  -- the bucket starts full, for every interval of the clock
  have hbucket (from' to' : ℚ) : Bucket rpm from' to' (run l moves).limiter (run l moves).grants := by
    refine (bucket_kept hpos from' to').run ⟨hrpm, ?_, htokens.le, fun _ => rfl, ?_, ?_⟩ hclock
    · exact htokens ▸ hposq
    · intro hfrom _
      have : 0 ≤ (l.lastRefill - from') * ((rpm : ℚ) / 60) :=
        mul_nonneg (sub_nonneg.mpr hfrom) (div_nonneg hposq (by norm_num))
      simp only [grantsWithin, List.countP_nil, Nat.cast_zero, add_zero, htokens]
      linarith
    · intro hle
      have : 0 ≤ (to' - from') * ((rpm : ℚ) / 60) :=
        mul_nonneg (sub_nonneg.mpr hle) (div_nonneg hposq (by norm_num))
      simp only [grantsWithin, List.countP_nil, Nat.cast_zero]
      linarith
  -- the day's count starts at nothing
  have hbook : DayBook rpd (run l moves).limiter (run l moves).grants :=
    (dayBook_kept rpd).run ⟨hrpd, fun _ => Nat.zero_le _, fun _ => .inl rfl⟩ hclock
  have hcalls := calls_bounded_run l moves
  refine ⟨fun day => ?_, fun from' seconds hseconds => ?_, fun at' hat hrefused => ?_,
    fun c hc => (hcalls c hc).waited_le, fun c hc hturns => ?_⟩
  · rcases hbook.limited day with hnone | hlimited
    · rw [hnone, Nat.cast_zero]
      exact le_trans zero_le_one (hrpd ▸ l.rpd_pos)
    · exact le_trans (Int.ofNat_le.mpr (hbook.counted day)) hlimited
  · have hwithin := (hbucket from' (from' + seconds)).bound (by linarith)
    rwa [add_sub_cancel_left] at hwithin
  · -- a refusal refilled at most, and a full bucket stays full
    have hfull := hbucket 0 0
    rcases (run l moves).limiter.tryAcquire_cases at' with ⟨-, hsame | hrefill⟩ | ⟨hallowed, -⟩
    · rw [hsame]
      exact ⟨rfl, le_rfl⟩
    · rw [hrefill]
      refine ⟨rfl, le_min (hfull.rpm_eq ▸ hfull.tokens_le) (le_add_of_nonneg_right ?_)⟩
      refine mul_nonneg (le_max_left _ _) (div_nonneg ?_ (by norm_num))
      rw [hfull.rpm_eq]
      exact hposq
    · rw [hrefused] at hallowed
      cases hallowed
  · rw [Option.isSome_iff_ne_none]
    intro hwaits
    -- a call that still waits has slept for each of its turns
    have hslept := (hcalls c hc).turns_le hwaits
    have hmax := (hcalls c hc).waited_le
    linarith

/-- Two clients at once on one request a minute: one is served, the other waits a second in vain. -/
def busyMinute : List Move :=
  [.tryAcquire ⟨{ utc := 0 }, 0⟩, .acquire 1 ⟨{ utc := 0 }, 0⟩ 0,
    .resume 0 ⟨{ utc := 1000000 }, 1⟩ 1]

theorem limiter_limited_busyMinute : ∃ l, RateLimiter.new 1 10 (fun _ => 0) 0 = .ok l ∧
    Limited 1 10 (run l busyMinute) := by
  refine ⟨_, rfl, limiter_limited rfl ?_⟩
  norm_num [ClockRuns, busyMinute, Move.readings]

end RateLimit

end AegisMerchant
