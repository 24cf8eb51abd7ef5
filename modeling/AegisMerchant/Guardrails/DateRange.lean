import AegisMerchant.Base.TimeText
import AegisMerchant.Guardrails.QuietRelease

/-!
# The rules within the calendar of a datetime

A datetime holds the years 1 to 9999, and arithmetic that leaves them raises `OverflowError`. Three
rules do such arithmetic: the contact cap and the promise add a span to an instant, and quiet hours
read the clock in IST and release on another day. Here they are with the exceptions they raise.

`within_evaluate` says that a verdict within the calendar is the verdict on unbounded dates, and that
`OverflowError` is all that can happen besides. So what is proved on unbounded dates carries over:
`nextQuietHoursRelease_within` for the release from quiet hours, `reevaluate_within` for the chain of
deferrals, each with the exact instants it needs.
-/

namespace AegisMerchant.Ranged

open Time

/-! ## Dates -/

/-- A reading a datetime can hold, or `OverflowError`. -/
def checked (t : DateTime) : Except PyError DateTime :=
  if t.InRange then .ok t else .error (.overflowError "date value out of range")

/-- `t + timedelta(microseconds=d)`. -/
def add (t : DateTime) (d : ℤ) : Except PyError DateTime := checked (t.add d)

/-- `t.astimezone(tz)`, by way of UTC. -/
def astimezone (t : DateTime) (offset : ℤ) : Except PyError DateTime := do
  let utc ← checked (t.astimezone 0)
  checked (utc.astimezone offset)

def toIst (t : DateTime) : Except PyError DateTime := astimezone t ist

/-! ## Quiet hours -/

def inQuietHours (moment : DateTime) (startIst endIst : ℤ) : Except PyError Bool := do
  if startIst = endIst then return false
  else
    let hour := (← toIst moment).hourOf
    if endIst < startIst then return startIst ≤ hour || hour < endIst
    else return startIst ≤ hour && hour < endIst

/-- **`next_quiet_hours_release`.** -/
def nextQuietHoursRelease (moment : DateTime) (startIst endIst : ℤ) (releaseMinute : ℤ := 5) :
    Except PyError DateTime := do
  if !(← inQuietHours moment startIst endIst) then return moment
  else
    let here ← toIst moment
    match here.replaceTime endIst releaseMinute with
    | none => throw (.valueError "hour or minute out of range")
    | some release =>
      if release ≤ here then astimezone (← add release day) moment.offset
      else astimezone release moment.offset

/-! ## The rules that do arithmetic -/

def s04ContactCap24h (ctx : StoppingContext) : Except PyError RuleResult := do
  if !ctx.isOutboundContact then return proceed .s04ContactCap24h
  else if ctx.contacts24h < ctx.policy.maxContacts24h then return proceed .s04ContactCap24h
  else
    match ctx.lastContactAt with
    | none =>
      return { rule := .s04ContactCap24h, decision := .stop
               detail := "24h contact cap reached and no last-contact timestamp to defer against"
               terminalStatus := some .suppressed }
    | some last =>
      let release ← add last day
      if release ≤ ctx.nowUtc then
        return { rule := .s04ContactCap24h, decision := .proceed
                 detail := s!"24h count is {ctx.contacts24h} but the last contact (" ++
                   isoformat last ++ ") has aged out of the window" }
      else
        return { rule := .s04ContactCap24h, decision := .defer
                 detail :=
                   s!"24h contact cap reached ({ctx.contacts24h}/{ctx.policy.maxContacts24h})"
                 deferUntil := some release }

def s09QuietHours (ctx : StoppingContext) : Except PyError RuleResult := do
  if !ctx.isOutboundContact then return proceed .s09QuietHours
  else if !(← inQuietHours ctx.nowUtc ctx.policy.quietHoursStartIst
      ctx.policy.quietHoursEndIst) then return proceed .s09QuietHours
  else
    let release ← nextQuietHoursRelease ctx.nowUtc ctx.policy.quietHoursStartIst
      ctx.policy.quietHoursEndIst ctx.policy.quietHoursReleaseMinute
    let here ← toIst release
    return { rule := .s09QuietHours, decision := .defer
             detail := "quiet hours in IST; holding until " ++ hourMinute here ++ " IST"
             deferUntil := some release }

/-- `s10_promise_freeze`. A span no `timedelta` holds leaves the calendar too. -/
def s10PromiseFreeze (ctx : StoppingContext) : Except PyError RuleResult := do
  match ctx.promiseActive, ctx.promisedAt with
  | true, some promised =>
    let thaw ← add promised (ctx.policy.promiseFreezeH * hour)
    if ctx.nowUtc < thaw then
      return { rule := .s10PromiseFreeze, decision := .defer
               detail := "promise to pay by " ++ isoformat promised ++ "; frozen until " ++
                 isoformat thaw
               deferUntil := some thaw }
    else return proceed .s10PromiseFreeze
  | _, _ => return proceed .s10PromiseFreeze

/-- **`evaluate`.** -/
def evaluate (ctx : StoppingContext) : Except PyError StoppingVerdict := do
  let freeze ← s10PromiseFreeze ctx
  let cap ← s04ContactCap24h ctx
  let quiet ← s09QuietHours ctx
  return combine ctx [s12KillSwitch ctx, s01AlreadyResolved ctx, s07OptOut ctx,
    s06RecoveryWindow ctx, s02AttemptBudget ctx, s11MerchantBudget ctx, s05ContactCap48h ctx,
    s08ConsentClass ctx, freeze, cap, quiet, s03DiscountAttemptBudget ctx]

/-- Evaluate, and evaluate again at each deferral's release, a number of times at most. -/
def reevaluate : ℕ → StoppingContext → Except PyError (List StoppingVerdict)
  | 0, _ => .ok []
  | n + 1, ctx => do
    let v ← evaluate ctx
    match v.decision, v.deferUntil with
    | .defer, some d => return v :: (← reevaluate n (ctx.atTime d))
    | _, _ => return [v]

/-! ## What the calendar changes -/

/-- **A computation within the calendar**: it does what it would on unbounded dates, or raises
`OverflowError`. -/
def Within {α : Type} (x y : Except PyError α) : Prop :=
  x = y ∨ x = .error (.overflowError "date value out of range")

section Within

variable {α β : Type} {x y : Except PyError α}

theorem Within.refl (x : Except PyError α) : Within x x := .inl rfl

theorem Within.bind {f g : α → Except PyError β} (h : Within x y)
    (hfg : ∀ a, Within (f a) (g a)) : Within (x >>= f) (y >>= g) := by
  rcases h with rfl | rfl
  · cases x with
    | error e => exact .refl _
    | ok a => exact hfg a
  · exact .inr rfl

/-- The rest of a computation, on what the first part answers with unbounded dates. -/
theorem Within.bind_ok {a : α} {f : α → Except PyError β} {z : Except PyError β}
    (h : Within x (.ok a)) (hf : Within (f a) z) : Within (x >>= f) z := by
  rcases h with rfl | rfl
  · exact hf
  · exact .inr rfl

theorem within_checked (t : DateTime) : Within (checked t) (.ok t) := by
  unfold checked
  split
  · exact .inl rfl
  · exact .inr rfl

theorem within_add (t : DateTime) (d : ℤ) : Within (add t d) (.ok (t.add d)) := within_checked _

theorem within_astimezone (t : DateTime) (offset : ℤ) :
    Within (astimezone t offset) (.ok (t.astimezone offset)) :=
  (within_checked (t.astimezone 0)).bind_ok (within_checked _)

theorem within_toIst (t : DateTime) : Within (toIst t) (.ok (AegisMerchant.toIst t)) :=
  within_astimezone t ist

theorem within_inQuietHours (moment : DateTime) (startIst endIst : ℤ) :
    Within (inQuietHours moment startIst endIst)
      (.ok (AegisMerchant.inQuietHours moment startIst endIst)) := by
  unfold inQuietHours AegisMerchant.inQuietHours
  split
  · exact .refl _
  · refine (within_toIst moment).bind_ok ?_
    simp only
    split <;> exact .refl _

/-- What the release from quiet hours is on unbounded dates, with the exception for bounds that are
no time of day. -/
def unboundedRelease (moment : DateTime) (startIst endIst minute : ℤ) : Except PyError DateTime :=
  (AegisMerchant.nextQuietHoursRelease moment startIst endIst minute).elim
    (.error (.valueError "hour or minute out of range")) .ok

theorem within_nextQuietHoursRelease (moment : DateTime) (startIst endIst minute : ℤ) :
    Within (nextQuietHoursRelease moment startIst endIst minute)
      (unboundedRelease moment startIst endIst minute) := by
  unfold nextQuietHoursRelease unboundedRelease AegisMerchant.nextQuietHoursRelease
  refine (within_inQuietHours moment startIst endIst).bind_ok ?_
  cases AegisMerchant.inQuietHours moment startIst endIst with
  | false => exact .refl _
  | true =>
    -- held: the clock is read in IST once more, and set to the release
    refine (within_toIst moment).bind_ok ?_
    simp only [Bool.not_true, Bool.false_eq_true, if_false]
    cases (AegisMerchant.toIst moment).replaceTime endIst minute with
    | none => exact .refl _
    | some release =>
      simp only [Option.bind_eq_bind, Option.bind_some, Option.pure_def, Option.elim_some]
      split
      · exact (within_add release day).bind_ok (within_astimezone _ _)
      · exact within_astimezone _ _

theorem within_s04 (ctx : StoppingContext) :
    Within (s04ContactCap24h ctx) (.ok (AegisMerchant.s04ContactCap24h ctx)) := by
  unfold s04ContactCap24h AegisMerchant.s04ContactCap24h
  split
  · exact .refl _
  · split
    · exact .refl _
    · cases ctx.lastContactAt with
      | none => exact .refl _
      | some last =>
        refine (within_add last day).bind_ok ?_
        simp only
        split <;> exact .refl _

theorem within_s10 (ctx : StoppingContext) :
    Within (s10PromiseFreeze ctx) (.ok (AegisMerchant.s10PromiseFreeze ctx)) := by
  unfold s10PromiseFreeze AegisMerchant.s10PromiseFreeze
  cases ctx.promiseActive with
  | false => exact .refl _
  | true =>
    cases ctx.promisedAt with
    | none => exact .refl _
    | some promised =>
      refine (within_add promised _).bind_ok ?_
      simp only
      split <;> exact .refl _

theorem within_s09 (ctx : StoppingContext) :
    Within (s09QuietHours ctx) (AegisMerchant.s09QuietHours ctx) := by
  unfold s09QuietHours AegisMerchant.s09QuietHours
  split
  · exact .refl _
  · refine (within_inQuietHours _ _ _).bind_ok ?_
    split
    · exact .refl _
    · have hrelease := within_nextQuietHoursRelease ctx.nowUtc ctx.policy.quietHoursStartIst
        ctx.policy.quietHoursEndIst ctx.policy.quietHoursReleaseMinute
      unfold unboundedRelease at hrelease
      cases hr : AegisMerchant.nextQuietHoursRelease ctx.nowUtc ctx.policy.quietHoursStartIst
          ctx.policy.quietHoursEndIst ctx.policy.quietHoursReleaseMinute with
      | none =>
        -- both raise: the bounds are no time of day, or the calendar ended before they were looked at
        rw [hr] at hrelease
        rcases hrelease with h | h <;> rw [h]
        · exact .refl _
        · exact .inr rfl
      | some release =>
        rw [hr] at hrelease
        exact hrelease.bind_ok ((within_toIst release).bind_ok (.refl _))

/-- **A verdict within the calendar is the verdict on unbounded dates.** -/
theorem within_evaluate (ctx : StoppingContext) :
    Within (evaluate ctx) (AegisMerchant.evaluate ctx) := by
  -- the other nine rules do no arithmetic on dates
  refine (within_s10 ctx).bind_ok ((within_s04 ctx).bind_ok ?_)
  exact (within_s09 ctx).bind fun quiet => .refl _

theorem within_reevaluate (n : ℕ) (ctx : StoppingContext) :
    Within (reevaluate n ctx) (AegisMerchant.reevaluate n ctx) := by
  -- on the number of verdicts, each at the release of the one before
  induction n generalizing ctx with
  | zero => exact .refl _
  | succ n ih =>
    refine (within_evaluate ctx).bind fun v => ?_
    cases v.decision with
    | defer =>
      cases v.deferUntil with
      | none => exact .refl _
      | some d => exact (ih (ctx.atTime d)).bind fun _ => .refl _
    | _ => exact .refl _

end Within

/-! ## When the calendar suffices -/

/-- The instants a release from quiet hours goes through, from an instant that is held: it in UTC and
in IST, and its release in IST, in UTC and in its own zone. -/
def ReleaseFits (startIst endIst minute : ℤ) (moment : DateTime) : Prop :=
  startIst = endIst ∨ ((moment.astimezone 0).InRange ∧ (moment.astimezone ist).InRange ∧
    (AegisMerchant.inQuietHours moment startIst endIst = true →
      ∀ r ∈ AegisMerchant.nextQuietHoursRelease moment startIst endIst minute,
        (r.astimezone ist).InRange ∧ (r.astimezone 0).InRange ∧ r.InRange))

instance (startIst endIst minute : ℤ) (moment : DateTime) :
    Decidable (ReleaseFits startIst endIst minute moment) := by
  unfold ReleaseFits
  infer_instance

section Fits

variable {startIst endIst minute : ℤ} {moment t : DateTime}

theorem checked_of_inRange (h : t.InRange) : checked t = .ok t := if_pos h

theorem astimezone_isOk_iff {offset : ℤ} : (∃ r, astimezone t offset = .ok r) ↔
    (t.astimezone 0).InRange ∧ (t.astimezone offset).InRange := by
  unfold astimezone checked
  by_cases hutc : (t.astimezone 0).InRange
  · by_cases hlocal : (t.astimezone offset).InRange
    · exact iff_of_true ⟨t.astimezone offset, by
        simp only [hutc, if_true, bind, Except.bind]
        exact if_pos hlocal⟩ ⟨hutc, hlocal⟩
    · refine iff_of_false ?_ fun h => hlocal h.2
      rintro ⟨r, h⟩
      simp only [hutc, if_true, bind, Except.bind] at h
      rw [show ((t.astimezone 0).astimezone offset) = t.astimezone offset from rfl,
        if_neg hlocal] at h
      cases h
  · refine iff_of_false ?_ fun h => hutc h.1
    rintro ⟨r, h⟩
    simp [hutc, bind, Except.bind] at h

/-- What answers within the calendar answers as on unbounded dates. -/
theorem Within.eq_of_isOk {α : Type} {x y : Except PyError α} (h : Within x y)
    (hok : ∃ a, x = .ok a) : x = y := by
  rcases h with rfl | rfl
  · rfl
  · obtain ⟨a, ha⟩ := hok
    cases ha

theorem Within.isOk_of_eq {α : Type} {x : Except PyError α} {a : α} (h : Within x (.ok a)) :
    (∃ b, x = .ok b) ↔ x = .ok a :=
  ⟨h.eq_of_isOk, fun hx => ⟨a, hx⟩⟩

theorem toIst_eq (hutc : (t.astimezone 0).InRange) (hist : (t.astimezone ist).InRange) :
    toIst t = .ok (AegisMerchant.toIst t) :=
  (within_toIst t).eq_of_isOk (astimezone_isOk_iff.mpr ⟨hutc, hist⟩)

theorem inQuietHours_isOk_iff : (∃ b, inQuietHours moment startIst endIst = .ok b) ↔
    startIst = endIst ∨ ((moment.astimezone 0).InRange ∧ (moment.astimezone ist).InRange) := by
  unfold inQuietHours
  by_cases heq : startIst = endIst
  · exact iff_of_true ⟨false, by rw [if_pos heq]; rfl⟩ (.inl heq)
  · rw [if_neg heq, or_iff_right heq, ← astimezone_isOk_iff]
    constructor
    · rintro ⟨b, hb⟩
      cases hist : toIst moment with
      | ok r => exact ⟨r, hist⟩
      | error e => simp [hist, bind, Except.bind] at hb
    · rintro ⟨r, hr⟩
      have hist : toIst moment = .ok r := hr
      simp only [hist, bind, Except.bind]
      split <;> exact ⟨_, rfl⟩

/-- An opening is on the day it is the opening of. -/
theorem inRange_openingOf {here : DateTime} (hend : 0 ≤ endIst ∧ endIst ≤ 23)
    (hminute : 0 ≤ minute ∧ minute ≤ 59) (h : here.InRange) :
    (openingOf here endIst minute).InRange := by
  have hday : (openingOf here endIst minute).wallDay = here.wallDay := by
    simp only [openingOf, DateTime.wallDay, DateTime.wallTime, DateTime.wall, day, hour, second]
    omega
  unfold DateTime.InRange
  rw [hday]
  exact h

/-- **The release from quiet hours answers exactly when the instants it goes through are
datetimes.** -/
theorem nextQuietHoursRelease_isOk_iff (hend : 0 ≤ endIst ∧ endIst ≤ 23)
    (hminute : 0 ≤ minute ∧ minute ≤ 59) :
    (∃ r, nextQuietHoursRelease moment startIst endIst minute = .ok r) ↔
      ReleaseFits startIst endIst minute moment := by
  by_cases hclock : ∃ b, inQuietHours moment startIst endIst = .ok b
  · have hin := (within_inQuietHours moment startIst endIst).eq_of_isOk hclock
    unfold nextQuietHoursRelease ReleaseFits
    cases hquiet : AegisMerchant.inQuietHours moment startIst endIst with
    | false =>
      rw [hquiet] at hin
      refine iff_of_true ⟨moment, by rw [hin]; rfl⟩ ?_
      exact (inQuietHours_isOk_iff.mp hclock).imp_right fun h => ⟨h.1, h.2, fun h => by cases h⟩
    | true =>
      have hne : startIst ≠ endIst := by
        rintro rfl
        simp [AegisMerchant.inQuietHours] at hquiet
      obtain ⟨hutc, hist⟩ := (inQuietHours_isOk_iff.mp hclock).resolve_left hne
      have hrelease := nextQuietHoursRelease_eq hend hminute hquiet
      have hopening : (AegisMerchant.toIst moment).replaceTime endIst minute =
          some (openingOf (AegisMerchant.toIst moment) endIst minute) :=
        replaceTime_eq hend hminute
      rw [hquiet] at hin
      simp only [hin, toIst_eq hutc hist, hrelease, hopening, hutc, hist, hne,
        bind, Except.bind, Bool.not_true, Bool.false_eq_true, if_false, false_or, true_and,
        true_implies, Option.mem_def, Option.some.injEq, forall_eq']
      split
      · unfold add checked
        by_cases hnext : ((openingOf (AegisMerchant.toIst moment) endIst minute).add day).InRange
        · simp only [hnext, if_true]
          rw [astimezone_isOk_iff]
          exact (and_iff_right hnext).symm
        · simp only [hnext, if_false]
          exact iff_of_false (by simp) fun h => hnext h.1
      · rw [astimezone_isOk_iff]
        exact (and_iff_right (inRange_openingOf hend hminute hist)).symm
  · refine iff_of_false ?_ fun h => hclock (inQuietHours_isOk_iff.mpr (h.imp_right fun h =>
      ⟨h.1, h.2.1⟩))
    rintro ⟨r, hr⟩
    cases hin : inQuietHours moment startIst endIst with
    | ok b => exact hclock ⟨b, hin⟩
    | error e => simp [nextQuietHoursRelease, hin, bind, Except.bind] at hr

end Fits

/-! ## Quiet hours let go -/

/-- The instants at which a case may be evaluated in a chain of deferrals: the present one, and the
releases that do not depend on it. -/
def instants (ctx : StoppingContext) : List DateTime :=
  ctx.nowUtc :: ((ctx.promisedAt.map (·.add (ctx.policy.promiseFreezeH * hour))).toList ++
    (ctx.lastContactAt.map (·.add day)).toList)

/-- These are datetimes, and so is what a release from quiet hours goes through at each. -/
def Dated (ctx : StoppingContext) : Prop :=
  ∀ t ∈ instants ctx, t.InRange ∧ ReleaseFits ctx.policy.quietHoursStartIst
    ctx.policy.quietHoursEndIst ctx.policy.quietHoursReleaseMinute t

instance (ctx : StoppingContext) : Decidable (Dated ctx) := by
  unfold Dated
  infer_instance

section Dated

variable {ctx : StoppingContext}

theorem Dated.s10 (h : Dated ctx) :
    s10PromiseFreeze ctx = .ok (AegisMerchant.s10PromiseFreeze ctx) := by
  refine (within_s10 ctx).eq_of_isOk ?_
  unfold s10PromiseFreeze
  split
  · next promised _ hpromised =>
      have hthaw := (h (promised.add (ctx.policy.promiseFreezeH * hour))
        (by simp [instants, hpromised])).1
      simp only [add, checked_of_inRange hthaw, bind, Except.bind]
      split <;> exact ⟨_, rfl⟩
  · exact ⟨_, rfl⟩

theorem Dated.s04 (h : Dated ctx) :
    s04ContactCap24h ctx = .ok (AegisMerchant.s04ContactCap24h ctx) := by
  refine (within_s04 ctx).eq_of_isOk ?_
  unfold s04ContactCap24h
  split
  · exact ⟨_, rfl⟩
  · split
    · exact ⟨_, rfl⟩
    · cases hlast : ctx.lastContactAt with
      | none => exact ⟨_, rfl⟩
      | some last =>
        have hrelease := (h (last.add day) (by simp [instants, hlast])).1
        simp only [add, checked_of_inRange hrelease, bind, Except.bind]
        split <;> exact ⟨_, rfl⟩

theorem Dated.s09 (h : Dated ctx) (hbounds : ctx.QuietBounds) :
    s09QuietHours ctx = AegisMerchant.s09QuietHours ctx := by
  obtain ⟨-, hend, hminute⟩ := hbounds
  have hfits := (h ctx.nowUtc List.mem_cons_self).2
  refine (within_s09 ctx).eq_of_isOk ?_
  unfold s09QuietHours
  split
  · exact ⟨_, rfl⟩
  · have hclock := inQuietHours_isOk_iff.mpr (hfits.imp_right fun h => ⟨h.1, h.2.1⟩)
    have hin := (within_inQuietHours _ _ _).eq_of_isOk hclock
    obtain ⟨r, hr⟩ := (nextQuietHoursRelease_isOk_iff hend hminute).mpr hfits
    simp only [hin, hr, bind, Except.bind]
    cases hquiet : AegisMerchant.inQuietHours ctx.nowUtc ctx.policy.quietHoursStartIst
        ctx.policy.quietHoursEndIst with
    | false => exact ⟨_, rfl⟩
    | true =>
      -- the release is read in IST once more
      have hne : ctx.policy.quietHoursStartIst ≠ ctx.policy.quietHoursEndIst := by
        intro heq
        simp [AegisMerchant.inQuietHours, heq] at hquiet
      have hwithin := within_nextQuietHoursRelease ctx.nowUtc ctx.policy.quietHoursStartIst
        ctx.policy.quietHoursEndIst ctx.policy.quietHoursReleaseMinute
      have hunbounded := nextQuietHoursRelease_eq hend hminute hquiet
      unfold unboundedRelease at hwithin
      rw [hunbounded, hr] at hwithin
      have hsame := Except.ok.inj (hwithin.resolve_right (by simp))
      obtain ⟨hist, hutc, -⟩ := (hfits.resolve_left hne).2.2 hquiet r (by rw [hunbounded, hsame]; rfl)
      simp only [toIst_eq hutc hist]
      exact ⟨_, rfl⟩

theorem Dated.evaluate (h : Dated ctx) (hbounds : ctx.QuietBounds) :
    evaluate ctx = AegisMerchant.evaluate ctx := by
  unfold Ranged.evaluate
  rw [h.s10, h.s04, h.s09 hbounds]
  rfl

/-- A release from quiet hours is a datetime, and so is what a release from it goes through: there
is none. -/
theorem fits_release {startIst endIst minute : ℤ} {moment r : DateTime}
    (hfits : ReleaseFits startIst endIst minute moment)
    (hquiet : AegisMerchant.inQuietHours moment startIst endIst = true)
    (hr : AegisMerchant.nextQuietHoursRelease moment startIst endIst minute = some r) :
    r.InRange ∧ ReleaseFits startIst endIst minute r := by
  rcases hfits with heq | ⟨-, -, hrelease⟩
  · simp [AegisMerchant.inQuietHours, heq] at hquiet
  · obtain ⟨hist, hutc, hown⟩ := hrelease hquiet r hr
    refine ⟨hown, .inr ⟨hutc, hist, fun h => ?_⟩⟩
    rw [inQuietHours_release hr hquiet] at h
    cases h

/-- **A deferral leads to another instant of the calendar.** -/
theorem Dated.atTime {v : StoppingVerdict} {d : DateTime} (h : Dated ctx)
    (hv : AegisMerchant.evaluate ctx = .ok v) (hdefer : v.decision = .defer)
    (hd : v.deferUntil = some d) : Dated (ctx.atTime d) := by
  intro t ht
  rcases List.mem_cons.mp ht with rfl | ht
  · obtain ⟨quiet, hquiet, -⟩ := evaluate_eq_ok hv
    obtain ⟨e, he, ⟨⟨r, hr, hre⟩, -⟩, -⟩ := (evaluate_verdictOf hv hquiet).summary.deferral hdefer
    obtain rfl : e = t := Option.some.inj (he.symm.trans hd)
    have hrdefer := (ruleResults_wellFormed hquiet r hr).holds e hre
    rcases defers_cases hr hrdefer with rfl | rfl | rfl
    · obtain ⟨-, promised, hpromised, -⟩ := s10_defer_iff.mp hrdefer
      rw [s10_deferUntil hrdefer hpromised] at hre
      cases hre
      exact h _ (by simp [instants, hpromised])
    · obtain ⟨-, -, last, hlast, -⟩ := s04_defer_iff.mp hrdefer
      rw [s04_deferUntil hrdefer hlast] at hre
      cases hre
      exact h _ (by simp [instants, hlast])
    · obtain ⟨hin, hrelease⟩ := s09_release hquiet hrdefer hre
      exact fits_release (h ctx.nowUtc List.mem_cons_self).2 hin hrelease
  · exact h t (List.mem_cons_of_mem _ ht)

/-- **A chain of deferrals within the calendar is the chain on unbounded dates.** -/
theorem Dated.reevaluate (h : Dated ctx) (hbounds : ctx.QuietBounds) (n : ℕ) :
    reevaluate n ctx = AegisMerchant.reevaluate n ctx := by
  induction n generalizing ctx with
  | zero => rfl
  | succ n ih =>
    simp only [Ranged.reevaluate, AegisMerchant.reevaluate, h.evaluate hbounds]
    cases hv : AegisMerchant.evaluate ctx with
    | error e => rfl
    | ok v =>
      simp only [bind, Except.bind]
      cases hdefer : v.decision with
      | defer =>
        cases hd : v.deferUntil with
        | none => rfl
        | some d => simp only [ih (h.atTime hv hdefer hd) hbounds]
      | _ => rfl

end Dated

/-- Two deferrals at most, and then something else. -/
def Settles (verdicts : Except PyError (List StoppingVerdict)) : Prop :=
  ∃ deferred final, verdicts = .ok (deferred ++ [final]) ∧ deferred.length ≤ 2 ∧
    (∀ v ∈ deferred, v.decision = .defer) ∧ final.decision ≠ .defer

/-- **Evaluating again at each release, a case is deferred twice at most**, or a date outside the
calendar raises; and where the dates of its facts are within the calendar, none does. -/
theorem reevaluate_within {ctx : StoppingContext} (hbounds : ctx.QuietBounds) (n : ℕ) :
    (Settles (reevaluate (n + 3) ctx) ∨
      reevaluate (n + 3) ctx = .error (.overflowError "date value out of range")) ∧
    (Dated ctx → Settles (reevaluate (n + 3) ctx)) := by
  have hsettles : Settles (AegisMerchant.reevaluate (n + 3) ctx) := reevaluate_settles hbounds n
  refine ⟨?_, fun hdated => ?_⟩
  · rcases within_reevaluate (n + 3) ctx with h | h
    · exact .inl (h ▸ hsettles)
    · exact .inr h
  · rw [hdated.reevaluate hbounds]
    exact hsettles

theorem reevaluate_within_evening : Settles (reevaluate 3 promisedForEvening) :=
  (@reevaluate_within promisedForEvening
    (by unfold StoppingContext.QuietBounds; decide) 0).2 (by decide +kernel)

/-- A contact on the last evening of the calendar. -/
def lastEvening : StoppingContext :=
  { lateEvening 9 with nowUtc := { utc := 253402275600000000 } }

/-- It cannot be held until the next morning. -/
theorem not_reevaluate_within :
    ¬∀ ctx : StoppingContext, ctx.QuietBounds → ctx.nowUtc.InRange →
      Settles (reevaluate 3 ctx) := by
  intro h
  obtain ⟨deferred, final, hrun, -⟩ := h lastEvening (by unfold StoppingContext.QuietBounds; decide)
    (by decide +kernel)
  have hraises : reevaluate 3 lastEvening = .error (.overflowError "date value out of range") := by
    rfl
  rw [hraises] at hrun
  cases hrun

end AegisMerchant.Ranged
