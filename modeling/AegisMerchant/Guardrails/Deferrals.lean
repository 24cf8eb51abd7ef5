import AegisMerchant.Guardrails.VerdictLaws

/-!
# No case is deferred for ever

Three rules defer. The contact cap and the promise expire for good; quiet hours come back, but not
at the instant they release at. So evaluating again at each deferral's release defers twice at most.

`thawed_of_deferral` says what is over when a deferral ends, and `reevaluate_settles` that two of
them are enough. Dates are unbounded here; `Guardrails.DateRange` has the same chain within what a
datetime holds.
-/

namespace AegisMerchant

open Time Numeric

def StoppingContext.atTime (ctx : StoppingContext) (t : DateTime) : StoppingContext :=
  { ctx with nowUtc := t }

/-- Evaluate, and evaluate again at each deferral's release, a number of times at most. -/
def reevaluate : ℕ → StoppingContext → Except PyError (List StoppingVerdict)
  | 0, _ => .ok []
  | n + 1, ctx => do
    let v ← evaluate ctx
    match v.decision, v.deferUntil with
    | .defer, some d => return v :: (← reevaluate n (ctx.atTime d))
    | _, _ => return [v]

/-! ## The release from quiet hours -/

theorem hourOf_replaceTime {t r : DateTime} {h m : ℤ} (hr : t.replaceTime h m = some r) :
    r.hourOf = h := by
  unfold DateTime.replaceTime at hr
  split at hr
  · next hrange =>
    obtain ⟨h0, h24, m0, m60⟩ := hrange
    cases hr
    simp only [DateTime.hourOf, DateTime.wallTime, DateTime.wall, day, hour, second]
    omega
  · cases hr

theorem hourOf_add_day (t : DateTime) : (t.add day).hourOf = t.hourOf := by
  simp only [DateTime.hourOf, DateTime.wallTime, DateTime.wall, DateTime.add, day, hour, second]
  omega

/-- Quiet hours are over when they release. -/
theorem inQuietHours_release {moment d : DateTime} {startIst endIst minute : ℤ}
    (h : nextQuietHoursRelease moment startIst endIst minute = some d)
    (hquiet : inQuietHours moment startIst endIst = true) :
    inQuietHours d startIst endIst = false := by
  -- the release is at the end of the quiet hours, today or tomorrow
  have hhour : (toIst d).hourOf = endIst := by
    unfold nextQuietHoursRelease at h
    simp only [hquiet, Bool.not_true, Bool.false_eq_true, if_false] at h
    cases hr : (toIst moment).replaceTime endIst minute with
    | none => simp [hr] at h
    | some r =>
      have hoffset : r.offset = ist := by
        unfold DateTime.replaceTime at hr
        split at hr <;> cases hr
        rfl
      -- what is in IST already is not moved by reading it there again
      have hist : ∀ x : DateTime, x.offset = ist → ∀ o, toIst (x.astimezone o) = x := by
        rintro ⟨utc, offset⟩ rfl o
        rfl
      simp only [hr, Option.bind_eq_bind, Option.bind_some, Option.pure_def, Option.some.injEq] at h
      subst h
      split
      · rw [hist (r.add day) hoffset, hourOf_add_day]
        exact hourOf_replaceTime hr
      · rw [hist _ hoffset]
        exact hourOf_replaceTime hr
  unfold inQuietHours
  split
  · rfl
  · simp only [hhour]
    split
    · next hlt =>
      have : ¬startIst ≤ endIst := by omega
      simp [this]
    · simp

/-! ## The holds that expire -/

/-- What the contact cap defers for. -/
theorem s04_defer_iff {ctx : StoppingContext} :
    (s04ContactCap24h ctx).decision = .defer ↔ ctx.isOutboundContact = true ∧
      ¬ctx.contacts24h < ctx.policy.maxContacts24h ∧
        ∃ last, ctx.lastContactAt = some last ∧ ctx.nowUtc < last.add day := by
  unfold s04ContactCap24h
  split
  · simp_all
  · split
    · simp_all
    · split
      · simp_all
      · simp only
        split <;> simp_all

theorem s04_deferUntil {ctx : StoppingContext} {last : DateTime}
    (h : (s04ContactCap24h ctx).decision = .defer) (hlast : ctx.lastContactAt = some last) :
    (s04ContactCap24h ctx).deferUntil = some (last.add day) := by
  obtain ⟨hout, hcap, last', hlast', hlt⟩ := s04_defer_iff.mp h
  obtain rfl : last = last' := Option.some.inj (hlast.symm.trans hlast')
  unfold s04ContactCap24h
  simp [hout, hcap, hlast, DateTime.not_le.mpr hlt]

/-- Past its release, the contact cap does not hold again. -/
theorem s04_over {ctx : StoppingContext} {t : DateTime} (hnow : ctx.nowUtc ≤ t)
    (h : ∀ e, (s04ContactCap24h ctx).deferUntil = some e → e ≤ t) :
    (s04ContactCap24h (ctx.atTime t)).decision ≠ .defer := by
  intro hdefer
  obtain ⟨hout, hcap, last, hlast, hlt⟩ := s04_defer_iff.mp hdefer
  -- held at `t`, so held before, until an instant that is not past `t`
  have hbefore : (s04ContactCap24h ctx).decision = .defer :=
    s04_defer_iff.mpr ⟨hout, hcap, last, hlast, lt_of_le_of_lt hnow hlt⟩
  exact absurd (h _ (s04_deferUntil hbefore hlast)) (DateTime.not_le.mpr hlt)

/-- What the promise defers for. -/
theorem s10_defer_iff {ctx : StoppingContext} :
    (s10PromiseFreeze ctx).decision = .defer ↔ ctx.promiseActive = true ∧
      ∃ promised, ctx.promisedAt = some promised ∧
        ctx.nowUtc < promised.add (ctx.policy.promiseFreezeH * hour) := by
  unfold s10PromiseFreeze
  split
  · simp only
    split <;> simp_all
  · next h =>
    refine iff_of_false (by simp) ?_
    rintro ⟨hactive, promised, hpromised, -⟩
    exact h promised hactive hpromised

theorem s10_deferUntil {ctx : StoppingContext} {promised : DateTime}
    (h : (s10PromiseFreeze ctx).decision = .defer) (hpromised : ctx.promisedAt = some promised) :
    (s10PromiseFreeze ctx).deferUntil =
      some (promised.add (ctx.policy.promiseFreezeH * hour)) := by
  obtain ⟨hactive, promised', hpromised', hlt⟩ := s10_defer_iff.mp h
  obtain rfl : promised = promised' := Option.some.inj (hpromised.symm.trans hpromised')
  unfold s10PromiseFreeze
  simp [hactive, hpromised, hlt]

/-- Past its thaw, the promise does not hold again. -/
theorem s10_over {ctx : StoppingContext} {t : DateTime} (hnow : ctx.nowUtc ≤ t)
    (h : ∀ e, (s10PromiseFreeze ctx).deferUntil = some e → e ≤ t) :
    (s10PromiseFreeze (ctx.atTime t)).decision ≠ .defer := by
  intro hdefer
  obtain ⟨hactive, promised, hpromised, hlt⟩ := s10_defer_iff.mp hdefer
  have hbefore : (s10PromiseFreeze ctx).decision = .defer :=
    s10_defer_iff.mpr ⟨hactive, promised, hpromised, lt_of_le_of_lt hnow hlt⟩
  exact absurd (h _ (s10_deferUntil hbefore hpromised)) (DateTime.not_le.mpr hlt)

/-- Neither of the holds that expire is in force. -/
def Thawed (ctx : StoppingContext) : Prop :=
  (s04ContactCap24h ctx).decision ≠ .defer ∧ (s10PromiseFreeze ctx).decision ≠ .defer

theorem Thawed.mono {ctx : StoppingContext} {t : DateTime} (h : Thawed ctx)
    (hnow : ctx.nowUtc ≤ t) : Thawed (ctx.atTime t) := by
  refine ⟨s04_over hnow fun e he => ?_, s10_over hnow fun e he => ?_⟩
  · exact absurd ((s04_of ctx).holds e he) h.1
  · exact absurd ((s10_of ctx).holds e he) h.2

/-! ## Who defers -/

theorem defers_cases {ctx : StoppingContext} {quiet r : RuleResult}
    (hr : r ∈ ruleResults ctx quiet) (hdefer : r.decision = .defer) :
    r = s10PromiseFreeze ctx ∨ r = s04ContactCap24h ctx ∨ r = quiet := by
  simp only [ruleResults, List.mem_cons, List.not_mem_nil, or_false] at hr
  -- rule by rule: nine of the twelve never defer
  rcases hr with rfl | rfl | rfl | rfl | rfl | rfl | rfl | rfl | rfl | rfl | rfl | rfl
  · refine absurd hdefer ?_
    unfold s12KillSwitch
    split <;> simp
  · refine absurd hdefer ?_
    unfold s01AlreadyResolved
    simp only
    split
    · simp
    · split <;> simp
  · refine absurd hdefer ?_
    unfold s07OptOut
    split <;> simp
  · refine absurd hdefer ?_
    unfold s06RecoveryWindow
    split
    · split <;> simp
    · simp
  · refine absurd hdefer ?_
    unfold s02AttemptBudget
    simp only
    split <;> simp
  · refine absurd hdefer ?_
    unfold s11MerchantBudget
    split
    · simp
    · split <;> simp
  · refine absurd hdefer ?_
    unfold s05ContactCap48h
    split
    · simp
    · split <;> simp
  · refine absurd hdefer ?_
    unfold s08ConsentClass
    split
    · simp
    · split
      · simp only
        split <;> simp
      · split <;> simp
  · exact .inl rfl
  · exact .inr (.inl rfl)
  · exact .inr (.inr rfl)
  · refine absurd hdefer ?_
    unfold s03DiscountAttemptBudget
    split
    · simp
    · simp only
      split <;> simp

/-- A deferral outlasts the holds that expire. -/
theorem thawed_of_deferral {ctx : StoppingContext} {v : StoppingVerdict}
    (h : evaluate ctx = .ok v) (hdefer : v.decision = .defer) :
    ∃ d, v.deferUntil = some d ∧ ctx.nowUtc < d ∧ Thawed (ctx.atTime d) := by
  obtain ⟨quiet, hquiet, -⟩ := evaluate_eq_ok h
  obtain ⟨d, hd, hlatest, hlt, -⟩ := (evaluate_verdictOf h hquiet).summary.deferral hdefer
  refine ⟨d, hd, hlt, s04_over (le_of_lt hlt) fun e he => ?_,
    s10_over (le_of_lt hlt) fun e he => ?_⟩
  · exact hlatest.2 e ⟨_, by simp [ruleResults], he⟩
  · exact hlatest.2 e ⟨_, by simp [ruleResults], he⟩

/-- What quiet hours defer for, and to. -/
theorem s09_release {ctx : StoppingContext} {quiet : RuleResult} {d : DateTime}
    (hquiet : s09QuietHours ctx = .ok quiet) (hdefer : quiet.decision = .defer)
    (hd : quiet.deferUntil = some d) :
    inQuietHours ctx.nowUtc ctx.policy.quietHoursStartIst ctx.policy.quietHoursEndIst = true ∧
      nextQuietHoursRelease ctx.nowUtc ctx.policy.quietHoursStartIst
        ctx.policy.quietHoursEndIst ctx.policy.quietHoursReleaseMinute = some d := by
  unfold s09QuietHours at hquiet
  split at hquiet
  · cases hquiet
    cases hdefer
  · split at hquiet
    · cases hquiet
      cases hdefer
    · next hin =>
      split at hquiet
      · cases hquiet
      · next release hrelease =>
        cases hquiet
        obtain rfl : release = d := Option.some.inj hd
        exact ⟨by simpa using hin, hrelease⟩

/-- With those holds over, only quiet hours defer. -/
theorem inQuietHours_of_thawed {ctx : StoppingContext} {v : StoppingVerdict} (hthawed : Thawed ctx)
    (h : evaluate ctx = .ok v) (hdefer : v.decision = .defer) :
    inQuietHours ctx.nowUtc ctx.policy.quietHoursStartIst ctx.policy.quietHoursEndIst = true ∧
      ∃ d, v.deferUntil = some d ∧
        nextQuietHoursRelease ctx.nowUtc ctx.policy.quietHoursStartIst
          ctx.policy.quietHoursEndIst ctx.policy.quietHoursReleaseMinute = some d := by
  obtain ⟨quiet, hquiet, -⟩ := evaluate_eq_ok h
  have hof := evaluate_verdictOf h hquiet
  obtain ⟨d, hd, ⟨⟨r, hr, hrd⟩, -⟩, -⟩ := hof.summary.deferral hdefer
  have hrdefer := (ruleResults_wellFormed hquiet r hr).holds d hrd
  obtain rfl : r = quiet := by
    -- the freeze and the cap are over, so only quiet hours can hold
    rcases defers_cases hr hrdefer with rfl | rfl | rfl
    · exact absurd hrdefer hthawed.2
    · exact absurd hrdefer hthawed.1
    · rfl
  obtain ⟨hin, hrelease⟩ := s09_release hquiet hrdefer hrd
  exact ⟨hin, d, hd, hrelease⟩

/-! ## The chain of deferrals -/

section Chain

variable {ctx : StoppingContext}

/-- The bounds of quiet hours are hours and a minute. -/
def StoppingContext.QuietBounds (ctx : StoppingContext) : Prop :=
  (0 ≤ ctx.policy.quietHoursStartIst ∧ ctx.policy.quietHoursStartIst ≤ 23) ∧
    (0 ≤ ctx.policy.quietHoursEndIst ∧ ctx.policy.quietHoursEndIst ≤ 23) ∧
      0 ≤ ctx.policy.quietHoursReleaseMinute ∧ ctx.policy.quietHoursReleaseMinute ≤ 59

theorem StoppingContext.QuietBounds.evaluates (hbounds : ctx.QuietBounds) :
    ∃ v, evaluate ctx = .ok v := by
  obtain ⟨-, ⟨h0, h23⟩, m0, m59⟩ := hbounds
  apply (evaluate_isOk_iff ctx).mpr
  rintro ⟨-, -, hrefused⟩
  exact hrefused ⟨h0, by omega, m0, by omega⟩

/-- Out of quiet hours, with the other holds over, nothing defers. -/
theorem settles_outside (hbounds : ctx.QuietBounds) (hthawed : Thawed ctx)
    (houtside : inQuietHours ctx.nowUtc ctx.policy.quietHoursStartIst
      ctx.policy.quietHoursEndIst = false) (n : ℕ) :
    ∃ final, reevaluate (n + 1) ctx = .ok [final] ∧ final.decision ≠ .defer := by
  obtain ⟨v, hv⟩ := hbounds.evaluates
  have hne : v.decision ≠ .defer := by
    intro hdefer
    have hin := (inQuietHours_of_thawed hthawed hv hdefer).1
    rw [houtside] at hin
    cases hin
  refine ⟨v, ?_, hne⟩
  simp only [reevaluate, hv, bind, Except.bind]
  split
  · next hdefer _ => exact absurd hdefer hne
  · rfl

/-- With the holds that expire over, one deferral at most. -/
theorem settles_thawed (hbounds : ctx.QuietBounds) (hthawed : Thawed ctx) (n : ℕ) :
    ∃ deferred final, reevaluate (n + 2) ctx = .ok (deferred ++ [final]) ∧ deferred.length ≤ 1 ∧
      (∀ v ∈ deferred, v.decision = .defer) ∧ final.decision ≠ .defer := by
  obtain ⟨v, hv⟩ := hbounds.evaluates
  -- held for the night once at most: the release is outside quiet hours
  by_cases hdefer : v.decision = .defer
  · obtain ⟨d, hd, hlt, -⟩ := thawed_of_deferral hv hdefer
    obtain ⟨hin, d', hd', hrelease⟩ := inQuietHours_of_thawed hthawed hv hdefer
    obtain rfl : d = d' := Option.some.inj (hd.symm.trans hd')
    obtain ⟨final, hfinal, hne⟩ := @settles_outside (ctx.atTime d) hbounds
      (hthawed.mono (le_of_lt hlt)) (inQuietHours_release hrelease hin) n
    refine ⟨[v], final, ?_, le_rfl, by simpa using hdefer, hne⟩
    simp only [reevaluate, bind, Except.bind] at hfinal ⊢
    simp only [hv, hdefer, hd, hfinal]
    rfl
  · refine ⟨[], v, ?_, Nat.zero_le 1, by simp, hdefer⟩
    simp only [reevaluate, hv, bind, Except.bind]
    split
    · next h _ => exact absurd h hdefer
    · rfl

/-- **Evaluating again at each release, a case is deferred twice at most.** -/
theorem reevaluate_settles (hbounds : ctx.QuietBounds) (n : ℕ) :
    ∃ deferred final, reevaluate (n + 3) ctx = .ok (deferred ++ [final]) ∧ deferred.length ≤ 2 ∧
      (∀ v ∈ deferred, v.decision = .defer) ∧ final.decision ≠ .defer := by
  obtain ⟨v, hv⟩ := hbounds.evaluates
  -- the first hold outlasts the freeze and the cap, the second the night
  by_cases hdefer : v.decision = .defer
  · obtain ⟨d, hd, -, hthawed⟩ := thawed_of_deferral hv hdefer
    obtain ⟨deferred, final, hrun, hlength, hall, hne⟩ :=
      @settles_thawed (ctx.atTime d) hbounds hthawed n
    refine ⟨v :: deferred, final, ?_, ?_, ?_, hne⟩
    · rw [reevaluate]
      simp only [hv, hdefer, hd, hrun, bind, Except.bind]
      rfl
    · rw [List.length_cons]
      omega
    · intro x hx
      rcases List.mem_cons.mp hx with rfl | hx
      · exact hdefer
      · exact hall x hx
  · refine ⟨[], v, ?_, Nat.zero_le 2, by simp, hdefer⟩
    rw [reevaluate]
    simp only [hv, bind, Except.bind]
    split
    · next h _ => exact absurd h hdefer
    · rfl

end Chain

/-- A promise that thaws in the evening, then quiet hours: two deferrals. -/
def promisedForEvening : StoppingContext :=
  { lateEvening 9 with
    nowUtc := { utc := 1788345000000000 }
    promiseActive := true
    promisedAt := some { utc := 1788280200000000 } }

/-- Both deferrals are used there. -/
example : (reevaluate 3 promisedForEvening).map (·.map (·.decision)) =
    .ok [.defer, .defer, .proceed] := by decide +kernel

end AegisMerchant
