import AegisMerchant.Guardrails.Deferrals

/-!
# When quiet hours let go

A message held for quiet hours goes out in the first hour that is not one of them, on the day that
hour comes, whether the window wraps midnight or not.

`nextQuietHoursRelease_releasedAt` is the law, on unbounded dates; `Guardrails.DateRange` carries it
over to those a datetime holds.
-/

namespace AegisMerchant

open Time

/-- An hour of the window, which may wrap midnight. -/
def QuietHour (startIst endIst hour : ℤ) : Prop :=
  if endIst < startIst then startIst ≤ hour ∨ hour < endIst
  else startIst ≤ hour ∧ hour < endIst

theorem inQuietHours_iff (t : DateTime) (startIst endIst : ℤ) :
    inQuietHours t startIst endIst = true ↔ QuietHour startIst endIst (toIst t).hourOf := by
  unfold inQuietHours QuietHour
  by_cases heq : startIst = endIst
  · subst heq
    simp only [if_true, Bool.false_eq_true, lt_irrefl, if_false, false_iff]
    omega
  · simp only [heq, if_false]
    split <;> simp

/-- What is held, from when, and when it is let go. -/
structure ReleasedAt (startIst endIst : ℤ) (moment r : DateTime) : Prop where
  le : moment ≤ r
  allowed : inQuietHours r startIst endIst = false
  within_day : r < moment.add day
  unheld : inQuietHours moment startIst endIst = false → r = moment
  /-- Held until the window's end on the day of the release, and let go within the hour. -/
  held : inQuietHours moment startIst endIst = true →
    ∃ opening, (toIst r).replaceTime endIst 0 = some opening ∧ opening ≤ r ∧
      r < opening.add hour ∧
      ∀ t, moment ≤ t → t < opening → inQuietHours t startIst endIst = true

/-- The window's end on the day of a reading in IST. -/
theorem replaceTime_eq {t : DateTime} {h m : ℤ} (hh : 0 ≤ h ∧ h ≤ 23) (hm : 0 ≤ m ∧ m ≤ 59) :
    t.replaceTime h m =
      some { t with utc := t.utc - t.wallTime + h * hour + m * (60 * second) } :=
  if_pos ⟨hh.1, by omega, hm.1, by omega⟩

/-! ## The opening of a day -/

/-- The window's end on the day of an IST reading, some minutes past the hour. -/
def openingOf (here : DateTime) (endIst minute : ℤ) : DateTime :=
  { here with utc := here.utc - here.wallTime + endIst * hour + minute * (60 * second) }

/-- The release: the opening of today, or of tomorrow when today's is past. -/
theorem nextQuietHoursRelease_eq {moment : DateTime} {startIst endIst minute : ℤ}
    (hend : 0 ≤ endIst ∧ endIst ≤ 23) (hminute : 0 ≤ minute ∧ minute ≤ 59)
    (hquiet : inQuietHours moment startIst endIst = true) :
    nextQuietHoursRelease moment startIst endIst minute = some
      ((if openingOf (toIst moment) endIst minute ≤ toIst moment then
        (openingOf (toIst moment) endIst minute).add day
      else openingOf (toIst moment) endIst minute).astimezone moment.offset) := by
  unfold nextQuietHoursRelease
  simp only [hquiet, Bool.not_true, Bool.false_eq_true, if_false, replaceTime_eq hend hminute]
  rfl

/-- The time of day of an opening. -/
theorem wallTime_openingOf (here : DateTime) {endIst minute : ℤ} (hend : 0 ≤ endIst ∧ endIst ≤ 23)
    (hminute : 0 ≤ minute ∧ minute ≤ 59) :
    (openingOf here endIst minute).wallTime = endIst * hour + minute * (60 * second) := by
  simp only [openingOf, DateTime.wallTime, DateTime.wall, day, hour, second]
  omega

theorem wallTime_add_day (t : DateTime) : (t.add day).wallTime = t.wallTime := by
  simp only [DateTime.wallTime, DateTime.wall, DateTime.add, day, hour, second]
  omega

/-! ## Hours and instants -/

/-- Held by day: an opening later the same day, and quiet hours up to its hour. -/
theorem quietHour_before {startIst endIst : ℤ} {moment t : DateTime}
    (hend : 0 ≤ endIst ∧ endIst ≤ 23) (hquiet : QuietHour startIst endIst (toIst moment).hourOf)
    (ht : moment ≤ t) (hlt : t < openingOf (toIst moment) endIst 0) :
    QuietHour startIst endIst (toIst t).hourOf := by
  have hsame : (toIst moment).hourOf ≤ (toIst t).hourOf ∧ (toIst t).hourOf < endIst := by
    simp only [DateTime.le_def, DateTime.lt_def, openingOf, toIst, ist, DateTime.hourOf,
      DateTime.wallTime, DateTime.wall, DateTime.astimezone, day, hour, second]
      at ht hlt ⊢
    omega
  unfold QuietHour at hquiet ⊢
  split at hquiet
  · next hwraps =>
    rw [if_pos hwraps]
    exact .inr hsame.2
  · next hwraps =>
    rw [if_neg hwraps]
    exact ⟨le_trans hquiet.1 hsame.1, hsame.2⟩

/-- Held overnight: only a window that wraps midnight does that, and it lasts to the morning. -/
theorem quietHour_overnight {startIst endIst : ℤ} {moment t : DateTime}
    (hend : 0 ≤ endIst ∧ endIst ≤ 23) (hquiet : QuietHour startIst endIst (toIst moment).hourOf)
    (hpast : endIst ≤ (toIst moment).hourOf) (ht : moment ≤ t)
    (hlt : t < (openingOf (toIst moment) endIst 0).add day) :
    QuietHour startIst endIst (toIst t).hourOf := by
  have hnext : (toIst moment).hourOf ≤ (toIst t).hourOf ∨ (toIst t).hourOf < endIst := by
    simp only [DateTime.le_def, DateTime.lt_def, openingOf, toIst, ist, DateTime.hourOf,
      DateTime.wallTime, DateTime.wall, DateTime.astimezone, DateTime.add, day, hour, second]
      at hpast ht hlt ⊢
    omega
  unfold QuietHour at hquiet ⊢
  split at hquiet
  · next hwraps =>
    rw [if_pos hwraps]
    omega
  · omega

/-- A quiet hour is not the one the window ends at. -/
theorem QuietHour.ne_end {startIst endIst hour : ℤ} (h : QuietHour startIst endIst hour) :
    hour ≠ endIst := by
  unfold QuietHour at h
  split at h <;> omega

/-- Out of the hour it falls in, an opening is past when its hour is. -/
theorem openingOf_le_iff {here : DateTime} {endIst minute : ℤ}
    (hminute : 0 ≤ minute ∧ minute ≤ 59) (hne : here.hourOf ≠ endIst) :
    (openingOf here endIst minute ≤ here ↔ endIst < here.hourOf) ∧
      (openingOf here endIst minute ≤ here → openingOf here endIst minute < here) := by
  simp only [DateTime.le_def, DateTime.lt_def, openingOf, DateTime.hourOf, hour, second] at hne ⊢
  omega

/-- An opening is less than a day from every instant of its day. -/
theorem openingOf_near (here : DateTime) {endIst minute : ℤ} (hend : 0 ≤ endIst ∧ endIst ≤ 23)
    (hminute : 0 ≤ minute ∧ minute ≤ 59) :
    here < (openingOf here endIst minute).add day ∧ openingOf here endIst minute < here.add day := by
  simp only [DateTime.lt_def, DateTime.add, openingOf, DateTime.wallTime, day, hour, second]
  omega

/-- The window's end on the day of an opening, within the hour before it. -/
theorem replaceTime_opening {r : DateTime} {endIst minute : ℤ}
    (hend : 0 ≤ endIst ∧ endIst ≤ 23) (hminute : 0 ≤ minute ∧ minute ≤ 59)
    (hr : r.wallTime = endIst * hour + minute * (60 * second)) :
    ∃ opening, r.replaceTime endIst 0 = some opening ∧
      opening.utc = r.utc - minute * (60 * second) ∧ opening ≤ r ∧ r < opening.add hour := by
  refine ⟨_, replaceTime_eq hend ⟨le_rfl, by decide⟩, ?_⟩
  simp only [DateTime.le_def, DateTime.lt_def, DateTime.add, hr, hour, second]
  omega

/-! ## The release -/

/-- **Every window of hours lets go of a message in its first hour outside it.** -/
theorem nextQuietHoursRelease_releasedAt (moment : DateTime) {startIst endIst minute : ℤ}
    (hend : 0 ≤ endIst ∧ endIst ≤ 23) (hminute : 0 ≤ minute ∧ minute ≤ 59) :
    ∃ r, nextQuietHoursRelease moment startIst endIst minute = some r ∧
      ReleasedAt startIst endIst moment r := by
  cases hquiet : inQuietHours moment startIst endIst with
  | false =>
    refine ⟨moment, by simp [nextQuietHoursRelease, hquiet], le_refl _, hquiet, ?_, fun _ => rfl, ?_⟩
    · show moment.utc < moment.utc + day
      unfold day hour second
      omega
    · intro h
      rw [hquiet] at h
      cases h
  | true =>
    have hrelease := nextQuietHoursRelease_eq hend hminute hquiet
    have hallowed := inQuietHours_release hrelease hquiet
    have hhour := (inQuietHours_iff moment startIst endIst).mp hquiet
    have hne := hhour.ne_end
    have htime := wallTime_openingOf (toIst moment) hend hminute
    obtain ⟨hpast_iff, hstrict⟩ := openingOf_le_iff hminute hne
    obtain ⟨hnear, hnear'⟩ := openingOf_near (toIst moment) hend hminute
    refine ⟨_, hrelease, ?_⟩
    by_cases hpast : openingOf (toIst moment) endIst minute ≤ toIst moment
    · -- this morning's opening is past: tomorrow's, less than a day after it
      rw [if_pos hpast] at hallowed ⊢
      obtain ⟨opening, hopening, hutc, hle, hlt⟩ := @replaceTime_opening
        (toIst (((openingOf (toIst moment) endIst minute).add day).astimezone moment.offset))
        endIst minute hend hminute ((wallTime_add_day _).trans htime)
      refine ⟨le_of_lt hnear, hallowed, Int.add_lt_add_right (hstrict hpast) day, ?_,
        fun _ => ⟨opening, hopening, hle, hlt, fun t ht hbefore => ?_⟩⟩
      · intro h
        rw [hquiet] at h
        cases h
      · refine (inQuietHours_iff t startIst endIst).mpr
          (quietHour_overnight hend hhour (le_of_lt (hpast_iff.mp hpast)) ht ?_)
        show t.utc < _
        refine lt_of_lt_of_eq hbefore (hutc.trans ?_)
        simp only [openingOf, DateTime.add, toIst, DateTime.astimezone]
        ring
    · rw [if_neg hpast] at hallowed ⊢
      obtain ⟨opening, hopening, hutc, hle, hlt⟩ := @replaceTime_opening
        (toIst ((openingOf (toIst moment) endIst minute).astimezone moment.offset))
        endIst minute hend hminute htime
      refine ⟨le_of_lt (DateTime.not_le.mp hpast), hallowed, hnear', ?_,
        fun _ => ⟨opening, hopening, hle, hlt, fun t ht hbefore => ?_⟩⟩
      · intro h
        rw [hquiet] at h
        cases h
      · refine (inQuietHours_iff t startIst endIst).mpr (quietHour_before hend hhour ht ?_)
        show t.utc < _
        refine lt_of_lt_of_eq hbefore (hutc.trans ?_)
        simp only [openingOf, toIst, DateTime.astimezone]
        ring

/-- A message written at 22:00 IST waits until the morning. -/
example : (nextQuietHoursRelease { utc := 1788366600000000 } 21 9 5).map isoformat =
    some "2026-09-03T03:35:00+00:00" := by decide +kernel

end AegisMerchant
