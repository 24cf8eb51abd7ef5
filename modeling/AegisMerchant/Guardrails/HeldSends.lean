import AegisMerchant.Guardrails.Deferrals
import AegisMerchant.Guardrails.PolicyBounds
import AegisMerchant.Guardrails.Stops

/-!
# The instant a send is held to

A send is held to the latest of the releases that are in force. By then the contact cap and the
promise are over and the window is still open, and quiet hours are over when it is they that
release. The contact cap and the promise know nothing of quiet hours, so a send that they hold the
longest may be held into them.

`mayActNow_release_iff` is about the rules at a release, `sendAfter_mayAct_iff` about the send;
`not_sendAfter_mayAct` is a promise for the evening.
-/

namespace AegisMerchant

open Time Numeric

/-! ## Releases, by the facts -/

/-- The contact cap holds a send until a day after the last contact. -/
def StoppingContext.CapRelease (ctx : StoppingContext) (e : DateTime) : Prop :=
  ctx.isOutboundContact = true ∧ ¬ctx.contacts24h < ctx.policy.maxContacts24h ∧
    ∃ last, ctx.lastContactAt = some last ∧ e = last.add day ∧ ctx.nowUtc < e

/-- A promise holds a case until it has been frozen long enough. -/
def StoppingContext.ThawRelease (ctx : StoppingContext) (e : DateTime) : Prop :=
  ctx.promiseActive = true ∧ ∃ promised, ctx.promisedAt = some promised ∧
    e = promised.add (ctx.policy.promiseFreezeH * hour) ∧ ctx.nowUtc < e

/-- Quiet hours hold a send until they are over. -/
def StoppingContext.QuietRelease (ctx : StoppingContext) (e : DateTime) : Prop :=
  ctx.isOutboundContact = true ∧
    inQuietHours ctx.nowUtc ctx.policy.quietHoursStartIst ctx.policy.quietHoursEndIst = true ∧
    nextQuietHoursRelease ctx.nowUtc ctx.policy.quietHoursStartIst ctx.policy.quietHoursEndIst
      ctx.policy.quietHoursReleaseMinute = some e

/-- An instant that some rule holds the case to. -/
def StoppingContext.Release (ctx : StoppingContext) (e : DateTime) : Prop :=
  ctx.CapRelease e ∨ ctx.ThawRelease e ∨ ctx.QuietRelease e

/-- **No contact is held into quiet hours**: where the contact cap's release or the promise's thaw
is the latest of all, it is outside them. -/
def StoppingContext.HeldClear (ctx : StoppingContext) : Prop :=
  ctx.isOutboundContact = true → ∀ e, ctx.CapRelease e ∨ ctx.ThawRelease e →
    (∀ e', ctx.Release e' → e' ≤ e) →
      inQuietHours e ctx.policy.quietHoursStartIst ctx.policy.quietHoursEndIst = false

section Releases

variable {ctx : StoppingContext} {quiet : RuleResult}

theorem s04_holds_iff {e : DateTime} :
    (s04ContactCap24h ctx).deferUntil = some e ↔ ctx.CapRelease e := by
  constructor
  · intro h
    have hdefer := (s04_of ctx).holds e h
    obtain ⟨hout, hcap, last, hlast, hlt⟩ := s04_defer_iff.mp hdefer
    obtain rfl : last.add day = e := Option.some.inj ((s04_deferUntil hdefer hlast).symm.trans h)
    exact ⟨hout, hcap, last, hlast, rfl, hlt⟩
  · rintro ⟨hout, hcap, last, hlast, rfl, hlt⟩
    exact s04_deferUntil (s04_defer_iff.mpr ⟨hout, hcap, last, hlast, hlt⟩) hlast

theorem s10_holds_iff {e : DateTime} :
    (s10PromiseFreeze ctx).deferUntil = some e ↔ ctx.ThawRelease e := by
  constructor
  · intro h
    have hdefer := (s10_of ctx).holds e h
    obtain ⟨hactive, promised, hpromised, hlt⟩ := s10_defer_iff.mp hdefer
    obtain rfl := Option.some.inj ((s10_deferUntil hdefer hpromised).symm.trans h)
    exact ⟨hactive, promised, hpromised, rfl, hlt⟩
  · rintro ⟨hactive, promised, hpromised, rfl, hlt⟩
    exact s10_deferUntil (s10_defer_iff.mpr ⟨hactive, promised, hpromised, hlt⟩) hpromised

theorem s09_holds_iff (hquiet : s09QuietHours ctx = .ok quiet) {e : DateTime} :
    quiet.deferUntil = some e ↔ ctx.QuietRelease e := by
  unfold StoppingContext.QuietRelease
  unfold s09QuietHours at hquiet
  split at hquiet
  · next hout =>
      cases hquiet
      exact iff_of_false (by simp [proceed]) fun hc => by simp [hc.1] at hout
  · next hout =>
      have houtbound : ctx.isOutboundContact = true := by simpa using hout
      split at hquiet
      · next hin =>
          cases hquiet
          exact iff_of_false (by simp [proceed]) fun hc => by simp [hc.2.1] at hin
      · next hin =>
          have hinside : inQuietHours ctx.nowUtc ctx.policy.quietHoursStartIst
              ctx.policy.quietHoursEndIst = true := by simpa using hin
          split at hquiet
          · cases hquiet
          · next release hrelease =>
              cases hquiet
              simp [houtbound, hinside, hrelease]

/-- The holds among the results are the releases in force. -/
theorem heldUntil_iff_release (hquiet : s09QuietHours ctx = .ok quiet) {e : DateTime} :
    HeldUntil (ruleResults ctx quiet) e ↔ ctx.Release e := by
  constructor
  · rintro ⟨r, hr, he⟩
    have hdefer := (ruleResults_wellFormed hquiet r hr).holds e he
    rcases defers_cases hr hdefer with rfl | rfl | rfl
    · exact .inr (.inl (s10_holds_iff.mp he))
    · exact .inl (s04_holds_iff.mp he)
    · exact .inr (.inr ((s09_holds_iff hquiet).mp he))
  · rintro (hcap | hthaw | hq)
    · exact ⟨_, by simp [ruleResults], s04_holds_iff.mpr hcap⟩
    · exact ⟨_, by simp [ruleResults], s10_holds_iff.mpr hthaw⟩
    · exact ⟨quiet, by simp [ruleResults], (s09_holds_iff hquiet).mpr hq⟩

end Releases

/-! ## At the release -/

/-- Quiet hours depend on the instant only. -/
theorem inQuietHours_congr {t t' : DateTime} (h : t.utc = t'.utc) (startIst endIst : ℤ) :
    inQuietHours t startIst endIst = inQuietHours t' startIst endIst := by
  have hist : toIst t = toIst t' := by
    show DateTime.mk t.utc ist = DateTime.mk t'.utc ist
    rw [h]
  unfold inQuietHours
  rw [hist]

section AtRelease

variable {ctx : StoppingContext} {v : StoppingVerdict} {t : DateTime}

/-- **At the instant a case is deferred to, only quiet hours can stand in its way.** -/
theorem mayActNow_release_iff (h : evaluate ctx = .ok v) (hdefer : v.decision = .defer)
    (ht : v.deferUntil = some t) :
    MayActNow (ctx.atTime t) ↔ (ctx.isOutboundContact = true →
      inQuietHours t ctx.policy.quietHoursStartIst ctx.policy.quietHoursEndIst = false) := by
  rw [mayActNow_iff_clear]
  refine ⟨fun hclear => hclear.quietHours, fun hquietHours => ?_⟩
  -- no rule stops, now or then
  obtain ⟨quiet, hquiet, -⟩ := evaluate_eq_ok h
  have hsummary := (evaluate_verdictOf h hquiet).summary
  have hnone : ∀ r ∈ ruleResults ctx quiet, r.decision ≠ .stop := by
    intro r hr hstop
    have hv := hsummary.stop_iff.mpr (.inl ⟨r, hr, hstop⟩)
    rw [hdefer] at hv
    cases hv
  simp only [ruleResults, List.forall_mem_cons] at hnone
  obtain ⟨h12, h01, h07, -, h02, h11, h05, h08, -, h04, -⟩ := hnone
  rw [ne_eq, s12_stop_iff] at h12
  rw [ne_eq, s01_stop_iff] at h01
  rw [ne_eq, s07_stop_iff] at h07
  rw [ne_eq, s02_stop_iff] at h02
  rw [ne_eq, s11_stop_iff] at h11
  rw [ne_eq, s05_stop_iff] at h05
  rw [ne_eq, s08_stop_iff] at h08
  rw [ne_eq, s04_stop_iff] at h04
  -- the window is open, and the holds that expire are over
  obtain ⟨d, hd, -, -, hinside⟩ := hsummary.deferral hdefer
  obtain rfl : d = t := Option.some.inj (hd.symm.trans ht)
  obtain ⟨d', hd', -, hcap, hthaw⟩ := thawed_of_deferral h hdefer
  obtain rfl : d' = d := Option.some.inj (hd'.symm.trans hd)
  rw [ne_eq, s04_defer_iff] at hcap
  rw [ne_eq, s10_defer_iff] at hthaw
  refine ⟨(Bool.not_eq_false _).mp h12, ⟨fun hs => h01 (.inr (.inl hs)), fun hs => h01 (.inr (.inr hs))⟩,
    ⟨fun hp => h01 (.inl (.inl hp)), fun hp => h01 (.inl (.inr hp))⟩, fun hout => ?_, hinside,
    not_le.mp h02, ⟨not_le.mp fun hb => h11 (.inl hb), not_le.mp fun hb => h11 (.inr hb)⟩,
    fun hout => not_le.mp fun hb => h05 ⟨hout, hb⟩, fun hout => ?_, fun hactive promised hp => ?_,
    fun hout => ?_, hquietHours⟩
  · exact Bool.eq_false_iff.mpr fun hopted => h07 ⟨hopted, hout⟩
  · exact (Bool.not_eq_false _).mp fun hno => h08 ⟨hout, hno⟩
  · exact DateTime.not_lt.mp fun hlt => hthaw ⟨hactive, promised, hp, hlt⟩
  · by_cases hlow : ctx.contacts24h < ctx.policy.maxContacts24h
    · exact .inl hlow
    · cases hlast : ctx.lastContactAt with
      | none => exact absurd ⟨hout, hlow, hlast⟩ h04
      | some last =>
        exact .inr ⟨last, hlast, DateTime.not_lt.mp fun hlt => hcap ⟨hout, hlow, last, hlast, hlt⟩⟩

/-- The latest release is outside quiet hours exactly when nothing is held into them. -/
theorem heldClear_iff (h : evaluate ctx = .ok v) (hdefer : v.decision = .defer)
    (ht : v.deferUntil = some t) :
    (ctx.isOutboundContact = true →
      inQuietHours t ctx.policy.quietHoursStartIst ctx.policy.quietHoursEndIst = false) ↔
      ctx.HeldClear := by
  obtain ⟨quiet, hquiet, -⟩ := evaluate_eq_ok h
  obtain ⟨d, hd, ⟨hheld, hlatest⟩, -⟩ := (evaluate_verdictOf h hquiet).summary.deferral hdefer
  obtain rfl : d = t := Option.some.inj (hd.symm.trans ht)
  have hrelease := (heldUntil_iff_release hquiet).mp hheld
  constructor
  · intro hclear hout e he hmax
    -- `e` is the release, written in another zone perhaps
    have hle := hmax d hrelease
    have hge := hlatest e ((heldUntil_iff_release hquiet).mpr (he.elim .inl fun ht => .inr (.inl ht)))
    rw [inQuietHours_congr (le_antisymm hge hle : e.utc = d.utc)]
    exact hclear hout
  · intro hclear hout
    have hmax : ∀ e', ctx.Release e' → e' ≤ d := fun e' he' =>
      hlatest e' ((heldUntil_iff_release hquiet).mpr he')
    rcases hrelease with hcap | hthaw | ⟨-, hin, hnext⟩
    · exact hclear hout d (.inl hcap) hmax
    · exact hclear hout d (.inr hthaw) hmax
    · exact inQuietHours_release hnext hin

end AtRelease

/-- **A send that is passed or escalated with a hold may act when the hold ends exactly when no
contact is held into quiet hours.** -/
theorem sendAfter_mayAct_iff (rt : Runtime) (proposal : RecoveryProposal) (ctx : PolicyContext)
    (now : DateTime) (d : PolicyDecision) (a : AppliedAction) (t : DateTime)
    (h : evaluatePolicy rt proposal ctx now = .ok d) (ha : d.applied = some a)
    (ht : a.sendAfter = some t) :
    (∃ v, evaluate ((proposedContext proposal ctx).atTime t) = .ok v ∧
      (v.decision = .proceed ∨ v.decision = .degrade)) ↔ ctx.stopping.HeldClear := by
  obtain ⟨v, hadmitted⟩ := admitted_of_applied h ha
  have hsend : a.sendAfter = if v.decision = .defer then v.deferUntil else none := by
    have hclamped := congrArg Prod.fst hadmitted.clamped
    exact (congrArg AppliedAction.sendAfter hclamped).trans (clampedAction_sendAfter _ _ _ _ _)
  rw [ht] at hsend
  split at hsend
  · next hdefer =>
      have hacts : (∃ v, evaluate ((proposedContext proposal ctx).atTime t) = .ok v ∧
          (v.decision = .proceed ∨ v.decision = .degrade)) ↔
            MayActNow ((proposedContext proposal ctx).atTime t) := by
        unfold MayActNow StoppingVerdict.mayAct
        simp only [Bool.or_eq_true, decide_eq_true_eq]
      rw [hacts, mayActNow_release_iff hadmitted.evaluated hdefer hsend.symm]
      exact heldClear_iff hadmitted.evaluated hdefer hsend.symm
  · cases hsend

/-- A treated case at four in the afternoon, with a promise to pay made so many hours before. -/
def promisedCase (hoursAgo : ℤ) : PolicyContext :=
  { openContext 250000 with
    stopping :=
      { nowUtc := { utc := 1788345000000000 }
        policy := {}
        promiseActive := true
        promisedAt := some { utc := 1788345000000000 - hoursAgo * hour } } }

/-- A promise for noon: the send is held until noon the next day, and may go out then. -/
theorem sendAfter_mayAct_noon :
    ∃ d a t, evaluatePolicy plainRuntime {} (promisedCase 4) { utc := 0 } = .ok d ∧
      d.applied = some a ∧ a.sendAfter = some t ∧
      ∃ v, evaluate ((proposedContext {} (promisedCase 4)).atTime t) = .ok v ∧
        (v.decision = .proceed ∨ v.decision = .degrade) := by
  refine ⟨_, _, _, rfl, rfl, rfl, (sendAfter_mayAct_iff plainRuntime {} (promisedCase 4) { utc := 0 }
    _ _ _ rfl rfl rfl).mpr ?_⟩
  intro _ e he _
  rcases he with ⟨-, hcap, -⟩ | ⟨-, promised, hpromised, rfl, -⟩
  · exact absurd (by decide) hcap
  · cases hpromised
    decide +kernel

/-- A promise for ten in the evening: the send is held into quiet hours. -/
theorem not_sendAfter_mayAct :
    ¬∀ (rt : Runtime) (proposal : RecoveryProposal) (ctx : PolicyContext) (now : DateTime)
      (d : PolicyDecision) (a : AppliedAction) (t : DateTime),
      evaluatePolicy rt proposal ctx now = .ok d → d.applied = some a → a.sendAfter = some t →
        ∃ v, evaluate ((proposedContext proposal ctx).atTime t) = .ok v ∧
          (v.decision = .proceed ∨ v.decision = .degrade) := by
  intro h
  obtain ⟨v, hv, hdecision⟩ := h plainRuntime {} (promisedCase 18) { utc := 0 } _ _
    { utc := 1788366600000000 } rfl rfl rfl
  have hdefer : (evaluate ((proposedContext {} (promisedCase 18)).atTime
      { utc := 1788366600000000 })).map (·.decision) = .ok .defer := by decide +kernel
  rw [hv] at hdefer
  have hheld : v.decision = .defer := Except.ok.inj hdefer
  rcases hdecision with hacts | hacts
  · cases hheld.symm.trans hacts
  · cases hheld.symm.trans hacts

end AegisMerchant
