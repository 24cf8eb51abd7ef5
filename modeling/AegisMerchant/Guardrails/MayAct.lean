import AegisMerchant.Guardrails.StoppingLaws
import Mathlib.Data.List.Forall2

/-!
# When the rules allow acting now

A verdict lets a case act exactly when none of the twelve rules stops or defers: a deferral always
points past the instant it is made at, so the loop's correction of stale deferrals never turns one
into a permission. Fact by fact, that is `ClearToAct`.

`mayActNow_iff` reads the verdict as the twelve rules, `mayActNow_iff_clear` as facts about the
case.
-/

namespace AegisMerchant

open Time Numeric

/-! ## A deferral points forward -/

/-- The release from quiet hours is later than the moment held. -/
theorem lt_nextQuietHoursRelease {moment release : DateTime} {startIst endIst minute : ℤ}
    (h : nextQuietHoursRelease moment startIst endIst minute = some release)
    (hquiet : inQuietHours moment startIst endIst = true) : moment < release := by
  unfold nextQuietHoursRelease at h
  simp only [hquiet, Bool.not_true, Bool.false_eq_true, if_false] at h
  cases hr : (toIst moment).replaceTime endIst minute with
  | none => simp [hr] at h
  | some r =>
    simp only [hr, Option.bind_eq_bind, Option.bind_some, Option.pure_def,
      Option.some.injEq] at h
    subst h
    have hutc : (toIst moment).utc = moment.utc := rfl
    split
    · next hle =>
        -- the morning's release has passed: tomorrow's has not
        simp only [DateTime.lt_def, DateTime.astimezone_utc, DateTime.add_utc]
        have hback : moment.utc < r.utc + day := by
          unfold DateTime.replaceTime at hr
          split at hr
          · next hrange =>
              obtain ⟨h0, -, m0, -⟩ := hrange
              have hwall : (toIst moment).wallTime < day := by
                unfold DateTime.wallTime
                exact Int.emod_lt_of_pos _ (by decide)
              cases hr
              simp only
              have hh : 0 ≤ endIst * hour := Int.mul_nonneg h0 (by decide)
              have hm : 0 ≤ minute * (60 * second) := Int.mul_nonneg m0 (by decide)
              omega
          · cases hr
        exact hback
    · next hnle =>
        simp only [DateTime.not_le, DateTime.lt_def] at hnle
        exact hnle

/-- What the loop keeps: a deferral it holds is later than now. -/
def Merged.Forward (now : DateTime) (m : Merged) : Prop :=
  m.decision = .defer → ∃ d, m.deferUntil = some d ∧ now < d

/-- A result that defers does so to a later instant. -/
def RuleResult.Forward (now : DateTime) (r : RuleResult) : Prop :=
  r.decision = .defer → ∃ d, r.deferUntil = some d ∧ now < d

theorem absorb_forward {now : DateTime} {m : Merged} {r : RuleResult} (hm : m.Forward now)
    (hr : r.Forward now) : (m.absorb r).Forward now := by
  unfold Merged.absorb
  simp only
  split
  · exact hr
  · split
    · next d current hd hcurrent =>
        split
        -- the later of two releases is kept, and it is after now too
        · next hlatest =>
            intro hdefer
            obtain ⟨d', hd', hlt⟩ := hr (hlatest.1.trans hlatest.2.1)
            obtain rfl : d = d' := by simpa [hd] using hd'
            exact ⟨d, rfl, hlt⟩
        · exact hm
    · exact hm

theorem foldl_forward {now : DateTime} {results : List RuleResult} {m : Merged}
    (hm : m.Forward now) (h : ∀ r ∈ results, r.Forward now) :
    (results.foldl Merged.absorb m).Forward now := by
  induction results generalizing m with
  | nil => exact hm
  | cons r rest ih =>
    rw [List.forall_mem_cons] at h
    exact ih (absorb_forward hm h.1) h.2

/-! ## What each rule answers -/

/-- The rules, in evaluation order. -/
def evaluationOrder : List StoppingRule :=
  [.s12KillSwitch, .s01AlreadyResolved, .s07OptOut, .s06RecoveryWindow, .s02AttemptBudget,
    .s11MerchantBudget, .s05ContactCap48h, .s08ConsentClass, .s10PromiseFreeze, .s04ContactCap24h,
    .s09QuietHours, .s03DiscountAttemptBudget]

/-- A deferral is to a later instant, and nothing else has a release. -/
structure RuleResult.WellFormed (now : DateTime) (r : RuleResult) : Prop where
  forward : r.Forward now
  holds : ∀ d, r.deferUntil = some d → r.decision = .defer

/-- A rule's own result, which it signs. -/
structure RuleResult.Of (now : DateTime) (rule : StoppingRule) (r : RuleResult) : Prop extends
    r.WellFormed now where
  signed : r.rule = rule

/-- A result that does not defer. -/
theorem RuleResult.Of.free {now : DateTime} {rule : StoppingRule} {r : RuleResult}
    (hrule : r.rule = rule) (hnone : r.deferUntil = none) (hne : r.decision ≠ .defer) :
    r.Of now rule := by
  refine ⟨⟨fun hdefer => absurd hdefer hne, fun d hd => ?_⟩, hrule⟩
  rw [hnone] at hd
  cases hd

/-- A result that defers, to a later instant. -/
theorem RuleResult.Of.deferred {now d : DateTime} {rule : StoppingRule} {r : RuleResult}
    (hrule : r.rule = rule) (hdefer : r.decision = .defer) (hd : r.deferUntil = some d)
    (hlt : now < d) : r.Of now rule :=
  ⟨⟨fun _ => ⟨d, hd, hlt⟩, fun _ _ => hdefer⟩, hrule⟩

theorem RuleResult.Of.proceed (now : DateTime) (rule : StoppingRule) :
    (AegisMerchant.proceed rule).Of now rule :=
  .free rfl rfl (by simp)

section Answers

variable (ctx : StoppingContext)

theorem s12_of : (s12KillSwitch ctx).Of ctx.nowUtc .s12KillSwitch := by
  unfold s12KillSwitch
  split
  · exact .free rfl rfl (by simp)
  · exact .proceed _ _

theorem s01_of : (s01AlreadyResolved ctx).Of ctx.nowUtc .s01AlreadyResolved := by
  unfold s01AlreadyResolved
  simp only
  split
  · exact .free rfl rfl (by simp)
  · split
    · exact .free rfl rfl (by simp)
    · exact .proceed _ _

theorem s07_of : (s07OptOut ctx).Of ctx.nowUtc .s07OptOut := by
  unfold s07OptOut
  split
  · exact .free rfl rfl (by simp)
  · exact .proceed _ _

theorem s06_of : (s06RecoveryWindow ctx).Of ctx.nowUtc .s06RecoveryWindow := by
  unfold s06RecoveryWindow
  split
  · split
    · exact .free rfl rfl (by simp)
    · exact .proceed _ _
  · exact .proceed _ _

theorem s02_of : (s02AttemptBudget ctx).Of ctx.nowUtc .s02AttemptBudget := by
  unfold s02AttemptBudget
  simp only
  split
  · exact .free rfl rfl (by simp)
  · exact .proceed _ _

theorem s11_of : (s11MerchantBudget ctx).Of ctx.nowUtc .s11MerchantBudget := by
  unfold s11MerchantBudget
  split
  · exact .free rfl rfl (by simp)
  · split
    · exact .free rfl rfl (by simp)
    · exact .proceed _ _

theorem s05_of : (s05ContactCap48h ctx).Of ctx.nowUtc .s05ContactCap48h := by
  unfold s05ContactCap48h
  split
  · exact .proceed _ _
  · split
    · exact .free rfl rfl (by simp)
    · exact .proceed _ _

theorem s08_of : (s08ConsentClass ctx).Of ctx.nowUtc .s08ConsentClass := by
  unfold s08ConsentClass
  split
  · exact .proceed _ _
  · split
    · simp only
      split <;> exact .free rfl rfl (by simp)
    · split
      · exact .free rfl rfl (by simp)
      · exact .proceed _ _

theorem s10_of : (s10PromiseFreeze ctx).Of ctx.nowUtc .s10PromiseFreeze := by
  unfold s10PromiseFreeze
  split
  · simp only
    split
    · next hlt => exact .deferred rfl rfl rfl hlt
    · exact .proceed _ _
  · exact .proceed _ _

theorem s04_of : (s04ContactCap24h ctx).Of ctx.nowUtc .s04ContactCap24h := by
  unfold s04ContactCap24h
  split
  · exact .proceed _ _
  · split
    · exact .proceed _ _
    · split
      · exact .free rfl rfl (by simp)
      · simp only
        split
        · exact .free rfl rfl (by simp)
        · next hle => exact .deferred rfl rfl rfl (by simpa using hle)

theorem s09_of {quiet : RuleResult} (hquiet : s09QuietHours ctx = .ok quiet) :
    quiet.Of ctx.nowUtc .s09QuietHours := by
  unfold s09QuietHours at hquiet
  split at hquiet
  · cases hquiet
    exact .proceed _ _
  · split at hquiet
    · cases hquiet
      exact .proceed _ _
    · next hin =>
        split at hquiet
        · cases hquiet
        · next release hrelease =>
            cases hquiet
            exact .deferred rfl rfl rfl (lt_nextQuietHoursRelease hrelease (by simpa using hin))

theorem s03_of : (s03DiscountAttemptBudget ctx).Of ctx.nowUtc .s03DiscountAttemptBudget := by
  unfold s03DiscountAttemptBudget
  split
  · exact .proceed _ _
  · simp only
    split
    · exact .free rfl rfl (by simp)
    · exact .proceed _ _

end Answers

/-- The twelve results, each of its own rule. -/
theorem ruleResults_of {ctx : StoppingContext} {quiet : RuleResult}
    (hquiet : s09QuietHours ctx = .ok quiet) :
    List.Forall₂ (fun rule r => r.Of ctx.nowUtc rule) evaluationOrder (ruleResults ctx quiet) := by
  unfold evaluationOrder ruleResults
  simp only [List.forall₂_cons, s12_of, s01_of, s07_of, s06_of, s02_of, s11_of, s05_of, s08_of,
    s10_of, s04_of, s09_of ctx hquiet, s03_of, true_and]
  exact .nil

/-- Of the rules, only the contact cap, the promise and quiet hours defer, and they look ahead. -/
theorem ruleResults_wellFormed {ctx : StoppingContext} {quiet : RuleResult}
    (hquiet : s09QuietHours ctx = .ok quiet) :
    ∀ r ∈ ruleResults ctx quiet, r.WellFormed ctx.nowUtc := by
  intro r hr
  obtain ⟨n, hn, rfl⟩ := List.mem_iff_getElem.mp hr
  have hall := ruleResults_of hquiet
  exact (hall.get (by rw [hall.length_eq]; exact hn) hn).toWellFormed

/-! ## The verdict -/

/-- The loop ends no more severe than a bound exactly when every result is within it. -/
theorem foldl_severity_le {results : List RuleResult} {m : Merged} {n : ℕ} :
    (results.foldl Merged.absorb m).decision.severity ≤ n ↔
      m.decision.severity ≤ n ∧ ∀ r ∈ results, r.decision.severity ≤ n := by
  induction results generalizing m with
  | nil => simp
  | cons r rest ih =>
    rw [List.foldl_cons, ih, absorb_severity, max_le_iff, List.forall_mem_cons, and_assoc]

theorem mayAct_iff_severity (v : StoppingVerdict) :
    v.mayAct = true ↔ v.decision.severity ≤ 1 := by
  unfold StoppingVerdict.mayAct
  cases v.decision <;> simp [Decision.severity]

/-- A deferral that points forward is not corrected. -/
theorem forward_stays {m : Merged} {now : DateTime} (hm : m.Forward now) : m.forward now = m := by
  unfold Merged.forward
  split
  · next d hd =>
      split
      · next h =>
          obtain ⟨d', hd', hlt⟩ := hm h.1
          obtain rfl : d = d' := by simpa [hd] using hd'
          exact absurd h.2 (not_le_of_gt hlt)
      · rfl
  · rfl

/-- A merged outcome whose deferral points forward lets the case act exactly when it neither stops
nor defers. -/
theorem verdict_mayAct_iff {m : Merged} {ctx : StoppingContext} {results : List RuleResult}
    (hm : m.Forward ctx.nowUtc) :
    ((m.forward ctx.nowUtc).verdict ctx results).mayAct = true ↔ m.decision.severity ≤ 1 := by
  rw [mayAct_iff_severity, forward_stays hm]
  unfold Merged.verdict
  simp only
  split
  · split
    · next h => simp [h.1, Decision.severity]
    · rfl
  · rfl

/-- The rules, evaluated on these facts, allow acting. -/
def MayActNow (ctx : StoppingContext) : Prop := ∃ v, evaluate ctx = .ok v ∧ v.mayAct = true

/-- **The rules allow acting exactly when every one of them proceeds or degrades.** -/
theorem mayActNow_iff (ctx : StoppingContext) :
    MayActNow ctx ↔
      ∃ quiet, s09QuietHours ctx = .ok quiet ∧
        ∀ r ∈ ruleResults ctx quiet, r.decision.severity ≤ 1 := by
  unfold MayActNow evaluate
  cases hquiet : s09QuietHours ctx with
  | error e => simp [bind, Except.bind]
  | ok quiet =>
    have hforward := foldl_forward (m := {}) (by simp [Merged.Forward])
      fun r hr => (ruleResults_wellFormed hquiet r hr).forward
    simp only [bind, Except.bind, pure, Except.pure, Except.ok.injEq, exists_eq_left']
    rw [combine, verdict_mayAct_iff hforward, foldl_severity_le]
    simp [Decision.severity]

/-! ## Fact by fact -/

/-- **What has to hold for the rules to allow an action now.** -/
structure ClearToAct (ctx : StoppingContext) : Prop where
  autopilot : ctx.autopilotEnabled = true
  unresolved : ctx.caseStatus ≠ .recovered ∧ ctx.caseStatus ≠ .resolvedOrganic
  unpaid : Text.lower (ctx.orderStatus.getD "") ≠ "paid" ∧
    Text.lower (ctx.orderStatus.getD "") ≠ "captured"
  optedIn : ctx.isOutboundContact = true → ctx.optedOut = false
  window : ∀ expires, ctx.windowExpiresAt = some expires → ctx.nowUtc < expires
  attempts : ctx.attemptNo < ctx.policy.maxAttemptsPerCase
  budget : ctx.actionsToday < ctx.policy.dailyActionBudget ∧
    ctx.discountExposureMtdPaise < ctx.policy.monthlyDiscountExposurePaise
  contacts48h : ctx.isOutboundContact = true → ctx.contacts48h < ctx.policy.maxContacts48h
  consent : ctx.isOutboundContact = true → ctx.transactionalConsent = true
  promise : ctx.promiseActive = true → ∀ promised, ctx.promisedAt = some promised →
    promised.add (ctx.policy.promiseFreezeH * hour) ≤ ctx.nowUtc
  contacts24h : ctx.isOutboundContact = true → ctx.contacts24h < ctx.policy.maxContacts24h ∨
    ∃ last, ctx.lastContactAt = some last ∧ last.add day ≤ ctx.nowUtc
  quietHours : ctx.isOutboundContact = true →
    inQuietHours ctx.nowUtc ctx.policy.quietHoursStartIst ctx.policy.quietHoursEndIst = false

section Rules

variable (ctx : StoppingContext)

theorem s12_acts : (s12KillSwitch ctx).decision.severity ≤ 1 ↔ ctx.autopilotEnabled = true := by
  unfold s12KillSwitch
  split <;> simp_all [Decision.severity]

theorem s01_acts :
    (s01AlreadyResolved ctx).decision.severity ≤ 1 ↔
      (ctx.caseStatus ≠ .recovered ∧ ctx.caseStatus ≠ .resolvedOrganic) ∧
        Text.lower (ctx.orderStatus.getD "") ≠ "paid" ∧
          Text.lower (ctx.orderStatus.getD "") ≠ "captured" := by
  unfold s01AlreadyResolved
  simp only
  split
  · next h => simpa [Decision.severity] using fun _ _ h' => (h.resolve_left h')
  · split
    · next h => simpa [Decision.severity] using fun h' h'' => absurd h (by simp [h', h''])
    · simp_all [Decision.severity]

theorem s07_acts :
    (s07OptOut ctx).decision.severity ≤ 1 ↔
      (ctx.isOutboundContact = true → ctx.optedOut = false) := by
  unfold s07OptOut
  cases ctx.optedOut <;> cases ctx.isOutboundContact <;> simp [Decision.severity]

theorem s06_acts :
    (s06RecoveryWindow ctx).decision.severity ≤ 1 ↔
      ∀ expires, ctx.windowExpiresAt = some expires → ctx.nowUtc < expires := by
  unfold s06RecoveryWindow
  split
  · next expires h =>
      split <;> simp_all [Decision.severity]
  · simp_all [Decision.severity]

theorem s02_acts :
    (s02AttemptBudget ctx).decision.severity ≤ 1 ↔
      ctx.attemptNo < ctx.policy.maxAttemptsPerCase := by
  unfold s02AttemptBudget
  simp only
  split <;> simp_all [Decision.severity]

theorem s11_acts :
    (s11MerchantBudget ctx).decision.severity ≤ 1 ↔
      ctx.actionsToday < ctx.policy.dailyActionBudget ∧
        ctx.discountExposureMtdPaise < ctx.policy.monthlyDiscountExposurePaise := by
  unfold s11MerchantBudget
  split
  · simp_all [Decision.severity]
  · split <;> simp_all [Decision.severity]

theorem s05_acts :
    (s05ContactCap48h ctx).decision.severity ≤ 1 ↔
      (ctx.isOutboundContact = true → ctx.contacts48h < ctx.policy.maxContacts48h) := by
  unfold s05ContactCap48h
  split
  · simp_all [Decision.severity]
  · split <;> simp_all [Decision.severity]

theorem s08_acts :
    (s08ConsentClass ctx).decision.severity ≤ 1 ↔
      (ctx.isOutboundContact = true → ctx.transactionalConsent = true) := by
  unfold s08ConsentClass
  split
  · simp_all [Decision.severity]
  · split
    · simp only
      split <;> simp_all [Decision.severity]
    · split <;> simp_all [Decision.severity]

theorem s10_acts :
    (s10PromiseFreeze ctx).decision.severity ≤ 1 ↔
      (ctx.promiseActive = true → ∀ promised, ctx.promisedAt = some promised →
        promised.add (ctx.policy.promiseFreezeH * hour) ≤ ctx.nowUtc) := by
  unfold s10PromiseFreeze
  split
  · simp only
    split <;> simp_all [Decision.severity]
  · next h =>
      refine iff_of_true (by simp [Decision.severity]) fun hactive promised hpromised => ?_
      exact absurd hpromised (h promised hactive)

theorem s04_acts :
    (s04ContactCap24h ctx).decision.severity ≤ 1 ↔
      (ctx.isOutboundContact = true → ctx.contacts24h < ctx.policy.maxContacts24h ∨
        ∃ last, ctx.lastContactAt = some last ∧ last.add day ≤ ctx.nowUtc) := by
  unfold s04ContactCap24h
  split
  · simp_all [Decision.severity]
  · split
    · simp_all [Decision.severity]
    · split
      · simp_all [Decision.severity]
      · simp only
        split <;> simp_all [Decision.severity]

theorem s03_acts : (s03DiscountAttemptBudget ctx).decision.severity ≤ 1 := by
  unfold s03DiscountAttemptBudget
  split
  · simp [Decision.severity]
  · simp only
    split <;> simp [Decision.severity]

theorem s09_acts :
    (∃ quiet, s09QuietHours ctx = .ok quiet ∧ quiet.decision.severity ≤ 1) ↔
      (ctx.isOutboundContact = true →
        inQuietHours ctx.nowUtc ctx.policy.quietHoursStartIst ctx.policy.quietHoursEndIst =
          false) := by
  unfold s09QuietHours
  split
  · simp_all [Decision.severity]
  · split
    · simp_all [Decision.severity]
    · split <;> simp_all [Decision.severity]

end Rules

/-- **The rules allow acting exactly when the facts are clear.** -/
theorem mayActNow_iff_clear (ctx : StoppingContext) : MayActNow ctx ↔ ClearToAct ctx := by
  rw [mayActNow_iff]
  simp only [ruleResults, List.forall_mem_cons, List.not_mem_nil, false_implies, implies_true,
    and_true, s12_acts, s01_acts, s07_acts, s06_acts, s02_acts, s11_acts, s05_acts, s08_acts,
    s10_acts, s04_acts, s03_acts]
  constructor
  · rintro ⟨quiet, hok, h12, ⟨h01, h01'⟩, h07, h06, h02, h11, h05, h08, h10, h04, h09⟩
    exact ⟨h12, h01, h01', h07, h06, h02, h11, h05, h08, h10, h04,
      (s09_acts ctx).mp ⟨quiet, hok, h09⟩⟩
  · rintro ⟨h12, h01, h01', h07, h06, h02, h11, h05, h08, h10, h04, h09⟩
    obtain ⟨quiet, hok, h09⟩ := (s09_acts ctx).mpr h09
    exact ⟨quiet, hok, h12, ⟨h01, h01'⟩, h07, h06, h02, h11, h05, h08, h10, h04, h09⟩

/-- Whether the rules allow acting can be run. -/
instance (ctx : StoppingContext) : Decidable (MayActNow ctx) :=
  match h : evaluate ctx with
  | .ok v => decidable_of_iff (v.mayAct = true) (by simp [MayActNow, h])
  | .error e => isFalse (by simp [MayActNow, h])

instance (ctx : StoppingContext) : Decidable (ClearToAct ctx) :=
  decidable_of_iff _ (mayActNow_iff_clear ctx)

end AegisMerchant
