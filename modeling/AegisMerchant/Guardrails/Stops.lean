import AegisMerchant.Guardrails.PolicyEngine
import AegisMerchant.Guardrails.VerdictLaws

/-!
# What stops a case

Nine of the twelve rules can stop, each on facts of its own, and a rule that stops names the status
the case ends in. A verdict that stops reports the first of them, or the recovery window when it is a
deferral that would outlast it.

Each rule's `_stop_iff` says when it stops a case. `ruleResults_closing` and `evaluate_stop` take
them through the verdict.
-/

namespace AegisMerchant

open Time Numeric

/-! ## The facts each rule stops on -/

section Facts

variable {ctx : StoppingContext}

theorem s12_stop_iff : (s12KillSwitch ctx).decision = .stop ↔ ctx.autopilotEnabled = false := by
  unfold s12KillSwitch
  split
  · next h => exact iff_of_true rfl (by simpa using h)
  · next h => exact iff_of_false (by simp) (by simpa using h)

/-- The order is paid. -/
def StoppingContext.Paid (ctx : StoppingContext) : Prop :=
  Text.lower (ctx.orderStatus.getD "") = "paid" ∨ Text.lower (ctx.orderStatus.getD "") = "captured"

theorem s01_stop_iff : (s01AlreadyResolved ctx).decision = .stop ↔
    ctx.Paid ∨ ctx.caseStatus = .recovered ∨ ctx.caseStatus = .resolvedOrganic := by
  unfold s01AlreadyResolved StoppingContext.Paid
  simp only
  split
  · next h => exact iff_of_true rfl (.inl h)
  · next h =>
      split
      · next hstatus => exact iff_of_true rfl (.inr hstatus)
      · next hstatus => exact iff_of_false (by simp) fun hc => hc.elim h hstatus

theorem s07_stop_iff : (s07OptOut ctx).decision = .stop ↔
    ctx.optedOut = true ∧ ctx.isOutboundContact = true := by
  unfold s07OptOut
  split
  · next h => exact iff_of_true rfl (by simpa using h)
  · next h => exact iff_of_false (by simp) (by simpa using h)

theorem s06_stop_iff : (s06RecoveryWindow ctx).decision = .stop ↔
    ∃ expires, ctx.windowExpiresAt = some expires ∧ expires ≤ ctx.nowUtc := by
  unfold s06RecoveryWindow
  split
  · next expires hexpires =>
      split
      · next hle => exact iff_of_true rfl ⟨expires, hexpires, hle⟩
      · next hnle =>
          refine iff_of_false (by simp) ?_
          rintro ⟨e, he, hle⟩
          obtain rfl : expires = e := Option.some.inj (hexpires.symm.trans he)
          exact hnle hle
  · next hnone =>
      refine iff_of_false (by simp) ?_
      rintro ⟨e, he, -⟩
      exact absurd (hnone.symm.trans he) (by simp)

theorem s02_stop_iff : (s02AttemptBudget ctx).decision = .stop ↔
    ctx.policy.maxAttemptsPerCase ≤ ctx.attemptNo := by
  unfold s02AttemptBudget
  simp only
  split
  · next h => exact iff_of_true rfl h
  · next h => exact iff_of_false (by simp) h

theorem s11_stop_iff : (s11MerchantBudget ctx).decision = .stop ↔
    ctx.policy.dailyActionBudget ≤ ctx.actionsToday ∨
      ctx.policy.monthlyDiscountExposurePaise ≤ ctx.discountExposureMtdPaise := by
  unfold s11MerchantBudget
  split
  · next h => exact iff_of_true rfl (.inl h)
  · next h =>
      split
      · next hmonth => exact iff_of_true rfl (.inr hmonth)
      · next hmonth => exact iff_of_false (by simp) fun hc => hc.elim h hmonth

theorem s05_stop_iff : (s05ContactCap48h ctx).decision = .stop ↔
    ctx.isOutboundContact = true ∧ ctx.policy.maxContacts48h ≤ ctx.contacts48h := by
  unfold s05ContactCap48h
  split
  · next h => exact iff_of_false (by simp) fun hc => by simp [hc.1] at h
  · next h =>
      have hout : ctx.isOutboundContact = true := by simpa using h
      split
      · next hcap => exact iff_of_true rfl ⟨hout, hcap⟩
      · next hcap => exact iff_of_false (by simp) fun hc => hcap hc.2

/-- Whatever is proposed, S-08 stops a contact there is no consent for at all. -/
theorem s08_stop_iff : (s08ConsentClass ctx).decision = .stop ↔
    ctx.isOutboundContact = true ∧ ctx.transactionalConsent = false := by
  unfold s08ConsentClass
  split
  · next h => exact iff_of_false (by simp) fun hc => by simp [hc.1] at h
  · next h =>
      have hout : ctx.isOutboundContact = true := by simpa using h
      split
      · simp only
        split
        · next ht => exact iff_of_false (by simp) fun hc => by simp [hc.2] at ht
        · next ht => exact iff_of_true rfl ⟨hout, by simpa using ht⟩
      · split
        · next ht => exact iff_of_true rfl ⟨hout, by simpa using ht⟩
        · next ht => exact iff_of_false (by simp) fun hc => by simp [hc.2] at ht

theorem s10_ne_stop : (s10PromiseFreeze ctx).decision ≠ .stop := by
  unfold s10PromiseFreeze
  split
  · simp only
    split <;> simp
  · simp

theorem s04_stop_iff : (s04ContactCap24h ctx).decision = .stop ↔
    ctx.isOutboundContact = true ∧ ¬ctx.contacts24h < ctx.policy.maxContacts24h ∧
      ctx.lastContactAt = none := by
  unfold s04ContactCap24h
  split
  · next h => exact iff_of_false (by simp) fun hc => by simp [hc.1] at h
  · next h =>
      have hout : ctx.isOutboundContact = true := by simpa using h
      split
      · next hcap => exact iff_of_false (by simp) fun hc => hc.2.1 hcap
      · next hcap =>
          split
          -- the cap is reached and no time of it is known: nothing to wait for
          · next hnone => exact iff_of_true rfl ⟨hout, hcap, hnone⟩
          · next last hlast =>
              refine iff_of_false ?_ fun hc => by simp [hlast] at hc
              simp only
              split <;> simp

theorem s09_ne_stop {quiet : RuleResult} (h : s09QuietHours ctx = .ok quiet) :
    quiet.decision ≠ .stop := by
  unfold s09QuietHours at h
  split at h
  · cases h
    simp
  · split at h
    · cases h
      simp
    · split at h
      · cases h
      · cases h
        simp

theorem s03_ne_stop : (s03DiscountAttemptBudget ctx).decision ≠ .stop := by
  unfold s03DiscountAttemptBudget
  split
  · simp
  · simp only
    split <;> simp

end Facts

/-! ## The status a rule ends a case in -/

/-- A result that stops names a status nothing follows. -/
def RuleResult.Closing (r : RuleResult) : Prop :=
  r.decision = .stop → ∃ status, r.terminalStatus = some status ∧ status.isTerminal = true

theorem RuleResult.Closing.of {r : RuleResult} {status : CaseStatus}
    (h : r.terminalStatus = some status) (hterminal : status.isTerminal = true) : r.Closing :=
  fun _ => ⟨status, h, hterminal⟩

theorem RuleResult.Closing.ne {r : RuleResult} (h : r.decision ≠ .stop) : r.Closing :=
  fun hstop => absurd hstop h

theorem RuleResult.Closing.proceed (rule : StoppingRule) : (AegisMerchant.proceed rule).Closing :=
  .ne (by simp)

/-- **Every rule that stops a case closes it.** -/
theorem ruleResults_closing {ctx : StoppingContext} {quiet r : RuleResult}
    (hquiet : s09QuietHours ctx = .ok quiet) (hr : r ∈ ruleResults ctx quiet) : r.Closing := by
  simp only [ruleResults, List.mem_cons, List.not_mem_nil, or_false] at hr
  -- rule by rule, in the order they are evaluated
  rcases hr with rfl | rfl | rfl | rfl | rfl | rfl | rfl | rfl | rfl | rfl | rfl | rfl
  · unfold s12KillSwitch
    split
    · exact .of rfl rfl
    · exact .proceed _
  · unfold s01AlreadyResolved
    simp only
    split
    · exact .of rfl rfl
    · split
      · next h =>
          refine .of rfl ?_
          rcases h with h | h
          · rw [h]
            rfl
          · rw [h]
            rfl
      · exact .proceed _
  · unfold s07OptOut
    split
    · exact .of rfl rfl
    · exact .proceed _
  · unfold s06RecoveryWindow
    split
    · split
      · exact .of rfl rfl
      · exact .proceed _
    · exact .proceed _
  · unfold s02AttemptBudget
    simp only
    split
    · exact .of rfl rfl
    · exact .proceed _
  · unfold s11MerchantBudget
    split
    · exact .of rfl rfl
    · split
      · exact .of rfl rfl
      · exact .proceed _
  · unfold s05ContactCap48h
    split
    · exact .proceed _
    · split
      · exact .of rfl rfl
      · exact .proceed _
  · unfold s08ConsentClass
    split
    · exact .proceed _
    · split
      · simp only
        split
        · exact .ne (by simp)
        · exact .of rfl rfl
      · split
        · exact .of rfl rfl
        · exact .proceed _
  · exact .ne s10_ne_stop
  · unfold s04ContactCap24h
    split
    · exact .proceed _
    · split
      · exact .proceed _
      · split
        · exact .of rfl rfl
        · simp only
          split <;> exact .ne (by simp)
  · exact .ne (s09_ne_stop hquiet)
  · exact .ne s03_ne_stop

/-! ## What a verdict that stops reports -/

/-- The result that stands for a deferral past the recovery window. -/
structure RuleResult.Outlasts (r : RuleResult) : Prop where
  rule : r.rule = .s06RecoveryWindow
  stop : r.decision = .stop
  expired : r.terminalStatus = some .expired

/-- A verdict carries the results, and at most one more. -/
theorem combine_results (ctx : StoppingContext) (results : List RuleResult) :
    (combine ctx results).results = results ∨
      ∃ r, r.Outlasts ∧ (combine ctx results).results = results ++ [r] := by
  unfold combine Merged.verdict
  simp only
  split
  · split
    · exact .inr ⟨_, ⟨rfl, rfl, rfl⟩, rfl⟩
    · exact .inl rfl
  · exact .inl rfl

/-- **A verdict that stops reports a rule that does**, or a deferral past the window. -/
theorem evaluate_stop {ctx : StoppingContext} {v : StoppingVerdict} {quiet : RuleResult}
    (h : evaluate ctx = .ok v) (hquiet : s09QuietHours ctx = .ok quiet)
    (hstop : v.decision = .stop) :
    ∃ r, v.blockingRule = some r.rule ∧ v.terminalStatus = r.terminalStatus ∧
      r.decision = .stop ∧ (r ∈ ruleResults ctx quiet ∨ r.Outlasts) := by
  obtain ⟨r, hfind, hblocking, hterminal⟩ :=
    (evaluate_verdictOf h hquiet).summary.blocking hstop
  refine ⟨r, hblocking, hterminal, by simpa using List.find?_some hfind, ?_⟩
  obtain ⟨quiet', hquiet', rfl⟩ := evaluate_eq_ok h
  obtain rfl : quiet' = quiet := Except.ok.inj (hquiet'.symm.trans hquiet)
  have hmem := List.mem_of_find?_eq_some hfind
  -- one of the twelve stopped, or the hold outlasts the window
  rcases combine_results ctx (ruleResults ctx quiet') with hresults | ⟨x, hx, hresults⟩
  · exact .inl (hresults ▸ hmem)
  · rw [hresults] at hmem
    rcases List.mem_append.mp hmem with hmem | hmem
    · exact .inl hmem
    · exact .inr (List.mem_singleton.mp hmem ▸ hx)

/-- **A verdict that stops a case closes it.** -/
theorem evaluate_stop_terminal {ctx : StoppingContext} {v : StoppingVerdict}
    (h : evaluate ctx = .ok v) (hstop : v.decision = .stop) :
    ∃ status, v.terminalStatus = some status ∧ status.isTerminal = true := by
  obtain ⟨quiet, hquiet, -⟩ := evaluate_eq_ok h
  obtain ⟨r, -, hterminal, hrstop, hr⟩ := evaluate_stop h hquiet hstop
  rw [hterminal]
  rcases hr with hr | hr
  · exact ruleResults_closing hquiet hr hrstop
  · exact ⟨.expired, hr.expired, rfl⟩

/-- The detail a reviewer is shown for S-06 is the rule's own. -/
theorem blockingDetail_window {ctx : StoppingContext} {v : StoppingVerdict}
    (h : evaluate ctx = .ok v) (hblocking : v.blockingRule = some .s06RecoveryWindow) :
    blockingDetail v = (s06RecoveryWindow ctx).detail := by
  obtain ⟨quiet, hquiet, hv⟩ := evaluate_eq_ok h
  obtain ⟨rest, hrest⟩ := (evaluate_verdictOf h hquiet).summary.carried
  have hfind : v.results.find? (fun r => some r.rule = v.blockingRule) =
      some (s06RecoveryWindow ctx) := by
    rw [← hrest, hblocking]
    simp [ruleResults, (s12_of ctx).signed, (s01_of ctx).signed,
      (s07_of ctx).signed, (s06_of ctx).signed]
  unfold blockingDetail
  rw [hfind]

end AegisMerchant
