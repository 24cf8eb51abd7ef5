import AegisMerchant.Guardrails.StoppingRules

/-!
# What the twelve results add up to

The loop of `evaluate` takes the most severe decision, so a single `STOP` settles the outcome, and
it merges the degradations of the only two rules that can degrade.
-/

namespace AegisMerchant

open Time Numeric

/-! ## The loop -/

theorem Decision.severity_le (d : Decision) : d.severity ≤ 3 := by cases d <;> decide

theorem Decision.eq_stop_of_severity {d : Decision} (h : 3 ≤ d.severity) : d = .stop := by
  cases d <;> simp_all [severity]

/-- One turn of the loop keeps the greater severity. -/
theorem absorb_severity (m : Merged) (r : RuleResult) :
    (m.absorb r).decision.severity = max m.decision.severity r.decision.severity := by
  unfold Merged.absorb
  simp only
  split
  · simp only
    omega
  · split
    · split <;> simp only <;> omega
    · simp only
      omega

/-- One turn of the loop merges what a degrading rule changes. -/
theorem absorb_degradations (m : Merged) (r : RuleResult) :
    (m.absorb r).degradations =
      if r.decision = .degrade then m.degradations.update r.degrade else m.degradations := by
  unfold Merged.absorb
  simp only
  split
  · rfl
  · split
    · split <;> rfl
    · rfl

/-- The loop ends at least as severe as every result it saw. -/
theorem severity_le_foldl {r : RuleResult} :
    ∀ {results : List RuleResult} {m : Merged},
      r ∈ results ∨ r.decision.severity ≤ m.decision.severity →
        r.decision.severity ≤ (results.foldl Merged.absorb m).decision.severity
  | [], m, h => by simpa using h
  | x :: rest, m, h => by
    rw [List.foldl_cons]
    refine severity_le_foldl ?_
    rw [absorb_severity]
    rcases h with h | h
    · rcases List.mem_cons.mp h with rfl | h
      · exact .inr (le_max_right _ _)
      · exact .inl h
    · exact .inr (le_trans h (le_max_left _ _))

/-- The degradations of a list of results, in order. -/
def degradationsOf (results : List RuleResult) : Degradations :=
  results.foldl (fun d r => if r.decision = .degrade then d.update r.degrade else d) {}

theorem foldl_degradations (results : List RuleResult) (m : Merged) :
    (results.foldl Merged.absorb m).degradations =
      results.foldl (fun d r => if r.decision = .degrade then d.update r.degrade else d)
        m.degradations := by
  induction results generalizing m with
  | nil => rfl
  | cons r rest ih => rw [List.foldl_cons, List.foldl_cons, ih, absorb_degradations]

/-! ## After the loop -/

@[simp] theorem forward_degradations (m : Merged) (now : DateTime) :
    (m.forward now).degradations = m.degradations := by
  unfold Merged.forward
  split
  · split <;> rfl
  · rfl

theorem forward_eq_of_stop {m : Merged} (h : m.decision = .stop) (now : DateTime) :
    m.forward now = m := by
  unfold Merged.forward
  split
  · simp [h]
  · rfl

@[simp] theorem verdict_degradations (m : Merged) (ctx : StoppingContext)
    (results : List RuleResult) : (m.verdict ctx results).degradations = m.degradations := by
  unfold Merged.verdict
  simp only
  split
  · split <;> rfl
  · rfl

theorem verdict_decision_of_stop {m : Merged} (h : m.decision = .stop) (ctx : StoppingContext)
    (results : List RuleResult) : (m.verdict ctx results).decision = .stop := by
  unfold Merged.verdict
  simp only
  split
  · split <;> simp [h]
  · exact h

/-- The degradations of the verdict are those of the results. -/
theorem combine_degradations (ctx : StoppingContext) (results : List RuleResult) :
    (combine ctx results).degradations = degradationsOf results := by
  rw [combine, verdict_degradations, forward_degradations, foldl_degradations]
  rfl

/-- One `STOP` settles the verdict. -/
theorem combine_decision_of_stop {ctx : StoppingContext} {results : List RuleResult}
    {r : RuleResult} (hmem : r ∈ results) (hr : r.decision = .stop) :
    (combine ctx results).decision = .stop := by
  have hsev := severity_le_foldl (m := {}) (.inl hmem)
  rw [hr] at hsev
  have hstop := Decision.eq_stop_of_severity hsev
  rw [combine, forward_eq_of_stop hstop]
  exact verdict_decision_of_stop hstop _ _

/-! ## Which rules degrade -/

/-- The context asks for a marketing message its consents do not allow. -/
def ClassRefused (ctx : StoppingContext) : Prop :=
  ctx.isOutboundContact = true ∧ ctx.proposedMessageClass = .marketing ∧
    (ctx.marketingConsent = false ∨ ctx.dndRegistered = true)

instance (ctx : StoppingContext) : Decidable (ClassRefused ctx) := by
  unfold ClassRefused; infer_instance

/-- The context asks for a discount beyond the discount-bearing attempts allowed. -/
def DiscountRefused (ctx : StoppingContext) : Prop :=
  ¬ctx.proposedDiscountPct.Le (.fin 0) ∧
    ctx.policy.maxDiscountBearingAttempts ≤ ctx.discountBearingAttempts

instance (ctx : StoppingContext) : Decidable (DiscountRefused ctx) := by
  unfold DiscountRefused; infer_instance

theorem s01_ne_degrade (ctx : StoppingContext) : (s01AlreadyResolved ctx).decision ≠ .degrade := by
  unfold s01AlreadyResolved
  simp only
  split
  · simp
  · split <;> simp

theorem s02_ne_degrade (ctx : StoppingContext) : (s02AttemptBudget ctx).decision ≠ .degrade := by
  unfold s02AttemptBudget
  simp only
  split <;> simp

theorem s04_ne_degrade (ctx : StoppingContext) : (s04ContactCap24h ctx).decision ≠ .degrade := by
  unfold s04ContactCap24h
  split
  · simp
  · split
    · simp
    · split
      · simp
      · simp only
        split <;> simp

theorem s05_ne_degrade (ctx : StoppingContext) : (s05ContactCap48h ctx).decision ≠ .degrade := by
  unfold s05ContactCap48h
  split
  · simp
  · split <;> simp

theorem s06_ne_degrade (ctx : StoppingContext) : (s06RecoveryWindow ctx).decision ≠ .degrade := by
  unfold s06RecoveryWindow
  split
  · split <;> simp
  · simp

theorem s07_ne_degrade (ctx : StoppingContext) : (s07OptOut ctx).decision ≠ .degrade := by
  unfold s07OptOut
  split <;> simp

theorem s09_ne_degrade {ctx : StoppingContext} {r : RuleResult}
    (h : s09QuietHours ctx = .ok r) : r.decision ≠ .degrade := by
  unfold s09QuietHours at h
  split at h
  · cases h; simp
  · split at h
    · cases h; simp
    · split at h
      · cases h
      · cases h; simp

theorem s10_ne_degrade (ctx : StoppingContext) : (s10PromiseFreeze ctx).decision ≠ .degrade := by
  unfold s10PromiseFreeze
  split
  · simp only
    split <;> simp
  · simp

theorem s11_ne_degrade (ctx : StoppingContext) : (s11MerchantBudget ctx).decision ≠ .degrade := by
  unfold s11MerchantBudget
  split
  · simp
  · split <;> simp

theorem s12_ne_degrade (ctx : StoppingContext) : (s12KillSwitch ctx).decision ≠ .degrade := by
  unfold s12KillSwitch
  split <;> simp

/-- S-08 degrades exactly a refused class that may go out as transactional. -/
theorem s08_eq_degrade_iff (ctx : StoppingContext) :
    (s08ConsentClass ctx).decision = .degrade ↔
      ClassRefused ctx ∧ ctx.transactionalConsent = true := by
  unfold s08ConsentClass ClassRefused
  split
  · simp_all
  · split
    · simp only
      split <;> simp_all
    · split <;> simp_all

theorem s08_degrade {ctx : StoppingContext} (h : (s08ConsentClass ctx).decision = .degrade) :
    (s08ConsentClass ctx).degrade =
      { discountPct := some 0, messageClass := some .transactional } := by
  unfold s08ConsentClass at h ⊢
  split
  · simp_all
  · split
    · simp only
      split <;> simp_all
    · split <;> simp_all

/-- S-08 stops a refused class that may not go out as transactional either. -/
theorem s08_eq_stop {ctx : StoppingContext} (h : ClassRefused ctx)
    (ht : ctx.transactionalConsent = false) : (s08ConsentClass ctx).decision = .stop := by
  obtain ⟨hout, hclass⟩ := h
  simp [s08ConsentClass, hout, hclass, ht]

/-- S-03 degrades exactly a refused discount. -/
theorem s03_eq_degrade_iff (ctx : StoppingContext) :
    (s03DiscountAttemptBudget ctx).decision = .degrade ↔ DiscountRefused ctx := by
  unfold s03DiscountAttemptBudget DiscountRefused
  split
  · simp_all
  · simp only
    split <;> simp_all

theorem s03_degrade {ctx : StoppingContext}
    (h : (s03DiscountAttemptBudget ctx).decision = .degrade) :
    (s03DiscountAttemptBudget ctx).degrade = { discountPct := some 0 } := by
  unfold s03DiscountAttemptBudget at h ⊢
  split
  · simp_all
  · simp only
    split <;> simp_all

/-! ## The verdict of `evaluate` -/

/-- `evaluate` combines the twelve results, or raises with S-09. -/
theorem evaluate_eq_ok {ctx : StoppingContext} {v : StoppingVerdict} (h : evaluate ctx = .ok v) :
    ∃ quiet, s09QuietHours ctx = .ok quiet ∧ v = combine ctx (ruleResults ctx quiet) := by
  unfold evaluate at h
  cases hq : s09QuietHours ctx with
  | error e => simp [hq, bind, Except.bind] at h
  | ok quiet =>
    simp only [hq, bind, Except.bind, pure, Except.pure, Except.ok.injEq] at h
    exact ⟨quiet, rfl, h.symm⟩

/-- What the verdict strips: the discount when S-03 or S-08 says so, the class when S-08 does. -/
theorem evaluate_degradations {ctx : StoppingContext} {v : StoppingVerdict}
    (h : evaluate ctx = .ok v) :
    v.degradations =
      { discountPct :=
          if DiscountRefused ctx ∨ (ClassRefused ctx ∧ ctx.transactionalConsent = true) then
            some 0 else none
        messageClass :=
          if ClassRefused ctx ∧ ctx.transactionalConsent = true then
            some .transactional else none } := by
  obtain ⟨quiet, hq, rfl⟩ := evaluate_eq_ok h
  rw [combine_degradations]
  -- ten of the twelve results leave the accumulator alone
  simp only [degradationsOf, ruleResults, List.foldl_cons, List.foldl_nil, s12_ne_degrade,
    s01_ne_degrade, s07_ne_degrade, s06_ne_degrade, s02_ne_degrade, s11_ne_degrade,
    s05_ne_degrade, s10_ne_degrade, s04_ne_degrade, s09_ne_degrade hq, if_false]
  -- what is left is what S-08 and S-03 say, each alone or both
  by_cases h8 : (s08ConsentClass ctx).decision = .degrade <;>
    by_cases h3 : (s03DiscountAttemptBudget ctx).decision = .degrade
  · have := (s08_eq_degrade_iff ctx).mp h8
    simp [h8, h3, s08_degrade h8, s03_degrade h3, this, Degradations.update]
  · have := (s08_eq_degrade_iff ctx).mp h8
    simp [h8, h3, s08_degrade h8, this, Degradations.update]
  · have h8' := mt (s08_eq_degrade_iff ctx).mpr h8
    have := (s03_eq_degrade_iff ctx).mp h3
    simp [h8, h3, s03_degrade h3, h8', this, Degradations.update]
  · have h8' := mt (s08_eq_degrade_iff ctx).mpr h8
    have := mt (s03_eq_degrade_iff ctx).mpr h3
    simp [h8, h3, h8', this]

/-- A verdict that does not stop has left a refused class a transactional way out. -/
theorem evaluate_transactionalConsent {ctx : StoppingContext} {v : StoppingVerdict}
    (h : evaluate ctx = .ok v) (hv : v.decision ≠ .stop) (hc : ClassRefused ctx) :
    ctx.transactionalConsent = true := by
  obtain ⟨quiet, hq, rfl⟩ := evaluate_eq_ok h
  by_contra ht
  have hstop := s08_eq_stop hc (by simpa using ht)
  refine hv (combine_decision_of_stop (r := s08ConsentClass ctx) ?_ hstop)
  simp [ruleResults]

/-- The class an action may still go out with: transactional after a refusal, else the class that
was proposed. -/
theorem evaluate_class {ctx : StoppingContext} {v : StoppingVerdict} (h : evaluate ctx = .ok v)
    (hv : v.decision ≠ .stop) :
    (applyDegradations ctx v).proposedMessageClass =
      if ClassRefused ctx then .transactional else ctx.proposedMessageClass := by
  show v.degradations.messageClass.getD ctx.proposedMessageClass = _
  rw [evaluate_degradations h]
  by_cases hc : ClassRefused ctx
  · simp [hc, evaluate_transactionalConsent h hv hc]
  · simp [hc]

end AegisMerchant
