import AegisMerchant.Agent.Nodes

/-!
# What becomes of a risk block

The rule table's `RISK_BLOCKED` reaches the proposal unless the case is an abandoned checkout, whose
rule never looks at the telemetry, or the model is asked for a second opinion and names another
category. Nodes are run here in the identity monad: the model's answers are a function.

`riskBlocked_noAction_iff` is the whole of it, and `not_riskBlocked_noAction` a risk block that a
second opinion overrules.
-/

namespace AegisMerchant

open Numeric

variable (s : RecoveryState) (deps : AgentDeps Id)

/-- The diagnosis the model is asked for and gives in a usable form, with its provenance. It is
asked only within the call budget and when the rule table is unsure. -/
def modelDiagnosis : Option (DiagnosisOutput × LLMSource) :=
  match deps.adapter with
  | none => none
  | some complete =>
    if s.llmCalls < deps.maxLlmCalls ∧ (ruleDiagnosis (llmContext s)).needsLlmReview = true then
      match (complete .diagnose (llmContext s)).output with
      | .diagnosis o => some (o, (complete .diagnose (llmContext s)).source)
      | _ => none
    else none

/-- The diagnosis STRATEGISE starts from. -/
def settledDiagnosis : Diagnosis :=
  match modelDiagnosis s deps with
  | none => ruleDiagnosis (llmContext s)
  | some (o, source) => mergeDiagnosis (ruleDiagnosis (llmContext s)) o source

/-- The model calls made by then. -/
def settledCalls : ℤ :=
  match modelDiagnosis s deps with
  | none => s.llmCalls
  | some (_, source) => s.llmCalls + (if source.isModel then 1 else 0)

/-- No usable second opinion replaces the block: the rule that looked at the telemetry stands, or
the model agrees with it. -/
def BlockStands : Prop :=
  match modelDiagnosis s deps with
  | none => s.playbook ≠ .checkoutAbandon
  | some (o, _) => o.category = .riskBlocked

/-- The model, asked for a strategy within the budget, proposes to do nothing and the playbook has
no objection. It is not asked about a mandate its own diagnosis declared dead. -/
def ModelDeclines : Prop :=
  (∀ o source, modelDiagnosis s deps = some (o, source) → o.category ≠ .mandateInvalid) ∧
    settledCalls s deps < deps.maxLlmCalls ∧
    ∃ complete o, deps.adapter = some complete ∧
      (complete .strategise (strategyContext (settledDiagnosis s deps) s)).output = .proposal o ∧
      o.strategy = .noAction ∧ (0 < o.discountPct → s.playbook.discountPermitted = true)

/-! ## One node after the other -/

/-- What DIAGNOSE leaves behind. -/
theorem diagnose_settled :
    (diagnose (llmContext s)
        (if s.llmCalls < deps.maxLlmCalls then deps.adapter else none)).diagnosis =
      settledDiagnosis s deps ∧
    s.llmCalls + (if (diagnose (llmContext s)
        (if s.llmCalls < deps.maxLlmCalls then deps.adapter else none)).consultedModel
      then 1 else 0) = settledCalls s deps := by
  unfold settledDiagnosis settledCalls modelDiagnosis
  cases hadapter : deps.adapter with
  | none =>
    simp only [ite_self, diagnose]
    exact ⟨rfl, by simp [pure]⟩
  | some complete =>
    by_cases hcalls : s.llmCalls < deps.maxLlmCalls
    -- the model is asked under the ceiling, on a rule that wants its review
    · by_cases hreview : (ruleDiagnosis (llmContext s)).needsLlmReview = true
      · simp only [hcalls, if_true, diagnose, hreview, true_and]
        show (routeAnswer _ (complete .diagnose (llmContext s))).diagnosis = _ ∧
          s.llmCalls + (if (routeAnswer _ (complete .diagnose (llmContext s))).consultedModel
            then 1 else 0) = _
        unfold routeAnswer
        cases (complete .diagnose (llmContext s)).output <;> simp
      · simp only [hcalls, if_true, diagnose, hreview]
        exact ⟨rfl, by simp [pure]⟩
    · simp only [hcalls, if_false, diagnose, false_and]
      exact ⟨rfl, by simp [pure]⟩

/-- The state DIAGNOSE hands on, as far as STRATEGISE reads it. -/
theorem diagnoseNode_settled :
    (diagnoseNode s deps).diagnosis = some (settledDiagnosis s deps) ∧
      (diagnoseNode s deps).llmCalls = settledCalls s deps ∧
      (diagnoseNode s deps).playbook = s.playbook ∧
      llmContext (diagnoseNode s deps) = llmContext s ∧
      (diagnoseNode s deps).railAlternative = s.railAlternative := by
  obtain ⟨hd, hc⟩ := diagnose_settled s deps
  exact ⟨congrArg some hd, hc, rfl, rfl, rfl⟩

theorem strategiseNode_proposal :
    (strategiseNode s deps).proposal = some (propose s deps).1 := rfl

/-- The playbook's own answer does nothing exactly on a risk block. -/
theorem fallbackProposal_eq_noAction_iff (d : Diagnosis) :
    (fallbackProposal d s).strategy = .noAction ↔ d.category = .riskBlocked := by
  unfold fallbackProposal
  rw [selectStrategy_eq_noAction_iff]
  simp

/-- What a model's answer proposes, on a diagnosis that is neither blocked nor dead. -/
theorem proposalOfAnswer_eq_noAction_iff {d : Diagnosis} (hd : d.category ≠ .riskBlocked)
    (result : StructuredResult) :
    (proposalOfAnswer d s result).strategy = .noAction ↔
      ∃ o, result.output = .proposal o ∧ o.strategy = .noAction ∧
        (0 < o.discountPct → s.playbook.discountPermitted = true) := by
  -- the playbook's own answer is never NO_ACTION here
  have hfall : (fallbackProposal d s).strategy ≠ .noAction :=
    mt (fallbackProposal_eq_noAction_iff s d).mp hd
  unfold proposalOfAnswer
  cases hout : result.output with
  | diagnosis o => simp [hfall]
  | other => simp [hfall]
  | proposal o =>
    simp only [StructuredOutput.proposal.injEq, exists_eq_left']
    cases hv : violations s.playbook o.strategy o.discountPct d.requiresReauth with
    -- forbidden by the playbook: the fallback answers
    | cons problem rest =>
      simp only
      refine iff_of_false hfall ?_
      rintro ⟨hs, hp⟩
      rw [hs, (violations_noAction _ _ _).mpr hp] at hv
      cases hv
    | nil =>
      simp only
      refine ⟨fun hs => ⟨hs, ?_⟩, fun h => h.1⟩
      rw [hs] at hv
      exact (violations_noAction _ _ _).mp hv

/-- What is proposed on a diagnosis: nothing on a risk block, else what the model declines. -/
theorem propose_eq_noAction_iff {d : Diagnosis} (hd : s.diagnosis = some d)
    (hreauth : d.requiresReauth = true → d.category ≠ .riskBlocked) :
    (propose s deps).1.strategy = .noAction ↔
      d.category = .riskBlocked ∨
        (d.requiresReauth = false ∧ s.llmCalls < deps.maxLlmCalls ∧
          ∃ complete o, deps.adapter = some complete ∧
            (complete .strategise (strategyContext d s)).output = .proposal o ∧
            o.strategy = .noAction ∧
            (0 < o.discountPct → s.playbook.discountPermitted = true)) := by
  unfold propose
  rw [hd]
  simp only
  -- the branches of STRATEGISE in their order
  by_cases hr : d.requiresReauth = true
  · simp only [hr, if_true]
    show (fallbackProposal d s).strategy = _ ↔ _
    rw [fallbackProposal_eq_noAction_iff]
    simp [hreauth hr]
  · by_cases hb : d.category = .riskBlocked
    · simp only [hr, hb, if_true]
      exact iff_of_true rfl (.inl trivial)
    · have hfall : (fallbackProposal d s).strategy ≠ .noAction :=
        mt (fallbackProposal_eq_noAction_iff s d).mp hb
      cases hadapter : deps.adapter with
      | none =>
        simp only [hr, hb, if_false]
        show (fallbackProposal d s).strategy = _ ↔ _
        simp [hfall]
      | some complete =>
        by_cases hcalls : s.llmCalls < deps.maxLlmCalls
        · simp only [hr, hb, hcalls, if_true, if_false]
          show (proposalOfAnswer d s (complete .strategise (strategyContext d s))).strategy = _ ↔ _
          rw [proposalOfAnswer_eq_noAction_iff s hb]
          simp
        · simp only [hr, hb, hcalls, if_false]
          show (fallbackProposal d s).strategy = _ ↔ _
          simp [hfall]

/-! ## The two nodes together -/

/-- The rule table's diagnosis of a risk-blocked telemetry, or of an abandoned checkout, asks for
no re-authorisation. -/
theorem ruleDiagnosis_requiresReauth
    (h : (classify s.errorSource s.errorStep s.errorReason s.method).category = .riskBlocked) :
    (ruleDiagnosis (llmContext s)).requiresReauth = false := by
  unfold ruleDiagnosis
  split
  · exact classifyAbandonedCheckout_requiresReauth _ _ _
  · show (classify s.errorSource s.errorStep s.errorReason s.method).requiresReauth = false
    rw [classify_requiresReauth, h]
    rfl

/-- The rule table says risk block unless the playbook keeps it from looking. -/
theorem ruleDiagnosis_category_iff
    (h : (classify s.errorSource s.errorStep s.errorReason s.method).category = .riskBlocked) :
    (ruleDiagnosis (llmContext s)).category = .riskBlocked ↔ s.playbook ≠ .checkoutAbandon := by
  have hvalue : (llmContext s).playbook = "CHECKOUT_ABANDON" ↔ s.playbook = .checkoutAbandon := by
    show s.playbook.value = _ ↔ _
    cases s.playbook <;> decide
  unfold ruleDiagnosis
  split
  · next hp =>
      refine iff_of_false ?_ (not_not_intro (hvalue.mp hp))
      rcases classifyAbandonedCheckout_category (llmContext s).customerLtvPaise
        (llmContext s).customerPriorOrders (llmContext s).amountPaise with hc | hc <;>
        · rw [hc]
          decide
  · next hp => exact iff_of_true h (mt hvalue.mpr hp)

theorem settledDiagnosis_requiresReauth
    (h : (classify s.errorSource s.errorStep s.errorReason s.method).category = .riskBlocked) :
    (settledDiagnosis s deps).requiresReauth = true ↔
      ∃ o source, modelDiagnosis s deps = some (o, source) ∧ o.category = .mandateInvalid := by
  have hrule := ruleDiagnosis_requiresReauth s h
  unfold settledDiagnosis
  cases hm : modelDiagnosis s deps with
  | none => simp [hrule]
  | some answer =>
    obtain ⟨o, source⟩ := answer
    simp [mergeDiagnosis, hrule]

theorem settledDiagnosis_category_iff
    (h : (classify s.errorSource s.errorStep s.errorReason s.method).category = .riskBlocked) :
    (settledDiagnosis s deps).category = .riskBlocked ↔ BlockStands s deps := by
  unfold settledDiagnosis BlockStands
  cases hm : modelDiagnosis s deps with
  | none => exact ruleDiagnosis_category_iff s h
  | some answer => rfl

/-- **A risk block ends in no action exactly when it stands, or the model declines by itself.** -/
theorem riskBlocked_noAction_iff (s : RecoveryState) (deps : AgentDeps Id)
    (h : (classify s.errorSource s.errorStep s.errorReason s.method).category = .riskBlocked) :
    ((do strategiseNode (← diagnoseNode s deps) deps : Id RecoveryState).proposal.map
        (·.strategy)) = some .noAction ↔
      BlockStands s deps ∨ ModelDeclines s deps := by
  obtain ⟨hd, hcalls, hplay, hctx, hrail⟩ := diagnoseNode_settled s deps
  show (strategiseNode (diagnoseNode s deps) deps).proposal.map (·.strategy) = _ ↔ _
  rw [strategiseNode_proposal, Option.map_some, Option.some.injEq]
  have hreauth := settledDiagnosis_requiresReauth s deps h
  -- to ask for a new mandate the model must have changed the category
  have hexcl : (settledDiagnosis s deps).requiresReauth = true →
      (settledDiagnosis s deps).category ≠ .riskBlocked := by
    intro hr
    obtain ⟨o, source, hm, ho⟩ := hreauth.mp hr
    unfold settledDiagnosis
    rw [hm]
    simp [mergeDiagnosis, ho]
  have hstrategy : strategyContext (settledDiagnosis s deps) (diagnoseNode s deps) =
      strategyContext (settledDiagnosis s deps) s := by
    unfold strategyContext
    rw [hctx, hrail]
  rw [propose_eq_noAction_iff _ deps hd hexcl, settledDiagnosis_category_iff s deps h, hcalls,
    hplay, hstrategy]
  refine or_congr_right (and_congr_left' ?_)
  rw [← Bool.not_eq_true, hreauth]
  push Not
  rfl

/-- The telemetry of a merchant's own risk rules rejecting a payment. -/
def businessState : RecoveryState where
  caseId := "RC-0023"
  merchantId := "mch_1"
  customerId := "cus_1"
  playbook := .paymentFailure
  errorSource := some "business"

def silentDeps : AgentDeps Id where
  now := { utc := 0 }

theorem riskBlocked_noAction_business :
    ((do strategiseNode (← diagnoseNode businessState silentDeps) silentDeps :
        Id RecoveryState).proposal.map (·.strategy)) = some .noAction :=
  (riskBlocked_noAction_iff businessState silentDeps (by decide +kernel)).mpr
    (.inl (show businessState.playbook ≠ .checkoutAbandon by decide))

/-! What the adapter answers is within the two schemas. -/

theorem nineTenths_nonneg : (0 : ℚ) ≤ 9 / 10 := by norm_num

theorem nineTenths_le : (9 / 10 : ℚ) ≤ 1 := by norm_num

theorem length_outage : "bank outage".length ≤ 240 := by decide

theorem strip_outage : Text.strip "bank outage" ≠ "" := by decide

theorem noDiscount_nonneg : (0 : ℚ) ≤ 0 := le_rfl

theorem noDiscount_le : (0 : ℚ) ≤ 100 := by norm_num

theorem halfHour_pos : (1 : ℤ) ≤ 30 := by decide

theorem halfHour_le : (30 : ℤ) ≤ 10080 := by decide

theorem length_retry : "retry".length ≤ 240 := by decide

/-- An adapter that reads every failure as a rail fault and asks for a fresh link. -/
def eagerAdapter : Adapter Id := fun task _ =>
  match task with
  | .diagnose =>
    { output := .diagnosis ⟨.railFault, true, 9 / 10, "bank outage", nineTenths_nonneg,
        nineTenths_le, length_outage, strip_outage⟩
      source := .live }
  | _ =>
    { output := .proposal ⟨.freshLinkSameRail, 0, 30, .whatsapp, .transactional, "retry",
        noDiscount_nonneg, noDiscount_le, halfHour_pos, halfHour_le, length_retry⟩
      source := .live }

/-- The telemetry of a bank refusing an authorization on suspicion of fraud: the rule table takes
the reason, but reports the conflict with the step. -/
def conflictingState : RecoveryState where
  caseId := "RC-0023"
  merchantId := "mch_1"
  customerId := "cus_1"
  playbook := .paymentFailure
  amountPaise := 250000
  errorSource := some "bank"
  errorStep := some "payment_authorization"
  errorReason := some "suspected_fraud"

/-- The model's category replaces the block, and a link is proposed. -/
theorem not_riskBlocked_noAction :
    ¬∀ (s : RecoveryState) (deps : AgentDeps Id),
      (classify s.errorSource s.errorStep s.errorReason s.method).category = .riskBlocked →
        ((do strategiseNode (← diagnoseNode s deps) deps : Id RecoveryState).proposal.map
          (·.strategy)) = some .noAction := fun h => by
  have hno := h conflictingState { silentDeps with adapter := some eagerAdapter }
    (by decide +kernel)
  revert hno
  decide +kernel

end AegisMerchant
