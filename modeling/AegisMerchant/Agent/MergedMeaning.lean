import AegisMerchant.Llm.Routing

/-!
# What a merged diagnosis means

The rule table says what a category means for recovery. The merge takes the category of the model
and most flags of the rule, so the two have to mean the same.

`mergeDiagnosis_means_iff` is about the merge, `diagnose_means_iff` about the diagnosis; a rail
fault named where nothing is known is the exception in `not_diagnose_means`.
-/

namespace AegisMerchant

/-- The model's category means for a retry and a discount what the rule's means; a dead mandate
stays one; and a risk block that the rule does not see is not called recoverable. -/
structure DiagnosisOutput.Fits (output : DiagnosisOutput) (rule : FailureCategory) : Prop where
  retry : (implications rule).retrySameRail = (implications output.category).retrySameRail
  discount :
    (implications rule).discountCouldHelp = (implications output.category).discountCouldHelp
  mandate : rule = .mandateInvalid → output.category = .mandateInvalid
  risk : output.category = .riskBlocked → rule = .riskBlocked ∨ output.isRecoverable = false

theorem mergeDiagnosis_means_iff {rule : Diagnosis} (hrule : rule.Means) (output : DiagnosisOutput)
    (source : LLMSource) :
    (mergeDiagnosis rule output source).Means ↔ output.Fits rule.category := by
  have hreauth : (rule.requiresReauth || decide (output.category = .mandateInvalid)) =
      (implications output.category).requiresReauth ↔
        (rule.category = .mandateInvalid → output.category = .mandateInvalid) := by
    rw [hrule.reauth]
    cases rule.category <;> cases output.category <;> decide
  have hrecoverable : ((output.isRecoverable && decide (rule.category ≠ .riskBlocked)) = true →
      (implications output.category).isRecoverable = true) ↔
        (output.category = .riskBlocked →
          rule.category = .riskBlocked ∨ output.isRecoverable = false) := by
    cases output.isRecoverable <;> cases rule.category <;> cases output.category <;> decide
  constructor
  · intro h
    exact ⟨hrule.retry.symm.trans h.retry, hrule.discount.symm.trans h.discount,
      hreauth.mp h.reauth, hrecoverable.mp h.recoverable⟩
  · intro h
    exact ⟨hrule.retry.trans h.retry, hreauth.mpr h.mandate, hrule.discount.trans h.discount,
      hrecoverable.mpr h.risk⟩

/-- **The diagnosis means what its category means exactly when the model, where it is asked, names
one that fits the rule's.** -/
theorem diagnose_means_iff (context : LlmContext) (adapter : Option (Adapter Id)) :
    (Id.run (diagnose context adapter)).diagnosis.Means ↔
      ∀ complete ∈ adapter, (ruleDiagnosis context).needsLlmReview = true →
        ∀ output, (Id.run (complete .diagnose context)).output = .diagnosis output →
          output.Fits (ruleDiagnosis context).category := by
  have hrule := (ruleDiagnosis_built context).means
  cases adapter with
  | none => exact iff_of_true hrule (by simp)
  | some complete =>
    unfold diagnose
    cases hreview : (ruleDiagnosis context).needsLlmReview with
    | false =>
      simp only [hreview]
      exact iff_of_true hrule (by simp)
    | true =>
      simp only [hreview, if_true, Option.mem_some_iff, forall_eq', forall_const]
      show (routeAnswer (ruleDiagnosis context) (complete .diagnose context).run).diagnosis.Means ↔ _
      generalize (complete .diagnose context).run = result
      unfold routeAnswer
      cases houtput : result.output with
      | diagnosis output =>
        simp only [StructuredOutput.diagnosis.injEq, forall_eq']
        exact mergeDiagnosis_means_iff hrule output result.source
      | proposal output | other => exact iff_of_true hrule (by simp)

/-- A model that answers one diagnosis, live. -/
def answering (output : DiagnosisOutput) : Adapter Id := fun _ _ =>
  { output := .diagnosis output, source := .live }

def silentContext : LlmContext where
  playbook := "PAYMENT_FAILURE"
  errorSource := none
  errorStep := none
  errorReason := none
  method := none
  customerLtvPaise := 0
  customerPriorOrders := 0
  amountPaise := 250000

def railFaultOutput : DiagnosisOutput where
  category := .railFault
  isRecoverable := true
  confidence := 9 / 10
  reasoning := "bank unavailable"
  confidence_nonneg := by norm_num
  confidence_le := by norm_num
  reasoning_length := by decide
  reasoning_ne := by decide

/-- What nothing is known of may be retried on its rail, and so may a rail fault that a model
named. -/
theorem not_diagnose_means :
    ¬∀ (context : LlmContext) (adapter : Option (Adapter Id)),
      (Id.run (diagnose context adapter)).diagnosis.Means := by
  intro h
  have hretry := (h silentContext (some (answering railFaultOutput))).retry
  revert hretry
  decide +kernel

end AegisMerchant
