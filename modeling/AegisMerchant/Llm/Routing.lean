import AegisMerchant.Agent.Classifier

/-!
# How a diagnosis is decided

The strict output schemas of the two tasks the agent asks a model for, the adapter it asks through,
and the routing between the rule table and the model.
-/

namespace AegisMerchant

universe u

/-! ## Output schemas -/

/-- Task 1. The schema's bounds are fields, so an output outside them cannot be built. -/
structure DiagnosisOutput where
  category : FailureCategory
  isRecoverable : Bool
  confidence : ℚ
  reasoning : String
  confidence_nonneg : 0 ≤ confidence
  confidence_le : confidence ≤ 1
  reasoning_length : reasoning.length ≤ 240
  reasoning_ne : Text.strip reasoning ≠ ""

/-- Task 2. -/
structure ProposalOutput where
  strategy : RecoveryStrategy
  discountPct : ℚ
  linkValidityMinutes : ℤ
  channel : Channel
  messageClass : MessageClass
  rationale : String
  discount_nonneg : 0 ≤ discountPct
  discount_le : discountPct ≤ 100
  validity_pos : 1 ≤ linkValidityMinutes
  validity_le : linkValidityMinutes ≤ 10080
  rationale_length : rationale.length ≤ 240

/-- The output of a structured call; `other` is any value that is neither schema's. -/
inductive StructuredOutput where
  | diagnosis (o : DiagnosisOutput)
  | proposal (o : ProposalOutput)
  | other

/-- A model output, plus how it was obtained. -/
structure StructuredResult where
  output : StructuredOutput
  source : LLMSource
  model : Option String := none
  provider : Option String := none
  promptVersion : Option String := none
  cacheKey : Option String := none
  inputTokens : ℤ := 0
  outputTokens : ℤ := 0
  latencyMs : ℤ := 0
  schemaValidFirstTry : Bool := true
  fellBack : Bool := false

/-- Live or cached: the model's own words. -/
def LLMSource.isModel : LLMSource → Bool
  | .live | .cached => true
  | .deterministic => false

/-! ## The adapter -/

structure StrategyContext where
  diagnosisCategory : String
  retrySameRail : Bool
  requiresReauth : Bool
  discountCouldHelp : Bool
  railAlternative : Option String

/-- The redacted view a model is allowed to see. -/
structure LlmContext where
  playbook : String
  errorSource : Option String
  errorStep : Option String
  errorReason : Option String
  method : Option String
  customerLtvPaise : ℤ
  customerPriorOrders : ℤ
  amountPaise : ℤ
  strategy : Option StrategyContext := none

/-- `LLMAdapter.complete_structured`. -/
abbrev Adapter (m : Type → Type u) := LLMTask → LlmContext → m StructuredResult

/-! ## Routing -/

/-- A diagnosis plus an account of where it came from. -/
structure RoutedDiagnosis where
  diagnosis : Diagnosis
  consultedModel : Bool
  modelDisagreed : Bool := false
  modelCategory : Option FailureCategory := none
  llmSource : Option String := none
  latencyMs : ℤ := 0
  result : Option StructuredResult := none

/-- The rule table's answer, which is free and always in hand. -/
def ruleDiagnosis (context : LlmContext) : Diagnosis :=
  if context.playbook = "CHECKOUT_ABANDON" then
    classifyAbandonedCheckout context.customerLtvPaise context.customerPriorOrders
      context.amountPaise
  else
    classify context.errorSource context.errorStep context.errorReason context.method

theorem ruleDiagnosis_built (context : LlmContext) : (ruleDiagnosis context).Built := by
  unfold ruleDiagnosis
  split
  · exact classifyAbandonedCheckout_built _ _ _
  · exact classify_built _ _ _ _

/-- The model's answer merged into the rule's: the category is the model's. -/
def mergeDiagnosis (rule : Diagnosis) (output : DiagnosisOutput) (source : LLMSource) :
    Diagnosis where
  category := output.category
  isRecoverable := output.isRecoverable && rule.category ≠ .riskBlocked
  retrySameRail := rule.retrySameRail
  requiresReauth := rule.requiresReauth || output.category = .mandateInvalid
  discountCouldHelp := rule.discountCouldHelp
  confidence := output.confidence
  reasoning := output.reasoning
  source := if source.isModel then .llm else .deterministicFallback
  signalsConflict := rule.signalsConflict
  missingFields := rule.missingFields

def routeAnswer (rule : Diagnosis) (result : StructuredResult) : RoutedDiagnosis :=
  match result.output with
  | .diagnosis output =>
    let modelAnswered := result.source.isModel
    { diagnosis := mergeDiagnosis rule output result.source
      consultedModel := modelAnswered
      modelDisagreed := output.category ≠ rule.category && modelAnswered
      modelCategory := if modelAnswered then some output.category else none
      llmSource := some result.source.value
      latencyMs := result.latencyMs
      result := some result }
  | _ => { diagnosis := rule, consultedModel := false, result := some result }

/-- Diagnose a failure: the rule table first, the model only where it is unsure. -/
def diagnose {m : Type → Type u} [Monad m] (context : LlmContext) (adapter : Option (Adapter m)) :
    m RoutedDiagnosis :=
  let rule := ruleDiagnosis context
  match adapter with
  | none => pure { diagnosis := rule, consultedModel := false }
  | some complete =>
    if rule.needsLlmReview then do
      let result ← complete .diagnose context
      return routeAnswer rule result
    else pure { diagnosis := rule, consultedModel := false }

end AegisMerchant
