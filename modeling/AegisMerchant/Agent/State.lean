import AegisMerchant.Guardrails.PolicyEngine
import AegisMerchant.Llm.Routing

/-!
# The agent's state container

One value threaded through the nodes. `proposal` is what the model suggested and is never executed;
`policyApplied` is what the firewall authorised and is the only action the execute node reads.
-/

namespace AegisMerchant

open Time

/-- One step of the decision trace: which node, on whose word, when. -/
structure NodeTrace where
  node : String
  provenance : String
  at' : DateTime
  deriving DecidableEq, Repr

/-- One routed decision, and how it was answered. -/
structure LLMCallRecord where
  task : LLMTask
  source : LLMSource
  caseId : Option String := none
  model : Option String := none
  provider : Option String := none
  promptVersion : Option String := none
  cacheKey : Option String := none
  inputTokens : ℤ := 0
  outputTokens : ℤ := 0
  schemaValidFirstTry : Bool := true
  fellBack : Bool := false
  deriving DecidableEq, Repr

/-- Everything one case knows about itself, at one instant. -/
structure RecoveryState where
  caseId : String
  merchantId : String
  customerId : String
  playbook : Playbook
  status : CaseStatus := .detected
  amountPaise : ℤ := 0
  errorSource : Option String := none
  errorStep : Option String := none
  errorReason : Option String := none
  method : Option String := none
  customerFirstName : String := ""
  customerLtvPaise : ℤ := 0
  customerPriorOrders : ℤ := 0
  contacts24h : ℤ := 0
  contacts48h : ℤ := 0
  lastContactAt : Option DateTime := none
  consentTransactional : Bool := true
  consentMarketing : Bool := false
  consentDnd : Bool := false
  consentOptedOut : Bool := false
  autopilotEnabled : Bool := true
  promiseActive : Bool := false
  promisedAt : Option DateTime := none
  actionsToday : ℤ := 0
  discountExposureMtdPaise : ℤ := 0
  orderStatus : Option String := none
  railAlternative : Option String := none
  windowExpiresAt : Option DateTime := none
  experimentArm : Option ExperimentArm := none
  assignmentHash : Option String := none
  diagnosis : Option Diagnosis := none
  consultedModel : Bool := false
  modelDisagreed : Bool := false
  proposal : Option RecoveryProposal := none
  policyVerdict : Option PolicyVerdict := none
  policyApplied : Option AppliedAction := none
  policyToken : Option PolicyToken := none
  policyClamps : List Clamp := []
  policyBlockReasons : List String := []
  stoppingRuleFired : Option StoppingRule := none
  attemptNo : ℤ := 0
  discountBearingAttempts : ℤ := 0
  referenceId : Option String := none
  paymentLinkUrl : Option String := none
  llmLedger : List LLMCallRecord := []
  nodeVisits : ℕ := 0
  llmCalls : ℤ := 0
  trace : List NodeTrace := []
  error : Option String := none
  deriving Repr

/-- Advance the state, recording the step that produced it. -/
def RecoveryState.withTrace (s : RecoveryState) (entry : NodeTrace) : RecoveryState :=
  { s with trace := s.trace ++ [entry], nodeVisits := s.nodeVisits + 1 }

def RecoveryState.isTerminal (s : RecoveryState) : Bool := s.status.isTerminal

end AegisMerchant
