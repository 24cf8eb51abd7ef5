import Mathlib.Data.List.Basic

/-!
# Domain enumerations

Every enumeration of `db/enums.py` the model reads. `value` is the member's text, as the database
and the JSON payloads hold it; `ofValue?` is the lookup `Enum(text)`, none standing for its
`ValueError`.
-/

namespace AegisMerchant

/-- The member of a list of members that a text is the value of. -/
def memberOf {α : Type} (members : List α) (value : α → String) (s : String) : Option α :=
  members.find? fun m => value m = s

/-- The four revenue leaks. -/
inductive Playbook where
  | paymentFailure | checkoutAbandon | receivable | subscription
  deriving DecidableEq, Repr

def Playbook.value : Playbook → String
  | paymentFailure => "PAYMENT_FAILURE"
  | checkoutAbandon => "CHECKOUT_ABANDON"
  | receivable => "RECEIVABLE"
  | subscription => "SUBSCRIPTION"

def Playbook.members : List Playbook :=
  [.paymentFailure, .checkoutAbandon, .receivable, .subscription]

def Playbook.ofValue? : String → Option Playbook := memberOf members value

@[simp] theorem Playbook.ofValue?_value (m : Playbook) :
    ofValue? m.value = some m := by
  cases m <;> decide

/-- Case lifecycle. Terminal states have no outgoing edge. -/
inductive CaseStatus where
  | detected | triaged | diagnosing | strategyFormed | awaitingApproval | executing | monitoring
  | recovered | resolvedOrganic | observedNoAction | expired | suppressed | rejected
  | failedPermanent
  deriving DecidableEq, Repr

def CaseStatus.value : CaseStatus → String
  | detected => "DETECTED"
  | triaged => "TRIAGED"
  | diagnosing => "DIAGNOSING"
  | strategyFormed => "STRATEGY_FORMED"
  | awaitingApproval => "AWAITING_APPROVAL"
  | executing => "EXECUTING"
  | monitoring => "MONITORING"
  | recovered => "RECOVERED"
  | resolvedOrganic => "RESOLVED_ORGANIC"
  | observedNoAction => "OBSERVED_NO_ACTION"
  | expired => "EXPIRED"
  | suppressed => "SUPPRESSED"
  | rejected => "REJECTED"
  | failedPermanent => "FAILED_PERMANENT"

/-- `TERMINAL_STATUSES`. -/
def CaseStatus.isTerminal : CaseStatus → Bool
  | recovered | resolvedOrganic | observedNoAction | expired | suppressed | rejected
  | failedPermanent => true
  | _ => false

/-- `CONTROL` cases receive no intervention at all. -/
inductive ExperimentArm where
  | treatment | control
  deriving DecidableEq, Repr

def ExperimentArm.value : ExperimentArm → String
  | treatment => "TREATMENT"
  | control => "CONTROL"

/-! ## Errors and their categories -/

/-- Whose fault the provider says a failure was. -/
inductive ErrorSource where
  | customer | business | bank | gateway | internal | nbfc
  deriving DecidableEq, Repr

def ErrorSource.value : ErrorSource → String
  | customer => "customer"
  | business => "business"
  | bank => "bank"
  | gateway => "gateway"
  | internal => "internal"
  | nbfc => "nbfc"

def ErrorSource.members : List ErrorSource :=
  [.customer, .business, .bank, .gateway, .internal, .nbfc]

def ErrorSource.ofValue? : String → Option ErrorSource := memberOf members value

/-- Where in the payment the provider says it failed. -/
inductive ErrorStep where
  | paymentInitiation | paymentAuthentication | paymentAuthorization | paymentResponse
  deriving DecidableEq, Repr

def ErrorStep.value : ErrorStep → String
  | paymentInitiation => "payment_initiation"
  | paymentAuthentication => "payment_authentication"
  | paymentAuthorization => "payment_authorization"
  | paymentResponse => "payment_response"

def ErrorStep.members : List ErrorStep :=
  [.paymentInitiation, .paymentAuthentication, .paymentAuthorization, .paymentResponse]

def ErrorStep.ofValue? : String → Option ErrorStep := memberOf members value

/-- What a diagnosis can conclude. -/
inductive FailureCategory where
  | railFault | insufficientFunds | authenticationAbandoned | mandateInvalid | priceResistance
  | intentDecay | riskBlocked | unknown
  deriving DecidableEq, Repr

def FailureCategory.value : FailureCategory → String
  | railFault => "RAIL_FAULT"
  | insufficientFunds => "INSUFFICIENT_FUNDS"
  | authenticationAbandoned => "AUTHENTICATION_ABANDONED"
  | mandateInvalid => "MANDATE_INVALID"
  | priceResistance => "PRICE_RESISTANCE"
  | intentDecay => "INTENT_DECAY"
  | riskBlocked => "RISK_BLOCKED"
  | unknown => "UNKNOWN"

/-- How a recovery was proven. -/
inductive RecoveryVerifier where
  | webhook | apiReconciliation | simulator
  deriving DecidableEq, Repr

def RecoveryVerifier.value : RecoveryVerifier → String
  | webhook => "WEBHOOK"
  | apiReconciliation => "API_RECONCILIATION"
  | simulator => "SIMULATOR"

/-- Whether a diagnosis came from the model or the rule table. -/
inductive DiagnosisSource where
  | llm | deterministicFallback
  deriving DecidableEq, Repr

def DiagnosisSource.value : DiagnosisSource → String
  | llm => "LLM"
  | deterministicFallback => "DETERMINISTIC_FALLBACK"

/-! ## Actions -/

/-- What an action does. -/
inductive RecoveryStrategy where
  | freshLinkSameRail | freshLinkAltRail | incentivisedLink | invoiceReminder | mandateRetry
  | mandateReauth | staticUpiQr | noAction
  deriving DecidableEq, Repr

def RecoveryStrategy.value : RecoveryStrategy → String
  | freshLinkSameRail => "FRESH_LINK_SAME_RAIL"
  | freshLinkAltRail => "FRESH_LINK_ALT_RAIL"
  | incentivisedLink => "INCENTIVISED_LINK"
  | invoiceReminder => "INVOICE_REMINDER"
  | mandateRetry => "MANDATE_RETRY"
  | mandateReauth => "MANDATE_REAUTH"
  | staticUpiQr => "STATIC_UPI_QR"
  | noAction => "NO_ACTION"

def RecoveryStrategy.members : List RecoveryStrategy :=
  [.freshLinkSameRail, .freshLinkAltRail, .incentivisedLink, .invoiceReminder, .mandateRetry,
   .mandateReauth, .staticUpiQr, .noAction]

def RecoveryStrategy.ofValue? : String → Option RecoveryStrategy := memberOf members value

@[simp] theorem RecoveryStrategy.ofValue?_value (m : RecoveryStrategy) :
    ofValue? m.value = some m := by
  cases m <;> decide

inductive Channel where
  | whatsapp | sms | email | none
  deriving DecidableEq, Repr

def Channel.value : Channel → String
  | whatsapp => "WHATSAPP"
  | sms => "SMS"
  | email => "EMAIL"
  | none => "NONE"

def Channel.members : List Channel :=
  [.whatsapp, .sms, .email, .none]

def Channel.ofValue? : String → Option Channel := memberOf members value

@[simp] theorem Channel.ofValue?_value (m : Channel) :
    ofValue? m.value = some m := by
  cases m <;> decide

/-- A retry link is transactional; an unsolicited offer is marketing and needs opt-in. -/
inductive MessageClass where
  | transactional | marketing
  deriving DecidableEq, Repr

def MessageClass.value : MessageClass → String
  | transactional => "TRANSACTIONAL"
  | marketing => "MARKETING"

def MessageClass.members : List MessageClass :=
  [.transactional, .marketing]

def MessageClass.ofValue? : String → Option MessageClass := memberOf members value

@[simp] theorem MessageClass.ofValue?_value (m : MessageClass) :
    ofValue? m.value = some m := by
  cases m <;> decide

/-- Two ladders: `A*` is authority, `B*` is contact. -/
inductive EscalationRung where
  | a0Autonomous | a1Flagged | a2Approval | a3ApprovalDual | b1FirstTouch | b2SecondTouch
  | b3FormalEmail | b4HumanTask
  deriving DecidableEq, Repr

def EscalationRung.value : EscalationRung → String
  | a0Autonomous => "A0_AUTONOMOUS"
  | a1Flagged => "A1_FLAGGED"
  | a2Approval => "A2_APPROVAL"
  | a3ApprovalDual => "A3_APPROVAL_DUAL"
  | b1FirstTouch => "B1_FIRST_TOUCH"
  | b2SecondTouch => "B2_SECOND_TOUCH"
  | b3FormalEmail => "B3_FORMAL_EMAIL"
  | b4HumanTask => "B4_HUMAN_TASK"

def EscalationRung.members : List EscalationRung :=
  [.a0Autonomous, .a1Flagged, .a2Approval, .a3ApprovalDual, .b1FirstTouch, .b2SecondTouch,
   .b3FormalEmail, .b4HumanTask]

def EscalationRung.ofValue? : String → Option EscalationRung := memberOf members value

@[simp] theorem EscalationRung.ofValue?_value (m : EscalationRung) :
    ofValue? m.value = some m := by
  cases m <;> decide

/-! ## Decisions -/

inductive PolicyVerdict where
  | passed | escalateHitl | blocked
  deriving DecidableEq, Repr

def PolicyVerdict.value : PolicyVerdict → String
  | passed => "PASSED"
  | escalateHitl => "ESCALATE_HITL"
  | blocked => "BLOCKED"

/-- The twelve stopping rules, by their ids. -/
inductive StoppingRule where
  | s01AlreadyResolved | s02AttemptBudget | s03DiscountAttemptBudget | s04ContactCap24h
  | s05ContactCap48h | s06RecoveryWindow | s07OptOut | s08ConsentClass | s09QuietHours
  | s10PromiseFreeze | s11MerchantBudget | s12KillSwitch
  deriving DecidableEq, Repr

def StoppingRule.value : StoppingRule → String
  | s01AlreadyResolved => "S-01"
  | s02AttemptBudget => "S-02"
  | s03DiscountAttemptBudget => "S-03"
  | s04ContactCap24h => "S-04"
  | s05ContactCap48h => "S-05"
  | s06RecoveryWindow => "S-06"
  | s07OptOut => "S-07"
  | s08ConsentClass => "S-08"
  | s09QuietHours => "S-09"
  | s10PromiseFreeze => "S-10"
  | s11MerchantBudget => "S-11"
  | s12KillSwitch => "S-12"

/-! ## The rows of the workers -/

/-- What an outbox row asks for. -/
inductive ActionType where
  | createPaymentLink | notifyInvoice | dispatchMessage | mandatePreDebitNotice | mandateRetry
  | createHumanTask
  deriving DecidableEq, Repr

def ActionType.value : ActionType → String
  | createPaymentLink => "CREATE_PAYMENT_LINK"
  | notifyInvoice => "NOTIFY_INVOICE"
  | dispatchMessage => "DISPATCH_MESSAGE"
  | mandatePreDebitNotice => "MANDATE_PRE_DEBIT_NOTICE"
  | mandateRetry => "MANDATE_RETRY"
  | createHumanTask => "CREATE_HUMAN_TASK"

/-- Two-phase execution states. -/
inductive OutboxStatus where
  | pending | sending | sent | dead
  deriving DecidableEq, Repr

def OutboxStatus.value : OutboxStatus → String
  | pending => "PENDING"
  | sending => "SENDING"
  | sent => "SENT"
  | dead => "DEAD"

inductive DLQStatus where
  | opened | replayed | acknowledged
  deriving DecidableEq, Repr

def DLQStatus.value : DLQStatus → String
  | opened => "OPEN"
  | replayed => "REPLAYED"
  | acknowledged => "ACKNOWLEDGED"

inductive ApprovalStatus where
  | pending | approved | rejected | expired
  deriving DecidableEq, Repr

def ApprovalStatus.value : ApprovalStatus → String
  | pending => "PENDING"
  | approved => "APPROVED"
  | rejected => "REJECTED"
  | expired => "EXPIRED"

/-! ## Model calls -/

/-- What a model is asked for. -/
inductive LLMTask where
  | diagnose | strategise | composeMessage | extractPromise | dailyBriefing
  deriving DecidableEq, Repr

def LLMTask.value : LLMTask → String
  | diagnose => "DIAGNOSE"
  | strategise => "STRATEGISE"
  | composeMessage => "COMPOSE_MESSAGE"
  | extractPromise => "EXTRACT_PROMISE"
  | dailyBriefing => "DAILY_BRIEFING"

/-- Provenance of a model response. -/
inductive LLMSource where
  | live | cached | deterministic
  deriving DecidableEq, Repr

def LLMSource.value : LLMSource → String
  | live => "LIVE"
  | cached => "CACHED"
  | deterministic => "DETERMINISTIC"

/-- The state of a payment attempt in the transaction ledger. -/
inductive PaymentStatus where
  | created | authorized | captured | failed | abandoned
  deriving DecidableEq, Repr

/-- What produced a row of the transaction ledger. -/
inductive AttemptKind where
  | checkout | invoice | subscription | recoveryLink
  deriving DecidableEq, Repr

end AegisMerchant
