import AegisMerchant.Agent.Graph
import AegisMerchant.Tools.Audit

/-!
# The seeded corpus through the agent

Each payment attempt of the corpus becomes a case, runs through the graph at its own time and with
no executor, and is settled by a declared parameter. What the runner stores for a case is returned
as one record.
-/

namespace AegisMerchant

open Time

/-! ## Declared parameters -/

def playbookFor : AttemptKind → PaymentStatus → Option Playbook
  | .checkout, .failed => some .paymentFailure
  | .checkout, .abandoned => some .checkoutAbandon
  | .invoice, .created => some .receivable
  | .subscription, .failed => some .subscription
  | _, _ => none

def windowHours : Playbook → ℤ
  | .paymentFailure => 24
  | .checkoutAbandon => 72
  | .receivable => 720
  | .subscription => 168

/-- Share who pay unaided within the window. -/
def baselineSelfRecovery : ℚ := 21 / 100

/-- Additional probability when we act. -/
def treatedUplift : Playbook → ℚ
  | .paymentFailure => 14 / 100
  | .checkoutAbandon => 9 / 100
  | .receivable => 11 / 100
  | .subscription => 7 / 100

def simulatedEventPrefix : String := "sim_evt_"

/-! ## The corpus -/

/-- A payment attempt joined with its customer and the customer's consent. -/
structure CorpusRow where
  merchantId : String
  kind : AttemptKind
  status : PaymentStatus
  amountPaise : ℤ
  method : Option String := none
  errorSource : Option ErrorSource := none
  errorStep : Option ErrorStep := none
  errorReason : Option String := none
  attemptedAt : DateTime
  customerId : String
  firstName : String
  ltvPaise : ℤ := 0
  successOrdersCount : ℤ := 0
  consent : ConsentRow

/-- What one run of the batch reads once, before its loop. -/
structure BatchConfig where
  merchants : List MerchantRow := []
  /-- The cases with an active promise to pay. -/
  promises : List String := []
  adapter : Option (Adapter Act) := none
  controlArmFraction : ℚ := 18 / 100
  experimentKey : String := "revpilot_recovery_v1"
  limit : Option ℕ := none
  /-- The seeded generator's draws, one a case. -/
  draws : ℕ → ℚ

/-- What is stored for one case, in one transaction. -/
structure BatchRecord where
  case : CaseRow
  arm : ExperimentArm
  assignmentHash : String
  stoppingRuleFired : Option StoppingRule
  llmLedger : List LLMCallRecord
  /-- The action the firewall applied in the case's run. -/
  applied : Option AppliedAction
  approval : Option ApprovalRow
  action : Option RecoveryActionRow
  event : AuditEvent

/-- The accumulators of the loop. -/
structure BatchTally where
  created : ℕ := 0
  treated : ℕ := 0
  control : ℕ := 0
  settled : ℕ := 0
  recoveredPaise : ℤ := 0
  byStatus : CaseStatus → ℕ := fun _ => 0
  /-- Actions by merchant and day, in IST. -/
  actionsByDay : String × ℤ → ℤ := fun _ => 0
  /-- Discounts by merchant, year and month, in IST. -/
  discountByMonth : String × ℤ × ℤ → ℤ := fun _ => 0
  records : List BatchRecord := []

namespace Batch

/-! ## One case -/

/-- `f"RC-{created:04d}"`. -/
def caseId (created : ℕ) : String := "RC-" ++ Text.padNat 4 created

/-- Each case is evaluated at its own time, half an hour after its failure. -/
def caseNow (row : CorpusRow) : DateTime := row.attemptedAt.add (hour / 2)

def dayKey (row : CorpusRow) : String × ℤ := (row.merchantId, (toIst (caseNow row)).wallDay)

def monthKey (row : CorpusRow) : String × ℤ × ℤ :=
  let (year, month, _) := civilFromDays (toIst (caseNow row)).wallDay
  (row.merchantId, year, month)

/-- `_at`: the same dependencies with the clock held at a moment, and no executor. -/
def depsAt (c : BatchConfig) (moment : DateTime) : AgentDeps Act where
  now := pure moment
  adapter := c.adapter
  controlArmFraction := c.controlArmFraction
  experimentKey := c.experimentKey

def stateOf (c : BatchConfig) (tally : BatchTally) (row : CorpusRow) (playbook : Playbook)
    (id : String) : RecoveryState where
  caseId := id
  merchantId := row.merchantId
  customerId := row.customerId
  playbook := playbook
  amountPaise := row.amountPaise
  errorSource := row.errorSource.map (·.value)
  errorStep := row.errorStep.map (·.value)
  errorReason := row.errorReason
  method := row.method
  customerFirstName := row.firstName
  customerLtvPaise := row.ltvPaise
  customerPriorOrders := row.successOrdersCount
  consentMarketing := row.consent.marketing
  consentDnd := row.consent.dndRegistered
  consentOptedOut := row.consent.optedOut
  consentTransactional := row.consent.transactional
  autopilotEnabled :=
    ((c.merchants.find? fun m => m.id = row.merchantId).map (·.autopilotEnabled)).getD true
  promiseActive := id ∈ c.promises
  actionsToday := tally.actionsByDay (dayKey row)
  discountExposureMtdPaise := tally.discountByMonth (monthKey row)
  orderStatus := some "created"
  windowExpiresAt := some ((caseNow row).add (windowHours playbook * hour))

/-! ## The settlement -/

def acted (final : RecoveryState) : Bool :=
  (final.experimentArm.getD .treatment) = .treatment && final.status = .monitoring

/-- The status written, the event that proves it and the amount recovered. -/
def settlement (final : RecoveryState) (id : String) (paid : Bool) :
    CaseStatus × Option String × ℤ :=
  if paid then
    if acted final then
      (.recovered, some (simulatedEventPrefix ++ Text.lower id), final.amountPaise)
    else (.resolvedOrganic, none, 0)
  else if final.status = .resolvedOrganic then (.expired, none, 0)
  else (final.status, none, 0)

/-- `approval_expires_at`, four hours on. -/
def approvalExpiresAt (now : DateTime) (ttlMinutes : ℤ) : DateTime :=
  now.add (ttlMinutes * (60 * second))

/-- What a reviewer is shown: the clamped action where there is one, else the proposal. -/
def reviewPayload (final : RecoveryState) (amountPaise : ℤ) : Json :=
  match final.policyApplied, final.proposal with
  | some applied, _ => applied.asPayload
  | none, some proposal =>
    .obj [("source", .str "proposal (no capability token was minted)"),
      ("strategy", .str proposal.strategy.value),
      ("discount_pct", .float proposal.discountPct.finiteOrZero),
      ("channel", .str proposal.channel.value),
      ("message_class", .str proposal.messageClass.value), ("amount_paise", .int amountPaise)]
  | none, none => .obj [("source", .str "no proposal"), ("amount_paise", .int amountPaise)]

/-- The request for an approval of a case that waits for one. -/
def approvalRow (rt : Runtime) (id : String) (final : RecoveryState) (case : CaseRow)
    (now : DateTime) : ApprovalRow :=
  let payload := (reviewPayload final case.amountPaise).dumps rt.floatRepr
  { id
    caseId := case.id
    triggerRung := (final.policyApplied.map (·.escalationRung)).getD .a2Approval
    amountPaise := case.amountPaise
    policyAppliedJson := payload
    policyAppliedHash := rt.sha256 payload
    expiresAt := dbTime (approvalExpiresAt now 240) }

def actionRow (id : String) (final : RecoveryState) (proposal : RecoveryProposal) (caseId : String)
    (now : DateTime) : RecoveryActionRow where
  id := id
  caseId := caseId
  attemptNo := if final.attemptNo = 0 then 1 else final.attemptNo
  actionType := .createPaymentLink
  strategy := some proposal.strategy
  escalationRung := some .b1FirstTouch
  messageClass := some proposal.messageClass
  discountPctApplied :=
    (final.policyApplied.map (·.discountPct)).getD proposal.discountPct.finiteOrZero
  discountAmountPaise := (final.policyApplied.map (·.discountAmountPaise)).getD 0
  referenceId := final.referenceId
  channel := some proposal.channel
  status := "SIMULATED"
  executedAt := dbTime now

def caseRow (final : RecoveryState) (row : CorpusRow) (playbook : Playbook) (id : String)
    (paid : Bool) (now : DateTime) : CaseRow :=
  let (status, verifiedBy, amount) := settlement final id paid
  { id
    merchantId := row.merchantId
    customerId := row.customerId
    playbook
    status
    amountPaise := row.amountPaise
    attemptNo := final.attemptNo
    recoveredAmountPaise := amount
    recoveryVerifiedBy := verifiedBy
    recoveryVerifiedVia := verifiedBy.map fun _ => .simulator
    windowExpiresAt := dbTime ((caseNow row).add (windowHours playbook * hour))
    resolvedAt :=
      if status = .recovered ∨ status = .resolvedOrganic then some (dbTime now) else none }

/-! ## What is recorded -/

def caseEvent (final : RecoveryState) (case : CaseRow) (arm : ExperimentArm) : AuditEvent where
  eventName := if case.recoveredAmountPaise ≠ 0 then "case.recovered" else "case.detected"
  actor := "batch"
  payload := .obj [("case_id", .str case.id), ("playbook", .str case.playbook.value),
    ("arm", .str arm.value), ("status", .str case.status.value),
    ("amount_paise", .int case.amountPaise),
    ("recovered_paise", .int case.recoveredAmountPaise),
    ("strategy", .ofOption (final.proposal.map (·.strategy.value))),
    ("verified_by", .ofOption case.recoveryVerifiedBy), ("simulated", .bool true)]
  caseId := some case.id

/-- A case that waits for an approval gets a row that can be actioned. -/
def approvalFor (rt : Runtime) (final : RecoveryState) (case : CaseRow) (now : DateTime) :
    Act (Option ApprovalRow) := do
  if case.status = .awaitingApproval then
    return some (approvalRow rt (← Act.freshId "apr") final case now)
  else return none

def actionFor (final : RecoveryState) (caseId : String) (now : DateTime) :
    Act (Option RecoveryActionRow) := do
  match acted final, final.proposal with
  | true, some proposal =>
    return some (actionRow (← Act.freshId "act") final proposal caseId now)
  | _, _ => return none

def record (rt : Runtime) (c : BatchConfig) (final : RecoveryState) (case : CaseRow)
    (now : DateTime) : Act BatchRecord := do
  let arm := final.experimentArm.getD .treatment
  let assignment ← liftExcept (assignArm rt case.id c.experimentKey c.controlArmFraction)
  let approval ← approvalFor rt final case now
  let action ← actionFor final case.id now
  return { case, arm, assignmentHash := assignment.assignmentHash
           stoppingRuleFired := final.stoppingRuleFired, llmLedger := final.llmLedger
           applied := final.policyApplied, approval, action, event := caseEvent final case arm }

/-! ## The loop -/

def addCase (tally : BatchTally) (row : CorpusRow) (final : RecoveryState) (paid : Bool)
    (r : BatchRecord) : BatchTally where
  created := tally.created + 1
  treated := tally.treated + (if r.arm = .control then 0 else 1)
  control := tally.control + (if r.arm = .control then 1 else 0)
  settled := tally.settled + (if paid then 1 else 0)
  recoveredPaise := tally.recoveredPaise + r.case.recoveredAmountPaise
  byStatus status := tally.byStatus status + (if status = r.case.status then 1 else 0)
  actionsByDay key :=
    tally.actionsByDay key + (if r.action.isSome ∧ key = dayKey row then 1 else 0)
  discountByMonth key :=
    tally.discountByMonth key +
      (if r.action.isSome ∧ key = monthKey row then
        (final.policyApplied.map (·.discountAmountPaise)).getD 0 else 0)
  records := tally.records ++ [r]

/-- One turn of the loop, on an attempt that has a playbook. -/
def runRow (rt : Runtime) (c : BatchConfig) (now : DateTime) (tally : BatchTally) (row : CorpusRow)
    (playbook : Playbook) : Act BatchTally := do
  let id := caseId (tally.created + 1)
  let final ← runCase rt (stateOf c tally row playbook id) (depsAt c (caseNow row))
  -- whether the customer pays is drawn, not read from the agent
  let probability := baselineSelfRecovery + (if acted final then treatedUplift playbook else 0)
  let paid : Bool := c.draws tally.created < probability
  let r ← record rt c final (caseRow final row playbook id paid now) now
  return addCase tally row final paid r

def runRows (rt : Runtime) (c : BatchConfig) (now : DateTime) :
    BatchTally → List CorpusRow → Act BatchTally
  | tally, [] => return tally
  | tally, row :: rest =>
    match playbookFor row.kind row.status with
    | none => runRows rt c now tally rest
    | some playbook =>
      -- the limit is on the cases made, not on the attempts read
      if ∃ limit ∈ c.limit, limit ≤ tally.created then return tally
      else do runRows rt c now (← runRow rt c now tally row playbook) rest

/-- `run_batch` on a corpus, once the earlier batch is cleared. -/
def runBatch (rt : Runtime) (c : BatchConfig) (corpus : List CorpusRow) : Act BatchTally := do
  if corpus = [] then
    throw (.runtimeError ("no payment attempts in the database: there is nothing to build cases " ++
      "from. Run `python tasks.py seed` (or `python tasks.py demo`, which seeds for you)."))
  else runRows rt c (← Act.nowUtc) {} corpus

end Batch

end AegisMerchant
