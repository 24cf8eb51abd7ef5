import AegisMerchant.Agent.State
import AegisMerchant.Core.World

/-!
# Two-phase execution

The intent, with its idempotency key, is committed before the provider is called; the outcome is
recorded after. Every session of the executor reads a row in one step and commits in a later one.
-/

namespace AegisMerchant

open Time Numeric

/-! ## Backoff -/

/-- Seconds before each retry. -/
def backoffSchedule : List ℚ := [1 / 2, 2, 8, 30]

/-- Backoff with jitter for the given attempt number. -/
def nextAttemptDelay (attempt : ℤ) (uniform : ℚ) : ℚ :=
  backoffSchedule.getD (min attempt.toNat (backoffSchedule.length - 1)) 30 * (1 + uniform)

/-! ## Queries -/

/-- `session.get(Outbox, id)`. -/
def Tables.outboxById (t : Tables) (id : String) : Option OutboxRow :=
  t.outbox.find? fun r => r.id = id

/-- `select(Outbox).where(Outbox.reference_id == reference)`. -/
def Tables.outboxByReference (t : Tables) (reference : String) : Option OutboxRow :=
  t.outbox.find? fun r => r.referenceId = reference

/-- `session.get(RecoveryCase, id)`. -/
def Tables.caseById (t : Tables) (id : String) : Option CaseRow := t.cases.find? fun c => c.id = id

/-! ## The executor -/

structure OutboxExecutor where
  maxAttempts : ℤ := 4

namespace OutboxExecutor

def trace (s : RecoveryState) (status : CaseStatus) : Act RecoveryState := do
  return { s.withTrace ⟨"EXECUTE", "razorpay", ← Act.nowUtc⟩ with status }

def intentRow (s : RecoveryState) (applied : AppliedAction) : Act OutboxRow := do
  return {
    id := ← Act.freshId "obx"
    caseId := s.caseId
    actionType := .createPaymentLink
    referenceId := applied.referenceId
    payloadJson := some applied.asPayload
    nextAttemptAt := dbTime (← Act.nowUtc)
    createdAt := dbTime (← Act.nowUtc) }

/-- Commit the intent, including the idempotency key. A row under the same reference is reused. -/
def phaseOne (s : RecoveryState) (applied : AppliedAction) : Act String := do
  match ← Act.select (·.outboxByReference applied.referenceId) with
  | some existing => return existing.id
  | none =>
    let row ← intentRow s applied
    match ← (Act.commit [.insertOutbox row]).attempt with
    | .ok () => return row.id
    | .error .integrityError =>
      -- a concurrent worker may have won the race: its row is authoritative
      match ← Act.select (·.outboxByReference applied.referenceId) with
      | some won => return won.id
      | none => throw .integrityError
    | .error exc => throw exc

/-- The request for the link of an action, at the instant it is made. -/
def requestOf (s : RecoveryState) (applied : AppliedAction) (now : DateTime) :
    Except PyError PaymentLinkRequest :=
  PaymentLinkRequest.mk? applied.chargeAmountPaise applied.referenceId
    ("Complete your order - " ++ s.merchantId)
    (if s.customerFirstName = "" then "Customer" else s.customerFirstName)
    (some (now.add (applied.linkExpiryMinutes * (60 * second))))
    [("case_id", s.caseId), ("playbook", s.playbook.value),
      ("arm", (s.experimentArm.map (·.value)).getD "TREATMENT")]

/-- Create the link, or recover the one a previous attempt created. -/
def callProvider (s : RecoveryState) (applied : AppliedAction) : Act (PaymentLinkResult × Bool) := do
  let request ← liftExcept (requestOf s applied (← Act.nowUtc))
  match ← (Act.createPaymentLink request).attempt with
  | .ok link => return (link, false)
  | .error (.duplicateReference _) =>
    -- an earlier attempt got through: its link is read back
    match ← Act.getPaymentLinkByReference applied.referenceId with
    | some existing => return (existing, true)
    | none =>
      throw (.providerRetryable ("reference " ++ applied.referenceId ++
        " reported as duplicate but not retrievable"))
  | .error exc => throw exc

def actionRow (id : String) (s : RecoveryState) (applied : AppliedAction) (outboxId : String)
    (result : PaymentLinkResult) (now : DateTime) : RecoveryActionRow where
  id := id
  caseId := s.caseId
  outboxId := some outboxId
  attemptNo := s.attemptNo + 1
  actionType := .createPaymentLink
  strategy := some applied.strategy
  escalationRung := some applied.escalationRung
  messageClass := some applied.messageClass
  discountPctApplied := applied.discountPct
  discountAmountPaise := applied.discountAmountPaise
  razorpayLinkId := some result.linkId
  razorpayLinkUrl := some result.shortUrl
  referenceId := some applied.referenceId
  channel := some applied.channel
  executedAt := dbTime now

/-- The ledger row of a contact; an action on no channel contacts nobody. -/
def contactWrites (s : RecoveryState) (applied : AppliedAction) (now : DateTime) :
    Act (List Write) := do
  if applied.channel = .none then return []
  else
    return [.insertContact
      { id := ← Act.freshId "cnt", customerId := s.customerId, caseId := some s.caseId
        channel := applied.channel, messageClass := applied.messageClass, sentAt := dbTime now }]

/-- Record the outcome: the row, the action and the contact in one transaction. -/
def phaseTwo (s : RecoveryState) (applied : AppliedAction) (outboxId : String)
    (result : PaymentLinkResult) : Act Unit := do
  let now ← Act.nowUtc
  match ← Act.select (·.outboxById outboxId) with
  | none => return ()
  | some row =>
    -- another execution of the row recorded its outcome first
    if row.status = .sent then return ()
    else
      let action := actionRow (← Act.freshId "act") s applied outboxId result now
      let contact ← contactWrites s applied now
      Act.commit ([.updateOutbox row
          { row with status := .sent, providerRef := some result.linkId, lastError := none },
        .insertAction action] ++ contact)

def dlqRow (row : OutboxRow) (reason : String) : Act DeadLetterRow := do
  return {
    id := ← Act.freshId "dlq"
    outboxId := row.id
    reason := Text.slice 120 reason
    errorChainJson := .obj [("attempts", .int row.attempt), ("last_error", .ofOption row.lastError)]
    attempts := row.attempt
    createdAt := dbTime (← Act.nowUtc) }

def failed (row : OutboxRow) (exc : PyError) : OutboxRow :=
  { row with attempt := row.attempt + 1, lastError := some (Text.slice 500 exc.describe) }

/-- The failed row, to be retried after its backoff. -/
def backedOff (row : OutboxRow) (exc : PyError) (now : DateTime) (uniform : ℚ) : OutboxRow :=
  let new := failed row exc
  -- the schedule starts at the first failure, which is attempt 1
  let delay := nextAttemptDelay (new.attempt - 1) uniform
  { new with
    status := .pending
    nextAttemptAt := dbTime (now.add (roundHalfEven (delay * 1000000))) }

/-- Back off, or dead-letter once the budget is spent. -/
def scheduleRetry (ex : OutboxExecutor) (outboxId : String) (exc : PyError) : Act Unit := do
  match ← Act.select (·.outboxById outboxId) with
  | none => return ()
  | some row =>
    let new := failed row exc
    if ex.maxAttempts ≤ new.attempt then
      let dead : OutboxRow := { new with status := .dead }
      Act.commit [.updateOutbox row dead, .insertDeadLetter (← dlqRow dead "retry budget exhausted")]
    else
      let now ← Act.nowUtc
      Act.commit [.updateOutbox row (backedOff row exc now (← (Prog.lift .uniform : Act ℚ)))]

/-- A terminal refusal of the provider. -/
def deadLetter (outboxId : String) (exc : PyError) (message : String) : Act Unit := do
  match ← Act.select (·.outboxById outboxId) with
  | none => return ()
  | some row =>
    let dead : OutboxRow := { failed row exc with status := .dead }
    Act.commit [.updateOutbox row dead,
      .insertDeadLetter (← dlqRow dead ("provider refused: " ++ message))]

def executed (s : RecoveryState) (applied : AppliedAction) (result : PaymentLinkResult) :
    RecoveryState :=
  { s with
    paymentLinkUrl := some result.shortUrl
    attemptNo := s.attemptNo + 1
    discountBearingAttempts :=
      s.discountBearingAttempts + (if 0 < applied.discountPct then 1 else 0) }

/-- Run both phases for one authorised action. -/
def execute (rt : Runtime) (ex : OutboxExecutor) (s : RecoveryState) : Act RecoveryState := do
  match s.policyApplied, s.policyToken with
  | some applied, some token =>
    liftExcept (token.verify rt)
    let outboxId ← phaseOne s applied
    match ← (callProvider s applied).attempt with
    | .error (.providerRetryable m) =>
      ex.scheduleRetry outboxId (.providerRetryable m)
      trace s .executing
    | .error (.providerPermanent m) =>
      deadLetter outboxId (.providerPermanent m) m
      trace s .failedPermanent
    -- no other exception is caught: the intent is left as it is
    | .error exc => throw exc
    | .ok (result, _) =>
      phaseTwo s applied outboxId result
      trace (executed s applied result) .monitoring
  | _, _ => trace s .suppressed

end OutboxExecutor

/-! ## A case to run -/

/-- The database of one customer and one treated case that nobody acted on. -/
def oneCase : Database where
  tables :=
    { merchants := [{ id := "mch_1" }]
      customers := [{ id := "cus_1", merchantId := "mch_1" }]
      consents := [{ customerId := "cus_1" }]
      cases := [
        { id := "RC-0001", merchantId := "mch_1", customerId := "cus_1"
          playbook := .paymentFailure, status := .executing, amountPaise := 250000
          windowExpiresAt := { utc := day } }] }
  valid := by decide +kernel

/-- What the firewall authorised for an attempt of the case: a link on WhatsApp, at no discount. -/
def linkAction (attemptNo : ℤ) : AppliedAction where
  caseId := "RC-0001"
  strategy := .freshLinkSameRail
  amountPaise := 250000
  discountPct := 0
  discountAmountPaise := 0
  chargeAmountPaise := 250000
  linkExpiryMinutes := 30
  channel := .whatsapp
  messageClass := .transactional
  escalationRung := .b1FirstTouch
  referenceId := referenceId "RC-0001" attemptNo
  attemptNo

/-- The case on its way into the executor with an action. -/
def authorisedState (applied : AppliedAction) : RecoveryState where
  caseId := "RC-0001"
  merchantId := "mch_1"
  customerId := "cus_1"
  playbook := .paymentFailure
  status := .executing
  amountPaise := 250000
  attemptNo := applied.attemptNo - 1
  policyApplied := some applied
  policyToken := some (mint plainRuntime applied { utc := 0 })

/-- A world around a database: every step takes a millisecond, and every random text is new. -/
def worldOf (db : Database) : World where
  db
  clock := { utc := 0 }
  fate n := { elapsed := 1000, hex := String.ofList (List.replicate n 'a') }

end AegisMerchant
