import AegisMerchant.Agent.Unsettled
import AegisMerchant.Base.Dict
import AegisMerchant.Services.Metrics
import AegisMerchant.Workers.CreditedBooks

/-!
# The randomised holdout

Both arms of the experiment against the provider itself: a treated case goes through the agent and
is sent a link of ours, a control case is only given the merchant's own checkout. Nothing is ever
sent for a control case, whatever runs beside the experiment and wherever it dies; and no link is
asked for under a reference that is not on record.
-/

namespace AegisMerchant

open Time

/-! ## Commands -/

/-- What the experiment asks of the database, besides what the batch asks. -/
inductive ExperimentCmd : Type → Type 1 where
  | books {β : Type} (c : BatchCmd β) : ExperimentCmd β
  /-- The commit of a treated case with the intent to send its link. -/
  | commitIntent (s : CaseSession) (row : OutboxRow) : ExperimentCmd (Except PyError Unit)

namespace BatchWorld

/-- Store the rows of a session and an outbox row. None stands for an `IntegrityError`. -/
def insertIntent? (w : BatchWorld) (s : CaseSession) (row : OutboxRow) : Option BatchWorld :=
  if h : ((w.world.db.tables.insertCase s).apply (.insertOutbox row)).Valid ∧
      (w.side.insertCase s).Valid (w.world.db.tables.insertCase s).caseIds then
    some
      { world := { w.world with db := ⟨_, h.1⟩ }
        side := w.side.insertCase s
        valid := h.2 }
  else none

def serveExperiment : {β : Type} → ExperimentCmd β → BatchWorld → β × BatchWorld
  | _, .books c, w => handler.exec c w
  | _, .commitIntent s row, w =>
    match w.insertIntent? s row with
    | some w' => (.ok (), w'.advance)
    | none => (.error .integrityError, w.advance)

/-- Every command of the experiment, and of what runs beside it. -/
def experimentHandler : Handler ExperimentCmd BatchWorld where
  exec := serveExperiment

end BatchWorld

abbrev ExperimentAct := Prog ExperimentCmd PyError

namespace ExperimentAct

def books {α : Type} (p : BatchAct α) : ExperimentAct α := p.mapCmd ExperimentCmd.books

/-- A program of the services'. -/
def serve {α : Type} (p : Act α) : ExperimentAct α := books (BatchAct.serve p)

/-- A command whose answer may be an exception. -/
def call {α : Type} (c : ExperimentCmd (Except PyError α)) : ExperimentAct α := do
  liftExcept (← (Prog.lift c : ExperimentAct _))

end ExperimentAct

namespace Experiment

open ExperimentAct

/-! ## The experiment -/

def experimentKey : String := "revpilot_testmode_holdout_v1"

def controlFraction : ℚ := 1 / 2

def amountPaise : ℤ := 100

structure Config where
  /-- `n`. -/
  n : ℤ := 10
  actor : String := "cli:experiment"
  /-- The keys of the provider are set. -/
  keysSet : Bool := true
  adapter : Adapter Act
  firstName : CustomerRow → String

structure ArmResult where
  caseIds : List String := []
  links : List (String × String) := []
  stopped : List (String × String) := []
  errors : List (String × String) := []

structure ExperimentResult where
  treatment : ArmResult := {}
  control : ArmResult := {}

/-- `f"RC-XP{number:04d}"`. -/
def caseId (number : ℕ) : String := "RC-XP" ++ Text.padNat 4 number

/-- `str(exc)` of what a request raises. -/
def errorText : PyError → String
  | .duplicateReference r => "reference_id already exists: " ++ r
  | e => e.text

def fixtures : Act (MerchantRow × CustomerRow) := do
  let merchant ← Act.select (·.merchants.head?)
  let customer ← Act.select (·.customers.head?)
  match merchant, customer with
  | some merchant, some customer => return (merchant, customer)
  | _, _ => throw (.runtimeError
      "no merchant or customer in the database; run `python tasks.py seed`")

def state (id : String) (merchant : MerchantRow) (customer : CustomerRow) (firstName : String)
    (now : DateTime) : RecoveryState where
  caseId := id
  merchantId := merchant.id
  customerId := customer.id
  playbook := .paymentFailure
  amountPaise := amountPaise
  errorSource := some "customer"
  errorStep := some "payment_authentication"
  errorReason := some "payment_cancelled"
  method := some "card"
  customerFirstName := firstName
  autopilotEnabled := merchant.autopilotEnabled
  orderStatus := some "created"
  windowExpiresAt := some (now.add (24 * hour))

/-- The agent of a treated case: its arm was drawn already. -/
def deps (adapter : Adapter Act) : AgentDeps Act where
  now := Act.nowUtc
  adapter := some adapter
  controlArmFraction := 0
  experimentKey := experimentKey

/-! ## The provider, and the rows of a case -/

@[irreducible] def createLink (id reference description customerName : String) (now : DateTime) :
    Act PaymentLinkResult := do
  let request ← liftExcept (PaymentLinkRequest.mk? amountPaise reference description customerName
    (some { utc := now.utc / second * second + 6 * day })
    [("revpilot_case", id), ("revpilot_experiment", experimentKey)])
  Act.createPaymentLink request

/-- Who every case of a run is about. -/
structure Parties where
  merchantId : String
  customerId : String
  firstName : String

/-- The case that `_persist` adds. -/
def caseRow (id : String) (parties : Parties) (now : DateTime) (status : CaseStatus)
    (observed : Option String) : CaseRow where
  id := id
  merchantId := parties.merchantId
  customerId := parties.customerId
  playbook := .paymentFailure
  status := status
  amountPaise := amountPaise
  attemptNo := 1
  observedReferenceId := observed
  windowExpiresAt := dbTime (now.add (24 * hour))

/-- The session of `_persist` after its flush, before the assignment is added. -/
def persisted (rt : Runtime) (parties : Parties) (case : CaseRow) : CaseSession where
  case := case
  columns := { idempotencyHash := idempotencyHash rt parties.merchantId case.id "PAYMENT_FAILURE" }

def assignmentRow (id : String) (assignment : Assignment) : AssignmentRow where
  caseId := id
  experimentKey := experimentKey
  arm := assignment.arm
  assignmentHash := assignment.assignmentHash

/-- `_persist`: the case is flushed, and its assignment goes with it. -/
def persist (rt : Runtime) (parties : Parties) (case : CaseRow) (assignment : Assignment) :
    ExperimentAct CaseSession := do
  books (BatchAct.call (.flush (persisted rt parties case)))
  return { persisted rt parties case with assignment := some (assignmentRow case.id assignment) }

/-! ## The control arm -/

/-- `experiment.held_out`. -/
def heldOutEvent (c : Config) (id : String) (assignment : Assignment) : AuditEvent where
  eventName := "experiment.held_out"
  actor := c.actor
  payload := .obj [("case_id", .str id), ("arm", .str "CONTROL"),
    ("experiment_key", .str experimentKey), ("assignment_hash", .str assignment.assignmentHash),
    ("note", .str ("deliberately not contacted. No diagnosis, no action, no message. The " ++
      "merchant's own checkout stays open, and a payment on it resolves organically."))]
  caseId := some id

/-- The rest of `_run_control`, once the case is committed: the merchant's own checkout. -/
def openCheckout (parties : Parties) (id : String) (now : DateTime) (result : ArmResult) :
    ExperimentAct ArmResult := do
  match ← (serve (createLink id (observedReferenceId id)
      (parties.firstName ++ " - order checkout (control arm, not an outreach)") parties.firstName
      now)).attempt with
  | .error exc =>
    return { result with errors := Dict.set result.errors id (Text.slice 160 (errorText exc)) }
  | .ok link =>
    -- the order's id, a column of the case that nothing here reads
    let _ ← serve (Act.select (·.caseById id))
    serve (Act.commit [])
    return { result with links := Dict.set result.links id link.shortUrl }

def runControl (rt : Runtime) (c : Config) (parties : Parties) (id : String)
    (assignment : Assignment) (result : ArmResult) : ExperimentAct ArmResult := do
  let now ← serve Act.nowUtc
  let session ← persist rt parties
    (caseRow id parties now .monitoring (some (observedReferenceId id))) assignment
  books (BatchStore.appendCommit rt session (heldOutEvent c id assignment))
  openCheckout parties id now { result with caseIds := result.caseIds ++ [id] }

/-! ## The treatment arm -/

def intentRow (outboxId id reference : String) (now : DateTime) : OutboxRow where
  id := outboxId
  caseId := id
  actionType := .createPaymentLink
  referenceId := reference
  payloadJson := some (.obj [])
  status := .sending
  attempt := 1
  nextAttemptAt := dbTime now
  createdAt := dbTime now

def actionRow (actionId id reference : String) (entry : Option OutboxRow)
    (link : PaymentLinkResult) (now : DateTime) : RecoveryActionRow where
  id := actionId
  caseId := id
  outboxId := entry.map (·.id)
  attemptNo := 1
  actionType := .createPaymentLink
  razorpayLinkId := some link.linkId
  razorpayLinkUrl := some link.shortUrl
  referenceId := some reference
  executedAt := dbTime now

/-- `action.dispatched`. -/
def dispatchedEvent (c : Config) (id reference : String) (assignment : Assignment)
    (link : PaymentLinkResult) : AuditEvent where
  eventName := "action.dispatched"
  actor := c.actor
  payload := .obj [("case_id", .str id), ("arm", .str "TREATMENT"),
    ("experiment_key", .str experimentKey), ("assignment_hash", .str assignment.assignmentHash),
    ("reference_id", .str reference), ("razorpay_link_id", .str link.linkId),
    ("mode", .str "razorpay_test_mode")]
  caseId := some id

/-- What follows the request of a treated case that failed: the intent waits. -/
def putBack (reference : String) (exc : PyError) : Act Unit := do
  match ← Act.select (·.outboxByReference reference) with
  | some entry =>
    Act.commit [.updateOutbox entry
      { entry with status := .pending, lastError := some (Text.slice 200 (errorText exc)) }]
  | none => Act.commit []

/-- What follows the request of a treated case that was served. -/
def dispatched (rt : Runtime) (c : Config) (id reference : String) (assignment : Assignment)
    (link : PaymentLinkResult) (now : DateTime) : Act Unit := do
  let entry ← Act.select (·.outboxByReference reference)
  let sent := entry.elim [] fun entry =>
    [.updateOutbox entry { entry with status := .sent, providerRef := some link.linkId }]
  let action := actionRow (← Act.freshId "act") id reference entry link now
  let (_, session) ← AuditChain.append rt { fresh := sent ++ [.insertAction action] }
    (dispatchedEvent c id reference assignment link)
  session.commit

/-- The rest of `_run_treated`, once the reference is committed: our own link. -/
def sendLink (rt : Runtime) (c : Config) (parties : Parties) (id reference : String)
    (assignment : Assignment) (now : DateTime) (result : ArmResult) : ExperimentAct ArmResult := do
  match ← (serve (createLink id reference ("RevPilot recovery - " ++ id) parties.firstName
      now)).attempt with
  | .error exc =>
    serve (putBack reference exc)
    return { result with errors := Dict.set result.errors id (Text.slice 160 (errorText exc)) }
  | .ok link =>
    serve (dispatched rt c id reference assignment link now)
    return { result with links := Dict.set result.links id link.shortUrl }

def runTreated (rt : Runtime) (c : Config) (parties : Parties) (id : String)
    (assignment : Assignment) (result : ArmResult) : ExperimentAct ArmResult := do
  let now ← serve Act.nowUtc
  let result := { result with caseIds := result.caseIds ++ [id] }
  let (merchant, customer) ← serve fixtures
  let final ← serve (runCase rt (state id merchant customer (c.firstName customer) now)
    (deps c.adapter))
  match if final.status = .monitoring then final.referenceId else none with
  | none =>
    let reason := (final.stoppingRuleFired.map (·.value)).getD final.status.value
    let session ← persist rt parties (caseRow id parties now final.status none) assignment
    books (BatchAct.call (.commit session))
    return { result with stopped := Dict.set result.stopped id reason }
  | some reference =>
    let session ← persist rt parties (caseRow id parties now .monitoring none) assignment
    -- the reference is committed before the provider is asked
    call (.commitIntent session (intentRow (← serve (Act.freshId "obx")) id reference now))
    sendLink rt c parties id reference assignment now result

/-! ## The loop -/

/-- The loop over the cases, from one number on. -/
def runCases (rt : Runtime) (c : Config) (parties : Parties) :
    List ℕ → ExperimentResult → ExperimentAct ExperimentResult
  | [], result => return result
  | number :: rest, result => do
    let assignment ← liftExcept (assignArm rt (caseId number) experimentKey controlFraction)
    match assignment.arm with
    | .control =>
      let control ← runControl rt c parties (caseId number) assignment result.control
      runCases rt c parties rest { result with control }
    | .treatment =>
      let treatment ← runTreated rt c parties (caseId number) assignment result.treatment
      runCases rt c parties rest { result with treatment }

/-- An id of the experiment's, as `LIKE` compares. -/
def named (id : String) : Bool := Metrics.likePrefix "RC-XP".toList id.toList

/-- How many cases have one. -/
def existing (t : Tables) : ℕ := t.cases.countP fun case => named case.id

/-- **`run_testmode_experiment`.** -/
def runTestmodeExperiment (rt : Runtime) (c : Config) : ExperimentAct ExperimentResult := do
  if c.n < 2 then throw (.valueError "an experiment with fewer than two cases has no arms")
  else if !c.keysSet then
    throw (.runtimeError "RAZORPAY_KEY_ID and RAZORPAY_KEY_SECRET are required")
  else
    let (merchant, customer) ← serve fixtures
    let held ← serve (Act.select existing)
    runCases rt c
      { merchantId := merchant.id, customerId := customer.id, firstName := c.firstName customer }
      ((List.range c.n.toNat).map (held + · + 1)) {}

end Experiment

end AegisMerchant
