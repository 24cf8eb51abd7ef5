import AegisMerchant.Ingest.Normalise
import AegisMerchant.Services.Attribution
import AegisMerchant.Tools.Audit
import AegisMerchant.Tools.Outbox

/-!
# What happens when a settling webhook arrives

The case is found by the reference the payment carries, judged, and written in the session that read
it: recovered with the event that proves it, or resolved organically.
-/

namespace AegisMerchant

open Time

def attributionGrace : ℤ := 24 * hour

structure SettlementOutcome where
  counted : Bool
  reason : String
  caseId : Option String := none
  deriving DecidableEq, Repr

/-- `func.lower`, which knows the letters of ASCII. -/
def sqlLower (s : String) : String := String.ofList (s.toList.map Char.toLower)

/-! ## Queries -/

/-- `select(Outbox).where(func.lower(Outbox.reference_id) == needle)`. -/
def Tables.outboxByLower (t : Tables) (needle : String) : Option OutboxRow :=
  t.outbox.find? fun r => sqlLower r.referenceId = needle

def Tables.actionByLower (t : Tables) (needle : String) : Option RecoveryActionRow :=
  t.actions.find? fun a => a.referenceId.map sqlLower = some needle

def Tables.caseByObserved (t : Tables) (needle : String) : Option CaseRow :=
  t.cases.find? fun c => c.observedReferenceId.map sqlLower = some needle

namespace Settle

/-! ## One webhook -/

/-- `_find_case`: the case a reference was issued for, and the reference as it was stored. The
merchant's own checkout finds its case with none. -/
def findCase (referenceId : String) : Act (Option (CaseRow × Option String)) := do
  let needle := Text.lower (Text.strip referenceId)
  match ← Act.select (·.outboxByLower needle) with
  | some entry => return (← Act.select (·.caseById entry.caseId)).map (·, some entry.referenceId)
  | none =>
    match ← Act.select (·.actionByLower needle) with
    | some action => return (← Act.select (·.caseById action.caseId)).map (·, action.referenceId)
    | none => return (← Act.select (·.caseByObserved needle)).map (·, none)

/-- The facts of a webhook on a case, as its session read it. -/
def facts (event : RevenueRiskEvent) (referenceId : String) (case : CaseRow)
    (issued : Option String) (now : DateTime) : SettlingFacts where
  eventType := event.eventType
  signatureValid := true
  eventId := event.eventId
  referenceId := some referenceId
  webhookAmountPaise := event.amountPaise
  issuedReferenceId := issued
  caseStatus := case.status
  caseAmountPaise := case.amountPaise
  alreadyCounted := case.recoveryVerifiedBy.isSome
  now
  windowExpiresAt := some case.windowExpiresAt
  grace := attributionGrace

def recovered (case : CaseRow) (amount : ℤ) (verifiedBy : String) (via : RecoveryVerifier)
    (now : DateTime) : CaseRow :=
  { case with
    status := .recovered
    recoveredAmountPaise := amount
    recoveryVerifiedBy := some verifiedBy
    recoveryVerifiedVia := some via
    resolvedAt := some (dbTime now) }

def organic (case : CaseRow) (now : DateTime) : CaseRow :=
  { case with status := .resolvedOrganic, resolvedAt := some (dbTime now) }

/-- `recovery.verified`, from a webhook. -/
def verifiedEvent (event : RevenueRiskEvent) (referenceId : String) (case : CaseRow)
    (amount : ℤ) : AuditEvent where
  eventName := "recovery.verified"
  actor := "webhook"
  payload := .obj [("case_id", .str case.id), ("event_id", .str event.eventId),
    ("event_type", .str event.eventType), ("reference_id", .str referenceId),
    ("amount_paise", .int amount), ("provenance", .str "RAZORPAY_VERIFIED"),
    ("note", .str ("a signed Razorpay webhook carrying a reference we issued, inside the " ++
      "attribution window, for a case we acted on"))]
  caseId := some case.id

/-- Judge a webhook on the case it found, and write what it decides. -/
def settleCase (rt : Runtime) (event : RevenueRiskEvent) (referenceId : String) (case : CaseRow)
    (issued : Option String) : Act SettlementOutcome := do
  let verdict := (facts event referenceId case issued (← Act.nowUtc)).attribution
  if verdict.counted then
    let new := recovered case verdict.amountPaise event.eventId .webhook (← Act.nowUtc)
    let (_, session) ← AuditChain.append rt { fresh := [.updateCase case new] }
      (verifiedEvent event referenceId case verdict.amountPaise)
    session.commit
    -- after a rollback the case is expired, and reading its id for the log raises
    if session.expired then throw .missingGreenlet
    else return { counted := true, reason := verdict.reason, caseId := some case.id }
  else
    if verdict.resolvesOrganically ∧ case.status ≠ .recovered ∧ case.status ≠ .resolvedOrganic then
      Act.commit [.updateCase case (organic case (← Act.nowUtc))]
    return { counted := false, reason := verdict.reason, caseId := some case.id }

/-- The session of one webhook. -/
def settle (rt : Runtime) (event : RevenueRiskEvent) (reference : Json) : Act SettlementOutcome := do
  match reference with
  | .str referenceId =>
    match ← findCase referenceId with
    | none =>
      return { counted := false
               reason := "reference " ++ Text.repr referenceId ++ " was not issued by us" }
    | some (case, issued) => settleCase rt event referenceId case issued
  | _ => throw .attributeError

/-- **`process_settlement`.** Never raises. -/
def processSettlement (rt : Runtime) (payload : Json) (eventId : String) :
    Act SettlementOutcome := do
  let event := Ingest.normalise payload eventId
  if event.eventType ∉ settlingEvents then
    return { counted := false, reason := event.eventType ++ " does not settle a payment" }
  else
    match event.referenceId with
    | none =>
      return { counted := false
               reason := "no reference_id: not attributable to any action of ours" }
    | some reference =>
      match ← (settle rt event reference).attempt with
      | .ok outcome => return outcome
      | .error _ => return { counted := false, reason := "attribution raised" }

end Settle

end AegisMerchant
