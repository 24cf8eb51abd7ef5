import AegisMerchant.Ingest.Settle

/-!
# Asking the provider directly

Every reference issued for a case that has not settled is looked up, and what is paid is settled: one
session for the list, and one for each case.
-/

namespace AegisMerchant

open Time

structure ReconcileResult where
  checked : ℕ := 0
  settled : ℕ := 0
  recoveredPaise : ℤ := 0
  stillOpen : ℕ := 0
  errors : ℕ := 0
  details : List String := []

/-- `str(exc)` of what a lookup raises. -/
def PyError.text : PyError → String
  | .providerRetryable m | .providerPermanent m | .valueError m | .runtimeError m => m
  | e => e.describe

/-- `f"{paise / 100:,.2f}"`. -/
def rupeesAndPaise (paise : ℤ) : String :=
  Text.thousands (paise / 100) ++ "." ++ pad2 (paise % 100)

namespace Reconcile

/-- `_payment_id`: the first captured payment with an id. -/
def paymentId (link : PaymentLinkResult) : Option String :=
  match link.raw.get? "payments" with
  | some (.arr payments) => payments.findSome? fun payment =>
    if (payment.get? "status").bind Json.toStr? = some "captured" then
      (payment.getTrue? "payment_id" <|> payment.get? "id").bind Json.toStr?
    else none
  | _ => none

/-- `_outstanding`: the references issued for cases that have not settled yet. -/
def outstanding (t : Tables) : List (OutboxRow × CaseRow) :=
  t.outbox.flatMap fun entry =>
    if entry.status = .sent ∨ entry.status = .sending then
      (t.cases.filter fun c =>
        c.id = entry.caseId ∧ c.status = .monitoring ∧ c.recoveryVerifiedBy = none).map (entry, ·)
    else []

/-- The payment's id, unless it is empty. -/
def provingPayment (link : PaymentLinkResult) : Option String := (paymentId link).filter (· ≠ "")

/-- What proves a settlement that was read: the payment, or the link. -/
def verifier (link : PaymentLinkResult) : String := (provingPayment link).getD link.linkId

/-- `recovery.verified`, from a poll. -/
def verifiedEvent (entry : OutboxRow) (case : CaseRow) (link : PaymentLinkResult) : AuditEvent where
  eventName := "recovery.verified"
  actor := "reconciler"
  payload := .obj [("case_id", .str case.id), ("reference_id", .str entry.referenceId),
    ("razorpay_link_id", .str link.linkId), ("payment_id", .ofOption (paymentId link)),
    ("amount_paise", .int case.amountPaise), ("provenance", .str "RAZORPAY_VERIFIED"),
    ("source", .str "razorpay_api_reconciliation"), ("verified_by", .str (verifier link)),
    ("verifier_kind",
      .str (if (provingPayment link).isSome then "payment_id" else "payment_link_id")),
    ("note", .str ("read directly from Razorpay rather than received as a webhook; " ++
      "authenticated by our API key, so no signature is involved. The link id is recorded when " ++
      "the list endpoint does not populate `payments`."))]
  caseId := some case.id

/-- The session that settles one case, on the case as it reads it again. -/
def creditLink (rt : Runtime) (entry : OutboxRow) (caseId : String) (link : PaymentLinkResult) :
    Act Bool := do
  match ← Act.select (·.caseById caseId) with
  | none => return false
  | some fresh =>
    if fresh.recoveryVerifiedBy.isSome then return false
    else
      -- the amount stored is the case's, whatever the link was for
      let new := Settle.recovered fresh fresh.amountPaise (verifier link) .apiReconciliation
        (← Act.nowUtc)
      let (_, session) ← AuditChain.append rt { fresh := [.updateCase fresh new] }
        (verifiedEvent entry fresh link)
      session.commit
      return true

def pollOne (rt : Runtime) (result : ReconcileResult) (entry : OutboxRow) (case : CaseRow) :
    Act ReconcileResult := do
  let result := { result with checked := result.checked + 1 }
  match ← (Act.getPaymentLinkByReference entry.referenceId).attempt with
  | .error exc =>
    return { result with
      errors := result.errors + 1
      details := result.details ++
        [case.id ++ ": lookup failed - " ++ Text.slice 70 exc.text] }
  | .ok none =>
    return { result with
      errors := result.errors + 1
      details := result.details ++ [case.id ++ ": Razorpay does not know " ++ entry.referenceId] }
  | .ok (some link) =>
    if link.status ≠ "paid" then return { result with stillOpen := result.stillOpen + 1 }
    else if ← creditLink rt entry case.id link then
      return { result with
        settled := result.settled + 1
        recoveredPaise := result.recoveredPaise + case.amountPaise
        details := result.details ++ [case.id ++ ": paid - Rs " ++ rupeesAndPaise case.amountPaise ++
          " verified by " ++ verifier link] }
    -- credited by a webhook between the list and the case's own session
    else return { result with stillOpen := result.stillOpen + 1 }

def pollAll (rt : Runtime) : ReconcileResult → List (OutboxRow × CaseRow) → Act ReconcileResult
  | result, [] => return result
  | result, (entry, case) :: rest => do pollAll rt (← pollOne rt result entry case) rest

/-- **`reconcile_outstanding`.** -/
def reconcileOutstanding (rt : Runtime) (limit : ℕ) : Act ReconcileResult := do
  pollAll rt {} ((← Act.select outstanding).take limit)

end Reconcile

end AegisMerchant
