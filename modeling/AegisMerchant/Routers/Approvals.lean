import AegisMerchant.Security.Auth
import AegisMerchant.Tools.Audit
import AegisMerchant.Tools.Outbox

/-!
# Actioning an approval

A reviewer approves or rejects what was shown to them. The approval is read in one step and written
in a later one, with the case that waits for it and the block that records the decision.
-/

namespace AegisMerchant

open Time

/-- `session.get(ApprovalRequest, id)`. -/
def Tables.approvalById (t : Tables) (id : String) : Option ApprovalRow :=
  t.approvals.find? fun a => a.id = id

def ApprovalRow.expire (a : ApprovalRow) (now : DateTime) : ApprovalRow :=
  { a with status := .expired, reviewedAt := some (dbTime now) }

/-- The change of a case that waits for an approval; any other is left as it is. -/
def releaseCase (released : CaseRow → CaseRow) : Option CaseRow → List Write
  | some case =>
    if case.status = .awaitingApproval then [.updateCase case (released case)] else []
  | none => []

/-- A release changes a case, if anything. -/
theorem mem_releaseCase {released : CaseRow → CaseRow} {case : Option CaseRow} {write : Write}
    (h : write ∈ releaseCase released case) : ∃ read new, write = .updateCase read new := by
  cases case with
  | none => cases h
  | some case =>
    by_cases hwaits : case.status = .awaitingApproval
    · rw [releaseCase, if_pos hwaits] at h
      exact ⟨_, _, List.mem_singleton.mp h⟩
    · rw [releaseCase, if_neg hwaits] at h
      cases h

namespace Approvals

structure ActionRequest where
  approve : Bool
  policyAppliedHash : String
  notes : Option String := none
  hash_length : policyAppliedHash.length = 64
  notes_length : ∀ n ∈ notes, n.length ≤ 1000

/-- What the endpoint answers. -/
structure Actioned where
  id : String
  status : ApprovalStatus
  reviewedBy : String
  reviewedAt : String
  caseStatus : Option CaseStatus
  whatHappensNext : String

def decided (approval : ApprovalRow) (body : ActionRequest) (principal : Principal)
    (now : DateTime) : ApprovalRow :=
  { approval with
    status := if body.approve then .approved else .rejected
    reviewedAt := some (dbTime now)
    reviewedBy := some principal.auditActor
    reviewNotes := body.notes }

def released (body : ActionRequest) (now : DateTime) (case : CaseRow) : CaseRow :=
  if body.approve then { case with status := .strategyFormed }
  else { case with status := .rejected, resolvedAt := some (dbTime now) }

def decisionEvent (approval : ApprovalRow) (body : ActionRequest) (principal : Principal) :
    AuditEvent where
  eventName := if body.approve then "approval.approved" else "approval.rejected"
  actor := principal.auditActor
  payload := .obj [("approval_id", .str approval.id), ("case_id", .str approval.caseId),
    ("amount_paise", .int approval.amountPaise), ("trigger_rung", .str approval.triggerRung.value),
    ("policy_applied", .str approval.policyAppliedJson),
    ("policy_applied_hash", .str approval.policyAppliedHash),
    ("notes", .ofOption body.notes),
    ("unauthenticated_principal", .bool principal.unauthenticated)]
  caseId := some approval.caseId

def whatHappensNext (approve : Bool) : String :=
  if approve then
    "The authorisation is recorded and hash-pinned in the audit ledger; the case moved to " ++
      "STRATEGY_FORMED. Nothing was dispatched: this build has no worker that executes approved " ++
      "actions, because the seeded corpus has no real customers to contact. In a deployment the " ++
      "outbox drainer would pick this up. To watch a real dispatch end to end, use the Test Mode " ++
      "panel -- that path calls Razorpay."
  else
    "The case is closed as REJECTED. Nothing was dispatched, and the rejection is recorded in the " ++
      "audit ledger."

/-- Record a decision on an approval that is still open. -/
def decide (rt : Runtime) (principal : Principal) (body : ActionRequest) (approval : ApprovalRow)
    (now : DateTime) : Act Actioned := do
  let case ← Act.select (·.caseById approval.caseId)
  let session : Session :=
    { fresh := .updateApproval approval (decided approval body principal now) ::
        releaseCase (released body now) case }
  let (_, session) ← AuditChain.append rt session (decisionEvent approval body principal)
  session.commit
  -- after a rollback the objects are expired, and reading one for the answer raises
  if session.expired then throw .missingGreenlet
  else
    return {
      id := approval.id
      status := (decided approval body principal now).status
      reviewedBy := principal.auditActor
      reviewedAt := isoformat now
      caseStatus := case.map fun c =>
        if c.status = .awaitingApproval then (released body now c).status else c.status
      whatHappensNext := whatHappensNext body.approve }

/-- **`POST /approvals/{id}/action`.** -/
def actionApproval (rt : Runtime) (principal : Principal) (approvalId : String)
    (body : ActionRequest) : Act Actioned := do
  match ← Act.select (·.approvalById approvalId) with
  | none => throw (.httpError 404 "No such approval.")
  | some approval =>
    let now ← Act.nowUtc
    if approval.status ≠ .pending then
      throw (.httpError 409 ("This approval is already " ++ approval.status.value ++ "."))
    else if approval.expiresAt ≤ now then
      -- the case and the chain are left as they are
      Act.commit [.updateApproval approval (approval.expire now)]
      throw (.httpError 409 ("This approval expired at " ++ isoformat approval.expiresAt ++
        " and has been marked EXPIRED. Re-run the case to produce a fresh proposal."))
    else
      liftExcept (verifyApprovalHash body.policyAppliedHash approval.policyAppliedHash)
      decide rt principal body approval now

end Approvals

end AegisMerchant
