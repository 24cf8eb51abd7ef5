import AegisMerchant.Security.Auth
import AegisMerchant.Tools.Audit
import AegisMerchant.Tools.Outbox

/-!
# Replaying a dead letter

An operator puts a dead-lettered row back in the outbox, under the reference it always had.
-/

namespace AegisMerchant

open Time

/-- `session.get(DeadLetter, id)`. -/
def Tables.deadLetterById (t : Tables) (id : String) : Option DeadLetterRow :=
  t.deadLetters.find? fun d => d.id = id

namespace Dlq

/-- What the endpoint answers. -/
structure Replayed where
  deadLetterId : String
  outboxId : String
  referenceId : String
  requeuedAt : String

def replayEvent (dead : DeadLetterRow) (entry : OutboxRow) (principal : Principal) :
    AuditEvent where
  eventName := "dlq.replayed"
  actor := principal.auditActor
  payload := .obj [("dead_letter_id", .str dead.id), ("outbox_id", .str entry.id),
    ("case_id", .str entry.caseId), ("reference_id", .str entry.referenceId),
    ("attempts_before_replay", .int dead.attempts),
    ("note", .str ("re-queued with the ORIGINAL reference_id; provider-side uniqueness " ++
      "makes a replay of a succeeded action a no-op rather than a second charge"))]
  caseId := some entry.caseId

/-- `POST /dlq/{id}/replay`. The row is put back whatever its status is by now. -/
def replay (rt : Runtime) (principal : Principal) (deadLetterId : String) : Act Replayed := do
  match ← Act.select (·.deadLetterById deadLetterId) with
  | none => throw (.httpError 404 "No such dead letter.")
  | some dead =>
    if dead.status = .replayed then
      throw (.httpError 409 ("Already replayed at " ++
        (dead.replayedAt.map isoformat).getD "unknown" ++ "."))
    else
      match ← Act.select (·.outboxById dead.outboxId) with
      | none => throw (.httpError 409 "The underlying outbox row is gone; nothing to replay.")
      | some entry =>
        let now ← Act.nowUtc
        let session : Session :=
          { fresh := [
              .updateOutbox entry
                { entry with status := .pending, nextAttemptAt := dbTime now, lastError := none },
              .updateDeadLetter dead
                { dead with status := .replayed, replayedAt := some (dbTime now) }] }
        let (_, session) ← AuditChain.append rt session (replayEvent dead entry principal)
        session.commit
        -- after a rollback the objects are expired, and reading one for the answer raises
        if session.expired then throw .missingGreenlet
        else
          return { deadLetterId := dead.id, outboxId := entry.id
                   referenceId := entry.referenceId, requeuedAt := isoformat now }

end Dlq

end AegisMerchant
