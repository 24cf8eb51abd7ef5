import AegisMerchant.Routers.Approvals

/-!
# What happens when nothing happens

The sweeps: an approval nobody actions expires with the case that waits for it, and a deferred send
whose case is over by then is cancelled. One session holds a whole sweep, and commits it at the end.

`all_cancelAll` says what the second sweep writes.
-/

namespace AegisMerchant

open Time

namespace Scheduler

structure SweepResult where
  expiredApprovals : ℕ := 0
  /-- Deferred sends whose case was over before their time came. -/
  staleDeferrals : ℕ := 0

def SweepResult.changed (r : SweepResult) : Bool := r.expiredApprovals ≠ 0 || r.staleDeferrals ≠ 0

/-! ## Approvals -/

def overdue (now : DateTime) (t : Tables) : List ApprovalRow :=
  t.approvals.filter fun a => a.status = .pending ∧ a.expiresAt ≤ dbTime now

def expiredCase (now : DateTime) (case : CaseRow) : CaseRow :=
  { case with status := .expired, resolvedAt := some (dbTime now) }

/-- `approval.expired`. -/
def expiredEvent (approval : ApprovalRow) : AuditEvent where
  eventName := "approval.expired"
  actor := "scheduler"
  payload := .obj [("approval_id", .str approval.id), ("case_id", .str approval.caseId),
    ("amount_paise", .int approval.amountPaise),
    ("expired_at", .str (isoformat approval.expiresAt)),
    ("note", .str "no human actioned this within the TTL")]
  caseId := some approval.caseId

/-- Expire one approval, with its case and its block. -/
def expireApproval (rt : Runtime) (now : DateTime) (approval : ApprovalRow) (session : Session) :
    Act Session := do
  let session := session.add (.updateApproval approval (approval.expire now))
  let case ← session.select (·.caseById approval.caseId)
  let session := { session with fresh := session.fresh ++ releaseCase (expiredCase now) case }
  return (← AuditChain.append rt session (expiredEvent approval)).2

/-- The loop of `_expire_approvals`. -/
def expireAll (rt : Runtime) (now : DateTime) :
    List ApprovalRow → ℕ → Session → Act (ℕ × Session)
  | [], count, session => return (count, session)
  | approval :: rest, count, session => do
    -- after a rollback the rows are expired, and reading one raises
    if session.expired then throw .missingGreenlet
    else if approval.status ≠ .pending then expireAll rt now rest count session
    else expireAll rt now rest (count + 1) (← expireApproval rt now approval session)

def expireApprovals (rt : Runtime) (session : Session) : Act (ℕ × Session) := do
  let now ← Act.nowUtc
  expireAll rt now (← session.select (overdue now)) 0 { session with expired := false }

/-! ## Stale deferrals -/

/-- The sends that wait for their time. -/
def deferred (now : DateTime) (t : Tables) : List OutboxRow :=
  t.outbox.filter fun r => r.status = .pending ∧ dbTime now < r.nextAttemptAt

/-- Why a deferred send is not worth sending any more. -/
def staleReason (entry : OutboxRow) (case : CaseRow) : Option String :=
  if case.status.isTerminal then
    some ("case reached " ++ case.status.value ++ " while the send was deferred")
  else if case.windowExpiresAt < entry.nextAttemptAt then
    some ("deferred to " ++ isoformat entry.nextAttemptAt ++ ", after the recovery window closes " ++
      "at " ++ isoformat case.windowExpiresAt)
  else none

/-- `outbox.deferral_cancelled`. -/
def cancelledEvent (entry : OutboxRow) (reason : String) : AuditEvent where
  eventName := "outbox.deferral_cancelled"
  actor := "scheduler"
  payload := .obj [("outbox_id", .str entry.id), ("case_id", .str entry.caseId),
    ("reference_id", .str entry.referenceId), ("reason", .str reason),
    ("note", .str ("a held message must not be sent for a case that is over; it would spend a " ++
      "contact from a budget of two and be attributable to nothing"))]
  caseId := some entry.caseId

def cancelled (entry : OutboxRow) (reason : String) : OutboxRow :=
  { entry with status := .dead, lastError := some ("cancelled before send: " ++ reason) }

/-- The loop of `_kill_stale_deferrals`. -/
def cancelAll (rt : Runtime) : List OutboxRow → ℕ → Session → Act (ℕ × Session)
  | [], count, session => return (count, session)
  | entry :: rest, count, session => do
    if session.expired then throw .missingGreenlet
    else if entry.status ≠ .pending then cancelAll rt rest count session
    else
      match (← session.select (·.caseById entry.caseId)).bind (staleReason entry) with
      | none => cancelAll rt rest count session
      | some reason =>
        let (_, session) ← AuditChain.append rt
          (session.add (.updateOutbox entry (cancelled entry reason))) (cancelledEvent entry reason)
        cancelAll rt rest (count + 1) session

/-- **The loop's rule**: it only reads, and ends with what each cancelled send, its block
appended, keeps of the session. -/
theorem all_cancelAll {rt : Runtime} {I : Session → Prop}
    (hI : ∀ session entry reason block session', I session →
      AuditChain.Records rt (cancelledEvent entry reason) block →
        (session'.pending = (session.add (.updateOutbox entry (cancelled entry reason))).pending ++
            [.insertBlock block] ∨ session'.pending = [.insertBlock block]) → I session')
    (rows : List OutboxRow) :
    ∀ {count : ℕ} {session : Session}, I session → (cancelAll rt rows count session).All Cmd.Reads
      fun r => ∀ result, r = .ok result → I result.2 := by
  induction rows with
  | nil =>
    intro count session h result hresult
    cases hresult
    exact h
  | cons entry rest ih =>
    intro count session h
    have hselect : (session.select (·.caseById entry.caseId)).All Cmd.Reads fun _ => True :=
      ⟨trivial, fun _ => trivial⟩
    unfold cancelAll
    split
    · exact fun result hresult => by cases hresult
    · split
      · exact ih h
      · refine hselect.bind (fun case _ => ?_) fun _ _ result hresult => by cases hresult
        split
        · exact ih h
        · next reason _ =>
            refine (AuditChain.reads_append rt _ _).bind (fun appended happended => ?_)
              fun _ _ result hresult => by cases hresult
            exact ih (hI session entry reason _ _ h happended.1 happended.2)

/-- `_kill_stale_deferrals`, whose rows are read anew. -/
def killStaleDeferrals (rt : Runtime) (session : Session) : Act (ℕ × Session) := do
  let now ← Act.nowUtc
  cancelAll rt (← session.select (deferred now)) 0 { session with expired := false }

/-- **`sweep`**: every job once, then commit. -/
def sweep (rt : Runtime) : Act SweepResult := do
  let (expired, session) ← expireApprovals rt {}
  let (stale, session) ← killStaleDeferrals rt session
  session.commit
  return { expiredApprovals := expired, staleDeferrals := stale }

end Scheduler

end AegisMerchant
