import AegisMerchant.Tools.Outbox

/-!
# The outbox drainer

Retries the rows whose backoff has elapsed and resumes the ones a crash left behind, each with the
reference it was committed under.
-/

namespace AegisMerchant

open Time

structure DrainReport where
  considered : ℕ := 0
  retried : ℕ := 0
  recovered : ℕ := 0
  failed : ℕ := 0
  skippedTerminal : ℕ := 0
  details : List String := []

def DrainReport.record (report : DrainReport) (row : OutboxRow) (result : RecoveryState) :
    DrainReport :=
  match result.status with
  | .monitoring =>
    { report with
      recovered := report.recovered + 1
      details := report.details ++ [row.referenceId ++ ": resumed -> " ++ result.status.value] }
  | .failedPermanent =>
    { report with
      failed := report.failed + 1
      details := report.details ++ [row.referenceId ++ ": dead-lettered"] }
  | _ =>
    { report with
      retried := report.retried + 1
      details := report.details ++ [row.referenceId ++ ": still " ++ row.status.value] }

structure OutboxDrainer where
  executor : OutboxExecutor := {}
  staleAfterS : ℤ := 60

namespace OutboxDrainer

/-- Rows whose backoff has elapsed, the earliest first. -/
def due : Act (List OutboxRow) := do
  let now ← Act.nowUtc
  Act.select fun t =>
    (t.outbox.filter fun r => r.status = .pending ∧ r.nextAttemptAt ≤ dbTime now).insertionSort
      fun r r' => r.nextAttemptAt ≤ r'.nextAttemptAt

/-- Rows a crash left mid-flight. -/
def stale (d : OutboxDrainer) : Act (List OutboxRow) := do
  let cutoff := (← Act.nowUtc).add (-(d.staleAfterS * second))
  Act.select fun t =>
    t.outbox.filter fun r =>
      (r.status = .pending ∨ r.status = .sending) ∧ r.createdAt ≤ dbTime cutoff

def rows (d : OutboxDrainer) (includeStale : Bool) : Act (List OutboxRow) := do
  let due ← due
  if includeStale then
    return due ++ (← d.stale).filter fun r => r.id ∉ due.map (·.id)
  else return due

/-- The state a committed intent is re-executed in. -/
def stateOf (case : CaseRow) (applied : AppliedAction) (token : PolicyToken) : RecoveryState where
  caseId := case.id
  merchantId := case.merchantId
  customerId := case.customerId
  playbook := case.playbook
  status := case.status
  amountPaise := case.amountPaise
  attemptNo := case.attemptNo
  policyApplied := some applied
  policyToken := some token

/-- Reconstruct enough state to re-execute a committed intent; none when the case is over. -/
def rebuildState (rt : Runtime) (row : OutboxRow) : Act (Option RecoveryState) := do
  match ← Act.select (·.caseById row.caseId) with
  | none => return none
  | some case =>
    if case.status.isTerminal then return none
    else
      let (applied, token) ←
        liftExcept (reissueFromCommittedIntent rt row.payloadJson (← Act.nowUtc))
      return some (stateOf case applied token)

def markDead (outboxId reason : String) : Act Unit := do
  match ← Act.select (·.outboxById outboxId) with
  | none => return ()
  | some row =>
    Act.commit [.updateOutbox row
      { row with status := .dead, lastError := some (Text.slice 500 reason) }]

def drainRow (rt : Runtime) (d : OutboxDrainer) (report : DrainReport) (row : OutboxRow) :
    Act DrainReport := do
  let report := { report with considered := report.considered + 1 }
  match ← rebuildState rt row with
  | none =>
    markDead row.id "case reached a terminal state"
    return { report with
      skippedTerminal := report.skippedTerminal + 1
      details := report.details ++ [row.referenceId ++ ": case is terminal, dropping"] }
  | some state => return report.record row (← d.executor.execute rt state)

/-- The loop over the rows of a pass. A row that raises ends it. -/
def drainRows (rt : Runtime) (d : OutboxDrainer) : DrainReport → List OutboxRow → Act DrainReport
  | report, [] => return report
  | report, row :: rest => do
    let report ← d.drainRow rt report row
    d.drainRows rt report rest

def drainOnce (rt : Runtime) (d : OutboxDrainer) (includeStale : Bool) : Act DrainReport := do
  d.drainRows rt {} (← d.rows includeStale)

end OutboxDrainer

end AegisMerchant
