import AegisMerchant.Db.Models

/-!
# Transactions

The statements a session flushes, and what committing a list of them does: all of it, or nothing
when the result breaks a constraint. An `UPDATE` of the ORM sets the columns its object changed
since it was read, whatever the row holds by then.
-/

namespace AegisMerchant

open Rows

/-- One row written by a flush. An update carries the row as it was read and as it was left. -/
inductive Write where
  | insertOutbox (row : OutboxRow)
  | updateOutbox (read new : OutboxRow)
  | insertAction (row : RecoveryActionRow)
  | insertContact (row : ContactRow)
  | insertDeadLetter (row : DeadLetterRow)
  | updateDeadLetter (read new : DeadLetterRow)
  | updateCase (read new : CaseRow)
  | updateApproval (read new : ApprovalRow)
  | insertBlock (row : AuditBlockRow)

/-- A statement outside the outbox, the actions and the contacts. -/
def Write.Aside : Write → Prop
  | .insertOutbox _ | .updateOutbox _ _ | .insertAction _ | .insertContact _ => False
  | _ => True

instance : (w : Write) → Decidable w.Aside
  | .insertOutbox _ | .updateOutbox _ _ | .insertAction _ | .insertContact _ =>
    inferInstanceAs (Decidable False)
  | .insertDeadLetter _ | .updateDeadLetter _ _ | .updateCase _ _ | .updateApproval _ _
  | .insertBlock _ => inferInstanceAs (Decidable True)

/-! ## Updates, column by column -/

def OutboxRow.store (read new row : OutboxRow) : OutboxRow :=
  { row with
    status := dirty read.status new.status row.status
    attempt := dirty read.attempt new.attempt row.attempt
    providerRef := dirty read.providerRef new.providerRef row.providerRef
    lastError := dirty read.lastError new.lastError row.lastError
    nextAttemptAt := dirty read.nextAttemptAt new.nextAttemptAt row.nextAttemptAt }

def DeadLetterRow.store (read new row : DeadLetterRow) : DeadLetterRow :=
  { row with
    status := dirty read.status new.status row.status
    replayedAt := dirty read.replayedAt new.replayedAt row.replayedAt }

def CaseRow.store (read new row : CaseRow) : CaseRow :=
  { row with
    status := dirty read.status new.status row.status
    recoveredAmountPaise :=
      dirty read.recoveredAmountPaise new.recoveredAmountPaise row.recoveredAmountPaise
    recoveryVerifiedBy := dirty read.recoveryVerifiedBy new.recoveryVerifiedBy row.recoveryVerifiedBy
    recoveryVerifiedVia :=
      dirty read.recoveryVerifiedVia new.recoveryVerifiedVia row.recoveryVerifiedVia
    resolvedAt := dirty read.resolvedAt new.resolvedAt row.resolvedAt }

def ApprovalRow.store (read new row : ApprovalRow) : ApprovalRow :=
  { row with
    status := dirty read.status new.status row.status
    reviewedBy := dirty read.reviewedBy new.reviewedBy row.reviewedBy
    reviewNotes := dirty read.reviewNotes new.reviewNotes row.reviewNotes
    reviewedAt := dirty read.reviewedAt new.reviewedAt row.reviewedAt }

/-! ## Committing -/

/-- The tables after one statement. -/
def Tables.apply (t : Tables) : Write → Tables
  | .insertOutbox row => { t with outbox := t.outbox ++ [row] }
  | .updateOutbox read new =>
    { t with outbox := updateWhere (·.id) read.id (read.store new) t.outbox }
  | .insertAction row => { t with actions := t.actions ++ [row] }
  | .insertContact row => { t with contacts := t.contacts ++ [row] }
  | .insertDeadLetter row => { t with deadLetters := t.deadLetters ++ [row] }
  | .updateDeadLetter read new =>
    { t with deadLetters := updateWhere (·.id) read.id (read.store new) t.deadLetters }
  | .updateCase read new =>
    { t with cases := updateWhere (·.id) read.id (read.store new) t.cases }
  | .updateApproval read new =>
    { t with approvals := updateWhere (·.id) read.id (read.store new) t.approvals }
  | .insertBlock row => { t with blocks := t.blocks ++ [row] }

/-- The tables after the statements of one transaction. -/
def Tables.applyAll (t : Tables) (ws : List Write) : Tables := ws.foldl Tables.apply t

/-- Commit a transaction. None stands for an `IntegrityError`: nothing is written. -/
def Database.commit (db : Database) (ws : List Write) : Option Database :=
  if h : (db.tables.applyAll ws).Valid then some ⟨db.tables.applyAll ws, h⟩ else none

/-- A transaction that commits leaves its statements applied. -/
theorem Database.commit_eq_some {db db' : Database} {ws : List Write} :
    db.commit ws = some db' ↔ db'.tables = db.tables.applyAll ws := by
  unfold Database.commit
  split
  · next h =>
      constructor
      · intro heq
        cases heq
        rfl
      · intro heq
        cases db'
        cases heq
        rfl
  · next h =>
      constructor
      · intro heq
        cases heq
      · intro heq
        exact absurd (heq ▸ db'.valid) h

/-- A transaction is refused exactly when it would break a constraint. -/
theorem Database.commit_eq_none {db : Database} {ws : List Write} :
    db.commit ws = none ↔ ¬(db.tables.applyAll ws).Valid := by
  unfold Database.commit
  split
  · next h => exact iff_of_false (by simp) (not_not.mpr h)
  · next h => exact iff_of_true rfl h

@[simp] theorem Tables.applyAll_nil (t : Tables) : t.applyAll [] = t := rfl

@[simp] theorem Tables.applyAll_cons (t : Tables) (w : Write) (ws : List Write) :
    t.applyAll (w :: ws) = (t.apply w).applyAll ws := rfl

theorem Tables.applyAll_append (t : Tables) (ws ws' : List Write) :
    t.applyAll (ws ++ ws') = (t.applyAll ws).applyAll ws' := List.foldl_append

end AegisMerchant
