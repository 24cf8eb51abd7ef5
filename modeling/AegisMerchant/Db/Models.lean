import AegisMerchant.Base.Json
import AegisMerchant.Base.Rows
import AegisMerchant.Base.Time
import AegisMerchant.Db.Enums

/-!
# The tables

The rows the modelled code reads or writes, with the columns it uses, and the constraints the
database checks when a transaction commits. A `Database` carries the proof that its tables satisfy
them.
-/

namespace AegisMerchant

open Time

/-! ## Rows -/

structure MerchantRow where
  id : String
  /-- The kill switch of rule S-12. -/
  autopilotEnabled : Bool := true
  deriving DecidableEq, Repr

structure CustomerRow where
  id : String
  merchantId : String
  deriving DecidableEq, Repr

/-- Consent as a stored legal fact. -/
structure ConsentRow where
  customerId : String
  transactional : Bool := true
  marketing : Bool := false
  dndRegistered : Bool := false
  optedOut : Bool := false
  deriving DecidableEq, Repr

structure CaseRow where
  id : String
  merchantId : String
  customerId : String
  playbook : Playbook
  status : CaseStatus
  amountPaise : ℤ
  attemptNo : ℤ := 0
  discountBearingAttempts : ℤ := 0
  recoveredAmountPaise : ℤ := 0
  /-- The event that proved the recovery; none for an unproven case. -/
  recoveryVerifiedBy : Option String := none
  recoveryVerifiedVia : Option RecoveryVerifier := none
  /-- The merchant's own checkout link, for a case of the control arm. -/
  observedReferenceId : Option String := none
  windowExpiresAt : DateTime
  resolvedAt : Option DateTime := none
  deriving DecidableEq, Repr

/-- The intent of a two-phase execution. The payload is none when its text is not JSON. -/
structure OutboxRow where
  id : String
  caseId : String
  actionType : ActionType
  /-- The idempotency key. -/
  referenceId : String
  payloadJson : Option Json
  status : OutboxStatus := .pending
  attempt : ℤ := 0
  providerRef : Option String := none
  lastError : Option String := none
  nextAttemptAt : DateTime
  createdAt : DateTime

structure RecoveryActionRow where
  id : String
  caseId : String
  outboxId : Option String := none
  attemptNo : ℤ
  actionType : ActionType
  strategy : Option RecoveryStrategy := none
  escalationRung : Option EscalationRung := none
  messageClass : Option MessageClass := none
  discountPctApplied : ℚ := 0
  discountAmountPaise : ℤ := 0
  razorpayLinkId : Option String := none
  razorpayLinkUrl : Option String := none
  referenceId : Option String := none
  channel : Option Channel := none
  status : String := "EXECUTED"
  executedAt : DateTime
  deriving DecidableEq, Repr

structure ContactRow where
  id : String
  customerId : String
  caseId : Option String
  channel : Channel
  messageClass : MessageClass
  sentAt : DateTime
  deriving DecidableEq, Repr

structure DeadLetterRow where
  id : String
  outboxId : String
  reason : String
  errorChainJson : Json
  attempts : ℤ
  status : DLQStatus := .opened
  createdAt : DateTime
  replayedAt : Option DateTime := none

structure ApprovalRow where
  id : String
  caseId : String
  triggerRung : EscalationRung
  amountPaise : ℤ
  policyAppliedJson : String
  policyAppliedHash : String
  status : ApprovalStatus := .pending
  reviewedBy : Option String := none
  reviewNotes : Option String := none
  expiresAt : DateTime
  reviewedAt : Option DateTime := none
  deriving DecidableEq, Repr

structure AuditBlockRow where
  id : String
  blockIndex : ℤ
  caseId : Option String
  prevHash : String
  currentHash : String
  eventName : String
  actor : String
  payloadCanonical : String
  payloadHash : String
  createdAt : DateTime
  deriving DecidableEq, Repr

structure Tables where
  merchants : List MerchantRow := []
  customers : List CustomerRow := []
  consents : List ConsentRow := []
  cases : List CaseRow := []
  outbox : List OutboxRow := []
  actions : List RecoveryActionRow := []
  contacts : List ContactRow := []
  deadLetters : List DeadLetterRow := []
  approvals : List ApprovalRow := []
  blocks : List AuditBlockRow := []

/-! ## Constraints -/

/-- The constraints the database enforces: primary keys, `UNIQUE`, `CHECK` and foreign keys. -/
structure Tables.Valid (t : Tables) : Prop where
  case_id : (t.cases.map (·.id)).Nodup
  case_observed : (t.cases.filterMap (·.observedReferenceId)).Nodup
  case_amount : ∀ c ∈ t.cases, 0 < c.amountPaise ∧ 0 ≤ c.recoveredAmountPaise
  /-- `recovery_requires_proof`. -/
  case_proof : ∀ c ∈ t.cases, c.recoveredAmountPaise = 0 ∨ c.recoveryVerifiedBy.isSome
  outbox_id : (t.outbox.map (·.id)).Nodup
  outbox_reference : (t.outbox.map (·.referenceId)).Nodup
  /-- `case_action_attempt`. -/
  outbox_attempt : (t.outbox.map fun r => (r.caseId, r.actionType, r.attempt)).Nodup
  outbox_nonneg : ∀ r ∈ t.outbox, 0 ≤ r.attempt
  outbox_case : ∀ r ∈ t.outbox, ∃ c ∈ t.cases, c.id = r.caseId
  action_id : (t.actions.map (·.id)).Nodup
  action_discount : ∀ a ∈ t.actions, 0 ≤ a.discountPctApplied ∧ 0 ≤ a.discountAmountPaise
  action_case : ∀ a ∈ t.actions, ∃ c ∈ t.cases, c.id = a.caseId
  action_outbox : ∀ a ∈ t.actions, ∀ i ∈ a.outboxId, ∃ r ∈ t.outbox, r.id = i
  contact_id : (t.contacts.map (·.id)).Nodup
  contact_customer : ∀ c ∈ t.contacts, ∃ u ∈ t.customers, u.id = c.customerId
  contact_case : ∀ c ∈ t.contacts, ∀ i ∈ c.caseId, ∃ k ∈ t.cases, k.id = i
  dlq_id : (t.deadLetters.map (·.id)).Nodup
  dlq_outbox : ∀ d ∈ t.deadLetters, ∃ r ∈ t.outbox, r.id = d.outboxId
  approval_id : (t.approvals.map (·.id)).Nodup
  approval_case : ∀ a ∈ t.approvals, ∃ c ∈ t.cases, c.id = a.caseId
  block_id : (t.blocks.map (·.id)).Nodup
  block_index : (t.blocks.map (·.blockIndex)).Nodup
  block_hash : (t.blocks.map (·.currentHash)).Nodup
  block_nonneg : ∀ b ∈ t.blocks, 0 ≤ b.blockIndex
  block_case : ∀ b ∈ t.blocks, ∀ i ∈ b.caseId, ∃ c ∈ t.cases, c.id = i

/-- Each constraint is a check on finite tables. -/
instance (t : Tables) : Decidable t.Valid :=
  decidable_of_iff
    (((t.cases.map (·.id)).Nodup ∧ (t.cases.filterMap (·.observedReferenceId)).Nodup ∧
        (∀ c ∈ t.cases, 0 < c.amountPaise ∧ 0 ≤ c.recoveredAmountPaise) ∧
        (∀ c ∈ t.cases, c.recoveredAmountPaise = 0 ∨ c.recoveryVerifiedBy.isSome)) ∧
      ((t.outbox.map (·.id)).Nodup ∧ (t.outbox.map (·.referenceId)).Nodup ∧
        (t.outbox.map fun r => (r.caseId, r.actionType, r.attempt)).Nodup ∧
        (∀ r ∈ t.outbox, 0 ≤ r.attempt) ∧ (∀ r ∈ t.outbox, ∃ c ∈ t.cases, c.id = r.caseId)) ∧
      ((t.actions.map (·.id)).Nodup ∧
        (∀ a ∈ t.actions, 0 ≤ a.discountPctApplied ∧ 0 ≤ a.discountAmountPaise) ∧
        (∀ a ∈ t.actions, ∃ c ∈ t.cases, c.id = a.caseId) ∧
        (∀ a ∈ t.actions, ∀ i ∈ a.outboxId, ∃ r ∈ t.outbox, r.id = i)) ∧
      ((t.contacts.map (·.id)).Nodup ∧
        (∀ c ∈ t.contacts, ∃ u ∈ t.customers, u.id = c.customerId) ∧
        (∀ c ∈ t.contacts, ∀ i ∈ c.caseId, ∃ k ∈ t.cases, k.id = i)) ∧
      ((t.deadLetters.map (·.id)).Nodup ∧
        (∀ d ∈ t.deadLetters, ∃ r ∈ t.outbox, r.id = d.outboxId)) ∧
      ((t.approvals.map (·.id)).Nodup ∧ (∀ a ∈ t.approvals, ∃ c ∈ t.cases, c.id = a.caseId)) ∧
      ((t.blocks.map (·.id)).Nodup ∧ (t.blocks.map (·.blockIndex)).Nodup ∧
        (t.blocks.map (·.currentHash)).Nodup ∧ (∀ b ∈ t.blocks, 0 ≤ b.blockIndex) ∧
        (∀ b ∈ t.blocks, ∀ i ∈ b.caseId, ∃ c ∈ t.cases, c.id = i)))
    ⟨fun ⟨⟨c1, c2, c3, c4⟩, ⟨o1, o2, o3, o4, o5⟩, ⟨a1, a2, a3, a4⟩, ⟨n1, n2, n3⟩, ⟨d1, d2⟩,
        ⟨p1, p2⟩, b1, b2, b3, b4, b5⟩ =>
      ⟨c1, c2, c3, c4, o1, o2, o3, o4, o5, a1, a2, a3, a4, n1, n2, n3, d1, d2, p1, p2, b1, b2, b3,
        b4, b5⟩,
    fun ⟨c1, c2, c3, c4, o1, o2, o3, o4, o5, a1, a2, a3, a4, n1, n2, n3, d1, d2, p1, p2, b1, b2,
        b3, b4, b5⟩ =>
      ⟨⟨c1, c2, c3, c4⟩, ⟨o1, o2, o3, o4, o5⟩, ⟨a1, a2, a3, a4⟩, ⟨n1, n2, n3⟩, ⟨d1, d2⟩,
        ⟨p1, p2⟩, b1, b2, b3, b4, b5⟩⟩

theorem Tables.valid_empty : ({} : Tables).Valid := by decide

/-- Tables that satisfy every constraint. -/
structure Database where
  tables : Tables
  valid : tables.Valid

/-- `UtcDateTime`: what is read back is cut down to the millisecond, in UTC. -/
def dbTime (t : DateTime) : DateTime := t.truncateMs

end AegisMerchant
