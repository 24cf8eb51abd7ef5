import AegisMerchant.Services.RecoveryReport
import AegisMerchant.Workers.Batch

/-!
# What the batch stores

A run of the batch clears what an earlier one left, keeps the cases Razorpay itself proved and
records them anew, and stores each case it runs with the rows that go with it. Between two of its
commands any other service may run.
-/

namespace AegisMerchant

open Time

/-! ## The tables beside the others -/

def Tables.caseIds (t : Tables) : List String := t.cases.map (·.id)

/-- The constraints on the tables that only the batch and the reports know. -/
structure SideTables.Valid (side : SideTables) (caseIds : List String) : Prop where
  /-- `UNIQUE(idempotency_hash)`. -/
  case_hash : (caseIds.map fun i => (side.columns i).idempotencyHash).Nodup
  assignment_id : (side.assignments.map (·.caseId)).Nodup
  assignment_case : ∀ a ∈ side.assignments, a.caseId ∈ caseIds
  call_id : (side.llmCalls.map (·.id)).Nodup
  call_case : ∀ call ∈ side.llmCalls, ∀ i ∈ call.caseId, i ∈ caseIds

instance (side : SideTables) (caseIds : List String) : Decidable (side.Valid caseIds) :=
  decidable_of_iff
    ((caseIds.map fun i => (side.columns i).idempotencyHash).Nodup ∧
      (side.assignments.map (·.caseId)).Nodup ∧ (∀ a ∈ side.assignments, a.caseId ∈ caseIds) ∧
      (side.llmCalls.map (·.id)).Nodup ∧
      ∀ call ∈ side.llmCalls, ∀ i ∈ call.caseId, i ∈ caseIds)
    ⟨fun ⟨h1, h2, h3, h4, h5⟩ => ⟨h1, h2, h3, h4, h5⟩,
      fun ⟨h1, h2, h3, h4, h5⟩ => ⟨h1, h2, h3, h4, h5⟩⟩

structure BatchWorld where
  world : World
  side : SideTables
  valid : side.Valid world.db.tables.caseIds

/-- What the reports read of it. -/
def BatchWorld.books (w : BatchWorld) : Books := { w.side with db := w.world.db }

/-! ## Clearing -/

/-- Razorpay itself proved the case. -/
def CaseRow.Verified (c : CaseRow) : Prop :=
  c.recoveryVerifiedVia = some .webhook ∨ c.recoveryVerifiedVia = some .apiReconciliation

instance (c : CaseRow) : Decidable c.Verified := inferInstanceAs (Decidable (_ ∨ _))

/-- The cases a reset preserves. -/
def Tables.preserved (t : Tables) : List CaseRow := t.cases.filter fun c => c.Verified

/-- The tables without the cases that are not kept, and without the chain. What belongs to a case
goes with it; a contact only forgets its case, and an action its outbox row. -/
def Tables.keepOnly (t : Tables) (keep : List String) : Tables :=
  let outbox := t.outbox.filter fun r => r.caseId ∈ keep
  { t with
    cases := t.cases.filter fun c => c.id ∈ keep
    outbox
    actions := (t.actions.filter fun a => a.caseId ∈ keep).map fun a =>
      { a with outboxId := a.outboxId.filter fun i => i ∈ outbox.map (·.id) }
    contacts := t.contacts.map fun c => { c with caseId := c.caseId.filter fun i => i ∈ keep }
    deadLetters := t.deadLetters.filter fun d => d.outboxId ∈ outbox.map (·.id)
    approvals := t.approvals.filter fun a => a.caseId ∈ keep
    blocks := [] }

/-- The same of the other tables. A call for no case is kept when any case is. -/
def SideTables.keepOnly (side : SideTables) (keep : List String) : SideTables :=
  { side with
    assignments := side.assignments.filter fun a => a.caseId ∈ keep
    llmCalls := side.llmCalls.filter fun call => keep ≠ [] ∧ ∀ i ∈ call.caseId, i ∈ keep }

/-- What is deleted leaves every constraint. -/
theorem valid_keepOnly {t : Tables} (h : t.Valid) (keep : List String) :
    (t.keepOnly keep).Valid := by
  -- a case that is kept is still there to be referred to
  have hcase : ∀ {i : String}, i ∈ keep → (∃ c ∈ t.cases, c.id = i) →
      ∃ c ∈ (t.keepOnly keep).cases, c.id = i := by
    rintro i hi ⟨c, hc, rfl⟩
    exact ⟨c, List.mem_filter.mpr ⟨hc, by simpa using hi⟩, rfl⟩
  -- what is unique stays so among fewer rows
  have hsub : ∀ {α β : Type} (p : α → Bool) (g : α → β) (xs : List α), (xs.map g).Nodup →
      ((xs.filter p).map g).Nodup := by
    intro α β p g xs hxs
    exact hxs.sublist (List.filter_sublist.map g)
  have hmem : ∀ {α : Type} {p : α → Bool} {x : α} {xs : List α}, x ∈ xs.filter p →
      x ∈ xs ∧ p x = true := List.mem_filter.mp
  refine
    { case_id := hsub _ _ _ h.case_id
      case_observed := h.case_observed.sublist (List.filter_sublist.filterMap _)
      case_amount := fun c hc => h.case_amount c (hmem hc).1
      case_proof := fun c hc => h.case_proof c (hmem hc).1
      outbox_id := hsub _ _ _ h.outbox_id
      outbox_reference := hsub _ _ _ h.outbox_reference
      outbox_attempt := hsub _ _ _ h.outbox_attempt
      outbox_nonneg := fun r hr => h.outbox_nonneg r (hmem hr).1
      outbox_case := fun r hr => hcase (by simpa using (hmem hr).2) (h.outbox_case r (hmem hr).1)
      action_id := ?_
      action_discount := ?_
      action_case := ?_
      action_outbox := ?_
      contact_id := ?_
      contact_customer := ?_
      contact_case := ?_
      dlq_id := hsub _ _ _ h.dlq_id
      dlq_outbox := ?_
      approval_id := hsub _ _ _ h.approval_id
      approval_case := fun a ha =>
        hcase (by simpa using (hmem ha).2) (h.approval_case a (hmem ha).1)
      block_id := List.nodup_nil
      block_index := List.nodup_nil
      block_hash := List.nodup_nil
      block_nonneg := fun b hb => by cases hb
      block_case := fun b hb => by cases hb }
  · show (((t.actions.filter _).map _).map _).Nodup
    rw [List.map_map]
    exact hsub _ _ _ h.action_id
  · intro a ha
    obtain ⟨a₀, ha₀, rfl⟩ := List.mem_map.mp ha
    exact h.action_discount a₀ (hmem ha₀).1
  · intro a ha
    obtain ⟨a₀, ha₀, rfl⟩ := List.mem_map.mp ha
    exact hcase (by simpa using (hmem ha₀).2) (h.action_case a₀ (hmem ha₀).1)
  · intro a ha i hi
    obtain ⟨a₀, -, rfl⟩ := List.mem_map.mp ha
    have hkept := (Option.mem_filter_iff.mp hi).2
    exact List.mem_map.mp (of_decide_eq_true hkept)
  · show ((t.contacts.map _).map _).Nodup
    rw [List.map_map]
    exact h.contact_id
  · intro c hc
    obtain ⟨c₀, hc₀, rfl⟩ := List.mem_map.mp hc
    exact h.contact_customer c₀ hc₀
  · intro c hc i hi
    obtain ⟨c₀, hc₀, rfl⟩ := List.mem_map.mp hc
    obtain ⟨hi, hkeep⟩ := Option.mem_filter_iff.mp hi
    exact hcase (by simpa using hkeep) (h.contact_case c₀ hc₀ i hi)
  · intro d hd
    exact List.mem_map.mp (of_decide_eq_true (hmem hd).2)

theorem caseIds_keepOnly (t : Tables) (keep : List String) :
    (t.keepOnly keep).caseIds = t.caseIds.filter fun i => i ∈ keep := by
  unfold Tables.caseIds Tables.keepOnly
  rw [List.filter_map]
  rfl

theorem SideTables.Valid.keepOnly {side : SideTables} {t : Tables} (h : side.Valid t.caseIds)
    (keep : List String) : (side.keepOnly keep).Valid (t.keepOnly keep).caseIds := by
  rw [caseIds_keepOnly]
  refine ⟨h.case_hash.sublist (List.filter_sublist.map _),
    h.assignment_id.sublist (List.filter_sublist.map _), fun a ha => ?_,
    h.call_id.sublist (List.filter_sublist.map _), fun call hcall i hi => ?_⟩
  · obtain ⟨ha, hkeep⟩ := List.mem_filter.mp ha
    exact List.mem_filter.mpr ⟨h.assignment_case a ha, hkeep⟩
  · obtain ⟨hcall, hkeep⟩ := List.mem_filter.mp hcall
    have hkeep : keep ≠ [] ∧ ∀ i ∈ call.caseId, i ∈ keep := by simpa using hkeep
    exact List.mem_filter.mpr ⟨h.call_case call hcall i hi, by simpa using hkeep.2 i hi⟩

/-! ## Storing a case -/

structure CaseSession where
  case : CaseRow
  columns : CaseColumns
  calls : List LLMCallRow := []
  assignment : Option AssignmentRow := none
  approval : Option ApprovalRow := none
  action : Option RecoveryActionRow := none
  block : Option AuditBlockRow := none

def Tables.insertCase (t : Tables) (s : CaseSession) : Tables :=
  { t with
    cases := t.cases ++ [s.case]
    approvals := t.approvals ++ s.approval.toList
    actions := t.actions ++ s.action.toList
    blocks := t.blocks ++ s.block.toList }

def SideTables.insertCase (side : SideTables) (s : CaseSession) : SideTables where
  columns := Function.update side.columns s.case.id s.columns
  assignments := side.assignments ++ s.assignment.toList
  llmCalls := side.llmCalls ++ s.calls

/-! ## Commands -/

/-- What the batch asks of the database, besides what every service asks. -/
inductive BatchCmd : Type → Type 1 where
  | serve {β : Type} (c : Cmd β) : BatchCmd β
  /-- The deletions of `_clear`, committed. -/
  | clear (keep : List String) : BatchCmd Unit
  | flush (s : CaseSession) : BatchCmd (Except PyError Unit)
  | commit (s : CaseSession) : BatchCmd (Except PyError Unit)

namespace BatchWorld

/-- The world after one of the services' commands, which leave the ids of the cases alone. -/
theorem valid_exec {β : Type} (c : Cmd β) (w : BatchWorld) :
    w.side.Valid (World.handler.exec c w.world).2.db.tables.caseIds := by
  have hids : (World.handler.exec c w.world).2.db.tables.caseIds = w.world.db.tables.caseIds := by
    refine World.exec_keeps_tables (I := fun t => t.caseIds = w.world.db.tables.caseIds)
      (fun t write ht => ?_) c w.world rfl
    rw [← ht]
    cases write with
    | updateCase read new => exact Rows.map_updateWhere (f := read.store new) (·.id) fun _ => rfl
    | _ => rfl
  rw [hids]
  exact w.valid

def advance (w : BatchWorld) : BatchWorld := { w with world := w.world.advance }

def keepOnly (w : BatchWorld) (keep : List String) : BatchWorld where
  world := { w.world with db := ⟨_, valid_keepOnly w.world.db.valid keep⟩ }
  side := w.side.keepOnly keep
  valid := w.valid.keepOnly keep

/-- Store the rows of a session. None stands for an `IntegrityError`. -/
def insert? (w : BatchWorld) (s : CaseSession) : Option BatchWorld :=
  if h : (w.world.db.tables.insertCase s).Valid ∧
      (w.side.insertCase s).Valid (w.world.db.tables.insertCase s).caseIds then
    some
      { world := { w.world with db := ⟨_, h.1⟩ }
        side := w.side.insertCase s
        valid := h.2 }
  else none

/-- Serve one command. The history of a world has the transactions of its services only. -/
def serve : {β : Type} → BatchCmd β → BatchWorld → β × BatchWorld
  | _, .serve c, w =>
    ((World.handler.exec c w.world).1,
      { world := (World.handler.exec c w.world).2, side := w.side, valid := valid_exec c w })
  | _, .clear keep, w => ((), w.advance.keepOnly keep)
  | _, .flush s, w =>
    match w.insert? s with
    | some _ => (.ok (), w.advance)
    | none => (.error .integrityError, w.advance)
  | _, .commit s, w =>
    match w.insert? s with
    | some w' => (.ok (), w'.advance)
    | none => (.error .integrityError, w.advance)

def handler : Handler BatchCmd BatchWorld where
  exec := serve

/-- A flush answers whether the rows can be stored, and stores nothing yet. -/
theorem exec_flush (s : CaseSession) (w : BatchWorld) :
    handler.exec (.flush s) w =
      (if (w.insert? s).isSome then .ok () else .error .integrityError, w.advance) := by
  simp only [handler, serve]
  cases w.insert? s <;> rfl

theorem exec_commit (s : CaseSession) (w : BatchWorld) :
    handler.exec (.commit s) w =
      (if (w.insert? s).isSome then .ok () else .error .integrityError,
        ((w.insert? s).getD w).advance) := by
  simp only [handler, serve]
  cases w.insert? s <;> rfl

end BatchWorld

abbrev BatchAct := Prog BatchCmd PyError

namespace BatchAct

/-- A program of the services'. -/
def serve {α : Type} (p : Act α) : BatchAct α := p.mapCmd BatchCmd.serve

/-- A command whose answer may be an exception. -/
def call {α : Type} (c : BatchCmd (Except PyError α)) : BatchAct α := do
  liftExcept (← (Prog.lift c : BatchAct _))

end BatchAct

/-! ## The corpus, by its attempts -/

/-- A payment attempt of the corpus, with its id. -/
structure AttemptRow extends CorpusRow where
  id : String

def idempotencyHash (rt : Runtime) (merchantId orderRef playbook : String) : String :=
  rt.sha256 (merchantId ++ "|" ++ orderRef ++ "|" ++ playbook)

namespace BatchStore

open Batch BatchAct

/-! ## The reset -/

def clear : BatchAct Unit := do
  let preserved ← serve (Act.select (·.preserved))
  Prog.lift (.clear (preserved.map (·.id)))

/-- The block that records a case was carried over. -/
def carriedOverEvent (case : CaseRow) : AuditEvent where
  eventName := "case.carried_over"
  actor := "batch:reset"
  payload := .obj [("case_id", .str case.id),
    ("recovered_amount_paise", .int case.recoveredAmountPaise),
    ("recovery_verified_by", .ofOption case.recoveryVerifiedBy),
    ("recovery_verified_via", .ofOption (case.recoveryVerifiedVia.map (·.value))),
    ("note", .str ("Razorpay proved this payment, so the batch reset preserved the case. Its " ++
      "original blocks were in the previous chain; this block records the carry-over in the " ++
      "rebuilt one (INC-032)."))]
  caseId := some case.id

/-- The blocks of the preserved cases, in one session. Its cases are expired after a rollback, and
reading one then raises. -/
def carryOver (rt : Runtime) : List CaseRow → Session → Act Session
  | [], session => return session
  | case :: rest, session => do
    if session.expired then throw .missingGreenlet
    let (_, session) ← AuditChain.append rt session (carriedOverEvent case)
    carryOver rt rest session

def recordCarriedOver (rt : Runtime) : Act (List String) := do
  let preserved ← Act.select (·.preserved)
  let session ← carryOver rt preserved {}
  session.commit
  if session.expired then throw .missingGreenlet
  return preserved.map (·.id)

/-! ## One case -/

/-- The columns of a case that only the batch sets. -/
def columnsOf (rt : Runtime) (attempt : AttemptRow) (playbook : Playbook) : CaseColumns where
  attemptId := some attempt.id
  idempotencyHash := idempotencyHash rt attempt.merchantId attempt.id playbook.value

def callRows (caseId : String) : List LLMCallRecord → Act (List LLMCallRow)
  | [] => return []
  | entry :: rest => do
    let id ← Act.freshId "llmcall"
    let rows ← callRows caseId rest
    return { id, caseId := some caseId, inputTokens := entry.inputTokens.toNat
             outputTokens := entry.outputTokens.toNat } :: rows

/-- The block of a case in the case's own session, and the commit. -/
def appendCommit (rt : Runtime) (session : CaseSession) (e : AuditEvent) : BatchAct Unit := do
  let head ← serve (Act.select (·.head))
  let created ← serve Act.nowUtc
  let block := e.block rt head (← serve (Act.freshId "blk")) created
  let stored := { session with block := some block }
  match ← (call (.flush stored)).attempt with
  | .ok () => call (.commit stored)
  | .error .integrityError =>
    -- everything uncommitted goes with the block, which is tried again alone
    let (_, retried) ← serve
      (AuditChain.appendLoop rt e (AuditChain.appendRetries - 1) { expired := true })
    serve retried.commit
  | .error exc => throw exc

/-- Store a case: its row first, and what goes with it under the lock the row took. -/
def storeCase (rt : Runtime) (c : BatchConfig) (attempt : AttemptRow) (r : BatchRecord) :
    BatchAct Unit := do
  let session : CaseSession :=
    { case := r.case, columns := columnsOf rt attempt r.case.playbook }
  call (.flush session)
  let calls ← serve (callRows r.case.id r.llmLedger)
  let assignment : AssignmentRow :=
    { caseId := r.case.id, experimentKey := c.experimentKey, arm := r.arm
      assignmentHash := r.assignmentHash }
  appendCommit rt
    { session with calls, assignment, approval := r.approval, action := r.action } r.event

/-- One turn of the loop: the case is run, and its record stored. -/
def storeRow (rt : Runtime) (c : BatchConfig) (now : DateTime) (tally : BatchTally)
    (attempt : AttemptRow) (playbook : Playbook) : BatchAct BatchTally := do
  let tally' ← serve (runRow rt c now tally attempt.toCorpusRow playbook)
  match tally'.records.getLast? with
  | some r => storeCase rt c attempt r
  | none => pure ()
  return tally'

def storeRows (rt : Runtime) (c : BatchConfig) (now : DateTime) :
    BatchTally → List AttemptRow → BatchAct BatchTally
  | tally, [] => return tally
  | tally, attempt :: rest =>
    match playbookFor attempt.kind attempt.status with
    | none => storeRows rt c now tally rest
    | some playbook =>
      if ∃ limit ∈ c.limit, limit ≤ tally.created then return tally
      else do storeRows rt c now (← storeRow rt c now tally attempt playbook) rest

/-- **`run_batch`**, with what it stores: the tally, and the ids of the cases carried over. -/
def runBatch (rt : Runtime) (c : BatchConfig) (corpus : List AttemptRow) :
    BatchAct (BatchTally × List String) := do
  if corpus = [] then
    throw (.runtimeError ("no payment attempts in the database: there is nothing to build cases " ++
      "from. Run `python tasks.py seed` (or `python tasks.py demo`, which seeds for you)."))
  else
    clear
    let carried ← serve (recordCarriedOver rt)
    let now ← serve Act.nowUtc
    return (← storeRows rt c now {} corpus, carried)

end BatchStore

end AegisMerchant
