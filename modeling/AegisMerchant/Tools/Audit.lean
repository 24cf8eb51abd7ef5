import AegisMerchant.Core.World

/-!
# The audit chain

`H_n = SHA256(H_{n-1} || payload || block_index || created_at)`. A block is flushed in the caller's
session, which the caller commits; a block index another writer took meanwhile rolls the session
back and is tried again.
-/

namespace AegisMerchant

open Time

/-- A session that may flush before it commits. -/
structure Session where
  /-- Flushed, in the open transaction. -/
  sent : List Write := []
  /-- Added or changed since the last flush. -/
  fresh : List Write := []
  /-- A rollback happened: the objects of the session are expired. -/
  expired : Bool := false

namespace Session

/-- `session.add`, or an attribute set on a loaded object. -/
def add (s : Session) (w : Write) : Session := { s with fresh := s.fresh ++ [w] }

/-- Everything the session holds that is not committed. -/
def pending (s : Session) : List Write := s.sent ++ s.fresh

/-- A query, which sees what the session flushed. -/
def select {β : Type} (s : Session) (q : Tables → β) : Act β := Prog.lift (.select s.sent q)

def flush (s : Session) : Act Session := do
  Act.call (.flush s.sent s.fresh)
  return { s with sent := s.pending, fresh := [] }

/-- Nothing uncommitted survives. -/
def rollback (_ : Session) : Session := { expired := true }

def commit (s : Session) : Act Unit := Act.commit s.pending

end Session

/-! ## Hashing -/

def genesisHash : String := String.ofList (List.replicate 64 '0')

/-- `_FS`, the unit separator. -/
def fieldSeparator : String := "\x1f"

/-- `to_db_iso`: the storage text of an instant, to the millisecond. -/
def toDbIso (t : DateTime) : String :=
  let u := t.astimezone 0
  let (year, month, dom) := civilFromDays u.wallDay
  let s := u.wallTime / second
  toString year ++ "-" ++ pad2 month ++ "-" ++ pad2 dom ++ "T" ++ pad2 (s / 3600) ++ ":" ++
    pad2 (s / 60 % 60) ++ ":" ++ pad2 (s % 60) ++ "." ++
    Text.padNat 3 (u.wallTime % second / 1000).toNat ++ "Z"

def payloadDigest (rt : Runtime) (payloadCanonical : String) : String := rt.sha256 payloadCanonical

def computeBlockHash (rt : Runtime) (prevHash payloadCanonical : String) (blockIndex : ℤ)
    (createdAt : DateTime) : String :=
  rt.sha256 (fieldSeparator.intercalate
    [prevHash, payloadCanonical, toString blockIndex, toDbIso createdAt])

/-! ## Appending -/

/-- The block with the greatest index. -/
def Tables.head (t : Tables) : Option AuditBlockRow :=
  (t.blocks.insertionSort fun b b' => b'.blockIndex ≤ b.blockIndex).head?

structure AuditEvent where
  eventName : String
  actor : String
  payload : Json
  caseId : Option String := none

/-- The block that follows `head`. -/
def AuditEvent.block (rt : Runtime) (e : AuditEvent) (head : Option AuditBlockRow) (id : String)
    (created : DateTime) : AuditBlockRow :=
  let index := head.elim 0 (·.blockIndex + 1)
  let prev := head.elim genesisHash (·.currentHash)
  let canonical := e.payload.dumps rt.floatRepr
  { id
    blockIndex := index
    caseId := e.caseId
    prevHash := prev
    currentHash := computeBlockHash rt prev canonical index created
    eventName := e.eventName
    actor := e.actor
    payloadCanonical := canonical
    payloadHash := payloadDigest rt canonical
    createdAt := dbTime created }

namespace AuditChain

def appendRetries : ℕ := 3

/-- The loop of `append`, with the number of tries left. -/
def appendLoop (rt : Runtime) (e : AuditEvent) : ℕ → Session → Act (AuditBlockRow × Session)
  | 0, _ => throw (.runtimeError "unreachable: append loop exhausted without returning")
  | tries + 1, session => do
    let head ← session.select (·.head)
    let created ← Act.nowUtc
    let block := e.block rt head (← Act.freshId "blk") created
    match ← (session.add (.insertBlock block)).flush.attempt with
    | .ok flushed => return (block, flushed)
    | .error .integrityError =>
      -- another writer took this index: everything uncommitted goes with the block
      if tries = 0 then throw .integrityError else appendLoop rt e tries session.rollback
    | .error exc => throw exc

/-- Append one block and flush it. The caller commits. -/
def append (rt : Runtime) (session : Session) (e : AuditEvent) : Act (AuditBlockRow × Session) :=
  appendLoop rt e appendRetries session

/-- A block that records an event after some head of the chain. -/
def Records (rt : Runtime) (e : AuditEvent) (block : AuditBlockRow) : Prop :=
  ∃ head id created, block = e.block rt head id created

theorem Records.eventName {rt : Runtime} {e : AuditEvent} {block : AuditBlockRow}
    (h : Records rt e block) : block.eventName = e.eventName := by
  obtain ⟨head, id, created, rfl⟩ := h
  rfl

theorem Records.caseId {rt : Runtime} {e : AuditEvent} {block : AuditBlockRow}
    (h : Records rt e block) : block.caseId = e.caseId := by
  obtain ⟨head, id, created, rfl⟩ := h
  rfl

/-- What an append hands back: a block for the event, in a session that holds it along with
everything the caller had, or alone. -/
def Appended (rt : Runtime) (e : AuditEvent) (held : List Write) :
    Except PyError (AuditBlockRow × Session) → Prop
  | .ok (block, session) => Records rt e block ∧
      (session.pending = held ++ [.insertBlock block] ∨ session.pending = [.insertBlock block])
  | .error _ => True

/-- The loop commits nothing, and asks the provider for nothing. -/
theorem all_appendLoop (rt : Runtime) (e : AuditEvent) (tries : ℕ) (session : Session) :
    (appendLoop rt e tries session).All Cmd.Reads (Appended rt e session.pending) := by
  induction tries generalizing session with
  | zero => trivial
  | succ tries ih =>
    unfold appendLoop Session.flush Session.select
    simp only [Prog.all_bind, Prog.all_lift, Act.all_nowUtc, Act.all_freshId, Prog.all_attempt,
      Act.all_call]
    refine ⟨trivial, fun head => ⟨trivial, fun created => ⟨trivial, fun hex => ⟨trivial, ?_⟩⟩⟩⟩
    rintro (exc | ⟨⟩)
    · cases exc with
      | integrityError =>
        simp only
        split
        · trivial
        · refine (ih session.rollback).mono (fun _ h => h) fun r h => ?_
          rcases r with exc | ⟨block, session'⟩
          · trivial
          · exact ⟨h.1, .inr (h.2.elim id id)⟩
      | _ => trivial
    · exact ⟨⟨head, _, created, rfl⟩, .inl (by simp [Session.pending, Session.add])⟩

theorem reads_append (rt : Runtime) (session : Session) (e : AuditEvent) :
    (append rt session e).All Cmd.Reads (Appended rt e session.pending) :=
  all_appendLoop rt e appendRetries session

theorem all_append (rt : Runtime) (session : Session) (e : AuditEvent) :
    (append rt session e).All Cmd.Quiet (Appended rt e session.pending) :=
  (reads_append rt session e).mono (fun _ h => h.quiet) fun _ h => h

end AuditChain

/-! ## Verifying -/

structure ChainVerification where
  valid : Bool
  blocks : ℕ
  firstDivergenceIndex : Option ℤ := none
  reason : String
  headHash : Option String := none
  deriving DecidableEq, Repr

namespace AuditChain

/-- The loop of `verify_blocks`, from one position on. -/
def verifyFrom (rt : Runtime) (total : ℕ) :
    ℕ → String → List AuditBlockRow → ChainVerification
  | _, prevHash, [] =>
    { valid := true, blocks := total, headHash := some prevHash
      reason := "chain is internally consistent. Note that tail truncation cannot be detected from " ++
        "the chain alone: compare head_hash against a previously recorded value to rule it out." }
  | position, prevHash, block :: rest =>
    if block.blockIndex ≠ position then
      { valid := false, blocks := total, firstDivergenceIndex := some position
        reason := "block at position " ++ toString position ++ " claims index " ++
          toString block.blockIndex ++ ": a block was deleted, reordered, or inserted" }
    else if payloadDigest rt block.payloadCanonical ≠ block.payloadHash then
      { valid := false, blocks := total, firstDivergenceIndex := some block.blockIndex
        reason := "block " ++ toString block.blockIndex ++
          ": payload does not match its stored hash" }
    else if block.prevHash ≠ prevHash then
      { valid := false, blocks := total, firstDivergenceIndex := some block.blockIndex
        reason := "block " ++ toString block.blockIndex ++ ": prev_hash does not match the " ++
          "previous block's hash — the chain is broken here" }
    else if computeBlockHash rt block.prevHash block.payloadCanonical block.blockIndex
        block.createdAt ≠ block.currentHash then
      { valid := false, blocks := total, firstDivergenceIndex := some block.blockIndex
        reason := "block " ++ toString block.blockIndex ++ ": stored hash does not match a hash " ++
          "recomputed from the block's own contents" }
    else verifyFrom rt total (position + 1) block.currentHash rest

/-- `verify_blocks`: recompute an ordered chain. -/
def verifyBlocks (rt : Runtime) (blocks : List AuditBlockRow) : ChainVerification :=
  if blocks = [] then { valid := true, blocks := 0, reason := "chain is empty" }
  else verifyFrom rt blocks.length 0 genesisHash blocks

def ordered (t : Tables) : List AuditBlockRow :=
  t.blocks.insertionSort fun b b' => b.blockIndex ≤ b'.blockIndex

def verify (rt : Runtime) : Act ChainVerification := do
  return verifyBlocks rt (← Act.select ordered)

end AuditChain

end AegisMerchant
