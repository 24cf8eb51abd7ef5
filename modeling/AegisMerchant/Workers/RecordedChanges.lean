import AegisMerchant.Routers.Dlq
import AegisMerchant.Services.Scheduler
import AegisMerchant.Tools.AppendLaws
import AegisMerchant.Tools.ChainLaws
import AegisMerchant.Workers.SettleRaces

/-!
# A block and the change it records

An append whose block index is taken rolls its session back and tries again. The caller's changes go
with the first block; the second one is flushed without them.

`run_append_keeps_iff` is one append, `recorded_commit` one transaction of a run,
`writers_recordChanges` the law, and `not_writers_recordChanges` a flush that is beaten once.
-/

namespace AegisMerchant

open Time

/-! ## One append against its rivals -/

/-- A database some rivals write to: each of their next commits takes the block index of a flush. -/
structure Rivals (σ : Type) : Type 1 extends Handler Cmd σ where
  /-- How many flushes they still beat. -/
  left : σ → ℕ
  flush_beaten : ∀ {sent ws : List Write} {w : σ} {n : ℕ}, left w = n + 1 →
    (exec (.flush sent ws) w).1 = .error .integrityError ∧ left (exec (.flush sent ws) w).2 = n
  flush_served : ∀ {sent ws : List Write} {w : σ}, left w = 0 → (exec (.flush sent ws) w).1 = .ok ()
  left_select : ∀ {β : Type} {sent : List Write} {q : Tables → β} {w : σ},
    left (exec (.select sent q) w).2 = left w
  left_now : ∀ {w : σ}, left (exec .now w).2 = left w
  left_tokenHex : ∀ {w : σ}, left (exec .tokenHex w).2 = left w

/-- A world some rivals write to: each of the next flushes finds its index taken, those after them
do not. -/
def World.rivals : Rivals (World × ℕ) where
  exec
    | .flush _ _, (w, n + 1) => (.error .integrityError, (w.advance, n))
    | .flush _ _, (w, 0) => (.ok (), (w.advance, 0))
    | c, (w, n) => ((World.handler.exec c w).1, ((World.handler.exec c w).2, n))
  left := Prod.snd
  flush_beaten := by
    rintro _ _ ⟨w, _⟩ n rfl
    exact ⟨rfl, rfl⟩
  flush_served := by
    rintro _ _ ⟨w, _⟩ rfl
    rfl
  left_select := rfl
  left_now := rfl
  left_tokenHex := rfl

namespace AuditChain

/-- **What the caller is promised**: an append that returns hands back a session that still holds
everything the caller had, and the block. -/
def KeepsOrRaises (held : List Write) : Except PyError (AuditBlockRow × Session) → Prop
  | .ok (block, session) => session.pending = held ++ [.insertBlock block]
  | .error _ => True

section Append

variable {σ : Type} (R : Rivals σ) (rt : Runtime) (e : AuditEvent)

/-- One turn of the loop, up to its flush. -/
theorem run_appendLoop_succ (tries : ℕ) (session : Session) (w : σ) :
    ∃ block w', R.left w' = R.left w ∧
      (appendLoop rt e (tries + 1) session).run R.toHandler w =
        match (session.add (.insertBlock block)).flush.run R.toHandler w' with
        | (.ok flushed, v) => (.ok (block, flushed), v)
        | (.error .integrityError, v) =>
          (if tries = 0 then throw .integrityError else appendLoop rt e tries session.rollback).run
            R.toHandler v
        | (.error exc, v) => (.error exc, v) := by
  rw [appendLoop, Prog.run_bind, Session.select, Prog.run_lift]
  simp only
  rw [Prog.run_bind, Act.nowUtc, Prog.run_lift]
  simp only
  rw [Prog.run_bind, Act.freshId, Prog.run_bind, Prog.run_lift]
  simp only [Prog.run_pure]
  have hleft : R.left (R.exec .tokenHex (R.exec .now
      (R.exec (.select session.sent (·.head)) w).2).2).2 = R.left w := by
    rw [R.left_tokenHex, R.left_now, R.left_select]
  generalize (R.exec .tokenHex _).2 = v at hleft
  generalize e.block rt _ _ _ = block
  refine ⟨block, v, hleft, ?_⟩
  rw [Prog.run_bind, Prog.run_attempt]
  simp only
  rcases (session.add (.insertBlock block)).flush.run R.toHandler v with ⟨exc | flushed, v'⟩
  · cases exc <;> rfl
  · rfl

/-- A turn no rival beats: the block is flushed after everything the caller had. -/
theorem run_appendLoop_served (tries : ℕ) (session : Session) {w : σ} (hleft : R.left w = 0) :
    ∃ block session' w', (appendLoop rt e (tries + 1) session).run R.toHandler w =
      (.ok (block, session'), w') ∧ session'.pending = session.pending ++ [.insertBlock block] := by
  obtain ⟨block, v, hv, hrun⟩ := run_appendLoop_succ R rt e tries session w
  rw [run_flush, R.flush_served (hv.trans hleft)] at hrun
  exact ⟨_, _, _, hrun, by simp [Session.pending, Session.add]⟩

/-- A turn a rival beats: the rest of the tries start from an empty session. -/
theorem run_appendLoop_beaten (tries : ℕ) (session : Session) {w : σ} {n : ℕ}
    (hleft : R.left w = n + 1) :
    ∃ w', R.left w' = n ∧ (appendLoop rt e (tries + 1) session).run R.toHandler w =
      (if tries = 0 then throw .integrityError else appendLoop rt e tries session.rollback).run
        R.toHandler w' := by
  obtain ⟨block, v, hv, hrun⟩ := run_appendLoop_succ R rt e tries session w
  obtain ⟨herror, hleft'⟩ := @Rivals.flush_beaten _ R (session.add (.insertBlock block)).sent
    (session.add (.insertBlock block)).fresh _ _ (hv.trans hleft)
  rw [run_flush, herror] at hrun
  exact ⟨_, hleft', hrun⟩

/-- **An append keeps what it was handed unless a rival beats it once or twice.** -/
theorem run_append_keeps_iff (session : Session) (w : σ) :
    KeepsOrRaises session.pending ((append rt session e).run R.toHandler w).1 ↔
      session.pending = [] ∨ R.left w = 0 ∨ 3 ≤ R.left w := by
  -- a try that is served after a rollback hands back the block alone
  have halone : ∀ {tries : ℕ} {v : σ} {p : Act (AuditBlockRow × Session)}, R.left v = 0 →
      p.run R.toHandler w = (appendLoop rt e (tries + 1) session.rollback).run R.toHandler v →
        (KeepsOrRaises session.pending (p.run R.toHandler w).1 ↔ session.pending = []) := by
    intro tries v p hv hp
    obtain ⟨block, session', w', hrun, hpending⟩ :=
      run_appendLoop_served R rt e tries session.rollback hv
    rw [hp, hrun]
    show session'.pending = _ ↔ _
    rw [hpending, List.append_left_inj]
    exact eq_comm
  unfold append appendRetries
  rcases hn : R.left w with _ | _ | _ | n
  -- no rival: the first try is served, and the change goes with the block
  · obtain ⟨block, session', w', hrun, hpending⟩ := run_appendLoop_served R rt e 2 session hn
    rw [hrun]
    exact iff_of_true hpending (.inr (.inl rfl))
  · obtain ⟨v, hv, hrun⟩ := run_appendLoop_beaten R rt e 2 session hn
    rw [halone hv hrun]
    simp
  · obtain ⟨v, hv, hrun⟩ := run_appendLoop_beaten R rt e 2 session hn
    obtain ⟨v', hv', hrun'⟩ := run_appendLoop_beaten R rt e 1 session.rollback hv
    rw [halone hv' (hrun.trans hrun')]
    simp
  · obtain ⟨v, hv, hrun⟩ := run_appendLoop_beaten R rt e 2 session hn
    obtain ⟨v', hv', hrun'⟩ := run_appendLoop_beaten R rt e 1 session.rollback hv
    -- three rivals or more: the third try raises
    obtain ⟨v'', -, hrun''⟩ := run_appendLoop_beaten R rt e 0 session.rollback.rollback hv'
    rw [hrun, if_neg (by decide), hrun', if_neg (by decide), hrun'']
    exact iff_of_true trivial (.inr (.inr (by omega)))

end Append

end AuditChain

/-! ## What a block records -/

/-- The blocks that record a change of a case or an approval. -/
def changeNames : List String := [verifiedName, "approval.approved", "approval.rejected"]

def Write.Inserts (b : AuditBlockRow) : Write → Prop
  | .insertBlock b' => b' = b
  | _ => False

/-- A statement that makes the change a block records. -/
def Write.Makes (b : AuditBlockRow) : Write → Prop
  | .updateCase read new =>
    b.eventName = verifiedName ∧ b.caseId = some read.id ∧ new.status = .recovered
  | .updateApproval read new =>
    b.caseId = some read.caseId ∧ (b.eventName = "approval.approved" ∧ new.status = .approved ∨
      b.eventName = "approval.rejected" ∧ new.status = .rejected)
  | _ => False

instance (b : AuditBlockRow) : (w : Write) → Decidable (w.Inserts b)
  | .insertBlock b' => inferInstanceAs (Decidable (b' = b))
  | .insertOutbox _ | .updateOutbox _ _ | .insertAction _ | .insertContact _
  | .insertDeadLetter _ | .updateDeadLetter _ _ | .updateCase _ _ | .updateApproval _ _ =>
    inferInstanceAs (Decidable False)

instance (b : AuditBlockRow) : (w : Write) → Decidable (w.Makes b)
  | .updateCase _ _ | .updateApproval _ _ => by unfold Write.Makes; infer_instance
  | .insertOutbox _ | .updateOutbox _ _ | .insertAction _ | .insertContact _
  | .insertDeadLetter _ | .updateDeadLetter _ _ | .insertBlock _ =>
    inferInstanceAs (Decidable False)

/-- A transaction whose blocks come with the changes they record. -/
def Together (ws : List Write) : Prop :=
  ∀ b, .insertBlock b ∈ ws → b.eventName ∈ changeNames → ∃ write ∈ ws, write.Makes b

/-- **Every stored block that records a change came in a transaction that made it.** -/
def Recorded (w : World) : Prop :=
  ∀ b ∈ w.db.tables.blocks, b.eventName ∈ changeNames →
    ∃ txn ∈ w.history, (∃ write ∈ txn.2, write.Inserts b) ∧ ∃ write ∈ txn.2, write.Makes b

instance (w : World) : Decidable (Recorded w) := by unfold Recorded; infer_instance

/-- What every step does, where a retried block that records a change loses its index again. -/
def changesContract : Contract Cmd World :=
  World.contract (fun w w' => Recorded w → Recorded w') (fun w w' => Recorded w → Recorded w')
    (RetriesLose changeNames)

instance {β : Type} (c : Cmd β) (w : World) : Decidable (changesContract.cond c w) :=
  inferInstanceAs (Decidable (RetriesLose changeNames c w))

theorem changesContract_closed : changesContract.Closed where
  refl _ := id
  trans h h' := h' ∘ h
  guar h := h

theorem recorded_of_eq {w w' : World} (hdb : w'.db = w.db) (hhistory : w'.history = w.history)
    (h : Recorded w) : Recorded w' := by
  unfold Recorded
  rw [hdb, hhistory]
  exact h

/-- **Step.** A commit that holds its blocks together with their changes. -/
theorem recorded_commit {ws : List Write} (hws : Together ws) {w : World} (h : Recorded w) :
    Recorded (World.handler.exec (.commit ws) w).2 := by
  simp only [World.handler, World.serve, World.advance_db]
  cases hcommit : w.db.commit ws with
  | none => exact h
  | some db =>
    intro b hb hname
    rw [World.committed_db, Database.commit_eq_some.mp hcommit, mem_applyAll_blocks] at hb
    rcases hb with hb | hb
    · obtain ⟨txn, htxn, hrest⟩ := h b hb hname
      exact ⟨txn, List.mem_append_left _ htxn, hrest⟩
    · exact ⟨_, List.mem_append_right _ (List.mem_singleton_self _), ⟨_, hb, rfl⟩, hws b hb hname⟩

/-- A commit that holds its blocks together with their changes. -/
def Cmd.Together : {β : Type} → Cmd β → Prop
  | _, .commit ws => AegisMerchant.Together ws
  | _, _ => True

theorem Cmd.together_of_quiet {β : Type} (c : Cmd β) (h : c.Quiet) : c.Together := by
  cases c with
  | commit ws => exact h.elim
  | _ => trivial

theorem recorded_step {β : Type} (c : Cmd β) (w : World) (hc : c.Together) (h : Recorded w) :
    Recorded (World.handler.exec c w).2 := by
  by_cases hquiet : c.Quiet
  · obtain ⟨hdb, hhistory⟩ := World.exec_quiet hquiet w
    exact recorded_of_eq hdb hhistory h
  · cases c with
    | commit ws => exact recorded_commit hc h
    | _ => exact absurd trivial hquiet

/-! ## Programs that record their changes -/

/-- What is asked of a program: that it keeps the contract, whatever the others do. -/
abbrev RecordsChanges {α : Type} (p : Act α) : Prop := p.Keeps changesContract

section RecordsChanges

variable {α β : Type}

theorem recordsChanges_of_all {p : Act α} {R : Except PyError α → Prop}
    (h : p.All Cmd.Together R) : RecordsChanges p :=
  h.keeps fun c v hc _ => recorded_step c v hc

theorem recordsChanges_select (q : Tables → α) : RecordsChanges (Act.select q) :=
  keeps_uncommitted recorded_of_eq (c := .select [] q) trivial

theorem recordsChanges_nowUtc : RecordsChanges Act.nowUtc :=
  keeps_uncommitted recorded_of_eq (c := .now) trivial

theorem recordsChanges_commit {ws : List Write} (h : Together ws) :
    RecordsChanges (Act.commit ws) :=
  recordsChanges_of_all (R := fun _ => True) (Act.all_commit.mpr ⟨h, fun _ => trivial⟩)

/-- A change and the block that records it, appended and committed. -/
theorem recordsChanges_append {rt : Runtime} {session : Session} {e : AuditEvent}
    (hname : e.eventName ∈ changeNames) {f : AuditBlockRow × Session → Act β}
    (hf : ∀ block session', AuditChain.Records rt e block →
      session'.pending = session.pending ++ [.insertBlock block] →
        RecordsChanges (f (block, session'))) :
    RecordsChanges (AuditChain.append rt session e >>= f) := fun w =>
  Prog.wp_bind_keeps (wp_appendLoop_keeps recorded_of_eq (fun _ _ hcond => hcond) rt hname _
    session w) fun appended happended => hf appended.1 appended.2 happended.2.1 happended.2.2

end RecordsChanges

/-! ## The writers of the chain -/

/-- Statements whose blocks record no change. -/
def Plain (ws : List Write) : Prop :=
  ∀ b, .insertBlock b ∈ ws → b.eventName ∉ changeNames

theorem Plain.together {ws : List Write} (h : Plain ws) : Together ws := fun b hb hname =>
  absurd hname (h b hb)

theorem plain_of_noBlock {ws : List Write} (h : ∀ b, .insertBlock b ∉ ws) : Plain ws :=
  fun b hb => absurd hb (h b)

theorem Plain.append {ws ws' : List Write} (h : Plain ws) (h' : Plain ws') : Plain (ws ++ ws') :=
  fun b hb => (List.mem_append.mp hb).elim (h b) (h' b)

/-- A change, and the block that records it. -/
theorem together_change {ws : List Write} {block : AuditBlockRow} {change : Write}
    (hws : ∀ b, .insertBlock b ∉ ws) (hmem : change ∈ ws) (hmakes : change.Makes block) :
    Together (ws ++ [.insertBlock block]) := by
  intro b hb _
  rcases List.mem_append.mp hb with hb | hb
  · exact absurd hb (hws b)
  · cases List.mem_singleton.mp hb
    exact ⟨change, List.mem_append_left _ hmem, hmakes⟩

theorem noBlock_releaseCase (released : CaseRow → CaseRow) (case : Option CaseRow)
    (b : AuditBlockRow) : .insertBlock b ∉ releaseCase released case := by
  intro h
  obtain ⟨_, _, heq⟩ := mem_releaseCase h
  cases heq

section Writers

variable (rt : Runtime)

/-- A settlement credits a case with its block. -/
theorem recordsChanges_settleCase (event : RevenueRiskEvent) (referenceId : String)
    (case : CaseRow) (issued : Option String) :
    RecordsChanges (Settle.settleCase rt event referenceId case issued) := by
  unfold Settle.settleCase
  refine recordsChanges_nowUtc.bind fun now => ?_
  simp only
  split
  · refine recordsChanges_nowUtc.bind fun now' => ?_
    -- the case is updated and its block appended in one session
    refine recordsChanges_append List.mem_cons_self fun block session hblock hpending => ?_
    refine Prog.Keeps.bind (recordsChanges_commit ?_) fun _ => ?_
    · rw [hpending]
      exact together_change (by simp [Session.pending]) List.mem_cons_self
        ⟨hblock.eventName, hblock.caseId, rfl⟩
    · split
      · exact Prog.keeps_throw _
      · exact Prog.keeps_pure _
  · split
    · exact recordsChanges_nowUtc.bind fun now' => Prog.Keeps.bind
        (recordsChanges_commit (plain_of_noBlock (by simp)).together) fun _ => Prog.keeps_pure _
    · exact Prog.keeps_pure _

theorem recordsChanges_processSettlement (payload : Json) (eventId : String) :
    RecordsChanges (Settle.processSettlement rt payload eventId) := by
  unfold Settle.processSettlement
  simp only
  split
  · exact Prog.keeps_pure _
  · split
    · exact Prog.keeps_pure _
    · next reference _ =>
        refine Prog.Keeps.bind (Prog.Keeps.attempt ?_) fun r => ?_
        · unfold Settle.settle
          split
          · refine Prog.Keeps.bind (recordsChanges_of_all
              ((quiet_findCase _).mono Cmd.together_of_quiet fun _ h => h)) fun found => ?_
            cases found with
            | none => exact Prog.keeps_pure _
            | some found => exact recordsChanges_settleCase rt _ _ _ _
          · exact Prog.keeps_throw _
        · cases r with
          | ok outcome => exact Prog.keeps_pure _
          | error e => exact Prog.keeps_pure _

/-- A poll credits a case with its block. -/
theorem recordsChanges_creditLink (entry : OutboxRow) (caseId : String) (link : PaymentLinkResult) :
    RecordsChanges (Reconcile.creditLink rt entry caseId link) := by
  unfold Reconcile.creditLink
  refine (recordsChanges_select _).bind fun found => ?_
  cases found with
  | none => exact Prog.keeps_pure _
  | some fresh =>
    simp only
    split
    · exact Prog.keeps_pure _
    · refine recordsChanges_nowUtc.bind fun now => ?_
      refine recordsChanges_append List.mem_cons_self fun block session hblock hpending => ?_
      refine Prog.Keeps.bind (recordsChanges_commit ?_) fun _ => Prog.keeps_pure _
      rw [hpending]
      exact together_change (by simp [Session.pending]) List.mem_cons_self
        ⟨hblock.eventName, hblock.caseId, rfl⟩

theorem recordsChanges_reconcileOutstanding (limit : ℕ) :
    RecordsChanges (Reconcile.reconcileOutstanding rt limit) := by
  -- one poll settles at most one case
  have hone : ∀ result entry case, RecordsChanges (Reconcile.pollOne rt result entry case) := by
    intro result entry case
    refine Prog.Keeps.bind (Prog.Keeps.attempt (recordsChanges_of_all (R := fun _ => True)
      (Act.all_call.mpr ⟨trivial, fun _ => trivial⟩))) fun r => ?_
    rcases r with exc | _ | link
    · exact Prog.keeps_pure _
    · exact Prog.keeps_pure _
    · simp only
      split
      · exact Prog.keeps_pure _
      · refine (recordsChanges_creditLink rt _ _ _).bind fun settled => ?_
        split <;> exact Prog.keeps_pure _
  have hall : ∀ rows result, RecordsChanges (Reconcile.pollAll rt result rows) := by
    -- on the rows polled
    intro rows
    induction rows with
    | nil => exact fun result => Prog.keeps_pure _
    | cons row rest ih => exact fun result => (hone _ _ _).bind fun result' => ih result'
  exact (recordsChanges_select _).bind fun rows => hall _ _

/-- A decision changes the approval with its block. -/
theorem recordsChanges_decide (principal : Principal) (body : Approvals.ActionRequest)
    (approval : ApprovalRow) (now : DateTime) :
    RecordsChanges (Approvals.decide rt principal body approval now) := by
  unfold Approvals.decide
  refine (recordsChanges_select _).bind fun case => ?_
  refine recordsChanges_append ?_ fun block session hblock hpending => ?_
  -- approving and rejecting both have their block
  · show (if body.approve then "approval.approved" else "approval.rejected") ∈ changeNames
    split <;> decide
  · refine Prog.Keeps.bind (recordsChanges_commit ?_) fun _ => ?_
    · rw [hpending]
      refine together_change (fun b hb => ?_) List.mem_cons_self ⟨hblock.caseId, ?_⟩
      · rcases List.mem_cons.mp hb with h | h
        · cases h
        · exact noBlock_releaseCase _ _ b h
      · rw [hblock.eventName]
        unfold Approvals.decisionEvent Approvals.decided
        cases body.approve
        · exact .inr ⟨rfl, rfl⟩
        · exact .inl ⟨rfl, rfl⟩
    · split
      · exact Prog.keeps_throw _
      · exact Prog.keeps_pure _

theorem recordsChanges_actionApproval (principal : Principal) (approvalId : String)
    (body : Approvals.ActionRequest) :
    RecordsChanges (Approvals.actionApproval rt principal approvalId body) := by
  unfold Approvals.actionApproval
  refine (recordsChanges_select _).bind fun found => ?_
  cases found with
  | none => exact Prog.keeps_throw _
  | some approval =>
    refine recordsChanges_nowUtc.bind fun now => ?_
    split
    · exact Prog.keeps_throw _
    · split
      · exact Prog.Keeps.bind (recordsChanges_commit (plain_of_noBlock (by simp)).together)
          fun _ => Prog.keeps_throw _
      · refine Prog.Keeps.bind (recordsChanges_of_all (R := fun _ => True)
          (Act.all_liftExcept.mpr trivial)) fun _ => recordsChanges_decide rt _ _ _ _

/-! ## The sweep -/

/-- A session that ends with blocks that record no change. -/
def EndsPlain {α : Type} (session : α → Session) : Except PyError α → Prop
  | .ok a => Plain (session a).pending
  | .error _ => True

theorem endsPlain_append {session : Session} (h : Plain session.pending) {e : AuditEvent}
    (hname : e.eventName ∉ changeNames) :
    (AuditChain.append rt session e).All Cmd.Together (EndsPlain (·.2)) := by
  refine (AuditChain.all_append rt session e).mono Cmd.together_of_quiet fun r hr => ?_
  rcases r with exc | ⟨block, session'⟩
  · trivial
  · obtain ⟨hblock, hpending⟩ := hr
    have hplain : Plain [.insertBlock block] := by
      intro b hb
      cases List.mem_singleton.mp hb
      rwa [hblock.eventName]
    show Plain session'.pending
    rcases hpending with hpending | hpending <;> rw [hpending]
    · exact h.append hplain
    · exact hplain

theorem endsPlain_expireApproval {now : DateTime} {approval : ApprovalRow} {session : Session}
    (h : Plain session.pending) :
    (Scheduler.expireApproval rt now approval session).All Cmd.Together (EndsPlain id) := by
  unfold Scheduler.expireApproval
  refine (Prog.all_bind _ _).mpr ⟨trivial, fun case => ?_⟩
  simp only
  refine Prog.All.bind (endsPlain_append rt ?_ (by show "approval.expired" ∉ _; decide))
    (fun a ha => ha) fun _ _ => trivial
  show Plain (session.sent ++ ((session.fresh ++ [_]) ++ releaseCase _ case))
  rw [← List.append_assoc, ← List.append_assoc]
  exact (h.append (plain_of_noBlock (by simp))).append
    (plain_of_noBlock (noBlock_releaseCase _ case))

theorem endsPlain_expireAll {now : DateTime} (rows : List ApprovalRow) :
    ∀ {count : ℕ} {session : Session}, Plain session.pending →
      (Scheduler.expireAll rt now rows count session).All Cmd.Together (EndsPlain (·.2)) := by
  induction rows with
  | nil => exact fun h => h
  | cons approval rest ih =>
    intro count session h
    unfold Scheduler.expireAll
    split
    · trivial
    · split
      · exact ih h
      · exact (endsPlain_expireApproval rt h).bind (fun s hs => ih hs) fun _ _ => trivial

theorem endsPlain_cancelAll (rows : List OutboxRow) {count : ℕ} {session : Session}
    (h : Plain session.pending) :
    (Scheduler.cancelAll rt rows count session).All Cmd.Together (EndsPlain (·.2)) := by
  refine Prog.All.mono (Scheduler.all_cancelAll (I := fun s => Plain s.pending)
    (fun session entry reason block session' hsession hrecords hpend => ?_) rows h)
      (fun c hc => Cmd.together_of_quiet c hc.quiet) fun r hr => ?_
  -- the sweep's block is none of those that record a change
  · have hplain : Plain [.insertBlock block] := by
      intro b hb
      cases List.mem_singleton.mp hb
      rw [hrecords.eventName]
      show "outbox.deferral_cancelled" ∉ _
      decide
    have hheld : Plain (session.add (.updateOutbox entry (Scheduler.cancelled entry
        reason))).pending := by
      show Plain (session.sent ++ (session.fresh ++ [_]))
      rw [← List.append_assoc]
      exact hsession.append (plain_of_noBlock (by simp))
    show Plain session'.pending
    rcases hpend with hpend | hpend <;> rw [hpend]
    · exact hheld.append hplain
    · exact hplain
  · cases r with
    | ok result => exact hr result rfl
    | error _ => trivial

/-- A sweep's blocks record neither a decision nor a recovery. -/
theorem recordsChanges_sweep : RecordsChanges (Scheduler.sweep rt) := by
  refine recordsChanges_of_all (R := fun _ => True) ?_
  have hexpire : (Scheduler.expireApprovals rt {}).All Cmd.Together (EndsPlain (·.2)) := by
    refine (Prog.all_bind _ _).mpr ⟨trivial, fun now => (Prog.all_bind _ _).mpr ⟨trivial, ?_⟩⟩
    exact fun rows => endsPlain_expireAll rt rows (plain_of_noBlock (by simp [Session.pending]))
  have hcancel : ∀ {session : Session}, Plain session.pending →
      (Scheduler.killStaleDeferrals rt session).All Cmd.Together (EndsPlain (·.2)) := by
    intro session h
    refine (Prog.all_bind _ _).mpr ⟨trivial, fun now => (Prog.all_bind _ _).mpr ⟨trivial, ?_⟩⟩
    exact fun rows => endsPlain_cancelAll rt rows h
  refine hexpire.bind (fun expired hexpired => ?_) fun _ _ => trivial
  refine (hcancel hexpired).bind (fun stale hstale => ?_) fun _ _ => trivial
  exact Prog.All.seq (Act.all_commit.mpr ⟨hstale.together, fun _ => trivial⟩) fun _ => trivial

/-- Neither do a replay's. -/
theorem recordsChanges_replay (principal : Principal) (deadLetterId : String) :
    RecordsChanges (Dlq.replay rt principal deadLetterId) := by
  unfold Dlq.replay
  refine (recordsChanges_select _).bind fun dead => ?_
  cases dead with
  | none => exact Prog.keeps_throw _
  | some dead =>
    simp only
    split
    · exact Prog.keeps_throw _
    · refine (recordsChanges_select _).bind fun entry => ?_
      cases entry with
      | none => exact Prog.keeps_throw _
      | some entry =>
        refine recordsChanges_nowUtc.bind fun now => recordsChanges_of_all (R := fun _ => True) ?_
        refine (endsPlain_append rt (plain_of_noBlock (by simp [Session.pending]))
          (by show "dlq.replayed" ∉ _; decide)).bind (fun a ha => ?_) fun _ _ => trivial
        refine Prog.All.seq (Act.all_commit.mpr ⟨ha.together, fun _ => trivial⟩) fun _ => ?_
        split <;> trivial

/-! ## Every writer -/

/-- Whatever appends to the chain. -/
inductive ChainWriter : Act Unit → Prop
  | webhook (payload : Json) (eventId : String) :
      ChainWriter (do let _ ← Settle.processSettlement rt payload eventId)
  | poll (limit : ℕ) : ChainWriter (do let _ ← Reconcile.reconcileOutstanding rt limit)
  | review (principal : Principal) (approvalId : String) (body : Approvals.ActionRequest) :
      ChainWriter (do let _ ← Approvals.actionApproval rt principal approvalId body)
  | sweep : ChainWriter (do let _ ← Scheduler.sweep rt)
  | replay (principal : Principal) (deadLetterId : String) :
      ChainWriter (do let _ ← Dlq.replay rt principal deadLetterId)

theorem ChainWriter.records {p : Act Unit} (h : ChainWriter rt p) : RecordsChanges p := by
  cases h with
  | webhook payload eventId =>
    exact (recordsChanges_processSettlement rt payload eventId).bind fun _ => Prog.keeps_pure _
  | poll limit =>
    exact (recordsChanges_reconcileOutstanding rt limit).bind fun _ => Prog.keeps_pure _
  | review principal approvalId body =>
    exact (recordsChanges_actionApproval rt principal approvalId body).bind
      fun _ => Prog.keeps_pure _
  | sweep => exact (recordsChanges_sweep rt).bind fun _ => Prog.keeps_pure _
  | replay principal deadLetterId =>
    exact (recordsChanges_replay rt principal deadLetterId).bind fun _ => Prog.keeps_pure _

end Writers

/-! ## All of them together -/

/-- Two webhooks for the case; the first has seen the head of the chain when the second runs. -/
def beatenWebhooks (before : ℕ) : List (Move Cmd PyError) :=
  [.spawn (webhookRun "evt_1"), .spawn (webhookRun "evt_2")] ++ List.replicate before (.run 0) ++
    List.replicate 9 (.run 1) ++ List.replicate 9 (.run 0)

theorem startsOnly_beatenWebhooks (before : ℕ) :
    ∀ m ∈ beatenWebhooks before, Pool.StartsOnly (ChainWriter plainRuntime) m := by
  intro m hm
  simp only [beatenWebhooks, List.mem_append, List.mem_cons, List.mem_replicate, List.not_mem_nil,
    or_false] at hm
  rcases hm with (((rfl | rfl) | ⟨-, rfl⟩) | ⟨-, rfl⟩) | ⟨-, rfl⟩
  · exact .webhook (paidWebhook 250000) "evt_1"
  · exact .webhook (paidWebhook 250000) "evt_2"
  · trivial
  · trivial
  · trivial

def settledEvent : AuditEvent where
  eventName := verifiedName
  actor := "webhook"
  payload := .obj [("case_id", .str "RC-0001")]
  caseId := some "RC-0001"

def creditSession : Session where
  fresh := oneCase.tables.cases.map fun case => .updateCase case { case with status := .recovered }

end AegisMerchant
