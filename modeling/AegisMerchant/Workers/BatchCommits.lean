import AegisMerchant.Tools.ChainLaws
import AegisMerchant.Workers.BatchRecords

/-!
# What the batch commits

Besides clearing, a run of the batch commits blocks, and sessions that each store the record of a
case.

`stores_storeCase` and `stores_runBatch` list what the batch commits.
-/

namespace AegisMerchant

open Time

/-- What the batch asks for: blocks, a reset, and sessions of a kind. -/
def BatchCmd.Stores (φ : CaseSession → Prop) : {β : Type} → BatchCmd β → Prop
  | _, .serve c => c.Writes Write.IsBlock
  | _, .commit s => φ s
  | _, .clear _ | _, .flush _ => True

/-- A session stores a record: its case, with its arm. -/
structure CaseSession.Of (s : CaseSession) (r : BatchRecord) : Prop where
  case : s.case = r.case
  assignment : ∃ a, s.assignment = some a ∧ a.caseId = r.case.id ∧ a.arm = r.arm

/-- A record is of a case that a run of the batch left. -/
def BatchRecord.LeftByRun (row : CorpusRow) (playbook : Playbook) (r : BatchRecord) : Prop :=
  ∃ final id paid now, r.case = Batch.caseRow final row playbook id paid now

section Programs

variable {rt : Runtime} {α : Type} {φ : CaseSession → Prop}

theorem writes_of_reads {ψ : Write → Prop} {β : Type} (c : Cmd β) (h : c.Reads) : c.Writes ψ := by
  cases c with
  | commit ws => exact h.elim
  | _ => trivial

/-! ## Sessions of blocks -/

theorem stores_serve {p : Act α} {R : Except PyError α → Prop} (h : p.All Cmd.Reads R) :
    (BatchAct.serve p).All (BatchCmd.Stores φ) R :=
  (Prog.all_mapCmd p).mpr (h.mono (fun c hc => writes_of_reads c hc) fun _ hr => hr)

theorem stores_call {c : BatchCmd (Except PyError α)} (h : c.Stores φ) :
    (BatchAct.call c).All (BatchCmd.Stores φ) fun _ => True := by
  refine ⟨h, fun r => ?_⟩
  cases r <;> trivial

/-- A session that holds blocks only commits blocks only. -/
theorem stores_commit {session : Session} (h : ∀ write ∈ session.pending, write.IsBlock) :
    (BatchAct.serve session.commit).All (BatchCmd.Stores φ) fun _ => True :=
  (Prog.all_mapCmd _).mpr (Act.all_commit.mpr ⟨h, fun _ => trivial⟩)

/-- A session of blocks, with one more. -/
theorem isBlock_appended {e : AuditEvent} {held : List Write} {block : AuditBlockRow}
    {session : Session} (hheld : ∀ write ∈ held, write.IsBlock)
    (h : AuditChain.Appended rt e held (.ok (block, session))) :
    ∀ write ∈ session.pending, write.IsBlock := by
  intro write hwrite
  rcases h.2 with hpending | hpending
  · rw [hpending] at hwrite
    rcases List.mem_append.mp hwrite with hwrite | hwrite
    · exact hheld write hwrite
    · rw [List.mem_singleton.mp hwrite]
      trivial
  · rw [hpending] at hwrite
    rw [List.mem_singleton.mp hwrite]
    trivial

/-- Carrying over adds blocks, and commits nothing. -/
theorem reads_carryOver (cases : List CaseRow) {session : Session}
    (h : ∀ write ∈ session.pending, write.IsBlock) :
    (BatchStore.carryOver rt cases session).All Cmd.Reads
      (Prog.IfReturned fun session => ∀ write ∈ session.pending, write.IsBlock) := by
  induction cases generalizing session with
  | nil => exact h
  | cons case rest ih =>
    rw [BatchStore.carryOver]
    split
    · trivial
    · refine (AuditChain.reads_append rt session _).bind (fun appended happended => ?_)
        fun _ _ => trivial
      obtain ⟨block, session'⟩ := appended
      exact ih (isBlock_appended h happended)

theorem stores_recordCarriedOver :
    (BatchAct.serve (BatchStore.recordCarriedOver rt)).All (BatchCmd.Stores φ)
      fun _ => True := by
  refine (Prog.all_mapCmd _).mpr (Prog.All.bind (R := fun _ => True) ?_ (fun preserved _ => ?_)
    fun _ _ => trivial)
  · exact ⟨trivial, fun _ => trivial⟩
  · have hnone : ∀ write ∈ ({} : Session).pending, write.IsBlock := by
      intro write hwrite
      cases hwrite
    have hcarry : (BatchStore.carryOver rt preserved {}).All Cmd.Reads
        (Prog.IfReturned fun session => ∀ write ∈ session.pending, write.IsBlock) :=
      reads_carryOver preserved hnone
    refine (hcarry.mono (fun c hc => writes_of_reads c hc) fun _ hr => hr).bind
      (fun session hsession => ?_) fun _ _ => trivial
    apply Prog.All.seq
    · exact Act.all_commit.mpr ⟨hsession, fun _ => trivial⟩
    · intro _
      split <;> trivial

/-! ## Sessions of a case -/

/-- The block of a case, and the commit. -/
theorem stores_appendCommit {session : CaseSession}
    (h : ∀ block, φ { session with block := some block }) (e : AuditEvent) :
    (BatchStore.appendCommit rt session e).All (BatchCmd.Stores φ) fun _ => True := by
  have hselect : (BatchAct.serve (Act.select (·.head))).All (BatchCmd.Stores φ) fun _ => True :=
    stores_serve (Act.all_select.mpr ⟨trivial, fun _ => trivial⟩)
  have hnow : (BatchAct.serve Act.nowUtc).All (BatchCmd.Stores φ) fun _ => True :=
    stores_serve (Act.all_nowUtc.mpr ⟨trivial, fun _ => trivial⟩)
  have hid : (BatchAct.serve (Act.freshId "blk")).All (BatchCmd.Stores φ) fun _ => True :=
    stores_serve (Act.all_freshId.mpr ⟨trivial, fun _ => trivial⟩)
  apply hselect.seq
  intro head
  apply hnow.seq
  intro created
  apply hid.seq
  intro id
  have hflush : (BatchAct.call (.flush
      { session with block := some (e.block rt head id created) })).attempt.All
      (BatchCmd.Stores φ) fun _ => True :=
    (Prog.all_attempt _).mpr (stores_call trivial)
  apply hflush.seq
  intro answer
  rcases answer with exc | ⟨⟩
  · cases exc with
    | integrityError =>
      refine (stores_serve (AuditChain.all_appendLoop rt e _ _)).bind
        (fun appended happended => ?_) fun _ _ => trivial
      obtain ⟨block, retried⟩ := appended
      apply stores_commit
      apply isBlock_appended ?_ happended
      intro write hwrite
      cases hwrite
    | _ => trivial
  · exact stores_call (c := .commit _) (h _)

/-- **A record is stored in sessions of its own.** -/
theorem stores_storeCase {c : BatchConfig} {attempt : AttemptRow} {r : BatchRecord}
    (h : ∀ s : CaseSession, s.Of r → φ s) :
    (BatchStore.storeCase rt c attempt r).All (BatchCmd.Stores φ) fun _ => True := by
  have hcalls : (BatchAct.serve (BatchStore.callRows r.case.id r.llmLedger)).All
      (BatchCmd.Stores φ) fun _ => True := by
    apply stores_serve
    induction r.llmLedger with
    | nil => trivial
    | cons entry rest ih =>
      apply (Act.all_freshId.mpr ⟨trivial, fun _ => trivial⟩ :
        (Act.freshId "llmcall").All Cmd.Reads fun _ => True).seq
      intro callId
      apply ih.seq
      intro rows
      trivial
  have hflush : (BatchAct.call (.flush
      { case := r.case, columns := BatchStore.columnsOf rt attempt r.case.playbook })).All
      (BatchCmd.Stores φ) fun _ => True := stores_call trivial
  apply hflush.seq
  intro _
  apply hcalls.seq
  intro calls
  apply stores_appendCommit
  intro block
  exact h _ ⟨rfl, _, rfl, rfl, rfl⟩

/-! ## The loop -/

/-- The case of a record is the one its turn draws. -/
theorem Batch.all_runRow_drawn {c : BatchConfig} {now : DateTime} (tally : BatchTally)
    (row : CorpusRow) (playbook : Playbook) :
    (Batch.runRow rt c now tally row playbook).All (fun _ => True)
      (Prog.IfReturned fun tally' => ∃ r, tally'.records = tally.records ++ [r] ∧
        r.LeftByRun row playbook) := by
  refine (Prog.all_returned _).next fun final _ => ?_
  refine Prog.All.next (S := fun r : BatchRecord => r.LeftByRun row playbook) ?_ fun r hr => ?_
  · unfold Batch.record
    refine (Prog.all_returned _).next fun assignment _ => ?_
    refine (Prog.all_returned _).next fun approval _ => ?_
    refine (Prog.all_returned _).next fun action _ => ?_
    exact ⟨final, _, _, now, rfl⟩
  · exact ⟨r, rfl, hr⟩

theorem stores_storeRow {c : BatchConfig} (hthinks : c.Thinks) (now : DateTime)
    (tally : BatchTally) (attempt : AttemptRow) (playbook : Playbook)
    (h : ∀ {id : String} {row : CorpusRow} {r : BatchRecord}, r.Sound id row playbook →
      r.LeftByRun row playbook → ∀ s : CaseSession, s.Of r → φ s) :
    (BatchStore.storeRow rt c now tally attempt playbook).All (BatchCmd.Stores φ)
      fun _ => True := by
  have hrow := (@Batch.all_runRow_sound rt c now hthinks tally attempt.toCorpusRow playbook).and
    (Batch.all_runRow_drawn tally attempt.toCorpusRow playbook)
  refine (stores_serve (hrow.mono (fun c hc => hc.1) fun _ hr => hr)).bind
    (fun tally' hrow => ?_) fun _ _ => trivial
  obtain ⟨⟨r, hrecords, -, hsound⟩, r', hrecords', hdrawn⟩ := hrow
  have hlast : tally'.records.getLast? = some r := by
    rw [hrecords]
    exact List.getLast?_concat
  obtain rfl : r = r' := by
    rw [hrecords'] at hlast
    exact Option.some.inj (hlast.symm.trans List.getLast?_concat)
  simp only [hlast]
  apply (stores_storeCase (h hsound hdrawn)).seq
  intro _
  trivial

/-- **A run of the batch commits blocks, and sessions of sound records.** -/
theorem stores_runBatch {c : BatchConfig} (hthinks : c.Thinks) (corpus : List AttemptRow)
    (h : ∀ {id : String} {row : CorpusRow} {playbook : Playbook} {r : BatchRecord},
      r.Sound id row playbook → r.LeftByRun row playbook → ∀ s : CaseSession, s.Of r → φ s) :
    (BatchStore.runBatch rt c corpus).All (BatchCmd.Stores φ) fun _ => True := by
  have hrows : ∀ (rows : List AttemptRow) (now : DateTime) (tally : BatchTally),
      (BatchStore.storeRows rt c now tally rows).All (BatchCmd.Stores φ) fun _ => True := by
    intro rows now
    induction rows with
    | nil =>
      intro tally
      trivial
    | cons attempt rest ih =>
      intro tally
      rw [BatchStore.storeRows]
      split
      · exact ih tally
      · split
        · trivial
        · apply (stores_storeRow hthinks now tally attempt _ h).seq
          intro tally'
          exact ih tally'
  unfold BatchStore.runBatch
  split
  · trivial
  · have hclear : (BatchStore.clear).All (BatchCmd.Stores φ) fun _ => True := by
      apply (stores_serve (Act.all_select.mpr ⟨trivial, fun _ => trivial⟩ :
        (Act.select (·.preserved)).All Cmd.Reads fun _ => True)).seq
      intro preserved
      exact ⟨trivial, fun _ => trivial⟩
    apply hclear.seq
    intro _
    apply stores_recordCarriedOver.seq
    intro carried
    apply (stores_serve (Act.all_nowUtc.mpr ⟨trivial, fun _ => trivial⟩ :
      Act.nowUtc.All Cmd.Reads fun _ => True)).seq
    intro now
    apply (hrows corpus now {}).seq
    intro tally
    trivial

end Programs

end AegisMerchant
