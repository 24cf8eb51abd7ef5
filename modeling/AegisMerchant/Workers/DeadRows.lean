import AegisMerchant.Routers.Dlq
import AegisMerchant.Services.Scheduler
import AegisMerchant.Tools.DeadLetters

/-!
# What is done for a dead row

Phase one does not ask what became of the row it finds. So a dead row is left alone, in any sequence
of executions, passes, sweeps and replays, as long as none of them comes upon it.

`leavesDead_drainRow`, `leavesDead_sweep` and `Tables.Kept.replay` are the operations,
`OutboxOp.everywhere_respects_iff` any sequence of them, and `OutboxOp.not_everywhere_respects` an
execution of a dead row.
-/

namespace AegisMerchant

open Time Rows

/-! ## The drainer -/

/-- An intent that is held matches. -/
theorem Tables.Kept.matches_of_holds {t : Tables} {row : OutboxRow} (ht : t.Kept)
    (h : t.Holds row) : row.Matches := by
  obtain ⟨r, hr, hsame⟩ := h
  have hmatches := ht.matched r hr
  unfold OutboxRow.Matches at hmatches ⊢
  rwa [hsame.action, hsame.2.1] at hmatches

namespace OutboxDrainer

variable {rt : Runtime} {d : OutboxDrainer} {revived others : String → Prop} {w : World}
  {report : DrainReport}

theorem reads_rebuildState (rt : Runtime) (row : OutboxRow) :
    (rebuildState rt row).All Cmd.Reads fun _ => True := by
  rw [rebuildState, Prog.all_bind, Act.all_select]
  refine ⟨trivial, fun found => ?_⟩
  cases found with
  | none => trivial
  | some case =>
    simp only
    split
    · trivial
    · simp only [Prog.all_bind, Act.all_nowUtc, Act.all_liftExcept]
      refine ⟨trivial, fun now => ?_⟩
      split <;> trivial

theorem reads_rows (d : OutboxDrainer) (includeStale : Bool) :
    (d.rows includeStale).All Cmd.Reads fun _ => True := by
  cases includeStale <;> simp [OutboxDrainer.rows, due, stale, Cmd.Reads]

theorem leavesDead_markDead (reason : String) {row : OutboxRow} (hw : w.db.tables.Kept)
    (hholds : w.db.tables.Holds row)
    (hothers : ∀ reference, others reference → reference ≠ row.referenceId) :
    LeavesDead revived others (markDead row.id reason) w := by
  obtain ⟨r, hr, hid, href, -⟩ := hholds
  unfold markDead
  refine .select_bind hw ?_
  rw [← hid, outboxById_of_mem hr]
  apply LeavesDead.commit_buries (w := w.after 1) hw
  · intro write hwrite
    obtain rfl := List.mem_singleton.mp hwrite
    rfl
  · intro r' hr' hother
    exact Tables.mem_updateOutbox_of_ne w.db.valid hr hr' (href ▸ hothers _ hother)

/-- **A turn leaves dead rows alone**, unless it resumes an action whose own row is dead. -/
theorem leavesDead_drainRow {row : OutboxRow} (hw : w.db.tables.Kept)
    (hholds : w.db.tables.Holds row)
    (halive : ∀ case applied, Resumes w.db.tables row case applied →
      OutboxExecutor.Chargeable applied → w.db.tables.Alive row.referenceId)
    (hothers : ∀ reference, others reference → reference ≠ row.referenceId) :
    LeavesDead revived others (d.drainRow rt report row) w := by
  -- a case that is closed or gone: its row is buried without a call
  have hdropped : ∀ (result : DrainReport) (v : World), v.db = w.db →
      LeavesDead revived others
        (do markDead row.id "case reached a terminal state"; return result : Act DrainReport) v := by
    intro result v hv
    exact (leavesDead_markDead _ (hv ▸ hw) (hv ▸ hholds) hothers).bind fun _ _ _ hu => .pure hu _
  unfold drainRow
  refine .read_bind (reads_rebuildState rt row) hw fun state v hrun _ hdb => ?_
  rw [run_rebuildState] at hrun
  cases hcase : w.db.tables.caseById row.caseId with
  | none =>
    simp only [hcase, Prod.mk.injEq, Except.ok.injEq] at hrun
    obtain ⟨rfl, rfl⟩ := hrun
    exact hdropped _ _ hdb
  | some case =>
    simp only [hcase] at hrun
    split at hrun
    · simp only [Prod.mk.injEq, Except.ok.injEq] at hrun
      obtain ⟨rfl, rfl⟩ := hrun
      exact hdropped _ _ hdb
    · next hopen =>
      have hopen' : case.status.isTerminal = false := by simpa using hopen
      cases haction : row.action with
      | error e => simp [haction, Except.map] at hrun
      | ok applied =>
        simp only [haction, Except.map, Prod.mk.injEq, Except.ok.injEq] at hrun
        obtain ⟨rfl, rfl⟩ := hrun
        have href : applied.referenceId = row.referenceId :=
          (hw.matches_of_holds hholds).reference haction
        -- the row is executed again under its own reference
        have hexecute : LeavesDead revived others
            (d.executor.execute rt (resumed rt case applied w)) (w.after 2) := by
          apply OutboxExecutor.leavesDead_execute (w := w.after 2) hw
          · rintro _ ⟨⟨⟩, -, hcharge⟩
            rw [href]
            exact halive case applied ⟨hcase, hopen', haction⟩ hcharge
          · rintro reference hother _ ⟨⟩
            rw [href]
            exact hothers reference hother
        exact hexecute.bind fun _ _ _ hu => .pure hu _

/-- The rows of a pass are stored and not dead, one for each reference. -/
theorem run_rows_alive {includeStale : Bool} {rows : List OutboxRow} {v : World}
    (h : (d.rows includeStale).run World.handler w = (.ok rows, v)) :
    (rows.map (·.referenceId)).Nodup ∧
      ∀ row ∈ rows, row ∈ w.db.tables.outbox ∧ row.status ≠ .dead := by
  -- the due rows: pending, and each reference once
  have hdue : ∀ rows' v', due.run World.handler w = (.ok rows', v') →
      v'.db = w.db ∧ (rows'.map (·.referenceId)).Nodup ∧
        ∀ row ∈ rows', row ∈ w.db.tables.outbox ∧ row.status ≠ .dead := by
    rintro rows' v' ⟨⟩
    refine ⟨rfl, ?_, fun row hrow => ?_⟩
    · have hperm := (List.perm_insertionSort (fun r r' : OutboxRow => r.nextAttemptAt ≤
        r'.nextAttemptAt) (w.db.tables.outbox.filter fun r => r.status = .pending ∧
          r.nextAttemptAt ≤ dbTime (w.after 1).clock)).map (·.referenceId)
      exact hperm.nodup_iff.mpr (w.db.valid.outbox_reference.sublist (List.filter_sublist.map _))
    · have hfiltered := List.mem_filter.mp ((List.mem_insertionSort _).mp hrow)
      have hpending : row.status = .pending := (of_decide_eq_true hfiltered.2).1
      exact ⟨hfiltered.1, by rw [hpending]; decide⟩
  unfold OutboxDrainer.rows at h
  rw [Prog.run_bind] at h
  rcases hrun : due.run World.handler w with ⟨e | rows', v'⟩
  · simp [hrun] at h
  · obtain ⟨hdb, hnodup, hrows⟩ := hdue rows' v' hrun
    simp only [hrun] at h
    cases includeStale with
    | false =>
      cases h
      exact ⟨hnodup, hrows⟩
    | true =>
      cases h
      -- the stale rows are the ones not already due
      have hstale : ∀ row ∈ (v'.db.tables.outbox.filter fun r =>
          (r.status = .pending ∨ r.status = .sending) ∧
            r.createdAt ≤ dbTime ((v'.after 1).clock.add (-(d.staleAfterS * second)))).filter
              fun r => r.id ∉ rows'.map (·.id),
          row ∈ w.db.tables.outbox ∧ row.status ≠ .dead ∧ row.id ∉ rows'.map (·.id) := by
        intro row hrow
        obtain ⟨hrow, hnew⟩ := List.mem_filter.mp hrow
        obtain ⟨hmem, hstatus⟩ := List.mem_filter.mp hrow
        refine ⟨hdb ▸ hmem, ?_, of_decide_eq_true hnew⟩
        rcases (of_decide_eq_true hstatus).1 with hpending | hsending
        · rw [hpending]
          decide
        · rw [hsending]
          decide
      refine ⟨?_, fun row hrow => ?_⟩
      · rw [List.map_append, List.nodup_append]
        refine ⟨hnodup, ?_, ?_⟩
        · have hunique : (v'.db.tables.outbox.map (·.referenceId)).Nodup :=
            v'.db.valid.outbox_reference
          exact hunique.sublist ((List.filter_sublist.trans List.filter_sublist).map _)
        · intro a ha b hb heq
          obtain ⟨r, hr, rfl⟩ := List.mem_map.mp ha
          obtain ⟨r', hr', rfl⟩ := List.mem_map.mp hb
          obtain ⟨hmem', -, hnew⟩ := hstale r' hr'
          obtain rfl := eq_of_key_eq w.db.valid.outbox_reference (hrows r hr).1 hmem' heq
          exact hnew (List.mem_map_of_mem hr)
      · rcases List.mem_append.mp hrow with hrow | hrow
        · exact hrows row hrow
        · exact ⟨(hstale row hrow).1, (hstale row hrow).2.1⟩

/-- The loop of a pass works on each row as it was read: no turn touches another's. -/
theorem leavesDead_drainRows {rows : List OutboxRow} (hw : w.db.tables.Kept)
    (hnodup : (rows.map (·.referenceId)).Nodup)
    (hrows : ∀ row ∈ rows, row ∈ w.db.tables.outbox ∧ row.status ≠ .dead) :
    LeavesDead revived (fun _ => False) (d.drainRows rt report rows) w := by
  induction rows generalizing report w with
  | nil => exact .pure hw _
  | cons row rest ih =>
    rw [List.map_cons, List.nodup_cons] at hnodup
    rw [List.forall_mem_cons] at hrows
    obtain ⟨⟨hrow, halive⟩, hrest⟩ := hrows
    have hturn : LeavesDead revived (· ≠ row.referenceId) (d.drainRow rt report row) w := by
      apply leavesDead_drainRow hw (Tables.holds_of_mem hrow)
      · intro _ _ _ _ r hr href
        rwa [eq_of_key_eq w.db.valid.outbox_reference hr hrow href]
      · exact fun reference hother => hother
    unfold drainRows
    refine (hturn.mono fun _ h => h.elim).bind fun report' v hrun hv => ?_
    apply ih hv hnodup.2
    intro r hr
    have hkept := hturn.others r (hrest r hr).1 fun href =>
      hnodup.1 (href ▸ List.mem_map_of_mem hr)
    rw [hrun] at hkept
    exact ⟨hkept, (hrest r hr).2⟩

/-- **A whole pass leaves dead rows alone.** -/
theorem leavesDead_drainOnce {includeStale : Bool} (hw : w.db.tables.Kept) :
    LeavesDead revived (fun _ => False) (d.drainOnce rt includeStale) w := by
  unfold drainOnce
  refine .read_bind (reads_rows d includeStale) hw fun rows v hrun _ hdb => ?_
  obtain ⟨hnodup, hrows⟩ := run_rows_alive hrun
  exact leavesDead_drainRows (hdb ▸ hw) hnodup (hdb ▸ hrows)

end OutboxDrainer

/-! ## Sweeps and replays -/

section Sessions

variable {rt : Runtime} {revived : String → Prop} {w : World}

/-- A session that holds nothing that would bring a row back. -/
def Burying (session : Session) : Prop := ∀ write ∈ session.pending, write.Buries

theorem burying_append {session : Session} {e : AuditEvent} (h : Burying session) :
    (AuditChain.append rt session e).All Cmd.Reads fun r =>
      ∀ appended, r = .ok appended → Burying appended.2 := by
  refine (AuditChain.reads_append rt session e).mono (fun _ hc => hc) ?_
  rintro _ hr ⟨block, session'⟩ rfl write hwrite
  rcases hr.2 with hpending | hpending
  · rw [hpending] at hwrite
    rcases List.mem_append.mp hwrite with hwrite | hwrite
    · exact h write hwrite
    · obtain rfl := List.mem_singleton.mp hwrite
      trivial
  · rw [hpending] at hwrite
    obtain rfl := List.mem_singleton.mp hwrite
    trivial

theorem burying_expireApproval {now : DateTime} {approval : ApprovalRow} {session : Session}
    (h : Burying session) : (Scheduler.expireApproval rt now approval session).All Cmd.Reads
      fun r => ∀ session', r = .ok session' → Burying session' := by
  unfold Scheduler.expireApproval
  refine (Prog.all_bind _ _).mpr ⟨trivial, fun case => ?_⟩
  refine (burying_append ?_).bind (fun appended happended => ?_) fun _ _ _ herror => by cases herror
  · intro write hwrite
    have hmem : write ∈ session.pending ++ [.updateApproval approval (approval.expire now)] ++
        releaseCase (Scheduler.expiredCase now) case := by
      simpa [Session.pending, Session.add] using hwrite
    rcases List.mem_append.mp hmem with hmem | hmem
    · rcases List.mem_append.mp hmem with hmem | hmem
      · exact h write hmem
      · obtain rfl := List.mem_singleton.mp hmem
        trivial
    · obtain ⟨read, new, rfl⟩ := mem_releaseCase hmem
      trivial
  · rintro session' ⟨⟩
    exact happended _ rfl

theorem burying_expireAll {now : DateTime} (rows : List ApprovalRow) :
    ∀ {count : ℕ} {session : Session}, Burying session →
      (Scheduler.expireAll rt now rows count session).All Cmd.Reads
        fun r => ∀ result, r = .ok result → Burying result.2 := by
  induction rows with
  | nil =>
    rintro count session h result ⟨⟩
    exact h
  | cons approval rest ih =>
    intro count session h
    unfold Scheduler.expireAll
    split
    · rintro result ⟨⟩
    · split
      · exact ih h
      · refine (burying_expireApproval h).bind (fun session' hs => ih (hs session' rfl)) ?_
        rintro _ _ result ⟨⟩

theorem burying_cancelAll (rows : List OutboxRow) {count : ℕ} {session : Session}
    (h : Burying session) : (Scheduler.cancelAll rt rows count session).All Cmd.Reads
      fun r => ∀ result, r = .ok result → Burying result.2 := by
  refine Scheduler.all_cancelAll (fun session entry reason block session' hsession _ hpending => ?_)
    rows h
  intro write hwrite
  rcases hpending with hpending | hpending
  · rw [hpending] at hwrite
    have hmem : write ∈ session.pending ++
        [.updateOutbox entry (Scheduler.cancelled entry reason), .insertBlock block] := by
      simpa [Session.pending, Session.add] using hwrite
    rcases List.mem_append.mp hmem with hmem | hmem
    · exact hsession write hmem
    · rcases List.mem_pair.mp hmem with rfl | rfl
      · rfl
      · trivial
  · rw [hpending] at hwrite
    obtain rfl := List.mem_singleton.mp hwrite
    trivial

/-- **A sweep brings nothing back.** -/
theorem leavesDead_sweep (hw : w.db.tables.Kept) :
    LeavesDead revived (fun _ => False) (Scheduler.sweep rt) w := by
  have hexpire : (Scheduler.expireApprovals rt {}).All Cmd.Reads
      fun r => ∀ result, r = .ok result → Burying result.2 := by
    refine (Prog.all_bind _ _).mpr ⟨trivial, fun now => (Prog.all_bind _ _).mpr ⟨trivial, ?_⟩⟩
    exact fun rows => burying_expireAll rows fun write hwrite => by cases hwrite
  have hcancel : ∀ {session : Session}, Burying session →
      (Scheduler.killStaleDeferrals rt session).All Cmd.Reads
        fun r => ∀ result, r = .ok result → Burying result.2 := by
    intro session h
    refine (Prog.all_bind _ _).mpr ⟨trivial, fun now => (Prog.all_bind _ _).mpr ⟨trivial, ?_⟩⟩
    exact fun rows => burying_cancelAll rows h
  unfold Scheduler.sweep
  refine .read_bind hexpire hw fun expired v _ hexpired hv => ?_
  refine .read_bind (hcancel (hexpired _ rfl)) (hv ▸ hw) fun stale u _ hstale hu => ?_
  have hkept : u.db.tables.Kept := by
    rw [hu, hv]
    exact hw
  have hcommit : LeavesDead revived (fun _ => False) (Session.commit stale.2) u :=
    .commit_buries hkept (hstale _ rfl) fun _ _ h => h.elim
  exact hcommit.bind fun _ _ _ hx => .pure hx _

/-! ## Replays -/

/-- **A replay**: the letter is replayed along with its row's return, and it was the only one. -/
theorem Tables.Kept.replay {t : Tables} (ht : t.Kept) (hv : t.Valid) {dead dead' : DeadLetterRow}
    {entry entry' : OutboxRow} {block : AuditBlockRow} (hdead : dead ∈ t.deadLetters)
    (hwaits : dead.status ≠ .replayed) (hentry : entry.id = dead.outboxId)
    (hreplayed : dead'.status = .replayed) :
    (t.applyAll [.updateOutbox entry entry', .updateDeadLetter dead dead',
      .insertBlock block]).Kept := by
  have hunreplayed : (t.applyAll [.updateOutbox entry entry', .updateDeadLetter dead dead',
      .insertBlock block]).unreplayed =
        t.deadLetters.filter fun d => d.id ≠ dead.id ∧ d.status ≠ .replayed := by
    refine (filter_updateWhere ?_).trans ?_
    · intro d hd hid
      obtain rfl := eq_of_key_eq hv.dlq_id hd hdead hid
      have hstatus : (d.store dead' d).status = .replayed :=
        (dirty_current _ _).trans hreplayed
      simp [hstatus]
    · have hletters : (t.apply (.updateOutbox entry entry')).deadLetters = t.deadLetters := rfl
      simp [hletters]
  have hother : ∀ d ∈ t.deadLetters.filter fun d => d.id ≠ dead.id ∧ d.status ≠ .replayed,
      d ∈ t.unreplayed ∧ d.id ≠ dead.id := by
    intro d hd
    obtain ⟨hmem, hboth⟩ := List.mem_filter.mp hd
    have hboth := of_decide_eq_true hboth
    exact ⟨List.mem_filter.mpr ⟨hmem, decide_eq_true hboth.2⟩, hboth.1⟩
  refine ⟨ht.matched.updateOutbox, ?_, ?_⟩
  · rw [hunreplayed]
    intro d hd
    obtain ⟨hwaiting, hid⟩ := hother d hd
    obtain ⟨r, hr, hrid, hrdead⟩ := ht.dead d hwaiting
    refine ⟨r, Tables.mem_updateOutbox hr fun hsame => hid ?_, hrid, hrdead⟩
    -- two letters of one row would both be waiting
    have hdead' : dead ∈ t.unreplayed := List.mem_filter.mpr ⟨hdead, decide_eq_true hwaits⟩
    have hrow : d.outboxId = dead.outboxId := (hrid.symm.trans hsame).trans hentry
    rw [eq_of_key_eq ht.once hwaiting hdead' hrow]
  · rw [hunreplayed]
    refine ht.once.sublist (List.Sublist.map _ ?_)
    apply List.monotone_filter_right
    intro d hd
    exact decide_eq_true (of_decide_eq_true hd).2

theorem leavesDead_replay {principal : Principal} {deadLetterId : String}
    (hw : w.db.tables.Kept)
    (hrevived : ∀ d, w.db.tables.deadLetterById deadLetterId = some d → revived d.outboxId) :
    LeavesDead revived (fun _ => False) (Dlq.replay rt principal deadLetterId) w := by
  have hnow : Act.nowUtc.All Cmd.Reads fun _ => True := ⟨trivial, fun _ => trivial⟩
  unfold Dlq.replay
  refine .select_bind hw ?_
  split
  · exact .throw (w := w.after 1) hw _
  · next dead hfound =>
    split
    · exact .throw (w := w.after 1) hw _
    · next hwaits =>
      refine .select_bind (w := w.after 1) hw ?_
      split
      · exact .throw (w := (w.after 1).after 1) hw _
      · next entry hentry =>
        have hdead : dead ∈ w.db.tables.deadLetters := List.mem_of_find?_eq_some hfound
        have hid : entry.id = dead.outboxId := by
          have hfind := List.find?_some hentry
          simpa using hfind
        refine .read_bind hnow (w := (w.after 1).after 1) hw fun now v _ _ hv => ?_
        refine .read_bind (AuditChain.reads_append rt _ _) (hv ▸ hw)
          fun appended u _ happended hu => ?_
        have hdb : u.db = w.db := hu.trans hv
        have hcommit : LeavesDead revived (fun _ => False) (Session.commit appended.2) u := by
          rcases happended.2 with hpending | hpending
          · refine .commit (hdb ▸ hw) fun db hcommit => ?_
            rw [Database.commit_eq_some.mp hcommit, hpending, hdb]
            refine ⟨hw.replay w.db.valid hdead hwaits hid rfl, ?_, fun _ _ h => h.elim⟩
            intro r hr hrdead hnot
            have hne : r.id ≠ entry.id := by
              rintro heq
              exact hnot (heq ▸ hid ▸ hrevived dead hfound)
            exact ⟨r, Tables.mem_updateOutbox hr hne, ⟨rfl, rfl, rfl, rfl⟩, hrdead⟩
          · apply LeavesDead.commit_buries (hdb ▸ hw)
            · rw [hpending]
              intro write hwrite
              obtain rfl := List.mem_singleton.mp hwrite
              trivial
            · exact fun _ _ h => h.elim
        refine hcommit.bind fun _ x _ hx => ?_
        split
        · exact .throw hx _
        · exact .pure hx _

end Sessions

/-! ## Any sequence -/

/-- What operates on the outbox. A turn by itself belongs to a pass that was interrupted: its row was
read before whatever came between. -/
inductive OutboxOp where
  | execute (ex : OutboxExecutor) (s : RecoveryState)
  | pass (d : OutboxDrainer) (includeStale : Bool)
  | turn (d : OutboxDrainer) (report : DrainReport) (row : OutboxRow)
  | sweep
  | replay (principal : Principal) (deadLetterId : String)

namespace OutboxOp

def act (rt : Runtime) : OutboxOp → Act Unit
  | execute ex s => do let _ ← ex.execute rt s
  | pass d includeStale => do let _ ← d.drainOnce rt includeStale
  | turn d report row => do let _ ← d.drainRow rt report row
  | sweep => do let _ ← Scheduler.sweep rt
  | replay principal deadLetterId => do let _ ← Dlq.replay rt principal deadLetterId

/-- Whose row an operation may bring back: that of the letter an operator replays. -/
def Revives (t : Tables) : OutboxOp → String → Prop
  | replay _ deadLetterId, outboxId =>
    ∃ d, t.deadLetterById deadLetterId = some d ∧ d.outboxId = outboxId
  | _, _ => False

/-- The row of a turn was read from the outbox, where it still is. -/
def Read (w : World) : OutboxOp → Prop
  | turn _ _ row => w.db.tables.Holds row
  | _ => True

/-- **An operation that comes upon no dead row**: an execution that will call for an action, or a
turn of an interrupted pass that will, finds no dead row under its reference. -/
def Clear (rt : Runtime) (w : World) : OutboxOp → Prop
  | execute _ s => ∀ applied, OutboxExecutor.Calls rt s applied →
      w.db.tables.Alive applied.referenceId
  | turn _ _ row => ∀ case applied, OutboxDrainer.Resumes w.db.tables row case applied →
      OutboxExecutor.Chargeable applied → w.db.tables.Alive row.referenceId
  | _ => True

/-- **What every operation should keep to**: all along it, dead rows are left alone unless an
operator replays them, and no row has two open letters; nor has one at its end. -/
structure Respects (rt : Runtime) (w : World) (op : OutboxOp) : Prop where
  along : (op.act rt).Along World.handler (Undisturbed (op.Revives w.db.tables)) w
  oneOpen : ((op.act rt).run World.handler w).2.db.tables.OneOpen

variable {rt : Runtime} {op : OutboxOp} {w : World}

/-- **Step.** -/
theorem Clear.leavesDead (h : op.Clear rt w) (hw : w.db.tables.Kept) (hread : op.Read w) :
    LeavesDead (op.Revives w.db.tables) (fun _ => False) (op.act rt) w := by
  cases op with
  | execute ex s =>
    exact (OutboxExecutor.leavesDead_execute hw h fun _ h => h.elim).bind fun _ _ _ hv =>
      .pure hv _
  | pass d includeStale =>
    exact (OutboxDrainer.leavesDead_drainOnce hw).bind fun _ _ _ hv => .pure hv _
  | turn d report row =>
    exact (OutboxDrainer.leavesDead_drainRow hw hread h fun _ h => h.elim).bind fun _ _ _ hv =>
      .pure hv _
  | sweep => exact (leavesDead_sweep hw).bind fun _ _ _ hv => .pure hv _
  | replay principal deadLetterId =>
    exact (leavesDead_replay hw fun d hd => ⟨d, hd, rfl⟩).bind fun _ _ _ hv => .pure hv _

/-- What respects dead rows calls for none. -/
theorem Respects.clear (h : op.Respects rt w) (hw : w.db.tables.Kept) (hread : op.Read w) :
    op.Clear rt w := by
  have hcreates : (op.act rt).Along World.handler
      (World.Creates fun request v => v.db.tables.Alive request.referenceId) w :=
    h.along.mono fun _ _ hc => hc.2.1
  cases op with
  | execute ex s =>
    rintro applied ⟨happlied, ⟨token, htoken, hverify⟩, hcharge⟩ r hr href
    have hfound : w.db.tables.outboxByReference applied.referenceId = some r :=
      href ▸ outboxByReference_of_mem hr
    have hintended : OutboxExecutor.intended s applied w = some (w.after 1) := by
      simp [OutboxExecutor.intended, hfound]
    have hcalls := (OutboxExecutor.along_execute ex happlied htoken hverify w).mp
      ((Prog.along_bind World.handler _ _).mp hcreates).1 _ hintended
    rcases OutboxExecutor.requestOf_cases s applied ((w.after 1).after 1).clock with
      ⟨-, request, hok, hcharges⟩ | ⟨hnot, -⟩
    · exact hcalls request hok r hr (href.trans hcharges.1.symm)
    · exact absurd hcharge hnot
  | turn d report row =>
    intro case applied hresumes hcharge r hr href
    have hmatches := hw.matches_of_holds hread
    have hcalls := (OutboxDrainer.creates_drainRow hread hmatches).mp
      ((Prog.along_bind World.handler _ _).mp hcreates).1 case applied hresumes
    rcases OutboxExecutor.requestOf_cases (OutboxDrainer.resumed rt case applied w) applied
      (w.after 4).clock with ⟨-, request, hok, hcharges⟩ | ⟨hnot, -⟩
    · refine hcalls request hok r hr ?_
      rw [href, hcharges.1, hmatches.reference hresumes.2.2]
    · exact absurd hcharge hnot
  | _ => trivial

theorem respects_iff (hw : w.db.tables.Kept) (hread : op.Read w) :
    op.Respects rt w ↔ op.Clear rt w := by
  constructor
  · exact fun h => h.clear hw hread
  · intro h
    have hleaves := h.leavesDead hw hread
    exact ⟨hleaves.along, hleaves.kept.oneOpen⟩

/-- Something holds of every operation of a sequence, in the world it starts in. One that raises is
over, and the next one starts. -/
def Everywhere (rt : Runtime) (φ : World → OutboxOp → Prop) : List OutboxOp → World → Prop
  | [], _ => True
  | op :: rest, w => φ w op ∧ Everywhere rt φ rest ((op.act rt).run World.handler w).2

/-- **A sequence of operations respects dead rows exactly when none of its executions, and no turn of
an interrupted pass, comes upon one.** -/
theorem everywhere_respects_iff (rt : Runtime) (ops : List OutboxOp) (w : World)
    (hw : w.db.tables.Kept) (hread : Everywhere rt Read ops w) :
    Everywhere rt (fun w op => op.Respects rt w) ops w ↔
      Everywhere rt (fun w op => op.Clear rt w) ops w := by
  induction ops generalizing w with
  | nil => exact Iff.rfl
  | cons op rest ih =>
    have hstep : op.Respects rt w ↔ op.Clear rt w := respects_iff hw hread.1
    constructor
    · rintro ⟨hop, hrest⟩
      have hclear := hstep.mp hop
      exact ⟨hclear, (ih _ (hclear.leavesDead hw hread.1).kept hread.2).mp hrest⟩
    · rintro ⟨hclear, hrest⟩
      exact ⟨hstep.mpr hclear, (ih _ (hclear.leavesDead hw hread.1).kept hread.2).mpr hrest⟩

def refusing : World where
  db := oneCase
  clock := { utc := 0 }
  fate n := { elapsed := 1000, hex := String.ofList (List.replicate n 'a'), create := .refused "400" }

def attempted : OutboxOp := execute {} (authorisedState (linkAction 1))

theorem kept_oneCase : oneCase.tables.Kept := by
  refine ⟨?_, ?_, List.nodup_nil⟩
  · intro r hr
    cases hr
  · intro d hd
    cases hd

/-- A refused attempt, a sweep, an operator's replay and a pass. -/
theorem everywhere_respects_replayed :
    Everywhere plainRuntime (fun w op => op.Respects plainRuntime w)
      [attempted, sweep, replay { name := "op" } "dlq_aaaaaaaa", pass {} true] refusing := by
  refine (everywhere_respects_iff plainRuntime _ refusing kept_oneCase ?_).mpr ?_
  · simp [Everywhere, Read, attempted]
  · refine ⟨?_, trivial, trivial, trivial, trivial⟩
    intro applied _ r hr
    cases hr

/-- **The attempt made again comes upon its dead row**: it is refused again, and the row has two open
letters. -/
theorem not_everywhere_respects :
    ¬∀ (rt : Runtime) (ops : List OutboxOp) (w : World), w.db.tables.Kept →
      Everywhere rt Read ops w → Everywhere rt (fun w op => op.Respects rt w) ops w := by
  intro h
  have hagain := h plainRuntime [attempted, attempted] refusing kept_oneCase
    (by simp [Everywhere, Read, attempted])
  have hone := hagain.2.1.oneOpen
  revert hone
  decide +kernel

end OutboxOp

end AegisMerchant
