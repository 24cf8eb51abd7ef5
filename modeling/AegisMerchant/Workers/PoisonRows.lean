import AegisMerchant.Tools.RetryKept
import AegisMerchant.Workers.DrainLaws

/-!
# A row that raises

A pass is one loop, and only the pass as a whole is guarded. So a row that raises ends it, and the
rows behind it wait for the next pass, which meets the same row first.

What raises is left open: `Work` is any way to read a committed payload back and any execution, with
the code's own as `work`, so `keepsUp_iff` holds whatever a payload may contain and whatever a
provider, a database or a date may raise. `not_keepsUp` is about the code's own.
-/

namespace AegisMerchant

open Time Rows

namespace OutboxDrainer

/-! ## The loop, whatever raises -/

/-- What a turn hands a row to: reading its payload back, and the execution. -/
structure Work where
  reissue : Option Json → DateTime → Except PyError (AppliedAction × PolicyToken)
  execute : RecoveryState → Act RecoveryState

def work (rt : Runtime) (d : OutboxDrainer) : Work where
  reissue := reissueFromCommittedIntent rt
  execute := d.executor.execute rt

namespace Work

def rebuildState (k : Work) (row : OutboxRow) : Act (Option RecoveryState) := do
  match ← Act.select (·.caseById row.caseId) with
  | none => return none
  | some case =>
    if case.status.isTerminal then return none
    else
      let (applied, token) ← liftExcept (k.reissue row.payloadJson (← Act.nowUtc))
      return some (stateOf case applied token)

def drainRow (k : Work) (report : DrainReport) (row : OutboxRow) : Act DrainReport := do
  let report := { report with considered := report.considered + 1 }
  match ← k.rebuildState row with
  | none =>
    markDead row.id "case reached a terminal state"
    return { report with
      skippedTerminal := report.skippedTerminal + 1
      details := report.details ++ [row.referenceId ++ ": case is terminal, dropping"] }
  | some state => return report.record row (← k.execute state)

/-- The loop over the rows of a pass. A row that raises ends it. -/
def drainRows (k : Work) : DrainReport → List OutboxRow → Act DrainReport
  | report, [] => return report
  | report, row :: rest => do
    let report ← k.drainRow report row
    k.drainRows report rest

/-- **`drain_once`.** -/
def drainOnce (k : Work) (d : OutboxDrainer) (includeStale : Bool) : Act DrainReport := do
  k.drainRows {} (← d.rows includeStale)

end Work

/-- With the code's own work, the loop is the drainer's. -/
theorem work_drainRow (rt : Runtime) (d : OutboxDrainer) :
    (d.work rt).drainRow = d.drainRow rt := rfl

theorem work_drainOnce (rt : Runtime) (d : OutboxDrainer) (includeStale : Bool) :
    (d.work rt).drainOnce d includeStale = d.drainOnce rt includeStale := by
  have hrows : ∀ rows report, (d.work rt).drainRows report rows = d.drainRows rt report rows := by
    intro rows
    induction rows with
    | nil => exact fun report => rfl
    | cons row rest ih =>
      intro report
      rw [Work.drainRows, drainRows, work_drainRow]
      exact congrArg _ (funext ih)
  exact congrArg _ (funext fun rows => hrows rows {})

variable {k : Work} {d : OutboxDrainer}

/-! ## Bad rows -/

/-- **A bad row at its turn**: its case is open, and its payload does not read back or its execution
raises. -/
def Turn.Bad (k : Work) (turn : Turn) : Prop :=
  ∃ case, turn.world.db.tables.caseById turn.row.caseId = some case ∧
    case.status.isTerminal = false ∧ ∀ applied token,
      k.reissue turn.row.payloadJson (turn.world.after 2).clock = .ok (applied, token) →
        ∃ e, ((k.execute (stateOf case applied token)).run World.handler
          (turn.world.after 2)).1 = .error e

/-- What `_rebuild_state` answers. -/
theorem Work.run_rebuildState (k : Work) (row : OutboxRow) (w : World) :
    (k.rebuildState row).run World.handler w =
      match w.db.tables.caseById row.caseId with
      | none => (.ok none, w.after 1)
      | some case =>
        if case.status.isTerminal then (.ok none, w.after 1)
        else ((k.reissue row.payloadJson (w.after 2).clock).map fun p => some (stateOf case p.1 p.2),
          w.after 2) := by
  unfold rebuildState
  rw [Prog.run_bind, Act.run_select]
  cases w.db.tables.caseById row.caseId with
  | none => rfl
  | some case =>
    simp only
    split
    · rfl
    · simp only [Prog.run_bind, Act.run_nowUtc, Act.run_liftExcept, World.after_after,
        Nat.reduceAdd]
      cases k.reissue row.payloadJson (w.after 2).clock <;> rfl

/-- Marking a row dead never fails: it touches nothing a constraint is about. -/
theorem run_markDead_ok (i reason : String) (w : World) :
    ((markDead i reason).run World.handler w).1 = .ok () := by
  unfold markDead
  rw [Prog.run_bind, Act.run_select]
  cases hrow : w.db.tables.outboxById i with
  | none => rfl
  | some row =>
    have hmem : row ∈ w.db.tables.outbox := List.mem_of_find?_eq_some hrow
    -- the status and the text of the error are in no constraint
    have hvalid : (w.db.tables.apply (.updateOutbox row
        { row with status := .dead, lastError := some (Text.slice 500 reason) })).Valid := by
      rw [valid_updateOutbox w.db.valid]
      intro stored hstored hid
      obtain rfl : stored = row := eq_of_key_eq w.db.valid.outbox_id hstored hmem hid
      refine ⟨?_, fun r hr hrid hsame => hrid ?_⟩
      · show 0 ≤ dirty stored.attempt stored.attempt stored.attempt
        rw [dirty_self]
        exact w.db.valid.outbox_nonneg stored hstored
      · have hattempt : r.attempt = stored.attempt := by
          have hsame' : r.attempt = dirty stored.attempt stored.attempt stored.attempt := hsame.2.2
          rwa [dirty_self] at hsame'
        have heq : r = stored := eq_of_key_eq w.db.valid.outbox_attempt hr hstored
          (by rw [hsame.1, hsame.2.1, hattempt])
        rw [heq]
    obtain ⟨db, hdb⟩ : ∃ db, w.db.commit [.updateOutbox row
        { row with status := .dead, lastError := some (Text.slice 500 reason) }] = some db :=
      Option.ne_none_iff_exists'.mp fun hnone => Database.commit_eq_none.mp hnone hvalid
    simp only [Act.run_commit, World.after_db, hdb]

/-- **A turn raises exactly when its row is bad.** -/
theorem run_drainRow_error_iff (turn : Turn) :
    (∃ e, ((k.drainRow turn.report turn.row).run World.handler turn.world).1 = .error e) ↔
      turn.Bad k := by
  obtain ⟨report, row, w⟩ := turn
  have hdropped : ∀ (result : DrainReport) (v : World), ¬∃ e,
      ((do markDead row.id "case reached a terminal state"; return result : Act DrainReport).run
        World.handler v).1 = .error e := by
    intro result v
    rw [Prog.run_bind_error_iff, run_markDead_ok]
    simp
  unfold Work.drainRow Turn.Bad
  rw [Prog.run_bind, Work.run_rebuildState]
  cases hcase : w.db.tables.caseById row.caseId with
  | none => exact iff_of_false (hdropped _ _) fun ⟨_, h, _⟩ => by cases h
  | some case =>
    cases hterminal : case.status.isTerminal with
    | true =>
      refine iff_of_false ?_ ?_
      · simpa [hterminal] using hdropped _ _
      · rintro ⟨_, ⟨⟩, hopen, -⟩
        exact absurd (hterminal.symm.trans hopen) (by decide)
    | false =>
      simp only [hterminal, Bool.false_eq_true, if_false]
      cases hread : k.reissue row.payloadJson (w.after 2).clock with
      | error e =>
        -- the payload does not read back, and the turn ends there
        refine iff_of_true ⟨e, rfl⟩ ⟨case, rfl, hterminal, ?_⟩
        rintro applied token ⟨⟩
      | ok p =>
        obtain ⟨applied, token⟩ := p
        show (∃ e, ((k.execute (stateOf case applied token) >>= _ :
          Act DrainReport).run World.handler (w.after 2)).1 = .error e) ↔ _
        rw [Prog.run_bind_error_iff]
        constructor
        · rintro (hraises | ⟨result, v, -, e, herror⟩)
          · refine ⟨case, rfl, hterminal, ?_⟩
            rintro _ _ ⟨⟩
            exact hraises
          · cases herror
        · rintro ⟨_, ⟨⟩, -, hraises⟩
          exact .inl (hraises applied token rfl)

/-! ## Turns -/

def Work.turns (k : Work) : DrainReport → List OutboxRow → World → List Turn
  | _, [], _ => []
  | report, row :: rest, w =>
    ⟨report, row, w⟩ :: match (k.drainRow report row).run World.handler w with
      | (.ok report, v) => k.turns report rest v
      | (.error _, _) => []

def Work.passTurns (k : Work) (d : OutboxDrainer) (includeStale : Bool) (w : World) : List Turn :=
  match (d.rows includeStale).run World.handler w with
  | (.ok rows, v) => k.turns {} rows v
  | (.error _, _) => []

/-! ## A patient loop -/

/-- The turns of a loop that goes on past a row that raises. -/
def Work.patientTurns (k : Work) : DrainReport → List OutboxRow → World → List Turn
  | _, [], _ => []
  | report, row :: rest, w =>
    ⟨report, row, w⟩ :: k.patientTurns
      (((k.drainRow report row).run World.handler w).1.toOption.getD report) rest
      ((k.drainRow report row).run World.handler w).2

/-- The turns one pass would have in it. -/
def Work.patientPass (k : Work) (d : OutboxDrainer) (includeStale : Bool) (w : World) : List Turn :=
  match (d.rows includeStale).run World.handler w with
  | (.ok rows, v) => k.patientTurns {} rows v
  | (.error _, _) => []

/-- A turn takes a command at least. -/
theorem lt_tick_drainRow (report : DrainReport) (row : OutboxRow) (w : World) :
    w.tick < ((k.drainRow report row).run World.handler w).2.tick := by
  have hstep : ∀ {β : Type} (c : Cmd β) (v : World), w.tick < v.tick →
      w.tick < (World.handler.exec c v).2.tick := by
    intro β c v h
    rw [(World.exec_fate c v).2]
    omega
  have hrebuild : ∃ r n, (k.rebuildState row).run World.handler w = (r, w.after (n + 1)) := by
    rw [Work.run_rebuildState]
    split
    · exact ⟨_, 0, rfl⟩
    · split
      · exact ⟨_, 0, rfl⟩
      · exact ⟨_, 1, rfl⟩
  obtain ⟨r, n, hrun⟩ := hrebuild
  have hspent : w.tick < (w.after (n + 1)).tick := by
    rw [World.after_tick]
    omega
  unfold Work.drainRow
  rw [Prog.run_bind, hrun]
  cases r with
  | error e => exact hspent
  | ok state => exact Prog.run_keeps hstep _ hspent

theorem le_tick_of_mem_patientTurns {report : DrainReport} {rows : List OutboxRow} {w : World}
    {turn : Turn} (h : turn ∈ k.patientTurns report rows w) : w.tick ≤ turn.world.tick := by
  induction rows generalizing report w with
  | nil => simp [Work.patientTurns] at h
  | cons row rest ih =>
    rw [Work.patientTurns, List.mem_cons] at h
    rcases h with rfl | h
    · exact le_rfl
    · exact (lt_tick_drainRow report row w).le.trans (ih h)

/-- **The loop attempts what a patient one would exactly when no bad row stands ahead of a row that
is not.** -/
theorem turns_complete_iff {report : DrainReport} {rows : List OutboxRow} {w : World} :
    (∀ turn ∈ k.patientTurns report rows w, ¬turn.Bad k →
        turn ∈ k.turns report rows w) ↔
      (k.patientTurns report rows w).Pairwise fun turn later =>
        turn.Bad k → later.Bad k := by
  induction rows generalizing report w with
  | nil => simp [Work.patientTurns]
  | cons row rest ih =>
    -- the turns behind start later, so none of them is this one
    have hlater : ∀ turn ∈ k.patientTurns
        (((k.drainRow report row).run World.handler w).1.toOption.getD report) rest
        ((k.drainRow report row).run World.handler w).2, turn ≠ ⟨report, row, w⟩ := by
      rintro turn hturn rfl
      exact absurd (le_tick_of_mem_patientTurns hturn) (not_le.mpr (lt_tick_drainRow report row w))
    have hraises : _ ↔ Turn.Bad k ⟨report, row, w⟩ := run_drainRow_error_iff _
    rw [Work.patientTurns, Work.turns, List.pairwise_cons, List.forall_mem_cons]
    rcases hrun : (k.drainRow report row).run World.handler w with ⟨e | report', v⟩
    · -- the loop ends here
      have hbad : Turn.Bad k ⟨report, row, w⟩ := hraises.mp ⟨e, by rw [hrun]⟩
      rw [hrun] at hlater
      constructor
      · rintro ⟨-, h⟩
        have hall : ∀ turn ∈ k.patientTurns ((Except.error e).toOption.getD report) rest v,
            turn.Bad k := by
          intro turn hturn
          by_contra hgood
          exact hlater turn hturn (List.mem_singleton.mp (h turn hturn hgood))
        exact ⟨fun turn hturn _ => hall turn hturn,
          List.pairwise_of_forall_mem_list fun _ _ later hmem _ => hall later hmem⟩
      · rintro ⟨h, -⟩
        exact ⟨fun hgood => absurd hbad hgood, fun turn hturn hgood =>
          absurd (h turn hturn hbad) hgood⟩
    · -- the loop goes on where the patient one does
      have hgood : ¬Turn.Bad k ⟨report, row, w⟩ := by
        rw [← hraises, hrun]
        rintro ⟨_, ⟨⟩⟩
      rw [hrun] at hlater
      constructor
      · rintro ⟨-, h⟩
        refine ⟨fun _ _ hbad => absurd hbad hgood, ih.mp fun turn hturn hturngood => ?_⟩
        exact (List.mem_cons.mp (h turn hturn hturngood)).resolve_left (hlater turn hturn)
      · rintro ⟨-, h⟩
        exact ⟨fun _ => List.mem_cons_self, fun turn hturn hturngood =>
          List.mem_cons_of_mem _ (ih.mpr h turn hturn hturngood)⟩

/-- One pass. -/
theorem passTurns_complete_iff {includeStale : Bool} {w : World} :
    (∀ turn ∈ k.patientPass d includeStale w, ¬turn.Bad k →
        turn ∈ k.passTurns d includeStale w) ↔
      (k.patientPass d includeStale w).Pairwise fun turn later =>
        turn.Bad k → later.Bad k := by
  unfold Work.patientPass Work.passTurns
  rcases (d.rows includeStale).run World.handler w with ⟨e | rows, v⟩
  · simp
  · exact turns_complete_iff

/-! ## Repeated passes -/

/-- The world each pass starts in: a pass that raises is over, and `meanwhile` is whatever else
happens until the next one. -/
def Work.runForever (k : Work) (d : OutboxDrainer) (passes : ℕ → Bool)
    (meanwhile : ℕ → World → World) (w : World) : ℕ → World
  | 0 => w
  | n + 1 => meanwhile n ((k.drainOnce d (passes n)).attempt.run World.handler
      (k.runForever d passes meanwhile w n)).2

/-- **The drainer keeps up with its rows**: every pass attempts each of its rows but the bad ones,
and no row that is there to be attempted in every pass goes without. -/
structure KeepsUp (k : Work) (d : OutboxDrainer) (passes : ℕ → Bool)
    (meanwhile : ℕ → World → World) (w : World) : Prop where
  attempted : ∀ n, ∀ turn ∈ k.patientPass d (passes n) (k.runForever d passes meanwhile w n),
    ¬turn.Bad k → turn ∈ k.passTurns d (passes n) (k.runForever d passes meanwhile w n)
  unstarved : ∀ (i : String) (m : ℕ),
    (∀ n, m ≤ n → ∃ turn ∈ k.patientPass d (passes n) (k.runForever d passes meanwhile w n),
      turn.row.id = i ∧ ¬turn.Bad k) →
    ∃ n, m ≤ n ∧ ∃ turn ∈ k.passTurns d (passes n) (k.runForever d passes meanwhile w n),
      turn.row.id = i

/-- **The drainer keeps up exactly when in no pass a bad row stands ahead of one that is not.** -/
theorem keepsUp_iff (k : Work) (d : OutboxDrainer) (passes : ℕ → Bool)
    (meanwhile : ℕ → World → World) (w : World) :
    KeepsUp k d passes meanwhile w ↔ ∀ n,
      (k.patientPass d (passes n) (k.runForever d passes meanwhile w n)).Pairwise
        fun turn later => turn.Bad k → later.Bad k := by
  constructor
  · exact fun h n => passTurns_complete_iff.mp (h.attempted n)
  · intro h
    have hattempted := fun n => passTurns_complete_iff.mpr (h n)
    refine ⟨hattempted, fun i m hwaits => ?_⟩
    obtain ⟨turn, hturn, hid, hgood⟩ := hwaits m le_rfl
    exact ⟨m, le_rfl, turn, hattempted m turn hturn hgood, hid⟩

end OutboxDrainer

/-! ## An execution that returns -/

/-- **A failure that is not the last is taken in stride**, unless the row's new attempt number is
another row's. -/
theorem OutboxExecutor.execute_ok_of_failsOver {ex : OutboxExecutor} {rt : Runtime}
    {s : RecoveryState} {applied : AppliedAction} {token : PolicyToken} {w : World}
    {row : OutboxRow} (happlied : s.policyApplied = some applied)
    (htoken : s.policyToken = some token) (hverify : token.verify rt = .ok ())
    (hrow : w.db.tables.outboxByReference applied.referenceId = some row)
    (hcharge : Chargeable applied)
    (hfails : (w.after 1).Transient applied.referenceId (w.fate (w.tick + 2)) (w.fate (w.tick + 3)))
    (hleft : row.attempt + 1 < ex.maxAttempts)
    (hfree : ∀ r ∈ w.db.tables.outbox, r.id ≠ row.id →
      ¬(r.caseId = row.caseId ∧ r.actionType = row.actionType ∧ r.attempt = row.attempt + 1)) :
    ∃ s', ((ex.execute rt s).run World.handler w).1 = .ok s' := by
  obtain ⟨hmem, -⟩ := mem_of_outboxByReference hrow
  -- the call fails, and leaves the tables alone
  have hfails' : (w.after 1).Transient applied.referenceId ((w.after 1).fate ((w.after 1).tick + 1))
      ((w.after 1).fate ((w.after 1).tick + 2)) := by
    rw [World.after_fate, World.after_tick]
    exact hfails
  obtain ⟨m, hcall⟩ := (run_callProvider_retryable_iff s applied (w.after 1)).mpr ⟨hcharge, hfails'⟩
  have hquiet := World.run_quiet (quiet_callProvider s applied) (w.after 1)
  rcases hrun : (callProvider s applied).run World.handler (w.after 1) with ⟨r, v⟩
  rw [hrun] at hcall hquiet
  obtain rfl : r = .error (.providerRetryable m) := hcall
  have hdb : v.db = w.db := hquiet
  -- the row is backed off, and nothing forbids it
  have hbyId : v.db.tables.outboxById row.id = some row := by
    rw [hdb]
    exact outboxById_of_mem hmem
  have hvalid : (v.db.tables.apply (.updateOutbox row (backedOff row (.providerRetryable m)
      (v.after 2).clock (v.fate (v.tick + 2)).uniform))).Valid := by
    rw [valid_updateOutbox v.db.valid, hdb]
    intro stored hstored hid
    obtain rfl : stored = row := eq_of_key_eq w.db.valid.outbox_id hstored hmem hid
    have hattempt : (stored.store (backedOff stored (.providerRetryable m) (v.after 2).clock
        (v.fate (v.tick + 2)).uniform) stored).attempt = stored.attempt + 1 :=
      dirty_current stored.attempt (stored.attempt + 1)
    rw [hattempt]
    have hnonneg := w.db.valid.outbox_nonneg stored hstored
    exact ⟨by omega, hfree⟩
  obtain ⟨db, hcommit⟩ : ∃ db, v.db.commit [.updateOutbox row (backedOff row
      (.providerRetryable m) (v.after 2).clock (v.fate (v.tick + 2)).uniform)] = some db :=
    Option.ne_none_iff_exists'.mp fun hnone => Database.commit_eq_none.mp hnone hvalid
  unfold execute
  simp only [happlied, htoken, hverify]
  rw [Prog.run_bind, Act.run_liftExcept]
  simp only [Prog.run_bind, run_phaseOne_of_some hrow, Prog.run_attempt, hrun,
    run_scheduleRetry_of_lt ex hbyId _ hleft, World.commitLast, hcommit]
  exact ⟨_, rfl⟩

/-! ## A row that test mode leaves -/

namespace OutboxDrainer

/-- The row of a test case whose link the provider refused to create. -/
def poisonRow : OutboxRow where
  id := "obx_1"
  caseId := "RC-TM00000"
  actionType := .createPaymentLink
  referenceId := referenceId "RC-TM00000" 1
  payloadJson := some (.obj [])
  attempt := 1
  nextAttemptAt := { utc := 0 }
  createdAt := { utc := 0 }

/-- The row of the treated case's first attempt. -/
def healthyRow : OutboxRow where
  id := "obx_2"
  caseId := "RC-0001"
  actionType := .createPaymentLink
  referenceId := referenceId "RC-0001" 1
  payloadJson := some (linkAction 1).asPayload
  nextAttemptAt := { utc := 1000 }
  createdAt := { utc := 0 }

def poisoned : Database where
  tables :=
    { oneCase.tables with
      cases := oneCase.tables.cases ++ [
        { id := "RC-TM00000", merchantId := "mch_1", customerId := "cus_1"
          playbook := .paymentFailure, status := .monitoring, amountPaise := 10000, attemptNo := 1
          windowExpiresAt := { utc := day } }]
      outbox := [poisonRow, healthyRow] }
  valid := by decide +kernel

/-- Both rows are due at any time. -/
theorem run_rows_poisoned (m : ℕ) :
    (OutboxDrainer.rows {} false).run World.handler ((timingOut poisoned).after m) =
      (.ok [poisonRow, healthyRow], (timingOut poisoned).after (m + 2)) := by
  have hclock : (1000 : ℤ) ≤ (dbTime ((timingOut poisoned).after (m + 1)).clock).utc := by
    have hle : (1000 : ℤ) ≤ ((timingOut poisoned).after (m + 1)).clock.utc :=
      World.after_clock_mono (timingOut poisoned) (Nat.le_add_left 1 m)
    show 1000 ≤ _ - _ % 1000
    omega
  have hpoison : poisonRow.nextAttemptAt ≤ dbTime ((timingOut poisoned).after (m + 1)).clock := by
    show (0 : ℤ) ≤ _
    omega
  have hhealthy : healthyRow.nextAttemptAt ≤ dbTime ((timingOut poisoned).after (m + 1)).clock :=
    hclock
  unfold OutboxDrainer.rows due
  simp only [Prog.run_bind, Act.run_nowUtc, Act.run_select, World.after_after, World.after_db]
  have hdue : ((timingOut poisoned).db.tables.outbox.filter fun r => r.status = .pending ∧
      r.nextAttemptAt ≤ dbTime ((timingOut poisoned).after (m + 1)).clock) =
        [poisonRow, healthyRow] := by
    show List.filter _ [poisonRow, healthyRow] = _
    have hpending : poisonRow.status = .pending ∧ healthyRow.status = .pending := ⟨rfl, rfl⟩
    simp [hpoison, hhealthy, hpending]
  rw [hdue]
  rfl

/-- The poison row raises at any time. -/
theorem run_drainRow_poisonRow (report : DrainReport) (m : ℕ) :
    ∃ e, (OutboxDrainer.drainRow plainRuntime {} report poisonRow).run World.handler
      ((timingOut poisoned).after m) = (.error e, (timingOut poisoned).after (m + 2)) := by
  obtain ⟨e, herror⟩ : ∃ e, poisonRow.action = .error e := ⟨_, rfl⟩
  obtain ⟨case, hcase, hopen⟩ : ∃ case, poisoned.tables.caseById poisonRow.caseId = some case ∧
      case.status.isTerminal = false := ⟨_, rfl, rfl⟩
  have hfound : ((timingOut poisoned).after m).db.tables.caseById poisonRow.caseId = some case := by
    rw [World.after_db]
    exact hcase
  refine ⟨e, ?_⟩
  unfold drainRow
  rw [Prog.run_bind, run_rebuildState]
  simp only [hfound, hopen, herror, World.after_after]
  rfl

/-- The row behind it does not, at any time. -/
theorem not_bad_healthyRow (report : DrainReport) (m : ℕ) :
    ¬Turn.Bad (work plainRuntime {}) ⟨report, healthyRow, (timingOut poisoned).after m⟩ := by
  rintro ⟨case, -, -, hraises⟩
  have haction : healthyRow.action = .ok (linkAction 1) := by decide +kernel
  obtain ⟨e, herror⟩ := hraises (linkAction 1)
    (mint plainRuntime (linkAction 1) (((timingOut poisoned).after m).after 2).clock) (by
      show reissueFromCommittedIntent plainRuntime healthyRow.payloadJson _ = _
      rw [reissue_eq, haction]
      rfl)
  have hfound : (((timingOut poisoned).after m).after 2).db.tables.outboxByReference
      (linkAction 1).referenceId = some healthyRow := by
    rw [World.after_db, World.after_db]
    have hmem : healthyRow ∈ poisoned.tables.outbox :=
      List.mem_cons_of_mem _ (List.mem_singleton.mpr rfl)
    exact outboxByReference_of_mem hmem
  have hreturns : ∃ s', ((OutboxExecutor.execute plainRuntime {} (resumed plainRuntime case
      (linkAction 1) ((timingOut poisoned).after m))).run World.handler
        (((timingOut poisoned).after m).after 2)).1 = .ok s' := by
    apply OutboxExecutor.execute_ok_of_failsOver rfl rfl (verify_mint plainRuntime _ _) hfound
    · decide +kernel
    · rw [World.after_fate, World.after_fate]
      trivial
    · decide
    · rw [World.after_db, World.after_db]
      decide +kernel
  obtain ⟨s', hok⟩ := hreturns
  exact absurd (herror.symm.trans hok) (by simp)

/-- **A healthy row behind a row that test mode left waits for good**: it is due in every pass, and
no pass gets to it. -/
theorem not_keepsUp :
    ¬∀ (rt : Runtime) (d : OutboxDrainer) (passes : ℕ → Bool) (meanwhile : ℕ → World → World)
      (w : World), KeepsUp (d.work rt) d passes meanwhile w := by
  intro h
  have hpass : ∀ m, ∃ report,
      (work plainRuntime {}).passTurns {} false ((timingOut poisoned).after m) =
        [⟨{}, poisonRow, (timingOut poisoned).after (m + 2)⟩] ∧
      (work plainRuntime {}).patientPass {} false ((timingOut poisoned).after m) =
        [⟨{}, poisonRow, (timingOut poisoned).after (m + 2)⟩,
          ⟨report, healthyRow, (timingOut poisoned).after (m + 4)⟩] ∧
      (((work plainRuntime {}).drainOnce {} false).attempt.run World.handler
        ((timingOut poisoned).after m)).2 = (timingOut poisoned).after (m + 4) := by
    intro m
    obtain ⟨e, hrun⟩ := run_drainRow_poisonRow {} (m + 2)
    refine ⟨{}, ?_, ?_, ?_⟩
    · simp only [Work.passTurns, run_rows_poisoned, Work.turns, work_drainRow, hrun]
    · simp only [Work.patientPass, run_rows_poisoned, Work.patientTurns, work_drainRow, hrun]
      rfl
    · rw [Prog.run_attempt, Work.drainOnce, Prog.run_bind, run_rows_poisoned]
      simp only [Work.drainRows, work_drainRow, Prog.run_bind, hrun]
  have hworld : ∀ n, (work plainRuntime {}).runForever {} (fun _ => false) (fun _ v => v)
      (timingOut poisoned) n = (timingOut poisoned).after (4 * n) := by
    intro n
    induction n with
    | zero => rfl
    | succ n ih =>
      obtain ⟨_, -, -, hnext⟩ := hpass (4 * n)
      rw [Work.runForever, ih, hnext]
      rfl
  obtain ⟨n, -, turn, hturn, hid⟩ := (h plainRuntime {} (fun _ => false) (fun _ v => v)
    (timingOut poisoned)).unstarved healthyRow.id 0 fun n _ => by
      obtain ⟨report, -, hpatient, -⟩ := hpass (4 * n)
      rw [hworld, hpatient]
      exact ⟨_, List.mem_cons_of_mem _ (List.mem_singleton.mpr rfl), rfl,
        not_bad_healthyRow _ _⟩
  obtain ⟨_, hturns, -⟩ := hpass (4 * n)
  rw [hworld, hturns] at hturn
  obtain rfl := List.mem_singleton.mp hturn
  have hother : poisonRow.id ≠ healthyRow.id := by decide
  exact hother hid

end OutboxDrainer

end AegisMerchant
