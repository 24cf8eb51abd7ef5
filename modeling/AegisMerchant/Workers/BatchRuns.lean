import AegisMerchant.Agent.RunBounds
import AegisMerchant.Workers.BatchFits
import AegisMerchant.Workers.BatchRecords

/-!
# One turn of the batch

What a turn of the loop does when nothing else runs: it stores its case, or raises because the id or
the hash of the case is taken.

`run_runRow` and `run_storeRow` are one turn, written out as what it returns and what it stores.
-/

namespace AegisMerchant

open Time

/-! ## Programs of the services -/

namespace BatchWorld

def after (w : BatchWorld) (n : ℕ) : BatchWorld where
  world := w.world.after n
  side := w.side
  valid := by
    rw [World.after_db]
    exact w.valid

@[simp] theorem after_world (w : BatchWorld) (n : ℕ) : (w.after n).world = w.world.after n := rfl

@[simp] theorem after_side (w : BatchWorld) (n : ℕ) : (w.after n).side = w.side := rfl

@[simp] theorem after_after (w : BatchWorld) (m n : ℕ) :
    (w.after m).after n = w.after (m + n) := by
  simp [after]

@[simp] theorem advance_after (w : BatchWorld) (n : ℕ) : (w.after n).advance = w.after (n + 1) :=
  rfl

/-- A program of the services runs as it does in their world, and leaves the other tables alone. -/
theorem run_serve {α : Type} (p : Act α) (w : BatchWorld) :
    ((BatchAct.serve p).run handler w).1 = (p.run World.handler w.world).1 ∧
      ((BatchAct.serve p).run handler w).2.world = (p.run World.handler w.world).2 ∧
      ((BatchAct.serve p).run handler w).2.side = w.side := by
  have hexec : ∀ {β : Type} (c : Cmd β) (v : BatchWorld),
      (handler.exec (.serve c) v).1 = (World.handler.exec c v.world).1 ∧
        (handler.exec (.serve c) v).2.world = (World.handler.exec c v.world).2 ∧
        (v.side = w.side → (handler.exec (.serve c) v).2.side = w.side) :=
    fun c v => ⟨rfl, rfl, id⟩
  obtain ⟨hanswer, hworld, hside⟩ := Prog.run_mapCmd hexec p w
  exact ⟨hanswer, hworld, hside rfl⟩

/-- So one that only takes time does. -/
theorem run_serve_after {α : Type} {p : Act α} {w : BatchWorld} {r : Except PyError α} {n : ℕ}
    (h : p.run World.handler w.world = (r, w.world.after n)) :
    (BatchAct.serve p).run handler w = (r, w.after n) := by
  obtain ⟨hanswer, hworld, hside⟩ := run_serve p w
  rw [h] at hanswer hworld
  rcases hrun : (BatchAct.serve p).run handler w with ⟨r', ⟨world, side, valid⟩⟩
  rw [hrun] at hanswer hworld hside
  obtain rfl : r' = r := hanswer
  obtain rfl : world = w.world.after n := hworld
  obtain rfl : side = w.side := hside
  rfl

end BatchWorld

/-! ## The run of a case, and its record -/

namespace Batch

variable {rt : Runtime} {c : BatchConfig} {now : DateTime}

theorem depsAt_behaves (moment : DateTime) : (depsAt c moment).Behaves where
  now := ⟨moment, rfl⟩
  executor := by
    intro execute hexecute
    cases hexecute

theorem run_approvalFor (rt : Runtime) (final : RecoveryState) (case : CaseRow) (now : DateTime)
    (w : World) :
    ∃ approval n, (approvalFor rt final case now).run World.handler w =
      (.ok approval, w.after n) ∧
        ∀ a ∈ approval, Drawn w.fate w.tick (w.tick + n) "apr" a.id := by
  unfold approvalFor
  split
  · refine ⟨_, 1, rfl, ?_⟩
    intro a ha
    obtain rfl := Option.some.inj ha
    exact ⟨w.tick, le_refl _, Nat.lt_succ_self _, rfl⟩
  · refine ⟨none, 0, rfl, ?_⟩
    intro a ha
    cases ha

theorem run_actionFor (final : RecoveryState) (id : String) (now : DateTime) (w : World) :
    ∃ action n, (actionFor final id now).run World.handler w = (.ok action, w.after n) ∧
      ∀ a ∈ action, Drawn w.fate w.tick (w.tick + n) "act" a.id := by
  unfold actionFor
  split
  · refine ⟨_, 1, rfl, ?_⟩
    intro a ha
    obtain rfl := Option.some.inj ha
    exact ⟨w.tick, le_refl _, Nat.lt_succ_self _, rfl⟩
  · refine ⟨none, 0, rfl, ?_⟩
    intro a ha
    cases ha


/-- The ids of what goes with a case are drawn as its record is made. -/
theorem run_record (rt : Runtime) (hfraction : 0 ≤ c.controlArmFraction ∧ c.controlArmFraction < 1)
    (final : RecoveryState) (case : CaseRow) (now : DateTime) (w : World) :
    ∃ r n, (record rt c final case now).run World.handler w = (.ok r, w.after n) ∧
      (∀ a ∈ r.approval, Drawn w.fate w.tick (w.tick + n) "apr" a.id) ∧
      ∀ a ∈ r.action, Drawn w.fate w.tick (w.tick + n) "act" a.id := by
  obtain ⟨approval, m, happroval, hdrawn⟩ := run_approvalFor rt final case now w
  obtain ⟨action, n, haction, hdrawn'⟩ := run_actionFor final case.id now (w.after m)
  obtain ⟨assignment, hassigned⟩ : ∃ assignment,
      assignArm rt case.id c.experimentKey c.controlArmFraction = .ok assignment :=
    ⟨_, if_pos hfraction⟩
  let arm := final.experimentArm.getD .treatment
  refine ⟨
    { case, arm, assignmentHash := assignment.assignmentHash
      stoppingRuleFired := final.stoppingRuleFired, llmLedger := final.llmLedger
      applied := final.policyApplied, approval, action, event := caseEvent final case arm },
    m + n, ?_, ?_, ?_⟩
  · unfold record
    rw [hassigned, Prog.run_bind_ok (Act.run_liftExcept _ w), Prog.run_bind_ok happroval,
      Prog.run_bind_ok haction, World.after_after]
    rfl
  · exact fun a ha => (hdrawn a ha).widen (le_refl _) (by omega)
  · rw [World.after_fate, World.after_tick] at hdrawn'
    exact fun a ha => (hdrawn' a ha).widen (by omega) (by omega)

/-- **A turn of the loop returns**: one more case, with a sound record. -/
theorem run_runRow (rt : Runtime) (hthinks : c.Thinks)
    (hfraction : 0 ≤ c.controlArmFraction ∧ c.controlArmFraction < 1) (now : DateTime)
    (tally : BatchTally) (row : CorpusRow) (playbook : Playbook) (w : World) :
    ∃ tally' r n, (runRow rt c now tally row playbook).run World.handler w =
        (.ok tally', w.after n) ∧
      tally'.records.getLast? = some r ∧ tally'.created = tally.created + 1 ∧
      r.Sound (caseId (tally.created + 1)) row playbook ∧
      (∀ a ∈ r.approval, Drawn w.fate w.tick (w.tick + n) "apr" a.id) ∧
      ∀ a ∈ r.action, Drawn w.fate w.tick (w.tick + n) "act" a.id := by
  let s := stateOf c tally row playbook (caseId (tally.created + 1))
  let deps := depsAt c (caseNow row)
  -- the graph only thinks: the database is as before it
  have hthought : (runCase rt s deps).All Cmd.Thinks fun _ => True :=
    thinks_runCase (depsAt_thinks hthinks _) rfl s
  obtain ⟨m, hm⟩ := run_thinks hthought w
  have hcalls : s.llmCalls ≤ deps.maxLlmCalls := by
    show (0 : ℤ) ≤ 3
    decide
  obtain ⟨hruns, -⟩ := runCase_closes rt (depsAt_behaves (c := c) (caseNow row)) rfl rfl hcalls
  obtain ⟨final, v, hfinal, -⟩ := hruns w
  obtain rfl : v = w.after m := by
    rw [← hm, hfinal]
  let paid : Bool := c.draws tally.created <
    baselineSelfRecovery + (if acted final then treatedUplift playbook else 0)
  let case := caseRow final row playbook (caseId (tally.created + 1)) paid now
  obtain ⟨r, n, hrecord, happroval, haction⟩ := run_record rt hfraction final case now
    (w.after m)
  have hrun : (runRow rt c now tally row playbook).run World.handler w =
      (.ok (addCase tally row final paid r), w.after (m + n)) := by
    unfold runRow
    rw [Prog.run_bind_ok hfinal, Prog.run_bind_ok hrecord, World.after_after]
    rfl
  have hall := (@all_runRow_sound rt c now hthinks tally row playbook).run (H := World.handler) w
  rw [hrun] at hall
  obtain ⟨r', hrecords, hcreated, hsound⟩ := hall
  -- the record the soundness lemma speaks of is the one just made
  obtain rfl : r = r' := by
    have hlast : tally.records ++ [r] = tally.records ++ [r'] := hrecords
    simpa using hlast
  rw [World.after_fate, World.after_tick] at happroval haction
  refine ⟨_, r, m + n, hrun, ?_, hcreated, hsound, ?_, ?_⟩
  · exact List.getLast?_concat
  · exact fun a ha => (happroval a ha).widen (by omega) (by omega)
  · exact fun a ha => (haction a ha).widen (by omega) (by omega)

end Batch

/-- The rows of the model's calls, each with its id. -/
theorem run_callRows (id : String) (entries : List LLMCallRecord) (w : World) :
    ∃ rows, (BatchStore.callRows id entries).run World.handler w =
        (.ok rows, w.after entries.length) ∧ (∀ call ∈ rows, call.caseId = some id) ∧
      rows.map (·.id) =
        (List.range' w.tick entries.length).map fun i => newId "llmcall" (w.fate i).hex := by
  induction entries generalizing w with
  | nil => exact ⟨[], rfl, List.forall_mem_nil _, rfl⟩
  | cons entry rest ih =>
    obtain ⟨rows, hrun, hcase, hids⟩ := ih (w.after 1)
    refine ⟨
      { id := newId "llmcall" (w.fate w.tick).hex, caseId := some id
        inputTokens := entry.inputTokens.toNat, outputTokens := entry.outputTokens.toNat } :: rows,
      ?_, ?_, ?_⟩
    · rw [BatchStore.callRows, Prog.run_bind_ok (Act.run_freshId _ w), Prog.run_bind_ok hrun,
        World.after_after, Nat.add_comm]
      rfl
    · exact List.forall_mem_cons.mpr ⟨rfl, hcase⟩
    · rw [List.map_cons, hids, World.after_fate, World.after_tick]
      rfl

/-! ## A database that takes another case -/

/-- No id that the rest of the batch draws is taken, and the chain takes another block. -/
structure BatchWorld.Ready (rt : Runtime) (w : BatchWorld) : Prop where
  apart : DrawsApart w.world.fate w.world.tick
  calls : Undrawn w.world.fate w.world.tick "llmcall" (w.side.llmCalls.map (·.id))
  approvals : Undrawn w.world.fate w.world.tick "apr" (w.world.db.tables.approvals.map (·.id))
  actions : Undrawn w.world.fate w.world.tick "act" (w.world.db.tables.actions.map (·.id))
  chain : ChainReady rt w.world.fate w.world.tick w.world.db.tables

/-- The id and the hash of a case are taken by no other. -/
def BatchWorld.New (w : BatchWorld) (id hash : String) : Prop :=
  ∀ c ∈ w.world.db.tables.cases, c.id ≠ id ∧ (w.side.columns c.id).idempotencyHash ≠ hash

/-- The rows of a session went in, by the end of some commands. -/
structure BatchWorld.Took (w w' : BatchWorld) (s : CaseSession) (n : ℕ) : Prop where
  tables : w'.world.db.tables = w.world.db.tables.insertCase s
  side : w'.side = w.side.insertCase s
  fate : w'.world.fate = w.world.fate
  tick : w'.world.tick = w.world.tick + n

section Sessions

variable {rt : Runtime} {w w' : BatchWorld} {s : CaseSession}

theorem CaseSession.Fits.after (h : s.Fits w.world.db.tables w.side) (n : ℕ) :
    s.Fits (w.after n).world.db.tables (w.after n).side := by
  rw [BatchWorld.after_world, World.after_db]
  exact h

/-- A case fits without what goes with it. -/
theorem CaseSession.Fits.bare {t : Tables} {side : SideTables} (h : s.Fits t side) :
    ({ case := s.case, columns := s.columns } : CaseSession).Fits t side where
  id_ne := h.id_ne
  hash_ne := h.hash_ne
  observed := h.observed
  amount := h.amount
  proof := h.proof
  approval := by simp
  action := by simp
  block := by simp
  assignment := by simp
  calls := by simp
  call_ids := by simpa using (List.nodup_append.mp h.call_ids).1

theorem BatchWorld.run_flush (s : CaseSession) (w : BatchWorld) :
    (BatchAct.call (.flush s)).run BatchWorld.handler w =
      (if (w.insert? s).isSome then .ok () else .error .integrityError, w.advance) := by
  unfold BatchAct.call
  rw [Prog.run_bind, Prog.run_lift, BatchWorld.exec_flush]
  simp only
  split <;> rfl

/-- Rows that fit are flushed. -/
theorem CaseSession.Fits.run_flush (h : s.Fits w.world.db.tables w.side) (n : ℕ) :
    (BatchAct.call (.flush s)).run BatchWorld.handler (w.after n) = (.ok (), w.after (n + 1)) := by
  rw [BatchWorld.run_flush, (h.after n).insert]
  rfl

/-- And committed. -/
theorem CaseSession.Fits.run_commit (h : s.Fits w.world.db.tables w.side) (n : ℕ) :
    ∃ w', (BatchAct.call (.commit s)).run BatchWorld.handler (w.after n) = (.ok (), w') ∧
      w.Took w' s (n + 1) := by
  unfold BatchAct.call
  rw [Prog.run_bind, Prog.run_lift, BatchWorld.exec_commit, (h.after n).insert]
  refine ⟨_, rfl, ?_, ?_, ?_, ?_⟩
  · show (w.world.after n).db.tables.insertCase s = _
    rw [World.after_db]
  · rfl
  · exact World.after_fate _ _
  · show (w.world.after n).tick + 1 = _
    rw [World.after_tick]
    rfl

/-- **The block of a case, and the commit.** -/
theorem run_appendCommit {e : AuditEvent} {block : AuditBlockRow} {n : ℕ}
    (hblock : block = e.block rt w.world.db.tables.head
      (newId "blk" (w.world.fate (w.world.tick + (n + 2))).hex) (w.world.after (n + 2)).clock)
    (h : ({ s with block := some block } : CaseSession).Fits w.world.db.tables w.side) :
    ∃ w', (BatchStore.appendCommit rt s e).run BatchWorld.handler (w.after n) = (.ok (), w') ∧
      w.Took w' { s with block := some block } (n + 5) := by
  -- the head, the clock and the id are read in this order, one tick each
  have hselect : (Act.select (·.head)).run World.handler (w.after n).world =
      (.ok w.world.db.tables.head, (w.after n).world.after 1) := by
    rw [Act.run_select, BatchWorld.after_world, World.after_db]
  have hnow : Act.nowUtc.run World.handler (w.after (n + 1)).world =
      (.ok (w.world.after (n + 2)).clock, (w.after (n + 1)).world.after 1) := rfl
  have hid : (Act.freshId "blk").run World.handler (w.after (n + 2)).world =
      (.ok (newId "blk" (w.world.fate (w.world.tick + (n + 2))).hex),
        (w.after (n + 2)).world.after 1) := by
    rw [Act.run_freshId, BatchWorld.after_world, World.after_fate, World.after_tick]
  obtain ⟨w', hcommit, htook⟩ := h.run_commit (n + 4)
  refine ⟨w', ?_, htook⟩
  unfold BatchStore.appendCommit
  rw [Prog.run_bind_ok (BatchWorld.run_serve_after hselect), BatchWorld.after_after,
    Prog.run_bind_ok (BatchWorld.run_serve_after hnow), BatchWorld.after_after,
    Prog.run_bind_ok (BatchWorld.run_serve_after hid), BatchWorld.after_after, ← hblock,
    Prog.run_bind, Prog.run_attempt, h.run_flush]
  exact hcommit

/-- A database that took a case with new ids is ready for the next. -/
theorem BatchWorld.Ready.took (hhex : ∀ s, Text.IsHex (rt.sha256 s)) (h : w.Ready rt) {n i : ℕ}
    (htook : w.Took w' s n) {e : AuditEvent} {created : DateTime} (hi : w.world.tick ≤ i)
    (hlt : i < w.world.tick + n)
    (hblock : s.block =
      some (e.block rt w.world.db.tables.head (newId "blk" (w.world.fate i).hex) created))
    (hcalls : ∀ id ∈ s.calls.map (·.id),
      Drawn w.world.fate w.world.tick (w.world.tick + n) "llmcall" id)
    (happroval : ∀ a ∈ s.approval,
      Drawn w.world.fate w.world.tick (w.world.tick + n) "apr" a.id)
    (haction : ∀ a ∈ s.action,
      Drawn w.world.fate w.world.tick (w.world.tick + n) "act" a.id) : w'.Ready rt := by
  have hle : w.world.tick ≤ w.world.tick + n := Nat.le_add_right _ _
  refine ⟨?_, ?_, ?_, ?_, ?_⟩
  all_goals rw [htook.fate, htook.tick]
  · exact h.apart.later hle
  · rw [htook.side]
    show Undrawn _ _ _ ((w.side.llmCalls ++ s.calls).map _)
    rw [List.map_append]
    exact h.calls.drew h.apart hle hcalls
  · rw [htook.tables]
    show Undrawn _ _ _ ((w.world.db.tables.approvals ++ s.approval.toList).map _)
    rw [List.map_append]
    apply h.approvals.drew h.apart hle
    simpa using happroval
  · rw [htook.tables]
    show Undrawn _ _ _ ((w.world.db.tables.actions ++ s.action.toList).map _)
    rw [List.map_append]
    apply h.actions.drew h.apart hle
    simpa using haction
  · apply h.chain.next hhex h.apart hi hlt e created
    rw [htook.tables]
    show w.world.db.tables.blocks ++ s.block.toList = _
    rw [hblock]
    rfl

end Sessions

/-! ## A turn of the loop -/

section Turn

variable {rt : Runtime} {c : BatchConfig} {w w' : BatchWorld}

/-- What a turn leaves: one more case under its columns, and a database that is ready. -/
structure BatchWorld.Stored (rt : Runtime) (w w' : BatchWorld) (case : CaseRow)
    (columns : CaseColumns) : Prop where
  cases : w'.world.db.tables.cases = w.world.db.tables.cases ++ [case]
  columns : w'.side.columns = Function.update w.side.columns case.id columns
  ready : w'.Ready rt

def BatchStore.sessionOf (rt : Runtime) (c : BatchConfig) (attempt : AttemptRow) (r : BatchRecord)
    (calls : List LLMCallRow) : CaseSession where
  case := r.case
  columns := columnsOf rt attempt r.case.playbook
  calls
  assignment := some
    { caseId := r.case.id, experimentKey := c.experimentKey, arm := r.arm
      assignmentHash := r.assignmentHash }
  approval := r.approval
  action := r.action

section Store

variable {r : BatchRecord} {attempt : AttemptRow} {id : String} {playbook : Playbook}

/-- The rows of a sound record fit, if its id and its hash are new. -/
theorem BatchRecord.Sound.fits (hready : w.Ready rt)
    (hsound : r.Sound id attempt.toCorpusRow playbook) (hamount : 0 < attempt.amountPaise)
    (hnew : w.New id (BatchStore.columnsOf rt attempt playbook).idempotencyHash) {last : ℕ}
    (happroval : ∀ a ∈ r.approval, Drawn w.world.fate w.world.tick last "apr" a.id)
    (haction : ∀ a ∈ r.action, Drawn w.world.fate w.world.tick last "act" a.id)
    {calls : List LLMCallRow} (hcase : ∀ call ∈ calls, call.caseId = some r.case.id)
    (hnodup : (calls.map (·.id)).Nodup)
    (hcalls : ∀ id ∈ calls.map (·.id), Drawn w.world.fate w.world.tick last "llmcall" id)
    {block : AuditBlockRow} (hblock : block.caseId = some r.case.id)
    (hfollows : block.Follows w.world.db.tables) :
    ({ BatchStore.sessionOf rt c attempt r calls with block := some block } : CaseSession).Fits
      w.world.db.tables w.side where
  id_ne := by
    intro case hmem
    show case.id ≠ r.case.id
    rw [hsound.caseId]
    exact (hnew case hmem).1
  hash_ne := by
    intro case hmem
    show _ ≠ (BatchStore.columnsOf rt attempt r.case.playbook).idempotencyHash
    rw [hsound.playbook]
    exact (hnew case hmem).2
  observed := hsound.observed
  amount := by
    show 0 < r.case.amountPaise ∧ 0 ≤ r.case.recoveredAmountPaise
    rw [hsound.amount]
    refine ⟨hamount, ?_⟩
    -- an amount is stored only with its proof, and then it is the whole amount
    cases hproof : r.case.recoveryVerifiedBy with
    | none => rw [hsound.unproven hproof]
    | some by' =>
      rw [hsound.whole (by rw [hproof]; rfl), hsound.amount]
      exact hamount.le
  proof := by
    show r.case.recoveredAmountPaise = 0 ∨ r.case.recoveryVerifiedBy.isSome = true
    cases hproof : r.case.recoveryVerifiedBy with
    | none => exact .inl (hsound.unproven hproof)
    | some by' => exact .inr rfl
  approval := by
    intro a ha
    refine ⟨(hsound.approval a ha).trans hsound.caseId.symm, fun a' ha' => ?_⟩
    exact hready.approvals.ne (happroval a ha) _ (List.mem_map_of_mem ha')
  action := by
    intro a ha
    obtain ⟨hid, hrest⟩ := hsound.action a ha
    refine ⟨⟨hid.trans hsound.caseId.symm, hrest⟩, fun a' ha' => ?_⟩
    exact hready.actions.ne (haction a ha) _ (List.mem_map_of_mem ha')
  block := by
    rintro b ⟨⟩
    exact ⟨hblock, hfollows⟩
  assignment := by
    rintro a ⟨⟩
    rfl
  calls := hcase
  call_ids := by
    refine List.nodup_append.mpr ⟨w.valid.call_id, hnodup, fun id' hid' id hid => ?_⟩
    exact hready.calls.ne (hcalls id hid) id' hid'

/-- **A sound record is stored**, if its id and its hash are new. -/
theorem run_storeCase (hinj : Function.Injective rt.sha256) (hhex : ∀ s, Text.IsHex (rt.sha256 s))
    (hready : w.Ready rt) (hsound : r.Sound id attempt.toCorpusRow playbook)
    (hamount : 0 < attempt.amountPaise)
    (hnew : w.New id (BatchStore.columnsOf rt attempt playbook).idempotencyHash) {n : ℕ}
    (happroval : ∀ a ∈ r.approval,
      Drawn w.world.fate w.world.tick (w.world.tick + n) "apr" a.id)
    (haction : ∀ a ∈ r.action,
      Drawn w.world.fate w.world.tick (w.world.tick + n) "act" a.id) :
    ∃ w', (BatchStore.storeCase rt c attempt r).run BatchWorld.handler (w.after n) =
        (.ok (), w') ∧
      w.Stored rt w' r.case (BatchStore.columnsOf rt attempt playbook) := by
  obtain ⟨rows, hrows, hcase, hids⟩ := run_callRows r.case.id r.llmLedger (w.world.after (n + 1))
  rw [World.after_fate, World.after_tick] at hids
  have hlast : w.world.tick + n ≤ w.world.tick + (n + 1 + r.llmLedger.length + 5) := by omega
  generalize hk : n + 1 + r.llmLedger.length = k at hlast
  have hcalls : ∀ id ∈ rows.map (·.id),
      Drawn w.world.fate w.world.tick (w.world.tick + (k + 5)) "llmcall" id := by
    rw [hids]
    intro id hid
    obtain ⟨i, hi, rfl⟩ := List.mem_map.mp hid
    obtain ⟨hle, hlt⟩ := List.mem_range'_1.mp hi
    exact ⟨i, by omega, by omega, rfl⟩
  have hnodup : (rows.map (·.id)).Nodup := by
    rw [hids]
    refine List.Nodup.map_on (fun i hi j hj heq => ?_) List.nodup_range'
    have hi := (List.mem_range'_1.mp hi).1
    have hj := (List.mem_range'_1.mp hj).1
    exact hready.apart i j (by omega) (by omega) (newId_inj.mp heq)
  have happroval' := fun a ha => (happroval a ha).widen (le_refl _) hlast
  have haction' := fun a ha => (haction a ha).widen (le_refl _) hlast
  have hfollows := hready.chain.follows hinj hhex w.world.db.valid
    (Nat.le_add_right w.world.tick (k + 2)) r.event (w.world.after (k + 2)).clock
  have hfits := hsound.fits (c := c) hready hamount hnew happroval' haction' hcase hnodup hcalls
    (hsound.event.trans (congrArg some hsound.caseId.symm)) hfollows
  obtain ⟨w', hrun, htook⟩ := run_appendCommit rfl hfits
  refine ⟨w', ?_, ?_⟩
  · have hbare : ({ case := r.case, columns := BatchStore.columnsOf rt attempt r.case.playbook } :
        CaseSession).Fits w.world.db.tables w.side := hfits.bare
    unfold BatchStore.storeCase
    rw [Prog.run_bind_ok (hbare.run_flush n), Prog.run_bind_ok (BatchWorld.run_serve_after hrows),
      BatchWorld.after_after, hk]
    exact hrun
  · have hcolumns : (BatchStore.columnsOf rt attempt playbook) =
        BatchStore.columnsOf rt attempt r.case.playbook := by
      rw [hsound.playbook]
    refine ⟨?_, ?_, ?_⟩
    · rw [htook.tables]
      rfl
    · rw [htook.side, hcolumns]
      rfl
    · exact hready.took hhex htook (by omega) (by omega) rfl hcalls happroval' haction'

/-- What takes a case without a new id, or a new hash, is refused. -/
theorem run_storeCase_error (hsound : r.Sound id attempt.toCorpusRow playbook) {n : ℕ}
    (hold : ¬w.New id (BatchStore.columnsOf rt attempt playbook).idempotencyHash) :
    ∃ e w', (BatchStore.storeCase rt c attempt r).run BatchWorld.handler (w.after n) =
      (.error e, w') := by
  refine ⟨.integrityError, w.after (n + 1), ?_⟩
  unfold BatchStore.storeCase
  rw [Prog.run_bind, BatchWorld.run_flush, if_neg]
  · rfl
  · intro hstored
    apply hold
    have hnew := BatchWorld.new_of_insert hstored
    rw [BatchWorld.after_world, World.after_db] at hnew
    rw [← hsound.caseId, ← hsound.playbook]
    exact hnew

end Store

/-- **A turn of the loop stores its case, or raises** because the id or the hash is taken. -/
theorem run_storeRow (hinj : Function.Injective rt.sha256) (hhex : ∀ s, Text.IsHex (rt.sha256 s))
    (hthinks : c.Thinks) (hfraction : 0 ≤ c.controlArmFraction ∧ c.controlArmFraction < 1)
    (hready : w.Ready rt) (now : DateTime) (tally : BatchTally) {attempt : AttemptRow}
    (playbook : Playbook) (hamount : 0 < attempt.amountPaise) :
    let id := Batch.caseId (tally.created + 1)
    let columns := BatchStore.columnsOf rt attempt playbook
    let run := (BatchStore.storeRow rt c now tally attempt playbook).run BatchWorld.handler w
    (∃ tally' w' case, run = (.ok tally', w') ∧ tally'.created = tally.created + 1 ∧
        case.id = id ∧ w.New id columns.idempotencyHash ∧ w.Stored rt w' case columns) ∨
      (¬w.New id columns.idempotencyHash ∧ ∃ e w', run = (.error e, w')) := by
  obtain ⟨tally', r, n, hrow, hlast, hcreated, hsound, happroval, haction⟩ :=
    Batch.run_runRow rt hthinks hfraction now tally attempt.toCorpusRow playbook w.world
  by_cases hnew : w.New (Batch.caseId (tally.created + 1))
      (BatchStore.columnsOf rt attempt playbook).idempotencyHash
  · obtain ⟨w', hstore, hstored⟩ := run_storeCase (c := c) hinj hhex hready hsound hamount hnew
      happroval haction
    refine .inl ⟨tally', w', r.case, ?_, hcreated, hsound.caseId, hnew, hstored⟩
    unfold BatchStore.storeRow
    rw [Prog.run_bind_ok (BatchWorld.run_serve_after hrow)]
    simp only [hlast]
    rw [Prog.run_bind_ok hstore]
    rfl
  · obtain ⟨e, w', herror⟩ := run_storeCase_error (c := c) (n := n) hsound hnew
    refine .inr ⟨hnew, e, w', ?_⟩
    unfold BatchStore.storeRow
    rw [Prog.run_bind_ok (BatchWorld.run_serve_after hrow)]
    simp only [hlast]
    exact Prog.run_bind_error herror

end Turn

end AegisMerchant
