import AegisMerchant.Tools.OutboxLaws
import AegisMerchant.Workers.Drainer

/-!
# One pass, turn by turn

A pass reads its rows once and then works on them in turn, each turn in the world the previous one
left. What a pass does is what its turns do.

`along_drainRow` is the rule for laws along a turn, `creates_drainRow` says what a turn may ask for.
-/

namespace AegisMerchant

open Time Rows

/-- Whether a statement about a row's case and action holds, where both can be read. -/
def decidableRead {P : CaseRow → AppliedAction → Prop} {Q : Prop}
    [∀ case applied, Decidable (P case applied)] [Decidable Q] :
    (case : Option CaseRow) → (action : Except PyError AppliedAction) → Decidable
      (match case, action with
      | some case, .ok applied => P case applied
      | _, _ => Q)
  | some case, .ok applied => inferInstanceAs (Decidable (P case applied))
  | some _, .error _ | none, _ => inferInstanceAs (Decidable Q)

/-! ## Rows that stay -/

def OutboxRow.SameIntent (r r' : OutboxRow) : Prop :=
  r'.id = r.id ∧ r'.referenceId = r.referenceId ∧ r'.caseId = r.caseId ∧
    r'.payloadJson = r.payloadJson

def Tables.Holds (t : Tables) (row : OutboxRow) : Prop := ∃ r ∈ t.outbox, row.SameIntent r

theorem Tables.holds_of_mem {t : Tables} {row : OutboxRow} (h : row ∈ t.outbox) : t.Holds row :=
  ⟨row, h, rfl, rfl, rfl, rfl⟩

/-- No statement removes an intent or changes it. -/
theorem Tables.apply_holds {t : Tables} {row : OutboxRow} (h : t.Holds row) (w : Write) :
    (t.apply w).Holds row := by
  obtain ⟨r, hr, hsame⟩ := h
  cases w with
  | insertOutbox new => exact ⟨r, List.mem_append_left _ hr, hsame⟩
  | updateOutbox read new =>
    refine ⟨_, updateWhere_of_mem hr, ?_⟩
    split
    · exact hsame
    · exact hsame
  | _ => exact ⟨r, hr, hsame⟩

/-- A run neither. -/
theorem run_holds {α : Type} {row : OutboxRow} (p : Act α) {w : World}
    (h : w.db.tables.Holds row) : (p.run World.handler w).2.db.tables.Holds row :=
  Prog.run_keeps (I := fun v : World => v.db.tables.Holds row) (fun c v =>
    World.exec_keeps_tables (I := (Tables.Holds · row))
      (fun _ write ht => Tables.apply_holds ht write) c v) p h

/-- An intent in the tables is found under its reference. -/
theorem outboxByReference_of_holds {db : Database} {row : OutboxRow} (h : db.tables.Holds row) :
    ∃ r, db.tables.outboxByReference row.referenceId = some r ∧ row.SameIntent r := by
  obtain ⟨r, hr, hsame⟩ := h
  exact ⟨r, hsame.2.1 ▸ outboxByReference_of_mem hr, hsame⟩

theorem OutboxRow.SameIntent.action {r r' : OutboxRow} (h : r.SameIntent r') :
    r'.action = r.action := by
  unfold OutboxRow.action
  rw [h.2.2.2]

theorem reissue_eq (rt : Runtime) (row : OutboxRow) (now : DateTime) :
    reissueFromCommittedIntent rt row.payloadJson now =
      row.action.map fun applied => (applied, mint rt applied now) := by
  unfold reissueFromCommittedIntent OutboxRow.action
  cases row.payloadJson with
  | none => rfl
  | some payload => cases AppliedAction.fromPayload payload <;> rfl

/-- Anything but a request to create a link, committing no more than updates of the outbox. -/
def Cmd.Marks : {β : Type} → Cmd β → Prop
  | _, .createPaymentLink _ => False
  | _, .commit ws => ∀ write ∈ ws, ∃ read new, write = .updateOutbox read new
  | _, _ => True

theorem Cmd.Marks.books {links actions : Set AppliedAction} {β : Type} {c : Cmd β} (h : c.Marks) :
    c.Books links actions := by
  cases c with
  | createPaymentLink request => exact h.elim
  | commit ws =>
    intro write hwrite
    obtain ⟨read, new, rfl⟩ := h write hwrite
    trivial
  | _ => trivial

theorem Cmd.Marks.passive {β : Type} {c : Cmd β} (h : c.Marks) : c.Passive :=
  Cmd.Books.passive (h.books : c.Books ∅ ∅)

namespace OutboxDrainer

/-! ## One turn -/

/-- What `_rebuild_state` answers. -/
theorem run_rebuildState (rt : Runtime) (row : OutboxRow) (w : World) :
    (rebuildState rt row).run World.handler w =
      match w.db.tables.caseById row.caseId with
      | none => (.ok none, w.after 1)
      | some case =>
        if case.status.isTerminal then (.ok none, w.after 1)
        else
          (row.action.map fun applied =>
            some (stateOf case applied (mint rt applied (w.after 2).clock)), w.after 2) := by
  unfold rebuildState
  rw [Prog.run_bind, Act.run_select]
  cases w.db.tables.caseById row.caseId with
  | none => rfl
  | some case =>
    simp only
    split
    · rfl
    · simp only [Prog.run_bind, Act.run_nowUtc, Act.run_liftExcept, World.after_after,
        Nat.reduceAdd, reissue_eq]
      cases row.action <;> rfl

theorem marks_rebuildState (rt : Runtime) (row : OutboxRow) :
    (rebuildState rt row).All Cmd.Marks fun _ => True := by
  rw [rebuildState, Prog.all_bind, Act.all_select]
  refine ⟨trivial, fun found => ?_⟩
  cases found with
  | none => trivial
  | some case =>
    simp only
    split
    · trivial
    · simp only [Prog.all_bind, Act.all_nowUtc, Act.all_liftExcept]
      refine ⟨trivial, fun now => ?_⟩
      split <;> trivial

theorem marks_markDead (i reason : String) : (markDead i reason).All Cmd.Marks fun _ => True := by
  rw [markDead, Prog.all_bind, Act.all_select]
  refine ⟨trivial, fun found => ?_⟩
  cases found with
  | none => trivial
  | some row => simp [Cmd.Marks]

/-- The turn re-executes an action: its case is open, and its payload can be read back. -/
def Resumes (t : Tables) (row : OutboxRow) (case : CaseRow) (applied : AppliedAction) : Prop :=
  t.caseById row.caseId = some case ∧ case.status.isTerminal = false ∧ row.action = .ok applied

/-- The state a turn that starts in a world re-executes an action in. -/
def resumed (rt : Runtime) (case : CaseRow) (applied : AppliedAction) (w : World) : RecoveryState :=
  stateOf case applied (mint rt applied (w.after 2).clock)

/-- **A turn does what its execution does**, if its case is open; and otherwise marks the row. -/
theorem along_drainRow {rt : Runtime} {d : OutboxDrainer}
    {φ : {β : Type} → Cmd β → World → Prop}
    (hφ : ∀ {β : Type} (c : Cmd β) (v : World), c.Marks → φ c v) {report : DrainReport}
    {row : OutboxRow} {w : World} :
    (d.drainRow rt report row).Along World.handler φ w ↔
      ∀ case applied, Resumes w.db.tables row case applied →
        (d.executor.execute rt (resumed rt case applied w)).Along World.handler φ (w.after 2) := by
  rw [drainRow, Prog.along_bind, run_rebuildState]
  refine (and_iff_right ((marks_rebuildState rt row).along hφ w)).trans ?_
  -- marking a row dead is within what the hypothesis allows
  have hdropped : ∀ (result : DrainReport) (v : World),
      (do markDead row.id "case reached a terminal state"; return result : Act DrainReport).Along
        World.handler φ v := fun result v =>
    ((marks_markDead _ _).bind (S := fun _ => True)
      (fun _ _ => (Prog.all_pure _).mpr trivial) fun _ h => h).along hφ v
  unfold Resumes
  cases hcase : w.db.tables.caseById row.caseId with
  | none => simpa using hdropped _ _
  | some case =>
    simp only [Option.some.injEq]
    cases hterminal : case.status.isTerminal with
    | true =>
      refine iff_of_true (by simpa using hdropped _ _) ?_
      rintro _ _ ⟨rfl, hopen, -⟩
      rw [hterminal] at hopen
      cases hopen
    | false =>
      simp only [Bool.false_eq_true, if_false]
      cases haction : row.action with
      | error e => simp [Except.map]
      | ok applied =>
        simp only [Except.map, Except.ok.injEq]
        rw [Prog.along_bind]
        refine (and_iff_left ?_).trans ⟨?_, fun h => h case applied ⟨rfl, hterminal, rfl⟩⟩
        · split <;> trivial
        · rintro h _ _ ⟨rfl, -, rfl⟩
          exact h

/-! ## Turns -/

/-- One turn of a pass: the row, what was reported before it, and the world it starts in. -/
structure Turn where
  report : DrainReport
  row : OutboxRow
  world : World

def turns (rt : Runtime) (d : OutboxDrainer) : DrainReport → List OutboxRow → World → List Turn
  | _, [], _ => []
  | report, row :: rest, w =>
    ⟨report, row, w⟩ :: match (d.drainRow rt report row).run World.handler w with
      | (.ok report, v) => d.turns rt report rest v
      | (.error _, _) => []

def passTurns (rt : Runtime) (d : OutboxDrainer) (includeStale : Bool) (w : World) : List Turn :=
  match (d.rows includeStale).run World.handler w with
  | (.ok rows, v) => d.turns rt {} rows v
  | (.error _, _) => []

section Turns

variable {rt : Runtime} {d : OutboxDrainer}

/-- The loop does what its turns do. -/
theorem along_drainRows {φ : {β : Type} → Cmd β → World → Prop} {report : DrainReport}
    {rows : List OutboxRow} {w : World} :
    (d.drainRows rt report rows).Along World.handler φ w ↔
      ∀ turn ∈ d.turns rt report rows w,
        (d.drainRow rt turn.report turn.row).Along World.handler φ turn.world := by
  induction rows generalizing report w with
  | nil => exact iff_of_true trivial (by simp [turns])
  | cons row rest ih =>
    rw [drainRows, Prog.along_bind, turns, List.forall_mem_cons]
    refine and_congr_right fun _ => ?_
    rcases (d.drainRow rt report row).run World.handler w with ⟨e | report', v⟩
    · simp
    · exact ih

/-- A turn works on one of the rows, whose intent the tables still hold. -/
theorem turn_holds {report : DrainReport} {rows : List OutboxRow} {w : World} {turn : Turn}
    (hrows : ∀ row ∈ rows, w.db.tables.Holds row) (h : turn ∈ d.turns rt report rows w) :
    turn.row ∈ rows ∧ turn.world.db.tables.Holds turn.row := by
  induction rows generalizing report w with
  | nil => simp [turns] at h
  | cons row rest ih =>
    rw [List.forall_mem_cons] at hrows
    rw [turns, List.mem_cons] at h
    rcases h with rfl | h
    · exact ⟨List.mem_cons_self, hrows.1⟩
    · rcases hrun : (d.drainRow rt report row).run World.handler w with ⟨e | report', v⟩
      · simp [hrun] at h
      · rw [hrun] at h
        have hv : v = ((d.drainRow rt report row).run World.handler w).2 := by rw [hrun]
        obtain ⟨hmem, hholds⟩ := ih (fun row' h' => hv ▸ run_holds _ (hrows.2 row' h')) h
        exact ⟨List.mem_cons_of_mem _ hmem, hholds⟩

/-- Reading the rows of a pass takes time and nothing else, and they are rows of the outbox. -/
theorem run_rows (d : OutboxDrainer) (includeStale : Bool) (w : World) :
    ∃ rows n, (d.rows includeStale).run World.handler w = (.ok rows, w.after n) ∧
      ∀ row ∈ rows, row ∈ w.db.tables.outbox := by
  have hdue : ∃ rows, due.run World.handler w = (.ok rows, w.after 2) ∧
      ∀ row ∈ rows, row ∈ w.db.tables.outbox :=
    ⟨_, rfl, fun row h => List.mem_of_mem_filter ((List.mem_insertionSort _).mp h)⟩
  obtain ⟨rows, hrun, hrows⟩ := hdue
  unfold OutboxDrainer.rows
  rw [Prog.run_bind, hrun]
  cases includeStale with
  | false => exact ⟨rows, 2, rfl, hrows⟩
  | true =>
    refine ⟨_, 4, rfl, fun row h => ?_⟩
    rcases List.mem_append.mp h with h | h
    · exact hrows row h
    · exact List.mem_of_mem_filter (List.mem_of_mem_filter h)

theorem marks_rows (d : OutboxDrainer) (includeStale : Bool) :
    (d.rows includeStale).All Cmd.Marks fun _ => True := by
  cases includeStale <;> simp [OutboxDrainer.rows, due, stale, Cmd.Marks]

/-- A pass asks for links and books what the executor may book. -/
theorem books_drainOnce (rt : Runtime) (d : OutboxDrainer) (includeStale : Bool) :
    (d.drainOnce rt includeStale).All (Cmd.Books Set.univ Set.univ) fun _ => True := by
  have hmarks : ∀ {β : Type} (c : Cmd β), c.Marks → c.Books Set.univ Set.univ :=
    fun c hc => hc.books
  refine Prog.All.seq ((marks_rows d includeStale).mono hmarks fun _ h => h) fun rows => ?_
  generalize ({} : DrainReport) = report
  induction rows generalizing report with
  | nil => trivial
  | cons row rest ih =>
    refine Prog.All.seq ?_ ih
    refine Prog.All.seq ((marks_rebuildState rt row).mono hmarks fun _ h => h) fun state => ?_
    cases state with
    | none => exact ((marks_markDead _ _).mono hmarks fun _ h => h).seq fun _ => trivial
    | some s =>
      exact Prog.All.seq ((OutboxExecutor.books_execute d.executor rt s).mono
        (Cmd.Books.mono (Set.subset_univ _) (Set.subset_univ _)) fun _ h => h) fun _ => trivial

/-- A pass does what its turns do. -/
theorem along_drainOnce {φ : {β : Type} → Cmd β → World → Prop}
    (hφ : ∀ {β : Type} (c : Cmd β) (v : World), c.Marks → φ c v) {includeStale : Bool} {w : World} :
    (d.drainOnce rt includeStale).Along World.handler φ w ↔
      ∀ turn ∈ d.passTurns rt includeStale w,
        (d.drainRow rt turn.report turn.row).Along World.handler φ turn.world := by
  rw [drainOnce, Prog.along_bind, passTurns]
  refine (and_iff_right ((marks_rows d includeStale).along hφ w)).trans ?_
  rcases (d.rows includeStale).run World.handler w with ⟨e | rows, v⟩
  · simp
  · exact along_drainRows

/-- A turn of a pass works on a row the outbox had when the pass began, and still has. -/
theorem passTurn_holds {includeStale : Bool} {w : World} {turn : Turn}
    (h : turn ∈ d.passTurns rt includeStale w) :
    turn.row ∈ w.db.tables.outbox ∧ turn.world.db.tables.Holds turn.row := by
  obtain ⟨rows, n, hrun, hrows⟩ := run_rows d includeStale w
  rw [passTurns, hrun] at h
  obtain ⟨hmem, hholds⟩ := turn_holds (w := w.after n) (fun row hrow => by
    rw [World.after_db]
    exact Tables.holds_of_mem (hrows row hrow)) h
  exact ⟨hrows _ hmem, hholds⟩

end Turns

/-! ## The call of a turn -/

/-- The intent of a turn's execution is the row it works on. -/
theorem intended_resumed {rt : Runtime} {row : OutboxRow} {case : CaseRow}
    {applied : AppliedAction} {w : World} (hholds : w.db.tables.Holds row)
    (hmatches : row.Matches) (haction : row.action = .ok applied) :
    OutboxExecutor.intended (resumed rt case applied w) applied (w.after 2) =
      some (w.after 3) := by
  obtain ⟨r, hfound, -⟩ := outboxByReference_of_holds hholds
  rw [← hmatches.reference haction] at hfound
  simp [OutboxExecutor.intended, hfound]

/-- **A turn asks for one link exactly when its case is open and its action can be charged**: for
the reference of its row, five commands later. -/
theorem creates_drainRow {rt : Runtime} {d : OutboxDrainer}
    {ψ : PaymentLinkRequest → World → Prop} {report : DrainReport} {row : OutboxRow} {w : World}
    (hholds : w.db.tables.Holds row) (hmatches : row.Matches) :
    (d.drainRow rt report row).Along World.handler (World.Creates ψ) w ↔
      ∀ case applied, Resumes w.db.tables row case applied →
        ∀ request, OutboxExecutor.requestOf (resumed rt case applied w) applied
          (w.after 4).clock = .ok request → ψ request (w.after 5) := by
  rw [along_drainRow fun c v hc => World.creates_of_passive hc.passive v]
  refine forall₃_congr fun case applied hresumes => ?_
  rw [OutboxExecutor.along_execute d.executor rfl rfl (verify_mint rt applied _),
    intended_resumed hholds hmatches hresumes.2.2]
  simp

end OutboxDrainer

end AegisMerchant
