import AegisMerchant.Services.ReportLaws
import AegisMerchant.Workers.BatchCommits
import AegisMerchant.Workers.SettleRaces

/-!
# Two ways to one figure

The report sums what the treated cases with a proof were worth; the ledger sums what the recovered
cases recovered. The two agree as long as every case that is not a demo is credited whole, and none
that is held as control.

`balanced_step` is the step of the books, `writers_agree` the run, and `not_writers_agree` a
recovery paid in part.
-/

namespace AegisMerchant

open Time Rows

/-! ## Case by case -/

/-- **The books read a case alike**: it is recovered exactly when it is proven, then of its whole
amount; and held as control, it is neither monitored nor proven. -/
structure Books.Alike (b : Books) (case : CaseRow) : Prop where
  proven : case.status = .recovered ↔ case.recoveryVerifiedBy.isSome = true
  whole : case.recoveryVerifiedBy.isSome = true → case.recoveredAmountPaise = case.amountPaise
  held : (b.armOf case.id).getD .treatment = .control →
    case.status ≠ .monitoring ∧ case.recoveryVerifiedBy = none

/-- Every case that is not a demo is read alike. -/
def Books.Balanced (b : Books) : Prop :=
  ∀ case ∈ b.db.tables.cases, (b.columns case.id).isDemo = false → b.Alike case

/-- **The gross of the report is what the ledger says was driven.** -/
def Books.Agree (texts : ReportTexts) (b : Books) : Prop :=
  (recoveryReport texts b.outcomes).grossRecoveredPaise =
    (moneyLedger b (recoveryReport texts b.outcomes)).drivenPaise

instance (texts : ReportTexts) (b : Books) : Decidable (b.Agree texts) :=
  inferInstanceAs (Decidable (_ = _))

/-- The gross, over the cases. -/
theorem Books.gross_eq_sum (texts : ReportTexts) (b : Books) :
    (recoveryReport texts b.outcomes).grossRecoveredPaise =
      (b.credited.map (·.amountPaise)).sum := by
  obtain ⟨excluded, notes, heq⟩ := recoveryReport_eq_build texts b.outcomes
  rw [heq]
  show ((((b.outcomes.filter _).filter _).filter _).map _).sum = _
  unfold Books.outcomes Books.credited Books.measured
  simp only [List.filter_map, List.map_map, List.filter_filter]
  congr 2
  apply List.filter_congr
  intro case _
  simp only [Function.comp_apply]
  cases case.recoveryVerifiedBy.isSome <;> simp

/-- **Books that read every case alike agree.** -/
theorem Books.Balanced.agree {b : Books} (h : b.Balanced) (texts : ReportTexts) :
    b.Agree texts := by
  unfold Books.Agree
  rw [b.gross_eq_sum texts]
  show _ = ((b.db.tables.cases.filter _).map _).sum
  -- the report adds up the cases that are RECOVERED, and no demonstration
  have hcredited : b.credited = b.db.tables.cases.filter fun c =>
      c.status = .recovered && !(b.columns c.id).isDemo := by
    unfold Books.credited Books.measured
    rw [List.filter_filter]
    apply List.filter_congr
    intro case hcase
    cases hdemo : (b.columns case.id).isDemo with
    | true => simp
    | false =>
      have halike := h case hcase hdemo
      cases hproof : case.recoveryVerifiedBy.isSome with
      | false =>
        have hopen : case.status ≠ .recovered := by
          intro hstatus
          rw [halike.proven.mp hstatus] at hproof
          cases hproof
        simp [hopen]
      | true =>
        -- a proven case is not in the control arm, where nothing is credited
        have harm : (b.armOf case.id).getD .treatment = .treatment := by
          cases harm : (b.armOf case.id).getD .treatment with
          | treatment => rfl
          | control =>
            rw [(halike.held harm).2] at hproof
            cases hproof
        simp [harm, halike.proven.mpr hproof]
  rw [← hcredited]
  congr 1
  apply List.map_congr_left
  intro case hcase
  obtain ⟨hmeasured, hpassed⟩ := List.mem_filter.mp hcase
  obtain ⟨hcase, hdemo⟩ := List.mem_filter.mp hmeasured
  simp only [Bool.and_eq_true] at hpassed
  exact ((h case hcase (by simpa using hdemo)).whole hpassed.2).symm

/-! ## What each transaction keeps -/

/-- What is read alike depends on the cases and on the tables beside them. -/
theorem Books.Balanced.of_cases {b b' : Books} (h : b.Balanced)
    (hside : b'.toSideTables = b.toSideTables) (hcases : b'.db.tables.cases = b.db.tables.cases) :
    b'.Balanced := by
  obtain ⟨side, db⟩ := b
  obtain ⟨side', db'⟩ := b'
  obtain rfl : side' = side := hside
  intro case hcase hdemo
  have hcase : case ∈ db.tables.cases := by
    show case ∈ (Books.mk side' db).db.tables.cases
    rw [← hcases]
    exact hcase
  obtain ⟨hproven, hwhole, hheld⟩ := h case hcase hdemo
  exact ⟨hproven, hwhole, hheld⟩

/-- **Clearing.** What is kept is read as before. -/
theorem balanced_keepOnly {w : BatchWorld} (keep : List String) (h : w.books.Balanced) :
    (w.keepOnly keep).books.Balanced := by
  intro case hcase hdemo
  obtain ⟨hcase, hkeep⟩ := List.mem_filter.mp hcase
  obtain ⟨hproven, hwhole, hheld⟩ := h case hcase hdemo
  refine ⟨hproven, hwhole, fun harm => hheld ?_⟩
  have hsame : (w.keepOnly keep).books.armOf case.id = w.books.armOf case.id := by
    unfold Books.armOf
    congr 1
    show (w.side.assignments.filter _).find? _ = w.side.assignments.find? _
    rw [List.find?_filter]
    congr 1
    funext a
    by_cases ha : a.caseId = case.id
    · simp [ha, of_decide_eq_true hkeep]
    · simp [ha]
  rwa [hsame] at harm

/-- What a session stores of a case, when it is sound. -/
structure CaseSession.Sound (s : CaseSession) : Prop where
  proven : s.case.status = .recovered ↔ s.case.recoveryVerifiedBy.isSome = true
  whole : s.case.recoveryVerifiedBy.isSome = true →
    s.case.recoveredAmountPaise = s.case.amountPaise
  held : ∃ a, s.assignment = some a ∧ a.caseId = s.case.id ∧
    (a.arm = .control → s.case.status ≠ .monitoring ∧ s.case.recoveryVerifiedBy = none)

/-- **Storing.** A sound case is read alike, and no other one differently. -/
theorem balanced_insert {w w' : BatchWorld} {s : CaseSession} (hinsert : w.insert? s = some w')
    (hs : s.Sound) (h : w.books.Balanced) : w'.books.Balanced := by
  obtain ⟨a, hassigned, hid, harm⟩ := hs.held
  unfold BatchWorld.insert? at hinsert
  split at hinsert
  · next hvalid =>
    cases hinsert
    obtain ⟨htables, hside⟩ := hvalid
    have hnew : ∀ c ∈ w.world.db.tables.cases, c.id ≠ s.case.id :=
      (nodup_map_concat.mp htables.case_id).2
    have hassignments : (w.side.insertCase s).assignments = w.side.assignments ++ [a] := by
      simp [SideTables.insertCase, hassigned]
    intro case hcase hdemo
    rcases List.mem_append.mp hcase with hcase | hcase
    · -- an earlier case, in the arm it was in
      have hne := hnew case hcase
      have hcolumns : (w.side.insertCase s).columns case.id = w.side.columns case.id :=
        Function.update_of_ne hne _ _
      obtain ⟨hproven, hwhole, hheld⟩ := h case hcase (by
        show (w.side.columns case.id).isDemo = false
        rw [← hcolumns]
        exact hdemo)
      refine ⟨hproven, hwhole, fun hcontrol => hheld ?_⟩
      rw [← hcontrol]
      unfold Books.armOf
      show ((w.side.assignments.find? _).map _).getD _ =
        (((w.side.insertCase s).assignments.find? _).map _).getD _
      have hother : ¬a.caseId = case.id := fun heq => hne (heq.symm.trans hid)
      rw [hassignments, List.find?_append]
      simp [hother]
    · obtain rfl := List.mem_singleton.mp hcase
      refine ⟨hs.proven, hs.whole, fun hcontrol => harm ?_⟩
      have hone := hside.assignment_id
      rw [hassignments] at hone
      -- the case has no assignment but the one inserted with it
      have hfirst : w.side.assignments.find? (fun b => b.caseId = s.case.id) = none := by
        apply List.find?_eq_none.mpr
        intro b hb heq
        have heq : b.caseId = s.case.id := of_decide_eq_true heq
        exact (nodup_map_concat.mp hone).2 b hb (heq.trans hid.symm)
      unfold Books.armOf at hcontrol
      change (((w.side.insertCase s).assignments.find? _).map _).getD _ = _ at hcontrol
      rw [hassignments, List.find?_append, hfirst] at hcontrol
      simpa [hid] using hcontrol
  · cases hinsert

/-! ## What each settlement keeps -/

/-- **The condition** on an update of a case that is not a demo: it finds the case as its session
read it; and a credit is of the whole amount and, if a poll makes it, of no case held as
control. -/
def Write.CreditsWhole (b : Books) : Write → Prop
  | .updateCase read new =>
    (b.columns read.id).isDemo = false →
      (∀ row ∈ b.db.tables.cases, row.id = read.id → row = read) ∧
        (new.status = .recovered → new.recoveredAmountPaise = read.amountPaise ∧
          (new.recoveryVerifiedVia = some .apiReconciliation →
            (b.armOf read.id).getD .treatment ≠ .control))
  | _ => True

instance (b : Books) : (write : Write) → Decidable (write.CreditsWhole b)
  | .updateCase _ _ => by unfold Write.CreditsWhole; infer_instance
  | .insertOutbox _ | .updateOutbox _ _ | .insertAction _ | .insertContact _
  | .insertDeadLetter _ | .updateDeadLetter _ _ | .updateApproval _ _ | .insertBlock _ =>
    inferInstanceAs (Decidable True)

/-- Books whose cases one update rewrote: the rest are read as before. -/
theorem balanced_updateCase {b b' : Books} {read new : CaseRow}
    (hside : b'.toSideTables = b.toSideTables)
    (hcases : b'.db.tables.cases = updateWhere (·.id) read.id (read.store new) b.db.tables.cases)
    (hfinds : (b.columns read.id).isDemo = false →
      ∀ row ∈ b.db.tables.cases, row.id = read.id → row = read)
    (halike : b.Alike read → (b.columns read.id).isDemo = false → b.Alike (read.store new read))
    (h : b.Balanced) : b'.Balanced := by
  obtain ⟨side, db⟩ := b
  obtain ⟨side', db'⟩ := b'
  obtain rfl : side' = side := hside
  intro case hcase hdemo
  rw [hcases] at hcase
  obtain ⟨row, hrow, rfl⟩ := mem_updateWhere.mp hcase
  -- the case credited, or one the commit does not name
  by_cases hread : row.id = read.id
  · rw [if_pos hread] at hdemo ⊢
    have hdemo : (side'.columns read.id).isDemo = false := by
      rw [← hread]
      exact hdemo
    obtain rfl := hfinds hdemo row hrow hread
    obtain ⟨hproven, hwhole, hheld⟩ := halike (h row hrow hdemo) hdemo
    exact ⟨hproven, hwhole, hheld⟩
  · rw [if_neg hread] at hdemo ⊢
    obtain ⟨hproven, hwhole, hheld⟩ := h row hrow hdemo
    exact ⟨hproven, hwhole, hheld⟩

/-- A case resolved without us is read alike. -/
theorem alike_organic {b : Books} {case : CaseRow} (now : DateTime) (h : b.Alike case)
    (hrecovered : case.status ≠ .recovered) (horganic : case.status ≠ .resolvedOrganic) :
    b.Alike (case.store (Settle.organic case now) case) := by
  obtain ⟨hstatus, hproof, -⟩ := store_organic horganic now case
  have hnone : case.recoveryVerifiedBy = none := by
    cases hproven : case.recoveryVerifiedBy with
    | none => rfl
    | some by' => exact absurd (h.proven.mpr (by rw [hproven]; rfl)) hrecovered
  have hproof := hproof.trans hnone
  refine ⟨?_, fun hsome => ?_, fun _ => ⟨?_, hproof⟩⟩
  · rw [hstatus, hproof]
    simp
  · rw [hproof] at hsome
    cases hsome
  · rw [hstatus]
    simp

/-- A case credited whole is read alike, if it is not held. -/
theorem alike_recovered {b : Books} {case : CaseRow} (by' : String) (via : RecoveryVerifier)
    (now : DateTime) (h : b.Alike case) (hnone : case.recoveryVerifiedBy = none)
    (hfree : (b.armOf case.id).getD .treatment ≠ .control) :
    b.Alike (case.store (Settle.recovered case case.amountPaise by' via now) case) := by
  have hopen : case.status ≠ .recovered := by
    intro hstatus
    have hsome := h.proven.mp hstatus
    rw [hnone] at hsome
    cases hsome
  obtain ⟨hstatus, hproof, hamount⟩ := store_recovered hopen hnone case.amountPaise by' via now
  refine ⟨?_, fun _ => hamount, fun hcontrol => absurd hcontrol hfree⟩
  rw [hstatus, hproof]
  simp

/-! ## The commands of the writers -/

/-- What the writers of the books ask for: a settlement, blocks, a reset or a sound case. -/
def BatchCmd.Accounts : {β : Type} → BatchCmd β → Prop
  | _, .serve c => c.Settles (Credits fun _ => True) ∨ c.Writes Write.IsBlock
  | _, .commit s => s.Sound
  | _, .clear _ | _, .flush _ => True

/-- **The condition**, on what is committed. -/
def CreditsWhole : {β : Type} → BatchCmd β → BatchWorld → Prop
  | _, .serve (.commit ws), w => ∀ write ∈ ws, write.CreditsWhole w.books
  | _, _, _ => True

instance : {β : Type} → (c : BatchCmd β) → (w : BatchWorld) → Decidable (CreditsWhole c w)
  | _, .serve (.commit ws), w =>
    inferInstanceAs (Decidable (∀ write ∈ ws, write.CreditsWhole w.books))
  | _, .serve .now, _ | _, .serve (.select _ _), _ | _, .serve (.flush _ _), _
  | _, .serve .tokenHex, _ | _, .serve .uniform, _ | _, .serve (.createPaymentLink _), _
  | _, .serve (.getPaymentLinkByReference _), _ | _, .serve (.completeStructured _ _), _
  | _, .clear _, _ | _, .flush _, _ | _, .commit _, _ => inferInstanceAs (Decidable True)

/-- The contract of the books: balanced, they stay so. -/
def booksContract : Contract BatchCmd BatchWorld where
  toHandler := BatchWorld.handler
  rely w w' := w.books.Balanced → w'.books.Balanced
  guar w w' := w.books.Balanced → w'.books.Balanced
  cond := CreditsWhole

instance {β : Type} (c : BatchCmd β) (w : BatchWorld) : Decidable (booksContract.cond c w) :=
  inferInstanceAs (Decidable (CreditsWhole c w))

theorem booksContract_closed : booksContract.Closed where
  refl _ := id
  trans h h' := fun hw => h' (h hw)
  guar h := h

/-- A settlement that meets the condition keeps the books balanced. -/
theorem balanced_settleTxn {w : BatchWorld} {db : Database} {ws : List Write}
    (hcommit : w.world.db.commit ws = some db)
    (htxn : SettleTxn (Credits fun _ => True) ws)
    (hwhole : ∀ write ∈ ws, write.CreditsWhole w.books) (h : w.books.Balanced) :
    (Books.mk w.side db).Balanced := by
  have htables := Database.commit_eq_some.mp hcommit
  have hside : (Books.mk w.side db).toSideTables = w.books.toSideTables := rfl
  -- a settlement is lost, organic or credited, and only the last moves money
  cases htxn with
  | lost =>
    apply h.of_cases hside
    show db.tables.cases = _
    rw [htables]
    rfl
  | @organic case now hrecovered horganic =>
    have hwhole := hwhole _ List.mem_cons_self
    have hcases : db.tables.cases = updateWhere (·.id) case.id
        (case.store (Settle.organic case now)) w.world.db.tables.cases := by
      rw [htables]
      rfl
    exact balanced_updateCase hside hcases (fun hdemo => (hwhole hdemo).1)
      (fun halike _ => alike_organic now halike hrecovered horganic) h
  | @credited case new block hcredit hname hcase =>
    have hwhole := hwhole _ List.mem_cons_self
    obtain ⟨hnone, amount, by', via, now, rfl, hvia, -⟩ := hcredit.spec
    have hcases : db.tables.cases = updateWhere (·.id) case.id
        (case.store (Settle.recovered case amount by' via now)) w.world.db.tables.cases := by
      rw [htables]
      rfl
    refine balanced_updateCase hside hcases (fun hdemo => (hwhole hdemo).1) ?_ h
    intro halike hdemo
    obtain ⟨hamount, hpoll⟩ := (hwhole hdemo).2 rfl
    obtain rfl : amount = case.amountPaise := hamount
    apply alike_recovered by' via now halike hnone
    intro hcontrol
    -- a webhook credits a monitored case, and the poll asks for the arm
    rcases hvia with rfl | hmonitoring
    · exact hpoll rfl hcontrol
    · exact (halike.held hcontrol).1 hmonitoring

/-- **Step.** Every command of the writers that meets the condition keeps the books balanced. -/
theorem balanced_step {β : Type} (c : BatchCmd β) (w : BatchWorld) (hc : c.Accounts)
    (hcond : CreditsWhole c w) (h : w.books.Balanced) :
    (BatchWorld.handler.exec c w).2.books.Balanced := by
  cases c with
  | clear keep => exact balanced_keepOnly keep h
  | flush s =>
    rw [BatchWorld.exec_flush]
    exact h
  | commit s =>
    rw [BatchWorld.exec_commit]
    cases hinsert : w.insert? s with
    | none => exact h
    | some w' =>
      have hw' : w'.books.Balanced := balanced_insert hinsert hc h
      exact hw'
  | serve c =>
    show (Books.mk w.side (World.handler.exec c w.world).2.db).Balanced
    by_cases hquiet : c.Quiet
    · rw [(World.exec_quiet hquiet w.world).1]
      exact h
    · cases c with
      | commit ws =>
        simp only [World.handler, World.serve, World.advance_db]
        cases hcommit : w.world.db.commit ws with
        | none => exact h
        | some db =>
          -- a settlement, or a transaction of audit blocks alone
          rcases hc with htxn | hblocks
          · exact balanced_settleTxn hcommit htxn hcond h
          · have hside : (Books.mk w.side db).toSideTables = w.books.toSideTables := rfl
            apply h.of_cases hside
            show db.tables.cases = _
            obtain ⟨blocks, happlied⟩ := applyAll_blocks hblocks w.world.db.tables
            rw [Database.commit_eq_some.mp hcommit, happlied]
            rfl
      | _ => exact absurd trivial hquiet

/-! ## The programs of the writers -/

inductive BooksWriter (rt : Runtime) : BatchAct Unit → Prop
  | settler {p : Act Unit} (h : Settler rt (fun _ => True) p) : BooksWriter rt (BatchAct.serve p)
  | batch (c : BatchConfig) (corpus : List AttemptRow) (hthinks : c.Thinks) :
      BooksWriter rt (do let _ ← BatchStore.runBatch rt c corpus)

section Writers

variable {rt : Runtime} {c : BatchConfig}

/-- A session of a sound record is sound. -/
theorem CaseSession.Of.sound {s : CaseSession} {r : BatchRecord} {id : String} {row : CorpusRow}
    {playbook : Playbook} (h : s.Of r) (hr : r.Sound id row playbook) : s.Sound := by
  obtain ⟨a, hassigned, hid, harm⟩ := h.assignment
  refine ⟨?_, ?_, a, hassigned, ?_, fun hcontrol => ?_⟩
  · rw [h.case]
    exact hr.proven
  · rw [h.case]
    exact hr.whole
  · rw [h.case]
    exact hid
  · rw [h.case]
    exact hr.held (harm ▸ hcontrol)

theorem accounts_runBatch (hthinks : c.Thinks) (corpus : List AttemptRow) :
    (BatchStore.runBatch rt c corpus).All BatchCmd.Accounts fun _ => True := by
  have hstores := @stores_runBatch rt CaseSession.Sound c hthinks corpus
    fun hsound _ s hs => hs.sound hsound
  refine hstores.mono (fun c hc => ?_) fun _ hr => hr
  cases c with
  | serve c => exact .inr hc
  | commit s => exact hc
  | clear keep => trivial
  | flush s => trivial

/-- **Every writer of the books asks for nothing else.** -/
theorem accounts_writer {p : BatchAct Unit} (h : BooksWriter rt p) :
    p.All BatchCmd.Accounts fun _ => True := by
  cases h with
  | settler h =>
    exact (Prog.all_mapCmd _).mpr ((settles_settler h).mono (fun c hc => .inl hc) fun _ hr => hr)
  | batch c corpus hthinks =>
    apply (accounts_runBatch hthinks corpus).seq
    intro _
    trivial

end Writers

/-! ## Every run -/

def runWriters (w : BatchWorld) (moves : List (Move BatchCmd PyError)) : BatchWorld :=
  (({ state := w } : Pool BatchCmd PyError BatchWorld).run BatchWorld.handler moves).state

/-- **From a database without cases, in every run of batches, webhooks and polls whose commits meet
the condition, the report and the ledger agree.** -/
theorem writers_agree (rt : Runtime) (texts : ReportTexts) {w : BatchWorld}
    (hempty : w.world.db.tables.cases = []) {moves : List (Move BatchCmd PyError)}
    (hstart : ∀ m ∈ moves, Pool.StartsOnly (BooksWriter rt) m)
    (hmeets : ({ state := w } : Pool BatchCmd PyError BatchWorld).Meets booksContract moves) :
    (runWriters w moves).books.Agree texts := by
  have hbalanced : w.books.Balanced := by
    intro case hcase
    rw [show w.books.db.tables.cases = [] from hempty] at hcase
    cases hcase
  have hstart : ∀ m ∈ moves ++ [], Pool.StartsOnly (BooksWriter rt) m := by
    rwa [List.append_nil]
  have hmeets : ({ state := w } : Pool BatchCmd PyError BatchWorld).Meets booksContract
      (moves ++ []) := by
    rwa [List.append_nil]
  have hrely := (Pool.rely_between booksContract_closed (fun p hp => accounts_writer hp)
    (fun c v hc hcond => balanced_step c v hc hcond) hstart hmeets).1
  exact (hrely hbalanced).agree texts

def emptyBooks : BatchWorld where
  world :=
    { db := ⟨{}, Tables.valid_empty⟩
      clock := { utc := 8 * hour }
      fate := fun n => { hex := String.ofList (List.replicate n 'a') } }
  side := {}
  valid :=
    { case_hash := List.nodup_nil
      assignment_id := List.nodup_nil
      assignment_case := fun _ h => absurd h List.not_mem_nil
      call_id := List.nodup_nil
      call_case := fun _ h => absurd h List.not_mem_nil }

def oneAttempt : List AttemptRow := [{ Batch.failedAt { utc := 8 * hour } with id := "atp_1" }]

/-- The batch on it, which leaves its case unpaid. -/
def oneBatch : BatchAct Unit := do
  let _ ← BatchStore.runBatch plainRuntime treatedBatch oneAttempt

def batchThenWebhook (amount : ℤ) : List (Move BatchCmd PyError) :=
  let webhook : Act Unit := do
    let _ ← Settle.processSettlement plainRuntime (paidWebhook amount) "evt_1"
  [.spawn oneBatch, .spawn (BatchAct.serve webhook)] ++ List.replicate 14 (.run 0) ++
    List.replicate 10 (.run 1)

theorem startsOnly_batchThenWebhook (amount : ℤ) :
    ∀ m ∈ batchThenWebhook amount, Pool.StartsOnly (BooksWriter plainRuntime) m := by
  intro m hm
  simp only [batchThenWebhook, List.mem_append, List.mem_cons, List.mem_replicate, List.not_mem_nil,
    or_false] at hm
  rcases hm with ((rfl | rfl) | ⟨-, rfl⟩) | ⟨-, rfl⟩
  · apply BooksWriter.batch
    intro complete hcomplete
    cases hcomplete
  · exact .settler (.webhook _ _ fun _ _ => trivial)
  · trivial
  · trivial

/-- A report that finds nothing significant. -/
def plainTexts : ReportTexts := { isSignificant := fun _ _ => false, percent := fun _ => "" }

/-- Paid in full, the case is worth the same in both. -/
theorem writers_agree_inFull :
    (runWriters emptyBooks (batchThenWebhook 250000)).books.Agree plainTexts :=
  writers_agree plainRuntime plainTexts rfl (startsOnly_batchThenWebhook 250000) (by decide +kernel)

/-- Paid in part, the report has it whole. -/
theorem not_writers_agree :
    ¬∀ (rt : Runtime) (texts : ReportTexts) (w : BatchWorld) (moves : List (Move BatchCmd PyError)),
      w.world.db.tables.cases = [] →
        (∀ m ∈ moves, Pool.StartsOnly (BooksWriter rt) m) →
          (runWriters w moves).books.Agree texts := by
  intro h
  have hagree := h plainRuntime plainTexts emptyBooks (batchThenWebhook 200000) rfl
    (startsOnly_batchThenWebhook 200000)
  have hnot : ¬(runWriters emptyBooks (batchThenWebhook 200000)).books.Agree plainTexts := by
    decide +kernel
  exact hnot hagree

end AegisMerchant
