import AegisMerchant.Workers.CommittedTerms

/-!
# The case of a resumed row

The executor and the drainer return the state a case has reached. What settles a case later reads
its stored row, and that row is nobody's to write here.

`OutboxDrainer.resumed_covered_iff` is exact, and `OutboxDrainer.not_resumed_covered` a case its
pass leaves behind.
-/

namespace AegisMerchant

/-! ## Cases stay -/

/-- Nothing the executor stores is a case. -/
theorem Tables.apply_cases {actions : Set AppliedAction} {t : Tables} {write : Write}
    (h : write.Booked actions) : (t.apply write).cases = t.cases := by
  cases write with
  | updateCase read new => exact h.elim
  | _ => rfl

/-- What the executor does leaves the cases as they are. -/
theorem Cmd.Books.keeps_cases {links actions : Set AppliedAction} {β : Type} {c : Cmd β}
    (h : c.Books links actions) (w : World) :
    (World.handler.exec c w).2.db.tables.cases = w.db.tables.cases :=
  World.exec_keeps_of_writes (I := fun t => t.cases = w.db.tables.cases)
    (fun _ _ hbooked ht => (Tables.apply_cases hbooked).trans ht) h.writes w rfl

def SameCases (w w' : World) : Prop := w'.db.tables.cases = w.db.tables.cases

/-- Everybody leaves the cases as they are. -/
def casesContract : Contract Cmd World := World.contract SameCases SameCases fun _ _ => True

theorem casesContract_closed : casesContract.Closed where
  refl _ := rfl
  trans h h' := h'.trans h
  guar h := h

namespace ExecutorCall

variable {rt : Runtime}

/-- A run of calls leaves the cases as they are. -/
theorem run_inTurn_cases (calls : List ExecutorCall) (w : World) :
    SameCases w ((inTurn rt calls).run World.handler w).2 := by
  have hbooks : (inTurn rt calls).All (Cmd.Books Set.univ Set.univ) fun _ => True := by
    induction calls with
    | nil => trivial
    | cons call rest ih =>
      exact Prog.All.seq ((Prog.all_attempt _).mpr (books_act call)) fun _ => ih
  exact (hbooks.along (φ := fun c _ => c.Books Set.univ Set.univ) (fun _ _ hc => hc) w).run
    (I := SameCases w) (fun c v hc hv => (hc.keeps_cases v).trans hv) rfl

/-- A program that makes one call. -/
def Calls (rt : Runtime) (p : Act Unit) : Prop := ∃ call : ExecutorCall, p = call.act rt

/-- So does every interleaving of them, whichever of them die on the way. -/
theorem runWorkers_cases {w : World} {moves : List (Move Cmd PyError)}
    (hmoves : ∀ m ∈ moves, Pool.StartsOnly (Calls rt) m) :
    SameCases w (runWorkers w moves).state := by
  have hmeets : ({ state := w } : Pool Cmd PyError World).Meets casesContract (moves ++ []) :=
    Pool.meets_of_cond (fun _ _ => trivial) _ _
  refine (Pool.rely_between (K := Cmd.Books Set.univ Set.univ) casesContract_closed ?_
    (fun c v hc _ => hc.keeps_cases v) (by simpa using hmoves) hmeets).1
  rintro _ ⟨call, rfl⟩
  exact books_act call

end ExecutorCall

/-! ## What is promised of a resumed row -/

/-- The row's case is stored as `MONITORING`, and counts the row's attempt. -/
def OutboxRow.Covered (row : OutboxRow) (t : Tables) : Prop :=
  match t.caseById row.caseId, row.action with
  | some case, .ok applied => case.status = .monitoring ∧ applied.attemptNo ≤ case.attemptNo
  | _, _ => False

instance (row : OutboxRow) (t : Tables) : Decidable (row.Covered t) :=
  decidableRead (P := fun case applied =>
    case.status = .monitoring ∧ applied.attemptNo ≤ case.attemptNo) (Q := False) _ _

theorem OutboxRow.covered_congr {row : OutboxRow} {w w' : World} (h : SameCases w w') :
    row.Covered w'.db.tables ↔ row.Covered w.db.tables := by
  unfold Covered Tables.caseById
  rw [h]

namespace OutboxDrainer

def Turn.Resumed (rt : Runtime) (d : OutboxDrainer) (turn : Turn) : Prop :=
  match (d.drainRow rt turn.report turn.row).run World.handler turn.world with
  | (.ok report, _) => turn.report.recovered < report.recovered
  | (.error _, _) => False

instance (rt : Runtime) (d : OutboxDrainer) (turn : Turn) : Decidable (turn.Resumed rt d) := by
  unfold Turn.Resumed
  split <;> infer_instance

/-- **Whatever a pass reports resumed, its case stands as it stood before the executor ran**: after
any executions and passes with crashes between any two of their commands, a pass, and any calls
after it, the cases of the rows it resumed are stored as promised exactly when they already were. -/
theorem resumed_covered_iff (rt : Runtime) (d : OutboxDrainer) (includeStale : Bool)
    (later : List ExecutorCall) (w : World) (moves : List (Move Cmd PyError))
    (hmoves : ∀ m ∈ moves, Pool.StartsOnly (ExecutorCall.Calls rt) m) :
    (∀ turn ∈ d.passTurns rt includeStale (runWorkers w moves).state, turn.Resumed rt d →
        turn.row.Covered ((ExecutorCall.inTurn rt (.drainOnce d includeStale :: later)).run
          World.handler (runWorkers w moves).state).2.db.tables) ↔
      ∀ turn ∈ d.passTurns rt includeStale (runWorkers w moves).state, turn.Resumed rt d →
        turn.row.Covered w.db.tables := by
  refine forall₃_congr fun turn _ _ => ?_
  rw [OutboxRow.covered_congr (ExecutorCall.run_inTurn_cases _ _),
    OutboxRow.covered_congr (ExecutorCall.runWorkers_cases hmoves)]

/-- One execution that dies once its intent is committed. -/
def diesAfterIntent : List (Move Cmd PyError) :=
  .spawn (ExecutorCall.act plainRuntime (.execute {} (authorisedState (linkAction 1)))) ::
    (List.replicate 5 (.run 0) ++ [.crash 0])

theorem diesAfterIntent_startsOnly :
    ∀ m ∈ diesAfterIntent, Pool.StartsOnly (ExecutorCall.Calls plainRuntime) m := by
  intro m hm
  rcases List.mem_cons.mp hm with rfl | hm
  · exact ⟨_, rfl⟩
  · rcases List.mem_append.mp hm with hm | hm
    · obtain rfl := List.eq_of_mem_replicate hm
      trivial
    · obtain rfl := List.mem_singleton.mp hm
      trivial

/-- The case, stored as if the action had been taken. -/
def watchedCase : Database where
  tables :=
    { oneCase.tables with
      cases := oneCase.tables.cases.map fun case =>
        { case with status := .monitoring, attemptNo := 1 } }
  valid := by decide +kernel

set_option maxRecDepth 20000 in
/-- Where the case is watched already, a pass resumes a row, and the case is as promised before. -/
theorem resumed_watched :
    (∃ turn ∈ passTurns plainRuntime {} false (runWorkers (worldOf watchedCase)
      diesAfterIntent).state, turn.Resumed plainRuntime {}) ∧
    ∀ turn ∈ passTurns plainRuntime {} false (runWorkers (worldOf watchedCase)
      diesAfterIntent).state, turn.Resumed plainRuntime {} →
        turn.row.Covered (worldOf watchedCase).db.tables := by
  decide +kernel

set_option maxRecDepth 20000 in
/-- Where the case is watched already, a row is resumed, and no resumed row finds it otherwise. -/
theorem resumed_covered_watched :
    let died := (runWorkers (worldOf watchedCase) diesAfterIntent).state
    let turns := passTurns plainRuntime {} false died
    (∃ turn ∈ turns, turn.Resumed plainRuntime {}) ∧
      ¬∃ turn ∈ turns, turn.Resumed plainRuntime {} ∧
        ¬turn.row.Covered ((ExecutorCall.inTurn plainRuntime [.drainOnce {} false]).run
          World.handler died).2.db.tables := by
  obtain ⟨hsome, hcovered⟩ := resumed_watched
  rw [← resumed_covered_iff plainRuntime {} false [] (worldOf watchedCase) diesAfterIntent
    diesAfterIntent_startsOnly] at hcovered
  refine ⟨hsome, ?_⟩
  simp only [not_exists, not_and, not_not]
  exact @hcovered

set_option maxRecDepth 20000 in
/-- Where it is still to be executed, the pass resumes the row and leaves the case behind. -/
theorem not_resumed_covered :
    ¬∀ (rt : Runtime) (d : OutboxDrainer) (includeStale : Bool) (later : List ExecutorCall)
      (w : World) (moves : List (Move Cmd PyError)),
      (∀ m ∈ moves, Pool.StartsOnly (ExecutorCall.Calls rt) m) →
        ∀ turn ∈ d.passTurns rt includeStale (runWorkers w moves).state, turn.Resumed rt d →
          turn.row.Covered ((ExecutorCall.inTurn rt (.drainOnce d includeStale :: later)).run
            World.handler (runWorkers w moves).state).2.db.tables := by
  intro h
  have hrun := @h plainRuntime {} false [] (worldOf oneCase) diesAfterIntent
    diesAfterIntent_startsOnly
  revert hrun
  decide +kernel

end OutboxDrainer

end AegisMerchant
