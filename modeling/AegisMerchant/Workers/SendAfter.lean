import AegisMerchant.Agent.GraphLaws
import AegisMerchant.Workers.DrainGuard

/-!
# What becomes of `send_after`

The stopping rules may defer an action, and the instant they defer it to travels with it: on the
applied action, in the token, in the payload of the outbox row. Nothing that executes the action
looks at it.

So whether an action is left alone until its instant is decided before anything runs: a run of its
case keeps to the instant if it has come by then, or if nothing will be asked for (`RunDue`), and so
does each turn of the passes after it (`TurnDue`). `caseThenPasses_notBefore` says that these are
enough, and that nothing less is, save for an instant that comes in the middle of the run or of a
turn.
-/

namespace AegisMerchant

open Time Rows

/-! ## The clock of a run -/

namespace World

/-- A run does not move the clock back. -/
theorem le_run_clock {ε α : Type} (p : Prog Cmd ε α) (w : World) :
    w.clock ≤ (p.run handler w).2.clock := by
  refine Prog.run_keeps (I := fun v : World => w.clock ≤ v.clock) (fun c v hv => ?_) p (le_refl _)
  rw [exec_clock]
  exact le_trans hv (le_advance_clock v)

/-- No command of a run is served after the run is over. -/
theorem along_clock_le {ε α : Type} (p : Prog Cmd ε α) (w : World) :
    p.Along handler (fun _ v => v.advance.clock ≤ (p.run handler w).2.clock) w := by
  induction p generalizing w with
  | ret a => trivial
  | raise e => trivial
  | step c k ih =>
    refine ⟨?_, ih _ _⟩
    show w.advance.clock ≤ _
    rw [← exec_clock c w]
    exact le_run_clock _ _

end World

/-! ## The law -/

/-- **What a deferred action keeps to**: before its instant, no link is asked for under its reference
and no contact is recorded along with it. -/
def NotBefore (reference : String) (t : DateTime) : {β : Type} → Cmd β → World → Prop
  | _, .createPaymentLink request, w => request.referenceId = reference → t ≤ w.advance.clock
  | _, .commit ws, w => contactsIn reference ws ≠ 0 → t ≤ w.advance.clock
  | _, _, _ => True

instance (reference : String) (t : DateTime) :
    {β : Type} → (c : Cmd β) → (w : World) → Decidable (NotBefore reference t c w)
  | _, .createPaymentLink request, w =>
    inferInstanceAs (Decidable (request.referenceId = reference → t ≤ w.advance.clock))
  | _, .commit ws, w =>
    inferInstanceAs (Decidable (contactsIn reference ws ≠ 0 → t ≤ w.advance.clock))
  | _, .now, _ | _, .select _ _, _ | _, .flush _ _, _ | _, .tokenHex, _ | _, .uniform, _
  | _, .getPaymentLinkByReference _, _ | _, .completeStructured _ _, _ =>
    inferInstanceAs (Decidable True)

section NotBefore

variable {reference : String} {t : DateTime} {α : Type}

/-- From the command that reaches its instant on, anything may be done for an action. -/
theorem along_notBefore_of_le (p : Act α) {w : World} (h : t ≤ w.advance.clock) :
    p.Along World.handler (NotBefore reference t) w := by
  induction p generalizing w with
  | ret a => trivial
  | raise e => trivial
  | step c k ih =>
    refine ⟨?_, ih _ (le_trans ?_ (World.le_advance_clock _))⟩
    · cases c with
      | createPaymentLink | commit => exact fun _ => h
      | _ => trivial
    · rw [World.exec_clock]
      exact h

end NotBefore

/-- Without an action under the reference, no contact counts for it. -/
theorem contactsIn_eq_zero {reference : String} {ws : List Write}
    (h : ∀ write ∈ ws, write.actsFor reference = false) : contactsIn reference ws = 0 := by
  unfold contactsIn
  rw [if_neg]
  simpa using h

/-- What is done for other actions is no concern of an action. -/
theorem notBefore_of_books {links actions : Set AppliedAction} {reference : String} {t : DateTime}
    (hlinks : ∀ applied ∈ links, applied.referenceId ≠ reference)
    (hactions : ∀ applied ∈ actions, applied.referenceId ≠ reference) {β : Type} (c : Cmd β)
    (w : World) (h : c.Books links actions) : NotBefore reference t c w := by
  cases c with
  | createPaymentLink request =>
    obtain ⟨applied, hmem, hcharges⟩ := h
    exact fun href => absurd (hcharges.1.symm.trans href) (hlinks applied hmem)
  | commit ws =>
    refine fun hne => absurd (contactsIn_eq_zero fun write hwrite => ?_) hne
    have hbooked := h write hwrite
    cases write with
    | insertAction a =>
      obtain ⟨applied, hmem, hrecords, -⟩ := hbooked
      have hother := hactions applied hmem
      simpa [Write.actsFor, hrecords] using hother
    | _ => rfl
  | _ => trivial

theorem notBefore_of_thinks {reference : String} {t : DateTime} {β : Type} (c : Cmd β) (w : World)
    (h : c.Thinks) : NotBefore reference t c w := by
  cases c with
  | now | completeStructured => trivial
  | _ => exact h.elim

theorem notBefore_of_marks {reference : String} {t : DateTime} {β : Type} (c : Cmd β) (w : World)
    (h : c.Marks) : NotBefore reference t c w :=
  notBefore_of_books (fun _ h => h.elim) (fun _ h => h.elim) c w (h.books : c.Books ∅ ∅)

/-! ## One execution -/

namespace OutboxExecutor

variable {reference : String} {t : DateTime} {s : RecoveryState} {applied : AppliedAction}

/-- A call in time, and whatever follows it. -/
theorem along_callProvider_of_le {α : Type} (k : Except PyError (PaymentLinkResult × Bool) → Act α)
    {w : World} (h : t ≤ (w.after 2).clock) :
    ((callProvider s applied).attempt >>= k).Along World.handler (NotBefore reference t) w :=
  ⟨trivial, along_notBefore_of_le _ h⟩

/-- **An authorised execution keeps to the instant exactly when it asks for its link from then on**:
before it asks, nothing is recorded, and what it records afterwards is no earlier. -/
theorem along_execute_notBefore {rt : Runtime} {token : PolicyToken} (ex : OutboxExecutor)
    (happlied : s.policyApplied = some applied) (htoken : s.policyToken = some token)
    (hverify : token.verify rt = .ok ()) (w : World) :
    (ex.execute rt s).Along World.handler (NotBefore reference t) w ↔
      (applied.referenceId = reference → Chargeable applied →
        ∀ v, intended s applied w = some v → t ≤ (v.after 2).clock) := by
  constructor
  · -- the law of the whole execution, read at its one call
    rintro h href hcharge v hv
    have hcreates := (along_execute ex happlied htoken hverify w).mp
      (h.mono (ψ := World.Creates fun request u => request.referenceId = reference → t ≤ u.clock)
        fun c u hc => by
          cases c with
          | createPaymentLink request => exact hc
          | _ => trivial) v hv
    rcases requestOf_cases s applied (v.after 1).clock with ⟨-, request, hok, hrequest⟩ | ⟨hfree, -⟩
    · exact hcreates request hok (hrequest.1.trans href)
    · exact absurd hcharge hfree
  · intro h
    by_cases href : applied.referenceId = reference
    · unfold execute
      simp only [happlied, htoken, hverify]
      rw [Prog.along_bind, Act.run_liftExcept]
      refine ⟨Act.along_liftExcept, ?_⟩
      simp only
      rw [Prog.along_bind]
      -- phase one asks for nothing and records nothing
      have hphaseOne : (phaseOne s applied).All (Cmd.Books ∅ ∅) fun _ => True :=
        books_phaseOne s applied
      refine ⟨hphaseOne.along
        (notBefore_of_books (fun _ h => h.elim) fun _ h => h.elim) w, ?_⟩
      have hrun := run_phaseOne s applied w
      cases hv : intended s applied w with
      | none =>
        simp only [hv] at hrun
        simp [hrun]
      | some v =>
        simp only [hv] at hrun
        obtain ⟨i, hrun⟩ := hrun
        simp only [hrun]
        by_cases hcharge : Chargeable applied
        · exact along_callProvider_of_le _ (h href hcharge v hv)
        · -- the request cannot be built, and nothing follows
          obtain ⟨e, herror⟩ :
              ∃ e, requestOf s applied (v.after 1).clock = .error (.valueError e) := by
            rcases requestOf_cases s applied (v.after 1).clock with ⟨hyes, -⟩ | ⟨-, e, herror⟩
            · exact absurd hyes hcharge
            · exact ⟨e, herror⟩
          rw [Prog.along_bind, Prog.along_attempt, Prog.run_attempt, callProvider]
          simp only [Prog.along_bind, Prog.run_bind, Act.along_nowUtc, Act.run_nowUtc,
            Act.along_liftExcept, Act.run_liftExcept, herror]
          exact ⟨⟨trivial, trivial, trivial⟩, trivial⟩
    · -- another action's execution names neither the link nor the contact
      have hother : ∀ applied' ∈ carried s, applied'.referenceId ≠ reference := by
        intro applied' happlied'
        obtain rfl : applied = applied' := Option.some.inj (happlied.symm.trans happlied')
        exact href
      exact (books_execute ex rt s).along (notBefore_of_books hother hother) w

end OutboxExecutor

/-! ## The run of a case -/

section Run

variable {rt : Runtime} {deps : AgentDeps Act} {executor : Option OutboxExecutor}
  {s : RecoveryState} {w : World} {a : AppliedAction} {t : DateTime}

/-- The executor a run is wired to, if it is wired to one. -/
def wired (rt : Runtime) (executor : Option OutboxExecutor) :
    Option (RecoveryState → Act RecoveryState) :=
  executor.map fun ex => ex.execute rt

/-- **When a run is in time for its action**: there is no executor, EXECUTE is not entered, the
intent is refused, the action cannot be charged, or the instant has come when the link is asked
for. -/
def RunInTime (rt : Runtime) (deps : AgentDeps Act) (executor : Option OutboxExecutor)
    (s : RecoveryState) (w : World) (a : AppliedAction) (t : DateTime) : Prop :=
  match executor, entered rt deps .execute .enrich s w with
  | some _, some (s', v) =>
    match OutboxExecutor.intended s' a v with
    | some u => OutboxExecutor.Chargeable a → t ≤ (u.after 2).clock
    | none => True
  | _, _ => True

instance : Decidable (RunInTime rt deps executor s w a t) := by
  unfold RunInTime
  split
  · split <;> infer_instance
  · infer_instance

/-- EXECUTE without an executor only reads the clock. -/
theorem thinks_executeNode (hdeps : deps.Thinks) (hexecutor : deps.executor = none) :
    (executeNode rt s deps).All Cmd.Thinks fun _ => True := by
  unfold executeNode
  split
  · refine (thinks_liftExcept _).seq fun _ => ?_
    simp only [hexecutor]
    exact hdeps.now.seq fun _ => thinks_return _
  · exact hdeps.now.seq fun _ => thinks_return _

/-- **A run keeps to the instant of its action exactly when it is in time.** -/
theorem runCase_notBefore_iff (hdeps : deps.Thinks) (hexecutor : deps.executor = wired rt executor)
    (ha : firewallApplied rt deps s w = some a) :
    (runCase rt s deps).Along World.handler (NotBefore a.referenceId t) w ↔
      RunInTime rt deps executor s w a t := by
  obtain ⟨hopen, -⟩ := firewallApplied_eq_some hdeps ha
  rw [runCase, if_neg (by simp [hopen]), along_runFrom rt hdeps notBefore_of_thinks]
  unfold RunInTime
  cases executor with
  | none =>
    exact iff_of_true (fun s' v _ => (thinks_executeNode hdeps hexecutor).along
      notBefore_of_thinks v) trivial
  | some ex =>
    cases hentered : entered rt deps .execute .enrich s w with
    | none => simp
    | some p =>
      obtain ⟨s', v⟩ := p
      obtain ⟨a', token, n, ha', happlied, htoken, hverify, rfl⟩ :=
        entered_execute_authorised hdeps hopen hentered
      -- EXECUTE is entered with the action the firewall applied, and with no other
      obtain rfl : a = a' := Option.some.inj (ha.symm.trans ha')
      have hcall : (executeNode rt s' deps).Along World.handler (NotBefore a.referenceId t)
          (w.after n) ↔ match OutboxExecutor.intended s' a (w.after n) with
            | some u => OutboxExecutor.Chargeable a → t ≤ (u.after 2).clock
            | none => True := by
        rw [along_executeNode hexecutor happlied htoken hverify,
          OutboxExecutor.along_execute_notBefore ex happlied htoken hverify]
        cases OutboxExecutor.intended s' a (w.after n) with
        | none => simp
        | some u => simp
      constructor
      · exact fun h => hcall.mp (h s' _ rfl)
      · rintro h _ _ ⟨⟩
        exact hcall.mpr h

/-! ## The instants of a run -/

/-- **When a run is due**, by the state it starts in: there is no executor, EXECUTE is not entered,
the intent is refused, the action cannot be charged, or the instant has come. -/
def RunDue (rt : Runtime) (deps : AgentDeps Act) (executor : Option OutboxExecutor)
    (s : RecoveryState) (w : World) (a : AppliedAction) (t : DateTime) : Prop :=
  match executor, entered rt deps .execute .enrich s w with
  | some _, some (s', v) => (OutboxExecutor.intended s' a v).isSome → OutboxExecutor.Chargeable a →
      t ≤ w.clock
  | _, _ => True

instance : Decidable (RunDue rt deps executor s w a t) := by
  unfold RunDue
  split <;> infer_instance

/-- Phase one only takes time. -/
theorem le_intended_clock {s : RecoveryState} {a : AppliedAction} {v u : World}
    (h : OutboxExecutor.intended s a v = some u) : v.clock ≤ u.clock := by
  unfold OutboxExecutor.intended at h
  split at h
  · cases h
    exact World.le_after_clock v 1
  · obtain ⟨db, -, rfl⟩ := Option.map_eq_some_iff.mp h
    exact World.le_after_clock v 5

/-- **A run that is due is in time.** -/
theorem RunDue.inTime (hdeps : deps.Thinks) (hopen : s.isTerminal = false)
    (h : RunDue rt deps executor s w a t) : RunInTime rt deps executor s w a t := by
  unfold RunDue at h
  unfold RunInTime
  cases executor with
  | none => trivial
  | some ex =>
    cases hentered : entered rt deps .execute .enrich s w with
    | none => trivial
    | some p =>
      obtain ⟨s', v⟩ := p
      obtain ⟨-, -, n, -, -, -, -, rfl⟩ := entered_execute_authorised hdeps hopen hentered
      simp only [hentered] at h
      simp only
      cases hu : OutboxExecutor.intended s' a (w.after n) with
      | none => trivial
      | some u =>
        intro hcharge
        -- the nodes, the intent and two commands more: the clock only goes on
        have hw : t ≤ w.clock := h (by rw [hu]; rfl) hcharge
        exact le_trans hw (le_trans (World.le_after_clock w n)
          (le_trans (le_intended_clock hu) (World.le_after_clock u 2)))

theorem creates_of_thinks {ψ : PaymentLinkRequest → World → Prop} {β : Type} (c : Cmd β) (w : World)
    (h : c.Thinks) : World.Creates ψ c w := by
  cases c with
  | now | completeStructured => trivial
  | _ => exact h.elim

/-- The link is asked for before the run is over. -/
theorem asked_le_run_clock (hdeps : deps.Thinks) (hexecutor : deps.executor = wired rt executor)
    {ex : OutboxExecutor} (hex : executor = some ex) {s' : RecoveryState} {u v : World}
    (ha : firewallApplied rt deps s w = some a)
    (hentered : entered rt deps .execute .enrich s w = some (s', v))
    (hu : OutboxExecutor.intended s' a v = some u) (hcharge : OutboxExecutor.Chargeable a) :
    (u.after 2).clock ≤ ((runCase rt s deps).run World.handler w).2.clock := by
  obtain ⟨hopen, -⟩ := firewallApplied_eq_some hdeps ha
  obtain ⟨a', token, n, ha', happlied, htoken, hverify, rfl⟩ :=
    entered_execute_authorised hdeps hopen hentered
  obtain rfl : a = a' := Option.some.inj (ha.symm.trans ha')
  -- no command of a run is later than its end; the call is one of them
  generalize hend : ((runCase rt s deps).run World.handler w).2.clock = finish
  have hclocks : (runCase rt s deps).Along World.handler
      (World.Creates fun _ x => x.clock ≤ finish) w := by
    refine (World.along_clock_le (runCase rt s deps) w).mono fun c x hx => ?_
    cases c with
    | createPaymentLink request => exact hend ▸ hx
    | _ => trivial
  rw [runCase, if_neg (by simp [hopen]), along_runFrom rt hdeps creates_of_thinks] at hclocks
  have hcall := hclocks s' _ hentered
  rw [along_executeNode (by rw [hexecutor, hex]; rfl) happlied htoken hverify,
    OutboxExecutor.along_execute ex happlied htoken hverify] at hcall
  rcases OutboxExecutor.requestOf_cases s' a (u.after 1).clock with ⟨-, request, hok, -⟩ | ⟨hfree, -⟩
  · exact hcall u hu request hok
  · exact absurd hcharge hfree

/-- **A run that is in time is due**, unless the instant comes in the middle of it. -/
theorem RunInTime.due (hdeps : deps.Thinks) (hexecutor : deps.executor = wired rt executor)
    (ha : firewallApplied rt deps s w = some a) (h : RunInTime rt deps executor s w a t)
    (hmiddle : t ≤ ((runCase rt s deps).run World.handler w).2.clock → t ≤ w.clock) :
    RunDue rt deps executor s w a t := by
  unfold RunInTime at h
  unfold RunDue
  cases hex : executor with
  | none => trivial
  | some ex =>
    cases hentered : entered rt deps .execute .enrich s w with
    | none => trivial
    | some p =>
      obtain ⟨s', v⟩ := p
      simp only [hex, hentered] at h
      simp only
      intro hsome hcharge
      obtain ⟨u, hu⟩ := Option.isSome_iff_exists.mp hsome
      simp only [hu] at h
      exact hmiddle (le_trans (h hcharge)
        (asked_le_run_clock hdeps hexecutor hex ha hentered hu hcharge))

/-- A run leaves the intents matching. -/
theorem runCase_allMatch (hdeps : deps.Thinks) (hexecutor : deps.executor = wired rt executor)
    (hw : w.db.tables.AllMatch) :
    ((runCase rt s deps).run World.handler w).2.db.tables.AllMatch := by
  have hthinks : ∀ {β : Type} (c : Cmd β) (v : World), c.Thinks → c.Books Set.univ Set.univ := by
    intro β c v hc
    cases c with
    | now | completeStructured => trivial
    | _ => exact hc.elim
  refine Prog.Along.run (I := fun v : World => v.db.tables.AllMatch)
    (φ := fun c _ => c.Books Set.univ Set.univ) ?_ (fun c v => Cmd.Books.keeps_allMatch c v) hw
  unfold runCase
  split
  · trivial
  · refine (along_runFrom rt hdeps hthinks _ _ _).mpr fun s' v _ => ?_
    refine Prog.All.along (P := Cmd.Books Set.univ Set.univ) (R := fun _ => True) ?_
      (fun c v hc => hc) v
    unfold executeNode
    split
    · refine ((thinks_liftExcept _).mono (fun c hc => hthinks c w hc) fun _ h => h).seq fun _ => ?_
      cases executor with
      | none =>
        simp only [hexecutor, wired, Option.map_none]
        exact (hdeps.now.seq fun _ => thinks_return _).mono (fun c hc => hthinks c w hc) fun _ h => h
      | some ex =>
        simp only [hexecutor, wired, Option.map_some]
        refine Prog.All.seq ((OutboxExecutor.books_execute ex rt s').mono (Cmd.Books.mono
          (Set.subset_univ _) (Set.subset_univ _)) fun _ h => h) fun _ => trivial
    · exact (hdeps.now.seq fun _ => thinks_return _).mono (fun c hc => hthinks c w hc) fun _ h => h

end Run

/-! ## The passes after it -/

namespace OutboxDrainer

variable {rt : Runtime} {d : OutboxDrainer} {reference : String} {t : DateTime} {w : World}

/-- Passes in a row. One that raises is over, and the next one starts. -/
def drainPasses (rt : Runtime) (d : OutboxDrainer) : List Bool → Act Unit
  | [] => return ()
  | includeStale :: rest => do
    let _ ← (d.drainOnce rt includeStale).attempt
    d.drainPasses rt rest

def passesTurns (rt : Runtime) (d : OutboxDrainer) : List Bool → World → List Turn
  | [], _ => []
  | includeStale :: rest, w =>
    d.passTurns rt includeStale w ++
      d.passesTurns rt rest ((d.drainOnce rt includeStale).run World.handler w).2

/-- **When a turn is in time for an action**: its row is another's, its case is over, its action
cannot be charged, or the instant has come when the link is asked for. -/
def TurnInTime (reference : String) (t : DateTime) (turn : Turn) : Prop :=
  turn.row.referenceId = reference →
    match turn.world.db.tables.caseById turn.row.caseId, turn.row.action with
    | some case, .ok applied => case.status.isTerminal = false →
        OutboxExecutor.Chargeable applied → t ≤ (turn.world.after 5).clock
    | _, _ => True

instance (turn : Turn) : Decidable (TurnInTime reference t turn) :=
  @instDecidableForall _ _ _ <| decidableRead (P := fun case applied => case.status.isTerminal = false →
    OutboxExecutor.Chargeable applied → t ≤ (turn.world.after 5).clock) (Q := True) _ _

/-- **When a turn is due**, by the world it starts in: its row is another action's, its case is over,
its action cannot be charged, or the instant has come. -/
def TurnDue (reference : String) (t : DateTime) (turn : Turn) : Prop :=
  turn.row.referenceId = reference →
    match turn.world.db.tables.caseById turn.row.caseId, turn.row.action with
    | some case, .ok applied => case.status.isTerminal = false →
        OutboxExecutor.Chargeable applied → t ≤ turn.world.clock
    | _, _ => True

instance (turn : Turn) : Decidable (TurnDue reference t turn) :=
  @instDecidableForall _ _ _ <| decidableRead (P := fun case applied => case.status.isTerminal = false →
    OutboxExecutor.Chargeable applied → t ≤ turn.world.clock) (Q := True) _ _

/-- **A turn that is due is in time.** -/
theorem TurnDue.inTime {turn : Turn} (h : TurnDue reference t turn) :
    TurnInTime reference t turn := by
  intro href
  have hdue := h href
  cases hcase : turn.world.db.tables.caseById turn.row.caseId with
  | none => trivial
  | some case =>
    cases haction : turn.row.action with
    | error e => trivial
    | ok applied =>
      simp only [hcase, haction] at hdue
      exact fun hopen hcharge => le_trans (hdue hopen hcharge) (World.le_after_clock _ 5)

/-- **A turn that is in time is due**, unless the instant comes in the middle of it. -/
theorem TurnInTime.due {turn : Turn} (h : TurnInTime reference t turn)
    (hmiddle : t ≤ (turn.world.after 5).clock → t ≤ turn.world.clock) :
    TurnDue reference t turn := by
  intro href
  have htime := h href
  cases hcase : turn.world.db.tables.caseById turn.row.caseId with
  | none => trivial
  | some case =>
    cases haction : turn.row.action with
    | error e => trivial
    | ok applied =>
      simp only [hcase, haction] at htime
      exact fun hopen hcharge => hmiddle (htime hopen hcharge)

theorem drainRow_notBefore_iff {report : DrainReport} {row : OutboxRow}
    (hholds : w.db.tables.Holds row) (hmatches : row.Matches) :
    (d.drainRow rt report row).Along World.handler (NotBefore reference t) w ↔
      TurnInTime reference t ⟨report, row, w⟩ := by
  have hresumed : ∀ case applied, Resumes w.db.tables row case applied →
      ((d.executor.execute rt (resumed rt case applied w)).Along World.handler
        (NotBefore reference t) (w.after 2) ↔
          (row.referenceId = reference → OutboxExecutor.Chargeable applied →
            t ≤ (w.after 5).clock)) := by
    intro case applied hresumes
    rw [OutboxExecutor.along_execute_notBefore d.executor rfl rfl (verify_mint rt applied _),
      intended_resumed hholds hmatches hresumes.2.2, hmatches.reference hresumes.2.2]
    simp
  rw [along_drainRow notBefore_of_marks]
  unfold TurnInTime
  simp only
  cases hcase : w.db.tables.caseById row.caseId with
  | none => simp [Resumes, hcase]
  | some case =>
    cases haction : row.action with
    | error e => simp [Resumes, haction]
    | ok applied =>
      constructor
      · intro h href hopen
        exact (hresumed case applied ⟨hcase, hopen, haction⟩).mp
          (h case applied ⟨hcase, hopen, haction⟩) href
      · rintro h case' applied' ⟨hcase', hopen, haction'⟩
        obtain rfl : case = case' := Option.some.inj (hcase.symm.trans hcase')
        obtain rfl : applied = applied' := Except.ok.inj (haction.symm.trans haction')
        exact (hresumed case applied ⟨hcase, hopen, haction⟩).mpr fun href => h href hopen

/-- One pass. -/
theorem drainOnce_notBefore_iff {includeStale : Bool} (hw : w.db.tables.AllMatch) :
    (d.drainOnce rt includeStale).Along World.handler (NotBefore reference t) w ↔
      ∀ turn ∈ d.passTurns rt includeStale w, TurnInTime reference t turn := by
  rw [along_drainOnce notBefore_of_marks]
  refine forall₂_congr fun turn hturn => ?_
  obtain ⟨hmem, hholds⟩ := passTurn_holds hturn
  exact drainRow_notBefore_iff hholds (hw _ hmem)

/-- **Any passes.** -/
theorem drainPasses_notBefore_iff {passes : List Bool} (hw : w.db.tables.AllMatch) :
    (d.drainPasses rt passes).Along World.handler (NotBefore reference t) w ↔
      ∀ turn ∈ d.passesTurns rt passes w, TurnInTime reference t turn := by
  induction passes generalizing w with
  | nil => exact iff_of_true trivial (by simp [passesTurns])
  | cons includeStale rest ih =>
    rw [drainPasses, Prog.along_bind, Prog.along_attempt, Prog.run_attempt, passesTurns,
      List.forall_mem_append, drainOnce_notBefore_iff hw]
    refine and_congr_right fun _ => ih ?_
    exact Prog.Along.run (I := fun v : World => v.db.tables.AllMatch)
      ((books_drainOnce rt d includeStale).along (fun c _ hc => hc) w)
      (fun c v => Cmd.Books.keeps_allMatch c v) hw

end OutboxDrainer

/-! ## Both -/

/-- One run of a case, and passes of the drainer after it. -/
def caseThenPasses (rt : Runtime) (d : OutboxDrainer) (deps : AgentDeps Act) (s : RecoveryState)
    (passes : List Bool) : Act Unit := do
  let _ ← (runCase rt s deps).attempt
  d.drainPasses rt passes

/-- The run and the passes keep to an instant exactly when every link is asked for in time. -/
theorem along_caseThenPasses_notBefore {rt : Runtime} {d : OutboxDrainer}
    {executor : Option OutboxExecutor} {deps : AgentDeps Act} {s : RecoveryState} {w : World}
    {passes : List Bool} {a : AppliedAction} {t : DateTime} (hdeps : deps.Thinks)
    (hexecutor : deps.executor = wired rt executor) (hw : w.db.tables.AllMatch)
    (ha : firewallApplied rt deps s w = some a) :
    (caseThenPasses rt d deps s passes).Along World.handler (NotBefore a.referenceId t) w ↔
      RunInTime rt deps executor s w a t ∧
        ∀ turn ∈ d.passesTurns rt passes ((runCase rt s deps).run World.handler w).2,
          OutboxDrainer.TurnInTime a.referenceId t turn := by
  rw [caseThenPasses, Prog.along_bind, Prog.along_attempt, Prog.run_attempt,
    runCase_notBefore_iff hdeps hexecutor ha]
  exact and_congr_right fun _ =>
    OutboxDrainer.drainPasses_notBefore_iff (runCase_allMatch hdeps hexecutor hw)

/-- An instant that comes neither while the run of a case is under way nor in the five commands from
the start of a turn to its call. -/
def NotInTheMiddle (rt : Runtime) (d : OutboxDrainer) (deps : AgentDeps Act) (s : RecoveryState)
    (w : World) (passes : List Bool) (t : DateTime) : Prop :=
  (t ≤ ((runCase rt s deps).run World.handler w).2.clock → t ≤ w.clock) ∧
    ∀ turn ∈ d.passesTurns rt passes ((runCase rt s deps).run World.handler w).2,
      t ≤ (turn.world.after 5).clock → t ≤ turn.world.clock

instance (rt : Runtime) (d : OutboxDrainer) (deps : AgentDeps Act) (s : RecoveryState) (w : World)
    (passes : List Bool) (t : DateTime) : Decidable (NotInTheMiddle rt d deps s w passes t) := by
  unfold NotInTheMiddle
  infer_instance

/-- **A deferred action is left alone until its instant when the run and every turn of the passes
are due**; and, unless the instant comes in the middle of one of them, only then: nothing that
executes the action holds it back. -/
theorem caseThenPasses_notBefore (rt : Runtime) (d : OutboxDrainer)
    (executor : Option OutboxExecutor) (deps : AgentDeps Act) (s : RecoveryState) (w : World)
    (passes : List Bool) (a : AppliedAction) (t : DateTime) (hdeps : deps.Thinks)
    (hexecutor : deps.executor = wired rt executor) (hw : w.db.tables.AllMatch)
    (ha : firewallApplied rt deps s w = some a) :
    ((RunDue rt deps executor s w a t ∧
        ∀ turn ∈ d.passesTurns rt passes ((runCase rt s deps).run World.handler w).2,
          OutboxDrainer.TurnDue a.referenceId t turn) →
      (caseThenPasses rt d deps s passes).Along World.handler (NotBefore a.referenceId t) w) ∧
    (NotInTheMiddle rt d deps s w passes t →
      (caseThenPasses rt d deps s passes).Along World.handler (NotBefore a.referenceId t) w →
        RunDue rt deps executor s w a t ∧
          ∀ turn ∈ d.passesTurns rt passes ((runCase rt s deps).run World.handler w).2,
            OutboxDrainer.TurnDue a.referenceId t turn) := by
  obtain ⟨hopen, -⟩ := firewallApplied_eq_some hdeps ha
  rw [along_caseThenPasses_notBefore hdeps hexecutor hw ha]
  constructor
  · rintro ⟨hrun, hturns⟩
    exact ⟨hrun.inTime hdeps hopen, fun turn hturn => (hturns turn hturn).inTime⟩
  · rintro ⟨hrun, hturns⟩ ⟨hrunInTime, hturnsInTime⟩
    exact ⟨hrunInTime.due hdeps hexecutor ha hrun,
      fun turn hturn => (hturnsInTime turn hturn).due (hturns turn hturn)⟩

def failedPayment : RecoveryState where
  caseId := "RC-0001"
  merchantId := "mch_1"
  customerId := "cus_1"
  playbook := .paymentFailure
  amountPaise := 250000
  errorSource := some "bank"
  errorReason := some "payment_timed_out"

/-- What the firewall makes of it at half past five in the morning: a link, deferred until five past
nine. -/
def deferredAction : AppliedAction :=
  { linkAction 1 with sendAfter := some { utc := 12900 * second }, escalationRung := .a0Autonomous }

/-- The wiring of the batch: EXECUTE hands the action to nobody. -/
def unwiredDeps : AgentDeps Act := { treatedDeps with executor := none }

/-- The intent committed by an earlier run, on a morning on which the worker next looks at the outbox
four hours later. -/
def idleMorning : World :=
  { worldOf committedIntent with
    fate := fun n =>
      { elapsed := if n = 10 then 4 * 3600000000 else 1000
        hex := String.ofList (List.replicate n 'a') } }

/-- The pass of that morning sends in time; at dawn, a run with an executor does not. -/
theorem caseThenPasses_notBefore_morning :
    (caseThenPasses plainRuntime {} unwiredDeps failedPayment [true]).Along World.handler
        (NotBefore deferredAction.referenceId { utc := 12900 * second }) idleMorning ∧
      ¬(caseThenPasses plainRuntime {} treatedDeps failedPayment [true]).Along World.handler
        (NotBefore deferredAction.referenceId { utc := 12900 * second }) (worldOf oneCase) := by
  have hunwired : unwiredDeps.Thinks := ⟨treatedDeps_thinks.now, treatedDeps_thinks.adapter⟩
  have hintent : idleMorning.db.tables.AllMatch :=
    show ∀ row ∈ committedIntent.tables.outbox, row.Matches by decide +kernel
  have hmorning := caseThenPasses_notBefore plainRuntime {} none unwiredDeps failedPayment
    idleMorning [true] deferredAction { utc := 12900 * second } hunwired rfl hintent
    (by decide +kernel)
  have hdawn := caseThenPasses_notBefore plainRuntime {} (some {}) treatedDeps failedPayment
    (worldOf oneCase) [true] deferredAction { utc := 12900 * second } treatedDeps_thinks rfl
    (fun row h => by cases h) (by decide +kernel)
  refine ⟨hmorning.1 (by decide +kernel), fun h => ?_⟩
  have hdue := hdawn.2 (by decide +kernel) h
  revert hdue
  decide +kernel

/-- A run at dawn asks for the link at once. -/
theorem not_caseThenPasses_notBefore :
    ¬∀ (rt : Runtime) (d : OutboxDrainer) (executor : Option OutboxExecutor)
      (deps : AgentDeps Act) (s : RecoveryState) (w : World) (passes : List Bool)
      (a : AppliedAction) (t : DateTime), deps.Thinks → deps.executor = wired rt executor →
        w.db.tables.AllMatch → firewallApplied rt deps s w = some a → a.sendAfter = some t →
          (caseThenPasses rt d deps s passes).Along World.handler (NotBefore a.referenceId t) w := by
  intro h
  have hdawn := h plainRuntime {} (some {}) treatedDeps failedPayment (worldOf oneCase) []
    deferredAction _ treatedDeps_thinks rfl (fun row h => by cases h) (by decide +kernel) rfl
  revert hdawn
  decide +kernel

end AegisMerchant
