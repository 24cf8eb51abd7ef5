import AegisMerchant.Tools.AttemptBudget

/-!
# What a failed execution leaves behind

`_schedule_retry` decides between another attempt and the dead-letter queue, and returns nothing;
`execute` reports one status for both. So an execution that says EXECUTING has a retry scheduled
unless its failure was the last one the row had left.

`execute_cases` lists how an execution returns, from what each phase stores (`run_phaseOne_stored`,
`run_scheduleRetry_stored`, `run_phaseTwo_stored`). `OutboxExecutor.execute_retryKept_iff` is the
law, and `OutboxExecutor.not_execute_retryKept` the last failure.
-/

namespace AegisMerchant

open Time Rows Numeric

/-! ## The backoff -/

theorem half_le_backoffSchedule (n : ℕ) : (1 / 2 : ℚ) ≤ backoffSchedule.getD n 30 := by
  match n with
  | 0 | 1 | 2 | 3 | n + 4 => norm_num [backoffSchedule]

/-- No jitter brings a delay below three eighths of a second. -/
theorem le_nextAttemptDelay (attempt : ℤ) {uniform : ℚ} (h : -1 / 4 ≤ uniform) :
    3 / 8 ≤ nextAttemptDelay attempt uniform := by
  unfold nextAttemptDelay
  have hbase := half_le_backoffSchedule (min attempt.toNat (backoffSchedule.length - 1))
  nlinarith

namespace OutboxExecutor

/-- **A row that is backed off waits**: its next attempt is after the instant it failed at, as the
database keeps it. -/
theorem lt_backedOff (row : OutboxRow) (exc : PyError) (now : DateTime) {uniform : ℚ}
    (h : -1 / 4 ≤ uniform) : now < (backedOff row exc now uniform).nextAttemptAt := by
  have hdelay := le_nextAttemptDelay ((failed row exc).attempt - 1) h
  have hround : (375000 : ℤ) ≤
      roundHalfEven (nextAttemptDelay ((failed row exc).attempt - 1) uniform * 1000000) := by
    apply le_roundHalfEven
    push_cast
    linarith
  show now.utc < (now.utc + _) - (now.utc + _) % 1000
  omega

end OutboxExecutor

/-! ## What the provider answers -/

/-- The provider does not show a link under a reference. -/
def World.Unretrievable (w : World) (reference : String) (f : Fate) : Prop :=
  match f.lookup with
  | .served _ _ => w.linkOf reference = none
  | .hidden | .lost _ => True
  | .refused _ => False

/-- **A transient failure**: the request to create a link is lost, or the provider says the link is
there already and does not show it. `f` is the fate of the request and `g` that of the lookup. -/
def World.Transient (w : World) (reference : String) (f g : Fate) : Prop :=
  match f.create with
  | .lostBefore _ | .lostAfter _ => True
  | .served => (w.linkOf reference).isSome ∧ w.Unretrievable reference g
  | .duplicate => w.Unretrievable reference g
  | .refused _ => False

/-- A command that answers with an exception raises it. -/
theorem Act.run_call {α : Type} (c : Cmd (Except PyError α)) (w : World) :
    (Act.call c).run World.handler w = World.handler.exec c w := by
  show (Prog.lift c >>= _ : Act α).run _ w = _
  rw [Prog.run_bind, Prog.run_lift]
  rcases World.handler.exec c w with ⟨e | a, v⟩ <;> rfl

namespace World

@[simp] theorem after_links (w : World) (n : ℕ) : (w.after n).links = w.links := by
  induction n with
  | zero => rfl
  | succ n ih => exact ih

/-- The links the provider holds decide what it shows. -/
theorem linkOf_congr {w w' : World} (h : w'.links = w.links) (reference : String) :
    w'.linkOf reference = w.linkOf reference := by
  rw [linkOf, h, linkOf]

theorem unretrievable_congr {w w' : World} (h : w'.links = w.links) (reference : String)
    (f : Fate) : w'.Unretrievable reference f ↔ w.Unretrievable reference f := by
  unfold Unretrievable
  rw [linkOf_congr h]

theorem transient_congr {w w' : World} (h : w'.links = w.links) (reference : String)
    (f g : Fate) : w'.Transient reference f g ↔ w.Transient reference f g := by
  unfold Transient
  rw [linkOf_congr h, unretrievable_congr h]

end World

namespace OutboxExecutor

/-- A duplicate that is not shown is an error to retry. -/
theorem run_recover_retryable_iff (reference : String) (w : World) :
    (∃ m, ((do
        match ← Act.getPaymentLinkByReference reference with
        | some existing => return (existing, true)
        | none =>
          throw (.providerRetryable ("reference " ++ reference ++
            " reported as duplicate but not retrievable")) :
        Act (PaymentLinkResult × Bool)).run World.handler w).1 = .error (.providerRetryable m)) ↔
      w.Unretrievable reference (w.fate w.tick) := by
  rw [Prog.run_bind, Act.getPaymentLinkByReference, Act.run_call]
  unfold World.Unretrievable
  simp only [World.handler, World.serve, World.lookup]
  cases (w.fate w.tick).lookup with
  | served status raw =>
    rw [World.linkOf_congr w.advance_links]
    cases w.linkOf reference <;> simp
  | _ => simp

/-- The call of an action ends in an error to retry exactly when the action can be charged and the
provider fails for the moment. -/
theorem run_callProvider_retryable_iff (s : RecoveryState) (applied : AppliedAction) (w : World) :
    (∃ m, ((callProvider s applied).run World.handler w).1 = .error (.providerRetryable m)) ↔
      Chargeable applied ∧
        w.Transient applied.referenceId (w.fate (w.tick + 1)) (w.fate (w.tick + 2)) := by
  unfold callProvider
  rw [Prog.run_bind, Act.run_nowUtc]
  simp only [Prog.run_bind, Act.run_liftExcept]
  rcases requestOf_cases s applied (w.after 1).clock with
    ⟨hcharge, request, hok, href, -⟩ | ⟨hcharge, e, herror⟩
  · rw [hok, and_iff_right hcharge]
    simp only [Prog.run_attempt, Act.createPaymentLink, Act.run_call]
    unfold World.Transient
    -- the provider gets the request with nothing but time passed
    have hexec : World.handler.exec (.createPaymentLink request) (w.after 1) =
        ({ w.after 2 with calls := (w.after 2).calls ++ [((w.after 2).clock, request)] } :
          World).create (w.fate (w.tick + 1)) request := by
      show World.create _ ((w.after 1).fate (w.after 1).tick) request = _
      rw [World.after_fate, World.after_tick]
      rfl
    rw [hexec]
    generalize hv : ({ w.after 2 with
      calls := (w.after 2).calls ++ [((w.after 2).clock, request)] } : World) = v
    have hlinks : v.links = w.links := by rw [← hv]; exact w.after_links 2
    have hfate : v.fate v.tick = w.fate (w.tick + 2) := by
      rw [← hv]
      show (w.after 2).fate (w.after 2).tick = _
      rw [World.after_fate, World.after_tick]
    have hrecover := run_recover_retryable_iff applied.referenceId v
    rw [hfate, World.unretrievable_congr hlinks] at hrecover
    unfold World.create
    cases (w.fate (w.tick + 1)).create with
    | served =>
      simp only [href, World.linkOf_congr hlinks]
      by_cases hsome : (w.linkOf applied.referenceId).isSome
      · simp only [if_pos hsome, and_iff_right hsome]
        exact hrecover
      · simp [hsome]
    | duplicate => exact hrecover
    | _ => simp
  · simp [herror, hcharge]

/-- An action that cannot be charged never reaches the provider. -/
theorem run_callProvider_of_not_chargeable (s : RecoveryState) {applied : AppliedAction}
    (h : ¬Chargeable applied) (w : World) :
    ∃ e, ((callProvider s applied).run World.handler w).1 = .error (.valueError e) := by
  unfold callProvider
  rw [Prog.run_bind, Act.run_nowUtc]
  simp only [Prog.run_bind, Act.run_liftExcept]
  rcases requestOf_cases s applied (w.after 1).clock with ⟨hcharge, -⟩ | ⟨-, e, herror⟩
  · exact absurd hcharge h
  · exact ⟨e, by rw [herror]⟩

/-! ## What phase one leaves -/

def phaseOneCommands (reference : String) (t : Tables) : ℕ :=
  if (t.outboxByReference reference).isSome then 1 else 5

/-- **Phase one returns a stored row** of the action's reference: the one that was there, or a new
one without failures. -/
theorem run_phaseOne_stored {s : RecoveryState} {applied : AppliedAction} {w v : World} {i : String}
    (h : (phaseOne s applied).run World.handler w = (.ok i, v)) :
    intended s applied w = some v ∧ v.links = w.links ∧ v.fate = w.fate ∧
      v.tick = w.tick + phaseOneCommands applied.referenceId w.db.tables ∧
      ∃ row ∈ v.db.tables.outbox, row.id = i ∧ row.referenceId = applied.referenceId ∧
        row.attempt = (attemptOf applied.referenceId w.db.tables).getD 0 := by
  unfold phaseOneCommands attemptOf intended
  cases hfound : w.db.tables.outboxByReference applied.referenceId with
  -- the row is there already: one read
  | some row =>
    rw [run_phaseOne_of_some hfound] at h
    obtain ⟨rfl, rfl⟩ : row.id = i ∧ w.after 1 = v := by simpa using h
    obtain ⟨hrow, href⟩ := mem_of_outboxByReference hfound
    refine ⟨rfl, w.after_links 1, w.after_fate 1, w.after_tick 1, row, ?_, rfl, href, rfl⟩
    rw [World.after_db]
    exact hrow
  | none =>
    rw [run_phaseOne_of_none hfound] at h
    cases hcommit : w.db.commit [.insertOutbox (intentOf (w.after 1) s applied)] with
    | none => simp [hcommit] at h
    | some db =>
      rw [hcommit] at h
      obtain ⟨rfl, rfl⟩ : (intentOf (w.after 1) s applied).id = i ∧
          (w.after 5).committed [.insertOutbox (intentOf (w.after 1) s applied)] db = v := by
        simpa using h
      refine ⟨rfl, w.after_links 5, w.after_fate 5, w.after_tick 5,
        intentOf (w.after 1) s applied, ?_, rfl, rfl, rfl⟩
      rw [World.committed_db, Database.commit_eq_some.mp hcommit]
      exact List.mem_append_right _ (List.mem_singleton.mpr rfl)

end OutboxExecutor

/-! ## What is recorded of a failure -/

/-- The row a transaction rewrites, read after it. -/
theorem outboxByReference_commitLast {w w' : World} {n : ℕ} {row new : OutboxRow}
    {extra : List Write} (hrow : row ∈ w.db.tables.outbox)
    (hextra : ∀ t : Tables, (t.applyAll extra).outbox = t.outbox)
    (h : w.commitLast n (.updateOutbox row new :: extra) = (.ok (), w')) :
    w'.db.tables.outboxByReference row.referenceId = some (row.store new row) := by
  unfold World.commitLast at h
  cases hcommit : w.db.commit (.updateOutbox row new :: extra) with
  | none => simp [hcommit] at h
  | some db =>
    obtain rfl : (w.after n).committed (.updateOutbox row new :: extra) db = w' := by
      simpa [hcommit] using h
    have hmem : row.store new row ∈ db.tables.outbox := by
      rw [Database.commit_eq_some.mp hcommit, Tables.applyAll_cons, hextra]
      exact updateWhere_mem rfl hrow
    exact outboxByReference_of_mem hmem

namespace OutboxExecutor

/-- **The row after a failure that is to be retried**: dead once the budget is spent, backed off
before. -/
theorem run_scheduleRetry_stored {ex : OutboxExecutor} {w w' : World} {row : OutboxRow}
    {exc : PyError} (hrow : row ∈ w.db.tables.outbox)
    (h : (ex.scheduleRetry row.id exc).run World.handler w = (.ok (), w')) :
    ∃ row', w'.db.tables.outboxByReference row.referenceId = some row' ∧
      (ex.maxAttempts ≤ row.attempt + 1 → row'.status = .dead) ∧
      (row.attempt + 1 < ex.maxAttempts → row'.status = .pending ∧
        row'.attempt < ex.maxAttempts ∧ (w.after 2).clock < row'.nextAttemptAt) := by
  have hbyId := outboxById_of_mem hrow
  rcases le_or_gt ex.maxAttempts (row.attempt + 1) with hle | hlt
  · obtain ⟨d, -, -, hrun⟩ := run_scheduleRetry_of_le ex hbyId exc hle
    have hstored := outboxByReference_commitLast hrow (fun _ => rfl) (hrun ▸ h)
    exact ⟨_, hstored, fun _ => dirty_current _ _, fun hlt => absurd hle (not_le.mpr hlt)⟩
  · have hrun := run_scheduleRetry_of_lt ex hbyId exc hlt
    have hstored := outboxByReference_commitLast hrow (fun _ => rfl) (hrun ▸ h)
    refine ⟨_, hstored, fun hle => absurd hlt (not_lt.mpr hle), fun _ => ⟨?_, ?_, ?_⟩⟩
    · exact dirty_current _ _
    · show dirty row.attempt (row.attempt + 1) row.attempt < _
      rwa [dirty_current]
    · show _ < dirty row.nextAttemptAt _ row.nextAttemptAt
      rw [dirty_current]
      exact lt_backedOff row exc _ (w.fate (w.tick + 2)).uniform_mem.1

theorem run_contactWrites (s : RecoveryState) (applied : AppliedAction) (now : DateTime)
    (w : World) : ∃ contact n, (contactWrites s applied now).run World.handler w =
        (.ok contact, w.after n) ∧ ∀ t : Tables, (t.applyAll contact).outbox = t.outbox := by
  unfold contactWrites
  split
  · exact ⟨[], 0, rfl, fun _ => rfl⟩
  · exact ⟨_, 1, rfl, fun _ => rfl⟩

/-- **The row after a success** is sent. -/
theorem run_phaseTwo_stored {s : RecoveryState} {applied : AppliedAction} {w w' : World}
    {row : OutboxRow} {result : PaymentLinkResult} (hrow : row ∈ w.db.tables.outbox)
    (h : (phaseTwo s applied row.id result).run World.handler w = (.ok (), w')) :
    ∃ row', w'.db.tables.outboxByReference row.referenceId = some row' ∧ row'.status = .sent := by
  have hbyId := outboxById_of_mem hrow
  unfold phaseTwo at h
  rw [Prog.run_bind, Act.run_nowUtc] at h
  simp only [Prog.run_bind, Act.run_select, World.after_db, hbyId] at h
  -- sent by another execution, or marked by this one
  by_cases hsent : row.status = .sent
  · rw [if_pos hsent] at h
    obtain rfl : w.after 2 = w' := by simpa using h
    refine ⟨row, ?_, hsent⟩
    rw [World.after_db]
    exact outboxByReference_of_mem hrow
  · rw [if_neg hsent] at h
    obtain ⟨contact, n, hrun, hcontact⟩ := run_contactWrites s applied (w.after 1).clock (w.after 3)
    simp only [Prog.run_bind, Act.run_freshId, World.after_after, Nat.reduceAdd, hrun,
      Act.run_commit, World.after_db] at h
    have hcommit : w.commitLast (3 + n + 1) (.updateOutbox row _ :: .insertAction _ :: contact) =
      (.ok (), w') := h
    refine ⟨_, outboxByReference_commitLast hrow (fun t => ?_) hcommit, dirty_current _ _⟩
    exact hcontact _

/-! ## A whole execution -/

/-- The instant at which an execution whose call failed schedules the next attempt, if phase one
left it in a world. -/
def rescheduledAt (s : RecoveryState) (applied : AppliedAction) (v : World) : DateTime :=
  (((callProvider s applied).run World.handler v).2.after 2).clock

/-- **What an execution says of its row.** When it returns EXECUTING the row waits for a retry it
has left; and when the row is dead, it says so. -/
structure RetryKept (ex : OutboxExecutor) (s s' : RecoveryState) (w w' : World) : Prop where
  scheduled : s'.status = .executing → ∃ applied v row, s.policyApplied = some applied ∧
    intended s applied w = some v ∧
    w'.db.tables.outboxByReference applied.referenceId = some row ∧ row.status = .pending ∧
    row.attempt < ex.maxAttempts ∧ rescheduledAt s applied v < row.nextAttemptAt
  settled : ∀ applied row, s.policyApplied = some applied → s.policyToken.isSome →
    w'.db.tables.outboxByReference applied.referenceId = some row → row.status = .dead →
      s'.status = .failedPermanent

/-- The provider fails for the moment when the call of an execution reaches it. -/
def FailsOver (applied : AppliedAction) (w : World) : Prop :=
  let n := w.tick + phaseOneCommands applied.referenceId w.db.tables
  w.Transient applied.referenceId (w.fate (n + 1)) (w.fate (n + 2))

/-- **The last failure**: the row of an authorised action has one attempt left at most, and the
provider fails for the moment. -/
def LastFailure (ex : OutboxExecutor) (s : RecoveryState) (w : World) : Prop :=
  ∃ applied, s.policyApplied = some applied ∧ s.policyToken.isSome ∧
    ex.maxAttempts ≤ (attemptOf applied.referenceId w.db.tables).getD 0 + 1 ∧ FailsOver applied w

/-- What an authorised execution that returns went through. -/
theorem run_execute_split {ex : OutboxExecutor} {rt : Runtime} {s s' : RecoveryState}
    {w w' : World} {applied : AppliedAction} (happlied : s.policyApplied = some applied)
    (htoken : s.policyToken.isSome) (h : (ex.execute rt s).run World.handler w = (.ok s', w')) :
    ∃ i v, (phaseOne s applied).run World.handler w = (.ok i, v) ∧
      ((match ((callProvider s applied).run World.handler v).1 with
        | .error (.providerRetryable m) => do
          ex.scheduleRetry i (.providerRetryable m)
          trace s .executing
        | .error (.providerPermanent m) => do
          deadLetter i (.providerPermanent m) m
          trace s .failedPermanent
        | .error exc => throw exc
        | .ok (result, _) => do
          phaseTwo s applied i result
          trace (executed s applied result) .monitoring : Act RecoveryState).run World.handler
        ((callProvider s applied).run World.handler v).2) = (.ok s', w') := by
  obtain ⟨token, htoken⟩ := Option.isSome_iff_exists.mp htoken
  unfold execute at h
  simp only [happlied, htoken] at h
  obtain ⟨_, u, hverify, h⟩ := Prog.run_bind_eq_ok h
  obtain ⟨-, rfl⟩ : token.verify rt = .ok _ ∧ w = u := by simpa using hverify
  obtain ⟨i, v, hone, h⟩ := Prog.run_bind_eq_ok h
  rw [Prog.run_bind, Prog.run_attempt] at h
  exact ⟨i, v, hone, h⟩

/-- What is left of an execution once its failure or success is recorded. -/
theorem run_trace_eq_ok {s s' : RecoveryState} {status : CaseStatus} {w w' : World}
    (h : (trace s status).run World.handler w = (.ok s', w')) :
    s'.status = status ∧ w'.db = w.db := by
  unfold trace at h
  rw [Prog.run_bind, Act.run_nowUtc] at h
  obtain ⟨rfl, rfl⟩ : _ = s' ∧ w.after 1 = w' := by simpa using h
  exact ⟨rfl, w.after_db 1⟩

/-- **What an authorised execution says, and what it leaves.** A call that fails for the moment is
EXECUTING whatever became of its row; any other is dead-lettered or sent. -/
theorem execute_cases {ex : OutboxExecutor} {rt : Runtime} {s s' : RecoveryState}
    {w w' : World} {applied : AppliedAction} (happlied : s.policyApplied = some applied)
    (htoken : s.policyToken.isSome) (h : (ex.execute rt s).run World.handler w = (.ok s', w')) :
    (FailsOver applied w ∧ s'.status = .executing ∧ ∃ v row, intended s applied w = some v ∧
      w'.db.tables.outboxByReference applied.referenceId = some row ∧
      (ex.maxAttempts ≤ (attemptOf applied.referenceId w.db.tables).getD 0 + 1 →
        row.status = .dead) ∧
      ((attemptOf applied.referenceId w.db.tables).getD 0 + 1 < ex.maxAttempts →
        row.status = .pending ∧ row.attempt < ex.maxAttempts ∧
          rescheduledAt s applied v < row.nextAttemptAt)) ∨
    (¬FailsOver applied w ∧ (s'.status = .failedPermanent ∨ s'.status = .monitoring ∧
      ∃ row, w'.db.tables.outboxByReference applied.referenceId = some row ∧
        row.status = .sent)) := by
  obtain ⟨i, v, hone, hrest⟩ := run_execute_split happlied htoken h
  obtain ⟨hv, hlinks, hfate, htick, row, hrow, rfl, href, hattempt⟩ := run_phaseOne_stored hone
  have hdb := World.run_quiet (quiet_callProvider s applied) v
  -- the call fails for now exactly where the provider's own answers say so
  have hretryable := run_callProvider_retryable_iff s applied v
  rw [World.transient_congr hlinks, hfate, htick] at hretryable
  change _ ↔ Chargeable applied ∧ FailsOver applied w at hretryable
  have hcharge : Chargeable applied := by
    by_contra hcharge
    obtain ⟨e, herror⟩ := run_callProvider_of_not_chargeable s hcharge v
    rw [herror] at hrest
    exact absurd hrest (by simp)
  rw [and_iff_right hcharge] at hretryable
  have hu : row ∈ ((callProvider s applied).run World.handler v).2.db.tables.outbox := by
    rw [hdb]
    exact hrow
  rw [← hattempt, ← href]
  generalize hcall : (callProvider s applied).run World.handler v = call at hretryable hu hrest
  obtain ⟨r, u⟩ := call
  rcases r with e | ⟨result, existing⟩
  · cases e with
    -- put off or given up, by the attempts the row had
    | providerRetryable m =>
      obtain ⟨_, x, hretry, htrace⟩ := Prog.run_bind_eq_ok hrest
      obtain ⟨hstatus, hdb'⟩ := run_trace_eq_ok htrace
      obtain ⟨row', hrow', hdead, hpending⟩ := run_scheduleRetry_stored hu hretry
      refine .inl ⟨hretryable.mp ⟨m, rfl⟩, hstatus, v, row', hv, ?_, hdead, ?_⟩
      · rw [hdb']
        exact hrow'
      · unfold rescheduledAt
        rw [hcall]
        exact hpending
    -- refused for good
    | providerPermanent m =>
      obtain ⟨_, x, -, htrace⟩ := Prog.run_bind_eq_ok hrest
      have hpermanent : ¬FailsOver applied w := fun hfails => by simpa using hretryable.mpr hfails
      exact .inr ⟨hpermanent, .inl (run_trace_eq_ok htrace).1⟩
    | _ => exact absurd hrest (by simp)
  · obtain ⟨_, x, htwo, htrace⟩ := Prog.run_bind_eq_ok hrest
    obtain ⟨hstatus, hdb'⟩ := run_trace_eq_ok htrace
    obtain ⟨row', hrow', hsent⟩ := run_phaseTwo_stored hu htwo
    have hserved : ¬FailsOver applied w := fun hfails => by simpa using hretryable.mpr hfails
    refine .inr ⟨hserved, .inr ⟨hstatus, row', ?_, hsent⟩⟩
    rw [hdb']
    exact hrow'

/-- **An execution that returns keeps its retry exactly when it is not the last failure.** -/
theorem execute_retryKept_iff {ex : OutboxExecutor} {rt : Runtime} {s s' : RecoveryState}
    {w w' : World} (h : (ex.execute rt s).run World.handler w = (.ok s', w')) :
    ex.RetryKept s s' w w' ↔ ¬ex.LastFailure s w := by
  by_cases hauthorised : ∃ applied, s.policyApplied = some applied ∧ s.policyToken.isSome
  · obtain ⟨applied, happlied, htoken⟩ := hauthorised
    have hlast : ex.LastFailure s w ↔ ex.maxAttempts ≤
        (attemptOf applied.referenceId w.db.tables).getD 0 + 1 ∧ FailsOver applied w := by
      simp [LastFailure, happlied, htoken]
    rw [hlast]
    rcases execute_cases happlied htoken h with
      ⟨hfails, hstatus, v, row, hv, hrow, hdead, hpending⟩ | ⟨hfails, hsettled⟩
    · constructor
      · rintro hkept ⟨hspent, -⟩
        have hfailed := hkept.settled applied row happlied htoken hrow (hdead hspent)
        exact absurd (hstatus.symm.trans hfailed) (by decide)
      · intro hleft
        have hlt : (attemptOf applied.referenceId w.db.tables).getD 0 + 1 < ex.maxAttempts :=
          not_le.mp fun hspent => hleft ⟨hspent, hfails⟩
        -- attempts are left, so the row is pending again, and not dead
        obtain ⟨hstatus', hattempt, hnext⟩ := hpending hlt
        refine ⟨fun _ => ⟨applied, v, row, happlied, hv, hrow, hstatus', hattempt, hnext⟩, ?_⟩
        intro applied' row' happlied' _ hrow' hdead'
        obtain rfl : applied = applied' := by simpa [happlied] using happlied'
        obtain rfl : row = row' := by simpa [hrow] using hrow'
        exact absurd (hstatus'.symm.trans hdead') (by decide)
    · refine iff_of_true ⟨?_, ?_⟩ fun hspent => hfails hspent.2
      · intro hexecuting
        rcases hsettled with hfailed | ⟨hmonitoring, -⟩
        · exact absurd (hexecuting.symm.trans hfailed) (by decide)
        · exact absurd (hexecuting.symm.trans hmonitoring) (by decide)
      · intro applied' row' happlied' _ hrow' hdead'
        obtain rfl : applied = applied' := by simpa [happlied] using happlied'
        rcases hsettled with hfailed | ⟨-, row, hrow, hsent⟩
        · exact hfailed
        · obtain rfl : row = row' := by simpa [hrow] using hrow'
          exact absurd (hsent.symm.trans hdead') (by decide)
  · -- nothing was authorised, so the execution says SUPPRESSED
    have hstatus : s'.status = .suppressed := by
      unfold execute at h
      split at h
      · next applied token happlied htoken =>
          exact absurd ⟨applied, happlied, by simp [htoken]⟩ hauthorised
      · exact (run_trace_eq_ok h).1
    refine iff_of_true ⟨?_, ?_⟩ ?_
    · intro hexecuting
      exact absurd (hstatus.symm.trans hexecuting) (by decide)
    · intro applied _ happlied htoken _ _
      exact absurd ⟨applied, happlied, htoken⟩ hauthorised
    · rintro ⟨applied, happlied, htoken, -⟩
      exact hauthorised ⟨applied, happlied, htoken⟩

end OutboxExecutor

/-! ## The first failure and the last -/

/-- The case with the row of its first attempt, which failed three times. -/
def thriceFailed : Database where
  tables :=
    { oneCase.tables with
      outbox := [
        { id := "obx_1", caseId := "RC-0001", actionType := .createPaymentLink
          referenceId := referenceId "RC-0001" 1
          payloadJson := some (linkAction 1).asPayload, attempt := 3
          nextAttemptAt := { utc := 0 }, createdAt := { utc := 0 } }] }
  valid := by decide +kernel

def timingOut (db : Database) : World where
  db
  clock := { utc := 0 }
  fate n := { elapsed := 1000, hex := String.ofList (List.replicate n 'a'), create := .lostBefore "timeout" }

/-- The first failure of an attempt is kept. -/
theorem OutboxExecutor.execute_retryKept_first :
    ∃ s' w', (OutboxExecutor.execute plainRuntime {} (authorisedState (linkAction 1))).run
        World.handler (timingOut oneCase) = (.ok s', w') ∧ s'.status = .executing ∧
      ({} : OutboxExecutor).RetryKept (authorisedState (linkAction 1)) s' (timingOut oneCase) w' := by
  have hok : ((OutboxExecutor.execute plainRuntime {} (authorisedState (linkAction 1))).run
      World.handler (timingOut oneCase)).1.toOption.map (·.status) = some .executing := by
    decide +kernel
  generalize hrun : (OutboxExecutor.execute plainRuntime {} (authorisedState (linkAction 1))).run
    World.handler (timingOut oneCase) = run at hok
  obtain ⟨e | s', w'⟩ := run
  · simp [Except.toOption] at hok
  · have hstatus : s'.status = .executing := by simpa [Except.toOption] using hok
    refine ⟨s', w', rfl, hstatus, (OutboxExecutor.execute_retryKept_iff hrun).mpr ?_⟩
    rintro ⟨applied, happlied, -, hspent, -⟩
    obtain rfl : linkAction 1 = applied := by simpa [authorisedState] using happlied
    revert hspent
    decide +kernel

/-- **The fourth failure leaves the case EXECUTING with its row dead.** -/
theorem OutboxExecutor.not_execute_retryKept :
    ¬∀ (ex : OutboxExecutor) (rt : Runtime) (s s' : RecoveryState) (w w' : World),
      (ex.execute rt s).run World.handler w = (.ok s', w') → ex.RetryKept s s' w w' := by
  intro h
  have hok : ((OutboxExecutor.execute plainRuntime {} (authorisedState (linkAction 1))).run
      World.handler (timingOut thriceFailed)).1.toOption.map (·.status) = some .executing := by
    decide +kernel
  have hdead : (((OutboxExecutor.execute plainRuntime {} (authorisedState (linkAction 1))).run
      World.handler (timingOut thriceFailed)).2.db.tables.outboxByReference
        (linkAction 1).referenceId).map (·.status) = some .dead := by
    decide +kernel
  generalize hrun : (OutboxExecutor.execute plainRuntime {} (authorisedState (linkAction 1))).run
    World.handler (timingOut thriceFailed) = run at hok hdead
  obtain ⟨e | s', w'⟩ := run
  · simp [Except.toOption] at hok
  · have hstatus : s'.status = .executing := by simpa [Except.toOption] using hok
    obtain ⟨row, hrow, hrowdead⟩ := Option.map_eq_some_iff.mp hdead
    have hfailed := (h _ _ _ _ _ _ hrun).settled (linkAction 1) row rfl rfl hrow hrowdead
    exact absurd (hstatus.symm.trans hfailed) (by decide)

end AegisMerchant
