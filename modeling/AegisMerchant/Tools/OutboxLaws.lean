import AegisMerchant.Db.Constraints
import AegisMerchant.Tools.Outbox

/-!
# What the executor does alone

Each session of the executor, run with nobody in between: what it commits, and when the commit is
refused.

`books_execute` says which transactions an execution commits, and `along_execute` is the rule for
laws along one.
-/

namespace AegisMerchant

open Time Rows

/-! ## Looking up rows -/

/-- With one row a reference, looking a reference up finds its row. -/
theorem outboxByReference_of_mem {db : Database} {row : OutboxRow}
    (h : row ∈ db.tables.outbox) : db.tables.outboxByReference row.referenceId = some row := by
  cases hfound : db.tables.outboxByReference row.referenceId with
  | none => simpa using List.find?_eq_none.mp hfound row h
  | some row' =>
    have href : row'.referenceId = row.referenceId := by simpa using List.find?_some hfound
    rw [eq_of_key_eq db.valid.outbox_reference (List.mem_of_find?_eq_some hfound) h href]

theorem outboxById_of_mem {db : Database} {row : OutboxRow} (h : row ∈ db.tables.outbox) :
    db.tables.outboxById row.id = some row := by
  cases hfound : db.tables.outboxById row.id with
  | none => simpa using List.find?_eq_none.mp hfound row h
  | some row' =>
    have hid : row'.id = row.id := by simpa using List.find?_some hfound
    rw [eq_of_key_eq db.valid.outbox_id (List.mem_of_find?_eq_some hfound) h hid]

theorem mem_of_outboxByReference {t : Tables} {reference : String} {row : OutboxRow}
    (h : t.outboxByReference reference = some row) :
    row ∈ t.outbox ∧ row.referenceId = reference :=
  ⟨List.mem_of_find?_eq_some h, by simpa using List.find?_some h⟩

theorem outboxByReference_eq_none {t : Tables} {reference : String} :
    t.outboxByReference reference = none ↔ ∀ row ∈ t.outbox, row.referenceId ≠ reference := by
  simp [Tables.outboxByReference]

/-! ## What an intent says -/

/-- The action the payload of a row reads back as. -/
def OutboxRow.action (row : OutboxRow) : Except PyError AppliedAction :=
  match row.payloadJson with
  | some payload => AppliedAction.fromPayload payload
  | none => .error (.valueError "payload_json")

/-- The row was written for the action it carries: its reference is the action's. -/
def OutboxRow.Matches (row : OutboxRow) : Prop :=
  match row.action with
  | .ok applied => applied.referenceId = row.referenceId
  | .error _ => True

instance (row : OutboxRow) : Decidable row.Matches := by
  unfold OutboxRow.Matches
  cases row.action <;> infer_instance

theorem OutboxRow.Matches.reference {row : OutboxRow} (h : row.Matches) {applied : AppliedAction}
    (hok : row.action = .ok applied) : applied.referenceId = row.referenceId := by
  simpa [Matches, hok] using h

/-- A row written for an action matches it. -/
theorem OutboxRow.matches_of_asPayload {row : OutboxRow} {applied : AppliedAction}
    (hpayload : row.payloadJson = some applied.asPayload)
    (href : row.referenceId = applied.referenceId) : row.Matches := by
  unfold Matches action
  rw [hpayload]
  simp only
  cases h : AppliedAction.fromPayload applied.asPayload with
  | error e => trivial
  | ok applied' => exact (AppliedAction.referenceId_of_fromPayload_asPayload h).trans href.symm

/-! ## What a transaction records -/

def Write.actsFor (reference : String) : Write → Bool
  | .insertAction a => a.referenceId = some reference
  | _ => false

def Write.contacts : Write → Bool
  | .insertContact _ => true
  | _ => false

/-- How many contacts a transaction records along with an action under a reference. -/
def contactsIn (reference : String) (ws : List Write) : ℕ :=
  if ws.any (Write.actsFor reference) then ws.countP Write.contacts else 0

/-- The request is for the link of an action. -/
def PaymentLinkRequest.Charges (request : PaymentLinkRequest) (applied : AppliedAction) : Prop :=
  request.referenceId = applied.referenceId ∧ request.amountPaise = applied.chargeAmountPaise

def RecoveryActionRow.Records (a : RecoveryActionRow) (applied : AppliedAction) : Prop :=
  a.referenceId = some applied.referenceId ∧ a.discountPctApplied = applied.discountPct ∧
    a.discountAmountPaise = applied.discountAmountPaise

/-- What the executor stores: intents written for the actions they carry, failures, contacts, and
records of some actions. -/
def Write.Booked (actions : Set AppliedAction) : Write → Prop
  | .insertOutbox row => row.Matches
  | .insertAction a => ∃ applied ∈ actions, a.Records applied
  | .updateOutbox _ _ | .insertContact _ | .insertDeadLetter _ => True
  | _ => False

/-- A command of the executor, asking for the links of some actions and recording some. -/
def Cmd.Books (links actions : Set AppliedAction) : {β : Type} → Cmd β → Prop
  | _, .createPaymentLink request => ∃ applied ∈ links, request.Charges applied
  | _, .commit ws => ∀ write ∈ ws, write.Booked actions
  | _, _ => True

theorem Write.Booked.mono {actions actions' : Set AppliedAction} (h : actions ⊆ actions')
    {w : Write} (hw : w.Booked actions) : w.Booked actions' := by
  cases w with
  | insertAction a =>
    obtain ⟨applied, hmem, hrecords⟩ := hw
    exact ⟨applied, h hmem, hrecords⟩
  | _ => exact hw

theorem Cmd.Books.mono {links links' actions actions' : Set AppliedAction}
    (hlinks : links ⊆ links') (hactions : actions ⊆ actions') {β : Type} (c : Cmd β)
    (h : c.Books links actions) : c.Books links' actions' := by
  cases c with
  | createPaymentLink request =>
    obtain ⟨applied, hmem, hcharges⟩ := h
    exact ⟨applied, hlinks hmem, hcharges⟩
  | commit ws => exact fun write hwrite => (h write hwrite).mono hactions
  | _ => trivial

theorem Cmd.Books.writes {links actions : Set AppliedAction} {β : Type} {c : Cmd β}
    (h : c.Books links actions) : c.Writes (Write.Booked actions) := by
  cases c with
  | commit ws => exact h
  | _ => trivial

/-- Every stored intent was written for the action it carries. -/
def Tables.AllMatch (t : Tables) : Prop := ∀ row ∈ t.outbox, row.Matches

/-- What is booked matches. -/
theorem Tables.apply_allMatch {actions : Set AppliedAction} {t : Tables} {write : Write}
    (hbooked : write.Booked actions) (h : t.AllMatch) : (t.apply write).AllMatch := by
  intro row hrow
  cases write with
  | insertOutbox new =>
    rcases List.mem_append.mp hrow with hrow | hrow
    · exact h row hrow
    · exact List.mem_singleton.mp hrow ▸ hbooked
  | updateOutbox read new =>
    -- an update leaves the payload and the reference
    obtain ⟨row₀, hrow₀, rfl⟩ := mem_updateWhere.mp hrow
    have hmatches := h row₀ hrow₀
    split <;> exact hmatches
  | _ => exact h row hrow

theorem Cmd.Books.keeps_allMatch {links actions : Set AppliedAction} {β : Type} (c : Cmd β)
    (w : World) (h : c.Books links actions) (hw : w.db.tables.AllMatch) :
    (World.handler.exec c w).2.db.tables.AllMatch :=
  World.exec_keeps_of_writes (fun _ _ => Tables.apply_allMatch) h.writes w hw

theorem Cmd.Books.passive {actions : Set AppliedAction} {β : Type} {c : Cmd β}
    (h : c.Books ∅ actions) : c.Passive := by
  cases c with
  | createPaymentLink request =>
    obtain ⟨applied, hmem, -⟩ := h
    exact hmem.elim
  | _ => trivial

/-! ## One commit -/

/-- A commit as the last of `n` commands. -/
def World.commitLast (w : World) (n : ℕ) (ws : List Write) : Except PyError Unit × World :=
  match w.db.commit ws with
  | some db => (.ok (), (w.after n).committed ws db)
  | none => (.error .integrityError, w.after n)

namespace OutboxExecutor

/-! ## Phase one -/

def intentOf (w : World) (s : RecoveryState) (applied : AppliedAction) : OutboxRow where
  id := newId "obx" (w.fate w.tick).hex
  caseId := s.caseId
  actionType := .createPaymentLink
  referenceId := applied.referenceId
  payloadJson := some applied.asPayload
  nextAttemptAt := dbTime (w.after 2).clock
  createdAt := dbTime (w.after 3).clock

theorem run_intentRow (s : RecoveryState) (applied : AppliedAction) (w : World) :
    (intentRow s applied).run World.handler w = (.ok (intentOf w s applied), w.after 3) := rfl

/-- A row under the reference is reused. -/
theorem run_phaseOne_of_some {w : World} {s : RecoveryState} {applied : AppliedAction}
    {row : OutboxRow} (h : w.db.tables.outboxByReference applied.referenceId = some row) :
    (phaseOne s applied).run World.handler w = (.ok row.id, w.after 1) := by
  unfold phaseOne
  rw [Prog.run_bind, Act.run_select, h]
  rfl

/-- Without one, the intent is committed, or the refusal raised. -/
theorem run_phaseOne_of_none {w : World} {s : RecoveryState} {applied : AppliedAction}
    (h : w.db.tables.outboxByReference applied.referenceId = none) :
    (phaseOne s applied).run World.handler w =
      match w.db.commit [.insertOutbox (intentOf (w.after 1) s applied)] with
      | some db => (.ok (intentOf (w.after 1) s applied).id,
          (w.after 5).committed [.insertOutbox (intentOf (w.after 1) s applied)] db)
      | none => (.error .integrityError, w.after 6) := by
  unfold phaseOne
  rw [Prog.run_bind, Act.run_select, h]
  simp only [Prog.run_bind, run_intentRow, Prog.run_attempt, Act.run_commit, World.after_after,
    World.after_db, Nat.reduceAdd]
  cases w.db.commit [.insertOutbox (intentOf (w.after 1) s applied)] with
  | some db => rfl
  | none =>
    simp only [Prog.run_bind, Act.run_select, World.after_db, World.after_after, h]
    rfl

/-! ## Recording a failure -/

/-- What recording one failure of a row writes: one more failure, and at most a dead letter. -/
def FailureWrites (w : World) (row : OutboxRow) (ws : List Write) : Prop :=
  ∃ new extra, ws = .updateOutbox row new :: extra ∧ new.attempt = row.attempt + 1 ∧
    (extra = [] ∨ ∃ d : DeadLetterRow, extra = [.insertDeadLetter d] ∧ d.outboxId = row.id ∧
      d.id = newId "dlq" (w.fate (w.tick + 1)).hex)

theorem run_dlqRow (row : OutboxRow) (reason : String) (w : World) :
    ∃ d : DeadLetterRow, (dlqRow row reason).run World.handler w = (.ok d, w.after 2) ∧
      d.outboxId = row.id ∧ d.id = newId "dlq" (w.fate w.tick).hex :=
  ⟨_, rfl, rfl, rfl⟩

theorem run_scheduleRetry_of_le (ex : OutboxExecutor) {w : World} {i : String} {row : OutboxRow}
    (h : w.db.tables.outboxById i = some row) (exc : PyError) (hle : ex.maxAttempts ≤ row.attempt + 1) :
    ∃ d : DeadLetterRow, d.outboxId = row.id ∧ d.id = newId "dlq" (w.fate (w.tick + 1)).hex ∧
      (ex.scheduleRetry i exc).run World.handler w = w.commitLast 4
        [.updateOutbox row { failed row exc with status := .dead }, .insertDeadLetter d] := by
  obtain ⟨d, hrun, hd, hid⟩ := run_dlqRow { failed row exc with status := .dead }
    "retry budget exhausted" (w.after 1)
  refine ⟨d, hd, by simpa using hid, ?_⟩
  have hspent : ex.maxAttempts ≤ (failed row exc).attempt := hle
  unfold scheduleRetry
  simp only [Prog.run_bind, Act.run_select, h, if_pos hspent, hrun, Act.run_commit,
    World.after_after, World.after_db]
  rfl

theorem run_scheduleRetry_of_lt (ex : OutboxExecutor) {w : World} {i : String} {row : OutboxRow}
    (h : w.db.tables.outboxById i = some row) (exc : PyError) (hlt : row.attempt + 1 < ex.maxAttempts) :
    (ex.scheduleRetry i exc).run World.handler w = w.commitLast 4
      [.updateOutbox row (backedOff row exc (w.after 2).clock (w.fate (w.tick + 2)).uniform)] := by
  have hleft : ¬ex.maxAttempts ≤ (failed row exc).attempt := not_le.mpr hlt
  unfold scheduleRetry
  simp only [Prog.run_bind, Act.run_select, h, if_neg hleft, Act.run_nowUtc, Prog.run_lift,
    Act.run_commit, World.after_after]
  rfl

theorem run_scheduleRetry (ex : OutboxExecutor) {w : World} {i : String} {row : OutboxRow}
    (h : w.db.tables.outboxById i = some row) (exc : PyError) :
    ∃ ws, FailureWrites w row ws ∧
      (ex.scheduleRetry i exc).run World.handler w = w.commitLast 4 ws := by
  rcases le_or_gt ex.maxAttempts (row.attempt + 1) with hle | hlt
  · obtain ⟨d, hd, hid, hrun⟩ := run_scheduleRetry_of_le ex h exc hle
    exact ⟨_, ⟨_, _, rfl, rfl, .inr ⟨d, rfl, hd, hid⟩⟩, hrun⟩
  · exact ⟨_, ⟨_, _, rfl, rfl, .inl rfl⟩, run_scheduleRetry_of_lt ex h exc hlt⟩

theorem run_deadLetter {w : World} {i : String} {row : OutboxRow}
    (h : w.db.tables.outboxById i = some row) (exc : PyError) (message : String) :
    ∃ ws, FailureWrites w row ws ∧
      (deadLetter i exc message).run World.handler w = w.commitLast 4 ws := by
  unfold deadLetter
  simp only [Prog.run_bind, Act.run_select, h]
  obtain ⟨d, hrun, hd, hid⟩ := run_dlqRow { failed row exc with status := .dead }
    ("provider refused: " ++ message) (w.after 1)
  refine ⟨[.updateOutbox row { failed row exc with status := .dead }, .insertDeadLetter d],
    ⟨_, _, rfl, rfl, .inr ⟨d, rfl, hd, by simpa using hid⟩⟩, ?_⟩
  simp only [hrun, Act.run_commit, World.after_after, World.after_db]
  rfl

/-! ## The call -/

/-- An action a request can be built for. -/
def Chargeable (applied : AppliedAction) : Prop :=
  0 < applied.chargeAmountPaise ∧ applied.referenceId ≠ ""

instance (applied : AppliedAction) : Decidable (Chargeable applied) :=
  inferInstanceAs (Decidable (_ ∧ _))

/-- A request is for the action's link, and is built exactly for a chargeable one. -/
theorem requestOf_cases (s : RecoveryState) (applied : AppliedAction) (now : DateTime) :
    (Chargeable applied ∧ ∃ request, requestOf s applied now = .ok request ∧
      request.Charges applied) ∨
    (¬Chargeable applied ∧ ∃ e, requestOf s applied now = .error (.valueError e)) := by
  unfold requestOf PaymentLinkRequest.mk? Chargeable PaymentLinkRequest.Charges
  by_cases ha : 0 < applied.chargeAmountPaise
  · by_cases hr : applied.referenceId ≠ ""
    · exact .inl ⟨⟨ha, hr⟩, by simp [ha, hr]⟩
    · exact .inr ⟨fun h => hr h.2, by simp [ha, hr]⟩
  · exact .inr ⟨fun h => ha h.1, by simp [ha]⟩

variable {ψ : PaymentLinkRequest → World → Prop}

/-- One call to the provider makes one request, if the action can be charged. -/
theorem along_callProvider (s : RecoveryState) (applied : AppliedAction) (w : World) :
    (callProvider s applied).Along World.handler (World.Creates ψ) w ↔
      ∀ request, requestOf s applied (w.after 1).clock = .ok request → ψ request (w.after 2) := by
  unfold callProvider
  rw [Prog.along_bind, Act.along_nowUtc, Act.run_nowUtc]
  refine (and_iff_right trivial).trans ?_
  simp only [Prog.along_bind, Act.along_liftExcept, Act.run_liftExcept, true_and]
  cases requestOf s applied (w.after 1).clock with
  | error e => simp
  | ok request =>
    simp only [Prog.along_attempt, Prog.run_attempt, Except.ok.injEq, forall_eq']
    refine (and_iff_left ?_).trans Act.along_call
    rcases (Act.createPaymentLink request).run World.handler (w.after 1) with ⟨r, v⟩
    -- whatever the provider answered, only a lookup may follow
    refine Prog.All.along (P := Cmd.Passive) (R := fun _ => True) ?_
      (fun c v hc => World.creates_of_passive hc v) v
    cases r with
    | ok link => trivial
    | error exc =>
      cases exc with
      | duplicateReference reference =>
        refine (Prog.all_bind _ _).mpr (Act.all_call.mpr ⟨trivial, fun r => ?_⟩)
        rcases r with e | _ | existing <;> trivial
      | _ => trivial

theorem quiet_callProvider (s : RecoveryState) (applied : AppliedAction) :
    (callProvider s applied).All Cmd.Quiet fun _ => True := by
  simp only [callProvider, Prog.all_bind, Act.all_nowUtc, Act.all_liftExcept]
  refine ⟨trivial, fun now => ?_⟩
  cases requestOf s applied now with
  | error e => trivial
  | ok request =>
    simp only [Prog.all_attempt, Act.createPaymentLink, Act.all_call]
    refine ⟨trivial, fun r => ?_⟩
    rcases r with e | link
    · cases e with
      | duplicateReference reference =>
        refine (Prog.all_bind _ _).mpr (Act.all_call.mpr ⟨trivial, fun r => ?_⟩)
        rcases r with e | _ | existing <;> trivial
      | _ => trivial
    · trivial

/-! ## One execution -/

/-- The world in which phase one leaves an execution; none when the intent is refused. -/
def intended (s : RecoveryState) (applied : AppliedAction) (w : World) : Option World :=
  match w.db.tables.outboxByReference applied.referenceId with
  | some _ => some (w.after 1)
  | none => (w.db.commit [.insertOutbox (intentOf (w.after 1) s applied)]).map
      ((w.after 5).committed [.insertOutbox (intentOf (w.after 1) s applied)])

theorem run_phaseOne (s : RecoveryState) (applied : AppliedAction) (w : World) :
    match intended s applied w with
    | some v => ∃ i, (phaseOne s applied).run World.handler w = (.ok i, v)
    | none => (phaseOne s applied).run World.handler w = (.error .integrityError, w.after 6) := by
  unfold intended
  cases h : w.db.tables.outboxByReference applied.referenceId with
  | some row => exact ⟨row.id, run_phaseOne_of_some h⟩
  | none =>
    simp only [run_phaseOne_of_none h]
    cases w.db.commit [.insertOutbox (intentOf (w.after 1) s applied)] with
    | some db => exact ⟨_, rfl⟩
    | none => rfl

section Sessions

variable {links actions : Set AppliedAction}

theorem books_phaseOne (s : RecoveryState) (applied : AppliedAction) :
    (phaseOne s applied).All (Cmd.Books links actions) fun _ => True := by
  rw [phaseOne, Prog.all_bind, Act.all_select]
  refine ⟨trivial, fun found => ?_⟩
  cases found with
  | some existing => trivial
  | none =>
    simp only [intentRow, Prog.all_bind, Prog.all_attempt, Act.all_freshId, Act.all_nowUtc,
      Prog.all_pure, Act.all_commit]
    refine ⟨trivial, fun i => ⟨trivial, fun now => ⟨trivial, fun now' => ⟨?_, fun r => ?_⟩⟩⟩⟩
    · rintro write hwrite
      obtain rfl := List.mem_singleton.mp hwrite
      exact OutboxRow.matches_of_asPayload rfl rfl
    · rcases r with e | _
      · cases e with
        | integrityError =>
          rw [Prog.all_bind, Act.all_select]
          refine ⟨trivial, fun won => ?_⟩
          cases won <;> trivial
        | _ => trivial
      · trivial

theorem books_scheduleRetry (ex : OutboxExecutor) (i : String) (exc : PyError) :
    (ex.scheduleRetry i exc).All (Cmd.Books links actions) fun _ => True := by
  rw [scheduleRetry, Prog.all_bind, Act.all_select]
  refine ⟨trivial, fun found => ?_⟩
  cases found with
  | none => trivial
  | some row =>
    simp only
    split
    · simp [dlqRow, Cmd.Books, Write.Booked]
    · simp [Cmd.Books, Write.Booked]

theorem books_deadLetter (i : String) (exc : PyError) (message : String) :
    (deadLetter i exc message).All (Cmd.Books links actions) fun _ => True := by
  rw [deadLetter, Prog.all_bind, Act.all_select]
  refine ⟨trivial, fun found => ?_⟩
  cases found with
  | none => trivial
  | some row => simp [dlqRow, Cmd.Books, Write.Booked]

theorem books_phaseTwo (s : RecoveryState) (applied : AppliedAction) (i : String)
    (result : PaymentLinkResult) :
    (phaseTwo s applied i result).All (Cmd.Books links {applied}) fun _ => True := by
  simp only [phaseTwo, Prog.all_bind, Act.all_nowUtc, Act.all_select]
  refine ⟨trivial, fun now => ⟨trivial, fun found => ?_⟩⟩
  cases found with
  | none => trivial
  | some row =>
    simp only
    split
    · trivial
    · simp only [contactWrites]
      split <;> simp [Cmd.Books, Write.Booked, RecoveryActionRow.Records, actionRow]

theorem books_trace (s : RecoveryState) (status : CaseStatus) :
    (trace s status).All (Cmd.Books links actions) fun _ => True := by
  simp [trace, Cmd.Books]

theorem books_callProvider (s : RecoveryState) (applied : AppliedAction) :
    (callProvider s applied).All (Cmd.Books {applied} actions) fun _ => True := by
  simp only [callProvider, Prog.all_bind, Act.all_nowUtc, Act.all_liftExcept]
  refine ⟨trivial, fun now => ?_⟩
  rcases requestOf_cases s applied now with ⟨-, request, hok, hcharges⟩ | ⟨-, e, herror⟩
  · simp only [hok, Prog.all_attempt, Act.createPaymentLink, Act.all_call]
    refine ⟨⟨applied, rfl, hcharges⟩, fun r => ?_⟩
    rcases r with e | link
    · cases e with
      | duplicateReference reference =>
        refine (Prog.all_bind _ _).mpr (Act.all_call.mpr ⟨trivial, fun r => ?_⟩)
        rcases r with e | _ | existing <;> trivial
      | _ => trivial
    · trivial
  · simp only [herror]

/-! ## After the intent -/

def carried (s : RecoveryState) : Set AppliedAction :=
  {applied | s.policyApplied = some applied}

/-- What an execution does once its intent is stored is done for its action. -/
theorem books_afterIntent (ex : OutboxExecutor) (s : RecoveryState) (applied : AppliedAction)
    (i : String) :
    ((callProvider s applied).attempt >>= fun
      | .error (.providerRetryable m) => do
        ex.scheduleRetry i (.providerRetryable m)
        trace s .executing
      | .error (.providerPermanent m) => do
        deadLetter i (.providerPermanent m) m
        trace s .failedPermanent
      | .error exc => throw exc
      | .ok (result, _) => do
        phaseTwo s applied i result
        trace (executed s applied result) .monitoring :
      Act RecoveryState).All (Cmd.Books {applied} {applied}) fun _ => True := by
  refine Prog.All.seq ((Prog.all_attempt _).mpr (books_callProvider s applied)) fun r => ?_
  rcases r with e | ⟨result, _⟩
  · cases e with
    | providerRetryable m => exact (books_scheduleRetry ex i _).seq fun _ => books_trace s _
    | providerPermanent m => exact (books_deadLetter i _ m).seq fun _ => books_trace s _
    | _ => trivial
  · exact (books_phaseTwo s applied i result).seq fun _ => books_trace _ _

/-- **An execution asks for the link of its action and records its action only.** -/
theorem books_execute (ex : OutboxExecutor) (rt : Runtime) (s : RecoveryState) :
    (ex.execute rt s).All (Cmd.Books (carried s) (carried s)) fun _ => True := by
  unfold execute
  split
  · next applied token happlied htoken =>
      have hmem : {applied} ⊆ carried s := Set.singleton_subset_iff.mpr happlied
      refine Prog.All.seq (by simp) fun _ => (books_phaseOne s applied).seq fun i => ?_
      exact (books_afterIntent ex s applied i).mono (Cmd.Books.mono hmem hmem) fun _ h => h
  · exact books_trace s _

end Sessions

/-- **An authorised execution asks for one link at most**, once its intent is stored and if its
action can be charged. -/
theorem along_execute {rt : Runtime} {s : RecoveryState} {applied : AppliedAction}
    {token : PolicyToken} (ex : OutboxExecutor) (happlied : s.policyApplied = some applied)
    (htoken : s.policyToken = some token) (hverify : token.verify rt = .ok ()) (w : World) :
    (ex.execute rt s).Along World.handler (World.Creates ψ) w ↔
      ∀ v, intended s applied w = some v →
        ∀ request, requestOf s applied (v.after 1).clock = .ok request → ψ request (v.after 2) := by
  unfold execute
  simp only [happlied, htoken, hverify]
  rw [Prog.along_bind, Act.run_liftExcept]
  refine (and_iff_right Act.along_liftExcept).trans ?_
  simp only
  rw [Prog.along_bind]
  have hphaseOne : (phaseOne s applied).All (Cmd.Books ∅ ∅) fun _ => True :=
    books_phaseOne s applied
  refine (and_iff_right (hphaseOne.along
    (fun c v hc => World.creates_of_passive hc.passive v) w)).trans ?_
  have hrun := run_phaseOne s applied w
  cases hv : intended s applied w with
  | none =>
    simp only [hv] at hrun
    simp [hrun]
  | some v =>
    simp only [hv] at hrun
    obtain ⟨i, hrun⟩ := hrun
    simp only [hrun, Option.some.injEq, forall_eq']
    rw [Prog.along_bind, Prog.along_attempt, along_callProvider, Prog.run_attempt]
    refine and_iff_left ?_
    rcases (callProvider s applied).run World.handler v with ⟨r, u⟩
    refine Prog.All.along (P := Cmd.Books ∅ {applied}) (R := fun _ => True) ?_
      (fun c v hc => World.creates_of_passive hc.passive v) u
    -- what is recorded of the answer asks for no link
    rcases r with e | ⟨result, _⟩
    · cases e with
      | providerRetryable m =>
        exact (books_scheduleRetry ex i _).seq fun _ => books_trace s _
      | providerPermanent m =>
        exact (books_deadLetter i _ m).seq fun _ => books_trace s _
      | _ => trivial
    · exact (books_phaseTwo s applied i result).seq fun _ => books_trace _ _

end OutboxExecutor

end AegisMerchant
