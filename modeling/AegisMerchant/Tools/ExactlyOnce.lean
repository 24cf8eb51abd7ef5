import AegisMerchant.Routers.Dlq
import AegisMerchant.Tools.OutboxLaws
import AegisMerchant.Workers.Drainer

/-!
# At most one record per reference

Executes, drains and replays of any number of workers, interleaved in any way and killed anywhere.
Each of their sessions reads an outbox row in one step and commits in a later one, without looking
at the row again. As long as no commit changes the status of a row that is `SENT` by then, every
reference keeps at most one action and one contact, and `SENT` is final.

The invariant over the pool and its steps come first, then `workers_recordsOnce`;
`not_workers_recordsOnce` is two workers in the same row.
-/

namespace AegisMerchant

open Time Rows

/-! ## The invariant -/

/-- How many actions are recorded under a reference. -/
def actionsFor (t : Tables) (reference : String) : ℕ :=
  t.actions.countP fun a => a.referenceId = some reference

/-- How many contacts were recorded for a reference. -/
def contactsFor (w : World) (reference : String) : ℕ :=
  (w.history.map fun entry => contactsIn reference entry.2).sum

/-- **The invariant**: at most one action a reference, no more contacts than actions, and a recorded
action means a `SENT` row. -/
structure RecordedOnce (w : World) : Prop where
  actions_le : ∀ reference, actionsFor w.db.tables reference ≤ 1
  contacts_le : ∀ reference, contactsFor w reference ≤ actionsFor w.db.tables reference
  sent : ∀ a ∈ w.db.tables.actions, ∀ reference ∈ a.referenceId,
    ∃ row ∈ w.db.tables.outbox, row.referenceId = reference ∧ row.status = .sent

/-- Outbox rows stay, under the references they have, and `SENT` ones stay `SENT`. -/
def KeepsRows (t t' : Tables) : Prop :=
  ∀ row ∈ t.outbox, ∃ row' ∈ t'.outbox,
    row'.id = row.id ∧ row'.referenceId = row.referenceId ∧
      (row.status = .sent → row'.status = .sent)

/-- What one step of any worker does, as far as the others can rely on it. -/
def Follows (w w' : World) : Prop :=
  (RecordedOnce w → RecordedOnce w') ∧ KeepsRows w.db.tables w'.db.tables

/-- A statement that changes the status of an outbox row finds the row not `SENT`. -/
def Write.FindsUnsent (t : Tables) : Write → Prop
  | .updateOutbox read new => new.status ≠ read.status →
      ∀ row ∈ t.outbox, row.id = read.id → row.status ≠ .sent
  | _ => True

instance (t : Tables) : (w : Write) → Decidable (w.FindsUnsent t)
  | .updateOutbox read new => by unfold Write.FindsUnsent; infer_instance
  | .insertOutbox _ | .insertAction _ | .insertContact _ | .insertDeadLetter _
  | .updateDeadLetter _ _ | .updateCase _ _ | .updateApproval _ _ | .insertBlock _ =>
    inferInstanceAs (Decidable True)

/-- **The condition**: a commit that changes an outbox row's status finds the row not `SENT`. -/
def FindsUnsent : {β : Type} → Cmd β → World → Prop
  | _, .commit ws, world => ∀ write ∈ ws, write.FindsUnsent world.db.tables
  | _, _, _ => True

instance : {β : Type} → (c : Cmd β) → (w : World) → Decidable (FindsUnsent c w)
  | _, .commit ws, w => inferInstanceAs (Decidable (∀ write ∈ ws, write.FindsUnsent w.db.tables))
  | _, .now, _ | _, .select _ _, _ | _, .flush _ _, _ | _, .tokenHex, _ | _, .uniform, _
  | _, .createPaymentLink _, _ | _, .getPaymentLinkByReference _, _
  | _, .completeStructured _ _, _ => inferInstanceAs (Decidable True)

/-- The contract every worker keeps under the condition. -/
def recordContract : Contract Cmd World := World.contract Follows Follows FindsUnsent

instance {β : Type} (c : Cmd β) (w : World) : Decidable (recordContract.cond c w) :=
  inferInstanceAs (Decidable (FindsUnsent c w))

theorem KeepsRows.refl (t : Tables) : KeepsRows t t :=
  fun row hrow => ⟨row, hrow, rfl, rfl, id⟩

theorem KeepsRows.trans {t u v : Tables} (h : KeepsRows t u) (h' : KeepsRows u v) :
    KeepsRows t v := by
  intro row hrow
  obtain ⟨row', hrow', hid, href, hsent⟩ := h row hrow
  obtain ⟨row'', hrow'', hid', href', hsent'⟩ := h' row' hrow'
  exact ⟨row'', hrow'', hid'.trans hid, href'.trans href, hsent' ∘ hsent⟩

theorem recordContract_closed : recordContract.Closed where
  refl _ := ⟨id, KeepsRows.refl _⟩
  trans h h' := ⟨h'.1 ∘ h.1, h.2.trans h'.2⟩
  guar h := h

/-- Only the database and its history matter. -/
theorem Follows.of_eq {w w' : World} (hdb : w'.db = w.db) (hhistory : w'.history = w.history) :
    Follows w w' := by
  refine ⟨fun h => ⟨?_, ?_, ?_⟩, ?_⟩
  · rw [hdb]; exact h.actions_le
  · intro reference
    unfold contactsFor
    rw [hdb, hhistory]
    exact h.contacts_le reference
  · rw [hdb]; exact h.sent
  · rw [hdb]; exact KeepsRows.refl _

/-! ## Transactions that record nothing -/

/-- A statement that is neither an action nor a contact. -/
def Write.Recordless : Write → Prop
  | .insertAction _ | .insertContact _ => False
  | _ => True

/-- A transaction that records nothing, and touches the outbox with its first statement only. -/
def RecordlessTxn : List Write → Prop
  | [] => True
  | w :: rest => w.Recordless ∧ ∀ v ∈ rest, v.Aside

/-- A command that commits no other transaction than those. -/
def Cmd.Recordless : {β : Type} → Cmd β → Prop
  | _, .commit ws => RecordlessTxn ws
  | _, _ => True

theorem Write.Aside.recordless {w : Write} (h : w.Aside) : w.Recordless := by
  cases w <;> first | exact h.elim | trivial

theorem RecordlessTxn.recordless {ws : List Write} (h : RecordlessTxn ws) :
    ∀ w ∈ ws, w.Recordless := by
  cases ws with
  | nil => simp
  | cons w rest =>
    intro v hv
    rcases List.mem_cons.mp hv with rfl | hv
    · exact h.1
    · exact (h.2 v hv).recordless

theorem apply_actions {w : Write} (h : w.Recordless) (t : Tables) :
    (t.apply w).actions = t.actions := by
  cases w <;> first | exact h.elim | rfl

theorem applyAll_actions {ws : List Write} (h : ∀ w ∈ ws, w.Recordless) (t : Tables) :
    (t.applyAll ws).actions = t.actions := by
  induction ws generalizing t with
  | nil => rfl
  | cons w rest ih =>
    rw [Tables.applyAll_cons, ih (fun v hv => h v (List.mem_cons_of_mem _ hv)),
      apply_actions (h w List.mem_cons_self)]

theorem apply_outbox {w : Write} (h : w.Aside) (t : Tables) : (t.apply w).outbox = t.outbox := by
  cases w <;> first | exact h.elim | rfl

theorem applyAll_outbox {ws : List Write} (h : ∀ w ∈ ws, w.Aside) (t : Tables) :
    (t.applyAll ws).outbox = t.outbox := by
  induction ws generalizing t with
  | nil => rfl
  | cons w rest ih =>
    rw [Tables.applyAll_cons, ih (fun v hv => h v (List.mem_cons_of_mem _ hv)),
      apply_outbox (h w List.mem_cons_self)]

theorem contactsIn_recordless {ws : List Write} (h : ∀ w ∈ ws, w.Recordless)
    (reference : String) : contactsIn reference ws = 0 := by
  refine if_neg ?_
  rw [List.any_eq_true]
  rintro ⟨w, hw, hmatch⟩
  have := h w hw
  cases w <;> first | exact this.elim | simp [Write.actsFor] at hmatch

/-- One update under the condition leaves `SENT` rows `SENT`. -/
theorem keepsRows_updateOutbox {t : Tables} {read new : OutboxRow}
    (hunsent : new.status ≠ read.status →
      ∀ row ∈ t.outbox, row.id = read.id → row.status ≠ .sent) :
    KeepsRows t (t.apply (.updateOutbox read new)) := by
  intro row hrow
  refine ⟨_, updateWhere_of_mem hrow, ?_⟩
  split
  · next hid =>
      refine ⟨rfl, rfl, fun hsent => ?_⟩
      show dirty read.status new.status row.status = .sent
      by_cases hdirty : new.status = read.status
      · simp [dirty, hdirty, hsent]
      · exact absurd hsent (hunsent hdirty row hrow hid)
  · exact ⟨rfl, rfl, id⟩

theorem keepsRows_apply {t : Tables} {w : Write} (hunsent : w.FindsUnsent t) :
    KeepsRows t (t.apply w) := by
  cases w with
  | updateOutbox read new => exact keepsRows_updateOutbox hunsent
  | insertOutbox row => exact fun r hr => ⟨r, List.mem_append_left _ hr, rfl, rfl, id⟩
  | _ => exact KeepsRows.refl _

/-- A transaction that records nothing follows, under the condition. -/
theorem follows_recordless {w : World} {ws : List Write} {db : Database} (h : RecordlessTxn ws)
    (hfinds : FindsUnsent (.commit ws) w) (hcommit : w.db.commit ws = some db) :
    Follows w (w.advance.committed ws db) := by
  have htables := Database.commit_eq_some.mp hcommit
  -- the transaction inserts no action, so the records are those of before
  have hactions : db.tables.actions = w.db.tables.actions := by
    rw [htables, applyAll_actions h.recordless]
  have hkeeps : KeepsRows w.db.tables db.tables := by
    rw [htables]
    cases ws with
    | nil => exact KeepsRows.refl _
    | cons first rest =>
      have hrows := applyAll_outbox h.2 (w.db.tables.apply first)
      have hfirst : KeepsRows w.db.tables (w.db.tables.apply first) :=
        keepsRows_apply (hfinds first List.mem_cons_self)
      -- only its first write may touch a stored row, and that one keeps what is sent
      intro row hrow
      rw [Tables.applyAll_cons, hrows]
      exact hfirst row hrow
  refine ⟨fun hinv => ⟨?_, ?_, ?_⟩, hkeeps⟩
  · intro reference
    show actionsFor db.tables reference ≤ 1
    rw [actionsFor, hactions]
    exact hinv.actions_le reference
  · intro reference
    show ((w.history ++ [_]).map _).sum ≤ actionsFor db.tables reference
    rw [actionsFor, hactions, List.map_append, List.sum_append]
    have hle := hinv.contacts_le reference
    unfold contactsFor actionsFor at hle
    simpa [contactsIn_recordless h.recordless] using hle
  · intro a ha reference href
    -- an action recorded before still has its row, and the row is still sent
    obtain ⟨row, hrow, hrowref, hsent⟩ := hinv.sent a (hactions ▸ ha) reference href
    obtain ⟨row', hrow', -, href', hsent'⟩ := hkeeps row hrow
    exact ⟨row', hrow', href'.trans hrowref, hsent' hsent⟩

/-- The rest of a worker's commands follow too. -/
theorem follows_step {β : Type} {c : Cmd β} {w : World} (h : c.Recordless)
    (hfinds : FindsUnsent c w) : Follows w (World.handler.exec c w).2 := by
  by_cases hquiet : c.Quiet
  · obtain ⟨hdb, hhistory⟩ := World.exec_quiet hquiet w
    exact Follows.of_eq hdb hhistory
  · cases c with
    | commit ws =>
      simp only [World.handler, World.serve, World.advance_db]
      cases hcommit : w.db.commit ws with
      | none => exact Follows.of_eq rfl rfl
      | some db => exact follows_recordless h hfinds hcommit
    | _ => exact absurd trivial hquiet

/-! ## The transaction that records -/

/-- An outbox row of this id holds this reference. -/
def Stored (id reference : String) (t : Tables) : Prop :=
  ∃ row ∈ t.outbox, row.id = id ∧ row.referenceId = reference

theorem Stored.keeps {id reference : String} {t t' : Tables} (h : Stored id reference t)
    (hkeeps : KeepsRows t t') : Stored id reference t' := by
  obtain ⟨row, hrow, hid, href⟩ := h
  obtain ⟨row', hrow', hid', href', -⟩ := hkeeps row hrow
  exact ⟨row', hrow', hid'.trans hid, href'.trans href⟩

/-- Under the invariant, a row that is not `SENT` has no action under its reference. -/
theorem actionsFor_eq_zero {w : World} (hinv : RecordedOnce w) {row : OutboxRow}
    (hrow : row ∈ w.db.tables.outbox) (hunsent : row.status ≠ .sent) :
    actionsFor w.db.tables row.referenceId = 0 := by
  rw [actionsFor, List.countP_eq_zero]
  intro a ha href
  have href : a.referenceId = some row.referenceId := by simpa using href
  obtain ⟨row', hrow', href', hsent⟩ := hinv.sent a ha row.referenceId href
  obtain rfl := eq_of_key_eq w.db.valid.outbox_reference hrow' hrow href'
  exact hunsent hsent

theorem contactsIn_le_one {reference : String} {read new : OutboxRow} {a : RecoveryActionRow}
    {contact : List Write} (h : contact = [] ∨ ∃ c, contact = [.insertContact c]) :
    contactsIn reference ([.updateOutbox read new, .insertAction a] ++ contact) ≤
      if a.referenceId = some reference then 1 else 0 := by
  unfold contactsIn
  by_cases href : a.referenceId = some reference
  · rcases h with rfl | ⟨c, rfl⟩ <;> simp [href, Write.actsFor, Write.contacts]
  · rcases h with rfl | ⟨c, rfl⟩ <;> simp [href, Write.actsFor]

/-- Phase two's transaction follows, under the condition: it finds the row not `SENT`, so it is the
first to record anything under the reference. -/
theorem follows_record {w : World} {read new : OutboxRow} {a : RecoveryActionRow}
    {contact : List Write} {db : Database} {reference : String}
    (hstored : Stored read.id reference w.db.tables) (hread : read.status ≠ .sent)
    (hnew : new.status = .sent) (ha : a.referenceId = some reference)
    (hcontact : contact = [] ∨ ∃ c, contact = [.insertContact c])
    (hfinds : FindsUnsent (.commit ([.updateOutbox read new, .insertAction a] ++ contact)) w)
    (hcommit : w.db.commit ([.updateOutbox read new, .insertAction a] ++ contact) = some db) :
    Follows w (w.advance.committed ([.updateOutbox read new, .insertAction a] ++ contact) db) := by
  have htables := Database.commit_eq_some.mp hcommit
  have hdirty : new.status ≠ read.status := by
    rw [hnew]
    exact fun h => hread h.symm
  -- the guard: no row of this id is sent at the instant of the commit
  have hunsent := hfinds (.updateOutbox read new) (by simp) hdirty
  have houtbox : db.tables.outbox =
      updateWhere (·.id) read.id (read.store new) w.db.tables.outbox := by
    rw [htables]
    rcases hcontact with rfl | ⟨c, rfl⟩ <;> rfl
  have hactions : db.tables.actions = w.db.tables.actions ++ [a] := by
    rw [htables]
    rcases hcontact with rfl | ⟨c, rfl⟩ <;> rfl
  have hcount : ∀ r, actionsFor db.tables r =
      actionsFor w.db.tables r + if a.referenceId = some r then 1 else 0 := by
    intro r
    simp [actionsFor, hactions, List.countP_cons]
  -- the row the update replaces was not sent, so no sent row is lost
  have hkeeps : KeepsRows w.db.tables db.tables := by
    intro row hrow
    rw [houtbox]
    exact keepsRows_updateOutbox (fun _ => hunsent) row hrow
  refine ⟨fun hinv => ⟨?_, ?_, ?_⟩, hkeeps⟩
  · -- the row was not sent, so its reference had no action yet
    intro r
    show actionsFor db.tables r ≤ 1
    rw [hcount]
    split
    · next hr =>
        obtain ⟨row, hrow, hid, href⟩ := hstored
        obtain rfl : reference = r := Option.some.inj (ha.symm.trans hr)
        rw [← href, actionsFor_eq_zero hinv hrow (hunsent row hrow hid)]
    · exact hinv.actions_le r
  · -- a contact is recorded with an action
    intro r
    show ((w.history ++ [_]).map _).sum ≤ actionsFor db.tables r
    rw [hcount, List.map_append, List.sum_append]
    have hone : contactsIn r ([.updateOutbox read new, .insertAction a] ++ contact) ≤ _ :=
      contactsIn_le_one hcontact
    have hold := hinv.contacts_le r
    unfold contactsFor at hold
    simpa using Nat.add_le_add hold hone
  · -- sent rows stay sent, and this one has become so
    intro b hb r hr
    have hb : b ∈ w.db.tables.actions ++ [a] := hactions ▸ hb
    rcases List.mem_append.mp hb with hb | hb
    · obtain ⟨row, hrow, hrowref, hsent⟩ := hinv.sent b hb r hr
      obtain ⟨row', hrow', -, href', hsent'⟩ := hkeeps row hrow
      exact ⟨row', hrow', href'.trans hrowref, hsent' hsent⟩
    · obtain rfl := List.mem_singleton.mp hb
      obtain ⟨row, hrow, hid, href⟩ := hstored
      have hmem : read.store new row ∈ (w.db.tables.apply (.updateOutbox read new)).outbox :=
        updateWhere_mem hid hrow
      refine ⟨read.store new row, houtbox ▸ hmem, ?_, ?_⟩
      · exact href.trans (Option.some.inj (ha.symm.trans hr))
      · show dirty read.status new.status row.status = .sent
        rw [dirty, if_neg hdirty, hnew]

/-! ## The workers -/

/-- A program that records nothing, then the rest: a fact that outlives the others' steps holds at
the end of the first part. -/
theorem wp_recordless_bind {α β : Type} {p : Act α} {f : α → Act β} {R : Except PyError α → Prop}
    {Q : Except PyError β → World → Prop} {I : World → Prop} (h : p.All Cmd.Recordless R)
    (hI : ∀ {u v}, Follows u v → I u → I v) {w : World} (hw : I w)
    (hok : ∀ a w', R (.ok a) → I w' → (f a).wp recordContract Q w')
    (herror : ∀ e w', R (.error e) → I w' → Q (.error e) w') :
    (p >>= f).wp recordContract Q w :=
  h.wp_bind hI (fun _ _ hc hv hcond => ⟨follows_step hc hcond, hI (follows_step hc hcond) hv⟩) hw
    hok herror

/-- A program that records nothing keeps the contract. -/
theorem wp_recordless {α : Type} {p : Act α} {R : Except PyError α → Prop}
    (h : p.All Cmd.Recordless R) {w : World} : p.wp recordContract (fun r _ => R r) w :=
  Prog.wp_mono _ (fun _ _ hr => hr.1) (h.wp (I := fun _ => True) (fun _ _ => trivial)
    (fun _ _ hc _ hcond => ⟨follows_step hc hcond, trivial⟩) trivial)

theorem Stored.follows {id reference : String} {w w' : World} (h : Follows w w')
    (hs : Stored id reference w.db.tables) : Stored id reference w'.db.tables :=
  hs.keeps h.2

theorem stored_of_outboxByReference {t : Tables} {reference : String} {row : OutboxRow}
    (h : t.outboxByReference reference = some row) : Stored row.id reference t :=
  ⟨row, List.mem_of_find?_eq_some h, rfl, by simpa using List.find?_some h⟩

theorem scheduleRetry_recordless (ex : OutboxExecutor) (outboxId : String) (exc : PyError) :
    (ex.scheduleRetry outboxId exc).All Cmd.Recordless fun _ => True := by
  unfold OutboxExecutor.scheduleRetry OutboxExecutor.dlqRow
  simp only [Prog.all_bind, Act.all_select]
  refine ⟨trivial, fun found => ?_⟩
  cases found with
  | none => trivial
  | some row =>
    simp only
    split <;> simp [Cmd.Recordless, RecordlessTxn, Write.Recordless, Write.Aside]

theorem deadLetter_recordless (outboxId : String) (exc : PyError) (message : String) :
    (OutboxExecutor.deadLetter outboxId exc message).All Cmd.Recordless fun _ => True := by
  unfold OutboxExecutor.deadLetter OutboxExecutor.dlqRow
  simp only [Prog.all_bind, Act.all_select]
  refine ⟨trivial, fun found => ?_⟩
  cases found with
  | none => trivial
  | some row => simp [Cmd.Recordless, RecordlessTxn, Write.Recordless, Write.Aside]

theorem markDead_recordless (outboxId reason : String) :
    (OutboxDrainer.markDead outboxId reason).All Cmd.Recordless fun _ => True := by
  unfold OutboxDrainer.markDead
  simp only [Prog.all_bind, Act.all_select]
  refine ⟨trivial, fun found => ?_⟩
  cases found with
  | none => trivial
  | some row => simp [Cmd.Recordless, RecordlessTxn, Write.Recordless]

theorem replay_recordless (rt : Runtime) (principal : Principal) (deadLetterId : String) :
    (Dlq.replay rt principal deadLetterId).All Cmd.Recordless fun _ => True := by
  unfold Dlq.replay
  simp only [Prog.all_bind, Act.all_select]
  refine ⟨trivial, fun dead => ?_⟩
  cases dead with
  | none => trivial
  | some dead =>
    simp only
    split
    · trivial
    · simp only [Prog.all_bind, Act.all_select]
      refine ⟨trivial, fun entry => ?_⟩
      cases entry with
      | none => trivial
      | some entry =>
        simp only [Prog.all_bind, Act.all_nowUtc]
        refine ⟨trivial, fun now => ?_⟩
        refine (AuditChain.all_append rt _ _).mono (fun c hc => ?_) fun r hr => ?_
        · cases c <;> first | exact hc.elim | trivial
        · cases r with
          | error exc => trivial
          | ok appended =>
            obtain ⟨block, session⟩ := appended
            simp only [Session.commit, Act.all_commit]
            refine ⟨?_, fun r => ?_⟩
            · rcases hr.2 with h | h <;> rw [h] <;>
                simp [Session.pending, Cmd.Recordless, RecordlessTxn, Write.Recordless, Write.Aside]
            · cases r with
              | error exc => trivial
              | ok _ => simp only; split <;> trivial

theorem intentRow_recordless (s : RecoveryState) (applied : AppliedAction) :
    (OutboxExecutor.intentRow s applied).All Cmd.Recordless fun r =>
      ∀ row, r = .ok row → row.referenceId = applied.referenceId := by
  unfold OutboxExecutor.intentRow
  simp only [Prog.all_bind, Act.all_freshId, Act.all_nowUtc]
  refine ⟨trivial, fun hex => ⟨trivial, fun now => ⟨trivial, fun now' => ?_⟩⟩⟩
  rintro row ⟨⟩
  rfl

theorem callProvider_recordless (s : RecoveryState) (applied : AppliedAction) :
    (OutboxExecutor.callProvider s applied).All Cmd.Recordless fun _ => True := by
  unfold OutboxExecutor.callProvider Act.createPaymentLink Act.getPaymentLinkByReference
  simp only [Prog.all_bind, Act.all_nowUtc, Act.all_liftExcept]
  refine ⟨trivial, fun now => ?_⟩
  split
  · simp only [Prog.all_attempt, Act.all_call]
    refine ⟨trivial, fun r => ?_⟩
    rcases r with exc | link
    · cases exc with
      | duplicateReference reference =>
        simp only [Prog.all_bind, Act.all_call]
        refine ⟨trivial, fun r => ?_⟩
        rcases r with exc | _ | existing <;> trivial
      | _ => trivial
    · trivial
  · trivial

theorem contactWrites_recordless (s : RecoveryState) (applied : AppliedAction) (now : DateTime) :
    (OutboxExecutor.contactWrites s applied now).All Cmd.Recordless fun r =>
      ∀ contact, r = .ok contact → contact = [] ∨ ∃ c, contact = [.insertContact c] := by
  unfold OutboxExecutor.contactWrites
  split
  · rintro contact ⟨⟩
    exact .inl rfl
  · simp only [Prog.all_bind, Act.all_freshId]
    refine ⟨trivial, fun hex => ?_⟩
    rintro contact ⟨⟩
    exact .inr ⟨_, rfl⟩

/-! ## The executor -/

/-- Phase one returns the id of a row under the action's reference. -/
theorem wp_phaseOne (s : RecoveryState) (applied : AppliedAction) (w : World) :
    (OutboxExecutor.phaseOne s applied).wp recordContract (fun r w' =>
      ∀ id, r = .ok id → Stored id applied.referenceId w'.db.tables) w := by
  unfold OutboxExecutor.phaseOne
  rw [Prog.wp_bind]
  refine Act.wp_select.mpr fun w₁ _ _ => ⟨Follows.of_eq rfl rfl, ?_⟩
  cases hfound : w₁.db.tables.outboxByReference applied.referenceId with
  -- the reference has its row already
  | some existing =>
    rintro id ⟨⟩
    exact stored_of_outboxByReference hfound
  | none =>
    refine wp_recordless_bind (I := fun _ => True) (intentRow_recordless s applied)
      (fun _ _ => trivial) trivial (fun row w₂ hrow _ => ?_) ?_
    · rw [Prog.wp_bind, Prog.wp_attempt]
      refine Act.wp_commit.mpr fun w₃ _ hcond => ?_
      cases hcommit : w₃.db.commit [.insertOutbox row] with
      -- the row is inserted, and is the one answered for
      | some db =>
        refine ⟨follows_recordless ⟨trivial, by simp⟩ hcond hcommit, ?_⟩
        rintro id ⟨⟩
        refine ⟨row, ?_, rfl, hrow row rfl⟩
        rw [World.committed, Database.commit_eq_some.mp hcommit]
        exact List.mem_append_right _ (List.mem_singleton.mpr rfl)
      | none =>
        refine ⟨Follows.of_eq rfl rfl, ?_⟩
        simp only
        rw [Prog.wp_bind]
        refine Act.wp_select.mpr fun w₄ _ _ => ⟨Follows.of_eq rfl rfl, ?_⟩
        -- another execution inserted it first: its row is read back
        cases hwon : w₄.db.tables.outboxByReference applied.referenceId with
        | none => rintro id ⟨⟩
        | some won =>
          rintro id ⟨⟩
          exact stored_of_outboxByReference hwon
    · rintro e w₂ - - id ⟨⟩

/-- Phase two keeps the contract: the row it reads is under the action's reference. -/
theorem wp_phaseTwo (s : RecoveryState) (applied : AppliedAction) (outboxId : String)
    (result : PaymentLinkResult) {w : World}
    (hstored : Stored outboxId applied.referenceId w.db.tables) :
    (OutboxExecutor.phaseTwo s applied outboxId result).wp recordContract (fun _ _ => True) w := by
  unfold OutboxExecutor.phaseTwo
  refine wp_recordless_bind (p := Act.nowUtc) (R := fun _ => True) ⟨trivial, fun _ => trivial⟩
    Stored.follows hstored (fun now w₁ _ hstored => ?_) (fun _ _ _ _ => trivial)
  rw [Prog.wp_bind]
  refine Act.wp_select.mpr fun w₂ hrely _ => ⟨Follows.of_eq rfl rfl, ?_⟩
  -- whatever the others did since, the row is there with its reference
  replace hstored := hstored.follows hrely
  cases hfound : w₂.db.tables.outboxById outboxId with
  | none => trivial
  | some row =>
    simp only
    split
    · trivial
    · next hunsent =>
        -- the row read is not sent, which is what the commit relies on
        have hid : row.id = outboxId := by simpa using List.find?_some hfound
        refine wp_recordless_bind (p := Act.freshId "act") (R := fun _ => True)
          ⟨trivial, fun _ => trivial⟩ Stored.follows hstored (fun actionId w₃ _ hstored => ?_)
          (fun _ _ _ _ => trivial)
        refine wp_recordless_bind (contactWrites_recordless s applied now) Stored.follows hstored
          (fun contact w₄ hcontact hstored => ?_) (fun _ _ _ _ => trivial)
        refine Act.wp_commit.mpr fun w₅ hrely hcond => ?_
        replace hstored := hstored.follows hrely
        cases hcommit : w₅.db.commit _ with
        | none => exact ⟨Follows.of_eq rfl rfl, trivial⟩
        | some db =>
          refine ⟨?_, trivial⟩
          exact follows_record (hid ▸ hstored) hunsent rfl rfl (hcontact contact rfl) hcond hcommit

theorem trace_recordless (s : RecoveryState) (status : CaseStatus) :
    (OutboxExecutor.trace s status).All Cmd.Recordless fun _ => True :=
  ⟨trivial, fun _ => trivial⟩

/-- An executor keeps the contract, whatever state it is handed. -/
theorem wp_execute (rt : Runtime) (ex : OutboxExecutor) (s : RecoveryState) (w : World) :
    (ex.execute rt s).wp recordContract (fun _ _ => True) w := by
  unfold OutboxExecutor.execute
  split
  · next applied token _ _ =>
      refine wp_recordless_bind (I := fun _ => True) (R := fun _ => True)
        (Act.all_liftExcept.mpr trivial) (fun _ _ => trivial) trivial (fun _ w₁ _ _ => ?_)
        (fun _ _ _ _ => trivial)
      rw [Prog.wp_bind]
      -- the row phase one leaves is the one phase two finds
      refine Prog.wp_mono _ (fun r w₂ hstored => ?_) (wp_phaseOne s applied w₁)
      cases r with
      | error exc => trivial
      | ok outboxId =>
        refine wp_recordless_bind (R := fun _ => True)
          ((Prog.all_attempt _).mpr (callProvider_recordless s applied))
          Stored.follows (hstored outboxId rfl) (fun called w₃ _ hstored => ?_)
          (fun _ _ _ _ => trivial)
        -- a retry or a dead letter records nothing; a link goes on to phase two
        rcases called with exc | ⟨result, existing⟩
        · cases exc with
          | providerRetryable m =>
            exact wp_recordless_bind (I := fun _ => True) (scheduleRetry_recordless _ _ _)
              (fun _ _ => trivial) trivial
              (fun _ _ _ _ => wp_recordless (trace_recordless _ _)) (fun _ _ _ _ => trivial)
          | providerPermanent m =>
            exact wp_recordless_bind (I := fun _ => True) (deadLetter_recordless _ _ _)
              (fun _ _ => trivial) trivial
              (fun _ _ _ _ => wp_recordless (trace_recordless _ _)) (fun _ _ _ _ => trivial)
          | _ => trivial
        · simp only
          rw [Prog.wp_bind]
          refine Prog.wp_mono _ (fun r w₄ _ => ?_) (wp_phaseTwo s applied outboxId result hstored)
          cases r with
          | error exc => trivial
          | ok _ => exact wp_recordless (trace_recordless _ _)
  · exact wp_recordless (trace_recordless _ _)

/-! ## The drainer -/

theorem rebuildState_recordless (rt : Runtime) (row : OutboxRow) :
    (OutboxDrainer.rebuildState rt row).All Cmd.Recordless fun _ => True := by
  unfold OutboxDrainer.rebuildState
  simp only [Prog.all_bind, Act.all_select]
  refine ⟨trivial, fun found => ?_⟩
  cases found with
  | none => trivial
  | some case =>
    simp only
    split
    · trivial
    · simp only [Prog.all_bind, Act.all_nowUtc, Act.all_liftExcept]
      refine ⟨trivial, fun now => ?_⟩
      split <;> trivial

theorem rows_recordless (d : OutboxDrainer) (includeStale : Bool) :
    (d.rows includeStale).All Cmd.Recordless fun _ => True := by
  unfold OutboxDrainer.rows OutboxDrainer.due OutboxDrainer.stale
  cases includeStale <;> simp [Cmd.Recordless]

theorem wp_drainRow (rt : Runtime) (d : OutboxDrainer) (report : DrainReport) (row : OutboxRow)
    (w : World) : (d.drainRow rt report row).wp recordContract (fun _ _ => True) w := by
  unfold OutboxDrainer.drainRow
  refine wp_recordless_bind (I := fun _ => True) (rebuildState_recordless rt row)
    (fun _ _ => trivial) trivial (fun state w₁ _ _ => ?_) (fun _ _ _ _ => trivial)
  cases state with
  | none =>
    exact wp_recordless_bind (I := fun _ => True) (markDead_recordless _ _)
      (fun _ _ => trivial) trivial (fun _ _ _ _ => trivial) (fun _ _ _ _ => trivial)
  | some state =>
    simp only
    rw [Prog.wp_bind]
    refine Prog.wp_mono _ (fun r w₂ _ => ?_) (wp_execute rt d.executor state w₁)
    cases r <;> trivial

/-- A pass over any rows keeps the contract. -/
theorem wp_drainRows (rt : Runtime) (d : OutboxDrainer) (rows : List OutboxRow) :
    ∀ (report : DrainReport) (w : World),
      (d.drainRows rt report rows).wp recordContract (fun _ _ => True) w := by
  induction rows with
  | nil => exact fun report w => trivial
  | cons row rest ih =>
    intro report w
    unfold OutboxDrainer.drainRows
    rw [Prog.wp_bind]
    refine Prog.wp_mono _ (fun r w₁ _ => ?_) (wp_drainRow rt d report row w)
    cases r with
    | error exc => trivial
    | ok report => exact ih report w₁

theorem wp_drainOnce (rt : Runtime) (d : OutboxDrainer) (includeStale : Bool) (w : World) :
    (d.drainOnce rt includeStale).wp recordContract (fun _ _ => True) w := by
  unfold OutboxDrainer.drainOnce
  exact wp_recordless_bind (I := fun _ => True) (rows_recordless d includeStale)
    (fun _ _ => trivial) trivial (fun rows w₁ _ _ => wp_drainRows rt d rows {} w₁)
    (fun _ _ _ _ => trivial)

/-! ## Every interleaving -/

inductive OutboxWorker (rt : Runtime) : Act Unit → Prop
  | execute (ex : OutboxExecutor) (s : RecoveryState) :
      OutboxWorker rt (do let _ ← ex.execute rt s; return ())
  | drain (d : OutboxDrainer) (includeStale : Bool) :
      OutboxWorker rt (do let _ ← d.drainOnce rt includeStale; return ())
  | replay (principal : Principal) (deadLetterId : String) :
      OutboxWorker rt (do let _ ← Dlq.replay rt principal deadLetterId; return ())

/-- Every worker keeps the contract, started anywhere. -/
theorem OutboxWorker.wp {rt : Runtime} {p : Act Unit} (h : OutboxWorker rt p) (w : World) :
    p.wp recordContract (fun _ _ => True) w := by
  have hlift : ∀ {α : Type} {q : Act α}, q.wp recordContract (fun _ _ => True) w →
      (do let _ ← q; return () : Act Unit).wp recordContract (fun _ _ => True) w := by
    intro α q hq
    rw [Prog.wp_bind]
    refine Prog.wp_mono _ (fun r _ _ => ?_) hq
    cases r <;> trivial
  cases h with
  | execute ex s => exact hlift (wp_execute rt ex s w)
  | drain d includeStale => exact hlift (wp_drainOnce rt d includeStale w)
  | replay principal deadLetterId =>
    exact hlift (wp_recordless (replay_recordless rt principal deadLetterId))

/-- **A reference is recorded once and `SENT` is final**, between any two points of a run. -/
def RecordsOnce (w w' : World) : Prop :=
  (∀ reference, actionsFor w'.db.tables reference ≤ 1 ∧ contactsFor w' reference ≤ 1) ∧
    ∀ row ∈ w.db.tables.outbox, row.status = .sent →
      ∃ row' ∈ w'.db.tables.outbox, row'.id = row.id ∧ row'.status = .sent

/-- **In every run whose commits meet the condition, between any two of its points.** -/
theorem workers_recordsOnce (rt : Runtime) {w : World} (hinv : RecordedOnce w)
    {moves rest : List (Move Cmd PyError)}
    (hstart : ∀ m ∈ moves ++ rest, Pool.StartsOnly (OutboxWorker rt) m)
    (hmeets : ({ state := w } : Pool Cmd PyError World).Meets recordContract (moves ++ rest)) :
    RecordsOnce (runWorkers w moves).state (runWorkers w (moves ++ rest)).state := by
  obtain ⟨hmeets, hmeets'⟩ := Pool.meets_append.mp hmeets
  have hspawn : ∀ p, OutboxWorker rt p → ∀ v, p.wp recordContract (fun _ _ => True) v :=
    fun p hp v => hp.wp v
  obtain ⟨hsafe, hfollows⟩ := Pool.safe_run recordContract_closed
    (P := { state := w }) (fun p hp => by simp at hp) (fun p hp v _ => hspawn p hp v)
    (fun m hm => hstart m (List.mem_append_left _ hm)) hmeets
  obtain ⟨-, hfollows'⟩ := Pool.safe_run recordContract_closed hsafe
    (fun p hp v _ => hspawn p hp v) (fun m hm => hstart m (List.mem_append_right _ hm)) hmeets'
  have hinv' := hfollows'.1 (hfollows.1 hinv)
  rw [runWorkers, runWorkers, Pool.run_append]
  refine ⟨fun reference => ⟨hinv'.actions_le reference, ?_⟩, fun row hrow hsent => ?_⟩
  · exact (hinv'.contacts_le reference).trans (hinv'.actions_le reference)
  · obtain ⟨row', hrow', hid, -, hsent'⟩ := hfollows'.2 row hrow
    exact ⟨row', hrow', hid, hsent' hsent⟩

def firstAttempt : Act Unit := do
  let _ ← OutboxExecutor.execute plainRuntime {} (authorisedState (linkAction 1))
  return ()

/-- Two workers on one attempt, the second after the first. -/
def inTurn : List (Move Cmd PyError) :=
  [.spawn firstAttempt, .spawn firstAttempt] ++ List.replicate 16 (.run 0) ++
    List.replicate 16 (.run 1)

/-- Two workers on one attempt: the first stops between phase two's read and its commit. -/
def racing : List (Move Cmd PyError) :=
  [.spawn firstAttempt, .spawn firstAttempt] ++ List.replicate 10 (.run 0) ++
    List.replicate 16 (.run 1) ++ List.replicate 16 (.run 0)

theorem oneCase_recordedOnce : RecordedOnce (worldOf oneCase) where
  actions_le _ := Nat.zero_le _
  contacts_le _ := Nat.le_refl _
  sent a ha := by simp [worldOf, oneCase] at ha

theorem startsOnly_firstAttempt {m : Move Cmd PyError}
    (h : m = .spawn firstAttempt ∨ ∃ i, m = .run i) :
    Pool.StartsOnly (OutboxWorker plainRuntime) m := by
  rcases h with rfl | ⟨i, rfl⟩
  · exact .execute {} (authorisedState (linkAction 1))
  · trivial

theorem workers_recordsOnce_inTurn :
    RecordsOnce (runWorkers (worldOf oneCase) inTurn).state
      (runWorkers (worldOf oneCase) (inTurn ++ [])).state := by
  refine workers_recordsOnce plainRuntime oneCase_recordedOnce (fun m hm => ?_)
    (by decide +kernel)
  refine startsOnly_firstAttempt ?_
  simp only [inTurn, List.append_nil, List.mem_append, List.mem_cons, List.mem_replicate] at hm
  grind

/-- Both workers read the row before either records the outcome: two actions, two contacts. -/
theorem not_workers_recordsOnce :
    ¬∀ (rt : Runtime) (w : World) (moves rest : List (Move Cmd PyError)), RecordedOnce w →
      (∀ m ∈ moves ++ rest, Pool.StartsOnly (OutboxWorker rt) m) →
        RecordsOnce (runWorkers w moves).state (runWorkers w (moves ++ rest)).state := by
  intro h
  have hrun := h plainRuntime (worldOf oneCase) [] racing oneCase_recordedOnce (fun m hm => by
    refine startsOnly_firstAttempt ?_
    simp only [racing, List.nil_append, List.mem_append, List.mem_cons, List.mem_replicate] at hm
    grind)
  have htwo : actionsFor (runWorkers (worldOf oneCase) ([] ++ racing)).state.db.tables
      (referenceId "RC-0001" 1) = 2 := by decide +kernel
  have hone := (hrun.1 (referenceId "RC-0001" 1)).1
  omega

end AegisMerchant
