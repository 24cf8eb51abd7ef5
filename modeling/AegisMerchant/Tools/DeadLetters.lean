import AegisMerchant.Tools.RetryKept
import AegisMerchant.Workers.DrainLaws

/-!
# Dead rows and their letters

A row that is given up gets a dead letter, and waits for an operator. Every transaction of the
executor, on its own, keeps the two together; an execution does as long as the row it finds under its
reference is not dead.

`commit_giveUp` is the transaction that buries a row, and `leavesDead_execute` what every other
execution leaves alone.
-/

namespace AegisMerchant

open Time Rows

/-! ## Rows and letters -/

def Tables.unreplayed (t : Tables) : List DeadLetterRow :=
  t.deadLetters.filter fun d => d.status ≠ .replayed

/-- A row has at most one open letter. -/
def Tables.OneOpen (t : Tables) : Prop :=
  ((t.deadLetters.filter fun d => d.status = .opened).map (·.outboxId)).Nodup

instance (t : Tables) : Decidable t.OneOpen := inferInstanceAs (Decidable (List.Nodup _))

def Tables.Alive (t : Tables) (reference : String) : Prop :=
  ∀ r ∈ t.outbox, r.referenceId = reference → r.status ≠ .dead

instance (t : Tables) (reference : String) : Decidable (t.Alive reference) :=
  inferInstanceAs (Decidable (∀ r ∈ t.outbox, _))

/-- Dead rows are still dead, but those of some ids. -/
def Tables.StayDead (revived : String → Prop) (t t' : Tables) : Prop :=
  ∀ r ∈ t.outbox, r.status = .dead → ¬revived r.id → ∃ r' ∈ t'.outbox, r.SameIntent r' ∧
    r'.status = .dead

/-- **What holds between two operations**: intents match, and a letter that was not replayed is the
only one of a dead row. -/
structure Tables.Kept (t : Tables) : Prop where
  matched : t.AllMatch
  dead : ∀ d ∈ t.unreplayed, ∃ r ∈ t.outbox, r.id = d.outboxId ∧ r.status = .dead
  once : (t.unreplayed.map (·.outboxId)).Nodup

namespace Tables

variable {t t' u : Tables} {revived : String → Prop} {row : OutboxRow}

theorem StayDead.refl (t : Tables) : t.StayDead revived t :=
  fun r hr hdead _ => ⟨r, hr, ⟨rfl, rfl, rfl, rfl⟩, hdead⟩

theorem StayDead.of_outbox (h : t'.outbox = t.outbox) : t.StayDead revived t' := by
  intro r hr hdead _
  exact ⟨r, h ▸ hr, ⟨rfl, rfl, rfl, rfl⟩, hdead⟩

theorem StayDead.trans (h : t.StayDead revived t') (h' : t'.StayDead revived u) :
    t.StayDead revived u := by
  intro r hr hdead hnot
  obtain ⟨r', hr', ⟨hid, href, hcase, hpayload⟩, hdead'⟩ := h r hr hdead hnot
  obtain ⟨r'', hr'', ⟨hid', href', hcase', hpayload'⟩, hdead''⟩ :=
    h' r' hr' hdead' (by rwa [hid])
  exact ⟨r'', hr'', ⟨hid'.trans hid, href'.trans href, hcase'.trans hcase,
    hpayload'.trans hpayload⟩, hdead''⟩

/-- An open letter was not replayed. -/
theorem Kept.oneOpen (h : t.Kept) : t.OneOpen := by
  have hsub : (t.deadLetters.filter fun d => d.status = .opened).Sublist t.unreplayed := by
    apply List.monotone_filter_right
    intro d hd
    have hopened : d.status = .opened := by simpa using hd
    simp [hopened]
  exact h.once.sublist (hsub.map _)

/-- Only the outbox and the letters matter. -/
theorem Kept.congr (h : t.Kept) (houtbox : t'.outbox = t.outbox)
    (hletters : t'.deadLetters = t.deadLetters) : t'.Kept := by
  have hunreplayed : t'.unreplayed = t.unreplayed := by rw [unreplayed, hletters, unreplayed]
  refine ⟨fun r hr => h.matched r (houtbox ▸ hr), ?_, by rw [hunreplayed]; exact h.once⟩
  rw [hunreplayed, houtbox]
  exact h.dead

end Tables

/-! ## Writes that bury nothing -/

/-- A statement that brings nothing back: new intents match, and a row is changed to be dead. -/
def Write.Buries : Write → Prop
  | .insertOutbox row => row.Matches
  | .updateOutbox _ new => new.status = .dead
  | .insertDeadLetter _ | .updateDeadLetter _ _ => False
  | _ => True

namespace Tables

variable {t t' u : Tables} {revived : String → Prop} {row : OutboxRow}

theorem store_dead {read new : OutboxRow} (hnew : new.status = .dead)
    (h : row.status = .dead) : (read.store new row).status = .dead := by
  show dirty read.status new.status row.status = .dead
  unfold dirty
  split
  · exact h
  · exact hnew

theorem apply_stayDead {write : Write} (h : write.Buries) :
    t.StayDead revived (t.apply write) := by
  cases write with
  | insertOutbox new =>
    exact fun r hr hdead _ => ⟨r, List.mem_append_left _ hr, ⟨rfl, rfl, rfl, rfl⟩, hdead⟩
  | updateOutbox read new =>
    intro r hr hdead _
    refine ⟨_, updateWhere_of_mem hr, ?_⟩
    split
    · exact ⟨⟨rfl, rfl, rfl, rfl⟩, store_dead h hdead⟩
    · exact ⟨⟨rfl, rfl, rfl, rfl⟩, hdead⟩
  | insertDeadLetter | updateDeadLetter => exact h.elim
  | _ => exact .of_outbox rfl

/-- An update leaves the payload and the reference. -/
theorem AllMatch.updateOutbox (h : t.AllMatch) {read new : OutboxRow} :
    (t.apply (.updateOutbox read new)).AllMatch := by
  have hbooked : Write.Booked ∅ (.updateOutbox read new) := trivial
  exact apply_allMatch hbooked h

/-- An update leaves the rows of other ids alone. -/
theorem mem_updateOutbox {read new r : OutboxRow} (hr : r ∈ t.outbox) (hid : r.id ≠ read.id) :
    r ∈ (t.apply (.updateOutbox read new)).outbox :=
  mem_updateWhere.mpr ⟨r, hr, (if_neg hid).symm⟩

theorem Kept.apply_buries {write : Write} (ht : t.Kept) (h : write.Buries) :
    (t.apply write).Kept := by
  cases write with
  | insertOutbox new =>
    refine ⟨?_, fun d hd => ?_, ht.once⟩
    · have hbooked : Write.Booked ∅ (.insertOutbox new) := h
      exact apply_allMatch hbooked ht.matched
    · obtain ⟨r, hr, hid, hdead⟩ := ht.dead d hd
      exact ⟨r, List.mem_append_left _ hr, hid, hdead⟩
  | updateOutbox read new =>
    refine ⟨?_, fun d hd => ?_, ht.once⟩
    · exact ht.matched.updateOutbox
    · obtain ⟨r, hr, hid, hdead⟩ := ht.dead d hd
      -- a row that is dead stays so, and its dead letter with it
      have hstay : t.StayDead (fun _ => False) (t.apply (.updateOutbox read new)) :=
        apply_stayDead h
      obtain ⟨r', hr', hsame, hdead'⟩ := hstay r hr hdead id
      exact ⟨r', hr', hsame.1.trans hid, hdead'⟩
  | insertDeadLetter | updateDeadLetter => exact h.elim
  | _ => exact ht.congr rfl rfl

/-- Rows under other references than a stored row's are left alone when that one is changed. -/
theorem mem_updateOutbox_of_ne (hv : t.Valid) {new r : OutboxRow} (hrow : row ∈ t.outbox)
    (hr : r ∈ t.outbox) (hne : r.referenceId ≠ row.referenceId) :
    r ∈ (t.apply (.updateOutbox row new)).outbox := by
  apply mem_updateOutbox hr
  intro hid
  exact hne (congrArg _ (eq_of_key_eq hv.outbox_id hr hrow hid))

/-! ## Giving up -/

/-- **A row that is not dead has no letter waiting, and may become anything.** -/
theorem Kept.update_alive (ht : t.Kept) (hv : t.Valid) (hrow : row ∈ t.outbox)
    (halive : row.status ≠ .dead) (new : OutboxRow) :
    (t.apply (.updateOutbox row new)).Kept ∧
      t.StayDead revived (t.apply (.updateOutbox row new)) ∧
      ∀ d ∈ t.unreplayed, d.outboxId ≠ row.id := by
  -- ids are unique, so no dead row has the id of the row written
  have hother : ∀ r ∈ t.outbox, r.status = .dead → r.id ≠ row.id := by
    rintro r hr hdead hid
    obtain rfl := eq_of_key_eq hv.outbox_id hr hrow hid
    exact halive hdead
  have hstay : t.StayDead revived (t.apply (.updateOutbox row new)) := by
    intro r hr hdead _
    exact ⟨r, mem_updateOutbox hr (hother r hr hdead), ⟨rfl, rfl, rfl, rfl⟩, hdead⟩
  refine ⟨⟨?_, fun d hd => ?_, ht.once⟩, hstay, fun d hd hid => ?_⟩
  · exact ht.matched.updateOutbox
  · obtain ⟨r, hr, hid, hdead⟩ := ht.dead d hd
    exact ⟨r, mem_updateOutbox hr (hother r hr hdead), hid, hdead⟩
  · obtain ⟨r, hr, hrid, hdead⟩ := ht.dead d hd
    exact hother r hr hdead (hrid.trans hid)

/-- The first letter of a dead row. -/
theorem Kept.insertDeadLetter (ht : t.Kept) {d : DeadLetterRow}
    (hnone : ∀ d' ∈ t.unreplayed, d'.outboxId ≠ d.outboxId)
    (hdead : ∃ r ∈ t.outbox, r.id = d.outboxId ∧ r.status = .dead) :
    (t.apply (.insertDeadLetter d)).Kept := by
  have hunreplayed : (t.apply (.insertDeadLetter d)).unreplayed =
      t.unreplayed ++ [d].filter fun d => d.status ≠ .replayed := List.filter_append ..
  refine ⟨ht.matched, ?_, ?_⟩
  · intro d' hd'
    rw [hunreplayed, List.mem_append] at hd'
    rcases hd' with hd' | hd'
    · exact ht.dead d' hd'
    · obtain rfl := List.mem_singleton.mp (List.mem_of_mem_filter hd')
      exact hdead
  · rw [hunreplayed, List.map_append, List.nodup_append]
    refine ⟨ht.once, (List.nodup_singleton d.outboxId).sublist (List.filter_sublist.map _), ?_⟩
    -- no entry still open names the row, so the new one is its only entry
    intro i hi j hj hij
    obtain ⟨d', hd', rfl⟩ := List.mem_map.mp hi
    obtain ⟨d'', hd'', rfl⟩ := List.mem_map.mp hj
    obtain rfl := List.mem_singleton.mp (List.mem_of_mem_filter hd'')
    exact hnone d' hd' hij

end Tables

/-! ## The law of one operation -/

/-- **A dead row is left alone**: no link is asked for under its reference, it stays dead unless it
is one of those that may be revived, and no row has two open letters. -/
def Undisturbed (revived : String → Prop) {β : Type} (c : Cmd β) (w : World) : Prop :=
  w.db.tables.OneOpen ∧
    World.Creates (fun request v => v.db.tables.Alive request.referenceId) c w ∧
    w.db.tables.StayDead revived (World.handler.exec c w).2.db.tables

/-- A program leaves dead rows alone, and the rows under some references altogether. -/
structure LeavesDead (revived others : String → Prop) {α : Type} (p : Act α) (w : World) :
    Prop where
  along : p.Along World.handler (Undisturbed revived) w
  kept : (p.run World.handler w).2.db.tables.Kept
  others : ∀ r ∈ w.db.tables.outbox, others r.referenceId →
    r ∈ (p.run World.handler w).2.db.tables.outbox

namespace LeavesDead

variable {revived others : String → Prop} {α β : Type} {p : Act α} {f : α → Act β} {w : World}

theorem pure (hw : w.db.tables.Kept) (a : α) : LeavesDead revived others (return a : Act α) w :=
  ⟨trivial, hw, fun _ hr _ => hr⟩

theorem throw (hw : w.db.tables.Kept) (e : PyError) :
    LeavesDead revived others (throw e : Act α) w :=
  ⟨trivial, hw, fun _ hr _ => hr⟩

theorem mono {others' : String → Prop} (hp : LeavesDead revived others p w)
    (h : ∀ reference, others' reference → others reference) : LeavesDead revived others' p w :=
  ⟨hp.along, hp.kept, fun r hr hother => hp.others r hr (h _ hother)⟩

theorem bind (hp : LeavesDead revived others p w)
    (hf : ∀ a v, p.run World.handler w = (.ok a, v) → v.db.tables.Kept →
      LeavesDead revived others (f a) v) :
    LeavesDead revived others (p >>= f) w := by
  obtain ⟨halong, hkept, hothers⟩ := hp
  rcases hrun : p.run World.handler w with ⟨e | a, v⟩
  · rw [hrun] at hkept hothers
    refine ⟨?_, ?_, ?_⟩
    · rw [Prog.along_bind, hrun]
      exact ⟨halong, trivial⟩
    · rw [Prog.run_bind, hrun]
      exact hkept
    · rw [Prog.run_bind, hrun]
      exact hothers
  · rw [hrun] at hkept hothers
    have hrest := hf a v hrun hkept
    refine ⟨?_, ?_, fun r hr hother => ?_⟩
    · rw [Prog.along_bind, hrun]
      exact ⟨halong, hrest.along⟩
    · rw [Prog.run_bind, hrun]
      exact hrest.kept
    · rw [Prog.run_bind, hrun]
      exact hrest.others r (hothers r hr hother) hother

theorem attempt (hp : LeavesDead revived others p w) :
    LeavesDead revived others p.attempt w := by
  refine ⟨(Prog.along_attempt World.handler p).mpr hp.along, ?_, ?_⟩
  · rw [Prog.run_attempt]
    exact hp.kept
  · rw [Prog.run_attempt]
    exact hp.others

/-! ## Programs that only read -/

/-- What commits nothing leaves the tables as they were. -/
theorem of_quiet {R : Except PyError α → Prop} (hp : p.All Cmd.Quiet R)
    (hcreates : p.Along World.handler
      (World.Creates fun request v => v.db.tables.Alive request.referenceId) w)
    (hw : w.db.tables.Kept) : LeavesDead revived others p w := by
  have hdb := World.run_quiet hp w
  -- the database is the same at every command of a program that writes nothing
  have hquiet : p.Along World.handler (fun c v => c.Quiet ∧ v.db = w.db) w :=
    (hp.along (φ := fun c _ => c.Quiet) (fun _ _ hc => hc) w).with_inv
      (I := fun v => v.db = w.db) (fun _ v hc hv => (World.exec_quiet hc v).1.trans hv) rfl
  refine ⟨(hcreates.and hquiet).mono fun c v ⟨hc, hquiet, hv⟩ => ⟨?_, hc, ?_⟩, ?_, ?_⟩
  · rw [hv]
    exact hw.oneOpen
  · rw [(World.exec_quiet hquiet v).1]
    exact .refl _
  · rw [hdb]
    exact hw
  · rw [hdb]
    exact fun r hr _ => hr

theorem of_reads {R : Except PyError α → Prop} (hp : p.All Cmd.Reads R)
    (hw : w.db.tables.Kept) : LeavesDead revived others p w :=
  of_quiet (hp.mono (fun _ hc => hc.quiet) fun _ h => h)
    (hp.along (fun _ v hc => World.creates_of_passive hc.passive v) w) hw

/-- Something read, then the rest. -/
theorem read_bind {R : Except PyError α → Prop} (hp : p.All Cmd.Reads R) (hw : w.db.tables.Kept)
    (hf : ∀ a v, p.run World.handler w = (.ok a, v) → R (.ok a) → v.db = w.db →
      LeavesDead revived others (f a) v) : LeavesDead revived others (p >>= f) w := by
  refine (of_reads hp hw).bind fun a v hrun _ => ?_
  have hdb := World.run_quiet (hp.mono (fun _ hc => hc.quiet) fun _ h => h) w
  have hanswer := hp.run (H := World.handler) w
  rw [hrun] at hdb hanswer
  exact hf a v hrun hanswer hdb

/-- A query, then the rest. -/
theorem select_bind {q : Tables → α} (hw : w.db.tables.Kept)
    (hf : LeavesDead revived others (f (q w.db.tables)) (w.after 1)) :
    LeavesDead revived others (Act.select q >>= f) w := by
  have hreads : (Act.select q).All Cmd.Reads fun _ => True := ⟨trivial, fun _ => trivial⟩
  refine (of_reads hreads hw).bind ?_
  rintro a v ⟨⟩ -
  exact hf

/-! ## Programs that commit -/

theorem commit {ws : List Write} (hw : w.db.tables.Kept)
    (h : ∀ db, w.db.commit ws = some db → db.tables.Kept ∧
      w.db.tables.StayDead revived db.tables ∧
      ∀ r ∈ w.db.tables.outbox, others r.referenceId → r ∈ db.tables.outbox) :
    LeavesDead revived others (Act.commit ws) w := by
  have hexec : (World.handler.exec (.commit ws) w).2.db = (w.db.commit ws).getD w.db := by
    simp only [World.handler, World.serve, World.advance_db]
    cases w.db.commit ws <;> rfl
  have hrun : ((Act.commit ws).run World.handler w).2.db = (w.db.commit ws).getD w.db := by
    rw [Act.run_commit]
    cases w.db.commit ws <;> rfl
  cases hcommit : w.db.commit ws with
  | none =>
    rw [hcommit] at hexec hrun
    refine ⟨Act.along_commit.mpr ⟨hw.oneOpen, trivial, ?_⟩, ?_, ?_⟩
    · rw [hexec]
      exact .refl _
    · rw [hrun]
      exact hw
    · rw [hrun]
      exact fun r hr _ => hr
  | some db =>
    rw [hcommit] at hexec hrun
    obtain ⟨hkept, hstay, hothers⟩ := h db hcommit
    refine ⟨Act.along_commit.mpr ⟨hw.oneOpen, trivial, ?_⟩, ?_, ?_⟩
    · rw [hexec]
      exact hstay
    · rw [hrun]
      exact hkept
    · rw [hrun]
      exact hothers

/-- A transaction that brings nothing back. -/
theorem commit_buries {ws : List Write} (hw : w.db.tables.Kept) (hws : ∀ write ∈ ws, write.Buries)
    (h : ∀ r ∈ w.db.tables.outbox, others r.referenceId →
      r ∈ (w.db.tables.applyAll ws).outbox) : LeavesDead revived others (Act.commit ws) w := by
  refine commit hw fun db hcommit => ?_
  rw [Database.commit_eq_some.mp hcommit]
  have hall : ∀ (ws : List Write) (t : Tables), (∀ write ∈ ws, write.Buries) → t.Kept →
      (t.applyAll ws).Kept ∧ t.StayDead revived (t.applyAll ws) := by
    -- on the writes of the transaction: each keeps the books and buries nothing
    intro ws
    induction ws with
    | nil => exact fun t _ ht => ⟨ht, .refl t⟩
    | cons write rest ih =>
      intro t hws ht
      rw [List.forall_mem_cons] at hws
      obtain ⟨hkept, hstay⟩ := ih (t.apply write) hws.2 (ht.apply_buries hws.1)
      exact ⟨hkept, (Tables.apply_stayDead hws.1).trans hstay⟩
  obtain ⟨hkept, hstay⟩ := hall ws _ hws hw
  exact ⟨hkept, hstay, h⟩

/-- A transaction that changes a row that is not dead, and no other row or letter. -/
theorem commit_alive {row new : OutboxRow} {extra : List Write} (hw : w.db.tables.Kept)
    (hrow : row ∈ w.db.tables.outbox) (halive : row.status ≠ .dead)
    (hextra : ∀ t : Tables, (t.applyAll extra).outbox = t.outbox ∧
      (t.applyAll extra).deadLetters = t.deadLetters)
    (hothers : ∀ reference, others reference → reference ≠ row.referenceId) :
    LeavesDead revived others (Act.commit (.updateOutbox row new :: extra)) w := by
  refine commit hw fun db hcommit => ?_
  rw [Database.commit_eq_some.mp hcommit, Tables.applyAll_cons]
  obtain ⟨houtbox, hletters⟩ := hextra (w.db.tables.apply (.updateOutbox row new))
  obtain ⟨hkept, hstay, -⟩ := hw.update_alive w.db.valid hrow halive new
  refine ⟨hkept.congr houtbox hletters, hstay.trans (.of_outbox houtbox), fun r hr hother => ?_⟩
  rw [houtbox]
  exact Tables.mem_updateOutbox_of_ne w.db.valid hrow hr (hothers _ hother)

/-- **The transaction that gives a row up**: it was not dead, so the letter is its only one. -/
theorem commit_giveUp {row new : OutboxRow} {d : DeadLetterRow} (hw : w.db.tables.Kept)
    (hrow : row ∈ w.db.tables.outbox) (halive : row.status ≠ .dead) (hnew : new.status = .dead)
    (hd : d.outboxId = row.id)
    (hothers : ∀ reference, others reference → reference ≠ row.referenceId) :
    LeavesDead revived others (Act.commit [.updateOutbox row new, .insertDeadLetter d]) w := by
  refine commit hw fun db hcommit => ?_
  rw [Database.commit_eq_some.mp hcommit]
  obtain ⟨hkept, hstay, hnone⟩ := hw.update_alive w.db.valid hrow halive new
  -- the row the dead letter names is the one just marked dead
  have hdead : ∃ r ∈ (w.db.tables.apply (.updateOutbox row new)).outbox, r.id = d.outboxId ∧
      r.status = .dead := by
    refine ⟨row.store new row, updateWhere_mem rfl hrow, hd.symm, ?_⟩
    exact (dirty_current _ _).trans hnew
  refine ⟨hkept.insertDeadLetter (fun d' hd' => hd ▸ hnone d' hd') hdead, ?_, fun r hr hother => ?_⟩
  · exact hstay.trans (.of_outbox rfl)
  · exact Tables.mem_updateOutbox_of_ne w.db.valid hrow hr (hothers _ hother)

end LeavesDead

/-! ## The executor -/

namespace OutboxExecutor

variable {rt : Runtime} {revived others : String → Prop} {s : RecoveryState}
  {applied : AppliedAction} {w : World}

/-- An execution that is authorised, for an action that can be charged. -/
def Calls (rt : Runtime) (s : RecoveryState) (applied : AppliedAction) : Prop :=
  s.policyApplied = some applied ∧
    (∃ token, s.policyToken = some token ∧ token.verify rt = .ok ()) ∧ Chargeable applied

/-- A new intent is not dead. -/
theorem alive_of_intended {v : World} (h : intended s applied w = some v)
    (halive : w.db.tables.Alive applied.referenceId) :
    v.db.tables.Alive applied.referenceId := by
  unfold intended at h
  split at h
  · cases h
    exact halive
  · obtain ⟨db, hdb, rfl⟩ := Option.map_eq_some_iff.mp h
    rw [World.committed_db, Database.commit_eq_some.mp hdb]
    intro r hr href
    -- a row that was there before, or the fresh one, which is pending
    rcases List.mem_append.mp hr with hr | hr
    · exact halive r hr href
    · obtain rfl := List.mem_singleton.mp hr
      show OutboxStatus.pending ≠ .dead
      decide

theorem leavesDead_phaseOne (hw : w.db.tables.Kept) :
    LeavesDead revived others (phaseOne s applied) w := by
  have hintent : (intentRow s applied).All Cmd.Reads fun _ => True := by
    simp [intentRow, Cmd.Reads]
  unfold phaseOne
  refine .select_bind hw ?_
  split
  · exact .pure (w := w.after 1) hw _
  · refine .read_bind hintent (w := w.after 1) hw fun row v hrun _ hdb => ?_
    -- the row is written with the payload of the very action it names
    have hmatches : row.Matches := by
      rw [run_intentRow] at hrun
      cases hrun
      exact OutboxRow.matches_of_asPayload rfl rfl
    have hv : v.db.tables.Kept := hdb ▸ hw
    have hcommit : LeavesDead revived others (Act.commit [.insertOutbox row]) v := by
      apply LeavesDead.commit_buries hv
      · intro write hwrite
        obtain rfl := List.mem_singleton.mp hwrite
        exact hmatches
      · exact fun r hr _ => List.mem_append_left _ hr
    refine hcommit.attempt.bind fun r u _ hu => ?_
    split
    · exact .pure hu _
    · refine .select_bind hu ?_
      split
      · exact .pure (w := u.after 1) hu _
      · exact .throw (w := u.after 1) hu _
    · exact .throw hu _

/-- The call of an action whose row is not dead. -/
theorem leavesDead_callProvider (hw : w.db.tables.Kept)
    (halive : Chargeable applied → w.db.tables.Alive applied.referenceId) :
    LeavesDead revived others (callProvider s applied) w := by
  refine .of_quiet (quiet_callProvider s applied)
    ((along_callProvider s applied w).mpr fun request hok => ?_) hw
  rcases requestOf_cases s applied (w.after 1).clock with
    ⟨hcharge, request', hok', hcharges⟩ | ⟨-, e, herror⟩
  · obtain rfl : request' = request := Except.ok.inj (hok'.symm.trans hok)
    rw [hcharges.1]
    exact halive hcharge
  · rw [herror] at hok
    cases hok

section Recording

variable {row : OutboxRow} (hw : w.db.tables.Kept) (hrow : row ∈ w.db.tables.outbox)
  (halive : row.status ≠ .dead)
  (hothers : ∀ reference, others reference → reference ≠ row.referenceId)

include hw hrow halive hothers

/-- A row is given up once. -/
theorem leavesDead_giveUp {new : OutboxRow} (hid : new.id = row.id) (hnew : new.status = .dead)
    (reason : String) : LeavesDead revived others (do
      let d ← dlqRow new reason
      Act.commit [.updateOutbox row new, .insertDeadLetter d]) w := by
  have hreads : (dlqRow new reason).All Cmd.Reads fun _ => True := by
    simp [dlqRow, Cmd.Reads]
  refine .read_bind hreads hw fun d v hrun _ hdb => ?_
  obtain ⟨d', hrun', hd, -⟩ := run_dlqRow new reason w
  obtain rfl : d' = d := by
    rw [hrun'] at hrun
    cases hrun
    rfl
  have hv : v.db.tables.Kept := hdb ▸ hw
  have hrow' : row ∈ v.db.tables.outbox := hdb ▸ hrow
  exact .commit_giveUp hv hrow' halive hnew (hd.trans hid) hothers

theorem leavesDead_scheduleRetry (ex : OutboxExecutor) (exc : PyError) :
    LeavesDead revived others (ex.scheduleRetry row.id exc) w := by
  unfold scheduleRetry
  refine .select_bind hw ?_
  rw [outboxById_of_mem hrow]
  simp only
  split
  -- the attempts are spent: the row dies with its dead letter
  · apply leavesDead_giveUp (w := w.after 1) hw hrow halive hothers
    · rfl
    · rfl
  -- otherwise the same row is scheduled again
  · have hnow : Act.nowUtc.All Cmd.Reads fun _ => True := ⟨trivial, fun _ => trivial⟩
    have huniform : (Prog.lift .uniform : Act ℚ).All Cmd.Reads fun _ => True :=
      ⟨trivial, fun _ => trivial⟩
    refine .read_bind hnow hw fun now v _ _ hv => ?_
    refine .read_bind huniform (hv ▸ hw) fun u v' _ _ hv' => ?_
    have hdb : v'.db = w.db := hv'.trans hv
    exact .commit_alive (hdb ▸ hw) (hdb ▸ hrow) halive (fun _ => ⟨rfl, rfl⟩) hothers

theorem leavesDead_deadLetter (exc : PyError) (message : String) :
    LeavesDead revived others (deadLetter row.id exc message) w := by
  unfold deadLetter
  refine .select_bind hw ?_
  rw [outboxById_of_mem hrow]
  apply leavesDead_giveUp (w := w.after 1) hw hrow halive hothers
  · rfl
  · rfl

theorem leavesDead_phaseTwo (result : PaymentLinkResult) :
    LeavesDead revived others (phaseTwo s applied row.id result) w := by
  have hnow : Act.nowUtc.All Cmd.Reads fun _ => True := ⟨trivial, fun _ => trivial⟩
  have hfresh : (Act.freshId "act").All Cmd.Reads fun _ => True := ⟨trivial, fun _ => trivial⟩
  unfold phaseTwo
  refine .read_bind hnow hw fun now v _ _ hv => ?_
  refine .select_bind (hv ▸ hw) ?_
  rw [hv, outboxById_of_mem hrow]
  simp only
  split
  · exact .pure (w := v.after 1) (hv ▸ hw) _
  · refine .read_bind hfresh (w := v.after 1) (hv ▸ hw) fun i u _ _ hu => ?_
    -- the contact written beside the action touches no row of either table
    have hcontact : (contactWrites s applied now).All Cmd.Reads fun r => ∀ contact, r = .ok contact →
        ∀ t : Tables, (t.applyAll contact).outbox = t.outbox ∧
          (t.applyAll contact).deadLetters = t.deadLetters := by
      unfold contactWrites
      split
      · rintro contact ⟨⟩ t
        exact ⟨rfl, rfl⟩
      · simp only [Prog.all_bind, Act.all_freshId]
        refine ⟨trivial, fun hex => ?_⟩
        rintro contact ⟨⟩ t
        exact ⟨rfl, rfl⟩
    have hdb : u.db = w.db := hu.trans hv
    refine .read_bind hcontact (hdb ▸ hw) fun contact x _ hextra hx => ?_
    have hdb' : x.db = w.db := hx.trans hdb
    exact .commit_alive (hdb' ▸ hw) (hdb' ▸ hrow) halive
      (fun t => hextra contact rfl (t.apply (.insertAction _))) hothers

end Recording

theorem reads_trace (s : RecoveryState) (status : CaseStatus) :
    (trace s status).All Cmd.Reads fun _ => True := by
  simp [trace, Cmd.Reads]

/-- **An execution that calls for no dead row leaves dead rows alone.** -/
theorem leavesDead_execute {ex : OutboxExecutor} (hw : w.db.tables.Kept)
    (halive : ∀ applied, Calls rt s applied → w.db.tables.Alive applied.referenceId)
    (hothers : ∀ reference, others reference → ∀ applied, s.policyApplied = some applied →
      reference ≠ applied.referenceId) : LeavesDead revived others (ex.execute rt s) w := by
  unfold execute
  split
  · next applied token happlied htoken =>
    have hreads : (liftExcept (token.verify rt) : Act Unit).All Cmd.Reads fun _ => True :=
      Act.all_liftExcept.mpr trivial
    refine .read_bind hreads hw fun _ w' hverified _ _ => ?_
    rw [Act.run_liftExcept, Prod.mk.injEq] at hverified
    obtain ⟨hverify, rfl⟩ := hverified
    refine (leavesDead_phaseOne hw).bind fun i v hrun hv => ?_
    -- phase one answers the id of a stored row of this reference
    obtain ⟨hintended, -, -, -, row, hrow, rfl, href, -⟩ := run_phaseOne_stored hrun
    have hothers' : ∀ reference, others reference → reference ≠ row.referenceId := by
      intro reference hother
      rw [href]
      exact hothers reference hother applied happlied
    by_cases hcharge : Chargeable applied
    · have halive' := alive_of_intended hintended
        (halive applied ⟨happlied, ⟨token, htoken, hverify⟩, hcharge⟩)
      refine (leavesDead_callProvider hv fun _ => halive').attempt.bind fun r u hcalled hu => ?_
      -- the provider is outside: asking it changes no row
      have hdb : u.db = v.db := by
        have hquiet := World.run_quiet (quiet_callProvider s applied) v
        rw [Prog.run_attempt] at hcalled
        cases hcalled
        exact hquiet
      have hrow' : row ∈ u.db.tables.outbox := hdb ▸ hrow
      have hrowalive : row.status ≠ .dead := halive' row hrow href
      split
      · refine (leavesDead_scheduleRetry hu hrow' hrowalive hothers' ex _).bind fun _ x _ hx => ?_
        exact .of_reads (reads_trace s _) hx
      · refine (leavesDead_deadLetter hu hrow' hrowalive hothers' _ _).bind fun _ x _ hx => ?_
        exact .of_reads (reads_trace s _) hx
      · exact .throw hu _
      · refine (leavesDead_phaseTwo hu hrow' hrowalive hothers' _).bind fun _ x _ hx => ?_
        exact .of_reads (reads_trace _ _) hx
    · -- the request is not even built
      refine (leavesDead_callProvider hv fun h => absurd h hcharge).attempt.bind
        fun r u hcalled hu => ?_
      obtain ⟨e, herror⟩ := run_callProvider_of_not_chargeable s hcharge v
      obtain rfl : r = .error (.valueError e) := by
        rw [Prog.run_attempt] at hcalled
        cases hcalled
        exact herror
      exact .throw hu _
  · exact .of_reads (reads_trace s _) hw

end OutboxExecutor

end AegisMerchant
