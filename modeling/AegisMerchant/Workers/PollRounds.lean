import AegisMerchant.Base.Reading
import AegisMerchant.Base.Sweep
import AegisMerchant.Workers.Holdout
import AegisMerchant.Workers.WebhookEvents

/-!
# Poll after poll

A poll looks at the first rows of its list only, and an unpaid one stays in it. Run after run without
an error, it settles every case whose link is paid exactly when the rows that stay leave a place
within its limit.

`run_reconcileOutstanding` is one poll as one sweep of the list, and
`Reconcile.Polls.settles_paid_iff` poll after poll; `Reconcile.not_polls_settle_paid` has fifty
links in front that nobody pays.
-/

namespace AegisMerchant

open Time Rows

/-- A case that a recovery was proved for. -/
def CaseRow.IsSettled (c : CaseRow) : Prop := c.status = .recovered ∧ c.recoveryVerifiedBy.isSome

def Tables.Settled (t : Tables) (caseId : String) : Prop :=
  ∃ c ∈ t.cases, c.id = caseId ∧ c.IsSettled

namespace Reconcile

/-! ## Runs without an error -/

/-- What a command of an error-free run meets: no statement breaks a constraint, and every reference
is known, its link paid when it is one of the paid ones. -/
def Serves (paid : String → Bool) : {β : Type} → Cmd β → World → Prop
  | _, .getPaymentLinkByReference reference, w =>
    match (World.handler.exec (.getPaymentLinkByReference reference) w).1 with
    | .ok (some link) => link.status = "paid" ↔ paid reference = true
    | _ => False
  | _, c, w => Webhooks.Accepted c w

instance (paid : String → Bool) : {β : Type} → (c : Cmd β) → (w : World) →
    Decidable (Serves paid c w)
  | _, .getPaymentLinkByReference reference, w =>
    match h : (World.handler.exec (.getPaymentLinkByReference reference) w).1 with
    | .ok (some link) => decidable_of_iff (link.status = "paid" ↔ paid reference = true) (by
      simp only [Serves, h])
    | .ok none | .error _ => isFalse (by simp only [Serves, h, not_false_eq_true])
  | _, .now, w => inferInstanceAs (Decidable (Webhooks.Accepted .now w))
  | _, .select sent q, w => inferInstanceAs (Decidable (Webhooks.Accepted (.select sent q) w))
  | _, .flush sent ws, w => inferInstanceAs (Decidable (Webhooks.Accepted (.flush sent ws) w))
  | _, .commit ws, w => inferInstanceAs (Decidable (Webhooks.Accepted (.commit ws) w))
  | _, .tokenHex, w => inferInstanceAs (Decidable (Webhooks.Accepted .tokenHex w))
  | _, .uniform, w => inferInstanceAs (Decidable (Webhooks.Accepted .uniform w))
  | _, .createPaymentLink request, w =>
    inferInstanceAs (Decidable (Webhooks.Accepted (.createPaymentLink request) w))
  | _, .completeStructured task context, w =>
    inferInstanceAs (Decidable (Webhooks.Accepted (.completeStructured task context) w))

/-- A reference that is served is looked up. -/
theorem Serves.lookup {paid : String → Bool} {reference : String} {w : World}
    (h : Serves paid (.getPaymentLinkByReference reference) w) :
    ∃ link, (World.handler.exec (.getPaymentLinkByReference reference) w).1 = .ok (some link) ∧
      (link.status = "paid" ↔ paid reference = true) := by
  rcases hlookup : (World.handler.exec (.getPaymentLinkByReference reference) w).1 with
    exc | _ | link
  · simp only [Serves, hlookup] at h
  · simp only [Serves, hlookup] at h
  · simp only [Serves, hlookup] at h
    exact ⟨link, rfl, h⟩

theorem Serves.accepted {paid : String → Bool} {β : Type} {c : Cmd β} {w : World}
    (h : Serves paid c w) : Webhooks.Accepted c w := by
  cases c with
  | getPaymentLinkByReference reference => trivial
  | _ => exact h

/-- **Error-free polls, one after another**: nothing else writes the database in between. -/
structure Polls (rt : Runtime) (limit : ℕ) (paid : String → Bool) (w : ℕ → World) : Prop where
  errorFree : ∀ k, (reconcileOutstanding rt limit).Along World.handler (Serves paid) (w k)
  next : ∀ k, (w (k + 1)).db = ((reconcileOutstanding rt limit).run World.handler (w k)).2.db

def caseKey (row : OutboxRow × CaseRow) : String := row.2.id

/-- The provider reports the link of a row paid. -/
def isPaid (paid : String → Bool) (row : OutboxRow × CaseRow) : Bool := paid row.1.referenceId

/-! ## What one poll changes -/

/-- The tables after the cases of some ids were settled, and nothing else of the cases or the
outbox. -/
structure Settling (t t' : Tables) (ids : List String) : Prop where
  outbox : t'.outbox = t.outbox
  cases : ∃ f : CaseRow → CaseRow, t'.cases = t.cases.map f ∧ ∀ c ∈ t.cases, (f c).id = c.id ∧
    (c.id ∉ ids → f c = c) ∧ (c.id ∈ ids → (f c).IsSettled)

theorem Settling.refl (t : Tables) : Settling t t [] where
  outbox := rfl
  cases := ⟨id, (List.map_id _).symm, fun _ _ => ⟨rfl, fun _ => rfl, fun h =>
    absurd h List.not_mem_nil⟩⟩

theorem Settling.trans {t t' t'' : Tables} {ids ids' : List String} (h : Settling t t' ids)
    (h' : Settling t' t'' ids') : Settling t t'' (ids ++ ids') where
  outbox := h'.outbox.trans h.outbox
  cases := by
    obtain ⟨f, hcases, hf⟩ := h.cases
    obtain ⟨f', hcases', hf'⟩ := h'.cases
    refine ⟨f' ∘ f, by rw [hcases', hcases, List.map_map], fun c hc => ?_⟩
    obtain ⟨hid, hkeeps, hsettles⟩ := hf c hc
    obtain ⟨hid', hkeeps', hsettles'⟩ := hf' (f c) (hcases ▸ List.mem_map_of_mem hc)
    rw [hid] at hid' hkeeps' hsettles'
    refine ⟨hid', fun hnew => ?_, fun hold => ?_⟩
    · rw [List.mem_append, not_or] at hnew
      exact (hkeeps' hnew.2).trans (hkeeps hnew.1)
    · by_cases hlater : c.id ∈ ids'
      · exact hsettles' hlater
      · have hearlier := (List.mem_append.mp hold).resolve_right hlater
        show (f' (f c)).IsSettled
        rw [hkeeps' hlater]
        exact hsettles hearlier

/-- A case is settled once its id is among them. -/
theorem Settling.settled {t t' : Tables} {ids : List String} (h : Settling t t' ids) {c : CaseRow}
    (hc : c ∈ t.cases) (hid : c.id ∈ ids) : t'.Settled c.id := by
  obtain ⟨f, hcases, hf⟩ := h.cases
  obtain ⟨hkey, -, hsettles⟩ := hf c hc
  exact ⟨f c, hcases ▸ List.mem_map_of_mem hc, hkey, hsettles hid⟩

/-- **What is outstanding afterwards is what was, without the cases that were settled.** -/
theorem Settling.outstanding {t t' : Tables} {ids : List String} (h : Settling t t' ids) :
    outstanding t' = (outstanding t).filter fun row => caseKey row ∉ ids := by
  obtain ⟨f, hcases, hf⟩ := h.cases
  have hopen : ∀ caseId, (t'.cases.filter fun c =>
      c.id = caseId ∧ c.status = .monitoring ∧ c.recoveryVerifiedBy = none) =
        (t.cases.filter fun c => c.id = caseId ∧ c.status = .monitoring ∧
          c.recoveryVerifiedBy = none).filter fun c => c.id ∉ ids := by
    intro caseId
    have hsame : t.cases.filter ((fun c : CaseRow => decide (c.id = caseId ∧
        c.status = .monitoring ∧ c.recoveryVerifiedBy = none)) ∘ f) = t.cases.filter fun c =>
          decide (c.id ∉ ids) && decide (c.id = caseId ∧ c.status = .monitoring ∧
            c.recoveryVerifiedBy = none) := by
      refine List.filter_congr fun c hc => ?_
      obtain ⟨-, hkeeps, hsettles⟩ := hf c hc
      rw [Function.comp_apply]
      by_cases hid : c.id ∈ ids
      · have hstatus : (f c).status ≠ .monitoring := by
          rw [(hsettles hid).1]
          decide
        simp [hid, hstatus]
      · rw [hkeeps hid]
        simp [hid]
    rw [hcases, List.filter_map, List.filter_filter, hsame]
    refine (List.map_congr_left fun c hc => ?_).trans (List.map_id _)
    obtain ⟨hmem, hopen⟩ := List.mem_filter.mp hc
    rw [Bool.and_eq_true, decide_eq_true_iff] at hopen
    exact (hf c hmem).2.1 hopen.1
  unfold Reconcile.outstanding
  rw [h.outbox, List.filter_flatMap]
  refine List.flatMap_congr fun entry _ => ?_
  split
  · rw [hopen, List.filter_map]
    rfl
  · rfl

/-! ## One poll -/

/-- A case a row of the list is about: nothing proves it, unless it is recovered. -/
def Pollable (t : Tables) (caseId : String) : Prop :=
  ∃ c ∈ t.cases, c.id = caseId ∧
    (c.status ≠ .recovered ∧ c.recoveryVerifiedBy = none ∨ c.IsSettled)

section Polling

variable {rt : Runtime} {paid : String → Bool}

/-- A change that settles the stored case it is about. -/
theorem settling_store {db : Database} {t' : Tables} {case new : CaseRow}
    (hcase : case ∈ db.tables.cases) (hnew : (case.store new case).IsSettled)
    (houtbox : t'.outbox = db.tables.outbox)
    (hcases : t'.cases = updateWhere (·.id) case.id (case.store new) db.tables.cases) :
    Settling db.tables t' [case.id] where
  outbox := houtbox
  cases := by
    refine ⟨fun c => if c.id = case.id then case.store new c else c, hcases, fun c hc => ?_⟩
    dsimp only
    split
    · next hid =>
      obtain rfl := eq_of_key_eq db.valid.case_id hc hcase hid
      exact ⟨rfl, fun h => absurd (List.mem_singleton_self _) h, fun _ => hnew⟩
    · next hid =>
      exact ⟨rfl, fun _ => rfl, fun h => absurd (List.mem_singleton.mp h) hid⟩

/-- The session that settles one case settles it, once. -/
theorem run_creditLink {entry : OutboxRow} {caseId : String} {link : PaymentLinkResult} {w : World}
    (hcase : Pollable w.db.tables caseId)
    (h : (creditLink rt entry caseId link).Along World.handler (Serves paid) w) :
    ∃ credited v, (creditLink rt entry caseId link).run World.handler w = (.ok credited, v) ∧
      Settling w.db.tables v.db.tables [caseId] := by
  obtain ⟨c, hc, rfl, hstate⟩ := hcase
  have hfound := caseById_of_mem hc
  have hselect := Act.run_select (·.caseById c.id) w
  rw [creditLink] at h ⊢
  have h := h.bind_ok hselect
  rw [Prog.run_bind_ok hselect]
  simp only [hfound] at h ⊢
  rcases hstate with ⟨hopen, hnone⟩ | hsettled
  · have hunproven : ¬c.recoveryVerifiedBy.isSome = true := by simp [hnone]
    rw [if_neg hunproven] at h ⊢
    have h := h.bind_ok (Act.run_nowUtc _)
    rw [Prog.run_bind_ok (Act.run_nowUtc _)]
    obtain ⟨block, hcommit, hrun⟩ :=
      Webhooks.run_append_accepted (h.of_bind.mono fun _ _ hc => Serves.accepted hc)
    rw [Prog.run_bind_ok hrun]
    obtain ⟨db, hdb⟩ := Option.isSome_iff_exists.mp hcommit
    simp only [Session.pending, List.nil_append, List.singleton_append, World.after_db] at hdb ⊢
    rw [Prog.run_bind, Session.commit, Act.run_commit]
    simp only [Session.pending, List.append_nil, World.after_db, hdb]
    refine ⟨true, _, rfl, ?_⟩
    have htables := Database.commit_eq_some.mp hdb
    rw [World.committed_db]
    obtain ⟨hstatus, hproof, -⟩ := store_recovered hopen hnone c.amountPaise (verifier link)
      .apiReconciliation ((w.after 1).after 1).clock
    refine settling_store hc ⟨hstatus, ?_⟩ (by rw [htables]; rfl) (by rw [htables]; rfl)
    rw [hproof]
    rfl
  · rw [if_pos hsettled.2]
    refine ⟨false, _, rfl, ?_⟩
    rw [World.after_db]
    refine ⟨rfl, id, (List.map_id _).symm, fun c' hc' => ⟨rfl, fun _ => rfl, fun hmem => ?_⟩⟩
    obtain rfl := eq_of_key_eq w.db.valid.case_id hc' hc (List.mem_singleton.mp hmem)
    exact hsettled

/-- A reference that is known is looked up. -/
theorem run_lookup {reference : String} {link : PaymentLinkResult} {w : World}
    (h : (World.handler.exec (.getPaymentLinkByReference reference) w).1 = .ok (some link)) :
    (Act.getPaymentLinkByReference reference).run World.handler w = (.ok (some link), w.after 1) := by
  rw [Act.getPaymentLinkByReference, Act.call, Prog.run_bind, Prog.run_lift]
  simp only [h]
  rfl

/-- A reference whose link is not paid is counted, and nothing else. -/
theorem run_pollOne_open (result : ReconcileResult) {entry : OutboxRow} (case : CaseRow) {w : World}
    (hserved : Serves paid (.getPaymentLinkByReference entry.referenceId) w)
    (hopen : paid entry.referenceId = false) :
    ∃ result', (pollOne rt result entry case).run World.handler w = (.ok result', w.after 1) := by
  obtain ⟨link, hlink, hpaid⟩ := hserved.lookup
  rw [pollOne, Prog.run_bind, Prog.run_attempt, run_lookup hlink]
  have hunpaid : link.status ≠ "paid" := by
    rw [Ne, hpaid, hopen]
    exact Bool.false_ne_true
  simp only [if_pos hunpaid]
  exact ⟨_, rfl⟩

/-- One reference settles its case when its link is paid, and changes nothing when it is not. -/
theorem run_pollOne {result : ReconcileResult} {entry : OutboxRow} {case : CaseRow} {w : World}
    (hcase : Pollable w.db.tables case.id)
    (h : (pollOne rt result entry case).Along World.handler (Serves paid) w) :
    ∃ result' v, (pollOne rt result entry case).run World.handler w = (.ok result', v) ∧
      (paid entry.referenceId = false → v.db = w.db) ∧
        Settling w.db.tables v.db.tables (Sweep.readyKeys caseKey (isPaid paid) [(entry, case)]) := by
  rw [pollOne, Prog.along_bind, Prog.along_attempt, Act.getPaymentLinkByReference, Act.along_call]
    at h
  obtain ⟨hserved, h⟩ := h
  cases hentry : paid entry.referenceId with
  | false =>
    have hkeys : Sweep.readyKeys caseKey (isPaid paid) [(entry, case)] = [] := by
      simp [Sweep.readyKeys, isPaid, hentry]
    obtain ⟨result', hrun⟩ := @run_pollOne_open rt paid result entry case w hserved hentry
    rw [hkeys]
    exact ⟨result', _, hrun, fun _ => World.after_db w 1, Settling.refl _⟩
  | true =>
    have hkeys : Sweep.readyKeys caseKey (isPaid paid) [(entry, case)] = [case.id] := by
      simp [Sweep.readyKeys, isPaid, caseKey, hentry]
    obtain ⟨link, hlink, hpaid⟩ := hserved.lookup
    have hrun := run_lookup hlink
    rw [Prog.run_attempt, ← Act.getPaymentLinkByReference, hrun] at h
    rw [pollOne, Prog.run_bind, Prog.run_attempt, hrun, hkeys]
    simp only at h ⊢
    have hstatus : ¬link.status ≠ "paid" := not_not.mpr (hpaid.mpr hentry)
    rw [if_neg hstatus] at h ⊢
    obtain ⟨credited, v, hcredit, hsettling⟩ := run_creditLink (by rwa [World.after_db]) h.of_bind
    rw [World.after_db] at hsettling
    rw [Prog.run_bind_ok hcredit]
    cases credited with
    | true => exact ⟨_, v, rfl, fun hunpaid => absurd hunpaid (by decide), hsettling⟩
    | false => exact ⟨_, v, rfl, fun hunpaid => absurd hunpaid (by decide), hsettling⟩

theorem Pollable.settling {t t' : Tables} {ids : List String} (h : Settling t t' ids)
    {caseId : String} (hcase : Pollable t caseId) : Pollable t' caseId := by
  obtain ⟨c, hc, rfl, hstate⟩ := hcase
  obtain ⟨f, hcases, hf⟩ := h.cases
  obtain ⟨hid, hkeeps, hsettles⟩ := hf c hc
  refine ⟨f c, hcases ▸ List.mem_map_of_mem hc, hid, ?_⟩
  by_cases hmem : c.id ∈ ids
  · exact .inr (hsettles hmem)
  · rw [hkeeps hmem]
    exact hstate

/-! ## The loop of a poll -/

/-- The loop settles the cases of the paid rows. -/
theorem run_pollAll {rows : List (OutboxRow × CaseRow)} {result : ReconcileResult} {w : World}
    (hcases : ∀ row ∈ rows, Pollable w.db.tables (caseKey row))
    (h : (pollAll rt result rows).Along World.handler (Serves paid) w) :
    ∃ result' v, (pollAll rt result rows).run World.handler w = (.ok result', v) ∧
      ((∀ row ∈ rows, isPaid paid row = false) → v.db = w.db) ∧
        Settling w.db.tables v.db.tables (Sweep.readyKeys caseKey (isPaid paid) rows) := by
  induction rows generalizing result w with
  | nil => exact ⟨result, w, rfl, fun _ => rfl, Settling.refl _⟩
  | cons row rest ih =>
    obtain ⟨entry, case⟩ := row
    rw [pollAll] at h ⊢
    obtain ⟨result', v, hrun, hsame, hsettling⟩ :=
      run_pollOne (hcases _ List.mem_cons_self) h.of_bind
    obtain ⟨result'', u, hrun', hsame', hsettling'⟩ := ih (fun row hrow =>
      (hcases row (List.mem_cons_of_mem _ hrow)).settling hsettling) (h.bind_ok hrun)
    rw [Prog.run_bind_ok hrun]
    refine ⟨result'', u, hrun', fun hnone => ?_, ?_⟩
    · rw [hsame' fun row hrow => hnone row (List.mem_cons_of_mem _ hrow),
        hsame (hnone _ List.mem_cons_self)]
    · have hkeys : Sweep.readyKeys caseKey (isPaid paid) ((entry, case) :: rest) =
          Sweep.readyKeys caseKey (isPaid paid) [(entry, case)] ++
            Sweep.readyKeys caseKey (isPaid paid) rest := by
        simp only [Sweep.readyKeys, ← List.map_append, ← List.filter_append, List.singleton_append]
      rw [hkeys]
      exact hsettling.trans hsettling'

/-- What is outstanding can be polled. -/
theorem pollable_of_outstanding {t : Tables} {row : OutboxRow × CaseRow}
    (h : row ∈ outstanding t) : row.2 ∈ t.cases ∧ row.2.status = .monitoring ∧
      Pollable t (caseKey row) := by
  unfold outstanding at h
  obtain ⟨entry, -, hrow⟩ := List.mem_flatMap.mp h
  split at hrow
  · obtain ⟨c, hc, rfl⟩ := List.mem_map.mp hrow
    obtain ⟨hmem, hopen⟩ := List.mem_filter.mp hc
    obtain ⟨-, hmonitoring, hnone⟩ := of_decide_eq_true hopen
    refine ⟨hmem, hmonitoring, c, hmem, rfl, .inl ⟨?_, hnone⟩⟩
    rw [hmonitoring]
    decide
  · cases hrow

/-- **One poll sweeps its list.** -/
theorem run_reconcileOutstanding {limit : ℕ} {w : World}
    (h : (reconcileOutstanding rt limit).Along World.handler (Serves paid) w) :
    ∃ result v, (reconcileOutstanding rt limit).run World.handler w = (.ok result, v) ∧
      ((∀ row ∈ (outstanding w.db.tables).take limit, isPaid paid row = false) → v.db = w.db) ∧
        Settling w.db.tables v.db.tables
          (Sweep.readyKeys caseKey (isPaid paid) ((outstanding w.db.tables).take limit)) := by
  rw [reconcileOutstanding, Prog.along_bind, Act.run_select] at h
  rw [reconcileOutstanding, Prog.run_bind, Act.run_select]
  have hcases : ∀ row ∈ (outstanding w.db.tables).take limit,
      Pollable (w.after 1).db.tables (caseKey row) := by
    intro row hrow
    rw [World.after_db]
    exact (pollable_of_outstanding (List.mem_of_mem_take hrow)).2.2
  obtain ⟨result, v, hrun, hsame, hsettling⟩ := run_pollAll hcases h.2
  rw [World.after_db] at hsame hsettling
  exact ⟨result, v, hrun, hsame, hsettling⟩

end Polling

/-! ## Poll after poll -/

section Rounds

variable {rt : Runtime} {limit : ℕ} {paid : String → Bool} {w : ℕ → World}

/-- After some polls, the list is the first one, swept as often. -/
theorem Polls.rounds (h : Polls rt limit paid w) (n : ℕ) :
    ∃ ids, Settling (w 0).db.tables (w n).db.tables ids ∧
      outstanding (w n).db.tables =
        (Sweep.sweep caseKey (isPaid paid) limit)^[n] (outstanding (w 0).db.tables) := by
  induction n with
  | zero => exact ⟨[], Settling.refl _, rfl⟩
  | succ n ih =>
    obtain ⟨ids, hsettling, hrows⟩ := ih
    obtain ⟨result, v, hrun, -, hround⟩ := run_reconcileOutstanding (h.errorFree n)
    have hdb : (w (n + 1)).db = v.db := by rw [h.next n, hrun]
    refine ⟨_, hdb ▸ hsettling.trans hround, ?_⟩
    rw [hdb, hround.outstanding, hrows, Function.iterate_succ_apply']
    rfl

/-- **Poll after poll, every case with a paid link is settled exactly when the rows that stay never
fill the limit in front of the first paid row of a case.** -/
theorem Polls.settles_paid_iff (h : Polls rt limit paid w) :
    (∃ n, ∀ row ∈ outstanding (w 0).db.tables, isPaid paid row = true →
        (w n).db.tables.Settled (caseKey row)) ↔
      Sweep.Clear caseKey (isPaid paid) limit (outstanding (w 0).db.tables) := by
  rw [← Sweep.done_iff_clear]
  refine exists_congr fun n => ?_
  obtain ⟨ids, hsettling, hrows⟩ := h.rounds n
  rw [← hrows]
  constructor
  · intro hsettled row hrow
    rw [← Bool.not_eq_true]
    intro hpaid
    -- a row of the list is of an open case
    obtain ⟨hcase, hmonitoring, -⟩ := pollable_of_outstanding hrow
    rw [hsettling.outstanding, List.mem_filter] at hrow
    obtain ⟨c, hc, hid, hstatus, -⟩ := hsettled row hrow.1 hpaid
    obtain rfl := eq_of_key_eq (w n).db.valid.case_id hc hcase hid
    rw [hmonitoring] at hstatus
    cases hstatus
  · intro hdone row hrow hpaid
    have hserved : caseKey row ∈ ids := by
      by_contra hleft
      have hstays : row ∈ outstanding (w n).db.tables := by
        rw [hsettling.outstanding, List.mem_filter]
        exact ⟨hrow, decide_eq_true hleft⟩
      rw [hdone row hstays] at hpaid
      cases hpaid
    exact hsettling.settled (pollable_of_outstanding hrow).1 hserved

end Rounds

/-! ## Cases that wait -/

def numbered (before behind : String) (n : ℕ) : String := before ++ Text.padNat 4 n ++ behind

theorem numbered_inj {before behind : String} : Function.Injective (numbered before behind) := by
  intro m n h
  have hlist := congrArg String.toList h
  simp only [numbered, String.toList_append] at hlist
  exact Text.padNat_inj (List.append_cancel_left (List.append_cancel_right hlist))

def waitingCase (n : ℕ) : CaseRow where
  id := numbered "RC-" "" n
  merchantId := "mch_1"
  customerId := "cus_1"
  playbook := .paymentFailure
  status := .monitoring
  amountPaise := 250000
  windowExpiresAt := { utc := day }

def waitingRow (n : ℕ) : OutboxRow where
  id := numbered "obx_" "" n
  caseId := numbered "RC-" "" n
  actionType := .createPaymentLink
  referenceId := numbered "rvp_rc-" "_1" n
  payloadJson := some (linkAction 1).asPayload
  status := .sent
  nextAttemptAt := { utc := 0 }
  createdAt := { utc := 0 }

def crowd (size : ℕ) : Tables :=
  { oneCase.tables with
    cases := (List.range size).map waitingCase
    outbox := (List.range size).map waitingRow }

theorem valid_crowd (size : ℕ) : (crowd size).Valid := by
  have hnodup : ∀ {κ : Type} {f : ℕ → κ}, Function.Injective f →
      ((List.range size).map f).Nodup := fun hf => List.nodup_range.map hf
  refine { oneCase.valid with
    case_id := ?_
    case_observed := ?_
    case_amount := ?_
    case_proof := ?_
    outbox_id := ?_
    outbox_reference := ?_
    outbox_attempt := ?_
    outbox_nonneg := ?_
    outbox_case := ?_
    action_case := fun a ha => absurd ha List.not_mem_nil
    action_outbox := fun a ha => absurd ha List.not_mem_nil
    contact_case := fun c hc => absurd hc List.not_mem_nil
    dlq_outbox := fun d hd => absurd hd List.not_mem_nil
    approval_case := fun a ha => absurd ha List.not_mem_nil
    block_case := fun b hb => absurd hb List.not_mem_nil }
  · rw [crowd, List.map_map]
    exact hnodup numbered_inj
  · have hnone : ((List.range size).map waitingCase).filterMap (·.observedReferenceId) = [] := by
      rw [List.filterMap_eq_nil_iff, List.forall_mem_map]
      exact fun n _ => rfl
    rw [crowd, hnone]
    exact List.nodup_nil
  · exact List.forall_mem_map.mpr fun n _ => show (0 : ℤ) < 250000 ∧ (0 : ℤ) ≤ 0 by decide
  · exact List.forall_mem_map.mpr fun n _ => .inl rfl
  · rw [crowd, List.map_map]
    exact hnodup numbered_inj
  · rw [crowd, List.map_map]
    exact hnodup numbered_inj
  · rw [crowd, List.map_map]
    exact hnodup fun m n h => numbered_inj (Prod.mk.inj h).1
  · exact List.forall_mem_map.mpr fun n _ => le_refl _
  · exact List.forall_mem_map.mpr fun n hn => ⟨_, List.mem_map_of_mem hn, rfl⟩

/-- Each of them is outstanding. -/
theorem outstanding_crowd (size : ℕ) :
    outstanding (crowd size) = (List.range size).map fun n => (waitingRow n, waitingCase n) := by
  have hcase : ∀ n ∈ List.range size, ((crowd size).cases.filter fun c => c.id = (waitingRow n).caseId ∧
      c.status = .monitoring ∧ c.recoveryVerifiedBy = none) = [waitingCase n] := by
    intro n hn
    rw [crowd, List.filter_map]
    have hsame : (List.range size).filter ((fun c : CaseRow => decide (c.id = (waitingRow n).caseId ∧
        c.status = .monitoring ∧ c.recoveryVerifiedBy = none)) ∘ waitingCase) =
          (List.range size).filter (· = n) := by
      refine List.filter_congr fun m _ => ?_
      rw [Function.comp_apply, decide_eq_decide]
      exact ⟨fun h => numbered_inj h.1, fun h => ⟨congrArg (numbered "RC-" "") h, rfl, rfl⟩⟩
    rw [hsame, List.filter_eq, List.count_eq_one_of_mem List.nodup_range hn]
    rfl
  unfold outstanding
  rw [show (crowd size).outbox = (List.range size).map waitingRow from rfl, List.flatMap_map,
    List.map_eq_flatMap]
  refine List.flatMap_congr fun n hn => ?_
  rw [if_pos (.inl rfl), hcase n hn]
  rfl

/-! ## A paid link behind two that nobody pays -/

/-- Three of them, the third paid. -/
def thirdPaidWorld : World :=
  { worldOf ⟨crowd 3, valid_crowd 3⟩ with
    links := (List.range 3).map fun n =>
      { linkId := numbered "plink_" "" n, shortUrl := "https://rzp.io/i/1"
        referenceId := (waitingRow n).referenceId, amountPaise := 250000, status := "created" }
    fate := fun n =>
      { elapsed := 1000, hex := String.ofList (List.replicate n 'a')
        lookup := .served (if n = 3 then "paid" else "created") (.obj []) } }

def thirdSettled : World :=
  ((reconcileOutstanding plainRuntime 50).run World.handler thirdPaidWorld).2

/-- The first poll settles the case; from then on two unpaid rows are left. -/
def paidPolls : ℕ → World
  | 0 => thirdPaidWorld
  | _ + 1 => thirdSettled

def thirdPaid (reference : String) : Bool := reference = (waitingRow 2).referenceId

theorem paidPolls_polls : Polls plainRuntime 50 thirdPaid paidPolls := by
  have hfirst : (reconcileOutstanding plainRuntime 50).Along World.handler (Serves thirdPaid)
      thirdPaidWorld := by decide +kernel
  have hlater : (reconcileOutstanding plainRuntime 50).Along World.handler (Serves thirdPaid)
      thirdSettled := by decide +kernel
  -- what is left is unpaid, so a later poll leaves the database as it is
  have hunpaid : ∀ row ∈ (outstanding thirdSettled.db.tables).take 50,
      isPaid thirdPaid row = false := by decide +kernel
  refine ⟨fun n => ?_, fun n => ?_⟩
  · cases n with
    | zero => exact hfirst
    | succ n => exact hlater
  · cases n with
    | zero => rfl
    | succ n =>
      obtain ⟨result, v, hrun, hsame, -⟩ := run_reconcileOutstanding hlater
      show thirdSettled.db = ((reconcileOutstanding plainRuntime 50).run World.handler
        thirdSettled).2.db
      rw [hrun]
      exact (hsame hunpaid).symm

/-- The third link is behind two that stay, and its case is settled all the same. -/
theorem polls_settle_paid_third :
    ∃ n, ∀ row ∈ outstanding (paidPolls 0).db.tables, isPaid thirdPaid row = true →
      (paidPolls n).db.tables.Settled (caseKey row) := by
  refine paidPolls_polls.settles_paid_iff.mpr fun front row back hrows _ _ => ?_
  have hlength : (outstanding (paidPolls 0).db.tables).length = 3 := by
    rw [show (paidPolls 0).db.tables = crowd 3 from rfl, outstanding_crowd]
    rfl
  have hstuck : (Sweep.stuck caseKey (isPaid thirdPaid) front).length ≤ front.length :=
    List.length_filter_le _ _
  rw [hrows, List.length_append, List.length_cons] at hlength
  omega

/-! ## Fifty links that nobody pays -/

/-- Fifty-one of them, and the links the provider holds. -/
def crowdedWorld : World :=
  { worldOf ⟨crowd 51, valid_crowd 51⟩ with
    links := (List.range 51).map fun n =>
      { linkId := numbered "plink_" "" n, shortUrl := "https://rzp.io/i/1"
        referenceId := (waitingRow n).referenceId, amountPaise := 250000, status := "created" } }

def lastPaid (reference : String) : Bool := reference = (waitingRow 50).referenceId

/-- The reference of another link is served, as one that is not paid. -/
theorem serves_crowdedWorld {n : ℕ} (hn : n < 50) {w : World} (hlinks : w.links = crowdedWorld.links)
    (hfate : w.fate = crowdedWorld.fate) :
    lastPaid (waitingRow n).referenceId = false ∧
      Serves lastPaid (.getPaymentLinkByReference (waitingRow n).referenceId) w := by
  have hopen : lastPaid (waitingRow n).referenceId = false := by
    refine decide_eq_false fun h => ?_
    have := numbered_inj h
    omega
  refine ⟨hopen, ?_⟩
  obtain ⟨link, hlink⟩ : ∃ link, w.linkOf (waitingRow n).referenceId = some link := by
    rw [← Option.isSome_iff_exists, World.linkOf, hlinks, List.find?_isSome]
    exact ⟨_, List.mem_map_of_mem (List.mem_range.mpr (by omega)), decide_eq_true rfl⟩
  have hlookup : (World.handler.exec (.getPaymentLinkByReference (waitingRow n).referenceId) w).1 =
      .ok (some { link with status := "created", raw := .obj [], wasExisting := true }) := by
    have hserve : ((w.advance.lookup (w.fate w.tick) (waitingRow n).referenceId)) =
        .ok ((w.linkOf (waitingRow n).referenceId).map fun l =>
          { l with status := "created", raw := .obj [], wasExisting := true }) := by
      rw [hfate]
      rfl
    rw [hlink] at hserve
    exact hserve
  simp only [Serves, hlookup, hopen]
  decide

/-- Polling links that are not paid meets no error. -/
theorem along_pollAll_open {rt : Runtime} {paid : String → Bool}
    {rows : List (OutboxRow × CaseRow)} {links : List PaymentLinkResult} {fate : ℕ → Fate}
    (hserves : ∀ row ∈ rows, ∀ w : World, w.links = links → w.fate = fate →
      paid row.1.referenceId = false ∧
        Serves paid (.getPaymentLinkByReference row.1.referenceId) w)
    (result : ReconcileResult) {w : World} (hlinks : w.links = links) (hfate : w.fate = fate) :
    (pollAll rt result rows).Along World.handler (Serves paid) w := by
  induction rows generalizing result w with
  | nil => trivial
  | cons row rest ih =>
    obtain ⟨hopen, hserved⟩ := hserves row List.mem_cons_self w hlinks hfate
    obtain ⟨result', hrun⟩ := @run_pollOne_open rt paid result row.1 row.2 w hserved hopen
    rw [pollAll, Prog.along_bind, hrun]
    refine ⟨?_, ih (fun r hr => hserves r (List.mem_cons_of_mem _ hr)) result' hlinks hfate⟩
    obtain ⟨link, hlink, hpaid⟩ := hserved.lookup
    have hunpaid : link.status ≠ "paid" := by
      rw [Ne, hpaid, hopen]
      exact Bool.false_ne_true
    rw [pollOne, Prog.along_bind, Prog.along_attempt, Prog.run_attempt, run_lookup hlink]
    simp only [if_pos hunpaid]
    exact ⟨Act.along_call.mpr hserved, trivial⟩

/-- **Behind fifty links that nobody pays, a paid one is never looked at.** -/
theorem not_polls_settle_paid :
    ¬∀ (rt : Runtime) (paid : String → Bool) (w : ℕ → World), Polls rt 50 paid w →
      (∀ row ∈ outstanding (w 0).db.tables, row.1.status = .sent) →
        ∃ n, ∀ row ∈ outstanding (w 0).db.tables, isPaid paid row = true →
          (w n).db.tables.Settled (caseKey row) := by
  intro h
  have hrows : outstanding crowdedWorld.db.tables =
      (List.range 51).map fun n => (waitingRow n, waitingCase n) := outstanding_crowd 51
  have htake : (outstanding crowdedWorld.db.tables).take 50 =
      (List.range 50).map fun n => (waitingRow n, waitingCase n) := by
    rw [hrows, ← List.map_take, List.take_range]
    rfl
  have herrorFree : (reconcileOutstanding plainRuntime 50).Along World.handler (Serves lastPaid)
      crowdedWorld := by
    rw [reconcileOutstanding, Prog.along_bind, Act.run_select]
    refine ⟨Act.along_select.mpr trivial, ?_⟩
    simp only [htake]
    refine @along_pollAll_open plainRuntime lastPaid _ crowdedWorld.links crowdedWorld.fate ?_ {} _
      rfl rfl
    intro row hrow w hlinks hfate
    obtain ⟨n, hn, rfl⟩ := List.mem_map.mp hrow
    exact serves_crowdedWorld (List.mem_range.mp hn) hlinks hfate
  have hpolls : Polls plainRuntime 50 lastPaid fun _ => crowdedWorld := by
    refine ⟨fun _ => herrorFree, fun _ => ?_⟩
    obtain ⟨result, v, hrun, hsame, -⟩ := run_reconcileOutstanding herrorFree
    have hunpaid : ∀ row ∈ (outstanding crowdedWorld.db.tables).take 50,
        isPaid lastPaid row = false := by
      intro row hrow
      rw [htake] at hrow
      obtain ⟨n, hn, rfl⟩ := List.mem_map.mp hrow
      have hserves := @serves_crowdedWorld n (List.mem_range.mp hn) crowdedWorld rfl rfl
      unfold isPaid
      exact hserves.1
    rw [hrun]
    exact (hsame hunpaid).symm
  have hsent : ∀ row ∈ outstanding crowdedWorld.db.tables, row.1.status = .sent := by
    rw [hrows, List.forall_mem_map]
    exact fun n _ => rfl
  obtain ⟨n, hn⟩ := h plainRuntime lastPaid (fun _ => crowdedWorld) hpolls hsent
  have hlast : (waitingRow 50, waitingCase 50) ∈ outstanding crowdedWorld.db.tables := by
    rw [hrows]
    exact List.mem_map_of_mem (List.mem_range.mpr (by decide))
  have hpaid : isPaid lastPaid (waitingRow 50, waitingCase 50) = true := by
    unfold isPaid lastPaid
    exact decide_eq_true rfl
  obtain ⟨c, hc, -, hstatus, -⟩ := hn _ hlast hpaid
  obtain ⟨m, -, rfl⟩ := List.mem_map.mp hc
  cases hstatus

end Reconcile

end AegisMerchant
