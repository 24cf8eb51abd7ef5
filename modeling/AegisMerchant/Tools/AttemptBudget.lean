import AegisMerchant.Tools.OutboxLaws

/-!
# Retries against attempts

`Outbox.attempt` counts the failed calls of one row, and `UNIQUE(case_id, action_type, attempt)`
spans the rows of a case. A new row starts at zero and every failure adds one, so what can be stored
depends on how often the other attempts of the case have failed: the executions of a case all store
what they mean to exactly when no two of its attempts have ever failed equally often.

`phaseOne_tracks` and `failure_tracks` follow the counters through an execution,
`execution_stores_iff` is one, and `storesAll_iff` any number of them. `not_storesAll` is a first
attempt that goes out at once.
-/

namespace AegisMerchant

open Time Rows

/-! ## Executions of one case -/

/-- What came of the provider call of one execution. -/
inductive CallOutcome where
  /-- The process died before anything was recorded. -/
  | crashed
  | sent (result : PaymentLinkResult)
  | retryable (message : String)
  | permanent (message : String)

/-- The call failed, and the failure is recorded on the row. -/
def CallOutcome.Fails : CallOutcome → Prop
  | retryable _ | permanent _ => True
  | _ => False

structure Execution where
  state : RecoveryState
  applied : AppliedAction
  outcome : CallOutcome

/-- Phase one, then what the executor does with the outcome. -/
def Execution.program (ex : OutboxExecutor) (e : Execution) : Act Unit := do
  let outboxId ← OutboxExecutor.phaseOne e.state e.applied
  match e.outcome with
  | .crashed => return ()
  | .sent result => OutboxExecutor.phaseTwo e.state e.applied outboxId result
  | .retryable m => ex.scheduleRetry outboxId (.providerRetryable m)
  | .permanent m => OutboxExecutor.deadLetter outboxId (.providerPermanent m) m

/-- The failures recorded for a reference, none when it has no row. -/
def attemptOf (reference : String) (t : Tables) : Option ℤ :=
  (t.outboxByReference reference).map (·.attempt)

/-- **An execution stores what it means to**: phase one has a row under the attempt's own reference,
and a failure is on it. -/
def Execution.Stores (ex : OutboxExecutor) (e : Execution) (w : World) : Prop :=
  let started := (OutboxExecutor.phaseOne e.state e.applied).run World.handler w
  let finished := (e.program ex).run World.handler w
  (∃ id, started.1 = .ok id ∧ ∃ row ∈ started.2.db.tables.outbox,
      row.id = id ∧ row.referenceId = e.applied.referenceId) ∧
    (e.outcome.Fails → finished.1 = .ok () ∧
      attemptOf e.applied.referenceId finished.2.db.tables =
        (attemptOf e.applied.referenceId started.2.db.tables).map (· + 1))

/-- Every execution of a sequence stores what it means to. -/
def StoresAll (ex : OutboxExecutor) : World → List Execution → Prop
  | _, [] => True
  | w, e :: rest => e.Stores ex w ∧ StoresAll ex ((e.program ex).run World.handler w).2 rest

/-! ## Failure counts -/

/-- The references of a case's attempts, in the order they started, each with its failures. -/
abbrev FailureCounts := List (String × ℤ)

/-- No two attempts have failed equally often. -/
def FailureCounts.Distinct (c : FailureCounts) : Prop := (c.map (·.2)).Nodup

/-- An attempt starts with no failures; it starts once. -/
def FailureCounts.start (c : FailureCounts) (reference : String) : FailureCounts :=
  if reference ∈ c.map (·.1) then c else c ++ [(reference, 0)]

def FailureCounts.fail (c : FailureCounts) (reference : String) : FailureCounts :=
  c.map fun entry => if entry.1 = reference then (entry.1, entry.2 + 1) else entry

def FailureCounts.step (c : FailureCounts) (e : Execution) : FailureCounts :=
  match e.outcome with
  | .crashed | .sent _ => c.start e.applied.referenceId
  | .retryable _ | .permanent _ => (c.start e.applied.referenceId).fail e.applied.referenceId

/-- **The condition**: at no point of a sequence have two attempts failed equally often. -/
def NeverLevel : FailureCounts → List Execution → Prop
  | _, [] => True
  | c, e :: rest =>
    (c.start e.applied.referenceId).Distinct ∧ (c.step e).Distinct ∧ NeverLevel (c.step e) rest

/-! ## The rows of the case hold the counts -/

/-- Every random id still to come is new. -/
structure FreshIds (w : World) : Prop where
  injective : ∀ m n, w.tick ≤ m → w.tick ≤ n → (w.fate m).hex = (w.fate n).hex → m = n
  outbox : ∀ n, w.tick ≤ n → ∀ r ∈ w.db.tables.outbox, r.id ≠ newId "obx" (w.fate n).hex
  deadLetters : ∀ n, w.tick ≤ n → ∀ d ∈ w.db.tables.deadLetters, d.id ≠ newId "dlq" (w.fate n).hex

/-- The outbox rows of a case, and nobody else's, are its attempts with their failure counts. -/
structure Tracks (caseId : String) (refs : List String) (w : World) (c : FailureCounts) : Prop where
  rows : ((w.db.tables.outbox.filter fun r => r.caseId = caseId).map
    fun r => (r.referenceId, r.attempt)) = c
  type : ∀ r ∈ w.db.tables.outbox, r.caseId = caseId → r.actionType = .createPaymentLink
  others : ∀ r ∈ w.db.tables.outbox, r.referenceId ∈ refs → r.caseId = caseId
  case : ∃ k ∈ w.db.tables.cases, k.id = caseId
  fresh : FreshIds w

/-- `UNIQUE(case_id, action_type, attempt)`, among the rows of one case. -/
theorem distinct_of_unique {rows : List OutboxRow} {caseId : String}
    (hunique : (rows.map fun r => (r.caseId, r.actionType, r.attempt)).Nodup)
    (htype : ∀ r ∈ rows, r.caseId = caseId → r.actionType = .createPaymentLink) :
    FailureCounts.Distinct
      ((rows.filter fun r => r.caseId = caseId).map fun r => (r.referenceId, r.attempt)) := by
  rw [FailureCounts.Distinct, List.map_map, List.Nodup, List.pairwise_map, List.pairwise_filter]
  rw [List.Nodup, List.pairwise_map] at hunique
  refine hunique.imp_of_mem fun {a b} ha hb hab hacase hbcase heq => hab ?_
  have hacase : a.caseId = caseId := by simpa using hacase
  have hbcase : b.caseId = caseId := by simpa using hbcase
  have heq : a.attempt = b.attempt := heq
  rw [hacase, hbcase, htype a ha hacase, htype b hb hbcase, heq]

namespace Tracks

variable {caseId : String} {refs : List String} {w : World} {c : FailureCounts}

theorem mem_counts (h : Tracks caseId refs w c) {entry : String × ℤ} :
    entry ∈ c ↔ ∃ r ∈ w.db.tables.outbox, r.caseId = caseId ∧
      r.referenceId = entry.1 ∧ r.attempt = entry.2 := by
  rw [← h.rows]
  simp [Prod.ext_iff, and_assoc]

theorem mem_started (h : Tracks caseId refs w c) {reference : String} (href : reference ∈ refs) :
    reference ∈ c.map (·.1) ↔ ∃ r ∈ w.db.tables.outbox, r.referenceId = reference := by
  constructor
  · intro hmem
    obtain ⟨entry, hentry, rfl⟩ := List.mem_map.mp hmem
    obtain ⟨r, hr, -, hrref, -⟩ := h.mem_counts.mp hentry
    exact ⟨r, hr, hrref⟩
  · rintro ⟨r, hr, rfl⟩
    exact List.mem_map.mpr ⟨(r.referenceId, r.attempt),
      h.mem_counts.mpr ⟨r, hr, h.others r hr href, rfl, rfl⟩, rfl⟩

/-- The constraint itself keeps the counts apart. -/
theorem distinct (h : Tracks caseId refs w c) : c.Distinct := by
  rw [← h.rows]
  exact distinct_of_unique w.db.valid.outbox_attempt h.type

/-- Time changes nothing. -/
theorem after (h : Tracks caseId refs w c) (n : ℕ) : Tracks caseId refs (w.after n) c where
  rows := by rw [World.after_db]; exact h.rows
  type := by rw [World.after_db]; exact h.type
  others := by rw [World.after_db]; exact h.others
  case := by rw [World.after_db]; exact h.case
  fresh :=
    { injective := fun m k hm hk => by
        rw [World.after_tick] at hm hk
        rw [World.after_fate]
        exact h.fresh.injective m k (by omega) (by omega)
      outbox := fun m hm => by
        rw [World.after_tick] at hm
        rw [World.after_db, World.after_fate]
        exact h.fresh.outbox m (by omega)
      deadLetters := fun m hm => by
        rw [World.after_tick] at hm
        rw [World.after_db, World.after_fate]
        exact h.fresh.deadLetters m (by omega) }

end Tracks

/-! ## Phase one -/

/-- The database takes the intent of a new attempt exactly when no attempt of the case is without a
failure. -/
theorem intent_fits_iff {caseId : String} {refs : List String} {w : World} {c : FailureCounts}
    (h : Tracks caseId refs w c) {s : RecoveryState} {applied : AppliedAction}
    (hcase : s.caseId = caseId)
    (hnone : w.db.tables.outboxByReference applied.referenceId = none) :
    (OutboxExecutor.intentOf (w.after 1) s applied).Fits w.db.tables ↔
      FailureCounts.Distinct (c ++ [(applied.referenceId, 0)]) := by
  rw [FailureCounts.Distinct, nodup_map_concat]
  constructor
  · intro hfits
    refine ⟨h.distinct, fun entry hentry heq => ?_⟩
    obtain ⟨r, hr, hrcase, -, hrattempt⟩ := h.mem_counts.mp hentry
    exact hfits.attempt_ne r hr ⟨hrcase.trans hcase.symm, h.type r hr hrcase, hrattempt.trans heq⟩
  -- the ids are fresh and the case is there: only the attempt may clash
  · rintro ⟨-, hzero⟩
    refine ⟨fun r hr => ?_, outboxByReference_eq_none.mp hnone, fun r hr heq => ?_, le_refl 0, ?_⟩
    · have := h.fresh.outbox (w.tick + 1) (by omega) r hr
      simpa [OutboxExecutor.intentOf] using this
    · obtain ⟨hrcase, -, hrattempt⟩ := heq
      refine hzero (r.referenceId, r.attempt) ?_ hrattempt
      exact h.mem_counts.mpr ⟨r, hr, hrcase.trans hcase, rfl, rfl⟩
    · obtain ⟨k, hk, hkid⟩ := h.case
      exact ⟨k, hk, hkid.trans hcase.symm⟩

/-- The counts after the intent of a new attempt is in. -/
theorem tracks_intent {caseId : String} {refs : List String} {w : World} {c : FailureCounts}
    (h : Tracks caseId refs w c) {s : RecoveryState} {applied : AppliedAction} {db : Database}
    (hcase : s.caseId = caseId)
    (hcommit : w.db.commit [.insertOutbox (OutboxExecutor.intentOf (w.after 1) s applied)] = some db) :
    Tracks caseId refs ((w.after 5).committed
      [.insertOutbox (OutboxExecutor.intentOf (w.after 1) s applied)] db)
      (c ++ [(applied.referenceId, 0)]) := by
  have htables := Database.commit_eq_some.mp hcommit
  have houtbox : db.tables.outbox =
      w.db.tables.outbox ++ [OutboxExecutor.intentOf (w.after 1) s applied] := by
    rw [htables]; rfl
  -- the row stored is the last one; every other was there before
  have hmem : ∀ r, r ∈ db.tables.outbox → r ∈ w.db.tables.outbox ∨
      r = OutboxExecutor.intentOf (w.after 1) s applied := by
    intro r hr
    rw [houtbox] at hr
    simpa using hr
  refine ⟨?_, ?_, ?_, ?_, ?_, ?_, ?_⟩
  · rw [World.committed_db, houtbox, List.filter_append, List.map_append, h.rows]
    simp [OutboxExecutor.intentOf, hcase]
  · intro r hr hrcase
    rcases hmem r hr with hr | rfl
    · exact h.type r hr hrcase
    · rfl
  · intro r hr href
    rcases hmem r hr with hr | rfl
    · exact h.others r hr href
    · exact hcase
  · rw [World.committed_db, htables]
    exact h.case
  · intro m n hm hn
    rw [World.committed_tick, World.after_tick] at hm hn
    rw [World.committed_fate, World.after_fate]
    exact h.fresh.injective m n (by omega) (by omega)
  · intro n hn r hr
    rw [World.committed_tick, World.after_tick] at hn
    rw [World.committed_fate, World.after_fate]
    rcases hmem r hr with hr | rfl
    · exact h.fresh.outbox n (by omega) r hr
    · intro heq
      have hhex := newId_inj.mp heq
      rw [World.after_fate, World.after_tick] at hhex
      have := h.fresh.injective (w.tick + 1) n (by omega) (by omega) hhex
      omega
  · intro n hn d hd
    rw [World.committed_tick, World.after_tick] at hn
    rw [World.committed_fate, World.after_fate]
    rw [World.committed_db, htables] at hd
    exact h.fresh.deadLetters n (by omega) d hd

/-- **Phase one** stores the attempt, or is refused because another attempt has no failure yet. -/
theorem phaseOne_tracks {caseId : String} {refs : List String} {w : World} {c : FailureCounts}
    (h : Tracks caseId refs w c) {s : RecoveryState} {applied : AppliedAction}
    (hcase : s.caseId = caseId) (href : applied.referenceId ∈ refs) :
    (∃ id w₁, (OutboxExecutor.phaseOne s applied).run World.handler w = (.ok id, w₁) ∧
        Tracks caseId refs w₁ (c.start applied.referenceId) ∧
        ∃ row ∈ w₁.db.tables.outbox, row.id = id ∧ row.referenceId = applied.referenceId) ∨
      (∃ w₁, (OutboxExecutor.phaseOne s applied).run World.handler w =
          (.error .integrityError, w₁)) ∧
        ¬(c.start applied.referenceId).Distinct := by
  cases hfound : w.db.tables.outboxByReference applied.referenceId with
  | some row =>
    obtain ⟨hrow, hrowref⟩ := mem_of_outboxByReference hfound
    -- the reference was started before, and its row is read back
    have hstart : c.start applied.referenceId = c :=
      if_pos ((h.mem_started href).mpr ⟨row, hrow, hrowref⟩)
    refine .inl ⟨row.id, w.after 1, OutboxExecutor.run_phaseOne_of_some hfound, ?_, row, ?_, rfl,
      hrowref⟩
    · rw [hstart]
      exact h.after 1
    · rw [World.after_db]
      exact hrow
  | none =>
    -- a new reference starts with no failed attempt
    have hstart : c.start applied.referenceId = c ++ [(applied.referenceId, 0)] := by
      refine if_neg fun hmem => ?_
      obtain ⟨r, hr, hrref⟩ := (h.mem_started href).mp hmem
      exact outboxByReference_eq_none.mp hfound r hr hrref
    have hrun := OutboxExecutor.run_phaseOne_of_none (s := s) hfound
    cases hcommit : w.db.commit [.insertOutbox (OutboxExecutor.intentOf (w.after 1) s applied)] with
    | some db =>
      rw [hcommit] at hrun
      refine .inl ⟨_, _, hrun, ?_, OutboxExecutor.intentOf (w.after 1) s applied, ?_, rfl, rfl⟩
      · rw [hstart]
        exact tracks_intent h hcase hcommit
      · rw [World.committed_db, Database.commit_eq_some.mp hcommit]
        exact List.mem_append_right _ (List.mem_singleton.mpr rfl)
    | none =>
      rw [hcommit] at hrun
      refine .inr ⟨⟨_, hrun⟩, fun hdistinct => ?_⟩
      rw [hstart, ← intent_fits_iff h hcase hfound, ← valid_insertOutbox w.db.valid] at hdistinct
      exact Database.commit_eq_none.mp hcommit hdistinct

/-! ## A recorded failure -/

/-- The rows of the case after one more failure of one of them. -/
theorem rows_failed {db : Database} {caseId : String} {c : FailureCounts} {row new : OutboxRow}
    (hrows : ((db.tables.outbox.filter fun r => r.caseId = caseId).map
      fun r => (r.referenceId, r.attempt)) = c)
    (hrow : row ∈ db.tables.outbox) (hnew : new.attempt = row.attempt + 1) :
    (((updateWhere (·.id) row.id (row.store new) db.tables.outbox).filter
      fun r => r.caseId = caseId).map fun r => (r.referenceId, r.attempt)) =
        c.fail row.referenceId := by
  rw [← hrows, FailureCounts.fail, updateWhere, List.filter_map, List.map_map, List.map_map]
  have hfilter : (db.tables.outbox.filter
      ((fun r => decide (r.caseId = caseId)) ∘ fun r => if r.id = row.id then row.store new r else r)) =
      db.tables.outbox.filter fun r => r.caseId = caseId := by
    refine List.filter_congr fun r _ => ?_
    simp only [Function.comp_apply]
    split <;> rfl
  rw [hfilter]
  refine List.map_congr_left fun r hr => ?_
  have hr := (List.mem_filter.mp hr).1
  simp only [Function.comp_apply]
  by_cases hid : r.id = row.id
  · obtain rfl := eq_of_key_eq db.valid.outbox_id hr hrow hid
    have hdirty : dirty r.attempt new.attempt r.attempt = r.attempt + 1 := by
      rw [dirty, if_neg (by omega), hnew]
    simp [OutboxRow.store, hdirty]
  · have href : r.referenceId ≠ row.referenceId := fun href =>
      hid (congrArg (·.id) (eq_of_key_eq db.valid.outbox_reference hr hrow href))
    simp [hid, href]

/-- The database takes one more failure of an attempt exactly when no attempt of the case has failed
that often. -/
theorem failure_valid_iff {caseId : String} {refs : List String} {w : World} {c : FailureCounts}
    (h : Tracks caseId refs w c) {row : OutboxRow} (hrow : row ∈ w.db.tables.outbox)
    (hcase : row.caseId = caseId) {ws : List Write}
    (hws : OutboxExecutor.FailureWrites w row ws) :
    (w.db.tables.applyAll ws).Valid ↔ (c.fail row.referenceId).Distinct := by
  obtain ⟨new, extra, rfl, hnew, hextra⟩ := hws
  have hupdate : (w.db.tables.applyAll (.updateOutbox row new :: extra)).Valid ↔
      (w.db.tables.apply (.updateOutbox row new)).Valid := by
    rcases hextra with rfl | ⟨d, rfl, hd, hdid⟩
    · rfl
    · show ((w.db.tables.apply _).apply (.insertDeadLetter d)).Valid ↔ _
      rw [valid_insertDeadLetter]
      refine and_iff_left ⟨fun d' hd' => ?_, ?_⟩
      · rw [hdid]
        exact h.fresh.deadLetters (w.tick + 1) (by omega) d' hd'
      · refine ⟨_, updateWhere_of_mem hrow, ?_⟩
        rw [if_pos rfl, hd]
        rfl
  rw [hupdate]
  constructor
  · intro hvalid
    rw [← rows_failed h.rows hrow hnew]
    refine distinct_of_unique hvalid.outbox_attempt fun r hr hrcase => ?_
    obtain ⟨r₀, hr₀, rfl⟩ := mem_updateWhere.mp hr
    split at hrcase <;> split <;> exact h.type r₀ hr₀ hrcase
  · intro hdistinct
    rw [valid_updateOutbox w.db.valid]
    intro r hr hid
    obtain rfl := eq_of_key_eq w.db.valid.outbox_id hr hrow hid
    have hdirty : (r.store new r).attempt = r.attempt + 1 := by
      show dirty r.attempt new.attempt r.attempt = _
      rw [dirty, if_neg (by omega), hnew]
    rw [hdirty]
    refine ⟨by have := w.db.valid.outbox_nonneg r hr; omega, fun r' hr' hid' heq => ?_⟩
    obtain ⟨hcase', -, hattempt⟩ := heq
    have href : r'.referenceId ≠ r.referenceId := fun href =>
      hid' (congrArg (·.id) (eq_of_key_eq w.db.valid.outbox_reference hr' hr href))
    have hmem : (r.referenceId, r.attempt + 1) ∈ c.fail r.referenceId :=
      List.mem_map.mpr ⟨(r.referenceId, r.attempt), h.mem_counts.mpr ⟨r, hr, hcase, rfl, rfl⟩,
        by simp⟩
    have hmem' : (r'.referenceId, r'.attempt) ∈ c.fail r.referenceId :=
      List.mem_map.mpr ⟨(r'.referenceId, r'.attempt),
        h.mem_counts.mpr ⟨r', hr', hcase'.trans hcase, rfl, rfl⟩, by simp [href]⟩
    have := List.inj_on_of_nodup_map hdistinct hmem' hmem hattempt
    exact href (congrArg Prod.fst this)

/-- The outbox and the dead letters after a recorded failure. -/
theorem applyAll_failure {w : World} {row : OutboxRow} {ws : List Write} (t : Tables)
    (hws : OutboxExecutor.FailureWrites w row ws) :
    ∃ new, new.attempt = row.attempt + 1 ∧
      (t.applyAll ws).outbox = updateWhere (·.id) row.id (row.store new) t.outbox ∧
      (t.applyAll ws).cases = t.cases ∧
      ∀ d ∈ (t.applyAll ws).deadLetters, d ∈ t.deadLetters ∨
        d.id = newId "dlq" (w.fate (w.tick + 1)).hex := by
  obtain ⟨new, extra, rfl, hnew, rfl | ⟨d, rfl, -, hdid⟩⟩ := hws
  · exact ⟨new, hnew, rfl, rfl, fun d hd => .inl hd⟩
  · refine ⟨new, hnew, rfl, rfl, fun d' hd' => ?_⟩
    rcases List.mem_append.mp hd' with hd' | hd'
    · exact .inl hd'
    · exact .inr (List.mem_singleton.mp hd' ▸ hdid)

/-- The counts after a failure went in. -/
theorem tracks_failure {caseId : String} {refs : List String} {w : World} {c : FailureCounts}
    (h : Tracks caseId refs w c) {row : OutboxRow} (hrow : row ∈ w.db.tables.outbox)
    {ws : List Write} {db : Database} (hws : OutboxExecutor.FailureWrites w row ws)
    (hcommit : w.db.commit ws = some db) :
    Tracks caseId refs ((w.after 4).committed ws db) (c.fail row.referenceId) ∧
      attemptOf row.referenceId db.tables = some (row.attempt + 1) := by
  have htables := Database.commit_eq_some.mp hcommit
  obtain ⟨new, hnew, houtbox, hcases, hdead⟩ := applyAll_failure w.db.tables hws
  rw [← htables] at houtbox hcases hdead
  have hmem : ∀ r ∈ db.tables.outbox, ∃ r₀ ∈ w.db.tables.outbox, r.id = r₀.id ∧
      r.caseId = r₀.caseId ∧ r.actionType = r₀.actionType ∧ r.referenceId = r₀.referenceId := by
    intro r hr
    obtain ⟨r₀, hr₀, rfl⟩ := mem_updateWhere.mp (houtbox ▸ hr)
    refine ⟨r₀, hr₀, ?_⟩
    split <;> exact ⟨rfl, rfl, rfl, rfl⟩
  refine ⟨⟨?_, ?_, ?_, ?_, ?_, ?_, ?_⟩, ?_⟩
  · rw [World.committed_db, houtbox]
    exact rows_failed h.rows hrow hnew
  · intro r hr hrcase
    obtain ⟨r₀, hr₀, -, hcase, htype, -⟩ := hmem r hr
    exact htype.trans (h.type r₀ hr₀ (hcase.symm.trans hrcase))
  · intro r hr href
    obtain ⟨r₀, hr₀, -, hcase, -, hrref⟩ := hmem r hr
    exact hcase.trans (h.others r₀ hr₀ (hrref ▸ href))
  · rw [World.committed_db, hcases]
    exact h.case
  · intro m n hm hn
    rw [World.committed_tick, World.after_tick] at hm hn
    rw [World.committed_fate, World.after_fate]
    exact h.fresh.injective m n (by omega) (by omega)
  · intro n hn r hr
    rw [World.committed_tick, World.after_tick] at hn
    rw [World.committed_fate, World.after_fate]
    obtain ⟨r₀, hr₀, hid, -⟩ := hmem r hr
    rw [hid]
    exact h.fresh.outbox n (by omega) r₀ hr₀
  · intro n hn d hd
    rw [World.committed_tick, World.after_tick] at hn
    rw [World.committed_fate, World.after_fate]
    rcases hdead d hd with hd | hdid
    · exact h.fresh.deadLetters n (by omega) d hd
    · rw [hdid]
      intro heq
      have := h.fresh.injective (w.tick + 1) n (by omega) (by omega) (newId_inj.mp heq)
      omega
  · have hupdated : row.store new row ∈ db.tables.outbox := by
      rw [houtbox]
      exact updateWhere_mem rfl hrow
    have hfound : db.tables.outboxByReference row.referenceId = some (row.store new row) :=
      outboxByReference_of_mem hupdated
    rw [attemptOf, hfound]
    show some (dirty row.attempt new.attempt row.attempt) = _
    rw [dirty, if_neg (by omega), hnew]

/-- **Recording a failure** adds it to the row, or is refused because another attempt has failed as
often. -/
theorem failure_tracks {caseId : String} {refs : List String} {w : World} {c : FailureCounts}
    (h : Tracks caseId refs w c) {row : OutboxRow} (hrow : row ∈ w.db.tables.outbox)
    (hcase : row.caseId = caseId) {ws : List Write}
    (hws : OutboxExecutor.FailureWrites w row ws) :
    ((w.commitLast 4 ws).1 = .ok () ∧
        attemptOf row.referenceId (w.commitLast 4 ws).2.db.tables = some (row.attempt + 1) ∧
        Tracks caseId refs (w.commitLast 4 ws).2 (c.fail row.referenceId)) ∨
      (w.commitLast 4 ws).1 = .error .integrityError ∧ ¬(c.fail row.referenceId).Distinct := by
  unfold World.commitLast
  cases hcommit : w.db.commit ws with
  | some db =>
    obtain ⟨htracks, hattempt⟩ := tracks_failure h hrow hws hcommit
    exact .inl ⟨rfl, hattempt, htracks⟩
  | none =>
    refine .inr ⟨rfl, fun hdistinct => Database.commit_eq_none.mp hcommit ?_⟩
    exact (failure_valid_iff h hrow hcase hws).mpr hdistinct

/-! ## Recording a success -/

/-- A statement that leaves the attempt counters alone. -/
def Write.KeepsAttempts : Write → Prop
  | .updateOutbox read new => new.attempt = read.attempt
  | .insertAction _ | .insertContact _ => True
  | _ => False

/-- A command that commits no other statements than those. -/
def Cmd.KeepsAttempts : {β : Type} → Cmd β → Prop
  | _, .commit ws => ∀ w ∈ ws, w.KeepsAttempts
  | _, _ => True

theorem phaseTwo_keepsAttempts (s : RecoveryState) (applied : AppliedAction) (outboxId : String)
    (result : PaymentLinkResult) :
    (OutboxExecutor.phaseTwo s applied outboxId result).All Cmd.KeepsAttempts fun _ => True := by
  unfold OutboxExecutor.phaseTwo OutboxExecutor.contactWrites
  simp only [Prog.all_bind, Act.all_nowUtc, Act.all_select]
  refine ⟨trivial, fun now => ⟨trivial, fun found => ?_⟩⟩
  cases found with
  | none => trivial
  | some row =>
    simp only
    split
    · trivial
    · split <;> simp [Cmd.KeepsAttempts, Write.KeepsAttempts]

/-- The columns of an outbox row that no success changes. -/
def OutboxRow.identity (r : OutboxRow) : String × String × ActionType × String × ℤ :=
  (r.id, r.caseId, r.actionType, r.referenceId, r.attempt)

theorem apply_keepsAttempts {write : Write} (h : write.KeepsAttempts) (t : Tables) :
    (t.apply write).outbox.map OutboxRow.identity = t.outbox.map OutboxRow.identity ∧
      (t.apply write).cases = t.cases ∧ (t.apply write).deadLetters = t.deadLetters := by
  cases write with
  | updateOutbox read new =>
    refine ⟨map_updateWhere (f := read.store new) _ fun r => ?_, rfl, rfl⟩
    have hnew : new.attempt = read.attempt := h
    simp [OutboxRow.identity, OutboxRow.store, hnew]
  | insertAction _ | insertContact _ => exact ⟨rfl, rfl, rfl⟩
  | _ => exact h.elim

theorem applyAll_keepsAttempts {ws : List Write} (h : ∀ write ∈ ws, write.KeepsAttempts)
    (t : Tables) :
    (t.applyAll ws).outbox.map OutboxRow.identity = t.outbox.map OutboxRow.identity ∧
      (t.applyAll ws).cases = t.cases ∧ (t.applyAll ws).deadLetters = t.deadLetters := by
  induction ws generalizing t with
  | nil => exact ⟨rfl, rfl, rfl⟩
  | cons write rest ih =>
    obtain ⟨ho, hc, hd⟩ := ih (fun v hv => h v (List.mem_cons_of_mem _ hv)) (t.apply write)
    obtain ⟨ho', hc', hd'⟩ := apply_keepsAttempts (h write List.mem_cons_self) t
    exact ⟨ho.trans ho', hc.trans hc', hd.trans hd'⟩

/-- The counts are read off columns that no success changes. -/
theorem Tracks.of_identity {caseId : String} {refs : List String} {w w' : World}
    {c : FailureCounts} (h : Tracks caseId refs w c)
    (houtbox : w'.db.tables.outbox.map OutboxRow.identity =
      w.db.tables.outbox.map OutboxRow.identity)
    (hcases : w'.db.tables.cases = w.db.tables.cases)
    (hdead : w'.db.tables.deadLetters = w.db.tables.deadLetters) (hfate : w'.fate = w.fate)
    (htick : w.tick ≤ w'.tick) : Tracks caseId refs w' c := by
  have hmem : ∀ r ∈ w'.db.tables.outbox, ∃ r₀ ∈ w.db.tables.outbox, r₀.identity = r.identity := by
    intro r hr
    have hr : r.identity ∈ w.db.tables.outbox.map OutboxRow.identity :=
      houtbox ▸ List.mem_map_of_mem hr
    exact List.mem_map.mp hr
  have hrows : ∀ t : Tables, ((t.outbox.filter fun r => r.caseId = caseId).map
      fun r => (r.referenceId, r.attempt)) =
      ((t.outbox.map OutboxRow.identity).filter fun q => q.2.1 = caseId).map
        fun q => (q.2.2.2.1, q.2.2.2.2) := by
    intro t
    rw [List.filter_map, List.map_map]
    rfl
  refine ⟨?_, ?_, ?_, ?_, ?_, ?_, ?_⟩
  · rw [hrows, houtbox, ← hrows]
    exact h.rows
  · intro r hr hrcase
    obtain ⟨r₀, hr₀, heq⟩ := hmem r hr
    simp only [OutboxRow.identity, Prod.mk.injEq] at heq
    exact heq.2.2.1 ▸ h.type r₀ hr₀ (heq.2.1.trans hrcase)
  · intro r hr href
    obtain ⟨r₀, hr₀, heq⟩ := hmem r hr
    simp only [OutboxRow.identity, Prod.mk.injEq] at heq
    exact heq.2.1 ▸ h.others r₀ hr₀ (heq.2.2.2.1 ▸ href)
  · rw [hcases]
    exact h.case
  · intro m n hm hn
    rw [hfate]
    exact h.fresh.injective m n (htick.trans hm) (htick.trans hn)
  · intro n hn r hr
    obtain ⟨r₀, hr₀, heq⟩ := hmem r hr
    simp only [OutboxRow.identity, Prod.mk.injEq] at heq
    rw [hfate, ← heq.1]
    exact h.fresh.outbox n (htick.trans hn) r₀ hr₀
  · intro n hn d hd
    rw [hfate]
    exact h.fresh.deadLetters n (htick.trans hn) d (hdead ▸ hd)

/-- A command that records no failure keeps the counts. -/
theorem tracks_step {caseId : String} {refs : List String} {w : World} {c : FailureCounts}
    (h : Tracks caseId refs w c) {β : Type} {cmd : Cmd β} (hcmd : cmd.KeepsAttempts) :
    Tracks caseId refs (World.handler.exec cmd w).2 c := by
  obtain ⟨hfate, htick⟩ := World.exec_fate cmd w
  by_cases hquiet : cmd.Quiet
  · obtain ⟨hdb, -⟩ := World.exec_quiet hquiet w
    exact h.of_identity (by rw [hdb]) (by rw [hdb]) (by rw [hdb]) hfate (by omega)
  · cases cmd with
    | commit ws =>
      have hexec : (World.handler.exec (.commit ws) w).2.db = w.db ∨
          ∃ db, w.db.commit ws = some db ∧ (World.handler.exec (.commit ws) w).2.db = db := by
        simp only [World.handler, World.serve, World.advance_db]
        cases w.db.commit ws with
        | none => exact .inl rfl
        | some db => exact .inr ⟨db, rfl, rfl⟩
      rcases hexec with hdb | ⟨db, hcommit, hdb⟩
      · exact h.of_identity (by rw [hdb]) (by rw [hdb]) (by rw [hdb]) hfate (by omega)
      · obtain ⟨ho, hc, hd⟩ := applyAll_keepsAttempts hcmd w.db.tables
        have htables := Database.commit_eq_some.mp hcommit
        rw [← htables] at ho hc hd
        exact h.of_identity (by rw [hdb, ho]) (by rw [hdb, hc]) (by rw [hdb, hd]) hfate (by omega)
    | _ => exact absurd trivial hquiet

/-- A success keeps the counts, whether or not it can be recorded. -/
theorem phaseTwo_tracks {caseId : String} {refs : List String} {w : World} {c : FailureCounts}
    (h : Tracks caseId refs w c) (s : RecoveryState) (applied : AppliedAction) (outboxId : String)
    (result : PaymentLinkResult) :
    Tracks caseId refs
      ((OutboxExecutor.phaseTwo s applied outboxId result).run World.handler w).2 c := by
  have hwp := (phaseTwo_keepsAttempts s applied outboxId result).wp
    (C := Prog.alone World.handler) (I := fun w => Tracks caseId refs w c)
    (fun huv hu => huv ▸ hu) (fun _ _ hcmd hu _ => ⟨trivial, tracks_step hu hcmd⟩) h
  exact ((Prog.wp_alone World.handler _ _ _).mp hwp).2

/-! ## Whole sequences -/

/-- **Step.** An execution stores what it means to exactly when it leaves no two attempts level. -/
theorem execution_stores_iff (ex : OutboxExecutor) {caseId : String} {refs : List String}
    {w : World} {c : FailureCounts} (h : Tracks caseId refs w c) {e : Execution}
    (hcase : e.state.caseId = caseId) (href : e.applied.referenceId ∈ refs) :
    (e.Stores ex w ↔ (c.start e.applied.referenceId).Distinct ∧ (c.step e).Distinct) ∧
      (e.Stores ex w → Tracks caseId refs ((e.program ex).run World.handler w).2 (c.step e)) := by
  rcases phaseOne_tracks h hcase href with
    ⟨id, w₁, hrun, htracks, row, hrow, hid, hrowref⟩ | ⟨⟨w₁, hrun⟩, hlevel⟩
  · have hprogram : (e.program ex).run World.handler w =
        (match e.outcome with
        | .crashed => pure ()
        | .sent result => OutboxExecutor.phaseTwo e.state e.applied id result
        | .retryable m => ex.scheduleRetry id (.providerRetryable m)
        | .permanent m => OutboxExecutor.deadLetter id (.providerPermanent m) m : Act Unit).run
          World.handler w₁ := by
      unfold Execution.program
      rw [Prog.run_bind, hrun]
    have hstarted : ∃ id', Except.ok id = (Except.ok id' : Except PyError String) ∧
        ∃ row ∈ w₁.db.tables.outbox, row.id = id' ∧ row.referenceId = e.applied.referenceId :=
      ⟨id, rfl, row, hrow, hid, hrowref⟩
    have hcaseRow : row.caseId = caseId := htracks.others row hrow (hrowref ▸ href)
    have hattempt : attemptOf e.applied.referenceId w₁.db.tables = some row.attempt := by
      rw [attemptOf, ← hrowref, outboxByReference_of_mem hrow]
      rfl
    have hbyId : w₁.db.tables.outboxById id = some row := hid ▸ outboxById_of_mem hrow
    unfold Execution.Stores FailureCounts.step
    simp only [hrun, hprogram, hattempt, Option.map_some]
    -- both kinds of failure count the same
    have hfailing : ∀ {ws : List Write} {p : Act Unit}, OutboxExecutor.FailureWrites w₁ row ws →
        p.run World.handler w₁ = w₁.commitLast 4 ws →
          (((p.run World.handler w₁).1 = .ok () ∧
              attemptOf e.applied.referenceId (p.run World.handler w₁).2.db.tables =
                some (row.attempt + 1)) ↔
            ((c.start e.applied.referenceId).fail e.applied.referenceId).Distinct) ∧
          ((p.run World.handler w₁).1 = .ok () → Tracks caseId refs (p.run World.handler w₁).2
            ((c.start e.applied.referenceId).fail e.applied.referenceId)) := by
      intro ws p hws hp
      rw [hp]
      rw [← hrowref] at htracks ⊢
      rcases failure_tracks htracks hrow hcaseRow hws with ⟨hok, hone, hfailed⟩ | ⟨herr, hlevel⟩
      · exact ⟨iff_of_true ⟨hok, hone⟩ hfailed.distinct, fun _ => hfailed⟩
      · refine ⟨iff_of_false (fun hok => ?_) hlevel, fun hok => ?_⟩
        · rw [herr] at hok
          exact nomatch hok.1
        · rw [herr] at hok
          exact nomatch hok
    cases houtcome : e.outcome with
    | crashed =>
      exact ⟨iff_of_true ⟨hstarted, fun hf => hf.elim⟩ ⟨htracks.distinct, htracks.distinct⟩,
        fun _ => htracks⟩
    | sent result =>
      exact ⟨iff_of_true ⟨hstarted, fun hf => hf.elim⟩ ⟨htracks.distinct, htracks.distinct⟩,
        fun _ => phaseTwo_tracks htracks e.state e.applied id result⟩
    | retryable m =>
      obtain ⟨ws, hws, hp⟩ := OutboxExecutor.run_scheduleRetry ex hbyId (.providerRetryable m)
      obtain ⟨hiff, hkeep⟩ := hfailing hws hp
      refine ⟨?_, fun hstores => hkeep (hstores.2 trivial).1⟩
      rw [← hiff]
      exact ⟨fun hs => ⟨htracks.distinct, hs.2 trivial⟩, fun hs => ⟨hstarted, fun _ => hs.2⟩⟩
    | permanent m =>
      obtain ⟨ws, hws, hp⟩ := OutboxExecutor.run_deadLetter hbyId (.providerPermanent m) m
      obtain ⟨hiff, hkeep⟩ := hfailing hws hp
      refine ⟨?_, fun hstores => hkeep (hstores.2 trivial).1⟩
      rw [← hiff]
      exact ⟨fun hs => ⟨htracks.distinct, hs.2 trivial⟩, fun hs => ⟨hstarted, fun _ => hs.2⟩⟩
  · -- phase one raised, and nothing after it ran
    have hno : ¬e.Stores ex w := by
      rintro ⟨⟨id, hok, -⟩, -⟩
      rw [hrun] at hok
      cases hok
    exact ⟨iff_of_false hno fun hd => hlevel hd.1, fun hs => absurd hs hno⟩

/-- **Run.** From a state that holds the counts. -/
theorem storesAll_iff_of_tracks (ex : OutboxExecutor) {caseId : String} {refs : List String} :
    ∀ {es : List Execution} {w : World} {c : FailureCounts}, Tracks caseId refs w c →
      (∀ e ∈ es, e.state.caseId = caseId ∧ e.applied.referenceId ∈ refs) →
        (StoresAll ex w es ↔ NeverLevel c es)
  | [], _, _, _, _ => Iff.rfl
  | e :: rest, w, c, h, hes => by
    obtain ⟨hcase, href⟩ := hes e List.mem_cons_self
    obtain ⟨hiff, hkeep⟩ := execution_stores_iff ex h hcase href
    rw [StoresAll, NeverLevel, ← and_assoc, ← hiff]
    refine and_congr_right fun hstores => ?_
    exact storesAll_iff_of_tracks ex (hkeep hstores) fun e' he' => hes e' (List.mem_cons_of_mem _ he')

/-- **The executions of a case all store what they mean to exactly when no two of its attempts have
ever failed equally often.** -/
theorem storesAll_iff (ex : OutboxExecutor) (caseId : String) (w : World) (es : List Execution)
    (hes : ∀ e ∈ es, e.state.caseId = caseId)
    (hcase : ∃ k ∈ w.db.tables.cases, k.id = caseId)
    (hnew : ∀ r ∈ w.db.tables.outbox, r.caseId ≠ caseId ∧
      ∀ e ∈ es, r.referenceId ≠ e.applied.referenceId)
    (hfresh : FreshIds w) : StoresAll ex w es ↔ NeverLevel [] es := by
  refine @storesAll_iff_of_tracks ex caseId (es.map (·.applied.referenceId)) _ _ _
    ⟨?_, fun r hr hrcase => absurd hrcase (hnew r hr).1, fun r hr href => ?_, hcase, hfresh⟩
    fun e he => ⟨hes e he, List.mem_map_of_mem he⟩
  · rw [List.map_eq_nil_iff, List.filter_eq_nil_iff]
    exact fun r hr => by simpa using (hnew r hr).1
  · obtain ⟨e, he, heq⟩ := List.mem_map.mp href
    exact absurd heq.symm ((hnew r hr).2 e he)

def execution (attemptNo : ℤ) (outcome : CallOutcome) : Execution :=
  { state := authorisedState (linkAction attemptNo), applied := linkAction attemptNo, outcome }

theorem freshIds_oneCase : FreshIds (worldOf oneCase) where
  injective m n _ _ h := by
    have hlength := congrArg String.length h
    simpa [worldOf] using hlength
  outbox n _ r hr := by simp [worldOf, oneCase] at hr
  deadLetters n _ d hd := by simp [worldOf, oneCase] at hd

/-- The first attempt times out once before the second starts. -/
theorem storesAll_after_failure :
    StoresAll {} (worldOf oneCase) [execution 1 (.retryable "timeout"), execution 2 .crashed] := by
  refine (storesAll_iff {} "RC-0001" (worldOf oneCase) _ ?_ ?_ ?_ freshIds_oneCase).mpr ?_
  · simp [execution, authorisedState]
  · simp [worldOf, oneCase]
  · simp [worldOf, oneCase]
  · simp only [NeverLevel, FailureCounts.Distinct]
    decide +kernel

/-- The first attempt goes out at once, so its row keeps the counter a second attempt starts at. -/
theorem not_storesAll :
    ¬∀ (ex : OutboxExecutor) (caseId : String) (w : World) (es : List Execution),
      (∀ e ∈ es, e.state.caseId = caseId) → (∃ k ∈ w.db.tables.cases, k.id = caseId) →
        (∀ r ∈ w.db.tables.outbox, r.caseId ≠ caseId ∧
          ∀ e ∈ es, r.referenceId ≠ e.applied.referenceId) →
            FreshIds w → StoresAll ex w es := by
  intro h
  have hall := h {} "RC-0001" (worldOf oneCase)
    [execution 1 (.sent (World.newLink {} ⟨250000, referenceId "RC-0001" 1, "", "", none, [],
      by decide, by decide +kernel⟩)), execution 2 .crashed]
    (by simp [execution, authorisedState]) (by simp [worldOf, oneCase])
    (by simp [worldOf, oneCase]) freshIds_oneCase
  obtain ⟨id, hok, -⟩ := hall.2.1.1
  have hok : _ = true := congrArg Except.isOk hok
  revert hok
  decide +kernel

end AegisMerchant
