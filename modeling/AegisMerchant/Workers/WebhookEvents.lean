import AegisMerchant.Routers.Webhooks
import AegisMerchant.Tools.AppendLaws
import AegisMerchant.Workers.SettleAmounts

/-!
# What becomes of an acknowledged event

An event is answered once it is stored, and attributed by the process that stored it. What a process
has not attributed when it dies is attributed by nobody: delivered again, the event is a duplicate.

`step_waits`, `step_stored` and `step_recovered` follow one event.
`Webhooks.acknowledged_attendedTo` is the run, and `Webhooks.not_acknowledged_attendedTo` a process
that dies in between.
-/

namespace AegisMerchant

open Time Rows

namespace Webhooks

/-! ## One event -/

/-- A flush that breaks no constraint. -/
def Accepted : {β : Type} → Cmd β → World → Prop
  | _, .flush sent ws, w => (w.db.commit (sent ++ ws)).isSome = true
  | _, _, _ => True

instance : {β : Type} → (c : Cmd β) → (w : World) → Decidable (Accepted c w)
  | _, .flush sent ws, w => inferInstanceAs (Decidable ((w.db.commit (sent ++ ws)).isSome = true))
  | _, .now, _ | _, .select _ _, _ | _, .commit _, _ | _, .tokenHex, _ | _, .uniform, _
  | _, .createPaymentLink _, _ | _, .getPaymentLinkByReference _, _
  | _, .completeStructured _ _, _ => inferInstanceAs (Decidable True)

/-- A case is recovered, and an event is its proof. -/
def Credited (t : Tables) (caseId eventId : String) : Prop :=
  ∃ c ∈ t.cases, c.id = caseId ∧ c.status = .recovered ∧ c.recoveryVerifiedBy = some eventId

instance (t : Tables) (caseId eventId : String) : Decidable (Credited t caseId eventId) :=
  inferInstanceAs (Decidable (∃ c ∈ t.cases, c.id = caseId ∧ c.status = .recovered ∧
    c.recoveryVerifiedBy = some eventId))

/-- **An event pays a case**: its task, started in some world, finds the case, and the six
conditions hold when it judges. -/
def Pays (payload : Json) (eventId : String) (w : World) (case : CaseRow) : Prop :=
  let event := Ingest.normalise payload eventId
  ∃ referenceId issued v, event.referenceId = some (.str referenceId) ∧
    (Settle.findCase referenceId).run World.handler w = (.ok (some (case, issued)), v) ∧
      (Settle.facts event referenceId case issued (v.after 1).clock).Counts

theorem run_flush_accepted {session : Session} {w : World}
    (h : session.flush.Along World.handler Accepted w) :
    (w.db.commit session.pending).isSome = true ∧ session.flush.run World.handler w =
      (.ok { session with sent := session.pending, fresh := [] }, w.after 1) := by
  rw [Session.flush, Prog.along_bind, Act.along_call] at h
  obtain ⟨db, hdb⟩ := Option.isSome_iff_exists.mp h.1
  refine ⟨Option.isSome_iff_exists.mpr ⟨db, hdb⟩, ?_⟩
  rw [run_flush]
  simp only [World.handler, World.serve, World.advance_db, hdb]
  rfl

/-- An append whose flush is accepted holds all it was handed, and the block. -/
theorem run_append_accepted {rt : Runtime} {session : Session} {e : AuditEvent} {w : World}
    (h : (AuditChain.append rt session e).Along World.handler Accepted w) :
    ∃ block, (w.db.commit (session.pending ++ [.insertBlock block])).isSome = true ∧
      (AuditChain.append rt session e).run World.handler w =
        (.ok (block, { session with
          sent := session.pending ++ [.insertBlock block]
          fresh := [] }), w.after 4) := by
  have hloop : AuditChain.append rt session e = AuditChain.appendLoop rt e (2 + 1) session := rfl
  rw [hloop, AuditChain.appendLoop] at h ⊢
  have hselect : (session.select (·.head)).run World.handler w =
      (.ok (w.db.tables.applyAll session.sent).head, w.after 1) := rfl
  have h := ((h.bind_ok hselect).bind_ok (Act.run_nowUtc _)).bind_ok (Act.run_freshId _ _)
  rw [Prog.run_bind_ok hselect, Prog.run_bind_ok (Act.run_nowUtc _),
    Prog.run_bind_ok (Act.run_freshId _ _)]
  generalize e.block rt _ _ _ = block at h ⊢
  rw [Prog.along_bind, Prog.along_attempt] at h
  obtain ⟨hcommit, hrun⟩ := run_flush_accepted h.1
  rw [Prog.run_bind, Prog.run_attempt, hrun]
  simp only [Session.add, Session.pending, World.after_db, List.append_assoc] at hcommit ⊢
  exact ⟨block, hcommit, rfl⟩

/-- **A webhook that pays a case credits it.** -/
theorem run_settleCase_counts {rt : Runtime} {event : RevenueRiskEvent} {referenceId : String}
    {case : CaseRow} {issued : Option String} {w : World} (hcase : case ∈ w.db.tables.cases)
    (hcounts : (Settle.facts event referenceId case issued (w.after 1).clock).Counts)
    (haccepted :
      (Settle.settleCase rt event referenceId case issued).Along World.handler Accepted w) :
    Credited ((Settle.settleCase rt event referenceId case issued).run World.handler w).2.db.tables
      case.id event.eventId := by
  have hcounted := (SettlingFacts.attribution_counted_iff _).mpr hcounts
  rw [Settle.settleCase] at haccepted ⊢
  have haccepted := haccepted.bind_ok (Act.run_nowUtc w)
  rw [Prog.run_bind_ok (Act.run_nowUtc w)]
  simp only [hcounted, ↓reduceIte] at haccepted ⊢
  have haccepted := haccepted.bind_ok (Act.run_nowUtc _)
  rw [Prog.run_bind_ok (Act.run_nowUtc _)]
  obtain ⟨block, hcommit, hrun⟩ := run_append_accepted haccepted.of_bind
  rw [Prog.run_bind_ok hrun]
  obtain ⟨db, hdb⟩ := Option.isSome_iff_exists.mp hcommit
  simp only [Session.pending, List.nil_append, List.singleton_append, World.after_db] at hdb ⊢
  rw [Prog.run_bind, Session.commit, Act.run_commit]
  simp only [Session.pending, List.append_nil, World.after_db, hdb]
  -- nothing was rolled back, so the session is not expired
  show Credited db.tables case.id event.eventId
  have hopen : case.status ≠ .recovered := by
    rw [show case.status = .monitoring from hcounts.monitoring]
    decide
  have hnone : case.recoveryVerifiedBy = none := by
    simpa [Settle.facts] using hcounts.once
  obtain ⟨hstatus, hproof, -⟩ := store_recovered hopen hnone _ event.eventId .webhook _
  rw [Database.commit_eq_some.mp hdb]
  exact ⟨_, updateWhere_mem rfl hcase, rfl, hstatus, hproof⟩

/-- A settlement never raises. -/
theorem run_settlement (rt : WebhookRuntime) (task : Task) (w : World) :
    ∃ outcome v, (task.settlement rt).run World.handler w = (.ok outcome, v) := by
  unfold Task.settlement Settle.processSettlement
  simp only
  split
  · exact ⟨_, _, rfl⟩
  · split
    · exact ⟨_, _, rfl⟩
    · rw [Prog.run_bind, Prog.run_attempt]
      simp only
      split <;> exact ⟨_, _, rfl⟩

/-- **The task of an event that pays a case credits it.** -/
theorem run_settlement_credits {rt : WebhookRuntime} {task : Task} {w : World} {case : CaseRow}
    (hpays : Pays task.payload task.eventId w case)
    (haccepted : (task.settlement rt).Along World.handler Accepted w) :
    Credited ((task.settlement rt).run World.handler w).2.db.tables case.id task.eventId := by
  obtain ⟨referenceId, issued, v, href, hfind, hcounts⟩ := hpays
  have hsettles : (Ingest.normalise task.payload task.eventId).eventType ∈ settlingEvents :=
    hcounts.settles
  obtain ⟨n, hfound⟩ := run_findCase referenceId w
  rw [hfind] at hfound
  obtain ⟨heq, rfl⟩ := Prod.ext_iff.mp hfound
  have hcase : case ∈ w.db.tables.cases := (foundCase_cases (Except.ok.inj heq).symm).1
  unfold Task.settlement Settle.processSettlement at haccepted ⊢
  simp only [hsettles, not_true_eq_false, ↓reduceIte, href] at haccepted ⊢
  rw [Prog.along_bind, Prog.along_attempt] at haccepted
  rw [Prog.run_bind, Prog.run_attempt]
  have hsettle := haccepted.1
  rw [Settle.settle, Prog.along_bind, hfind] at hsettle
  have hcredited := run_settleCase_counts (by rwa [World.after_db]) hcounts hsettle.2
  rw [Settle.settle, Prog.run_bind, hfind]
  -- the exception is caught, if there is one: the tables are the settlement's
  simp only at hcredited ⊢
  split <;> exact hcredited

/-! ## What a settlement leaves alone -/

/-- What a settlement may credit was not recovered. -/
theorem recovered_mem_of_settles {t : Tables} {ws : List Write}
    {credit : CaseRow → CaseRow → Prop}
    (hcredit : ∀ case new, credit case new → case.status ≠ .recovered) (h : SettleTxn credit ws)
    (hfinds : ∀ write ∈ ws, write.FindsCase t) {c : CaseRow} (hc : c ∈ t.cases)
    (hrecovered : c.status = .recovered) : c ∈ (t.applyAll ws).cases := by
  have hupdate : ∀ {case new : CaseRow}, (∀ row ∈ t.cases, row.id = case.id → row = case) →
      case.status ≠ .recovered → c ∈ (t.apply (.updateCase case new)).cases := by
    -- the row that is changed was open, so it is another one
    intro case new hfinds hopen
    refine mem_updateWhere.mpr ⟨c, hc, (if_neg fun hid => hopen ?_).symm⟩
    rw [← hfinds c hc hid]
    exact hrecovered
  cases h with
  | organic hopen _ => exact hupdate (hfinds _ List.mem_cons_self) hopen
  | credited hcredited _ _ => exact hupdate (hfinds _ List.mem_cons_self) (hcredit _ _ hcredited)
  | lost _ _ _ => exact hc

/-- **A settlement leaves a recovered case as it was.** -/
theorem run_settlement_recovered {rt : WebhookRuntime} {task : Task} {w : World} {c : CaseRow}
    (hc : c ∈ w.db.tables.cases) (hrecovered : c.status = .recovered) :
    c ∈ ((task.settlement rt).run World.handler w).2.db.tables.cases := by
  have hsettles := (settles_processSettlement rt.toRuntime task.payload task.eventId).along
    (H := World.handler) (φ := fun c _ => c.Settles (WebhookCredit task.payload task.eventId))
    (fun _ _ h => h) w
  refine ((along_processSettlement rt.toRuntime task.payload task.eventId w).and hsettles).run
    (I := fun v => c ∈ v.db.tables.cases) (fun cmd v h hv => ?_) hc
  by_cases hquiet : cmd.Quiet
  · rwa [(World.exec_quiet hquiet v).1]
  · cases cmd with
    | commit ws =>
      simp only [World.handler, World.serve, World.advance_db]
      cases hcommit : v.db.commit ws with
      | none => exact hv
      | some db =>
        simp only [World.committed_db]
        rw [Database.commit_eq_some.mp hcommit]
        refine recovered_mem_of_settles ?_ h.2 h.1 hv hrecovered
        rintro case new ⟨referenceId, issued, now, now', hcounts, -⟩
        rw [show case.status = .monitoring from hcounts.monitoring]
        decide
    | _ => exact absurd trivial hquiet

/-! ## One step -/

/-- What a row says of its event, and a task of the event it attributes. -/
structure EventKey where
  rowId : String
  eventId : String
  eventType : String

def rowKey (row : WebhookEventRow) : EventKey := ⟨row.id, row.eventId, row.eventType⟩

def Task.key (task : Task) : EventKey := ⟨task.rowId, task.eventId, Ingest.eventName task.payload⟩

/-- The event of a task can prove a recovery. -/
def Task.Settles (task : Task) : Prop := Ingest.eventName task.payload ∈ settlingEvents

instance (task : Task) : Decidable task.Settles :=
  inferInstanceAs (Decidable (Ingest.eventName task.payload ∈ settlingEvents))

/-- **The condition**, step by step: the id a delivery draws is new, no process dies with a settling
event to attribute, and the flushes of a settlement are accepted. -/
def Step.Attends (rt : WebhookRuntime) (s : Ingestion) : Step → Prop
  | .deliver _ => newId "evt" (s.world.fate s.world.advance.tick).hex ∉ s.events.map (·.id)
  | .work n => ∀ task ∈ s.tasks[n]?, (task.settlement rt).Along World.handler Accepted s.world
  | .crash _ _ => ∀ task ∈ s.tasks, ¬task.Settles

instance (rt : WebhookRuntime) (s : Ingestion) : (m : Step) → Decidable (m.Attends rt s)
  | .deliver _ => inferInstanceAs (Decidable
      (newId "evt" (s.world.fate s.world.advance.tick).hex ∉ s.events.map (·.id)))
  | .work n => inferInstanceAs (Decidable (∀ task ∈ s.tasks[n]?,
      (task.settlement rt).Along World.handler Accepted s.world))
  | .crash _ _ => inferInstanceAs (Decidable (∀ task ∈ s.tasks, ¬task.Settles))

def Meets (rt : WebhookRuntime) (settings : Settings) : Ingestion → List Step → Prop
  | _, [] => True
  | s, m :: moves => m.Attends rt s ∧ Meets rt settings (step rt settings s m) moves

instance decidableMeets (rt : WebhookRuntime) (settings : Settings) :
    (s : Ingestion) → (moves : List Step) → Decidable (Meets rt settings s moves)
  | _, [] => inferInstanceAs (Decidable True)
  | s, m :: moves =>
    have := decidableMeets rt settings (step rt settings s m) moves
    inferInstanceAs (Decidable (m.Attends rt s ∧ Meets rt settings (step rt settings s m) moves))

section Step

variable {rt : WebhookRuntime} {settings : Settings} {s : Ingestion}

/-- What storing an event does. -/
theorem store_spec (s : Ingestion) (r : Request) (payload : Json) (eventId : String) :
    (store rt s r payload eventId).2.world.db = s.world.db ∧
      ∃ tasks, (store rt s r payload eventId).2.tasks = s.tasks ++ tasks ∧
        (store rt s r payload eventId).2.events.map rowKey =
          s.events.map rowKey ++ tasks.map Task.key := by
  unfold store
  simp only
  split
  · exact ⟨World.after_db _ _, [], by simp, by simp⟩
  · refine ⟨World.after_db _ _, [_], rfl, ?_⟩
    rw [List.map_append]
    rfl

/-- What an event was stored under when it is answered, if the id drawn for it is new. -/
theorem store_answered (rt : WebhookRuntime) (s : Ingestion) (r : Request) (payload : Json)
    (eventId : String)
    (hnew : newId "evt" (s.world.fate s.world.tick).hex ∉ s.events.map (·.id)) :
    eventId ∈ (store rt s r payload eventId).2.events.map (·.eventId) := by
  unfold store
  simp only
  split
  · next h => exact h.resolve_right hnew
  · simp [eventRow]

/-- What a delivery does: it is refused, or its event is stored. -/
theorem razorpayWebhook_cases (rt : WebhookRuntime) (settings : Settings) (s : Ingestion)
    (r : Request) :
    (∃ answer w, razorpayWebhook rt settings s r = (answer, { s with world := w }) ∧
      w.db = s.world.db ∧ ∀ response, answer = .ok response → response.statusCode ≠ 200) ∨
    ∃ payload eventId, r.eventId = some eventId ∧ razorpayWebhook rt settings s r =
      (.ok (store rt { s with world := s.world.advance } r payload eventId).1,
        (store rt { s with world := s.world.advance } r payload eventId).2) := by
  have hrefuse : ∀ (answer : Except PyError Response) (w : World), w.db = s.world.db →
      (∀ response, answer = .ok response → response.statusCode ≠ 200) →
        (∃ answer' w', (answer, ({ s with world := w } : Ingestion)) =
          (answer', { s with world := w' }) ∧ w'.db = s.world.db ∧
            ∀ response, answer' = .ok response → response.statusCode ≠ 200) :=
    fun answer w hdb hanswer => ⟨answer, w, rfl, hdb, hanswer⟩
  unfold razorpayWebhook
  split
  · exact .inl (hrefuse _ s.world rfl (by simp))
  · exact .inl (hrefuse _ s.world rfl (by simp [rejected]))
  · split
    · exact .inl (hrefuse _ s.world rfl (by simp [rejected]))
    · exact .inl (hrefuse _ s.world rfl (by simp))
    · simp only
      split
      · exact .inl (hrefuse _ s.world rfl (by simp))
      · split
        · exact .inl (hrefuse _ _ rfl (by simp))
        · exact .inl (hrefuse _ _ rfl (by simp [rejected]))
        · split
          · exact .inl (hrefuse _ _ rfl (by simp [rejected]))
          · next eventId heventId =>
              split
              · exact .inl (hrefuse _ _ (World.after_db _ _) (by simp))
              · exact .inr ⟨_, eventId, (Option.filter_eq_some_iff.mp heventId).1, rfl⟩
    · exact .inl (hrefuse _ s.world rfl (by simp))

/-- What a delivery does to the database and the tasks. -/
theorem razorpayWebhook_spec (rt : WebhookRuntime) (settings : Settings) (s : Ingestion)
    (r : Request) :
    (razorpayWebhook rt settings s r).2.world.db = s.world.db ∧
      ∃ tasks, (razorpayWebhook rt settings s r).2.tasks = s.tasks ++ tasks ∧
        (razorpayWebhook rt settings s r).2.events.map rowKey =
          s.events.map rowKey ++ tasks.map Task.key := by
  rcases razorpayWebhook_cases rt settings s r with
    ⟨answer, w, heq, hdb, -⟩ | ⟨payload, eventId, -, heq⟩
  · rw [heq]
    exact ⟨hdb, [], by simp, by simp⟩
  · rw [heq]
    exact store_spec { s with world := s.world.advance } r payload eventId

/-- What a task that runs to its end does. -/
theorem processEvent_spec (rt : WebhookRuntime) (s : Ingestion) (task : Task) :
    (processEvent rt s task).world = ((task.settlement rt).run World.handler s.world).2 ∧
      (processEvent rt s task).tasks = s.tasks ∧
        (processEvent rt s task).events.map rowKey = s.events.map rowKey := by
  obtain ⟨outcome, w, hrun⟩ := run_settlement rt task s.world
  unfold processEvent
  rw [hrun]
  exact ⟨rfl, rfl, map_updateWhere rowKey fun _ => rfl⟩

/-- A task of another event than a settling one has nothing to run. -/
theorem settlement_of_not_settles (rt : WebhookRuntime) {task : Task} (h : ¬task.Settles) :
    ∃ outcome, task.settlement rt = pure outcome := by
  unfold Task.settlement Settle.processSettlement
  exact ⟨_, if_pos h⟩

/-- A worker with nothing to run does nothing. -/
theorem runWorkers_pure (w : World) (n : ℕ) :
    (runWorkers w (.spawn (pure ()) :: List.replicate n (.run 0))).state = w := by
  have hrun : ∀ n, ({ state := w, procs := [pure ()] } : Pool Cmd PyError World).run World.handler
      (List.replicate n (.run 0)) = { state := w, procs := [pure ()] } := by
    intro n
    induction n with
    | zero => rfl
    | succ n ih => exact ih
  exact congrArg Pool.state (hrun n)

/-- **Step.** A settling event that is stored after a step waits for its task; or it was stored
before, and if it waited then, the step ran its task. -/
theorem step_waits {m : Step} (h : m.Attends rt s) {key : EventKey}
    (hkey : key ∈ (step rt settings s m).events.map rowKey)
    (hsettles : key.eventType ∈ settlingEvents) :
    key ∈ (step rt settings s m).tasks.map Task.key ∨
      key ∈ s.events.map rowKey ∧ (key ∈ s.tasks.map Task.key →
        ∃ n task, m = .work n ∧ s.tasks[n]? = some task ∧ task.key = key) := by
  -- what dies with a process does not settle
  have hlost : ∀ {tasks : List Task}, (∀ task ∈ tasks, ¬task.Settles) →
      key ∉ tasks.map Task.key := by
    intro tasks hnone hmem
    obtain ⟨task, htask, rfl⟩ := List.mem_map.mp hmem
    exact hnone task htask hsettles
  cases m with
  | deliver r =>
    obtain ⟨-, tasks, htasks, hevents⟩ := razorpayWebhook_spec rt settings s r
    simp only [step] at hkey ⊢
    rw [hevents, List.mem_append] at hkey
    rw [htasks, List.map_append, List.mem_append]
    rcases hkey with hkey | hkey
    · by_cases hwaits : key ∈ s.tasks.map Task.key
      · exact .inl (.inl hwaits)
      · exact .inr ⟨hkey, fun h => absurd h hwaits⟩
    · exact .inl (.inr hkey)
  | work n =>
    simp only [step] at hkey ⊢
    cases htask : s.tasks[n]? with
    | none =>
      rw [htask] at hkey
      by_cases hwaits : key ∈ s.tasks.map Task.key
      · exact .inl hwaits
      · exact .inr ⟨hkey, fun h => absurd h hwaits⟩
    | some task =>
      obtain ⟨-, htasks, hevents⟩ :=
        processEvent_spec rt { s with tasks := s.tasks.eraseIdx n } task
      simp only [htask] at hkey ⊢
      rw [hevents] at hkey
      rw [htasks]
      by_cases hran : task.key = key
      · exact .inr ⟨hkey, fun _ => ⟨n, task, rfl, htask, hran⟩⟩
      · -- its task is another one, and that one is left to run
        refine or_iff_not_imp_left.mpr fun hgone => ⟨hkey, fun hwaits => absurd ?_ hgone⟩
        obtain ⟨other, hother, rfl⟩ := List.mem_map.mp hwaits
        obtain ⟨i, hi⟩ := List.mem_iff_getElem?.mp hother
        refine List.mem_map_of_mem (List.mem_eraseIdx_iff_getElem?.mpr ⟨i, fun hin => hran ?_, hi⟩)
        rw [hin, htask] at hi
        exact congrArg Task.key (Option.some.inj hi)
  | crash n commands =>
    have hnone := hlost h
    refine .inr ⟨?_, fun h => absurd h hnone⟩
    simp only [step] at hkey
    split at hkey <;> exact hkey

/-- **Step.** What is stored stays stored. -/
theorem step_stored (m : Step) {key : EventKey} (h : key ∈ s.events.map rowKey) :
    key ∈ (step rt settings s m).events.map rowKey := by
  cases m with
  | deliver r =>
    obtain ⟨-, tasks, -, hevents⟩ := razorpayWebhook_spec rt settings s r
    simp only [step]
    rw [hevents]
    exact List.mem_append_left _ h
  | work n =>
    simp only [step]
    split
    · exact h
    · rwa [(processEvent_spec _ _ _).2.2]
  | crash n commands =>
    simp only [step]
    split <;> exact h

/-- **Step.** A recovered case stays as it was. -/
theorem step_recovered {m : Step} (hattends : m.Attends rt s) {c : CaseRow}
    (hc : c ∈ s.world.db.tables.cases) (hrecovered : c.status = .recovered) :
    c ∈ (step rt settings s m).world.db.tables.cases := by
  cases m with
  | deliver r =>
    simp only [step]
    rwa [(razorpayWebhook_spec rt settings s r).1]
  | work n =>
    simp only [step]
    split
    · exact hc
    · rw [(processEvent_spec _ _ _).1]
      exact run_settlement_recovered hc hrecovered
  | crash n commands =>
    simp only [step]
    split
    · exact hc
    · next task htask =>
        obtain ⟨outcome, hpure⟩ :=
          settlement_of_not_settles rt (hattends task (List.mem_of_getElem? htask))
        have hidle : (do let _ ← task.settlement rt : Act Unit) = pure () := by
          rw [hpure]
          rfl
        rwa [hidle, runWorkers_pure]

end Step

/-! ## Every run -/

section Run

variable {rt : WebhookRuntime} {settings : Settings}

theorem steps_append (s : Ingestion) (moves rest : List Step) :
    steps rt settings s (moves ++ rest) = steps rt settings (steps rt settings s moves) rest :=
  List.foldl_append

theorem meets_append {s : Ingestion} {moves rest : List Step} :
    Meets rt settings s (moves ++ rest) ↔
      Meets rt settings s moves ∧ Meets rt settings (steps rt settings s moves) rest := by
  induction moves generalizing s with
  | nil => exact (and_iff_right trivial).symm
  | cons m moves ih => exact (and_congr_right fun _ => ih).trans and_assoc.symm

/-- **Run.** A stored settling event waits for its task, or its task has run. -/
theorem steps_waits (w : World) {moves : List Step}
    (hmeets : Meets rt settings { world := w } moves) {key : EventKey}
    (hkey : key ∈ (steps rt settings { world := w } moves).events.map rowKey)
    (hsettles : key.eventType ∈ settlingEvents) :
    key ∈ (steps rt settings { world := w } moves).tasks.map Task.key ∨
      ∃ before n after task, moves = before ++ .work n :: after ∧
        (steps rt settings { world := w } before).tasks[n]? = some task ∧ task.key = key := by
  induction moves using List.reverseRecOn with
  | nil => cases hkey
  | append_singleton moves m ih =>
    -- what waited before the last step either waits on, or the step ran its task
    obtain ⟨hmeets, hm, -⟩ := meets_append.mp hmeets
    rw [steps_append] at hkey ⊢
    rcases step_waits hm hkey hsettles with h | ⟨hold, hran⟩
    · exact .inl h
    · rcases ih hmeets hold with hwaits | ⟨before, n, after, task, rfl, htask, hfor⟩
      · obtain ⟨n, task, rfl, htask, hfor⟩ := hran hwaits
        exact .inr ⟨moves, n, [], task, rfl, htask, hfor⟩
      · exact .inr ⟨before, n, after ++ [m], task, by simp, htask, hfor⟩

theorem steps_stored {s : Ingestion} (moves : List Step) {key : EventKey}
    (h : key ∈ s.events.map rowKey) : key ∈ (steps rt settings s moves).events.map rowKey := by
  induction moves generalizing s with
  | nil => exact h
  | cons m moves ih => exact ih (step_stored m h)

theorem steps_recovered {s : Ingestion} {moves : List Step} (hmeets : Meets rt settings s moves)
    {c : CaseRow} (hc : c ∈ s.world.db.tables.cases) (hrecovered : c.status = .recovered) :
    c ∈ (steps rt settings s moves).world.db.tables.cases := by
  induction moves generalizing s with
  | nil => exact hc
  | cons m moves ih => exact ih hmeets.2 (step_recovered hmeets.1 hc hrecovered)

/-- **An event is attended to** in a run: it is stored, and if it settles, its task waits, or has
run; and the case the event paid when its task ran is credited to it, ever since. -/
def AttendedTo (rt : WebhookRuntime) (settings : Settings) (s : Ingestion) (moves : List Step)
    (eventId : String) : Prop :=
  ∃ row ∈ (steps rt settings s moves).events, row.eventId = eventId ∧
    (row.eventType ∈ settlingEvents →
      (∃ task ∈ (steps rt settings s moves).tasks, task.key = rowKey row) ∨
        ∃ before n after task, moves = before ++ .work n :: after ∧
          (steps rt settings s before).tasks[n]? = some task ∧ task.key = rowKey row ∧
            ∀ case, Pays task.payload eventId (steps rt settings s before).world case →
              Credited (steps rt settings s moves).world.db.tables case.id eventId)

/-- **Every event answered with 200 is attended to**, in every run that meets the condition. -/
theorem acknowledged_attendedTo (rt : WebhookRuntime) (settings : Settings) (w : World)
    {before after : List Step} {r : Request}
    (hmeets : Meets rt settings { world := w } (before ++ .deliver r :: after))
    (hanswer : (razorpayWebhook rt settings (steps rt settings { world := w } before) r).1.map
      (·.statusCode) = .ok 200) :
    ∃ eventId, r.eventId = some eventId ∧
      AttendedTo rt settings { world := w } (before ++ .deliver r :: after) eventId := by
  obtain ⟨-, hnew, -⟩ := meets_append.mp hmeets
  rcases razorpayWebhook_cases rt settings (steps rt settings { world := w } before) r with
    ⟨answer, v, heq, -, hrefused⟩ | ⟨payload, eventId, heventId, heq⟩
  · rw [heq] at hanswer
    cases answer with
    | error exc => cases hanswer
    | ok response => exact absurd (Except.ok.inj hanswer) (hrefused response rfl)
  · -- the event is stored by now, and stays so
    have hstored := store_answered rt { steps rt settings { world := w } before with
      world := (steps rt settings { world := w } before).world.advance } r payload eventId hnew
    obtain ⟨first, hfirst, rfl⟩ := List.mem_map.mp hstored
    have hkey : rowKey first ∈
        (steps rt settings { world := w } (before ++ .deliver r :: after)).events.map rowKey := by
      rw [steps_append]
      refine steps_stored after ?_
      show rowKey first ∈ (razorpayWebhook rt settings _ r).2.events.map rowKey
      rw [heq]
      exact List.mem_map_of_mem hfirst
    obtain ⟨row, hrow, hsame⟩ := List.mem_map.mp hkey
    obtain ⟨hid, hevent, htype⟩ := EventKey.mk.inj hsame
    refine ⟨_, heventId, row, hrow, hevent, fun hsettles => ?_⟩
    rcases steps_waits w hmeets (List.mem_map_of_mem hrow) hsettles with
      hwaits | ⟨before', n, after', task, hmoves, htask, hfor⟩
    · exact .inl (List.mem_map.mp hwaits)
    · refine .inr ⟨before', n, after', task, hmoves, htask, hfor, fun case hpays => ?_⟩
      rw [hmoves] at hmeets ⊢
      obtain ⟨-, haccepted, hmeets'⟩ := meets_append.mp hmeets
      have hevent' : task.eventId = first.eventId := (EventKey.mk.inj hfor).2.1.trans hevent
      rw [← hevent'] at hpays ⊢
      obtain ⟨c, hc, hid, hstatus, hproof⟩ :=
        run_settlement_credits hpays (haccepted task htask)
      refine ⟨c, ?_, hid, hstatus, hproof⟩
      rw [steps_append]
      refine steps_recovered hmeets' ?_ hstatus
      simp only [step, htask]
      rwa [(processEvent_spec _ _ _).1]

end Run

/-! ## An event that is lost -/

def paidText : String :=
  "\x7b\"event\":\"payment_link.paid\",\"created_at\":0,\"payload\":\x7b\"payment_link\":" ++
    "\x7b\"entity\":\x7b\"reference_id\":\"rvp_rc-0001_1\",\"amount\":250000\x7d\x7d\x7d\x7d"

def paidPayload : Json :=
  .obj [("event", .str "payment_link.paid"), ("created_at", .int 0),
    ("payload", .obj [("payment_link", .obj [("entity",
      .obj [("reference_id", .str (referenceId "RC-0001" 1)), ("amount", .int 250000)])])])]

/-- Its signature under the secret `whsec`. -/
def paidSignature : String := "7cd596d2438d3023f3cc5f446a5a16d74bfbb3f6f02af3168b2e41202644e545"

def paidRuntime : WebhookRuntime where
  toRuntime := plainRuntime
  jsonLoads _ := .ok paidPayload
  hmacHex _ _ := paidSignature
  decode _ := paidText
  intOfText _ := none
  nameEncodes _ := true

def paidRequest : Request where
  rawBody := paidText.toUTF8.toList
  signature := some paidSignature
  eventId := some "evt_1"

def paidCase : CaseRow where
  id := "RC-0001"
  merchantId := "mch_1"
  customerId := "cus_1"
  playbook := .paymentFailure
  status := .monitoring
  amountPaise := 250000
  attemptNo := 1
  windowExpiresAt := { utc := day }

def monitored : Ingestion := { world := paidWorld { utc := 0 } }

def secret : Settings := { razorpayWebhookSecret := "whsec" }

/-- Delivered, attributed and delivered again. -/
def attributed : List Step := [.deliver paidRequest, .work 0, .deliver paidRequest]

/-- Delivered, lost with its process before the credit is committed, and delivered again. -/
def lost : List Step := [.deliver paidRequest, .crash 0 3, .deliver paidRequest]

theorem acknowledged_attendedTo_once :
    (∃ eventId, paidRequest.eventId = some eventId ∧
      AttendedTo paidRuntime secret monitored ([] ++ attributed) eventId) ∧
        Credited (steps paidRuntime secret monitored attributed).world.db.tables "RC-0001"
          "evt_1" :=
  ⟨acknowledged_attendedTo paidRuntime secret (paidWorld { utc := 0 }) (by decide +kernel) rfl,
    by decide +kernel⟩

/-- An event that pays a case, answered with 200 twice, the second time with no crash to come: it
is a duplicate, nothing attributes it, and the case is not credited. -/
theorem not_acknowledged_attendedTo :
    (¬∀ (rt : WebhookRuntime) (settings : Settings) (w : World) (before after : List Step)
      (r : Request), (razorpayWebhook rt settings (steps rt settings { world := w } before) r).1.map
        (·.statusCode) = .ok 200 → ∃ eventId, r.eventId = some eventId ∧
          AttendedTo rt settings { world := w } (before ++ .deliver r :: after) eventId) ∧
      Pays paidPayload "evt_1" (steps paidRuntime secret monitored lost).world paidCase ∧
        (razorpayWebhook paidRuntime secret
          (steps paidRuntime secret monitored (lost.take 2)) paidRequest).1 =
            .ok (duplicate "evt_1") ∧
          (steps paidRuntime secret monitored lost).tasks = [] ∧
            ¬Credited (steps paidRuntime secret monitored lost).world.db.tables "RC-0001"
              "evt_1" := by
  refine ⟨fun h => ?_, ?_, rfl, by decide +kernel, by decide +kernel⟩
  · obtain ⟨eventId, heq, row, hrow, -, hsettled⟩ := h paidRuntime secret (paidWorld { utc := 0 })
      [] [.crash 0 3, .deliver paidRequest] paidRequest rfl
    have hevents : ∀ row ∈ (steps paidRuntime secret monitored lost).events,
        row.eventType ∈ settlingEvents := by decide +kernel
    have htasks : (steps paidRuntime secret monitored lost).tasks = [] := by decide +kernel
    rcases hsettled (hevents row hrow) with ⟨task, htask, -⟩ | ⟨before, n, after, task, hmoves, -⟩
    · have htask : task ∈ (steps paidRuntime secret monitored lost).tasks := htask
      rw [htasks] at htask
      cases htask
    · -- no task ran to its end
      have hwork : Step.work n ∈ lost := by
        show Step.work n ∈ [] ++ Step.deliver paidRequest :: _
        rw [hmoves]
        simp
      simp [lost] at hwork
  · refine ⟨referenceId "RC-0001" 1, some (referenceId "RC-0001" 1),
      (steps paidRuntime secret monitored lost).world.after 2, rfl, rfl, ?_⟩
    exact (SettlingFacts.attribution_counted_iff _).mp (by decide +kernel)

end Webhooks

end AegisMerchant
