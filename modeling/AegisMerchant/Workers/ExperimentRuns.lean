import AegisMerchant.Workers.ExperimentLaws

/-!
# A run of the experiment

A link is asked for under references on record only: the merchant's own for a control case, and for
a treated case the one its committed intent carries. What the run reports accounts for each of its
cases once, in the arm that the case's id decides.

`along_runTreated` and `accounts_runCases` are one case of a run.
`Experiment.along_runTestmodeExperiment` and `Experiment.runTestmodeExperiment_accounts` are the
run.
-/

namespace AegisMerchant

open Time

namespace Experiment

open ExperimentAct

/-! ## References on record -/

/-- An intent on its way, of a case that is not held back. -/
def OnRecord (rt : Runtime) (reference : String) (w : BatchWorld) : Prop :=
  ∃ row ∈ w.world.db.tables.outbox, row.referenceId = reference ∧ row.status = .sending ∧
    row.attempt = 1 ∧ ¬InControl rt row.caseId

/-- A link is asked for one rupee, and under a reference on record. -/
def Asks (rt : Runtime) : {β : Type} → ExperimentCmd β → BatchWorld → Prop
  | _, .books (.serve (.createPaymentLink request)), w =>
    request.amountPaise = amountPaise ∧
      ((∃ id, InControl rt id ∧ request.referenceId = observedReferenceId id) ∨
        OnRecord rt request.referenceId w)
  | _, _, _ => True

/-- Anything but a request to create a link. -/
def Passive : {β : Type} → ExperimentCmd β → Prop
  | _, .books (.serve c) => c.Passive
  | _, _ => True

section Runs

variable {rt : Runtime} {α β : Type} {c : Config} {parties : Parties} {id : String}
  {w : BatchWorld}

theorem asks_of_passive {d : ExperimentCmd β} (h : Passive d) : Asks rt d w := by
  cases d with
  | books d =>
    cases d with
    | serve d =>
      cases d with
      | createPaymentLink request => exact h.elim
      | _ => trivial
    | _ => trivial
  | commitIntent s row => trivial

theorem along_of_passive {p : ExperimentAct α} {R : Except PyError α → Prop}
    (h : p.All Passive R) (w : BatchWorld) :
    p.Along BatchWorld.experimentHandler (Asks rt) w :=
  h.along (fun _ _ hd => asks_of_passive hd) w

/-- A program, and what goes on from there wherever it ends. -/
theorem along_next {p : ExperimentAct α} {f : α → ExperimentAct β}
    (h : p.Along BatchWorld.experimentHandler (Asks rt) w)
    (hf : ∀ a w', (f a).Along BatchWorld.experimentHandler (Asks rt) w') :
    (p >>= f).Along BatchWorld.experimentHandler (Asks rt) w := by
  rw [Prog.along_bind]
  refine ⟨h, ?_⟩
  rcases p.run BatchWorld.experimentHandler w with ⟨e | a, w'⟩
  · trivial
  · exact hf a w'

/-- A program that asks for no link, first. -/
theorem along_past {p : ExperimentAct α} {f : α → ExperimentAct β} {R : Except PyError α → Prop}
    (h : p.All Passive R)
    (hf : ∀ a w', (f a).Along BatchWorld.experimentHandler (Asks rt) w') :
    (p >>= f).Along BatchWorld.experimentHandler (Asks rt) w :=
  along_next (along_of_passive h w) hf

theorem passive_books {p : BatchAct α} {R : Except PyError α → Prop}
    (h : p.All (fun d => Passive (.books d)) R) : (books p).All Passive R :=
  (Prog.all_mapCmd p).mpr h

theorem passive_serve {p : Act α} {R : Except PyError α → Prop} (h : p.All Cmd.Passive R) :
    (serve p).All Passive R :=
  passive_books ((Prog.all_mapCmd p).mpr h)

/-- A program that only reads. -/
theorem passive_reads {p : Act α} {R : Except PyError α → Prop} (h : p.All Cmd.Reads R) :
    (serve p).All Passive R :=
  passive_serve (h.mono (fun _ hd => hd.passive) fun _ hr => hr)

/-! ### The requests -/

/-- A link is asked for under the reference that is handed over. -/
theorem along_createLink {reference description customerName : String} {now : DateTime}
    (h : (∃ id, InControl rt id ∧ reference = observedReferenceId id) ∨ OnRecord rt reference w) :
    (serve (createLink id reference description customerName now)).attempt.Along
      BatchWorld.experimentHandler (Asks rt) w := by
  rw [Prog.along_attempt]
  unfold createLink
  rcases hmk : PaymentLinkRequest.mk? amountPaise reference description customerName
    (some { utc := now.utc / second * second + 6 * day })
    [("revpilot_case", id), ("revpilot_experiment", experimentKey)] with exc | request
  · trivial
  · have hrequest : request.amountPaise = amountPaise ∧ request.referenceId = reference := by
      unfold PaymentLinkRequest.mk? at hmk
      split at hmk
      · split at hmk
        · cases hmk
          exact ⟨rfl, rfl⟩
        · cases hmk
      · cases hmk
    obtain ⟨hamount, rfl⟩ := hrequest
    refine ⟨⟨hamount, h⟩, ?_⟩
    generalize (BatchWorld.experimentHandler.exec
      (.books (.serve (.createPaymentLink request))) w).1 = answer
    cases answer <;> trivial

theorem passive_now : (serve Act.nowUtc).All Passive fun _ => True :=
  passive_reads (Act.all_nowUtc.mpr ⟨trivial, fun _ => trivial⟩)

theorem passive_select (q : Tables → α) : (serve (Act.select q)).All Passive fun _ => True :=
  passive_reads (Act.all_select.mpr ⟨trivial, fun _ => trivial⟩)

theorem reads_fixtures : fixtures.All Cmd.Reads fun _ => True := by
  have hselect : ∀ {β : Type} (q : Tables → β), (Act.select q).All Cmd.Reads fun _ => True :=
    fun q => Act.all_select.mpr ⟨trivial, fun _ => trivial⟩
  unfold fixtures
  refine Prog.All.seq (hselect _) fun merchant => Prog.All.seq (hselect _) fun customer => ?_
  cases merchant <;> cases customer <;> trivial

theorem passive_call {d : BatchCmd (Except PyError α)} (h : Passive (.books d)) :
    (books (BatchAct.call d)).All Passive fun _ => True := by
  refine passive_books ⟨h, fun r => ?_⟩
  cases r <;> trivial

theorem passive_persist (case : CaseRow) (assignment : Assignment) :
    (persist rt parties case assignment).All Passive fun _ => True :=
  Prog.All.seq (passive_call trivial) fun _ => trivial

theorem passive_appendCommit (session : CaseSession) (e : AuditEvent) :
    (books (BatchStore.appendCommit rt session e)).All Passive fun _ => True := by
  apply passive_books
  have hreads : ∀ {γ : Type} {p : Act γ} {R : Except PyError γ → Prop}, p.All Cmd.Reads R →
      (BatchAct.serve p).All (fun d => Passive (.books d)) R := fun h =>
    (Prog.all_mapCmd _).mpr (h.mono (fun _ hd => hd.passive) fun _ hr => hr)
  have hcall : ∀ {d : BatchCmd (Except PyError Unit)}, Passive (.books d) →
      (BatchAct.call d).All (fun d => Passive (.books d)) fun _ => True := by
    refine fun hd => ⟨hd, fun r => ?_⟩
    cases r <;> trivial
  unfold BatchStore.appendCommit
  refine Prog.All.seq (hreads (Act.all_select.mpr ⟨trivial, fun _ => trivial⟩)) fun head => ?_
  refine Prog.All.seq (hreads (Act.all_nowUtc.mpr ⟨trivial, fun _ => trivial⟩)) fun created => ?_
  refine Prog.All.seq (hreads (Act.all_freshId.mpr ⟨trivial, fun _ => trivial⟩)) fun blockId => ?_
  refine Prog.All.seq ((Prog.all_attempt _).mpr (hcall trivial)) fun answer => ?_
  rcases answer with exc | ⟨⟩
  · cases exc with
    | integrityError =>
      refine (hreads (AuditChain.all_appendLoop rt e _ _)).bind (fun appended _ => ?_)
        fun _ _ => trivial
      exact (Prog.all_mapCmd _).mpr (Act.all_commit.mpr ⟨trivial, fun _ => trivial⟩)
    | _ => trivial
  · exact hcall trivial

/-- **The merchant's own checkout** is opened under its own reference. -/
theorem along_openCheckout (hid : InControl rt id) (now : DateTime) (result : ArmResult) :
    (openCheckout parties id now result).Along BatchWorld.experimentHandler (Asks rt) w := by
  unfold openCheckout
  refine along_next (along_createLink (.inl ⟨id, hid, rfl⟩)) fun answer w' => ?_
  cases answer with
  | error exc => trivial
  | ok link =>
    refine along_past (passive_select _) fun _ _ => ?_
    exact along_past (passive_serve (Act.all_commit.mpr ⟨trivial, fun _ => trivial⟩))
      fun _ _ => trivial

theorem passive_putBack (reference : String) (exc : PyError) :
    (serve (putBack reference exc)).All Passive fun _ => True := by
  apply passive_serve
  unfold putBack
  have hselect : (Act.select (·.outboxByReference reference)).All Cmd.Passive fun _ => True :=
    Act.all_select.mpr ⟨trivial, fun _ => trivial⟩
  refine Prog.All.seq hselect fun found => ?_
  cases found <;> exact Act.all_commit.mpr ⟨trivial, fun _ => trivial⟩

theorem passive_dispatched (reference : String) (assignment : Assignment)
    (link : PaymentLinkResult) (now : DateTime) :
    (serve (dispatched rt c id reference assignment link now)).All Passive fun _ => True := by
  apply passive_serve
  unfold dispatched
  refine Prog.All.seq (Act.all_select.mpr ⟨trivial, fun _ => trivial⟩) fun entry => ?_
  refine Prog.All.seq (Act.all_freshId.mpr ⟨trivial, fun _ => trivial⟩) fun actionId => ?_
  refine ((AuditChain.reads_append rt _ _).mono (fun _ hd => hd.passive) fun _ hr => hr).bind
    (fun appended _ => ?_) fun _ _ => trivial
  exact Act.all_commit.mpr ⟨trivial, fun _ => trivial⟩

/-- **Our own link** is sent under a reference on record. -/
theorem along_sendLink {reference : String} (hrecord : OnRecord rt reference w)
    (assignment : Assignment) (now : DateTime) (result : ArmResult) :
    (sendLink rt c parties id reference assignment now result).Along BatchWorld.experimentHandler
      (Asks rt) w := by
  unfold sendLink
  refine along_next (along_createLink (.inr hrecord)) fun answer w' => ?_
  cases answer with
  | error exc => exact along_past (passive_putBack reference exc) fun _ _ => trivial
  | ok link =>
    exact along_past (passive_dispatched reference assignment link now) fun _ _ => trivial

/-- What follows the commit of an intent finds it stored. -/
theorem along_intent {s : CaseSession} {row : OutboxRow} {f : Unit → ExperimentAct β}
    (hf : ∀ v : BatchWorld, row ∈ v.world.db.tables.outbox →
      (f ()).Along BatchWorld.experimentHandler (Asks rt) v) :
    (call (.commitIntent s row) >>= f).Along BatchWorld.experimentHandler (Asks rt) w := by
  refine ⟨trivial, ?_⟩
  simp only [BatchWorld.experimentHandler, BatchWorld.serveExperiment]
  cases hinsert : w.insertIntent? s row with
  | none => trivial
  | some w' =>
    refine hf w'.advance ?_
    unfold BatchWorld.insertIntent? at hinsert
    split at hinsert
    · cases hinsert
      exact List.mem_append_right _ (List.mem_singleton_self row)
    · cases hinsert

theorem along_runControl {assignment : Assignment} (hid : InControl rt id) (result : ArmResult) :
    (runControl rt c parties id assignment result).Along BatchWorld.experimentHandler (Asks rt)
      w := by
  unfold runControl
  refine along_past passive_now fun now _ => along_past (passive_persist _ _) fun session _ => ?_
  exact along_past (passive_appendCommit session _) fun _ _ => along_openCheckout hid now _

/-- **The intent is on record before the link is asked for.** -/
theorem along_runTreated (hthinks : c.Thinks) {assignment : Assignment} (hid : ¬InControl rt id)
    (result : ArmResult) :
    (runTreated rt c parties id assignment result).Along BatchWorld.experimentHandler (Asks rt)
      w := by
  unfold runTreated
  refine along_past passive_now fun now _ => ?_
  refine along_past (passive_reads reads_fixtures) fun found _ => ?_
  obtain ⟨merchant, customer⟩ := found
  have hdeps : (deps c.adapter).Thinks := by
    refine ⟨thinks_nowUtc, fun complete hcomplete => ?_⟩
    rw [← Option.some.inj hcomplete]
    exact hthinks
  have hrun : (runCase rt (state id merchant customer (c.firstName customer) now)
      (deps c.adapter)).All Cmd.Reads fun _ => True :=
    (thinks_runCase hdeps rfl _).mono (fun _ hd => hd.reads) fun _ hr => hr
  refine along_past (passive_reads hrun) fun final _ => ?_
  split
  · refine along_past (passive_persist _ _) fun session _ => ?_
    exact along_past (passive_call trivial) fun _ _ => trivial
  · next reference _ =>
    refine along_past (passive_persist _ _) fun session _ => ?_
    have hfresh : (Act.freshId "obx").All Cmd.Reads fun _ => True :=
      Act.all_freshId.mpr ⟨trivial, fun _ => trivial⟩
    refine along_past (passive_reads hfresh) fun outboxId v => ?_
    -- the link is asked for under the reference just reserved
    refine along_intent fun u hrow => along_sendLink ⟨_, hrow, rfl, rfl, rfl, hid⟩ assignment now _

theorem inControl_of {number : ℕ} {assignment : Assignment}
    (h : assignArm rt (caseId number) experimentKey controlFraction = .ok assignment) :
    InControl rt (caseId number) ↔ assignment.arm = .control := by
  constructor
  · rintro ⟨-, a, ha, hcontrol⟩
    rw [h] at ha
    obtain rfl := Except.ok.inj ha
    exact hcontrol
  · exact fun harm => ⟨⟨number, rfl⟩, assignment, h, harm⟩

theorem along_runCases (hthinks : c.Thinks) (numbers : List ℕ) (result : ExperimentResult) :
    (runCases rt c parties numbers result).Along BatchWorld.experimentHandler (Asks rt) w := by
  induction numbers generalizing result w with
  | nil => trivial
  | cons number rest ih =>
    cases h : assignArm rt (caseId number) experimentKey controlFraction with
    | error exc =>
      rw [runCases_raised h]
      trivial
    | ok assignment =>
      have hcontrol := inControl_of h
      cases harm : assignment.arm with
      | control =>
        rw [runCases_control h harm]
        exact along_next (along_runControl (hcontrol.mpr harm) _) fun control w' => ih _
      | treatment =>
        have hid : ¬InControl rt (caseId number) := by
          rw [hcontrol, harm]
          exact ExperimentArm.noConfusion
        rw [runCases_treatment h harm]
        exact along_next (along_runTreated hthinks hid _) fun treatment w' => ih _

/-- **No link without a record.** Every link a run asks for is of one rupee, and under the
reference of the merchant's own checkout of a control case, or of an intent committed before for a
case that is not held back. -/
theorem along_runTestmodeExperiment (hthinks : c.Thinks) (w : BatchWorld) :
    (runTestmodeExperiment rt c).Along BatchWorld.experimentHandler (Asks rt) w := by
  unfold runTestmodeExperiment
  split
  · trivial
  · split
    · trivial
    · refine along_past (passive_reads reads_fixtures) fun found _ => ?_
      exact along_past (passive_select _) fun held _ => along_runCases hthinks _ _

/-! ## Ten cases on seeded books -/

def tenCases : Config where
  adapter := Act.completeStructured
  firstName := fun _ => "Asha"

/-- Digests that draw the cases of even numbers into the control arm. -/
def drawingRuntime : Runtime :=
  { plainRuntime with
    sha256 := fun s =>
      (if (s.toList.getLastD '1').toNat % 2 = 0 then "0000000000000000" else "ffffffffffffffff") ++
        s }

/-- The books of one merchant and one customer, in the afternoon. -/
def seededBooks : BatchWorld where
  world :=
    { db :=
        { tables :=
            { merchants := [{ id := "mch_1" }]
              customers := [{ id := "cus_1", merchantId := "mch_1" }]
              consents := [{ customerId := "cus_1" }] }
          valid := by decide +kernel }
      clock := { utc := 8 * hour }
      fate := fun n => { hex := String.ofList (List.replicate n 'a') } }
  side := {}
  valid :=
    { case_hash := List.nodup_nil
      assignment_id := List.nodup_nil
      assignment_case := fun _ h => absurd h List.not_mem_nil
      call_id := List.nodup_nil
      call_case := fun _ h => absurd h List.not_mem_nil }

/-- Five links of either kind are asked for there. -/
theorem along_runTestmodeExperiment_tenCases :
    (runTestmodeExperiment drawingRuntime tenCases).Along BatchWorld.experimentHandler
      (Asks drawingRuntime) seededBooks :=
  @along_runTestmodeExperiment drawingRuntime tenCases thinks_completeStructured seededBooks

/-! ## What is reported -/

/-- An arm's result is of these cases, each with one outcome. -/
structure ArmResult.Accounts (r : ArmResult) (ids : List String) : Prop where
  cases : r.caseIds = ids
  outcomes : (r.links.map Prod.fst ++ r.stopped.map Prod.fst ++ r.errors.map Prod.fst).Perm ids

theorem keys_set_new {entries : List (String × String)} (h : id ∉ entries.map Prod.fst)
    (v : String) : (Dict.set entries id v).map Prod.fst = entries.map Prod.fst ++ [id] := by
  rw [Dict.keys_set, if_neg h]

/-- **One more case**, with one outcome. -/
theorem ArmResult.Accounts.next {r r' : ArmResult} {ids : List String} (h : r.Accounts ids)
    (hid : id ∉ ids) (v : String) (hcases : r'.caseIds = r.caseIds ++ [id])
    (houtcome :
      (r'.links = Dict.set r.links id v ∧ r'.stopped = r.stopped ∧ r'.errors = r.errors) ∨
      (r'.links = r.links ∧ r'.stopped = Dict.set r.stopped id v ∧ r'.errors = r.errors) ∨
      (r'.links = r.links ∧ r'.stopped = r.stopped ∧ r'.errors = Dict.set r.errors id v)) :
    r'.Accounts (ids ++ [id]) := by
  have hnew : ∀ {keys : List String}, keys ⊆ r.links.map Prod.fst ++ r.stopped.map Prod.fst ++
      r.errors.map Prod.fst → id ∉ keys := fun hkeys hmem =>
    hid (h.outcomes.mem_iff.mp (hkeys hmem))
  refine ⟨by rw [hcases, h.cases], ?_⟩
  rw [List.perm_iff_count]
  intro a
  have hcount := (List.perm_iff_count.mp h.outcomes) a
  simp only [List.count_append] at hcount ⊢
  rcases houtcome with ⟨hlinks, hstopped, herrors⟩ | ⟨hlinks, hstopped, herrors⟩ |
    ⟨hlinks, hstopped, herrors⟩
  · rw [hlinks, hstopped, herrors, keys_set_new (hnew (by simp)), List.count_append]
    omega
  · rw [hlinks, hstopped, herrors, keys_set_new (hnew (by simp)), List.count_append]
    omega
  · rw [hlinks, hstopped, herrors, keys_set_new (hnew (by simp)), List.count_append]
    omega

/-- Whatever a control case comes to, it is accounted for. -/
theorem accounts_runControl {assignment : Assignment} {result : ArmResult} {ids : List String}
    (h : result.Accounts ids) (hid : id ∉ ids) :
    (runControl rt c parties id assignment result).All (fun _ => True)
      (Prog.IfReturned fun r => r.Accounts (ids ++ [id]) ∧ r.stopped = result.stopped) := by
  unfold runControl
  refine (Prog.all_returned _).next fun now _ => (Prog.all_returned _).next fun session _ => ?_
  refine (Prog.all_returned _).next fun _ _ => ?_
  unfold openCheckout
  refine (Prog.all_returned _).next fun answer _ => ?_
  cases answer with
  | error exc => exact ⟨h.next hid _ rfl (.inr (.inr ⟨rfl, rfl, rfl⟩)), rfl⟩
  | ok link =>
    refine (Prog.all_returned _).next fun _ _ => (Prog.all_returned _).next fun _ _ => ?_
    exact ⟨h.next hid _ rfl (.inl ⟨rfl, rfl, rfl⟩), rfl⟩

theorem accounts_runTreated {assignment : Assignment} {result : ArmResult} {ids : List String}
    (h : result.Accounts ids) (hid : id ∉ ids) :
    (runTreated rt c parties id assignment result).All (fun _ => True)
      (Prog.IfReturned fun r => r.Accounts (ids ++ [id])) := by
  unfold runTreated
  refine (Prog.all_returned _).next fun now _ => (Prog.all_returned _).next fun found _ => ?_
  refine (Prog.all_returned _).next fun final _ => ?_
  split
  · refine (Prog.all_returned _).next fun session _ => (Prog.all_returned _).next fun _ _ => ?_
    exact h.next hid _ rfl (.inr (.inl ⟨rfl, rfl, rfl⟩))
  · refine (Prog.all_returned _).next fun session _ => (Prog.all_returned _).next fun _ _ => ?_
    refine (Prog.all_returned _).next fun _ _ => ?_
    unfold sendLink
    refine (Prog.all_returned _).next fun answer _ => ?_
    cases answer with
    | error exc =>
      exact (Prog.all_returned _).next fun _ _ =>
        h.next hid _ rfl (.inr (.inr ⟨rfl, rfl, rfl⟩))
    | ok link =>
      exact (Prog.all_returned _).next fun _ _ => h.next hid _ rfl (.inl ⟨rfl, rfl, rfl⟩)

def isControl (rt : Runtime) (number : ℕ) : Bool :=
  (assignArm rt (caseId number) experimentKey controlFraction).toOption.any (·.arm = .control)

/-- The cases of an arm, in the order of their numbers. -/
def idsIn (rt : Runtime) (control : Bool) (numbers : List ℕ) : List String :=
  (numbers.filter (isControl rt · = control)).map caseId

theorem caseId_inj {m n : ℕ} (h : caseId m = caseId n) : m = n := by
  have hlist := congrArg String.toList h
  rw [caseId, caseId, String.toList_append, String.toList_append] at hlist
  exact Text.padNat_inj (List.append_cancel_left hlist)

theorem not_mem_idsIn {control : Bool} {numbers : List ℕ} {number : ℕ} (h : number ∉ numbers) :
    caseId number ∉ idsIn rt control numbers := by
  intro hmem
  obtain ⟨m, hm, heq⟩ := List.mem_map.mp hmem
  rw [caseId_inj heq] at hm
  exact h (List.mem_filter.mp hm).1

/-- Both arms account for some numbers. -/
structure ExperimentResult.Accounts (rt : Runtime) (r : ExperimentResult) (numbers : List ℕ) :
    Prop where
  treatment : r.treatment.Accounts (idsIn rt false numbers)
  control : r.control.Accounts (idsIn rt true numbers)
  stopped : r.control.stopped = []

/-- **The loop**: the numbers it was through are accounted for. -/
theorem accounts_runCases (rest done : List ℕ) (hnodup : (done ++ rest).Nodup)
    {result : ExperimentResult} (h : result.Accounts rt done) :
    (runCases rt c parties rest result).All (fun _ => True)
      (Prog.IfReturned fun r => r.Accounts rt (done ++ rest)) := by
  induction rest generalizing done result with
  | nil =>
    rw [List.append_nil]
    exact h
  | cons number rest ih =>
    -- a number is met once, so its id is in neither arm yet
    have hnew : number ∉ done := by
      intro hmem
      exact (List.disjoint_of_nodup_append hnodup) hmem List.mem_cons_self
    have hsplit : done ++ number :: rest = (done ++ [number]) ++ rest := by simp
    have hnext : ∀ {r : ExperimentResult}, r.Accounts rt (done ++ [number]) →
        (runCases rt c parties rest r).All (fun _ => True)
          (Prog.IfReturned fun r => r.Accounts rt (done ++ number :: rest)) := by
      rw [hsplit] at hnodup ⊢
      exact ih (done ++ [number]) hnodup
    cases hassign : assignArm rt (caseId number) experimentKey controlFraction with
    | error exc =>
      rw [runCases_raised hassign]
      trivial
    | ok assignment =>
      -- the arm a case goes to is the one its id draws
      have hcontrol : isControl rt number = decide (assignment.arm = .control) := by
        rw [isControl, hassign]
        rfl
      cases harm : assignment.arm with
      | control =>
        rw [runCases_control hassign harm]
        refine (accounts_runControl h.control (not_mem_idsIn hnew)).next fun control hr => ?_
        apply hnext
        have hid : isControl rt number = true := by
          rw [hcontrol, harm]
          rfl
        refine ⟨?_, ?_, hr.2.trans h.stopped⟩
        · simpa [idsIn, List.filter_append, hid] using h.treatment
        · simpa [idsIn, List.filter_append, hid] using hr.1
      | treatment =>
        rw [runCases_treatment hassign harm]
        refine (accounts_runTreated h.treatment (not_mem_idsIn hnew)).next fun treatment hr => ?_
        apply hnext
        have hid : isControl rt number = false := by
          rw [hcontrol, harm]
          rfl
        refine ⟨?_, ?_, h.stopped⟩
        · simpa [idsIn, List.filter_append, hid] using hr
        · simpa [idsIn, List.filter_append, hid] using h.control

/-- A command of the services that writes nothing. -/
def QuietServe : {β : Type} → ExperimentCmd β → Prop
  | _, .books (.serve d) => d.Quiet
  | _, _ => False

/-- The fixtures are read, and nothing is written. -/
theorem run_fixtures_db (w : BatchWorld) :
    ((serve fixtures).run BatchWorld.experimentHandler w).2.world.db = w.world.db := by
  have hall : (serve fixtures).All QuietServe fun _ => True :=
    (Prog.all_mapCmd _).mpr ((Prog.all_mapCmd _).mpr quiet_fixtures)
  refine (hall.along (fun _ _ hd => hd) w).run (I := fun v => v.world.db = w.world.db)
    (fun d v hd hv => ?_) rfl
  cases d with
  | books d =>
    cases d with
    | serve d => exact (World.exec_quiet hd v.world).1.trans hv
    | _ => exact hd.elim
  | commitIntent s row => exact hd.elim

/-- **What a run reports** is of consecutive numbers, from the count of the experiment's cases on:
the cases of each arm, in the order of their numbers, are those whose ids are drawn into it, each
with one outcome; and no control case was stopped. -/
theorem runTestmodeExperiment_accounts (rt : Runtime) (c : Config) (w : BatchWorld) :
    Prog.IfReturned
      (fun result : ExperimentResult => result.Accounts rt
        ((List.range c.n.toNat).map (existing w.world.db.tables + · + 1)))
      ((runTestmodeExperiment rt c).run BatchWorld.experimentHandler w).1 := by
  unfold runTestmodeExperiment
  split
  · trivial
  · split
    · trivial
    · rw [Prog.run_bind]
      have hdb := run_fixtures_db w
      rcases hread : (serve fixtures).run BatchWorld.experimentHandler w with
        ⟨e | ⟨merchant, customer⟩, v⟩
      · trivial
      · rw [hread] at hdb
        have hdb : v.world.db = w.world.db := hdb
        -- the numbers go on from the cases there are
        have hnodup : ([] ++ (List.range c.n.toNat).map
            (existing w.world.db.tables + · + 1)).Nodup := by
          refine List.Nodup.map (fun m n hmn => ?_) List.nodup_range
          have hmn : existing w.world.db.tables + m + 1 = existing w.world.db.tables + n + 1 := hmn
          omega
        rw [← hdb] at hnodup ⊢
        have haccounts := @accounts_runCases rt c
          { merchantId := merchant.id, customerId := customer.id
            firstName := c.firstName customer } _ [] hnodup {}
          ⟨⟨rfl, List.Perm.refl _⟩, ⟨rfl, List.Perm.refl _⟩, rfl⟩
        exact haccounts.run _

end Runs

end Experiment

end AegisMerchant
