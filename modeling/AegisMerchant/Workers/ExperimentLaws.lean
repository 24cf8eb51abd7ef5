import AegisMerchant.Base.Reading
import AegisMerchant.Workers.Experiment
import AegisMerchant.Workers.Holdout
import AegisMerchant.Workers.Reruns

/-!
# What the experiment stores

The arm of a case of the experiment is what anyone recomputes from its id, and a case of the control
arm has no outbox row, no action, no contact and no approval. Every command of a run of the
experiment, and of a batch, leaves it so.

`withheld_step` is the step; `spares_runControl`, `spares_runTreated` and `sparesBooks_storeCase`
say that nobody's transactions touch a control case.
-/

namespace AegisMerchant

open Time Rows

namespace Experiment

open ExperimentAct

/-! ## The invariant -/

/-- A case of the experiment, in the arm that its id decides. -/
def InControl (rt : Runtime) (id : String) : Prop :=
  (∃ number, id = caseId number) ∧
    ∃ a, assignArm rt id experimentKey controlFraction = .ok a ∧ a.arm = .control

/-- Nothing of a case was sent, and nothing is to be. -/
structure Unsent (t : Tables) (id : String) : Prop where
  outbox : ∀ row ∈ t.outbox, row.caseId ≠ id
  actions : ∀ a ∈ t.actions, a.caseId ≠ id
  contacts : ∀ c ∈ t.contacts, c.caseId ≠ some id
  approvals : ∀ a ∈ t.approvals, a.caseId ≠ id

/-- The arm of a stored assignment can be recomputed, if its case is one of the experiment's. -/
def Recomputes (rt : Runtime) (a : AssignmentRow) : Prop :=
  ∀ number, a.caseId = caseId number →
    ∃ b, assignArm rt a.caseId experimentKey controlFraction = .ok b ∧
      a = assignmentRow a.caseId b

/-- Nothing was sent for a control case, and every arm can be recomputed. -/
structure Withheld (rt : Runtime) (w : BatchWorld) : Prop where
  unsent : ∀ id, InControl rt id → Unsent w.world.db.tables id
  arms : ∀ a ∈ w.side.assignments, Recomputes rt a

section Laws

variable {rt : Runtime}

/-! ## What each command keeps -/

/-- A statement that sends nothing for a control case, and credits none. -/
def SparesWrite (rt : Runtime) : Write → Prop
  | .insertOutbox row => ¬InControl rt row.caseId
  | .insertAction row => ¬InControl rt row.caseId
  | .insertContact row => ∀ id ∈ row.caseId, ¬InControl rt id
  | .updateCase read new => ¬InControl rt read.id ∨
    (new.status ≠ .recovered ∧ new.recoveryVerifiedBy = read.recoveryVerifiedBy)
  | _ => True

/-- A session that stores nothing sent for a control case, and no credit of one. A case of the
experiment comes with its arm, and the arm of any other is drawn under a key of its own. -/
structure SparesSession (rt : Runtime) (s : CaseSession) : Prop where
  action : ∀ a ∈ s.action, ¬InControl rt a.caseId
  approval : ∀ a ∈ s.approval, ¬InControl rt a.caseId
  assignment : ∀ a ∈ s.assignment, Recomputes rt a
  uncredited : InControl rt s.case.id →
    s.case.status ≠ .recovered ∧ s.case.recoveryVerifiedBy = none
  drawn : named s.case.id = true → (∃ number, s.case.id = caseId number) ∧
    ∃ a ∈ s.assignment, a.caseId = s.case.id ∧ a.experimentKey = experimentKey
  keyed : ∀ a ∈ s.assignment,
    (∃ number, a.caseId = caseId number) ∨ a.experimentKey ≠ experimentKey

def SparesBooks (rt : Runtime) : {β : Type} → BatchCmd β → Prop
  | _, .serve c => c.Writes (SparesWrite rt)
  | _, .commit s => SparesSession rt s
  | _, .clear _ | _, .flush _ => True

/-- A command that sends nothing for a control case. -/
def Spares (rt : Runtime) : {β : Type} → ExperimentCmd β → Prop
  | _, .books c => SparesBooks rt c
  | _, .commitIntent s row => SparesSession rt s ∧ ¬InControl rt row.caseId

/-- **A statement**: what is inserted is for other cases, and no update moves a row to another. -/
theorem unsent_apply {t : Tables} {write : Write} (hwrite : SparesWrite rt write) {id : String}
    (hid : InControl rt id) (h : Unsent t id) : Unsent (t.apply write) id := by
  obtain ⟨houtbox, hactions, hcontacts, happrovals⟩ := h
  -- a write that spares the control arm inserts nothing under one of its ids
  cases write with
  | insertOutbox row =>
    refine ⟨fun r hr => ?_, hactions, hcontacts, happrovals⟩
    rcases List.mem_append.mp hr with hr | hr
    · exact houtbox r hr
    · rw [List.mem_singleton.mp hr]
      rintro rfl
      exact hwrite hid
  -- an update leaves the row's case as it was
  | updateOutbox read new =>
    refine ⟨fun r hr => ?_, hactions, hcontacts, happrovals⟩
    obtain ⟨before, hbefore, rfl⟩ := mem_updateWhere.mp hr
    split
    · exact houtbox before hbefore
    · exact houtbox before hbefore
  | insertAction row =>
    refine ⟨houtbox, fun a ha => ?_, hcontacts, happrovals⟩
    rcases List.mem_append.mp ha with ha | ha
    · exact hactions a ha
    · rw [List.mem_singleton.mp ha]
      rintro rfl
      exact hwrite hid
  | insertContact row =>
    refine ⟨houtbox, hactions, fun c hc => ?_, happrovals⟩
    rcases List.mem_append.mp hc with hc | hc
    · exact hcontacts c hc
    · rw [List.mem_singleton.mp hc]
      exact fun hcase => hwrite id hcase hid
  | updateApproval read new =>
    refine ⟨houtbox, hactions, hcontacts, fun a ha => ?_⟩
    obtain ⟨before, hbefore, rfl⟩ := mem_updateWhere.mp ha
    split
    · exact happrovals before hbefore
    · exact happrovals before hbefore
  | insertDeadLetter | updateDeadLetter | updateCase | insertBlock =>
    exact ⟨houtbox, hactions, hcontacts, happrovals⟩

/-- **A reset** deletes rows, and moves none to another case. -/
theorem unsent_keepOnly {t : Tables} (keep : List String) {id : String} (h : Unsent t id) :
    Unsent (t.keepOnly keep) id where
  outbox row hrow := h.outbox row (List.mem_filter.mp hrow).1
  actions a ha := by
    obtain ⟨kept, hkept, rfl⟩ := List.mem_map.mp ha
    exact h.actions kept (List.mem_filter.mp hkept).1
  contacts c hc := by
    obtain ⟨contact, hcontact, rfl⟩ := List.mem_map.mp hc
    intro hcase
    exact h.contacts contact hcontact (Option.mem_filter_iff.mp hcase).1
  approvals a ha := h.approvals a (List.mem_filter.mp ha).1

/-- **A session** stores its own rows besides. -/
theorem unsent_insertCase {t : Tables} {s : CaseSession} (hs : SparesSession rt s)
    {id : String} (hid : InControl rt id) (h : Unsent t id) : Unsent (t.insertCase s) id where
  outbox := h.outbox
  actions a ha := by
    rcases List.mem_append.mp ha with ha | ha
    · exact h.actions a ha
    · rintro rfl
      exact hs.action a (Option.mem_toList.mp ha) hid
  contacts := h.contacts
  approvals a ha := by
    rcases List.mem_append.mp ha with ha | ha
    · exact h.approvals a ha
    · rintro rfl
      exact hs.approval a (Option.mem_toList.mp ha) hid

theorem recomputes_insertCase {side : SideTables} {s : CaseSession} (hs : SparesSession rt s)
    (h : ∀ a ∈ side.assignments, Recomputes rt a) :
    ∀ a ∈ (side.insertCase s).assignments, Recomputes rt a := by
  intro a ha
  rcases List.mem_append.mp ha with ha | ha
  · exact h a ha
  · exact hs.assignment a (Option.mem_toList.mp ha)

theorem withheld_books {β : Type} (c : BatchCmd β) (w : BatchWorld) (hc : SparesBooks rt c)
    (hw : Withheld rt w) : Withheld rt (BatchWorld.handler.exec c w).2 := by
  cases c with
  | serve c =>
    refine ⟨fun id hid => ?_, hw.arms⟩
    exact World.exec_keeps_of_writes (I := (Unsent · id))
      (fun _ _ hwrite => unsent_apply hwrite hid) hc w.world (hw.unsent id hid)
  | clear keep =>
    refine ⟨fun id hid => unsent_keepOnly keep (hw.unsent id hid), fun a ha => ?_⟩
    exact hw.arms a (List.mem_filter.mp ha).1
  | flush s =>
    rw [BatchWorld.exec_flush]
    exact ⟨hw.unsent, hw.arms⟩
  | commit s =>
    rw [BatchWorld.exec_commit]
    -- a refused insert leaves the books alone
    cases hinsert : w.insert? s with
    | none => exact ⟨hw.unsent, hw.arms⟩
    | some w' =>
      unfold BatchWorld.insert? at hinsert
      split at hinsert
      · cases hinsert
        exact ⟨fun id hid => unsent_insertCase hc hid (hw.unsent id hid),
          recomputes_insertCase hc hw.arms⟩
      · cases hinsert

/-- **Step.** A command that sends nothing for a control case leaves nothing sent for one. -/
theorem withheld_step {β : Type} (c : ExperimentCmd β) (w : BatchWorld) (hc : Spares rt c)
    (hw : Withheld rt w) : Withheld rt (BatchWorld.experimentHandler.exec c w).2 := by
  cases c with
  | books c => exact withheld_books c w hc hw
  | commitIntent s row =>
    obtain ⟨hs, hrow⟩ := hc
    simp only [BatchWorld.experimentHandler, BatchWorld.serveExperiment]
    cases hinsert : w.insertIntent? s row with
    | none => exact ⟨hw.unsent, hw.arms⟩
    | some w' =>
      unfold BatchWorld.insertIntent? at hinsert
      split at hinsert
      · cases hinsert
        have hwrite : SparesWrite rt (.insertOutbox row) := hrow
        refine ⟨fun id hid => unsent_apply hwrite hid ?_, recomputes_insertCase hs hw.arms⟩
        exact unsent_insertCase hs hid (hw.unsent id hid)
      · cases hinsert

/-! ## The programs -/

variable {α : Type} {c : Config} {parties : Parties} {id : String}

theorem spares_books {p : BatchAct α} {R : Except PyError α → Prop}
    (h : p.All (SparesBooks rt) R) : (books p).All (Spares rt) R :=
  (Prog.all_mapCmd p).mpr h

theorem sparesBooks_serve {p : Act α} {R : Except PyError α → Prop}
    (h : p.All (Cmd.Writes (SparesWrite rt)) R) : (BatchAct.serve p).All (SparesBooks rt) R :=
  (Prog.all_mapCmd p).mpr h

theorem spares_serve {p : Act α} {R : Except PyError α → Prop}
    (h : p.All (Cmd.Writes (SparesWrite rt)) R) : (serve p).All (Spares rt) R :=
  spares_books (sparesBooks_serve h)

theorem sparesBooks_call {d : BatchCmd (Except PyError α)} (h : SparesBooks rt d) :
    (BatchAct.call d).All (SparesBooks rt) fun _ => True := by
  refine ⟨h, fun r => ?_⟩
  cases r <;> trivial

/-- A program that commits nothing. -/
theorem spares_quiet {p : Act α} {R : Except PyError α → Prop} (h : p.All Cmd.Quiet R) :
    (serve p).All (Spares rt) R :=
  spares_serve (h.mono (fun c hc => writes_of_quiet c hc) fun _ hr => hr)

theorem spares_now : (serve Act.nowUtc).All (Spares rt) fun _ => True :=
  spares_quiet (Act.all_nowUtc.mpr ⟨trivial, fun _ => trivial⟩)

theorem spares_select (q : Tables → α) :
    (serve (Act.select q)).All (Spares rt) fun _ => True :=
  spares_quiet (Act.all_select.mpr ⟨trivial, fun _ => trivial⟩)

theorem quiet_fixtures : fixtures.All Cmd.Quiet fun _ => True := by
  unfold fixtures
  have hselect : ∀ {β : Type} (q : Tables → β), (Act.select q).All Cmd.Quiet fun _ => True :=
    fun q => Act.all_select.mpr ⟨trivial, fun _ => trivial⟩
  apply (hselect _).seq
  intro merchant
  apply (hselect _).seq
  intro customer
  cases merchant <;> cases customer <;> trivial

/-- A link is asked for; nothing is stored. -/
theorem quiet_createLink (reference description customerName : String) (now : DateTime) :
    (createLink id reference description customerName now).All Cmd.Quiet fun _ => True := by
  unfold createLink
  apply (Act.all_liftExcept.mpr trivial :
    (liftExcept _ : Act PaymentLinkRequest).All Cmd.Quiet fun _ => True).seq
  intro request
  exact Act.all_call.mpr ⟨trivial, fun _ => trivial⟩

theorem spares_createLink (reference description customerName : String) (now : DateTime) :
    (serve (createLink id reference description customerName now)).attempt.All (Spares rt)
      fun _ => True :=
  (Prog.all_attempt _).mpr (spares_quiet (quiet_createLink reference description customerName now))

/-- The arm that is stored is the one the id decides. -/
theorem recomputes_assignmentRow {assignment : Assignment}
    (h : assignArm rt id experimentKey controlFraction = .ok assignment) :
    Recomputes rt (assignmentRow id assignment) :=
  fun _ _ => ⟨assignment, h, rfl⟩

theorem sparesSession_persisted {number : ℕ} {status : CaseStatus} {observed : Option String}
    {now : DateTime} {assignment : Assignment}
    (h : assignArm rt (caseId number) experimentKey controlFraction = .ok assignment)
    (hstatus : InControl rt (caseId number) → status ≠ .recovered)
    (block : Option AuditBlockRow) :
    SparesSession rt
      { persisted rt parties (caseRow (caseId number) parties now status observed) with
        assignment := some (assignmentRow (caseId number) assignment), block } where
  action := by rintro _ ⟨⟩
  approval := by rintro _ ⟨⟩
  assignment := by
    rintro _ ⟨⟩
    exact recomputes_assignmentRow h
  uncredited hcontrol := ⟨hstatus hcontrol, rfl⟩
  drawn _ := ⟨⟨number, rfl⟩, _, rfl, rfl, rfl⟩
  keyed := by
    rintro _ ⟨⟩
    exact .inl ⟨number, rfl⟩

/-- The case is flushed before anything goes with it. -/
theorem spares_persist {Q : CaseSession → Prop} {case : CaseRow} {assignment : Assignment}
    (h : Q { persisted rt parties case with
      assignment := some (assignmentRow case.id assignment) }) :
    (persist rt parties case assignment).All (Spares rt) (Prog.IfReturned Q) := by
  have hflush : (books (BatchAct.call (.flush (persisted rt parties case)))).All (Spares rt)
      fun _ => True := spares_books (sparesBooks_call trivial)
  exact hflush.bind (fun _ _ => h) fun _ _ => trivial

theorem sparesBooks_of_isBlock {β : Type} (d : Cmd β) (h : d.Writes Write.IsBlock) :
    SparesBooks rt (.serve d) := by
  cases d with
  | commit ws =>
    intro write hwrite
    have hblock : write.IsBlock := h write hwrite
    cases write with
    | insertBlock block => trivial
    | _ => exact hblock.elim
  | _ => trivial

/-- A program that stores such sessions, and blocks. -/
theorem sparesBooks_of_stores {p : BatchAct α} {R : Except PyError α → Prop}
    (h : p.All (BatchCmd.Stores (SparesSession rt)) R) : p.All (SparesBooks rt) R := by
  refine h.mono (fun d hd => ?_) fun _ hr => hr
  cases d with
  | serve d => exact sparesBooks_of_isBlock d hd
  | commit s => exact hd
  | clear | flush => trivial

/-- A block of a case, in the case's session or alone. -/
theorem sparesBooks_appendCommit {session : CaseSession}
    (h : ∀ block, SparesSession rt { session with block }) (e : AuditEvent) :
    (BatchStore.appendCommit rt session e).All (SparesBooks rt) fun _ => True :=
  sparesBooks_of_stores (stores_appendCommit (fun block => h (some block)) e)

theorem spares_openCheckout (now : DateTime) (result : ArmResult) :
    (openCheckout parties id now result).All (Spares rt) fun _ => True := by
  unfold openCheckout
  refine Prog.All.seq (spares_createLink _ _ _ _) fun answer => ?_
  cases answer with
  | error exc => trivial
  | ok link =>
    have hcommit : (serve (Act.commit [])).All (Spares rt) fun _ => True :=
      spares_serve (Act.all_commit.mpr ⟨fun write hwrite => absurd hwrite List.not_mem_nil,
        fun _ => trivial⟩)
    exact (spares_select _).seq fun _ => hcommit.seq fun _ => trivial

/-- **A control case**: its row, its arm and a block. -/
theorem spares_runControl {number : ℕ} {assignment : Assignment} (result : ArmResult)
    (h : assignArm rt (caseId number) experimentKey controlFraction = .ok assignment) :
    (runControl rt c parties (caseId number) assignment result).All (Spares rt)
      fun _ => True := by
  unfold runControl
  refine spares_now.seq fun now => ?_
  have hpersist : (persist rt parties (caseRow (caseId number) parties now .monitoring
      (some (observedReferenceId (caseId number)))) assignment).All
      (Spares rt) (Prog.IfReturned fun session => ∀ block,
        SparesSession rt { session with block }) :=
    spares_persist (sparesSession_persisted h fun _ => CaseStatus.noConfusion)
  refine hpersist.bind (fun session hsession => ?_) fun _ _ => trivial
  exact Prog.All.seq (spares_books (sparesBooks_appendCommit hsession _)) fun _ =>
    spares_openCheckout now _

/-! ### A treated case -/

/-- The model is consulted through commands that read. -/
def Config.Thinks (c : Config) : Prop :=
  ∀ task context, (c.adapter task context).All Cmd.Thinks fun _ => True

theorem spares_putBack (reference : String) (exc : PyError) :
    (serve (putBack reference exc)).All (Spares rt) fun _ => True := by
  apply spares_serve
  unfold putBack
  have hselect : (Act.select (·.outboxByReference reference)).All (Cmd.Writes (SparesWrite rt))
      fun _ => True := Act.all_select.mpr ⟨trivial, fun _ => trivial⟩
  refine hselect.seq fun found => ?_
  cases found with
  | none => exact Act.all_commit.mpr ⟨fun _ h => absurd h List.not_mem_nil, fun _ => trivial⟩
  | some entry =>
    refine Act.all_commit.mpr ⟨fun write hwrite => ?_, fun _ => trivial⟩
    rw [List.mem_singleton.mp hwrite]
    trivial

/-- **What is recorded of a treated case** is recorded of that case. -/
theorem spares_dispatched (hid : ¬InControl rt id) (reference : String) (assignment : Assignment)
    (link : PaymentLinkResult) (now : DateTime) :
    (serve (dispatched rt c id reference assignment link now)).All (Spares rt)
      fun _ => True := by
  apply spares_serve
  unfold dispatched
  have hselect : (Act.select (·.outboxByReference reference)).All (Cmd.Writes (SparesWrite rt))
      fun _ => True := Act.all_select.mpr ⟨trivial, fun _ => trivial⟩
  have hfresh : (Act.freshId "act").All (Cmd.Writes (SparesWrite rt)) fun _ => True :=
    Act.all_freshId.mpr ⟨trivial, fun _ => trivial⟩
  refine hselect.seq fun entry => hfresh.seq fun actionId => ?_
  refine ((AuditChain.reads_append rt _ _).mono (fun d hd => writes_of_reads d hd)
    fun _ hr => hr).bind (fun appended happended => ?_) fun _ _ => trivial
  obtain ⟨block, session⟩ := appended
  obtain ⟨-, hpending⟩ := happended
  refine Act.all_commit.mpr ⟨fun write hwrite => ?_, fun _ => trivial⟩
  -- the row is marked as sent, and the action belongs to a treated case
  have hsent : ∀ write ∈ entry.elim [] (fun entry =>
      [Write.updateOutbox entry { entry with status := .sent, providerRef := some link.linkId }]) ++
        [.insertAction (actionRow actionId id reference entry link now)], SparesWrite rt write := by
    intro write hwrite
    rcases List.mem_append.mp hwrite with hwrite | hwrite
    · cases entry with
      | none => cases hwrite
      | some entry =>
        rw [List.mem_singleton.mp hwrite]
        trivial
    · rw [List.mem_singleton.mp hwrite]
      exact hid
  -- the action goes with the block, or was rolled back
  rcases hpending with hpending | hpending
  · rw [hpending] at hwrite
    rcases List.mem_append.mp hwrite with hwrite | hwrite
    · exact hsent write hwrite
    · rw [List.mem_singleton.mp hwrite]
      trivial
  · rw [hpending, List.mem_singleton] at hwrite
    rw [hwrite]
    trivial

theorem spares_sendLink (hid : ¬InControl rt id) (reference : String) (assignment : Assignment)
    (now : DateTime) (result : ArmResult) :
    (sendLink rt c parties id reference assignment now result).All (Spares rt)
      fun _ => True := by
  unfold sendLink
  refine Prog.All.seq (spares_createLink _ _ _ _) fun answer => ?_
  cases answer with
  | error exc => exact Prog.All.seq (spares_putBack reference exc) fun _ => trivial
  | ok link =>
    exact Prog.All.seq (spares_dispatched hid reference assignment link now) fun _ => trivial

/-- **A treated case**: its row and its arm, its intent, and what came of it. -/
theorem spares_runTreated (hthinks : c.Thinks) {number : ℕ} {assignment : Assignment}
    (result : ArmResult)
    (h : assignArm rt (caseId number) experimentKey controlFraction = .ok assignment)
    (harm : assignment.arm = .treatment) :
    (runTreated rt c parties (caseId number) assignment result).All (Spares rt)
      fun _ => True := by
  -- the draw is a function of the id, and it said treatment
  have hid : ¬InControl rt (caseId number) := by
    rintro ⟨-, a, ha, hcontrol⟩
    rw [h] at ha
    obtain rfl := Except.ok.inj ha
    rw [harm] at hcontrol
    cases hcontrol
  unfold runTreated
  refine spares_now.seq fun now => (spares_quiet quiet_fixtures).seq fun found => ?_
  obtain ⟨merchant, customer⟩ := found
  have hrun : (runCase rt (state (caseId number) merchant customer (c.firstName customer) now)
      (deps c.adapter)).All Cmd.Quiet fun _ => True := by
    have hdeps : (deps c.adapter).Thinks := by
      refine ⟨thinks_nowUtc, fun complete hcomplete => ?_⟩
      rw [← Option.some.inj hcomplete]
      exact hthinks
    exact (thinks_runCase hdeps rfl _).mono (fun d hd => hd.reads.quiet) fun _ hr => hr
  refine (spares_quiet hrun).seq fun final => ?_
  -- the case is stored with that arm
  have hpersist : ∀ status, (persist rt parties (caseRow (caseId number) parties now status none)
      assignment).All (Spares rt) (Prog.IfReturned (SparesSession rt)) := fun status =>
    spares_persist (sparesSession_persisted h (fun hcontrol => absurd hcontrol hid) none)
  split
  · refine (hpersist final.status).bind (fun session hsession => ?_) fun _ _ => trivial
    exact Prog.All.seq (spares_books (sparesBooks_call hsession)) fun _ => trivial
  · next reference _ =>
    refine (hpersist .monitoring).bind (fun session hsession => ?_) fun _ _ => trivial
    have hfresh : (serve (Act.freshId "obx")).All (Spares rt) fun _ => True :=
      spares_quiet (Act.all_freshId.mpr ⟨trivial, fun _ => trivial⟩)
    refine hfresh.seq fun outboxId => ?_
    -- only a case with a link to send reserves one
    have hintent : (call (.commitIntent session
        (intentRow outboxId (caseId number) reference now))).All (Spares rt)
          fun _ => True := by
      refine ⟨⟨hsession, hid⟩, fun r => ?_⟩
      cases r <;> trivial
    exact Prog.All.seq hintent fun _ => spares_sendLink hid reference assignment now _

/-! ### The cases one after another -/

theorem runCases_raised {number : ℕ} {exc : PyError}
    (h : assignArm rt (caseId number) experimentKey controlFraction = .error exc) (rest : List ℕ)
    (result : ExperimentResult) : runCases rt c parties (number :: rest) result = throw exc := by
  rw [runCases, h]
  rfl

theorem runCases_control {number : ℕ} {assignment : Assignment}
    (h : assignArm rt (caseId number) experimentKey controlFraction = .ok assignment)
    (harm : assignment.arm = .control) (rest : List ℕ) (result : ExperimentResult) :
    runCases rt c parties (number :: rest) result =
      runControl rt c parties (caseId number) assignment result.control >>= fun control =>
        runCases rt c parties rest { result with control } := by
  rw [runCases, h]
  obtain ⟨arm, hash, key, position⟩ := assignment
  obtain rfl : arm = .control := harm
  rfl

theorem runCases_treatment {number : ℕ} {assignment : Assignment}
    (h : assignArm rt (caseId number) experimentKey controlFraction = .ok assignment)
    (harm : assignment.arm = .treatment) (rest : List ℕ) (result : ExperimentResult) :
    runCases rt c parties (number :: rest) result =
      runTreated rt c parties (caseId number) assignment result.treatment >>= fun treatment =>
        runCases rt c parties rest { result with treatment } := by
  rw [runCases, h]
  obtain ⟨arm, hash, key, position⟩ := assignment
  obtain rfl : arm = .treatment := harm
  rfl

/-- Each case is run in the arm that its id decides. -/
theorem spares_runCases (hthinks : c.Thinks) (numbers : List ℕ) (result : ExperimentResult) :
    (runCases rt c parties numbers result).All (Spares rt) fun _ => True := by
  induction numbers generalizing result with
  | nil => trivial
  | cons number rest ih =>
    cases h : assignArm rt (caseId number) experimentKey controlFraction with
    | error exc =>
      rw [runCases_raised h]
      trivial
    | ok assignment =>
      cases harm : assignment.arm with
      | control =>
        rw [runCases_control h harm]
        exact (spares_runControl result.control h).seq fun control => ih _
      | treatment =>
        rw [runCases_treatment h harm]
        exact (spares_runTreated hthinks result.treatment h harm).seq fun treatment => ih _

theorem spares_runTestmodeExperiment (hthinks : c.Thinks) :
    (runTestmodeExperiment rt c).All (Spares rt) fun _ => True := by
  unfold runTestmodeExperiment
  split
  · trivial
  · split
    · trivial
    · refine (spares_quiet quiet_fixtures).seq fun found => (spares_select _).seq fun held => ?_
      exact spares_runCases hthinks _ _

/-! ### The batch -/

/-- No number of the batch's makes an id of the experiment's. -/
theorem batchId_ne (created number : ℕ) : Batch.caseId created ≠ caseId number := by
  intro h
  have hlist := congrArg String.toList h
  rw [Batch.caseId, caseId, String.toList_append, String.toList_append] at hlist
  have hdigits : (Text.padNat 4 created).toList = 'X' :: 'P' :: (Text.padNat 4 number).toList :=
    @List.append_cancel_left _ ['R', 'C', '-'] _ _ hlist
  have hmem : 'X' ∈ (Text.padNat 4 created).toList := by
    rw [hdigits]
    exact List.mem_cons_self
  have hdigit := Text.isDigit_of_mem_padNat hmem
  cases hdigit

theorem named_batch (created : ℕ) : named (Batch.caseId created) = false := by
  have hlist : (Batch.caseId created).toList = "RC-".toList ++ (Text.padNat 4 created).toList := by
    rw [Batch.caseId, String.toList_append]
  cases hdigits : (Text.padNat 4 created).toList with
  | nil =>
    rw [named, hlist, hdigits]
    decide
  | cons d ds =>
    have hdigit : d.isDigit = true := by
      apply Text.isDigit_of_mem_padNat
      rw [hdigits]
      exact List.mem_cons_self
    -- a digit is its own lower case, and no digit is an x
    have hlower : d.toLower = d := by
      obtain ⟨-, hhigh⟩ := Char.isDigit_iff_toNat.mp hdigit
      have hle : d.val.toNat ≤ 57 := hhigh
      unfold Char.toLower
      refine dif_neg fun hc => ?_
      have hA : 65 ≤ d.val.toNat := hc.1
      omega
    have hne : 'x' ≠ d.toLower := by
      rw [hlower]
      rintro rfl
      cases hdigit
    rw [named, hlist, hdigits]
    show (Metrics.likePrefix ['X', 'P'] (d :: ds)) = false
    rw [Metrics.likePrefix]
    simp [hne]

theorem not_inControl_batch (created : ℕ) : ¬InControl rt (Batch.caseId created) := by
  rintro ⟨⟨number, h⟩, -⟩
  exact batchId_ne created number h

/-- **A case of the batch** is none of the experiment's. -/
theorem sparesBooks_storeCase {b : BatchConfig} (hkey : b.experimentKey ≠ experimentKey)
    {attempt : AttemptRow} {row : CorpusRow} {playbook : Playbook} {r : BatchRecord} {created : ℕ}
    (h : r.Sound (Batch.caseId created) row playbook) :
    (BatchStore.storeCase rt b attempt r).All (SparesBooks rt) fun _ => True := by
  have hother := @not_inControl_batch rt created
  have hcalls : (BatchStore.callRows r.case.id r.llmLedger).All (Cmd.Writes (SparesWrite rt))
      fun _ => True := by
    induction r.llmLedger with
    | nil => trivial
    | cons entry rest ih =>
      have hfresh : (Act.freshId "llmcall").All (Cmd.Writes (SparesWrite rt)) fun _ => True :=
        Act.all_freshId.mpr ⟨trivial, fun _ => trivial⟩
      exact Prog.All.seq hfresh fun id => Prog.All.seq ih fun rows => trivial
  -- a batch case is RC-, so nothing it stores is under an id of the experiment
  have hsession : ∀ calls block, SparesSession rt
      { case := r.case, columns := BatchStore.columnsOf rt attempt r.case.playbook, calls
        assignment := some
          { caseId := r.case.id, experimentKey := b.experimentKey, arm := r.arm
            assignmentHash := r.assignmentHash }
        approval := r.approval, action := r.action, block } := by
    intro calls block
    refine ⟨fun a ha => ?_, fun a ha => ?_, ?_, fun hcontrol => ?_, fun hnamed => ?_, ?_⟩
    · rw [(h.action a ha).1]
      exact hother
    · rw [h.approval a ha]
      exact hother
    · rintro _ ⟨⟩ number hnumber
      rw [h.caseId] at hnumber
      exact absurd hnumber (batchId_ne created number)
    · rw [h.caseId] at hcontrol
      exact absurd hcontrol hother
    · rw [h.caseId, named_batch] at hnamed
      cases hnamed
    · rintro _ ⟨⟩
      exact .inr hkey
  unfold BatchStore.storeCase
  exact Prog.All.seq (sparesBooks_call trivial) fun _ =>
    Prog.All.seq (sparesBooks_serve hcalls) fun calls => sparesBooks_appendCommit (hsession calls) _

theorem sparesBooks_storeRow {b : BatchConfig} (hthinks : b.Thinks)
    (hkey : b.experimentKey ≠ experimentKey) (now : DateTime) (tally : BatchTally)
    (attempt : AttemptRow) (playbook : Playbook) :
    (BatchStore.storeRow rt b now tally attempt playbook).All (SparesBooks rt) fun _ => True := by
  have hrow := @Batch.all_runRow_sound rt b now hthinks tally attempt.toCorpusRow playbook
  have hrun := @sparesBooks_serve rt _ _ _
    (hrow.mono (fun d hd => writes_of_reads d hd) fun _ hr => hr)
  unfold BatchStore.storeRow
  refine hrun.bind (fun tally' hstored => ?_) fun _ _ => trivial
  obtain ⟨r, hrecords, -, hsound⟩ := hstored
  have hlast : tally'.records.getLast? = some r := by
    rw [hrecords]
    exact List.getLast?_concat
  simp only [hlast]
  exact Prog.All.seq (sparesBooks_storeCase hkey hsound) fun _ => trivial

/-- **A run of the batch** stores cases of its own only. -/
theorem sparesBooks_runBatch {b : BatchConfig} (hthinks : b.Thinks)
    (hkey : b.experimentKey ≠ experimentKey) (corpus : List AttemptRow) :
    (BatchStore.runBatch rt b corpus).All (SparesBooks rt) fun _ => True := by
  -- on the attempts of the corpus, whatever the tally
  have hrows : ∀ (attempts : List AttemptRow) (now : DateTime) (tally : BatchTally),
      (BatchStore.storeRows rt b now tally attempts).All (SparesBooks rt) fun _ => True := by
    intro attempts now
    induction attempts with
    | nil =>
      intro tally
      trivial
    | cons attempt rest ih =>
      intro tally
      rw [BatchStore.storeRows]
      split
      · exact ih tally
      · split
        · trivial
        · exact Prog.All.seq (sparesBooks_storeRow hthinks hkey now tally attempt _) fun tally' =>
            ih tally'
  have hselect : ∀ {β : Type} (q : Tables → β),
      (BatchAct.serve (Act.select q)).All (SparesBooks rt) fun _ => True := fun q =>
    sparesBooks_serve (Act.all_select.mpr ⟨trivial, fun _ => trivial⟩)
  have hclear : BatchStore.clear.All (SparesBooks rt) fun _ => True :=
    Prog.All.seq (hselect _) fun preserved => ⟨trivial, fun _ => trivial⟩
  have hnow : (BatchAct.serve Act.nowUtc).All (SparesBooks rt) fun _ => True :=
    sparesBooks_serve (Act.all_nowUtc.mpr ⟨trivial, fun _ => trivial⟩)
  unfold BatchStore.runBatch
  split
  · trivial
  · exact Prog.All.seq hclear fun _ =>
      Prog.All.seq (sparesBooks_of_stores stores_recordCarriedOver) fun carried =>
        Prog.All.seq hnow fun now => Prog.All.seq (hrows corpus now {}) fun tally => trivial

end Laws

end Experiment

end AegisMerchant
