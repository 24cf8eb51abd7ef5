import AegisMerchant.Agent.BlockedStatus
import AegisMerchant.Agent.MergedMeaning
import AegisMerchant.Agent.RunBounds

/-!
# What the ledger of a run says the model cost

Every completed DIAGNOSE and STRATEGISE adds one entry to the ledger, and the count of calls goes up
with the entries a model answered: at STRATEGISE by their source, at DIAGNOSE only when the answer
could be used.

`counts_runNode` is what one node adds, and `run_routed` what the routing makes of an answer.
`runCase_accounts_iff` is the law of a run, and `not_runCase_accounts` the answer that breaks it.
-/

namespace AegisMerchant

open Time Prog

/-! ## What a stretch of a run adds -/

/-- The task a completed visit was for. -/
def NodeTrace.task (t : NodeTrace) : Option LLMTask :=
  if t.provenance = "error" then none
  else if t.node = "DIAGNOSE" then some .diagnose
  else if t.node = "STRATEGISE" then some .strategise
  else none

def modelCalls (entries : List LLMCallRecord) : ℤ := entries.countP (·.source.isModel)

@[simp] theorem modelCalls_append (entries entries' : List LLMCallRecord) :
    modelCalls (entries ++ entries') = modelCalls entries + modelCalls entries' := by
  simp [modelCalls, List.countP_append]

@[simp] theorem modelCalls_singleton (e : LLMCallRecord) :
    modelCalls [e] = if e.source.isModel then 1 else 0 := by
  unfold modelCalls
  rw [List.countP_singleton]
  split <;> rfl

/-- One entry for each completed visit that asks something, in order. -/
structure Adds (s s' : RecoveryState) (steps : List NodeTrace) (entries : List LLMCallRecord) :
    Prop where
  trace : s'.trace = s.trace ++ steps
  ledger : s'.llmLedger = s.llmLedger ++ entries
  once : entries.map (·.task) = steps.filterMap NodeTrace.task

theorem Adds.trans {s s' s'' : RecoveryState} {steps steps' : List NodeTrace}
    {entries entries' : List LLMCallRecord} (h : Adds s s' steps entries)
    (h' : Adds s' s'' steps' entries') : Adds s s'' (steps ++ steps') (entries ++ entries') where
  trace := by rw [h'.trace, h.trace, List.append_assoc]
  ledger := by rw [h'.ledger, h.ledger, List.append_assoc]
  once := by rw [List.map_append, List.filterMap_append, h.once, h'.once]

/-- A stretch without DIAGNOSE, which counts what it adds. -/
def Counts (s s' : RecoveryState) : Prop :=
  ∃ steps entries, Adds s s' steps entries ∧ s'.llmCalls = s.llmCalls + modelCalls entries ∧
    s'.diagnosis = s.diagnosis ∧ s'.consultedModel = s.consultedModel ∧
      ∀ e ∈ entries, e.task ≠ .diagnose

theorem Counts.refl (s : RecoveryState) : Counts s s :=
  ⟨[], [], ⟨by simp, by simp, rfl⟩, by simp [modelCalls], rfl, rfl, by simp⟩

theorem Counts.trans {s s' s'' : RecoveryState} (h : Counts s s') (h' : Counts s' s'') :
    Counts s s'' := by
  obtain ⟨steps, entries, hadds, hcalls, hdiagnosis, hconsulted, htask⟩ := h
  obtain ⟨steps', entries', hadds', hcalls', hdiagnosis', hconsulted', htask'⟩ := h'
  refine ⟨steps ++ steps', entries ++ entries', hadds.trans hadds', ?_,
    hdiagnosis'.trans hdiagnosis, hconsulted'.trans hconsulted, fun e he => ?_⟩
  · rw [hcalls', hcalls, modelCalls_append, add_assoc]
  · rcases List.mem_append.mp he with he | he
    · exact htask e he
    · exact htask' e he

/-- A node that asks nothing. -/
theorem Counts.of_step {s s' : RecoveryState} {t : NodeTrace} (htask : t.task = none)
    (htrace : s'.trace = s.trace ++ [t]) (hledger : s'.llmLedger = s.llmLedger)
    (hcalls : s'.llmCalls = s.llmCalls) (hdiagnosis : s'.diagnosis = s.diagnosis)
    (hconsulted : s'.consultedModel = s.consultedModel) : Counts s s' :=
  ⟨[t], [], ⟨htrace, by simp [hledger], by simp [htask]⟩, by simp [modelCalls, hcalls], hdiagnosis,
    hconsulted, by simp⟩

section Nodes

variable {rt : Runtime} {deps : AgentDeps Act} (s : RecoveryState)

theorem counts_triage :
    (triageNode rt s deps).All (fun _ => True) (IfReturned (Counts s)) := by
  refine (all_returned _).next fun _ _ => (all_returned _).next fun verdict _ =>
    (all_returned _).next fun _ _ => (all_returned _).next fun _ _ => ?_
  split
  · exact .of_step rfl rfl rfl rfl rfl rfl
  · exact .of_step rfl rfl rfl rfl rfl rfl

theorem ledgerEntry_task (task : LLMTask) (result : Option StructuredResult) (caseId : String) :
    (ledgerEntry task result caseId).task = task := by
  cases result <;> rfl

/-- An entry has the source of the answer it is for. -/
theorem ledgerEntry_isModel (task : LLMTask) (result : Option StructuredResult) (caseId : String) :
    (ledgerEntry task result caseId).source.isModel =
      (result.map (·.source.isModel)).getD false := by
  cases result <;> rfl

/-- STRATEGISE counts a call by the source of its answer, as the ledger does. -/
theorem counts_strategise :
    (strategiseNode s deps).All (fun _ => True) (IfReturned (Counts s)) := by
  refine (all_returned _).next fun proposed _ => (all_returned _).next fun moment _ => ?_
  refine ⟨[⟨"STRATEGISE", _, moment⟩], [ledgerEntry .strategise proposed.2 s.caseId],
    ⟨rfl, rfl, ?_⟩, ?_, rfl, rfl, ?_⟩
  · rw [List.map_singleton, ledgerEntry_task]
    cases (proposed.2.map (·.source.isModel)).getD false <;> rfl
  · rw [modelCalls_singleton, ledgerEntry_isModel]
  · intro e he
    obtain rfl := List.mem_singleton.mp he
    rw [ledgerEntry_task]
    exact fun h => by cases h

theorem counts_policy :
    (policyNode rt s deps).All (fun _ => True) (IfReturned (Counts s)) :=
  (all_returned _).next fun _ _ => (all_returned _).next fun _ _ => (all_returned _).next fun _ _ =>
    (all_returned _).next fun _ _ => .of_step rfl rfl rfl rfl rfl rfl

theorem Reports.counts {s' : RecoveryState} (h : Reports s s') :
    Counts s { s' with nodeVisits := s.nodeVisits + 1 } := by
  cases h with
  | refused | retried | deadLettered => exact .of_step rfl rfl rfl rfl rfl rfl
  | sent => exact .of_step rfl rfl rfl rfl rfl rfl

theorem counts_execute (hdeps : deps.Behaves) :
    (executeNode rt s deps).All (fun _ => True) (IfReturned (Counts s)) := by
  unfold executeNode
  split
  · refine (all_returned _).next fun _ _ => ?_
    split
    · exact (all_returned _).next fun _ _ => .of_step rfl rfl rfl rfl rfl rfl
    · next execute hexecute =>
      exact (hdeps.executor execute hexecute s).next fun executed hreports => hreports.counts s
  · exact (all_returned _).next fun _ _ => .of_step rfl rfl rfl rfl rfl rfl

/-- **Every node but DIAGNOSE counts what it adds.** -/
theorem counts_runNode (hdeps : deps.Behaves) {node : Node} (hnode : node ≠ .diagnose) :
    (runNode rt deps node s).All (fun _ => True) (IfReturned (Counts s)) := by
  cases node with
  | diagnose => exact absurd rfl hnode
  | triage => exact counts_triage s
  | strategise => exact counts_strategise s
  | policy => exact counts_policy s
  | execute => exact counts_execute s hdeps
  | enrich | escalate | audit =>
    exact (all_returned _).next fun _ _ => .of_step rfl rfl rfl rfl rfl rfl

/-- A node that raised adds nothing. -/
theorem counts_finalise (node : Node) (exc : PyError) :
    (finalise deps node s exc).All (fun _ => True) (IfReturned (Counts s)) := by
  refine (all_returned _).next fun moment _ => (all_returned _).next fun closed _ => ?_
  have hfailed : Counts s (failedState node s exc moment) := .of_step rfl rfl rfl rfl rfl rfl
  exact hfailed.trans (.of_step rfl rfl rfl rfl rfl rfl)

end Nodes

/-! ## Up to DIAGNOSE, and past it -/

section Run

variable {rt : Runtime} {deps : AgentDeps Act} {s s' s₁ : RecoveryState} {w w' v : World}

/-- A run that never enters DIAGNOSE counts what it adds; one that does, counts so far. -/
theorem counts_runFrom (hdeps : deps.Behaves) {node : Node}
    (hrun : (runFrom rt deps node s).run World.handler w = (.ok s', w')) :
    match entered rt deps .diagnose node s w with
    | none => Counts s s'
    | some (s₁, v) =>
      Counts s s₁ ∧ (runFrom rt deps .diagnose s₁).run World.handler v = (.ok s', w') := by
  fun_induction entered rt deps .diagnose node s w with
  | case1 node s w hbound =>
    rw [runFrom_eq, if_pos hbound] at hrun
    cases hrun
  | case2 => exact ⟨.refl _, hrun⟩
  | case3 node s w hbound hnode s₁ v hnodeRun hcalls =>
    rw [runFrom_eq, if_neg hbound, run_bind, run_attempt, hnodeRun] at hrun
    simp only [goOnFrom, goOn, if_pos hcalls] at hrun
    cases hrun
  | case4 node s w hbound hnode s₁ v hnodeRun hcalls next hnext ih =>
    rw [runFrom_eq, if_neg hbound, run_bind, run_attempt, hnodeRun] at hrun
    simp only [goOnFrom, goOn, if_neg hcalls, hnext] at hrun
    -- one node that is not DIAGNOSE: the ledger counts what it consulted, which is nothing
    have hstep : IfReturned (Counts s) ((runNode rt deps node s).run World.handler w).1 :=
      (counts_runNode s hdeps hnode).run w
    rw [hnodeRun] at hstep
    have hrest := ih hrun
    split
    · next hnone =>
      rw [hnone] at hrest
      exact Counts.trans hstep hrest
    · next s₂ u hsome =>
      rw [hsome] at hrest
      exact ⟨Counts.trans hstep hrest.1, hrest.2⟩
  | case5 node s w hbound hnode s₁ v hnodeRun hcalls hnext =>
    rw [runFrom_eq, if_neg hbound, run_bind, run_attempt, hnodeRun] at hrun
    simp only [goOnFrom, goOn, if_neg hcalls, hnext] at hrun
    have hstep : IfReturned (Counts s) ((runNode rt deps node s).run World.handler w).1 :=
      (counts_runNode s hdeps hnode).run w
    rw [hnodeRun] at hstep
    cases hrun
    exact hstep
  | case6 node s w hbound hnode e v hnodeRun =>
    rw [runFrom_eq, if_neg hbound, run_bind, run_attempt, hnodeRun] at hrun
    -- the node raised: FINALISE closes the run
    have hlast : IfReturned (Counts s) ((finalise deps node s e).run World.handler v).1 :=
      (counts_finalise s node e).run v
    rw [show (finalise deps node s e).run World.handler v = (.ok s', w') from hrun] at hlast
    exact hlast

/-- A node is not entered from one that is nearer to the end. -/
theorem entered_rank {target node : Node} (h : entered rt deps target node s w = some (s₁, v)) :
    target.rank ≤ node.rank := by
  fun_induction entered rt deps target node s w with
  | case1 | case3 | case5 | case6 => cases h
  | case2 => exact le_rfl
  | case4 node s w hbound hne s' v hrun hcalls next hnext ih =>
    exact le_trans (ih h) (le_of_lt (nextNode_rank hnext))

/-- What the adapter answers DIAGNOSE, when it is asked. -/
def answered (deps : AgentDeps Act) (s : RecoveryState) (w : World) : Option StructuredResult :=
  if s.llmCalls < deps.maxLlmCalls ∧ (ruleDiagnosis (llmContext s)).needsLlmReview = true then
    deps.adapter.bind fun complete =>
      ((complete .diagnose (llmContext s)).run World.handler w).1.toOption
  else none

/-- An answer of a model that can be used, or an answer no model gave. -/
def StructuredResult.Usable (result : StructuredResult) : Prop :=
  result.source.isModel = true → ∃ output, result.output = .diagnosis output

/-- **What the routing makes of it**; an adapter that is not asked or raises answers nothing. -/
theorem run_routed (s : RecoveryState) (w : World) :
    match answered deps s w with
    | some result => ((diagnose (llmContext s)
        (if s.llmCalls < deps.maxLlmCalls then deps.adapter else none)).run World.handler w).1 =
          .ok (routeAnswer (ruleDiagnosis (llmContext s)) result)
    | none => IfReturned
        (· = { diagnosis := ruleDiagnosis (llmContext s), consultedModel := false })
        ((diagnose (llmContext s)
          (if s.llmCalls < deps.maxLlmCalls then deps.adapter else none)).run World.handler w).1 := by
  unfold answered diagnose
  -- the three gates before the model: the ceiling, an adapter, and a doubtful rule
  by_cases hbudget : s.llmCalls < deps.maxLlmCalls
  · simp only [hbudget, true_and, if_true]
    cases hadapter : deps.adapter with
    | none =>
      rw [Option.bind_none, ite_self]
      exact rfl
    | some complete =>
      cases hreview : (ruleDiagnosis (llmContext s)).needsLlmReview with
      | false => exact rfl
      | true =>
        simp only [if_true, Option.bind_some, run_bind]
        rcases (complete .diagnose (llmContext s)).run World.handler w with ⟨e | result, v⟩
        · trivial
        · rfl
  · simp only [hbudget, false_and, if_false]
    exact rfl

/-! ## The whole run -/

/-- **What the ledger of a run says**: one entry for each completed visit that asks, as many of a
model's as the count of calls went up by; no diagnosis is a model's whose entry is not; and the
ceiling on calls bounds them. -/
def Accounts (deps : AgentDeps Act) (s s' : RecoveryState) : Prop :=
  ∃ steps entries, Adds s s' steps entries ∧ s'.llmCalls - s.llmCalls = modelCalls entries ∧
    (∀ e ∈ entries, e.task = .diagnose →
      (s'.consultedModel = true ∨ ∃ d, s'.diagnosis = some d ∧ d.source = .llm) →
        e.source.isModel = true) ∧
    (s.llmCalls ≤ deps.maxLlmCalls → s.llmCalls + modelCalls entries ≤ deps.maxLlmCalls)

/-- No model's answer to DIAGNOSE in this run is one it cannot use. -/
def UsablyAnswered (rt : Runtime) (deps : AgentDeps Act) (s : RecoveryState) (w : World) : Prop :=
  s.isTerminal = false → ∀ s₁ v result, entered rt deps .diagnose .enrich s w = some (s₁, v) →
    answered deps s₁ v = some result → result.Usable

/-- No run returns above the ceiling that starts below it. -/
theorem llmCalls_le_runFrom {node : Node} (h : s.llmCalls ≤ deps.maxLlmCalls) :
    (runFrom rt deps node s).All (fun _ => True)
      (IfReturned fun s' => s'.llmCalls ≤ deps.maxLlmCalls) := by
  refine all_runFrom_of (I := fun _ s => s.llmCalls ≤ deps.maxLlmCalls)
    (fun node s h => (Prog.all_true _).mono (fun _ hc => hc) fun r _ => ?_)
    (fun _ _ _ _ => trivial) h
  cases r with
  | error exc => exact (all_returned _).next fun _ _ => (all_returned _).next fun _ _ => h
  | ok s' =>
    simp only
    split
    · trivial
    · next hcalls =>
      split
      · exact not_lt.mp hcalls
      · exact not_lt.mp hcalls

/-- A run that never enters DIAGNOSE has nothing to answer for. -/
theorem Counts.accounts (h : Counts s s')
    (hceiling : s.llmCalls ≤ deps.maxLlmCalls → s'.llmCalls ≤ deps.maxLlmCalls) :
    Accounts deps s s' := by
  obtain ⟨steps, entries, hadds, hcalls, -, -, htask⟩ := h
  refine ⟨steps, entries, hadds, by omega, fun e he hdiagnose => absurd hdiagnose (htask e he),
    fun hle => ?_⟩
  have hfinal := hceiling hle
  omega

/-! ## The visit of DIAGNOSE -/

def diagnosed (s : RecoveryState) (routed : RoutedDiagnosis) (moment : DateTime) : RecoveryState :=
  { s.withTrace ⟨"DIAGNOSE", diagnoseProvenance routed, moment⟩ with
    status := .diagnosing
    diagnosis := some routed.diagnosis
    consultedModel := routed.consultedModel
    modelDisagreed := routed.modelDisagreed
    llmCalls := s.llmCalls + (if routed.consultedModel then 1 else 0)
    llmLedger := s.llmLedger ++ [ledgerEntry .diagnose routed.result s.caseId] }

theorem diagnoseProvenance_ne_error (routed : RoutedDiagnosis) :
    diagnoseProvenance routed ≠ "error" := by
  unfold diagnoseProvenance
  split
  · intro h
    have hlist := congrArg String.toList h
    rw [String.toList_append, String.toList_append] at hlist
    cases hlist
  · split <;> decide

/-- The source of an answer, as the ledger has it. -/
def RoutedDiagnosis.answeredByModel (routed : RoutedDiagnosis) : Bool :=
  (routed.result.map (·.source.isModel)).getD false

/-- Around a visit of DIAGNOSE, a run accounts for what it adds if the visit does. -/
theorem accounts_around {routed : RoutedDiagnosis} {moment : DateTime} (hbefore : Counts s s₁)
    (hafter : Counts (diagnosed s₁ routed moment) s')
    (hceiling : s.llmCalls ≤ deps.maxLlmCalls → s'.llmCalls ≤ deps.maxLlmCalls)
    (hhonest : routed.consultedModel = true ∨ routed.diagnosis.source = .llm →
      routed.answeredByModel = true) :
    Accounts deps s s' ↔ routed.consultedModel = routed.answeredByModel := by
  obtain ⟨steps, entries, hadds, hcalls, -, -, htask⟩ := hbefore
  obtain ⟨steps', entries', hadds', hcalls', hdiagnosis, hconsulted, htask'⟩ := hafter
  -- the visit of DIAGNOSE itself: one step, one ledger entry
  have hvisit : Adds s₁ (diagnosed s₁ routed moment)
      [⟨"DIAGNOSE", diagnoseProvenance routed, moment⟩]
      [ledgerEntry .diagnose routed.result s₁.caseId] := by
    refine ⟨rfl, rfl, ?_⟩
    rw [List.map_singleton, ledgerEntry_task]
    simp [NodeTrace.task, diagnoseProvenance_ne_error]
  have hall := (hadds.trans hvisit).trans hadds'
  -- the counter rises by one exactly where the entry is a model call
  have hcount : s'.llmCalls - s.llmCalls =
      modelCalls (entries ++ [ledgerEntry .diagnose routed.result s₁.caseId] ++ entries') ↔
        routed.consultedModel = routed.answeredByModel := by
    have hvisited : (diagnosed s₁ routed moment).llmCalls =
        s₁.llmCalls + (if routed.consultedModel then 1 else 0) := rfl
    rw [hcalls', hvisited, hcalls, modelCalls_append, modelCalls_append, modelCalls_singleton,
      ledgerEntry_isModel, ← RoutedDiagnosis.answeredByModel]
    cases routed.consultedModel <;> cases routed.answeredByModel <;> simp <;> omega
  constructor
  · rintro ⟨steps'', entries'', hadds'', hcalls'', -⟩
    -- the entries are determined by the run
    obtain rfl := List.append_cancel_left (hadds''.ledger.symm.trans hall.ledger)
    exact hcount.mp hcalls''
  · intro hsame
    have hcalls'' := hcount.mpr hsame
    refine ⟨_, _, hall, hcalls'', fun e he hdiagnose hmodel => ?_, fun hle => ?_⟩
    · rcases List.mem_append.mp he with he | he
      · rcases List.mem_append.mp he with he | he
        · exact absurd hdiagnose (htask e he)
        · obtain rfl := List.mem_singleton.mp he
          rw [ledgerEntry_isModel]
          refine hhonest (hmodel.imp (fun h => hconsulted.symm.trans h) ?_)
          rintro ⟨d, hd, hsource⟩
          rw [hdiagnosis] at hd
          cases hd
          exact hsource
      · exact absurd hdiagnose (htask' e he)
    · have hfinal := hceiling hle
      omega

theorem answeredByModel_routeAnswer (rule : Diagnosis) (result : StructuredResult) :
    (routeAnswer rule result).answeredByModel = result.source.isModel := by
  unfold routeAnswer
  split <;> rfl

/-- What is shown as a model's is a model's. -/
theorem honest_routeAnswer {rule : Diagnosis} (hrule : rule.Built) (result : StructuredResult)
    (h : (routeAnswer rule result).consultedModel = true ∨
      (routeAnswer rule result).diagnosis.source = .llm) :
    (routeAnswer rule result).answeredByModel = true := by
  rw [answeredByModel_routeAnswer]
  unfold routeAnswer at h
  split at h
  · rcases h with h | h
    · exact h
    · show result.source.isModel = true
      -- a merged diagnosis is signed by the model only if a model answered
      by_contra hmodel
      simp [mergeDiagnosis, hmodel] at h
  · rcases h with h | h
    · cases h
    · rw [hrule.source] at h
      cases h

/-- The routing counts an answer as the ledger does, unless it is a model's and unusable. -/
theorem consulted_routeAnswer_iff {rule : Diagnosis} {result : StructuredResult} :
    (routeAnswer rule result).consultedModel = (routeAnswer rule result).answeredByModel ↔
      result.Usable := by
  rw [answeredByModel_routeAnswer]
  unfold routeAnswer StructuredResult.Usable
  split
  · next output houtput => exact iff_of_true rfl fun _ => ⟨output, houtput⟩
  · next hother =>
    constructor
    · intro h hmodel
      rw [← h] at hmodel
      cases hmodel
    · intro h
      cases hmodel : result.source.isModel with
      | false => rfl
      | true =>
        obtain ⟨output, houtput⟩ := h hmodel
        exact absurd houtput (hother output)

/-- DIAGNOSE, and the run behind it. -/
theorem accounts_diagnose (hdeps : deps.Behaves) (hbefore : Counts s s₁)
    (hceiling : s.llmCalls ≤ deps.maxLlmCalls → s'.llmCalls ≤ deps.maxLlmCalls)
    (hrun : (runFrom rt deps .diagnose s₁).run World.handler v = (.ok s', w')) :
    Accounts deps s s' ↔ ∀ result, answered deps s₁ v = some result → result.Usable := by
  have hrouted := @run_routed deps s₁ v
  rw [runFrom_eq] at hrun
  split at hrun
  · cases hrun
  rw [run_bind, run_attempt] at hrun
  rcases hdiagnose : (diagnose (llmContext s₁)
      (if s₁.llmCalls < deps.maxLlmCalls then deps.adapter else none)).run World.handler v with
    ⟨e | routed, u⟩
  · -- the routing raised: the run ends, and nothing was answered
    have hnode : (runNode rt deps .diagnose s₁).run World.handler v = (.error e, u) := by
      show (diagnoseNode s₁ deps).run World.handler v = (.error e, u)
      rw [diagnoseNode, run_bind, hdiagnose]
    rw [hnode] at hrun
    have hlast : IfReturned (Counts s₁) ((finalise deps .diagnose s₁ e).run World.handler u).1 :=
      (counts_finalise s₁ .diagnose e).run u
    rw [show (finalise deps .diagnose s₁ e).run World.handler u = (.ok s', w') from hrun] at hlast
    refine iff_of_true ((hbefore.trans hlast).accounts hceiling) fun result hanswered => ?_
    rw [hanswered, hdiagnose] at hrouted
    cases hrouted
  · obtain ⟨moment, hmoment⟩ := hdeps.now.run (H := World.handler) u
    have hnode : (runNode rt deps .diagnose s₁).run World.handler v =
        (.ok (diagnosed s₁ routed moment), (deps.now.run World.handler u).2) := by
      show (diagnoseNode s₁ deps).run World.handler v = _
      rw [diagnoseNode, run_bind, hdiagnose]
      simp only
      rw [run_bind, ← Prod.eta (deps.now.run World.handler u), hmoment]
      rfl
    rw [hnode] at hrun
    simp only [goOnFrom, goOn, nextNode] at hrun
    split at hrun
    · cases hrun
    have hafter := counts_runFrom hdeps hrun
    -- DIAGNOSE is not reached a second time: the ranks of the nodes only rise
    have hnone : entered rt deps .diagnose .strategise (diagnosed s₁ routed moment)
        (deps.now.run World.handler u).2 = none := by
      cases hentered : entered rt deps .diagnose .strategise (diagnosed s₁ routed moment)
          (deps.now.run World.handler u).2 with
      -- the model was not asked, so the diagnosis is the rule's
      | none => rfl
      | some x => exact absurd (entered_rank hentered) (by decide)
    rw [hnone] at hafter
    rw [hdiagnose] at hrouted
    have haround := accounts_around hbefore hafter hceiling
    cases hanswered : answered deps s₁ v with
    | none =>
      rw [hanswered] at hrouted
      obtain rfl : routed = _ := hrouted
      refine iff_of_true ((haround ?_).mpr rfl) fun result hresult => by cases hresult
      rintro (h | h)
      · cases h
      · rw [(ruleDiagnosis_built _).source] at h
        cases h
    | some result =>
      rw [hanswered] at hrouted
      obtain rfl := Except.ok.inj hrouted
      rw [haround (honest_routeAnswer (ruleDiagnosis_built _) result), consulted_routeAnswer_iff]
      exact ⟨fun h _ hresult => Option.some.inj hresult ▸ h, fun h => h result rfl⟩

/-! ## Every run -/

/-- A run that does not start above the ceiling does not return above it. -/
theorem llmCalls_le_runCase (hopen : s.isTerminal = false)
    (hrun : (runCase rt s deps).run World.handler w = (.ok s', w'))
    (hle : s.llmCalls ≤ deps.maxLlmCalls) : s'.llmCalls ≤ deps.maxLlmCalls := by
  rw [runCase, if_neg (by simp [hopen])] at hrun
  have hends : IfReturned (fun s' => s'.llmCalls ≤ deps.maxLlmCalls)
      ((runFrom rt deps .enrich s).run World.handler w).1 := (llmCalls_le_runFrom hle).run w
  rwa [hrun] at hends

/-- A run that enters DIAGNOSE accounts for what it adds if its answer there can be used. -/
theorem accounts_entered (hdeps : deps.Behaves) (hopen : s.isTerminal = false)
    (hrun : (runCase rt s deps).run World.handler w = (.ok s', w'))
    (hentered : entered rt deps .diagnose .enrich s w = some (s₁, v)) :
    Accounts deps s s' ↔ ∀ result, answered deps s₁ v = some result → result.Usable := by
  have hceiling := llmCalls_le_runCase hopen hrun
  rw [runCase, if_neg (by simp [hopen])] at hrun
  have hparts := counts_runFrom hdeps hrun
  rw [hentered] at hparts
  exact accounts_diagnose hdeps hparts.1 hceiling hparts.2

/-- **A run accounts for what the model cost exactly when DIAGNOSE was given no answer of a model
that it could not use.** -/
theorem runCase_accounts_iff (hdeps : deps.Behaves)
    (hrun : (runCase rt s deps).run World.handler w = (.ok s', w')) :
    Accounts deps s s' ↔ UsablyAnswered rt deps s w := by
  cases hopen : s.isTerminal with
  | true =>
    rw [runCase, if_pos hopen] at hrun
    cases hrun
    refine iff_of_true ((Counts.refl s).accounts id) fun hopen' => ?_
    rw [hopen] at hopen'
    cases hopen'
  | false =>
    cases hentered : entered rt deps .diagnose .enrich s w with
    | none =>
      -- the run ends before DIAGNOSE, and nothing is counted
      have hceiling := llmCalls_le_runCase hopen hrun
      rw [runCase, if_neg (by simp [hopen])] at hrun
      have hcounts := counts_runFrom hdeps hrun
      rw [hentered] at hcounts
      refine iff_of_true (hcounts.accounts hceiling) fun _ s₁ v result hentered' => ?_
      rw [hentered] at hentered'
      cases hentered'
    | some x =>
      obtain ⟨s₁, v⟩ := x
      rw [accounts_entered hdeps hopen hrun hentered]
      constructor
      · rintro h - s₂ u result hentered' hanswered
        rw [hentered] at hentered'
        cases hentered'
        exact h result hanswered
      · exact fun h result hanswered => h hopen s₁ v result hentered hanswered

end Run

/-! ## One answer that can be used, one that cannot -/

def repeating (result : StructuredResult) : AgentDeps Act :=
  { treatedDeps with adapter := some fun _ _ => pure result }

theorem repeating_behaves (result : StructuredResult) : (repeating result).Behaves where
  now := ⟨trivial, fun moment => ⟨moment, rfl⟩⟩
  executor execute hexecute s := by
    obtain rfl := Option.some.inj hexecute
    exact execute_reports _ _ s

/-- Whatever it is asked, it answers this. -/
theorem eq_of_answered {result result' : StructuredResult} {s : RecoveryState} {w : World}
    (h : answered (repeating result) s w = some result') : result' = result := by
  unfold answered at h
  split at h
  · exact (Option.some.inj h).symm
  · cases h

/-- A diagnosis, paid for. -/
def onTopic : StructuredResult :=
  { output := .diagnosis { railFaultOutput with category := .mandateInvalid }, source := .live
    inputTokens := 900 }

/-- The wrong shape, paid for as well. -/
def offTopic : StructuredResult := { output := .other, source := .live, inputTokens := 900 }

/-- Either is asked for once. -/
theorem llmCalls_repeating :
    ((runCase plainRuntime freshCase (repeating onTopic)).run World.handler
        tickingWorld).1.toOption.map (·.llmCalls) = some 1 ∧
      ((runCase plainRuntime freshCase (repeating offTopic)).run World.handler
        tickingWorld).1.toOption.map (·.llmCalls) = some 1 := by decide +kernel

theorem runCase_accounts_iff_onTopic : ∃ s' w',
    (runCase plainRuntime freshCase (repeating onTopic)).run World.handler tickingWorld =
        (.ok s', w') ∧
      s'.llmCalls = 1 ∧ Accounts (repeating onTopic) freshCase s' := by
  have hcalls := llmCalls_repeating.1
  rcases hrun : (runCase plainRuntime freshCase (repeating onTopic)).run World.handler
    tickingWorld with ⟨e | s', w'⟩
  · rw [hrun] at hcalls
    cases hcalls
  · rw [hrun] at hcalls
    refine ⟨s', w', rfl, Option.some.inj hcalls,
      (runCase_accounts_iff (repeating_behaves _) hrun).mpr ?_⟩
    intro _ s₁ v result _ hanswered hmodel
    rw [eq_of_answered hanswered]
    exact ⟨_, rfl⟩

/-- An answer that costs and cannot be used is in the ledger, and not in the count. -/
theorem not_runCase_accounts : ∃ s' w',
    (runCase plainRuntime freshCase (repeating offTopic)).run World.handler tickingWorld = (.ok s', w') ∧
      ¬Accounts (repeating offTopic) freshCase s' := by
  have hcalls := llmCalls_repeating.2
  rcases hrun : (runCase plainRuntime freshCase (repeating offTopic)).run World.handler tickingWorld with
    ⟨e | s', w'⟩
  · rw [hrun] at hcalls
    cases hcalls
  refine ⟨s', w', rfl, fun haccounts => ?_⟩
  have hsome : ((entered plainRuntime (repeating offTopic) .diagnose .enrich freshCase tickingWorld).map
      fun x => (answered (repeating offTopic) x.1 x.2).map (·.source)) = some (some .live) := by
    decide +kernel
  obtain ⟨⟨s₁, v⟩, hentered, hanswered⟩ := Option.map_eq_some_iff.mp hsome
  obtain ⟨result, hresult, hlive⟩ := Option.map_eq_some_iff.mp hanswered
  obtain ⟨output, houtput⟩ := (accounts_entered (repeating_behaves _) rfl hrun hentered).mp
    haccounts result hresult (by rw [hlive]; rfl)
  rw [eq_of_answered hresult] at houtput
  cases houtput

end AegisMerchant
