import AegisMerchant.Agent.Graph
import AegisMerchant.Guardrails.PolicyBounds
import AegisMerchant.Tools.OutboxLaws

/-!
# One run of a case, node by node

In the world, every node but EXECUTE reads the clock and may ask the model, and does nothing else.
So what a run does is what its EXECUTE does, in the state and the world it is entered in.

A law of the nodes becomes a law of every run by `all_runFrom_of`, and by `along_runFrom` where it
is about the commands a run gives. `entered_execute` says how a run comes to EXECUTE.
-/

namespace AegisMerchant

open Time

/-! ## Nodes that only think -/

/-- Reading the clock, or asking the model. -/
def Cmd.Thinks : {β : Type} → Cmd β → Prop
  | _, .now => True
  | _, .completeStructured _ _ => True
  | _, _ => False

theorem Cmd.Thinks.reads {β : Type} {c : Cmd β} (h : c.Thinks) : c.Reads := by
  cases c with
  | now | completeStructured => trivial
  | _ => exact h.elim

/-- A program that only thinks takes time and leaves the rest of the world alone. -/
theorem run_thinks {α : Type} {p : Act α} {R : Except PyError α → Prop} (h : p.All Cmd.Thinks R)
    (w : World) : ∃ n, (p.run World.handler w).2 = w.after n :=
  World.run_reads (h.mono (fun _ hc => hc.reads) fun _ hr => hr) w

/-- The clock and the model of a run, whichever they are, only think. -/
structure AgentDeps.Thinks (deps : AgentDeps Act) : Prop where
  now : deps.now.All Cmd.Thinks fun _ => True
  adapter : ∀ complete, deps.adapter = some complete → ∀ task context,
    (complete task context).All Cmd.Thinks fun _ => True

theorem thinks_nowUtc : Act.nowUtc.All Cmd.Thinks fun _ => True := by
  simp [Cmd.Thinks]

theorem thinks_completeStructured (task : LLMTask) (context : LlmContext) :
    (Act.completeStructured task context).All Cmd.Thinks fun _ => True := by
  simp [Act.completeStructured, Cmd.Thinks]

theorem thinks_liftExcept {α : Type} (x : Except PyError α) :
    (liftExcept x : Act α).All Cmd.Thinks fun _ => True := by
  simp

theorem thinks_return {α : Type} (a : α) : (pure a : Act α).All Cmd.Thinks fun _ => True := by
  simp

section Nodes

variable (rt : Runtime) {deps : AgentDeps Act} (hdeps : deps.Thinks) (s : RecoveryState)

include hdeps

theorem thinks_triage : (triageNode rt s deps).All Cmd.Thinks fun _ => True := by
  refine hdeps.now.seq fun now => (thinks_liftExcept _).seq fun verdict =>
    (thinks_liftExcept _).seq fun assignment => hdeps.now.seq fun now' => ?_
  split
  · exact thinks_return _
  · exact thinks_return _

/-- Asking for a diagnosis. -/
theorem thinks_routed (context : LlmContext) :
    (diagnose context (if s.llmCalls < deps.maxLlmCalls then deps.adapter else none)).All
      Cmd.Thinks fun _ => True := by
  unfold diagnose
  simp only
  split
  · exact thinks_return _
  · next complete hadapter =>
      have hadapter : deps.adapter = some complete := by
        split at hadapter
        · exact hadapter
        · cases hadapter
      split
      · exact (hdeps.adapter complete hadapter _ _).seq fun result => thinks_return _
      · exact thinks_return _

theorem thinks_diagnose : (diagnoseNode s deps).All Cmd.Thinks fun _ => True :=
  (thinks_routed hdeps s _).seq fun _ => hdeps.now.seq fun _ => thinks_return _

/-- Asking for a proposal. -/
theorem thinks_propose : (propose s deps).All Cmd.Thinks fun _ => True := by
  unfold propose
  split
  · exact thinks_return _
  · split
    · exact thinks_return _
    · split
      · exact thinks_return _
      · split
        · next complete hadapter =>
            split
            · exact (hdeps.adapter complete hadapter _ _).seq fun result => thinks_return _
            · exact thinks_return _
        · exact thinks_return _

theorem thinks_strategise : (strategiseNode s deps).All Cmd.Thinks fun _ => True :=
  (thinks_propose hdeps s).seq fun _ => hdeps.now.seq fun _ => thinks_return _

theorem thinks_policy : (policyNode rt s deps).All Cmd.Thinks fun _ => True :=
  hdeps.now.seq fun _ => hdeps.now.seq fun _ => (thinks_liftExcept _).seq fun _ =>
    hdeps.now.seq fun _ => thinks_return _

/-- Every node but EXECUTE only thinks. -/
theorem thinks_runNode {node : Node} (h : node ≠ .execute) :
    (runNode rt deps node s).All Cmd.Thinks fun _ => True := by
  cases node with
  | execute => exact absurd rfl h
  | triage => exact thinks_triage rt hdeps s
  | diagnose => exact thinks_diagnose hdeps s
  | strategise => exact thinks_strategise hdeps s
  | policy => exact thinks_policy rt hdeps s
  | enrich | escalate | audit => exact hdeps.now.seq fun now => thinks_return _

end Nodes

/-! ## The loop -/

section Loop

variable {rt : Runtime} {deps : AgentDeps Act}

/-- The last node, after one that raised. -/
def finalise (deps : AgentDeps Act) (node : Node) (s : RecoveryState) (exc : PyError) :
    Act RecoveryState := do
  auditNode (failedState node s exc (← deps.now)) deps

/-- What follows a node that returned. -/
def goOn (rt : Runtime) (deps : AgentDeps Act) (node : Node) (s : RecoveryState) :
    Act RecoveryState :=
  if deps.maxLlmCalls < s.llmCalls then throw .graphBoundExceeded
  else
    match nextNode node s with
    | some next => runFrom rt deps next s
    | none => return s

def goOnFrom (rt : Runtime) (deps : AgentDeps Act) (node : Node) (s : RecoveryState) :
    Except PyError RecoveryState → Act RecoveryState
  | .ok s' => goOn rt deps node s'
  | .error exc => finalise deps node s exc

/-- The loop from one node on: the node, then what follows it. -/
theorem runFrom_eq (node : Node) (s : RecoveryState) :
    runFrom rt deps node s =
      if maxNodeVisits ≤ s.nodeVisits then throw .graphBoundExceeded
      else (runNode rt deps node s).attempt >>= goOnFrom rt deps node s := by
  rw [runFrom]
  split
  · rfl
  · show (tryCatchThe PyError _ _ >>= _) = _
    rw [Prog.tryCatch_eq_attempt]
    refine congrArg _ (funext fun visited => ?_)
    cases visited with
    | error exc => rfl
    | ok s' =>
      simp only [goOnFrom, goOn]
      split
      · rfl
      · cases nextNode node s' <;> rfl

/-- **The rule of the loop**: an invariant of the state at each node, which every node hands on to the
next one or turns into the outcome, gives the outcome of every path; a bound that is exceeded is an
outcome too. -/
theorem all_runFrom_of {I : Node → RecoveryState → Prop} {P : {β : Type} → Cmd β → Prop}
    {R : Except PyError RecoveryState → Prop}
    (hstep : ∀ node s, I node s → (runNode rt deps node s).All P fun r =>
      match r with
      | .ok s' =>
        if deps.maxLlmCalls < s'.llmCalls then R (.error .graphBoundExceeded)
        else
          match nextNode node s' with
          | some next => I next s'
          | none => R (.ok s')
      | .error exc => (finalise deps node s exc).All P R)
    (hvisits : ∀ node s, I node s → maxNodeVisits ≤ s.nodeVisits →
      R (.error .graphBoundExceeded)) {node : Node} {s : RecoveryState} (h : I node s) :
    (runFrom rt deps node s).All P R := by
  -- on the rank of the node, which every edge lowers
  induction hrank : node.rank using Nat.strong_induction_on generalizing node s with
  | _ rank ih =>
    subst hrank
    rw [runFrom_eq]
    split
    · next hvisited => exact (Prog.all_throw _).mpr (hvisits node s h hvisited)
    · refine (Prog.all_bind _ _).mpr ((Prog.all_attempt _).mpr
        ((hstep node s h).mono (fun _ hc => hc) fun r hr => ?_))
      cases r with
      | error exc => exact hr
      | ok s' =>
        simp only [goOnFrom, goOn]
        simp only at hr
        split
        · next hcalls =>
            rw [if_pos hcalls] at hr
            exact (Prog.all_throw _).mpr hr
        · next hcalls =>
            rw [if_neg hcalls] at hr
            split
            · next next hnext =>
                simp only [hnext] at hr
                exact ih _ (nextNode_rank hnext) hr rfl
            · next hnone =>
                simp only [hnone] at hr
                exact (Prog.all_pure _).mpr hr

/-- The same, where a bound that is exceeded is as good an outcome as any. -/
theorem all_runFrom {I : Node → RecoveryState → Prop} {P : {β : Type} → Cmd β → Prop}
    {R : Except PyError RecoveryState → Prop}
    (hstep : ∀ node s, I node s → (runNode rt deps node s).All P fun r =>
      match r with
      | .ok s' =>
        match nextNode node s' with
        | some next => I next s'
        | none => R (.ok s')
      | .error exc => (finalise deps node s exc).All P R)
    (hbound : R (.error .graphBoundExceeded)) {node : Node} {s : RecoveryState} (h : I node s) :
    (runFrom rt deps node s).All P R := by
  refine all_runFrom_of (fun node s hs => (hstep node s hs).mono (fun _ hc => hc) fun r hr => ?_)
    (fun _ _ _ _ => hbound) h
  cases r with
  | error exc => exact hr
  | ok s' =>
    simp only at hr ⊢
    split
    · exact hbound
    · exact hr

/-! ## Entering a node -/

/-- Where a run that is at one node enters another: the state and the world it does so in. -/
def entered (rt : Runtime) (deps : AgentDeps Act) (target current : Node) (s : RecoveryState)
    (w : World) : Option (RecoveryState × World) :=
  if maxNodeVisits ≤ s.nodeVisits then none
  else if current = target then some (s, w)
  else
    match (runNode rt deps current s).run World.handler w with
    | (.ok s', v) =>
      if deps.maxLlmCalls < s'.llmCalls then none
      else
        match _h : nextNode current s' with
        | some next => entered rt deps target next s' v
        | none => none
    | (.error _, _) => none
termination_by current.rank
decreasing_by exact nextNode_rank ‹_›

end Loop

section Run

variable (rt : Runtime) {deps : AgentDeps Act} (hdeps : deps.Thinks)
  {φ : {β : Type} → Cmd β → World → Prop}

include hdeps

omit rt in
theorem thinks_finalise (node : Node) (s : RecoveryState) (exc : PyError) :
    (finalise deps node s exc).All Cmd.Thinks fun _ => True :=
  hdeps.now.seq fun _ => hdeps.now.seq fun _ => thinks_return _

/-- The last node only thinks, and nothing follows it. -/
theorem along_audit (hφ : ∀ {β : Type} (c : Cmd β) (v : World), c.Thinks → φ c v)
    (s : RecoveryState) (w : World) :
    (runFrom rt deps .audit s).Along World.handler φ w := by
  rw [runFrom_eq]
  split
  · trivial
  · rw [Prog.along_bind, Prog.along_attempt, Prog.run_attempt]
    refine ⟨(thinks_runNode rt hdeps s (by decide)).along hφ w, ?_⟩
    rcases (runNode rt deps .audit s).run World.handler w with ⟨e | s', v⟩
    · exact (thinks_finalise hdeps _ _ _).along hφ v
    · simp only [goOnFrom, goOn, nextNode]
      split <;> trivial

/-- Past any node but EXECUTE, a run does what follows the node. -/
theorem along_runFrom_of_ne (hφ : ∀ {β : Type} (c : Cmd β) (v : World), c.Thinks → φ c v)
    {node : Node} {s : RecoveryState} {w : World} (hbound : ¬maxNodeVisits ≤ s.nodeVisits)
    (hnode : node ≠ .execute) :
    (runFrom rt deps node s).Along World.handler φ w ↔
      match (runNode rt deps node s).run World.handler w with
      | (.ok s', v) => (goOn rt deps node s').Along World.handler φ v
      | (.error _, _) => True := by
  rw [runFrom_eq, if_neg hbound, Prog.along_bind, Prog.along_attempt, Prog.run_attempt]
  refine (and_iff_right ((thinks_runNode rt hdeps s hnode).along hφ w)).trans ?_
  rcases (runNode rt deps node s).run World.handler w with ⟨e | s', v⟩
  · exact iff_of_true ((thinks_finalise hdeps _ _ _).along hφ v) trivial
  · rfl

/-- **A run does what its EXECUTE does**, and otherwise thinks. -/
theorem along_runFrom (hφ : ∀ {β : Type} (c : Cmd β) (v : World), c.Thinks → φ c v)
    (node : Node) (s : RecoveryState) (w : World) :
    (runFrom rt deps node s).Along World.handler φ w ↔
      ∀ s' v, entered rt deps .execute node s w = some (s', v) →
        (executeNode rt s' deps).Along World.handler φ v := by
  fun_induction entered rt deps .execute node s w with
  | case1 node s w hbound =>
    rw [runFrom_eq, if_pos hbound]
    simp
  | case2 s w hbound =>
    rw [runFrom_eq, if_neg hbound, Prog.along_bind, Prog.along_attempt, Prog.run_attempt]
    simp only [Option.some.injEq, Prod.mk.injEq]
    refine (and_iff_left ?_).trans ⟨fun h s' v hsv => hsv.1 ▸ hsv.2 ▸ h, fun h => h s w ⟨rfl, rfl⟩⟩
    -- after EXECUTE comes the last node
    rcases (runNode rt deps .execute s).run World.handler w with
      ⟨e | s', v⟩
    · exact (thinks_finalise hdeps _ _ _).along hφ v
    · simp only [goOnFrom, goOn, nextNode]
      split
      · trivial
      · exact along_audit rt hdeps hφ s' v
  | case3 node s w hbound hnode s' v hrun hcalls =>
    simp only [along_runFrom_of_ne rt hdeps hφ hbound hnode, hrun, goOn, if_pos hcalls]
    simp
  | case4 node s w hbound hnode s' v hrun hcalls next hnext ih =>
    simp only [along_runFrom_of_ne rt hdeps hφ hbound hnode, hrun, goOn, if_neg hcalls,
      hnext, ih]
  | case5 node s w hbound hnode s' v hrun hcalls hnext =>
    simp only [along_runFrom_of_ne rt hdeps hφ hbound hnode, hrun, goOn, if_neg hcalls,
      hnext]
    simp
  | case6 node s w hbound hnode e v hrun =>
    simp only [along_runFrom_of_ne rt hdeps hφ hbound hnode, hrun]
    simp

end Run

/-! ## Through the firewall -/

section Firewall

variable {rt : Runtime} {deps : AgentDeps Act} {s s' : RecoveryState} {w v : World}

/-- Past any other node, a run enters its target where the next node's does. -/
theorem entered_step {target current next : Node} (hbound : ¬maxNodeVisits ≤ s.nodeVisits)
    (hne : current ≠ target)
    (hrun : (runNode rt deps current s).run World.handler w = (.ok s', v))
    (hcalls : ¬deps.maxLlmCalls < s'.llmCalls) (hnext : nextNode current s' = some next) :
    entered rt deps target current s w = entered rt deps target next s' v := by
  rw [entered, if_neg hbound, if_neg hne]
  simp only [hrun, if_neg hcalls]
  split
  · next next' hnext' =>
      obtain rfl : next = next' := Option.some.inj (hnext.symm.trans hnext')
      rfl
  · next hnone => cases hnext.symm.trans hnone

theorem entered_audit {target : Node} (h : target ≠ .audit) :
    entered rt deps target .audit s w = none := by
  rw [entered, if_neg h.symm]
  simp only [nextNode]
  split
  · rfl
  · split
    · split <;> rfl
    · rfl

theorem entered_execute_escalate : entered rt deps .execute .escalate s w = none := by
  rw [entered]
  simp only [nextNode, entered_audit (show Node.execute ≠ .audit by decide)]
  split
  · rfl
  · simp only [reduceCtorEq, if_false]
    split
    · split <;> rfl
    · rfl

theorem entered_execute_execute (h : entered rt deps .execute .execute s w = some (s', v)) :
    s' = s ∧ v = w := by
  rw [entered] at h
  split at h
  · cases h
  · cases h
    exact ⟨rfl, rfl⟩

/-- **EXECUTE is entered from POLICY only**, on what POLICY passed. -/
theorem entered_execute {node : Node} (hnode : node ≠ .execute)
    (h : entered rt deps .execute node s w = some (s', v)) :
    ∃ s₀ v₀, entered rt deps .policy node s w = some (s₀, v₀) ∧
      (policyNode rt s₀ deps).run World.handler v₀ = (.ok s', v) ∧
        s'.policyVerdict = some .passed := by
  fun_induction entered rt deps .execute node s w with
  | case1 | case3 | case5 | case6 => cases h
  | case2 => exact absurd rfl hnode
  | case4 node s w hbound _ s₁ v₁ hrun hcalls next hnext ih =>
    -- POLICY is the only node with an edge into EXECUTE
    by_cases hpolicy : node = .policy
    · subst hpolicy
      refine ⟨s, w, by rw [entered, if_neg hbound, if_pos rfl], ?_⟩
      simp only [nextNode] at hnext
      split at hnext
      · next hverdict =>
          cases hnext
          obtain ⟨rfl, rfl⟩ := entered_execute_execute h
          exact ⟨hrun, hverdict⟩
      · cases hnext
        rw [entered_execute_escalate] at h
        cases h
      · cases hnext
        rw [entered_audit (by decide)] at h
        cases h
    · have hnext' : next ≠ .execute := by
        rintro rfl
        cases node with
        | policy => exact hpolicy rfl
        | triage =>
          simp only [nextNode, Option.some.injEq] at hnext
          split at hnext <;> cases hnext
        | _ => cases hnext
      obtain ⟨s₀, v₀, hentered, hrest⟩ := ih hnext' h
      exact ⟨s₀, v₀, (entered_step hbound hpolicy hrun hcalls hnext).trans hentered, hrest⟩

/-- A run enters its target with what every node hands on to the next. -/
theorem entered_of_inv {I : Node → RecoveryState → Prop} {P : {β : Type} → Cmd β → Prop}
    (hstep : ∀ node s, I node s → (runNode rt deps node s).All P fun r =>
      ∀ s' next, r = .ok s' → nextNode node s' = some next → I next s')
    {target node : Node} (hI : I node s) (h : entered rt deps target node s w = some (s', v)) :
    I target s' := by
  fun_induction entered rt deps target node s w with
  | case1 | case3 | case5 | case6 => cases h
  | case2 => cases h; exact hI
  | case4 node s w hbound hne s₁ v₁ hrun hcalls next hnext ih =>
    refine ih ?_ h
    have hhands := (hstep node s hI).run (H := World.handler) w
    rw [hrun] at hhands
    exact hhands s₁ next rfl hnext

/-- Up to the firewall, a run only takes time. -/
theorem entered_policy_after (hdeps : deps.Thinks) {node : Node}
    (h : entered rt deps .policy node s w = some (s', v)) : ∃ n, v = w.after n := by
  fun_induction entered rt deps .policy node s w with
  | case1 | case3 | case5 | case6 => cases h
  | case2 => cases h; exact ⟨0, rfl⟩
  | case4 node s w hbound hne s₁ v₁ hrun hcalls next hnext ih =>
    by_cases hexecute : node = .execute
    · subst hexecute
      cases hnext
      rw [entered_audit (by decide)] at h
      cases h
    · obtain ⟨m, hm⟩ := run_thinks (thinks_runNode rt hdeps s hexecute) w
      obtain rfl : v₁ = w.after m := by rw [← hm, hrun]
      obtain ⟨n, hn⟩ := ih h
      exact ⟨m + n, by rw [hn, World.after_after]⟩

/-! ## What the firewall passed -/

/-- What POLICY leaves on the state: one decision of the firewall. -/
theorem decided_policy (rt : Runtime) (deps : AgentDeps Act) (s : RecoveryState) :
    (policyNode rt s deps).All (fun _ => True) (Prog.IfReturned fun s' => ∃ now now' d,
      evaluatePolicy rt (s.proposal.getD { strategy := .noAction })
          (policyContext s deps.stoppingLimits deps.moneyLimits now) now' = .ok d ∧
        s'.policyVerdict = some d.verdict ∧ s'.policyApplied = d.applied ∧
          s'.policyToken = d.token ∧ s'.status = decidedStatus d ∧
            s'.nodeVisits = s.nodeVisits + 1 ∧ s'.llmCalls = s.llmCalls) := by
  refine (Prog.all_returned _).next fun now _ => (Prog.all_returned _).next fun now' _ => ?_
  refine Prog.All.next (S := fun d => evaluatePolicy rt (s.proposal.getD { strategy := .noAction })
    (policyContext s deps.stoppingLimits deps.moneyLimits now) now' = .ok d) ?_
    fun d hd => (Prog.all_returned _).next fun _ _ => ⟨now, now', d, hd, rfl, rfl, rfl, rfl, rfl, rfl⟩
  rw [Act.all_liftExcept]
  cases evaluatePolicy rt (s.proposal.getD { strategy := .noAction })
      (policyContext s deps.stoppingLimits deps.moneyLimits now) now' with
  | ok d => exact rfl
  | error exc => trivial

/-- The same of a run that only thinks. -/
theorem policyNode_eq_ok (hdeps : deps.Thinks)
    (h : (policyNode rt s deps).run World.handler w = (.ok s', v)) :
    ∃ now now' d, evaluatePolicy rt (s.proposal.getD { strategy := .noAction })
        (policyContext s deps.stoppingLimits deps.moneyLimits now) now' = .ok d ∧
      s'.policyVerdict = some d.verdict ∧ s'.policyApplied = d.applied ∧
        s'.policyToken = d.token ∧ ∃ n, v = w.after n := by
  obtain ⟨n, hn⟩ := run_thinks (thinks_policy rt hdeps s) w
  have hdecided := (decided_policy rt deps s).run (H := World.handler) w
  rw [h] at hn hdecided
  obtain ⟨now, now', d, hd, hverdict, happlied, htoken, -⟩ := hdecided
  exact ⟨now, now', d, hd, hverdict, happlied, htoken, n, hn⟩

/-- The action the firewall applies in a run of a case. -/
def firewallApplied (rt : Runtime) (deps : AgentDeps Act) (s : RecoveryState) (w : World) :
    Option AppliedAction :=
  if s.isTerminal then none
  else
    match entered rt deps .policy .enrich s w with
    | some (s', v) =>
      match (policyNode rt s' deps).run World.handler v with
      | (.ok s'', _) => s''.policyApplied
      | (.error _, _) => none
    | none => none

/-- **What EXECUTE is entered with**: the action the firewall applied in the run, under a token that
verifies, in a world in which nothing but time has passed. -/
theorem entered_execute_authorised (hdeps : deps.Thinks) (hopen : s.isTerminal = false)
    (h : entered rt deps .execute .enrich s w = some (s', v)) :
    ∃ a token n, firewallApplied rt deps s w = some a ∧ s'.policyApplied = some a ∧
      s'.policyToken = some token ∧ token.verify rt = .ok () ∧ v = w.after n := by
  obtain ⟨s₀, v₀, hentered, hrun, hpassed⟩ := entered_execute (by decide) h
  obtain ⟨m, rfl⟩ := entered_policy_after hdeps hentered
  obtain ⟨now, now', d, hd, hverdict, happlied, htoken, n, rfl⟩ := policyNode_eq_ok hdeps hrun
  obtain ⟨hiff, hsigned⟩ := evaluatePolicy_token hd
  rw [hverdict, Option.some.injEq] at hpassed
  obtain ⟨token, htok⟩ := Option.isSome_iff_exists.mp (hiff.mp hpassed)
  obtain ⟨ha, -, -, hverify⟩ := hsigned token htok
  refine ⟨token.applied, token, m + n, ?_, happlied.trans ha, htoken.trans htok, hverify,
    World.after_after w m n⟩
  simp only [firewallApplied, hopen, Bool.false_eq_true, if_false, hentered, hrun]
  exact happlied.trans ha

/-- EXECUTE hands an authorised state to the executor. -/
theorem along_executeNode {φ : {β : Type} → Cmd β → World → Prop}
    {execute : RecoveryState → Act RecoveryState} (hexecutor : deps.executor = some execute)
    {a : AppliedAction} {token : PolicyToken} (happlied : s.policyApplied = some a)
    (htoken : s.policyToken = some token) (hverify : token.verify rt = .ok ()) :
    (executeNode rt s deps).Along World.handler φ w ↔ (execute s).Along World.handler φ w := by
  unfold executeNode
  simp only [happlied, htoken, hverify, hexecutor]
  rw [Prog.along_bind, Act.run_liftExcept]
  refine (and_iff_right Act.along_liftExcept).trans ?_
  simp only
  rw [Prog.along_bind]
  refine and_iff_left ?_
  split <;> trivial

/-- The action the firewall applies in a run comes out of one decision. -/
theorem firewallApplied_eq_some (hdeps : deps.Thinks) {a : AppliedAction}
    (h : firewallApplied rt deps s w = some a) :
    s.isTerminal = false ∧ ∃ proposal ctx now d, evaluatePolicy rt proposal ctx now = .ok d ∧
      d.applied = some a := by
  unfold firewallApplied at h
  split at h
  · cases h
  · next hopen =>
      refine ⟨by simpa using hopen, ?_⟩
      split at h
      · split at h
        · next hrun =>
            obtain ⟨now, now', d, hd, -, happlied, -⟩ := policyNode_eq_ok hdeps hrun
            exact ⟨_, _, now', d, hd, happlied.symm.trans h⟩
        · cases h
      · cases h

end Firewall

/-! ## A wiring -/

/-- The nodes in the world, with the executor and no model, and every case treated. -/
def treatedDeps : AgentDeps Act where
  now := Act.nowUtc
  executor := some (OutboxExecutor.execute plainRuntime {})
  controlArmFraction := 0

theorem treatedDeps_thinks : treatedDeps.Thinks where
  now := thinks_nowUtc
  adapter complete h := by cases h

end AegisMerchant
