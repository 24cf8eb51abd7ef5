import AegisMerchant.Agent.ControlArm
import AegisMerchant.Agent.GraphLaws

/-!
# Every run closes its case

A node counts one visit and at most one call of the model, and the node after it is closer to the
end. So a run stays within both bounds, ends at AUDIT whatever raised on the way, and leaves the
case in a status that something will move.

`closesAt_runNode` is the step: each node either hands over to a later one or ends with the case
closed. The run is `runCase_closes`.
-/

namespace AegisMerchant

open Time Prog

/-! ## What an executor returns -/

/-- **The state the executor returns**: traced at some instant, in one of four statuses. -/
inductive Reports (s : RecoveryState) : RecoveryState → Prop
  /-- No authorised action. -/
  | refused (now : DateTime) :
      Reports s { s.withTrace ⟨"EXECUTE", "razorpay", now⟩ with status := .suppressed }
  /-- A transient failure: a retry is scheduled. -/
  | retried (now : DateTime) :
      Reports s { s.withTrace ⟨"EXECUTE", "razorpay", now⟩ with status := .executing }
  /-- A permanent one: the intent is dead-lettered. -/
  | deadLettered (now : DateTime) :
      Reports s { s.withTrace ⟨"EXECUTE", "razorpay", now⟩ with status := .failedPermanent }
  | sent (applied : AppliedAction) (result : PaymentLinkResult) (now : DateTime)
      (happlied : s.policyApplied = some applied) :
      Reports s { (OutboxExecutor.executed s applied result).withTrace
        ⟨"EXECUTE", "razorpay", now⟩ with status := .monitoring }

/-- The executor of the outbox does. -/
theorem execute_reports (rt : Runtime) (ex : OutboxExecutor) (s : RecoveryState) :
    (ex.execute rt s).All (fun _ => True) (IfReturned (Reports s)) := by
  unfold OutboxExecutor.execute
  split
  · next applied token happlied _ =>
    refine (all_returned _).next fun _ _ => (all_returned _).next fun outboxId _ => ?_
    refine (all_returned _).next fun called _ => ?_
    split
    · exact (all_returned _).next fun _ _ => (all_returned _).next fun now _ => .retried now
    · exact (all_returned _).next fun _ _ => (all_returned _).next fun now _ => .deadLettered now
    · trivial
    · next result _ =>
      exact (all_returned _).next fun _ _ => (all_returned _).next fun now _ =>
        .sent applied result now happlied
  · exact (all_returned _).next fun now _ => .refused now

/-- **What a run needs of the world**: a clock that tells the time, and an executor, if any, that
raises or returns what the outbox's does. -/
structure AgentDeps.Behaves (deps : AgentDeps Act) : Prop where
  now : deps.now.All (fun _ => True) fun r => ∃ moment, r = .ok moment
  executor : ∀ execute, deps.executor = some execute → ∀ s,
    (execute s).All (fun _ => True) (IfReturned (Reports s))

/-! ## One node -/

/-- The token of the applied action, which verifies. -/
structure Authorised (rt : Runtime) (s : RecoveryState) : Prop where
  passed : s.policyVerdict = some .passed
  token : ∃ a token, s.policyApplied = some a ∧ s.policyToken = some token ∧
    token.applied = a ∧ token.verify rt = .ok ()

/-- A status nothing has to move, or something will. -/
def Settled (s : RecoveryState) : Prop :=
  s.isTerminal = true ∨ s.status ∈ [.awaitingApproval, .monitoring, .executing]

/-- One visit more, and no call of the model above the budget. -/
structure Visited (deps : AgentDeps Act) (s s' : RecoveryState) : Prop where
  visits : s'.nodeVisits = s.nodeVisits + 1
  calls : s.llmCalls ≤ deps.maxLlmCalls → s'.llmCalls ≤ deps.maxLlmCalls

section Nodes

variable {rt : Runtime} {deps : AgentDeps Act} (s : RecoveryState)

theorem visited_enrich :
    (enrichNode s deps).All (fun _ => True) (IfReturned (Visited deps s)) :=
  (all_returned _).next fun _ _ => ⟨rfl, id⟩

theorem visited_triage :
    (triageNode rt s deps).All (fun _ => True) (IfReturned (Visited deps s)) := by
  refine (all_returned _).next fun _ _ => (all_returned _).next fun verdict _ =>
    (all_returned _).next fun _ _ => (all_returned _).next fun _ _ => ?_
  split
  · exact ⟨rfl, id⟩
  · exact ⟨rfl, id⟩

/-- The model is asked within the budget only. -/
theorem visited_diagnose :
    (diagnoseNode s deps).All (fun _ => True) (IfReturned (Visited deps s)) := by
  have hrouted : (diagnose (llmContext s)
      (if s.llmCalls < deps.maxLlmCalls then deps.adapter else none)).All (fun _ => True)
      (IfReturned fun routed => routed.consultedModel = true → s.llmCalls < deps.maxLlmCalls) := by
    by_cases hbudget : s.llmCalls < deps.maxLlmCalls
    · exact (Prog.all_true _).mono (fun _ hc => hc) fun r _ => by
        cases r with
        | ok routed => exact fun _ => hbudget
        | error e => trivial
    · rw [if_neg hbudget]
      refine (Prog.all_pure _).mpr fun hconsulted => ?_
      cases hconsulted
  refine hrouted.next fun routed hconsulted => (all_returned _).next fun _ _ =>
    ⟨rfl, fun hcalls => ?_⟩
  show s.llmCalls + (if routed.consultedModel then 1 else 0) ≤ deps.maxLlmCalls
  split
  · next h =>
    have hbudget := hconsulted h
    omega
  · omega

theorem visited_strategise :
    (strategiseNode s deps).All (fun _ => True) (IfReturned (Visited deps s)) := by
  -- the model is asked only under the ceiling
  have hproposed : (propose s deps).All (fun _ => True)
      (IfReturned fun r => r.2.isSome = true → s.llmCalls < deps.maxLlmCalls) := by
    unfold propose
    split
    · exact fun h => by cases h
    · split
      · exact fun h => by cases h
      · split
        · exact fun h => by cases h
        · split
          · split
            · next hbudget => exact (all_returned _).next fun _ _ _ => hbudget
            · exact fun h => by cases h
          · exact fun h => by cases h
  refine hproposed.next fun proposed hasked => (all_returned _).next fun _ _ =>
    ⟨rfl, fun hcalls => ?_⟩
  show s.llmCalls + (if ((proposed.2.map (·.source.isModel)).getD false) = true then 1 else 0) ≤
    deps.maxLlmCalls
  split
  · next hconsulted =>
    have hsome : proposed.2.isSome = true := by
      cases hresult : proposed.2 with
      | none =>
        rw [hresult] at hconsulted
        cases hconsulted
      | some result => rfl
    have hbudget := hasked hsome
    omega
  · omega

/-- POLICY passes only under a token, and what it blocks is final. -/
theorem visited_policy :
    (policyNode rt s deps).All (fun _ => True) (IfReturned fun s' => Visited deps s s' ∧
      (s'.policyVerdict = some .passed → Authorised rt s') ∧
        ((s'.policyVerdict ≠ some .passed ∧ s'.policyVerdict ≠ some .escalateHitl) →
          s'.isTerminal = true)) := by
  refine (decided_policy rt deps s).mono (fun _ hc => hc) fun r hr => ?_
  cases r with
  | error e => trivial
  | ok s' =>
    obtain ⟨now, now', d, hd, hverdict, happlied, htoken, hstatus, hvisits, hcalls⟩ := hr
    refine ⟨⟨hvisits, fun hle => by rwa [hcalls]⟩, fun hpassed => ?_, fun hblocked => ?_⟩
    · obtain ⟨hiff, hsigned⟩ := evaluatePolicy_token hd
      have hverdict' : d.verdict = .passed := Option.some.inj (hverdict.symm.trans hpassed)
      obtain ⟨token, hsome⟩ := Option.isSome_iff_exists.mp (hiff.mp hverdict')
      obtain ⟨ha, -, -, hverify⟩ := hsigned token hsome
      exact ⟨hpassed, token.applied, token, happlied.trans ha, htoken.trans hsome, rfl, hverify⟩
    · rw [hverdict] at hblocked
      -- neither passed nor escalated is blocked, which is terminal
      have hrefused : d.verdict = .blocked := by
        cases h : d.verdict with
        | blocked => rfl
        | passed => exact absurd (congrArg some h) hblocked.1
        | escalateHitl => exact absurd (congrArg some h) hblocked.2
      rw [RecoveryState.isTerminal, hstatus, decidedStatus, if_neg (by simp [hrefused]),
        if_neg (by simp [hrefused])]
      exact blockedStatus_terminal _

theorem Reports.visited {s' : RecoveryState} (h : Reports s s') :
    Visited deps s { s' with nodeVisits := s.nodeVisits + 1 } ∧
      Settled { s' with nodeVisits := s.nodeVisits + 1 } := by
  cases h with
  | refused => exact ⟨⟨rfl, id⟩, .inl rfl⟩
  | retried => exact ⟨⟨rfl, id⟩, .inr (by simp)⟩
  | deadLettered => exact ⟨⟨rfl, id⟩, .inl rfl⟩
  | sent => exact ⟨⟨rfl, id⟩, .inr (by simp)⟩

/-- Whatever EXECUTE comes to, the case is settled. -/
theorem visited_execute (hdeps : deps.Behaves) :
    (executeNode rt s deps).All (fun _ => True)
      (IfReturned fun s' => Visited deps s s' ∧ Settled s') := by
  unfold executeNode
  split
  · refine (all_returned _).next fun _ _ => ?_
    split
    · exact (all_returned _).next fun _ _ => ⟨⟨rfl, id⟩, .inr (by simp)⟩
    · next execute hexecute =>
      exact (hdeps.executor execute hexecute s).next fun executed hreports => hreports.visited s
  · exact (all_returned _).next fun _ _ => ⟨⟨rfl, id⟩, .inl rfl⟩

theorem visited_escalate :
    (escalateNode s deps).All (fun _ => True)
      (IfReturned fun s' => Visited deps s s' ∧ Settled s') :=
  (all_returned _).next fun _ _ => ⟨⟨rfl, id⟩, .inr (by simp)⟩

/-- The last entry of a trace is AUDIT's. -/
def Audited (s : RecoveryState) : Prop :=
  ∃ entry, s.trace.getLast? = some entry ∧ entry.node = "AUDIT"

theorem visited_audit :
    (auditNode s deps).All (fun _ => True) (IfReturned fun s' => Visited deps s s' ∧
      s'.status = s.status ∧ Audited s') :=
  (all_returned _).next fun _ _ => ⟨⟨rfl, id⟩, rfl, _, List.getLast?_concat, rfl⟩

end Nodes

/-! ## The run -/

/-- **What a run leaves behind**: AUDIT last, in a settled status, within both bounds. -/
structure Closes (deps : AgentDeps Act) (s : RecoveryState) : Prop where
  audited : Audited s
  settled : Settled s
  calls : s.llmCalls ≤ deps.maxLlmCalls
  visits : s.nodeVisits ≤ maxNodeVisits

/-- What each node is entered with: visits made and visits to come are bounded, and EXECUTE is
entered under a token. -/
structure ClosesAt (rt : Runtime) (deps : AgentDeps Act) (node : Node) (s : RecoveryState) :
    Prop where
  visits : s.nodeVisits + node.rank ≤ 6
  calls : s.llmCalls ≤ deps.maxLlmCalls
  authorised : node = .execute → Authorised rt s
  settled : node = .audit → Settled s

/-- What a run ends with: it returns, and closes the case. -/
def Ends (deps : AgentDeps Act) : Except PyError RecoveryState → Prop
  | .ok s => Closes deps s
  | .error _ => False

section Run

variable {rt : Runtime} {deps : AgentDeps Act} {s : RecoveryState}

/-- A node that is not the last hands on a state that fits the next. -/
theorem ClosesAt.visited {node next : Node} {s' : RecoveryState} (h : ClosesAt rt deps node s)
    (hvisited : Visited deps s s') (hnext : nextNode node s' = some next)
    (hauthorised : next = .execute → Authorised rt s') (hsettled : next = .audit → Settled s') :
    ClosesAt rt deps next s' := by
  refine ⟨?_, hvisited.calls h.calls, hauthorised, hsettled⟩
  have hrank := nextNode_rank hnext
  have hvisits := h.visits
  rw [hvisited.visits]
  omega

/-- **What a node does with the invariant.** -/
theorem closesAt_runNode (hdeps : deps.Behaves) (node : Node) (h : ClosesAt rt deps node s) :
    (runNode rt deps node s).All (fun _ => True) (IfReturned fun s' =>
      s'.llmCalls ≤ deps.maxLlmCalls ∧
        match nextNode node s' with
        | some next => ClosesAt rt deps next s'
        | none => Closes deps s') := by
  -- each node with its own facts about the visit
  cases node with
  | enrich =>
    refine (visited_enrich s).mono (fun _ hc => hc) fun r hr => ?_
    cases r with
    | error e => trivial
    | ok s' => exact ⟨hr.calls h.calls, h.visited hr rfl (by simp) (by simp)⟩
  | triage =>
    refine (visited_triage s).mono (fun _ hc => hc) fun r hr => ?_
    cases r with
    | error e => trivial
    | ok s' =>
      refine ⟨hr.calls h.calls, h.visited hr rfl ?_ fun haudit => ?_⟩
      · split <;> simp
      · split at haudit
        · next hterminal => exact .inl hterminal
        · cases haudit
  | diagnose =>
    refine (visited_diagnose s).mono (fun _ hc => hc) fun r hr => ?_
    cases r with
    | error e => trivial
    | ok s' => exact ⟨hr.calls h.calls, h.visited hr rfl (by simp) (by simp)⟩
  | strategise =>
    refine (visited_strategise s).mono (fun _ hc => hc) fun r hr => ?_
    cases r with
    | error e => trivial
    | ok s' => exact ⟨hr.calls h.calls, h.visited hr rfl (by simp) (by simp)⟩
  | policy =>
    refine (visited_policy s).mono (fun _ hc => hc) fun r hr => ?_
    cases r with
    | error e => trivial
    | ok s' =>
      obtain ⟨hvisited, hpassed, hblocked⟩ := hr
      refine ⟨hvisited.calls h.calls, ?_⟩
      -- POLICY has three edges: what is left is what each of them asks for
      have hgo : ∀ next, nextNode .policy s' = some next →
          (next = .execute → Authorised rt s') → (next = .audit → Settled s') →
          match nextNode .policy s' with
          | some next => ClosesAt rt deps next s'
          | none => Closes deps s' := by
        intro next hnext hauthorised hsettled
        rw [hnext]
        exact h.visited hvisited hnext hauthorised hsettled
      cases hverdict : s'.policyVerdict with
      | none =>
        exact hgo .audit (by simp [nextNode, hverdict]) (by simp)
          fun _ => .inl (hblocked (by simp [hverdict]))
      | some verdict =>
        cases verdict with
        | passed =>
          exact hgo .execute (by simp [nextNode, hverdict]) (fun _ => hpassed hverdict) (by simp)
        | escalateHitl =>
          exact hgo .escalate (by simp [nextNode, hverdict]) (by simp) (by simp)
        | blocked =>
          exact hgo .audit (by simp [nextNode, hverdict]) (by simp)
            fun _ => .inl (hblocked (by simp [hverdict]))
  | execute =>
    refine (visited_execute s hdeps).mono (fun _ hc => hc) fun r hr => ?_
    cases r with
    | error e => trivial
    | ok s' => exact ⟨hr.1.calls h.calls, h.visited hr.1 rfl (by simp) fun _ => hr.2⟩
  | escalate =>
    refine (visited_escalate s).mono (fun _ hc => hc) fun r hr => ?_
    cases r with
    | error e => trivial
    | ok s' => exact ⟨hr.1.calls h.calls, h.visited hr.1 rfl (by simp) fun _ => hr.2⟩
  | audit =>
    refine (visited_audit s).mono (fun _ hc => hc) fun r hr => ?_
    cases r with
    | error e => trivial
    | ok s' =>
      obtain ⟨hvisited, hstatus, haudited⟩ := hr
      refine ⟨hvisited.calls h.calls, haudited, ?_, hvisited.calls h.calls, ?_⟩
      · have hsettled := h.settled rfl
        unfold Settled RecoveryState.isTerminal at hsettled ⊢
        rwa [hstatus]
      · have hvisits := h.visits
        rw [hvisited.visits]
        unfold maxNodeVisits
        omega

/-- A node that raised is the last but AUDIT. -/
theorem ends_finalise (hdeps : deps.Behaves) (node : Node) (exc : PyError)
    (h : ClosesAt rt deps node s) :
    (finalise deps node s exc).All (fun _ => True) (Ends deps) := by
  refine hdeps.now.bind (fun moment _ => ?_) fun e he => ?_
  · refine hdeps.now.bind (fun closed _ => ?_) fun e he => ?_
    · refine (Prog.all_pure _).mpr ⟨⟨_, List.getLast?_concat, rfl⟩, .inl rfl, h.calls, ?_⟩
      have hvisits := h.visits
      show s.nodeVisits + 1 + 1 ≤ 9
      omega
    · obtain ⟨moment, hmoment⟩ := he
      cases hmoment
  · obtain ⟨moment, hmoment⟩ := he
    cases hmoment

/-- **Every run of a fresh case returns, and closes it; EXECUTE is entered under a token only.** -/
theorem runCase_closes (rt : Runtime) {deps : AgentDeps Act} (hdeps : deps.Behaves)
    {s : RecoveryState} (hopen : s.isTerminal = false) (hvisits : s.nodeVisits = 0)
    (hcalls : s.llmCalls ≤ deps.maxLlmCalls) :
    (∀ w, ∃ final v, (runCase rt s deps).run World.handler w = (.ok final, v) ∧
      Closes deps final) ∧
    ∀ w s' v, entered rt deps .execute .enrich s w = some (s', v) → Authorised rt s' := by
  -- no visit was made and no model asked when the run starts
  have hstart : ClosesAt rt deps .enrich s :=
    ⟨by rw [hvisits]; decide, hcalls, by simp, by simp⟩
  refine ⟨fun w => ?_, fun w s' v hentered => ?_⟩
  · have hall : (runCase rt s deps).All (fun _ => True) (Ends deps) := by
      rw [runCase, if_neg (by simp [hopen])]
      refine all_runFrom_of (I := ClosesAt rt deps) (fun node s h => ?_) (fun node s h hbound => ?_)
        hstart
      · refine (closesAt_runNode hdeps node h).mono (fun _ hc => hc) fun r hr => ?_
        cases r with
        | error exc => exact ends_finalise hdeps node exc h
        | ok s' =>
          obtain ⟨hbudget, hnext⟩ := hr
          simp only
          rw [if_neg (by omega)]
          split
          · next next hsome =>
            rw [hsome] at hnext
            exact hnext
          · next hnone =>
            rw [hnone] at hnext
            exact hnext
      · have hle := h.visits
        unfold maxNodeVisits at hbound
        omega
    have hends := hall.run (H := World.handler) w
    rcases hrun : (runCase rt s deps).run World.handler w with ⟨e | final, v⟩
    · rw [hrun] at hends
      exact hends.elim
    · rw [hrun] at hends
      exact ⟨final, v, rfl, hends⟩
  -- the invariant holds where EXECUTE is entered, and says who authorised it
  · have hinv : ClosesAt rt deps .execute s' := by
      refine entered_of_inv (I := ClosesAt rt deps) (P := fun _ => True) (fun node s h => ?_)
        hstart hentered
      refine (closesAt_runNode hdeps node h).mono (fun _ hc => hc) fun r hr => ?_
      rintro s' next rfl hnext
      obtain ⟨-, hhanded⟩ := hr
      rw [hnext] at hhanded
      exact hhanded
    exact hinv.authorised rfl

end Run

/-! ## A fresh case -/

def freshCase : RecoveryState where
  caseId := "RC-0001"
  merchantId := "mch_1"
  customerId := "cus_1"
  playbook := .paymentFailure
  amountPaise := 250000

theorem treatedDeps_behaves : treatedDeps.Behaves where
  now := ⟨trivial, fun moment => ⟨moment, rfl⟩⟩
  executor execute hexecute s := by
    obtain rfl := Option.some.inj hexecute
    exact execute_reports _ _ s

theorem runCase_closes_fresh :
    (∀ w, ∃ final v, (runCase plainRuntime freshCase treatedDeps).run World.handler w =
      (.ok final, v) ∧ Closes treatedDeps final) ∧
    ∀ w s' v, entered plainRuntime treatedDeps .execute .enrich freshCase w = some (s', v) →
      Authorised plainRuntime s' :=
  runCase_closes plainRuntime treatedDeps_behaves rfl rfl (by decide)

end AegisMerchant
