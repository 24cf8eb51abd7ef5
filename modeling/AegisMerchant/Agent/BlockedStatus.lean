import AegisMerchant.Agent.GraphLaws
import AegisMerchant.Base.Search
import AegisMerchant.Guardrails.Stops

/-!
# The status of a case that a rule stops

TRIAGE takes the status from the verdict. POLICY reads it off the text of the reasons, and gets the
same: between the two nodes only the clock, the status and the proposal change, so the one rule that
can newly stop a case is the recovery window, and no text that can stand beside it names another.

`blockedStatus_window` reads the status off the reasons of a block, and `passedAt_runNode` carries
what TRIAGE let through from node to node. `runCase_stopped` puts them together over a whole run.
-/

namespace AegisMerchant

open Time Numeric

/-! ## The words POLICY looks for -/

/-- A text without the words that stand for another status, and without the start of one. -/
structure Silent (s : String) : Prop where
  control : Text.Clear ['c', 'o', 'n', 't', 'r', 'o', 'l'] (Text.lower s).toList
  resolvedRule : Text.Clear ['s', '-', '0', '1'] (Text.lower s).toList
  resolved : Text.Clear ['r', 'e', 's', 'o', 'l', 'v', 'e', 'd'] (Text.lower s).toList

instance (s : String) : Decidable (Silent s) :=
  decidable_of_iff
    (Text.Clear ['c', 'o', 'n', 't', 'r', 'o', 'l'] (Text.lower s).toList ∧
      Text.Clear ['s', '-', '0', '1'] (Text.lower s).toList ∧
      Text.Clear ['r', 'e', 's', 'o', 'l', 'v', 'e', 'd'] (Text.lower s).toList)
    ⟨fun ⟨hc, hs, hr⟩ => ⟨hc, hs, hr⟩, fun ⟨hc, hs, hr⟩ => ⟨hc, hs, hr⟩⟩

theorem Silent.append {s t : String} (hs : Silent s) (ht : Silent t) : Silent (s ++ t) where
  control := Text.Clear.lower_append hs.control ht.control
  resolvedRule := Text.Clear.lower_append hs.resolvedRule ht.resolvedRule
  resolved := Text.Clear.lower_append hs.resolved ht.resolved

theorem silent_numeral {s : String} (h : ∀ x ∈ s.toList, Text.Numeral x) : Silent s where
  control := Text.clear_lower_numeral h (by decide)
  resolvedRule := Text.clear_lower_numeral h (by decide)
  resolved := Text.clear_lower_numeral h (by decide)

/-- What is said of a recovery window that closed: by S-06 itself, or nothing, when a deferral would
outlast the window and S-06 had let the case pass. -/
def WindowDetail (detail : String) : Prop :=
  detail = "ok" ∨ ∃ t, detail = "recovery window closed at " ++ isoformat t

theorem WindowDetail.silent {detail : String} (h : WindowDetail detail) : Silent detail := by
  rcases h with rfl | ⟨t, rfl⟩
  · decide +kernel
  · exact Silent.append (by decide +kernel) (silent_numeral (isoformat_numeral t))

theorem silent_amount (amount : ℤ) : Silent s!"order amount is not positive ({amount})" := by
  have hopen : Silent "order amount is not positive (" := by decide +kernel
  have hclose : Silent ")" := by decide +kernel
  exact (hopen.append (silent_numeral (Text.toString_numeral amount))).append hclose

/-- **The reasons of a closed window read as an expired case**, whatever else they say. -/
theorem blockedStatus_window (amount : ℤ) {detail : String} (h : WindowDetail detail) :
    blockedStatus ((if amount ≤ 0 then [s!"order amount is not positive ({amount})"] else []) ++
      ["stopping rule " ++ "S-06" ++ ": " ++ detail]) = .expired := by
  obtain ⟨before, hjoined, hbefore⟩ : ∃ before, " ".intercalate
      ((if amount ≤ 0 then [s!"order amount is not positive ({amount})"] else []) ++
        ["stopping rule " ++ "S-06" ++ ": " ++ detail]) =
          before ++ ("stopping rule " ++ "S-06" ++ ": " ++ detail) ∧ Silent before := by
    split
    · exact ⟨s!"order amount is not positive ({amount})" ++ " ", rfl,
        (silent_amount amount).append (by decide +kernel)⟩
    · exact ⟨"", (String.empty_append).symm, by decide +kernel⟩
  have hsilent : Silent (before ++ ("stopping rule " ++ "S-06" ++ ": " ++ detail)) :=
    hbefore.append (Silent.append (by decide +kernel) h.silent)
  unfold blockedStatus
  simp only [hjoined]
  rw [if_neg, if_neg, if_pos]
  · refine .inl ⟨(Text.lower before).toList ++ (Text.lower "stopping rule ").toList,
      (Text.lower ": ").toList ++ (Text.lower detail).toList, ?_⟩
    have hrule : Text.lower "S-06" = "s-06" := by decide +kernel
    simp only [Text.lower_append, hrule, String.toList_append, List.append_assoc]
  · rintro (hone | hresolved)
    · exact hsilent.resolvedRule.not_infix (by decide) hone
    · exact hsilent.resolved.not_infix (by decide) hresolved
  · exact hsilent.control.not_infix (by decide)

/-! ## What can newly stop a case -/

/-- The facts of a case after its diagnosis: TRIAGE's, at another instant and with a proposal. -/
def StoppingContext.proposing (ctx : StoppingContext) (now : DateTime) (cls : MessageClass)
    (pct : ExtRat) : StoppingContext :=
  { ctx with
    nowUtc := now
    caseStatus := .strategyFormed
    proposedMessageClass := cls
    proposedDiscountPct := pct }

/-- **What TRIAGE let pass, only the recovery window can stop.** -/
theorem stops_window {ctx : StoppingContext} {v : StoppingVerdict} (h : evaluate ctx = .ok v)
    (hpassed : v.decision ≠ .stop) {now : DateTime} {cls : MessageClass} {pct : ExtRat}
    {quiet r : RuleResult} (hquiet : s09QuietHours (ctx.proposing now cls pct) = .ok quiet)
    (hr : r ∈ ruleResults (ctx.proposing now cls pct) quiet) (hstop : r.decision = .stop) :
    r = s06RecoveryWindow (ctx.proposing now cls pct) := by
  -- no rule stopped the case before
  obtain ⟨quiet₀, -, rfl⟩ := evaluate_eq_ok h
  have hnone : ∀ r ∈ ruleResults ctx quiet₀, r.decision ≠ .stop := fun r hr hrstop =>
    hpassed (combine_decision_of_stop hr hrstop)
  simp only [ruleResults, List.forall_mem_cons] at hnone
  obtain ⟨h12, h01, h07, -, h02, h11, h05, h08, -, h04, -⟩ := hnone
  simp only [ruleResults, List.mem_cons, List.not_mem_nil, or_false] at hr
  rcases hr with rfl | rfl | rfl | rfl | rfl | rfl | rfl | rfl | rfl | rfl | rfl | rfl
  · exact absurd (s12_stop_iff.mp hstop) fun hfacts => h12 (s12_stop_iff.mpr hfacts)
  · -- the status is not one that S-01 stops on
    rcases s01_stop_iff.mp hstop with hpaid | hstatus | hstatus
    · exact absurd (s01_stop_iff.mpr (.inl hpaid) : (s01AlreadyResolved ctx).decision = .stop) h01
    · cases hstatus
    · cases hstatus
  · exact absurd (s07_stop_iff.mp hstop) fun hfacts => h07 (s07_stop_iff.mpr hfacts)
  · rfl
  · exact absurd (s02_stop_iff.mp hstop) fun hfacts => h02 (s02_stop_iff.mpr hfacts)
  · exact absurd (s11_stop_iff.mp hstop) fun hfacts => h11 (s11_stop_iff.mpr hfacts)
  · exact absurd (s05_stop_iff.mp hstop) fun hfacts => h05 (s05_stop_iff.mpr hfacts)
  · exact absurd (s08_stop_iff.mp hstop) fun hfacts => h08 (s08_stop_iff.mpr hfacts)
  · exact absurd hstop s10_ne_stop
  · exact absurd (s04_stop_iff.mp hstop) fun hfacts => h04 (s04_stop_iff.mpr hfacts)
  · exact absurd hstop (s09_ne_stop hquiet)
  · exact absurd hstop s03_ne_stop

theorem s06_detail {ctx : StoppingContext} : WindowDetail (s06RecoveryWindow ctx).detail := by
  unfold s06RecoveryWindow
  split
  · next expires _ =>
      split
      · exact .inr ⟨expires, rfl⟩
      · exact .inl rfl
  · exact .inl rfl

/-- **What POLICY stops after TRIAGE has expired**, and the text says so. -/
theorem proposing_stop {ctx : StoppingContext} {v v' : StoppingVerdict} {now : DateTime}
    {cls : MessageClass} {pct : ExtRat} (h : evaluate ctx = .ok v) (hpassed : v.decision ≠ .stop)
    (h' : evaluate (ctx.proposing now cls pct) = .ok v') (hstop : v'.decision = .stop) :
    v'.terminalStatus = some .expired ∧ v'.blockingRule = some .s06RecoveryWindow ∧
      WindowDetail (blockingDetail v') := by
  obtain ⟨quiet, hquiet, -⟩ := evaluate_eq_ok h'
  obtain ⟨r, hblocking, hterminal, hrstop, hr⟩ := evaluate_stop h' hquiet hstop
  obtain ⟨hrule, hstatus⟩ : r.rule = .s06RecoveryWindow ∧ r.terminalStatus = some .expired := by
    rcases hr with hr | hr
    · obtain rfl := stops_window h hpassed hquiet hr hrstop
      refine ⟨(s06_of _).signed, ?_⟩
      obtain ⟨expires, hexpires, hle⟩ := s06_stop_iff.mp hrstop
      unfold s06RecoveryWindow
      rw [hexpires]
      simp only [if_pos hle]
    · exact ⟨hr.rule, hr.expired⟩
  have hwindow : v'.blockingRule = some .s06RecoveryWindow := hblocking.trans (congrArg some hrule)
  refine ⟨hterminal.trans hstatus, hwindow, ?_⟩
  rw [blockingDetail_window h' hwindow]
  exact s06_detail

/-- The status of a refusal is read off its reasons. -/
theorem decidedStatus_of_refused (rt : Runtime) (proposal : RecoveryProposal) {ctx : PolicyContext}
    {v : StoppingVerdict} (now : DateTime) (h : hardRefusals ctx v ≠ []) :
    decidedStatus (policyDecision rt proposal ctx v now) = blockedStatus (hardRefusals ctx v) := by
  have hreasons : (policyDecision rt proposal ctx v now).blockReasons = hardRefusals ctx v := by
    simp [policyDecision, h]
  have hverdict := (policyDecision_of_refused rt proposal now h).1
  unfold decidedStatus
  rw [hreasons, hverdict, if_neg (fun hpassed => by cases hpassed.1), if_neg (by decide)]

/-- **The status POLICY reads off the reasons is the verdict's.** -/
theorem decidedStatus_of_stop {rt : Runtime} {proposal : RecoveryProposal} {ctx : PolicyContext}
    {ctx₀ : StoppingContext} {v v' : StoppingVerdict} {now now' : DateTime} {d : PolicyDecision}
    (h : evaluate ctx₀ = .ok v) (hpassed : v.decision ≠ .stop)
    (hctx : proposedContext proposal ctx = ctx₀.proposing now proposal.messageClass
      (.fin proposal.discountPct.finiteOrZero))
    (harm : ctx.arm ≠ .control) (hd : evaluatePolicy rt proposal ctx now' = .ok d)
    (hv : evaluate (proposedContext proposal ctx) = .ok v') (hstop : v'.decision = .stop) :
    v'.terminalStatus = some (decidedStatus d) := by
  rw [hctx] at hv
  obtain ⟨hterminal, hrule, hdetail⟩ := proposing_stop h hpassed hv hstop
  rw [← hctx] at hv
  obtain ⟨v'', hv'', rfl⟩ := evaluatePolicy_eq_ok hd
  obtain rfl : v'' = v' := Except.ok.inj (hv''.symm.trans hv)
  have hrefused : hardRefusals ctx v'' =
      (if ctx.orderAmountPaise ≤ 0 then
        [s!"order amount is not positive ({ctx.orderAmountPaise})"] else []) ++
      ["stopping rule " ++ "S-06" ++ ": " ++ blockingDetail v''] := by
    unfold hardRefusals
    rw [if_pos hstop, if_neg harm, hrule, List.append_nil]
    rfl
  have hne : hardRefusals ctx v'' ≠ [] := by
    rw [hrefused]
    exact List.append_ne_nil_of_right_ne_nil _ (List.cons_ne_nil _ _)
  rw [hterminal, decidedStatus_of_refused rt proposal now' hne, hrefused,
    blockedStatus_window _ hdetail]

/-! ## From TRIAGE to POLICY -/

section Between

variable {rt : Runtime} {deps : AgentDeps Act} {s s' s₀ s₁ s₂ final : RecoveryState}
  {w w' w₁ w₂ w₃ : World}

/-- What the rules read of a case is what it was, but for its status. -/
def SameFacts (s₀ s : RecoveryState) : Prop := ∀ limits now,
  stoppingContext s limits now = { stoppingContext s₀ limits now with caseStatus := s.status }

/-- TRIAGE let the case pass. -/
def LetPass (deps : AgentDeps Act) (s : RecoveryState) : Prop :=
  ∃ s₀ now v, evaluate (stoppingContext s₀ deps.stoppingLimits now) = .ok v ∧
    v.decision ≠ .stop ∧ SameFacts s₀ s

/-- What the nodes between TRIAGE and POLICY are entered with. -/
def PassedAt (deps : AgentDeps Act) : Node → RecoveryState → Prop
  | .diagnose, s | .strategise, s => LetPass deps s
  | .policy, s => LetPass deps s ∧ s.status = .strategyFormed
  | _, _ => True

theorem LetPass.same (h : LetPass deps s) (hsame : ∀ limits now,
    stoppingContext s' limits now = { stoppingContext s limits now with caseStatus := s'.status }) :
    LetPass deps s' := by
  obtain ⟨s₀, now, v, hv, hpassed, hfacts⟩ := h
  refine ⟨s₀, now, v, hv, hpassed, fun limits now => ?_⟩
  rw [hsame, hfacts]

/-- **Each node hands the facts on.** -/
theorem passedAt_runNode (node : Node) (h : PassedAt deps node s) :
    (runNode rt deps node s).All (fun _ => True) (Prog.IfReturned fun s' =>
      ∀ next, nextNode node s' = some next → PassedAt deps next s') := by
  cases node with
  | enrich =>
    refine (Prog.all_returned _).mono (fun _ hc => hc) fun r _ => ?_
    cases r with
    | error e => trivial
    | ok s' =>
      intro next hnext
      cases hnext
      trivial
  | triage =>
    refine (Prog.all_returned _).next fun now _ => ?_
    refine Prog.All.next (S := fun v => evaluate (stoppingContext s deps.stoppingLimits now) = .ok v)
      ?_ fun v hv => (Prog.all_returned _).next fun _ _ => (Prog.all_returned _).next fun _ _ => ?_
    · rw [Act.all_liftExcept]
      cases evaluate (stoppingContext s deps.stoppingLimits now) with
      | ok v => rfl
      | error e => trivial
    · split
      · next hstop =>
          -- the case is closed, and AUDIT is next
          obtain ⟨status, hstatus, hterminal⟩ := evaluate_stop_terminal hv hstop
          intro next hnext
          simp only [nextNode, RecoveryState.isTerminal, hstatus, Option.getD_some, hterminal,
            if_true, Option.some.injEq] at hnext
          subst hnext
          trivial
      · next hpassed =>
          intro next hnext
          cases hnext
          exact ⟨s, now, v, hv, hpassed, fun _ _ => rfl⟩
  | diagnose =>
    refine (Prog.all_returned _).next fun _ _ => (Prog.all_returned _).next fun _ _ => ?_
    intro next hnext
    cases hnext
    exact h.same fun _ _ => rfl
  | strategise =>
    refine (Prog.all_returned _).next fun _ _ => (Prog.all_returned _).next fun _ _ => ?_
    intro next hnext
    cases hnext
    exact ⟨h.same fun _ _ => rfl, rfl⟩
  | policy | execute | escalate | audit =>
    refine (Prog.all_returned _).mono (fun _ hc => hc) fun r _ => ?_
    cases r with
    | error e => trivial
    | ok s' =>
      intro next hnext
      have hrank := nextNode_rank hnext
      cases next with
      | diagnose | strategise | policy => exact absurd hrank (by decide)
      | _ => trivial

/-- What POLICY is entered with. -/
theorem passed_policy (h : entered rt deps .policy .enrich s w = some (s₁, w₁)) :
    LetPass deps s₁ ∧ s₁.status = .strategyFormed := by
  refine entered_of_inv (I := PassedAt deps) (P := fun _ => True) (fun node s hs => ?_)
    (show PassedAt deps .enrich s from trivial) h
  refine (passedAt_runNode node hs).mono (fun _ hc => hc) fun r hr => ?_
  rintro s' next rfl hnext
  exact hr next hnext

/-! ## The run -/

/-- A run that enters a node goes on as from there. -/
theorem run_entered {target node : Node} (h : entered rt deps target node s w = some (s₁, w₁)) :
    (runFrom rt deps node s).run World.handler w =
      (runFrom rt deps target s₁).run World.handler w₁ := by
  fun_induction entered rt deps target node s w with
  | case1 | case3 | case5 | case6 => cases h
  | case2 =>
    cases h
    rfl
  | case4 node s w hbound hne s' v hrun hcalls next hnext ih =>
    rw [← ih h, runFrom_eq, if_neg hbound, Prog.run_bind, Prog.run_attempt, hrun]
    simp only [goOnFrom, goOn, if_neg hcalls, hnext]

/-- After a node that AUDIT follows, a run that returns leaves the status and the arm as they are. -/
theorem run_audited (hnow : deps.now.All (fun _ => True) fun r => ∃ moment, r = .ok moment)
    {node : Node} (hnode : (runNode rt deps node s₁).run World.handler w₁ = (.ok s₂, w₂))
    (hnext : nextNode node s₂ = some .audit)
    (h : (runFrom rt deps node s₁).run World.handler w₁ = (.ok final, w')) :
    final.status = s₂.status ∧ final.experimentArm = s₂.experimentArm := by
  rw [runFrom_eq] at h
  split at h
  · cases h
  rw [Prog.run_bind, Prog.run_attempt, hnode] at h
  simp only [goOnFrom, goOn, hnext] at h
  split at h
  · cases h
  rw [runFrom_eq] at h
  split at h
  · cases h
  -- the clock answers, so AUDIT does
  obtain ⟨moment, hmoment⟩ := hnow.run (H := World.handler) w₂
  have haudit : (runNode rt deps .audit s₂).run World.handler w₂ =
      (.ok (s₂.withTrace ⟨"AUDIT", "audit ledger", moment⟩),
        (deps.now.run World.handler w₂).2) := by
    show (auditNode s₂ deps).run World.handler w₂ = _
    unfold auditNode
    rw [Prog.run_bind, ← Prod.eta (deps.now.run World.handler w₂), hmoment]
    rfl
  rw [Prog.run_bind, Prog.run_attempt, haudit] at h
  simp only [goOnFrom, goOn, nextNode] at h
  split at h
  · cases h
  · cases h
    exact ⟨rfl, rfl⟩

/-- **What blocks a case**: a verdict that stops, reached at TRIAGE or at POLICY on what the node
reads, and the state the node leaves. -/
inductive StoppedBy (rt : Runtime) (deps : AgentDeps Act) (s : RecoveryState) (w : World)
    (v : StoppingVerdict) : Prop
  | triage (s₁ s₂ : RecoveryState) (w₁ w₂ w₃ : World) (now : DateTime)
      (entered : entered rt deps .triage .enrich s w = some (s₁, w₁))
      (read : deps.now.run World.handler w₁ = (.ok now, w₂))
      (judged : evaluate (stoppingContext s₁ deps.stoppingLimits now) = .ok v)
      (stop : v.decision = .stop)
      (left : (triageNode rt s₁ deps).run World.handler w₁ = (.ok s₂, w₃))
  | policy (s₁ s₂ : RecoveryState) (w₁ w₂ w₃ : World) (now : DateTime)
      (entered : entered rt deps .policy .enrich s w = some (s₁, w₁))
      (read : deps.now.run World.handler w₁ = (.ok now, w₂))
      (judged : evaluate (proposedContext (s₁.proposal.getD { strategy := .noAction })
        (policyContext s₁ deps.stoppingLimits deps.moneyLimits now)) = .ok v)
      (stop : v.decision = .stop)
      (left : (policyNode rt s₁ deps).run World.handler w₁ = (.ok s₂, w₃))

/-- TRIAGE takes the status of a case it stops from the verdict. -/
theorem triageNode_stopped {v : StoppingVerdict} {now : DateTime}
    (hread : deps.now.run World.handler w₁ = (.ok now, w₂))
    (hv : evaluate (stoppingContext s₁ deps.stoppingLimits now) = .ok v)
    (hstop : v.decision = .stop)
    (hleft : (triageNode rt s₁ deps).run World.handler w₁ = (.ok s₂, w₃)) :
    s₂.status = v.terminalStatus.getD .suppressed := by
  unfold triageNode at hleft
  obtain ⟨now', u, hnow', hleft⟩ := Prog.run_bind_eq_ok hleft
  obtain ⟨rfl, rfl⟩ : now' = now ∧ u = w₂ := by simpa [hread, eq_comm] using hnow'
  obtain ⟨v', u', hv', hleft⟩ := Prog.run_bind_eq_ok hleft
  rw [Act.run_liftExcept, hv] at hv'
  cases hv'
  obtain ⟨assignment, u'', -, hleft⟩ := Prog.run_bind_eq_ok hleft
  obtain ⟨now'', u₃, -, hleft⟩ := Prog.run_bind_eq_ok hleft
  rw [if_pos hstop] at hleft
  cases hleft
  rfl

/-- POLICY decides on the instant it reads first. -/
theorem policyNode_decided {now : DateTime}
    (hread : deps.now.run World.handler w₁ = (.ok now, w₂))
    (hleft : (policyNode rt s₁ deps).run World.handler w₁ = (.ok s₂, w₃)) :
    ∃ now' d, evaluatePolicy rt (s₁.proposal.getD { strategy := .noAction })
        (policyContext s₁ deps.stoppingLimits deps.moneyLimits now) now' = .ok d ∧
      s₂.status = decidedStatus d ∧ s₂.policyVerdict = some d.verdict ∧
        s₂.experimentArm = s₁.experimentArm := by
  unfold policyNode at hleft
  obtain ⟨now₁, u, hnow₁, hleft⟩ := Prog.run_bind_eq_ok hleft
  obtain ⟨rfl, rfl⟩ : now₁ = now ∧ u = w₂ := by simpa [hread, eq_comm] using hnow₁
  obtain ⟨now', u', -, hleft⟩ := Prog.run_bind_eq_ok hleft
  obtain ⟨d, u'', hd, hleft⟩ := Prog.run_bind_eq_ok hleft
  rw [Act.run_liftExcept] at hd
  obtain ⟨now'', u₃, -, hleft⟩ := Prog.run_bind_eq_ok hleft
  cases hleft
  exact ⟨now', d, (Prod.mk.inj hd).1, rfl, rfl, rfl⟩

/-- **A treated case that a rule stops ends in the status of the verdict that stopped it**, at
TRIAGE and at POLICY, whatever its clock reads. -/
theorem runCase_stopped
    (hnow : deps.now.All (fun _ => True) fun r => ∃ moment, r = .ok moment)
    (hopen : s.isTerminal = false)
    (h : (runCase rt s deps).run World.handler w = (.ok final, w'))
    (harm : final.experimentArm = some .treatment) {v : StoppingVerdict}
    (hstopped : StoppedBy rt deps s w v) : v.terminalStatus = some final.status := by
  unfold runCase at h
  rw [if_neg (by rw [hopen]; decide)] at h
  cases hstopped with
  | triage s₁ s₂ w₁ w₂ w₃ now hentered hread hv hstop hleft =>
    obtain ⟨status, hstatus, hterminal⟩ := evaluate_stop_terminal hv hstop
    have hs₂ := triageNode_stopped hread hv hstop hleft
    rw [hstatus, Option.getD_some] at hs₂
    have hnext : nextNode .triage s₂ = some .audit := by
      simp only [nextNode, RecoveryState.isTerminal, hs₂, hterminal, if_true]
    have hnode : (runNode rt deps .triage s₁).run World.handler w₁ = (.ok s₂, w₃) := hleft
    rw [run_entered hentered] at h
    rw [(run_audited hnow hnode hnext h).1, hs₂, hstatus]
  | policy s₁ s₂ w₁ w₂ w₃ now hentered hread hv hstop hleft =>
    obtain ⟨⟨s₀, now₀, v₀, hv₀, hpassed, hfacts⟩, hformed⟩ := passed_policy hentered
    obtain ⟨now', d, hd, hstatus, hverdict, harm₂⟩ := policyNode_decided hread hleft
    have hblocked : d.verdict = .blocked :=
      (evaluatePolicy_refuses hd (.inr (.inr ⟨v, hv, hstop⟩))).1
    have hnext : nextNode .policy s₂ = some .audit := by
      simp only [nextNode, hverdict, hblocked]
    have hnode : (runNode rt deps .policy s₁).run World.handler w₁ = (.ok s₂, w₃) := hleft
    rw [run_entered hentered] at h
    obtain ⟨hfinal, hfinalArm⟩ := run_audited hnow hnode hnext h
    have hctx : proposedContext (s₁.proposal.getD { strategy := .noAction })
        (policyContext s₁ deps.stoppingLimits deps.moneyLimits now) =
          (stoppingContext s₀ deps.stoppingLimits now₀).proposing now
            (s₁.proposal.getD { strategy := .noAction }).messageClass
            (.fin (s₁.proposal.getD { strategy := .noAction }).discountPct.finiteOrZero) := by
      have hsame : (policyContext s₁ deps.stoppingLimits deps.moneyLimits now).stopping =
          { stoppingContext s₀ deps.stoppingLimits now with caseStatus := s₁.status } :=
        hfacts _ _
      unfold proposedContext
      rw [hsame, hformed]
      rfl
    have htreated : (policyContext s₁ deps.stoppingLimits deps.moneyLimits now).arm ≠ .control := by
      show s₁.experimentArm.getD .treatment ≠ .control
      rw [← harm₂, ← hfinalArm, harm]
      decide
    rw [hfinal, hstatus]
    exact decidedStatus_of_stop hv₀ hpassed hctx htreated hd hv hstop

end Between


/-! ## A window that closes in between -/

/-- A case whose window closes four milliseconds after eight in the morning. -/
def closingCase : RecoveryState where
  caseId := "RC-0001"
  merchantId := "mch_1"
  customerId := "cus_1"
  playbook := .paymentFailure
  amountPaise := 250000
  errorSource := some "bank"
  windowExpiresAt := some { utc := 28800004000 }

/-- Eight in the morning, where every command takes a millisecond. -/
def tickingWorld : World where
  db := ⟨{}, Tables.valid_empty⟩
  clock := { utc := 28800000000 }
  fate := fun _ => { elapsed := 1000 }

/-- TRIAGE lets the case pass, POLICY stops it, and it has expired. -/
theorem runCase_stopped_closing : ∃ v final w',
    (runCase plainRuntime closingCase treatedDeps).run World.handler tickingWorld =
      (.ok final, w') ∧
    StoppedBy plainRuntime treatedDeps closingCase tickingWorld v ∧
    v.terminalStatus = some final.status := by
  have harm : ((runCase plainRuntime closingCase treatedDeps).run World.handler
      tickingWorld).1.map (·.experimentArm) = .ok (some .treatment) := by decide +kernel
  rcases hrun : (runCase plainRuntime closingCase treatedDeps).run World.handler tickingWorld with
    ⟨_ | final, w'⟩
  · rw [hrun] at harm
    cases harm
  rw [hrun] at harm
  have hjudged : (entered plainRuntime treatedDeps .policy .enrich closingCase tickingWorld).map
      (fun x => ((evaluate (proposedContext (x.1.proposal.getD { strategy := .noAction })
        (policyContext x.1 {} {} x.2.advance.clock))).map (·.decision),
        ((policyNode plainRuntime x.1 treatedDeps).run World.handler x.2).1.map (·.status))) =
      some (.ok .stop, .ok .expired) := by decide +kernel
  rcases hentered : entered plainRuntime treatedDeps .policy .enrich closingCase tickingWorld with
    _ | ⟨s₁, w₁⟩
  · rw [hentered] at hjudged
    cases hjudged
  rw [hentered, Option.map_some, Option.some.injEq, Prod.mk.injEq] at hjudged
  obtain ⟨hdecision, hstatus⟩ := hjudged
  rcases hv : evaluate (proposedContext (s₁.proposal.getD { strategy := .noAction })
      (policyContext s₁ {} {} w₁.advance.clock)) with _ | v
  · rw [hv] at hdecision
    cases hdecision
  rcases hleft : (policyNode plainRuntime s₁ treatedDeps).run World.handler w₁ with ⟨_ | s₂, w₃⟩
  · rw [hleft] at hstatus
    cases hstatus
  rw [hv] at hdecision
  have hstopped : StoppedBy plainRuntime treatedDeps closingCase tickingWorld v :=
    .policy s₁ s₂ w₁ w₁.advance w₃ _ hentered rfl hv (Except.ok.inj hdecision) hleft
  have hnow : treatedDeps.now.All (fun _ => True) fun r => ∃ moment, r = .ok moment :=
    ⟨trivial, fun t => ⟨t, rfl⟩⟩
  exact ⟨v, final, w', rfl, hstopped, runCase_stopped hnow rfl hrun (Except.ok.inj harm) hstopped⟩

end AegisMerchant
