import AegisMerchant.Guardrails.PolicyBounds
import AegisMerchant.Guardrails.Stops

/-!
# The reason a block gives

A block names the rule that stopped the case, and gives a detail. The two are found apart: the rule
by its decision, the detail by the rule. They are of one result unless the only one that stops is the
one appended for a deferral past the window, which answers for a rule that answered before.

`blockingDetail_of_stopped` and `blockingDetail_of_not_stopped` are the two ways a detail is found.
`evaluatePolicy_explains_iff` tells them apart, and `not_evaluatePolicy_explains` is the wrong one.
-/

namespace AegisMerchant

open Time Numeric

/-! ## The first result that stops -/

/-- One of the rules stops the case itself. -/
def StoppingContext.Stopped (ctx : StoppingContext) : Prop :=
  ∃ r ∈ [s12KillSwitch ctx, s01AlreadyResolved ctx, s07OptOut ctx, s06RecoveryWindow ctx,
    s02AttemptBudget ctx, s11MerchantBudget ctx, s05ContactCap48h ctx, s08ConsentClass ctx,
    s04ContactCap24h ctx], r.decision = .stop

instance (ctx : StoppingContext) : Decidable ctx.Stopped := by
  unfold StoppingContext.Stopped
  infer_instance

section Results

variable {ctx : StoppingContext} {v : StoppingVerdict} {quiet : RuleResult}

theorem stopped_iff (hquiet : s09QuietHours ctx = .ok quiet) :
    ctx.Stopped ↔ ∃ r ∈ ruleResults ctx quiet, r.decision = .stop := by
  have h9 := s09_ne_stop hquiet
  have h10 : (s10PromiseFreeze ctx).decision ≠ .stop := s10_ne_stop
  have h3 : (s03DiscountAttemptBudget ctx).decision ≠ .stop := s03_ne_stop
  unfold StoppingContext.Stopped ruleResults
  simp only [List.mem_cons, List.not_mem_nil, or_false, exists_eq_or_imp, exists_eq_left, h9, h10,
    h3, false_or]

/-- Of results signed by rules that differ, the first one signed by a rule is the one that is. -/
theorem find?_rule {results rest : List RuleResult} {r : RuleResult}
    (hnodup : (results.map (·.rule)).Nodup) (hr : r ∈ results) :
    (results ++ rest).find? (fun r' => some r'.rule = some r.rule) = some r := by
  induction results with
  | nil => cases hr
  | cons first others ih =>
    rw [List.map_cons, List.nodup_cons] at hnodup
    rw [List.cons_append, List.find?_cons]
    rcases List.mem_cons.mp hr with rfl | hr
    · simp
    · have hne : first.rule ≠ r.rule := by
        intro heq
        apply hnodup.1
        rw [heq]
        exact List.mem_map_of_mem hr
      simp only [Option.some.injEq, hne, decide_false]
      simpa using ih hnodup.2 hr

/-- **A rule that stops the case itself is given with its own detail.** -/
theorem blockingDetail_of_stopped (h : evaluate ctx = .ok v) (hstop : v.decision = .stop)
    (hstopped : ctx.Stopped) :
    ∃ r ∈ v.results, r.decision = .stop ∧ v.blockingRule = some r.rule ∧
      blockingDetail v = r.detail := by
  obtain ⟨quiet, hquiet, -⟩ := evaluate_eq_ok h
  obtain ⟨s, hs, hsstop⟩ := (stopped_iff hquiet).mp hstopped
  have hof := evaluate_verdictOf h hquiet
  obtain ⟨rest, hrest⟩ := hof.summary.carried
  obtain ⟨r, hfind, hblocking, -⟩ := hof.summary.blocking hstop
  -- the first result that stops is one of the twelve
  have hr : r ∈ ruleResults ctx quiet := by
    rw [← hrest, List.find?_append] at hfind
    have hsome : ((ruleResults ctx quiet).find? fun r => r.decision = .stop).isSome = true :=
      List.find?_isSome.mpr ⟨s, hs, by simpa using hsstop⟩
    obtain ⟨first, hfirst⟩ := Option.isSome_iff_exists.mp hsome
    rw [hfirst] at hfind
    obtain rfl : first = r := Option.some.inj hfind
    exact List.mem_of_find?_eq_some hfirst
  have hnodup : ((ruleResults ctx quiet).map (·.rule)).Nodup := by
    rw [hof.rules]
    decide
  refine ⟨r, hof.summary.carried.subset hr, by simpa using List.find?_some hfind, hblocking, ?_⟩
  unfold blockingDetail
  rw [hblocking, ← hrest, find?_rule hnodup hr]

/-- What the appended result says. -/
def RuleResult.Deferred (r : RuleResult) : Prop := ∃ text, r.detail = "deferral to " ++ text

theorem combine_deferred (ctx : StoppingContext) (results : List RuleResult) :
    (combine ctx results).results = results ∨ ∃ r, r.rule = .s06RecoveryWindow ∧ r.Deferred ∧
      (combine ctx results).results = results ++ [r] := by
  unfold combine Merged.verdict
  simp only
  split
  · next d expires _ _ =>
    split
    · exact .inr ⟨_, rfl, ⟨isoformat d ++ " would fall outside the recovery " ++
        "window closing " ++ isoformat expires, by simp [String.append_assoc]⟩, rfl⟩
    · exact .inl rfl
  · exact .inl rfl

/-- **Where no rule stops the case itself, the detail given is that of a rule with nothing to
say.** -/
theorem blockingDetail_of_not_stopped (h : evaluate ctx = .ok v) (hstop : v.decision = .stop)
    (hstopped : ¬ctx.Stopped) :
    v.blockingRule = some .s06RecoveryWindow ∧ blockingDetail v = "ok" ∧
      ∀ r ∈ v.results, r.decision = .stop → r.rule = .s06RecoveryWindow ∧ r.Deferred := by
  obtain ⟨quiet, hquiet, hv⟩ := evaluate_eq_ok h
  have hnone : ∀ r ∈ ruleResults ctx quiet, r.decision ≠ .stop := fun r hr hrstop =>
    hstopped ((stopped_iff hquiet).mpr ⟨r, hr, hrstop⟩)
  have hlate : ∀ r ∈ v.results, r.decision = .stop → r.rule = .s06RecoveryWindow ∧ r.Deferred := by
    intro r hr hrstop
    rw [hv] at hr
    rcases combine_deferred ctx (ruleResults ctx quiet) with hresults | ⟨x, hrule, hx, hresults⟩
    · rw [hresults] at hr
      exact absurd hrstop (hnone r hr)
    · rw [hresults] at hr
      rcases List.mem_append.mp hr with hr | hr
      · exact absurd hrstop (hnone r hr)
      · rw [List.mem_singleton.mp hr]
        exact ⟨hrule, hx⟩
  obtain ⟨r, hfind, hblocking, -⟩ := (evaluate_verdictOf h hquiet).summary.blocking hstop
  have hrule := (hlate r (List.mem_of_find?_eq_some hfind) (by simpa using List.find?_some hfind)).1
  rw [hrule] at hblocking
  refine ⟨hblocking, ?_, hlate⟩
  rw [blockingDetail_window h hblocking]
  have hopen : (s06RecoveryWindow ctx).decision ≠ .stop := by
    apply hnone
    simp [ruleResults]
  unfold s06RecoveryWindow at hopen ⊢
  split
  · split
    · next hexpired => simp_all
    · rfl
  · rfl

end Results

/-! ## The reasons of a decision -/

/-- How a block speaks of a stopping rule. -/
def stopPrefix : String := "stopping rule "

/-- The reason that a result of the stopping rules is. -/
def RuleResult.reason (r : RuleResult) : String := stopPrefix ++ r.rule.value ++ ": " ++ r.detail

/-- The reasons of a decision that speak of a stopping rule. -/
def PolicyDecision.stopReasons (d : PolicyDecision) : List String :=
  d.blockReasons.filter fun reason => stopPrefix.toList.isPrefixOf reason.toList

/-- **A block is explained**: what it says of the stopping rules is what one result says that
stops. -/
def PolicyDecision.Explains (d : PolicyDecision) (v : StoppingVerdict) : Prop :=
  ∃ r ∈ v.results, r.decision = .stop ∧ d.stopReasons = [r.reason]

/-- What a block says of the stopping rules. -/
theorem stopReasons_policyDecision (rt : Runtime) (proposal : RecoveryProposal)
    (ctx : PolicyContext) {v : StoppingVerdict} (now : DateTime) {rule : StoppingRule}
    (hstop : v.decision = .stop) (hblocking : v.blockingRule = some rule) :
    (policyDecision rt proposal ctx v now).stopReasons =
      [stopPrefix ++ rule.value ++ ": " ++ blockingDetail v] := by
  have hrefused : hardRefusals ctx v ≠ [] := fun hnil => (hardRefusals_eq_nil.mp hnil).2.1 hstop
  have hreasons : (policyDecision rt proposal ctx v now).blockReasons = hardRefusals ctx v := by
    simp [policyDecision, hrefused]
  have hamount : (s!"order amount is not positive ({ctx.orderAmountPaise})").toList.head? =
      some 'o' := by
    show ("order amount is not positive (" ++ toString ctx.orderAmountPaise ++ ")").toList.head? = _
    simp
  have hcontrol : "assigned to the CONTROL arm; observed without intervention".toList.head? =
      some 'a' := rfl
  have hspeaks : stopPrefix.toList.isPrefixOf
      (stopPrefix ++ rule.value ++ ": " ++ blockingDetail v).toList = true := by
    simp only [String.toList_append, List.append_assoc]
    exact List.isPrefixOf_iff_prefix.mpr (List.prefix_append _ _)
  have hother : ∀ (text : String) (c : Char), text.toList.head? = some c → c ≠ 's' →
      stopPrefix.toList.isPrefixOf text.toList = false := by
    intro text c hhead hne
    cases htext : text.toList with
    | nil => rfl
    | cons first rest =>
      rw [htext] at hhead
      obtain rfl : first = c := Option.some.inj hhead
      show ('s' == first && _) = false
      simp [hne.symm]
  have hone : ∀ {p : Prop} [Decidable p] (text : String),
      stopPrefix.toList.isPrefixOf text.toList = false →
        (if p then [text] else []).filter
          (fun reason => stopPrefix.toList.isPrefixOf reason.toList) = [] := by
    intro p _ text htext
    split
    · rw [List.filter_cons_of_neg (by simp [htext]), List.filter_nil]
    · rfl
  unfold PolicyDecision.stopReasons
  rw [hreasons]
  unfold hardRefusals
  rw [if_pos hstop, hblocking, List.filter_append, List.filter_append,
    hone _ (hother _ 'o' hamount (by decide)), hone _ (hother _ 'a' hcontrol (by decide))]
  rw [List.nil_append, List.append_nil]
  exact List.filter_cons_of_pos hspeaks

/-- A decision carries the verdict it was made on. -/
theorem stopping_policyDecision (rt : Runtime) (proposal : RecoveryProposal) (ctx : PolicyContext)
    (v : StoppingVerdict) (now : DateTime) :
    (policyDecision rt proposal ctx v now).stopping = some v := by
  unfold policyDecision authorise
  simp only
  split
  · rfl
  · split <;> rfl

/-- **A block is explained exactly when some rule stops the case itself**, and not only a deferral
that would outlast the window. -/
theorem evaluatePolicy_explains_iff {rt : Runtime} {proposal : RecoveryProposal}
    {ctx : PolicyContext} {now : DateTime} {d : PolicyDecision} {v : StoppingVerdict}
    (h : evaluatePolicy rt proposal ctx now = .ok d) (hv : d.stopping = some v)
    (hstop : v.decision = .stop) :
    d.Explains v ↔ (proposedContext proposal ctx).Stopped := by
  obtain ⟨v', hevaluate, rfl⟩ := evaluatePolicy_eq_ok h
  obtain rfl : v' = v := by
    rw [stopping_policyDecision] at hv
    exact Option.some.inj hv
  by_cases hstopped : (proposedContext proposal ctx).Stopped
  · refine iff_of_true ?_ hstopped
    obtain ⟨r, hr, hrstop, hblocking, hdetail⟩ := blockingDetail_of_stopped hevaluate hstop hstopped
    refine ⟨r, hr, hrstop, ?_⟩
    rw [stopReasons_policyDecision rt proposal ctx now hstop hblocking, hdetail]
    rfl
  · refine iff_of_false ?_ hstopped
    obtain ⟨hblocking, hdetail, hlate⟩ := blockingDetail_of_not_stopped hevaluate hstop hstopped
    rintro ⟨r, hr, hrstop, hreasons⟩
    obtain ⟨hrule, text, htext⟩ := hlate r hr hrstop
    rw [stopReasons_policyDecision rt proposal ctx now hstop hblocking, hdetail, RuleResult.reason,
      hrule, htext] at hreasons
    have hsame := String.toList_inj.mpr (List.head_eq_of_cons_eq hreasons)
    simp at hsame

/-- A context whose window closed an hour ago. -/
def closedWindow : PolicyContext :=
  { openContext 250000 with
    stopping :=
      { nowUtc := { utc := 1788345000000000 }, policy := {}
        windowExpiresAt := some { utc := 1788341400000000 } } }

/-- A promise to pay in a week, on a window that closes tomorrow. -/
def promisePastWindow : PolicyContext :=
  { openContext 250000 with
    stopping :=
      { nowUtc := { utc := 1788345000000000 }, policy := {}, promiseActive := true
        promisedAt := some { utc := 1788345000000000 + 7 * day }
        windowExpiresAt := some { utc := 1788345000000000 + day } } }

theorem evaluatePolicy_explains_closed :
    ∃ d v, evaluatePolicy plainRuntime hostileProposal closedWindow { utc := 0 } = .ok d ∧
      d.stopping = some v ∧ d.Explains v := by
  obtain ⟨d, v, hd, hv, hstop⟩ : ∃ d v,
      evaluatePolicy plainRuntime hostileProposal closedWindow { utc := 0 } = .ok d ∧
        d.stopping = some v ∧ v.decision = .stop := ⟨_, _, rfl, rfl, by decide +kernel⟩
  exact ⟨d, v, hd, hv, (evaluatePolicy_explains_iff hd hv hstop).mpr (by decide +kernel)⟩

/-- A promise that outlasts the window is reported as a window with nothing to say. -/
theorem not_evaluatePolicy_explains :
    ¬∀ (rt : Runtime) (proposal : RecoveryProposal) (ctx : PolicyContext) (now : DateTime)
      (d : PolicyDecision) (v : StoppingVerdict),
      evaluatePolicy rt proposal ctx now = .ok d → d.stopping = some v → v.decision = .stop →
        d.Explains v := by
  intro h
  obtain ⟨d, v, hd, hv, hstop, hnone⟩ : ∃ d v,
      evaluatePolicy plainRuntime hostileProposal promisePastWindow { utc := 0 } = .ok d ∧
        d.stopping = some v ∧ v.decision = .stop ∧
        ∀ r ∈ v.results, r.decision = .stop → d.stopReasons ≠ [r.reason] :=
    ⟨_, _, rfl, rfl, by decide +kernel, by decide +kernel⟩
  obtain ⟨r, hr, hrstop, hreasons⟩ := h _ _ _ _ _ _ hd hv hstop
  exact hnone r hr hrstop hreasons

end AegisMerchant
