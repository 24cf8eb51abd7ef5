import AegisMerchant.Guardrails.VerdictLaws

/-!
# One pass of degradations is enough

A degradation changes the class and the discount that two rules read, and those two rules are the
ones that degrade. Evaluating again, each of them has nothing more to say; the other ten answer as
before. So the second verdict is the first with its degradations gone.

`ruleResults_again` is rule by rule, `evaluate_again` the second verdict, and
`applyDegradations_settles` the law.
-/

namespace AegisMerchant

open Time Numeric

/-! ## What a degradation leaves behind -/

def Decision.soften : Decision → Decision
  | .degrade => .proceed
  | d => d

def RuleResult.soften (r : RuleResult) : RuleResult :=
  if r.decision = .degrade then proceed r.rule else r

/-- The accumulators, had no result degraded. -/
def Merged.soften (m : Merged) : Merged :=
  { m with decision := m.decision.soften, degradations := {} }

theorem Decision.soften_ne_degrade (d : Decision) : d.soften ≠ .degrade := by
  cases d <;> simp [Decision.soften]

theorem Decision.soften_eq_iff {d e : Decision} (he : e ≠ .proceed) (he' : e ≠ .degrade) :
    d.soften = e ↔ d = e := by
  cases d <;> cases e <;> simp_all [Decision.soften]

@[simp] theorem RuleResult.soften_rule (r : RuleResult) : r.soften.rule = r.rule := by
  unfold RuleResult.soften
  split <;> rfl

theorem RuleResult.soften_decision (r : RuleResult) : r.soften.decision = r.decision.soften := by
  unfold RuleResult.soften
  split
  · next h => rw [h]; rfl
  · next h => cases hd : r.decision <;> simp_all [Decision.soften]

theorem RuleResult.soften_eq {r : RuleResult} (h : r.decision ≠ .degrade) : r.soften = r :=
  if_neg h

/-! ## The rules, asked again -/

section Again

variable {ctx : StoppingContext} {v : StoppingVerdict}

theorem applyDegradations_class (h : evaluate ctx = .ok v) :
    (applyDegradations ctx v).proposedMessageClass =
      if ClassRefused ctx ∧ ctx.transactionalConsent = true then .transactional
      else ctx.proposedMessageClass := by
  show v.degradations.messageClass.getD _ = _
  rw [evaluate_degradations h]
  dsimp only
  split <;> rfl

theorem applyDegradations_discount (h : evaluate ctx = .ok v) :
    (applyDegradations ctx v).proposedDiscountPct =
      if DiscountRefused ctx ∨ (ClassRefused ctx ∧ ctx.transactionalConsent = true) then .fin 0
      else ctx.proposedDiscountPct := by
  show v.degradations.discountPct.elim _ _ = _
  rw [evaluate_degradations h]
  dsimp only
  split <;> rfl

/-- The class it was degraded to is one it may go out with. -/
theorem s08_again (h : evaluate ctx = .ok v) :
    s08ConsentClass (applyDegradations ctx v) = (s08ConsentClass ctx).soften := by
  have hclass := applyDegradations_class h
  -- refused with consent to fall back on, or the class is as it was
  by_cases hdegrades : ClassRefused ctx ∧ ctx.transactionalConsent = true
  · rw [if_pos hdegrades] at hclass
    have hdecision := (s08_eq_degrade_iff ctx).mpr hdegrades
    rw [RuleResult.soften, if_pos hdecision, (s08_of ctx).signed]
    have hconsent : (applyDegradations ctx v).transactionalConsent = true := hdegrades.2
    unfold s08ConsentClass
    rw [hclass, hconsent]
    split <;> simp
  · rw [if_neg hdegrades] at hclass
    rw [RuleResult.soften_eq (mt (s08_eq_degrade_iff ctx).mp hdegrades)]
    unfold s08ConsentClass
    rw [hclass]
    rfl

/-- A discount of nothing needs no budget. -/
theorem s03_again (h : evaluate ctx = .ok v) :
    s03DiscountAttemptBudget (applyDegradations ctx v) =
      (s03DiscountAttemptBudget ctx).soften := by
  have hdiscount := applyDegradations_discount h
  -- a discount that is not refused passes the rule
  have hproceeds : ∀ c : StoppingContext, ¬DiscountRefused c →
      s03DiscountAttemptBudget c = proceed .s03DiscountAttemptBudget := by
    intro c hc
    unfold DiscountRefused at hc
    unfold s03DiscountAttemptBudget
    split
    · rfl
    · next hpositive => exact if_neg fun hlimit => hc ⟨hpositive, hlimit⟩
  by_cases hstripped :
      DiscountRefused ctx ∨ (ClassRefused ctx ∧ ctx.transactionalConsent = true)
  · rw [if_pos hstripped] at hdiscount
    -- nothing is left of the discount to refuse
    have hnow : ¬DiscountRefused (applyDegradations ctx v) := by
      rintro ⟨hpositive, -⟩
      rw [hdiscount] at hpositive
      exact hpositive (by decide)
    rw [hproceeds _ hnow, RuleResult.soften]
    split
    · rw [(s03_of ctx).signed]
    · next hne => exact (hproceeds ctx (mt (s03_eq_degrade_iff ctx).mpr hne)).symm
  · rw [if_neg hstripped] at hdiscount
    have hkept : ¬DiscountRefused ctx := fun hrefused => hstripped (.inl hrefused)
    rw [RuleResult.soften_eq (mt (s03_eq_degrade_iff ctx).mp hkept)]
    unfold s03DiscountAttemptBudget
    rw [hdiscount]
    rfl

/-- **Asked again, every rule that degraded has nothing more to say, and no other changes its
mind.** -/
theorem ruleResults_again {quiet : RuleResult} (h : evaluate ctx = .ok v)
    (hquiet : s09QuietHours ctx = .ok quiet) :
    ruleResults (applyDegradations ctx v) quiet = (ruleResults ctx quiet).map RuleResult.soften := by
  simp only [ruleResults, List.map_cons, List.map_nil, ← s08_again h, ← s03_again h,
    RuleResult.soften_eq (s12_ne_degrade ctx), RuleResult.soften_eq (s01_ne_degrade ctx),
    RuleResult.soften_eq (s07_ne_degrade ctx), RuleResult.soften_eq (s06_ne_degrade ctx),
    RuleResult.soften_eq (s02_ne_degrade ctx), RuleResult.soften_eq (s11_ne_degrade ctx),
    RuleResult.soften_eq (s05_ne_degrade ctx), RuleResult.soften_eq (s10_ne_degrade ctx),
    RuleResult.soften_eq (s04_ne_degrade ctx), RuleResult.soften_eq (s09_ne_degrade hquiet)]
  rfl

end Again

/-! ## The verdict, given again -/

/-- A degrading result settles no status and holds nothing. -/
def RuleResult.Light (r : RuleResult) : Prop :=
  r.decision = .degrade → r.terminalStatus = none ∧ r.deferUntil = none

/-- Nothing is settled or held before a result stops or defers. -/
def Merged.Light (m : Merged) : Prop :=
  m.decision = .proceed ∨ m.decision = .degrade → m.terminal = none ∧ m.deferUntil = none

/-- Of two deferrals the later hold is kept, whatever was degraded before. -/
theorem absorb_defer {m : Merged} {r : RuleResult} (hm : m.decision = .defer)
    (hr : r.decision = .defer) :
    m.absorb r = { m with deferUntil :=
      match r.deferUntil, m.deferUntil with
      | some d, some current => some (if current < d then d else current)
      | _, hold => hold } := by
  obtain ⟨decision, terminal, deferUntil, degradations⟩ := m
  obtain ⟨rule, decision', detail, terminal', deferUntil', degrade⟩ := r
  cases hm
  cases hr
  cases deferUntil <;> cases deferUntil' <;> try rfl
  next current d =>
    by_cases hlt : current < d <;> simp [Merged.absorb, hlt]

/-- One turn of the loop on a softened result. -/
theorem absorb_soften {m : Merged} {r : RuleResult} (hm : m.Light) (hr : r.Light) :
    m.soften.absorb r.soften = (m.absorb r).soften ∧ (m.absorb r).Light := by
  obtain ⟨decision, terminal, deferUntil, degradations⟩ := m
  obtain ⟨rule, decision', detail, terminal', deferUntil', degrade⟩ := r
  cases decision <;> cases decision'
  case proceed.degrade =>
    -- the one turn where a degradation takes the outcome over
    obtain ⟨rfl, rfl⟩ := hm (.inl rfl)
    obtain ⟨rfl, rfl⟩ := hr rfl
    exact ⟨rfl, fun _ => ⟨rfl, rfl⟩⟩
  case defer.defer =>
    rw [RuleResult.soften_eq (by simp), absorb_defer rfl rfl, absorb_defer rfl rfl]
    refine ⟨rfl, ?_⟩
    rintro (h | h) <;> cases h
  -- in every other turn both sides keep the same one
  all_goals
    cases deferUntil <;> cases deferUntil' <;> refine ⟨rfl, ?_⟩ <;>
      first
      | exact hm
      | rintro (h | h) <;> cases h

theorem foldl_soften {results : List RuleResult} {m : Merged} (hm : m.Light)
    (h : ∀ r ∈ results, r.Light) :
    (results.map RuleResult.soften).foldl Merged.absorb m.soften =
      (results.foldl Merged.absorb m).soften ∧ (results.foldl Merged.absorb m).Light := by
  induction results generalizing m with
  | nil => exact ⟨rfl, hm⟩
  | cons r rest ih =>
    rw [List.forall_mem_cons] at h
    obtain ⟨habsorb, hlight⟩ := absorb_soften hm h.1
    rw [List.map_cons, List.foldl_cons, List.foldl_cons, habsorb]
    exact ih hlight h.2

/-- The degradations of the first verdict, applied and forgotten. -/
def StoppingVerdict.soften (v : StoppingVerdict) : StoppingVerdict :=
  { v with decision := v.decision.soften, results := v.results.map RuleResult.soften
           degradations := {} }

theorem forward_soften {m : Merged} {now : DateTime} (hm : m.Forward now) :
    m.soften.forward now = m.soften := by
  refine forward_stays fun hdefer => hm ?_
  exact (Decision.soften_eq_iff (by decide) (by decide)).mp hdefer

theorem verdict_soften (m : Merged) (ctx ctx' : StoppingContext)
    (hwindow : ctx'.windowExpiresAt = ctx.windowExpiresAt) (results : List RuleResult) :
    m.soften.verdict ctx' (results.map RuleResult.soften) = (m.verdict ctx results).soften := by
  have hdefer : m.decision.soften = .defer ↔ m.decision = .defer :=
    Decision.soften_eq_iff (by decide) (by decide)
  unfold Merged.verdict
  simp only [hwindow, Merged.soften, hdefer]
  cases m.deferUntil <;> cases ctx.windowExpiresAt <;> try rfl
  next d expires =>
    by_cases hlate : m.decision = .defer ∧ expires ≤ d
    · simp only [if_pos hlate, StoppingVerdict.soften, List.map_append]
      rfl
    · simp only [if_neg hlate]
      rfl

/-- The results of the rules that degrade. -/
theorem ruleResults_light {ctx : StoppingContext} {quiet : RuleResult}
    (hquiet : s09QuietHours ctx = .ok quiet) : ∀ r ∈ ruleResults ctx quiet, r.Light := by
  intro r hr hdegrade
  refine ⟨?_, ?_⟩
  · rcases degrades_cases hquiet hr hdegrade with rfl | rfl
    · unfold s08ConsentClass at hdegrade ⊢
      split
      · rfl
      · split
        · simp only at hdegrade ⊢
          split <;> simp_all
        · split <;> simp_all
    · unfold s03DiscountAttemptBudget
      split
      · rfl
      · simp only
        split <;> rfl
  · cases hhold : r.deferUntil with
    | none => rfl
    | some d =>
      -- only a rule that defers has a release
      have hdefer := (ruleResults_wellFormed hquiet r hr).holds d hhold
      rw [hdegrade] at hdefer
      cases hdefer

/-- **Evaluated again with its degradations applied, a case gets the verdict it had without
them.** -/
theorem evaluate_again {ctx : StoppingContext} {v : StoppingVerdict} (h : evaluate ctx = .ok v) :
    evaluate (applyDegradations ctx v) = .ok v.soften := by
  obtain ⟨quiet, hquiet, hv⟩ := evaluate_eq_ok h
  -- the quiet hours look at the clock alone, which the degradations leave
  have hagain : s09QuietHours (applyDegradations ctx v) = .ok quiet := hquiet
  have hstart : ({} : Merged).Light := fun _ => ⟨rfl, rfl⟩
  have hforward := foldl_forward (m := {}) (by simp [Merged.Forward])
    fun r hr => (ruleResults_wellFormed hquiet r hr).forward
  -- so the merge of the softened results is the softened merge
  have hfold := (foldl_soften hstart (ruleResults_light hquiet)).1
  have hcombine : combine (applyDegradations ctx v) (ruleResults (applyDegradations ctx v) quiet) =
      v.soften := by
    rw [ruleResults_again h hquiet, combine]
    show (Merged.forward (List.foldl Merged.absorb ({} : Merged).soften _) ctx.nowUtc).verdict _ _ = _
    rw [hfold, forward_soften hforward, verdict_soften _ ctx (applyDegradations ctx v) rfl,
      hv, combine, forward_stays hforward]
  unfold evaluate
  rw [hagain, ← hcombine]
  rfl

/-! ## One pass settles -/

/-- The second verdict: nothing left to degrade, and otherwise the first one's outcome. -/
structure SettledBy (v v' : StoppingVerdict) : Prop where
  none_degrades : ∀ r ∈ v'.results, r.decision ≠ .degrade
  degradations : v'.degradations = {}
  stays : v.decision = .stop ∨ v.decision = .defer →
    v'.decision = v.decision ∧ v'.blockingRule = v.blockingRule ∧
      v'.terminalStatus = v.terminalStatus ∧ v'.deferUntil = v.deferUntil
  proceeds : v.decision = .degrade ∨ v.decision = .proceed → v'.decision = .proceed

/-- A stop or a deferral is still the first one's. -/
theorem find?_soften {results : List RuleResult} {d : Decision} (hd : d ≠ .proceed)
    (hd' : d ≠ .degrade) :
    ((results.map RuleResult.soften).find? fun r => r.decision = d).map (·.rule) =
      (results.find? fun r => r.decision = d).map (·.rule) := by
  induction results with
  | nil => rfl
  | cons r rest ih =>
    have hsame : r.soften.decision = d ↔ r.decision = d := by
      rw [RuleResult.soften_decision]
      exact Decision.soften_eq_iff hd hd'
    simp only [List.map_cons, List.find?_cons, hsame]
    split
    · simp
    · exact ih

theorem soften_settledBy (v : StoppingVerdict) : SettledBy v v.soften := by
  refine ⟨fun r hr => ?_, rfl, ?_, ?_⟩
  · obtain ⟨x, -, rfl⟩ := List.mem_map.mp hr
    rw [RuleResult.soften_decision]
    exact Decision.soften_ne_degrade _
  · intro hheld
    obtain ⟨hne, hne'⟩ : v.decision ≠ .proceed ∧ v.decision ≠ .degrade := by
      rcases hheld with h | h <;> rw [h] <;> decide
    -- a stop or a hold is not softened
    have hsame : v.soften.decision = v.decision := (Decision.soften_eq_iff hne hne').mpr rfl
    refine ⟨hsame, ?_, rfl, rfl⟩
    unfold StoppingVerdict.blockingRule
    rw [hsame, if_neg hne, if_neg hne]
    exact find?_soften hne hne'
  · rintro (h | h)
    · show v.decision.soften = .proceed
      rw [h]
      rfl
    · show v.decision.soften = .proceed
      rw [h]
      rfl

/-- **One pass of degradations is enough**: the context they leave is evaluated, has nothing left
to degrade, and is stopped or held exactly as before. -/
theorem applyDegradations_settles {ctx : StoppingContext} {v : StoppingVerdict}
    (h : evaluate ctx = .ok v) :
    ∃ v', evaluate (applyDegradations ctx v) = .ok v' ∧ SettledBy v v' ∧
      applyDegradations (applyDegradations ctx v) v' = applyDegradations ctx v :=
  ⟨v.soften, evaluate_again h, soften_settledBy v, rfl⟩

/-! ## An evening -/

/-- A second discount, offered in quiet hours: held, and stripped of the discount. -/
def secondDiscount : StoppingContext :=
  { lateEvening 9 with proposedDiscountPct := .fin 5, discountBearingAttempts := 1 }

theorem applyDegradations_settles_evening :
    ∃ v v', evaluate secondDiscount = .ok v ∧
      evaluate (applyDegradations secondDiscount v) = .ok v' ∧ SettledBy v v' ∧
        applyDegradations (applyDegradations secondDiscount v) v' =
          applyDegradations secondDiscount v := by
  obtain ⟨v, hv⟩ := (evaluate_isOk_iff secondDiscount).mpr (by decide +kernel)
  obtain ⟨v', hagain, hsettled⟩ := applyDegradations_settles hv
  exact ⟨v, v', hv, hagain, hsettled⟩

end AegisMerchant
