import AegisMerchant.Guardrails.MayAct

/-!
# What a verdict says

The loop of `evaluate`, the correction of stale deferrals and the conversion at the end of the
recovery window, taken together: whatever the twelve rules answer, the fields of the verdict fit
each other and the results it carries.

`combine_summary` is the loop with its corrections, `evaluate_answers` the verdict, and
`not_evaluate_answers` a night that ends at hour 24.
-/

namespace AegisMerchant

open Time Numeric

/-! ## Holds -/

/-- One of the results holds the action until this instant. -/
def HeldUntil (results : List RuleResult) (d : DateTime) : Prop :=
  ∃ r ∈ results, r.deferUntil = some d

/-- No result holds the action longer. -/
def LatestHold (results : List RuleResult) (d : DateTime) : Prop :=
  HeldUntil results d ∧ ∀ e, HeldUntil results e → e ≤ d

theorem heldUntil_concat {results : List RuleResult} {r : RuleResult} {d : DateTime} :
    HeldUntil (results ++ [r]) d ↔ HeldUntil results d ∨ r.deferUntil = some d := by
  simp only [HeldUntil, List.mem_append, List.mem_singleton]
  constructor
  · rintro ⟨x, hx | rfl, hd⟩
    · exact .inl ⟨x, hx, hd⟩
    · exact .inr hd
  · rintro (⟨x, hx, hd⟩ | hd)
    · exact ⟨x, .inl hx, hd⟩
    · exact ⟨r, .inr rfl, hd⟩

/-- A hold is later than now. -/
theorem HeldUntil.lt {results : List RuleResult} {now d : DateTime} (h : HeldUntil results d)
    (hwf : ∀ r ∈ results, r.WellFormed now) : now < d := by
  obtain ⟨r, hr, hd⟩ := h
  obtain ⟨d', hd', hlt⟩ := (hwf r hr).forward ((hwf r hr).holds d hd)
  obtain rfl : d = d' := by simpa [hd] using hd'
  exact hlt

/-! ## The loop -/

/-- What the accumulators say about the results seen so far. -/
structure Merged.Over (seen : List RuleResult) (m : Merged) : Prop where
  severest : ∀ r ∈ seen, r.decision.severity ≤ m.decision.severity
  told : m.decision = .proceed ∨ ∃ r ∈ seen, r.decision = m.decision
  stop : m.decision = .stop →
    ∃ r, seen.find? (fun r => r.decision = .stop) = some r ∧ m.terminal = r.terminalStatus
  hold : m.decision = .defer → ∃ d, m.deferUntil = some d ∧ LatestHold seen d
  free : m.decision ≠ .defer → m.deferUntil = none

/-- Less severe than a deferral: not held. -/
theorem not_heldUntil {seen : List RuleResult} {now : DateTime} {n : ℕ}
    (hwf : ∀ r ∈ seen, r.WellFormed now) (hle : ∀ r ∈ seen, r.decision.severity ≤ n) (hn : n < 2)
    (d : DateTime) : ¬HeldUntil seen d := by
  rintro ⟨r, hr, hd⟩
  have hdefer := (hwf r hr).holds d hd
  have := hle r hr
  rw [hdefer] at this
  exact absurd this (by simp only [Decision.severity]; omega)

/-- One turn of the loop. -/
theorem Merged.Over.absorb {seen : List RuleResult} {m : Merged} {r : RuleResult} {now : DateTime}
    (h : m.Over seen) (hwf : ∀ x ∈ seen, x.WellFormed now) (hr : r.WellFormed now) :
    (m.absorb r).Over (seen ++ [r]) := by
  unfold Merged.absorb
  simp only
  split
  · next hlt =>
    -- a more severe result takes over, with its own status and release
    constructor
    · intro x hx
      rcases List.mem_append.mp hx with hx | hx
      · have := h.severest x hx
        simp only
        omega
      · obtain rfl := List.mem_singleton.mp hx
        exact le_rfl
    · exact .inr ⟨r, by simp, rfl⟩
    · intro hstop
      have hnone : seen.find? (fun r => r.decision = .stop) = none := by
        rw [List.find?_eq_none]
        intro x hx hxstop
        have hle := h.severest x hx
        have hmax := r.decision.severity_le
        rw [of_decide_eq_true hxstop] at hle
        have : Decision.stop.severity = 3 := rfl
        omega
      have hrstop : r.decision = .stop := hstop
      exact ⟨r, by simp [hnone, hrstop], rfl⟩
    · intro hdefer
      have hrdefer : r.decision = .defer := hdefer
      obtain ⟨d, hd, -⟩ := hr.forward hrdefer
      rw [hrdefer] at hlt
      refine ⟨d, hd, heldUntil_concat.mpr (.inr hd), fun e he => ?_⟩
      rcases heldUntil_concat.mp he with he | he
      · exact absurd he (not_heldUntil hwf h.severest hlt e)
      · obtain rfl : d = e := Option.some.inj (hd.symm.trans he)
        exact le_refl d
    · intro hne
      have hrne : r.decision ≠ .defer := hne
      cases hd : r.deferUntil with
      | none => rfl
      | some d => exact absurd (hr.holds d hd) hrne
  · next hle =>
    -- the decision stands
    have hsevere : ∀ x ∈ seen ++ [r], x.decision.severity ≤ m.decision.severity := by
      intro x hx
      rcases List.mem_append.mp hx with hx | hx
      · exact h.severest x hx
      · obtain rfl := List.mem_singleton.mp hx
        omega
    have htold : m.decision = .proceed ∨ ∃ x ∈ seen ++ [r], x.decision = m.decision := by
      rcases h.told with htold | ⟨x, hx, hxm⟩
      · exact .inl htold
      · exact .inr ⟨x, by simp [hx], hxm⟩
    have hstops : m.decision = .stop → ∃ x, (seen ++ [r]).find? (fun r => r.decision = .stop) =
        some x ∧ m.terminal = x.terminalStatus := by
      intro hstop
      obtain ⟨x, hx, hterminal⟩ := h.stop hstop
      exact ⟨x, by simp [List.find?_append, hx], hterminal⟩
    split
    · next d current hd hcurrent =>
      -- two holds: the later one stands
      have hmdefer : m.decision = .defer := by
        by_contra hne
        simp [h.free hne] at hcurrent
      obtain ⟨c, hc, hlatest⟩ := h.hold hmdefer
      obtain rfl : c = current := Option.some.inj (hc.symm.trans hcurrent)
      split
      · next hlater =>
        refine ⟨hsevere, htold, hstops, fun _ => ⟨d, rfl, ?_, fun e he => ?_⟩, fun hne =>
          absurd hmdefer hne⟩
        · exact heldUntil_concat.mpr (.inr hd)
        · rcases heldUntil_concat.mp he with he | he
          · exact le_trans (hlatest.2 e he) (le_of_lt hlater.2.2)
          · obtain rfl : d = e := Option.some.inj (hd.symm.trans he)
            exact le_refl d
      · next hnot =>
        refine ⟨hsevere, htold, hstops, fun _ => ⟨c, hcurrent, ?_, fun e he => ?_⟩, fun hne =>
          absurd hmdefer hne⟩
        · exact heldUntil_concat.mpr (.inl hlatest.1)
        · rcases heldUntil_concat.mp he with he | he
          · exact hlatest.2 e he
          · obtain rfl : d = e := Option.some.inj (hd.symm.trans he)
            by_contra hlt
            exact hnot ⟨(hr.holds d hd).trans hmdefer.symm, hmdefer, DateTime.not_le.mp hlt⟩
    · next hnone =>
      refine ⟨hsevere, htold, hstops, fun hdefer => ?_, h.free⟩
      obtain ⟨c, hc, hlatest⟩ := h.hold hdefer
      refine ⟨c, hc, heldUntil_concat.mpr (.inl hlatest.1), fun e he => ?_⟩
      rcases heldUntil_concat.mp he with he | he
      · exact hlatest.2 e he
      · exact absurd hc (hnone e c he)

/-- The whole loop. -/
theorem over_foldl {results : List RuleResult} {now : DateTime}
    (hwf : ∀ r ∈ results, r.WellFormed now) : (results.foldl Merged.absorb {}).Over results := by
  induction results using List.reverseRecOn with
  | nil =>
    refine ⟨?_, .inl rfl, ?_, ?_, fun _ => rfl⟩
    · intro r hr
      cases hr
    · intro h
      cases h
    · intro h
      cases h
  | append_singleton seen r ih =>
    have hseen : ∀ x ∈ seen, x.WellFormed now := fun x hx => hwf x (by simp [hx])
    rw [List.foldl_append, List.foldl_cons, List.foldl_nil]
    exact (ih hseen).absorb hseen (hwf r (by simp))

/-! ## The verdict on the results -/

/-- **What a verdict says about the results of the rules.** -/
structure Summary (now : DateTime) (window : Option DateTime) (results : List RuleResult)
    (v : StoppingVerdict) : Prop where
  /-- Every result is carried, in evaluation order. -/
  carried : results <+: v.results
  /-- One rule stops, or the merged deferral would fall outside the recovery window. -/
  stop_iff : v.decision = .stop ↔ (∃ r ∈ results, r.decision = .stop) ∨
    ∃ d expires, LatestHold results d ∧ window = some expires ∧ expires ≤ d
  severest : v.decision ≠ .stop → (∃ r ∈ results, r.decision = v.decision) ∧
    ∀ r ∈ results, r.decision.severity ≤ v.decision.severity
  /-- The rule and the status reported are those of the first result that stops. -/
  blocking : v.decision = .stop → ∃ r, v.results.find? (fun r => r.decision = .stop) = some r ∧
    v.blockingRule = some r.rule ∧ v.terminalStatus = r.terminalStatus
  deferral : v.decision = .defer → ∃ d, v.deferUntil = some d ∧ LatestHold results d ∧ now < d ∧
    ∀ expires, window = some expires → d < expires

/-- The verdict that carries the merged results as they are. -/
theorem summary_plain {m : Merged} {now : DateTime} {window : Option DateTime}
    {results : List RuleResult} {v : StoppingVerdict} (h : m.Over results)
    (hwf : ∀ r ∈ results, r.WellFormed now) (hne : results ≠ [])
    (hinside : m.decision = .defer → ∀ d expires, m.deferUntil = some d →
      window = some expires → d < expires)
    (hv : v = { decision := m.decision, results, terminalStatus := m.terminal
                deferUntil := m.deferUntil, degradations := m.degradations }) :
    Summary now window results v := by
  subst hv
  refine ⟨List.prefix_rfl, ⟨fun hstop => ?_, ?_⟩, fun hnot => ⟨?_, h.severest⟩, fun hstop => ?_,
    fun hdefer => ?_⟩
  · obtain ⟨r, hr, -⟩ := h.stop hstop
    exact .inl ⟨r, List.mem_of_find?_eq_some hr, by simpa using List.find?_some hr⟩
  · rintro (⟨r, hr, hrstop⟩ | ⟨d, expires, hd, hwindow, hle⟩)
    · have := h.severest r hr
      rw [hrstop] at this
      exact Decision.eq_stop_of_severity this
    · -- a hold outside the window was not merged: something more severe was
      obtain ⟨r, hr, hrd⟩ := hd.1
      have hsevere := h.severest r hr
      rw [(hwf r hr).holds d hrd] at hsevere
      cases hm : m.decision with
      | stop => rfl
      | defer =>
        obtain ⟨c, hc, hlatest⟩ := h.hold hm
        have hlt := hinside hm c expires hc hwindow
        exact absurd (le_trans hle (hlatest.2 d hd.1)) (DateTime.not_le.mpr hlt)
      | _ =>
        rw [hm] at hsevere
        exact absurd hsevere (by decide)
  · rcases h.told with hproceed | htold
    · -- nothing but `PROCEED`: the first result will do
      obtain ⟨r, rest, rfl⟩ := List.exists_cons_of_ne_nil hne
      refine ⟨r, by simp, ?_⟩
      have := h.severest r (by simp)
      rw [hproceed] at this ⊢
      cases hr : r.decision <;> first | rfl | (rw [hr] at this; exact absurd this (by decide))
    · exact htold
  · obtain ⟨r, hr, hterminal⟩ := h.stop hstop
    have hdecision : m.decision = .stop := hstop
    refine ⟨r, hr, ?_, hterminal⟩
    unfold StoppingVerdict.blockingRule
    simp only [hdecision]
    rw [if_neg (by decide), hr]
    rfl
  · obtain ⟨d, hd, hlatest⟩ := h.hold hdefer
    exact ⟨d, hd, hlatest, hlatest.1.lt hwf, fun expires => hinside hdefer d expires hd⟩

/-- The verdict that gives a deferral up because the window closes first. -/
theorem summary_converted {m : Merged} {now : DateTime} {results : List RuleResult}
    {d expires : DateTime} {v : StoppingVerdict} {r : RuleResult} (h : m.Over results)
    (hm : m.decision = .defer) (hd : m.deferUntil = some d) (hle : expires ≤ d)
    (hr : r.decision = .stop) (hresults : v.results = results ++ [r]) (hv : v.decision = .stop)
    (hterminal : v.terminalStatus = r.terminalStatus) :
    Summary now (some expires) results v := by
  obtain ⟨c, hc, hlatest⟩ := h.hold hm
  obtain rfl : c = d := Option.some.inj (hc.symm.trans hd)
  have hnone : results.find? (fun r => r.decision = .stop) = none := by
    rw [List.find?_eq_none]
    intro x hx hstop
    have hsevere := h.severest x hx
    rw [of_decide_eq_true hstop, hm] at hsevere
    exact absurd hsevere (by decide)
  have hfind : v.results.find? (fun r => r.decision = .stop) = some r := by
    rw [hresults, List.find?_append, hnone]
    simp [hr]
  refine ⟨⟨[r], hresults.symm⟩, iff_of_true hv (.inr ⟨c, expires, hlatest, rfl, hle⟩),
    fun hne => absurd hv hne, fun _ => ⟨r, hfind, ?_, hterminal⟩, fun hdefer => ?_⟩
  · unfold StoppingVerdict.blockingRule
    rw [if_neg (by rw [hv]; decide), hv, hfind]
    rfl
  · rw [hv] at hdefer
    cases hdefer

/-- **What the loop, the correction and the conversion make of any results.** -/
theorem combine_summary {ctx : StoppingContext} {results : List RuleResult}
    (hwf : ∀ r ∈ results, r.WellFormed ctx.nowUtc) (hne : results ≠ []) :
    Summary ctx.nowUtc ctx.windowExpiresAt results (combine ctx results) := by
  have h := over_foldl hwf
  have hforward := foldl_forward (m := {}) (by simp [Merged.Forward]) fun r hr => (hwf r hr).forward
  rw [combine, forward_stays hforward]
  generalize results.foldl Merged.absorb {} = m at h
  cases hd : m.deferUntil with
  | none =>
    refine summary_plain h hwf hne (fun _ d expires hd' => ?_) (by simp [Merged.verdict, hd])
    rw [hd] at hd'
    cases hd'
  | some d =>
    cases hw : ctx.windowExpiresAt with
    | none =>
      refine summary_plain h hwf hne (fun _ _ _ _ hw' => ?_) (by simp [Merged.verdict, hd, hw])
      cases hw'
    | some expires =>
      by_cases hlate : m.decision = .defer ∧ expires ≤ d
      · obtain ⟨r, hr, hresults, hv, hterminal⟩ : ∃ r : RuleResult, r.decision = .stop ∧
            (m.verdict ctx results).results = results ++ [r] ∧
            (m.verdict ctx results).decision = .stop ∧
            (m.verdict ctx results).terminalStatus = r.terminalStatus := by
          simp only [Merged.verdict, hd, hw, if_pos hlate]
          exact ⟨⟨.s06RecoveryWindow, .stop, _, _, _, _⟩, rfl, rfl, trivial, rfl⟩
        exact summary_converted h hlate.1 hd hlate.2 hr hresults hv hterminal
      · refine summary_plain h hwf hne (fun hdefer d' expires' hd' hw' => ?_)
          (by simp only [Merged.verdict, hd, hw, if_neg hlate])
        cases Option.some.inj (hd.symm.trans hd')
        cases hw'
        exact DateTime.not_le.mp fun hle => hlate ⟨hdefer, hle⟩

/-! ## The twelve rules -/

/-- S-09 has a release time that `datetime.replace` refuses. -/
def ReleaseRefused (ctx : StoppingContext) : Prop :=
  ctx.isOutboundContact = true ∧
    inQuietHours ctx.nowUtc ctx.policy.quietHoursStartIst ctx.policy.quietHoursEndIst = true ∧
    ¬(0 ≤ ctx.policy.quietHoursEndIst ∧ ctx.policy.quietHoursEndIst < 24 ∧
      0 ≤ ctx.policy.quietHoursReleaseMinute ∧ ctx.policy.quietHoursReleaseMinute < 60)

instance (ctx : StoppingContext) : Decidable (ReleaseRefused ctx) := by
  unfold ReleaseRefused; infer_instance

/-- S-09 answers unless its release is refused. -/
theorem s09_isOk_iff (ctx : StoppingContext) :
    (∃ quiet, s09QuietHours ctx = .ok quiet) ↔ ¬ReleaseRefused ctx := by
  unfold s09QuietHours ReleaseRefused
  split
  · next h => simp_all
  · next hout =>
    split
    · next h => simp_all
    · next hin =>
      have hquiet : inQuietHours ctx.nowUtc ctx.policy.quietHoursStartIst
          ctx.policy.quietHoursEndIst = true := by simpa using hin
      have houtbound : ctx.isOutboundContact = true := by simpa using hout
      simp only [houtbound, hquiet, true_and, not_not]
      unfold nextQuietHoursRelease DateTime.replaceTime
      simp only [hquiet, Bool.not_true, Bool.false_eq_true, if_false]
      split
      · next hnone =>
        refine iff_of_false (by simp) fun hrange => ?_
        rw [if_pos hrange] at hnone
        cases hnone
      · next release hsome =>
        refine iff_of_true ⟨_, rfl⟩ ?_
        by_contra hrange
        rw [if_neg hrange] at hsome
        cases hsome

/-- Each rule signs its own result. -/
theorem ruleResults_rules {ctx : StoppingContext} {quiet : RuleResult}
    (hquiet : s09QuietHours ctx = .ok quiet) :
    (ruleResults ctx quiet).map (·.rule) = evaluationOrder := by
  have hall : List.Forall₂ (fun rule r => rule = r.rule) evaluationOrder (ruleResults ctx quiet) :=
    (ruleResults_of hquiet).imp fun _ _ hof => hof.signed.symm
  rw [← List.forall₂_map_right_iff] at hall
  exact (List.forall₂_eq_eq_eq ▸ hall).symm

/-- Only S-08 and S-03 degrade. -/
theorem degrades_cases {ctx : StoppingContext} {quiet r : RuleResult}
    (hquiet : s09QuietHours ctx = .ok quiet) (hr : r ∈ ruleResults ctx quiet)
    (hdegrade : r.decision = .degrade) :
    r = s08ConsentClass ctx ∨ r = s03DiscountAttemptBudget ctx := by
  simp only [ruleResults, List.mem_cons, List.not_mem_nil, or_false] at hr
  rcases hr with rfl | rfl | rfl | rfl | rfl | rfl | rfl | rfl | rfl | rfl | rfl | rfl
  · exact absurd hdegrade (s12_ne_degrade ctx)
  · exact absurd hdegrade (s01_ne_degrade ctx)
  · exact absurd hdegrade (s07_ne_degrade ctx)
  · exact absurd hdegrade (s06_ne_degrade ctx)
  · exact absurd hdegrade (s02_ne_degrade ctx)
  · exact absurd hdegrade (s11_ne_degrade ctx)
  · exact absurd hdegrade (s05_ne_degrade ctx)
  · exact .inl rfl
  · exact absurd hdegrade (s10_ne_degrade ctx)
  · exact absurd hdegrade (s04_ne_degrade ctx)
  · exact absurd hdegrade (s09_ne_degrade hquiet)
  · exact .inr rfl

/-- What is stripped is what some degrading result strips. -/
def Degradations.UnionOf (d : Degradations) (results : List RuleResult) : Prop :=
  (∀ q, d.discountPct = some q ↔
      ∃ r ∈ results, r.decision = .degrade ∧ r.degrade.discountPct = some q) ∧
    ∀ c, d.messageClass = some c ↔
      ∃ r ∈ results, r.decision = .degrade ∧ r.degrade.messageClass = some c

theorem evaluate_unionOf {ctx : StoppingContext} {v : StoppingVerdict} {quiet : RuleResult}
    (h : evaluate ctx = .ok v) (hquiet : s09QuietHours ctx = .ok quiet) :
    v.degradations.UnionOf (ruleResults ctx quiet) := by
  have h08 : s08ConsentClass ctx ∈ ruleResults ctx quiet := by simp [ruleResults]
  have h03 : s03DiscountAttemptBudget ctx ∈ ruleResults ctx quiet := by simp [ruleResults]
  rw [evaluate_degradations h]
  constructor
  · intro q
    simp only
    constructor
    · intro hq
      split at hq
      · next hrefused =>
        rcases hrefused with hdiscount | hclass
        · have hdegrade := (s03_eq_degrade_iff ctx).mpr hdiscount
          exact ⟨_, h03, hdegrade, by rw [s03_degrade hdegrade]; exact hq⟩
        · have hdegrade := (s08_eq_degrade_iff ctx).mpr hclass
          exact ⟨_, h08, hdegrade, by rw [s08_degrade hdegrade]; exact hq⟩
      · cases hq
    · rintro ⟨r, hr, hdegrade, hq⟩
      rcases degrades_cases hquiet hr hdegrade with rfl | rfl
      · rw [s08_degrade hdegrade] at hq
        rw [if_pos (.inr ((s08_eq_degrade_iff ctx).mp hdegrade))]
        exact hq
      · rw [s03_degrade hdegrade] at hq
        rw [if_pos (.inl ((s03_eq_degrade_iff ctx).mp hdegrade))]
        exact hq
  · intro c
    simp only
    constructor
    · intro hc
      split at hc
      · next hclass =>
        have hdegrade := (s08_eq_degrade_iff ctx).mpr hclass
        exact ⟨_, h08, hdegrade, by rw [s08_degrade hdegrade]; exact hc⟩
      · cases hc
    · rintro ⟨r, hr, hdegrade, hc⟩
      rcases degrades_cases hquiet hr hdegrade with rfl | rfl
      · rw [s08_degrade hdegrade] at hc
        rw [if_pos ((s08_eq_degrade_iff ctx).mp hdegrade)]
        exact hc
      · rw [s03_degrade hdegrade] at hc
        cases hc

/-! ## What a verdict says -/

/-- **What a verdict is**: the results of the twelve rules, each signed by its rule, and a summary
that fits them. -/
structure VerdictOf (ctx : StoppingContext) (results : List RuleResult) (v : StoppingVerdict) :
    Prop where
  rules : results.map (·.rule) = evaluationOrder
  appear : ∀ rule, ∃ r ∈ v.results, r.rule = rule
  summary : Summary ctx.nowUtc ctx.windowExpiresAt results v
  degradations : v.degradations.UnionOf results

theorem evaluate_isOk_iff (ctx : StoppingContext) :
    (∃ v, evaluate ctx = .ok v) ↔ ¬ReleaseRefused ctx := by
  rw [← s09_isOk_iff]
  unfold evaluate
  cases s09QuietHours ctx with
  | error e => simp [bind, Except.bind]
  | ok quiet => simp [bind, Except.bind, pure, Except.pure]

theorem mem_evaluationOrder (rule : StoppingRule) : rule ∈ evaluationOrder := by
  cases rule <;> decide

theorem evaluate_verdictOf {ctx : StoppingContext} {v : StoppingVerdict} {quiet : RuleResult}
    (h : evaluate ctx = .ok v) (hquiet : s09QuietHours ctx = .ok quiet) :
    VerdictOf ctx (ruleResults ctx quiet) v := by
  have hunion := evaluate_unionOf h hquiet
  obtain ⟨quiet', hquiet', rfl⟩ := evaluate_eq_ok h
  obtain rfl : quiet' = quiet := Except.ok.inj (hquiet'.symm.trans hquiet)
  have hrules := ruleResults_rules hquiet
  have hne : ruleResults ctx quiet' ≠ [] := by simp [ruleResults]
  have hsummary := combine_summary (ruleResults_wellFormed hquiet) hne
  refine ⟨hrules, fun rule => ?_, hsummary, hunion⟩
  have hmem : rule ∈ (ruleResults ctx quiet').map (·.rule) := by
    rw [hrules]
    exact mem_evaluationOrder rule
  obtain ⟨r, hr, hsigned⟩ := List.mem_map.mp hmem
  exact ⟨r, hsummary.carried.subset hr, hsigned⟩

/-- **`evaluate` answers unless S-09 needs a release time there is none of, and every answer is a
verdict on the twelve results.** -/
theorem evaluate_answers (ctx : StoppingContext) :
    ((∃ v, evaluate ctx = .ok v) ↔ ¬ReleaseRefused ctx) ∧
      ∀ v, evaluate ctx = .ok v →
        ∃ quiet, s09QuietHours ctx = .ok quiet ∧ VerdictOf ctx (ruleResults ctx quiet) v := by
  refine ⟨evaluate_isOk_iff ctx, fun v h => ?_⟩
  obtain ⟨quiet, hquiet, -⟩ := evaluate_eq_ok h
  exact ⟨quiet, hquiet, evaluate_verdictOf h hquiet⟩

/-! ## A late evening -/

/-- A contact at 22:00 IST, quiet hours ending at the given hour. -/
def lateEvening (quietHoursEndIst : ℤ) : StoppingContext where
  nowUtc := { utc := 1788366600000000 }
  policy := { quietHoursEndIst }

theorem evaluate_answers_deferral :
    ∃ v, evaluate (lateEvening 9) = .ok v ∧ v.decision = .defer ∧
      ∃ results, VerdictOf (lateEvening 9) results v := by
  have hok := (evaluate_answers (lateEvening 9)).1.mpr (by decide +kernel)
  obtain ⟨v, hv⟩ := hok
  obtain ⟨quiet, hquiet, hof⟩ := (evaluate_answers (lateEvening 9)).2 v hv
  have hdefer : (evaluate (lateEvening 9)).map (·.decision) = .ok .defer := by decide +kernel
  rw [hv] at hdefer
  exact ⟨v, hv, Except.ok.inj hdefer, _, hof⟩

/-- Quiet hours that end at 24 are never released: the evaluation raises. -/
theorem not_evaluate_answers :
    ¬∀ ctx, ∃ v results, evaluate ctx = .ok v ∧ VerdictOf ctx results v := by
  intro h
  obtain ⟨v, -, hv, -⟩ := h (lateEvening 24)
  have hrefused : ReleaseRefused (lateEvening 24) := by decide +kernel
  exact (evaluate_isOk_iff (lateEvening 24)).mp ⟨v, hv⟩ hrefused

end AegisMerchant
