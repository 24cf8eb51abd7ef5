import AegisMerchant.Agent.Passage
import AegisMerchant.Routers.Control
import AegisMerchant.Routers.TestMode

/-!
# What a tightened bound binds

The endpoint only ever lowers the settings. No agent reads them: each is put together with the
default limits, so a case is decided under a tightened bound only where the default decides it so.

`tightenPolicy_atMost` says that bounds only go down, and `Covers.decidedUnder` what two sets of
limits decide alike. `tightened_binds` is the law, `not_tightened_binds` a bound of no contacts at
all.
-/

namespace AegisMerchant

open Time Numeric Prog

namespace Control

/-! ## The settings -/

structure AtMost (after before : PolicyBounds) : Prop where
  maxDiscountPct : after.maxDiscountPct ≤ before.maxDiscountPct
  maxAutonomousAmountPaise : after.maxAutonomousAmountPaise ≤ before.maxAutonomousAmountPaise
  maxContacts48h : after.maxContacts48h ≤ before.maxContacts48h
  dailyActionBudget : after.dailyActionBudget ≤ before.dailyActionBudget

theorem AtMost.refl (settings : PolicyBounds) : AtMost settings settings :=
  ⟨le_refl _, le_refl _, le_refl _, le_refl _⟩

/-- A value below a bound, set in its place. -/
theorem atMost_setattr {settings after : PolicyBounds} (h : AtMost after settings)
    {b : Bound × BoundValue} (hlt : ExtRat.Lt b.2.number (value settings b.1).number) :
    AtMost (setattr after b) settings := by
  obtain ⟨hpct, hamount, hcontacts, hactions⟩ := h
  obtain ⟨bound, x | x⟩ := b
  · cases bound with
    | maxDiscountPct => exact ⟨hpct, hamount, hcontacts, hactions⟩
    | maxAutonomousAmountPaise =>
      exact ⟨hpct, by exact_mod_cast le_of_lt hlt, hcontacts, hactions⟩
    | maxContacts48h => exact ⟨hpct, hamount, by exact_mod_cast le_of_lt hlt, hactions⟩
    | dailyActionBudget => exact ⟨hpct, hamount, hcontacts, by exact_mod_cast le_of_lt hlt⟩
  · cases bound with
    | maxDiscountPct =>
      cases x with
      | fin q => exact ⟨le_of_lt hlt, hamount, hcontacts, hactions⟩
      | nan | posInf | negInf => exact ⟨hpct, hamount, hcontacts, hactions⟩
    | maxAutonomousAmountPaise | maxContacts48h | dailyActionBudget =>
      exact ⟨hpct, hamount, hcontacts, hactions⟩

/-- The values applied are below the bounds they replace. -/
theorem atMost_foldl {settings : PolicyBounds} (changes : Bounds)
    (hlt : ∀ b ∈ changes, ExtRat.Lt b.2.number (value settings b.1).number)
    {after : PolicyBounds} (h : AtMost after settings) :
    AtMost (changes.foldl setattr after) settings := by
  induction changes generalizing after with
  | nil => exact h
  | cons b rest ih =>
    exact ih (fun b' hb' => hlt b' (List.mem_cons_of_mem _ hb'))
      (atMost_setattr h (hlt b List.mem_cons_self))

/-- **One request**: no bound is raised, and nothing is changed by a request that is refused. -/
theorem tightenPolicy_atMost (rt : Runtime) (principal : Principal) (settings : PolicyBounds)
    (body : PolicyRequest) :
    AtMost (tightenPolicy rt principal settings body).1 settings ∧
      (refusal rt settings body ≠ none →
        (tightenPolicy rt principal settings body).1 = settings) := by
  unfold tightenPolicy
  cases refusal rt settings body with
  | some exc => exact ⟨AtMost.refl settings, fun _ => rfl⟩
  | none =>
    refine ⟨atMost_foldl _ (fun b hb => ?_) (AtMost.refl settings), fun h => absurd rfl h⟩
    exact of_decide_eq_true (List.mem_filter.mp hb).2

def tightenAll (rt : Runtime) (settings : PolicyBounds)
    (requests : List (Principal × PolicyRequest)) : PolicyBounds :=
  requests.foldl (fun settings r => (tightenPolicy rt r.1 settings r.2).1) settings

end Control

/-! ## The cases -/

/-- **The cases the API runs**: one at a time in test mode, and those of a batch. -/
inductive RunByApi (rt : Runtime) : AgentDeps Act → RecoveryState → World → Prop
  | recovery (adapter : Adapter Act) (body : TestMode.Request) (parties : TestMode.Parties)
      (now : DateTime) (w : World) :
      RunByApi rt (TestMode.deps adapter) (TestMode.state body parties now) w
  | batch (c : BatchConfig) (corpus : List CorpusRow) (w : World) (turn : Batch.Turn)
      (hturn : turn ∈ Batch.batchTurns rt c corpus w) :
      RunByApi rt (Batch.depsAt c (Batch.caseNow turn.row)) (turn.state c) turn.world

/-- Whatever the API runs is run under the default limits. -/
theorem RunByApi.defaults {rt : Runtime} {deps : AgentDeps Act} {s : RecoveryState} {w : World}
    (h : RunByApi rt deps s w) : deps.stoppingLimits = {} ∧ deps.moneyLimits = {} := by
  cases h with
  | recovery | batch => exact ⟨rfl, rfl⟩

/-- **A case is decided under some settings**: its discount, whether it needs a person's approval, and
when the rules on contacts and on the day's actions stop it. -/
structure DecidedUnder (rt : Runtime) (settings : PolicyBounds) (deps : AgentDeps Act)
    (s : RecoveryState) (w : World) : Prop where
  discount : ∀ a, firewallApplied rt deps s w = some a →
    a.discountPct ≤ settings.maxDiscountPct
  autonomous : ∀ s' v a, entered rt deps .execute .enrich s w = some (s', v) →
    s'.policyApplied = some a → a.amountPaise < settings.maxAutonomousAmountPaise
  contacts : settings.maxContacts48h ≤ s.contacts48h → ∀ now,
    (s05ContactCap48h (stoppingContext s deps.stoppingLimits now)).decision = .stop
  actions : settings.dailyActionBudget ≤ s.actionsToday → ∀ now,
    (s11MerchantBudget (stoppingContext s deps.stoppingLimits now)).decision = .stop

/-- The firewall passes an action for a case, in some arm at some time, on some proposal. -/
def MayPassEver (rt : Runtime) (deps : AgentDeps Act) (s₀ : RecoveryState) (a : AppliedAction) :
    Prop :=
  ∃ moment arm proposal now d,
    evaluatePolicy rt proposal (decidedContext deps moment s₀ arm) now = .ok d ∧
      d.verdict = .passed ∧ d.applied = some a

/-- **The default limits decide a case as the settings would**: each default is at least as tight, or
the case does not come near the bound. -/
structure Covers (rt : Runtime) (settings : PolicyBounds) (deps : AgentDeps Act)
    (s : RecoveryState) : Prop where
  discount : deps.moneyLimits.maxDiscountPct ≤ settings.maxDiscountPct
  /-- The rung of a `NO_ACTION` never needs a person. -/
  amount : s.amountPaise < settings.maxAutonomousAmountPaise ∨
    (deps.moneyLimits.maxAutonomousAmountPaise ≤ settings.maxAutonomousAmountPaise ∧
      ∀ a, MayPassEver rt deps s a → a.strategy ≠ .noAction)
  contacts : s.contacts48h < settings.maxContacts48h ∨
    deps.stoppingLimits.maxContacts48h ≤ settings.maxContacts48h
  actions : s.actionsToday < settings.dailyActionBudget ∨
    deps.stoppingLimits.dailyActionBudget ≤ settings.dailyActionBudget

/-! ## Up to the firewall -/

/-- A rung that needs nobody is below the amount, or does nothing. -/
theorem escalationRung_free {amountPaise : ℤ} {pct : ℚ} {limits : PolicyLimitsFull}
    {clamps : List Clamp} {strategy : RecoveryStrategy}
    (h : (escalationRung amountPaise pct limits clamps strategy).needsHuman = false) :
    strategy = .noAction ∨ amountPaise < limits.maxAutonomousAmountPaise := by
  by_contra hnot
  obtain ⟨hacts, hamount⟩ := not_or.mp hnot
  have hneeds : (escalationRung amountPaise pct limits clamps strategy).needsHuman = true := by
    unfold escalationRung
    rw [if_neg hacts]
    split
    · rfl
    · rw [if_pos (not_lt.mp hamount)]
      rfl
  rw [hneeds] at h
  cases h

/-- What passes without an approval needs nobody's. -/
theorem free_of_passed {rt : Runtime} {proposal : RecoveryProposal} {ctx : PolicyContext}
    {now : DateTime} {d : PolicyDecision} {a : AppliedAction}
    (h : evaluatePolicy rt proposal ctx now = .ok d) (hverdict : d.verdict = .passed)
    (ha : d.applied = some a) (happroved : ctx.approvedActionHash = none) :
    a.escalationRung.needsHuman = false := by
  obtain ⟨v, -, rfl⟩ := evaluatePolicy_eq_ok h
  by_cases hr : hardRefusals ctx v = []
  · simp only [policyDecision, hr, ne_eq, not_true_eq_false, if_false, authorise] at ha hverdict
    split at hverdict
    · cases hverdict
    · next hcond =>
      rw [if_neg hcond] at ha
      cases ha
      refine Bool.eq_false_of_not_eq_true fun hneeds => hcond ⟨hneeds, ?_⟩
      rw [happroved]
      intro hsame
      cases hsame
  · rw [(policyDecision_of_refused rt proposal now hr).1] at hverdict
    cases hverdict

/-- What passes without an approval is below the amount, or does nothing. -/
theorem autonomous_of_passed {rt : Runtime} {proposal : RecoveryProposal} {ctx : PolicyContext}
    {now : DateTime} {d : PolicyDecision} {a : AppliedAction}
    (h : evaluatePolicy rt proposal ctx now = .ok d) (hverdict : d.verdict = .passed)
    (ha : d.applied = some a) (happroved : ctx.approvedActionHash = none) :
    a.amountPaise = ctx.orderAmountPaise ∧
      (a.strategy = .noAction ∨ ctx.orderAmountPaise < ctx.limits.maxAutonomousAmountPaise) := by
  have hfree := free_of_passed h hverdict ha happroved
  obtain ⟨v, hv⟩ := admitted_of_applied h ha
  have hclamped := congrArg Prod.fst hv.clamped
  simp only at hclamped
  subst hclamped
  exact ⟨clampedAction_amount _ _ _ _ _, escalationRung_free hfree⟩

section Decided

variable {rt : Runtime} {deps : AgentDeps Act} {s₀ s : RecoveryState}

/-- What each node is entered with. -/
def DecidedAt (rt : Runtime) (deps : AgentDeps Act) (s₀ : RecoveryState) :
    Node → RecoveryState → Prop
  | .enrich, s | .triage, s => Carries s₀ s
  | .diagnose, s | .strategise, s => Carries s₀ s ∧ ∃ arm, s.experimentArm = some arm
  | .policy, s =>
    Carries s₀ s ∧ (∃ arm, s.experimentArm = some arm) ∧ s.status = .strategyFormed
  | .execute, s => ∃ a, s.policyApplied = some a ∧ MayPassEver rt deps s₀ a
  | .escalate, _ | .audit, _ => True

/-- POLICY decides on the case as it was from its start. -/
theorem decidedAt_context (h : DecidedAt rt deps s₀ .policy s) :
    ∃ arm, ∀ moment, policyContext s deps.stoppingLimits deps.moneyLimits moment =
      decidedContext deps moment s₀ arm := by
  obtain ⟨hcarries, ⟨arm, harm⟩, hstatus⟩ := h
  refine ⟨arm, fun moment => ?_⟩
  have hsame := hcarries.context s.status s.experimentArm deps.stoppingLimits deps.moneyLimits
    moment
  rw [hstatus, harm] at hsame
  rw [decidedContext, ← hsame, ← hstatus, ← harm]

/-- What a node hands on, if it returns. -/
theorem decidedAt_of_returned {node : Node} {p : Act RecoveryState}
    (h : p.All (fun _ => True) (IfReturned fun s' =>
      ∀ next, nextNode node s' = some next → DecidedAt rt deps s₀ next s')) :
    p.All (fun _ => True) fun r =>
      ∀ s' next, r = .ok s' → nextNode node s' = some next → DecidedAt rt deps s₀ next s' := by
  refine h.mono (fun _ hc => hc) fun r hr => ?_
  rintro s' next rfl hnext
  exact hr next hnext

/-- **What each node hands on.** -/
theorem decidedAt_runNode (node : Node) (h : DecidedAt rt deps s₀ node s) :
    (runNode rt deps node s).All (fun _ => True) fun r =>
      ∀ s' next, r = .ok s' → nextNode node s' = some next → DecidedAt rt deps s₀ next s' := by
  apply decidedAt_of_returned
  cases node with
  | enrich =>
    have hcarries : Carries s₀ s := h
    refine (all_returned _).next fun _ _ => ?_
    rintro next ⟨⟩
    exact ⟨hcarries.caseId, hcarries.context⟩
  | triage =>
    have hcarries : Carries s₀ s := h
    refine (all_returned _).next fun _ _ => (all_returned _).next fun verdict _ =>
      (all_returned _).next fun assignment _ => (all_returned _).next fun _ _ => ?_
    -- a case TRIAGE suppresses ends there; any other carries the arm it drew
    have hnext : ∀ s', Carries s₀ s' → s'.experimentArm = some assignment.arm →
        ∀ next, nextNode .triage s' = some next → DecidedAt rt deps s₀ next s' := by
      rintro s' hcarries harm next ⟨⟩
      split
      · trivial
      · exact ⟨hcarries, assignment.arm, harm⟩
    split
    · exact hnext _ ⟨hcarries.caseId, hcarries.context⟩ rfl
    · exact hnext _ ⟨hcarries.caseId, hcarries.context⟩ rfl
  | diagnose =>
    refine (all_returned _).next fun _ _ => (all_returned _).next fun _ _ => ?_
    rintro next ⟨⟩
    exact ⟨⟨h.1.caseId, h.1.context⟩, h.2⟩
  | strategise =>
    refine (all_returned _).next fun _ _ => (all_returned _).next fun _ _ => ?_
    rintro next ⟨⟩
    exact ⟨⟨h.1.caseId, h.1.context⟩, h.2, rfl⟩
  | policy =>
    obtain ⟨arm, hcontext⟩ := decidedAt_context h
    refine (decided_policy rt deps s).mono (fun _ hc => hc) fun r hr => ?_
    cases r with
    | error e => trivial
    | ok s' =>
      obtain ⟨now, now', d, hd, hverdict, happlied, htoken, -⟩ := hr
      intro next hnext
      simp only [nextNode, hverdict] at hnext
      split at hnext
      · next hpassed =>
        cases hnext
        -- the token names the action the decision applied
        have hpassed := Option.some.inj hpassed
        obtain ⟨hiff, hsigned⟩ := evaluatePolicy_token hd
        obtain ⟨token, htok⟩ := Option.isSome_iff_exists.mp (hiff.mp hpassed)
        have ha := (hsigned token htok).1
        rw [hcontext now] at hd
        exact ⟨token.applied, happlied.trans ha, now, arm, _, now', d, hd, hpassed, ha⟩
      · cases hnext
        trivial
      · cases hnext
        trivial
  | execute | escalate =>
    refine (all_returned _).mono (fun _ hc => hc) fun r _ => ?_
    cases r with
    | error e => trivial
    | ok s' =>
      rintro next ⟨⟩
      trivial
  | audit =>
    refine (all_returned _).mono (fun _ hc => hc) fun r _ => ?_
    cases r with
    | error e => trivial
    | ok s' =>
      rintro next ⟨⟩

/-- What the firewall applies in a run is within the limits on discounts. -/
theorem firewallApplied_pct_le {w : World} {a : AppliedAction} (hsound : deps.moneyLimits.Sound)
    (h : firewallApplied rt deps s w = some a) : a.discountPct ≤ deps.moneyLimits.maxDiscountPct := by
  unfold firewallApplied at h
  split at h
  · cases h
  · split at h
    · next s' v hentered =>
      have hdecided := (decided_policy rt deps s').run (H := World.handler) v
      split at h
      · next s'' u hrun =>
        rw [hrun] at hdecided
        obtain ⟨now, now', d, hd, -, happlied, -⟩ := hdecided
        obtain ⟨v', hv⟩ := admitted_of_applied hd (happlied.symm.trans h)
        exact (hv.withinBounds hsound).pct_le
      · cases h
    · cases h

/-- What EXECUTE is entered with, the firewall may pass. -/
theorem mayPassEver_of_entered {w v : World} {s' : RecoveryState} {a : AppliedAction}
    (h : entered rt deps .execute .enrich s w = some (s', v)) (ha : s'.policyApplied = some a) :
    MayPassEver rt deps s a := by
  have hstart : DecidedAt rt deps s .enrich s := Carries.mk rfl fun _ _ _ _ _ => rfl
  have hat : DecidedAt rt deps s .execute s' :=
    entered_of_inv (I := DecidedAt rt deps s) (P := fun _ => True)
      (fun node _ hnode => decidedAt_runNode node hnode) hstart h
  obtain ⟨a', happlied, hpass⟩ := hat
  obtain rfl : a = a' := Option.some.inj (ha.symm.trans happlied)
  exact hpass

/-- **Where the default limits decide a case as the settings would, it is decided under the
settings.** -/
theorem Covers.decidedUnder {settings : PolicyBounds} (h : Covers rt settings deps s)
    (hsound : deps.moneyLimits.Sound) (w : World) : DecidedUnder rt settings deps s w where
  discount a ha := (firewallApplied_pct_le hsound ha).trans h.discount
  autonomous s' v a hentered happlied := by
    have hpass := mayPassEver_of_entered hentered happlied
    obtain ⟨moment, arm, proposal, now, d, hd, hpassed, ha⟩ := id hpass
    obtain ⟨hamount, hfree⟩ := autonomous_of_passed hd hpassed ha rfl
    -- the amount of the action is the amount of the case
    have horder : a.amountPaise = s.amountPaise := hamount
    rw [horder]
    rcases h.amount with hbelow | ⟨hdefault, hacts⟩
    · exact hbelow
    · rcases hfree with hno | hlt
      · exact absurd hno (hacts a hpass)
      · exact lt_of_lt_of_le hlt hdefault
  contacts hreached now := by
    -- the contact cap has been reached under the default limits too
    have hcap : deps.stoppingLimits.maxContacts48h ≤ s.contacts48h := by
      rcases h.contacts with hbelow | hdefault
      · omega
      · omega
    unfold s05ContactCap48h stoppingContext
    simp [hcap]
  actions hreached now := by
    have hcap : deps.stoppingLimits.dailyActionBudget ≤ s.actionsToday := by
      rcases h.actions with hbelow | hdefault
      · omega
      · omega
    unfold s11MerchantBudget stoppingContext
    simp [hcap]

end Decided

/-! ## The bounds a request leaves -/

/-- **What tightening is for**: no request raises a bound, a refused one changes none, and every case
run afterwards is decided under the settings. -/
structure Binds (rt : Runtime) (settings : PolicyBounds)
    (requests : List (Principal × PolicyRequest)) (deps : AgentDeps Act) (s : RecoveryState)
    (w : World) : Prop where
  tightens : ∀ before request after, requests = before ++ request :: after →
    Control.AtMost (Control.tightenAll rt settings (before ++ [request]))
      (Control.tightenAll rt settings before)
  refused : ∀ before request after, requests = before ++ request :: after →
    Control.refusal rt (Control.tightenAll rt settings before) request.2 ≠ none →
      Control.tightenAll rt settings (before ++ [request]) = Control.tightenAll rt settings before
  decided : DecidedUnder rt (Control.tightenAll rt settings requests) deps s w

/-- One more request. -/
theorem tightenAll_concat (rt : Runtime) (settings : PolicyBounds)
    (before : List (Principal × PolicyRequest)) (request : Principal × PolicyRequest) :
    Control.tightenAll rt settings (before ++ [request]) =
      (Control.tightenPolicy rt request.1 (Control.tightenAll rt settings before) request.2).1 := by
  simp [Control.tightenAll]

/-- **Tightened settings bind the cases the default limits decide alike.** -/
theorem tightened_binds (rt : Runtime) (settings : PolicyBounds)
    (requests : List (Principal × PolicyRequest)) {deps : AgentDeps Act} {s : RecoveryState}
    {w : World} (hrun : RunByApi rt deps s w)
    (hcovers : Covers rt (Control.tightenAll rt settings requests) deps s) :
    Binds rt settings requests deps s w where
  tightens before request after _ := by
    rw [tightenAll_concat]
    exact (Control.tightenPolicy_atMost _ _ _ _).1
  refused before request after _ hrefused := by
    rw [tightenAll_concat]
    exact (Control.tightenPolicy_atMost _ _ _ _).2 hrefused
  decided := by
    refine hcovers.decidedUnder ?_ w
    rw [hrun.defaults.2]
    exact defaultLimits_sound

/-! ## A request that binds -/

/-- An adapter that is never asked to answer. -/
def silentAdapter : Adapter Act := fun _ _ =>
  return { output := .other, source := .deterministic }

def smallestPayment : TestMode.Request where
  amount_mem := by decide

def someParties : TestMode.Parties where
  merchant := { id := "mch_1" }
  customer := { id := "cus_1", merchantId := "mch_1" }
  firstName := "Asha"

def smallestCase : RecoveryState :=
  TestMode.state smallestPayment someParties { utc := 8 * hour }

/-- A ceiling of five thousand rupees, one contact and ten actions. -/
def tightRequest : PolicyRequest where
  maxAutonomousAmountPaise := some 500000
  maxContacts48h := some 1
  dailyActionBudget := some 10

def noContacts : PolicyRequest where
  maxContacts48h := some 0

def operator : Principal where
  name := "ops"

theorem smallestCase_runByApi (w : World) :
    RunByApi plainRuntime (TestMode.deps silentAdapter) smallestCase w :=
  .recovery _ _ _ _ w

/-- Bounds it does not come near bind it. -/
theorem tightened_binds_smallest :
    Binds plainRuntime {} [(operator, tightRequest)] (TestMode.deps silentAdapter) smallestCase
      (worldOf oneCase) := by
  refine tightened_binds plainRuntime {} _ (smallestCase_runByApi _) ?_
  exact ⟨by decide, .inl (by decide), .inl (by decide), .inl (by decide)⟩

/-- A bound of no contacts does not. -/
theorem not_tightened_binds :
    ¬∀ (rt : Runtime) (settings : PolicyBounds) (requests : List (Principal × PolicyRequest))
      (deps : AgentDeps Act) (s : RecoveryState) (w : World), RunByApi rt deps s w →
        Binds rt settings requests deps s w := by
  intro h
  have hbinds := h plainRuntime {} [(operator, noContacts)]
    (TestMode.deps silentAdapter) smallestCase (worldOf oneCase) (smallestCase_runByApi _)
  have hstops := hbinds.decided.contacts (by decide) { utc := 8 * hour }
  cases hstops

end AegisMerchant
