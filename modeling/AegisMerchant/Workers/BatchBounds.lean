import AegisMerchant.Agent.Passage

/-!
# Promises and budgets in the batch

A promise to pay freezes its case from a date the batch never reads, and a budget is compared with
what was spent before an action, under limits the batch leaves behind. What the batch does keep to
is what the firewall may pass in each of its turns.

`all_runRow_adds` is what one turn adds. `frozen_leftAlone` is about promises and
`batch_withinBudgets` about budgets; `not_frozen_leftAlone` and `not_batch_withinBudgets` are the
cases the batch does not see.
-/

namespace AegisMerchant

open Time

/-! ## Promises to pay -/

inductive PromiseStatus where
  | active | honoured | broken
  deriving DecidableEq

/-- `promises_to_pay`. -/
structure PromiseRow where
  caseId : String
  promisedAt : DateTime
  status : PromiseStatus := .active
  deriving DecidableEq

namespace Batch

/-- The cases with an active promise, as `run_batch` reads them. -/
def activePromises (promises : List PromiseRow) : List String :=
  (promises.filter fun p => p.status = .active).map (·.caseId)

/-! ## What a turn stores -/

namespace Turn

variable (rt : Runtime) (c : BatchConfig) (turn : Turn)

def final : Except PyError RecoveryState :=
  ((runCase rt (turn.state c) (depsAt c (caseNow turn.row))).run World.handler turn.world).1

def action : Option RecoveryActionRow :=
  match (runRow rt c turn.now turn.tally turn.row turn.playbook).run World.handler turn.world with
  | (.ok tally, _) => tally.records.getLast?.bind (·.action)
  | (.error _, _) => none

/-- The firewall may pass an action for a turn's case. -/
def MayPass (a : AppliedAction) : Prop :=
  AegisMerchant.MayPass rt (depsAt c (caseNow turn.row)) (caseNow turn.row) (turn.state c) a

/-- What a turn's run ends with. -/
theorem passage : (runCase rt (turn.state c) (depsAt c (caseNow turn.row))).All (fun _ => True)
    (PassageEnds rt (depsAt c (caseNow turn.row)) (caseNow turn.row) (turn.state c)) :=
  passage_runCase rfl rfl

/-- The case is not acted on: its run does not end monitored, and no action is stored for it. -/
structure LeftAlone : Prop where
  notMonitored : ∀ s, turn.final rt c = .ok s → s.status ≠ .monitoring
  actionless : turn.action rt c = none

/-- The case has an active promise that still freezes it at its own time. -/
def Frozen (promises : List PromiseRow) (limits : PolicyLimits) (turn : Turn) : Prop :=
  ∃ p ∈ promises, p.status = .active ∧ p.caseId = caseId (turn.tally.created + 1) ∧
    caseNow turn.row < p.promisedAt.add (limits.promiseFreezeH * hour)

end Turn

section Turns

variable {rt : Runtime} {c : BatchConfig}

/-- What a turn adds to the tally: its record, whose action was passed. -/
structure Adds (rt : Runtime) (c : BatchConfig) (turn : Turn) (tally : BatchTally)
    (action : Option RecoveryActionRow) : Prop where
  stored : tally.records.getLast?.bind (·.action) = action
  actions : ∀ key, tally.actionsByDay key =
    turn.tally.actionsByDay key + if action.isSome ∧ key = dayKey turn.row then 1 else 0
  discounts : ∀ key, tally.discountByMonth key = turn.tally.discountByMonth key +
    if key = monthKey turn.row then (action.map (·.discountAmountPaise)).getD 0 else 0
  passed : ∀ r, action = some r → ∃ a, turn.MayPass rt c a ∧
    r.discountAmountPaise = a.discountAmountPaise

/-- The action recorded of a case: only if it is left monitored, with the discount applied. -/
theorem all_actionFor (final : RecoveryState) (id : String) (now : DateTime) :
    (actionFor final id now).All (fun _ => True) fun r =>
      match r with
      | .ok action => ∀ r, action = some r → final.status = .monitoring ∧
          r.discountAmountPaise = (final.policyApplied.map (·.discountAmountPaise)).getD 0
      | .error _ => True := by
  unfold actionFor
  split
  · next proposal hacted _ =>
    have hmonitored : final.status = .monitoring := by
      simp only [acted, Bool.and_eq_true, decide_eq_true_eq] at hacted
      exact hacted.2
    refine (Prog.all_true _).bind (fun actionId _ => ?_) fun _ _ => trivial
    refine (Prog.all_pure _).mpr fun r hr => ?_
    obtain rfl := Option.some.inj hr
    exact ⟨hmonitored, rfl⟩
  · refine (Prog.all_pure _).mpr fun r hr => ?_
    cases hr

theorem all_record_action (final : RecoveryState) (case : CaseRow) (now : DateTime) :
    (record rt c final case now).All (fun _ => True) fun r =>
      match r with
      | .ok stored => ∀ r, stored.action = some r → final.status = .monitoring ∧
          r.discountAmountPaise = (final.policyApplied.map (·.discountAmountPaise)).getD 0
      | .error _ => True := by
  refine (Prog.all_true _).bind (fun assignment _ => ?_) fun _ _ => trivial
  refine (Prog.all_true _).bind (fun approval _ => ?_) fun _ _ => trivial
  refine (all_actionFor _ _ _).bind (fun action haction => ?_) fun _ _ => trivial
  exact (Prog.all_pure _).mpr haction

/-- **One turn of the loop.** -/
theorem all_runRow_adds (rt : Runtime) (c : BatchConfig) (turn : Turn) :
    (runRow rt c turn.now turn.tally turn.row turn.playbook).All (fun _ => True) fun r =>
      match r with
      | .ok tally => ∃ action, Adds rt c turn tally action
      | .error _ => True := by
  refine (turn.passage rt c).bind (fun final hfinal => ?_) fun _ _ => trivial
  refine (all_record_action _ _ _).bind (fun stored hstored => ?_) fun _ _ => trivial
  refine (Prog.all_pure _).mpr ⟨stored.action, ?_⟩
  -- an action is stored only where the firewall passed it, at its discount
  have hpassed : ∀ r, stored.action = some r → ∃ a, final.policyApplied = some a ∧
      turn.MayPass rt c a ∧ r.discountAmountPaise = a.discountAmountPaise := by
    intro r hr
    obtain ⟨hmonitored, hdiscount⟩ := hstored r hr
    obtain ⟨a, happlied, hpass⟩ := hfinal hmonitored
    rw [happlied] at hdiscount
    exact ⟨a, happlied, hpass, hdiscount⟩
  refine ⟨?_, fun key => rfl, fun key => ?_, fun r hr => ?_⟩
  · simp [addCase]
  · cases haction : stored.action with
    | none => simp [addCase, haction]
    | some r =>
      obtain ⟨a, happlied, -, hdiscount⟩ := hpassed r haction
      simp [addCase, haction, happlied, hdiscount]
  · obtain ⟨a, -, hpass, hdiscount⟩ := hpassed r hr
    exact ⟨a, hpass, hdiscount⟩

/-- A turn that returns adds the action it stores. -/
theorem adds_of_run (turn : Turn) {tally : BatchTally} {v : World}
    (h : (runRow rt c turn.now turn.tally turn.row turn.playbook).run World.handler turn.world =
      (.ok tally, v)) : Adds rt c turn tally (turn.action rt c) := by
  have hadds := (all_runRow_adds rt c turn).run (H := World.handler) turn.world
  rw [h] at hadds
  obtain ⟨action, hadds⟩ := hadds
  have haction : turn.action rt c = action := by
    unfold Turn.action
    rw [h]
    exact hadds.stored
  rwa [haction]

/-- **A case is left alone if the firewall may pass nothing for it.** -/
theorem leftAlone_of_mayPass {turn : Turn} (h : ∀ a, ¬turn.MayPass rt c a) :
    turn.LeftAlone rt c where
  notMonitored s hs hstatus := by
    have hends := (turn.passage rt c).run (H := World.handler) turn.world
    unfold Turn.final at hs
    rw [hs] at hends
    obtain ⟨a, -, hpass⟩ := hends hstatus
    exact h a hpass
  actionless := by
    rcases hrun : (runRow rt c turn.now turn.tally turn.row turn.playbook).run World.handler
      turn.world with ⟨e | tally, v⟩
    · unfold Turn.action
      rw [hrun]
    · rw [Option.eq_none_iff_forall_ne_some]
      intro r hr
      obtain ⟨a, hpass, -⟩ := (adds_of_run turn hrun).passed r hr
      exact h a hpass

/-- **The batch leaves frozen cases alone where the firewall may pass nothing for them**: no rule of
its own sees the date of the promise. -/
theorem frozen_leftAlone (rt : Runtime) (c : BatchConfig) (promises : List PromiseRow)
    (limits : PolicyLimits) (corpus : List CorpusRow) (w : World)
    (h : ∀ turn ∈ batchTurns rt { c with promises := activePromises promises } corpus w,
      turn.Frozen promises limits →
        ∀ a, ¬turn.MayPass rt { c with promises := activePromises promises } a) :
    ∀ turn ∈ batchTurns rt { c with promises := activePromises promises } corpus w,
      turn.Frozen promises limits →
        turn.LeftAlone rt { c with promises := activePromises promises } :=
  fun turn hturn hfrozen => leftAlone_of_mayPass (h turn hturn hfrozen)

end Turns

/-! ## A promise, and a customer who opted out -/

/-- A promise made an hour before the case is evaluated. -/
def promisedBefore : PromiseRow := { caseId := "RC-0001", promisedAt := { utc := 8 * hour } }

/-- A customer who opted out. -/
def optedOutAt (attemptedAt : DateTime) : CorpusRow :=
  { failedAt attemptedAt with consent := { customerId := "cus_1", optedOut := true } }

def promisedBatch : BatchConfig :=
  { treatedBatch with promises := activePromises [promisedBefore] }

instance (promises : List PromiseRow) (limits : PolicyLimits) (turn : Turn) :
    Decidable (turn.Frozen promises limits) := by
  unfold Turn.Frozen
  infer_instance

/-- Who opted out is left alone whatever was promised. -/
theorem frozen_leftAlone_optedOut :
    (onlyTurn (optedOutAt { utc := 8 * hour }) (afternoon oneCase)).Frozen [promisedBefore] {} ∧
      (onlyTurn (optedOutAt { utc := 8 * hour }) (afternoon oneCase)).LeftAlone plainRuntime
        promisedBatch := by
  have hleft := frozen_leftAlone plainRuntime treatedBatch [promisedBefore] {}
    [optedOutAt { utc := 8 * hour }] (afternoon oneCase)
  rw [batchTurns_only plainRuntime _ rfl rfl] at hleft
  have hfrozen : (onlyTurn (optedOutAt { utc := 8 * hour }) (afternoon oneCase)).Frozen
      [promisedBefore] {} := by decide +kernel
  have hends : TriageEnds
      ((onlyTurn (optedOutAt { utc := 8 * hour }) (afternoon oneCase)).state promisedBatch)
      {} (caseNow (optedOutAt { utc := 8 * hour })) := by decide +kernel
  refine ⟨hfrozen, hleft ?_ _ List.mem_cons_self hfrozen⟩
  intro turn hturn _ a hpass
  obtain rfl := List.mem_singleton.mp hturn
  exact hpass.notEnded hends

def statusOf : Except PyError RecoveryState → Option CaseStatus
  | .ok s => some s.status
  | .error _ => none

/-- Anyone else is acted on. -/
theorem not_frozen_leftAlone :
    ¬∀ (rt : Runtime) (c : BatchConfig) (promises : List PromiseRow) (limits : PolicyLimits)
      (corpus : List CorpusRow) (w : World),
      ∀ turn ∈ batchTurns rt { c with promises := activePromises promises } corpus w,
        turn.Frozen promises limits →
          turn.LeftAlone rt { c with promises := activePromises promises } := by
  intro h
  have hleft := h plainRuntime treatedBatch [promisedBefore] {} [failedAt { utc := 8 * hour }]
    (afternoon oneCase)
  rw [batchTurns_only plainRuntime _ rfl rfl] at hleft
  have hstatus : statusOf ((onlyTurn (failedAt { utc := 8 * hour }) (afternoon oneCase)).final
      plainRuntime promisedBatch) = some .monitoring := by decide +kernel
  have hturn := hleft _ List.mem_cons_self (by decide +kernel)
  cases hfinal : (onlyTurn (failedAt { utc := 8 * hour }) (afternoon oneCase)).final
      plainRuntime promisedBatch with
  | error exc =>
    rw [hfinal] at hstatus
    cases hstatus
  | ok s =>
    rw [hfinal] at hstatus
    exact hturn.notMonitored s hfinal (Option.some.inj hstatus)

/-! ## Budgets -/

section Budgets

variable (rt : Runtime) (c : BatchConfig)

/-- How many of some turns acted for a merchant on a day. -/
def actionsOn (key : String × ℤ) (some : List Turn) : ℤ :=
  (some.map fun turn =>
    if (turn.action rt c).isSome ∧ key = dayKey turn.row then (1 : ℤ) else 0).sum

/-- The discounts some turns gave for a merchant in a month. -/
def discountsIn (key : String × ℤ × ℤ) (some : List Turn) : ℤ :=
  (some.map fun turn =>
    if key = monthKey turn.row then ((turn.action rt c).map (·.discountAmountPaise)).getD 0
    else 0).sum

/-- **What a merchant's budgets are for**: after any of its turns, no day has more actions and no
month more discount than the limits. -/
def WithinBudgets (limits : PolicyLimits) (all : List Turn) : Prop :=
  ∀ before, before <+: all →
    (∀ key, actionsOn rt c key before ≤ limits.dailyActionBudget) ∧
      ∀ key, discountsIn rt c key before ≤ limits.monthlyDiscountExposurePaise

/-- Whatever the firewall may pass for a turn's case, the budgets have room for it. -/
def Turn.Affords (limits : PolicyLimits) (turn : Turn) : Prop :=
  ∀ a, turn.MayPass rt c a →
    turn.tally.actionsByDay (dayKey turn.row) < limits.dailyActionBudget ∧
      turn.tally.discountByMonth (monthKey turn.row) + a.discountAmountPaise ≤
        limits.monthlyDiscountExposurePaise

structure BatchTally.Within (limits : PolicyLimits) (tally : BatchTally) : Prop where
  actions : ∀ key, tally.actionsByDay key ≤ limits.dailyActionBudget
  discounts : ∀ key, tally.discountByMonth key ≤ limits.monthlyDiscountExposurePaise

variable {rt c}

/-- One turn that the budgets have room for. -/
theorem within_adds {limits : PolicyLimits} {turn : Turn} {tally : BatchTally}
    {action : Option RecoveryActionRow} (h : BatchTally.Within limits turn.tally)
    (haffords : turn.Affords rt c limits) (hadds : Adds rt c turn tally action) :
    BatchTally.Within limits tally := by
  refine ⟨fun key => ?_, fun key => ?_⟩
  · rw [hadds.actions key]
    split
    · next hacts =>
      obtain ⟨hsome, rfl⟩ := hacts
      obtain ⟨r, hr⟩ := Option.isSome_iff_exists.mp hsome
      obtain ⟨a, hpass, -⟩ := hadds.passed r hr
      -- an action under this key had room left before the turn
      have hroom := (haffords a hpass).1
      omega
    · have hwithin := h.actions key
      omega
  · rw [hadds.discounts key]
    have hwithin := h.discounts key
    split
    · next hkey =>
      subst hkey
      cases haction : action with
      | none => simpa using hwithin
      | some r =>
        obtain ⟨a, hpass, hdiscount⟩ := hadds.passed r haction
        have hroom := (haffords a hpass).2
        simpa [hdiscount] using hroom
    · omega

/-- What a tally and some turns after it come to stays within the limits. -/
def StaysWithin (rt : Runtime) (c : BatchConfig) (limits : PolicyLimits) (tally : BatchTally)
    (before : List Turn) : Prop :=
  (∀ key, tally.actionsByDay key + actionsOn rt c key before ≤ limits.dailyActionBudget) ∧
    ∀ key, tally.discountByMonth key + discountsIn rt c key before ≤
      limits.monthlyDiscountExposurePaise

theorem staysWithin_nil {limits : PolicyLimits} {tally : BatchTally}
    (h : BatchTally.Within limits tally) : StaysWithin rt c limits tally [] := by
  refine ⟨fun key => ?_, fun key => ?_⟩
  · simpa [actionsOn] using h.actions key
  · simpa [discountsIn] using h.discounts key

/-- A turn comes to what it adds to the tally. -/
theorem staysWithin_cons {limits : PolicyLimits} {turn : Turn} {tally : BatchTally}
    {after : List Turn} (hadds : Adds rt c turn tally (turn.action rt c))
    (h : StaysWithin rt c limits tally after) :
    StaysWithin rt c limits turn.tally (turn :: after) := by
  refine ⟨fun key => ?_, fun key => ?_⟩
  · have hafter := h.1 key
    rw [hadds.actions key, add_assoc] at hafter
    simpa [actionsOn] using hafter
  · have hafter := h.2 key
    rw [hadds.discounts key, add_assoc] at hafter
    simpa [discountsIn] using hafter

/-! ## Every prefix of the turns -/

/-- From a tally within the limits on, turns the budgets have room for stay within them. -/
theorem turns_within {limits : PolicyLimits} {now : DateTime} (rows : List CorpusRow)
    (tally : BatchTally) (w : World) (h : BatchTally.Within limits tally)
    (haffords : ∀ turn ∈ turns rt c now tally rows w, turn.Affords rt c limits)
    (before : List Turn) (hbefore : before <+: turns rt c now tally rows w) :
    StaysWithin rt c limits tally before := by
  induction rows generalizing tally w before with
  | nil =>
    obtain rfl : before = [] := List.prefix_nil.mp hbefore
    exact staysWithin_nil h
  | cons row rest ih =>
    rw [turns] at hbefore haffords
    split at hbefore
    · next hplaybook =>
      simp only [hplaybook] at haffords
      exact ih tally w h haffords before hbefore
    · next playbook hplaybook =>
      simp only [hplaybook] at haffords
      split at hbefore
      · obtain rfl : before = [] := List.prefix_nil.mp hbefore
        exact staysWithin_nil h
      · next hlimit =>
        rw [if_neg hlimit] at haffords
        rcases List.prefix_cons_iff.mp hbefore with rfl | ⟨after, rfl, hafter⟩
        · exact staysWithin_nil h
        · rcases hrun : (runRow rt c now tally row playbook).run World.handler w with
            ⟨e | tally', v⟩
          · -- a turn that raises stores nothing, and is the last
            simp only [hrun] at hafter
            obtain rfl : after = [] := List.prefix_nil.mp hafter
            have haction : Turn.action rt c ⟨tally, row, playbook, now, w⟩ = none := by
              unfold Turn.action
              rw [hrun]
            have hnil : StaysWithin rt c limits tally [] := staysWithin_nil h
            simpa [StaysWithin, actionsOn, discountsIn, haction] using hnil
          · simp only [hrun] at hafter haffords
            -- a turn that stores its case goes on to the next row
            have hadds := adds_of_run ⟨tally, row, playbook, now, w⟩ hrun
            have hwithin := within_adds h (haffords _ List.mem_cons_self) hadds
            exact staysWithin_cons hadds (ih tally' v hwithin
              (fun turn hturn => haffords turn (List.mem_cons_of_mem _ hturn)) after hafter)

/-- **The batch keeps to the budgets where they have room for whatever the firewall may pass**: the
rule on budgets sees neither the limits nor the discount to come. -/
theorem batch_withinBudgets (rt : Runtime) (c : BatchConfig) (limits : PolicyLimits)
    (corpus : List CorpusRow) (w : World)
    (hlimits : 0 ≤ limits.dailyActionBudget ∧ 0 ≤ limits.monthlyDiscountExposurePaise)
    (h : ∀ turn ∈ batchTurns rt c corpus w, turn.Affords rt c limits) :
    WithinBudgets rt c limits (batchTurns rt c corpus w) := by
  have hwithin : BatchTally.Within limits {} := ⟨fun _ => hlimits.1, fun _ => hlimits.2⟩
  intro before hbefore
  have hstays : StaysWithin rt c limits {} before := by
    unfold batchTurns at h hbefore
    split at hbefore
    · next now v hnow =>
      simp only [hnow] at h
      exact turns_within corpus {} v hwithin h before hbefore
    · obtain rfl : before = [] := List.prefix_nil.mp hbefore
      exact staysWithin_nil hwithin
  refine ⟨fun key => ?_, fun key => ?_⟩
  · simpa using hstays.1 key
  · simpa using hstays.2 key

end Budgets

/-- No more than the rupee ceiling is given away at once. -/
theorem Turn.MayPass.discount_le {rt : Runtime} {c : BatchConfig} {turn : Turn} {a : AppliedAction}
    (h : turn.MayPass rt c a) : a.discountAmountPaise ≤ 50000 := by
  obtain ⟨proposal, ctx, clamps, hlimits, hwithin⟩ :=
    AegisMerchant.MayPass.withinBounds h defaultLimits_sound
  have hcap := hwithin.paise_le_cap
  rw [hlimits] at hcap
  exact hcap

/-! ## Two cases of one merchant -/

def twoTurns : List Turn :=
  batchTurns plainRuntime treatedBatch
    [failedAt { utc := 8 * hour }, failedAt { utc := 9 * hour }] (afternoon oneCase)

/-- Both are acted on, and before either there is room for what it may give. -/
theorem twoTurns_tallies :
    actionsOn plainRuntime treatedBatch ("mch_1", 0) twoTurns = 2 ∧
      ∀ turn ∈ twoTurns, turn.tally.actionsByDay (dayKey turn.row) ≤ 1 ∧
        turn.tally.discountByMonth (monthKey turn.row) ≤ 50000 := by decide +kernel

theorem batch_withinBudgets_twoCases :
    actionsOn plainRuntime treatedBatch ("mch_1", 0) twoTurns = 2 ∧
      WithinBudgets plainRuntime treatedBatch {} twoTurns := by
  refine ⟨twoTurns_tallies.1, batch_withinBudgets plainRuntime treatedBatch {} _ _ (by decide)
    fun turn hturn a hpass => ?_⟩
  obtain ⟨hactions, hdiscounts⟩ := twoTurns_tallies.2 turn hturn
  have hle := hpass.discount_le
  refine ⟨hactions.trans_lt (by decide), ?_⟩
  show _ ≤ (20000000 : ℤ)
  omega

/-- One case, under a budget of none. -/
theorem not_batch_withinBudgets :
    ¬∀ (rt : Runtime) (c : BatchConfig) (limits : PolicyLimits) (corpus : List CorpusRow)
      (w : World), 0 ≤ limits.dailyActionBudget ∧ 0 ≤ limits.monthlyDiscountExposurePaise →
        WithinBudgets rt c limits (batchTurns rt c corpus w) := by
  intro h
  have hday := (h plainRuntime treatedBatch { dailyActionBudget := 0 }
    [failedAt { utc := 8 * hour }] (afternoon oneCase) (by decide) _ (List.prefix_refl _)).1
    ("mch_1", 0)
  rw [batchTurns_only plainRuntime _ rfl rfl] at hday
  revert hday
  decide +kernel

end Batch

end AegisMerchant
