import AegisMerchant.Agent.Passage
import AegisMerchant.Agent.Unsettled
import AegisMerchant.Workers.BatchStore

/-!
# What the batch records of a case

The record a turn of the loop stores: whose row it is, and what it says of the money.

`all_runRow_sound` says that what a turn records is sound.
-/

namespace AegisMerchant

open Time

/-- The model of a batch reads the clock and asks its provider, and nothing else. -/
def BatchConfig.Thinks (c : BatchConfig) : Prop :=
  ∀ complete, c.adapter = some complete → ∀ task context,
    (complete task context).All Cmd.Thinks fun _ => True

/-- **The record of a case**: its row proves a recovery exactly when it has one, of the whole
amount; a case held as control is neither monitored nor proven; and what goes with it is about
it. -/
structure BatchRecord.Sound (id : String) (row : CorpusRow) (playbook : Playbook)
    (r : BatchRecord) : Prop where
  caseId : r.case.id = id
  playbook : r.case.playbook = playbook
  amount : r.case.amountPaise = row.amountPaise
  proven : r.case.status = .recovered ↔ r.case.recoveryVerifiedBy.isSome = true
  whole : r.case.recoveryVerifiedBy.isSome = true → r.case.recoveredAmountPaise = r.case.amountPaise
  unproven : r.case.recoveryVerifiedBy = none → r.case.recoveredAmountPaise = 0
  held : r.arm = .control → r.case.status ≠ .monitoring ∧ r.case.recoveryVerifiedBy = none
  observed : r.case.observedReferenceId = none
  approval : ∀ a ∈ r.approval, a.caseId = id
  action : ∀ a ∈ r.action, a.caseId = id ∧ a.outboxId = none ∧ 0 ≤ a.discountPctApplied ∧
    0 ≤ a.discountAmountPaise
  event : r.event.caseId = some id

namespace Batch

variable {rt : Runtime} {c : BatchConfig} {now : DateTime}

theorem depsAt_thinks (h : c.Thinks) (moment : DateTime) : (depsAt c moment).Thinks where
  now := trivial
  adapter := h

/-- What is written of a case the run left unsettled. -/
theorem settlement_spec {final : RecoveryState} (hopen : final.status ≠ .recovered) (id : String)
    (paid : Bool) :
    let (status, verifiedBy, amount) := settlement final id paid
    (status = .recovered ↔ verifiedBy.isSome = true) ∧
      (verifiedBy.isSome = true → amount = final.amountPaise ∧ acted final = true) ∧
      (verifiedBy = none → amount = 0) ∧ (status = .monitoring → final.status = .monitoring) := by
  unfold settlement
  cases paid with
  | true =>
    cases hacted : acted final with
    | true => simp
    | false => simp
  | false =>
    by_cases horganic : final.status = .resolvedOrganic
    · simp [horganic]
    · simp [horganic, hopen]

theorem sound_caseRow {final : RecoveryState} {row : CorpusRow} (playbook : Playbook) (id : String)
    (paid : Bool) (now : DateTime) (hopen : final.status ≠ .recovered)
    (hamount : final.amountPaise = row.amountPaise) :
    let case := caseRow final row playbook id paid now
    (case.status = .recovered ↔ case.recoveryVerifiedBy.isSome = true) ∧
      (case.recoveryVerifiedBy.isSome = true →
        case.recoveredAmountPaise = row.amountPaise ∧ acted final = true) ∧
      (case.recoveryVerifiedBy = none → case.recoveredAmountPaise = 0) ∧
      (case.status = .monitoring → final.status = .monitoring) := by
  have hspec := settlement_spec hopen id paid
  rw [hamount] at hspec
  exact hspec

/-- The approval of a record is about its case. -/
theorem all_approvalFor (final : RecoveryState) (case : CaseRow) (now : DateTime) :
    (approvalFor rt final case now).All Cmd.Reads
      (Prog.IfReturned fun approval => ∀ a ∈ approval, a.caseId = case.id) := by
  unfold approvalFor
  split
  · refine ⟨trivial, fun hex => ?_⟩
    intro a ha
    obtain rfl := Option.some.inj ha
    rfl
  · intro a ha
    cases ha

/-- The action of a record is about its case, and what it gives away is no less than nothing. -/
theorem all_actionFor_sound {final : RecoveryState} (id : String) (now : DateTime)
    (hpassed : final.status = .monitoring → ∃ a, final.policyApplied = some a ∧
      0 ≤ a.discountPct ∧ 0 ≤ a.discountAmountPaise) :
    (actionFor final id now).All Cmd.Reads
      (Prog.IfReturned fun action => ∀ a ∈ action, a.caseId = id ∧ a.outboxId = none ∧
        0 ≤ a.discountPctApplied ∧ 0 ≤ a.discountAmountPaise) := by
  unfold actionFor
  split
  · next proposal hacted _ =>
    have hmonitored : final.status = .monitoring := by
      simp only [acted, Bool.and_eq_true, decide_eq_true_eq] at hacted
      exact hacted.2
    obtain ⟨applied, happlied, hpct, hpaise⟩ := hpassed hmonitored
    refine ⟨trivial, fun hex => ?_⟩
    intro a ha
    obtain rfl := Option.some.inj ha
    refine ⟨rfl, rfl, ?_, ?_⟩
    · simpa [actionRow, happlied] using hpct
    · simpa [actionRow, happlied] using hpaise
  · intro a ha
    cases ha

/-- **One turn of the loop commits nothing, and adds one sound record.** -/
theorem all_runRow_sound (hthinks : c.Thinks) (tally : BatchTally) (row : CorpusRow)
    (playbook : Playbook) :
    (runRow rt c now tally row playbook).All Cmd.Reads (Prog.IfReturned fun tally' => ∃ r,
      tally'.records = tally.records ++ [r] ∧ tally'.created = tally.created + 1 ∧
        r.Sound (caseId (tally.created + 1)) row playbook) := by
  have hthought : (runCase rt (stateOf c tally row playbook (caseId (tally.created + 1)))
      (depsAt c (caseNow row))).All Cmd.Thinks fun _ => True :=
    thinks_runCase (depsAt_thinks hthinks (caseNow row)) rfl _
  have hrun := hthought.and
    ((unsettled_runCase rfl rfl (by simp [stateOf])).and (passage_runCase rfl rfl))
  refine (hrun.mono (fun c hc => hc.1.reads) fun _ hr => hr.2).bind (fun final hfinal => ?_)
    fun _ _ => trivial
  obtain ⟨⟨hunsettled, hheld⟩, hpassed⟩ := hfinal
  have hspec := sound_caseRow playbook (caseId (tally.created + 1))
    (c.draws tally.created <
      baselineSelfRecovery + (if acted final then treatedUplift playbook else 0))
    now hunsettled.unrecovered hunsettled.amount
  have hdiscount : final.status = .monitoring → ∃ a, final.policyApplied = some a ∧
      0 ≤ a.discountPct ∧ 0 ≤ a.discountAmountPaise := by
    intro hmonitored
    obtain ⟨a, happlied, hpass⟩ := hpassed hmonitored
    obtain ⟨proposal, ctx, clamps, -, hwithin⟩ := hpass.withinBounds defaultLimits_sound
    exact ⟨a, happlied, hwithin.pct_nonneg, hwithin.paise_nonneg⟩
  refine Prog.All.bind (R := Prog.IfReturned fun r : BatchRecord =>
    r.Sound (caseId (tally.created + 1)) row playbook) ?_ (fun r hr => ?_) fun _ _ => trivial
  · unfold record
    refine (Act.all_liftExcept.mpr trivial : Prog.All _ (fun _ => True) _).bind
      (fun assignment _ => ?_) fun _ _ => trivial
    refine (all_approvalFor _ _ _).bind (fun approval happroval => ?_) fun _ _ => trivial
    refine (all_actionFor_sound _ _ hdiscount).bind (fun action haction => ?_) fun _ _ => trivial
    apply (Prog.all_pure _).mpr
    exact
      { caseId := rfl
        playbook := rfl
        amount := rfl
        proven := hspec.1
        whole := fun hproof => (hspec.2.1 hproof).1
        unproven := hspec.2.2.1
        held := by
          intro harm
          have hcontrol : final.experimentArm = some .control := by
            change final.experimentArm.getD .treatment = .control at harm
            cases h : final.experimentArm with
            | none => simp [h] at harm
            | some arm =>
              rw [h] at harm
              exact congrArg some harm
          have hnot : final.status ≠ .monitoring := hheld hcontrol
          refine ⟨fun hstatus => hnot (hspec.2.2.2 hstatus), ?_⟩
          by_contra hsome
          have hacted := (hspec.2.1 (Option.isSome_iff_ne_none.mpr hsome)).2
          simp [acted, hnot] at hacted
        observed := rfl
        approval := happroval
        action := haction
        event := rfl }
  · apply (Prog.all_pure _).mpr
    exact ⟨r, rfl, rfl, hr⟩

end Batch

end AegisMerchant
