import AegisMerchant.Services.RecoveryReport
import AegisMerchant.Tools.Outbox

/-!
# What the report leaves out

The report takes off what its outcomes say was given away and what their inference cost. The query
that builds the outcomes says neither, so what is taken off is nothing.

`report_costless` says what the report is made from, `costsCounted_iff` when that is enough, and
`Books.not_costsCounted` is a recovery that cost something.
-/

namespace AegisMerchant

open Numeric

/-! ## The report of some outcomes -/

/-- Whatever its notes say, the figures of a report are those of its population. -/
theorem recoveryReport_eq_build (texts : ReportTexts) (outcomes : List CaseOutcome) :
    ∃ excluded notes, recoveryReport texts outcomes =
      let measured := outcomes.filter fun o => !o.isDemo
      buildReport (measured.filter fun o => o.arm = .treatment)
        (measured.filter fun o => o.arm = .control) measured excluded notes := by
  unfold recoveryReport
  simp only
  split
  · exact ⟨_, _, rfl⟩
  · exact ⟨_, _, rfl⟩

/-- A column that is nought everywhere sums to nought. -/
theorem sum_map_eq_zero {α : Type} {xs : List α} {f : α → ℤ} (h : ∀ x ∈ xs, f x = 0) :
    (xs.map f).sum = 0 := by
  apply List.sum_eq_zero
  intro n hn
  obtain ⟨x, hx, rfl⟩ := List.mem_map.mp hn
  exact h x hx

/-- A column that is nowhere negative sums to nought exactly when it is nought everywhere. -/
theorem sum_map_eq_zero_iff {α : Type} {xs : List α} {f : α → ℤ} (hnonneg : ∀ x ∈ xs, 0 ≤ f x) :
    (xs.map f).sum = 0 ↔ ∀ x ∈ xs, f x = 0 := by
  induction xs with
  | nil => simp
  | cons x rest ih =>
    rw [List.forall_mem_cons] at hnonneg
    obtain ⟨hx, hrest⟩ := hnonneg
    have hsum : 0 ≤ (rest.map f).sum := by
      apply List.sum_nonneg
      intro n hn
      obtain ⟨y, hy, rfl⟩ := List.mem_map.mp hn
      exact hrest y hy
    rw [List.map_cons, List.sum_cons, List.forall_mem_cons, ← ih hrest]
    omega

namespace Books

variable (b : Books)

/-! ## What was given away -/

/-- The measured cases: every one that is not a demo. -/
def measured : List CaseRow := b.db.tables.cases.filter fun c => !(b.columns c.id).isDemo

def credited : List CaseRow :=
  b.measured.filter fun c =>
    (b.armOf c.id).getD .treatment = .treatment && c.recoveryVerifiedBy.isSome

def discountsGiven : ℤ :=
  ((b.db.tables.actions.filter fun a => a.caseId ∈ b.credited.map (·.id)).map
    (·.discountAmountPaise)).sum

def measuredCalls : List LLMCallRow :=
  b.llmCalls.filter fun call => ∃ i ∈ call.caseId, i ∈ b.measured.map (·.id)

/-- What those are projected to cost. -/
def inferenceProjected (projected : LLMCallRow → ℕ) : ℤ :=
  (b.measuredCalls.map fun call => (projected call : ℤ)).sum

/-- **The report subtracts what was given away**: the discounts of the recovered cases, and what the
calls for the measured cases are projected to cost. -/
structure CostsCounted (texts : ReportTexts) (projected : LLMCallRow → ℕ) : Prop where
  discounts : (recoveryReport texts b.outcomes).discountCostPaise = b.discountsGiven
  inference : (recoveryReport texts b.outcomes).inferenceCostMicroInr =
    b.inferenceProjected projected
  net : (recoveryReport texts b.outcomes).netIncrementalPaise =
    (recoveryReport texts b.outcomes).incrementalRevenuePaise - b.discountsGiven -
      b.inferenceProjected projected / 10000

/-- Nothing was given away: no action of a recovered case had a discount, and no call for a measured
case is projected to cost anything. -/
structure GaveNothing (projected : LLMCallRow → ℕ) : Prop where
  discounts : ∀ a ∈ b.db.tables.actions, a.caseId ∈ b.credited.map (·.id) →
    a.discountAmountPaise = 0
  calls : ∀ call ∈ b.measuredCalls, projected call = 0

/-! ## What the query fills in -/

theorem outcomes_costless {o : CaseOutcome} (h : o ∈ b.outcomes) :
    o.discountPaise = 0 ∧ o.inferenceMicroInr = 0 := by
  obtain ⟨case, -, rfl⟩ := List.mem_map.mp h
  exact ⟨rfl, rfl⟩

/-- **The report of the database has no costs**, whatever the database holds. -/
theorem report_costless (texts : ReportTexts) :
    (recoveryReport texts b.outcomes).discountCostPaise = 0 ∧
      (recoveryReport texts b.outcomes).inferenceCostMicroInr = 0 := by
  obtain ⟨excluded, notes, heq⟩ := recoveryReport_eq_build texts b.outcomes
  rw [heq]
  constructor
  · apply sum_map_eq_zero
    intro o ho
    have ho := (List.mem_filter.mp ho).1
    have ho := (List.mem_filter.mp ho).1
    exact (b.outcomes_costless (List.mem_filter.mp ho).1).1
  · apply sum_map_eq_zero
    intro o ho
    exact (b.outcomes_costless (List.mem_filter.mp ho).1).2

theorem discountsGiven_eq_zero_iff : b.discountsGiven = 0 ↔
    ∀ a ∈ b.db.tables.actions, a.caseId ∈ b.credited.map (·.id) → a.discountAmountPaise = 0 := by
  unfold discountsGiven
  rw [sum_map_eq_zero_iff]
  · simp only [List.mem_filter, decide_eq_true_eq, and_imp]
  · intro a ha
    exact (b.db.valid.action_discount a (List.mem_filter.mp ha).1).2

theorem inferenceProjected_eq_zero_iff (projected : LLMCallRow → ℕ) :
    b.inferenceProjected projected = 0 ↔ ∀ call ∈ b.measuredCalls, projected call = 0 := by
  unfold inferenceProjected
  rw [sum_map_eq_zero_iff fun call _ => Int.natCast_nonneg _]
  simp

/-- **The report subtracts what was given away exactly when nothing was**, whichever way the calls
are priced: as they were stored, or at the published rates. -/
theorem costsCounted_iff (texts : ReportTexts) (projected : LLMCallRow → ℕ) :
    b.CostsCounted texts projected ↔ b.GaveNothing projected := by
  obtain ⟨hdiscount, hinference⟩ := b.report_costless texts
  constructor
  · intro h
    refine ⟨b.discountsGiven_eq_zero_iff.mp ?_, (b.inferenceProjected_eq_zero_iff _).mp ?_⟩
    · exact h.discounts.symm.trans hdiscount
    · exact h.inference.symm.trans hinference
  · intro h
    have hgiven := b.discountsGiven_eq_zero_iff.mpr h.discounts
    have hprojected := (b.inferenceProjected_eq_zero_iff projected).mpr h.calls
    refine ⟨hdiscount.trans hgiven.symm, hinference.trans hprojected.symm, ?_⟩
    rw [RecoveryReport.netIncrementalPaise, hdiscount, hinference, hgiven, hprojected]

end Books

/-! ## A discounted recovery -/

/-- One treated case, recovered by a webhook on a link with a tenth off, after one call to the
model. -/
def discountedRecovery : Books where
  columns := fun _ => { idempotencyHash := "h" }
  assignments := [
    { caseId := "RC-0001", experimentKey := "revpilot_recovery_v1", arm := .treatment
      assignmentHash := "ffff" }]
  llmCalls := [
    { id := "llm_1", caseId := some "RC-0001", inputTokens := 1000, outputTokens := 100
      projectedCostMicroInr := 9800 }]
  db :=
    { tables :=
        { oneCase.tables with
          cases := [
            { id := "RC-0001", merchantId := "mch_1", customerId := "cus_1"
              playbook := .paymentFailure, status := .recovered, amountPaise := 250000
              recoveredAmountPaise := 225000, recoveryVerifiedBy := some "evt_1"
              recoveryVerifiedVia := some .webhook, windowExpiresAt := { utc := 0 } }]
          actions := [
            { id := "act_1", caseId := "RC-0001", attemptNo := 1, actionType := .createPaymentLink
              discountPctApplied := 10, discountAmountPaise := 25000
              executedAt := { utc := 0 } }] }
      valid := by decide +kernel }

/-- **It counts as free.** -/
theorem Books.not_costsCounted :
    ¬∀ (b : Books) (texts : ReportTexts),
      b.CostsCounted texts (·.projectedCostMicroInr) := by
  intro h
  have hdiscounts := (h discountedRecovery ⟨fun _ _ => false, fun _ => ""⟩).discounts
  rw [(discountedRecovery.report_costless _).1] at hdiscounts
  revert hdiscounts
  decide +kernel

end AegisMerchant
