import AegisMerchant.Base.Numeric
import AegisMerchant.Db.Models

/-!
# What the number means

Gross and incremental recovery over a population of cases, and the ledger of the money that arrived.
Both are read off the same cases, by different columns. Shares and lifts are exact rationals here;
the source has floats.
-/

namespace AegisMerchant

open Numeric

/-! ## What the reports read -/

/-- The columns of a case that only the batch and the reports read. -/
structure CaseColumns where
  attemptId : Option String := none
  idempotencyHash : String := ""
  /-- Demo injections are demonstrations of mechanism, not data points. -/
  isDemo : Bool := false
  deriving DecidableEq, Repr

/-- `experiment_assignments`. -/
structure AssignmentRow where
  caseId : String
  experimentKey : String
  arm : ExperimentArm
  assignmentHash : String
  deriving DecidableEq, Repr

/-- `llm_calls`. -/
structure LLMCallRow where
  id : String
  caseId : Option String
  inputTokens : ℕ := 0
  outputTokens : ℕ := 0
  projectedCostMicroInr : ℕ := 0
  deriving DecidableEq, Repr

/-- What the database holds besides the tables the services write: the other columns of each case,
by its id, the assignments and the model's calls. -/
structure SideTables where
  columns : String → CaseColumns := fun _ => {}
  assignments : List AssignmentRow := []
  llmCalls : List LLMCallRow := []

structure Books extends SideTables where
  db : Database

/-! ## The attribution report -/

structure CaseOutcome where
  caseId : String
  arm : ExperimentArm
  paid : Bool
  amountPaise : ℤ
  /-- Counted recovery. -/
  recovered : Bool := false
  discountPaise : ℤ := 0
  inferenceMicroInr : ℤ := 0
  isDemo : Bool := false
  deriving DecidableEq, Repr

structure ArmStats where
  arm : ExperimentArm
  cases : ℕ
  paid : ℕ
  amountPaise : ℤ
  deriving DecidableEq, Repr

def ArmStats.conversion (a : ArmStats) : ℚ := if a.cases = 0 then 0 else a.paid / a.cases

def ArmStats.meanAmountPaise (a : ArmStats) : ℚ :=
  if a.cases = 0 then 0 else a.amountPaise / a.cases

/-- Gross and incremental, side by side. -/
structure RecoveryReport where
  treatment : ArmStats
  control : ArmStats
  grossRecoveredPaise : ℤ
  discountCostPaise : ℤ
  inferenceCostMicroInr : ℤ
  excludedDemo : ℕ := 0
  notes : List String := []
  deriving DecidableEq, Repr

namespace RecoveryReport

variable (r : RecoveryReport)

def absoluteLift : ℚ := r.treatment.conversion - r.control.conversion

def hasControl : Bool := 0 < r.control.cases

/-- Lift times treated cases times mean treated amount; without a control arm, nothing. -/
def incrementalRevenuePaise : ℤ :=
  if r.hasControl then
    truncInt (r.absoluteLift * r.treatment.cases * r.treatment.meanAmountPaise)
  else 0

/-- What we actually added, after what it cost to add it. -/
def netIncrementalPaise : ℤ :=
  r.incrementalRevenuePaise - r.discountCostPaise - r.inferenceCostMicroInr / 10000

end RecoveryReport

/-- What the notes of a report are written with. -/
structure ReportTexts where
  /-- `two_proportion_test(...).is_significant`. -/
  isSignificant : ArmStats → ArmStats → Bool
  /-- `f"{q:.1%}"`. -/
  percent : ℚ → String

def RecoveryReport.liftIsSignificant (texts : ReportTexts) (r : RecoveryReport) : Bool :=
  r.hasControl && texts.isSignificant r.treatment r.control

def armStats (arm : ExperimentArm) (outcomes : List CaseOutcome) : ArmStats where
  arm
  cases := outcomes.length
  paid := outcomes.countP (·.paid)
  amountPaise := (outcomes.map (·.amountPaise)).sum

/-- `_build`. -/
def buildReport (treatment control measured : List CaseOutcome) (excluded : ℕ)
    (notes : List String) : RecoveryReport where
  treatment := armStats .treatment treatment
  control := armStats .control control
  -- only counted recoveries, and only in the treatment arm
  grossRecoveredPaise := ((treatment.filter (·.recovered)).map (·.amountPaise)).sum
  discountCostPaise := ((treatment.filter (·.recovered)).map (·.discountPaise)).sum
  inferenceCostMicroInr := (measured.map (·.inferenceMicroInr)).sum
  excludedDemo := excluded
  notes

/-- What is said of the population before the lift is looked at. -/
def populationNotes (control : List CaseOutcome) (excluded : ℕ) : List String :=
  (if control = [] then
    ["No control arm in this population: gross recovery is reported, but incremental lift " ++
      "cannot be computed and is not claimed."]
  else if control.length < 30 then
    ["Control arm is " ++ toString control.length ++ " cases. The confidence interval is wide " ++
      "and the lift figure should be read as directional, not conclusive."]
  else []) ++
  (if excluded = 0 then []
  else [toString excluded ++ " demo case(s) excluded from the measurement."])

/-- The caveat on a lift that may be noise. -/
def liftNote (texts : ReportTexts) (draft : RecoveryReport) : String :=
  "The " ++ texts.percent draft.absoluteLift ++ " lift is NOT statistically significant at this " ++
    "sample size (" ++ toString draft.treatment.cases ++ " treated, " ++
    toString draft.control.cases ++ " control): the 95% confidence intervals overlap. " ++
    "Report it as directional."

/-- `recovery_report`: demo injections are excluded. -/
def recoveryReport (texts : ReportTexts) (outcomes : List CaseOutcome) : RecoveryReport :=
  let excluded := outcomes.countP (·.isDemo)
  let measured := outcomes.filter fun o => !o.isDemo
  let treatment := measured.filter fun o => o.arm = .treatment
  let control := measured.filter fun o => o.arm = .control
  let notes := populationNotes control excluded
  let draft := buildReport treatment control measured excluded notes
  if draft.hasControl && !draft.liftIsSignificant texts then
    buildReport treatment control measured excluded (notes ++ [liftNote texts draft])
  else draft

/-! ## The population, from the database -/

namespace Books

variable (b : Books)

/-- The arm a case was assigned, if it was: `experiment_assignments` has one row a case. -/
def armOf (caseId : String) : Option ExperimentArm :=
  (b.assignments.find? fun a => a.caseId = caseId).map (·.arm)

def outcomes : List CaseOutcome :=
  b.db.tables.cases.map fun case =>
    { caseId := case.id
      arm := (b.armOf case.id).getD .treatment
      paid := case.status = .recovered || case.status = .resolvedOrganic
      amountPaise := case.amountPaise
      recovered := case.recoveryVerifiedBy.isSome
      isDemo := (b.columns case.id).isDemo }

end Books

/-! ## Where every rupee went -/

structure MoneyLedger where
  /-- Settled on a path we drove, and credited to us. -/
  drivenPaise : ℤ
  drivenCases : ℕ
  /-- Settled without an action of ours we can point to. -/
  organicPaise : ℤ
  organicCases : ℕ
  /-- Demo injections that were recovered, shown apart. -/
  demoVerifiedPaise : ℤ
  demoVerifiedCases : ℕ
  incrementalEstimatePaise : ℤ
  costPaise : ℤ
  deriving DecidableEq, Repr

/-- `_sum`: a column over the cases that meet a condition, and how many they are. -/
def Books.sumCases (b : Books) (column : CaseRow → ℤ) (condition : CaseRow → Bool) : ℤ × ℕ :=
  (((b.db.tables.cases.filter condition).map column).sum, b.db.tables.cases.countP condition)

/-- `money_ledger`, from the database and one report. -/
def moneyLedger (b : Books) (attribution : RecoveryReport) : MoneyLedger :=
  let demo := fun case : CaseRow => (b.columns case.id).isDemo
  let driven := b.sumCases (·.recoveredAmountPaise) fun c => c.status = .recovered && !demo c
  let organic := b.sumCases (·.amountPaise) fun c => c.status = .resolvedOrganic && !demo c
  let demos := b.sumCases (·.recoveredAmountPaise) fun c => c.status = .recovered && demo c
  { drivenPaise := driven.1
    drivenCases := driven.2
    organicPaise := organic.1
    organicCases := organic.2
    demoVerifiedPaise := demos.1
    demoVerifiedCases := demos.2
    incrementalEstimatePaise := attribution.netIncrementalPaise
    costPaise := attribution.discountCostPaise + attribution.inferenceCostMicroInr / 10000 }

end AegisMerchant
