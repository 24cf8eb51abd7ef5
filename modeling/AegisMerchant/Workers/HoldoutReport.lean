import AegisMerchant.Workers.HeldOut

/-!
# What the holdout reports

Every case of the experiment is counted once, in the arm that its id is drawn into; and whoever
settles, and whenever, no payment is credited to the control arm.

`perm_joined` pairs each case with its assignment once, and `Experiment.runAll_reports` is the
report.
-/

namespace AegisMerchant

open Time Rows

namespace Experiment

open ExperimentAct

/-! ## The report -/

structure ArmCounts where
  cases : ℕ := 0
  razorpayVerifiedRecoveries : ℕ := 0
  organic : ℕ := 0
  paise : ℤ := 0
  deriving DecidableEq, Repr

def ArmCounts.add (bucket : ArmCounts) (case : CaseRow) : ArmCounts :=
  let bucket := { bucket with cases := bucket.cases + 1 }
  if case.status = .recovered ∧ case.recoveryVerifiedBy.any (· ≠ "") then
    { bucket with
      razorpayVerifiedRecoveries := bucket.razorpayVerifiedRecoveries + 1
      paise := bucket.paise + case.recoveredAmountPaise }
  else if case.status = .resolvedOrganic then { bucket with organic := bucket.organic + 1 }
  else bucket

/-- The rows of the report: the experiment's assignments, each with its case. -/
def joined (b : Books) : List (ExperimentArm × CaseRow) :=
  (b.assignments.filter (·.experimentKey = experimentKey)).flatMap fun a =>
    (b.db.tables.cases.filter (·.id = a.caseId)).map (a.arm, ·)

structure HoldoutReport where
  experimentKey : String
  controlFraction : ℚ
  arms : ExperimentArm → ArmCounts
  whatThisProves : List String
  whatThisDoesNotProve : String
  significance : Option Bool := none
  significanceBasis : String

/-- **`holdout_report`.** -/
def holdoutReport (b : Books) : HoldoutReport :=
  let arms := (joined b).foldl
    (fun arms row => Function.update arms row.1 ((arms row.1).add row.2)) fun _ => {}
  { experimentKey := experimentKey
    controlFraction := controlFraction
    arms
    whatThisProves :=
      ["the arm assignment is deterministic and recomputable from the case id",
       "a treated settlement matches a reference we issued and counts as a recovery",
       "a control settlement finds no issued reference and resolves ORGANIC",
       "no outreach artefact of any kind exists for a control case"]
    whatThisDoesNotProve := "anything about customer behaviour. The payments are made by the " ++
      "developer, so the arms are not independent observations of a population. n = " ++
      toString ((arms .treatment).cases + (arms .control).cases) ++ " against the 1,592 " ++
      "docs/PRE-REGISTRATION.md section 5 requires."
    significanceBasis := "not reported at any n. Section 6 commits to a single analysis at the " ++
      "full sample, and at this n a verdict either way would be noise presented as a finding." }

def tally (cases : List CaseRow) : ArmCounts := cases.foldl ArmCounts.add {}

/-- The order of the cases does not matter. -/
instance : RightCommutative ArmCounts.add where
  right_comm bucket case case' := by
    unfold ArmCounts.add
    split_ifs <;> simp [add_right_comm]

/-- Each bucket counts the rows of its arm. -/
theorem foldl_arms (rows : List (ExperimentArm × CaseRow)) (arms : ExperimentArm → ArmCounts)
    (arm : ExperimentArm) :
    rows.foldl (fun arms row => Function.update arms row.1 ((arms row.1).add row.2)) arms arm =
      ((rows.filter (·.1 = arm)).map (·.2)).foldl ArmCounts.add (arms arm) := by
  induction rows generalizing arms with
  | nil => rfl
  | cons row rest ih =>
    rw [List.foldl_cons, ih]
    by_cases h : row.1 = arm
    · rw [List.filter_cons_of_pos (by simpa using h), List.map_cons, List.foldl_cons, ← h,
        Function.update_self]
    · rw [List.filter_cons_of_neg (by simpa using h), Function.update_of_ne (Ne.symm h)]

theorem ArmCounts.add_cases (bucket : ArmCounts) (case : CaseRow) :
    (bucket.add case).cases = bucket.cases + 1 := by
  unfold ArmCounts.add
  split_ifs <;> rfl

/-- Every case counts. -/
theorem tally_cases (cases : List CaseRow) : (tally cases).cases = cases.length := by
  have hfrom : ∀ bucket : ArmCounts,
      (cases.foldl ArmCounts.add bucket).cases = bucket.cases + cases.length := by
    induction cases with
    | nil => exact fun bucket => rfl
    | cons case rest ih =>
      intro bucket
      rw [List.foldl_cons, ih, ArmCounts.add_cases, List.length_cons]
      omega
  exact (hfrom {}).trans (Nat.zero_add _)

/-- What is not recovered is not credited. -/
theorem tally_uncredited {cases : List CaseRow} (h : ∀ case ∈ cases, case.status ≠ .recovered) :
    (tally cases).razorpayVerifiedRecoveries = 0 ∧ (tally cases).paise = 0 := by
  refine List.foldlRecOn
    (motive := fun bucket : ArmCounts => bucket.razorpayVerifiedRecoveries = 0 ∧ bucket.paise = 0)
    cases ArmCounts.add ⟨rfl, rfl⟩ fun bucket hbucket case hcase => ?_
  unfold ArmCounts.add
  rw [if_neg fun hrecovered => h case hcase hrecovered.1]
  split_ifs <;> exact hbucket

theorem arms_eq (b : Books) (arm : ExperimentArm) :
    (holdoutReport b).arms arm = tally (((joined b).filter (·.1 = arm)).map (·.2)) :=
  foldl_arms (joined b) _ arm

/-! ## The arms -/

section Arms

variable {rt : Runtime}

/-- A case whose id is drawn into an arm. -/
def drawnInto (rt : Runtime) (arm : ExperimentArm) (case : CaseRow) : Bool :=
  named case.id && (assignArm rt case.id experimentKey controlFraction).toOption.any (·.arm = arm)

theorem named_caseId (number : ℕ) : named (caseId number) = true := by
  rw [named, caseId, String.toList_append]
  exact Metrics.likePrefix_append _ _

/-- The arm of an assignment of the experiment's is the one that the id of its case is drawn into. -/
theorem drawnInto_iff {w : BatchWorld} (hw : HeldOut rt w) {a : AssignmentRow}
    (ha : a ∈ w.side.assignments) (hkey : a.experimentKey = experimentKey) {case : CaseRow}
    (hid : case.id = a.caseId) (arm : ExperimentArm) :
    drawnInto rt arm case = true ↔ a.arm = arm := by
  obtain ⟨number, hnumber⟩ := hw.own a ha hkey
  obtain ⟨b, hb, harm⟩ := hw.withheld.arms a ha number hnumber
  have harm : a.arm = b.arm := congrArg AssignmentRow.arm harm
  rw [drawnInto, hid, hb, harm, hnumber, named_caseId]
  simp [Except.toOption]

theorem mem_joined {b : Books} {row : ExperimentArm × CaseRow} :
    row ∈ joined b ↔ row.2 ∈ b.db.tables.cases ∧ ∃ a ∈ b.assignments,
      a.experimentKey = experimentKey ∧ row.2.id = a.caseId ∧ row.1 = a.arm := by
  obtain ⟨arm, case⟩ := row
  simp only [joined, List.mem_flatMap, List.mem_map, List.mem_filter, decide_eq_true_eq,
    Prod.mk.injEq]
  constructor
  · rintro ⟨a, ⟨ha, hkey⟩, c, ⟨hc, hid⟩, rfl, rfl⟩
    exact ⟨hc, a, ha, hkey, hid, rfl⟩
  · rintro ⟨hc, a, ha, hkey, hid, rfl⟩
    exact ⟨a, ⟨ha, hkey⟩, case, ⟨hc, hid⟩, rfl, rfl⟩

/-- No case is joined twice. -/
theorem nodup_joined (w : BatchWorld) : ((joined w.books).map (·.2)).Nodup := by
  rw [joined, List.map_flatMap]
  refine List.nodup_flatMap.mpr ⟨fun a _ => ?_, ?_⟩
  · rw [List.map_map]
    exact ((List.Nodup.of_map _ w.world.db.valid.case_id).filter _).map fun _ _ h => h
  · -- two assignments are never of one case
    have hdistinct : (w.side.assignments.filter (·.experimentKey = experimentKey)).Pairwise
        fun a a' => a.caseId ≠ a'.caseId :=
      (List.pairwise_map.mp w.valid.assignment_id).filter _
    refine hdistinct.imp fun {a a'} hne => ?_
    intro case hcase hcase'
    have hid : ∀ {a : AssignmentRow},
        case ∈ ((w.world.db.tables.cases.filter (·.id = a.caseId)).map (a.arm, ·)).map (·.2) →
          case.id = a.caseId := by
      intro a h
      obtain ⟨row, hrow, rfl⟩ := List.mem_map.mp h
      obtain ⟨c, hc, rfl⟩ := List.mem_map.mp hrow
      exact of_decide_eq_true (List.mem_filter.mp hc).2
    exact hne ((hid hcase).symm.trans (hid hcase'))

/-- **The rows of an arm are the stored cases drawn into it**, each once. -/
theorem perm_joined {w : BatchWorld} (hw : HeldOut rt w) (arm : ExperimentArm) :
    (((joined w.books).filter (·.1 = arm)).map (·.2)).Perm
      (w.world.db.tables.cases.filter (drawnInto rt arm)) := by
  have hnodup : (((joined w.books).filter (·.1 = arm)).map (·.2)).Nodup :=
    (nodup_joined w).sublist (List.filter_sublist.map _)
  have hcases : (w.world.db.tables.cases.filter (drawnInto rt arm)).Nodup :=
    (List.Nodup.of_map _ w.world.db.valid.case_id).filter _
  refine (List.perm_ext_iff_of_nodup hnodup hcases).mpr fun case => ?_
  rw [List.mem_map, List.mem_filter]
  constructor
  · rintro ⟨row, hrow, rfl⟩
    obtain ⟨hrow, harm⟩ := List.mem_filter.mp hrow
    obtain ⟨hcase, a, ha, hkey, hid, hrowarm⟩ := mem_joined.mp hrow
    refine ⟨hcase, (drawnInto_iff hw ha hkey hid arm).mpr ?_⟩
    rw [← hrowarm]
    exact of_decide_eq_true harm
  · rintro ⟨hcase, hdrawn⟩
    obtain ⟨-, a, ha, hid, hkey⟩ := hw.drawn case hcase (Bool.and_eq_true_iff.mp hdrawn).1
    have harm := (drawnInto_iff hw ha hkey hid.symm arm).mp hdrawn
    exact ⟨(arm, case), List.mem_filter.mpr ⟨mem_joined.mpr
      ⟨hcase, a, ha, hkey, hid.symm, harm.symm⟩, decide_eq_true rfl⟩, rfl⟩

theorem inControl_of_drawnInto {w : BatchWorld} (hw : HeldOut rt w) {case : CaseRow}
    (h : case ∈ w.world.db.tables.cases.filter (drawnInto rt .control)) :
    InControl rt case.id := by
  obtain ⟨hcase, hdrawn⟩ := List.mem_filter.mp h
  obtain ⟨hnamed, harm⟩ := Bool.and_eq_true_iff.mp hdrawn
  refine ⟨(hw.drawn case hcase hnamed).1, ?_⟩
  cases hassign : assignArm rt case.id experimentKey controlFraction with
  | error exc =>
    rw [hassign] at harm
    cases harm
  | ok a =>
    rw [hassign] at harm
    exact ⟨a, rfl, of_decide_eq_true harm⟩

/-- The two arms are all the cases of the experiment. -/
theorem length_arms {w : BatchWorld} (hw : HeldOut rt w) :
    (w.world.db.tables.cases.filter (drawnInto rt .treatment)).length +
      (w.world.db.tables.cases.filter (drawnInto rt .control)).length =
        existing w.world.db.tables := by
  rw [← List.countP_eq_length_filter, ← List.countP_eq_length_filter, existing,
    List.countP_eq_countP_filter_add _ (fun case => named case.id) (drawnInto rt .treatment),
    List.countP_filter, List.countP_filter]
  have hnamed : ∀ {arm : ExperimentArm} {case : CaseRow}, drawnInto rt arm case = true →
      named case.id = true := fun h => (Bool.and_eq_true_iff.mp h).1
  congr 1
  · refine List.countP_congr fun case _ => ?_
    rw [Bool.and_eq_true_iff]
    exact ⟨fun h => ⟨hnamed h, h⟩, fun h => h.2⟩
  · refine List.countP_congr fun case hcase => ?_
    rw [Bool.and_eq_true_iff, Bool.not_eq_true']
    constructor
    · intro h
      obtain ⟨-, a, ha, hid, hkey⟩ := hw.drawn case hcase (hnamed h)
      have harm := drawnInto_iff hw ha hkey hid.symm
      refine ⟨hnamed h, Bool.eq_false_iff.mpr fun htreatment => ?_⟩
      rw [harm] at h htreatment
      rw [h] at htreatment
      cases htreatment
    · -- a case drawn into neither arm has none on record
      rintro ⟨h, htreatment⟩
      obtain ⟨-, a, ha, hid, hkey⟩ := hw.drawn case hcase h
      have harm := drawnInto_iff hw ha hkey hid.symm
      rw [harm]
      cases hdrawn : a.arm with
      | control => rfl
      | treatment =>
        rw [(harm .treatment).mpr hdrawn] at htreatment
        cases htreatment

/-- What the report says: the counts of the stored cases by the arms of their ids, and nothing
credited to the control arm. -/
structure Reports (rt : Runtime) (w : BatchWorld) (report : HoldoutReport) : Prop where
  arms : ∀ arm, report.arms arm = tally (w.world.db.tables.cases.filter (drawnInto rt arm))
  total : (report.arms .treatment).cases + (report.arms .control).cases =
    existing w.world.db.tables
  verified : (report.arms .control).razorpayVerifiedRecoveries = 0
  paise : (report.arms .control).paise = 0

/-- **The report counts every case of the experiment once, and credits the control arm nothing**,
however everyone was interleaved, and wherever they died. -/
theorem runAll_reports {w : BatchWorld} (hw : HeldOut rt w)
    {moves : List (Move ExperimentCmd PyError)}
    (hstart : ∀ m ∈ moves, Pool.StartsOnly (Party rt) m) :
    Reports rt (runAll w moves) (holdoutReport (runAll w moves).books) := by
  have hheld := heldOut_runAll hw hstart
  generalize runAll w moves = v at hheld
  have harms : ∀ arm, (holdoutReport v.books).arms arm =
      tally (v.world.db.tables.cases.filter (drawnInto rt arm)) := fun arm =>
    (arms_eq v.books arm).trans ((perm_joined hheld arm).foldl_eq _)
  have huncredited := @tally_uncredited (v.world.db.tables.cases.filter (drawnInto rt .control))
    fun case hcase => (hheld.uncredited case (List.mem_filter.mp hcase).1
      (inControl_of_drawnInto hheld hcase)).1
  rw [← harms] at huncredited
  refine ⟨harms, ?_, huncredited.1, huncredited.2⟩
  rw [harms, harms, tally_cases, tally_cases]
  exact length_arms hheld

theorem runAll_reports_twoExperiments :
    Reports drawingRuntime (runAll seededBooks twoExperiments)
      (holdoutReport (runAll seededBooks twoExperiments).books) :=
  runAll_reports heldOut_seededBooks startsOnly_twoExperiments

end Arms

end Experiment

end AegisMerchant
