import AegisMerchant.Workers.BatchStore

/-!
# The headline tiles

Every figure of the overview carries where it came from. What was recovered is two figures: what
Razorpay proved, and what the batch simulator wrote.
-/

namespace AegisMerchant

open Time

/-- Where a number came from. -/
inductive Provenance where
  | razorpayVerified
  | simulated
  | estimated
  deriving DecidableEq, Repr

/-- A rupee amount that knows where it came from. -/
structure Figure where
  paise : ℤ
  provenance : Provenance
  basis : String
  deriving DecidableEq, Repr

/-- A quantity that is not money. -/
structure Count where
  value : ℕ
  provenance : Provenance
  basis : String
  deriving DecidableEq, Repr

structure OverviewReport where
  atRisk : Figure
  grossRecovered : Figure
  grossSimulated : Figure
  netIncremental : Figure
  openCases : Count
  controlCases : Count
  interceptions : Count
  pendingApprovals : Count
  deriving DecidableEq, Repr

namespace Metrics

/-! ## The simulated prefix -/

/-- `column LIKE prefix || '%'`, for a prefix without `%`: `_` stands for any character, and a letter
of ASCII for itself in either case. -/
def likePrefix : List Char → List Char → Bool
  | [], _ => true
  | _ :: _, [] => false
  | p :: ps, c :: cs => (p = '_' || p.toLower = c.toLower) && likePrefix ps cs

/-- `recovery_verified_by.startswith(SIMULATED_EVENT_PREFIX)` on an id. -/
def startsSimulated (id : String) : Bool :=
  likePrefix simulatedEventPrefix.toList id.toList

/-- The same on the column, where nothing starts with anything. -/
def provenBySimulator (c : CaseRow) : Bool := c.recoveryVerifiedBy.any startsSimulated

theorem likePrefix_append (pfx rest : List Char) : likePrefix pfx (pfx ++ rest) = true := by
  induction pfx with
  | nil => rfl
  | cons p ps ih => simp [likePrefix, ih]

/-- What the batch writes starts with the prefix. -/
theorem startsSimulated_append (rest : String) :
    startsSimulated (simulatedEventPrefix ++ rest) = true := by
  unfold startsSimulated
  rw [String.toList_append]
  exact likePrefix_append _ _

/-! ## The queries -/

def openRows (t : Tables) : List CaseRow := t.cases.filter fun c => !c.status.isTerminal

/-- A case on the tile of what Razorpay proved. -/
def OnVerified (c : CaseRow) : Prop :=
  c.recoveryVerifiedBy ≠ none ∧ c.Verified ∧ provenBySimulator c = false

/-- A case on the tile of what the simulator wrote. -/
def OnSimulated (c : CaseRow) : Prop := provenBySimulator c = true

instance (c : CaseRow) : Decidable (OnVerified c) := inferInstanceAs (Decidable (_ ∧ _))
instance (c : CaseRow) : Decidable (OnSimulated c) := inferInstanceAs (Decidable (_ = _))

def verifiedPaise (t : Tables) : ℤ :=
  ((t.cases.filter fun c => OnVerified c).map (·.recoveredAmountPaise)).sum

def simulatedPaise (t : Tables) : ℤ :=
  ((t.cases.filter fun c => OnSimulated c).map (·.recoveredAmountPaise)).sum

def byVerifier (t : Tables) (via : RecoveryVerifier) : ℕ :=
  t.cases.countP fun c => c.recoveryVerifiedVia = some via

/-- `overview`, at some time. Whether a stopping rule fired on a case is a column of its own. -/
def overview (texts : ReportTexts) (stoppingRuleFired : String → Bool) (b : Books)
    (now : DateTime) (attribution : RecoveryReport) : OverviewReport :=
  let t := b.db.tables
  let openCount := (openRows t).length
  let webhookCount := byVerifier t .webhook
  let pollCount := byVerifier t .apiReconciliation
  { atRisk :=
      { paise := ((openRows t).map (·.amountPaise)).sum
        provenance := .simulated
        basis := "sum of amount over " ++ toString openCount ++
          " non-terminal cases in the seeded corpus" }
    grossRecovered :=
      { paise := verifiedPaise t
        provenance := .razorpayVerified
        basis :=
          if webhookCount ≠ 0 ∨ pollCount ≠ 0 then
            "proven by Razorpay itself: " ++ toString webhookCount ++ " by signed webhook, " ++
              toString pollCount ++ " by direct API reconciliation. Both are Razorpay " ++
              "asserting the payment -- a poll needs no public URL, which is " ++
              "why a lost webhook cannot cost a real recovery (DEC-037). The " ++
              "recovery_requires_proof CHECK makes an unverified recovery unrepresentable."
          else
            "nothing has been proven by Razorpay yet, so this is zero. It " ++
              "counts only cases Razorpay itself confirmed, by signed webhook " ++
              "or by direct API reconciliation." }
    grossSimulated :=
      { paise := simulatedPaise t
        provenance := .simulated
        basis := "sum of recovered_amount over cases settled by the batch simulator. " ++
          "The attribution machinery is real and unmodified; the customer " ++
          "responses are a declared parameter. Kept separate from the verified " ++
          "figure because they are different claims (§14.5)." }
    netIncremental :=
      { paise := attribution.netIncrementalPaise
        provenance := .simulated
        basis :=
          if attribution.hasControl then
            "lift " ++ texts.percent attribution.absoluteLift ++ " over a " ++
              toString attribution.control.cases ++
              "-case holdout, less discounts and inference"
          else
            "no control arm in this population: incremental cannot be " ++
              "computed and is not claimed" }
    openCases :=
      { value := openCount
        provenance := .simulated
        basis := "cases not in a terminal state" }
    controlCases :=
      { value := b.assignments.countP fun a => a.arm = .control
        provenance := .simulated
        basis := "cases held in the control arm and deliberately not acted on" }
    interceptions :=
      { value := t.cases.countP fun c => stoppingRuleFired c.id
        provenance := .simulated
        basis := "cases where a stopping rule fired and blocked or degraded an action" }
    pendingApprovals :=
      { value := t.approvals.countP fun a => a.status = .pending ∧ dbTime now < a.expiresAt
        provenance := .simulated
        basis := "approvals awaiting a human, excluding those past their TTL" } }

/-! ## Two tiles -/

/-- **Whose proof a case has**: none, and nothing recovered; Razorpay's, under an id of its own; or the
simulator's, under an id with its prefix. -/
inductive Labelled (c : CaseRow) : Prop
  | unproven (hby : c.recoveryVerifiedBy = none) (hvia : c.recoveryVerifiedVia = none)
    (hamount : c.recoveredAmountPaise = 0)
  | razorpay {id : String} (hby : c.recoveryVerifiedBy = some id)
    (hid : startsSimulated id = false) (hvia : c.Verified)
  | simulated {id : String} (hby : c.recoveryVerifiedBy = some id)
    (hid : startsSimulated id = true) (hvia : c.recoveryVerifiedVia = some .simulator)

namespace Labelled

variable {c : CaseRow}

/-- What Razorpay proved is on its tile, and nothing else is. -/
theorem onVerified_iff (h : Labelled c) : OnVerified c ↔ c.Verified := by
  refine ⟨fun hon => hon.2.1, fun hverified => ?_⟩
  cases h with
  | unproven hby hvia hamount =>
    rcases hverified with h | h <;> rw [hvia] at h <;> cases h
  | razorpay hby hid hvia =>
    refine ⟨?_, hvia, ?_⟩
    · rw [hby]
      exact Option.some_ne_none _
    · rw [provenBySimulator, hby]
      exact hid
  | simulated hby hid hvia =>
    rcases hverified with h | h <;> rw [hvia] at h <;> cases h

/-- What the simulator wrote is on the other one, and nothing else is. -/
theorem onSimulated_iff (h : Labelled c) :
    OnSimulated c ↔ c.recoveryVerifiedVia = some .simulator := by
  unfold OnSimulated provenBySimulator
  cases h with
  | unproven hby hvia hamount => simp [hby, hvia]
  | razorpay hby hid hvia =>
    rcases hvia with hvia | hvia <;> simp [hby, hvia, hid]
  | simulated hby hid hvia => simp [hby, hvia, hid]

/-- A recovered amount is on one of the tiles. -/
theorem on_tile (h : Labelled c) (hamount : c.recoveredAmountPaise ≠ 0) :
    OnVerified c ∨ OnSimulated c := by
  cases h with
  | unproven hby hvia hzero => exact absurd hzero hamount
  | razorpay hby hid hvia =>
    exact .inl ((razorpay hby hid hvia : Labelled c).onVerified_iff.mpr hvia)
  | simulated hby hid hvia =>
    exact .inr ((simulated hby hid hvia : Labelled c).onSimulated_iff.mpr hvia)

end Labelled

/-- No case is on both tiles. -/
theorem not_both {c : CaseRow} : ¬(OnVerified c ∧ OnSimulated c) := by
  rintro ⟨hverified, hsimulated⟩
  rw [OnSimulated, hverified.2.2] at hsimulated
  cases hsimulated

/-- Two tiles that share no case, and of which one has whatever was recovered, add up to all of it. -/
theorem sum_recovered {cases : List CaseRow} (h : ∀ c ∈ cases, Labelled c) :
    (cases.map (·.recoveredAmountPaise)).sum =
      ((cases.filter fun c => OnVerified c).map (·.recoveredAmountPaise)).sum +
        ((cases.filter fun c => OnSimulated c).map (·.recoveredAmountPaise)).sum := by
  induction cases with
  | nil => rfl
  | cons c cases ih =>
    have hc := h c List.mem_cons_self
    have hrest := ih fun d hd => h d (List.mem_cons_of_mem c hd)
    rw [List.map_cons, List.sum_cons, hrest, List.filter_cons, List.filter_cons]
    by_cases hverified : OnVerified c
    · have hsimulated : ¬OnSimulated c := fun hs => not_both ⟨hverified, hs⟩
      simp only [hverified, hsimulated, decide_true, decide_false, if_true, Bool.false_eq_true,
        if_false, List.map_cons, List.sum_cons]
      ring
    · by_cases hsimulated : OnSimulated c
      · simp only [hverified, hsimulated, decide_true, decide_false, if_true, Bool.false_eq_true,
          if_false, List.map_cons, List.sum_cons]
        ring
      · have hzero : c.recoveredAmountPaise = 0 := by
          by_contra hamount
          rcases hc.on_tile hamount with hon | hon
          · exact hverified hon
          · exact hsimulated hon
        simp only [hverified, hsimulated, decide_false, Bool.false_eq_true, if_false, hzero,
          zero_add]

end Metrics

end AegisMerchant
