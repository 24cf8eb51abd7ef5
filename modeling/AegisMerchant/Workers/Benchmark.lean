import AegisMerchant.Base.Numeric
import AegisMerchant.Workers.Batch
import Mathlib.Tactic.FieldSimp
import Mathlib.Tactic.Linarith
import Mathlib.Tactic.Positivity

/-!
# One corpus, five decision policies

The same cases go through five policies. What a policy would have breached is counted; what it
recovers is drawn from the response model of the batch, by a generator that each arm seeds anew. So
two policies that contact the same cases recover the same money, whatever else they do: the firewall
is compared with its own absence, and not with a different run of luck.

`measured_score` and `score_sound` are the laws of one arm, by what one turn adds to it;
`score_inStep` compares two. `firewall_ablated` and `runBenchmark_claims` are about the report.
-/

namespace AegisMerchant

open Time

namespace Benchmark

/-! ## Bounds -/

def discountCeilingPct : ℚ := 15

def naiveDiscountPct : ℚ := 25

def contactCap24h : ℕ := 1

def controlFraction : ℚ := 185 / 1000

def experimentKey : String := "revpilot_benchmark_v1"

/-- `_in_quiet_hours`: outside 09:00 to 21:00, half past five hours after the reading in UTC. -/
def inQuietHours (moment : DateTime) : Bool :=
  let time := (moment.add (ist * second)).wallTime
  21 * hour ≤ time ∨ time < 9 * hour

/-! ## The corpus -/

/-- A row of `payment_attempts`, with the constraint on its amount. -/
structure PaymentAttempt where
  id : String
  customerId : String
  kind : AttemptKind
  status : PaymentStatus
  amountPaise : ℤ
  attemptedAt : DateTime
  amountPositive : 0 < amountPaise

/-- One eligible failure, with the facts a policy needs to decide. -/
structure Case where
  attemptId : String
  customerId : String
  amountPaise : ℤ
  playbook : Playbook
  attemptedAt : DateTime
  optedOut : Bool
  marketingConsent : Bool
  dnd : Bool
  priorContacts24h : ℕ
  amountPositive : 0 < amountPaise

/-- `playbooks.get(row.kind, PAYMENT_FAILURE)`. -/
def playbookOf : AttemptKind → Playbook
  | .checkout => .checkoutAbandon
  | .invoice => .receivable
  | .subscription => .subscription
  | .recoveryLink => .paymentFailure

/-- The case of a row, `prior` eligible rows of its customer having come before. -/
def caseOf (consents : List ConsentRow) (prior : ℕ) (row : PaymentAttempt) : Case :=
  let consent := consents.find? fun c => c.customerId = row.customerId
  { attemptId := row.id
    customerId := row.customerId
    amountPaise := row.amountPaise
    playbook := playbookOf row.kind
    attemptedAt := row.attemptedAt
    optedOut := consent.any (·.optedOut)
    marketingConsent := consent.any (·.marketing)
    dnd := consent.any (·.dndRegistered)
    priorContacts24h := prior
    amountPositive := row.amountPositive }

/-- The loop of `_load_cases`, over the eligible rows in order. -/
def casesFrom (customers : List String) (consents : List ConsentRow) :
    (String → ℕ) → List PaymentAttempt → List Case
  | _, [] => []
  | seen, row :: rest =>
    if row.customerId ∈ customers then
      caseOf consents (seen row.customerId) row ::
        casesFrom customers consents
          (fun id => seen id + if id = row.customerId then 1 else 0) rest
    else casesFrom customers consents seen rest

def loadCases (customers : List String) (consents : List ConsentRow)
    (attempts : List PaymentAttempt) : List Case :=
  let eligible := attempts.filter fun row => row.status = .failed ∨ row.status = .abandoned
  casesFrom customers consents (fun _ => 0) (eligible.insertionSort fun a b => a.id ≤ b.id)

/-! ## The five policies -/

/-- A policy's output for one case, before anything is scored. -/
structure Decision where
  contact : Bool
  marketing : Bool := false
  discountPct : ℚ := 0
  respectsQuietHours : Bool := true
  respectsContactCap : Bool := true
  respectsOptOut : Bool := true
  escalate : Bool := false

def noIntervention (_ : Case) : Decision := { contact := false }

def contactEveryone (_ : Case) : Decision where
  contact := true
  marketing := true
  discountPct := naiveDiscountPct
  respectsQuietHours := false
  respectsContactCap := false
  respectsOptOut := false

def revpilot (case : Case) : Decision :=
  if case.optedOut then { contact := false, respectsOptOut := true }
  else
    let marketing := case.marketingConsent && !case.dnd
    { contact := true
      marketing
      discountPct := if marketing then min discountCeilingPct 5 else 0
      respectsQuietHours := true
      respectsContactCap := true
      respectsOptOut := true
      escalate := 1000000 ≤ case.amountPaise }

def noFirewall (case : Case) : Decision :=
  if case.optedOut then { contact := false }
  else
    { contact := true
      marketing := true
      discountPct := naiveDiscountPct
      respectsQuietHours := false
      respectsContactCap := false
      respectsOptOut := true
      escalate := false }

def noHoldout (case : Case) : Decision := revpilot case

/-! ## Scoring -/

/-- Hard-bound breaches, by kind. -/
structure Breaches where
  contactedOptedOut : ℕ := 0
  marketingWithoutConsent : ℕ := 0
  contactedInQuietHours : ℕ := 0
  overContactCap : ℕ := 0
  discountOverCeiling : ℕ := 0
  deriving DecidableEq, Repr

/-- `total_breaches`. -/
def Breaches.total (b : Breaches) : ℕ :=
  b.contactedOptedOut + b.marketingWithoutConsent + b.contactedInQuietHours + b.overContactCap +
    b.discountOverCeiling

/-- What contacting a case as decided breaches. -/
def Breaches.ofContact (case : Case) (decision : Decision) : Breaches where
  contactedOptedOut := if case.optedOut && !decision.respectsOptOut then 1 else 0
  marketingWithoutConsent := if decision.marketing && !case.marketingConsent then 1 else 0
  contactedInQuietHours :=
    if !decision.respectsQuietHours && inQuietHours case.attemptedAt then 1 else 0
  overContactCap :=
    if !decision.respectsContactCap && contactCap24h ≤ case.priorContacts24h then 1 else 0
  discountOverCeiling := if discountCeilingPct < decision.discountPct then 1 else 0

def Breaches.add (b b' : Breaches) : Breaches where
  contactedOptedOut := b.contactedOptedOut + b'.contactedOptedOut
  marketingWithoutConsent := b.marketingWithoutConsent + b'.marketingWithoutConsent
  contactedInQuietHours := b.contactedInQuietHours + b'.contactedInQuietHours
  overContactCap := b.overContactCap + b'.overContactCap
  discountOverCeiling := b.discountOverCeiling + b'.discountOverCeiling

/-- The half of a report that the response model declares. -/
structure Declared where
  recoveredPaise : ℤ := 0
  treatedPaid : ℕ := 0
  treatedTotal : ℕ := 0
  controlPaid : ℕ := 0
  controlTotal : ℕ := 0
  deriving DecidableEq, Repr

/-- What one policy did, and what it cost. -/
structure ArmReport extends Declared where
  arm : String
  label : String
  cases : ℕ := 0
  contacted : ℕ := 0
  heldAsControl : ℕ := 0
  escalatedToHuman : ℕ := 0
  breaches : Breaches := {}
  deriving DecidableEq, Repr

namespace ArmReport

def hasHoldout (r : ArmReport) : Bool := 0 < r.controlTotal

/-- `incremental_paise`: money this arm can actually claim. -/
def incrementalPaise (r : ArmReport) : Option ℤ :=
  if !r.hasHoldout || r.treatedTotal = 0 then none
  else
    let treatedRate : ℚ := r.treatedPaid / r.treatedTotal
    let controlRate : ℚ := r.controlPaid / r.controlTotal
    let lift := treatedRate - controlRate
    if lift ≤ 0 then some 0
    else
      let meanAmount : ℚ := r.recoveredPaise / (max 1 r.treatedPaid : ℕ)
      some (Numeric.truncInt (lift * r.treatedTotal * meanAmount))

end ArmReport

/-- Whether an arm with a holdout holds a case back. -/
def inControl (rt : Runtime) (hasHoldout : Bool) (case : Case) : Bool :=
  hasHoldout &&
    ((assignArm rt case.attemptId experimentKey controlFraction).toOption.any fun a =>
      a.arm = .control)

/-- Where the loop of `_score` stands: the report, and how many draws its generator has made. -/
structure Scoring where
  report : ArmReport
  drawn : ℕ := 0

/-- One turn of the loop, on the draws of a generator. -/
def scoreCase (rt : Runtime) (policy : Case → Decision) (hasHoldout : Bool) (draws : ℕ → ℚ)
    (s : Scoring) (case : Case) : Scoring :=
  let decision := policy case
  let report := { s.report with cases := s.report.cases + 1 }
  if inControl rt hasHoldout case then
    -- untouched, so only baseline self-recovery applies
    let paid : Bool := draws s.drawn < baselineSelfRecovery
    { report := { report with
        heldAsControl := report.heldAsControl + 1
        controlTotal := report.controlTotal + 1
        controlPaid := report.controlPaid + (if paid then 1 else 0) }
      drawn := s.drawn + 1 }
  else if !decision.contact then
    -- no draw is made for a case that is passed over
    { s with report }
  else
    let probability := baselineSelfRecovery + treatedUplift case.playbook
    let paid : Bool := draws s.drawn < probability
    { report := { report with
        breaches := report.breaches.add (Breaches.ofContact case decision)
        contacted := report.contacted + 1
        escalatedToHuman := report.escalatedToHuman + (if decision.escalate then 1 else 0)
        treatedTotal := report.treatedTotal + 1
        treatedPaid := report.treatedPaid + (if paid then 1 else 0)
        recoveredPaise := report.recoveredPaise + (if paid then case.amountPaise else 0) }
      drawn := s.drawn + 1 }

def score (rt : Runtime) (draws : ℕ → ℚ) (arm label : String) (policy : Case → Decision)
    (hasHoldout : Bool) (cases : List Case) : ArmReport :=
  (cases.foldl (scoreCase rt policy hasHoldout draws) { report := { arm, label } }).report

def arms : List (String × String × (Case → Decision) × Bool) :=
  [("no_intervention", "No intervention", noIntervention, true),
    ("contact_everyone", "Contact everyone", contactEveryone, true),
    ("revpilot", "RevPilot", revpilot, true),
    ("no_firewall", "RevPilot, firewall removed", noFirewall, true),
    ("no_holdout", "RevPilot, holdout removed", noHoldout, false)]

structure BenchmarkReport where
  arms : List ArmReport
  corpusCases : ℕ

def runBenchmark (rt : Runtime) (draws : ℕ → ℚ) (customers : List String)
    (consents : List ConsentRow) (attempts : List PaymentAttempt) :
    Except PyError BenchmarkReport :=
  let cases := loadCases customers consents attempts
  if cases = [] then
    .error (.runtimeError "no eligible cases in the corpus; run `python tasks.py seed`")
  else
    .ok { arms := arms.map fun (arm, label, policy, hasHoldout) =>
            score rt draws arm label policy hasHoldout cases
          corpusCases := cases.length }

/-! ## One turn -/

section Turns

variable {rt : Runtime} {draws : ℕ → ℚ} {policy policy' : Case → Decision} {hasHoldout : Bool}
  {s s' : Scoring} {case : Case} {cases : List Case}

theorem scoreCase_held (h : inControl rt hasHoldout case = true) :
    scoreCase rt policy hasHoldout draws s case =
      { report := { s.report with
          cases := s.report.cases + 1
          heldAsControl := s.report.heldAsControl + 1
          controlTotal := s.report.controlTotal + 1
          controlPaid := s.report.controlPaid +
            if draws s.drawn < baselineSelfRecovery then 1 else 0 }
        drawn := s.drawn + 1 } := by
  simp [scoreCase, h]

theorem scoreCase_passed (h : inControl rt hasHoldout case = false)
    (hcontact : (policy case).contact = false) :
    scoreCase rt policy hasHoldout draws s case =
      { s with report := { s.report with cases := s.report.cases + 1 } } := by
  simp [scoreCase, h, hcontact]

theorem scoreCase_contacted (h : inControl rt hasHoldout case = false)
    (hcontact : (policy case).contact = true) :
    scoreCase rt policy hasHoldout draws s case =
      { report := { s.report with
          cases := s.report.cases + 1
          breaches := s.report.breaches.add (Breaches.ofContact case (policy case))
          contacted := s.report.contacted + 1
          escalatedToHuman :=
            s.report.escalatedToHuman + if (policy case).escalate then 1 else 0
          treatedTotal := s.report.treatedTotal + 1
          treatedPaid := s.report.treatedPaid +
            if draws s.drawn < baselineSelfRecovery + treatedUplift case.playbook then 1 else 0
          recoveredPaise := s.report.recoveredPaise +
            if draws s.drawn < baselineSelfRecovery + treatedUplift case.playbook then
              case.amountPaise else 0 }
        drawn := s.drawn + 1 } := by
  simp [scoreCase, h, hcontact]

/-- What every turn keeps, a whole arm keeps. -/
theorem score_induction {I : ArmReport → Prop} {arm label : String}
    (hstart : I { arm, label })
    (hturn : ∀ s : Scoring, ∀ case ∈ cases, I s.report →
      I (scoreCase rt policy hasHoldout draws s case).report) :
    I (score rt draws arm label policy hasHoldout cases) := by
  unfold score
  generalize hs : ({ report := { arm, label } } : Scoring) = s
  have hI : I s.report := by rw [← hs]; exact hstart
  clear hs hstart
  induction cases generalizing s with
  | nil => exact hI
  | cons case rest ih =>
    exact ih (fun s c hc => hturn s c (List.mem_cons_of_mem _ hc)) _
      (hturn s case List.mem_cons_self hI)

/-- What every turn keeps of two arms, the two arms keep. -/
theorem score_induction₂ {I : Scoring → Scoring → Prop} {arm label arm' label' : String}
    (hstart : I { report := { arm, label } } { report := { arm := arm', label := label' } })
    (hturn : ∀ s s' : Scoring, ∀ case ∈ cases, I s s' →
      I (scoreCase rt policy hasHoldout draws s case)
        (scoreCase rt policy' hasHoldout draws s' case)) :
    ∃ n n', I ⟨score rt draws arm label policy hasHoldout cases, n⟩
      ⟨score rt draws arm' label' policy' hasHoldout cases, n'⟩ := by
  unfold score
  generalize ({ report := { arm, label } } : Scoring) = s at hstart ⊢
  generalize ({ report := { arm := arm', label := label' } } : Scoring) = s' at hstart ⊢
  induction cases generalizing s s' with
  | nil => exact ⟨_, _, hstart⟩
  | cons case rest ih =>
    exact ih (fun s s' c hc => hturn s s' c (List.mem_cons_of_mem _ hc)) _ _
      (hturn s s' case List.mem_cons_self hstart)

/-! ## What is measured -/

/-- The cases an arm contacts: what it does not hold back and its policy does not pass over. -/
def contactedCases (rt : Runtime) (policy : Case → Decision) (hasHoldout : Bool)
    (cases : List Case) : List Case :=
  cases.filter fun case => !inControl rt hasHoldout case && (policy case).contact

def breachesOf (policy : Case → Decision) (cases : List Case) : Breaches :=
  cases.foldl (fun b case => b.add (Breaches.ofContact case (policy case))) {}

theorem breachesOf_concat (policy : Case → Decision) (cases : List Case) (case : Case) :
    breachesOf policy (cases ++ [case]) =
      (breachesOf policy cases).add (Breaches.ofContact case (policy case)) := by
  rw [breachesOf, List.foldl_append]
  rfl

/-- The measured half of a report: nothing of it is drawn. -/
structure Measured where
  cases : ℕ
  contacted : ℕ
  heldAsControl : ℕ
  escalatedToHuman : ℕ
  breaches : Breaches
  deriving DecidableEq, Repr

def ArmReport.measured (r : ArmReport) : Measured where
  cases := r.cases
  contacted := r.contacted
  heldAsControl := r.heldAsControl
  escalatedToHuman := r.escalatedToHuman
  breaches := r.breaches

/-- **The measured half is a count over the corpus.** -/
theorem measured_score (rt : Runtime) (draws : ℕ → ℚ) (arm label : String)
    (policy : Case → Decision) (hasHoldout : Bool) (cases : List Case) :
    (score rt draws arm label policy hasHoldout cases).measured =
      { cases := cases.length
        contacted := (contactedCases rt policy hasHoldout cases).length
        heldAsControl := cases.countP (inControl rt hasHoldout)
        escalatedToHuman :=
          (contactedCases rt policy hasHoldout cases).countP fun case => (policy case).escalate
        breaches := breachesOf policy (contactedCases rt policy hasHoldout cases) } := by
  induction cases using List.reverseRecOn with
  | nil => rfl
  | append_singleton cases case ih =>
    have hscore : score rt draws arm label policy hasHoldout (cases ++ [case]) =
        (scoreCase rt policy hasHoldout draws
          (cases.foldl (scoreCase rt policy hasHoldout draws) { report := { arm, label } })
          case).report := by
      rw [score, List.foldl_append]
      rfl
    rw [score] at ih
    rw [hscore]
    generalize cases.foldl (scoreCase rt policy hasHoldout draws) { report := { arm, label } } = s
      at ih ⊢
    simp only [ArmReport.measured, Measured.mk.injEq] at ih
    obtain ⟨hcases, hcontacted, hheld, hescalated, hbreaches⟩ := ih
    have hlength : (cases ++ [case]).length = cases.length + 1 := by simp
    by_cases hin : inControl rt hasHoldout case = true
    · rw [scoreCase_held hin]
      simp [ArmReport.measured, contactedCases, hin, hcases, hcontacted, hheld, hescalated,
        hbreaches]
    · have hin := Bool.eq_false_iff.mpr hin
      by_cases hcontact : (policy case).contact = true
      · rw [scoreCase_contacted hin hcontact]
        have hlist : contactedCases rt policy hasHoldout (cases ++ [case]) =
            contactedCases rt policy hasHoldout cases ++ [case] := by
          simp [contactedCases, hin, hcontact]
        rw [hlist, breachesOf_concat]
        simp [ArmReport.measured, hin, hcases, hcontacted, hheld, hescalated, hbreaches,
          List.countP_singleton]
      · rw [scoreCase_passed hin (Bool.eq_false_iff.mpr hcontact)]
        simp [ArmReport.measured, contactedCases, hin, hcontact, hcases, hcontacted, hheld,
          hescalated, hbreaches]

/-- A policy that breaches nothing on any case breaches nothing. -/
theorem breachesOf_eq_zero (h : ∀ case ∈ cases, Breaches.ofContact case (policy case) = {}) :
    breachesOf policy cases = {} := by
  induction cases using List.reverseRecOn with
  | nil => rfl
  | append_singleton cases case ih =>
    rw [breachesOf_concat, ih fun c hc => h c (List.mem_append_left _ hc),
      h case (List.mem_append_right _ (List.mem_singleton_self _))]
    rfl

/-- A kind of breach is counted case by case. -/
theorem breachesOf_kind {kind : Breaches → ℕ} {p : Case → Bool} (hzero : kind {} = 0)
    (hadd : ∀ b b', kind (b.add b') = kind b + kind b')
    (h : ∀ case ∈ cases, kind (Breaches.ofContact case (policy case)) = if p case then 1 else 0) :
    kind (breachesOf policy cases) = cases.countP p := by
  induction cases using List.reverseRecOn with
  | nil => exact hzero
  | append_singleton cases case ih =>
    rw [breachesOf_concat, hadd, ih fun c hc => h c (List.mem_append_left _ hc),
      h case (List.mem_append_right _ (List.mem_singleton_self _)), List.countP_append,
      List.countP_singleton]

/-- The shipped policy breaches no bound on any case. -/
theorem ofContact_revpilot (case : Case) : Breaches.ofContact case (revpilot case) = {} := by
  by_cases hout : case.optedOut = true
  · simp [Breaches.ofContact, revpilot, hout, discountCeilingPct]
  · by_cases hmarketing : case.marketingConsent = true
    · by_cases hdnd : case.dnd = true
      · simp [Breaches.ofContact, revpilot, hout, hmarketing, hdnd, discountCeilingPct]
      · simp [Breaches.ofContact, revpilot, hout, hmarketing, hdnd, discountCeilingPct]
    · simp [Breaches.ofContact, revpilot, hout, hmarketing, discountCeilingPct]

/-- Without the firewall the same cases are contacted. -/
theorem contact_noFirewall (case : Case) : (noFirewall case).contact = (revpilot case).contact := by
  unfold noFirewall revpilot
  split <;> rfl

/-! ## What is declared -/

/-- The generators of two arms that contact the same cases stay in step. -/
structure InStep (s s' : Scoring) : Prop where
  drawn : s'.drawn = s.drawn
  declared : s'.report.toDeclared = s.report.toDeclared
  cases : s'.report.cases = s.report.cases
  contacted : s'.report.contacted = s.report.contacted
  heldAsControl : s'.report.heldAsControl = s.report.heldAsControl

theorem InStep.turn (h : InStep s s') (hcontact : (policy' case).contact = (policy case).contact) :
    InStep (scoreCase rt policy hasHoldout draws s case)
      (scoreCase rt policy' hasHoldout draws s' case) := by
  obtain ⟨hdrawn, hdeclared, hcases, hcontacted, hheld⟩ := h
  by_cases hin : inControl rt hasHoldout case = true
  · rw [scoreCase_held hin, scoreCase_held hin]
    constructor <;> simp [hdrawn, hdeclared, hcases, hcontacted, hheld]
  · have hin := Bool.eq_false_iff.mpr hin
    by_cases hyes : (policy case).contact = true
    · rw [scoreCase_contacted hin hyes, scoreCase_contacted hin (hcontact.trans hyes)]
      constructor <;> simp [hdrawn, hdeclared, hcases, hcontacted, hheld]
    · have hno := Bool.eq_false_iff.mpr hyes
      rw [scoreCase_passed hin hno, scoreCase_passed hin (hcontact.trans hno)]
      constructor <;> simp [hdrawn, hdeclared, hcases, hcontacted, hheld]

/-- **Two policies that contact the same cases recover the same**, whatever else they do. -/
theorem score_inStep (draws : ℕ → ℚ) (arm label arm' label' : String)
    (hcontact : ∀ case ∈ cases, (policy' case).contact = (policy case).contact) :
    ∃ n n', InStep ⟨score rt draws arm label policy hasHoldout cases, n⟩
      ⟨score rt draws arm' label' policy' hasHoldout cases, n'⟩ :=
  score_induction₂ ⟨rfl, rfl, rfl, rfl, rfl⟩ fun _ _ case hmem h => h.turn (hcontact case hmem)

end Turns

/-! ## The firewall against its absence -/

/-- **What the ablation shows**: the arm without the firewall recovers what the shipped arm does,
from the same contacts; it hands no large amount to a human, and breaches bounds the shipped arm
never does. -/
structure FirewallAblated (rt : Runtime) (cases : List Case) (kept bare : ArmReport) : Prop where
  sameCases : contactedCases rt noFirewall true cases = contactedCases rt revpilot true cases
  declared : bare.toDeclared = kept.toDeclared
  contacted : bare.contacted = kept.contacted
  held : bare.heldAsControl = kept.heldAsControl
  escalated : bare.escalatedToHuman = 0 ∧ kept.escalatedToHuman =
    (contactedCases rt revpilot true cases).countP fun case => 1000000 ≤ case.amountPaise
  clean : kept.breaches = {}
  overCeiling : bare.breaches.discountOverCeiling = bare.contacted
  optedOut : bare.breaches.contactedOptedOut = 0
  withoutConsent : bare.breaches.marketingWithoutConsent =
    (contactedCases rt noFirewall true cases).countP fun case => !case.marketingConsent
  inQuietHours : bare.breaches.contactedInQuietHours =
    (contactedCases rt noFirewall true cases).countP fun case => inQuietHours case.attemptedAt
  overCap : bare.breaches.overContactCap =
    (contactedCases rt noFirewall true cases).countP fun case => 1 ≤ case.priorContacts24h

/-- A case the arm without the firewall contacts has not opted out. -/
theorem noFirewall_of_mem {rt : Runtime} {cases : List Case} {case : Case}
    (h : case ∈ contactedCases rt noFirewall true cases) :
    case.optedOut = false ∧ noFirewall case =
      { contact := true, marketing := true, discountPct := naiveDiscountPct
        respectsQuietHours := false, respectsContactCap := false } := by
  have hcontact : (noFirewall case).contact = true := by
    have := (List.mem_filter.mp h).2
    simp only [Bool.and_eq_true] at this
    exact this.2
  unfold noFirewall at hcontact ⊢
  split
  · next hout =>
    rw [if_pos hout] at hcontact
    cases hcontact
  · next hout => exact ⟨Bool.eq_false_iff.mpr hout, rfl⟩

/-- A case the shipped arm contacts goes to a human from a large amount on. -/
theorem escalate_revpilot {rt : Runtime} {cases : List Case} {case : Case}
    (h : case ∈ contactedCases rt revpilot true cases) :
    (revpilot case).escalate = decide (1000000 ≤ case.amountPaise) := by
  have hcontact : (revpilot case).contact = true := by
    have := (List.mem_filter.mp h).2
    simp only [Bool.and_eq_true] at this
    exact this.2
  unfold revpilot at hcontact ⊢
  split
  · next hout =>
    rw [if_pos hout] at hcontact
    cases hcontact
  · rfl

/-- **The firewall costs nothing in recovery**, on any corpus and with any luck. -/
theorem firewall_ablated (rt : Runtime) (draws : ℕ → ℚ) (customers : List String)
    (consents : List ConsentRow) (attempts : List PaymentAttempt) :
    FirewallAblated rt (loadCases customers consents attempts)
      (score rt draws "revpilot" "RevPilot" revpilot true (loadCases customers consents attempts))
      (score rt draws "no_firewall" "RevPilot, firewall removed" noFirewall true
        (loadCases customers consents attempts)) := by
  generalize loadCases customers consents attempts = cases
  obtain ⟨n, n', h⟩ := @score_inStep rt revpilot noFirewall true cases draws "revpilot" "RevPilot"
    "no_firewall" "RevPilot, firewall removed" fun case _ => contact_noFirewall case
  have hkept := measured_score rt draws "revpilot" "RevPilot" revpilot true cases
  have hbare := measured_score rt draws "no_firewall" "RevPilot, firewall removed" noFirewall true
    cases
  simp only [ArmReport.measured, Measured.mk.injEq] at hkept hbare
  refine ⟨?_, h.declared, h.contacted, h.heldAsControl, ⟨?_, ?_⟩, ?_, ?_, ?_, ?_, ?_, ?_⟩
  · exact List.filter_congr fun case _ => by rw [contact_noFirewall]
  · rw [hbare.2.2.2.1]
    refine List.countP_eq_zero.mpr fun case hmem => ?_
    rw [(noFirewall_of_mem hmem).2]
    exact Bool.false_ne_true
  · rw [hkept.2.2.2.1]
    exact List.countP_congr fun case hmem => by rw [escalate_revpilot hmem]
  · rw [hkept.2.2.2.2]
    exact breachesOf_eq_zero fun case _ => ofContact_revpilot case
  · rw [hbare.2.2.2.2, hbare.2.1, ← List.countP_true]
    refine breachesOf_kind rfl (fun _ _ => rfl) fun case hmem => ?_
    rw [(noFirewall_of_mem hmem).2]
    rfl
  · have hnone : (breachesOf noFirewall (contactedCases rt noFirewall true cases)).contactedOptedOut =
        (contactedCases rt noFirewall true cases).countP fun _ => false := by
      refine breachesOf_kind rfl (fun _ _ => rfl) fun case hmem => ?_
      obtain ⟨hout, hdecision⟩ := noFirewall_of_mem hmem
      rw [hdecision]
      simp [Breaches.ofContact, hout]
    rw [hbare.2.2.2.2, hnone]
    simp
  · rw [hbare.2.2.2.2]
    refine breachesOf_kind rfl (fun _ _ => rfl) fun case hmem => ?_
    rw [(noFirewall_of_mem hmem).2]
    simp [Breaches.ofContact]
  · rw [hbare.2.2.2.2]
    refine breachesOf_kind rfl (fun _ _ => rfl) fun case hmem => ?_
    rw [(noFirewall_of_mem hmem).2]
    simp [Breaches.ofContact]
  · rw [hbare.2.2.2.2]
    refine breachesOf_kind rfl (fun _ _ => rfl) fun case hmem => ?_
    rw [(noFirewall_of_mem hmem).2]
    by_cases hprior : 1 ≤ case.priorContacts24h
    · simp [Breaches.ofContact, contactCap24h, hprior]
    · simp [Breaches.ofContact, contactCap24h, hprior]

/-! ## What an arm can claim -/

/-- **A report agrees with itself.** -/
structure ArmReport.Sound (r : ArmReport) : Prop where
  contacted : r.contacted = r.treatedTotal
  held : r.heldAsControl = r.controlTotal
  all : r.heldAsControl + r.contacted ≤ r.cases
  treatedPaid : r.treatedPaid ≤ r.treatedTotal
  controlPaid : r.controlPaid ≤ r.controlTotal
  recovered : 0 ≤ r.recoveredPaise
  unpaid : r.treatedPaid = 0 → r.recoveredPaise = 0

/-- **Step.** A turn of the loop keeps the report sound. -/
theorem ArmReport.Sound.turn {rt : Runtime} {draws : ℕ → ℚ} {policy : Case → Decision}
    {hasHoldout : Bool} {s : Scoring} (h : s.report.Sound) (case : Case) :
    (scoreCase rt policy hasHoldout draws s case).report.Sound := by
  obtain ⟨hcontacted, hheld, hall, htreated, hcontrol, hrecovered, hunpaid⟩ := h
  have hpositive := case.amountPositive
  by_cases hin : inControl rt hasHoldout case = true
  · rw [scoreCase_held hin]
    refine ⟨hcontacted, by simp [hheld], ?_, htreated, ?_, hrecovered, hunpaid⟩
    · show s.report.heldAsControl + 1 + s.report.contacted ≤ s.report.cases + 1
      omega
    · dsimp only
      split <;> omega
  · have hin := Bool.eq_false_iff.mpr hin
    by_cases hyes : (policy case).contact = true
    · rw [scoreCase_contacted hin hyes]
      refine ⟨by simp [hcontacted], hheld, ?_, ?_, hcontrol, ?_, ?_⟩
      · show s.report.heldAsControl + (s.report.contacted + 1) ≤ s.report.cases + 1
        omega
      · dsimp only
        split <;> omega
      · dsimp only
        split <;> omega
      · dsimp only
        split
        · intro hzero
          omega
        · intro hzero
          rw [hunpaid (by omega), add_zero]
    · rw [scoreCase_passed hin (Bool.eq_false_iff.mpr hyes)]
      exact ⟨hcontacted, hheld, Nat.le_succ_of_le hall, htreated, hcontrol, hrecovered, hunpaid⟩

/-- **Run.** Every arm's report is sound. -/
theorem score_sound (rt : Runtime) (draws : ℕ → ℚ) (arm label : String)
    (policy : Case → Decision) (hasHoldout : Bool) (cases : List Case) :
    (score rt draws arm label policy hasHoldout cases).Sound :=
  score_induction ⟨rfl, rfl, Nat.zero_le _, Nat.le_refl _, Nat.le_refl _, le_refl _, fun _ => rfl⟩
    fun _ case _ h => h.turn case

/-- The share of the recovered money that a positive lift claims. -/
theorem claimed_share {tp tt cp ct r : ℚ} (htp : 0 < tp) (htt : 0 < tt) (hcp : 0 ≤ cp)
    (hct : 0 < ct) (hr : 0 ≤ r) : (tp / tt - cp / ct) * tt * (r / tp) ≤ r := by
  have hshare : (tp / tt - cp / ct) * tt * (r / tp) = r - r * (cp / ct * tt / tp) := by
    field_simp
  have hnonneg : 0 ≤ r * (cp / ct * tt / tp) := by positivity
  rw [hshare]
  linarith

/-- **No arm claims more than it recovered**, and it claims something only against a holdout. -/
theorem ArmReport.Sound.claim {r : ArmReport} (h : r.Sound) :
    (r.incrementalPaise = none ↔ r.contacted = 0 ∨ r.heldAsControl = 0) ∧
      ∀ n, r.incrementalPaise = some n → 0 ≤ n ∧ n ≤ r.recoveredPaise := by
  have hrecovered : (0 : ℚ) ≤ r.recoveredPaise := by exact_mod_cast h.recovered
  unfold incrementalPaise hasHoldout
  rw [h.contacted, h.held]
  split
  · next hnone =>
    refine ⟨iff_of_true rfl ?_, fun n hn => by cases hn⟩
    simp only [Bool.or_eq_true, Bool.not_eq_true', decide_eq_false_iff_not, not_lt,
      Nat.le_zero, decide_eq_true_eq] at hnone
    exact hnone.symm
  · next hsome =>
    simp only [Bool.or_eq_true, Bool.not_eq_true', decide_eq_false_iff_not, not_lt,
      Nat.le_zero, decide_eq_true_eq, not_or] at hsome
    obtain ⟨hct, htt⟩ := hsome
    have hct' : (0 : ℚ) < r.controlTotal := by exact_mod_cast Nat.pos_of_ne_zero hct
    have htt' : (0 : ℚ) < r.treatedTotal := by exact_mod_cast Nat.pos_of_ne_zero htt
    dsimp only
    split
    · refine ⟨iff_of_false (by simp) (by tauto), fun n hn => ?_⟩
      obtain rfl := Option.some.inj hn
      exact ⟨le_refl 0, h.recovered⟩
    · next hlift =>
      refine ⟨iff_of_false (by simp) (by tauto), fun n hn => ?_⟩
      obtain rfl := Option.some.inj hn
      have hlift := not_le.mp hlift
      -- a lift needs a treated case that paid
      have htp : 1 ≤ r.treatedPaid := by
        by_contra hzero
        have hzero : r.treatedPaid = 0 := by omega
        have hcontrol : (0 : ℚ) ≤ r.controlPaid / r.controlTotal := by positivity
        rw [hzero] at hlift
        norm_num at hlift
        linarith
      have htp' : (0 : ℚ) < r.treatedPaid := by exact_mod_cast htp
      have hle := @claimed_share r.treatedPaid r.treatedTotal r.controlPaid r.controlTotal
        r.recoveredPaise htp' htt' (by positivity) hct' hrecovered
      rw [Nat.max_eq_right htp]
      have hnonneg : (0 : ℚ) ≤ ((r.treatedPaid : ℚ) / r.treatedTotal -
          r.controlPaid / r.controlTotal) * r.treatedTotal *
            (r.recoveredPaise / r.treatedPaid) := by
        have := div_nonneg hrecovered htp'.le
        exact mul_nonneg (mul_nonneg hlift.le htt'.le) this
      refine ⟨Numeric.truncInt_nonneg hnonneg, ?_⟩
      exact_mod_cast (Numeric.truncInt_le hnonneg).trans hle

/-- An arm without a holdout holds nothing back. -/
theorem heldAsControl_of_no_holdout (rt : Runtime) (draws : ℕ → ℚ) (arm label : String)
    (policy : Case → Decision) (cases : List Case) :
    (score rt draws arm label policy false cases).heldAsControl = 0 := by
  have hnone : cases.countP (inControl rt false) = 0 :=
    List.countP_eq_zero.mpr fun _ _ => Bool.false_ne_true
  exact (congrArg Measured.heldAsControl
    (measured_score rt draws arm label policy false cases)).trans hnone

/-- A report keeps the name of its arm. -/
theorem arm_score (rt : Runtime) (draws : ℕ → ℚ) (arm label : String)
    (policy : Case → Decision) (hasHoldout : Bool) (cases : List Case) :
    (score rt draws arm label policy hasHoldout cases).arm = arm := by
  refine score_induction (I := fun r => r.arm = arm) rfl fun s case _ hs => ?_
  by_cases hin : inControl rt hasHoldout case = true
  · rw [scoreCase_held hin]
    exact hs
  · have hin := Bool.eq_false_iff.mpr hin
    by_cases hyes : (policy case).contact = true
    · rw [scoreCase_contacted hin hyes]
      exact hs
    · rw [scoreCase_passed hin (Bool.eq_false_iff.mpr hyes)]
      exact hs

/-- **What a benchmark claims**: every arm counts every case, claims no more than it recovered, and
the arm without a holdout claims nothing. -/
theorem runBenchmark_claims (rt : Runtime) (draws : ℕ → ℚ) (customers : List String)
    (consents : List ConsentRow) (attempts : List PaymentAttempt) :
    ∀ report ∈ (runBenchmark rt draws customers consents attempts).toOption,
      (∀ r ∈ report.arms, r.cases = report.corpusCases ∧
        r.heldAsControl + r.contacted ≤ report.corpusCases ∧
        (r.incrementalPaise = none ↔ r.contacted = 0 ∨ r.heldAsControl = 0) ∧
        ∀ n, r.incrementalPaise = some n → 0 ≤ n ∧ n ≤ r.recoveredPaise) ∧
      ∀ r ∈ report.arms, r.arm = "no_holdout" → r.incrementalPaise = none := by
  intro report hreport
  unfold runBenchmark at hreport
  dsimp only at hreport
  split at hreport
  · cases hreport
  · obtain rfl := Option.some.inj hreport
    dsimp only
    constructor
    · intro r hr
      obtain ⟨⟨arm, label, policy, hasHoldout⟩, -, rfl⟩ := List.mem_map.mp hr
      have hsound := score_sound rt draws arm label policy hasHoldout
        (loadCases customers consents attempts)
      have hmeasured := measured_score rt draws arm label policy hasHoldout
        (loadCases customers consents attempts)
      simp only [ArmReport.measured, Measured.mk.injEq] at hmeasured
      have hall := hsound.all
      rw [hmeasured.1] at hall
      exact ⟨hmeasured.1, hall, hsound.claim⟩
    · intro r hr harm
      obtain ⟨⟨arm, label, policy, hasHoldout⟩, hmem, rfl⟩ := List.mem_map.mp hr
      rw [arm_score] at harm
      subst harm
      have hholdout : hasHoldout = false := by
        simp only [arms, List.mem_cons, Prod.mk.injEq, List.not_mem_nil, or_false] at hmem
        rcases hmem with ⟨h, -⟩ | ⟨h, -⟩ | ⟨h, -⟩ | ⟨h, -⟩ | ⟨-, -, -, h⟩
        · exact absurd h (by decide)
        · exact absurd h (by decide)
        · exact absurd h (by decide)
        · exact absurd h (by decide)
        · exact h
      subst hholdout
      exact (score_sound rt draws _ label policy false _).claim.1.mpr
        (.inr (heldAsControl_of_no_holdout rt draws _ label policy _))

/-! ## Two failed payments -/

/-- Two failures of one customer, who has opted out of nothing. -/
def twoFailures : List PaymentAttempt :=
  [{ id := "pay_2", customerId := "cust_1", kind := .checkout, status := .failed
     amountPaise := 429900, attemptedAt := { utc := 17 * hour }, amountPositive := by decide },
    { id := "pay_1", customerId := "cust_1", kind := .invoice, status := .abandoned
      amountPaise := 1000000, attemptedAt := { utc := 6 * hour }, amountPositive := by decide }]

theorem runBenchmark_claims_twoFailures :
    ∃ report ∈ (runBenchmark plainRuntime (fun _ => 1 / 4) ["cust_1"] [] twoFailures).toOption,
      report.corpusCases = 2 ∧
      (∀ r ∈ report.arms, r.cases = 2 ∧ r.heldAsControl + r.contacted ≤ 2 ∧
        ∀ n, r.incrementalPaise = some n → n ≤ r.recoveredPaise) ∧
      ∀ r ∈ report.arms, r.arm = "no_holdout" → r.incrementalPaise = none := by
  obtain ⟨hall, hnone⟩ :=
    runBenchmark_claims plainRuntime (fun _ => 1 / 4) ["cust_1"] [] twoFailures _ rfl
  refine ⟨_, rfl, rfl, fun r hr => ?_, hnone⟩
  obtain ⟨hcases, hcounts, -, hclaim⟩ := hall r hr
  exact ⟨hcases, hcounts, fun n hn => (hclaim n hn).2⟩

end Benchmark

end AegisMerchant
