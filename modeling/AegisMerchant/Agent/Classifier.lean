import AegisMerchant.Base.Numeric
import AegisMerchant.Base.Text
import AegisMerchant.Db.Enums

/-!
# The deterministic failure classifier

A diagnosis from the provider's own telemetry. `classify` never raises: every input produces a
diagnosis, whose confidence says how specific the evidence was.
-/

namespace AegisMerchant

open Numeric

/-- A classification, plus what it implies for recovery. -/
structure Diagnosis where
  category : FailureCategory
  isRecoverable : Bool
  retrySameRail : Bool
  requiresReauth : Bool
  discountCouldHelp : Bool
  confidence : ℚ
  reasoning : String
  source : DiagnosisSource := .deterministicFallback
  signalsConflict : Bool := false
  missingFields : List String := []
  deriving DecidableEq, Repr

/-- Whether a cognitive second opinion is worth its cost. -/
def Diagnosis.needsLlmReview (d : Diagnosis) : Bool := d.signalsConflict || d.confidence < 6 / 10

/-! ## Confidence, by strength of evidence -/

def confExact : ℚ := 95 / 100
def confSourceStep : ℚ := 85 / 100
def confSourceOnly : ℚ := 65 / 100
def confReasonOnly : ℚ := 60 / 100
def confConflict : ℚ := 45 / 100
def confNone : ℚ := 25 / 100

/-! ## The tables -/

/-- `_REASON_MARKERS`: substrings of the reason, the most specific first. -/
def reasonMarkers : List (String × FailureCategory) :=
  [("mandate_revoked", .mandateInvalid), ("mandate_not_active", .mandateInvalid),
   ("mandate_cancelled", .mandateInvalid), ("mandate_expired", .mandateInvalid),
   ("mandate_not_found", .mandateInvalid), ("mandate", .mandateInvalid),
   ("payment_cancelled", .authenticationAbandoned), ("by_user", .authenticationAbandoned),
   ("user_cancel", .authenticationAbandoned), ("cancelled_by", .authenticationAbandoned),
   ("canceled_by", .authenticationAbandoned), ("user_closed", .authenticationAbandoned),
   ("collect_request_expired", .authenticationAbandoned),
   ("session_expired", .authenticationAbandoned), ("incorrect_otp", .authenticationAbandoned),
   ("otp", .authenticationAbandoned), ("authentication_failed", .authenticationAbandoned),
   ("authentication_cancelled", .authenticationAbandoned),
   ("insufficient_funds", .insufficientFunds), ("insufficient_balance", .insufficientFunds),
   ("credit_limit", .insufficientFunds), ("exceeds_limit", .insufficientFunds),
   ("limit_exceed", .insufficientFunds), ("limit_or_funds", .insufficientFunds),
   ("suspected_fraud", .riskBlocked), ("fraud", .riskBlocked), ("blocked", .riskBlocked),
   ("risk", .riskBlocked),
   ("timed_out", .railFault), ("timeout", .railFault), ("downtime", .railFault),
   ("unavailable", .railFault), ("unreachable", .railFault), ("gateway", .railFault),
   ("response_not_received", .railFault), ("service_error", .railFault),
   ("reconciliation_mismatch", .railFault)]

/-- `_SOURCE_STEP`, which lists every pair. -/
def sourceStep : ErrorSource → ErrorStep → FailureCategory
  | .bank, _ => .railFault
  | .gateway, _ => .railFault
  | .internal, _ => .railFault
  | .customer, .paymentAuthorization => .insufficientFunds
  | .customer, _ => .authenticationAbandoned
  | .business, _ => .riskBlocked
  | .nbfc, .paymentAuthorization => .insufficientFunds
  | .nbfc, _ => .railFault

/-- `_SOURCE_ONLY`, which lists every source. -/
def sourceOnly : ErrorSource → FailureCategory
  | .bank | .gateway | .internal | .nbfc => .railFault
  | .customer => .authenticationAbandoned
  | .business => .riskBlocked

/-- What a category means for recovery. -/
structure Implications where
  isRecoverable : Bool
  retrySameRail : Bool
  requiresReauth : Bool
  discountCouldHelp : Bool

def implications : FailureCategory → Implications
  | .railFault => ⟨true, false, false, false⟩
  | .insufficientFunds => ⟨true, true, false, true⟩
  | .authenticationAbandoned => ⟨true, true, false, false⟩
  | .mandateInvalid => ⟨true, false, true, false⟩
  | .priceResistance => ⟨true, true, false, true⟩
  | .intentDecay => ⟨true, true, false, true⟩
  | .riskBlocked => ⟨false, false, false, false⟩
  | .unknown => ⟨true, true, false, false⟩

/-! ## Reading the telemetry -/

/-- `_coerce`: the member, and whether a value was there but not recognised. -/
def coerce {α : Type} (value : Option String) (ofValue? : String → Option α) : Option α × Bool :=
  match value with
  | none => (none, false)
  | some v =>
    let cleaned := Text.lower (Text.strip v)
    if cleaned = "" then (none, false)
    else
      match ofValue? cleaned with
      | some m => (some m, false)
      | none => (none, true)

/-- `_match_reason`: the category of the first marker the reason contains. -/
def matchReason (reason : Option String) : Option FailureCategory :=
  let text := Text.lower (Text.strip (reason.getD ""))
  if text = "" then none
  else (reasonMarkers.find? fun m => Text.Contains m.1 text).map (·.2)

/-- `_build`: the implications of a category are those of the table. -/
def build (category : FailureCategory) (confidence : ℚ) (reasoning : String)
    (conflict : Bool := false) (missing : List String := []) : Diagnosis where
  category
  isRecoverable := (implications category).isRecoverable
  retrySameRail := (implications category).retrySameRail
  requiresReauth := (implications category).requiresReauth
  discountCouldHelp := (implications category).discountCouldHelp
  confidence
  reasoning
  signalsConflict := conflict
  missingFields := missing

@[simp] theorem build_category (c : FailureCategory) (q : ℚ) (r : String) (b : Bool)
    (ms : List String) : (build c q r b ms).category = c := rfl

@[simp] theorem build_requiresReauth (c : FailureCategory) (q : ℚ) (r : String) (b : Bool)
    (ms : List String) :
    (build c q r b ms).requiresReauth = (implications c).requiresReauth := rfl

/-- Classify a payment failure from the provider's telemetry. The payment method is not used. -/
def classify (errorSource errorStep errorReason _method : Option String) : Diagnosis :=
  let (source, sourceUnknown) := coerce errorSource ErrorSource.ofValue?
  let (step, stepUnknown) := coerce errorStep ErrorStep.ofValue?
  let reasonCategory := matchReason errorReason
  let noReason : Bool := errorReason.getD "" = ""
  let missing :=
    (if source.isNone then ["error_source"] else []) ++
    (if step.isNone then ["error_step"] else []) ++ (if noReason then ["error_reason"] else [])
  match source, reasonCategory with
  | none, none =>
    let note :=
      if sourceUnknown then "unrecognised error_source " ++ Text.reprOption errorSource
      else "no recognised error_source or error_reason"
    build .unknown confNone ("Insufficient telemetry to classify: " ++ note ++ ".") false missing
  | none, some reason =>
    build reason confReasonOnly
      ("Classified from error_reason alone (" ++ Text.reprOption errorReason ++
        "); error_source " ++ (if sourceUnknown then "unrecognised" else "absent") ++ ".")
      false missing
  | some source, reasonCategory =>
    -- the safety gate: no reason string unblocks a business block
    if source = .business then
      build .riskBlocked (if noReason then confSourceOnly else confExact)
        ("error_source=business: the merchant's own risk controls rejected this payment" ++
          (if noReason then "" else " (" ++ Text.reprOption errorReason ++ ")") ++
          ". Not recoverable autonomously under any reason string.")
    else if reasonCategory = some .mandateInvalid then
      build .mandateInvalid confExact
        ("Mandate is not active (" ++ Text.reprOption errorReason ++
          "); retrying cannot succeed and would consume a re-presentation. " ++
          "Re-authorisation required.")
    else
      match step, reasonCategory with
      | some step, some reason =>
        let stepCategory := sourceStep source step
        if stepCategory = reason then
          build reason confExact
            ("Razorpay reports error_source=" ++ source.value ++ ", error_step=" ++ step.value ++
              ", reason=" ++ Text.reprOption errorReason ++ ". All three agree.")
        else
          build reason confConflict
            ("Conflicting signals: (source=" ++ source.value ++ ", step=" ++ step.value ++
              ") implies " ++ stepCategory.value ++ ", but reason " ++
              Text.reprOption errorReason ++ " implies " ++ reason.value ++
              ". Taking the more specific reason; flagged for review.")
            true
      | some step, none =>
        build (sourceStep source step) confSourceStep
          ("Razorpay reports error_source=" ++ source.value ++ ", error_step=" ++ step.value ++
            ". No usable error_reason.")
          false missing
      | none, some reason =>
        build reason confSourceOnly
          ("Classified from error_reason " ++ Text.reprOption errorReason ++ "; (source=" ++
            source.value ++ ", step=" ++ Text.reprOption errorStep ++
            ") is not a recognised pair.")
          false missing
      | none, none =>
        build (sourceOnly source) confSourceOnly
          ("Razorpay reports error_source=" ++ source.value ++ "; " ++
            (if stepUnknown then "unrecognised error_step " ++ Text.reprOption errorStep
              else "no error_step reported") ++ ".")
          false missing

/-- `f"{q:.1f}"` for a non-negative rational. -/
def oneDecimal (q : ℚ) : String :=
  let n := (roundHalfEven (q * 10)).toNat
  toString (n / 10) ++ "." ++ toString (n % 10)

/-- Classify an abandoned checkout: nothing failed, so only behaviour is left to read. -/
def classifyAbandonedCheckout (ltvPaise priorOrders cartAmountPaise : ℤ) : Diagnosis :=
  if 2 ≤ priorOrders ∧ 0 < ltvPaise then
    let avg := ltvPaise / max priorOrders 1
    if avg * 2 < cartAmountPaise then
      build .priceResistance confSourceOnly
        (s!"Repeat customer ({priorOrders} orders) abandoned a cart " ++
          oneDecimal ((cartAmountPaise : ℚ) / max avg 1) ++ "x their average order value.")
    else
      build .intentDecay confSourceOnly
        (s!"Repeat customer ({priorOrders} orders) abandoned a cart in their " ++
          "normal range; more likely a distraction than a pricing objection.")
  else
    build .intentDecay confConflict
      ("First-time or low-history customer; no behavioural baseline to compare " ++
        "against. Intent unclear from behaviour alone.")
      false ["purchase_history"]

/-! ## What a diagnosis says -/

/-- A diagnosis of the rule table, with the implications of its own category. -/
def Diagnosis.Built (d : Diagnosis) : Prop :=
  ∃ category confidence reasoning conflict missing,
    d = build category confidence reasoning conflict missing

theorem built_build (category : FailureCategory) (confidence : ℚ) (reasoning : String)
    (conflict : Bool) (missing : List String) :
    (build category confidence reasoning conflict missing).Built := ⟨_, _, _, _, _, rfl⟩

theorem classify_built (source step reason method : Option String) :
    (classify source step reason method).Built := by
  unfold classify
  simp only
  split
  · exact built_build _ _ _ _ _
  · exact built_build _ _ _ _ _
  · split
    · exact built_build _ _ _ _ _
    · split
      · exact built_build _ _ _ _ _
      · split
        · split <;> exact built_build _ _ _ _ _
        · exact built_build _ _ _ _ _
        · exact built_build _ _ _ _ _
        · exact built_build _ _ _ _ _

theorem classifyAbandonedCheckout_built (ltv prior cart : ℤ) :
    (classifyAbandonedCheckout ltv prior cart).Built := by
  unfold classifyAbandonedCheckout
  split
  · simp only
    split <;> exact built_build _ _ _ _ _
  · exact built_build _ _ _ _ _

/-- **A diagnosis means what its category means.** -/
structure Diagnosis.Means (d : Diagnosis) : Prop where
  retry : d.retrySameRail = (implications d.category).retrySameRail
  reauth : d.requiresReauth = (implications d.category).requiresReauth
  discount : d.discountCouldHelp = (implications d.category).discountCouldHelp
  recoverable : d.isRecoverable = true → (implications d.category).isRecoverable = true

/-- Every diagnosis of the rule table means what its own category means. -/
theorem Diagnosis.Built.means {d : Diagnosis} (h : d.Built) : d.Means := by
  obtain ⟨category, confidence, reasoning, conflict, missing, rfl⟩ := h
  exact ⟨rfl, rfl, rfl, id⟩

/-- No model had a part in it. -/
theorem Diagnosis.Built.source {d : Diagnosis} (h : d.Built) :
    d.source = .deterministicFallback := by
  obtain ⟨category, confidence, reasoning, conflict, missing, rfl⟩ := h
  rfl

/-- Every diagnosis of the rule table carries the implications of its own category. -/
theorem classify_requiresReauth (source step reason method : Option String) :
    (classify source step reason method).requiresReauth =
      (implications (classify source step reason method).category).requiresReauth :=
  (classify_built source step reason method).means.reauth

/-- An abandoned checkout is never read as a risk block or a dead mandate. -/
theorem classifyAbandonedCheckout_category (ltv prior cart : ℤ) :
    (classifyAbandonedCheckout ltv prior cart).category = .priceResistance ∨
      (classifyAbandonedCheckout ltv prior cart).category = .intentDecay := by
  unfold classifyAbandonedCheckout
  split
  · simp only
    split
    · exact .inl rfl
    · exact .inr rfl
  · exact .inr rfl

theorem classifyAbandonedCheckout_requiresReauth (ltv prior cart : ℤ) :
    (classifyAbandonedCheckout ltv prior cart).requiresReauth = false := by
  unfold classifyAbandonedCheckout
  split
  · simp only
    split <;> rfl
  · rfl

example : (classify (some "bank") (some "payment_authorization") (some "suspected_fraud")
    none).category = .riskBlocked := by decide +kernel

end AegisMerchant
