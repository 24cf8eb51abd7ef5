import AegisMerchant.Db.Ids
import AegisMerchant.Guardrails.StoppingRules
import AegisMerchant.Guardrails.Token

/-!
# The policy firewall

A proposal is a description, a verdict is a decision. Every function here threads the list of
clamps recorded so far, as the source appends to one list.
-/

namespace AegisMerchant

open Time Numeric

/-- Money and expiry bounds. -/
structure PolicyLimitsFull where
  maxAutonomousAmountPaise : ℤ := 1000000
  hitlDualSignalAmountPaise : ℤ := 10000000
  maxDiscountPct : ℚ := 7
  defaultDiscountPct : ℚ := 5
  maxDiscountAbsolutePaise : ℤ := 50000
  linkExpiryMinutes : ℤ := 30
  linkExpiryMinMinutes : ℤ := 15
  linkExpiryMaxMinutes : ℤ := 1440
  deriving DecidableEq, Repr

/-- A proposed link validity: an integer, or a value `int()` refuses, by its `repr`. -/
inductive Validity where
  | minutes (n : ℤ)
  | unreadable (text : String)
  deriving DecidableEq, Repr

/-- What the model suggests. Untrusted, and without a reference id. -/
structure RecoveryProposal where
  strategy : RecoveryStrategy := .freshLinkSameRail
  discountPct : ExtRat := .fin 0
  linkValidityMinutes : Validity := .minutes 30
  channel : Channel := .whatsapp
  messageClass : MessageClass := .transactional
  rationale : String := ""
  deriving DecidableEq, Repr

/-- Ground truth the firewall checks the proposal against. -/
structure PolicyContext where
  caseId : String
  orderAmountPaise : ℤ
  attemptNo : ℤ
  arm : ExperimentArm
  stopping : StoppingContext
  limits : PolicyLimitsFull := {}
  approvedActionHash : Option String := none
  deriving DecidableEq, Repr

inductive ClampValue where
  | number (x : ExtRat)
  | integer (n : ℤ)
  | validity (v : Validity)
  | messageClass (c : MessageClass)
  deriving DecidableEq, Repr

/-- One interception. `isViolation` only when the proposal breached a hard bound. -/
structure Clamp where
  fieldName : String
  proposed : ClampValue
  applied : ClampValue
  reason : String
  isViolation : Bool := false
  deriving DecidableEq, Repr

/-- What the firewall decided. The token is only present when the verdict is `PASSED`. -/
structure PolicyDecision where
  verdict : PolicyVerdict
  applied : Option AppliedAction := none
  token : Option PolicyToken := none
  clamps : List Clamp := []
  blockReasons : List String := []
  escalationRung : EscalationRung := .a0Autonomous
  stopping : Option StoppingVerdict := none
  deriving DecidableEq, Repr

variable (rt : Runtime)

/-! ## Sanitisers -/

/-- Reduce a proposed discount to something permitted. Above the ceiling it becomes the safe
default, not the ceiling. -/
def sanitiseDiscount (proposed : ExtRat) (limits : PolicyLimitsFull) (clamps : List Clamp) :
    ℚ × List Clamp :=
  match proposed with
  | .fin value =>
    if value < 0 then
      (0, clamps ++ [{ fieldName := "discount_pct", proposed := .number (.fin value)
                       applied := .number (.fin 0), reason := "negative discount"
                       isViolation := true }])
    else if limits.maxDiscountPct < value then
      let applied := min limits.defaultDiscountPct limits.maxDiscountPct
      (applied, clamps ++ [{ fieldName := "discount_pct", proposed := .number (.fin value)
                             applied := .number (.fin applied)
                             reason := "exceeds ceiling " ++ rt.floatRepr limits.maxDiscountPct ++
                               "%; reset to the safe default"
                             isViolation := true }])
    else (value, clamps)
  -- no comparison holds of NaN, so it is not left to the bounds
  | hostile =>
    (0, clamps ++ [{ fieldName := "discount_pct", proposed := .number hostile
                     applied := .number (.fin 0)
                     reason := "non-finite value (NaN or infinity)", isViolation := true }])

/-- A discount cannot ride along inside a transactional message. -/
def stripTransactional (cls : MessageClass) (pct : ℚ) (clamps : List Clamp) : ℚ × List Clamp :=
  if cls = .transactional ∧ 0 < pct then
    (0, clamps ++ [{ fieldName := "discount_pct", proposed := .number (.fin pct)
                     applied := .number (.fin 0)
                     reason := "transactional message cannot carry an offer" }])
  else (pct, clamps)

/-- Enforce the rupee ceiling as well as the percentage ceiling. -/
def applyAbsoluteCap (pct : ℚ) (amountPaise : ℤ) (limits : PolicyLimitsFull)
    (clamps : List Clamp) : (ℚ × ℤ) × List Clamp :=
  if pct ≤ 0 ∨ amountPaise ≤ 0 then ((0, 0), clamps)
  else
    let discountPaise := truncInt (amountPaise * pct / 100)
    let cappedPaise := limits.maxDiscountAbsolutePaise
    if discountPaise ≤ cappedPaise then ((pct, discountPaise), clamps)
    else
      let cappedPct := roundDigits 4 (cappedPaise * 100 / amountPaise)
      ((cappedPct, cappedPaise),
        clamps ++ [{ fieldName := "discount_amount_paise", proposed := .integer discountPaise
                     applied := .integer cappedPaise
                     reason := "exceeds absolute cap ₹" ++ rupeesText cappedPaise ++
                       "; percentage reduced " ++ rt.floatRepr pct ++ "% -> " ++
                       rt.floatRepr cappedPct ++ "%" }])

/-- There is nothing to discount when nothing is done. -/
def zeroNoAction (strategy : RecoveryStrategy) (discount : ℚ × ℤ) (clamps : List Clamp) :
    (ℚ × ℤ) × List Clamp :=
  if strategy = .noAction ∧ (discount.1 ≠ 0 ∨ discount.2 ≠ 0) then
    ((0, 0), clamps ++ [{ fieldName := "discount_pct", proposed := .number (.fin discount.1)
                          applied := .number (.fin 0)
                          reason := "NO_ACTION: nothing to discount" }])
  else (discount, clamps)

def sanitiseExpiry (proposed : Validity) (limits : PolicyLimitsFull) (clamps : List Clamp) :
    ℤ × List Clamp :=
  match proposed with
  | .unreadable text =>
    (limits.linkExpiryMinutes,
      clamps ++ [{ fieldName := "link_expiry_minutes", proposed := .validity (.unreadable text)
                   applied := .integer limits.linkExpiryMinutes, reason := "not an integer" }])
  | .minutes value =>
    if value < limits.linkExpiryMinMinutes then
      (limits.linkExpiryMinMinutes,
        clamps ++ [{ fieldName := "link_expiry_minutes", proposed := .integer value
                     applied := .integer limits.linkExpiryMinMinutes
                     reason := s!"below the {limits.linkExpiryMinMinutes}-minute floor" }])
    else if limits.linkExpiryMaxMinutes < value then
      (limits.linkExpiryMaxMinutes,
        clamps ++ [{ fieldName := "link_expiry_minutes", proposed := .integer value
                     applied := .integer limits.linkExpiryMaxMinutes
                     reason := s!"above the {limits.linkExpiryMaxMinutes}-minute ceiling" }])
    else (value, clamps)

/-- Authority ladder. `NO_ACTION` is exempt from it. -/
def escalationRung (amountPaise : ℤ) (discountPct : ℚ) (limits : PolicyLimitsFull)
    (clamps : List Clamp) (strategy : RecoveryStrategy) : EscalationRung :=
  if strategy = .noAction then .a0Autonomous
  else if limits.hitlDualSignalAmountPaise ≤ amountPaise then .a3ApprovalDual
  else if limits.maxAutonomousAmountPaise ≤ amountPaise then .a2Approval
  else if clamps.any (·.isViolation) then .a2Approval
  else if 0 < discountPct then .a1Flagged
  else .a0Autonomous

/-! ## The firewall -/

def blockingDetail (stopping : StoppingVerdict) : String :=
  match stopping.results.find? fun r => some r.rule = stopping.blockingRule with
  | some r => r.detail
  | none => "blocked"

/-- Step 0: the proposal copied into the stopping context. -/
def proposedContext (proposal : RecoveryProposal) (ctx : PolicyContext) : StoppingContext :=
  { ctx.stopping with
    proposedMessageClass := proposal.messageClass
    proposedDiscountPct := .fin proposal.discountPct.finiteOrZero }

/-- Steps 1 to 3: the hard refusals. -/
def hardRefusals (ctx : PolicyContext) (stopping : StoppingVerdict) : List String :=
  (if ctx.orderAmountPaise ≤ 0 then
    [s!"order amount is not positive ({ctx.orderAmountPaise})"] else []) ++
  (if stopping.decision = .stop then
    ["stopping rule " ++ (stopping.blockingRule.map (·.value)).getD "unknown" ++ ": " ++
      blockingDetail stopping] else []) ++
  (if ctx.arm = .control then
    ["assigned to the CONTROL arm; observed without intervention"] else [])

/-- The clamp recorded when the message class changed. -/
def classClamps (proposal : RecoveryProposal) (effective : MessageClass) : List Clamp :=
  if effective ≠ proposal.messageClass then
    [{ fieldName := "message_class", proposed := .messageClass proposal.messageClass
       applied := .messageClass effective, reason := "consent class downgrade" }]
  else []

/-- Step 4: the proposal clamped down to something permitted. -/
def clampedAction (proposal : RecoveryProposal) (ctx : PolicyContext)
    (stopping : StoppingVerdict) (effective : MessageClass) (clamps : List Clamp) :
    AppliedAction × List Clamp :=
  let (pct, clamps) := sanitiseDiscount rt proposal.discountPct ctx.limits clamps
  -- the class is the degraded one, the discount still the proposal's
  let (pct, clamps) := stripTransactional effective pct clamps
  let (discount, clamps) := applyAbsoluteCap rt pct ctx.orderAmountPaise ctx.limits clamps
  let ((pct, paise), clamps) := zeroNoAction proposal.strategy discount clamps
  let (expiry, clamps) := sanitiseExpiry proposal.linkValidityMinutes ctx.limits clamps
  ({ caseId := ctx.caseId
     strategy := proposal.strategy
     -- the amount and the reference are the case's own, never the proposal's
     amountPaise := ctx.orderAmountPaise
     discountPct := pct
     discountAmountPaise := paise
     chargeAmountPaise := ctx.orderAmountPaise - paise
     linkExpiryMinutes := expiry
     channel := proposal.channel
     messageClass := effective
     escalationRung := escalationRung ctx.orderAmountPaise pct ctx.limits clamps proposal.strategy
     referenceId := referenceId ctx.caseId ctx.attemptNo
     attemptNo := ctx.attemptNo
     sendAfter := if stopping.decision = .defer then stopping.deferUntil else none }, clamps)

def EscalationRung.needsHuman (rung : EscalationRung) : Bool :=
  rung = .a2Approval || rung = .a3ApprovalDual

/-- Steps 5 and 6: escalate where authority requires it, else mint the capability. -/
def authorise (ctx : PolicyContext) (stopping : StoppingVerdict) (applied : AppliedAction)
    (clamps : List Clamp) (now : DateTime) : PolicyDecision :=
  if applied.escalationRung.needsHuman ∧
      ctx.approvedActionHash ≠ some (applied.contentHash rt) then
    { verdict := .escalateHitl
      applied := some applied
      clamps
      blockReasons :=
        [if ctx.approvedActionHash = none then
          "amount ₹" ++ rupeesText ctx.orderAmountPaise ++ " requires approval at rung " ++
            applied.escalationRung.value
        else "the approved action does not match the action about to execute"]
      escalationRung := applied.escalationRung
      stopping := some stopping }
  else
    { verdict := .passed
      applied := some applied
      token := some (mint rt applied now)
      clamps
      escalationRung := applied.escalationRung
      stopping := some stopping }

/-- The firewall on a stopping verdict already reached. -/
def policyDecision (proposal : RecoveryProposal) (ctx : PolicyContext) (stopping : StoppingVerdict)
    (now : DateTime) : PolicyDecision :=
  let effective :=
    (applyDegradations (proposedContext proposal ctx) stopping).proposedMessageClass
  let clamps := classClamps proposal effective
  let blocks := hardRefusals ctx stopping
  if blocks ≠ [] then
    { verdict := .blocked, clamps, blockReasons := blocks, stopping := some stopping }
  else
    let (applied, clamps) := clampedAction rt proposal ctx stopping effective clamps
    authorise rt ctx stopping applied clamps now

/-- The firewall: the only place a token is minted for a new action. -/
def evaluatePolicy (proposal : RecoveryProposal) (ctx : PolicyContext) (now : DateTime) :
    Except PyError PolicyDecision := do
  let stopping ← evaluate (proposedContext proposal ctx)
  return policyDecision rt proposal ctx stopping now

end AegisMerchant
