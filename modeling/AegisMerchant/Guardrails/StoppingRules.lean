import AegisMerchant.Base.Numeric
import AegisMerchant.Core.Runtime
import AegisMerchant.Db.Enums

/-!
# The twelve stopping rules

Every rule is a function from a frozen context to a result. All twelve are evaluated, then
combined: `STOP` beats `DEFER` beats `DEGRADE` beats `PROCEED`, and the degradations of every rule
are merged.
-/

namespace AegisMerchant

open Time Numeric

/-- What the engine concluded, in order of severity. -/
inductive Decision where
  | proceed | degrade | defer | stop
  deriving DecidableEq, Repr

def Decision.severity : Decision → ℕ
  | proceed => 0
  | degrade => 1
  | defer => 2
  | stop => 3

/-- A merchant's bounds, detached from the ORM. -/
structure PolicyLimits where
  maxAttemptsPerCase : ℤ := 2
  maxDiscountBearingAttempts : ℤ := 1
  maxContacts24h : ℤ := 1
  maxContacts48h : ℤ := 2
  quietHoursStartIst : ℤ := 21
  quietHoursEndIst : ℤ := 9
  quietHoursReleaseMinute : ℤ := 5
  dailyActionBudget : ℤ := 50
  monthlyDiscountExposurePaise : ℤ := 20000000
  promiseFreezeH : ℤ := 24
  deriving DecidableEq, Repr

/-- Everything the rules need, gathered once by the caller. -/
structure StoppingContext where
  nowUtc : DateTime
  policy : PolicyLimits
  caseStatus : CaseStatus := .detected
  attemptNo : ℤ := 0
  discountBearingAttempts : ℤ := 0
  windowExpiresAt : Option DateTime := none
  orderStatus : Option String := none
  optedOut : Bool := false
  dndRegistered : Bool := false
  marketingConsent : Bool := false
  transactionalConsent : Bool := true
  contacts24h : ℤ := 0
  contacts48h : ℤ := 0
  lastContactAt : Option DateTime := none
  promiseActive : Bool := false
  promisedAt : Option DateTime := none
  autopilotEnabled : Bool := true
  actionsToday : ℤ := 0
  discountExposureMtdPaise : ℤ := 0
  proposedMessageClass : MessageClass := .transactional
  proposedDiscountPct : ExtRat := .fin 0
  isOutboundContact : Bool := true
  deriving DecidableEq, Repr

/-- What a `DEGRADE` changes about the proposed action. -/
structure Degradations where
  discountPct : Option ℚ := none
  messageClass : Option MessageClass := none
  deriving DecidableEq, Repr

namespace Degradations

/-- `dict.update`: the later rule's entry wins. -/
def update (d e : Degradations) : Degradations where
  discountPct := e.discountPct <|> d.discountPct
  messageClass := e.messageClass <|> d.messageClass

def isEmpty (d : Degradations) : Bool := d.discountPct.isNone && d.messageClass.isNone

@[simp] theorem update_discountPct (d e : Degradations) :
    (d.update e).discountPct = (e.discountPct <|> d.discountPct) := rfl
@[simp] theorem update_messageClass (d e : Degradations) :
    (d.update e).messageClass = (e.messageClass <|> d.messageClass) := rfl

end Degradations

structure RuleResult where
  rule : StoppingRule
  decision : Decision
  detail : String
  terminalStatus : Option CaseStatus := none
  deferUntil : Option DateTime := none
  degrade : Degradations := {}
  deriving DecidableEq, Repr

structure StoppingVerdict where
  decision : Decision
  results : List RuleResult
  terminalStatus : Option CaseStatus := none
  deferUntil : Option DateTime := none
  degradations : Degradations := {}
  deriving DecidableEq, Repr

/-- The rule that decided the outcome, for the audit trail. -/
def StoppingVerdict.blockingRule (v : StoppingVerdict) : Option StoppingRule :=
  if v.decision = .proceed then none
  else (v.results.find? fun r => r.decision = v.decision).map (·.rule)

def StoppingVerdict.mayAct (v : StoppingVerdict) : Bool :=
  v.decision = .proceed || v.decision = .degrade

/-! ## Quiet hours -/

/-- Whether an instant falls inside the quiet window, in IST. The window may wrap midnight;
`start = end` disables it. -/
def inQuietHours (moment : DateTime) (startIst endIst : ℤ) : Bool :=
  if startIst = endIst then false
  else
    let hour := (toIst moment).hourOf
    if endIst < startIst then startIst ≤ hour || hour < endIst
    else startIst ≤ hour && hour < endIst

/-- The next instant at which sending is permitted, `moment` itself when it is. None stands for the
`ValueError` of `datetime.replace` on an hour or a minute out of range. -/
def nextQuietHoursRelease (moment : DateTime) (startIst endIst : ℤ) (releaseMinute : ℤ := 5) :
    Option DateTime :=
  if !inQuietHours moment startIst endIst then some moment
  else do
    let here := toIst moment
    let release ← here.replaceTime endIst releaseMinute
    let release := if release ≤ here then release.add day else release
    return release.astimezone moment.offset

/-! ## The twelve rules -/

def proceed (rule : StoppingRule) : RuleResult := { rule, decision := .proceed, detail := "ok" }

@[simp] theorem proceed_decision (rule : StoppingRule) : (proceed rule).decision = .proceed := rfl

/-- Paid without us. -/
def s01AlreadyResolved (ctx : StoppingContext) : RuleResult :=
  let status := ctx.orderStatus.getD ""
  if Text.lower status = "paid" ∨ Text.lower status = "captured" then
    { rule := .s01AlreadyResolved, decision := .stop
      detail := "order status is " ++ Text.repr status ++ "; resolved without intervention"
      terminalStatus := some .resolvedOrganic }
  else if ctx.caseStatus = .recovered ∨ ctx.caseStatus = .resolvedOrganic then
    { rule := .s01AlreadyResolved, decision := .stop
      detail := "case already terminal (" ++ ctx.caseStatus.value ++ ")"
      terminalStatus := some ctx.caseStatus }
  else proceed .s01AlreadyResolved

/-- A hard ceiling on attempts. -/
def s02AttemptBudget (ctx : StoppingContext) : RuleResult :=
  let limit := ctx.policy.maxAttemptsPerCase
  if limit ≤ ctx.attemptNo then
    { rule := .s02AttemptBudget, decision := .stop
      detail := s!"attempt budget exhausted ({ctx.attemptNo}/{limit})"
      terminalStatus := some .expired }
  else proceed .s02AttemptBudget

/-- Degrade, not stop: a further discount is stripped and the recovery goes out at 0%. -/
def s03DiscountAttemptBudget (ctx : StoppingContext) : RuleResult :=
  if ctx.proposedDiscountPct.Le (.fin 0) then proceed .s03DiscountAttemptBudget
  else
    let limit := ctx.policy.maxDiscountBearingAttempts
    if limit ≤ ctx.discountBearingAttempts then
      { rule := .s03DiscountAttemptBudget, decision := .degrade
        detail := s!"discount budget exhausted ({ctx.discountBearingAttempts}/{limit}); " ++
          "proceeding at 0%"
        degrade := { discountPct := some 0 } }
    else proceed .s03DiscountAttemptBudget

/-- At most so many contacts per 24 hours. Defers rather than stopping. -/
def s04ContactCap24h (ctx : StoppingContext) : RuleResult :=
  if !ctx.isOutboundContact then proceed .s04ContactCap24h
  else if ctx.contacts24h < ctx.policy.maxContacts24h then proceed .s04ContactCap24h
  else
    match ctx.lastContactAt with
    | none =>
      { rule := .s04ContactCap24h, decision := .stop
        detail := "24h contact cap reached and no last-contact timestamp to defer against"
        terminalStatus := some .suppressed }
    | some last =>
      let release := last.add day
      if release ≤ ctx.nowUtc then
        -- the count and the timestamp disagree, and the timestamp is trusted
        { rule := .s04ContactCap24h, decision := .proceed
          detail := s!"24h count is {ctx.contacts24h} but the last contact (" ++
            isoformat last ++ ") has aged out of the window" }
      else
        { rule := .s04ContactCap24h, decision := .defer
          detail := s!"24h contact cap reached ({ctx.contacts24h}/{ctx.policy.maxContacts24h})"
          deferUntil := some release }

/-- At most so many contacts per 48 hours. A hard stop, not a deferral. -/
def s05ContactCap48h (ctx : StoppingContext) : RuleResult :=
  if !ctx.isOutboundContact then proceed .s05ContactCap48h
  else if ctx.policy.maxContacts48h ≤ ctx.contacts48h then
    { rule := .s05ContactCap48h, decision := .stop
      detail := s!"48h contact cap reached ({ctx.contacts48h}/{ctx.policy.maxContacts48h})"
      terminalStatus := some .suppressed }
  else proceed .s05ContactCap48h

/-- The wall-clock deadline. -/
def s06RecoveryWindow (ctx : StoppingContext) : RuleResult :=
  match ctx.windowExpiresAt with
  | some expires =>
    if expires ≤ ctx.nowUtc then
      { rule := .s06RecoveryWindow, decision := .stop
        detail := "recovery window closed at " ++ isoformat expires
        terminalStatus := some .expired }
    else proceed .s06RecoveryWindow
  | none => proceed .s06RecoveryWindow

/-- Someone said stop. -/
def s07OptOut (ctx : StoppingContext) : RuleResult :=
  if ctx.optedOut && ctx.isOutboundContact then
    { rule := .s07OptOut, decision := .stop
      detail := "customer has opted out; no further contact on any case"
      terminalStatus := some .suppressed }
  else proceed .s07OptOut

/-- Marketing needs opt-in; transactional does not. -/
def s08ConsentClass (ctx : StoppingContext) : RuleResult :=
  if !ctx.isOutboundContact then proceed .s08ConsentClass
  else if ctx.proposedMessageClass = .marketing ∧
      (ctx.marketingConsent = false ∨ ctx.dndRegistered = true) then
    let reason := if !ctx.marketingConsent then "no marketing consent" else "DND-registered"
    if ctx.transactionalConsent then
      { rule := .s08ConsentClass, decision := .degrade
        detail := reason ++ "; downgrading to a transactional message at 0% discount"
        degrade := { discountPct := some 0, messageClass := some .transactional } }
    else
      { rule := .s08ConsentClass, decision := .stop
        detail := reason ++ " and no transactional consent either"
        terminalStatus := some .suppressed }
  else if !ctx.transactionalConsent then
    { rule := .s08ConsentClass, decision := .stop
      detail := "no transactional consent on record"
      terminalStatus := some .suppressed }
  else proceed .s08ConsentClass

/-- Held for quiet hours, never dropped. The one rule that can raise. -/
def s09QuietHours (ctx : StoppingContext) : Except PyError RuleResult :=
  if !ctx.isOutboundContact then .ok (proceed .s09QuietHours)
  else if !inQuietHours ctx.nowUtc ctx.policy.quietHoursStartIst ctx.policy.quietHoursEndIst then
    .ok (proceed .s09QuietHours)
  else
    match nextQuietHoursRelease ctx.nowUtc ctx.policy.quietHoursStartIst
        ctx.policy.quietHoursEndIst ctx.policy.quietHoursReleaseMinute with
    | none => .error (.valueError "hour or minute out of range")
    | some release =>
      .ok { rule := .s09QuietHours, decision := .defer
            detail := "quiet hours in IST; holding until " ++ hourMinute (toIst release) ++ " IST"
            deferUntil := some release }

/-- Someone said "Friday": stop chasing them until Friday has passed. -/
def s10PromiseFreeze (ctx : StoppingContext) : RuleResult :=
  match ctx.promiseActive, ctx.promisedAt with
  | true, some promised =>
    let thaw := promised.add (ctx.policy.promiseFreezeH * hour)
    if ctx.nowUtc < thaw then
      { rule := .s10PromiseFreeze, decision := .defer
        detail := "promise to pay by " ++ isoformat promised ++ "; frozen until " ++
          isoformat thaw
        deferUntil := some thaw }
    else proceed .s10PromiseFreeze
  | _, _ => proceed .s10PromiseFreeze

/-- Per-merchant circuit breakers. -/
def s11MerchantBudget (ctx : StoppingContext) : RuleResult :=
  if ctx.policy.dailyActionBudget ≤ ctx.actionsToday then
    { rule := .s11MerchantBudget, decision := .stop
      detail := "merchant daily action budget exhausted " ++
        s!"({ctx.actionsToday}/{ctx.policy.dailyActionBudget})"
      terminalStatus := some .suppressed }
  else if ctx.policy.monthlyDiscountExposurePaise ≤ ctx.discountExposureMtdPaise then
    { rule := .s11MerchantBudget, decision := .stop
      detail := "monthly discount exposure exhausted (₹" ++
        rupeesText ctx.discountExposureMtdPaise ++ ")"
      terminalStatus := some .suppressed }
  else proceed .s11MerchantBudget

/-- One toggle, effective on the next evaluation. -/
def s12KillSwitch (ctx : StoppingContext) : RuleResult :=
  if !ctx.autopilotEnabled then
    { rule := .s12KillSwitch, decision := .stop
      detail := "autopilot is disabled for this merchant"
      terminalStatus := some .suppressed }
  else proceed .s12KillSwitch

/-- `RULES`, applied to one context in evaluation order, the result of the rule that can raise
being given. -/
def ruleResults (ctx : StoppingContext) (quiet : RuleResult) : List RuleResult :=
  [s12KillSwitch ctx, s01AlreadyResolved ctx, s07OptOut ctx, s06RecoveryWindow ctx,
    s02AttemptBudget ctx, s11MerchantBudget ctx, s05ContactCap48h ctx, s08ConsentClass ctx,
    s10PromiseFreeze ctx, s04ContactCap24h ctx, quiet, s03DiscountAttemptBudget ctx]

/-! ## Combining them -/

/-- The four accumulators of `evaluate`'s loop. -/
structure Merged where
  decision : Decision := .proceed
  terminal : Option CaseStatus := none
  deferUntil : Option DateTime := none
  degradations : Degradations := {}

/-- One turn of the loop. -/
def Merged.absorb (m : Merged) (r : RuleResult) : Merged :=
  let degradations :=
    if r.decision = .degrade then m.degradations.update r.degrade else m.degradations
  if m.decision.severity < r.decision.severity then
    { decision := r.decision, terminal := r.terminalStatus, deferUntil := r.deferUntil
      degradations }
  else
    match r.deferUntil, m.deferUntil with
    | some d, some current =>
      -- several holds at once: honour the latest
      if r.decision = m.decision ∧ m.decision = .defer ∧ current < d then
        { m with deferUntil := some d, degradations }
      else { m with degradations }
    | _, _ => { m with degradations }

/-- A deferral that does not move the clock forward is no deferral. -/
def Merged.forward (m : Merged) (now : DateTime) : Merged :=
  match m.deferUntil with
  | some d =>
    if m.decision = .defer ∧ d ≤ now then
      { m with deferUntil := none
               decision := if m.degradations.isEmpty then .proceed else .degrade }
    else m
  | none => m

/-- The verdict on merged results. A deferral past the recovery window becomes a stop. -/
def Merged.verdict (m : Merged) (ctx : StoppingContext) (results : List RuleResult) :
    StoppingVerdict :=
  let plain : StoppingVerdict :=
    { decision := m.decision, results, terminalStatus := m.terminal, deferUntil := m.deferUntil
      degradations := m.degradations }
  match m.deferUntil, ctx.windowExpiresAt with
  | some d, some expires =>
    if m.decision = .defer ∧ expires ≤ d then
      { decision := .stop
        results := results ++
          [{ rule := .s06RecoveryWindow, decision := .stop
             detail := "deferral to " ++ isoformat d ++ " would fall outside the recovery " ++
               "window closing " ++ isoformat expires
             terminalStatus := some .expired }]
        terminalStatus := some .expired
        degradations := m.degradations }
    else plain
  | _, _ => plain

def combine (ctx : StoppingContext) (results : List RuleResult) : StoppingVerdict :=
  ((results.foldl Merged.absorb {}).forward ctx.nowUtc).verdict ctx results

/-- Run all twelve rules and combine them. -/
def evaluate (ctx : StoppingContext) : Except PyError StoppingVerdict := do
  let quiet ← s09QuietHours ctx
  return combine ctx (ruleResults ctx quiet)

/-- The context with the verdict's reductions applied. -/
def applyDegradations (ctx : StoppingContext) (verdict : StoppingVerdict) : StoppingContext :=
  { ctx with
    proposedDiscountPct :=
      verdict.degradations.discountPct.elim ctx.proposedDiscountPct ExtRat.fin
    proposedMessageClass :=
      verdict.degradations.messageClass.getD ctx.proposedMessageClass }

end AegisMerchant
