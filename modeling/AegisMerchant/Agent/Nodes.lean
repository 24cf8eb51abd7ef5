import AegisMerchant.Agent.Playbooks
import AegisMerchant.Agent.State
import AegisMerchant.Services.Experiments

/-!
# The seven nodes

Each node is a function from state to state in a monad `m` that can raise: the clock, the model and
the executor are injected through `AgentDeps`. None of the nodes decides what runs next.
-/

namespace AegisMerchant

open Time Numeric

universe u

variable {m : Type → Type u}

/-- Everything the nodes need from the outside world. -/
structure AgentDeps (m : Type → Type u) where
  now : m DateTime
  adapter : Option (Adapter m) := none
  executor : Option (RecoveryState → m RecoveryState) := none
  stoppingLimits : PolicyLimits := {}
  moneyLimits : PolicyLimitsFull := {}
  controlArmFraction : ℚ := 18 / 100
  experimentKey : String := "revpilot_recovery_v1"
  maxLlmCalls : ℤ := 3

def stoppingContext (s : RecoveryState) (limits : PolicyLimits) (now : DateTime) :
    StoppingContext where
  nowUtc := now
  policy := limits
  caseStatus := s.status
  attemptNo := s.attemptNo
  discountBearingAttempts := s.discountBearingAttempts
  windowExpiresAt := s.windowExpiresAt
  orderStatus := s.orderStatus
  optedOut := s.consentOptedOut
  dndRegistered := s.consentDnd
  marketingConsent := s.consentMarketing
  transactionalConsent := s.consentTransactional
  contacts24h := s.contacts24h
  contacts48h := s.contacts48h
  lastContactAt := s.lastContactAt
  autopilotEnabled := s.autopilotEnabled
  promiseActive := s.promiseActive
  promisedAt := s.promisedAt
  actionsToday := s.actionsToday
  discountExposureMtdPaise := s.discountExposureMtdPaise

def llmContext (s : RecoveryState) : LlmContext where
  playbook := s.playbook.value
  errorSource := s.errorSource
  errorStep := s.errorStep
  errorReason := s.errorReason
  method := s.method
  customerLtvPaise := s.customerLtvPaise
  customerPriorOrders := s.customerPriorOrders
  amountPaise := s.amountPaise

section Nodes

variable [Monad m] (rt : Runtime) (s : RecoveryState) (deps : AgentDeps m)

/-! ## Before the proposal -/

/-- Gather context. No decisions, no spend. -/
def enrichNode : m RecoveryState := do
  return s.withTrace ⟨"ENRICH", "database", ← deps.now⟩

/-- Stopping rules and arm assignment, before any token is spent. -/
def triageNode [MonadExceptOf PyError m] : m RecoveryState := do
  let verdict ← liftExcept (evaluate (stoppingContext s deps.stoppingLimits (← deps.now)))
  let assignment ← liftExcept (assignArm rt s.caseId deps.experimentKey deps.controlArmFraction)
  let traced := s.withTrace ⟨"TRIAGE", "policy", ← deps.now⟩
  if verdict.decision = .stop then
    return { traced with
      status := verdict.terminalStatus.getD .suppressed
      stoppingRuleFired := verdict.blockingRule
      experimentArm := some assignment.arm
      assignmentHash := some assignment.assignmentHash }
  else
    return { traced with
      status := .triaged
      experimentArm := some assignment.arm
      assignmentHash := some assignment.assignmentHash }

/-- One ledger row for one routed decision. -/
def ledgerEntry (task : LLMTask) (result : Option StructuredResult) (caseId : String) :
    LLMCallRecord :=
  match result with
  | none => { task, source := .deterministic, caseId := some caseId }
  | some r =>
    { task, source := r.source, caseId := some caseId, model := r.model, provider := r.provider
      promptVersion := r.promptVersion, cacheKey := r.cacheKey, inputTokens := r.inputTokens
      outputTokens := r.outputTokens, schemaValidFirstTry := r.schemaValidFirstTry
      fellBack := r.fellBack }

/-- The provenance DIAGNOSE records: the layer that actually answered. -/
def diagnoseProvenance (routed : RoutedDiagnosis) : String :=
  if routed.consultedModel then "model (" ++ routed.llmSource.getD "unknown" ++ ")"
  else if routed.result.isSome then
    "rule table (model unavailable, deterministic floor answered)"
  else "rule table (no model call)"

/-- Why the payment failed. -/
def diagnoseNode : m RecoveryState := do
  -- at the ceiling the router is given no model to ask
  let adapter := if s.llmCalls < deps.maxLlmCalls then deps.adapter else none
  let routed ← diagnose (llmContext s) adapter
  let traced := s.withTrace ⟨"DIAGNOSE", diagnoseProvenance routed, ← deps.now⟩
  return { traced with
    status := .diagnosing
    diagnosis := some routed.diagnosis
    consultedModel := routed.consultedModel
    modelDisagreed := routed.modelDisagreed
    llmCalls := s.llmCalls + (if routed.consultedModel then 1 else 0)
    llmLedger := s.llmLedger ++ [ledgerEntry .diagnose routed.result s.caseId] }

/-! ## The proposal -/

/-- The playbook's own answer, at zero discount. -/
def fallbackProposal (diagnosis : Diagnosis) (s : RecoveryState) : RecoveryProposal :=
  let choice := selectStrategy s.playbook (some diagnosis.category) diagnosis.requiresReauth
    diagnosis.retrySameRail s.railAlternative
  { strategy := choice.strategy, channel := choice.channel, messageClass := choice.messageClass
    rationale := "deterministic: " ++ choice.rationale }

/-- What STRATEGISE adds to the model's context. -/
def strategyContext (diagnosis : Diagnosis) (s : RecoveryState) : LlmContext :=
  { llmContext s with
    strategy := some
      { diagnosisCategory := diagnosis.category.value
        retrySameRail := diagnosis.retrySameRail
        requiresReauth := diagnosis.requiresReauth
        discountCouldHelp := diagnosis.discountCouldHelp
        railAlternative := s.railAlternative } }

/-- The proposal a model's answer becomes: its own, unless the playbook forbids it. -/
def proposalOfAnswer (diagnosis : Diagnosis) (s : RecoveryState) (result : StructuredResult) :
    RecoveryProposal :=
  match result.output with
  | .proposal output =>
    match violations s.playbook output.strategy output.discountPct diagnosis.requiresReauth with
    | problem :: _ =>
      let fallback := fallbackProposal diagnosis s
      { fallback with
        rationale := "model proposed " ++ output.strategy.value ++ ", rejected by the " ++
          s.playbook.value ++ " playbook (" ++ problem ++ "); using " ++
          fallback.strategy.value }
    | [] =>
      { strategy := output.strategy
        discountPct := .fin output.discountPct
        linkValidityMinutes := .minutes output.linkValidityMinutes
        channel := output.channel
        messageClass := output.messageClass
        rationale := output.rationale }
  | _ => fallbackProposal diagnosis s

/-- The proposal, and the adapter's account of the call when there was one. -/
def propose : m (RecoveryProposal × Option StructuredResult) :=
  match s.diagnosis with
  | none => pure ({ strategy := .noAction }, none)
  | some diagnosis =>
    -- a new mandate and a risk block are settled without the model
    if diagnosis.requiresReauth then pure (fallbackProposal diagnosis s, none)
    else if diagnosis.category = .riskBlocked then
      pure ({ strategy := .noAction
              rationale := "blocked by the merchant's own risk controls" }, none)
    else
      match deps.adapter with
      | some complete =>
        if s.llmCalls < deps.maxLlmCalls then do
          let result ← complete .strategise (strategyContext diagnosis s)
          return (proposalOfAnswer diagnosis s result, some result)
        else pure (fallbackProposal diagnosis s, none)
      | none => pure (fallbackProposal diagnosis s, none)

/-- What to do about it. Produces a proposal, which is a request. -/
def strategiseNode : m RecoveryState := do
  let (proposal, result) ← propose s deps
  let consulted := (result.map (·.source.isModel)).getD false
  let provenance := if consulted then "model proposal" else "deterministic strategy"
  let traced := s.withTrace ⟨"STRATEGISE", provenance, ← deps.now⟩
  return { traced with
    status := .strategyFormed
    proposal := some proposal
    llmCalls := s.llmCalls + (if consulted then 1 else 0)
    llmLedger := s.llmLedger ++ [ledgerEntry .strategise result s.caseId] }

/-! ## The decision and what follows -/

/-- A block is not one thing: which status it leaves the case in. -/
def blockedStatus (reasons : List String) : CaseStatus :=
  let joined := Text.lower (" ".intercalate reasons)
  if Text.Contains "control" joined then .observedNoAction
  else if Text.Contains "s-01" joined ∨ Text.Contains "resolved" joined then .resolvedOrganic
  else if Text.Contains "s-06" joined ∨ Text.Contains "window" joined then .expired
  else .suppressed

/-- The case as the firewall sees it. -/
def policyContext (s : RecoveryState) (stoppingLimits : PolicyLimits)
    (moneyLimits : PolicyLimitsFull) (now : DateTime) : PolicyContext where
  caseId := s.caseId
  orderAmountPaise := s.amountPaise
  attemptNo := s.attemptNo + 1
  arm := s.experimentArm.getD .treatment
  stopping := stoppingContext s stoppingLimits now
  limits := moneyLimits

/-- The status a decision leaves the case in. -/
def decidedStatus (d : PolicyDecision) : CaseStatus :=
  if d.verdict = .passed ∧ d.applied.isSome then .executing
  else if d.verdict = .escalateHitl then .awaitingApproval
  else blockedStatus d.blockReasons

/-- The firewall: stopping rules are re-evaluated here, not reused from TRIAGE. -/
def policyNode [MonadExceptOf PyError m] : m RecoveryState := do
  let proposal := s.proposal.getD { strategy := .noAction }
  let ctx := policyContext s deps.stoppingLimits deps.moneyLimits (← deps.now)
  -- the context and the token have each their own reading of the clock
  let decision ← liftExcept (evaluatePolicy rt proposal ctx (← deps.now))
  let traced := s.withTrace ⟨"POLICY", "policy firewall (deterministic)", ← deps.now⟩
  return { traced with
    status := decidedStatus decision
    policyVerdict := some decision.verdict
    policyApplied := decision.applied
    policyToken := decision.token
    policyClamps := decision.clamps
    policyBlockReasons := decision.blockReasons
    stoppingRuleFired :=
      match decision.stopping with
      | some v => v.blockingRule
      | none => s.stoppingRuleFired
    referenceId := decision.applied.map (·.referenceId) }

/-- Perform the authorised action. Reads the applied action and its token, never the proposal. -/
def executeNode [MonadExceptOf PyError m] : m RecoveryState := do
  match s.policyApplied, s.policyToken with
  | some applied, some token =>
    -- raises on an action that is not the one its token was minted for
    liftExcept (token.verify rt)
    match deps.executor with
    -- the batch: the attempt is counted, and nothing is sent
    | none =>
      let traced := s.withTrace ⟨"EXECUTE", "policy firewall", ← deps.now⟩
      return { traced with
        status := .monitoring
        attemptNo := s.attemptNo + 1
        discountBearingAttempts :=
          s.discountBearingAttempts + (if 0 < applied.discountPct then 1 else 0) }
    | some execute =>
      let executed ← execute s
      return { executed with nodeVisits := s.nodeVisits + 1 }
  | _, _ =>
    let traced := s.withTrace ⟨"EXECUTE", "policy firewall", ← deps.now⟩
    return { traced with status := .suppressed }

/-- Freeze the case and hand it to a human. -/
def escalateNode : m RecoveryState := do
  let traced := s.withTrace ⟨"ESCALATE", "policy firewall", ← deps.now⟩
  return { traced with status := .awaitingApproval }

/-- Close the run. -/
def auditNode : m RecoveryState := do
  return s.withTrace ⟨"AUDIT", "audit ledger", ← deps.now⟩

end Nodes

end AegisMerchant
