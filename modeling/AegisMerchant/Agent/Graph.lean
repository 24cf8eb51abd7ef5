import AegisMerchant.Agent.Nodes

/-!
# The agent runner

Every transition is decided here by inspecting typed state. The graph is acyclic: `Node.rank` drops
along every edge, which is what makes a run terminate.
-/

namespace AegisMerchant

open Time

universe u

variable {m : Type → Type u} [Monad m] [MonadExceptOf PyError m]

/-- A ceiling on steps. -/
def maxNodeVisits : ℕ := 9

inductive Node where
  | enrich | triage | diagnose | strategise | policy | execute | escalate | audit
  deriving DecidableEq, Repr

def Node.name : Node → String
  | enrich => "ENRICH"
  | triage => "TRIAGE"
  | diagnose => "DIAGNOSE"
  | strategise => "STRATEGISE"
  | policy => "POLICY"
  | execute => "EXECUTE"
  | escalate => "ESCALATE"
  | audit => "AUDIT"

/-- How far a node is from the end. -/
def Node.rank : Node → ℕ
  | enrich => 6
  | triage => 5
  | diagnose => 4
  | strategise => 3
  | policy => 2
  | execute | escalate => 1
  | audit => 0

/-- The whole control flow, in one pure function. -/
def nextNode (current : Node) (s : RecoveryState) : Option Node :=
  match current with
  | .enrich => some .triage
  | .triage => some (if s.isTerminal then .audit else .diagnose)
  | .diagnose => some .strategise
  | .strategise => some .policy
  | .policy =>
    match s.policyVerdict with
    | some .passed => some .execute
    | some .escalateHitl => some .escalate
    | _ => some .audit
  | .execute | .escalate => some .audit
  | .audit => none

/-- No edge leads back. -/
theorem nextNode_rank {current next : Node} {s : RecoveryState}
    (h : nextNode current s = some next) : next.rank < current.rank := by
  cases current with
  | triage =>
    simp only [nextNode, Option.some.injEq] at h
    subst h
    split <;> decide
  | policy =>
    simp only [nextNode] at h
    split at h <;> cases h <;> decide
  | audit => cases h
  | enrich | diagnose | strategise | execute | escalate =>
    cases h
    decide

/-- `NODES[current]`. -/
def runNode (rt : Runtime) (deps : AgentDeps m) (current : Node) (s : RecoveryState) :
    m RecoveryState :=
  match current with
  | .enrich => enrichNode s deps
  | .triage => triageNode rt s deps
  | .diagnose => diagnoseNode s deps
  | .strategise => strategiseNode s deps
  | .policy => policyNode rt s deps
  | .execute => executeNode rt s deps
  | .escalate => escalateNode s deps
  | .audit => auditNode s deps

/-- A node that raised: recorded on the state, and the case finalised. -/
def failedState (current : Node) (s : RecoveryState) (exc : PyError) (now : DateTime) :
    RecoveryState :=
  { s with
    status := .failedPermanent
    error := some (current.name ++ ": " ++ exc.describe)
    nodeVisits := s.nodeVisits + 1
    trace := s.trace ++ [⟨current.name, "error", now⟩] }

/-- The loop of `run_case`, from one node on. -/
def runFrom (rt : Runtime) (deps : AgentDeps m) (current : Node) (s : RecoveryState) :
    m RecoveryState := do
  if maxNodeVisits ≤ s.nodeVisits then throw .graphBoundExceeded
  let visited : Except PyError RecoveryState ←
    tryCatch (do return .ok (← runNode rt deps current s)) fun exc => pure (.error exc)
  match visited with
  | .error exc => auditNode (failedState current s exc (← deps.now)) deps
  | .ok s' =>
    if deps.maxLlmCalls < s'.llmCalls then throw .graphBoundExceeded
    match _h : nextNode current s' with
    | some next => runFrom rt deps next s'
    | none => return s'
termination_by current.rank
decreasing_by exact nextNode_rank ‹_›

/-- Run one case through the graph. Re-entry on a finished case is a no-op. -/
def runCase (rt : Runtime) (s : RecoveryState) (deps : AgentDeps m) : m RecoveryState :=
  if s.isTerminal then pure s else runFrom rt deps .enrich s

end AegisMerchant
