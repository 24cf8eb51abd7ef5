import AegisMerchant.Security.Auth
import AegisMerchant.Tools.Audit

/-!
# Tightening a bound at runtime

Four bounds of the settings can be made tighter by a request, and none looser. The settings are one
object of the process: they are changed before anything is written.
-/

namespace AegisMerchant

open Numeric

/-- The settings that can be tightened. -/
structure PolicyBounds where
  maxDiscountPct : ℚ := 7
  maxAutonomousAmountPaise : ℤ := 1000000
  maxContacts48h : ℤ := 2
  dailyActionBudget : ℤ := 50
  deriving DecidableEq

/-- A request: what is omitted is unchanged. -/
structure PolicyRequest where
  maxDiscountPct : Option ExtRat := none
  maxAutonomousAmountPaise : Option ℤ := none
  maxContacts48h : Option ℤ := none
  dailyActionBudget : Option ℤ := none
  deriving DecidableEq

namespace Control

inductive Bound where
  | maxDiscountPct | maxAutonomousAmountPaise | maxContacts48h | dailyActionBudget
  deriving DecidableEq

def Bound.key : Bound → String
  | maxDiscountPct => "max_discount_pct"
  | maxAutonomousAmountPaise => "max_autonomous_amount_paise"
  | maxContacts48h => "max_contacts_48h"
  | dailyActionBudget => "daily_action_budget"

inductive BoundValue where
  | int (n : ℤ)
  | float (x : ExtRat)
  deriving DecidableEq

/-- The number it is compared as. -/
def BoundValue.number : BoundValue → ExtRat
  | int n => .fin n
  | float x => x

/-- `f"{v}"`. -/
def BoundValue.text (rt : Runtime) : BoundValue → String
  | int n => toString n
  | float (.fin q) => rt.floatRepr q
  | float .nan => "nan"
  | float .posInf => "inf"
  | float .negInf => "-inf"

def BoundValue.json : BoundValue → Json
  | int n => .int n
  | float (.fin q) => .float q
  | float .nan => .nonFinite .nan
  | float .posInf => .nonFinite .posInf
  | float .negInf => .nonFinite .negInf

abbrev Bounds := List (Bound × BoundValue)

def Bounds.json (bounds : Bounds) : Json := .obj (bounds.map fun b => (b.1.key, b.2.json))

/-- `current`, one bound of it. -/
def value (settings : PolicyBounds) : Bound → BoundValue
  | .maxDiscountPct => .float (.fin settings.maxDiscountPct)
  | .maxAutonomousAmountPaise => .int settings.maxAutonomousAmountPaise
  | .maxContacts48h => .int settings.maxContacts48h
  | .dailyActionBudget => .int settings.dailyActionBudget

def current (settings : PolicyBounds) : Bounds :=
  [.maxDiscountPct, .maxAutonomousAmountPaise, .maxContacts48h, .dailyActionBudget].map fun b =>
    (b, value settings b)

/-- `object.__setattr__(settings, key, value)`. -/
def setattr (settings : PolicyBounds) : Bound × BoundValue → PolicyBounds
  | (.maxDiscountPct, .float (.fin q)) => { settings with maxDiscountPct := q }
  | (.maxAutonomousAmountPaise, .int n) => { settings with maxAutonomousAmountPaise := n }
  | (.maxContacts48h, .int n) => { settings with maxContacts48h := n }
  | (.dailyActionBudget, .int n) => { settings with dailyActionBudget := n }
  -- no other value passes the request's own checks
  | _ => settings

/-- What the request's own fields check. NaN is neither below a bound nor above it. -/
def WellFormed (body : PolicyRequest) : Prop :=
  (∀ x ∈ body.maxDiscountPct, ¬ExtRat.Lt x (.fin 0) ∧ ¬ExtRat.Lt (.fin 100) x) ∧
    (∀ n ∈ body.maxAutonomousAmountPaise, 0 ≤ n) ∧ (∀ n ∈ body.maxContacts48h, 0 ≤ n) ∧
      ∀ n ∈ body.dailyActionBudget, 0 ≤ n

instance (body : PolicyRequest) : Decidable (WellFormed body) :=
  inferInstanceAs (Decidable (_ ∧ _))

/-- `body.model_dump(exclude_none=True)`. -/
def proposed (body : PolicyRequest) : Bounds :=
  (body.maxDiscountPct.map fun x => (.maxDiscountPct, .float x)).toList ++
    (body.maxAutonomousAmountPaise.map fun n => (.maxAutonomousAmountPaise, .int n)).toList ++
      (body.maxContacts48h.map fun n => (.maxContacts48h, .int n)).toList ++
        (body.dailyActionBudget.map fun n => (.dailyActionBudget, .int n)).toList

def loosened (settings : PolicyBounds) (body : PolicyRequest) : Bounds :=
  (proposed body).filter fun b => ExtRat.Lt (value settings b.1).number b.2.number

def applied (settings : PolicyBounds) (body : PolicyRequest) : Bounds :=
  (proposed body).filter fun b => ExtRat.Lt b.2.number (value settings b.1).number

def refusal (rt : Runtime) (settings : PolicyBounds) (body : PolicyRequest) : Option PyError :=
  if ¬WellFormed body then some (.httpError 422 "")
  else if proposed body = [] then
    some (.httpError 400 "No bound supplied. Send at least one field.")
  else if loosened settings body ≠ [] then
    some (.httpError 409 ("This endpoint only tightens. " ++
      "; ".intercalate ((loosened settings body).map fun b =>
        b.1.key ++ " would go from " ++ (value settings b.1).text rt ++ " to " ++ b.2.text rt) ++
      ". Loosening a bound is a decision with a cost attached: edit the configuration and " ++
      "restart."))
  else none

/-- `policy.tightened`. -/
def tightenedEvent (principal : Principal) (settings : PolicyBounds) (changes : Bounds) :
    AuditEvent where
  eventName := "policy.tightened"
  actor := principal.auditActor
  payload := .obj [("changes", .obj (changes.map fun b =>
      (b.1.key, .obj [("from", (value settings b.1).json), ("to", b.2.json)]))),
    ("note", .str "runtime tightening; effective at the next policy evaluation")]

/-- What is answered. -/
structure Tightened where
  applied : Json
  unchanged : Json
  effectiveBounds : Json

/-- What follows the change of the settings: one block, if something changed. -/
def recordTightening (rt : Runtime) (principal : Principal) (settings : PolicyBounds)
    (body : PolicyRequest) : Act Tightened := do
  let changes := applied settings body
  if changes ≠ [] then
    let (_, session) ← AuditChain.append rt {} (tightenedEvent principal settings changes)
    session.commit
  return {
    applied := Bounds.json changes
    unchanged := Bounds.json ((proposed body).filter fun b => b.1 ∉ changes.map (·.1))
    effectiveBounds := Bounds.json ((current settings).map fun b =>
      (b.1, (changes.lookup b.1).getD b.2)) }

/-- **`POST /policy`**: the settings it leaves, and what it does beside. -/
def tightenPolicy (rt : Runtime) (principal : Principal) (settings : PolicyBounds)
    (body : PolicyRequest) : PolicyBounds × Act Tightened :=
  match refusal rt settings body with
  | some exc => (settings, throw exc)
  | none =>
    ((applied settings body).foldl setattr settings,
      recordTightening rt principal settings body)

end Control

end AegisMerchant
