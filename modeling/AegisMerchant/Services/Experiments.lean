import AegisMerchant.Core.Runtime
import AegisMerchant.Db.Enums

/-!
# Experiment arm assignment

The arm is a function of the case's identity alone: the first eight bytes of a hash, scaled into
`[0, 1)`.
-/

namespace AegisMerchant

/-- An arm, and the evidence an auditor recomputes it from. -/
structure Assignment where
  arm : ExperimentArm
  assignmentHash : String
  experimentKey : String
  position : ℚ
  deriving DecidableEq, Repr

def hexValue (cs : List Char) : ℕ :=
  cs.foldl (fun n c => n * 16 + (if c.isDigit then c.toNat - 48 else c.toNat - 87)) 0

def assignArm (rt : Runtime) (caseId experimentKey : String) (controlFraction : ℚ) :
    Except PyError Assignment :=
  if 0 ≤ controlFraction ∧ controlFraction < 1 then
    let prefix16 := (rt.sha256 (experimentKey ++ ":" ++ caseId)).toList.take 16
    let position : ℚ := hexValue prefix16 / 2 ^ 64
    .ok { arm := if position < controlFraction then .control else .treatment
          assignmentHash := String.ofList prefix16
          experimentKey
          position }
  else
    .error (.valueError ("control_fraction must be in [0.0, 1.0), got " ++
      rt.floatRepr controlFraction))

end AegisMerchant
