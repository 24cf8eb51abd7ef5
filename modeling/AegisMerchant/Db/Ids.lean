import AegisMerchant.Base.Text

/-!
# Identifier generation

The two references sent to the provider, and the shape of a runtime row's id. The random part of
`new_id` comes from outside the program: the model is handed its text.
-/

namespace AegisMerchant

/-- `new_id`: a row-type prefix and a random hexadecimal part. -/
def newId (pfx hex : String) : String := pfx ++ "_" ++ hex

/-- Ids of one kind differ as their random parts do. -/
theorem newId_inj {pfx hex hex' : String} : newId pfx hex = newId pfx hex' ↔ hex = hex' := by
  rw [← String.toList_inj, ← @String.toList_inj hex]
  simp [newId]

/-- `reference_id`: the idempotency key of one attempt of a case. -/
def referenceId (caseId : String) (attemptNo : ℤ) : String :=
  Text.lower ("rvp_" ++ caseId ++ "_" ++ toString attemptNo)

theorem referenceId_ne_empty (caseId : String) (attemptNo : ℤ) :
    referenceId caseId attemptNo ≠ "" := by
  intro h
  have hlist := congrArg String.toList h
  simp [referenceId, Text.lowerChar] at hlist

/-- `observed_reference_id`: the reference of the merchant's own checkout link. -/
def observedReferenceId (caseId : String) : String := Text.lower ("rvpo_" ++ caseId)

end AegisMerchant
