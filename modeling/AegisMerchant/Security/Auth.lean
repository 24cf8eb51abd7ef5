import AegisMerchant.Core.Runtime

/-!
# Who is acting, and on what

The principal of a request, and the hash that ties an approval to the action it was given for.
-/

namespace AegisMerchant

/-- Who is acting. -/
structure Principal where
  name : String
  unauthenticated : Bool := false

def Principal.auditActor (p : Principal) : String :=
  if p.unauthenticated then p.name ++ "(unauthenticated)" else p.name

/-- The first characters of a text: `s[:n]`. -/
def firstChars (n : ℕ) (s : String) : String := String.ofList (s.toList.take n)

/-- `verify_approval_hash`. Texts that are not ASCII cannot be compared in constant time. -/
def verifyApprovalHash (presented current : String) : Except PyError Unit :=
  if ¬(presented.toList ++ current.toList).all fun c => c.toNat < 128 then
    .error (.typeError "comparing strings with non-ASCII characters is not supported")
  else if presented ≠ current then
    .error (.httpError 409 ("The action changed since it was displayed for approval (approved " ++
      firstChars 12 presented ++ "..., current " ++ firstChars 12 current ++
      "...). Re-read the proposal and approve again."))
  else .ok ()

end AegisMerchant
