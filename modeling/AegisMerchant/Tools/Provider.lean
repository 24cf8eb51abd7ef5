import AegisMerchant.Base.Json
import AegisMerchant.Core.Runtime

/-!
# The payment provider's boundary

The two data transfer objects of the protocol. A request is built through `mk?`, the checks of its
`__post_init__`; no other request exists.
-/

namespace AegisMerchant

open Time

/-- A recovery payment link to create. -/
structure PaymentLinkRequest where
  amountPaise : ℤ
  referenceId : String
  description : String
  customerName : String
  expireBy : Option DateTime := none
  notes : List (String × String) := []
  amount_pos : 0 < amountPaise
  reference_ne : referenceId ≠ ""

/-- `PaymentLinkRequest.__post_init__`. -/
def PaymentLinkRequest.mk? (amountPaise : ℤ) (referenceId description customerName : String)
    (expireBy : Option DateTime) (notes : List (String × String)) :
    Except PyError PaymentLinkRequest :=
  if ha : 0 < amountPaise then
    if hr : referenceId ≠ "" then
      .ok ⟨amountPaise, referenceId, description, customerName, expireBy, notes, ha, hr⟩
    else .error (.valueError "reference_id is required: it is the idempotency key")
  else .error (.valueError s!"amount_paise must be positive, got {amountPaise}")

structure PaymentLinkResult where
  linkId : String
  shortUrl : String
  referenceId : String
  amountPaise : ℤ
  status : String
  /-- From a duplicate-reference lookup rather than a fresh creation. -/
  wasExisting : Bool := false
  raw : Json := .obj []

end AegisMerchant
