import AegisMerchant.Base.Json
import AegisMerchant.Core.Runtime
import AegisMerchant.Db.Enums

/-!
# One canonical event

Where a payload of the provider keeps the entity its event is about, the reference and the amount.
-/

namespace AegisMerchant

/-- What a settlement uses of an event. -/
structure RevenueRiskEvent where
  eventId : String
  eventType : String
  /-- Our idempotency key, echoed back: whatever true value stands where it should. -/
  referenceId : Option Json
  amountPaise : Option ℤ

namespace Ingest

def entityKeys : List String :=
  ["payment", "order", "invoice", "subscription", "payment_link", "refund"]

/-- `str(payload.get("event", ""))`. -/
def eventName (payload : Json) : String := (payload.get? "event").elim "" Json.scalarText

def container (payload : Json) : Json := (payload.getObj? "payload").getD (.obj [])

def unwrap (payload : Json) (key : String) : Option Json :=
  ((container payload).getObj? key).bind (Json.getObj? "entity")

/-- `s.split(".", 1)[0]`. -/
def firstPart (s : String) : String := String.ofList (s.toList.takeWhile (· ≠ '.'))

/-- `_first_entity`: the entity the event is about, else the first one there. -/
def firstEntity (payload : Json) : Json :=
  let preferred := firstPart (eventName payload)
  ((preferred :: entityKeys).findSome? fun key =>
    if key = "" then none else unwrap payload key).getD (.obj [])

def values : Json → List Json
  | .obj fields => fields.map (·.2)
  | _ => []

/-- `_find_reference`: every entity is searched. -/
def findReference (payload : Json) : Option Json :=
  (values (container payload)).findSome? fun wrapper =>
    (wrapper.getObj? "entity").bind fun entity =>
      let candidate := entity.getTrue? "reference_id" <|>
        (entity.getObj? "notes").bind (Json.get? "reference_id")
      candidate.filter fun
        | .str s => Text.strip s ≠ ""
        | _ => false

/-- The amount cannot be read: `int` of an infinite float raises what `normalise` does not catch. -/
def amountOverflows (payload : Json) : Bool :=
  ((firstEntity payload).get? "amount").any Json.overflows

/-- `normalise`, where it does not raise. -/
def normalise (payload : Json) (eventId : String) : RevenueRiskEvent :=
  let entity := firstEntity payload
  let notes := (entity.getObj? "notes").getD (.obj [])
  { eventId
    eventType := eventName payload
    referenceId := entity.getTrue? "reference_id" <|> notes.getTrue? "reference_id" <|>
      findReference payload
    amountPaise := (entity.get? "amount").bind Json.toInt? }

end Ingest

end AegisMerchant
