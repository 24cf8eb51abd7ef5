import AegisMerchant.Base.IsoForms
import AegisMerchant.Core.Runtime
import AegisMerchant.Db.Enums

/-!
# The capability token

What will actually execute, its payload in the outbox, its content hash, and the signed token that
unlocks a write tool.
-/

namespace AegisMerchant

open Time

/-- What will actually execute, after every clamp. -/
structure AppliedAction where
  caseId : String
  strategy : RecoveryStrategy
  amountPaise : ℤ
  discountPct : ℚ
  discountAmountPaise : ℤ
  chargeAmountPaise : ℤ
  linkExpiryMinutes : ℤ
  channel : Channel
  messageClass : MessageClass
  escalationRung : EscalationRung
  /-- The idempotency key, committed to the outbox before the provider call. -/
  referenceId : String
  attemptNo : ℤ
  /-- Set when a stopping rule deferred the send. -/
  sendAfter : Option DateTime := none
  deriving DecidableEq, Repr

namespace AppliedAction

def asPayload (a : AppliedAction) : Json :=
  .obj [("case_id", .str a.caseId), ("strategy", .str a.strategy.value),
    ("amount_paise", .int a.amountPaise), ("discount_pct", .float a.discountPct),
    ("discount_amount_paise", .int a.discountAmountPaise),
    ("charge_amount_paise", .int a.chargeAmountPaise),
    ("link_expiry_minutes", .int a.linkExpiryMinutes), ("channel", .str a.channel.value),
    ("message_class", .str a.messageClass.value),
    ("escalation_rung", .str a.escalationRung.value), ("reference_id", .str a.referenceId),
    ("attempt_no", .int a.attemptNo),
    ("send_after", .ofOption (a.sendAfter.map isoformat))]

/-! ## An action read back -/

/-- `payload[key]`. -/
private def entry (payload : Json) (key : String) : Except PyError Json :=
  match payload.get? key with
  | some v => .ok v
  | none => .error (.keyError key)

private def field {α : Type} (payload : Json) (key : String)
    (conv : String → Json → Except PyError α) : Except PyError α := do
  conv key (← entry payload key)

/-- `str(v)`. -/
private def readText (_ : String) (v : Json) : Except PyError String := .ok v.scalarText

/-- What a conversion to a number raises for a value that is none. -/
private def notANumber (key : String) : Json → PyError
  | .null | .arr _ | .obj _ => .typeError key
  | .nonFinite .posInf | .nonFinite .negInf => .overflowError key
  | _ => .valueError key

/-- `int(v)`. -/
private def readInt (key : String) (v : Json) : Except PyError ℤ :=
  v.toInt?.elim (.error (notANumber key v)) .ok

/-- An integer no float is near: `float(v)` raises `OverflowError`. -/
private def tooLarge : Json → Bool
  | .int n => 2 ^ 1024 - 2 ^ 970 ≤ n.natAbs
  | _ => false

/-- `float(v)`. What is no number is refused. -/
private def readFloat (key : String) (v : Json) : Except PyError ℚ :=
  if tooLarge v then .error (.overflowError key)
  else v.toRat?.elim (.error (notANumber key v)) .ok

private def readEnum {α : Type} (ofValue? : String → Option α) (key : String) (v : Json) :
    Except PyError α :=
  (v.toStr?.bind ofValue?).elim (.error (.valueError key)) .ok

/-- `datetime.fromisoformat(v) if v else None`. -/
private def readSendAfter (payload : Json) : Except PyError (Option DateTime) :=
  match payload.getTrue? "send_after" with
  | none => .ok none
  | some (.str s) => (readIso s).elim (.error (.valueError "send_after")) (.ok ∘ some)
  | some _ => .error (.typeError "send_after")

/-- `payload.get`, of what is no object. -/
private def asDict : Json → Except PyError Unit
  | .obj _ => .ok ()
  | _ => .error .attributeError

/-- `from_payload`: the inverse of `as_payload`, on any JSON value. -/
def fromPayload (payload : Json) : Except PyError AppliedAction := do
  asDict payload
  return {
    caseId := ← field payload "case_id" readText
    strategy := ← field payload "strategy" (readEnum RecoveryStrategy.ofValue?)
    amountPaise := ← field payload "amount_paise" readInt
    discountPct := ← field payload "discount_pct" readFloat
    discountAmountPaise := ← field payload "discount_amount_paise" readInt
    chargeAmountPaise := ← field payload "charge_amount_paise" readInt
    linkExpiryMinutes := ← field payload "link_expiry_minutes" readInt
    channel := ← field payload "channel" (readEnum Channel.ofValue?)
    messageClass := ← field payload "message_class" (readEnum MessageClass.ofValue?)
    escalationRung := ← field payload "escalation_rung" (readEnum EscalationRung.ofValue?)
    referenceId := ← field payload "reference_id" readText
    attemptNo := ← field payload "attempt_no" readInt
    sendAfter := ← readSendAfter payload }

/-- An entry that was read. -/
private theorem field_eq_ok {α : Type} {payload : Json} {key : String}
    {conv : String → Json → Except PyError α} {a : α} (h : field payload key conv = .ok a) :
    ∃ v, payload.get? key = some v ∧ conv key v = .ok a := by
  unfold field entry at h
  cases hget : payload.get? key with
  | none =>
    rw [hget] at h
    cases h
  | some v =>
    rw [hget] at h
    exact ⟨v, rfl, h⟩

/-- Two parts of a reading that succeeds. -/
private theorem bind_eq_ok {α β : Type} {x : Except PyError α} {f : α → Except PyError β} {b : β}
    (h : (x >>= f) = .ok b) : ∃ a, x = .ok a ∧ f a = .ok b := by
  cases x with
  | error e => cases h
  | ok a => exact ⟨a, rfl, h⟩

/-- What a conversion made of a value. -/
private theorem elim_eq_ok {α : Type} {x : Option α} {e : PyError} {a : α}
    (h : x.elim (.error e) .ok = (.ok a : Except PyError α)) : x = some a := by
  cases x with
  | none => cases h
  | some b => exact congrArg some (Except.ok.inj h)

private theorem readFloat_eq_ok {key : String} {v : Json} {q : ℚ} (h : readFloat key v = .ok q) :
    v.toRat? = some q := by
  unfold readFloat at h
  split at h
  · cases h
  · exact elim_eq_ok h

private theorem readFloat_float (key : String) (q : ℚ) : readFloat key (.float q) = .ok q := by
  have hsmall : tooLarge (.float q) = false := by unfold tooLarge; rfl
  unfold readFloat
  rw [hsmall, if_neg Bool.false_ne_true]
  rfl

/-- What has an entry is an object. -/
private theorem asDict_of_get? {payload v : Json} {key : String} (h : payload.get? key = some v) :
    asDict payload = .ok () := by
  cases payload with
  | obj fields => rfl
  | _ => cases h

/-- A reading depends on the entries only, not on their order. -/
theorem fromPayload_congr {payload payload' v : Json} {key : String}
    (h : ∀ key, payload.get? key = payload'.get? key) (hentry : payload'.get? key = some v) :
    fromPayload payload = fromPayload payload' := by
  have hfield : ∀ {α : Type} (key : String) (conv : String → Json → Except PyError α),
      field payload key conv = field payload' key conv := by
    intro α key conv
    unfold field entry
    rw [h key]
  have hsend : readSendAfter payload = readSendAfter payload' := by
    unfold readSendAfter Json.getTrue?
    rw [h]
  unfold fromPayload
  rw [asDict_of_get? hentry, asDict_of_get? ((h key).trans hentry)]
  simp only [hfield, hsend]

/-- An action reads back from its own payload, as soon as its instant does. -/
theorem fromPayload_asPayload {a : AppliedAction}
    (hsend : ∀ t ∈ a.sendAfter, readIso (isoformat t) = some t) :
    fromPayload a.asPayload = .ok a := by
  have hfield : ∀ {α : Type} {key : String} {conv : String → Json → Except PyError α} {v : Json}
      {x : α}, a.asPayload.get? key = some v → conv key v = .ok x →
        field a.asPayload key conv = .ok x := by
    intro α key conv v x hget hconv
    unfold field entry
    rw [hget]
    exact hconv
  have henum : ∀ {α : Type} {ofValue? : String → Option α} {s : String} {x : α} (key : String),
      ofValue? s = some x → readEnum ofValue? key (.str s) = .ok x := by
    intro α ofValue? s x key h
    unfold readEnum
    rw [Json.toStr?_str, Option.bind_some, h]
    rfl
  have hafter : readSendAfter a.asPayload = .ok a.sendAfter := by
    have hget : a.asPayload.get? "send_after" = some (.ofOption (a.sendAfter.map isoformat)) := rfl
    unfold readSendAfter Json.getTrue?
    rw [hget]
    cases hs : a.sendAfter with
    | none => rfl
    | some t =>
      have hread := hsend t hs
      have hne : isoformat t ≠ "" := by
        intro hempty
        rw [hempty] at hread
        cases hread
      have htrue : (Json.str (isoformat t)).truthy = true := by
        simp only [Json.truthy, ne_eq, hne, not_false_eq_true, decide_true]
      simp only [Option.map_some, Json.ofOption, Option.elim_some, Option.filter_some, htrue,
        if_true, hread]
      rfl
  unfold fromPayload
  rw [hafter, hfield rfl (show readText "case_id" (.str a.caseId) = .ok a.caseId from rfl),
    hfield rfl (henum "strategy" (RecoveryStrategy.ofValue?_value a.strategy)),
    hfield rfl (show readInt "amount_paise" (.int a.amountPaise) = .ok a.amountPaise from rfl),
    hfield rfl (readFloat_float "discount_pct" a.discountPct),
    hfield rfl (show readInt "discount_amount_paise" (.int a.discountAmountPaise) =
      .ok a.discountAmountPaise from rfl),
    hfield rfl (show readInt "charge_amount_paise" (.int a.chargeAmountPaise) =
      .ok a.chargeAmountPaise from rfl),
    hfield rfl (show readInt "link_expiry_minutes" (.int a.linkExpiryMinutes) =
      .ok a.linkExpiryMinutes from rfl),
    hfield rfl (henum "channel" (Channel.ofValue?_value a.channel)),
    hfield rfl (henum "message_class" (MessageClass.ofValue?_value a.messageClass)),
    hfield rfl (henum "escalation_rung" (EscalationRung.ofValue?_value a.escalationRung)),
    hfield rfl (show readText "reference_id" (.str a.referenceId) = .ok a.referenceId from rfl),
    hfield rfl (show readInt "attempt_no" (.int a.attemptNo) = .ok a.attemptNo from rfl)]
  rfl

/-- The reference read back is the payload's. -/
theorem fromPayload_referenceId {payload : Json} {a : AppliedAction}
    (h : fromPayload payload = .ok a) :
    (payload.get? "reference_id").map Json.scalarText = some a.referenceId := by
  unfold fromPayload at h
  iterate 11 obtain ⟨_, -, h⟩ := bind_eq_ok h
  obtain ⟨reference, href, h⟩ := bind_eq_ok h
  iterate 2 obtain ⟨_, -, h⟩ := bind_eq_ok h
  obtain ⟨v, hget, hconv⟩ := field_eq_ok href
  cases h
  rw [hget]
  exact congrArg some (Except.ok.inj hconv)

/-- The terms read back are the payload's. -/
theorem fromPayload_terms {payload : Json} {a : AppliedAction}
    (h : fromPayload payload = .ok a) :
    (payload.get? "charge_amount_paise").bind Json.toInt? = some a.chargeAmountPaise ∧
      (payload.get? "discount_pct").bind Json.toRat? = some a.discountPct ∧
      (payload.get? "discount_amount_paise").bind Json.toInt? = some a.discountAmountPaise := by
  unfold fromPayload at h
  iterate 4 obtain ⟨_, -, h⟩ := bind_eq_ok h
  obtain ⟨pct, hpct, h⟩ := bind_eq_ok h
  obtain ⟨discount, hdiscount, h⟩ := bind_eq_ok h
  obtain ⟨charge, hcharge, h⟩ := bind_eq_ok h
  iterate 7 obtain ⟨_, -, h⟩ := bind_eq_ok h
  obtain ⟨v, hget, hconv⟩ := field_eq_ok hcharge
  obtain ⟨v', hget', hconv'⟩ := field_eq_ok hpct
  obtain ⟨v'', hget'', hconv''⟩ := field_eq_ok hdiscount
  cases h
  rw [hget, hget', hget'']
  exact ⟨elim_eq_ok hconv, readFloat_eq_ok hconv', elim_eq_ok hconv''⟩

/-- An action that reads back reads back under its own reference. -/
theorem referenceId_of_fromPayload_asPayload {a a' : AppliedAction}
    (h : fromPayload a.asPayload = .ok a') : a'.referenceId = a.referenceId :=
  (Option.some.inj (fromPayload_referenceId h)).symm

/-- Deterministic JSON, used for the token signature and the approval hash. -/
def canonical (rt : Runtime) (a : AppliedAction) : String := a.asPayload.dumps rt.floatRepr

def contentHash (rt : Runtime) (a : AppliedAction) : String := rt.sha256 (a.canonical rt)

end AppliedAction

/-! ## The token -/

/-- Proof that the firewall authorised this exact action. -/
structure PolicyToken where
  applied : AppliedAction
  mintedAt : DateTime
  signature : String
  deriving DecidableEq, Repr

def sign (rt : Runtime) (applied : AppliedAction) (mintedAt : DateTime) : String :=
  rt.hmacSha256 (applied.canonical rt ++ "|" ++ isoformat mintedAt)

/-- Raise unless the token carries the signature of its own action and minting time. -/
def PolicyToken.verify (rt : Runtime) (token : PolicyToken) : Except PyError Unit :=
  if sign rt token.applied token.mintedAt = token.signature then .ok ()
  else .error (.policyTokenInvalid token.applied.caseId)

def mint (rt : Runtime) (applied : AppliedAction) (mintedAt : DateTime) : PolicyToken :=
  { applied, mintedAt, signature := sign rt applied mintedAt }

/-- Re-materialise a capability for an action already committed to the outbox. The payload is none
when its text is not JSON. -/
def reissueFromCommittedIntent (rt : Runtime) (payload : Option Json) (mintedAt : DateTime) :
    Except PyError (AppliedAction × PolicyToken) := do
  let some payload := payload | throw (.valueError "payload_json")
  let applied ← AppliedAction.fromPayload payload
  return (applied, mint rt applied mintedAt)

@[simp] theorem mint_applied (rt : Runtime) (a : AppliedAction) (t : DateTime) :
    (mint rt a t).applied = a := rfl

/-- A minted token verifies. -/
@[simp] theorem verify_mint (rt : Runtime) (a : AppliedAction) (t : DateTime) :
    (mint rt a t).verify rt = .ok () := by
  simp [PolicyToken.verify, mint]

end AegisMerchant
