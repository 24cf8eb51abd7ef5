import AegisMerchant.Ingest.Settle

/-!
# Taking in a webhook

The bytes are trusted, then parsed, then found fresh, and then stored under the provider's event id,
which is unique. The answer goes out at once; the event is attributed in the background, by the
process that took it in.
-/

namespace AegisMerchant

open Time

/-- What a webhook takes from the interpreter, by results only. -/
structure WebhookRuntime extends Runtime where
  /-- `json.loads(raw_body)`: bytes that are no JSON raise `ValueError`, JSON nested too deeply
  raises `RecursionError`. -/
  jsonLoads : List UInt8 → Except PyError Json
  /-- `hmac.new(secret, raw_body, sha256).hexdigest()`. -/
  hmacHex : String → List UInt8 → String
  /-- `raw_body.decode("utf-8", errors="replace")`. -/
  decode : List UInt8 → String
  /-- `int(text)`, none when it raises. -/
  intOfText : String → Option ℤ
  /-- The event name of a body can be stored: it holds no lone surrogate. -/
  nameEncodes : List UInt8 → Bool

/-- `webhook_events`. -/
structure WebhookEventRow where
  id : String
  eventId : String
  eventType : String
  payloadJson : String
  signature : Option String
  signatureValid : Bool
  status : String
  eventTs : Option DateTime
  receivedAt : DateTime
  deriving DecidableEq

inductive IngestStatus where
  | accepted | duplicateDropped | processed | ignoredUnknownEvent | failed
  deriving DecidableEq

def IngestStatus.value : IngestStatus → String
  | accepted => "ACCEPTED"
  | duplicateDropped => "DUPLICATE_DROPPED"
  | processed => "PROCESSED"
  | ignoredUnknownEvent => "IGNORED_UNKNOWN_EVENT"
  | failed => "FAILED"

namespace Webhooks

structure Settings where
  razorpayWebhookSecret : String := ""
  webhookReplayToleranceS : ℤ := 86400

/-- A delivery: its bytes and its two headers. -/
structure Request where
  rawBody : List UInt8
  signature : Option String := none
  eventId : Option String := none

/-- What is answered. -/
structure Response where
  statusCode : ℕ
  body : List (String × Json)

/-- `_process_event`, waiting to be run. -/
structure Task where
  rowId : String
  payload : Json
  eventId : String

/-- The database of events beside the world, and what one process has still to do. -/
structure Ingestion where
  world : World
  events : List WebhookEventRow := []
  tasks : List Task := []

/-! ## Checks -/

/-- `verify_signature`: why a signature is not valid, if it is not. -/
def verifySignature (rt : WebhookRuntime) (rawBody : List UInt8) (signature : Option String)
    (secret : String) : Except PyError (Option String) :=
  if secret = "" then .ok (some "webhook_secret_not_configured")
  else
    match signature.filter (· ≠ "") with
    | none => .ok (some "signature_header_missing")
    | some signature =>
      if ¬signature.toList.all fun c => c.toNat < 128 then
        .error (.typeError "comparing strings with non-ASCII characters is not supported")
      else if rt.hmacHex secret rawBody ≠ signature then .ok (some "signature_mismatch")
      else .ok none

/-- `extract_event_ts`: the unix seconds at the top of a payload, where they name a date. -/
def extractEventTs (rt : WebhookRuntime) (payload : Json) : Option DateTime :=
  let seconds : Option ℤ := match payload.get? "created_at" with
    | some (.int n) => some n
    | some (.float q) => some (if 0 ≤ q then ⌊q⌋ else ⌈q⌉)
    | some (.bool b) => some (if b then 1 else 0)
    | some (.str s) => rt.intOfText s
    | _ => none
  -- the years 1 to 9999
  (seconds.filter fun n => -62135596800 ≤ n ∧ n ≤ 253402300799).map fun n => { utc := n * second }

/-- A number of seconds a `timedelta` can hold: at most 999999999 days either way. -/
def TimedeltaHolds (seconds : ℤ) : Prop :=
  -999999999 ≤ seconds / 86400 ∧ seconds / 86400 ≤ 999999999

instance (seconds : ℤ) : Decidable (TimedeltaHolds seconds) :=
  inferInstanceAs (Decidable (_ ∧ _))

/-- `verify_timestamp`: why an event is not recent, if it is not. -/
def verifyTimestamp (eventTs : Option DateTime) (now : DateTime) (toleranceS : ℤ) :
    Except PyError (Option String) :=
  match eventTs with
  | none => .ok (some "event_timestamp_missing")
  | some ts =>
    if ¬TimedeltaHolds toleranceS then
      .error (.overflowError "days; must have magnitude <= 999999999")
    else
      let age := now.utc - ts.utc
      if toleranceS * second < age then
        .ok (some ("event_too_old:" ++ toString (age.tdiv second) ++ "s"))
      else if toleranceS * second < -age then
        .ok (some ("event_in_future:" ++ toString ((-age).tdiv second) ++ "s"))
      else .ok none

def routeToPlaybook (eventType : String) : Option Playbook :=
  if eventType = "payment.failed" then some .paymentFailure
  else if eventType = "order.created" then some .checkoutAbandon
  else if eventType = "invoice.expired" then some .receivable
  else if eventType = "subscription.pending" ∨ eventType = "subscription.halted" then
    some .subscription
  else none

/-! ## The endpoint -/

def rejected (statusCode : ℕ) (reason : String) : Response where
  statusCode := statusCode
  body := [("status", .str "rejected"), ("reason", .str reason)]

def duplicate (eventId : String) : Response where
  statusCode := 200
  body := [("status", .str "duplicate"), ("event_id", .str eventId),
    ("detail", .str "already ingested")]

def accepted (eventId eventType : String) : Response where
  statusCode := 200
  body := [("status", .str "accepted"), ("event_id", .str eventId), ("event_type", .str eventType),
    ("playbook", .ofOption ((routeToPlaybook eventType).map (·.value))),
    ("actionable", .bool (routeToPlaybook eventType).isSome)]

def eventRow (rt : WebhookRuntime) (r : Request) (payload : Json) (id eventId : String)
    (receivedAt : DateTime) : WebhookEventRow where
  id := id
  eventId := eventId
  eventType := Ingest.eventName payload
  payloadJson := rt.decode r.rawBody
  signature := r.signature
  signatureValid := true
  status := IngestStatus.accepted.value
  eventTs := (extractEventTs rt payload).map dbTime
  receivedAt := dbTime receivedAt

/-- Store an event that was found fresh, unless its id is there. -/
def store (rt : WebhookRuntime) (s : Ingestion) (r : Request) (payload : Json) (eventId : String) :
    Response × Ingestion :=
  let id := newId "evt" (s.world.fate s.world.tick).hex
  let w := s.world.after 2
  let row := eventRow rt r payload id eventId w.clock
  if row.eventId ∈ s.events.map (·.eventId) ∨ row.id ∈ s.events.map (·.id) then
    (duplicate eventId, { s with world := w })
  else
    (accepted eventId row.eventType,
      { world := w
        events := s.events ++ [row]
        tasks := s.tasks ++ [{ rowId := id, payload, eventId }] })

/-- **`razorpay_webhook`.** -/
def razorpayWebhook (rt : WebhookRuntime) (settings : Settings) (s : Ingestion) (r : Request) :
    Except PyError Response × Ingestion :=
  match verifySignature rt r.rawBody r.signature settings.razorpayWebhookSecret with
  | .error exc => (.error exc, s)
  | .ok (some reason) => (.ok (rejected 401 reason), s)
  | .ok none =>
    match rt.jsonLoads r.rawBody with
    | .error (.valueError _) => (.ok (rejected 400 "malformed_json"), s)
    | .error exc => (.error exc, s)
    | .ok (.obj fields) =>
      let payload : Json := .obj fields
      if Ingest.amountOverflows payload then
        (.error (.overflowError "cannot convert float infinity to integer"), s)
      else
        let w := s.world.advance
        match verifyTimestamp (extractEventTs rt payload) w.clock
            settings.webhookReplayToleranceS with
        | .error exc => (.error exc, { s with world := w })
        | .ok (some reason) => (.ok (rejected 401 reason), { s with world := w })
        | .ok none =>
          match r.eventId.filter (· ≠ "") with
          | none => (.ok (rejected 400 "event_id_header_missing"), { s with world := w })
          | some eventId =>
            -- the commit cannot encode a lone surrogate, which is no `IntegrityError`
            if !rt.nameEncodes r.rawBody then
              (.error (.valueError "surrogates not allowed"), { s with world := w.after 2 })
            else
              let (response, s) := store rt { s with world := w } r payload eventId
              (.ok response, s)
    -- a payload that is no object has no fields to read
    | .ok _ => (.error .attributeError, s)

def markProcessed (events : List WebhookEventRow) (rowId : String) (outcome : IngestStatus) :
    List WebhookEventRow :=
  Rows.updateWhere (·.id) rowId (fun row => { row with status := outcome.value }) events

def Task.settlement (rt : WebhookRuntime) (task : Task) : Act SettlementOutcome :=
  Settle.processSettlement rt.toRuntime task.payload task.eventId

/-- **`_process_event`**: attribute the event, and say on its row what became of it. -/
def processEvent (rt : WebhookRuntime) (s : Ingestion) (task : Task) : Ingestion :=
  match (task.settlement rt).run World.handler s.world with
  | (.ok outcome, w) =>
    { s with
      world := w
      events := markProcessed s.events task.rowId
        (if outcome.counted then .processed else .ignoredUnknownEvent) }
  | (.error _, w) => { s with world := w }

/-! ## Processes that die -/

/-- What happens next. A process that dies before it answers is a delivery and a crash. -/
inductive Step where
  | deliver (r : Request)
  /-- A task runs to its end. -/
  | work (n : ℕ)
  /-- The process dies when a task has run some commands; what it had to do is forgotten. -/
  | crash (n commands : ℕ)

def step (rt : WebhookRuntime) (settings : Settings) (s : Ingestion) : Step → Ingestion
  | .deliver r => (razorpayWebhook rt settings s r).2
  | .work n =>
    match s.tasks[n]? with
    | none => s
    | some task => processEvent rt { s with tasks := s.tasks.eraseIdx n } task
  | .crash n commands =>
    match s.tasks[n]? with
    | none => { s with tasks := [] }
    | some task =>
      { s with
        world := (runWorkers s.world (.spawn (do let _ ← task.settlement rt) ::
          List.replicate commands (.run 0))).state
        tasks := [] }

def steps (rt : WebhookRuntime) (settings : Settings) (s : Ingestion) (moves : List Step) :
    Ingestion := moves.foldl (step rt settings) s

end Webhooks

end AegisMerchant
