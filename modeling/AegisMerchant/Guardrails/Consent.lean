import AegisMerchant.Base.Scan
import AegisMerchant.Base.Text
import AegisMerchant.Db.Enums
import Mathlib.Data.List.Sort

/-!
# The render boundary

A message is a registered template with named slots and the values that fill them. What cannot be
rendered safely is refused.
-/

namespace AegisMerchant

/-- A template registered for a channel and a class. -/
structure MessageTemplate where
  id : String
  channel : Channel
  messageClass : MessageClass
  dltTemplateId : Option String
  language : String := "hinglish"
  bodyWithSlots : String
  approved : Bool := false

/-- A message could not be rendered safely. -/
structure RenderRefusal where
  code : String
  detail : String
  deriving DecidableEq, Repr

/-- A `dict[str, str]`: its names are distinct. -/
structure SlotMap where
  entries : List (String × String)
  nodup : (entries.map (·.1)).Nodup
  deriving DecidableEq

namespace SlotMap

def names (slots : SlotMap) : List String := slots.entries.map (·.1)

def get? (slots : SlotMap) (name : String) : Option String := slots.entries.lookup name

end SlotMap

/-- A message that is safe to hand to a channel adapter. -/
structure RenderedMessage where
  templateId : String
  dltTemplateId : Option String
  channel : Channel
  messageClass : MessageClass
  language : String
  body : String
  /-- Exactly the slots that were substituted. -/
  slots : SlotMap

namespace Consent

def allowedSlots : List String :=
  ["first_name", "amount", "cause", "link", "validity", "discount", "invoice_id", "due_date",
    "merchant_name"]

def dltRequiredChannels : List Channel := [.sms, .whatsapp]

def channelBodyLimit : Channel → ℕ
  | .sms => 160
  | .whatsapp => 1024
  | .email => 5000
  | .none => 0

/-! ## The patterns -/

/-- `[A-Za-z_]`. -/
def identStart (c : Char) : Bool :=
  (65 ≤ c.toNat && c.toNat ≤ 90) || (97 ≤ c.toNat && c.toNat ≤ 122) || c == '_'

/-- `[A-Za-z0-9_]`. -/
def identChar (c : Char) : Bool := identStart c || (48 ≤ c.toNat && c.toNat ≤ 57)

/-- `_SLOT_RE`: a brace, a bare identifier and a brace. -/
def slotRe : Scan.Pattern Char String
  | '{' :: c :: cs =>
    let name := c :: cs.takeWhile identChar
    if identStart c then
      match cs.dropWhile identChar with
      | '}' :: _ => some (String.ofList name, name.length + 2)
      | _ => none
    else none
  | _ => none

/-- `_ANY_BRACE_RE`. -/
def isBrace (c : Char) : Bool := c == '{' || c == '}'

/-- `_CONTROL_RE`. -/
def isControl (c : Char) : Bool :=
  let n := c.toNat
  n ≤ 8 || n == 0x0b || n == 0x0c || (0x0e ≤ n && n ≤ 0x1f) || n == 0x7f

/-- `extract_slots`: the names in the order they appear, each once. -/
def extractSlots (body : String) : List String :=
  (Scan.finditer slotRe body.toList).foldl
    (fun seen name => if name ∈ seen then seen else seen ++ [name]) []

/-- `_SLOT_RE.sub`. -/
def subSlots (f : String → String) (body : String) : String :=
  String.ofList (Scan.sub slotRe (fun name => (f name).toList) body.toList)

/-! ## Choosing a template -/

/-- `select_template`: never across classes; the language falls back. -/
def selectTemplate (templates : List MessageTemplate) (channel : Channel)
    (messageClass : MessageClass) (language : String := "hinglish") :
    Except RenderRefusal MessageTemplate :=
  let eligible := templates.filter fun t =>
    t.channel = channel ∧ t.messageClass = messageClass ∧ t.approved
  match eligible with
  | [] => .error ⟨"no_approved_template",
      "no approved " ++ messageClass.value ++ " template for " ++ channel.value⟩
  | first :: _ => .ok ((eligible.find? fun t => t.language = language).getD first)

/-! ## Rendering -/

/-- `f"{names}"` on a list of texts. -/
def listText (names : List String) : String :=
  "[" ++ ", ".intercalate (names.map Text.repr) ++ "]"

def sorted (names : List String) : List String := names.insertionSort (· ≤ ·)

def checkValue (channel : Channel) (slot : String × String) : Except RenderRefusal Unit :=
  if slot.2.toList.any isControl then
    .error ⟨"control_characters", "slot " ++ Text.repr slot.1 ++ " contains control characters"⟩
  else if channel ≠ .email ∧ ('\n' ∈ slot.2.toList ∨ '\r' ∈ slot.2.toList) then
    .error ⟨"newline_in_slot", "slot " ++ Text.repr slot.1 ++ " contains a line break"⟩
  else .ok ()

def refuseIf (condition : Prop) [Decidable condition] (code detail : String) :
    Except RenderRefusal Unit :=
  if condition then .error ⟨code, detail⟩ else .ok ()

def render (template : MessageTemplate) (slots : SlotMap)
    (marketingConsent transactionalConsent : Bool) : Except RenderRefusal RenderedMessage := do
  refuseIf (template.approved = false) "template_not_approved"
    ("template " ++ template.id ++ " is not approved for sending")
  refuseIf (template.channel ∈ dltRequiredChannels ∧ template.dltTemplateId.getD "" = "")
    "missing_dlt_id" (template.channel.value ++ " requires a registered DLT template id")
  refuseIf (template.messageClass = .marketing ∧ marketingConsent = false)
    "marketing_without_consent"
    "a marketing template cannot be rendered without marketing consent"
  refuseIf (transactionalConsent = false) "no_transactional_consent"
    "no consent of any class on record for this customer"
  let body := template.bodyWithSlots
  let required := extractSlots body
  let missing := sorted (required.filter (· ∉ slots.names))
  refuseIf (missing ≠ []) "missing_slots" ("template needs " ++ listText missing)
  let extra := sorted (slots.names.filter (· ∉ required))
  refuseIf (extra ≠ []) "unused_slots" ("values supplied for absent slots: " ++ listText extra)
  let forbidden := sorted (required.filter (· ∉ allowedSlots))
  refuseIf (forbidden ≠ []) "forbidden_slots"
    ("not permitted in a message body: " ++ listText forbidden)
  slots.entries.forM (checkValue template.channel)
  -- the structure is the template's: its slots taken out, no brace is left
  refuseIf ((subSlots (fun _ => "") body).toList.any isBrace = true) "unresolved_placeholder"
    "template body contains a brace that is not a well-formed slot"
  -- every name has a value by now
  let rendered := subSlots (fun name => (slots.get? name).getD "") body
  let limit := channelBodyLimit template.channel
  refuseIf (limit < rendered.length) "body_too_long"
    (toString rendered.length ++ " characters exceeds the " ++ template.channel.value ++
      " limit of " ++ toString limit)
  return {
    templateId := template.id
    dltTemplateId := template.dltTemplateId
    channel := template.channel
    messageClass := template.messageClass
    language := template.language
    body := rendered
    slots }

end Consent

end AegisMerchant
