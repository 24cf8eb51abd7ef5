import AegisMerchant.Base.Json
import AegisMerchant.Base.Time

/-!
# What the program takes from its runtime

The exceptions the modelled code raises, the interpreter's own functions that a shallow model
cannot compute (hashing, and the shortest decimal text of a float), and the clock's fixed zone.
-/

namespace AegisMerchant

open Time

universe u

/-- The exceptions that cross a function boundary of the modelled code. -/
inductive PyError where
  | valueError (message : String)
  | typeError (message : String)
  | overflowError (message : String)
  | keyError (key : String)
  /-- A row read through the ORM was not there: an attribute of `None`. -/
  | attributeError
  | integrityError
  /-- An expired object was read outside the session's own tasks. -/
  | missingGreenlet
  | runtimeError (message : String)
  | policyTokenInvalid (caseId : String)
  | graphBoundExceeded
  | providerRetryable (message : String)
  | providerPermanent (message : String)
  | duplicateReference (reference : String)
  | httpError (status : ℕ) (detail : String)
  deriving DecidableEq, Repr

/-- `f"{type(exc).__name__}: {exc}"`. -/
def PyError.describe : PyError → String
  | valueError m => "ValueError: " ++ m
  | typeError m => "TypeError: " ++ m
  | overflowError m => "OverflowError: " ++ m
  | keyError k => "KeyError: " ++ Text.repr k
  | attributeError => "AttributeError: "
  | integrityError => "IntegrityError: "
  | missingGreenlet => "MissingGreenlet: "
  | runtimeError m => "RuntimeError: " ++ m
  | policyTokenInvalid c => "PolicyTokenInvalid: policy token for case " ++ c ++
      " failed verification: it was not minted by the policy firewall, or the action was " ++
      "modified after authorisation"
  | graphBoundExceeded => "GraphBoundExceeded: "
  | providerRetryable m => "ProviderRetryable: " ++ m
  | providerPermanent m => "ProviderPermanent: " ++ m
  | duplicateReference r => "DuplicateReference: reference_id already exists: " ++ r
  | httpError status detail => s!"HTTPException: {status}: " ++ detail

/-- Raise what a pure function raised. -/
def liftExcept {m : Type → Type u} [Monad m] [MonadExceptOf PyError m] {α : Type} :
    Except PyError α → m α
  | .ok a => pure a
  | .error e => throw e

/-- Functions of the interpreter and its C libraries, by their results only. -/
structure Runtime where
  /-- `hashlib.sha256(text.encode()).hexdigest()`. -/
  sha256 : String → String
  /-- `hmac.new(_SIGNING_KEY, text.encode(), sha256).hexdigest()`, the key being the process's. -/
  hmacSha256 : String → String
  /-- `repr` of a float. -/
  floatRepr : ℚ → String

/-- A runtime whose hashes are the text itself, for evaluating the model. -/
def plainRuntime : Runtime where
  sha256 := id
  hmacSha256 := id
  floatRepr q := toString q.num ++ "/" ++ toString q.den

/-! ## The clock's zone -/

/-- India Standard Time, UTC+05:30 the whole year. -/
def ist : ℤ := 19800

def toIst (t : DateTime) : DateTime := t.astimezone ist

/-- `int(x / 100)` rupees with grouped digits: `f"{paise / 100:,.0f}"`. -/
def rupeesText (paise : ℤ) : String :=
  -- half to even, on paise
  let q := paise / 100
  let r := paise % 100
  let rounded := if r < 50 then q else if 50 < r then q + 1 else if q % 2 = 0 then q else q + 1
  -- a negative amount that rounds to zero keeps its sign
  if paise < 0 ∧ rounded = 0 then "-0" else Text.thousands rounded

end AegisMerchant
