import AegisMerchant.Agent.Graph
import AegisMerchant.Core.World

/-!
# A case in test mode

One case, run at once against the real provider. The agent is put together here, as the batch does
it, with nothing of the settings but the model's name.
-/

namespace AegisMerchant

open Time

namespace TestMode

/-- `TestRecoveryRequest`, past its own checks. -/
structure Request where
  amountPaise : ℤ := 100
  amount_mem : 100 ≤ amountPaise ∧ amountPaise ≤ 100000

/-- Who the case is about: the first merchant, the first customer and what is known of consent. -/
structure Parties where
  merchant : MerchantRow
  customer : CustomerRow
  firstName : String
  consent : Option ConsentRow := none

/-- `f"RC-TM{int(now.timestamp()) % 100000:05d}"`. -/
def caseId (now : DateTime) : String :=
  "RC-TM" ++ Text.padNat 5 (now.utc / second % 100000).toNat

/-- The state the case starts in. -/
def state (body : Request) (parties : Parties) (now : DateTime) : RecoveryState where
  caseId := caseId now
  merchantId := parties.merchant.id
  customerId := parties.customer.id
  playbook := .paymentFailure
  amountPaise := body.amountPaise
  errorSource := some "customer"
  errorStep := some "payment_authentication"
  errorReason := some "payment_cancelled"
  method := some "card"
  customerFirstName := parties.firstName
  consentTransactional := parties.consent.elim true (·.transactional)
  consentMarketing := parties.consent.elim false (·.marketing)
  consentDnd := parties.consent.elim false (·.dndRegistered)
  consentOptedOut := parties.consent.elim false (·.optedOut)
  autopilotEnabled := parties.merchant.autopilotEnabled
  orderStatus := some "created"
  windowExpiresAt := some (now.add (24 * hour))

/-- The agent: no executor, no limits but the defaults, every case treated. -/
def deps (adapter : Adapter Act) : AgentDeps Act where
  now := Act.nowUtc
  adapter := some adapter
  controlArmFraction := 0
  experimentKey := "revpilot_testmode"

end TestMode

end AegisMerchant
