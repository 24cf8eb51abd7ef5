import AegisMerchant.Agent.Classifier

/-!
# Playbook-specific strategy

The deterministic strategy for a playbook and a diagnosis, and the strategies each playbook
forbids whoever proposes them.
-/

namespace AegisMerchant

/-- `DISCOUNT_PERMITTED`: playbooks where a discount is a lever at all. -/
def Playbook.discountPermitted : Playbook → Bool
  | .paymentFailure | .checkoutAbandon => true
  | .receivable | .subscription => false

def Playbook.preferredChannel : Playbook → Channel
  | .receivable => .email
  | _ => .whatsapp

/-- A deterministic strategy, and why. -/
structure PlaybookChoice where
  strategy : RecoveryStrategy
  channel : Channel
  messageClass : MessageClass := .transactional
  rationale : String
  discountPermitted : Bool := false
  deriving DecidableEq, Repr

def selectStrategy (playbook : Playbook) (category : Option FailureCategory)
    (requiresReauth retrySameRail : Bool) (railAlternative : Option String) : PlaybookChoice :=
  let channel := playbook.preferredChannel
  let discountOk := playbook.discountPermitted
  if category = some .riskBlocked then
    { strategy := .noAction, channel
      rationale := "blocked by the merchant's own risk controls; not ours to route around" }
  else if playbook = .subscription then
    if requiresReauth = true ∨ category = some .mandateInvalid then
      { strategy := .mandateReauth, channel
        rationale := "mandate is not active: re-presenting cannot succeed and burns a " ++
          "scheme re-presentation, so the customer must re-authorise" }
    else if category = some .insufficientFunds then
      { strategy := .mandateRetry, channel
        rationale := "mandate is alive and the account was empty: re-present it rather " ++
          "than issue a link, which would throw away every future collection" }
    else
      { strategy := .mandateRetry, channel
        rationale := "subscription failure with a live mandate: re-present" }
  else if playbook = .receivable then
    { strategy := .invoiceReminder, channel
      rationale := "an overdue invoice is a reminder, not an offer: the price was already " ++
        "agreed, so a discount here writes off a receivable" }
  else if requiresReauth = true ∨ category = some .mandateInvalid then
    { strategy := .mandateReauth, channel
      rationale := "mandate is not active; re-authorisation required" }
  else if playbook = .checkoutAbandon then
    { strategy := .freshLinkSameRail, channel, discountPermitted := discountOk
      rationale := "the cart is intact and nothing failed: a plain link at zero discount " ++
        "before any incentive is considered" }
  else
    match railAlternative with
    | some rail =>
      if category = some .railFault then
        { strategy := .freshLinkAltRail, channel, discountPermitted := discountOk
          rationale := "the original rail is degraded; routing to " ++ rail }
      else if !retrySameRail then
        { strategy := .freshLinkAltRail, channel, discountPermitted := discountOk
          rationale := "the same rail is unlikely to succeed; switching" }
      else
        { strategy := .freshLinkSameRail, channel, discountPermitted := discountOk
          rationale := "cheapest action that could work, at zero discount" }
    | none =>
      { strategy := .freshLinkSameRail, channel, discountPermitted := discountOk
        rationale := "cheapest action that could work, at zero discount" }

/-- `_FORBIDDEN`: strategies each playbook rules out. -/
def Playbook.forbids : Playbook → RecoveryStrategy → Bool
  | .subscription, .freshLinkSameRail | .subscription, .freshLinkAltRail
  | .subscription, .incentivisedLink => true
  | .receivable, .freshLinkSameRail | .receivable, .freshLinkAltRail
  | .receivable, .incentivisedLink => true
  | _, _ => false

/-- What is wrong with a proposal for its playbook; empty when it is acceptable. -/
def violations (playbook : Playbook) (strategy : RecoveryStrategy) (discountPct : ℚ)
    (requiresReauth : Bool) : List String :=
  (if playbook.forbids strategy then
    [strategy.value ++ " is not permitted for " ++ playbook.value ++ ": " ++
      (if playbook = .subscription then
        "converting a mandate into a one-off link throws away every future collection"
      else
        "an overdue invoice needs the invoice number, amount and due " ++
          "date restated for accounts payable, not consumer-checkout language")] else []) ++
  (if 0 < discountPct ∧ playbook.discountPermitted = false then
    ["a discount is not a lever for " ++ playbook.value ++ ": " ++
      (if playbook = .receivable then
        "the price was already agreed, so this writes off a receivable"
      else "the card was empty, not overpriced; the lever is timing")] else []) ++
  (if requiresReauth = true ∧ strategy = .mandateRetry then
    ["MANDATE_RETRY on an inactive mandate cannot succeed and burns a " ++
      "scheme re-presentation; re-authorisation is the only action that works"] else [])

/-- The playbook's own answer is to do nothing exactly on a risk block. -/
theorem selectStrategy_eq_noAction_iff (playbook : Playbook) (category : Option FailureCategory)
    (requiresReauth retrySameRail : Bool) (rail : Option String) :
    (selectStrategy playbook category requiresReauth retrySameRail rail).strategy = .noAction ↔
      category = some .riskBlocked := by
  unfold selectStrategy
  simp only
  split
  · next h => simp [h]
  · next h =>
      refine iff_of_false ?_ h
      split_ifs <;> first | simp | (split <;> simp)

/-- Doing nothing is acceptable unless it comes with a discount the playbook has no use for. -/
theorem violations_noAction (playbook : Playbook) (pct : ℚ) (requiresReauth : Bool) :
    violations playbook .noAction pct requiresReauth = [] ↔
      (0 < pct → playbook.discountPermitted = true) := by
  cases playbook <;> simp [violations, Playbook.forbids, Playbook.discountPermitted]

end AegisMerchant
