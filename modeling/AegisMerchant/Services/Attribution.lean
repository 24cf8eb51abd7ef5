import AegisMerchant.Base.Text
import AegisMerchant.Base.Time
import AegisMerchant.Db.Enums

/-!
# What counts as recovered

Six conditions, all required. A payment that fails one of them is money that arrived, but not money
to claim.

`attribution_counted_iff` reads the decision back as the conditions on its facts.
-/

namespace AegisMerchant

open Time

/-- `SETTLING_EVENTS`: only these can prove a recovery. -/
def settlingEvents : List String := ["payment_link.paid", "invoice.paid", "subscription.charged"]

/-- Whether a settling webhook counts, and why or why not. -/
structure AttributionResult where
  counted : Bool
  reason : String
  amountPaise : ℤ := 0
  verifiedBy : Option String := none
  /-- The payment is real but not ours. -/
  resolvesOrganically : Bool := false
  deriving DecidableEq, Repr

/-- `_normalise_reference`: references are compared case-insensitively. -/
def normaliseReference (value : Option String) : String :=
  Text.lower (Text.strip (value.getD ""))

/-- The facts one settling webhook is judged by. -/
structure SettlingFacts where
  eventType : String
  signatureValid : Bool
  eventId : String
  referenceId : Option String
  webhookAmountPaise : Option ℤ
  issuedReferenceId : Option String
  caseStatus : CaseStatus
  caseAmountPaise : ℤ
  alreadyCounted : Bool
  now : DateTime
  windowExpiresAt : Option DateTime
  grace : ℤ

namespace SettlingFacts

/-- The amount that counts: the case's, or the webhook's if that is less. -/
def amount (f : SettlingFacts) : ℤ :=
  match f.webhookAmountPaise with
  | some webhook => if webhook = f.caseAmountPaise then f.caseAmountPaise
      else min webhook f.caseAmountPaise
  | none => f.caseAmountPaise

/-- The remark on an amount that does not agree. -/
def note (f : SettlingFacts) : String :=
  match f.webhookAmountPaise with
  | some webhook =>
    if webhook = f.caseAmountPaise then ""
    else " (webhook said " ++ toString webhook ++ ", case says " ++ toString f.caseAmountPaise ++
      "; counting the case amount)"
  | none => ""

/-- The payment came after the window and its grace. -/
def Late (f : SettlingFacts) : Prop := ∃ w ∈ f.windowExpiresAt, w.add f.grace < f.now

instance (f : SettlingFacts) : Decidable f.Late := by
  unfold Late
  infer_instance

/-- **`attribute`.** Instants are unbounded: the deadline of a window that ends within the grace of the
last instant of a datetime is an instant like any other, where the code raises `OverflowError`. -/
def attribution (f : SettlingFacts) : AttributionResult :=
  let incoming := normaliseReference f.referenceId
  let issued := normaliseReference f.issuedReferenceId
  if f.signatureValid = false then { counted := false, reason := "signature not valid" }
  else if f.eventType ∉ settlingEvents then
    { counted := false, reason := f.eventType ++ " does not settle a payment" }
  else if incoming = "" ∨ issued = "" then
    { counted := false, reason := "no reference_id to match on", resolvesOrganically := true }
  else if incoming ≠ issued then
    { counted := false
      reason := "reference " ++ Text.repr incoming ++ " was not issued by us"
      resolvesOrganically := true }
  else if f.caseStatus ≠ .monitoring then
    { counted := false
      reason := "case was " ++ f.caseStatus.value ++
        ", not MONITORING: no action of ours to credit"
      resolvesOrganically := true }
  else if f.Late then
    { counted := false
      reason := "paid after the attribution window closed (" ++
        (f.windowExpiresAt.map isoformat).getD "" ++ " + grace)"
      resolvesOrganically := true }
  else if f.alreadyCounted then { counted := false, reason := "already counted" }
  else
    { counted := true
      reason := "verified by " ++ f.eventId ++ f.note
      amountPaise := f.amount
      verifiedBy := some f.eventId }

/-- **The six conditions.** -/
structure Counts (f : SettlingFacts) : Prop where
  signed : f.signatureValid = true
  settles : f.eventType ∈ settlingEvents
  /-- The reference is one of ours. -/
  issued : normaliseReference f.issuedReferenceId ≠ ""
  matched : normaliseReference f.referenceId = normaliseReference f.issuedReferenceId
  monitoring : f.caseStatus = .monitoring
  inTime : ¬f.Late
  once : f.alreadyCounted = false

/-- **A payment counts exactly when it meets all six**, at the lesser of the two amounts. -/
theorem attribution_counted_iff (f : SettlingFacts) : f.attribution.counted = true ↔ f.Counts := by
  unfold attribution
  simp only
  split
  · next h => exact iff_of_false (by simp) fun hc => by simp [hc.signed] at h
  split
  · next h => exact iff_of_false (by simp) fun hc => h hc.settles
  split
  · next h =>
      refine iff_of_false (by simp) fun hc => ?_
      rcases h with h | h
      · exact hc.issued (hc.matched ▸ h)
      · exact hc.issued h
  split
  · next h => exact iff_of_false (by simp) fun hc => h hc.matched
  split
  · next h => exact iff_of_false (by simp) fun hc => h hc.monitoring
  split
  · next h => exact iff_of_false (by simp) fun hc => hc.inTime h
  split
  · next h => exact iff_of_false (by simp) fun hc => by simp [hc.once] at h
  · next hsigned hsettles hissued hmatched hmonitoring hlate honce =>
      exact iff_of_true rfl ⟨by simpa using hsigned, by simpa using hsettles,
        fun h => hissued (.inr h), by simpa using hmatched, by simpa using hmonitoring, hlate,
        by simpa using honce⟩

/-- What counts is worth the lesser amount, and is no organic payment. -/
theorem attribution_of_counts {f : SettlingFacts} (h : f.Counts) :
    f.attribution.amountPaise = f.amount ∧ f.attribution.resolvesOrganically = false := by
  have hincoming : ¬(normaliseReference f.referenceId = "" ∨
      normaliseReference f.issuedReferenceId = "") := by
    rw [h.matched, or_self]
    exact h.issued
  unfold attribution
  simp only
  rw [if_neg (by rw [h.signed]; decide), if_neg (not_not.mpr h.settles), if_neg hincoming,
    if_neg (not_not.mpr h.matched), if_neg (not_not.mpr h.monitoring), if_neg h.inTime,
    if_neg (by rw [h.once]; decide)]
  exact ⟨rfl, rfl⟩

theorem amount_le (f : SettlingFacts) : f.amount ≤ f.caseAmountPaise := by
  unfold amount
  split
  · split
    · exact le_refl _
    · exact min_le_right _ _
  · exact le_refl _

end SettlingFacts

end AegisMerchant
