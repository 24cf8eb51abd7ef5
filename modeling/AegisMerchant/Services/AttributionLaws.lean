import AegisMerchant.Services.Attribution

/-!
# What an attribution promises

A verdict states three things at once: whether a payment counts, what it is worth, and whether the
case resolves without us. The first and the last hold of every input. The amount is the lesser of
two figures, and one of them is the provider's: a figure of zero or less meets all six conditions
and is credited as it is.

`judged_iff` is the whole of the judgement, with `attribution_organic_iff` for the payments that are
nobody's; `not_judged` is a payment of nothing.
-/

namespace AegisMerchant

open Time

namespace SettlingFacts

/-- The payment carries a reference, and it is the one that was issued. -/
def Ours (f : SettlingFacts) : Prop :=
  normaliseReference f.referenceId ≠ "" ∧
    normaliseReference f.referenceId = normaliseReference f.issuedReferenceId

/-- The payment came before the window and its grace were over, if the case has a window. -/
def InTime (f : SettlingFacts) : Prop := ∀ w ∈ f.windowExpiresAt, f.now ≤ w.add f.grace

theorem inTime_iff (f : SettlingFacts) : f.InTime ↔ ¬f.Late := by
  constructor
  · rintro h ⟨w, hw, hlt⟩
    exact absurd (h w hw) (DateTime.not_le.mpr hlt)
  · intro h w hw
    exact DateTime.not_lt.mp fun hlt => h ⟨w, hw, hlt⟩

theorem ours_iff (f : SettlingFacts) :
    f.Ours ↔ normaliseReference f.issuedReferenceId ≠ "" ∧
      normaliseReference f.referenceId = normaliseReference f.issuedReferenceId := by
  constructor
  · rintro ⟨hne, heq⟩
    exact ⟨fun h => hne (heq.trans h), heq⟩
  · rintro ⟨hne, heq⟩
    exact ⟨fun h => hne (heq.symm.trans h), heq⟩

theorem counts_iff (f : SettlingFacts) :
    f.Counts ↔ f.signatureValid = true ∧ f.eventType ∈ settlingEvents ∧ f.Ours ∧
      f.caseStatus = .monitoring ∧ f.InTime ∧ f.alreadyCounted = false := by
  rw [ours_iff, inTime_iff]
  constructor
  · intro h
    exact ⟨h.signed, h.settles, ⟨h.issued, h.matched⟩, h.monitoring, h.inTime, h.once⟩
  · rintro ⟨hsigned, hsettles, ⟨hissued, hmatched⟩, hmonitoring, htime, honce⟩
    exact ⟨hsigned, hsettles, hissued, hmatched, hmonitoring, htime, honce⟩

/-- **What is not ours, not monitored or late resolves without us**, when it is a settling event
that is signed; nothing else does. -/
theorem attribution_organic_iff (f : SettlingFacts) :
    f.attribution.resolvesOrganically = true ↔
      f.signatureValid = true ∧ f.eventType ∈ settlingEvents ∧
        (¬f.Ours ∨ f.caseStatus ≠ .monitoring ∨ ¬f.InTime) := by
  rw [ours_iff, inTime_iff, not_not]
  unfold attribution
  simp only
  split
  · next h => exact iff_of_false (by simp) fun hc => by simp [hc.1] at h
  split
  · next h => exact iff_of_false (by simp) fun hc => h hc.2.1
  next hsigned hsettles =>
  have hs : f.signatureValid = true := by simpa using hsigned
  have he : f.eventType ∈ settlingEvents := by simpa using hsettles
  split
  · next h =>
      refine iff_of_true rfl ⟨hs, he, .inl ?_⟩
      rintro ⟨hissued, hmatched⟩
      rcases h with h | h
      · exact hissued (hmatched ▸ h)
      · exact hissued h
  split
  · next h => exact iff_of_true rfl ⟨hs, he, .inl fun ho => h ho.2⟩
  split
  · next h => exact iff_of_true rfl ⟨hs, he, .inr (.inl h)⟩
  split
  · next h => exact iff_of_true rfl ⟨hs, he, .inr (.inr h)⟩
  next hissued hmatched hmonitoring hlate =>
  have hnone : ¬(f.signatureValid = true ∧ f.eventType ∈ settlingEvents ∧
      (¬(normaliseReference f.issuedReferenceId ≠ "" ∧
        normaliseReference f.referenceId = normaliseReference f.issuedReferenceId) ∨
      f.caseStatus ≠ .monitoring ∨ f.Late)) := by
    rintro ⟨-, -, ho | hm | hl⟩
    · exact ho ⟨fun h => hissued (.inr h), by simpa using hmatched⟩
    · exact hmonitoring hm
    · exact hlate hl
  split
  · exact iff_of_false (by simp) hnone
  · exact iff_of_false (by simp) hnone

/-- The amount that counts is positive exactly when both figures are. -/
theorem amount_pos_iff (f : SettlingFacts) :
    0 < f.amount ↔ 0 < f.caseAmountPaise ∧ ∀ w ∈ f.webhookAmountPaise, 0 < w := by
  unfold amount
  split
  · next webhook h =>
      rw [h]
      split
      · next heq => simp [heq]
      · simp [and_comm]
  · next h => simp [h]

/-- **The verdict on one settling webhook**: it counts under the six conditions, for an amount that
is positive and at most the case's; it resolves the case without us exactly when it is signed,
settling, and not ours, not monitored or late. -/
structure Judged (f : SettlingFacts) : Prop where
  counted : f.attribution.counted = true ↔
    f.signatureValid = true ∧ f.eventType ∈ settlingEvents ∧ f.Ours ∧
      f.caseStatus = .monitoring ∧ f.InTime ∧ f.alreadyCounted = false
  amount : f.attribution.counted = true →
    0 < f.attribution.amountPaise ∧ f.attribution.amountPaise ≤ f.caseAmountPaise
  organic : f.attribution.resolvesOrganically = true ↔
    f.signatureValid = true ∧ f.eventType ∈ settlingEvents ∧
      (¬f.Ours ∨ f.caseStatus ≠ .monitoring ∨ ¬f.InTime)

/-- **A verdict is as it should be exactly when no figure of zero or less is credited.** -/
theorem judged_iff (f : SettlingFacts) :
    f.Judged ↔ (f.Counts → 0 < f.caseAmountPaise ∧ ∀ w ∈ f.webhookAmountPaise, 0 < w) := by
  constructor
  · intro h hc
    have hpos := (h.amount (f.attribution_counted_iff.mpr hc)).1
    rw [(attribution_of_counts hc).1] at hpos
    exact f.amount_pos_iff.mp hpos
  · intro h
    refine ⟨f.attribution_counted_iff.trans f.counts_iff, fun hcounted => ?_,
      f.attribution_organic_iff⟩
    have hc := f.attribution_counted_iff.mp hcounted
    rw [(attribution_of_counts hc).1]
    exact ⟨f.amount_pos_iff.mpr (h hc), f.amount_le⟩

/-- A signed webhook of a link that was paid with nothing, for a case that is monitored. -/
def paidNothing : SettlingFacts where
  eventType := "payment_link.paid"
  signatureValid := true
  eventId := "evt_1"
  referenceId := some "rp_1"
  webhookAmountPaise := some 0
  issuedReferenceId := some "rp_1"
  caseStatus := .monitoring
  caseAmountPaise := 100000
  alreadyCounted := false
  now := ⟨0, 0⟩
  windowExpiresAt := none
  grace := 0

/-- **A webhook over zero paise counts, and credits nothing.** -/
theorem not_judged : ¬∀ f : SettlingFacts, f.Judged := by
  intro h
  have hpos := ((h paidNothing).amount (by decide)).1
  exact absurd hpos (by decide)

end SettlingFacts

end AegisMerchant
