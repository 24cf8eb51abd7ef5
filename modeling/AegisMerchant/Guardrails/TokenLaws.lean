import AegisMerchant.Base.JsonText
import AegisMerchant.Base.TimeText
import AegisMerchant.Guardrails.PolicyBounds

/-!
# What an approval and a token stand for

The canonical text of an action tells every field of it, and the signed message tells the action and
the minting time. With injective digests, an approved hash stands for one action, and a signature
for one capability.

`canonical_inj` tells actions apart by their texts, and `capabilities_bind` by what was approved or
signed.
-/

namespace AegisMerchant

open Time

/-! ## The canonical text -/

/-- How `repr` writes a finite float: digits, signs, a point, an exponent; and no two alike. -/
structure FloatText (floatRepr : ℚ → String) : Prop where
  injective : Function.Injective floatRepr
  chars : ∀ q, ∀ c ∈ (floatRepr q).toList, c.isDigit = true ∨ c ∈ ['+', '-', '.', 'e']

theorem FloatText.plain {floatRepr : ℚ → String} (h : FloatText floatRepr) (q : ℚ) :
    Json.Plain (floatRepr q) := by
  intro c hc
  constructor
  · rintro rfl
    exact absurd (h.chars q _ hc) (by decide)
  · rintro rfl
    exact absurd (h.chars q _ hc) (by decide)

theorem plain_toString (n : ℤ) : Json.Plain (toString n) := by
  intro c hc
  rcases Text.mem_toString_int hc with hdigit | rfl
  · constructor
    · rintro rfl
      exact absurd hdigit (by decide)
    · rintro rfl
      exact absurd hdigit (by decide)
  · decide

/-- An optional text as a field holds it. -/
def optionText (v : Option String) : String := v.elim "null" Json.quote

theorem dumps_ofOption (floatRepr : ℚ → String) (v : Option String) :
    (Json.ofOption v).dumps floatRepr = optionText v := by
  cases v <;> rfl

theorem separates_optionText (v v' : Option String) :
    Json.Separates (optionText v) (optionText v') := by
  have hquote : ∀ {s : String} {rest rest' : List Char},
      "null".toList ++ rest ≠ (Json.quote s).toList ++ rest' := by
    intro s rest rest' h
    simp only [Json.quote, String.toList_append, List.append_assoc] at h
    cases h
  cases v with
  | none =>
    cases v' with
    | none => exact fun _ _ _ _ _ => rfl
    | some s => exact fun _ _ _ _ h => absurd h hquote
  | some s =>
    cases v' with
    | none => exact fun _ _ _ _ h => absurd h.symm hquote
    | some s' => exact Json.separates_quote s s'

theorem optionText_inj {v v' : Option String} (h : optionText v = optionText v') : v = v' := by
  have hquote : ∀ s : String, "null" ≠ Json.quote s := by
    intro s hs
    have hlist := congrArg String.toList hs
    simp only [Json.quote, String.toList_append, List.append_assoc] at hlist
    cases hlist
  cases v with
  | none =>
    cases v' with
    | none => rfl
    | some s => exact absurd h (hquote s)
  | some s =>
    cases v' with
    | none => exact absurd h.symm (hquote s)
    | some s' => rw [Json.quote_inj h]

namespace AppliedAction

/-- The thirteen fields of an action, written, in the order of their keys. -/
def fields (floatRepr : ℚ → String) (a : AppliedAction) : List (String × String) :=
  [("amount_paise", toString a.amountPaise), ("attempt_no", toString a.attemptNo),
    ("case_id", Json.quote a.caseId), ("channel", Json.quote a.channel.value),
    ("charge_amount_paise", toString a.chargeAmountPaise),
    ("discount_amount_paise", toString a.discountAmountPaise),
    ("discount_pct", floatRepr a.discountPct),
    ("escalation_rung", Json.quote a.escalationRung.value),
    ("link_expiry_minutes", toString a.linkExpiryMinutes),
    ("message_class", Json.quote a.messageClass.value),
    ("reference_id", Json.quote a.referenceId),
    ("send_after", optionText (a.sendAfter.map isoformat)),
    ("strategy", Json.quote a.strategy.value)]

theorem canonical_eq (rt : Runtime) (a : AppliedAction) :
    a.canonical rt = "\x7b" ++ Json.fieldsText (a.fields rt.floatRepr) := by
  have hsorted : Json.sortFields (Json.dumpsFields rt.floatRepr
      [("case_id", .str a.caseId), ("strategy", .str a.strategy.value),
        ("amount_paise", .int a.amountPaise), ("discount_pct", .float a.discountPct),
        ("discount_amount_paise", .int a.discountAmountPaise),
        ("charge_amount_paise", .int a.chargeAmountPaise),
        ("link_expiry_minutes", .int a.linkExpiryMinutes), ("channel", .str a.channel.value),
        ("message_class", .str a.messageClass.value),
        ("escalation_rung", .str a.escalationRung.value), ("reference_id", .str a.referenceId),
        ("attempt_no", .int a.attemptNo),
        ("send_after", .ofOption (a.sendAfter.map isoformat))]) = a.fields rt.floatRepr := by
    simp +decide [Json.dumpsFields, Json.sortFields, List.insertionSort, List.orderedInsert,
      Json.dumps, dumps_ofOption, fields]
  unfold canonical asPayload Json.fieldsText
  rw [Json.dumps, hsorted, String.append_assoc]

/-- The instant an action carries is one a datetime can hold. -/
def InRange (a : AppliedAction) : Prop := ∀ t ∈ a.sendAfter, t.InRange

theorem fields_inj {floatRepr : ℚ → String} (hfloat : FloatText floatRepr) {a a' : AppliedAction}
    (hrange : a.InRange) (hrange' : a'.InRange) (h : a.fields floatRepr = a'.fields floatRepr) :
    a = a' := by
  simp only [fields, List.cons.injEq, Prod.mk.injEq, true_and, and_true] at h
  obtain ⟨hamount, hattempt, hcase, hchannel, hcharge, hdiscount, hpct, hrung, hexpiry, hclass, href,
    hsend, hstrategy⟩ := h
  -- within datetime's range two instants with one text are one instant
  have hsendAfter : a.sendAfter = a'.sendAfter := by
    have hmap := optionText_inj hsend
    cases hs : a.sendAfter with
    | none =>
      cases hs' : a'.sendAfter with
      | none => rfl
      | some t' => simp [hs, hs'] at hmap
    | some t =>
      cases hs' : a'.sendAfter with
      | none => simp [hs, hs'] at hmap
      | some t' =>
        rw [hs, hs'] at hmap
        have htext : isoformat t = isoformat t' := Option.some.inj hmap
        rw [isoformat_inj (hrange t hs) (hrange' t' hs') htext]
  -- the enumerations are written by their values, which are distinct
  have hchannel' : a.channel = a'.channel := Option.some.inj (by
    rw [← Channel.ofValue?_value, ← Channel.ofValue?_value, Json.quote_inj hchannel])
  have hrung' : a.escalationRung = a'.escalationRung := Option.some.inj (by
    rw [← EscalationRung.ofValue?_value, ← EscalationRung.ofValue?_value, Json.quote_inj hrung])
  have hclass' : a.messageClass = a'.messageClass := Option.some.inj (by
    rw [← MessageClass.ofValue?_value, ← MessageClass.ofValue?_value, Json.quote_inj hclass])
  have hstrategy' : a.strategy = a'.strategy := Option.some.inj (by
    rw [← RecoveryStrategy.ofValue?_value, ← RecoveryStrategy.ofValue?_value,
      Json.quote_inj hstrategy])
  cases a
  cases a'
  simp only [AppliedAction.mk.injEq]
  exact ⟨Json.quote_inj hcase, hstrategy', Text.toString_int_inj hamount, hfloat.injective hpct,
    Text.toString_int_inj hdiscount, Text.toString_int_inj hcharge, Text.toString_int_inj hexpiry,
    hchannel', hclass', hrung', Json.quote_inj href, Text.toString_int_inj hattempt, hsendAfter⟩

/-- **Two actions with one canonical text are equal in every field.** -/
theorem canonical_inj {rt : Runtime} (hfloat : FloatText rt.floatRepr) {a a' : AppliedAction}
    (hrange : a.InRange) (hrange' : a'.InRange) (h : a.canonical rt = a'.canonical rt) : a = a' := by
  rw [canonical_eq, canonical_eq] at h
  have htext : (Json.fieldsText (a.fields rt.floatRepr)).toList =
      (Json.fieldsText (a'.fields rt.floatRepr)).toList := by
    have hlist := congrArg String.toList h
    rw [String.toList_append, String.toList_append] at hlist
    exact List.append_cancel_left hlist
  refine fields_inj hfloat hrange hrange' (Json.fieldsText_inj ?_ htext)
  have hint : ∀ m n : ℤ, Json.Separates (toString m) (toString n) := fun m n =>
    Json.separates_plain (plain_toString m) (plain_toString n)
  unfold fields
  simp only [List.forall₂_cons, hint, Json.separates_quote, separates_optionText,
    Json.separates_plain (hfloat.plain _) (hfloat.plain _), true_and, and_self]
  exact .nil

end AppliedAction

/-! ## The signed message -/

theorem bar_not_mem_isoformat (t : DateTime) : '|' ∉ (isoformat t).toList := by
  have hdigit : ∀ {width n : ℕ}, '|' ∉ (Text.padNat width n).toList := fun hmem =>
    absurd (Text.isDigit_of_mem_padNat hmem) (by decide)
  -- every part of an instant's text is digits and a few fixed marks
  have hfraction : '|' ∉ fractionText (t.wallTime % second) := by
    unfold fractionText
    split
    · exact List.not_mem_nil
    · rw [List.mem_cons]
      rintro (h | h)
      · exact absurd h (by decide)
      · exact hdigit h
  have hoffset : '|' ∉ (offsetText t.offset).toList := by
    rw [toList_offsetText, List.mem_cons, List.mem_append, List.mem_cons, List.mem_append]
    rintro (h | h | h | h | h)
    · split at h <;> exact absurd h (by decide)
    · exact hdigit h
    · exact absurd h (by decide)
    · exact hdigit h
    · split at h
      · cases h
      · rcases List.mem_cons.mp h with h | h
        · exact absurd h (by decide)
        · exact hdigit h
  rw [toList_isoformat, List.mem_append, List.mem_append, List.mem_append]
  rintro (h | h | h | h)
  · exact hdigit h
  · rcases mem_clockText h with h | h
    · exact absurd h (by decide)
    · exact absurd h (by decide)
  · exact hfraction h
  · exact hoffset h

section Digests

variable {rt : Runtime} (hfloat : FloatText rt.floatRepr)

include hfloat in
/-- Two signatures are the same for the same action and minting time only. -/
theorem sign_inj (hmac : Function.Injective rt.hmacSha256) {a a' : AppliedAction} {t t' : DateTime}
    (ha : a.InRange) (ha' : a'.InRange) (ht : t.InRange) (ht' : t'.InRange)
    (h : sign rt a t = sign rt a' t') : a = a' ∧ t = t' := by
  have hlist := congrArg String.toList (hmac h)
  have hbar : "|".toList = ['|'] := by decide
  simp only [String.toList_append, hbar, List.append_assoc, List.singleton_append] at hlist
  obtain ⟨hcanonical, hminted⟩ := Text.cut_last (bar_not_mem_isoformat t) (bar_not_mem_isoformat t')
    hlist
  exact ⟨AppliedAction.canonical_inj hfloat ha ha' (String.toList_inj.mp hcanonical),
    isoformat_inj ht ht' (String.toList_inj.mp hminted)⟩

include hfloat in
/-- A content hash stands for one action. -/
theorem contentHash_inj (hsha : Function.Injective rt.sha256) {a a' : AppliedAction}
    (ha : a.InRange) (ha' : a'.InRange) (h : a.contentHash rt = a'.contentHash rt) : a = a' :=
  AppliedAction.canonical_inj hfloat ha ha' (hsha h)

end Digests

/-- What passes on a rung that needs a person carries the approved hash. -/
theorem approved_of_passed {rt : Runtime} {proposal : RecoveryProposal} {ctx : PolicyContext}
    {now : DateTime} {d : PolicyDecision} (h : evaluatePolicy rt proposal ctx now = .ok d)
    (hpassed : d.verdict = .passed)
    (hrung : d.escalationRung = .a2Approval ∨ d.escalationRung = .a3ApprovalDual) :
    ∃ a, d.applied = some a ∧ ctx.approvedActionHash = some (a.contentHash rt) := by
  obtain ⟨v, -, rfl⟩ := evaluatePolicy_eq_ok h
  by_cases hr : hardRefusals ctx v = []
  · simp only [policyDecision, hr, ne_eq, not_true_eq_false, if_false, authorise] at hpassed hrung ⊢
    split at hpassed
    · cases hpassed
    · next hcond =>
      rw [if_neg hcond] at hrung ⊢
      refine ⟨_, rfl, ?_⟩
      -- a rung that needs a human passes only with the hash approved
      by_contra hhash
      refine hcond ⟨?_, hhash⟩
      unfold EscalationRung.needsHuman
      rcases hrung with hrung | hrung
      · simp only at hrung
        simp [hrung]
      · simp only at hrung
        simp [hrung]
  · rw [(policyDecision_of_refused rt proposal now hr).1] at hpassed
    cases hpassed

/-- **What an approval and a token stand for.** -/
theorem capabilities_bind {rt : Runtime} (hsha : Function.Injective rt.sha256)
    (hmac : Function.Injective rt.hmacSha256) (hfloat : FloatText rt.floatRepr) :
    (∀ proposal ctx now d, evaluatePolicy rt proposal ctx now = .ok d → d.verdict = .passed →
        d.escalationRung = .a2Approval ∨ d.escalationRung = .a3ApprovalDual →
          ∃ a, d.applied = some a ∧ ctx.approvedActionHash = some (a.contentHash rt)) ∧
      (∀ a a' : AppliedAction, a.InRange → a'.InRange → a.contentHash rt = a'.contentHash rt →
        a = a') ∧
      ∀ (a a' : AppliedAction) (t t' : DateTime), a.InRange → a'.InRange → t.InRange → t'.InRange →
        ({ applied := a', mintedAt := t', signature := sign rt a t } : PolicyToken).verify rt =
          .ok () → a' = a ∧ t' = t := by
  refine ⟨fun proposal ctx now d h hpassed hrung => approved_of_passed h hpassed hrung,
    fun a a' ha ha' h => contentHash_inj hfloat hsha ha ha' h, ?_⟩
  intro a a' t t' ha ha' ht ht' h
  unfold PolicyToken.verify at h
  split at h
  · next hsign => exact sign_inj hfloat hmac ha' ha ht' ht hsign
  · cases h

/-! ## An approved action -/

/-- A runtime that spells texts and floats out, zero as `repr` does. -/
def spelledRuntime : Runtime where
  sha256 := id
  hmacSha256 := id
  floatRepr q := if q = 0 then "0.0" else toString q.num ++ "e" ++ toString (q.den : ℤ)

theorem exponent_not_mem_toString (n : ℤ) : 'e' ∉ (toString n).toList := by
  intro hmem
  rcases Text.mem_toString_int hmem with h | h
  · exact absurd h (by decide)
  · exact absurd h (by decide)

theorem toList_spelled {q : ℚ} (hq : q ≠ 0) : (spelledRuntime.floatRepr q).toList =
    (toString q.num).toList ++ 'e' :: (toString (q.den : ℤ)).toList := by
  simp only [spelledRuntime, if_neg hq, String.toList_append, List.append_assoc]
  rfl

theorem spelledRuntime_floatText : FloatText spelledRuntime.floatRepr := by
  have hzero : (spelledRuntime.floatRepr 0).toList = ['0', '.', '0'] := by decide
  constructor
  · intro q q' h
    have hlist := congrArg String.toList h
    -- zero is spelled without an exponent, every other number with one
    by_cases hq : q = 0
    · by_cases hq' : q' = 0
      · rw [hq, hq']
      · rw [hq, hzero, toList_spelled hq'] at hlist
        have hmem : 'e' ∈ ['0', '.', '0'] := by
          rw [hlist]
          exact List.mem_append_right _ List.mem_cons_self
        exact absurd hmem (by decide)
    · by_cases hq' : q' = 0
      · rw [hq', hzero, toList_spelled hq] at hlist
        have hmem : 'e' ∈ ['0', '.', '0'] := by
          rw [← hlist]
          exact List.mem_append_right _ List.mem_cons_self
        exact absurd hmem (by decide)
      · rw [toList_spelled hq, toList_spelled hq'] at hlist
        obtain ⟨hnum, hden⟩ := Text.cut_first (exponent_not_mem_toString _) (exponent_not_mem_toString _) hlist
        have hden := Text.toString_int_inj (String.toList_inj.mp hden)
        exact Rat.ext (Text.toString_int_inj (String.toList_inj.mp hnum)) (by omega)
  · intro q c hc
    by_cases hq : q = 0
    · simp only [hq, hzero, List.mem_cons, List.not_mem_nil, or_false] at hc
      rcases hc with rfl | rfl | rfl <;> decide
    · rw [toList_spelled hq, List.mem_append, List.mem_cons] at hc
      rcases hc with h | rfl | h
      · rcases Text.mem_toString_int h with h | rfl
        · exact .inl h
        · exact .inr (by decide)
      · exact .inr (by decide)
      · rcases Text.mem_toString_int h with h | rfl
        · exact .inl h
        · exact .inr (by decide)

/-- A fresh link for ₹20,000, which a person has to approve. -/
def largeProposal : RecoveryProposal := { strategy := .freshLinkSameRail }

/-- The case once the action was approved as it stands. -/
def approvedContext : PolicyContext :=
  { openContext 2000000 with
    approvedActionHash :=
      match evaluatePolicy spelledRuntime largeProposal (openContext 2000000) { utc := 0 } with
      | .ok d => d.applied.map (·.contentHash spelledRuntime)
      | .error _ => none }

theorem capabilities_bind_approved :
    ∃ d a, evaluatePolicy spelledRuntime largeProposal approvedContext { utc := 0 } = .ok d ∧
      d.applied = some a ∧
        approvedContext.approvedActionHash = some (a.contentHash spelledRuntime) := by
  have hid : Function.Injective (id : String → String) := fun _ _ h => h
  have hpassed : (evaluatePolicy spelledRuntime largeProposal approvedContext { utc := 0 }).map
      (fun d => (d.verdict, d.escalationRung)) = .ok (.passed, .a2Approval) := by decide +kernel
  cases hd : evaluatePolicy spelledRuntime largeProposal approvedContext { utc := 0 } with
  | error e => rw [hd] at hpassed; cases hpassed
  | ok d =>
    rw [hd] at hpassed
    obtain ⟨hverdict, hrung⟩ := Prod.mk.inj (Except.ok.inj hpassed)
    obtain ⟨a, ha, hhash⟩ := (capabilities_bind hid hid spelledRuntime_floatText).1 _ _ _ d hd
      hverdict (.inl hrung)
    exact ⟨d, a, rfl, ha, hhash⟩

end AegisMerchant
