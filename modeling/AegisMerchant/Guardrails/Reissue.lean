import AegisMerchant.Base.JsonLoads
import AegisMerchant.Base.TimeRead
import AegisMerchant.Guardrails.TokenLaws

/-!
# A capability taken up again

What the outbox stores of an action is read back after a crash: the text of its payload is parsed to
the same action, with the same content hash, and the token handed out with it verifies.

`loads_payloadText` is about the text, `reissueFromCommittedIntent_payloadText` about the
capability.
-/

namespace AegisMerchant

open Time Numeric

namespace AppliedAction

/-- `json.dumps(applied.as_payload(), sort_keys=True, default=str)`, the text of an outbox row. -/
def payloadText (rt : Runtime) (a : AppliedAction) : String := a.asPayload.dumpsAscii rt.floatRepr

/-- The instant an action carries is one a datetime can hold, offset included. -/
def Aware (a : AppliedAction) : Prop := ∀ t ∈ a.sendAfter, t.InRange ∧ t.OffsetInRange

/-- The text of a row is read back to a payload with the same entries. -/
theorem loads_payloadText {rt : Runtime} {readFloat : String → ExtRat}
    (hfloat : Json.FloatReads rt.floatRepr readFloat) (a : AppliedAction) :
    ∃ payload, Json.loads readFloat (a.payloadText rt) = some payload ∧
      ∀ key, payload.get? key = a.asPayload.get? key := by
  unfold payloadText asPayload
  generalize hfields : [("case_id", Json.str a.caseId), ("strategy", .str a.strategy.value),
    ("amount_paise", .int a.amountPaise), ("discount_pct", .float a.discountPct),
    ("discount_amount_paise", .int a.discountAmountPaise),
    ("charge_amount_paise", .int a.chargeAmountPaise),
    ("link_expiry_minutes", .int a.linkExpiryMinutes), ("channel", .str a.channel.value),
    ("message_class", .str a.messageClass.value),
    ("escalation_rung", .str a.escalationRung.value), ("reference_id", .str a.referenceId),
    ("attempt_no", .int a.attemptNo),
    ("send_after", .ofOption (a.sendAfter.map isoformat))] = fields
  have hkeys : (fields.map Prod.fst).Nodup := by
    subst hfields
    show ["case_id", "strategy", "amount_paise", "discount_pct", "discount_amount_paise",
      "charge_amount_paise", "link_expiry_minutes", "channel", "message_class", "escalation_rung",
      "reference_id", "attempt_no", "send_after"].Nodup
    decide
  have hscalar : ∀ f ∈ fields, f.2.Scalar := by
    have hsend : (Json.ofOption (a.sendAfter.map isoformat)).Scalar := by
      cases a.sendAfter <;> trivial
    subst hfields
    simp only [List.forall_mem_cons, List.not_mem_nil, false_imp_iff, implies_true, and_true, hsend]
    exact ⟨trivial, trivial, trivial, trivial, trivial, trivial, trivial, trivial, trivial, trivial,
      trivial, trivial⟩
  exact ⟨_, Json.loads_dumpsAscii hfloat hscalar hkeys, Json.get?_sortFields hkeys⟩

end AppliedAction

/-- **A committed action is taken up again as it was authorised**: same action, same hash, and a token
that verifies. -/
theorem reissueFromCommittedIntent_payloadText {rt : Runtime} {readFloat : String → ExtRat}
    (hfloat : Json.FloatReads rt.floatRepr readFloat) {a : AppliedAction} (haware : a.Aware)
    (mintedAt : DateTime) :
    ∃ applied token, reissueFromCommittedIntent rt (Json.loads readFloat (a.payloadText rt)) mintedAt =
        .ok (applied, token) ∧
      applied = a ∧ applied.contentHash rt = a.contentHash rt ∧ token.applied = a ∧
        token.verify rt = .ok () := by
  obtain ⟨payload, hloads, hentries⟩ := a.loads_payloadText hfloat
  have hread : AppliedAction.fromPayload payload = .ok a := by
    rw [AppliedAction.fromPayload_congr hentries
      (show a.asPayload.get? "case_id" = some (.str a.caseId) from rfl)]
    apply AppliedAction.fromPayload_asPayload
    intro t ht
    obtain ⟨hrange, hoffset⟩ := haware t ht
    exact readIso_isoformat hrange hoffset
  refine ⟨a, mint rt a mintedAt, ?_, rfl, rfl, mint_applied rt a mintedAt, verify_mint rt a mintedAt⟩
  rw [hloads]
  show (AppliedAction.fromPayload payload >>= fun applied =>
    .ok (applied, mint rt applied mintedAt)) = .ok (a, mint rt a mintedAt)
  rw [hread]
  rfl

/-! ## An evening -/

/-- How the floats a runtime spelled out are read. -/
def readSpelled (s : String) : ExtRat :=
  if 'e' ∈ s.toList then
    .fin (Json.intOf (s.toList.takeWhile (· ≠ 'e')) / Json.intOf (s.toList.dropWhile (· ≠ 'e')).tail)
  else .fin 0

theorem spelledRuntime_floatReads : Json.FloatReads spelledRuntime.floatRepr readSpelled := by
  constructor
  · intro q
    by_cases hq : q = 0
    · subst hq
      have hzero : Json.IsDigits ['0'] :=
        ⟨List.cons_ne_nil _ _, List.forall_mem_singleton.mpr rfl⟩
      refine ⟨['0'], ['.', '0'], [], ⟨[], ['0'], .inl rfl, hzero, fun _ => rfl, rfl⟩,
        .inr ⟨['0'], hzero, rfl⟩, .inl rfl, ?_, rfl⟩
      rintro ⟨h, -⟩
      cases h
    · rw [toList_spelled hq]
      refine ⟨_, [], _, Json.isInteger_toString q.num, .inl rfl,
        .inr ⟨[], _, .inl rfl, Json.isDigits_repr q.den, rfl⟩, ?_, rfl⟩
      rintro ⟨-, h⟩
      cases h
  · intro q
    by_cases hq : q = 0
    · subst hq
      rfl
    · have hmem : 'e' ∈ (spelledRuntime.floatRepr q).toList := by
        rw [toList_spelled hq]
        exact List.mem_append_right _ List.mem_cons_self
      have hkeep : ∀ c ∈ (toString q.num).toList, decide (c ≠ 'e') = true := by
        intro c hc
        apply decide_eq_true
        rintro rfl
        exact exponent_not_mem_toString q.num hc
      rw [readSpelled, if_pos hmem, toList_spelled hq, List.takeWhile_append_of_pos hkeep,
        List.dropWhile_append_of_pos hkeep, List.takeWhile_cons_of_neg (by decide),
        List.dropWhile_cons_of_neg (by decide), List.append_nil, List.tail_cons,
        Json.intOf_toString, Json.intOf_toString]
      exact congrArg ExtRat.fin (Rat.num_div_den q)

def eveningAction : AppliedAction where
  caseId := "RC-0001"
  strategy := .freshLinkSameRail
  amountPaise := 100000
  discountPct := 0
  discountAmountPaise := 0
  chargeAmountPaise := 100000
  linkExpiryMinutes := 30
  channel := .whatsapp
  messageClass := .transactional
  escalationRung := .a0Autonomous
  referenceId := "rc-0001-1"
  attemptNo := 1
  sendAfter := some { utc := 1788364800123456, offset := 19800 }

theorem reissueFromCommittedIntent_payloadText_evening :
    ∃ applied token, reissueFromCommittedIntent spelledRuntime
        (Json.loads readSpelled (eveningAction.payloadText spelledRuntime)) { utc := 0 } =
          .ok (applied, token) ∧
      applied = eveningAction ∧
      applied.contentHash spelledRuntime = eveningAction.contentHash spelledRuntime ∧
        token.applied = eveningAction ∧ token.verify spelledRuntime = .ok () := by
  have haware : eveningAction.Aware := by
    intro t ht
    obtain rfl := Option.some.inj ht
    decide
  exact reissueFromCommittedIntent_payloadText spelledRuntime_floatReads haware { utc := 0 }

end AegisMerchant
