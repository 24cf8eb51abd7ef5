import AegisMerchant.Base.Reading
import AegisMerchant.Routers.Webhooks

/-!
# The gates of a webhook

Six gates stand before an event is stored: the secret, the signature, the parse, the clock, the
event id, and its being new. Each of them refuses what it was written for; what it was not written
for comes out as an exception.

`guarded_iff` is the law, for any body, headers and stored events; `not_guarded` is a signed body
that is no object.
-/

namespace AegisMerchant

open Time

namespace Webhooks

/-! ## The gates -/

section Gates

variable (rt : WebhookRuntime) (settings : Settings) (s : Ingestion) (r : Request)

/-- The secret is set, and the header is the digest of the raw bytes under it. -/
def Trusted : Prop :=
  settings.razorpayWebhookSecret ≠ "" ∧
    r.signature = some (rt.hmacHex settings.razorpayWebhookSecret r.rawBody)

/-- The event is no further from the clock than the tolerance. -/
def Fresh (payload : Json) : Prop :=
  ∃ ts, extractEventTs rt payload = some ts ∧
    |s.world.advance.clock.utc - ts.utc| ≤ settings.webhookReplayToleranceS * second

def Named (eventId : String) : Prop := r.eventId = some eventId ∧ eventId ≠ ""

/-- **Every gate lets the delivery through.** -/
structure Admits (payload : Json) (eventId : String) : Prop where
  trusted : Trusted rt settings r
  parsed : rt.jsonLoads r.rawBody = .ok payload
  object : ∃ fields, payload = .obj fields
  fresh : Fresh rt settings s payload
  named : Named r eventId
  new : eventId ∉ s.events.map (·.eventId)

/-- An event is stored and its processing scheduled, and nothing else is written. -/
def Stored (s s' : Ingestion) : Prop :=
  ∃ row task, s'.events = s.events ++ [row] ∧ s'.tasks = s.tasks ++ [task] ∧
    s'.world.db = s.world.db

/-- The delivery is refused, or acknowledged as a duplicate, and nothing is written. -/
def Refused (s : Ingestion) (outcome : Except PyError Response × Ingestion) : Prop :=
  (∃ response, outcome.1 = .ok response ∧
      ((400 ≤ response.statusCode ∧ response.statusCode < 500) ∨
        ∃ eventId, response = duplicate eventId)) ∧
    outcome.2.events = s.events ∧ outcome.2.tasks = s.tasks ∧ outcome.2.world.db = s.world.db

/-- **What the gates are for.** -/
structure Guarded : Prop where
  stored_iff : Stored s (razorpayWebhook rt settings s r).2 ↔
    ∃ payload eventId, Admits rt settings s r payload eventId
  refused : (¬∃ payload eventId, Admits rt settings s r payload eventId) →
    Refused s (razorpayWebhook rt settings s r)
  answered : ∃ response, (razorpayWebhook rt settings s r).1 = .ok response

/-- **What the gates are not written for does not occur.** -/
structure Handled : Prop where
  /-- A header that is compared is ASCII. -/
  ascii : settings.razorpayWebhookSecret ≠ "" → ∀ signature, r.signature = some signature →
    signature.toList.all (fun c => decide (c.toNat < 128)) = true
  /-- Trusted bytes that do not parse raise `ValueError`: they are not nested too deeply. -/
  nesting : Trusted rt settings r → ∀ exc, rt.jsonLoads r.rawBody = .error exc →
    ∃ message, exc = .valueError message
  /-- Trusted JSON is an object. -/
  object : Trusted rt settings r → ∀ payload, rt.jsonLoads r.rawBody = .ok payload →
    ∃ fields, payload = .obj fields
  /-- Its amount is not infinite. -/
  amount : Trusted rt settings r → ∀ payload, rt.jsonLoads r.rawBody = .ok payload →
    Ingest.amountOverflows payload = false
  /-- The tolerance an instant is compared with fits a `timedelta`. -/
  tolerance : Trusted rt settings r → ∀ payload, rt.jsonLoads r.rawBody = .ok payload →
    extractEventTs rt payload ≠ none → TimedeltaHolds settings.webhookReplayToleranceS
  /-- A name about to be stored has no lone surrogate. -/
  name : Trusted rt settings r → ∀ payload eventId, rt.jsonLoads r.rawBody = .ok payload →
    Fresh rt settings s payload → Named r eventId → rt.nameEncodes r.rawBody = true
  /-- The id drawn for a new row is new. -/
  rowId : ∀ payload eventId, Admits rt settings s r payload eventId →
    newId "evt" (s.world.fate s.world.advance.tick).hex ∉ s.events.map (·.id)

end Gates

/-- A digest: hexadecimal digits, and some of them. -/
structure Digest (text : String) : Prop where
  nonempty : text ≠ ""
  hex : Text.IsHex text

theorem Digest.ascii {text : String} (h : Digest text) :
    text.toList.all (fun c => decide (c.toNat < 128)) = true := by
  rw [List.all_eq_true]
  intro c hc
  rw [decide_eq_true_iff]
  rcases h.hex c hc with hdigit | hletter
  · have hrange := Char.isDigit_iff_toNat.mp hdigit
    have hnine : '9'.toNat = 57 := rfl
    omega
  · simp only [List.mem_cons, List.not_mem_nil, or_false] at hletter
    rcases hletter with rfl | rfl | rfl | rfl | rfl | rfl <;> decide

section Verification

variable {rt : WebhookRuntime} {settings : Settings} {s : Ingestion} {r : Request}
  (hdigest : ∀ secret body, Digest (rt.hmacHex secret body))

/-! ## The signature -/

include hdigest in
theorem verifySignature_trusted (h : Trusted rt settings r) :
    verifySignature rt r.rawBody r.signature settings.razorpayWebhookSecret = .ok none := by
  obtain ⟨hsecret, hsignature⟩ := h
  have hd := hdigest settings.razorpayWebhookSecret r.rawBody
  unfold verifySignature
  rw [if_neg hsecret, hsignature]
  simp only [Option.filter, decide_not, hd.nonempty, decide_false, Bool.not_false, if_true]
  rw [if_neg (not_not.mpr hd.ascii), if_neg (not_not.mpr rfl)]

theorem verifySignature_untrusted (h : ¬Trusted rt settings r)
    (hascii : settings.razorpayWebhookSecret ≠ "" → ∀ signature, r.signature = some signature →
      signature.toList.all (fun c => decide (c.toNat < 128)) = true) :
    ∃ reason, verifySignature rt r.rawBody r.signature settings.razorpayWebhookSecret =
      .ok (some reason) := by
  unfold verifySignature
  split
  · exact ⟨_, rfl⟩
  · next hsecret =>
    split
    · exact ⟨_, rfl⟩
    · next signature hfilter =>
      have hsignature : r.signature = some signature := (Option.filter_eq_some_iff.mp hfilter).1
      rw [if_neg (not_not.mpr (hascii hsecret signature hsignature)), if_pos]
      · exact ⟨_, rfl⟩
      · rintro rfl
        exact h ⟨hsecret, hsignature⟩

theorem verifySignature_nonAscii {signature : String}
    (hsecret : settings.razorpayWebhookSecret ≠ "") (hsignature : r.signature = some signature)
    (hascii : ¬signature.toList.all (fun c => decide (c.toNat < 128)) = true) :
    ∃ exc, verifySignature rt r.rawBody r.signature settings.razorpayWebhookSecret =
      .error exc := by
  have hne : signature ≠ "" := by
    rintro rfl
    exact hascii rfl
  unfold verifySignature
  rw [if_neg hsecret, hsignature]
  simp only [Option.filter, decide_not, hne, decide_false, Bool.not_false, if_true]
  rw [if_pos hascii]
  exact ⟨_, rfl⟩

/-! ## The clock -/

theorem verifyTimestamp_fresh {payload : Json} (h : Fresh rt settings s payload)
    (hholds : TimedeltaHolds settings.webhookReplayToleranceS) :
    verifyTimestamp (extractEventTs rt payload) s.world.advance.clock
      settings.webhookReplayToleranceS = .ok none := by
  obtain ⟨ts, hts, hage⟩ := h
  rw [abs_le] at hage
  unfold verifyTimestamp
  rw [hts]
  simp only
  rw [if_neg (not_not.mpr hholds), if_neg (by omega), if_neg (by omega)]

theorem verifyTimestamp_stale {payload : Json} (h : ¬Fresh rt settings s payload)
    (hholds : extractEventTs rt payload ≠ none →
      TimedeltaHolds settings.webhookReplayToleranceS) :
    ∃ reason, verifyTimestamp (extractEventTs rt payload) s.world.advance.clock
      settings.webhookReplayToleranceS = .ok (some reason) := by
  unfold verifyTimestamp
  split
  · exact ⟨_, rfl⟩
  · next ts hts =>
    rw [if_neg (not_not.mpr (hholds (by rw [hts]; exact Option.some_ne_none ts)))]
    simp only
    split
    · exact ⟨_, rfl⟩
    · next hold =>
      split
      · exact ⟨_, rfl⟩
      · next hnew =>
        refine absurd ⟨ts, hts, ?_⟩ h
        rw [abs_le]
        omega

/-! ## Each outcome -/

include hdigest in
/-- A trusted body is parsed. -/
theorem razorpayWebhook_unparsed (h : Trusted rt settings r) {exc : PyError}
    (hloads : rt.jsonLoads r.rawBody = .error exc) :
    razorpayWebhook rt settings s r = (.error exc, s) ∨
      ∃ message, exc = .valueError message ∧
        razorpayWebhook rt settings s r = (.ok (rejected 400 "malformed_json"), s) := by
  unfold razorpayWebhook
  simp only [verifySignature_trusted hdigest h, hloads]
  cases exc with
  | valueError message => exact .inr ⟨message, rfl, rfl⟩
  | _ => exact .inl rfl

include hdigest in
theorem razorpayWebhook_notObject (h : Trusted rt settings r) {payload : Json}
    (hloads : rt.jsonLoads r.rawBody = .ok payload) (hobject : ¬∃ fields, payload = .obj fields) :
    (razorpayWebhook rt settings s r).1 = .error .attributeError := by
  unfold razorpayWebhook
  simp only [verifySignature_trusted hdigest h, hloads]
  cases payload with
  | obj fields => exact absurd ⟨fields, rfl⟩ hobject
  | _ => rfl

section Object

variable (h : Trusted rt settings r) {fields : List (String × Json)}
  (hloads : rt.jsonLoads r.rawBody = .ok (.obj fields))

include hdigest h hloads

theorem razorpayWebhook_overflow (hover : Ingest.amountOverflows (.obj fields) = true) :
    ∃ exc, (razorpayWebhook rt settings s r).1 = .error exc := by
  unfold razorpayWebhook
  simp only [verifySignature_trusted hdigest h, hloads]
  rw [if_pos hover]
  exact ⟨_, rfl⟩

variable (hread : Ingest.amountOverflows (.obj fields) = false)

include hread

theorem razorpayWebhook_overTolerance {exc : PyError}
    (hexc : verifyTimestamp (extractEventTs rt (.obj fields)) s.world.advance.clock
      settings.webhookReplayToleranceS = .error exc) :
    (razorpayWebhook rt settings s r).1 = .error exc := by
  unfold razorpayWebhook
  simp only [verifySignature_trusted hdigest h, hloads, hread, hexc]
  rfl

theorem razorpayWebhook_stale {reason : String}
    (hstale : verifyTimestamp (extractEventTs rt (.obj fields)) s.world.advance.clock
      settings.webhookReplayToleranceS = .ok (some reason)) :
    razorpayWebhook rt settings s r =
      (.ok (rejected 401 reason), { s with world := s.world.advance }) := by
  unfold razorpayWebhook
  simp only [verifySignature_trusted hdigest h, hloads, hread, hstale]
  rfl

variable (hfresh : verifyTimestamp (extractEventTs rt (.obj fields)) s.world.advance.clock
  settings.webhookReplayToleranceS = .ok none)

include hfresh

theorem razorpayWebhook_unnamed (hmissing : ¬∃ eventId, Named r eventId) :
    razorpayWebhook rt settings s r =
      (.ok (rejected 400 "event_id_header_missing"), { s with world := s.world.advance }) := by
  have hnone : r.eventId.filter (· ≠ "") = none := by
    rw [Option.filter_eq_none_iff]
    intro eventId heventId hne
    exact hmissing ⟨eventId, heventId, of_decide_eq_true hne⟩
  unfold razorpayWebhook
  simp only [verifySignature_trusted hdigest h, hloads, hread, hfresh, hnone]
  rfl

variable {eventId : String} (hnamed : Named r eventId)

include hnamed

theorem razorpayWebhook_named :
    razorpayWebhook rt settings s r =
      if !rt.nameEncodes r.rawBody then
        (.error (.valueError "surrogates not allowed"),
          { s with world := s.world.advance.after 2 })
      else
        (.ok (store rt { s with world := s.world.advance } r (.obj fields) eventId).1,
          (store rt { s with world := s.world.advance } r (.obj fields) eventId).2) := by
  have hsome : r.eventId.filter (· ≠ "") = some eventId :=
    Option.filter_eq_some_iff.mpr ⟨hnamed.1, decide_eq_true hnamed.2⟩
  unfold razorpayWebhook
  simp only [verifySignature_trusted hdigest h, hloads, hread, hfresh, hsome]
  rfl

end Object

/-- Storing an event whose id and row id are new. -/
theorem store_new {payload : Json} {eventId : String}
    (hnew : eventId ∉ s.events.map (·.eventId))
    (hrow : newId "evt" (s.world.fate s.world.tick).hex ∉ s.events.map (·.id)) :
    Stored s (store rt s r payload eventId).2 := by
  unfold store
  simp only
  rw [if_neg]
  · exact ⟨_, _, rfl, rfl, World.after_db _ _⟩
  · rintro (h | h)
    · exact hnew h
    · exact hrow h

/-- An id that is taken, the event's or the row's. -/
theorem store_taken {payload : Json} {eventId : String}
    (h : eventId ∈ s.events.map (·.eventId) ∨
      newId "evt" (s.world.fate s.world.tick).hex ∈ s.events.map (·.id)) :
    store rt s r payload eventId = (duplicate eventId, { s with world := s.world.after 2 }) := by
  unfold store
  simp only
  rw [if_pos]
  exact h

/-! ## Both directions -/

theorem not_stored_self {s' : Ingestion} (h : s'.events = s.events) : ¬Stored s s' := by
  rintro ⟨row, task, hevents, -⟩
  have hlength := congrArg List.length (h.symm.trans hevents)
  simp at hlength

/-- A refusal of a delivery that some gate holds back is what the gates are for. -/
theorem guarded_of_refused (hrefused : Refused s (razorpayWebhook rt settings s r))
    (hnot : ¬∃ payload eventId, Admits rt settings s r payload eventId) :
    Guarded rt settings s r := by
  obtain ⟨⟨response, hresponse, -⟩, hevents, -⟩ := id hrefused
  exact ⟨iff_of_false (not_stored_self hevents) hnot, fun _ => hrefused, response, hresponse⟩

theorem refused_rejected {outcome : Except PyError Response × Ingestion} {code : ℕ}
    {reason : String} {w : World}
    (h : outcome = (.ok (rejected code reason), { s with world := w }))
    (hcode : 400 ≤ code ∧ code < 500) (hw : w.db = s.world.db) : Refused s outcome := by
  subst h
  exact ⟨⟨_, rfl, .inl hcode⟩, rfl, rfl, hw⟩

include hdigest in
/-- Where nothing else occurs, the gates do what they are for. -/
theorem guarded_of_handled (h : Handled rt settings s r) : Guarded rt settings s r := by
  by_cases htrusted : Trusted rt settings r
  · cases hloads : rt.jsonLoads r.rawBody with
    -- the body nests too deep, which the route answers as malformed
    | error exc =>
      obtain ⟨message, rfl⟩ := h.nesting htrusted exc hloads
      have hnot : ¬∃ payload eventId, Admits rt settings s r payload eventId := by
        rintro ⟨payload, eventId, hadmits⟩
        cases hloads.symm.trans hadmits.parsed
      have hmalformed : razorpayWebhook rt settings s r =
          (.ok (rejected 400 "malformed_json"), s) := by
        unfold razorpayWebhook
        simp only [verifySignature_trusted hdigest htrusted, hloads]
      exact guarded_of_refused (refused_rejected hmalformed (by decide) rfl) hnot
    | ok payload =>
      obtain ⟨fields, rfl⟩ := h.object htrusted payload hloads
      have hread := h.amount htrusted _ hloads
      have hholds := h.tolerance htrusted _ hloads
      have hparsed : ∀ {payload eventId}, Admits rt settings s r payload eventId →
          payload = .obj fields := fun hadmits => Except.ok.inj (hadmits.parsed.symm.trans hloads)
      by_cases hfresh : Fresh rt settings s (.obj fields)
      · have hts : extractEventTs rt (.obj fields) ≠ none := by
          obtain ⟨ts, hts, -⟩ := hfresh
          rw [hts]
          exact Option.some_ne_none ts
        have hverified := verifyTimestamp_fresh hfresh (hholds hts)
        -- fresh: stored exactly if it is named, and its name is new
        by_cases hnamed : ∃ eventId, Named r eventId
        · obtain ⟨eventId, hnamed⟩ := hnamed
          have hresult := razorpayWebhook_named hdigest htrusted hloads hread hverified hnamed
          rw [h.name htrusted _ eventId hloads hfresh hnamed] at hresult
          by_cases hnew : eventId ∈ s.events.map (·.eventId)
          · -- a duplicate: acknowledged, not stored again
            have hnot : ¬∃ payload eventId, Admits rt settings s r payload eventId := by
              rintro ⟨payload, eventId', hadmits⟩
              obtain rfl : eventId' = eventId :=
                Option.some.inj (hadmits.named.1.symm.trans hnamed.1)
              exact hadmits.new hnew
            have htaken := @store_taken rt { s with world := s.world.advance } r (.obj fields)
              eventId (.inl hnew)
            refine guarded_of_refused ?_ hnot
            rw [hresult, htaken]
            exact ⟨⟨_, rfl, .inr ⟨eventId, rfl⟩⟩, rfl, rfl, World.after_db _ _⟩
          · have hadmits : Admits rt settings s r (.obj fields) eventId :=
              ⟨htrusted, hloads, ⟨fields, rfl⟩, hfresh, hnamed, hnew⟩
            have hstored := @store_new rt { s with world := s.world.advance } r (.obj fields)
              eventId hnew (h.rowId _ _ hadmits)
            refine ⟨iff_of_true ?_ ⟨_, _, hadmits⟩, fun hnot => absurd ⟨_, _, hadmits⟩ hnot, ?_⟩
            · rw [hresult]
              exact hstored
            · rw [hresult]
              exact ⟨_, rfl⟩
        · have hnot : ¬∃ payload eventId, Admits rt settings s r payload eventId := by
            rintro ⟨payload, eventId, hadmits⟩
            exact hnamed ⟨eventId, hadmits.named⟩
          have hmissing := razorpayWebhook_unnamed hdigest htrusted hloads hread hverified hnamed
          exact guarded_of_refused (refused_rejected hmissing (by decide) rfl) hnot
      · have hnot : ¬∃ payload eventId, Admits rt settings s r payload eventId := by
          rintro ⟨payload, eventId, hadmits⟩
          rw [hparsed hadmits] at hadmits
          exact hfresh hadmits.fresh
        obtain ⟨reason, hstale⟩ := verifyTimestamp_stale hfresh hholds
        have hrejected := razorpayWebhook_stale hdigest htrusted hloads hread hstale
        exact guarded_of_refused (refused_rejected hrejected (by decide) rfl) hnot
  · have hnot : ¬∃ payload eventId, Admits rt settings s r payload eventId := by
      rintro ⟨payload, eventId, hadmits⟩
      exact htrusted hadmits.trusted
    obtain ⟨reason, huntrusted⟩ := verifySignature_untrusted htrusted h.ascii
    have hrejected : razorpayWebhook rt settings s r = (.ok (rejected 401 reason), s) := by
      unfold razorpayWebhook
      rw [huntrusted]
    exact guarded_of_refused (refused_rejected hrejected (by decide) rfl) hnot

include hdigest in
/-- Whatever the gates are not written for, they do not do what they are for. -/
theorem handled_of_guarded (h : Guarded rt settings s r) : Handled rt settings s r := by
  obtain ⟨response, hresponse⟩ := h.answered
  have hnoError : ∀ exc, (razorpayWebhook rt settings s r).1 ≠ .error exc := by
    intro exc hexc
    cases hresponse.symm.trans hexc
  -- each gate in turn: were it to raise, the request would have no answer
  have hobject : Trusted rt settings r → ∀ payload, rt.jsonLoads r.rawBody = .ok payload →
      ∃ fields, payload = .obj fields := by
    intro htrusted payload hloads
    by_contra hnot
    exact hnoError _ (razorpayWebhook_notObject hdigest htrusted hloads hnot)
  have hamount : Trusted rt settings r → ∀ payload, rt.jsonLoads r.rawBody = .ok payload →
      Ingest.amountOverflows payload = false := by
    intro htrusted payload hloads
    obtain ⟨fields, rfl⟩ := hobject htrusted payload hloads
    by_contra hover
    obtain ⟨exc, hexc⟩ := razorpayWebhook_overflow hdigest htrusted hloads
      (Bool.eq_true_of_not_eq_false hover)
    exact hnoError exc hexc
  have htolerance : Trusted rt settings r → ∀ payload, rt.jsonLoads r.rawBody = .ok payload →
      extractEventTs rt payload ≠ none → TimedeltaHolds settings.webhookReplayToleranceS := by
    intro htrusted payload hloads hts
    obtain ⟨fields, rfl⟩ := hobject htrusted payload hloads
    by_contra hnot
    obtain ⟨ts, hts⟩ := Option.ne_none_iff_exists'.mp hts
    have hover : verifyTimestamp (extractEventTs rt (.obj fields)) s.world.advance.clock
        settings.webhookReplayToleranceS =
          .error (.overflowError "days; must have magnitude <= 999999999") := by
      unfold verifyTimestamp
      rw [hts]
      simp only
      rw [if_pos hnot]
    exact hnoError _ (razorpayWebhook_overTolerance hdigest htrusted hloads
      (hamount htrusted _ hloads) hover)
  have hname : Trusted rt settings r → ∀ payload eventId, rt.jsonLoads r.rawBody = .ok payload →
      Fresh rt settings s payload → Named r eventId → rt.nameEncodes r.rawBody = true := by
    intro htrusted payload eventId hloads hfresh hnamed
    obtain ⟨fields, rfl⟩ := hobject htrusted payload hloads
    have hts : extractEventTs rt (.obj fields) ≠ none := by
      obtain ⟨ts, hts, -⟩ := hfresh
      rw [hts]
      exact Option.some_ne_none ts
    have hresult := razorpayWebhook_named hdigest htrusted hloads (hamount htrusted _ hloads)
      (verifyTimestamp_fresh hfresh (htolerance htrusted _ hloads hts)) hnamed
    by_contra hencodes
    rw [Bool.eq_false_of_not_eq_true hencodes] at hresult
    refine hnoError (.valueError "surrogates not allowed") ?_
    rw [hresult]
    rfl
  refine ⟨?_, ?_, hobject, hamount, htolerance, hname, ?_⟩
  · intro hsecret signature hsignature
    by_contra hascii
    obtain ⟨exc, hexc⟩ : ∃ exc, verifySignature rt r.rawBody r.signature
        settings.razorpayWebhookSecret = .error exc :=
      verifySignature_nonAscii hsecret hsignature hascii
    refine hnoError exc ?_
    unfold razorpayWebhook
    rw [hexc]
  · intro htrusted exc hloads
    rcases razorpayWebhook_unparsed hdigest htrusted hloads with herror | ⟨message, rfl, -⟩
    · refine absurd ?_ (hnoError exc)
      rw [herror]
    · exact ⟨message, rfl⟩
  · intro payload eventId hadmits htaken
    -- the row id is taken: acknowledged as a duplicate that is none
    obtain ⟨fields, rfl⟩ := hadmits.object
    have hts : extractEventTs rt (.obj fields) ≠ none := by
      obtain ⟨ts, hts, -⟩ := hadmits.fresh
      rw [hts]
      exact Option.some_ne_none ts
    have hresult := razorpayWebhook_named hdigest hadmits.trusted hadmits.parsed
      (hamount hadmits.trusted _ hadmits.parsed)
      (verifyTimestamp_fresh hadmits.fresh (htolerance hadmits.trusted _ hadmits.parsed hts))
      hadmits.named
    rw [hname hadmits.trusted _ _ hadmits.parsed hadmits.fresh hadmits.named,
      @store_taken rt { s with world := s.world.advance } r _ _ (.inr htaken)] at hresult
    have hstored := h.stored_iff.mpr ⟨_, _, hadmits⟩
    rw [hresult] at hstored
    exact not_stored_self (s := s) rfl hstored

include hdigest in
/-- **The endpoint stores exactly what its gates admit, refuses everything else and never raises,
exactly where nothing occurs that they are not written for.** -/
theorem guarded_iff : Guarded rt settings s r ↔ Handled rt settings s r :=
  ⟨handled_of_guarded hdigest, guarded_of_handled hdigest⟩

end Verification

/-! ## Two signed bodies -/

/-- A runtime that reads every body as one payload and gives every body one digest. -/
def signedRuntime (text : String) (payload : Json) (signature : String) : WebhookRuntime where
  toRuntime := plainRuntime
  jsonLoads _ := .ok payload
  hmacHex _ _ := signature
  decode _ := text
  intOfText _ := none
  nameEncodes _ := true

def signedSettings : Settings := { razorpayWebhookSecret := "whsec" }

def signedRequest (text signature : String) : Request where
  rawBody := text.toUTF8.toList
  signature := some signature
  eventId := some "evt_1"

/-- Nothing is stored, and it is the epoch. -/
def nothingStored : Ingestion where
  world := { db := { tables := {}, valid := by decide +kernel }, clock := { utc := 0 } }

def failedText : String := "\x7b\"event\":\"payment.failed\",\"created_at\":0\x7d"

def failedPayload : Json := .obj [("event", .str "payment.failed"), ("created_at", .int 0)]

/-- The signature of `failedText` under the secret `whsec`. -/
def failedSignature : String := "2bba94338649c41d81cef4538cc44a89776969d0089535d45429f739f57ee1fb"

def listSignature : String := "9dc5d69d0cc76a725a98b69de04c4cbbc5105e6f4419d0a296d58df8402376e1"

theorem failedSignature_digest : Digest failedSignature where
  nonempty := by decide
  hex := by decide +kernel

theorem listSignature_digest : Digest listSignature where
  nonempty := by decide
  hex := by decide +kernel

def failedRuntime : WebhookRuntime := signedRuntime failedText failedPayload failedSignature

theorem handled_failed :
    Handled failedRuntime signedSettings nothingStored
      (signedRequest failedText failedSignature) where
  ascii _ signature h := by
    cases h
    exact failedSignature_digest.ascii
  nesting _ exc h := by cases h
  object _ payload h := by
    cases h
    exact ⟨_, rfl⟩
  amount _ payload h := by
    cases h
    rfl
  tolerance _ _ _ _ := by decide
  name _ _ _ _ _ _ := rfl
  rowId _ _ _ := by decide

theorem guarded_iff_failed :
    Guarded failedRuntime signedSettings nothingStored
      (signedRequest failedText failedSignature) ∧
    Stored nothingStored (razorpayWebhook failedRuntime signedSettings nothingStored
      (signedRequest failedText failedSignature)).2 := by
  have hguarded : Guarded failedRuntime signedSettings nothingStored
      (signedRequest failedText failedSignature) :=
    (guarded_iff fun _ _ => failedSignature_digest).mpr handled_failed
  refine ⟨hguarded, hguarded.stored_iff.mpr ⟨failedPayload, "evt_1", ?_⟩⟩
  exact
    { trusted := ⟨by decide, rfl⟩
      parsed := rfl
      object := ⟨_, rfl⟩
      fresh := ⟨{ utc := 0 }, rfl, by decide⟩
      named := ⟨rfl, by decide⟩
      new := List.not_mem_nil }

/-- A signed `[]` raises `AttributeError`. -/
theorem not_guarded :
    ¬∀ (rt : WebhookRuntime) (settings : Settings) (s : Ingestion) (r : Request),
      (∀ secret body, Digest (rt.hmacHex secret body)) → Guarded rt settings s r := by
  intro h
  have hguarded := h (signedRuntime "[]" (.arr []) listSignature) signedSettings nothingStored
    (signedRequest "[]" listSignature) (fun _ _ => listSignature_digest)
  obtain ⟨response, hresponse⟩ := hguarded.answered
  have hraised : (razorpayWebhook (signedRuntime "[]" (.arr []) listSignature) signedSettings
      nothingStored (signedRequest "[]" listSignature)).1 = .error .attributeError :=
    razorpayWebhook_notObject (fun _ _ => listSignature_digest) ⟨by decide, rfl⟩ rfl
      (by rintro ⟨fields, hfields⟩; cases hfields)
  cases hresponse.symm.trans hraised

end Webhooks

end AegisMerchant
