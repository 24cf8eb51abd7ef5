import AegisMerchant.Guardrails.Consent
import Mathlib.Data.List.TakeWhile

/-!
# What a rendered message says

A template is text without braces and slots with names; a rendered message is the same text with
the values in place of the slots.

`fills_subSlots` is the one pass over the slots, and `Consent.render_renders` what a message that is
sent went through.
-/

namespace AegisMerchant.Consent

open Scan

/-! ## What a slot is -/

def IsIdentifier (name : String) : Prop :=
  ∃ c cs, name.toList = c :: cs ∧ identStart c = true ∧ ∀ x ∈ cs, identChar x = true

/-- A slot as a template writes it. -/
def slotSource (name : String) : List Char := '{' :: name.toList ++ ['}']

theorem slotRe_eq_some {cs : List Char} {name : String} {n : ℕ} (h : slotRe cs = some (name, n)) :
    IsIdentifier name ∧ n = (slotSource name).length ∧ slotSource name <+: cs := by
  unfold slotRe at h
  split at h
  · next c cs =>
    simp only at h
    split at h
    · next hstart =>
      split at h
      · next rest hrest =>
        cases h
        refine ⟨⟨c, cs.takeWhile identChar, by simp, hstart, fun x hx => ?_⟩, by simp [slotSource], ?_⟩
        · exact List.mem_takeWhile_imp hx
        · refine ⟨rest, ?_⟩
          simp only [slotSource, String.toList_ofList, List.cons_append, List.append_assoc,
            List.nil_append]
          rw [← hrest, List.takeWhile_append_dropWhile]
      · cases h
    · cases h
  · cases h

/-- Every match is spelled as a slot. -/
theorem spells_slotRe : Spells slotRe slotSource := by
  intro cs name n h
  obtain ⟨-, hlength, hprefix⟩ := slotRe_eq_some h
  exact ⟨hlength, List.cons_ne_nil _ _, hprefix⟩

theorem mem_extractSlots {body name : String} :
    name ∈ extractSlots body ↔ .inr name ∈ pieces slotRe 0 body.toList := by
  rw [← mem_finditer]
  unfold extractSlots
  generalize finditer slotRe body.toList = found
  have hfold : ∀ seen : List String, name ∈ found.foldl
      (fun seen name => if name ∈ seen then seen else seen ++ [name]) seen ↔
        name ∈ seen ∨ name ∈ found := by
    induction found with
    | nil => simp
    | cons x found ih =>
      intro seen
      rw [List.foldl_cons, ih, List.mem_cons]
      split
      · next hmem =>
        constructor
        · rintro (h | h)
          · exact .inl h
          · exact .inr (.inr h)
        · rintro (h | rfl | h)
          · exact .inl h
          · exact .inl hmem
          · exact .inr h
      · rw [List.mem_append, List.mem_singleton, or_assoc]
  simpa using hfold []

/-! ## What a rendering is -/

/-- What may stand in a message of a channel. -/
def AllowedValue (channel : Channel) (value : String) : Prop :=
  (∀ c ∈ value.toList, isControl c = false) ∧
    (channel ≠ .email → '\n' ∉ value.toList ∧ '\r' ∉ value.toList)

/-- **The message says what the template says**: its text as it is, its slots' values verbatim. -/
structure Fills (body rendered : String) (slots : SlotMap) : Prop where
  pieces : ∃ ps : List (Char ⊕ String),
    body.toList = fill slotSource ps ∧
      (∀ c, .inl c ∈ ps → isBrace c = false) ∧ (∀ name, .inr name ∈ ps → IsIdentifier name) ∧
      (∀ name, .inr name ∈ ps ↔ name ∈ slots.names) ∧
      ∃ value : String → String, (∀ name ∈ slots.names, slots.get? name = some (value name)) ∧
        rendered.toList = fill (fun name => (value name).toList) ps

/-- What a message that is not refused is. -/
structure Renders (template : MessageTemplate) (slots : SlotMap)
    (marketingConsent transactionalConsent : Bool) (message : RenderedMessage) : Prop where
  approved : template.approved = true
  registered : template.channel ∈ dltRequiredChannels → template.dltTemplateId.getD "" ≠ ""
  consent : transactionalConsent = true ∧
    (template.messageClass = .marketing → marketingConsent = true)
  fills : Fills template.bodyWithSlots message.body slots
  allowed : ∀ name ∈ slots.names, name ∈ allowedSlots
  values : ∀ slot ∈ slots.entries, AllowedValue template.channel slot.2
  length : message.body.length ≤ channelBodyLimit template.channel
  carried : message = ⟨template.id, template.dltTemplateId, template.channel,
    template.messageClass, template.language, message.body, slots⟩

/-! ## The checks -/

/-- Past a check, what it refuses is not so. -/
theorem past_check {α : Type} {condition : Prop} [Decidable condition] {code detail : String}
    {f : Unit → Except RenderRefusal α} {a : α}
    (h : (refuseIf condition code detail >>= f) = .ok a) : ¬condition ∧ f () = .ok a := by
  unfold refuseIf at h
  split at h
  · cases h
  · next hcondition => exact ⟨hcondition, h⟩

theorem bind_eq_ok {ε α β : Type} {x : Except ε α} {f : α → Except ε β} {b : β}
    (h : (x >>= f) = .ok b) : ∃ a, x = .ok a ∧ f a = .ok b := by
  cases x with
  | error e => cases h
  | ok a => exact ⟨a, rfl, h⟩

theorem forM_eq_ok {ε α : Type} {f : α → Except ε Unit} {xs : List α} (h : xs.forM f = .ok ()) :
    ∀ x ∈ xs, f x = .ok () := by
  induction xs with
  | nil => simp
  | cons x xs ih =>
    obtain ⟨⟨⟩, hx, hxs⟩ := bind_eq_ok h
    exact List.forall_mem_cons.mpr ⟨hx, ih hxs⟩

theorem checkValue_eq_ok {channel : Channel} {slot : String × String}
    (h : checkValue channel slot = .ok ()) : AllowedValue channel slot.2 := by
  unfold checkValue at h
  split at h
  · cases h
  · next hcontrol =>
    split at h
    · cases h
    · next hline =>
      refine ⟨fun c hc => ?_, fun hemail => ?_⟩
      · by_contra hne
        exact hcontrol (List.any_eq_true.mpr ⟨c, hc, eq_true_of_ne_false hne⟩)
      · exact not_or.mp fun hbreak => hline ⟨hemail, hbreak⟩

/-- A sorted selection is empty when nothing is selected. -/
theorem sorted_filter_eq_nil {names : List String} {p : String → Bool} :
    ¬sorted (names.filter p) ≠ [] ↔ ∀ name ∈ names, p name = false := by
  have hlength : (sorted (names.filter p)).length = (names.filter p).length :=
    List.length_insertionSort _ _
  rw [not_not, ← List.length_eq_zero_iff, hlength, List.length_eq_zero_iff, List.filter_eq_nil_iff]
  simp

/-- Every name of a map has a value. -/
theorem get?_isSome {slots : SlotMap} {name : String} (h : name ∈ slots.names) :
    ∃ value, slots.get? name = some value := by
  cases hget : slots.get? name with
  | some value => exact ⟨value, rfl⟩
  | none =>
    obtain ⟨entry, hmem, rfl⟩ := List.mem_map.mp h
    have hne := List.lookup_eq_none_iff.mp hget entry hmem
    rw [bne_self_eq_false] at hne
    cases hne

/-- **A body whose slots are the supplied ones, with no brace outside them, is filled.** -/
theorem fills_subSlots {body : String} {slots : SlotMap}
    (hnames : ∀ name, name ∈ extractSlots body ↔ name ∈ slots.names)
    (hbraces : (subSlots (fun _ => "") body).toList.any isBrace = false) :
    Fills body (subSlots (fun name => (slots.get? name).getD "") body) slots := by
  refine ⟨pieces slotRe 0 body.toList, ?_, ?_, ?_, fun name => ?_,
    fun name => (slots.get? name).getD "", fun name hname => ?_, ?_⟩
  · rw [fill_pieces spells_slotRe, List.drop_zero]
  · intro c hc
    have hmem : c ∈ (subSlots (fun _ => "") body).toList := by
      rw [subSlots, String.toList_ofList]
      exact mem_sub_nil.mpr hc
    by_contra hne
    rw [List.any_eq_true.mpr ⟨c, hmem, eq_true_of_ne_false hne⟩] at hbraces
    cases hbraces
  · intro name hname
    obtain ⟨cs, n, hmatch⟩ := matches_of_mem hname
    exact (slotRe_eq_some hmatch).1
  · rw [← mem_extractSlots, hnames]
  · obtain ⟨value, hvalue⟩ := get?_isSome hname
    simp only [hvalue, Option.getD_some]
  · rw [subSlots, String.toList_ofList]
    rfl

/-- **A message that is not refused is the template, filled**, and passes every check; rendered
again from the slots it carries, it is the same. -/
theorem render_renders (template : MessageTemplate) (slots : SlotMap)
    (marketingConsent transactionalConsent : Bool) :
    (∃ refusal, render template slots marketingConsent transactionalConsent = .error refusal) ∨
      ∃ message, render template slots marketingConsent transactionalConsent = .ok message ∧
        Renders template slots marketingConsent transactionalConsent message ∧
        render template message.slots marketingConsent transactionalConsent = .ok message := by
  cases hrender : render template slots marketingConsent transactionalConsent with
  | error refusal => exact .inl ⟨refusal, rfl⟩
  | ok message =>
    refine .inr ⟨message, rfl, ?_⟩
    have h := hrender
    unfold render at h
    obtain ⟨happroved, h⟩ := past_check h
    obtain ⟨hregistered, h⟩ := past_check h
    obtain ⟨hmarketing, h⟩ := past_check h
    obtain ⟨htransactional, h⟩ := past_check h
    obtain ⟨hmissing, h⟩ := past_check h
    obtain ⟨hextra, h⟩ := past_check h
    obtain ⟨hforbidden, h⟩ := past_check h
    obtain ⟨⟨⟩, hvalues, h⟩ := bind_eq_ok h
    obtain ⟨hbraces, h⟩ := past_check h
    obtain ⟨hlimit, h⟩ := past_check h
    cases h
    rw [sorted_filter_eq_nil] at hmissing hextra hforbidden
    have hnames : ∀ name, name ∈ extractSlots template.bodyWithSlots ↔ name ∈ slots.names :=
      fun name => ⟨fun h => by simpa using hmissing name h, fun h => by simpa using hextra name h⟩
    refine ⟨⟨eq_true_of_ne_false happroved, fun hchannel hid => hregistered ⟨hchannel, hid⟩,
      ⟨eq_true_of_ne_false htransactional,
        fun hclass => eq_true_of_ne_false fun hno => hmarketing ⟨hclass, hno⟩⟩,
      fills_subSlots hnames (eq_false_of_ne_true hbraces), fun name hname => ?_,
      fun slot hslot => checkValue_eq_ok (forM_eq_ok hvalues slot hslot), Nat.le_of_not_lt hlimit,
      rfl⟩, hrender⟩
    simpa using hforbidden name ((hnames name).mpr hname)

/-- A message on WhatsApp, to a customer who has typed a slot for a name. -/
example : (render
    { id := "tpl_1", channel := .whatsapp, messageClass := .transactional
      dltTemplateId := some "dlt_1", bodyWithSlots := "Hi {first_name}, pay {link}"
      approved := true }
    ⟨[("first_name", "{link}"), ("link", "rzp.io/x")], by decide⟩ false true).map (·.body) =
      .ok "Hi {link}, pay rzp.io/x" := by decide +kernel

end AegisMerchant.Consent
