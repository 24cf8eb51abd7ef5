import AegisMerchant.Ingest.Normalise

/-!
# The reference an event comes with

Three places are asked for the reference, each with a test of its own: the entity the event is
about and its notes are asked for anything true, the other entities for a text that is not blank.
So a blank found first hides what stands behind it.

`keepsReference_iff` is about the three places, `normaliseNamed_keepsReference_iff` about an event
of any name (`normaliseNamed_eventName` is its own), and `not_normaliseNamed_keepsReference` the
blank that hides a reference.
-/

namespace AegisMerchant.Ingest

/-! ## The event's name, whatever it is -/

/-- `_first_entity`, given the text of the event's name. -/
def firstEntityNamed (name : String) (payload : Json) : Json :=
  ((firstPart name :: entityKeys).findSome? fun key =>
    if key = "" then none else unwrap payload key).getD (.obj [])

/-- `normalise`, given the text `str` makes of the event's name; none when it raises. -/
def normaliseNamed (name : String) (payload : Json) (eventId : String) :
    Option RevenueRiskEvent :=
  let entity := firstEntityNamed name payload
  let notes := (entity.getObj? "notes").getD (.obj [])
  if (entity.get? "amount").any Json.overflows then none
  else some
    { eventId
      eventType := name
      referenceId := entity.getTrue? "reference_id" <|> notes.getTrue? "reference_id" <|>
        findReference payload
      amountPaise := (entity.get? "amount").bind Json.toInt? }

theorem normaliseNamed_eventName (payload : Json) (eventId : String) :
    normaliseNamed (eventName payload) payload eventId =
      if amountOverflows payload then none else some (normalise payload eventId) := rfl

/-! ## References -/

def IsReference (v : Json) : Prop := ∃ s, v = .str s ∧ Text.strip s ≠ ""

def entities (payload : Json) : List Json :=
  (values (container payload)).filterMap (Json.getObj? "entity")

/-- What an entity has for a reference, and its notes. -/
def stated (entity : Json) : List Json :=
  (entity.get? "reference_id").toList ++
    ((entity.getObj? "notes").bind (Json.get? "reference_id")).toList

/-- The entity, or its notes, carries this reference. -/
def Carries (entity v : Json) : Prop := v ∈ stated entity ∧ IsReference v

/-- What is seen of an entity: the first thing there that is true. -/
def seen (entity : Json) : Option Json :=
  (entity.getTrue? "reference_id").or
    ((entity.getObj? "notes").bind (Json.getTrue? "reference_id"))

/-- A reference is kept, the chosen entity's first; where there is none, nothing is made up. -/
structure KeepsReference (payload chosen : Json) (referenceId : Option Json) : Prop where
  kept : (∃ entity ∈ entities payload, ∃ v, Carries entity v) →
    ∃ v, referenceId = some v ∧ ∃ entity ∈ entities payload, Carries entity v
  preferred : (∃ v, Carries chosen v) → ∃ v, referenceId = some v ∧ Carries chosen v
  absent : (¬∃ entity ∈ entities payload, ∃ v, Carries entity v) →
    ∀ v, referenceId = some v → v.truthy = false

theorem IsReference.truthy {v : Json} (h : IsReference v) : v.truthy = true := by
  obtain ⟨s, rfl, hs⟩ := h
  have hne : s ≠ "" := by
    rintro rfl
    exact hs rfl
  simpa [Json.truthy] using hne

theorem getTrue?_eq_some {key : String} {entity v : Json} :
    entity.getTrue? key = some v ↔ entity.get? key = some v ∧ v.truthy = true :=
  Option.filter_eq_some_iff

/-- What is seen is stated, and true. -/
theorem mem_stated_of_seen {entity v : Json} (h : seen entity = some v) :
    v ∈ stated entity ∧ v.truthy = true := by
  simp only [stated, List.mem_append, Option.mem_toList]
  rcases Option.or_eq_some_iff.mp h with h | ⟨-, h⟩
  · obtain ⟨hget, htrue⟩ := getTrue?_eq_some.mp h
    exact ⟨.inl hget, htrue⟩
  · obtain ⟨notes, hnotes, h⟩ := Option.bind_eq_some_iff.mp h
    obtain ⟨hget, htrue⟩ := getTrue?_eq_some.mp h
    exact ⟨.inr (Option.bind_eq_some_iff.mpr ⟨notes, hnotes, hget⟩), htrue⟩

/-- Something is seen of an entity that carries a reference. -/
theorem seen_of_carries {entity v : Json} (h : Carries entity v) : ∃ u, seen entity = some u := by
  obtain ⟨hstated, href⟩ := h
  simp only [stated, List.mem_append, Option.mem_toList] at hstated
  unfold seen
  rcases hstated with hget | hget
  · exact ⟨v, Option.or_eq_some_iff.mpr (.inl (getTrue?_eq_some.mpr ⟨hget, href.truthy⟩))⟩
  · obtain ⟨notes, hnotes, hget⟩ := Option.bind_eq_some_iff.mp hget
    have hnotes' : (entity.getObj? "notes").bind (Json.getTrue? "reference_id") = some v :=
      Option.bind_eq_some_iff.mpr ⟨notes, hnotes, getTrue?_eq_some.mpr ⟨hget, href.truthy⟩⟩
    cases hown : entity.getTrue? "reference_id" with
    | none => exact ⟨v, hnotes'⟩
    | some u => exact ⟨u, rfl⟩

def offered (entity : Json) : Option Json :=
  (entity.getTrue? "reference_id" <|>
    (entity.getObj? "notes").bind (Json.get? "reference_id")).filter fun
      | .str s => Text.strip s ≠ ""
      | _ => false

/-- It takes what is seen of the entity, if that is a reference. -/
theorem offered_eq_some_iff {entity v : Json} :
    offered entity = some v ↔ seen entity = some v ∧ IsReference v := by
  have hreference : ∀ u : Json, (match u with
      | .str s => decide (Text.strip s ≠ "")
      | _ => false) = true ↔ IsReference u := by
    intro u
    cases u <;> simp [IsReference]
  unfold offered seen
  rw [Option.filter_eq_some_iff, hreference]
  refine and_congr_left fun href => ?_
  cases entity.getTrue? "reference_id" with
  | some u => rfl
  | none =>
    cases entity.getObj? "notes" with
    | none => rfl
    | some notes =>
      show notes.get? "reference_id" = some v ↔ notes.getTrue? "reference_id" = some v
      rw [getTrue?_eq_some, and_iff_left href.truthy]

/-- The search goes through the entities. -/
theorem findReference_eq (payload : Json) :
    findReference payload = (entities payload).findSome? offered := by
  unfold findReference entities
  induction values (container payload) with
  | nil => rfl
  | cons wrapper rest ih =>
    rw [List.findSome?_cons, ih]
    cases hentity : wrapper.getObj? "entity" with
    | none => simp [hentity]
    | some entity =>
      rw [List.filterMap_cons_some hentity, List.findSome?_cons]
      rfl

theorem findReference_some {payload v : Json} (h : findReference payload = some v) :
    ∃ entity ∈ entities payload, Carries entity v := by
  rw [findReference_eq] at h
  obtain ⟨entity, hmem, hoffered⟩ := List.exists_of_findSome?_eq_some h
  obtain ⟨hseen, href⟩ := offered_eq_some_iff.mp hoffered
  exact ⟨entity, hmem, (mem_stated_of_seen hseen).1, href⟩

theorem findReference_none_iff {payload : Json} :
    findReference payload = none ↔
      ∀ entity ∈ entities payload, ∀ v, seen entity = some v → ¬IsReference v := by
  rw [findReference_eq, List.findSome?_eq_none_iff]
  refine forall₂_congr fun entity _ => ?_
  rw [Option.eq_none_iff_forall_ne_some]
  exact forall_congr' fun v => (not_congr offered_eq_some_iff).trans (by tauto)

/-- The chosen entity is one of the payload's, or has nothing. -/
theorem firstEntityNamed_mem (name : String) (payload : Json) :
    firstEntityNamed name payload ∈ entities payload ∨
      firstEntityNamed name payload = .obj [] := by
  unfold firstEntityNamed
  cases hfound : (firstPart name :: entityKeys).findSome? fun key =>
      if key = "" then none else unwrap payload key with
  | none => exact .inr rfl
  | some entity =>
    left
    obtain ⟨key, -, hkey⟩ := List.exists_of_findSome?_eq_some hfound
    split at hkey
    · cases hkey
    · obtain ⟨wrapper, hwrapper, hentity⟩ := Option.bind_eq_some_iff.mp hkey
      refine List.mem_filterMap.mpr ⟨wrapper, ?_, hentity⟩
      -- the entity is under a key of the container, so it is one of its values
      obtain ⟨hget, -⟩ := Option.filter_eq_some_iff.mp hwrapper
      cases hcontainer : container payload with
      | obj fields =>
        rw [hcontainer] at hget
        obtain ⟨before, after, rfl, -⟩ := List.lookup_eq_some_iff.mp hget
        simp [values]
      | _ => rw [hcontainer] at hget; cases hget

theorem not_carries_empty (v : Json) : ¬Carries (.obj []) v := by
  rintro ⟨hstated, -⟩
  simp [stated, Json.get?, Json.getObj?] at hstated

/-! ## When the reference is kept -/

/-- What the chosen entity shows first is a reference; if it shows nothing and a reference is
carried elsewhere, some entity shows one first. -/
def Shown (payload chosen : Json) : Prop :=
  (∀ v, seen chosen = some v → IsReference v) ∧
    (seen chosen = none → (∃ entity ∈ entities payload, ∃ v, Carries entity v) →
      ∃ entity ∈ entities payload, ∃ v, seen entity = some v ∧ IsReference v)

theorem normaliseNamed_referenceId {name : String} {payload : Json} {eventId : String}
    {event : RevenueRiskEvent} (h : normaliseNamed name payload eventId = some event) :
    event.referenceId = (seen (firstEntityNamed name payload)).or (findReference payload) := by
  unfold normaliseNamed at h
  simp only at h
  split at h
  · cases h
  · cases h
    unfold seen
    cases (firstEntityNamed name payload).getTrue? "reference_id" with
    | some v => rfl
    | none =>
      cases (firstEntityNamed name payload).getObj? "notes" with
      | none => rfl
      | some notes => cases hnotes : notes.getTrue? "reference_id" <;> simp [hnotes]

/-- **The reference is kept exactly when nothing useless is shown before it.** -/
theorem keepsReference_iff {payload chosen : Json}
    (hchosen : chosen ∈ entities payload ∨ chosen = .obj []) :
    KeepsReference payload chosen ((seen chosen).or (findReference payload)) ↔
      Shown payload chosen := by
  -- the entity shown has no reference of its own, or one that is taken as it is
  cases hseen : seen chosen with
  | none =>
    rw [Option.none_or]
    have hfound_iff : (∃ entity ∈ entities payload, ∃ v, seen entity = some v ∧ IsReference v) ↔
        ∃ v, findReference payload = some v := by
      rw [← Option.ne_none_iff_exists', Ne, findReference_none_iff]
      push Not
      rfl
    constructor
    · rintro ⟨hkept, -, -⟩
      refine ⟨fun v hv => ?_, fun _ hcarried => hfound_iff.mpr ?_⟩
      · rw [hseen] at hv
        cases hv
      · obtain ⟨v, hv, -⟩ := hkept hcarried
        exact ⟨v, hv⟩
    · rintro ⟨-, hshown⟩
      refine ⟨fun hcarried => ?_, ?_, fun hnone v hv => ?_⟩
      · obtain ⟨v, hv⟩ := hfound_iff.mp (hshown hseen hcarried)
        exact ⟨v, hv, findReference_some hv⟩
      · rintro ⟨v, hcarries⟩
        obtain ⟨u, hu⟩ := seen_of_carries hcarries
        rw [hseen] at hu
        cases hu
      · obtain ⟨entity, hmem, hcarries⟩ := findReference_some hv
        exact absurd ⟨entity, hmem, v, hcarries⟩ hnone
  | some u =>
    rw [Option.some_or]
    obtain ⟨hstated, htrue⟩ := mem_stated_of_seen hseen
    constructor
    · rintro ⟨hkept, -, habsent⟩
      refine ⟨fun v hv => ?_, fun hnone => ?_⟩
      · obtain rfl : u = v := Option.some.inj (hseen.symm.trans hv)
        by_cases hcarried : ∃ entity ∈ entities payload, ∃ v, Carries entity v
        · obtain ⟨v, hv, entity, -, hcarries⟩ := hkept hcarried
          obtain rfl : u = v := Option.some.inj hv
          exact hcarries.2
        · rw [habsent hcarried u rfl] at htrue
          cases htrue
      · rw [hseen] at hnone
        cases hnone
    · rintro ⟨hreference, -⟩
      have hcarries : Carries chosen u := ⟨hstated, hreference u hseen⟩
      have hmem : chosen ∈ entities payload := by
        refine hchosen.resolve_right ?_
        rintro rfl
        exact not_carries_empty u hcarries
      exact ⟨fun _ => ⟨u, rfl, chosen, hmem, hcarries⟩, fun _ => ⟨u, rfl, hcarries⟩,
        fun hnone => absurd ⟨chosen, hmem, u, hcarries⟩ hnone⟩

/-- **`normalise` keeps the reference exactly when the amount can be read and nothing useless is
shown before it**, whatever the event is called. -/
theorem normaliseNamed_keepsReference_iff (name : String) (payload : Json) (eventId : String) :
    (∃ event, normaliseNamed name payload eventId = some event ∧
        KeepsReference payload (firstEntityNamed name payload) event.referenceId) ↔
      (((firstEntityNamed name payload).get? "amount").any Json.overflows = false ∧
        Shown payload (firstEntityNamed name payload)) := by
  constructor
  · rintro ⟨event, hevent, hkeeps⟩
    rw [normaliseNamed_referenceId hevent,
      keepsReference_iff (firstEntityNamed_mem name payload)] at hkeeps
    refine ⟨?_, hkeeps⟩
    unfold normaliseNamed at hevent
    simp only at hevent
    split at hevent
    · cases hevent
    · next hread => exact eq_false_of_ne_true hread
  · rintro ⟨hread, hshown⟩
    obtain ⟨event, hevent⟩ : ∃ event, normaliseNamed name payload eventId = some event := by
      unfold normaliseNamed
      simp only [hread, Bool.false_eq_true, if_false]
      exact ⟨_, rfl⟩
    refine ⟨event, hevent, ?_⟩
    rw [normaliseNamed_referenceId hevent]
    exact (keepsReference_iff (firstEntityNamed_mem name payload)).mpr hshown

/-- The notes of a paid link, which hold its reference. -/
def linkNotes : Json := .obj [("reference_id", .str "rc-0001-1")]

/-- The paid link; its own reference is a blank. -/
def paidLink : Json := .obj [("reference_id", .str " "), ("notes", linkNotes)]

def blankReference : Json :=
  .obj [("event", .str "payment_link.paid"),
    ("payload", .obj [("payment_link", .obj [("entity", paidLink)])])]

/-- A blank in front of the reference loses it. -/
theorem not_normaliseNamed_keepsReference :
    ¬∃ event, normaliseNamed (eventName blankReference) blankReference "evt_1" = some event ∧
      KeepsReference blankReference (firstEntityNamed (eventName blankReference) blankReference)
        event.referenceId := by
  rintro ⟨event, hevent, hkept, -, -⟩
  have hreference : event.referenceId = some (.str " ") := by
    rw [normaliseNamed_referenceId hevent]
    rfl
  have hcarries : Carries paidLink (.str "rc-0001-1") :=
    ⟨List.mem_cons_of_mem _ (List.mem_singleton.mpr rfl), "rc-0001-1", rfl, by decide⟩
  obtain ⟨v, hv, entity, -, -, s, rfl, hs⟩ :=
    hkept ⟨paidLink, List.mem_singleton.mpr rfl, .str "rc-0001-1", hcarries⟩
  rw [hreference] at hv
  cases hv
  exact hs (by decide)

end AegisMerchant.Ingest
