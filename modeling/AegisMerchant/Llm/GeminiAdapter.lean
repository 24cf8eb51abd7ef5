import AegisMerchant.Base.Dict
import AegisMerchant.Llm.CachedAdapter
import Mathlib.Data.List.DropRight

/-!
# The live adapter

`GeminiAdapter.complete_structured`: one call of the provider, a repair of texts that are too long,
one second call, and the rules under every failure. What the provider does is a parameter.

`truncateOverlongStrings_iff` is the repair alone, and `stack_answers` the stack over any provider.
-/

namespace AegisMerchant

open CachedAdapter

namespace GeminiAdapter

/-! ## The repair -/

/-- The text fields of the schemas and their `maxLength`. An optional text has its bound inside
`anyOf`, where the repair does not look. -/
def maxLengths : LLMTask → List (String × ℕ)
  | .diagnose => [("reasoning", 240)]
  | .strategise => [("rationale", 240)]
  | .composeMessage => [("headline", 60), ("body", 300), ("cta", 24), ("language", 12)]
  | .extractPromise => []
  | .dailyBriefing => [("headline", 120), ("closing", 240)]

/-- `value[: limit - 1].rstrip() + "…"`. -/
def shorten (limit : ℕ) (value : String) : String :=
  String.ofList ((value.toList.take (limit - 1)).rdropWhile Text.isSpace ++ ['…'])

/-- One turn of the loop over the properties. -/
def trimField (payload : List (String × Json) × Bool) (spec : String × ℕ) :
    List (String × Json) × Bool :=
  match payload.1.lookup spec.1 with
  | some (.str value) =>
    if spec.2 < value.toList.length then
      (Dict.set payload.1 spec.1 (.str (shorten spec.2 value)), true)
    else payload
  | _ => payload

/-- The payload with its over-long texts cut, and whether one was. -/
def trimFields (limits : List (String × ℕ)) (fields : List (String × Json)) :
    List (String × Json) × Bool :=
  limits.foldl trimField (fields, false)

def truncateOverlongStrings {Output : Type} (readFloat : String → Numeric.ExtRat)
    (schemas : Schemas Output) (task : LLMTask) (text : String) : Option Output :=
  match Json.loads readFloat text with
  | some (.obj fields) =>
    let (fields, changed) := trimFields (maxLengths task) fields
    if changed then schemas.validate task (.obj fields) else none
  | _ => none

/-! ## What the repair does -/

def OverLong (limits : List (String × ℕ)) (f : String × Json) : Prop :=
  ∃ limit value, limits.lookup f.1 = some limit ∧ f.2 = .str value ∧ limit < value.toList.length

/-- A value, cut to its limit if it is a text over it. -/
def trimmed (limit : Option ℕ) (v : Json) : Json :=
  match limit, v with
  | some limit, .str value => if limit < value.toList.length then .str (shorten limit value) else v
  | _, _ => v

/-- The entry of a property, cut; the others as they are. -/
def trimEntry (spec : String × ℕ) (f : String × Json) : String × Json :=
  if f.1 = spec.1 then (f.1, trimmed (some spec.2) f.2) else f

theorem trimmed_none (v : Json) : trimmed none v = v := by
  cases v <;> rfl

/-- What is kept of a text that is cut, and the ellipsis. -/
theorem shorten_spec {limit : ℕ} (h : 0 < limit) (value : String) :
    ∃ kept, kept <+: value.toList ∧ kept.length < limit ∧
      (shorten limit value).toList = kept ++ ['…'] := by
  refine ⟨(value.toList.take (limit - 1)).rdropWhile Text.isSpace,
    (List.rdropWhile_prefix _ _).trans (List.take_prefix _ _), ?_, String.toList_ofList⟩
  have hle := (List.rdropWhile_prefix Text.isSpace (value.toList.take (limit - 1))).length_le
  rw [List.length_take] at hle
  omega

theorem keys_trimEntry (spec : String × ℕ) (fields : List (String × Json)) :
    (fields.map (trimEntry spec)).map Prod.fst = fields.map Prod.fst := by
  rw [List.map_map]
  refine List.map_congr_left fun f _ => ?_
  show (trimEntry spec f).1 = f.1
  unfold trimEntry
  split <;> rfl

/-- One turn cuts the entry of its property. -/
theorem trimField_eq {fields : List (String × Json)} (hkeys : (fields.map Prod.fst).Nodup)
    (changed : Bool) (spec : String × ℕ) :
    (trimField (fields, changed) spec).1 = fields.map (trimEntry spec) ∧
      ((trimField (fields, changed) spec).2 = true ↔
        changed = true ∨ ∃ f ∈ fields, f.1 = spec.1 ∧ ∃ value, f.2 = .str value ∧
          spec.2 < value.toList.length) := by
  have hat : ∀ f ∈ fields, f.1 = spec.1 → fields.lookup spec.1 = some f.2 := fun f hf hkey =>
    (Dict.lookup_eq_some_iff hkeys).mpr (hkey ▸ hf)
  -- the property is there and over its limit, or nothing is cut
  by_cases hlong : ∃ value, fields.lookup spec.1 = some (.str value) ∧ spec.2 < value.toList.length
  · obtain ⟨value, hvalue, hlimit⟩ := hlong
    have hmem := (Dict.lookup_eq_some_iff hkeys).mp hvalue
    have hturn : trimField (fields, changed) spec =
        (Dict.set fields spec.1 (.str (shorten spec.2 value)), true) := by
      rw [trimField, hvalue]
      exact if_pos hlimit
    rw [hturn]
    refine ⟨?_, fun _ => .inr ⟨_, hmem, rfl, value, rfl, hlimit⟩, fun _ => rfl⟩
    rw [Dict.set, if_pos (List.mem_map.mpr ⟨_, hmem, rfl⟩)]
    refine List.map_congr_left fun f hf => ?_
    by_cases hkey : f.1 = spec.1
    · have hf2 : Json.str value = f.2 := Option.some.inj (hvalue.symm.trans (hat f hf hkey))
      rw [trimEntry, if_pos hkey, if_pos hkey, ← hf2, hkey, trimmed, if_pos hlimit]
    · rw [trimEntry, if_neg hkey, if_neg hkey]
  · have hshort : ∀ f ∈ fields, f.1 = spec.1 → ∀ value, f.2 = .str value →
        ¬spec.2 < value.toList.length := fun f hf hkey value hvalue hlimit =>
      hlong ⟨value, hvalue ▸ hat f hf hkey, hlimit⟩
    have hturn : trimField (fields, changed) spec = (fields, changed) := by
      unfold trimField
      split
      · next value hvalue => exact if_neg fun hlimit => hlong ⟨value, hvalue, hlimit⟩
      · rfl
    rw [hturn]
    refine ⟨?_, ?_⟩
    · refine (List.map_congr_left fun f hf => ?_).trans (List.map_id _) |>.symm
      unfold trimEntry
      split
      · next hkey =>
        refine Prod.ext rfl ?_
        dsimp only [id]
        unfold trimmed
        split
        · next limit value hspec hvalue =>
          obtain rfl := Option.some.inj hspec
          exact if_neg (hshort f hf hkey value hvalue)
        · rfl
      · rfl
    · constructor
      · exact .inl
      · rintro (h | ⟨f, hf, hkey, value, hvalue, hlimit⟩)
        · exact h
        · exact absurd hlimit (hshort f hf hkey value hvalue)

/-- The loop cuts every text over its limit, and nothing else. -/
theorem foldl_trimField {limits : List (String × ℕ)} (hnames : (limits.map Prod.fst).Nodup)
    {fields : List (String × Json)} (hkeys : (fields.map Prod.fst).Nodup) (changed : Bool) :
    (limits.foldl trimField (fields, changed)).1 =
        fields.map (fun f => (f.1, trimmed (limits.lookup f.1) f.2)) ∧
      ((limits.foldl trimField (fields, changed)).2 = true ↔
        changed = true ∨ ∃ f ∈ fields, OverLong limits f) := by
  induction limits generalizing fields changed with
  | nil =>
    refine ⟨?_, ?_⟩
    · refine ((List.map_congr_left fun f _ => ?_).trans (List.map_id fields)).symm
      exact Prod.ext rfl (trimmed_none f.2)
    · simp [OverLong]
  -- each limit is of another property, so a cut is not undone by a later one
  | cons spec limits ih =>
    rw [List.map_cons, List.nodup_cons] at hnames
    obtain ⟨hfields, hchanged⟩ := trimField_eq hkeys changed spec
    obtain ⟨next, flag, hturn⟩ : ∃ next flag, trimField (fields, changed) spec = (next, flag) :=
      ⟨_, _, rfl⟩
    rw [hturn] at hfields hchanged
    obtain rfl := hfields
    rw [List.foldl_cons, hturn]
    have hkeys' : ((fields.map (trimEntry spec)).map Prod.fst).Nodup := by
      rw [keys_trimEntry]
      exact hkeys
    obtain ⟨hrest, hflag⟩ := ih hnames.2 hkeys' flag
    -- the limit of a name is this one's, or a later one's
    have hlookup : ∀ name, (spec :: limits).lookup name =
        if name = spec.1 then some spec.2 else limits.lookup name := by
      intro name
      rw [List.lookup_cons]
      by_cases hname : name = spec.1
      · rw [if_pos hname, beq_iff_eq.mpr hname]
      · rw [if_neg hname, beq_eq_false_iff_ne.mpr hname]
    have hother : ∀ {f : String × Json}, f.1 ≠ spec.1 → trimEntry spec f = f := fun h => if_neg h
    refine ⟨?_, ?_⟩
    · rw [hrest, List.map_map]
      refine List.map_congr_left fun f _ => ?_
      rw [Function.comp_apply, hlookup]
      by_cases hkey : f.1 = spec.1
      · have hnone : limits.lookup spec.1 = none := Dict.lookup_eq_none.mpr hnames.1
        rw [if_pos hkey, trimEntry, if_pos hkey]
        dsimp only
        rw [hkey, hnone, trimmed_none]
      · rw [if_neg hkey, hother hkey]
    · rw [hflag, hchanged, or_assoc]
      refine or_congr_right ⟨?_, ?_⟩
      · rintro (⟨f, hf, hkey, value, hvalue, hlimit⟩ | ⟨g, hg, limit, value, hspec, hvalue, hlimit⟩)
        · exact ⟨f, hf, spec.2, value, (hlookup f.1).trans (if_pos hkey), hvalue, hlimit⟩
        · obtain ⟨f, hf, rfl⟩ := List.mem_map.mp hg
          by_cases hkey : f.1 = spec.1
          · rw [trimEntry, if_pos hkey] at hspec
            dsimp only at hspec
            rw [hkey, Dict.lookup_eq_none.mpr hnames.1] at hspec
            cases hspec
          · rw [hother hkey] at hspec hvalue
            exact ⟨f, hf, limit, value, (hlookup f.1).trans ((if_neg hkey).trans hspec), hvalue,
              hlimit⟩
      · rintro ⟨f, hf, limit, value, hspec, hvalue, hlimit⟩
        rw [hlookup] at hspec
        by_cases hkey : f.1 = spec.1
        · rw [if_pos hkey] at hspec
          obtain rfl := Option.some.inj hspec
          exact .inl ⟨f, hf, hkey, value, hvalue, hlimit⟩
        · rw [if_neg hkey] at hspec
          exact .inr ⟨f, List.mem_map.mpr ⟨f, hf, hother hkey⟩, limit, value, hspec, hvalue, hlimit⟩

theorem nodup_maxLengths (task : LLMTask) : ((maxLengths task).map Prod.fst).Nodup := by
  cases task <;> decide

theorem pos_maxLengths {task : LLMTask} {name : String} {limit : ℕ}
    (h : (maxLengths task).lookup name = some limit) : 0 < limit := by
  have hall : ∀ task, ∀ spec ∈ maxLengths task, 0 < spec.2 := by
    intro task
    cases task <;> decide
  exact hall task _ ((Dict.lookup_eq_some_iff (nodup_maxLengths task)).mp h)

/-- A value that was cut is within its limit. -/
theorem length_trimmed {limit : ℕ} (hlimit : 0 < limit) {v : Json} {value : String}
    (h : trimmed (some limit) v = .str value) : value.toList.length ≤ limit := by
  unfold trimmed at h
  split at h
  · next l old hspec =>
    obtain rfl := Option.some.inj hspec
    split at h
    · obtain rfl := Json.str.inj h
      obtain ⟨kept, -, hkept, htext⟩ := shorten_spec hlimit old
      rw [htext, List.length_append]
      exact hkept
    · next hshort =>
      obtain rfl := Json.str.inj h
      exact Nat.le_of_not_lt hshort
  · next hnot => exact absurd h (hnot limit value rfl)

/-! ## The repair as a whole -/

/-- **What the repair of an answer does.** It answers exactly when the text is an object with some
text over its limit, and what it answers is the object with every such text cut, if that is valid:
nothing else of the answer is changed, no number and no category. A text that was cut is within its
limit. -/
theorem truncateOverlongStrings_iff {Output : Type} (readFloat : String → Numeric.ExtRat)
    (schemas : Schemas Output) (task : LLMTask) (text : String) (output : Output) :
    (truncateOverlongStrings readFloat schemas task text = some output ↔
      ∃ fields, Json.loads readFloat text = some (.obj fields) ∧
        (∃ f ∈ fields, OverLong (maxLengths task) f) ∧
        schemas.validate task (.obj (fields.map fun f =>
          (f.1, trimmed ((maxLengths task).lookup f.1) f.2))) = some output) ∧
    ∀ name v limit value, (maxLengths task).lookup name = some limit →
      trimmed ((maxLengths task).lookup name) v = .str value → value.toList.length ≤ limit := by
  refine ⟨?_, fun name v limit value hlimit htrimmed =>
    length_trimmed (pos_maxLengths hlimit) (hlimit ▸ htrimmed)⟩
  unfold truncateOverlongStrings
  cases hloads : Json.loads readFloat text with
  | none => exact ⟨fun h => (by cases h), fun ⟨_, h, _⟩ => (by cases h)⟩
  | some row =>
    cases row with
    | obj fields =>
      -- what is read from a text names no property twice
      have hkeys : (fields.map Prod.fst).Nodup := by
        cases Json.keyed_loads hloads with
        | scalar h => exact h.elim
        | obj hkeys _ => exact hkeys
      obtain ⟨hfields, hchanged⟩ := foldl_trimField (nodup_maxLengths task) hkeys false
      rw [Bool.false_eq_true, false_or] at hchanged
      dsimp only
      constructor
      · intro h
        split at h
        · next hflag => exact ⟨fields, rfl, hchanged.mp hflag, hfields ▸ h⟩
        · cases h
      · rintro ⟨fields', hsame, hlong, hvalid⟩
        obtain rfl := Json.obj.inj (Option.some.inj hsame)
        exact (if_pos (hchanged.mpr hlong)).trans
          ((congrArg (fun fs => schemas.validate task (.obj fs)) hfields).trans hvalid)
    | _ => exact ⟨fun h => (by cases h), fun ⟨_, h, _⟩ => (by cases h)⟩

/-! ## One call -/

/-- What a call of the provider comes to: its text and the tokens of the prompt and of the answer,
or why there is none. -/
inductive Reply where
  | answered (text : String) (promptTokens outputTokens : ℤ)
  | timedOut
  | failed (typeName message : String)

/-- What an adapter meets in one call: the limiter's refusal, the answer to the prompt and to a
second one, and the milliseconds each took. -/
structure Provider where
  refusal : Option String
  first : Reply
  second : Reply
  firstMs : ℤ
  secondMs : ℤ

section Call

variable {Output : Type} (readFloat : String → Numeric.ExtRat) (schemas : Schemas Output)
  (validateJson : LLMTask → String → Option Output)
  (handler : LLMTask → Json → Except PyError Output) (model : String) (budget : String)

def degrade (task : LLMTask) (context : Json) (note : String) :
    Except PyError (CachedAdapter.StructuredResult Output) :=
  (deterministic handler task context).map fun r =>
    { task := r.task, output := r.output, source := .deterministic, provider := some "deterministic"
      promptVersion := .str promptVersion, fellBack := true, rawText := some note }

/-- `_retry_once`: the second answer, if it is one and valid. -/
def retryOnce (task : LLMTask) (p : Provider) : Option (Output × (ℤ × ℤ) × ℤ) :=
  match p.second with
  | .answered text promptTokens outputTokens =>
    (validateJson task text).map fun output => (output, (promptTokens, outputTokens), p.secondMs)
  | _ => none

/-- `complete_structured`. The time budget is given as it is printed. -/
def completeStructured (task : LLMTask) (context : Json) (p : Provider) :
    Except PyError (CachedAdapter.StructuredResult Output) :=
  match p.refusal with
  | some reason => degrade handler task context ("rate limited: " ++ reason)
  | none =>
    match p.first with
    | .timedOut => degrade handler task context ("timed out after " ++ budget ++ "s")
    | .failed typeName message =>
      degrade handler task context (typeName ++ ": " ++ Text.slice 160 message)
    | .answered text promptTokens outputTokens =>
      let answer : CachedAdapter.StructuredResult Output → CachedAdapter.StructuredResult Output := fun r =>
        { r with model := .str model, provider := some "gemini"
                 promptVersion := .str promptVersion, rawText := some text }
      match validateJson task text with
      | some output =>
        .ok (answer
          { task := task, output := output, source := .live, inputTokens := promptTokens
            outputTokens := outputTokens, latencyMs := p.firstMs })
      | none =>
        match truncateOverlongStrings readFloat schemas task text with
        | some output =>
          .ok (answer
            { task := task, output := output, source := .live, inputTokens := promptTokens
              outputTokens := outputTokens, latencyMs := p.firstMs, schemaValidFirstTry := false })
        | none =>
          match retryOnce validateJson task p with
          | none => degrade handler task context "schema validation failed twice"
          | some (output, extra, retryMs) =>
            .ok (answer
              { task := task, output := output, source := .live
                inputTokens := promptTokens + extra.1, outputTokens := outputTokens + extra.2
                latencyMs := p.firstMs + retryMs, schemaValidFirstTry := false })

/-- A call of the stack whose live adapter meets a provider. -/
def callOf (task : LLMTask) (context : Json) (forceLive : Bool) (p : Provider) : Call Output where
  task := task
  context := context
  forceLive := forceLive
  answer := completeStructured readFloat schemas validateJson handler model budget task context p

end Call

section Answers

variable {Output : Type} {readFloat : String → Numeric.ExtRat} {schemas : Schemas Output}
  {validateJson : LLMTask → String → Option Output}
  {handler : LLMTask → Json → Except PyError Output} {model budget : String}

/-! ## What a call answers -/

theorem degrade_not_live {task : LLMTask} {context : Json} {note : String}
    {r : CachedAdapter.StructuredResult Output} (h : degrade handler task context note = .ok r) :
    r.source = .deterministic := by
  unfold degrade at h
  cases hrules : deterministic handler task context with
  | error e =>
    rw [hrules] at h
    cases h
  | ok rules =>
    rw [hrules] at h
    exact congrArg CachedAdapter.StructuredResult.source (Except.ok.inj h).symm

/-- A live answer was validated, and names the model that was asked. -/
theorem completeStructured_live
    (hjson : ∀ task text output, validateJson task text = some output →
      ∃ v, schemas.validate task v = some output) {task : LLMTask} {context : Json} {p : Provider}
    {r : CachedAdapter.StructuredResult Output}
    (h : completeStructured readFloat schemas validateJson handler model budget task context p =
      .ok r)
    (hlive : r.source = .live) :
    (∃ v, schemas.validate task v = some r.output) ∧ r.model = .str model := by
  -- the rules never sign as live
  have hrules : ∀ {note}, degrade handler task context note = .ok r → False := by
    intro note hdegrade
    rw [degrade_not_live hdegrade] at hlive
    cases hlive
  unfold completeStructured at h
  split at h
  · exact (hrules h).elim
  · split at h
    · exact (hrules h).elim
    · exact (hrules h).elim
    · dsimp only at h
      split at h
      · next output hvalid =>
        obtain rfl := Except.ok.inj h
        exact ⟨hjson _ _ _ hvalid, rfl⟩
      · split at h
        · next output hrepaired =>
          obtain ⟨fields, -, -, hvalid⟩ := (truncateOverlongStrings_iff ..).1.mp hrepaired
          obtain rfl := Except.ok.inj h
          exact ⟨⟨_, hvalid⟩, rfl⟩
        · split at h
          · exact (hrules h).elim
          · next output extra retryMs hretry =>
            unfold retryOnce at hretry
            split at hretry
            · obtain ⟨o, hvalid, hsame⟩ := Option.map_eq_some_iff.mp hretry
              obtain ⟨rfl, -⟩ := Prod.mk.inj hsame
              obtain rfl := Except.ok.inj h
              exact ⟨hjson _ _ _ hvalid, rfl⟩
            · cases hretry

/-- The adapter answers whenever the rules do, whatever the provider does. -/
theorem completeStructured_answers {task : LLMTask} {context : Json} (p : Provider)
    (hrules : ∃ output, handler task context = .ok output) :
    ∃ r, completeStructured readFloat schemas validateJson handler model budget task context p =
      .ok r := by
  have hdegrade : ∀ note, ∃ r, degrade handler task context note = .ok r := by
    intro note
    obtain ⟨output, houtput⟩ := hrules
    rw [degrade, deterministic, houtput]
    exact ⟨_, rfl⟩
  unfold completeStructured
  split
  · exact hdegrade _
  · split
    · exact hdegrade _
    · exact hdegrade _
    · dsimp only
      split
      · exact ⟨_, rfl⟩
      · split
        · exact ⟨_, rfl⟩
        · split
          · exact hdegrade _
          · exact ⟨_, rfl⟩

/-- A memo answers every question that the rules and the live adapter answer. -/
theorem memo_answers {rt : Runtime} {settings : Settings}
    (hrules : ∀ task context, ∃ output, handler task context = .ok output)
    {events : List (Event Output)} (h : ∀ c, .call c ∈ events → ∃ r, c.answer = .ok r)
    (memo : Memo Output) : ∀ a ∈ memo.serve rt handler settings events, ∃ r, a = .ok r := by
  induction events generalizing memo with
  | nil => simp [Memo.serve]
  | cons event events ih =>
    have hrest := ih fun c hc => h c (List.mem_cons_of_mem event hc)
    cases event with
    | restart => exact hrest memo
    | call c =>
      rw [Memo.serve, List.forall_mem_cons]
      refine ⟨?_, hrest _⟩
      obtain ⟨live, hlive⟩ := h c List.mem_cons_self
      unfold Memo.ask
      split
      · exact ⟨_, rfl⟩
      · split
        · rw [hlive]
          exact ⟨_, rfl⟩
        · obtain ⟨output, houtput⟩ := hrules c.task c.context
          rw [deterministic, houtput]
          exact ⟨_, rfl⟩

end Answers

/-! ## A question, and the same one refused -/

/-- A provider that answers at once, if it is asked. -/
def provider (refusal : Option String) : Provider where
  refusal := refusal
  first := .answered "bank fault" 647 79
  second := .timedOut
  firstMs := 900
  secondMs := 0

/-- What the schema of one text makes of an answer: one without spaces is none. -/
def readReasoning (_ : LLMTask) (text : String) : Option String :=
  if text.toList.contains ' ' then some text else none

def cardQuestion (refusal : Option String) : Call String :=
  callOf readSpelled reasoningSchemas readReasoning (fun _ _ => .ok "rules") "gemini" "12.0"
    .diagnose (.obj [("method", .str "card")]) false (provider refusal)

end GeminiAdapter

end AegisMerchant
