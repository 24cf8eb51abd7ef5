import AegisMerchant.Core.Runtime
import AegisMerchant.Db.Enums
import AegisMerchant.Llm.Cache
import AegisMerchant.Tools.ChainPins

/-!
# The adapter stack

The cache in front, the live model behind it, the rules underneath. What the schemas of the outputs
do is a parameter: `model_validate` and `model_dump` are a library's. Every answer says where it came
from, and what was recorded of a live answer is what is replayed, also by a later process that reads
the file.

`cacheKey_eq_iff` is about the key. `Related.ask` and `Related.restart` are the steps of the
simulation by a memo, and `serve_refines` the run.
-/

namespace AegisMerchant

open ResponseCache

namespace CachedAdapter

/-! ## Outputs and results -/

structure Schemas (Output : Type) where
  /-- `SCHEMA_FOR_TASK[task.value].model_validate`; none if it raises. -/
  validate : LLMTask → Json → Option Output
  /-- `output.model_dump(mode="json")`. -/
  dump : Output → Json

/-- A validated model output, plus how it was obtained. What a row says of its model and prompt is
not checked. -/
structure StructuredResult (Output : Type) where
  task : LLMTask
  output : Output
  source : LLMSource
  model : Json := .null
  provider : Option String := none
  promptVersion : Json := .null
  cacheKey : Option String := none
  inputTokens : ℤ := 0
  outputTokens : ℤ := 0
  latencyMs : ℤ := 0
  schemaValidFirstTry : Bool := true
  fellBack : Bool := false
  rawText : Option String := none

def promptVersion : String := "v2"

/-- How a context is written for a key: no spaces, keys sorted, ASCII. -/
def keyStyle : Json.Style := Json.asciiStyle [] (.inl rfl)

/-- `cache_key`, of a context of JSON values. -/
def cacheKey (rt : Runtime) (task : LLMTask) (model promptVersion : String) (context : Json) :
    String :=
  rt.sha256 (task.value ++ "|" ++ model ++ "|" ++ promptVersion ++ "|" ++
    context.write keyStyle rt.floatRepr)

/-! ## The rules underneath -/

/-- `DeterministicAdapter.complete_structured`, over the handlers of the tasks. -/
def deterministic {Output : Type} (handler : LLMTask → Json → Except PyError Output)
    (task : LLMTask) (context : Json) : Except PyError (StructuredResult Output) :=
  (handler task context).map fun output =>
    { task := task, output := output, source := .deterministic, provider := some "deterministic"
      fellBack := true }

/-! ## The cache in front -/

/-- How an adapter was made: `model`, `record`, and whether a live adapter is behind it. -/
structure Settings where
  model : String
  record : Bool
  live : Bool

structure State where
  entries : Entries
  hits : ℕ := 0
  misses : ℕ := 0

/-- A call of `complete_structured`, and what the live adapter would answer to it. -/
structure Call (Output : Type) where
  task : LLMTask
  context : Json
  forceLive : Bool := false
  answer : Except PyError (StructuredResult Output)

section Adapter

variable {Output : Type} (rt : Runtime) (schemas : Schemas Output)
  (handler : LLMTask → Json → Except PyError Output) (settings : Settings)

def Call.key (settings : Settings) (c : Call Output) : String :=
  cacheKey rt c.task settings.model promptVersion c.context

/-- `int(row.get(name, 0))`. -/
def tokens (row : Json) (name : String) : Except PyError ℤ :=
  match row.get? name with
  | none => .ok 0
  | some v =>
    match v.toInt? with
    | some n => .ok n
    | none => .error (.typeError "int()")

/-- `_from_row`: a cached row, validated again. -/
def fromRow (task : LLMTask) (row : Json) (key : String) :
    Except PyError (Option (StructuredResult Output)) :=
  match (row.get? "response").bind (schemas.validate task) with
  | none => .ok none
  | some output => do
    let inputTokens ← tokens row "input_tokens"
    let outputTokens ← tokens row "output_tokens"
    .ok (some
      { task := task, output := output, source := .cached
        model := (row.get? "model").getD .null, provider := some "cache"
        promptVersion := (row.get? "prompt_version").getD .null, cacheKey := some key
        inputTokens := inputTokens, outputTokens := outputTokens, latencyMs := 0 })

def recordOf (key : String) (c : Call Output) (live : StructuredResult Output) : Json :=
  .obj [("cache_key", .str key), ("task", .str c.task.value),
    ("model", if live.model.truthy then live.model else .str settings.model),
    ("prompt_version", .str promptVersion), ("context", c.context),
    ("response", schemas.dump live.output), ("input_tokens", .int live.inputTokens),
    ("output_tokens", .int live.outputTokens), ("latency_ms", .int live.latencyMs)]

/-- The part of `complete_structured` after a miss. -/
def missed (c : Call Output) (s : State) : Except PyError (StructuredResult Output) × State :=
  let key := c.key rt settings
  let s := { s with misses := s.misses + 1 }
  if settings.live then
    match c.answer with
    | .error e => (.error e, s)
    | .ok live =>
      let s := if settings.record ∧ live.source = .live then
          { s with entries := put s.entries key (recordOf schemas settings key c live) }
        else s
      (.ok { live with cacheKey := some key }, s)
  else
    ((deterministic handler c.task c.context).map fun r => { r with cacheKey := some key }, s)

def completeStructured (c : Call Output) (s : State) :
    Except PyError (StructuredResult Output) × State :=
  let key := c.key rt settings
  match if c.forceLive then none else get s.entries key with
  | none => missed rt schemas handler settings c s
  | some row =>
    match fromRow schemas c.task row key with
    | .error e => (.error e, s)
    | .ok none => missed rt schemas handler settings c s
    | .ok (some hit) => (.ok hit, { s with hits := s.hits + 1 })

def run (calls : List (Call Output)) (s : State) : State :=
  calls.foldl (fun s c => (completeStructured rt schemas handler settings c s).2) s

end Adapter

/-! ## Keys -/

section Keys

variable {rt : Runtime} {readFloat : String → Numeric.ExtRat}

theorem LLMTask.eq_of_append {task task' : LLMTask} {rest rest' : List Char}
    (h : task.value.toList ++ '|' :: rest = task'.value.toList ++ '|' :: rest') : task = task' := by
  cases task <;> cases task' <;> first | rfl | simp [LLMTask.value] at h

/-- **Two calls share a key exactly when they ask the same**: the same task, with contexts that are
the same up to the order of their keys. -/
theorem cacheKey_eq_iff (hinj : Function.Injective rt.sha256)
    (hfloat : Json.FloatReads rt.floatRepr readFloat) {task task' : LLMTask} {model : String}
    {context context' : Json} (h : context.Keyed) (h' : context'.Keyed) :
    cacheKey rt task model promptVersion context = cacheKey rt task' model promptVersion context' ↔
      task = task' ∧ context.sortKeys = context'.sortKeys := by
  constructor
  · intro hkey
    have htext := congrArg String.toList (hinj hkey)
    simp only [String.toList_append, List.append_assoc] at htext
    have htask : task = task' := LLMTask.eq_of_append htext
    subst htask
    refine ⟨rfl, @Json.sortKeys_eq_of_write_eq keyStyle _ _ hfloat _ _ h h' ?_⟩
    simp only [List.append_cancel_left_eq] at htext
    exact String.toList_inj.mp htext
  · rintro ⟨rfl, hcontext⟩
    unfold cacheKey
    rw [← Json.write_sortKeys keyStyle rt.floatRepr context, hcontext, Json.write_sortKeys]

end Keys

/-! ## What the stack is for -/

/-- What was recorded of a question: a task, and a context with its keys in order. -/
abbrev Memo (Output : Type) := LLMTask → Json → Option (StructuredResult Output)

def replayed {Output : Type} (settings : Settings) (key : String) (task : LLMTask)
    (live : StructuredResult Output) : StructuredResult Output where
  task := task
  output := live.output
  source := .cached
  model := if live.model.truthy then live.model else .str settings.model
  provider := some "cache"
  promptVersion := .str promptVersion
  cacheKey := some key
  inputTokens := live.inputTokens
  outputTokens := live.outputTokens

/-- What happens to an adapter: it is asked, or its file is saved and a later process loads it. -/
inductive Event (Output : Type) where
  | call (c : Call Output)
  | restart

section Serving

variable {Output : Type} (rt : Runtime) (readFloat : String → Numeric.ExtRat)
  (schemas : Schemas Output) (handler : LLMTask → Json → Except PyError Output)
  (settings : Settings)

open Classical in
/-- The memo with one more answer. -/
noncomputable def Memo.remember (memo : Memo Output) (task : LLMTask) (context : Json)
    (live : StructuredResult Output) : Memo Output :=
  fun t x => if t = task ∧ x = context then some live else memo t x

@[simp] theorem Memo.remember_self (memo : Memo Output) (task : LLMTask) (context : Json)
    (live : StructuredResult Output) : memo.remember task context live task context = some live :=
  if_pos ⟨rfl, rfl⟩

/-- A question put to the memo: what was recorded is replayed, what was not is asked, and a live
answer is recorded. -/
noncomputable def Memo.ask (memo : Memo Output) (c : Call Output) :
    Except PyError (StructuredResult Output) × Memo Output :=
  match if c.forceLive then none else memo c.task c.context.sortKeys with
  | some live => (.ok (replayed settings (c.key rt settings) c.task live), memo)
  | none =>
    if settings.live then
      match c.answer with
      | .error e => (.error e, memo)
      | .ok live =>
        (.ok { live with cacheKey := some (c.key rt settings) },
          if settings.record ∧ live.source = .live then
            memo.remember c.task c.context.sortKeys live
          else memo)
    else
      ((deterministic handler c.task c.context).map fun r =>
        { r with cacheKey := some (c.key rt settings) }, memo)

/-- The answers of a memo, which restarts do not touch. -/
noncomputable def Memo.serve (memo : Memo Output) :
    List (Event Output) → List (Except PyError (StructuredResult Output))
  | [] => []
  | .call c :: rest =>
    (memo.ask rt handler settings c).1 :: (memo.ask rt handler settings c).2.serve rest
  | .restart :: rest => memo.serve rest

/-- A process ends with `save`, and another starts from the file. -/
def restart (s : State) : Except ResponseCache.Error State := do
  let text ← save rt.floatRepr s.entries
  let entries ← load readFloat (some text)
  .ok { entries := entries }

def serve : List (Event Output) → State →
    Except ResponseCache.Error (List (Except PyError (StructuredResult Output)))
  | [], _ => .ok []
  | .call c :: rest, s =>
    (serve rest (completeStructured rt schemas handler settings c s).2).map fun answers =>
      (completeStructured rt schemas handler settings c s).1 :: answers
  | .restart :: rest, s => do
    let s ← restart rt readFloat s
    serve rest s

end Serving

/-! ## The stack is a memo -/

/-- What the schemas' library does. -/
structure Schemas.Lawful {Output : Type} (schemas : Schemas Output) : Prop where
  /-- What was validated is valid as it is dumped. -/
  dumped : ∀ task v output, schemas.validate task v = some output →
    schemas.validate task (schemas.dump output) = some output
  keyed : ∀ output, (schemas.dump output).Keyed
  /-- The order of the keys does not matter. -/
  order : ∀ task v, v.Keyed → schemas.validate task v.sortKeys = schemas.validate task v

structure Digests (rt : Runtime) : Prop where
  injective : Function.Injective rt.sha256
  isHex : ∀ s, Text.IsHex (rt.sha256 s)
  ne_empty : ∀ s, rt.sha256 s ≠ ""

/-- A text without the line breaks that are not escaped. -/
def Whole (s : String) : Prop := ∀ c ∈ s.toList, isWideBreak c = false

/-- A question that is a dictionary, and an answer that is live only if it was validated; neither
holds a line break beyond ASCII. -/
structure Call.Fits {Output : Type} (schemas : Schemas Output) (c : Call Output) : Prop where
  keyed : c.context.Keyed
  whole : c.context.Without isWideBreak
  live : ∀ live, c.answer = .ok live → live.source = .live →
    (∃ v, schemas.validate c.task v = some live.output) ∧
      (schemas.dump live.output).Without isWideBreak ∧ live.model.Scalar ∧
        live.model.Without isWideBreak

structure Holds {Output : Type} (schemas : Schemas Output) (settings : Settings) (key : String)
    (task : LLMTask) (live : StructuredResult Output) (row : Json) : Prop where
  keyed : row.Keyed
  whole : row.Without isWideBreak
  key : row.getTrue? "cache_key" = some (.str key)
  response : ∃ v, row.get? "response" = some v ∧ v.Keyed ∧
    schemas.validate task v = some live.output
  model : row.get? "model" =
    some (if live.model.truthy then live.model else .str settings.model)
  model_scalar : (if live.model.truthy then live.model else .str settings.model).Scalar
  promptVersion : row.get? "prompt_version" = some (.str promptVersion)
  inputTokens : row.get? "input_tokens" = some (.int live.inputTokens)
  outputTokens : row.get? "output_tokens" = some (.int live.outputTokens)

section Refinement

variable {Output : Type} {rt : Runtime} {readFloat : String → Numeric.ExtRat}
  {schemas : Schemas Output} {handler : LLMTask → Json → Except PyError Output}
  {settings : Settings} {key : String} {task : LLMTask} {live : StructuredResult Output} {row : Json}

/-- A row that holds an answer replays it. -/
theorem Holds.fromRow (h : Holds schemas settings key task live row) :
    fromRow schemas task row key = .ok (some (replayed settings key task live)) := by
  obtain ⟨v, hv, -, hvalid⟩ := h.response
  unfold CachedAdapter.fromRow
  rw [hv, Option.bind_some, hvalid]
  dsimp only
  rw [tokens, h.inputTokens, tokens, h.outputTokens, h.model, h.promptVersion]
  rfl

theorem Holds.sortKeys (hlawful : schemas.Lawful) (h : Holds schemas settings key task live row) :
    Holds schemas settings key task live row.sortKeys where
  keyed := h.keyed.sortKeys
  whole := h.whole.sortKeys
  key := by
    obtain ⟨hget, htrue⟩ := Option.filter_eq_some_iff.mp h.key
    rw [Json.getTrue?, Json.get?_sortKeys h.keyed, hget]
    exact Option.filter_eq_some_iff.mpr ⟨rfl, htrue⟩
  response := by
    obtain ⟨v, hv, hkeyed, hvalid⟩ := h.response
    refine ⟨v.sortKeys, ?_, hkeyed.sortKeys, (hlawful.order task v hkeyed).trans hvalid⟩
    rw [Json.get?_sortKeys h.keyed, hv, Option.map_some]
  model := by
    rw [Json.get?_sortKeys h.keyed, h.model, Option.map_some, Json.sortKeys_scalar h.model_scalar]
  model_scalar := h.model_scalar
  promptVersion := by
    rw [Json.get?_sortKeys h.keyed, h.promptVersion]
    rfl
  inputTokens := by
    rw [Json.get?_sortKeys h.keyed, h.inputTokens]
    rfl
  outputTokens := by
    rw [Json.get?_sortKeys h.keyed, h.outputTokens]
    rfl

theorem whole_of_isHex {s : String} (h : Text.IsHex s) : Whole s := by
  intro c hc
  have hlt : c.toNat < 128 := by
    rcases h c hc with hdigit | hletter
    · exact (Json.isPlain_of_isDigit hdigit).2
    · simp only [List.mem_cons, List.not_mem_nil, or_false] at hletter
      rcases hletter with rfl | rfl | rfl | rfl | rfl | rfl <;> decide
  simp only [isWideBreak, Bool.or_eq_false_iff, beq_eq_false_iff_ne]
  omega

theorem whole_value (task : LLMTask) : Whole task.value := by
  cases task <;> unfold Whole <;> decide

/-- What is recorded of a call holds its answer. -/
theorem holds_recordOf (hlawful : schemas.Lawful) (hsettings : Whole settings.model)
    {c : Call Output} (hc : c.Fits schemas) (hanswer : c.answer = .ok live)
    (hlive : live.source = .live) (hkey : key ≠ "") (hwhole : Whole key) :
    Holds schemas settings key c.task live (recordOf schemas settings key c live) := by
  obtain ⟨⟨v, hv⟩, hdump, hscalar, hmodel⟩ := hc.live live hanswer hlive
  have hstr : ∀ {s : String}, Whole s → (Json.str s).Without isWideBreak := fun hs =>
    .scalar trivial fun _ ht => Json.str.inj ht ▸ hs
  have hint : ∀ n : ℤ, (Json.int n).Without isWideBreak := fun n =>
    .scalar trivial (by rintro _ ⟨⟩)
  have hmodel_scalar : (if live.model.truthy then live.model else .str settings.model).Scalar := by
    split
    · exact hscalar
    · trivial
  constructor
  -- the nine columns of a row: first that none has a key twice
  · refine .obj (by simp) fun f hf => ?_
    simp only [List.mem_cons, List.not_mem_nil, or_false] at hf
    rcases hf with rfl | rfl | rfl | rfl | rfl | rfl | rfl | rfl | rfl
    · exact .scalar trivial
    · exact .scalar trivial
    · exact .scalar hmodel_scalar
    · exact .scalar trivial
    · exact hc.keyed
    · exact hlawful.keyed live.output
    · exact .scalar trivial
    · exact .scalar trivial
    · exact .scalar trivial
  · refine .obj (fun f hf => ?_) fun f hf => ?_
    · simp only [List.mem_cons, List.not_mem_nil, or_false] at hf
      rcases hf with rfl | rfl | rfl | rfl | rfl | rfl | rfl | rfl | rfl <;> (dsimp only; decide)
    · simp only [List.mem_cons, List.not_mem_nil, or_false] at hf
      rcases hf with rfl | rfl | rfl | rfl | rfl | rfl | rfl | rfl | rfl
      · exact hstr hwhole
      · exact hstr (whole_value c.task)
      · dsimp only
        split
        · exact hmodel
        · exact hstr hsettings
      · exact hstr (by unfold Whole; decide)
      · exact hc.whole
      · exact hdump
      · exact hint _
      · exact hint _
      · exact hint _
  · exact Option.filter_eq_some_iff.mpr ⟨rfl, decide_eq_true hkey⟩
  · exact ⟨_, rfl, hlawful.keyed live.output, hlawful.dumped c.task v live.output hv⟩
  · rfl
  · exact hmodel_scalar
  · rfl
  · rfl
  · rfl

/-! ## The store beside the memo -/

/-- The entries of a cache hold what the memo recorded, and nothing else. -/
structure Related (rt : Runtime) (schemas : Schemas Output) (settings : Settings)
    (memo : Memo Output) (entries : Entries) : Prop where
  different : (entries.map Prod.fst).Nodup
  rows : ∀ e ∈ entries, ∃ task context live, context.Keyed ∧
    e.1 = .text (cacheKey rt task settings.model promptVersion context) ∧
    memo task context.sortKeys = some live ∧
    Holds schemas settings (cacheKey rt task settings.model promptVersion context) task live e.2
  stored : ∀ task context live, context.Keyed → memo task context.sortKeys = some live →
    ∃ row, get entries (cacheKey rt task settings.model promptVersion context) = some row

/-- What the memo says of a question is what is stored under its key. -/
theorem Related.get_none (hdigests : Digests rt)
    (hfloat : Json.FloatReads rt.floatRepr readFloat) {memo : Memo Output} {entries : Entries}
    (h : Related rt schemas settings memo entries) {context : Json} (hcontext : context.Keyed)
    (hmemo : memo task context.sortKeys = none) :
    get entries (cacheKey rt task settings.model promptVersion context) = none := by
  by_contra hsome
  obtain ⟨row, hrow⟩ := Option.ne_none_iff_exists'.mp hsome
  obtain ⟨task', context', live', hkeyed, hkey, hmemo', -⟩ :=
    h.rows _ ((Dict.lookup_eq_some_iff h.different).mp hrow)
  obtain ⟨rfl, hsame⟩ := (cacheKey_eq_iff hdigests.injective hfloat hcontext hkeyed).mp
    (EntryKey.text.inj hkey)
  rw [hsame, hmemo'] at hmemo
  cases hmemo

theorem Related.get_some (hdigests : Digests rt)
    (hfloat : Json.FloatReads rt.floatRepr readFloat) {memo : Memo Output} {entries : Entries}
    (h : Related rt schemas settings memo entries) {context : Json} (hcontext : context.Keyed)
    (hmemo : memo task context.sortKeys = some live) :
    ∃ row, get entries (cacheKey rt task settings.model promptVersion context) = some row ∧
      Holds schemas settings (cacheKey rt task settings.model promptVersion context) task live
        row := by
  obtain ⟨row, hrow⟩ := h.stored task context live hcontext hmemo
  obtain ⟨task', context', live', hkeyed, hkey, hmemo', hholds⟩ :=
    h.rows _ ((Dict.lookup_eq_some_iff h.different).mp hrow)
  have hkey := EntryKey.text.inj hkey
  obtain ⟨rfl, hsame⟩ := (cacheKey_eq_iff hdigests.injective hfloat hcontext hkeyed).mp hkey
  rw [hsame, hmemo'] at hmemo
  obtain rfl := Option.some.inj hmemo
  exact ⟨row, hrow, hkey ▸ hholds⟩

/-- Recording an answer. -/
theorem Related.put (hdigests : Digests rt) (hfloat : Json.FloatReads rt.floatRepr readFloat)
    {memo : Memo Output} {entries : Entries} (h : Related rt schemas settings memo entries)
    {context : Json} (hcontext : context.Keyed)
    (hholds : Holds schemas settings (cacheKey rt task settings.model promptVersion context) task
      live row) :
    Related rt schemas settings (memo.remember task context.sortKeys live)
      (put entries (cacheKey rt task settings.model promptVersion context) row) where
  different := Dict.nodup_set h.different _ _
  rows := by
    intro e he
    rcases Dict.mem_set he with rfl | ⟨he, hother⟩
    · exact ⟨task, context, live, hcontext, rfl, memo.remember_self .., hholds⟩
    · obtain ⟨task', context', live', hkeyed, hkey, hmemo, hholds'⟩ := h.rows e he
      refine ⟨task', context', live', hkeyed, hkey, ?_, hholds'⟩
      rw [Memo.remember, if_neg, hmemo]
      -- the same question has the same key, and this row replaces the one under it
      rintro ⟨rfl, hsame⟩
      rw [(cacheKey_eq_iff hdigests.injective hfloat hkeyed hcontext).mpr ⟨rfl, hsame⟩] at hkey
      exact hother hkey
  stored := by
    intro task' context' live' hkeyed hmemo
    unfold ResponseCache.get ResponseCache.put
    rw [Dict.lookup_set]
    split
    · exact ⟨row, rfl⟩
    · next hother =>
      refine h.stored task' context' live' hkeyed ?_
      rwa [Memo.remember, if_neg] at hmemo
      rintro ⟨rfl, hsame⟩
      exact hother (congrArg EntryKey.text
        ((cacheKey_eq_iff hdigests.injective hfloat hkeyed hcontext).mpr ⟨rfl, hsame⟩))

/-- **A call of the stack is a question to the memo.** -/
theorem Related.ask (hlawful : schemas.Lawful) (hdigests : Digests rt)
    (hfloat : Json.FloatReads rt.floatRepr readFloat) (hsettings : Whole settings.model)
    {memo : Memo Output} {s : State} (h : Related rt schemas settings memo s.entries)
    {c : Call Output} (hc : c.Fits schemas) :
    (completeStructured rt schemas handler settings c s).1 = (memo.ask rt handler settings c).1 ∧
      Related rt schemas settings (memo.ask rt handler settings c).2
        (completeStructured rt schemas handler settings c s).2.entries := by
  -- the provider is asked, and a live answer is remembered on both sides
  have hmissed : (if c.forceLive then none else memo c.task c.context.sortKeys) = none →
      (missed rt schemas handler settings c s).1 = (memo.ask rt handler settings c).1 ∧
        Related rt schemas settings (memo.ask rt handler settings c).2
          (missed rt schemas handler settings c s).2.entries := by
    intro hnone
    unfold missed Memo.ask
    rw [hnone]
    dsimp only
    by_cases hlive : settings.live
    · rw [if_pos hlive, if_pos hlive]
      cases hanswer : c.answer with
      | error e => exact ⟨rfl, h⟩
      | ok live =>
        refine ⟨rfl, ?_⟩
        dsimp only
        by_cases hrecord : settings.record ∧ live.source = .live
        · rw [if_pos hrecord, if_pos hrecord]
          exact h.put hdigests hfloat hc.keyed (holds_recordOf hlawful hsettings hc hanswer
            hrecord.2 (hdigests.ne_empty _) (whole_of_isHex (hdigests.isHex _)))
        · rw [if_neg hrecord, if_neg hrecord]
          exact h
    · rw [if_neg hlive, if_neg hlive]
      exact ⟨rfl, h⟩
  unfold completeStructured
  dsimp only
  -- forced, not stored, or read back from the cache
  by_cases hforce : c.forceLive
  · rw [if_pos hforce]
    exact hmissed (if_pos hforce)
  · rw [if_neg hforce]
    cases hmemo : memo c.task c.context.sortKeys with
    | none =>
      have hget := h.get_none hdigests hfloat hc.keyed hmemo
      unfold Call.key
      rw [hget]
      exact hmissed ((if_neg hforce).trans hmemo)
    | some live =>
      obtain ⟨row, hget, hholds⟩ := h.get_some hdigests hfloat hc.keyed hmemo
      unfold Memo.ask Call.key
      rw [hget, if_neg hforce, hmemo]
      dsimp only
      rw [hholds.fromRow]
      exact ⟨rfl, h⟩

/-- **A restart is not seen.** -/
theorem Related.restart (hlawful : schemas.Lawful)
    (hfloat : Json.FloatReads rt.floatRepr readFloat) {memo : Memo Output} {s : State}
    (h : Related rt schemas settings memo s.entries) :
    ∃ s', restart rt readFloat s = .ok s' ∧ Related rt schemas settings memo s'.entries := by
  have hfiled : ∀ e ∈ s.entries, Filed e ∧ e.2.Without isWideBreak := by
    intro e he
    obtain ⟨task, context, live, -, hkey, -, hholds⟩ := h.rows e he
    obtain ⟨k, row⟩ := e
    obtain rfl := hkey
    have hobj : ∃ fields, row = .obj fields := by
      -- what is reloaded is what was saved, with its keys in order
      have hget := (Option.filter_eq_some_iff.mp hholds.key).1
      cases row with
      | obj fields => exact ⟨fields, rfl⟩
      | _ => cases hget
    obtain ⟨fields, rfl⟩ := hobj
    exact ⟨⟨hholds.keyed, fields, _, rfl, hholds.key, rfl⟩, hholds.whole⟩
  -- every key is a text, so the rows can be sorted by it
  have hkind : s.entries.Pairwise fun a b => a.1.kind = b.1.kind := by
    have htext : ∀ e ∈ s.entries, e.1.kind = 0 := by
      intro e he
      obtain ⟨task, context, live, -, hkey, -⟩ := h.rows e he
      rw [hkey]
      rfl
    exact List.pairwise_of_forall_mem_list fun a ha b hb => (htext a ha).trans (htext b hb).symm
  have hsave : ∃ text, save rt.floatRepr s.entries = .ok text := by
    rw [save, sortEntries, if_pos hkind]
    exact ⟨_, rfl⟩
  obtain ⟨text, hsave⟩ := hsave
  obtain ⟨reloaded, hload, hlookup, -⟩ := load_save hfloat h.different (fun e he => (hfiled e he).1)
    (fun e he => (hfiled e he).2) hsave
  have hdifferent := ((load_means readFloat text).2 reloaded hload).1
  refine ⟨{ entries := reloaded }, ?_, hdifferent, fun e he => ?_,
    fun task context live hkeyed hmemo => ?_⟩
  · rw [CachedAdapter.restart, hsave]
    show (load readFloat (some text)).bind _ = _
    rw [hload]
    rfl
  · have hget := (hlookup e.1).symm.trans ((Dict.lookup_eq_some_iff hdifferent).mpr he)
    obtain ⟨row, hrow, hsorted⟩ := Option.map_eq_some_iff.mp hget
    obtain ⟨task, context, live, hkeyed, hkey, hmemo, hholds⟩ :=
      h.rows _ ((Dict.lookup_eq_some_iff h.different).mp hrow)
    exact ⟨task, context, live, hkeyed, hkey, hmemo, hsorted ▸ hholds.sortKeys hlawful⟩
  · obtain ⟨row, hrow⟩ := h.stored task context live hkeyed hmemo
    exact ⟨row.sortKeys, (hlookup _).trans (congrArg (Option.map Json.sortKeys) hrow)⟩

/-! ## Every sequence of events -/

/-- The answers of a stack that is related to a memo are the memo's. -/
theorem serve_related (hlawful : schemas.Lawful) (hdigests : Digests rt)
    (hfloat : Json.FloatReads rt.floatRepr readFloat) (hsettings : Whole settings.model)
    {events : List (Event Output)} (hevents : ∀ c, .call c ∈ events → c.Fits schemas)
    {memo : Memo Output} {s : State} (h : Related rt schemas settings memo s.entries) :
    serve rt readFloat schemas handler settings events s =
      .ok (memo.serve rt handler settings events) := by
  induction events generalizing memo s with
  | nil => rfl
  | cons event events ih =>
    have hrest : ∀ c, .call c ∈ events → c.Fits schemas := fun c hc =>
      hevents c (List.mem_cons_of_mem event hc)
    cases event with
    | call c =>
      obtain ⟨hanswer, hnext⟩ := @Related.ask _ _ _ _ handler _ hlawful hdigests hfloat hsettings _ _
        h c (hevents c List.mem_cons_self)
      rw [serve, ih hrest hnext, hanswer]
      rfl
    | restart =>
      obtain ⟨s', hrestart, hnext⟩ := h.restart hlawful hfloat
      rw [serve, hrestart]
      exact ih hrest hnext

/-- **The adapter stack is a memo of its live answers.** From an empty cache, whatever is asked and
whenever the process is restarted from its file, it answers as a table that keeps the last live
answer to every question: an answer that is marked as cached is that answer, with its output and its
tokens, and a question that was answered live is not asked again unless that is forced. -/
theorem serve_refines (hlawful : schemas.Lawful) (hdigests : Digests rt)
    (hfloat : Json.FloatReads rt.floatRepr readFloat) (hsettings : Whole settings.model)
    {events : List (Event Output)} (hevents : ∀ c, .call c ∈ events → c.Fits schemas) :
    serve rt readFloat schemas handler settings events { entries := [] } =
      .ok (Memo.serve rt handler settings (fun _ _ => none) events) :=
  serve_related hlawful hdigests hfloat hsettings hevents
    ⟨List.nodup_nil, by simp, fun _ _ _ _ hmemo => by cases hmemo⟩

end Refinement

/-! ## A diagnosis asked twice -/

/-- Digests that spell their texts out, never empty. -/
def replayRuntime : Runtime :=
  { spelledRuntime with sha256 := fun s => "5" ++ AuditChain.hexRuntime.sha256 s }

theorem replayRuntime_digests : Digests replayRuntime where
  injective := fun s s' h => AuditChain.hexRuntime_injective (String.append_right_inj _ |>.mp h)
  isHex := by
    intro s c hc
    have hdigit : ∀ n, (Text.hexDigit n).isDigit = true ∨
        Text.hexDigit n ∈ ['a', 'b', 'c', 'd', 'e', 'f'] := by
      have h : ∀ m < 16, (Nat.digitChar m).isDigit = true ∨
        Nat.digitChar m ∈ ['a', 'b', 'c', 'd', 'e', 'f'] := by decide
      exact fun n => h _ (Nat.mod_lt n (by decide))
    simp only [replayRuntime, AuditChain.hexRuntime, String.toList_append, String.toList_ofList] at hc
    rcases List.mem_append.mp hc with hc | hc
    · exact .inl ((by decide : ∀ c ∈ "5".toList, c.isDigit = true) c hc)
    · obtain ⟨d, -, hd⟩ := List.mem_flatMap.mp hc
      simp only [AuditChain.hexChar, List.mem_cons, List.not_mem_nil, or_false] at hd
      rcases hd with rfl | rfl | rfl | rfl | rfl | rfl <;> exact hdigit _
  ne_empty := fun s h => by
    have hlength := congrArg String.length h
    rw [replayRuntime, String.length_append] at hlength
    simp at hlength

theorem replayRuntime_floatReads : Json.FloatReads replayRuntime.floatRepr readSpelled :=
  ⟨spelledRuntime_floatReads.decimal, spelledRuntime_floatReads.reads⟩

theorem cacheKey_eq_iff_reordered :
    cacheKey replayRuntime .diagnose "gemini" promptVersion
        (.obj [("method", .str "card"), ("amount", .int 5)]) =
      cacheKey replayRuntime .diagnose "gemini" promptVersion
        (.obj [("amount", .int 5), ("method", .str "card")]) := by
  refine (cacheKey_eq_iff replayRuntime_digests.injective replayRuntime_floatReads
    (.obj (by decide) ?_) (.obj (by decide) ?_)).mpr ⟨rfl, ?_⟩
  · simpa using ⟨.scalar trivial, .scalar trivial⟩
  · simpa using ⟨.scalar trivial, .scalar trivial⟩
  · rw [Json.sortKeys_obj, Json.sortKeys_obj]
    rfl

/-- A schema of one text. -/
def reasoningSchemas : Schemas String where
  validate _ v := (v.get? "reasoning").bind Json.toStr?
  dump s := .obj [("reasoning", .str s)]

theorem reasoningSchemas_lawful : reasoningSchemas.Lawful where
  dumped _ _ _ _ := rfl
  keyed s := .obj (by simp) (by simpa using .scalar trivial)
  order _ v hv := by
    have hstr : ∀ w : Json, w.sortKeys.toStr? = w.toStr? := by
      intro w
      cases w <;> simp [Json.sortKeys, Json.toStr?]
    simp only [reasoningSchemas, Json.get?_sortKeys hv]
    cases v.get? "reasoning" with
    | none => rfl
    | some w => exact hstr w

def liveAnswer : StructuredResult String where
  task := .diagnose
  output := "bank fault"
  source := .live
  model := .str "gemini"
  provider := some "gemini"
  promptVersion := .str promptVersion
  inputTokens := 647
  outputTokens := 79

def cardCall (fields : List (String × Json)) : Call String where
  task := .diagnose
  context := .obj fields
  answer := .ok liveAnswer

theorem without_str {s : String} (h : Whole s) : (Json.str s).Without isWideBreak :=
  .scalar trivial fun _ ht => Json.str.inj ht ▸ h

theorem cardCall_fits {fields : List (String × Json)} (hkeyed : (Json.obj fields).Keyed)
    (hwhole : (Json.obj fields).Without isWideBreak) : (cardCall fields).Fits reasoningSchemas where
  keyed := hkeyed
  whole := hwhole
  live := by
    intro live hanswer _
    obtain rfl := Except.ok.inj hanswer
    refine ⟨⟨.obj [("reasoning", .str "bank fault")], rfl⟩, ?_, trivial, without_str ?_⟩
    · refine .obj (by decide) fun f hf => ?_
      obtain rfl := List.mem_singleton.mp hf
      exact without_str (by unfold Whole; decide)
    · unfold Whole
      decide

/-- The two entries of the question, in either order. -/
theorem cardFields_fit {fields : List (String × Json)}
    (h : fields = [("method", .str "card"), ("amount", .int 5)] ∨
      fields = [("amount", .int 5), ("method", .str "card")]) :
    (cardCall fields).Fits reasoningSchemas := by
  have hcard : (Json.str "card").Without isWideBreak := without_str (by unfold Whole; decide)
  have hamount : (Json.int 5).Without isWideBreak := .scalar trivial (by rintro _ ⟨⟩)
  rcases h with rfl | rfl
  · refine cardCall_fits (.obj (by decide) ?_) (.obj (by decide) ?_)
    · simpa using ⟨.scalar trivial, .scalar trivial⟩
    · simpa using ⟨hcard, hamount⟩
  · refine cardCall_fits (.obj (by decide) ?_) (.obj (by decide) ?_)
    · simpa using ⟨.scalar trivial, .scalar trivial⟩
    · simpa using ⟨hamount, hcard⟩

theorem serve_refines_restarted :
    ∃ answers, serve replayRuntime readSpelled reasoningSchemas (fun _ _ => .ok "rules")
      { model := "gemini", record := true, live := true }
      [.call (cardCall [("method", .str "card"), ("amount", .int 5)]), .restart,
        .call (cardCall [("amount", .int 5), ("method", .str "card")])] { entries := [] } =
        .ok answers ∧ answers.map (Except.map (·.source)) = [.ok .live, .ok .cached] := by
  refine ⟨_, serve_refines reasoningSchemas_lawful replayRuntime_digests ?_ ?_ ?_, ?_⟩
  · exact replayRuntime_floatReads
  · unfold Whole
    decide
  · intro c hc
    simp only [List.mem_cons, List.not_mem_nil, or_false, reduceCtorEq, false_or,
      Event.call.injEq] at hc
    rcases hc with rfl | rfl
    · exact cardFields_fit (.inl rfl)
    · exact cardFields_fit (.inr rfl)
  · have hsame : (cardCall [("method", .str "card"), ("amount", .int 5)]).context.sortKeys =
        (cardCall [("amount", .int 5), ("method", .str "card")]).context.sortKeys := by
      unfold cardCall
      rw [Json.sortKeys_obj, Json.sortKeys_obj]
      rfl
    simp only [Memo.serve, Memo.ask, hsame]
    simp [cardCall, liveAnswer, replayed, Except.map]

end CachedAdapter

end AegisMerchant
