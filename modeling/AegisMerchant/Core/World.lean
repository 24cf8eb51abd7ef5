import AegisMerchant.Base.Pool
import AegisMerchant.Db.Ids
import AegisMerchant.Db.Transaction
import AegisMerchant.Llm.Routing
import AegisMerchant.Tools.Provider

/-!
# The world the services run in

One database, one payment provider, one clock and one model behind the adapter. The services are
programs over `Cmd`, one command for each thing they ask of it; between two commands of one service
any other may run. What is not the program's to decide (how long a step takes, what the network and
the model answer, the random numbers) is read off a `Fate` for each command.
-/

namespace AegisMerchant

open Time

/-! ## What is not the program's to decide -/

inductive CreateFate where
  | served
  /-- A timeout, 429 or 5xx, before the provider did anything. -/
  | lostBefore (message : String)
  /-- The same, after the link was created. -/
  | lostAfter (message : String)
  /-- A terminal refusal. -/
  | refused (message : String)
  /-- A 400 that mentions the reference, which the client reads as a duplicate. -/
  | duplicate

inductive LookupFate where
  | served (status : String) (raw : Json)
  /-- An empty list, whatever the provider holds. -/
  | hidden
  | lost (message : String)
  | refused (message : String)

/-- No jitter is a jitter within its bounds. -/
theorem uniform_zero_mem : (-1 / 4 : ℚ) ≤ 0 ∧ (0 : ℚ) ≤ 1 / 4 := by norm_num

structure Fate where
  /-- Microseconds that pass before it is served. -/
  elapsed : ℕ := 0
  /-- `secrets.token_hex`. -/
  hex : String := "0000000000"
  /-- `rng.uniform(-0.25, 0.25)`. -/
  uniform : ℚ := 0
  create : CreateFate := .served
  linkId : String := "plink_1"
  shortUrl : String := "https://rzp.io/i/1"
  lookup : LookupFate := .served "created" (.obj [])
  answer : LLMTask → LlmContext → Except PyError StructuredResult :=
    fun _ _ => .ok { output := .other, source := .deterministic }
  uniform_mem : -1 / 4 ≤ uniform ∧ uniform ≤ 1 / 4 := by exact uniform_zero_mem

structure World where
  db : Database
  /-- The links the provider holds. -/
  links : List PaymentLinkResult := []
  clock : DateTime
  /-- Every request to create a link, with its instant. -/
  calls : List (DateTime × PaymentLinkRequest) := []
  /-- Every transaction that committed, with its instant. -/
  history : List (DateTime × List Write) := []
  fate : ℕ → Fate := fun _ => {}
  /-- How many commands were served. -/
  tick : ℕ := 0

/-! ## Commands -/

/-- What a service asks of the world. A session hands over the statements it flushed so far, which
its own reads see. -/
inductive Cmd : Type → Type 1 where
  | now : Cmd DateTime
  | select {β : Type} (sent : List Write) (q : Tables → β) : Cmd β
  | flush (sent ws : List Write) : Cmd (Except PyError Unit)
  | commit (ws : List Write) : Cmd (Except PyError Unit)
  | tokenHex : Cmd String
  | uniform : Cmd ℚ
  | createPaymentLink (request : PaymentLinkRequest) : Cmd (Except PyError PaymentLinkResult)
  | getPaymentLinkByReference (reference : String) :
      Cmd (Except PyError (Option PaymentLinkResult))
  | completeStructured (task : LLMTask) (context : LlmContext) :
      Cmd (Except PyError StructuredResult)

/-- Anything but a commit. -/
def Cmd.Quiet : {β : Type} → Cmd β → Prop
  | _, .commit _ => False
  | _, _ => True

/-- Anything but a commit of a statement that is not of a kind. -/
def Cmd.Writes (φ : Write → Prop) : {β : Type} → Cmd β → Prop
  | _, .commit ws => ∀ write ∈ ws, φ write
  | _, _ => True

/-- Anything but a request to create a link. -/
def Cmd.Passive : {β : Type} → Cmd β → Prop
  | _, .createPaymentLink _ => False
  | _, _ => True

/-- Anything but a commit or a request to create a link. -/
def Cmd.Reads : {β : Type} → Cmd β → Prop
  | _, .commit _ => False
  | _, .createPaymentLink _ => False
  | _, _ => True

theorem Cmd.Reads.quiet {β : Type} {c : Cmd β} (h : c.Reads) : c.Quiet := by
  cases c with
  | commit => exact h
  | _ => trivial

theorem Cmd.Reads.passive {β : Type} {c : Cmd β} (h : c.Reads) : c.Passive := by
  cases c with
  | createPaymentLink => exact h
  | _ => trivial

namespace World

/-! ## Time -/

def advance (w : World) : World :=
  { w with clock := w.clock.add (w.fate w.tick).elapsed, tick := w.tick + 1 }

@[simp] theorem advance_db (w : World) : w.advance.db = w.db := rfl
@[simp] theorem advance_links (w : World) : w.advance.links = w.links := rfl
@[simp] theorem advance_calls (w : World) : w.advance.calls = w.calls := rfl
@[simp] theorem advance_history (w : World) : w.advance.history = w.history := rfl
@[simp] theorem advance_fate (w : World) : w.advance.fate = w.fate := rfl
@[simp] theorem advance_tick (w : World) : w.advance.tick = w.tick + 1 := rfl

/-- The clock does not go back. -/
theorem le_advance_clock (w : World) : w.clock ≤ w.advance.clock := by
  show w.clock.utc ≤ w.clock.utc + ((w.fate w.tick).elapsed : ℤ)
  omega

def after (w : World) : ℕ → World
  | 0 => w
  | n + 1 => (w.after n).advance

@[simp] theorem after_zero (w : World) : w.after 0 = w := rfl

@[simp] theorem advance_after (w : World) (n : ℕ) : (w.after n).advance = w.after (n + 1) := rfl

/-- Time adds up. -/
@[simp] theorem after_after (w : World) (m n : ℕ) : (w.after m).after n = w.after (m + n) := by
  induction n with
  | zero => rfl
  | succ n ih => exact congrArg advance ih

@[simp] theorem after_db (w : World) (n : ℕ) : (w.after n).db = w.db := by
  induction n with
  | zero => rfl
  | succ n ih => exact ih

@[simp] theorem after_fate (w : World) (n : ℕ) : (w.after n).fate = w.fate := by
  induction n with
  | zero => rfl
  | succ n ih => exact ih

@[simp] theorem after_tick (w : World) (n : ℕ) : (w.after n).tick = w.tick + n := by
  induction n with
  | zero => rfl
  | succ n ih => rw [← advance_after, advance_tick, ih, Nat.add_assoc]

theorem le_after_clock (w : World) (n : ℕ) : w.clock ≤ (w.after n).clock := by
  induction n with
  | zero => exact le_refl _
  | succ n ih => exact le_trans ih (le_advance_clock _)

/-- The clock of a later command is no earlier. -/
theorem after_clock_mono (w : World) {m n : ℕ} (h : m ≤ n) :
    (w.after m).clock ≤ (w.after n).clock := by
  obtain ⟨k, rfl⟩ := Nat.exists_eq_add_of_le h
  rw [← after_after]
  exact le_after_clock _ _

/-! ## The provider -/

/-- The link the provider holds under a reference. -/
def linkOf (w : World) (reference : String) : Option PaymentLinkResult :=
  w.links.find? fun l => l.referenceId = reference

def newLink (f : Fate) (request : PaymentLinkRequest) : PaymentLinkResult where
  linkId := f.linkId
  shortUrl := f.shortUrl
  referenceId := request.referenceId
  amountPaise := request.amountPaise
  status := "created"
  raw := .obj [("id", .str f.linkId), ("amount", .int request.amountPaise),
    ("reference_id", .str request.referenceId)]

/-- Create a link, unless the provider holds one under its reference. -/
def register (w : World) (link : PaymentLinkResult) : World :=
  if (w.linkOf link.referenceId).isSome then w else { w with links := w.links ++ [link] }

@[simp] theorem register_db (w : World) (link : PaymentLinkResult) :
    (w.register link).db = w.db := by
  unfold register; split <;> rfl

@[simp] theorem register_clock (w : World) (link : PaymentLinkResult) :
    (w.register link).clock = w.clock := by
  unfold register; split <;> rfl

@[simp] theorem register_calls (w : World) (link : PaymentLinkResult) :
    (w.register link).calls = w.calls := by
  unfold register; split <;> rfl

@[simp] theorem register_history (w : World) (link : PaymentLinkResult) :
    (w.register link).history = w.history := by
  unfold register; split <;> rfl

@[simp] theorem register_fate (w : World) (link : PaymentLinkResult) :
    (w.register link).fate = w.fate := by
  unfold register; split <;> rfl

@[simp] theorem register_tick (w : World) (link : PaymentLinkResult) :
    (w.register link).tick = w.tick := by
  unfold register; split <;> rfl

/-- `create_payment_link` at the provider. -/
def create (w : World) (f : Fate) (request : PaymentLinkRequest) :
    Except PyError PaymentLinkResult × World :=
  match f.create with
  | .served =>
    if (w.linkOf request.referenceId).isSome then
      (.error (.duplicateReference request.referenceId), w)
    else (.ok (newLink f request), w.register (newLink f request))
  | .lostBefore m => (.error (.providerRetryable m), w)
  | .lostAfter m => (.error (.providerRetryable m), w.register (newLink f request))
  | .refused m => (.error (.providerPermanent m), w)
  | .duplicate => (.error (.duplicateReference request.referenceId), w)

/-- `get_payment_link_by_reference` at the provider: the link with its current status. -/
def lookup (w : World) (f : Fate) (reference : String) :
    Except PyError (Option PaymentLinkResult) :=
  match f.lookup with
  | .served status raw =>
    .ok ((w.linkOf reference).map fun l => { l with status, raw, wasExisting := true })
  | .hidden => .ok none
  | .lost m => .error (.providerRetryable m)
  | .refused m => .error (.providerPermanent m)

/-! ## The handler -/

/-- The world after a transaction that committed. -/
def committed (w : World) (ws : List Write) (db : Database) : World :=
  { w with db, history := w.history ++ [(w.clock, ws)] }

@[simp] theorem committed_db (w : World) (ws : List Write) (db : Database) :
    (w.committed ws db).db = db := rfl

@[simp] theorem committed_clock (w : World) (ws : List Write) (db : Database) :
    (w.committed ws db).clock = w.clock := rfl

@[simp] theorem committed_fate (w : World) (ws : List Write) (db : Database) :
    (w.committed ws db).fate = w.fate := rfl

@[simp] theorem committed_tick (w : World) (ws : List Write) (db : Database) :
    (w.committed ws db).tick = w.tick := rfl

/-- Serve one command, its time passed. -/
def serve : {β : Type} → Cmd β → Fate → World → β × World
  | _, .now, _, w => (w.clock, w)
  | _, .select sent q, _, w => (q (w.db.tables.applyAll sent), w)
  | _, .flush sent ws, _, w =>
    match w.db.commit (sent ++ ws) with
    | some _ => (.ok (), w)
    | none => (.error .integrityError, w)
  | _, .commit ws, _, w =>
    match w.db.commit ws with
    | some db => (.ok (), w.committed ws db)
    | none => (.error .integrityError, w)
  | _, .tokenHex, f, w => (f.hex, w)
  | _, .uniform, f, w => (f.uniform, w)
  | _, .createPaymentLink request, f, w =>
    ({ w with calls := w.calls ++ [(w.clock, request)] } : World).create f request
  | _, .getPaymentLinkByReference reference, f, w => (w.lookup f reference, w)
  | _, .completeStructured task context, f, w => (f.answer task context, w)

/-- Every command of every service. -/
def handler : Handler Cmd World where
  exec c w := serve c (w.fate w.tick) w.advance

/-- No command moves the clock back, or takes its own time twice. -/
theorem exec_clock {β : Type} (c : Cmd β) (w : World) :
    (handler.exec c w).2.clock = w.advance.clock := by
  cases c with
  | commit ws | flush sent ws =>
    simp only [handler, serve]
    split <;> rfl
  | createPaymentLink request =>
    simp only [handler, serve, create]
    split
    · split
      · rfl
      · exact register_clock _ _
    · rfl
    · exact register_clock _ _
    · rfl
    · rfl
  | _ => rfl

/-! ## What a command leaves alone -/

/-- Every request to create a link meets `ψ` in the world in which the provider gets it. -/
def Creates (ψ : PaymentLinkRequest → World → Prop) : {β : Type} → Cmd β → World → Prop
  | _, .createPaymentLink request, w => ψ request w.advance
  | _, _, _ => True

instance (ψ : PaymentLinkRequest → World → Prop) [∀ r w, Decidable (ψ r w)] {β : Type} :
    (c : Cmd β) → (w : World) → Decidable (Creates ψ c w)
  | .createPaymentLink request, w => inferInstanceAs (Decidable (ψ request w.advance))
  | .now, _ | .select _ _, _ | .flush _ _, _ | .commit _, _ | .tokenHex, _ | .uniform, _
  | .getPaymentLinkByReference _, _ | .completeStructured _ _, _ =>
    inferInstanceAs (Decidable True)

theorem creates_of_passive {ψ : PaymentLinkRequest → World → Prop} {β : Type} {c : Cmd β}
    (h : c.Passive) (w : World) : Creates ψ c w := by
  cases c with
  | createPaymentLink request => exact h.elim
  | _ => trivial

/-- The contract of services in the world. -/
def contract (rely guar : World → World → Prop) (cond : {β : Type} → Cmd β → World → Prop) :
    Contract Cmd World :=
  { handler with rely, guar, cond }

/-- A command that commits nothing leaves the database and its history as they were. -/
theorem exec_quiet {β : Type} {c : Cmd β} (h : c.Quiet) (w : World) :
    (handler.exec c w).2.db = w.db ∧ (handler.exec c w).2.history = w.history := by
  cases c with
  | commit ws => exact h.elim
  | flush sent ws =>
    simp only [handler, serve]
    split <;> exact ⟨rfl, rfl⟩
  | createPaymentLink request =>
    simp only [handler, serve, create]
    split
    · split
      · exact ⟨rfl, rfl⟩
      · exact ⟨register_db _ _, register_history _ _⟩
    · exact ⟨rfl, rfl⟩
    · exact ⟨register_db _ _, register_history _ _⟩
    · exact ⟨rfl, rfl⟩
    · exact ⟨rfl, rfl⟩
  | _ => exact ⟨rfl, rfl⟩

/-- A program that commits nothing leaves the database as it was. -/
theorem run_quiet {α : Type} {p : Prog Cmd PyError α} {R : Except PyError α → Prop}
    (h : p.All Cmd.Quiet R) (w : World) : (p.run handler w).2.db = w.db :=
  (h.along (φ := fun c _ => c.Quiet) (fun _ _ hc => hc) w).run (I := fun v => v.db = w.db)
    (fun _ v hc hv => (exec_quiet hc v).1.trans hv) rfl

/-- A program that only reads takes time and leaves the rest of the world alone. -/
theorem run_reads {α : Type} {p : Prog Cmd PyError α} {R : Except PyError α → Prop}
    (h : p.All Cmd.Reads R) (w : World) : ∃ n, (p.run handler w).2 = w.after n := by
  induction p generalizing w with
  | ret a => exact ⟨0, rfl⟩
  | raise e => exact ⟨0, rfl⟩
  | step c k ih =>
    -- a command that only reads takes one tick and changes nothing
    have hexec : (handler.exec c w).2 = w.after 1 := by
      cases c with
      | commit | createPaymentLink => exact h.1.elim
      | flush sent ws =>
        simp only [handler, serve]
        split <;> rfl
      | _ => rfl
    obtain ⟨n, hn⟩ := ih _ (h.2 (handler.exec c w).1) (w.after 1)
    refine ⟨1 + n, ?_⟩
    rw [Prog.run, hexec, hn, after_after]

/-- What the statements of a kind keep of the tables, a command that commits no others keeps. -/
theorem exec_keeps_of_writes {I : Tables → Prop} {φ : Write → Prop}
    (h : ∀ t write, φ write → I t → I (t.apply write)) {β : Type} {c : Cmd β} (hc : c.Writes φ)
    (w : World) (hw : I w.db.tables) : I (handler.exec c w).2.db.tables := by
  by_cases hquiet : c.Quiet
  · rwa [(exec_quiet hquiet w).1]
  · cases c with
    | commit ws =>
      simp only [handler, serve, advance_db]
      split
      · next db hdb =>
          rw [committed_db, Database.commit_eq_some.mp hdb]
          exact List.foldlRecOn ws Tables.apply hw fun t ht write hmem => h t write (hc write hmem) ht
      · exact hw
    | _ => exact absurd trivial hquiet

/-- What every statement keeps of the tables, every command keeps. -/
theorem exec_keeps_tables {I : Tables → Prop} (h : ∀ t write, I t → I (t.apply write))
    {β : Type} (c : Cmd β) (w : World) (hw : I w.db.tables) :
    I (handler.exec c w).2.db.tables := by
  refine exec_keeps_of_writes (φ := fun _ => True) (fun t write _ => h t write) ?_ w hw
  cases c with
  | commit ws => exact fun _ _ => trivial
  | _ => trivial

/-- No command changes the fates, and each one counts. -/
theorem exec_fate {β : Type} (c : Cmd β) (w : World) :
    (handler.exec c w).2.fate = w.fate ∧ (handler.exec c w).2.tick = w.tick + 1 := by
  cases c with
  | commit ws | flush sent ws =>
    simp only [handler, serve]
    split <;> exact ⟨rfl, rfl⟩
  | createPaymentLink request =>
    simp only [handler, serve, create]
    split
    · split
      · exact ⟨rfl, rfl⟩
      · exact ⟨register_fate _ _, register_tick _ _⟩
    · exact ⟨rfl, rfl⟩
    · exact ⟨register_fate _ _, register_tick _ _⟩
    · exact ⟨rfl, rfl⟩
    · exact ⟨rfl, rfl⟩
  | _ => exact ⟨rfl, rfl⟩

end World

/-! ## Services -/

/-- What a service computes: a program of commands that may raise. -/
abbrev Act := Prog Cmd PyError

namespace Act

/-- `clock.now_utc()`. -/
def nowUtc : Act DateTime := Prog.lift .now

/-- A query in a session with nothing flushed. -/
def select {β : Type} (q : Tables → β) : Act β := Prog.lift (.select [] q)

/-- A command whose answer may be an exception. -/
def call {α : Type} (c : Cmd (Except PyError α)) : Act α := do
  match ← (Prog.lift c : Act _) with
  | .ok a => return a
  | .error e => throw e

/-- `session.commit()` of what the session wrote. -/
def commit (ws : List Write) : Act Unit := call (.commit ws)

/-- `new_id`. -/
def freshId (pfx : String) : Act String := do return newId pfx (← (Prog.lift .tokenHex : Act _))

def createPaymentLink (request : PaymentLinkRequest) : Act PaymentLinkResult :=
  call (.createPaymentLink request)

def getPaymentLinkByReference (reference : String) : Act (Option PaymentLinkResult) :=
  call (.getPaymentLinkByReference reference)

def completeStructured : Adapter Act := fun task context =>
  call (.completeStructured task context)

/-! ## Rules -/

section Rules

variable {P : {β : Type} → Cmd β → Prop} {α : Type}

@[simp] theorem all_nowUtc {R : Except PyError DateTime → Prop} :
    nowUtc.All P R ↔ P .now ∧ ∀ t, R (.ok t) := Iff.rfl

@[simp] theorem all_select {q : Tables → α} {R : Except PyError α → Prop} :
    (select q).All P R ↔ P (.select [] q) ∧ ∀ a, R (.ok a) := Iff.rfl

@[simp] theorem all_call {c : Cmd (Except PyError α)} {R : Except PyError α → Prop} :
    (call c).All P R ↔ P c ∧ ∀ r, R r := by
  refine and_congr_right fun _ => ?_
  constructor
  · rintro h (e | a)
    · exact h (.error e)
    · exact h (.ok a)
  · rintro h (e | a)
    · exact h (.error e)
    · exact h (.ok a)

@[simp] theorem all_commit {ws : List Write} {R : Except PyError Unit → Prop} :
    (commit ws).All P R ↔ P (.commit ws) ∧ ∀ r, R r := all_call

@[simp] theorem all_freshId {pfx : String} {R : Except PyError String → Prop} :
    (freshId pfx).All P R ↔ P .tokenHex ∧ ∀ hex, R (.ok (newId pfx hex)) := Iff.rfl

/-- A query, then the rest: the world may have moved before it. -/
theorem wp_select {rely guar : World → World → Prop} {cond : {β : Type} → Cmd β → World → Prop}
    {q : Tables → α} {Q : Except PyError α → World → Prop} {w : World} :
    (select q).wp (World.contract rely guar cond) Q w ↔
      ∀ w', rely w w' → cond (.select [] q) w' →
        guar w' w'.advance ∧ Q (.ok (q w'.db.tables)) w'.advance := Iff.rfl

/-- A commit, then the rest: all of the transaction went in, or it raised. -/
theorem wp_commit {rely guar : World → World → Prop} {cond : {β : Type} → Cmd β → World → Prop}
    {ws : List Write} {Q : Except PyError Unit → World → Prop} {w : World} :
    (commit ws).wp (World.contract rely guar cond) Q w ↔
      ∀ w', rely w w' → cond (.commit ws) w' →
        match w'.db.commit ws with
        | some db => guar w' (w'.advance.committed ws db) ∧ Q (.ok ()) (w'.advance.committed ws db)
        | none => guar w' w'.advance ∧ Q (.error .integrityError) w'.advance := by
  show (Prog.lift (Cmd.commit ws) >>= _ : Act Unit).wp _ Q w ↔ _
  rw [Prog.wp_bind, Prog.wp_lift]
  refine forall_congr' fun w' => imp_congr_right fun _ => imp_congr_right fun _ => ?_
  simp only [World.contract, World.handler, World.serve, World.advance_db]
  cases w'.db.commit ws <;> rfl

@[simp] theorem run_nowUtc (w : World) :
    nowUtc.run World.handler w = (.ok (w.after 1).clock, w.after 1) := rfl

@[simp] theorem run_select (q : Tables → α) (w : World) :
    (select q).run World.handler w = (.ok (q w.db.tables), w.after 1) := rfl

@[simp] theorem run_freshId (pfx : String) (w : World) :
    (freshId pfx).run World.handler w = (.ok (newId pfx (w.fate w.tick).hex), w.after 1) := rfl

@[simp] theorem run_commit (ws : List Write) (w : World) :
    (commit ws).run World.handler w =
      match w.db.commit ws with
      | some db => (.ok (), (w.after 1).committed ws db)
      | none => (.error .integrityError, w.after 1) := by
  show (Prog.lift (Cmd.commit ws) >>= _ : Act Unit).run _ w = _
  rw [Prog.run_bind, Prog.run_lift]
  simp only [World.handler, World.serve, World.advance_db]
  cases w.db.commit ws <;> rfl

@[simp] theorem run_liftExcept (x : Except PyError α) (w : World) :
    (liftExcept x : Act α).run World.handler w = (x, w) := by
  cases x <;> rfl

@[simp] theorem all_liftExcept {x : Except PyError α} {R : Except PyError α → Prop} :
    (liftExcept x : Act α).All P R ↔ R x := by
  cases x <;> rfl

variable {φ : {β : Type} → Cmd β → World → Prop} {w : World}

@[simp] theorem along_nowUtc : nowUtc.Along World.handler φ w ↔ φ .now w := Prog.along_lift _ _

@[simp] theorem along_select {q : Tables → α} :
    (select q).Along World.handler φ w ↔ φ (.select [] q) w := Prog.along_lift _ _

@[simp] theorem along_freshId {pfx : String} :
    (freshId pfx).Along World.handler φ w ↔ φ .tokenHex w := by
  rw [freshId, Prog.along_bind, Prog.along_lift, Prog.run_lift]
  exact and_iff_left trivial

@[simp] theorem along_liftExcept {x : Except PyError α} :
    (liftExcept x : Act α).Along World.handler φ w := by
  cases x <;> trivial

@[simp] theorem along_call {c : Cmd (Except PyError α)} :
    (call c).Along World.handler φ w ↔ φ c w := by
  show (Prog.lift c >>= _ : Act α).Along _ _ _ ↔ _
  rw [Prog.along_bind, Prog.along_lift, Prog.run_lift]
  refine and_iff_left ?_
  cases (World.handler.exec c w).1 <;> trivial

@[simp] theorem along_commit {ws : List Write} :
    (commit ws).Along World.handler φ w ↔ φ (.commit ws) w := along_call

end Rules

end Act

/-! ## Workers -/

/-- A run of workers from a world with none of them running. -/
def runWorkers (w : World) (moves : List (Move Cmd PyError)) : Pool Cmd PyError World :=
  ({ state := w } : Pool Cmd PyError World).run World.handler moves

end AegisMerchant
