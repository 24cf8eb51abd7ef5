import AegisMerchant.Base.Prog
import Mathlib.Data.List.Basic

/-!
# Programs running against each other

A pool of programs over one shared state. A move lets one program issue its next command, kills
one, or starts a new one: the runs of a pool are all interleavings, with crashes between any two
commands. If every program that may be started keeps a contract whose guarantee is part of its rely,
then so does every run whose commands are in scope. Nothing here mentions a particular program.

`safe_step` and `safe_run` give the guarantee of every step of a run. `rely_between` and
`inv_of_keeps` are the forms the laws of a program are proved in: what each party keeps, the pool
keeps.
-/

/-- What happens next. -/
inductive Move (E : Type → Type 1) (ε : Type) : Type 1 where
  /-- The program at this place issues its next command. -/
  | run (i : ℕ)
  /-- The program at this place dies. -/
  | crash (i : ℕ)
  | spawn (p : Prog E ε Unit)

/-- The shared state and the programs still running. -/
structure Pool (E : Type → Type 1) (ε σ : Type) : Type 1 where
  state : σ
  procs : List (Prog E ε Unit) := []

/-- A contract whose guarantee is something the others may rely on. -/
structure Contract.Closed {E : Type → Type 1} {σ : Type} (C : Contract E σ) : Prop where
  refl : ∀ w, C.rely w w
  trans : ∀ {u v w}, C.rely u v → C.rely v w → C.rely u w
  guar : ∀ {u v}, C.guar u v → C.rely u v

namespace Pool

variable {E : Type → Type 1} {ε σ : Type}

def step (H : Handler E σ) (P : Pool E ε σ) : Move E ε → Pool E ε σ
  | .run i =>
    match P.procs[i]? with
    | some (.step c k) =>
      { state := (H.exec c P.state).2, procs := P.procs.set i (k (H.exec c P.state).1) }
    | _ => P
  | .crash i => { P with procs := P.procs.eraseIdx i }
  | .spawn p => { P with procs := P.procs ++ [p] }

def run (H : Handler E σ) (P : Pool E ε σ) (moves : List (Move E ε)) : Pool E ε σ :=
  moves.foldl (step H) P

/-- The command a program issues next, if any, is in scope. -/
def NextInScope (C : Contract E σ) (w : σ) : Option (Prog E ε Unit) → Prop
  | some (.step c _) => C.cond c w
  | _ => True

/-- The command a move issues, if any, is in scope. -/
def InScope (C : Contract E σ) (P : Pool E ε σ) : Move E ε → Prop
  | .run i => NextInScope C P.state P.procs[i]?
  | _ => True

/-- Every command a run issues is in scope where it is issued. -/
def Meets (C : Contract E σ) : Pool E ε σ → List (Move E ε) → Prop
  | _, [] => True
  | P, m :: rest => P.InScope C m ∧ (P.step C.toHandler m).Meets C rest

section Decide

variable {C : Contract E σ} [∀ {β : Type} (c : E β) (w : σ), Decidable (C.cond c w)]

instance (w : σ) : (next : Option (Prog E ε Unit)) → Decidable (NextInScope C w next)
  | some (.step c _) => inferInstanceAs (Decidable (C.cond c w))
  | none | some (.ret _) | some (.raise _) => inferInstanceAs (Decidable True)

instance (P : Pool E ε σ) : (m : Move E ε) → Decidable (P.InScope C m)
  | .run i => inferInstanceAs (Decidable (NextInScope C P.state P.procs[i]?))
  | .crash _ | .spawn _ => inferInstanceAs (Decidable True)

/-- Whether a run stays in scope can be run. -/
instance decidableMeets : (P : Pool E ε σ) → (moves : List (Move E ε)) → Decidable (P.Meets C moves)
  | _, [] => inferInstanceAs (Decidable True)
  | P, m :: rest =>
    have := decidableMeets (P.step C.toHandler m) rest
    inferInstanceAs (Decidable (P.InScope C m ∧ (P.step C.toHandler m).Meets C rest))

end Decide

/-- A move starts nothing but programs of a given kind. -/
def StartsOnly (Started : Prog E ε Unit → Prop) : Move E ε → Prop
  | .spawn p => Started p
  | _ => True

@[simp] theorem run_nil (H : Handler E σ) (P : Pool E ε σ) : P.run H [] = P := rfl

@[simp] theorem run_cons (H : Handler E σ) (P : Pool E ε σ) (m : Move E ε)
    (rest : List (Move E ε)) : P.run H (m :: rest) = (P.step H m).run H rest := rfl

/-! ## The rule -/

/-- Every program of the pool keeps the contract from here on. -/
def Safe (C : Contract E σ) (P : Pool E ε σ) : Prop :=
  ∀ p ∈ P.procs, p.wp C (fun _ _ => True) P.state

/-- **Step.** A move in scope keeps the pool safe, and moves the state along the rely. -/
theorem safe_step {C : Contract E σ} (hC : C.Closed) {Started : Prog E ε Unit → Prop}
    {P : Pool E ε σ} {m : Move E ε} (hsafe : P.Safe C) (hstart : StartsOnly Started m)
    (hspawn : ∀ p, Started p → p.wp C (fun _ _ => True) P.state) (hscope : P.InScope C m) :
    (P.step C.toHandler m).Safe C ∧ C.rely P.state (P.step C.toHandler m).state := by
  cases m with
  | crash i =>
    refine ⟨fun p hp => hsafe p ?_, hC.refl _⟩
    exact List.mem_of_mem_eraseIdx hp
  | spawn p =>
    refine ⟨fun q hq => ?_, hC.refl _⟩
    rcases List.mem_append.mp hq with hq | hq
    · exact hsafe q hq
    · obtain rfl := List.mem_singleton.mp hq
      exact hspawn q hstart
  | run i =>
    simp only [InScope] at hscope
    simp only [step]
    split
    · next c k hi =>
        rw [hi] at hscope
        have hmem := List.mem_of_getElem? hi
        obtain ⟨hguar, hk⟩ := hsafe _ hmem _ (hC.refl _) hscope
        have hrely := hC.guar hguar
        refine ⟨fun q hq => ?_, hrely⟩
        rcases List.mem_or_eq_of_mem_set hq with hq | rfl
        · -- another program: what it has to keep is closed under the rely
          exact Prog.wp_rely C hC.trans (fun _ _ _ _ h => h) hrely (hsafe q hq)
        · exact hk
    -- no such program, or it is done: nothing moves
    · exact ⟨hsafe, hC.refl _⟩

/-- **Run.** Along every run in scope that starts only programs keeping the contract from any later
state, the pool stays safe and the state moves along the rely. -/
theorem safe_run {C : Contract E σ} (hC : C.Closed) {Started : Prog E ε Unit → Prop} :
    ∀ {moves : List (Move E ε)} {P : Pool E ε σ}, P.Safe C →
      (∀ p, Started p → ∀ w, C.rely P.state w → p.wp C (fun _ _ => True) w) →
        (∀ m ∈ moves, StartsOnly Started m) → P.Meets C moves →
          (P.run C.toHandler moves).Safe C ∧ C.rely P.state (P.run C.toHandler moves).state
  | [], P, hsafe, _, _, _ => ⟨hsafe, hC.refl _⟩
  | m :: rest, P, hsafe, hspawn, hstart, hmeets => by
    obtain ⟨hscope, hrest⟩ := hmeets
    obtain ⟨hsafe', hrely⟩ := safe_step hC hsafe (hstart m List.mem_cons_self)
      (fun p hp => hspawn p hp _ (hC.refl _)) hscope
    obtain ⟨hsafe'', hrely'⟩ := safe_run hC hsafe'
      (fun p hp w hw => hspawn p hp w (hC.trans hrely hw))
      (fun m' hm' => hstart m' (List.mem_cons_of_mem _ hm')) hrest
    rw [run_cons]
    exact ⟨hsafe'', hC.trans hrely hrely'⟩

theorem run_append (H : Handler E σ) (P : Pool E ε σ) (moves rest : List (Move E ε)) :
    P.run H (moves ++ rest) = (P.run H moves).run H rest := List.foldl_append

theorem meets_append {C : Contract E σ} {P : Pool E ε σ} {moves rest : List (Move E ε)} :
    P.Meets C (moves ++ rest) ↔ P.Meets C moves ∧ (P.run C.toHandler moves).Meets C rest := by
  induction moves generalizing P with
  | nil => exact ⟨fun h => ⟨trivial, h⟩, fun h => h.2⟩
  | cons m moves ih =>
    rw [List.cons_append, Meets, Meets, ih, run_cons, and_assoc]

/-- Where every command is in scope, every run is. -/
theorem meets_of_cond {C : Contract E σ} (h : ∀ {β : Type} (c : E β) (w : σ), C.cond c w) :
    ∀ (moves : List (Move E ε)) (P : Pool E ε σ), P.Meets C moves
  | [], _ => trivial
  | m :: rest, P => by
    refine ⟨?_, meets_of_cond h rest _⟩
    cases m with
    | run i =>
      simp only [InScope]
      unfold NextInScope
      split
      · exact h _ _
      · trivial
    | crash i => trivial
    | spawn p => trivial

/-! ## Programs of commands of a kind -/

section Kind

variable {C : Contract E σ} {Started : Prog E ε Unit → Prop} {K : {β : Type} → E β → Prop}

/-- **The rule for commands of a kind**: when every command of the programs that may be started is of
a kind, and every command of the kind that is in scope does what the contract guarantees, then
between any two points of a run the state moves along the rely. -/
theorem rely_between (hC : C.Closed) (hkind : ∀ p, Started p → p.All K fun _ => True)
    (hstep : ∀ {β : Type} (c : E β) (v : σ), K c → C.cond c v → C.guar v (C.exec c v).2) {w : σ}
    {moves rest : List (Move E ε)} (hstart : ∀ m ∈ moves ++ rest, StartsOnly Started m)
    (hmeets : ({ state := w } : Pool E ε σ).Meets C (moves ++ rest)) :
    C.rely w (({ state := w } : Pool E ε σ).run C.toHandler moves).state ∧
      C.rely (({ state := w } : Pool E ε σ).run C.toHandler moves).state
        (({ state := w } : Pool E ε σ).run C.toHandler (moves ++ rest)).state ∧
      (({ state := w } : Pool E ε σ).run C.toHandler moves).Safe C := by
  -- a program all of whose commands keep the contract is safe from any state
  have hspawn : ∀ p, Started p → ∀ v, p.wp C (fun _ _ => True) v := fun p hp v =>
    Prog.wp_mono C (fun _ _ _ => trivial) ((hkind p hp).wp (I := fun _ => True)
      (fun _ _ => trivial) (fun c v hc _ hcond => ⟨hstep c v hc hcond, trivial⟩) trivial)
  obtain ⟨hmeets, hmeets'⟩ := meets_append.mp hmeets
  obtain ⟨hsafe, hrely⟩ := safe_run hC (P := { state := w }) (fun p hp => by simp at hp)
    (fun p hp v _ => hspawn p hp v) (fun m hm => hstart m (List.mem_append_left _ hm)) hmeets
  obtain ⟨-, hrely'⟩ := safe_run hC hsafe (fun p hp v _ => hspawn p hp v)
    (fun m hm => hstart m (List.mem_append_right _ hm)) hmeets'
  exact ⟨hrely, by rwa [run_append], hsafe⟩

/-- And each move guarantees what its command does, or leaves the state alone. -/
theorem guar_last (hC : C.Closed) (hkind : ∀ p, Started p → p.All K fun _ => True)
    (hstep : ∀ {β : Type} (c : E β) (v : σ), K c → C.cond c v → C.guar v (C.exec c v).2) {w : σ}
    {moves : List (Move E ε)} {m : Move E ε} (hstart : ∀ m' ∈ moves ++ [m], StartsOnly Started m')
    (hmeets : ({ state := w } : Pool E ε σ).Meets C (moves ++ [m])) :
    (({ state := w } : Pool E ε σ).run C.toHandler (moves ++ [m])).state =
        (({ state := w } : Pool E ε σ).run C.toHandler moves).state ∨
      C.guar (({ state := w } : Pool E ε σ).run C.toHandler moves).state
        (({ state := w } : Pool E ε σ).run C.toHandler (moves ++ [m])).state := by
  obtain ⟨-, -, hsafe⟩ := rely_between hC hkind hstep hstart hmeets
  obtain ⟨hscope, -⟩ := (meets_append.mp hmeets).2
  rw [run_append, run_cons, run_nil]
  generalize ({ state := w } : Pool E ε σ).run C.toHandler moves = P at hsafe hscope
  cases m with
  | crash i => exact .inl rfl
  | spawn p => exact .inl rfl
  | run i =>
    simp only [InScope] at hscope
    simp only [step]
    split
    · next c k hi =>
        rw [hi] at hscope
        exact .inr (hsafe _ (List.mem_of_getElem? hi) _ (hC.refl _) hscope).1
    · exact .inl rfl

end Kind

/-! ## Programs that keep a contract -/

end Pool

namespace Prog

variable {E : Type → Type 1} {ε σ α β : Type} {C : Contract E σ}

/-- A program that keeps a contract, whatever state it starts in. -/
def Keeps (C : Contract E σ) (p : Prog E ε α) : Prop := ∀ w, p.wp C (fun _ _ => True) w

theorem keeps_pure (a : α) : (pure a : Prog E ε α).Keeps C := fun _ => trivial

theorem keeps_throw (e : ε) : (throw e : Prog E ε α).Keeps C := fun _ => trivial

/-- A program whose commands all keep it. -/
theorem All.keeps {P : {β : Type} → E β → Prop} {R : Except ε α → Prop} {p : Prog E ε α}
    (h : p.All P R)
    (hstep : ∀ {β : Type} (c : E β) (v : σ), P c → C.cond c v → C.guar v (C.exec c v).2) :
    p.Keeps C := fun _ =>
  wp_mono C (fun _ _ _ => trivial) (h.wp (I := fun _ => True) (fun _ _ => trivial)
    (fun c v hc _ hcond => ⟨hstep c v hc hcond, trivial⟩) trivial)

/-- Two of them in a row, the second started with what the first promises to return. -/
theorem wp_bind_keeps {p : Prog E ε α} {f : α → Prog E ε β} {Q : α → Prop} {w : σ}
    (h : p.wp C (fun r _ => ∀ a, r = .ok a → Q a) w) (hf : ∀ a, Q a → (f a).Keeps C) :
    (p >>= f).wp C (fun _ _ => True) w := by
  rw [wp_bind]
  refine wp_mono C (fun r w' hr => ?_) h
  cases r with
  | ok a => exact hf a (hr a rfl) w'
  | error e => trivial

/-- Two of them in a row, each with what it promises to return. -/
theorem wp_bind_returns {p : Prog E ε α} {f : α → Prog E ε β} {P : α → Prop} {Q : β → Prop} {w : σ}
    (h : p.wp C (fun r _ => ∀ a, r = .ok a → P a) w)
    (hf : ∀ a, P a → ∀ v, (f a).wp C (fun r _ => ∀ b, r = .ok b → Q b) v) :
    (p >>= f).wp C (fun r _ => ∀ b, r = .ok b → Q b) w := by
  rw [wp_bind]
  refine wp_mono C (fun r v hr => ?_) h
  cases r with
  | ok a => exact hf a (hr a rfl) v
  | error e => exact fun _ herror => by cases herror

theorem Keeps.bind {p : Prog E ε α} {f : α → Prog E ε β} (h : p.Keeps C)
    (hf : ∀ a, (f a).Keeps C) : (p >>= f).Keeps C := fun w =>
  wp_bind_keeps (Q := fun _ => True) (wp_mono C (fun _ _ _ _ _ => trivial) (h w))
    fun a _ => hf a

theorem Keeps.attempt {p : Prog E ε α} (h : p.Keeps C) : p.attempt.Keeps C := fun w =>
  (wp_attempt C p).mpr (h w)

end Prog

namespace Pool

variable {E : Type → Type 1} {ε σ : Type}

/-- A run of programs that keep a contract moves along its rely. -/
theorem rely_of_keeps {C : Contract E σ} (hC : C.Closed) {Started : Prog E ε Unit → Prop}
    (hkeeps : ∀ p, Started p → p.Keeps C) {w : σ} {moves rest : List (Move E ε)}
    (hstart : ∀ m ∈ moves ++ rest, StartsOnly Started m)
    (hmeets : ({ state := w } : Pool E ε σ).Meets C (moves ++ rest)) :
    C.rely w (({ state := w } : Pool E ε σ).run C.toHandler moves).state ∧
      C.rely (({ state := w } : Pool E ε σ).run C.toHandler moves).state
        (({ state := w } : Pool E ε σ).run C.toHandler (moves ++ rest)).state := by
  obtain ⟨hmeets, hmeets'⟩ := meets_append.mp hmeets
  obtain ⟨hsafe, hrely⟩ := safe_run hC (P := { state := w }) (fun p hp => by simp at hp)
    (fun p hp v _ => hkeeps p hp v) (fun m hm => hstart m (List.mem_append_left _ hm)) hmeets
  obtain ⟨-, hrely'⟩ := safe_run hC hsafe (fun p hp v _ => hkeeps p hp v)
    (fun m hm => hstart m (List.mem_append_right _ hm)) hmeets'
  exact ⟨hrely, by rwa [run_append]⟩

/-- **The rule for an invariant**: where it puts every command in scope, and outlives what the others
do, programs that keep the contract keep it. -/
theorem inv_of_keeps {C : Contract E σ} (hC : C.Closed) {I : σ → Prop}
    (hrely : ∀ {u v : σ}, C.rely u v → I u → I v)
    (hcond : ∀ {β : Type} (c : E β) (w : σ), I w → C.cond c w)
    {Started : Prog E ε Unit → Prop} (hkeeps : ∀ p, Started p → p.Keeps C) :
    ∀ {moves : List (Move E ε)} {P : Pool E ε σ}, P.Safe C → I P.state →
      (∀ m ∈ moves, StartsOnly Started m) → I (P.run C.toHandler moves).state
  | [], _, _, hI, _ => hI
  | m :: rest, P, hsafe, hI, hstart => by
    -- the invariant is what the next command asks for
    have hscope : P.InScope C m := by
      cases m with
      | run i =>
        simp only [InScope]
        unfold NextInScope
        split
        · exact hcond _ _ hI
        · trivial
      | crash i => trivial
      | spawn p => trivial
    obtain ⟨hsafe', hmoved⟩ := safe_step hC hsafe (hstart m List.mem_cons_self)
      (fun p hp => hkeeps p hp _) hscope
    rw [run_cons]
    exact inv_of_keeps hC hrely hcond hkeeps hsafe' (hrely hmoved hI)
      fun m' hm' => hstart m' (List.mem_cons_of_mem _ hm')

end Pool
