import AegisMerchant.Base.Pool
import Mathlib.Data.List.InsertIdx

/-!
# Programs that look back

What a program's next command does may depend on what the state was when it issued the ones before:
it read something, and acts on it later. Here each program of a pool carries the states its own
commands were issued in, newest first, and a command is in scope by these and the state it finds.

The log is for the proof alone: `forget_run` says that the pool without it runs the same way. The
main result is `guar_last`, the rule for programs that keep a contract over their logs.
-/

/-- The handler that also logs the states its commands are issued in. -/
def Handler.logged {E : Type → Type 1} {σ : Type} (H : Handler E σ) : Handler E (σ × List σ) where
  exec c w := ((H.exec c w.1).1, (H.exec c w.1).2, w.1 :: w.2)

/-- The contract of a program among others that may do anything to the state, and nothing to the
program's log. -/
def Contract.logged {E : Type → Type 1} {σ : Type} (H : Handler E σ) (guar : σ → σ → Prop)
    (cond : {β : Type} → E β → σ → List σ → Prop) : Contract E (σ × List σ) where
  toHandler := H.logged
  rely u v := v.2 = u.2
  guar u v := guar u.1 v.1
  cond c w := cond c w.1 w.2

/-- The shared state and the programs still running, each with its log. -/
structure LoggedPool (E : Type → Type 1) (ε σ : Type) : Type 1 where
  state : σ
  procs : List (Prog E ε Unit × List σ) := []

namespace LoggedPool

variable {E : Type → Type 1} {ε σ : Type}

def step (H : Handler E σ) (P : LoggedPool E ε σ) : Move E ε → LoggedPool E ε σ
  | .run i =>
    match P.procs[i]? with
    | some (.step c k, past) =>
      { state := (H.exec c P.state).2
        procs := P.procs.set i (k (H.exec c P.state).1, P.state :: past) }
    | _ => P
  | .crash i => { P with procs := P.procs.eraseIdx i }
  | .spawn p => { P with procs := P.procs ++ [(p, [])] }

def run (H : Handler E σ) (P : LoggedPool E ε σ) (moves : List (Move E ε)) : LoggedPool E ε σ :=
  moves.foldl (step H) P

@[simp] theorem run_nil (H : Handler E σ) (P : LoggedPool E ε σ) : P.run H [] = P := rfl

@[simp] theorem run_cons (H : Handler E σ) (P : LoggedPool E ε σ) (m : Move E ε)
    (rest : List (Move E ε)) : P.run H (m :: rest) = (P.step H m).run H rest := rfl

/-! ## The pool without the logs -/

/-- The pool, its logs dropped. -/
def forget (P : LoggedPool E ε σ) : Pool E ε σ := { state := P.state, procs := P.procs.map (·.1) }

theorem forget_step (H : Handler E σ) (P : LoggedPool E ε σ) (m : Move E ε) :
    (P.step H m).forget = P.forget.step H m := by
  cases m with
  | run i =>
    simp only [step, Pool.step, forget, List.getElem?_map]
    rcases P.procs[i]? with _ | ⟨_ | _ | ⟨c, k⟩, past⟩
    · rfl
    · rfl
    · rfl
    · simp only [Option.map_some, List.map_set]
  | crash i => simp only [step, Pool.step, forget, List.eraseIdx_map]
  | spawn p => simp only [step, Pool.step, forget, List.map_append, List.map_cons, List.map_nil]

/-- **The logs change nothing**: without them, the same moves lead to the same pool. -/
theorem forget_run (H : Handler E σ) (moves : List (Move E ε)) (P : LoggedPool E ε σ) :
    (P.run H moves).forget = P.forget.run H moves := by
  induction moves generalizing P with
  | nil => rfl
  | cons m rest ih => rw [run_cons, Pool.run_cons, ih, forget_step]

theorem run_state (H : Handler E σ) (w : σ) (moves : List (Move E ε)) :
    (({ state := w } : LoggedPool E ε σ).run H moves).state =
      (({ state := w } : Pool E ε σ).run H moves).state :=
  congrArg Pool.state (forget_run H moves { state := w })

theorem run_append (H : Handler E σ) (P : LoggedPool E ε σ) (moves rest : List (Move E ε)) :
    P.run H (moves ++ rest) = (P.run H moves).run H rest := List.foldl_append

/-! ## Runs in scope -/

section Scope

variable (cond : {β : Type} → E β → σ → List σ → Prop)

/-- The command a program issues next, if any, is in scope. -/
def NextInScope (w : σ) : Option (Prog E ε Unit × List σ) → Prop
  | some (.step c _, past) => cond c w past
  | _ => True

/-- The command a move issues, if any, is in scope. -/
def InScope (P : LoggedPool E ε σ) : Move E ε → Prop
  | .run i => NextInScope cond P.state P.procs[i]?
  | _ => True

/-- Every command a run issues is in scope where it is issued. -/
def Meets (H : Handler E σ) : LoggedPool E ε σ → List (Move E ε) → Prop
  | _, [] => True
  | P, m :: rest => P.InScope cond m ∧ Meets H (P.step H m) rest

variable [∀ {β : Type} (c : E β) (w : σ) (past : List σ), Decidable (cond c w past)]

instance (w : σ) : (next : Option (Prog E ε Unit × List σ)) → Decidable (NextInScope cond w next)
  | some (.step c _, past) => inferInstanceAs (Decidable (cond c w past))
  | none | some (.ret _, _) | some (.raise _, _) => inferInstanceAs (Decidable True)

instance (P : LoggedPool E ε σ) : (m : Move E ε) → Decidable (P.InScope cond m)
  | .run i => inferInstanceAs (Decidable (NextInScope cond P.state P.procs[i]?))
  | .crash _ | .spawn _ => inferInstanceAs (Decidable True)

/-- Whether a run stays in scope can be run. -/
instance decidableMeets (H : Handler E σ) : (P : LoggedPool E ε σ) → (moves : List (Move E ε)) →
    Decidable (P.Meets cond H moves)
  | _, [] => inferInstanceAs (Decidable True)
  | P, m :: rest =>
    have := decidableMeets H (P.step H m) rest
    inferInstanceAs (Decidable (P.InScope cond m ∧ (P.step H m).Meets cond H rest))

end Scope

theorem meets_append {cond : {β : Type} → E β → σ → List σ → Prop} {H : Handler E σ}
    {P : LoggedPool E ε σ} {moves rest : List (Move E ε)} :
    P.Meets cond H (moves ++ rest) ↔
      P.Meets cond H moves ∧ (P.run H moves).Meets cond H rest := by
  induction moves generalizing P with
  | nil => exact ⟨fun h => ⟨trivial, h⟩, fun h => h.2⟩
  | cons m moves ih => rw [List.cons_append, Meets, Meets, ih, run_cons, and_assoc]

/-! ## The rule -/

section Rule

variable {H : Handler E σ} {guar : σ → σ → Prop}
  {cond : {β : Type} → E β → σ → List σ → Prop} {Started : Prog E ε Unit → Prop}

/-- A program that keeps the contract from its start, whatever state it starts in. -/
def Keeps (H : Handler E σ) (guar : σ → σ → Prop)
    (cond : {β : Type} → E β → σ → List σ → Prop) (p : Prog E ε Unit) : Prop :=
  ∀ w, p.wp (.logged H guar cond) (fun _ _ => True) (w, [])

/-- Every program of the pool keeps the contract from here on, with the log it has. -/
def Safe (H : Handler E σ) (guar : σ → σ → Prop)
    (cond : {β : Type} → E β → σ → List σ → Prop) (P : LoggedPool E ε σ) : Prop :=
  ∀ p ∈ P.procs, p.1.wp (.logged H guar cond) (fun _ _ => True) (P.state, p.2)

/-- Only its log ties a program to the state. -/
theorem wp_of_past {p : Prog E ε Unit} {past : List σ} {w : σ} (v : σ)
    (h : p.wp (.logged H guar cond) (fun _ _ => True) (w, past)) :
    p.wp (.logged H guar cond) (fun _ _ => True) (v, past) := by
  have hrely : (Contract.logged H guar cond).rely (w, past) (v, past) := rfl
  exact Prog.wp_rely _ (fun huv hvx => Eq.trans hvx huv) (fun _ _ _ _ _ => trivial) hrely h

/-- **Step.** A move in scope keeps the pool safe, and leaves the state alone or does what the
contract guarantees. -/
theorem safe_step {P : LoggedPool E ε σ} {m : Move E ε} (hsafe : P.Safe H guar cond)
    (hkeeps : ∀ p, Started p → Keeps H guar cond p) (hstart : Pool.StartsOnly Started m)
    (hscope : P.InScope cond m) :
    (P.step H m).Safe H guar cond ∧
      ((P.step H m).state = P.state ∨ guar P.state (P.step H m).state) := by
  cases m with
  | crash i => exact ⟨fun p hp => hsafe p (List.mem_of_mem_eraseIdx hp), .inl rfl⟩
  | spawn p =>
    -- a program starts with an empty log, in whatever state there is
    refine ⟨fun q hq => ?_, .inl rfl⟩
    rcases List.mem_append.mp hq with hq | hq
    · exact hsafe q hq
    · obtain rfl := List.mem_singleton.mp hq
      exact hkeeps p hstart P.state
  | run i =>
    simp only [InScope] at hscope
    simp only [step]
    split
    · next c k past hi =>
        rw [hi] at hscope
        -- the program's own contract, in the state the others have left
        obtain ⟨hguar, hk⟩ := hsafe _ (List.mem_of_getElem? hi) (P.state, past) rfl hscope
        refine ⟨fun q hq => ?_, .inr hguar⟩
        rcases List.mem_or_eq_of_mem_set hq with hq | rfl
        · -- another program: its log is as it was
          exact wp_of_past _ (hsafe q hq)
        · exact hk
    · exact ⟨hsafe, .inl rfl⟩

/-- **Run.** A run in scope that starts only programs keeping the contract keeps the pool safe. -/
theorem safe_run (hkeeps : ∀ p, Started p → Keeps H guar cond p) :
    ∀ {moves : List (Move E ε)} {P : LoggedPool E ε σ}, P.Safe H guar cond →
      (∀ m ∈ moves, Pool.StartsOnly Started m) → P.Meets cond H moves →
        (P.run H moves).Safe H guar cond
  | [], _, hsafe, _, _ => hsafe
  | m :: rest, P, hsafe, hstart, hmeets => by
    obtain ⟨hscope, hrest⟩ := hmeets
    obtain ⟨hsafe', -⟩ := safe_step hsafe hkeeps (hstart m List.mem_cons_self) hscope
    rw [run_cons]
    exact safe_run hkeeps hsafe' (fun m' hm' => hstart m' (List.mem_cons_of_mem _ hm')) hrest

/-- **The rule**: in a run in scope of programs that keep the contract over their logs, each move
leaves the state alone or does what the contract guarantees. -/
theorem guar_last (hkeeps : ∀ p, Started p → Keeps H guar cond p) {w : σ}
    {moves : List (Move E ε)} {m : Move E ε}
    (hstart : ∀ m' ∈ moves ++ [m], Pool.StartsOnly Started m')
    (hmeets : ({ state := w } : LoggedPool E ε σ).Meets cond H (moves ++ [m])) :
    (({ state := w } : Pool E ε σ).run H (moves ++ [m])).state =
        (({ state := w } : Pool E ε σ).run H moves).state ∨
      guar (({ state := w } : Pool E ε σ).run H moves).state
        (({ state := w } : Pool E ε σ).run H (moves ++ [m])).state := by
  obtain ⟨hmeets, hscope, -⟩ := meets_append.mp hmeets
  have hsafe := safe_run (P := { state := w }) hkeeps (fun p hp => by simp at hp)
    (fun m' hm' => hstart m' (List.mem_append_left _ hm')) hmeets
  obtain ⟨-, hlast⟩ := safe_step hsafe hkeeps
    (hstart m (List.mem_append_right _ List.mem_cons_self)) hscope
  rwa [← run_state H w (moves ++ [m]), ← run_state H w moves, run_append]

end Rule

end LoggedPool
