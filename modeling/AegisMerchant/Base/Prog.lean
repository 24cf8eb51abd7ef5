import Mathlib.Logic.Basic

/-!
# Programs as trees of commands

A program of an exception-raising, effectful language is a tree: it returns, it raises, or it issues
one command and goes on with the answer. `Prog.run` executes a tree against a handler without
interference. `wp` is the weakest precondition under a rely–guarantee contract: before each command
the state may have moved along `rely`, the command must satisfy `guar`, and a command that does not
meet `cond` is out of scope. Nothing here mentions a particular program.

Laws about every command are `All`, laws along one run `Along`, and weakest preconditions `wp`; each
has its rule for every constructor.
-/

/-- A program over the commands `E` that returns an `α` or raises an `ε`. -/
inductive Prog (E : Type → Type 1) (ε α : Type) : Type 1 where
  | ret (a : α)
  | raise (e : ε)
  | step {β : Type} (c : E β) (k : β → Prog E ε α)

/-- What each command answers, and the state it leaves. -/
structure Handler (E : Type → Type 1) (σ : Type) : Type 1 where
  exec : {β : Type} → E β → σ → β × σ

/-- A handler together with what a program may assume and must keep. -/
structure Contract (E : Type → Type 1) (σ : Type) : Type 1 extends Handler E σ where
  /-- What may have happened to the state between two commands of the program. -/
  rely : σ → σ → Prop
  /-- What every command of the program does to the state. -/
  guar : σ → σ → Prop
  /-- The commands in scope, by the state they are issued in. -/
  cond : {β : Type} → E β → σ → Prop

namespace Prog

variable {E : Type → Type 1} {ε α β σ : Type}

/-! ## Composition -/

/-- Run `p`, then `f` on what it returns. -/
def bind : Prog E ε α → (α → Prog E ε β) → Prog E ε β
  | ret a, f => f a
  | raise e, _ => raise e
  | step c k, f => step c fun b => (k b).bind f

/-- Run `p`, and `h` on what it raises. -/
def tryCatch : Prog E ε α → (ε → Prog E ε α) → Prog E ε α
  | ret a, _ => ret a
  | raise e, h => h e
  | step c k, h => step c fun b => (k b).tryCatch h

/-- Run `p`, and return what it returns or raises. -/
def attempt : Prog E ε α → Prog E ε (Except ε α)
  | ret a => ret (.ok a)
  | raise e => ret (.error e)
  | step c k => step c fun b => (k b).attempt

def lift (c : E β) : Prog E ε β := step c ret

instance : Monad (Prog E ε) where
  pure := ret
  bind := bind

instance : MonadExceptOf ε (Prog E ε) where
  throw := raise
  tryCatch := tryCatch

/-! ## Execution -/

/-- Execute a program with nothing else running. -/
def run (H : Handler E σ) : Prog E ε α → σ → Except ε α × σ
  | ret a, w => (.ok a, w)
  | raise e, w => (.error e, w)
  | step c k, w => (k (H.exec c w).1).run H (H.exec c w).2

@[simp] theorem run_pure (H : Handler E σ) (a : α) (w : σ) :
    (pure a : Prog E ε α).run H w = (.ok a, w) := rfl

@[simp] theorem run_throw (H : Handler E σ) (e : ε) (w : σ) :
    (throw e : Prog E ε α).run H w = (.error e, w) := rfl

@[simp] theorem run_lift (H : Handler E σ) (c : E α) (w : σ) :
    (lift c : Prog E ε α).run H w = (.ok (H.exec c w).1, (H.exec c w).2) := rfl

/-- The rest of a run after its first part. -/
theorem run_bind (H : Handler E σ) (p : Prog E ε α) (f : α → Prog E ε β) (w : σ) :
    (p >>= f).run H w =
      match p.run H w with
      | (.ok a, w') => (f a).run H w'
      | (.error e, w') => (.error e, w') := by
  induction p generalizing w with
  | ret a => rfl
  | raise e => rfl
  | step c k ih => exact ih (H.exec c w).1 (H.exec c w).2

/-- What every command keeps, a run keeps. -/
theorem run_keeps {H : Handler E σ} {I : σ → Prop}
    (h : ∀ {β : Type} (c : E β) (v : σ), I v → I (H.exec c v).2) (p : Prog E ε α) {w : σ}
    (hw : I w) : I (p.run H w).2 := by
  induction p generalizing w with
  | ret a => exact hw
  | raise e => exact hw
  | step c k ih => exact ih _ (h c w hw)

/-- A run in two parts, the first of which returns. -/
theorem run_bind_ok {H : Handler E σ} {p : Prog E ε α} {f : α → Prog E ε β} {a : α} {v w : σ}
    (h : p.run H w = (.ok a, v)) : (p >>= f).run H w = (f a).run H v := by
  rw [run_bind, h]

/-- A run in two parts, the first of which raises. -/
theorem run_bind_error {H : Handler E σ} {p : Prog E ε α} {f : α → Prog E ε β} {e : ε} {v w : σ}
    (h : p.run H w = (.error e, v)) : (p >>= f).run H w = (.error e, v) := by
  rw [run_bind, h]

/-- A run in two parts that returns: both parts do. -/
theorem run_bind_eq_ok {H : Handler E σ} {p : Prog E ε α} {f : α → Prog E ε β} {b : β} {v w : σ}
    (h : (p >>= f).run H w = (.ok b, v)) :
    ∃ a u, p.run H w = (.ok a, u) ∧ (f a).run H u = (.ok b, v) := by
  rw [run_bind] at h
  rcases hp : p.run H w with ⟨e | a, u⟩
  · simp [hp] at h
  · exact ⟨a, u, rfl, by simpa [hp] using h⟩

/-- A run in two parts that raises: one of them does. -/
theorem run_bind_error_iff {H : Handler E σ} {p : Prog E ε α} {f : α → Prog E ε β} {w : σ} :
    (∃ e, ((p >>= f).run H w).1 = .error e) ↔ (∃ e, (p.run H w).1 = .error e) ∨
      ∃ a v, p.run H w = (.ok a, v) ∧ ∃ e, ((f a).run H v).1 = .error e := by
  rw [run_bind]
  rcases hp : p.run H w with ⟨e | a, u⟩
  · simp
  · constructor
    · exact fun h => .inr ⟨a, u, rfl, h⟩
    · rintro (⟨_, ⟨⟩⟩ | ⟨_, _, ⟨⟩, h⟩)
      exact h

/-- A run whose exceptions are caught. -/
theorem run_attempt (H : Handler E σ) (p : Prog E ε α) (w : σ) :
    p.attempt.run H w = (.ok (p.run H w).1, (p.run H w).2) := by
  induction p generalizing w with
  | ret a => rfl
  | raise e => rfl
  | step c k ih => exact ih (H.exec c w).1 (H.exec c w).2

/-- `try: return p()` with every exception returned. -/
theorem tryCatch_eq_attempt (p : Prog E ε α) :
    (tryCatchThe ε (do return .ok (← p)) fun e => pure (.error e) : Prog E ε (Except ε α)) =
      p.attempt := by
  induction p with
  | ret a => rfl
  | raise e => rfl
  | step c k ih => exact congrArg (step c) (funext ih)

/-! ## Commands of another kind -/

section MapCmd

variable {F : Type → Type 1} {τ : Type}

/-- A program whose commands are handed over as those of another kind. -/
def mapCmd (f : {β : Type} → E β → F β) : Prog E ε α → Prog F ε α
  | ret a => ret a
  | raise e => raise e
  | step c k => step (f c) fun b => (k b).mapCmd f

/-- Where the new commands do to a part of the state what the old ones do, so do the programs; and
what the new ones keep, they keep. -/
theorem run_mapCmd {H : Handler E σ} {K : Handler F τ} {f : {β : Type} → E β → F β} {get : τ → σ}
    {I : τ → Prop}
    (h : ∀ {β : Type} (c : E β) (t : τ), (K.exec (f c) t).1 = (H.exec c (get t)).1 ∧
      get (K.exec (f c) t).2 = (H.exec c (get t)).2 ∧ (I t → I (K.exec (f c) t).2))
    (p : Prog E ε α) (t : τ) :
    ((p.mapCmd f).run K t).1 = (p.run H (get t)).1 ∧
      get ((p.mapCmd f).run K t).2 = (p.run H (get t)).2 ∧ (I t → I ((p.mapCmd f).run K t).2) := by
  induction p generalizing t with
  | ret a => exact ⟨rfl, rfl, id⟩
  | raise e => exact ⟨rfl, rfl, id⟩
  | step c k ih =>
    obtain ⟨hanswer, hstate, hkeeps⟩ := h c t
    -- the rest goes on from the answer and the state both handlers give
    obtain ⟨ihanswer, ihstate, ihkeeps⟩ := ih (H.exec c (get t)).1 (K.exec (f c) t).2
    simp only [mapCmd, run, hanswer]
    rw [hstate] at ihanswer ihstate
    exact ⟨ihanswer, ihstate, fun ht => ihkeeps (hkeeps ht)⟩

end MapCmd

/-! ## Weakest preconditions -/

/-- **The weakest precondition of a program under a contract.** -/
def wp (C : Contract E σ) : Prog E ε α → (Except ε α → σ → Prop) → σ → Prop
  | ret a, Q, w => Q (.ok a) w
  | raise e, Q, w => Q (.error e) w
  | step c k, Q, w => ∀ w', C.rely w w' → C.cond c w' →
      C.guar w' (C.exec c w').2 ∧ (k (C.exec c w').1).wp C Q (C.exec c w').2

section Rules

variable (C : Contract E σ) {Q Q' : Except ε α → σ → Prop} {w : σ}

@[simp] theorem wp_pure (a : α) : (pure a : Prog E ε α).wp C Q w ↔ Q (.ok a) w := Iff.rfl

@[simp] theorem wp_throw (e : ε) : (throw e : Prog E ε α).wp C Q w ↔ Q (.error e) w := Iff.rfl

@[simp] theorem wp_lift (c : E α) :
    (lift c : Prog E ε α).wp C Q w ↔ ∀ w', C.rely w w' → C.cond c w' →
      C.guar w' (C.exec c w').2 ∧ Q (.ok (C.exec c w').1) (C.exec c w').2 := Iff.rfl

/-- Sequencing: the second part starts where the first returns. -/
theorem wp_bind {Q : Except ε β → σ → Prop} (p : Prog E ε α) (f : α → Prog E ε β) :
    (p >>= f).wp C Q w ↔
      p.wp C (fun r w' =>
        match r with
        | .ok a => (f a).wp C Q w'
        | .error e => Q (.error e) w') w := by
  induction p generalizing w with
  | ret a => rfl
  | raise e => rfl
  | step c k ih =>
    refine forall_congr' fun w' => imp_congr_right fun _ => imp_congr_right fun _ => ?_
    exact and_congr_right fun _ => ih _

/-- Handling: the handler starts where the program raises. -/
theorem wp_tryCatch (p : Prog E ε α) (h : ε → Prog E ε α) :
    (tryCatchThe ε p h).wp C Q w ↔
      p.wp C (fun r w' =>
        match r with
        | .ok a => Q (.ok a) w'
        | .error e => (h e).wp C Q w') w := by
  induction p generalizing w with
  | ret a => rfl
  | raise e => rfl
  | step c k ih =>
    refine forall_congr' fun w' => imp_congr_right fun _ => imp_congr_right fun _ => ?_
    exact and_congr_right fun _ => ih _

/-- Catching everything: what was raised is returned instead. -/
theorem wp_attempt {Q : Except ε (Except ε α) → σ → Prop} (p : Prog E ε α) :
    p.attempt.wp C Q w ↔ p.wp C (fun r w' => Q (.ok r) w') w := by
  induction p generalizing w with
  | ret a => rfl
  | raise e => rfl
  | step c k ih =>
    refine forall_congr' fun w' => imp_congr_right fun _ => imp_congr_right fun _ => ?_
    exact and_congr_right fun _ => ih _

theorem wp_mono {p : Prog E ε α} (hQ : ∀ r w', Q r w' → Q' r w') (h : p.wp C Q w) :
    p.wp C Q' w := by
  induction p generalizing w with
  | ret a => exact hQ _ _ h
  | raise e => exact hQ _ _ h
  | step c k ih =>
    intro w' hrely hcond
    obtain ⟨hguar, hk⟩ := h w' hrely hcond
    exact ⟨hguar, ih _ hk⟩

/-- A precondition outlives what the others do, if the postcondition does. -/
theorem wp_rely {p : Prog E ε α} (htrans : ∀ {u v x}, C.rely u v → C.rely v x → C.rely u x)
    (hQ : ∀ r u v, C.rely u v → Q r u → Q r v) {w' : σ} (hw : C.rely w w') (h : p.wp C Q w) :
    p.wp C Q w' := by
  cases p with
  | ret a => exact hQ _ _ _ hw h
  | raise e => exact hQ _ _ _ hw h
  | step c k => exact fun v hv hcond => h v (htrans hw hv) hcond

end Rules

section Comap

variable {F : Type → Type 1} {τ : Type} {f : {β : Type} → E β → F β}

/-- The contract of the commands that are mapped to those of a contract. -/
def comap (C : Contract F τ) (f : {β : Type} → E β → F β) : Contract E τ where
  exec c := C.exec (f c)
  rely := C.rely
  guar := C.guar
  cond c := C.cond (f c)

/-- A mapped program meets a contract as the program meets the mapped one. -/
theorem wp_mapCmd {C : Contract F τ} {Q : Except ε α → τ → Prop} {w : τ} (p : Prog E ε α) :
    (p.mapCmd f).wp C Q w ↔ p.wp (comap C f) Q w := by
  induction p generalizing w with
  | ret a => rfl
  | raise e => rfl
  | step c k ih =>
    refine forall_congr' fun w' => imp_congr_right fun _ => imp_congr_right fun _ => ?_
    exact and_congr_right fun _ => ih _

end Comap

/-! ## Along every path -/

/-- **Every command satisfies `P` and every outcome `R`, whatever the answers are.** -/
def All (P : {β : Type} → E β → Prop) (R : Except ε α → Prop) : Prog E ε α → Prop
  | ret a => R (.ok a)
  | raise e => R (.error e)
  | step c k => P c ∧ ∀ b, (k b).All P R

section Paths

variable {P P' : {β : Type} → E β → Prop} {R R' : Except ε α → Prop}

@[simp] theorem all_pure (a : α) : (pure a : Prog E ε α).All P R ↔ R (.ok a) := Iff.rfl

@[simp] theorem all_throw (e : ε) : (throw e : Prog E ε α).All P R ↔ R (.error e) := Iff.rfl

@[simp] theorem all_lift (c : E α) :
    (lift c : Prog E ε α).All P R ↔ P c ∧ ∀ b, R (.ok b) := Iff.rfl

@[simp] theorem all_bind {R : Except ε β → Prop} (p : Prog E ε α) (f : α → Prog E ε β) :
    (p >>= f).All P R ↔
      p.All P fun r =>
        match r with
        | .ok a => (f a).All P R
        | .error e => R (.error e) := by
  induction p with
  | ret a => rfl
  | raise e => rfl
  | step c k ih => exact and_congr_right fun _ => forall_congr' fun b => ih b

@[simp] theorem all_attempt {R : Except ε (Except ε α) → Prop} (p : Prog E ε α) :
    p.attempt.All P R ↔ p.All P fun r => R (.ok r) := by
  induction p with
  | ret a => rfl
  | raise e => rfl
  | step c k ih => exact and_congr_right fun _ => forall_congr' fun b => ih b

theorem All.mono {p : Prog E ε α} (h : p.All P R) (hP : ∀ {β : Type} (c : E β), P c → P' c)
    (hR : ∀ r, R r → R' r) : p.All P' R' := by
  induction p with
  | ret a => exact hR _ h
  | raise e => exact hR _ h
  | step c k ih => exact ⟨hP c h.1, fun b => ih b (h.2 b)⟩

theorem All.and {p : Prog E ε α} (h : p.All P R) (h' : p.All P' R') :
    p.All (fun c => P c ∧ P' c) fun r => R r ∧ R' r := by
  induction p with
  | ret a => exact ⟨h, h'⟩
  | raise e => exact ⟨h, h'⟩
  | step c k ih => exact ⟨⟨h.1, h'.1⟩, fun b => ih b (h.2 b) (h'.2 b)⟩

theorem All.bind {p : Prog E ε α} {f : α → Prog E ε β} {S : Except ε β → Prop} (h : p.All P R)
    (hok : ∀ a, R (.ok a) → (f a).All P S) (herror : ∀ e, R (.error e) → S (.error e)) :
    (p >>= f).All P S := by
  refine (all_bind p f).mpr (h.mono (fun _ hc => hc) fun r hr => ?_)
  cases r with
  | ok a => exact hok a hr
  | error e => exact herror e hr

theorem all_mapCmd {F : Type → Type 1} {f : {β : Type} → E β → F β} {P : {β : Type} → F β → Prop}
    (p : Prog E ε α) : (p.mapCmd f).All P R ↔ p.All (fun c => P (f c)) R := by
  induction p with
  | ret a => rfl
  | raise e => rfl
  | step c k ih => exact and_congr_right fun _ => forall_congr' fun b => ih b

/-- Nothing is asked of a program. -/
theorem all_true (p : Prog E ε α) : p.All (fun _ => True) fun _ => True := by
  induction p with
  | ret a => trivial
  | raise e => trivial
  | step c k ih => exact ⟨trivial, ih⟩

def IfReturned (Q : α → Prop) : Except ε α → Prop
  | .ok a => Q a
  | .error _ => True

theorem all_returned (p : Prog E ε α) :
    p.All (fun _ => True) (IfReturned fun _ => True) :=
  (all_true p).mono (fun _ hc => hc) fun r _ => by cases r <;> trivial

/-- What the first program returns is handed on. -/
theorem All.next {p : Prog E ε α} {f : α → Prog E ε β} {S : α → Prop} {Q : β → Prop}
    (h : p.All (fun _ => True) (IfReturned S))
    (hnext : ∀ a, S a → (f a).All (fun _ => True) (IfReturned Q)) :
    (p >>= f).All (fun _ => True) (IfReturned Q) :=
  h.bind hnext fun _ _ => trivial

/-- Two programs in a row, when only the commands matter. -/
theorem All.seq {p : Prog E ε α} {f : α → Prog E ε β} (h : p.All P fun _ => True)
    (hf : ∀ a, (f a).All P fun _ => True) : (p >>= f).All P fun _ => True :=
  h.bind (fun a _ => hf a) fun _ h => h

/-- A program whose commands all keep the contract, and a fact the others keep, keeps that fact to
its end. -/
theorem All.wp {C : Contract E σ} {I : σ → Prop} {p : Prog E ε α} (h : p.All P R)
    (hrely : ∀ {u v}, C.rely u v → I u → I v)
    (hstep : ∀ {β : Type} (c : E β) (v : σ), P c → I v → C.cond c v →
      C.guar v (C.exec c v).2 ∧ I (C.exec c v).2) {w : σ} (hw : I w) :
    p.wp C (fun r w' => R r ∧ I w') w := by
  induction p generalizing w with
  | ret a => exact ⟨h, hw⟩
  | raise e => exact ⟨h, hw⟩
  | step c k ih =>
    intro v hv hcond
    obtain ⟨hguar, hI⟩ := hstep c v h.1 (hrely hv hw) hcond
    exact ⟨hguar, ih _ (h.2 _) hI⟩

/-- Such a program, then the rest from any state that has the fact. -/
theorem All.wp_bind {C : Contract E σ} {I : σ → Prop} {p : Prog E ε α} {f : α → Prog E ε β}
    {Q : Except ε β → σ → Prop} (h : p.All P R) (hrely : ∀ {u v}, C.rely u v → I u → I v)
    (hstep : ∀ {β : Type} (c : E β) (v : σ), P c → I v → C.cond c v →
      C.guar v (C.exec c v).2 ∧ I (C.exec c v).2) {w : σ} (hw : I w)
    (hok : ∀ a w', R (.ok a) → I w' → (f a).wp C Q w')
    (herror : ∀ e w', R (.error e) → I w' → Q (.error e) w') : (p >>= f).wp C Q w := by
  rw [Prog.wp_bind]
  refine wp_mono C (fun r w' hr => ?_) (h.wp hrely hstep hw)
  cases r with
  | ok a => exact hok a w' hr.1 hr.2
  | error e => exact herror e w' hr.1 hr.2

end Paths

/-! ## Along one run -/

/-- **Every command the run of a program issues satisfies `φ` where it is issued.** -/
def Along (H : Handler E σ) (φ : {β : Type} → E β → σ → Prop) : Prog E ε α → σ → Prop
  | ret _, _ => True
  | raise _, _ => True
  | step c k, w => φ c w ∧ (k (H.exec c w).1).Along H φ (H.exec c w).2

section Along

variable (H : Handler E σ) {φ ψ : {β : Type} → E β → σ → Prop} {w : σ}

/-- Whether a run stays within a decidable predicate can be run. -/
instance decidableAlong [∀ {β : Type} (c : E β) (w : σ), Decidable (φ c w)] :
    (p : Prog E ε α) → (w : σ) → Decidable (p.Along H φ w)
  | ret _, _ => inferInstanceAs (Decidable True)
  | raise _, _ => inferInstanceAs (Decidable True)
  | step c k, w =>
    have := decidableAlong (k (H.exec c w).1) (H.exec c w).2
    inferInstanceAs (Decidable (φ c w ∧ (k (H.exec c w).1).Along H φ (H.exec c w).2))

@[simp] theorem along_pure (a : α) : (pure a : Prog E ε α).Along H φ w := trivial

@[simp] theorem along_throw (e : ε) : (throw e : Prog E ε α).Along H φ w := trivial

@[simp] theorem along_lift (c : E α) : (lift c : Prog E ε α).Along H φ w ↔ φ c w :=
  and_iff_left trivial

/-- Sequencing: the second part runs from where the first returns, if it does. -/
theorem along_bind (p : Prog E ε α) (f : α → Prog E ε β) :
    (p >>= f).Along H φ w ↔
      p.Along H φ w ∧
        match p.run H w with
        | (.ok a, w') => (f a).Along H φ w'
        | (.error _, _) => True := by
  induction p generalizing w with
  | ret a => exact (and_iff_right trivial).symm
  | raise e => exact (and_iff_right trivial).symm
  | step c k ih => exact (and_congr_right fun _ => ih _).trans and_assoc.symm

theorem along_attempt (p : Prog E ε α) : p.attempt.Along H φ w ↔ p.Along H φ w := by
  induction p generalizing w with
  | ret a => rfl
  | raise e => rfl
  | step c k ih => exact and_congr_right fun _ => ih _

/-- Handling: the handler runs from where the program raises, if it does. -/
theorem along_tryCatch (p : Prog E ε α) (h : ε → Prog E ε α) :
    (tryCatchThe ε p h).Along H φ w ↔
      p.Along H φ w ∧
        match p.run H w with
        | (.ok _, _) => True
        | (.error e, w') => (h e).Along H φ w' := by
  induction p generalizing w with
  | ret a => exact (and_iff_right trivial).symm
  | raise e => exact (and_iff_right trivial).symm
  | step c k ih => exact (and_congr_right fun _ => ih _).trans and_assoc.symm

/-- A run whose exceptions are handled. -/
theorem run_tryCatch (p : Prog E ε α) (h : ε → Prog E ε α) :
    (tryCatchThe ε p h).run H w =
      match p.run H w with
      | (.ok a, w') => (.ok a, w')
      | (.error e, w') => (h e).run H w' := by
  induction p generalizing w with
  | ret a => rfl
  | raise e => rfl
  | step c k ih => exact ih _

variable {H}

theorem Along.of_bind {p : Prog E ε α} {f : α → Prog E ε β} (h : (p >>= f).Along H φ w) :
    p.Along H φ w := by
  rw [along_bind] at h
  exact h.1

/-- The second part of a sequence whose first returns. -/
theorem Along.bind_ok {p : Prog E ε α} {f : α → Prog E ε β} {a : α} {v : σ}
    (h : (p >>= f).Along H φ w) (hrun : p.run H w = (.ok a, v)) : (f a).Along H φ v := by
  rw [along_bind, hrun] at h
  exact h.2

theorem Along.mono {p : Prog E ε α} (h : p.Along H φ w)
    (hφ : ∀ {β : Type} (c : E β) (v : σ), φ c v → ψ c v) : p.Along H ψ w := by
  induction p generalizing w with
  | ret a => trivial
  | raise e => trivial
  | step c k ih => exact ⟨hφ c w h.1, ih _ h.2⟩

theorem Along.and {p : Prog E ε α} (h : p.Along H φ w) (h' : p.Along H ψ w) :
    p.Along H (fun c v => φ c v ∧ ψ c v) w := by
  induction p generalizing w with
  | ret a => trivial
  | raise e => trivial
  | step c k ih => exact ⟨⟨h.1, h'.1⟩, ih _ h.2 h'.2⟩

/-- What holds on every path holds along each run. -/
theorem All.along {P : {β : Type} → E β → Prop} {R : Except ε α → Prop} {p : Prog E ε α}
    (h : p.All P R) (hφ : ∀ {β : Type} (c : E β) (v : σ), P c → φ c v) (w : σ) :
    p.Along H φ w := by
  induction p generalizing w with
  | ret a => trivial
  | raise e => trivial
  | step c k ih => exact ⟨hφ c w h.1, ih _ (h.2 _) _⟩

/-- A fact that the commands of a run keep holds all along it. -/
theorem Along.with_inv {I : σ → Prop} {p : Prog E ε α} (h : p.Along H φ w)
    (hkeeps : ∀ {β : Type} (c : E β) (v : σ), φ c v → I v → I (H.exec c v).2) (hw : I w) :
    p.Along H (fun c v => φ c v ∧ I v) w := by
  induction p generalizing w with
  | ret a => trivial
  | raise e => trivial
  | step c k ih => exact ⟨⟨h.1, hw⟩, ih _ h.2 (hkeeps c w h.1 hw)⟩

/-- What holds on every path where a fact does holds along each run that starts with the fact, if
every command keeps it. -/
theorem All.along_of_inv {P : {β : Type} → E β → Prop} {R : Except ε α → Prop} {I : σ → Prop}
    {p : Prog E ε α} (h : p.All P R)
    (hkeeps : ∀ {β : Type} (c : E β) (v : σ), I v → I (H.exec c v).2)
    (hφ : ∀ {β : Type} (c : E β) (v : σ), P c → I v → φ c v) (hw : I w) : p.Along H φ w := by
  induction p generalizing w with
  | ret a => trivial
  | raise e => trivial
  | step c k ih => exact ⟨hφ c w h.1 hw, ih _ (h.2 _) (hkeeps c w hw)⟩

/-- What every command does to the state, a run does. -/
theorem Along.run {I : σ → Prop} {p : Prog E ε α} (h : p.Along H φ w)
    (hφ : ∀ {β : Type} (c : E β) (v : σ), φ c v → I v → I (H.exec c v).2) (hw : I w) :
    I (p.run H w).2 := by
  induction p generalizing w with
  | ret a => exact hw
  | raise e => exact hw
  | step c k ih => exact ih _ h.2 (hφ c w h.1 hw)

/-- The outcome of a run is one of those the paths allow. -/
theorem All.run {P : {β : Type} → E β → Prop} {R : Except ε α → Prop} {p : Prog E ε α}
    (h : p.All P R) (w : σ) : R (p.run H w).1 := by
  induction p generalizing w with
  | ret a => exact h
  | raise e => exact h
  | step c k ih => exact ih _ (h.2 _) _

end Along

/-! ## Without interference -/

/-- The contract of a program that runs alone. -/
def alone (H : Handler E σ) : Contract E σ where
  toHandler := H
  rely u v := u = v
  guar _ _ := True
  cond _ _ := True

/-- Alone, the weakest precondition speaks about the one run there is. -/
theorem wp_alone (H : Handler E σ) (p : Prog E ε α) (Q : Except ε α → σ → Prop) (w : σ) :
    p.wp (alone H) Q w ↔ Q (p.run H w).1 (p.run H w).2 := by
  induction p generalizing w with
  | ret a => rfl
  | raise e => rfl
  | step c k ih =>
    constructor
    · intro h
      exact (ih _ _).mp (h w rfl trivial).2
    · rintro h w' rfl -
      exact ⟨trivial, (ih _ _).mpr h⟩

end Prog
