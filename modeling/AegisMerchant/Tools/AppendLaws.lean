import AegisMerchant.Base.Pool
import AegisMerchant.Tools.Audit

/-!
# Appends whose retries lose

An append that is beaten to its block index rolls its session back and flushes the block again,
alone. Where that flush is beaten too, an append that returns hands back everything it was handed.

`wp_appendLoop_keeps` is the rule for the loop: what each attempt keeps, the append keeps.
-/

namespace AegisMerchant

/-- A block of some kinds, flushed alone, finds its index taken. -/
def RetriesLose (names : List String) : {β : Type} → Cmd β → World → Prop
  | _, .flush [] [.insertBlock b], w => b.eventName ∈ names → w.db.commit [.insertBlock b] = none
  | _, _, _ => True

instance (names : List String) {β : Type} (c : Cmd β) (w : World) :
    Decidable (RetriesLose names c w) := by
  unfold RetriesLose
  split <;> infer_instance

section Runs

variable {σ : Type} (H : Handler Cmd σ)

theorem run_flush (session : Session) (w : σ) :
    session.flush.run H w =
      match (H.exec (.flush session.sent session.fresh) w).1 with
      | .ok () => (.ok { session with sent := session.pending, fresh := [] },
          (H.exec (.flush session.sent session.fresh) w).2)
      | .error exc => (.error exc, (H.exec (.flush session.sent session.fresh) w).2) := by
  rw [Session.flush, Prog.run_bind, Act.call, Prog.run_bind, Prog.run_lift]
  rcases (H.exec (.flush session.sent session.fresh) w).1 with exc | ⟨⟩ <;> rfl

end Runs

section Append

variable {rely guar : World → World → Prop} {cond : {β : Type} → Cmd β → World → Prop}
  {α β : Type}

/-- A command that commits nothing, then the rest. -/
theorem wp_uncommitted (hguar : ∀ {v v' : World}, v'.db = v.db → v'.history = v.history → guar v v')
    {c : Cmd α} (hc : c.Quiet) {Q : Except PyError α → World → Prop} {w : World}
    (hQ : ∀ w', rely w w' → cond c w' →
      Q (.ok (World.handler.exec c w').1) (World.handler.exec c w').2) :
    (Prog.lift c : Act α).wp (World.contract rely guar cond) Q w := by
  rw [Prog.wp_lift]
  intro w' hrely hcond
  obtain ⟨hdb, hhistory⟩ := World.exec_quiet hc w'
  exact ⟨hguar hdb hhistory, hQ w' hrely hcond⟩

theorem keeps_uncommitted
    (hguar : ∀ {v v' : World}, v'.db = v.db → v'.history = v.history → guar v v')
    {c : Cmd α} (hc : c.Quiet) :
    (Prog.lift c : Act α).Keeps (World.contract rely guar cond) :=
  fun _ => wp_uncommitted hguar hc fun _ _ _ => trivial

/-- **An append whose retries lose hands back everything it was handed, or raises.** -/
theorem wp_appendLoop_keeps
    (hguar : ∀ {v v' : World}, v'.db = v.db → v'.history = v.history → guar v v')
    {names : List String}
    (hlose : ∀ {β : Type} (c : Cmd β) (v : World), cond c v → RetriesLose names c v)
    (rt : Runtime) {e : AuditEvent} (hname : e.eventName ∈ names)
    (tries : ℕ) (session : Session) (w : World) :
    (AuditChain.appendLoop rt e tries session).wp (World.contract rely guar cond)
      (fun r _ => ∀ appended, r = .ok appended → session.pending ≠ [] ∧
        AuditChain.Records rt e appended.1 ∧
          appended.2.pending = session.pending ++ [.insertBlock appended.1]) w := by
  induction tries generalizing session w with
  | zero => exact fun appended h => by cases h
  | succ tries ih =>
    unfold AuditChain.appendLoop
    rw [Prog.wp_bind]
    refine wp_uncommitted hguar (c := .select session.sent (·.head)) trivial fun w₁ _ _ => ?_
    simp only
    rw [Prog.wp_bind]
    refine wp_uncommitted hguar (c := .now) trivial fun w₂ _ _ => ?_
    simp only
    rw [Prog.wp_bind, Act.freshId, Prog.wp_bind]
    refine wp_uncommitted hguar (c := .tokenHex) trivial fun w₃ _ _ => ?_
    simp only [Prog.wp_pure]
    have hrecords : AuditChain.Records rt e (e.block rt (World.handler.exec
        (.select session.sent (·.head)) w₁).1 (newId "blk" (World.handler.exec .tokenHex w₃).1)
          (World.handler.exec .now w₂).1) := ⟨_, _, _, rfl⟩
    generalize e.block rt _ _ _ = block at hrecords
    have hquiet : ∀ ws, (Cmd.flush session.sent ws).Quiet := fun _ => trivial
    rw [Prog.wp_bind, Prog.wp_attempt, Session.flush, Prog.wp_bind, Act.call, Prog.wp_bind]
    refine wp_uncommitted hguar (hquiet _) fun w₄ _ hcond => ?_
    have hlost := hlose _ _ hcond
    simp only [Session.add] at hlost ⊢
    rcases hflush : (World.handler.exec (.flush session.sent _) w₄).1 with exc | ⟨⟩
    · cases exc with
      | integrityError =>
        simp only [Prog.wp_throw]
        split
        · exact fun appended h => by cases h
        · -- nothing is held any more, so no later try returns
          refine Prog.wp_mono _ (fun r _ hr appended h => ?_) (ih session.rollback _)
          exact absurd rfl (hr appended h).1
      | _ => exact fun appended h => by cases h
    · intro appended h
      cases h
      refine ⟨fun hnil => ?_, hrecords, by simp [Session.pending]⟩
      obtain ⟨hsent, hfresh⟩ := List.append_eq_nil_iff.mp hnil
      rw [hsent, hfresh] at hlost hflush
      have hnone := hlost (hrecords.eventName ▸ hname)
      simp [World.handler, World.serve, hnone] at hflush

end Append

end AegisMerchant
