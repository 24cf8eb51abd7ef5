import AegisMerchant.Tools.AppendLaws
import AegisMerchant.Tools.Outbox
import Mathlib.Data.List.Sort

/-!
# The chain holds

A block is linked to the head its session saw, and no block is ever changed or removed. The
`UNIQUE` index does the rest: a block that is committed follows the last one there is.

`chainGrows_commit` and `wp_appendLoop` are the append, `AuditSession.wp` a session, and
`sessions_verify` any number of them at once.
-/

namespace AegisMerchant

open Time

/-! ## Instants -/

/-- The storage text of an instant is that of the instant stored. -/
theorem toDbIso_dbTime (t : DateTime) : toDbIso (dbTime t) = toDbIso t := by
  have hday : ((dbTime t).astimezone 0).wallDay = (t.astimezone 0).wallDay := by
    simp only [dbTime, DateTime.truncateMs, DateTime.astimezone, DateTime.wallDay, DateTime.wall,
      day, hour, second]
    omega
  have hsecond : ((dbTime t).astimezone 0).wallTime / second = (t.astimezone 0).wallTime / second := by
    simp only [dbTime, DateTime.truncateMs, DateTime.astimezone, DateTime.wallTime, DateTime.wall,
      day, hour, second]
    omega
  have hms : ((dbTime t).astimezone 0).wallTime % second / 1000 =
      (t.astimezone 0).wallTime % second / 1000 := by
    simp only [dbTime, DateTime.truncateMs, DateTime.astimezone, DateTime.wallTime, DateTime.wall,
      day, hour, second]
    omega
  simp only [toDbIso, hday, hsecond, hms]

/-! ## Blocks and links -/

/-- The hashes a block stores are those of its contents. -/
structure AuditBlockRow.Hashed (rt : Runtime) (b : AuditBlockRow) : Prop where
  payload : payloadDigest rt b.payloadCanonical = b.payloadHash
  current : computeBlockHash rt b.prevHash b.payloadCanonical b.blockIndex b.createdAt =
    b.currentHash

/-- A block is the first one, or follows one of some blocks. -/
def AuditBlockRow.LinkedIn (blocks : AuditBlockRow → Prop) (b : AuditBlockRow) : Prop :=
  (b.blockIndex = 0 ∧ b.prevHash = genesisHash) ∨
    ∃ h, blocks h ∧ b.blockIndex = h.blockIndex + 1 ∧ b.prevHash = h.currentHash

theorem AuditBlockRow.LinkedIn.mono {blocks blocks' : AuditBlockRow → Prop} {b : AuditBlockRow}
    (h : b.LinkedIn blocks) (hblocks : ∀ h, blocks h → blocks' h) : b.LinkedIn blocks' := by
  rcases h with h | ⟨head, hhead, hlink⟩
  · exact .inl h
  · exact .inr ⟨head, hblocks head hhead, hlink⟩

/-- **The chain**: every block hashes to what it stores, and is linked to another one. -/
def ChainOk (rt : Runtime) (t : Tables) : Prop :=
  ∀ b ∈ t.blocks, b.Hashed rt ∧ b.LinkedIn (· ∈ t.blocks)

/-- A new block hashes to what it stores, read back too, and follows its head. -/
theorem block_ok (rt : Runtime) (e : AuditEvent) (head : Option AuditBlockRow) (id : String)
    (created : DateTime) {blocks : AuditBlockRow → Prop} (hhead : ∀ h ∈ head, blocks h) :
    (e.block rt head id created).Hashed rt ∧ (e.block rt head id created).LinkedIn blocks := by
  refine ⟨⟨rfl, ?_⟩, ?_⟩
  · show computeBlockHash rt _ _ _ (dbTime created) = computeBlockHash rt _ _ _ created
    simp only [computeBlockHash, toDbIso_dbTime]
    rfl
  · cases head with
    | none => exact .inl ⟨rfl, rfl⟩
    | some h => exact .inr ⟨h, hhead h rfl, rfl, rfl⟩

/-! ## What the verifier sees -/

namespace AuditChain

/-- The loop accepts what follows blocks it accepted: a sorted, linked rest of the chain. -/
theorem verifyFrom_valid {rt : Runtime} {total : ℕ} :
    ∀ {rest pre : List AuditBlockRow} {position : ℕ} {prevHash : String},
      (pre ++ rest).Pairwise (fun b b' => b.blockIndex < b'.blockIndex) →
      (∀ b ∈ rest, b.Hashed rt ∧ b.LinkedIn (· ∈ pre ++ rest)) →
      (∀ b ∈ pre ++ rest, 0 ≤ b.blockIndex) → (∀ b ∈ pre, b.blockIndex < position) →
      (∀ b ∈ pre, b.blockIndex + 1 = position → b.currentHash = prevHash) →
      (position = 0 → prevHash = genesisHash) →
      (position ≠ 0 → ∃ b ∈ pre, b.blockIndex + 1 = position) →
        (verifyFrom rt total position prevHash rest).valid = true := by
  intro rest
  induction rest with
  | nil => intros; rfl
  | cons b rest ih =>
    intro pre position prevHash hsorted hok hnonneg hbelow hlast hfirst hfull
    obtain ⟨-, hrest, hcross⟩ := List.pairwise_append.mp hsorted
    have hbefore : ∀ b' ∈ pre, b'.blockIndex < b.blockIndex := fun b' hb' =>
      hcross b' hb' b List.mem_cons_self
    have hafter : ∀ b' ∈ rest, b.blockIndex < b'.blockIndex :=
      fun b' => List.rel_of_pairwise_cons hrest
    have hb0 : 0 ≤ b.blockIndex := hnonneg b (by simp)
    obtain ⟨hhashed, hlinked⟩ := hok b List.mem_cons_self
    -- the block stands at its index, and is linked to the block before it
    have hplace : b.blockIndex = position ∧ b.prevHash = prevHash := by
      rcases hlinked with ⟨hzero, hprev⟩ | ⟨h, hmem, hindex, hprev⟩
      · by_cases hpos : position = 0
        · exact ⟨by omega, hprev.trans (hfirst hpos).symm⟩
        · obtain ⟨b', hb', hb'pos⟩ := hfull hpos
          have := hbefore b' hb'
          have := hnonneg b' (by simp [hb'])
          omega
      · have hpre : h ∈ pre := by
          rcases List.mem_append.mp hmem with hpre | hrest'
          · exact hpre
          · rcases List.mem_cons.mp hrest' with rfl | hrest'
            · omega
            · have := hafter h hrest'
              omega
        have hlt := hbelow h hpre
        by_cases hpos : position = 0
        · have := hnonneg h (by simp [hpre])
          omega
        · obtain ⟨b', hb', hb'pos⟩ := hfull hpos
          have := hbefore b' hb'
          have heq : h.blockIndex + 1 = position := by omega
          exact ⟨by omega, hprev.trans (hlast h hpre heq)⟩
    rw [verifyFrom, if_neg (not_not.mpr hplace.1), if_neg (not_not.mpr hhashed.payload),
      if_neg (not_not.mpr hplace.2), if_neg (not_not.mpr hhashed.current)]
    have hsorted' : ((pre ++ [b]) ++ rest).Pairwise fun b b' => b.blockIndex < b'.blockIndex := by
      simpa using hsorted
    refine ih hsorted' (fun b' hb' => ?_) (by simpa using hnonneg)
      (fun b' hb' => ?_) (fun b' hb' hpos => ?_) (by simp) (fun _ => ⟨b, by simp, by omega⟩)
    · simpa using hok b' (List.mem_cons_of_mem _ hb')
    · rcases List.mem_append.mp hb' with hb' | hb'
      · have := hbelow b' hb'
        omega
      · obtain rfl := List.mem_singleton.mp hb'
        omega
    · rcases List.mem_append.mp hb' with hb' | hb'
      · have := hbelow b' hb'
        omega
      · obtain rfl := List.mem_singleton.mp hb'
        rfl

/-- **A stored chain that holds verifies.** -/
theorem verifyBlocks_valid {rt : Runtime} {db : Database} (h : ChainOk rt db.tables) :
    (verifyBlocks rt (ordered db.tables)).valid = true := by
  have hmem : ∀ b, b ∈ ordered db.tables ↔ b ∈ db.tables.blocks := fun b =>
    List.mem_insertionSort _
  have hsorted : (ordered db.tables).Pairwise (fun b b' => b.blockIndex < b'.blockIndex) := by
    have hle : (ordered db.tables).Pairwise (fun b b' => b.blockIndex ≤ b'.blockIndex) :=
      List.pairwise_insertionSort _ _
    have hne : (ordered db.tables).Pairwise (fun b b' => b.blockIndex ≠ b'.blockIndex) := by
      have hperm : ((ordered db.tables).map (·.blockIndex)).Nodup :=
        ((List.perm_insertionSort _ db.tables.blocks).map _).nodup_iff.mpr db.valid.block_index
      exact List.pairwise_map.mp hperm
    exact (hle.and hne).imp fun hb => lt_of_le_of_ne hb.1 hb.2
  unfold verifyBlocks
  split
  · rfl
  · have hsorted' : (([] : List AuditBlockRow) ++ ordered db.tables).Pairwise
        fun b b' => b.blockIndex < b'.blockIndex := by simpa using hsorted
    refine verifyFrom_valid hsorted' (fun b hb => ?_)
      (fun b hb => db.valid.block_nonneg b ((hmem b).mp (by simpa using hb))) (by simp) (by simp)
      (fun _ => rfl) (fun h => absurd rfl h)
    obtain ⟨hhashed, hlinked⟩ := h b ((hmem b).mp hb)
    exact ⟨hhashed, hlinked.mono fun h hh => by simpa using (hmem h).mpr hh⟩

end AuditChain

/-! ## Sessions that append -/

inductive SessionStep where
  | append (e : AuditEvent)
  | write (w : Write)

def runSteps (rt : Runtime) : List SessionStep → Session → Act Session
  | [], session => return session
  | .append e :: rest, session => do
    let (_, session) ← AuditChain.append rt session e
    runSteps rt rest session
  | .write w :: rest, session => runSteps rt rest (session.add w)

/-- A session that ends in a commit, or in a rollback. -/
def auditSession (rt : Runtime) (steps : List SessionStep) (commits : Bool) : Act Unit := do
  let session ← runSteps rt steps {}
  if commits then session.commit else return ()

/-- Sessions whose blocks all come from appends. -/
inductive AuditSession (rt : Runtime) : Act Unit → Prop
  | session (steps : List SessionStep) (commits : Bool)
      (hsteps : ∀ block, .write (.insertBlock block) ∉ steps) :
      AuditSession rt (auditSession rt steps commits)

/-- What a session holds, over the tables as they are: blocks that hash to what they store, each
linked to a stored block or to one of the session's own. -/
def Session.Linked (rt : Runtime) (t : Tables) (s : Session) : Prop :=
  ∀ b, .insertBlock b ∈ s.pending → b.Hashed rt ∧
    b.LinkedIn fun h => h ∈ t.blocks ∨ .insertBlock h ∈ s.pending

/-- What one step does, as far as the others can rely on it: the chain holds on, and no block goes. -/
def ChainGrows (rt : Runtime) (w w' : World) : Prop :=
  (ChainOk rt w.db.tables → ChainOk rt w'.db.tables) ∧
    ∀ b ∈ w.db.tables.blocks, b ∈ w'.db.tables.blocks

/-- The contract of a session: no condition. -/
def chainContract (rt : Runtime) : Contract Cmd World :=
  World.contract (ChainGrows rt) (ChainGrows rt) fun _ _ => True

section Rules

variable {rt : Runtime} {w w' : World} {s : Session}

theorem ChainGrows.of_db (h : w'.db = w.db) : ChainGrows rt w w' := by
  unfold ChainGrows
  rw [h]
  exact ⟨id, fun _ => id⟩

theorem chainContract_closed (rt : Runtime) : (chainContract rt).Closed where
  refl _ := ChainGrows.of_db rfl
  trans h h' := ⟨h'.1 ∘ h.1, fun b hb => h'.2 b (h.2 b hb)⟩
  guar h := h

theorem Session.Linked.grows (h : s.Linked rt w.db.tables) (hgrows : ChainGrows rt w w') :
    s.Linked rt w'.db.tables := fun b hb =>
  ⟨(h b hb).1, (h b hb).2.mono fun head hhead => hhead.imp_left (hgrows.2 head)⟩

/-- The blocks after some statements. -/
theorem mem_applyAll_blocks {t : Tables} {ws : List Write} {b : AuditBlockRow} :
    b ∈ (t.applyAll ws).blocks ↔ b ∈ t.blocks ∨ .insertBlock b ∈ ws := by
  induction ws generalizing t with
  | nil => simp
  | cons write rest ih =>
    rw [Tables.applyAll_cons, ih]
    cases write <;> simp [Tables.apply, or_assoc]

/-- Nothing but blocks of the chain. -/
def Write.IsBlock : Write → Prop
  | .insertBlock _ => True
  | _ => False

/-- Such statements leave the other tables alone. -/
theorem applyAll_blocks {ws : List Write} (h : ∀ write ∈ ws, write.IsBlock) (t : Tables) :
    ∃ blocks, t.applyAll ws = { t with blocks } := by
  induction ws generalizing t with
  | nil => exact ⟨t.blocks, rfl⟩
  | cons write rest ih =>
    obtain ⟨hwrite, hrest⟩ := List.forall_mem_cons.mp h
    rw [Tables.applyAll_cons]
    cases write with
    | insertBlock block => exact ih hrest (t.apply (.insertBlock block))
    | _ => exact hwrite.elim

/-- **A commit of linked blocks keeps the chain.** -/
theorem chainGrows_commit {db : Database} (hlinked : s.Linked rt w.db.tables)
    (hcommit : w.db.commit s.pending = some db) :
    ChainGrows rt w (w.advance.committed s.pending db) := by
  have hmem : ∀ b, b ∈ db.tables.blocks ↔
      b ∈ w.db.tables.blocks ∨ .insertBlock b ∈ s.pending := fun b => by
    rw [Database.commit_eq_some.mp hcommit, mem_applyAll_blocks]
  refine ⟨fun hok b hb => ?_, fun b hb => (hmem b).mpr (.inl hb)⟩
  rcases (hmem b).mp hb with hb | hb
  · obtain ⟨hhashed, hlink⟩ := hok b hb
    exact ⟨hhashed, hlink.mono fun h hh => (hmem h).mpr (.inl hh)⟩
  · obtain ⟨hhashed, hlink⟩ := hlinked b hb
    exact ⟨hhashed, hlink.mono fun h hh => (hmem h).mpr hh⟩

/-- The head a session sees is stored, or its own. -/
theorem mem_of_head {t : Tables} {head : AuditBlockRow}
    (h : head ∈ (t.applyAll s.sent).head) : head ∈ t.blocks ∨ .insertBlock head ∈ s.pending := by
  have hmem : head ∈ (t.applyAll s.sent).blocks :=
    (List.mem_insertionSort _).mp (List.mem_of_head? h)
  exact (mem_applyAll_blocks.mp hmem).imp_right fun h => List.mem_append_left _ h

/-- What is linked stays so over a command that commits nothing. -/
theorem Session.Linked.quiet {β : Type} {c : Cmd β} (hc : c.Quiet) (h : s.Linked rt w.db.tables)
    (hgrows : ChainGrows rt w w') : s.Linked rt (World.handler.exec c w').2.db.tables := by
  rw [(World.exec_quiet hc w').1]
  exact h.grows hgrows

/-! ## The loop of an append -/

/-- **The loop of an append keeps a session linked**, whatever the others do meanwhile. -/
theorem wp_appendLoop (e : AuditEvent) (tries : ℕ) (hlinked : s.Linked rt w.db.tables) :
    (AuditChain.appendLoop rt e tries s).wp (chainContract rt) (fun r w' =>
      ∀ block s', r = .ok (block, s') → s'.Linked rt w'.db.tables) w := by
  induction tries generalizing s w with
  | zero => exact fun block s' h => by cases h
  | succ tries ih =>
    unfold AuditChain.appendLoop
    rw [Prog.wp_bind]
    refine wp_uncommitted (fun hdb _ => .of_db hdb) (c := .select s.sent (·.head)) trivial
      fun w₁ h₁ _ => ?_
    -- what the session holds, and the head it saw, outlive the others' steps
    let F (v : World) : Prop := s.Linked rt v.db.tables ∧
      ∀ h ∈ (w₁.db.tables.applyAll s.sent).head, h ∈ v.db.tables.blocks ∨ .insertBlock h ∈ s.pending
    have hF : ∀ {β : Type} {c : Cmd β} {v v' : World}, c.Quiet → ChainGrows rt v v' → F v →
        F (World.handler.exec c v').2 := fun hc hgrows hv =>
      ⟨hv.1.quiet hc hgrows, fun h hh => by
        rw [(World.exec_quiet hc _).1]
        exact (hv.2 h hh).imp_left (hgrows.2 h)⟩
    have hstart : F (World.handler.exec (.select s.sent (·.head)) w₁).2 :=
      ⟨hlinked.quiet trivial h₁, fun h hh => mem_of_head hh⟩
    simp only
    rw [Prog.wp_bind]
    refine wp_uncommitted (fun hdb _ => .of_db hdb) (c := .now) trivial fun w₂ h₂ _ => ?_
    have hnow := hF (c := .now) trivial h₂ hstart
    simp only
    rw [Prog.wp_bind, Act.freshId, Prog.wp_bind]
    refine wp_uncommitted (fun hdb _ => .of_db hdb) (c := .tokenHex) trivial fun w₃ h₃ _ => ?_
    have hhex := hF (c := .tokenHex) trivial h₃ hnow
    simp only [Prog.wp_pure]
    generalize hblock : e.block rt _ _ _ = block
    have hok : ∀ {blocks : AuditBlockRow → Prop},
        (∀ h ∈ (w₁.db.tables.applyAll s.sent).head, blocks h) →
          block.Hashed rt ∧ block.LinkedIn blocks := by
      intro blocks hhead
      rw [← hblock]
      exact block_ok rt e _ _ _ hhead
    have hquiet : ∀ ws, (Cmd.flush s.sent ws).Quiet := fun _ => trivial
    rw [Prog.wp_bind, Prog.wp_attempt, Session.flush, Prog.wp_bind, Act.call, Prog.wp_bind]
    refine wp_uncommitted (fun hdb _ => .of_db hdb) (hquiet _) fun w₄ h₄ _ => ?_
    have hflush := hF (hquiet (s.add (.insertBlock block)).fresh) h₄ hhex
    simp only [Session.add] at hflush ⊢
    rcases (World.handler.exec (.flush s.sent _) w₄).1 with exc | ⟨⟩
    · cases exc with
      | integrityError =>
        simp only [Prog.wp_throw]
        split
        · exact fun block s' h => by cases h
        · exact ih fun b hb => by simp [Session.rollback, Session.pending] at hb
      | _ => exact fun block s' h => by cases h
    · intro block' s' h
      cases h
      obtain ⟨hold, hhead⟩ := hflush
      intro b hb
      simp only [Session.pending, List.append_nil, ← List.append_assoc, List.mem_append,
        List.mem_singleton, Write.insertBlock.injEq] at hb ⊢
      rcases hb with hb | rfl
      · obtain ⟨hhashed, hlink⟩ := hold b (List.mem_append.mpr hb)
        refine ⟨hhashed, hlink.mono fun h hh => ?_⟩
        simp only [Session.pending, List.mem_append] at hh
        tauto
      · obtain ⟨hhashed, hlink⟩ := hok hhead
        refine ⟨hhashed, hlink.mono fun h hh => ?_⟩
        simp only [Session.pending, List.mem_append] at hh
        tauto

/-- The steps of a session keep it linked. -/
theorem wp_runSteps {steps : List SessionStep}
    (hsteps : ∀ block, .write (.insertBlock block) ∉ steps) (hlinked : s.Linked rt w.db.tables) :
    (runSteps rt steps s).wp (chainContract rt) (fun r w' =>
      ∀ s', r = .ok s' → s'.Linked rt w'.db.tables) w := by
  induction steps generalizing s w with
  | nil => exact fun s' h => by cases h; exact hlinked
  | cons step rest ih =>
    have hrest : ∀ block, .write (.insertBlock block) ∉ rest := fun block hmem =>
      hsteps block (List.mem_cons_of_mem _ hmem)
    cases step with
    | append e =>
      rw [runSteps, Prog.wp_bind]
      refine Prog.wp_mono _ (fun r w' hr => ?_) (wp_appendLoop e _ hlinked)
      rcases r with exc | ⟨block, s'⟩
      · exact fun s' h => by cases h
      · exact ih hrest (hr block s' rfl)
    | write write =>
      refine ih hrest fun b hb => ?_
      have hpending : (s.add write).pending = s.pending ++ [write] := by
        simp [Session.pending, Session.add]
      rw [hpending, List.mem_append, List.mem_singleton] at hb
      rcases hb with hb | rfl
      · obtain ⟨hhashed, hlink⟩ := hlinked b hb
        refine ⟨hhashed, hlink.mono fun h hh => ?_⟩
        rw [hpending]
        exact hh.imp_right fun h => List.mem_append_left _ h
      · exact absurd List.mem_cons_self (hsteps b)

/-- **Every session keeps the contract.** -/
theorem AuditSession.wp {p : Act Unit} (h : AuditSession rt p) (w : World) :
    p.wp (chainContract rt) (fun _ _ => True) w := by
  obtain ⟨steps, commits, hsteps⟩ := h
  have hempty : ({} : Session).Linked rt w.db.tables := fun b hb => by
    simp [Session.pending] at hb
  rw [auditSession, Prog.wp_bind]
  refine Prog.wp_mono _ (fun r w' hr => ?_) (wp_runSteps hsteps hempty)
  cases r with
  | error exc => trivial
  | ok s =>
    simp only
    split
    · refine Act.wp_commit.mpr fun v hv _ => ?_
      have hlinked := (hr s rfl).grows hv
      split
      · next db hdb => exact ⟨chainGrows_commit hlinked hdb, trivial⟩
      · exact ⟨ChainGrows.of_db rfl, trivial⟩
    · trivial

end Rules

/-! ## Every run -/

/-- **Whatever sessions append, in any order, the committed chain verifies.** -/
theorem sessions_verify (rt : Runtime) {w : World} (hw : ChainOk rt w.db.tables)
    {moves : List (Move Cmd PyError)}
    (hstart : ∀ m ∈ moves, Pool.StartsOnly (AuditSession rt) m) :
    (AuditChain.verifyBlocks rt
      (AuditChain.ordered (runWorkers w moves).state.db.tables)).valid = true := by
  have hmeets : ∀ P : Pool Cmd PyError World, P.Meets (chainContract rt) moves := by
    intro P
    clear hstart
    induction moves generalizing P with
    | nil => trivial
    | cons m rest ih =>
      refine ⟨?_, ih _⟩
      cases m with
      | run i =>
        show Pool.NextInScope _ _ _
        unfold Pool.NextInScope
        split <;> trivial
      | _ => trivial
  obtain ⟨-, hgrows⟩ := Pool.safe_run (chainContract_closed rt) (P := { state := w })
    (fun p hp => by simp at hp) (fun p hp v _ => hp.wp v) hstart (hmeets _)
  exact AuditChain.verifyBlocks_valid (hgrows.1 hw)

def twoBlocks : Act Unit :=
  auditSession plainRuntime
    [.append { eventName := "case.detected", actor := "batch", payload := .obj [] },
      .append { eventName := "case.recovered", actor := "batch", payload := .obj [] }] true

/-- Two such sessions, the second in the middle of the first. -/
theorem sessions_verify_racing :
    (AuditChain.verifyBlocks plainRuntime (AuditChain.ordered (runWorkers (worldOf oneCase)
      ([.spawn twoBlocks, .spawn twoBlocks] ++ List.replicate 5 (.run 0) ++
        List.replicate 9 (.run 1) ++ List.replicate 4 (.run 0))).state.db.tables)).valid = true :=
  sessions_verify plainRuntime (fun b hb => by simp [worldOf, oneCase] at hb) (fun m hm => by
    have hm : m = .spawn twoBlocks ∨ ∃ i, m = .run i := by
      simp only [List.mem_append, List.mem_cons, List.mem_replicate, List.not_mem_nil,
        or_false] at hm
      grind
    rcases hm with rfl | ⟨i, rfl⟩
    · exact .session _ _ (by simp)
    · trivial)

end AegisMerchant
