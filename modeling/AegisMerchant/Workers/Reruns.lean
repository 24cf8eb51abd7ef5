import AegisMerchant.Tools.AppendLaws
import AegisMerchant.Workers.BatchRuns
import AegisMerchant.Workers.CreditedBooks

/-!
# A batch run again

When nothing else runs, a batch that starts over stores one case for each attempt it is to process,
unless a case it preserves has an id or a hash that it makes again.

`run_restart`, `run_storeRows` and `run_runBatch` follow the batch step by step.
`BatchWorld.reruns_iff` is the law, and `BatchWorld.not_reruns` a preserved case with the id of a
new one.
-/

namespace AegisMerchant

open Time

/-! ## The blocks of the cases carried over -/

/-- A session of blocks, in a database that takes another. -/
structure Session.Chained (rt : Runtime) (session : Session) (w : World) : Prop where
  flushed : session.fresh = []
  current : session.expired = false
  blocks : ∀ write ∈ session.sent, write.IsBlock
  valid : (w.db.tables.applyAll session.sent).Valid
  ready : ChainReady rt w.fate w.tick (w.db.tables.applyAll session.sent)

section CarryOver

variable {rt : Runtime} {session : Session} {w : World}

/-- **A block about one of the cases is flushed**, and the session takes another. -/
theorem run_append_chained (hinj : Function.Injective rt.sha256) (hhex : ∀ s, Text.IsHex (rt.sha256 s))
    (hapart : DrawsApart w.fate w.tick) (h : session.Chained rt w) {e : AuditEvent}
    (hcase : ∀ i ∈ e.caseId, ∃ c ∈ w.db.tables.cases, c.id = i) :
    ∃ block session', (AuditChain.append rt session e).run World.handler w =
      (.ok (block, session'), w.after 4) ∧ session'.Chained rt (w.after 4) := by
  let t := w.db.tables.applyAll session.sent
  let block := e.block rt t.head (newId "blk" (w.fate (w.tick + 2)).hex) (w.after 2).clock
  have happlied : w.db.tables.applyAll (session.sent ++ [.insertBlock block]) =
      t.apply (.insertBlock block) := Tables.applyAll_append _ _ _
  -- the block follows the head, so the constraints let it in
  have hvalid : (t.apply (.insertBlock block)).Valid := by
    obtain ⟨blocks, hblocks⟩ := applyAll_blocks h.blocks w.db.tables
    have hcases : t.cases = w.db.tables.cases := congrArg (·.cases) hblocks
    apply valid_insertBlock h.valid
    · exact h.ready.follows hinj hhex h.valid (Nat.le_add_right _ 2) e _
    · rw [hcases]
      exact hcase
  -- the commands of one try, in their order
  have hselect : (session.select (·.head)).run World.handler w = (.ok t.head, w.after 1) := rfl
  have hnow : Act.nowUtc.run World.handler (w.after 1) = (.ok (w.after 2).clock, w.after 2) := rfl
  have hid : (Act.freshId "blk").run World.handler (w.after 2) =
      (.ok (newId "blk" (w.fate (w.tick + 2)).hex), w.after 3) := by
    rw [Act.run_freshId, World.after_fate, World.after_tick]
    rfl
  have hpending : (session.add (.insertBlock block)).pending =
      session.sent ++ [.insertBlock block] := by
    show session.sent ++ (session.fresh ++ [.insertBlock block]) = _
    rw [h.flushed]
    rfl
  have hflush : (session.add (.insertBlock block)).flush.run World.handler (w.after 3) =
      (.ok { session with sent := session.sent ++ [.insertBlock block], fresh := [] },
        w.after 4) := by
    obtain ⟨db, hdb⟩ : ∃ db, w.db.commit (session.sent ++ [.insertBlock block]) = some db :=
      ⟨⟨_, happlied ▸ hvalid⟩, Database.commit_eq_some.mpr rfl⟩
    have hexec : World.handler.exec (.flush (session.add (.insertBlock block)).sent
        (session.add (.insertBlock block)).fresh) (w.after 3) = (.ok (), w.after 4) := by
      simp only [World.handler, World.serve, World.advance_db, World.after_db]
      rw [show _ ++ _ = _ from hpending, hdb]
      rfl
    rw [run_flush, hexec, hpending]
    rfl
  refine ⟨block, { session with sent := session.sent ++ [.insertBlock block], fresh := [] }, ?_, ?_⟩
  · unfold AuditChain.append AuditChain.appendRetries AuditChain.appendLoop
    rw [Prog.run_bind_ok hselect, Prog.run_bind_ok hnow, Prog.run_bind_ok hid, Prog.run_bind,
      Prog.run_attempt, hflush]
    rfl
  · have hle : w.tick ≤ w.tick + 2 := Nat.le_add_right _ 2
    refine ⟨rfl, h.current, ?_, ?_, ?_⟩
    · exact forall_mem_concat h.blocks trivial
    · rw [World.after_db, happlied]
      exact hvalid
    · rw [World.after_db, World.after_fate, World.after_tick, happlied]
      exact h.ready.next hhex hapart hle (by omega) e _ rfl

/-- Every case gets its block. -/
theorem run_carryOver (hinj : Function.Injective rt.sha256) (hhex : ∀ s, Text.IsHex (rt.sha256 s))
    (hapart : DrawsApart w.fate w.tick) {cases : List CaseRow} (h : session.Chained rt w)
    (hcases : ∀ case ∈ cases, case ∈ w.db.tables.cases) :
    ∃ session' n, (BatchStore.carryOver rt cases session).run World.handler w =
      (.ok session', w.after n) ∧ session'.Chained rt (w.after n) := by
  induction cases generalizing session w with
  | nil => exact ⟨session, 0, rfl, h⟩
  | cons case rest ih =>
    obtain ⟨hcase, hrest⟩ := List.forall_mem_cons.mp hcases
    obtain ⟨block, session₁, happend, h₁⟩ := @run_append_chained rt session w hinj hhex hapart h
      (BatchStore.carriedOverEvent case) (by rintro i ⟨⟩; exact ⟨case, hcase, rfl⟩)
    have hapart₁ : DrawsApart (w.after 4).fate (w.after 4).tick := by
      rw [World.after_fate, World.after_tick]
      exact hapart.later (Nat.le_add_right _ 4)
    obtain ⟨session₂, n, hrun, h₂⟩ := ih hapart₁ h₁ (by simpa using hrest)
    refine ⟨session₂, 4 + n, ?_, ?_⟩
    · rw [BatchStore.carryOver, if_neg (by rw [h.current]; exact Bool.false_ne_true),
        Prog.run_bind_ok happend]
      simp only
      rw [hrun, World.after_after]
    · rwa [World.after_after] at h₂

/-- **The cases that are left get their blocks**, and nothing else changes. -/
theorem run_recordCarriedOver (hinj : Function.Injective rt.sha256)
    (hhex : ∀ s, Text.IsHex (rt.sha256 s)) (hapart : DrawsApart w.fate w.tick)
    (hready : ChainReady rt w.fate w.tick w.db.tables) :
    ∃ w', (BatchStore.recordCarriedOver rt).run World.handler w =
        (.ok (w.db.tables.preserved.map (·.id)), w') ∧
      (∃ blocks, w'.db.tables = { w.db.tables with blocks }) ∧ w'.fate = w.fate ∧
      w.tick ≤ w'.tick ∧ ChainReady rt w'.fate w'.tick w'.db.tables := by
  have hapart₁ : DrawsApart (w.after 1).fate (w.after 1).tick := by
    rw [World.after_fate, World.after_tick]
    exact hapart.later (Nat.le_add_right _ 1)
  -- the session starts with nothing in it
  have hchained : ({} : Session).Chained rt (w.after 1) :=
    { flushed := rfl
      current := rfl
      blocks := List.forall_mem_nil _
      valid := (w.after 1).db.valid
      ready := by
        rw [World.after_db, World.after_fate, World.after_tick]
        exact hready.later (Nat.le_add_right _ 1) rfl }
  have hcases : ∀ case ∈ w.db.tables.preserved, case ∈ (w.after 1).db.tables.cases := by
    rw [World.after_db]
    exact fun case hcase => (List.mem_filter.mp hcase).1
  obtain ⟨session, n, hcarry, h⟩ := run_carryOver hinj hhex hapart₁ hchained hcases
  rw [World.after_after] at hcarry h
  have hpending : session.pending = session.sent := by
    rw [Session.pending, h.flushed, List.append_nil]
  obtain ⟨db, hdb⟩ : ∃ db, (w.after (1 + n)).db.commit session.sent = some db :=
    ⟨⟨_, h.valid⟩, Database.commit_eq_some.mpr rfl⟩
  have htables : db.tables = (w.after (1 + n)).db.tables.applyAll session.sent :=
    Database.commit_eq_some.mp hdb
  refine ⟨((w.after (1 + n)).after 1).committed session.sent db, ?_, ?_, ?_, ?_, ?_⟩
  · unfold BatchStore.recordCarriedOver Session.commit
    rw [Prog.run_bind_ok (Act.run_select _ w), Prog.run_bind_ok hcarry, Prog.run_bind, hpending,
      Act.run_commit, hdb]
    simp only
    rw [if_neg (by rw [h.current]; exact Bool.false_ne_true)]
    rfl
  · rw [World.committed_db, htables, World.after_db]
    exact applyAll_blocks h.blocks _
  · rw [World.committed_fate, World.after_fate, World.after_fate]
  · rw [World.committed_tick, World.after_tick, World.after_tick]
    omega
  · rw [World.committed_fate, World.committed_tick, World.committed_db, World.after_fate,
      World.after_tick]
    exact h.ready.later (Nat.le_add_right _ 1) (congrArg (·.blocks) htables)

end CarryOver

/-! ## The reset -/

/-- The cases left by a reset are those it preserves. -/
theorem cases_keepOnly_preserved {t : Tables} (h : t.Valid) :
    (t.keepOnly (t.preserved.map (·.id))).cases = t.preserved := by
  apply List.filter_congr
  intro case hcase
  apply decide_eq_decide.mpr
  constructor
  · intro hid
    obtain ⟨case', hcase', heq⟩ := List.mem_map.mp hid
    obtain ⟨hmem, hverified⟩ := List.mem_filter.mp hcase'
    rw [← List.inj_on_of_nodup_map h.case_id hmem hcase heq]
    exact of_decide_eq_true hverified
  · exact fun hverified =>
      List.mem_map_of_mem (List.mem_filter.mpr ⟨hcase, decide_eq_true hverified⟩)

/-- And it preserves them again. -/
theorem preserved_keepOnly {t : Tables} (h : t.Valid) :
    (t.keepOnly (t.preserved.map (·.id))).preserved = t.preserved := by
  show (t.keepOnly _).cases.filter _ = _
  rw [cases_keepOnly_preserved h]
  exact List.filter_eq_self.mpr fun case hcase => (List.mem_filter.mp hcase).2

namespace BatchWorld

/-- No id is taken that the commands to come draw. -/
structure Fresh (w : BatchWorld) : Prop where
  apart : DrawsApart w.world.fate w.world.tick
  calls : Undrawn w.world.fate w.world.tick "llmcall" (w.side.llmCalls.map (·.id))
  approvals : Undrawn w.world.fate w.world.tick "apr" (w.world.db.tables.approvals.map (·.id))
  actions : Undrawn w.world.fate w.world.tick "act" (w.world.db.tables.actions.map (·.id))

structure Restarted (rt : Runtime) (w w' : BatchWorld) : Prop where
  cases : w'.world.db.tables.cases = w.world.db.tables.preserved
  columns : w'.side.columns = w.side.columns
  ready : w'.Ready rt

variable {rt : Runtime} {w : BatchWorld}

/-- The run of `_clear`. -/
theorem run_clear (w : BatchWorld) : BatchStore.clear.run handler w =
    (.ok (), (w.after 2).keepOnly (w.world.db.tables.preserved.map (·.id))) := rfl

/-- **The reset goes through**, and leaves the preserved cases. -/
theorem run_restart (hinj : Function.Injective rt.sha256) (hhex : ∀ s, Text.IsHex (rt.sha256 s))
    (hfresh : w.Fresh) :
    ∃ w₁ w', BatchStore.clear.run handler w = (.ok (), w₁) ∧
      (BatchAct.serve (BatchStore.recordCarriedOver rt)).run handler w₁ =
        (.ok (w.world.db.tables.preserved.map (·.id)), w') ∧ w.Restarted rt w' := by
  let keep := w.world.db.tables.preserved.map (·.id)
  let w₁ := (w.after 2).keepOnly keep
  have htables : w₁.world.db.tables = w.world.db.tables.keepOnly keep := by
    show (w.after 2).world.db.tables.keepOnly keep = _
    rw [after_world, World.after_db]
  have hfate : w₁.world.fate = w.world.fate := World.after_fate _ _
  have htick : w₁.world.tick = w.world.tick + 2 := World.after_tick _ _
  have hle : w.world.tick ≤ w₁.world.tick := by
    rw [htick]
    exact Nat.le_add_right _ 2
  have hapart : DrawsApart w₁.world.fate w₁.world.tick := by
    rw [hfate]
    exact hfresh.apart.later hle
  -- the clear deletes the chain, which starts again at its first block
  have hempty : ChainReady rt w₁.world.fate w₁.world.tick w₁.world.db.tables := by
    constructor
    · rw [htables]
      intro id hid
      cases hid
    · rw [htables]
      intro b hb
      cases hb
  obtain ⟨v, hrun, ⟨blocks, hblocks⟩, hvfate, hvtick, hchain⟩ :=
    run_recordCarriedOver hinj hhex hapart hempty
  rw [htables, preserved_keepOnly w.world.db.valid] at hrun
  obtain ⟨hanswer, hworld, hside⟩ := run_serve (BatchStore.recordCarriedOver rt) w₁
  rw [hrun] at hanswer hworld
  rcases hserved : (BatchAct.serve (BatchStore.recordCarriedOver rt)).run handler w₁ with ⟨r, w'⟩
  rw [hserved] at hanswer hworld hside
  obtain rfl : r = .ok keep := hanswer
  obtain rfl : w'.world = v := hworld
  rw [htables] at hblocks
  have hlater : w.world.tick ≤ w'.world.tick := le_trans hle hvtick
  have hwfate : w'.world.fate = w.world.fate := hvfate.trans hfate
  refine ⟨w₁, w', run_clear w, hserved, ?_, ?_, ?_, ?_, ?_, ?_, hchain⟩
  · rw [hblocks]
    exact cases_keepOnly_preserved w.world.db.valid
  · rw [hside]
    rfl
  · rw [hwfate]
    exact hfresh.apart.later hlater
  · rw [hwfate, hside]
    exact (hfresh.calls.subset (List.map_subset _ (List.filter_subset_self _))).later hlater
  · rw [hwfate, hblocks]
    exact (hfresh.approvals.subset (List.map_subset _ (List.filter_subset_self _))).later hlater
  · rw [hwfate, hblocks]
    apply (hfresh.actions.subset _).later hlater
    show ((w.world.db.tables.actions.filter _).map _).map _ ⊆ _
    rw [List.map_map]
    exact List.map_subset _ (List.filter_subset_self _)

end BatchWorld

/-! ## The loop -/

namespace BatchStore

open Batch

/-- The attempts the loop has still to process, each with its playbook. -/
def eligibleFrom (limit : Option ℕ) (created : ℕ) (corpus : List AttemptRow) :
    List (AttemptRow × Playbook) :=
  let attempts := corpus.filterMap fun attempt =>
    (playbookFor attempt.kind attempt.status).map (attempt, ·)
  limit.elim attempts fun limit => attempts.take (limit - created)

def eligible (c : BatchConfig) (corpus : List AttemptRow) : List (AttemptRow × Playbook) :=
  eligibleFrom c.limit 0 corpus

theorem eligibleFrom_none {limit : Option ℕ} {created : ℕ} {attempt : AttemptRow}
    {rest : List AttemptRow} (h : playbookFor attempt.kind attempt.status = none) :
    eligibleFrom limit created (attempt :: rest) = eligibleFrom limit created rest := by
  unfold eligibleFrom
  rw [List.filterMap_cons_none (by rw [h]; rfl)]

/-- Past the limit nothing is left. -/
theorem eligibleFrom_full {limit : Option ℕ} {created : ℕ} (corpus : List AttemptRow)
    (h : ∃ l ∈ limit, l ≤ created) : eligibleFrom limit created corpus = [] := by
  obtain ⟨l, rfl, hle⟩ := h
  show List.take (l - created) _ = []
  rw [Nat.sub_eq_zero_of_le hle, List.take_zero]

theorem eligibleFrom_some {limit : Option ℕ} {created : ℕ} {attempt : AttemptRow}
    {playbook : Playbook} {rest : List AttemptRow}
    (h : playbookFor attempt.kind attempt.status = some playbook)
    (hopen : ¬∃ l ∈ limit, l ≤ created) : eligibleFrom limit created (attempt :: rest) =
      (attempt, playbook) :: eligibleFrom limit (created + 1) rest := by
  unfold eligibleFrom
  rw [List.filterMap_cons_some (b := (attempt, playbook)) (by rw [h]; rfl)]
  cases limit with
  | none => rfl
  | some l =>
    have hlt : created < l := by
      by_contra hle
      exact hopen ⟨l, rfl, not_lt.mp hle⟩
    show List.take (l - created) (_ :: _) = _ :: List.take (l - (created + 1)) _
    rw [show l - created = l - (created + 1) + 1 by omega, List.take_succ_cons]

/-- Ids of different cases differ. -/
theorem caseId_inj {m n : ℕ} (h : caseId m = caseId n) : m = n := by
  unfold caseId at h
  have hlist := congrArg String.toList h
  rw [String.toList_append, String.toList_append] at hlist
  exact Text.padNat_inj (List.append_cancel_left hlist)

/-! ## The books a turn leaves -/

/-- **Some cases are clear of those that are made for some attempts**: none has the id of one, nor
its hash, and these hashes differ. -/
structure ClearOf (rt : Runtime) (cases : List CaseRow) (columns : String → CaseColumns)
    (created : ℕ) (attempts : List (AttemptRow × Playbook)) : Prop where
  id_ne : ∀ case ∈ cases, ∀ n < attempts.length, case.id ≠ caseId (created + n + 1)
  hash_ne : ∀ case ∈ cases, ∀ a ∈ attempts,
    (columns case.id).idempotencyHash ≠ (columnsOf rt a.1 a.2).idempotencyHash
  apart : (attempts.map fun a => (columnsOf rt a.1 a.2).idempotencyHash).Nodup

/-- What a loop leaves: a case more for each of the attempts, and the others as they were. -/
def Grown (rt : Runtime) (w w' : BatchWorld) (attempts : List (AttemptRow × Playbook)) : Prop :=
  ∃ new, w'.world.db.tables.cases = w.world.db.tables.cases ++ new ∧
    new.map (fun case => w'.side.columns case.id) = attempts.map (fun a => columnsOf rt a.1 a.2) ∧
    ∀ case ∈ w.world.db.tables.cases, w'.side.columns case.id = w.side.columns case.id

section Loop

variable {rt : Runtime} {c : BatchConfig} {w w' w'' : BatchWorld} {created : ℕ}
  {a : AttemptRow × Playbook} {attempts : List (AttemptRow × Playbook)} {case : CaseRow}

theorem clearOf_nil (cases : List CaseRow) (columns : String → CaseColumns) :
    ClearOf rt cases columns created [] where
  id_ne _ _ n hn := absurd hn (Nat.not_lt_zero n)
  hash_ne _ _ := List.forall_mem_nil _
  apart := List.nodup_nil

theorem grown_nil : Grown rt w w [] := ⟨[], (List.append_nil _).symm, rfl, fun _ _ => rfl⟩

theorem ClearOf.head (h : ClearOf rt w.world.db.tables.cases w.side.columns created
    (a :: attempts)) : w.New (caseId (created + 1)) (columnsOf rt a.1 a.2).idempotencyHash :=
  fun case hcase => ⟨h.id_ne case hcase 0 (Nat.succ_pos _), h.hash_ne case hcase a List.mem_cons_self⟩

/-- One case stored, the rest is judged by the others. -/
theorem clearOf_stored (hstored : w.Stored rt w' case (columnsOf rt a.1 a.2))
    (hid : case.id = caseId (created + 1))
    (hnew : w.New (caseId (created + 1)) (columnsOf rt a.1 a.2).idempotencyHash) :
    ClearOf rt w.world.db.tables.cases w.side.columns created (a :: attempts) ↔
      ClearOf rt w'.world.db.tables.cases w'.side.columns (created + 1) attempts := by
  -- the new case has its own columns, and no other case's change
  have hself : w'.side.columns case.id = columnsOf rt a.1 a.2 := by
    rw [hstored.columns, Function.update_self]
  have hold : ∀ case' ∈ w.world.db.tables.cases,
      w'.side.columns case'.id = w.side.columns case'.id := by
    intro case' hcase'
    have hne : case'.id ≠ case.id := by
      rw [hid]
      exact (hnew case' hcase').1
    rw [hstored.columns, Function.update_of_ne hne]
  have hmem : ∀ {case' : CaseRow}, case' ∈ w'.world.db.tables.cases ↔
      case' ∈ w.world.db.tables.cases ∨ case' = case := by
    intro case'
    rw [hstored.cases, List.mem_append, List.mem_singleton]
  constructor
  · intro h
    obtain ⟨hnot, hnodup⟩ := List.nodup_cons.mp h.apart
    refine ⟨fun case' hcase' n hn => ?_, fun case' hcase' a' ha' => ?_, hnodup⟩
    -- an earlier case, or the one just stored
    · rcases hmem.mp hcase' with hcase' | rfl
      · have hne := h.id_ne case' hcase' (n + 1) (Nat.succ_lt_succ hn)
        rwa [show created + (n + 1) + 1 = created + 1 + n + 1 by omega] at hne
      · rw [hid]
        intro heq
        have := caseId_inj heq
        omega
    · rcases hmem.mp hcase' with hcase' | rfl
      · rw [hold case' hcase']
        exact h.hash_ne case' hcase' a' (List.mem_cons_of_mem _ ha')
      · rw [hself]
        intro heq
        exact hnot (List.mem_map.mpr ⟨a', ha', heq.symm⟩)
  · intro h
    refine ⟨fun case' hcase' n hn => ?_, fun case' hcase' a' ha' => ?_, ?_⟩
    · cases n with
      | zero => exact (hnew case' hcase').1
      | succ n =>
        have hne := h.id_ne case' (hmem.mpr (.inl hcase')) n (Nat.lt_of_succ_lt_succ hn)
        rwa [show created + 1 + n + 1 = created + (n + 1) + 1 by omega] at hne
    · rcases List.mem_cons.mp ha' with rfl | ha'
      · exact (hnew case' hcase').2
      · rw [← hold case' hcase']
        exact h.hash_ne case' (hmem.mpr (.inl hcase')) a' ha'
    · refine List.nodup_cons.mpr ⟨fun hin => ?_, h.apart⟩
      obtain ⟨a', ha', heq⟩ := List.mem_map.mp hin
      have hne := h.hash_ne case (hmem.mpr (.inr rfl)) a' ha'
      rw [hself] at hne
      exact hne heq.symm

/-- The first case, and what the rest of the loop leaves. -/
theorem Grown.cons {attempt : AttemptRow} {playbook : Playbook}
    (hstored : w.Stored rt w' case (columnsOf rt attempt playbook))
    (hid : case.id = caseId (created + 1))
    (hnew : w.New (caseId (created + 1)) (columnsOf rt attempt playbook).idempotencyHash)
    (h : Grown rt w' w'' attempts) : Grown rt w w'' ((attempt, playbook) :: attempts) := by
  obtain ⟨new, hcases, hcolumns, hkept⟩ := h
  rw [hstored.cases] at hcases hkept
  refine ⟨case :: new, ?_, ?_, fun case' hcase' => ?_⟩
  · rw [hcases, List.append_assoc]
    rfl
  · rw [List.map_cons, List.map_cons, hcolumns,
      hkept case (List.mem_append_right _ (List.mem_singleton_self _)), hstored.columns,
      Function.update_self]
  · have hne : case'.id ≠ case.id := by
      rw [hid]
      exact (hnew case' hcase').1
    rw [hkept case' (List.mem_append_left _ hcase'), hstored.columns, Function.update_of_ne hne]

/-- **The loop stores its cases, or raises** because one is not clear of those that are there. -/
theorem run_storeRows (hinj : Function.Injective rt.sha256)
    (hhex : ∀ s, Text.IsHex (rt.sha256 s)) (hthinks : c.Thinks)
    (hfraction : 0 ≤ c.controlArmFraction ∧ c.controlArmFraction < 1) (now : DateTime)
    (corpus : List AttemptRow) (tally : BatchTally) (hready : w.Ready rt)
    (hamount : ∀ attempt ∈ corpus, 0 < attempt.amountPaise) :
    let attempts := eligibleFrom c.limit tally.created corpus
    let clear := ClearOf rt w.world.db.tables.cases w.side.columns tally.created attempts
    let run := (storeRows rt c now tally corpus).run BatchWorld.handler w
    (clear ∧ ∃ tally' w', run = (.ok tally', w') ∧ Grown rt w w' attempts) ∨
      (¬clear ∧ ∃ e w', run = (.error e, w')) := by
  induction corpus generalizing tally w with
  | nil =>
    have hnone : eligibleFrom c.limit tally.created [] = [] := by
      unfold eligibleFrom
      cases c.limit <;> simp
    simp only [hnone]
    exact .inl ⟨clearOf_nil _ _, tally, w, rfl, grown_nil⟩
  | cons attempt rest ih =>
    obtain ⟨hpaise, hrest⟩ := List.forall_mem_cons.mp hamount
    cases hplaybook : playbookFor attempt.kind attempt.status with
    | none =>
      rw [eligibleFrom_none hplaybook, storeRows, hplaybook]
      exact ih tally hready hrest
    | some playbook =>
      rw [storeRows, hplaybook]
      -- the limit is reached, and no further case is made
      by_cases hfull : ∃ limit ∈ c.limit, limit ≤ tally.created
      · rw [eligibleFrom_full _ hfull]
        simp only [if_pos hfull]
        exact .inl ⟨clearOf_nil _ _, tally, w, rfl, grown_nil⟩
      · rw [eligibleFrom_some hplaybook hfull]
        simp only [if_neg hfull]
        rcases run_storeRow hinj hhex hthinks hfraction hready now tally playbook hpaise with
          ⟨tally₁, w₁, case, hrow, hcreated, hid, hnew, hstored⟩ | ⟨hold, e, w', hrow⟩
        · have hih := ih tally₁ hstored.ready hrest
          rw [hcreated] at hih
          -- storing this one leaves the others clear exactly if all of them were
          have hiff := @clearOf_stored rt w w₁ tally.created (attempt, playbook)
            (eligibleFrom c.limit (tally.created + 1) rest) case hstored hid hnew
          rw [Prog.run_bind_ok hrow]
          rcases hih with ⟨hclear, tally', w', hrun, hgrown⟩ | ⟨hnot, e, w', hrun⟩
          · exact .inl ⟨hiff.mpr hclear, tally', w', hrun, Grown.cons hstored hid hnew hgrown⟩
          · exact .inr ⟨fun hclear => hnot (hiff.mp hclear), e, w', hrun⟩
        · exact .inr ⟨fun hclear => hold hclear.head, e, w', Prog.run_bind_error hrow⟩

end Loop

end BatchStore

/-! ## A batch that starts over -/

/-- It stays ready while time passes. -/
theorem BatchWorld.Ready.after {rt : Runtime} {w : BatchWorld} (h : w.Ready rt) (n : ℕ) :
    (w.after n).Ready rt := by
  have hle : w.world.tick ≤ w.world.tick + n := Nat.le_add_right _ n
  refine ⟨?_, ?_, ?_, ?_, ?_⟩
  all_goals rw [BatchWorld.after_world, World.after_fate, World.after_tick]
  · exact h.apart.later hle
  · exact h.calls.later hle
  · rw [World.after_db]
    exact h.approvals.later hle
  · rw [World.after_db]
    exact h.actions.later hle
  · rw [World.after_db]
    exact h.chain.later hle rfl

namespace BatchWorld

open BatchStore

def Represents (w : BatchWorld) (attempt : AttemptRow) : Prop :=
  ∃ case ∈ w.world.db.tables.preserved, (w.side.columns case.id).attemptId = some attempt.id

instance (w : BatchWorld) (attempt : AttemptRow) : Decidable (w.Represents attempt) :=
  List.decidableBEx _ _

/-- **The batch runs again**: it completes, leaves the preserved cases as they are, and stores one
case for each attempt that none of them is of. -/
def Reruns (rt : Runtime) (c : BatchConfig) (corpus : List AttemptRow) (w : BatchWorld) : Prop :=
  ∃ answer w' new, (runBatch rt c corpus).run handler w = (.ok answer, w') ∧
    w'.world.db.tables.cases = w.world.db.tables.preserved ++ new ∧
    (∀ case ∈ w.world.db.tables.preserved, w'.side.columns case.id = w.side.columns case.id) ∧
    (new.map fun case => (w'.side.columns case.id).attemptId).Perm
      (((eligible c corpus).filter fun a => ¬w.Represents a.1).map fun a => some a.1.id)

/-- **The condition**, on the preserved cases. -/
structure Unmet (rt : Runtime) (c : BatchConfig) (corpus : List AttemptRow) (w : BatchWorld) :
    Prop where
  clear : ClearOf rt w.world.db.tables.preserved w.side.columns 0 (eligible c corpus)
  unpaid : ∀ a ∈ eligible c corpus, ¬w.Represents a.1

variable {rt : Runtime} {c : BatchConfig} {w : BatchWorld} {corpus : List AttemptRow}

/-- **The run of the batch**: its cases beside the preserved ones, or an exception because one of
these is in the way. -/
theorem run_runBatch (hinj : Function.Injective rt.sha256) (hhex : ∀ s, Text.IsHex (rt.sha256 s))
    (hthinks : c.Thinks) (hfraction : 0 ≤ c.controlArmFraction ∧ c.controlArmFraction < 1)
    (hfresh : w.Fresh) (hne : corpus ≠ []) (hamount : ∀ attempt ∈ corpus, 0 < attempt.amountPaise) :
    let attempts := eligible c corpus
    let clear := ClearOf rt w.world.db.tables.preserved w.side.columns 0 attempts
    let run := (runBatch rt c corpus).run handler w
    (clear ∧ ∃ answer w' new, run = (.ok answer, w') ∧
        w'.world.db.tables.cases = w.world.db.tables.preserved ++ new ∧
        new.map (fun case => w'.side.columns case.id) =
          attempts.map (fun a => columnsOf rt a.1 a.2) ∧
        ∀ case ∈ w.world.db.tables.preserved,
          w'.side.columns case.id = w.side.columns case.id) ∨
      (¬clear ∧ ∃ e w', run = (.error e, w')) := by
  obtain ⟨w₁, w₂, hclear, hcarried, hrestarted⟩ := run_restart hinj hhex hfresh
  have hnow : (BatchAct.serve Act.nowUtc).run handler w₂ =
      (.ok (w₂.world.after 1).clock, w₂.after 1) := run_serve_after (Act.run_nowUtc _)
  -- the loop runs on the books as the clear leaves them
  have hloop := run_storeRows hinj hhex hthinks hfraction (w₂.world.after 1).clock corpus {}
    (hrestarted.ready.after 1) hamount
  rw [after_world, World.after_db, after_side, hrestarted.cases, hrestarted.columns] at hloop
  have hrun : (runBatch rt c corpus).run handler w =
      match (storeRows rt c (w₂.world.after 1).clock {} corpus).run handler (w₂.after 1) with
      | (.ok tally, w') => (.ok (tally, w.world.db.tables.preserved.map (·.id)), w')
      | (.error e, w') => (.error e, w') := by
    unfold runBatch
    rw [if_neg hne, Prog.run_bind_ok hclear, Prog.run_bind_ok hcarried, Prog.run_bind_ok hnow,
      Prog.run_bind]
    rcases (storeRows rt c (w₂.world.after 1).clock {} corpus).run handler (w₂.after 1) with
      ⟨e | tally, w'⟩ <;> rfl
  rcases hloop with ⟨hclearOf, tally, w', hstored, new, hcases, hcolumns, hkept⟩ |
    ⟨hnot, e, w', hstored⟩
  · refine .inl ⟨hclearOf, (tally, w.world.db.tables.preserved.map (·.id)), w', new, ?_, ?_,
      hcolumns, ?_⟩
    · rw [hrun, hstored]
    · rw [hcases, after_world, World.after_db, hrestarted.cases]
    · intro case hcase
      rw [hkept case (by rwa [after_world, World.after_db, hrestarted.cases]), after_side,
        hrestarted.columns]
  · refine .inr ⟨hnot, e, w', ?_⟩
    rw [hrun, hstored]

/-- **A batch runs again exactly when** no preserved case has an id or a hash that it makes again,
or is of an attempt it processes. -/
theorem reruns_iff (hinj : Function.Injective rt.sha256) (hhex : ∀ s, Text.IsHex (rt.sha256 s))
    (hthinks : c.Thinks) (hfraction : 0 ≤ c.controlArmFraction ∧ c.controlArmFraction < 1)
    (hfresh : w.Fresh) (hne : corpus ≠ []) (hamount : ∀ attempt ∈ corpus, 0 < attempt.amountPaise) :
    w.Reruns rt c corpus ↔ w.Unmet rt c corpus := by
  have hbatch := run_runBatch hinj hhex hthinks hfraction hfresh hne hamount
  constructor
  · rintro ⟨answer, w', new, hrun, hcases, -, hperm⟩
    rcases hbatch with ⟨hclear, answer', w'', new', hrun', hcases', hcolumns, -⟩ |
      ⟨-, e, w'', herror⟩
    · rw [hrun] at hrun'
      obtain ⟨-, rfl⟩ := Prod.mk.inj hrun'
      rw [hcases] at hcases'
      obtain rfl := List.append_cancel_left hcases'
      refine ⟨hclear, ?_⟩
      -- as many cases as attempts, so none of these is left out
      have hlength : new.length = (eligible c corpus).length := by
        simpa using congrArg List.length hcolumns
      have hfilter := hperm.length_eq
      rw [List.length_map, List.length_map, hlength] at hfilter
      have hall := List.length_filter_eq_length_iff.mp hfilter.symm
      exact fun a ha => of_decide_eq_true (hall a ha)
    · rw [hrun] at herror
      cases herror
  · intro h
    rcases hbatch with ⟨-, answer, w', new, hrun, hcases, hcolumns, hkept⟩ | ⟨hnot, -⟩
    · refine ⟨answer, w', new, hrun, hcases, hkept, ?_⟩
      have hall : (eligible c corpus).filter (fun a => ¬w.Represents a.1) = eligible c corpus :=
        List.filter_eq_self.mpr fun a ha => decide_eq_true (h.unpaid a ha)
      have hids := congrArg (List.map (·.attemptId)) hcolumns
      rw [List.map_map, List.map_map] at hids
      rw [hall]
      exact .of_eq hids
    · exact absurd h.clear hnot

end BatchWorld

/-! ## After a payment -/

/-- A case that a webhook proved, of an attempt that is gone. -/
def provenCase (id : String) : CaseRow where
  id
  merchantId := "mch_1"
  customerId := "cus_1"
  playbook := .paymentFailure
  status := .recovered
  amountPaise := 250000
  recoveredAmountPaise := 250000
  recoveryVerifiedBy := some "evt_1"
  recoveryVerifiedVia := some .webhook
  windowExpiresAt := { utc := 32 * hour }

/-- Its row, with its columns. -/
def provenSession (id : String) : CaseSession where
  case := provenCase id
  columns := { attemptId := some "atp_0", idempotencyHash := "" }

theorem provenSession_fits (id : String) :
    (provenSession id).Fits emptyBooks.world.db.tables emptyBooks.side where
  id_ne := List.forall_mem_nil _
  hash_ne := List.forall_mem_nil _
  observed := rfl
  amount := ⟨(by decide : (0 : ℤ) < 250000), (by decide : (0 : ℤ) ≤ 250000)⟩
  proof := .inr rfl
  approval := by simp [provenSession]
  action := by simp [provenSession]
  block := by simp [provenSession]
  assignment := by simp [provenSession]
  calls := by simp [provenSession]
  call_ids := List.nodup_nil

def provenBooks (id : String) : BatchWorld where
  world :=
    { emptyBooks.world with
      db := ⟨_, (provenSession_fits id).tables emptyBooks.world.db.valid⟩ }
  side := emptyBooks.side.insertCase (provenSession id)
  valid := (provenSession_fits id).side emptyBooks.valid

theorem provenBooks_fresh (id : String) : (provenBooks id).Fresh where
  apart := by
    intro i j _ _ h
    have hlist := congrArg String.length h
    simpa [provenBooks, emptyBooks] using hlist
  calls := List.forall_mem_nil _
  approvals := List.forall_mem_nil _
  actions := List.forall_mem_nil _

theorem treatedBatch_thinking : treatedBatch.Thinks := by
  intro complete hcomplete
  cases hcomplete

namespace BatchWorld

open AuditChain

/-- A paid case with the id of a second one does not stand in the way of the first. -/
theorem reruns_beside : (provenBooks "RC-0002").Reruns hexRuntime treatedBatch oneAttempt := by
  refine (reruns_iff hexRuntime_injective hexRuntime_isHex treatedBatch_thinking (by decide)
    (provenBooks_fresh _) (by decide) (by decide)).mpr ⟨⟨?_, ?_, ?_⟩, ?_⟩
  all_goals decide +kernel

/-- One with the id of the first does: the batch raises. -/
theorem not_reruns :
    ¬∀ (rt : Runtime) (c : BatchConfig) (w : BatchWorld) (corpus : List AttemptRow),
      Function.Injective rt.sha256 → (∀ s, Text.IsHex (rt.sha256 s)) → c.Thinks →
        0 ≤ c.controlArmFraction ∧ c.controlArmFraction < 1 → w.Fresh → corpus ≠ [] →
          (∀ attempt ∈ corpus, 0 < attempt.amountPaise) → w.Reruns rt c corpus := by
  intro h
  have hfraction : 0 ≤ treatedBatch.controlArmFraction ∧ treatedBatch.controlArmFraction < 1 := by
    decide
  have hamount : ∀ attempt ∈ oneAttempt, 0 < attempt.amountPaise := by decide
  obtain ⟨answer, w', new, hrun, -⟩ := h hexRuntime treatedBatch (provenBooks "RC-0001") oneAttempt
    hexRuntime_injective hexRuntime_isHex treatedBatch_thinking hfraction (provenBooks_fresh _)
    (by decide) hamount
  rcases run_runBatch hexRuntime_injective hexRuntime_isHex treatedBatch_thinking hfraction
    (provenBooks_fresh "RC-0001") (by decide) hamount with ⟨hclear, -⟩ | ⟨-, e, w'', herror⟩
  · have hid : (provenCase "RC-0001").id = Batch.caseId 1 := by decide
    exact hclear.id_ne (provenCase "RC-0001") (by decide) 0 (by decide) hid
  · rw [hrun] at herror
    cases herror

end BatchWorld

end AegisMerchant
