import AegisMerchant.Tools.ChainPins
import AegisMerchant.Workers.BatchStore

/-!
# What the batch may store

When the rows of a session break no constraint: new random ids, and hashes of texts that differ,
take care of all but the id and the hash of the case itself.

`ChainReady.follows` and `CaseSession.Fits.insert` say that the next session fits where the last one
left.
-/

namespace AegisMerchant

open Rows

/-! ## A block -/

/-- A block unlike those of the chain. -/
structure AuditBlockRow.Follows (t : Tables) (b : AuditBlockRow) : Prop where
  id_ne : ∀ b' ∈ t.blocks, b'.id ≠ b.id
  index_ne : ∀ b' ∈ t.blocks, b'.blockIndex ≠ b.blockIndex
  hash_ne : ∀ b' ∈ t.blocks, b'.currentHash ≠ b.currentHash
  nonneg : 0 ≤ b.blockIndex

/-- What every row of a list has, and a row added to it. -/
theorem forall_mem_concat {α : Type} {p : α → Prop} {xs : List α} {x : α}
    (hxs : ∀ y ∈ xs, p y) (hx : p x) : ∀ y ∈ xs ++ [x], p y := by
  intro y hy
  rcases List.mem_append.mp hy with hy | hy
  · exact hxs y hy
  · rw [List.mem_singleton.mp hy]
    exact hx

/-- Such a block breaks no constraint of valid tables, if it is about one of their cases. -/
theorem valid_insertBlock {t : Tables} (h : t.Valid) {b : AuditBlockRow} (hb : b.Follows t)
    (hcase : ∀ i ∈ b.caseId, ∃ c ∈ t.cases, c.id = i) : (t.apply (.insertBlock b)).Valid :=
  { h with
    block_id := nodup_map_concat.mpr ⟨h.block_id, hb.id_ne⟩
    block_index := nodup_map_concat.mpr ⟨h.block_index, hb.index_ne⟩
    block_hash := nodup_map_concat.mpr ⟨h.block_hash, hb.hash_ne⟩
    block_nonneg := forall_mem_concat h.block_nonneg hb.nonneg
    block_case := forall_mem_concat h.block_case hcase }

/-- The head of the chain, if it has one, is a block with the greatest index. -/
theorem le_head {t : Tables} {head : AuditBlockRow} (h : t.head = some head) :
    head ∈ t.blocks ∧ ∀ b ∈ t.blocks, b.blockIndex ≤ head.blockIndex := by
  refine ⟨(List.mem_insertionSort _).mp (List.mem_of_head? h), fun b hb => ?_⟩
  have hsorted := List.pairwise_insertionSort
    (fun b b' : AuditBlockRow => b'.blockIndex ≤ b.blockIndex) t.blocks
  have hb : b ∈ t.blocks.insertionSort fun b b' => b'.blockIndex ≤ b.blockIndex :=
    (List.mem_insertionSort _).mpr hb
  unfold Tables.head at h
  cases hlist : t.blocks.insertionSort fun b b' => b'.blockIndex ≤ b.blockIndex with
  | nil =>
    rw [hlist] at h
    cases h
  | cons first rest =>
    rw [hlist] at h hb hsorted
    obtain rfl : first = head := Option.some.inj h
    rcases List.mem_cons.mp hb with rfl | hb
    · exact le_refl _
    · exact (List.pairwise_cons.mp hsorted).1 b hb

theorem blocks_of_head {t : Tables} (h : t.head = none) : t.blocks = [] := by
  unfold Tables.head at h
  have hnil := List.head?_eq_none_iff.mp h
  exact List.eq_nil_of_length_eq_zero (by
    rw [← List.length_insertionSort (fun b b' : AuditBlockRow => b'.blockIndex ≤ b.blockIndex)
      t.blocks, hnil]
    rfl)

/-! ## The chain under new blocks -/

/-- The random parts drawn from a command on: no two of them alike. -/
def DrawsApart (fate : ℕ → Fate) (tick : ℕ) : Prop :=
  ∀ i j, tick ≤ i → tick ≤ j → (fate i).hex = (fate j).hex → i = j

def Drawn (fate : ℕ → Fate) (tick tick' : ℕ) (pfx id : String) : Prop :=
  ∃ i, tick ≤ i ∧ i < tick' ∧ id = newId pfx (fate i).hex

def Undrawn (fate : ℕ → Fate) (tick : ℕ) (pfx : String) (ids : List String) : Prop :=
  ∀ id ∈ ids, ∀ i, tick ≤ i → id ≠ newId pfx (fate i).hex

section Draws

variable {fate : ℕ → Fate} {first tick tick' last : ℕ} {pfx id : String} {ids new : List String}

theorem DrawsApart.later (h : DrawsApart fate tick) (hle : tick ≤ tick') : DrawsApart fate tick' :=
  fun i j hi hj => h i j (le_trans hle hi) (le_trans hle hj)

theorem Drawn.widen (h : Drawn fate tick tick' pfx id) (hfirst : first ≤ tick)
    (hlast : tick' ≤ last) : Drawn fate first last pfx id := by
  obtain ⟨i, hi, hlt, hid⟩ := h
  exact ⟨i, le_trans hfirst hi, lt_of_lt_of_le hlt hlast, hid⟩

theorem Undrawn.subset (h : Undrawn fate tick pfx ids) (hsub : new ⊆ ids) :
    Undrawn fate tick pfx new := fun id hid => h id (hsub hid)

/-- An id that is drawn is new. -/
theorem Undrawn.ne (h : Undrawn fate tick pfx ids) (hdrawn : Drawn fate tick tick' pfx id) :
    ∀ id' ∈ ids, id' ≠ id := by
  obtain ⟨i, hi, -, rfl⟩ := hdrawn
  intro id' hid'
  exact h id' hid' i hi

/-- What was drawn is not drawn again. -/
theorem Undrawn.drew (h : Undrawn fate tick pfx ids) (hapart : DrawsApart fate tick)
    (hle : tick ≤ tick') (hnew : ∀ id ∈ new, Drawn fate tick tick' pfx id) :
    Undrawn fate tick' pfx (ids ++ new) := by
  intro id hid j hj heq
  rcases List.mem_append.mp hid with hid | hid
  · exact h id hid j (le_trans hle hj) heq
  · obtain ⟨i, hi, hlt, rfl⟩ := hnew id hid
    have hij := hapart i j hi (le_trans hle hj) (newId_inj.mp heq)
    omega

theorem Undrawn.later (h : Undrawn fate tick pfx ids) (hle : tick ≤ tick') :
    Undrawn fate tick' pfx ids := fun id hid i hi => h id hid i (le_trans hle hi)

end Draws

/-- A chain that takes another block: its ids are not drawn again, and each hash is of hexadecimal
material. -/
structure ChainReady (rt : Runtime) (fate : ℕ → Fate) (tick : ℕ) (t : Tables) : Prop where
  ids : Undrawn fate tick "blk" (t.blocks.map (·.id))
  hashed : ∀ b ∈ t.blocks, b.Hashed rt ∧ Text.IsHex b.prevHash

section Chain

variable {rt : Runtime} {fate : ℕ → Fate} {tick tick' i : ℕ} {t t' : Tables}

theorem ChainReady.later (h : ChainReady rt fate tick t) (hle : tick ≤ tick')
    (hblocks : t'.blocks = t.blocks) : ChainReady rt fate tick' t' where
  ids := by
    rw [hblocks]
    exact h.ids.later hle
  hashed := by
    rw [hblocks]
    exact h.hashed

/-- The hash before a new block is hexadecimal. -/
theorem ChainReady.isHex_prev (hhex : ∀ s, Text.IsHex (rt.sha256 s))
    (h : ChainReady rt fate tick t) : Text.IsHex (t.head.elim genesisHash (·.currentHash)) := by
  cases hhead : t.head with
  | none => exact isHex_genesisHash
  | some head =>
    have hhashed := (h.hashed head (le_head hhead).1).1
    show Text.IsHex head.currentHash
    rw [← hhashed.current]
    exact hhex _

/-- **A new block is unlike the others**, when its id is new and the hashes of different texts
differ. -/
theorem ChainReady.follows (hinj : Function.Injective rt.sha256)
    (hhex : ∀ s, Text.IsHex (rt.sha256 s)) (h : ChainReady rt fate tick t) (hvalid : t.Valid)
    (hi : tick ≤ i) (e : AuditEvent) (created : Time.DateTime) :
    (e.block rt t.head (newId "blk" (fate i).hex) created).Follows t := by
  -- its index is past all the others
  have hindex : ∀ b ∈ t.blocks, b.blockIndex < t.head.elim 0 (·.blockIndex + 1) := by
    intro b hb
    cases hhead : t.head with
    | none =>
      rw [blocks_of_head hhead] at hb
      cases hb
    | some head => exact Int.lt_add_one_of_le ((le_head hhead).2 b hb)
  refine ⟨fun b hb => ?_, fun b hb => (hindex b hb).ne, fun b hb heq => ?_, ?_⟩
  · exact h.ids b.id (List.mem_map_of_mem hb) i hi
  · obtain ⟨hhashed, hprev⟩ := h.hashed b hb
    rw [← hhashed.current] at heq
    -- one hash is one material, so one index
    have hmaterial := hashMaterial_inj hprev (h.isHex_prev hhex) (hinj heq)
    exact (hindex b hb).ne hmaterial.2.2.1
  · cases hhead : t.head with
    | none => exact le_refl 0
    | some head =>
      have hnonneg := hvalid.block_nonneg head (le_head hhead).1
      show 0 ≤ head.blockIndex + 1
      omega

/-- And the chain is ready for the next. -/
theorem ChainReady.next (hhex : ∀ s, Text.IsHex (rt.sha256 s)) (h : ChainReady rt fate tick t)
    (hapart : DrawsApart fate tick) (hi : tick ≤ i) (hlt : i < tick') (e : AuditEvent)
    (created : Time.DateTime)
    (hblocks : t'.blocks =
      t.blocks ++ [e.block rt t.head (newId "blk" (fate i).hex) created]) :
    ChainReady rt fate tick' t' where
  ids := by
    rw [hblocks, List.map_append]
    refine h.ids.drew hapart (le_trans hi hlt.le) fun id hid => ?_
    rw [List.mem_singleton.mp hid]
    exact ⟨i, hi, hlt, rfl⟩
  hashed := by
    rw [hblocks]
    apply forall_mem_concat h.hashed
    have hhead : ∀ b ∈ t.head, b ∈ t.blocks := fun b hb => (le_head hb).1
    exact ⟨(block_ok rt e t.head _ created hhead).1, h.isHex_prev hhex⟩

end Chain

/-! ## A case and what goes with it -/

/-- The rows of a session break no constraint of a database. -/
structure CaseSession.Fits (s : CaseSession) (t : Tables) (side : SideTables) : Prop where
  id_ne : ∀ c ∈ t.cases, c.id ≠ s.case.id
  hash_ne : ∀ c ∈ t.cases, (side.columns c.id).idempotencyHash ≠ s.columns.idempotencyHash
  observed : s.case.observedReferenceId = none
  amount : 0 < s.case.amountPaise ∧ 0 ≤ s.case.recoveredAmountPaise
  proof : s.case.recoveredAmountPaise = 0 ∨ s.case.recoveryVerifiedBy.isSome = true
  approval : ∀ a ∈ s.approval, a.caseId = s.case.id ∧ ∀ a' ∈ t.approvals, a'.id ≠ a.id
  action : ∀ a ∈ s.action, (a.caseId = s.case.id ∧ a.outboxId = none ∧
    0 ≤ a.discountPctApplied ∧ 0 ≤ a.discountAmountPaise) ∧ ∀ a' ∈ t.actions, a'.id ≠ a.id
  block : ∀ b ∈ s.block, b.caseId = some s.case.id ∧ b.Follows t
  assignment : ∀ a ∈ s.assignment, a.caseId = s.case.id
  calls : ∀ call ∈ s.calls, call.caseId = some s.case.id
  call_ids : (side.llmCalls.map (·.id) ++ s.calls.map (·.id)).Nodup

/-- A column stays unique under the row that may be added. -/
theorem nodup_map_option {α κ : Type} {key : α → κ} {rows : List α} {row : Option α}
    (h : (rows.map key).Nodup) (hrow : ∀ r ∈ row, ∀ r' ∈ rows, key r' ≠ key r) :
    ((rows ++ row.toList).map key).Nodup := by
  cases row with
  | none => simpa using h
  | some r => exact nodup_map_concat.mpr ⟨h, hrow r rfl⟩

theorem forall_mem_option {α : Type} {p : α → Prop} {xs : List α} {x : Option α}
    (hxs : ∀ y ∈ xs, p y) (hx : ∀ y ∈ x, p y) : ∀ y ∈ xs ++ x.toList, p y := by
  intro y hy
  rcases List.mem_append.mp hy with hy | hy
  · exact hxs y hy
  · exact hx y (Option.mem_toList.mp hy)

theorem CaseSession.Fits.tables {s : CaseSession} {t : Tables} {side : SideTables}
    (hs : s.Fits t side) (h : t.Valid) : (t.insertCase s).Valid := by
  -- a case that was there is there still, and the new one is as well
  have hmem : ∀ {i : String}, (∃ c ∈ t.cases, c.id = i) →
      ∃ c ∈ (t.insertCase s).cases, c.id = i := by
    rintro i ⟨c, hc, hid⟩
    exact ⟨c, List.mem_append_left _ hc, hid⟩
  have hself : ∃ c ∈ (t.insertCase s).cases, c.id = s.case.id :=
    ⟨s.case, List.mem_append_right _ (List.mem_singleton_self _), rfl⟩
  refine { h with
    case_id := nodup_map_concat.mpr ⟨h.case_id, hs.id_ne⟩
    case_observed := ?_
    case_amount := forall_mem_concat h.case_amount hs.amount
    case_proof := forall_mem_concat h.case_proof hs.proof
    outbox_case := fun r hr => hmem (h.outbox_case r hr)
    action_id := nodup_map_option h.action_id fun a ha => (hs.action a ha).2
    action_discount := forall_mem_option h.action_discount fun a ha => (hs.action a ha).1.2.2
    action_case := ?_
    action_outbox := ?_
    contact_case := fun c hc i hi => hmem (h.contact_case c hc i hi)
    approval_id := nodup_map_option h.approval_id fun a ha => (hs.approval a ha).2
    approval_case := ?_
    block_id := nodup_map_option h.block_id fun b hb => (hs.block b hb).2.id_ne
    block_index := nodup_map_option h.block_index fun b hb => (hs.block b hb).2.index_ne
    block_hash := nodup_map_option h.block_hash fun b hb => (hs.block b hb).2.hash_ne
    block_nonneg := forall_mem_option h.block_nonneg fun b hb => (hs.block b hb).2.nonneg
    block_case := ?_ }
  · show ((t.cases ++ [s.case]).filterMap _).Nodup
    rw [List.filterMap_append]
    simpa [hs.observed] using h.case_observed
  · apply forall_mem_option
    · exact fun a ha => hmem (h.action_case a ha)
    · intro a ha
      rw [(hs.action a ha).1.1]
      exact hself
  · apply forall_mem_option h.action_outbox
    intro a ha i hi
    rw [(hs.action a ha).1.2.1] at hi
    cases hi
  · apply forall_mem_option
    · exact fun a ha => hmem (h.approval_case a ha)
    · intro a ha
      rw [(hs.approval a ha).1]
      exact hself
  · apply forall_mem_option
    · exact fun b hb i hi => hmem (h.block_case b hb i hi)
    · intro b hb i hi
      rw [(hs.block b hb).1] at hi
      obtain rfl := Option.some.inj hi
      exact hself

theorem CaseSession.Fits.side {s : CaseSession} {t : Tables} {side : SideTables}
    (hs : s.Fits t side) (h : side.Valid t.caseIds) :
    (side.insertCase s).Valid (t.insertCase s).caseIds := by
  have hids : (t.insertCase s).caseIds =
      t.caseIds ++ [s.case.id] := List.map_append
  have hold : ∀ i ∈ t.caseIds, i ≠ s.case.id := by
    intro i hi
    obtain ⟨c, hc, rfl⟩ := List.mem_map.mp hi
    exact hs.id_ne c hc
  rw [hids]
  refine ⟨?_, ?_, ?_, ?_, ?_⟩
  · rw [List.map_append, List.nodup_append]
    -- the columns of the earlier cases are untouched
    have hsame : t.caseIds.map
        (fun i => ((side.insertCase s).columns i).idempotencyHash) =
        t.caseIds.map fun i => (side.columns i).idempotencyHash := by
      apply List.map_congr_left
      intro i hi
      show ((Function.update side.columns s.case.id s.columns) i).idempotencyHash = _
      rw [Function.update_of_ne (hold i hi)]
    rw [hsame]
    refine ⟨h.case_hash, List.nodup_singleton _, ?_⟩
    intro x hx y hy
    obtain ⟨i, hi, rfl⟩ := List.mem_map.mp hx
    obtain ⟨c, hc, rfl⟩ := List.mem_map.mp hi
    have hy : y = s.columns.idempotencyHash := by
      simpa [SideTables.insertCase] using hy
    rw [hy]
    exact hs.hash_ne c hc
  · apply nodup_map_option h.assignment_id
    intro a ha a' ha'
    rw [hs.assignment a ha]
    exact hold _ (h.assignment_case a' ha')
  · apply forall_mem_option
    · exact fun a ha => List.mem_append_left _ (h.assignment_case a ha)
    · intro a ha
      rw [hs.assignment a ha]
      exact List.mem_append_right _ (List.mem_singleton_self _)
  · show ((side.llmCalls ++ s.calls).map _).Nodup
    rw [List.map_append]
    exact hs.call_ids
  · intro call hcall i hi
    rcases List.mem_append.mp hcall with hcall | hcall
    · exact List.mem_append_left _ (h.call_case call hcall i hi)
    · rw [hs.calls call hcall] at hi
      obtain rfl := Option.some.inj hi
      exact List.mem_append_right _ (List.mem_singleton_self _)

/-- **Rows that fit are stored.** -/
theorem CaseSession.Fits.insert {s : CaseSession} {w : BatchWorld}
    (hs : s.Fits w.world.db.tables w.side) :
    w.insert? s = some
      { world := { w.world with db := ⟨_, hs.tables w.world.db.valid⟩ }
        side := w.side.insertCase s
        valid := hs.side w.valid } :=
  dif_pos ⟨hs.tables w.world.db.valid, hs.side w.valid⟩

/-- Rows that are stored bring a new id and a new hash. -/
theorem BatchWorld.new_of_insert {s : CaseSession} {w : BatchWorld}
    (h : (w.insert? s).isSome = true) : ∀ c ∈ w.world.db.tables.cases, c.id ≠ s.case.id ∧
      (w.side.columns c.id).idempotencyHash ≠ s.columns.idempotencyHash := by
  intro c hc
  unfold BatchWorld.insert? at h
  split at h
  · next hvalid =>
    have hne : c.id ≠ s.case.id := (nodup_map_concat.mp hvalid.1.case_id).2 c hc
    refine ⟨hne, ?_⟩
    have hhash := hvalid.2.case_hash
    have hids : (w.world.db.tables.insertCase s).caseIds =
        w.world.db.tables.caseIds ++ [s.case.id] := List.map_append
    rw [hids] at hhash
    have hhash := (nodup_map_concat.mp hhash).2 c.id (List.mem_map_of_mem hc)
    simpa [SideTables.insertCase, Function.update_of_ne hne] using hhash
  · cases h

end AegisMerchant
