import AegisMerchant.Workers.SettleRaces

/-!
# A case is settled once

What the stored cases and the audit chain say of a recovery agrees, and a settled case stays
settled, as long as no settler writes over another.

`settles_step` is the step, `settlers_settleOnce` the run, and `not_settlers_settleOnce` two
settlers that read the same case.
-/

namespace AegisMerchant

open Time Rows

/-! ## The invariant -/

/-- How many blocks record a recovery of a case. -/
def verifiedBlocks (t : Tables) (caseId : String) : ℕ :=
  t.blocks.countP fun b => b.eventName = verifiedName ∧ b.caseId = some caseId

/-- A recovered case, its proof and its amount agree. -/
structure CaseRow.Settled (c : CaseRow) : Prop where
  proof_iff : c.status = .recovered ↔ c.recoveryVerifiedBy.isSome = true
  amount_iff : c.status = .recovered ↔ 0 < c.recoveredAmountPaise

/-- **The invariant**: every case agrees with itself, and a case has at most one block that records
its recovery, and none before it is recovered. -/
structure SettledOnce (t : Tables) : Prop where
  case : ∀ c ∈ t.cases, c.Settled
  block : ∀ c ∈ t.cases, 0 < verifiedBlocks t c.id → c.status = .recovered
  once : ∀ caseId, verifiedBlocks t caseId ≤ 1

/-- Cases stay, and a settled one stays as it was settled. -/
def KeepsSettled (t t' : Tables) : Prop :=
  ∀ c ∈ t.cases, ∃ c' ∈ t'.cases, c'.id = c.id ∧
    (c.status = .recovered ∨ c.status = .resolvedOrganic → c'.status = c.status)

/-- What one step of any settler does, as far as the others can rely on it. -/
def Settles (w w' : World) : Prop :=
  (SettledOnce w.db.tables → SettledOnce w'.db.tables) ∧ KeepsSettled w.db.tables w'.db.tables

def Write.changesCase : Write → Bool
  | .updateCase _ _ => true
  | _ => false

def Write.verifies : Write → Bool
  | .insertBlock block => block.eventName = verifiedName
  | _ => false

/-- **The condition**: a commit that changes a case finds it as its session read it, a poll credits
what it finds monitored, and the block of a recovery goes in along with the change of its case. -/
def SettlesAlone : {β : Type} → Cmd β → World → Prop
  | _, .commit ws, w => (∀ write ∈ ws, write.FindsCase w.db.tables ∧ write.PollsMonitored) ∧
      ((∃ write ∈ ws, write.verifies) → ∃ write ∈ ws, write.changesCase)
  | _, _, _ => True

instance : {β : Type} → (c : Cmd β) → (w : World) → Decidable (SettlesAlone c w)
  | _, .commit ws, w =>
    inferInstanceAs (Decidable ((∀ write ∈ ws, write.FindsCase w.db.tables ∧
      write.PollsMonitored) ∧ ((∃ write ∈ ws, write.verifies) → ∃ write ∈ ws, write.changesCase)))
  | _, .now, _ | _, .select _ _, _ | _, .flush _ _, _ | _, .tokenHex, _ | _, .uniform, _
  | _, .createPaymentLink _, _ | _, .getPaymentLinkByReference _, _
  | _, .completeStructured _ _, _ => inferInstanceAs (Decidable True)

/-- The contract every settler keeps under the condition. -/
def settleContract : Contract Cmd World := World.contract Settles Settles SettlesAlone

instance {β : Type} (c : Cmd β) (w : World) : Decidable (settleContract.cond c w) :=
  inferInstanceAs (Decidable (SettlesAlone c w))

theorem KeepsSettled.refl (t : Tables) : KeepsSettled t t :=
  fun c hc => ⟨c, hc, rfl, fun _ => rfl⟩

theorem KeepsSettled.trans {t u v : Tables} (h : KeepsSettled t u) (h' : KeepsSettled u v) :
    KeepsSettled t v := by
  intro c hc
  obtain ⟨c', hc', hid, hsame⟩ := h c hc
  obtain ⟨c'', hc'', hid', hsame'⟩ := h' c' hc'
  refine ⟨c'', hc'', hid'.trans hid, fun hsettled => ?_⟩
  have hstatus := hsame hsettled
  exact (hsame' (by rw [hstatus]; exact hsettled)).trans hstatus

theorem settleContract_closed : settleContract.Closed where
  refl _ := ⟨id, KeepsSettled.refl _⟩
  trans h h' := ⟨h'.1 ∘ h.1, h.2.trans h'.2⟩
  guar h := h

theorem settles_of_tables {w w' : World} (h : w'.db.tables = w.db.tables) : Settles w w' := by
  unfold Settles
  rw [h]
  exact ⟨id, KeepsSettled.refl _⟩

/-! ## One commit -/

/-- A commit that rewrites one open case, which it finds as it read it. -/
theorem keepsSettled_updateCase {t : Tables} {case new : CaseRow}
    (hfinds : ∀ row ∈ t.cases, row.id = case.id → row = case)
    (hrecovered : case.status ≠ .recovered) (horganic : case.status ≠ .resolvedOrganic) :
    KeepsSettled t (t.apply (.updateCase case new)) := by
  intro row hrow
  refine ⟨_, updateWhere_of_mem hrow, ?_⟩
  split
  · next hid =>
      refine ⟨rfl, fun hsettled => ?_⟩
      rw [hfinds row hrow hid] at hsettled
      rcases hsettled with h | h
      · exact absurd h hrecovered
      · exact absurd h horganic
  · exact ⟨rfl, fun _ => rfl⟩

/-- An organic resolution. -/
theorem settles_organic {w : World} {case : CaseRow} {now : DateTime} {db : Database}
    (hrecovered : case.status ≠ .recovered) (horganic : case.status ≠ .resolvedOrganic)
    (hfinds : ∀ row ∈ w.db.tables.cases, row.id = case.id → row = case)
    (htables : db.tables = w.db.tables.applyAll [.updateCase case (Settle.organic case now)]) :
    (SettledOnce w.db.tables → SettledOnce db.tables) ∧ KeepsSettled w.db.tables db.tables := by
  rw [htables]
  refine ⟨fun hinv => ⟨?_, ?_, hinv.once⟩, keepsSettled_updateCase hfinds hrecovered horganic⟩
  · intro c hc
    obtain ⟨row, hrow, rfl⟩ := mem_updateWhere.mp hc
    -- the row was open, so it had neither proof nor amount
    have hold := hinv.case row hrow
    split
    · next hid =>
        obtain rfl := hfinds row hrow hid
        obtain ⟨hstatus, hproof, hamount⟩ := store_organic horganic now row
        refine ⟨iff_of_false (by rw [hstatus]; decide) ?_,
          iff_of_false (by rw [hstatus]; decide) ?_⟩
        · rw [hproof]
          exact fun h => hrecovered (hold.proof_iff.mpr h)
        · rw [hamount]
          exact fun h => hrecovered (hold.amount_iff.mpr h)
    · exact hold
  · intro c hc hblocks
    obtain ⟨row, hrow, rfl⟩ := mem_updateWhere.mp hc
    split
    · next hid =>
        rw [if_pos hid] at hblocks
        have hstatus := hinv.block row hrow hblocks
        rw [hfinds row hrow hid] at hstatus
        exact absurd hstatus hrecovered
    · next hid =>
        rw [if_neg hid] at hblocks
        exact hinv.block row hrow hblocks

/-- A credit, along with its block. -/
theorem settles_credited {w : World} {case : CaseRow} {amount : ℤ} {by' : String}
    {via : RecoveryVerifier} {now : DateTime} {block : AuditBlockRow} {db : Database}
    (hmonitoring : case.status = .monitoring) (hnone : case.recoveryVerifiedBy = none)
    (hamount : 0 < case.amountPaise → 0 < amount)
    (hname : block.eventName = verifiedName) (hcase : block.caseId = some case.id)
    (hfinds : ∀ row ∈ w.db.tables.cases, row.id = case.id → row = case)
    (htables : db.tables = w.db.tables.applyAll
      [.updateCase case (Settle.recovered case amount by' via now), .insertBlock block]) :
    (SettledOnce w.db.tables → SettledOnce db.tables) ∧ KeepsSettled w.db.tables db.tables := by
  have hrecovered : case.status ≠ .recovered := by rw [hmonitoring]; decide
  have horganic : case.status ≠ .resolvedOrganic := by rw [hmonitoring]; decide
  have hblocks : ∀ i, verifiedBlocks db.tables i =
      verifiedBlocks w.db.tables i + if case.id = i then 1 else 0 := by
    intro i
    rw [htables]
    simp [verifiedBlocks, Tables.apply, List.countP_cons, hname, hcase]
  -- the block's case is stored
  obtain ⟨row₀, hrow₀, hid₀⟩ : ∃ row ∈ w.db.tables.cases, row.id = case.id := by
    have hmem : block ∈ db.tables.blocks := by
      rw [htables]
      exact List.mem_append_right _ (List.mem_singleton_self _)
    obtain ⟨c, hc, hid⟩ := db.valid.block_case block hmem case.id hcase
    rw [htables] at hc
    obtain ⟨row, hrow, rfl⟩ := mem_updateWhere.mp hc
    refine ⟨row, hrow, ?_⟩
    split at hid <;> exact hid
  have hrow₀eq := hfinds row₀ hrow₀ hid₀
  have hkeeps : KeepsSettled w.db.tables
      (w.db.tables.apply (.updateCase case (Settle.recovered case amount by' via now))) :=
    keepsSettled_updateCase hfinds hrecovered horganic
  refine ⟨fun hinv => ?_, by rw [htables]; exact hkeeps⟩
  -- the case was not recovered, so no block verifies it yet
  have hfree : verifiedBlocks w.db.tables case.id = 0 := by
    by_contra hpos
    have hstatus := hinv.block row₀ hrow₀ (by rw [hid₀]; omega)
    rw [hrow₀eq] at hstatus
    exact hrecovered hstatus
  have hstored := store_recovered hrecovered hnone amount by' via now
  refine ⟨?_, ?_, ?_⟩
  · intro c hc
    rw [htables] at hc
    obtain ⟨row, hrow, rfl⟩ := mem_updateWhere.mp hc
    split
    · next hid =>
        obtain rfl := hfinds row hrow hid
        have hpos := hamount (w.db.valid.case_amount row hrow).1
        refine ⟨iff_of_true hstored.1 ?_, iff_of_true hstored.1 ?_⟩
        · rw [hstored.2.1]
          rfl
        · rw [hstored.2.2]
          exact hpos
    · exact hinv.case row hrow
  · intro c hc hpos
    rw [htables] at hc
    obtain ⟨row, hrow, rfl⟩ := mem_updateWhere.mp hc
    rw [hblocks] at hpos
    split
    · next hid =>
        obtain rfl := hfinds row hrow hid
        exact hstored.1
    · next hid =>
        rw [if_neg hid, if_neg (fun h : case.id = row.id => hid h.symm)] at hpos
        exact hinv.block row hrow hpos
  · intro i
    rw [hblocks]
    split
    · next h => rw [← h, hfree]
    · exact hinv.once i

/-- **Step.** Every command of a settler that meets the condition settles. -/
theorem settles_step {β : Type} (c : Cmd β) (w : World)
    (h : c.Settles (Credits fun a => 0 < a)) (halone : SettlesAlone c w) :
    Settles w (World.handler.exec c w).2 := by
  by_cases hquiet : c.Quiet
  · exact settles_of_tables (by rw [(World.exec_quiet hquiet w).1])
  · cases c with
    | commit ws =>
      simp only [World.handler, World.serve, World.advance_db]
      cases hcommit : w.db.commit ws with
      | none => exact settles_of_tables rfl
      | some db =>
        have htables := Database.commit_eq_some.mp hcommit
        obtain ⟨hwrites, hblock⟩ := halone
        cases h with
        | organic hrecovered horganic =>
          exact settles_organic hrecovered horganic (hwrites _ List.mem_cons_self).1 htables
        | credited hcredit hname hcase =>
          obtain ⟨hnone, amount, by', via, now, rfl, hvia, hamount⟩ := hcredit.spec
          obtain ⟨hfinds, hpolls⟩ := hwrites _ List.mem_cons_self
          refine settles_credited ?_ hnone (hamount fun _ h => h) hname hcase hfinds htables
          rcases hvia with rfl | hmonitoring
          · exact hpolls rfl
          · exact hmonitoring
        -- the change was rolled back and its block committed alone
        | lost hcredit hname hcase =>
          obtain ⟨write, hwrite, hchanges⟩ := hblock ⟨_, List.mem_singleton_self _, by
            simp [Write.verifies, hname]⟩
          obtain rfl := List.mem_singleton.mp hwrite
          cases hchanges
    | _ => exact absurd trivial hquiet

/-! ## Every run -/

/-- **A case is settled once and for all**, between two points of a run. -/
def SettlesOnce (w w' : World) : Prop :=
  (∀ c ∈ w'.db.tables.cases, c.Settled) ∧
    (∀ caseId, verifiedBlocks w'.db.tables caseId ≤ 1) ∧
      ∀ c ∈ w.db.tables.cases, c.status = .recovered ∨ c.status = .resolvedOrganic →
        ∃ c' ∈ w'.db.tables.cases, c'.id = c.id ∧ c'.status = c.status

/-- **In every run whose commits meet the condition, between any two of its points.** -/
theorem settlers_settleOnce (rt : Runtime) {w : World} (hinv : SettledOnce w.db.tables)
    {moves rest : List (Move Cmd PyError)}
    (hstart : ∀ m ∈ moves ++ rest, Pool.StartsOnly (Settler rt fun a => 0 < a) m)
    (hmeets : ({ state := w } : Pool Cmd PyError World).Meets settleContract (moves ++ rest)) :
    SettlesOnce (runWorkers w moves).state (runWorkers w (moves ++ rest)).state := by
  obtain ⟨hfirst, hrest, -⟩ := Pool.rely_between settleContract_closed
    (fun p hp => settles_settler hp) (fun c v hc hcond => settles_step c v hc hcond) hstart hmeets
  have hinv' := hrest.1 (hfirst.1 hinv)
  refine ⟨hinv'.case, hinv'.once, fun c hc hsettled => ?_⟩
  obtain ⟨c', hc', hid, hsame⟩ := hrest.2 c hc
  exact ⟨c', hc', hid, hsame hsettled⟩

theorem sentLink_settledOnce (clock : DateTime) : SettledOnce (paidWorld clock).db.tables where
  case c hc := by
    obtain rfl := List.mem_singleton.mp hc
    exact ⟨by decide, by decide⟩
  block c hc hpos := absurd hpos (lt_irrefl 0)
  once caseId := Nat.zero_le _

def webhookThenPoll : List (Move Cmd PyError) :=
  [.spawn (webhookRun "evt_1"), .spawn pollRun] ++ List.replicate 9 (.run 0) ++
    List.replicate 9 (.run 1)

/-- Two webhooks of one payment: the first stops once it has read the case. -/
def racingWebhooks : List (Move Cmd PyError) :=
  [.spawn (webhookRun "evt_1"), .spawn (webhookRun "evt_2")] ++ List.replicate 2 (.run 0) ++
    List.replicate 9 (.run 1) ++ List.replicate 7 (.run 0)

theorem settlers_settleOnce_inTurn :
    SettlesOnce (runWorkers (paidWorld { utc := 0 }) []).state
      (runWorkers (paidWorld { utc := 0 }) ([] ++ webhookThenPoll)).state := by
  refine settlers_settleOnce plainRuntime (sentLink_settledOnce _) (fun m hm => ?_)
    (by decide +kernel)
  refine startsOnly_settler (by decide) ?_
  simp only [webhookThenPoll, List.nil_append, List.mem_append, List.mem_cons, List.mem_replicate,
    List.not_mem_nil, or_false] at hm
  grind

/-- Both webhooks credit the case: the chain records its recovery twice. -/
theorem not_settlers_settleOnce :
    ¬∀ (rt : Runtime) (w : World) (moves rest : List (Move Cmd PyError)),
      SettledOnce w.db.tables →
        (∀ m ∈ moves ++ rest, Pool.StartsOnly (Settler rt fun a => 0 < a) m) →
          SettlesOnce (runWorkers w moves).state (runWorkers w (moves ++ rest)).state := by
  intro h
  have hrun := h plainRuntime (paidWorld { utc := 0 }) [] racingWebhooks (sentLink_settledOnce _)
    (fun m hm => by
      refine startsOnly_settler (by decide) ?_
      simp only [racingWebhooks, List.nil_append, List.mem_append, List.mem_cons,
        List.mem_replicate, List.not_mem_nil, or_false] at hm
      grind)
  have htwo : verifiedBlocks
      (runWorkers (paidWorld { utc := 0 }) ([] ++ racingWebhooks)).state.db.tables "RC-0001" = 2 := by
    decide +kernel
  have hone := hrun.2.1 "RC-0001"
  omega

end AegisMerchant
