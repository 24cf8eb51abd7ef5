import AegisMerchant.Tools.OutboxLaws
import AegisMerchant.Workers.SettleRaces

/-!
# What a recovery is worth

A webhook credits the lesser of its own amount and the case's; a poll credits the case's. On a
discounted link the two differ, and the poll's is more than was paid.

`worth_step` is the step of a settler and `storesAmount_eq` what it stores;
`settlement_amounts_agree_iff` compares the two, and `not_settlement_amounts_agree` is a link with a
discount.
-/

namespace AegisMerchant

open Time Rows

/-! ## A settler alone -/

/-- Alone, a settler commits a change of a case on the case as it read it. -/
def FindsCases : {β : Type} → Cmd β → World → Prop
  | _, .commit ws, w => ∀ write ∈ ws, write.FindsCase w.db.tables
  | _, _, _ => True

theorem findsCases_of_quiet {β : Type} (c : Cmd β) (w : World) (h : c.Quiet) : FindsCases c w := by
  cases c with
  | commit ws => exact h.elim
  | _ => trivial

/-- A stored case is the one read under its id. -/
theorem eq_of_caseById {db : Database} {caseId : String} {case row : CaseRow}
    (h : db.tables.caseById caseId = some case) (hrow : row ∈ db.tables.cases)
    (hid : row.id = case.id) : row = case :=
  eq_of_key_eq db.valid.case_id hrow (List.mem_of_find?_eq_some h) hid

/-- The change of a stored case and its block, up to the commit. -/
theorem along_append_commit {rt : Runtime} {case new : CaseRow} {e : AuditEvent} {w : World}
    {α : Type} {f : Session → Act α}
    (hstored : ∀ row ∈ w.db.tables.cases, row.id = case.id → row = case)
    (hf : ∀ session v, (f session).Along World.handler FindsCases v) :
    (AuditChain.append rt { fresh := [.updateCase case new] } e >>= fun appended =>
      appended.2.commit >>= fun _ => f appended.2).Along World.handler FindsCases w := by
  have hall := AuditChain.all_append rt { fresh := [.updateCase case new] } e
  have hresult := hall.run (H := World.handler) w
  have hdb := World.run_quiet hall w
  rw [Prog.along_bind]
  refine ⟨hall.along findsCases_of_quiet w, ?_⟩
  rcases hrun : (AuditChain.append rt { fresh := [.updateCase case new] } e).run World.handler w
    with ⟨exc | ⟨block, session⟩, v⟩
  · trivial
  · rw [hrun] at hresult hdb
    simp only
    rw [Prog.along_bind]
    refine ⟨Act.along_commit.mpr fun write hwrite => ?_, ?_⟩
    · have hfinds : Write.FindsCase v.db.tables (.updateCase case new) := by
        rw [show v.db = w.db from hdb]
        exact hstored
      -- the change and its block, or after a rollback the block alone
      rcases hresult.2 with h | h <;> rw [h] at hwrite
      · simp only [Session.pending, List.nil_append, List.cons_append, List.mem_cons,
          List.not_mem_nil, or_false] at hwrite
        rcases hwrite with rfl | rfl
        · exact hfinds
        · trivial
      · obtain rfl := List.mem_singleton.mp hwrite
        trivial
    · rcases session.commit.run World.handler v with ⟨exc | ⟨⟩, u⟩
      · trivial
      · exact hf session u

theorem along_settleCase (rt : Runtime) (event : RevenueRiskEvent) (referenceId : String)
    {case : CaseRow} (issued : Option String) {w : World}
    (hstored : ∀ row ∈ w.db.tables.cases, row.id = case.id → row = case) :
    (Settle.settleCase rt event referenceId case issued).Along World.handler FindsCases w := by
  rw [Settle.settleCase, Prog.along_bind, Act.along_nowUtc, Act.run_nowUtc]
  refine ⟨trivial, ?_⟩
  simp only
  split
  · rw [Prog.along_bind, Act.along_nowUtc, Act.run_nowUtc]
    refine ⟨trivial, ?_⟩
    simp only
    refine along_append_commit (w := (w.after 1).after 1) (f := fun session =>
      if session.expired then throw .missingGreenlet else pure _) ?_ fun session v => ?_
    · simpa using hstored
    · split <;> trivial
  · split
    · rw [Prog.along_bind, Act.along_nowUtc, Act.run_nowUtc]
      refine ⟨trivial, ?_⟩
      simp only
      rw [Prog.along_bind]
      refine ⟨Act.along_commit.mpr fun write hwrite => ?_, ?_⟩
      · obtain rfl := List.mem_singleton.mp hwrite
        simpa [Write.FindsCase] using hstored
      -- whatever the commit answers, nothing more is written
      · rcases (Act.commit _).run World.handler _ with ⟨exc | ⟨⟩, u⟩ <;> trivial
    · trivial

theorem along_creditLink (rt : Runtime) (entry : OutboxRow) (caseId : String)
    (link : PaymentLinkResult) (w : World) :
    (Reconcile.creditLink rt entry caseId link).Along World.handler FindsCases w := by
  rw [Reconcile.creditLink, Prog.along_bind, Act.along_select, Act.run_select]
  refine ⟨trivial, ?_⟩
  cases hfound : w.db.tables.caseById caseId with
  | none => trivial
  | some fresh =>
    simp only
    split
    · trivial
    · rw [Prog.along_bind, Act.along_nowUtc, Act.run_nowUtc]
      refine ⟨trivial, ?_⟩
      refine along_append_commit (f := fun _ => pure true) (fun row hrow hid => ?_)
        fun session v => trivial
      simp only [World.after_db] at hrow
      exact eq_of_caseById hfound hrow hid

/-- **Alone, a poll finds the cases as it read them.** -/
theorem along_reconcileOutstanding (rt : Runtime) (limit : ℕ) (w : World) :
    (Reconcile.reconcileOutstanding rt limit).Along World.handler FindsCases w := by
  -- one poll: the case is read again in the session that credits it
  have hone : ∀ result entry case v, (Reconcile.pollOne rt result entry case).Along World.handler
      FindsCases v := by
    intro result entry case v
    rw [Reconcile.pollOne, Prog.along_bind, Prog.along_attempt, Prog.run_attempt]
    refine ⟨Act.along_call.mpr trivial, ?_⟩
    rcases (Act.getPaymentLinkByReference entry.referenceId).run World.handler v with
      ⟨exc | _ | link, u⟩
    · trivial
    · trivial
    · simp only
      split
      · trivial
      · rw [Prog.along_bind]
        refine ⟨along_creditLink rt entry case.id link u, ?_⟩
        rcases (Reconcile.creditLink rt entry case.id link).run World.handler u with
          ⟨exc | settled, u'⟩
        · trivial
        · simp only
          split <;> trivial
  have hall : ∀ rows result v, (Reconcile.pollAll rt result rows).Along World.handler
      FindsCases v := by
    intro rows
    induction rows with
    | nil => exact fun result v => trivial
    | cons row rest ih =>
      intro result v
      rw [Reconcile.pollAll, Prog.along_bind]
      refine ⟨hone _ _ _ _, ?_⟩
      rcases (Reconcile.pollOne rt result row.1 row.2).run World.handler v with ⟨exc | result', u⟩
      · trivial
      · exact ih result' u
  rw [Reconcile.reconcileOutstanding, Prog.along_bind, Act.along_select, Act.run_select]
  exact ⟨trivial, hall _ _ _⟩

/-- **Alone, a webhook finds the case as it read it.** -/
theorem along_processSettlement (rt : Runtime) (payload : Json) (eventId : String) (w : World) :
    (Settle.processSettlement rt payload eventId).Along World.handler FindsCases w := by
  refine along_processSettlement_of findsCases_of_quiet fun referenceId case issued n hfound => ?_
  refine along_settleCase rt _ _ _ fun row hrow hid => ?_
  rw [World.after_db] at hrow
  exact eq_of_key_eq w.db.valid.case_id hrow (foundCase_cases hfound).1 hid

/-! ## The amount a run stores -/

/-- A case of some amount is either not credited, or credited with `x`. -/
def Worth (caseId : String) (amount x : ℤ) (t : Tables) : Prop :=
  ∀ row ∈ t.cases, row.id = caseId → row.amountPaise = amount ∧
    ((row.status ≠ .recovered ∧ row.recoveryVerifiedBy = none) ∨ row.recoveredAmountPaise = x)

/-- **Step.** A settler that credits a case of this amount with `x` keeps it worth `x`. -/
theorem worth_step {credit : CaseRow → CaseRow → Prop} {caseId : String} {amount x : ℤ}
    (hcredit : ∀ read new, credit read new → read.amountPaise = amount →
      ∃ by' via now, new = Settle.recovered read x by' via now)
    {β : Type} (c : Cmd β) (w : World) (h : c.Settles credit ∧ FindsCases c w)
    (hw : Worth caseId amount x w.db.tables) :
    Worth caseId amount x (World.handler.exec c w).2.db.tables := by
  by_cases hquiet : c.Quiet
  · rwa [(World.exec_quiet hquiet w).1]
  · cases c with
    | commit ws =>
      simp only [World.handler, World.serve, World.advance_db]
      cases hcommit : w.db.commit ws with
      | none => exact hw
      | some db =>
        have htables := Database.commit_eq_some.mp hcommit
        obtain ⟨htxn, hfinds⟩ := h
        simp only [World.committed_db, htables]
        cases htxn with
        | lost => exact hw
        | @organic case now hrecovered horganic =>
          -- neither the proof nor the amount is touched
          intro row hrow hid
          obtain ⟨row₀, hrow₀, rfl⟩ := mem_updateWhere.mp hrow
          by_cases hread : row₀.id = case.id
          · rw [if_pos hread] at hid ⊢
            obtain ⟨hamount, hor⟩ := hw row₀ hrow₀ hid
            obtain ⟨hstatus, hproof, hstored⟩ := store_organic horganic now row₀
            refine ⟨hamount, ?_⟩
            rcases hor with ⟨-, hnone⟩ | hx
            · exact .inl ⟨by rw [hstatus]; decide, hproof.trans hnone⟩
            · exact .inr (hstored.trans hx)
          · rw [if_neg hread] at hid ⊢
            exact hw row₀ hrow₀ hid
        | @credited case new block hcredited =>
          -- the stored row is the one that was read, so the credit is of its amount
          intro row hrow hid
          obtain ⟨row₀, hrow₀, rfl⟩ := mem_updateWhere.mp hrow
          by_cases hread : row₀.id = case.id
          · rw [if_pos hread] at hid ⊢
            obtain ⟨hamount, -⟩ := hw row₀ hrow₀ hid
            obtain rfl : row₀ = case := hfinds _ List.mem_cons_self row₀ hrow₀ hread
            obtain ⟨by', via, now, rfl⟩ := hcredit _ _ hcredited hamount
            exact ⟨hamount, .inr (store_recoveredAmount _ _ _ _)⟩
          · rw [if_neg hread] at hid ⊢
            exact hw row₀ hrow₀ hid
    | _ => exact absurd trivial hquiet

/-- The run of a settler ends with the case stored as recovered, at an amount. -/
def StoresAmount {α : Type} (p : Act α) (w : World) (caseId : String) (x : ℤ) : Prop :=
  ∃ row ∈ (p.run World.handler w).2.db.tables.cases,
    row.id = caseId ∧ row.status = .recovered ∧ row.recoveredAmountPaise = x

instance {α : Type} (p : Act α) (w : World) (caseId : String) (x : ℤ) :
    Decidable (StoresAmount p w caseId x) := by
  unfold StoresAmount
  infer_instance

/-- **Run.** What it stores is what it credits. -/
theorem storesAmount_eq {α : Type} {p : Act α} {credit : CaseRow → CaseRow → Prop} {w : World}
    {case : CaseRow} {x y : ℤ} (hcase : case ∈ w.db.tables.cases)
    (hmonitoring : case.status = .monitoring) (hnone : case.recoveryVerifiedBy = none)
    (hcredit : ∀ read new, credit read new → read.amountPaise = case.amountPaise →
      ∃ by' via now, new = Settle.recovered read x by' via now)
    (hsettles : p.All (Cmd.Settles credit) fun _ => True)
    (hfinds : p.Along World.handler FindsCases w) (h : StoresAmount p w case.id y) : y = x := by
  have hworth : Worth case.id case.amountPaise x (p.run World.handler w).2.db.tables := by
    refine Prog.Along.run (I := fun v : World => Worth case.id case.amountPaise x v.db.tables)
      ((hsettles.along (φ := fun c _ => c.Settles credit) (fun _ _ hc => hc) w).and hfinds)
      (fun c v hc hv => worth_step hcredit c v hc hv) fun row hrow hid => ?_
    obtain rfl := eq_of_key_eq w.db.valid.case_id hrow hcase hid
    exact ⟨rfl, .inl ⟨by rw [hmonitoring]; decide, hnone⟩⟩
  obtain ⟨row, hrow, hid, hstatus, rfl⟩ := h
  obtain ⟨-, ⟨hne, -⟩ | hx⟩ := hworth row hrow hid
  · exact absurd hstatus hne
  · exact hx

/-! ## Both paths -/

/-- A monitored case, and the action its link was sent for. -/
structure SentFor (t : Tables) (case : CaseRow) (applied : AppliedAction) : Prop where
  stored : case ∈ t.cases
  monitoring : case.status = .monitoring
  unproven : case.recoveryVerifiedBy = none
  sent : ∃ row ∈ t.outbox, row.caseId = case.id ∧ row.status = .sent ∧ row.action = .ok applied
  /-- A discount is none or takes something off. -/
  charge_le : applied.chargeAmountPaise ≤ case.amountPaise

/-- **A webhook of the link's amount and a poll agree, and store no more than was charged, exactly on
a link without a discount.** -/
theorem settlement_amounts_agree_iff (rt : Runtime) {w w' : World} (hdb : w'.db = w.db)
    {case : CaseRow} {applied : AppliedAction} (hsent : SentFor w.db.tables case applied)
    {payload : Json} {eventId : String} {limit : ℕ} {x y : ℤ}
    (hpaid : (Ingest.normalise payload eventId).amountPaise = some applied.chargeAmountPaise)
    (hx : StoresAmount (Settle.processSettlement rt payload eventId) w case.id x)
    (hy : StoresAmount (Reconcile.reconcileOutstanding rt limit) w' case.id y) :
    (x = y ∧ x ≤ applied.chargeAmountPaise ∧ y ≤ applied.chargeAmountPaise) ↔
      applied.chargeAmountPaise = case.amountPaise := by
  obtain rfl := storesAmount_eq (x := applied.chargeAmountPaise) hsent.stored
    hsent.monitoring hsent.unproven (fun read new hcredit hamount => by
      obtain ⟨referenceId, issued, now, now', -, rfl⟩ := hcredit
      refine ⟨_, _, _, congrArg (Settle.recovered read · _ _ _) ?_⟩
      have hle := hsent.charge_le
      simp only [SettlingFacts.amount, Settle.facts, hpaid, hamount]
      split
      · next h => exact h.symm
      · exact min_eq_left hle)
    (settles_processSettlement rt payload eventId) (along_processSettlement rt payload eventId w) hx
  obtain rfl := storesAmount_eq (w := w') (x := case.amountPaise)
    (by rw [hdb]; exact hsent.stored) hsent.monitoring hsent.unproven
    (fun read new hcredit hamount => by
      obtain ⟨-, by', now, rfl⟩ := hcredit
      exact ⟨_, _, _, congrArg (Settle.recovered read · _ _ _) hamount⟩)
    (settles_reconcileOutstanding rt limit) (along_reconcileOutstanding rt limit w') hy
  constructor
  · exact fun h => h.1
  · exact fun h => ⟨h, le_refl _, h.ge⟩

/-- The link of the first attempt, a tenth off. -/
def discountedAction : AppliedAction :=
  { linkAction 1 with
    discountPct := 10, discountAmountPaise := 25000, chargeAmountPaise := 225000 }

/-- The monitored case, with the discounted link sent. -/
def discountedLink : Database where
  tables :=
    { sentLink.tables with
      outbox := [
        { id := "obx_1", caseId := "RC-0001", actionType := .createPaymentLink
          referenceId := referenceId "RC-0001" 1, payloadJson := some discountedAction.asPayload
          status := .sent, nextAttemptAt := { utc := 0 }, createdAt := { utc := 0 } }] }
  valid := by decide +kernel

/-- The one case and the one row of a fixture. -/
theorem sentFor_fixture {db : Database} {applied : AppliedAction} {row : OutboxRow}
    {case : CaseRow} (hcases : db.tables.cases = [case]) (houtbox : db.tables.outbox = [row])
    (hmonitoring : case.status = .monitoring) (hunproven : case.recoveryVerifiedBy = none)
    (hrow : row.caseId = case.id ∧ row.status = .sent ∧ row.action = .ok applied)
    (hcharge : applied.chargeAmountPaise ≤ case.amountPaise) :
    SentFor db.tables case applied where
  stored := hcases ▸ List.mem_singleton_self _
  monitoring := hmonitoring
  unproven := hunproven
  sent := ⟨row, houtbox ▸ List.mem_singleton_self _, hrow⟩
  charge_le := hcharge

/-- On the full link, both paths store the whole amount. -/
theorem settlement_amounts_agree_full :
    ∃ x y, StoresAmount (Settle.processSettlement plainRuntime (paidWebhook 250000) "evt_1")
        (paidWorld { utc := 0 }) "RC-0001" x ∧
      StoresAmount (Reconcile.reconcileOutstanding plainRuntime 50) (paidWorld { utc := 0 })
        "RC-0001" y ∧
      x = y ∧ x ≤ (linkAction 1).chargeAmountPaise ∧ y ≤ (linkAction 1).chargeAmountPaise := by
  have hx : StoresAmount (Settle.processSettlement plainRuntime (paidWebhook 250000) "evt_1")
      (paidWorld { utc := 0 }) "RC-0001" 250000 := by decide +kernel
  have hy : StoresAmount (Reconcile.reconcileOutstanding plainRuntime 50) (paidWorld { utc := 0 })
      "RC-0001" 250000 := by decide +kernel
  have hsent : SentFor (paidWorld { utc := 0 }).db.tables _ (linkAction 1) :=
    sentFor_fixture rfl rfl rfl rfl ⟨rfl, rfl, by decide +kernel⟩ (by decide)
  refine ⟨_, _, hx, hy, ?_⟩
  exact (settlement_amounts_agree_iff plainRuntime rfl hsent (by decide +kernel) hx hy).mpr rfl

def discountedWorld : World := { paidWorld { utc := 0 } with db := discountedLink }

/-- On the discounted link, the poll stores what nobody paid. -/
theorem not_settlement_amounts_agree :
    ¬∀ (rt : Runtime) (w w' : World) (case : CaseRow) (applied : AppliedAction) (payload : Json)
      (eventId : String) (limit : ℕ) (x y : ℤ), w'.db = w.db →
        SentFor w.db.tables case applied →
        (Ingest.normalise payload eventId).amountPaise = some applied.chargeAmountPaise →
        StoresAmount (Settle.processSettlement rt payload eventId) w case.id x →
        StoresAmount (Reconcile.reconcileOutstanding rt limit) w' case.id y →
          x = y ∧ x ≤ applied.chargeAmountPaise ∧ y ≤ applied.chargeAmountPaise := by
  intro h
  have hx : StoresAmount (Settle.processSettlement plainRuntime (paidWebhook 225000) "evt_1")
      discountedWorld "RC-0001" 225000 := by decide +kernel
  have hy : StoresAmount (Reconcile.reconcileOutstanding plainRuntime 50) discountedWorld
      "RC-0001" 250000 := by decide +kernel
  have hsent : SentFor discountedWorld.db.tables _ discountedAction :=
    sentFor_fixture rfl rfl rfl rfl ⟨rfl, rfl, by decide +kernel⟩ (by decide)
  have hagree := h plainRuntime discountedWorld discountedWorld _ discountedAction
    (paidWebhook 225000) "evt_1" 50 225000 250000 rfl hsent (by decide +kernel) hx hy
  exact absurd hagree.1 (by decide)

end AegisMerchant
