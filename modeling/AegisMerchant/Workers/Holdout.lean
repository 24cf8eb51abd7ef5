import AegisMerchant.Agent.ControlArm
import AegisMerchant.Workers.SettleLaws

/-!
# The holdout

A case of the control arm, from its run to the payments that come in for it: nobody acts on it, and
nothing it pays is credited.

`run_processSettlement_held` and `run_processSettlement_organic` are what a webhook does to a held
case, `control_held` is the case as a whole.
-/

namespace AegisMerchant

open Time Rows

/-! ## A case nobody acted on -/

/-- Nobody acted on a case, and nothing is credited to it. -/
structure Tables.Held (t : Tables) (caseId : String) : Prop where
  uncredited : ∀ case ∈ t.cases, case.id = caseId →
    case.status ≠ .recovered ∧ case.recoveredAmountPaise = 0
  outbox : ∀ row ∈ t.outbox, row.caseId ≠ caseId
  actions : ∀ a ∈ t.actions, a.caseId ≠ caseId

instance (t : Tables) (caseId : String) : Decidable (t.Held caseId) :=
  decidable_of_iff
    ((∀ case ∈ t.cases, case.id = caseId →
        case.status ≠ .recovered ∧ case.recoveredAmountPaise = 0) ∧
      (∀ row ∈ t.outbox, row.caseId ≠ caseId) ∧ ∀ a ∈ t.actions, a.caseId ≠ caseId)
    ⟨fun h => ⟨h.1, h.2.1, h.2.2⟩, fun h => ⟨h.1, h.2, h.3⟩⟩

/-- A statement of a settler that credits a case with nothing. -/
def Write.Withholds (caseId : String) : Write → Prop
  | .updateCase read new => read.id = caseId →
      new.status ≠ .recovered ∧ new.recoveredAmountPaise = read.recoveredAmountPaise
  | .insertBlock _ => True
  | _ => False

theorem Tables.apply_held {caseId : String} {t : Tables} {write : Write}
    (hwrite : write.Withholds caseId) (h : t.Held caseId) : (t.apply write).Held caseId := by
  cases write with
  | updateCase read new =>
    refine ⟨fun case hcase hid => ?_, h.outbox, h.actions⟩
    obtain ⟨row, hrow, rfl⟩ := mem_updateWhere.mp hcase
    split at hid
    · next hread =>
        -- the row of this case: what is written is neither a recovery nor an amount
        obtain ⟨hstatus, hamount⟩ := hwrite (hread.symm.trans hid)
        obtain ⟨hstatus', hamount'⟩ := h.uncredited row hrow hid
        rw [if_pos hread]
        refine ⟨?_, by simp [CaseRow.store, hamount, hamount']⟩
        show dirty _ _ _ ≠ _
        unfold dirty
        split
        · exact hstatus'
        · exact hstatus
    · next hread =>
        rw [if_neg hread]
        exact h.uncredited row hrow hid
  | insertBlock block => exact ⟨h.uncredited, h.outbox, h.actions⟩
  | _ => exact hwrite.elim

theorem writes_of_quiet {φ : Write → Prop} {β : Type} (c : Cmd β) (h : c.Quiet) : c.Writes φ := by
  cases c with
  | commit ws => exact h.elim
  | _ => trivial

/-- A case that was issued no reference is credited with nothing. -/
theorem withholds_settleCase (rt : Runtime) (event : RevenueRiskEvent) (referenceId : String)
    {case : CaseRow} {issued : Option String} {caseId : String}
    (h : case.id = caseId → issued = none) :
    (Settle.settleCase rt event referenceId case issued).All
      (Cmd.Writes (Write.Withholds caseId)) fun _ => True := by
  refine (settles_settleCase rt event referenceId case issued).mono (fun c hc => ?_) fun _ h => h
  cases c with
  | commit ws =>
    intro write hwrite
    cases hc with
    | organic hrecovered horganic =>
      obtain rfl := List.mem_singleton.mp hwrite
      exact fun _ => ⟨by simp [Settle.organic], rfl⟩
    | credited hcredit hname hcase =>
      obtain ⟨rfl, now, now', hcounts, rfl⟩ := hcredit
      rcases List.mem_cons.mp hwrite with rfl | hwrite
      · -- to be credited, a case needs a reference
        intro hid
        refine absurd ?_ hcounts.issued
        simp [Settle.facts, h hid, normaliseReference, Text.lower, Text.strip]
      · obtain rfl := List.mem_singleton.mp hwrite
        trivial
    | lost hcredit hname hcase =>
      obtain rfl := List.mem_singleton.mp hwrite
      trivial
  | _ => trivial

/-- **A webhook, whatever it says, leaves a held case held.** -/
theorem run_processSettlement_held (rt : Runtime) (payload : Json) (eventId : String)
    {caseId : String} {w : World} (hw : w.db.tables.Held caseId) :
    ((Settle.processSettlement rt payload eventId).run World.handler
      w).2.db.tables.Held caseId := by
  refine Prog.Along.run (I := fun v : World => v.db.tables.Held caseId)
    (φ := fun c _ => c.Writes (Write.Withholds caseId)) ?_
    (fun c v hc hv => World.exec_keeps_of_writes (I := (Tables.Held · caseId))
      (fun _ _ => Tables.apply_held) hc v hv) hw
  refine along_processSettlement_of (fun c _ => writes_of_quiet c)
    fun referenceId case issued n hfound => ?_
  refine (withholds_settleCase rt _ referenceId fun hid => ?_).along (fun _ _ hc => hc) _
  rcases (foundCase_cases hfound).2 with hnone | ⟨row, hrow, hrowid⟩ | ⟨a, ha, haid⟩
  · exact hnone
  · exact absurd (hrowid.trans hid) (hw.outbox row hrow)
  · exact absurd (haid.trans hid) (hw.actions a ha)

/-! ## Payments for it -/

def settlements (rt : Runtime) : List (Json × String) → Act Unit
  | [] => return ()
  | (payload, eventId) :: rest => do
    let _ ← Settle.processSettlement rt payload eventId
    settlements rt rest

/-- A settling event that carries the reference a case was observed under, and none of ours. -/
structure Observes (event : RevenueRiskEvent) (case : CaseRow) (t : Tables) : Prop where
  settles : event.eventType ∈ settlingEvents
  reference : ∃ referenceId, event.referenceId = some (.str referenceId) ∧
    t.foundCase referenceId = some (case, none)

/-- A payment under a reference nobody issued is real, and not ours. -/
theorem attribution_unissued {f : SettlingFacts} (hsigned : f.signatureValid = true)
    (hsettles : f.eventType ∈ settlingEvents) (hissued : f.issuedReferenceId = none) :
    f.attribution =
      { counted := false, reason := "no reference_id to match on"
        resolvesOrganically := true } := by
  have hempty : normaliseReference f.issuedReferenceId = "" := by
    simp [hissued, normaliseReference, Text.lower, Text.strip]
  unfold SettlingFacts.attribution
  simp only
  rw [if_neg (by simp [hsigned]), if_neg (not_not.mpr hsettles), if_pos (.inr hempty)]

/-- The judgement on such a payment: the case, resolved without us, unless it was. -/
theorem run_settleCase_unissued (rt : Runtime) {event : RevenueRiskEvent} (referenceId : String)
    {case : CaseRow} (w : World) (hsettles : event.eventType ∈ settlingEvents)
    (hstatus : case.status ≠ .recovered) :
    ∃ outcome v now, (Settle.settleCase rt event referenceId case none).run World.handler w =
        (.ok outcome, v) ∧
      v.db.tables = if case.status = .resolvedOrganic then w.db.tables
        else w.db.tables.apply (.updateCase case (Settle.organic case now)) := by
  unfold Settle.settleCase
  rw [Prog.run_bind, Act.run_nowUtc]
  simp only
  rw [attribution_unissued rfl hsettles rfl]
  simp only [Bool.false_eq_true, if_false, true_and]
  by_cases horganic : case.status = .resolvedOrganic
  · refine ⟨_, w.after 1, w.clock, by simp [horganic]; rfl, ?_⟩
    rw [if_pos horganic, World.after_db]
  · rw [if_pos ⟨hstatus, horganic⟩, Prog.run_bind, Act.run_nowUtc]
    simp only
    -- resolving a case breaks no constraint, so the commit goes through
    have hvalid : (w.db.tables.apply
        (.updateCase case (Settle.organic case ((w.after 1).after 1).clock))).Valid :=
      valid_updateCase w.db.valid rfl rfl
    have hcommit :
        w.db.commit [.updateCase case (Settle.organic case ((w.after 1).after 1).clock)] =
          some ⟨_, hvalid⟩ := Database.commit_eq_some.mpr rfl
    rw [Prog.run_bind, Act.run_commit]
    simp only [World.after_db, hcommit]
    exact ⟨_, _, _, rfl, (if_neg horganic).symm⟩

theorem caseById_of_mem {db : Database} {case : CaseRow} (h : case ∈ db.tables.cases) :
    db.tables.caseById case.id = some case := by
  cases hfound : db.tables.caseById case.id with
  | none => simpa using List.find?_eq_none.mp hfound case h
  | some case' =>
    have hid : case'.id = case.id := by simpa using List.find?_some hfound
    rw [eq_of_key_eq db.valid.case_id (List.mem_of_find?_eq_some hfound) h hid]

/-- **A payment for a held case resolves it without us.** -/
theorem run_processSettlement_organic (rt : Runtime) {payload : Json} {eventId : String}
    {case : CaseRow} {w : World} (hw : w.db.tables.Held case.id)
    (h : Observes (Ingest.normalise payload eventId) case w.db.tables) :
    ∃ case', ((Settle.processSettlement rt payload eventId).run World.handler
      w).2.db.tables.caseById case.id = some case' ∧ case'.status = .resolvedOrganic := by
  obtain ⟨hsettles, referenceId, href, hfound⟩ := h
  have hmem := (foundCase_cases hfound).1
  obtain ⟨n, hfind⟩ := run_findCase referenceId w
  obtain ⟨outcome, v, now, hrun, htables⟩ :=
    run_settleCase_unissued rt referenceId (w.after n) hsettles (hw.uncredited case hmem rfl).1
  have hv : ((Settle.processSettlement rt payload eventId).run World.handler w).2 = v := by
    unfold Settle.processSettlement
    simp only [if_neg (not_not.mpr hsettles), href, Settle.settle]
    rw [Prog.run_bind, Prog.run_attempt, Prog.run_bind, hfind, hfound]
    simp only [hrun]
    rfl
  rw [hv]
  rw [World.after_db] at htables
  -- resolved before, or by this webhook
  by_cases horganic : case.status = .resolvedOrganic
  · rw [if_pos horganic] at htables
    exact ⟨case, htables ▸ caseById_of_mem hmem, horganic⟩
  · rw [if_neg horganic] at htables
    refine ⟨case.store (Settle.organic case now) case, ?_, ?_⟩
    · have hstored : case.store (Settle.organic case now) case ∈ v.db.tables.cases := by
        rw [htables]
        exact updateWhere_mem rfl hmem
      exact caseById_of_mem hstored
    · show dirty _ _ _ = _
      exact if_neg (Ne.symm horganic)

/-! ## From the run on -/

def caseThenSettlements (rt : Runtime) (deps : AgentDeps Act) (s : RecoveryState)
    (calls : List (Json × String)) : Act Unit := do
  let _ ← (runCase rt s deps).attempt
  settlements rt calls

theorem run_settlements_held (rt : Runtime) {caseId : String} :
    ∀ (calls : List (Json × String)) {w : World}, w.db.tables.Held caseId →
      ((settlements rt calls).run World.handler w).2.db.tables.Held caseId
  | [], _, hw => hw
  | (payload, eventId) :: rest, w, hw => by
    have hone := run_processSettlement_held rt payload eventId hw
    rw [settlements, Prog.run_bind]
    rcases hrun : (Settle.processSettlement rt payload eventId).run World.handler w with ⟨e | _, v⟩
    · rwa [hrun] at hone
    · rw [hrun] at hone
      exact run_settlements_held rt rest hone

theorem run_caseThenSettlements_held {rt : Runtime} {deps : AgentDeps Act} {s : RecoveryState}
    (hdeps : deps.Thinks) (harm : Controlled rt deps s.caseId) (calls : List (Json × String))
    {w : World} (hw : w.db.tables.Held s.caseId) :
    ((caseThenSettlements rt deps s calls).run World.handler w).2.db.tables.Held s.caseId := by
  obtain ⟨n, hn⟩ := run_thinks (control_runCase hdeps harm) w
  rw [caseThenSettlements, Prog.run_bind, Prog.run_attempt, hn]
  refine run_settlements_held rt calls ?_
  rwa [World.after_db]

/-- **The holdout is held.** In the control arm a case's executor is never called, its run gives it
no token and leaves it neither monitored nor waiting for approval; whatever webhooks come in after
it, the case is not recovered and nothing is credited to it; and a payment for it resolves it
without us. -/
theorem control_held (rt : Runtime) (deps : AgentDeps Act) (s : RecoveryState)
    (calls : List (Json × String)) (w : World) (hdeps : deps.Thinks)
    (harm : Controlled rt deps s.caseId) (hw : w.db.tables.Held s.caseId) :
    entered rt deps .execute .enrich s w = none ∧
      (∀ s' v, (runCase rt s deps).run World.handler w = (.ok s', v) → LeftAlone s s') ∧
      ((caseThenSettlements rt deps s calls).run World.handler w).2.db.tables.Held s.caseId ∧
      ∀ payload eventId case, case.id = s.caseId →
        Observes (Ingest.normalise payload eventId) case
          ((caseThenSettlements rt deps s calls).run World.handler w).2.db.tables →
        ∃ case', ((Settle.processSettlement rt payload eventId).run World.handler
          ((caseThenSettlements rt deps s calls).run World.handler w).2).2.db.tables.caseById
            s.caseId = some case' ∧ case'.status = .resolvedOrganic := by
  have hheld := run_caseThenSettlements_held hdeps harm calls hw
  refine ⟨control_entered hdeps harm w, fun s' v hrun => ?_, hheld,
    fun payload eventId case hid hobserves => ?_⟩
  · have hends := (control_runCase hdeps harm).run (H := World.handler) w
    rw [hrun] at hends
    exact hends
  · rw [← hid] at hheld ⊢
    exact run_processSettlement_organic rt hheld hobserves

/-- A digest that starts with zeros, which puts a case in the control arm. -/
def zeroDigest : Runtime := { plainRuntime with sha256 := fun _ => "0000000000000000" }

/-- The nodes with the executor, and the usual share of control cases. -/
def controlDeps : AgentDeps Act := { treatedDeps with controlArmFraction := 18 / 100 }

theorem controlDeps_thinks : controlDeps.Thinks where
  now := thinks_nowUtc
  adapter complete h := by cases h

/-- A case that can still pay through the merchant's own checkout. -/
def observedCase : Database where
  tables :=
    { oneCase.tables with
      cases := oneCase.tables.cases.map fun case =>
        { case with status := .detected, observedReferenceId := some "ORD-77" } }
  valid := by decide +kernel

def heldState : RecoveryState where
  caseId := "RC-0001"
  merchantId := "mch_1"
  customerId := "cus_1"
  playbook := .paymentFailure
  amountPaise := 250000

def paidUnder (reference : String) : Json :=
  .obj [("event", .str "payment_link.paid"),
    ("payload", .obj [("payment_link", .obj [("entity",
      .obj [("reference_id", .str reference), ("amount", .int 250000)])])])]

/-- The tables the case is left in by its run, and by a payment of a link it was never sent. -/
def leftCase : Tables :=
  ((caseThenSettlements zeroDigest controlDeps heldState [(paidUnder "rvp_rc-0001_1", "evt_1")]).run
    World.handler (worldOf observedCase)).2.db.tables

theorem leftCase_observed : ∃ case, case.id = "RC-0001" ∧
    Observes (Ingest.normalise (paidUnder "ord-77") "evt_2") case leftCase := by
  have hfound : (leftCase.foundCase "ord-77").map (fun found => (found.1.id, found.2)) =
      some ("RC-0001", none) := by decide +kernel
  obtain ⟨⟨case, issued⟩, hcase, heq⟩ := Option.map_eq_some_iff.mp hfound
  obtain ⟨hid, rfl⟩ := Prod.mk.inj heq
  exact ⟨case, hid, by decide +kernel, "ord-77", rfl, hcase⟩

/-- A payment of a link it was never sent leaves the case as it was; one for the merchant's own
checkout resolves it without us. -/
theorem control_held_checkout :
    entered zeroDigest controlDeps .execute .enrich heldState (worldOf observedCase) = none ∧
      leftCase.Held "RC-0001" ∧
      ∃ case', ((Settle.processSettlement zeroDigest (paidUnder "ord-77") "evt_2").run World.handler
        ((caseThenSettlements zeroDigest controlDeps heldState
          [(paidUnder "rvp_rc-0001_1", "evt_1")]).run World.handler
            (worldOf observedCase)).2).2.db.tables.caseById "RC-0001" = some case' ∧
              case'.status = .resolvedOrganic := by
  obtain ⟨hentered, -, hheld, horganic⟩ := control_held zeroDigest controlDeps heldState
    [(paidUnder "rvp_rc-0001_1", "evt_1")] (worldOf observedCase) controlDeps_thinks
    (by decide +kernel) (by decide +kernel)
  obtain ⟨case, hid, hobserves⟩ := leftCase_observed
  exact ⟨hentered, hheld, horganic _ "evt_2" case hid hobserves⟩

end AegisMerchant
