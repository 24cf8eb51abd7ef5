import AegisMerchant.Services.Metrics
import AegisMerchant.Workers.CreditedBooks

/-!
# One recovery, one tile

Webhooks, polls and runs of the batch, interleaved in any way. As long as no id of Razorpay's has the
simulator's prefix, every recovered case carries the proof of one of them whole, and so its money is
on one of the two tiles.

`labelled_stores` is the batch, `wp_writer` each writer of the pool, and `writers_countedOnce` the
run.
-/

namespace AegisMerchant

open Time Rows Metrics

/-! ## The invariant -/

def Tables.Labelled (t : Tables) : Prop := ∀ c ∈ t.cases, Metrics.Labelled c

def BatchWorld.Labelled (w : BatchWorld) : Prop := w.world.db.tables.Labelled

/-- What a settler may write over a case: a credit of one that nothing proves, under an id of
Razorpay's. -/
structure Relabels (case new : CaseRow) : Prop where
  unproven : case.recoveryVerifiedBy = none ∧ case.recoveryVerifiedVia = none
  recovered : ∃ amount id via now, new = Settle.recovered case amount id via now ∧
    startsSimulated id = false ∧ (via = .webhook ∨ via = .apiReconciliation)

/-- Whatever the row holds by now, a credit leaves the whole proof of its own. -/
theorem Relabels.labelled {case new : CaseRow} (h : Relabels case new) (row : CaseRow) :
    Metrics.Labelled (case.store new row) := by
  obtain ⟨⟨hby, hvia⟩, amount, id, via, now, rfl, hid, hkind⟩ := h
  have hstored : (case.store (Settle.recovered case amount id via now) row).recoveryVerifiedVia =
      some via := by
    simp [CaseRow.store, Settle.recovered, dirty, hvia]
  refine .razorpay (by simp [CaseRow.store, Settle.recovered, dirty, hby]) hid ?_
  unfold CaseRow.Verified
  rw [hstored]
  rcases hkind with rfl | rfl
  · exact .inl rfl
  · exact .inr rfl

/-- An organic resolution leaves the proof as it is. -/
theorem labelled_organic {row : CaseRow} (case : CaseRow) (now : DateTime)
    (h : Metrics.Labelled row) : Metrics.Labelled (case.store (Settle.organic case now) row) := by
  cases h with
  | unproven hby hvia hamount =>
    refine .unproven ?_ ?_ ?_ <;> simpa [CaseRow.store, Settle.organic]
  | razorpay hby hid hvia =>
    refine .razorpay ?_ hid ?_
    · simpa [CaseRow.store, Settle.organic] using hby
    · simpa [CaseRow.store, Settle.organic, CaseRow.Verified] using hvia
  | simulated hby hid hvia =>
    refine .simulated ?_ hid ?_ <;> simpa [CaseRow.store, Settle.organic]

/-- The case a turn of the batch draws is labelled. -/
theorem labelled_caseRow (final : RecoveryState) (row : CorpusRow) (playbook : Playbook)
    (id : String) (paid : Bool) (now : DateTime) :
    Metrics.Labelled (Batch.caseRow final row playbook id paid now) := by
  -- only a case that was paid and acted on is settled, and its proof is simulated
  have hunproven : ∀ status, Batch.settlement final id paid = (status, none, 0) →
      Metrics.Labelled (Batch.caseRow final row playbook id paid now) := by
    intro status h
    refine .unproven ?_ ?_ ?_ <;> simp [Batch.caseRow, h]
  cases paid with
  | false =>
    by_cases horganic : final.status = .resolvedOrganic
    · exact hunproven .expired (by simp [Batch.settlement, horganic])
    · exact hunproven final.status (by simp [Batch.settlement, horganic])
  | true =>
    cases hacted : Batch.acted final with
    | false => exact hunproven .resolvedOrganic (by simp [Batch.settlement, hacted])
    | true =>
      have h : Batch.settlement final id true =
          (.recovered, some (simulatedEventPrefix ++ Text.lower id), final.amountPaise) := by
        simp [Batch.settlement, hacted]
      refine .simulated ?_ (startsSimulated_append (Text.lower id)) ?_ <;> simp [Batch.caseRow, h]

/-! ## What each command keeps -/

theorem labelled_updateCase {t : Tables} {read new : CaseRow}
    (hstore : ∀ row, Metrics.Labelled row → Metrics.Labelled (read.store new row))
    (h : t.Labelled) : (t.apply (.updateCase read new)).Labelled := by
  intro c hc
  obtain ⟨row, hrow, rfl⟩ := mem_updateWhere.mp hc
  split
  · exact hstore row (h row hrow)
  · exact h row hrow

/-- A settlement keeps every case labelled. -/
theorem labelled_settleTxn {credit : CaseRow → CaseRow → Prop} {t : Tables} {ws : List Write}
    (htxn : SettleTxn credit ws) (hcredit : ∀ case new, credit case new → Relabels case new)
    (h : t.Labelled) : (t.applyAll ws).Labelled := by
  cases htxn with
  | lost => exact h
  | @organic case now hrecovered horganic =>
    exact labelled_updateCase (fun row hrow => labelled_organic case now hrow) h
  | @credited case new block hcredited hname hcase =>
    exact labelled_updateCase (fun row _ => (hcredit case new hcredited).labelled row) h

/-- What the services ask for keeps every case labelled, when they settle such cases only. -/
theorem labelled_serve {credit : CaseRow → CaseRow → Prop}
    (hcredit : ∀ case new, credit case new → Relabels case new) {β : Type} (c : Cmd β)
    (w : BatchWorld) (hc : c.Settles credit ∨ c.Writes Write.IsBlock) (h : w.Labelled) :
    (BatchWorld.handler.exec (.serve c) w).2.Labelled := by
  show (World.handler.exec c w.world).2.db.tables.Labelled
  by_cases hquiet : c.Quiet
  · rw [(World.exec_quiet hquiet w.world).1]
    exact h
  · cases c with
    | commit ws =>
      simp only [World.handler, World.serve, World.advance_db]
      cases hcommit : w.world.db.commit ws with
      | none => exact h
      | some db =>
        show db.tables.Labelled
        rw [Database.commit_eq_some.mp hcommit]
        -- a settlement relabels one case; blocks touch none
        rcases hc with htxn | hblocks
        · exact labelled_settleTxn htxn hcredit h
        · obtain ⟨blocks, happlied⟩ := applyAll_blocks hblocks w.world.db.tables
          rw [happlied]
          exact h
    | _ => exact absurd trivial hquiet

/-- **Step.** Every command of the batch keeps every case labelled. -/
theorem labelled_stores {β : Type} (c : BatchCmd β) (w : BatchWorld)
    (hc : c.Stores fun s => Metrics.Labelled s.case) (h : w.Labelled) :
    (BatchWorld.handler.exec c w).2.Labelled := by
  cases c with
  | serve c =>
    exact @labelled_serve (fun _ _ => False) (fun _ _ h => h.elim) _ c w (.inr hc) h
  | clear keep => exact fun c hc => h c (List.mem_filter.mp hc).1
  | flush s =>
    rw [BatchWorld.exec_flush]
    exact h
  | commit s =>
    rw [BatchWorld.exec_commit]
    cases hinsert : w.insert? s with
    | none => exact h
    | some w' =>
      unfold BatchWorld.insert? at hinsert
      split at hinsert
      · cases hinsert
        intro case hcase
        rcases List.mem_append.mp hcase with hcase | hcase
        · exact h case hcase
        · rw [List.mem_singleton.mp hcase]
          exact hc
      · cases hinsert

/-! ## The contract -/

/-- No id of a link has the simulator's prefix. -/
def RealLink (link : PaymentLinkResult) : Prop :=
  startsSimulated link.linkId = false ∧ ∀ id ∈ Reconcile.paymentId link, startsSimulated id = false

instance (link : PaymentLinkResult) : Decidable (RealLink link) :=
  inferInstanceAs (Decidable (_ ∧ _))

theorem RealLink.verifier {link : PaymentLinkResult} (h : RealLink link) :
    startsSimulated (Reconcile.verifier link) = false := by
  unfold Reconcile.verifier
  cases hpayment : Reconcile.provingPayment link with
  | none => exact h.1
  | some id => exact h.2 id (Option.filter_eq_some_iff.mp hpayment).1

/-- **What is assumed of Razorpay**: no link it answers with has an id with the simulator's prefix. -/
def RealIds : {β : Type} → BatchCmd β → BatchWorld → Prop
  | _, .serve (.getPaymentLinkByReference reference), w =>
    match (World.handler.exec (.getPaymentLinkByReference reference) w.world).1 with
    | .ok (some link) => RealLink link
    | _ => True
  | _, _, _ => True

instance : {β : Type} → (c : BatchCmd β) → (w : BatchWorld) → Decidable (RealIds c w)
  | _, .serve (.getPaymentLinkByReference reference), w =>
    decidable_of_iff (∀ link ∈ (World.handler.exec (.getPaymentLinkByReference reference)
        w.world).1.toOption.join, RealLink link) (by
      simp only [RealIds]
      rcases (World.handler.exec (.getPaymentLinkByReference reference) w.world).1 with
        _ | _ | link <;> simp [Except.toOption])
  | _, .serve .now, _ | _, .serve (.select _ _), _ | _, .serve (.flush _ _), _
  | _, .serve (.commit _), _ | _, .serve .tokenHex, _ | _, .serve .uniform, _
  | _, .serve (.createPaymentLink _), _ | _, .serve (.completeStructured _ _), _
  | _, .clear _, _ | _, .flush _, _ | _, .commit _, _ => inferInstanceAs (Decidable True)

/-- The contract of the writers: labelled, the cases stay so. -/
def labelContract : Contract BatchCmd BatchWorld where
  toHandler := BatchWorld.handler
  rely w w' := w.Labelled → w'.Labelled
  guar w w' := w.Labelled → w'.Labelled
  cond := RealIds

instance {β : Type} (c : BatchCmd β) (w : BatchWorld) : Decidable (labelContract.cond c w) :=
  inferInstanceAs (Decidable (RealIds c w))

theorem labelContract_closed : labelContract.Closed where
  refl _ := id
  trans h h' := fun hw => h' (h hw)
  guar h := h

/-! ## The settlers -/

section Settlers

/-- The contract, for the commands of a service. -/
def serveContract : Contract Cmd BatchWorld := Prog.comap labelContract BatchCmd.serve

/-- The cases are labelled, and what is returned satisfies `Q`. -/
def Then {α : Type} (Q : α → Prop) (r : Except PyError α) (w : BatchWorld) : Prop :=
  w.Labelled ∧ ∀ a, r = .ok a → Q a

variable {α β : Type} {Q : α → Prop} {R : β → Prop} {w : BatchWorld}

theorem wp_then {p : Act α} {f : α → Act β} (h : p.wp serveContract (Then Q) w)
    (hf : ∀ a v, Q a → v.Labelled → (f a).wp serveContract (Then R) v) :
    (p >>= f).wp serveContract (Then R) w := by
  rw [Prog.wp_bind]
  refine Prog.wp_mono _ (fun r v hr => ?_) h
  cases r with
  | ok a => exact hf a v (hr.2 a rfl) hr.1
  | error e => exact ⟨hr.1, fun b hb => by cases hb⟩

/-- What a program returns is not used. -/
theorem wp_ignored {p : Act α} (h : p.wp serveContract (Then Q) w) :
    (do let _ ← p : Act Unit).wp serveContract (fun _ _ => True) w := by
  rw [Prog.wp_bind]
  refine Prog.wp_mono _ (fun r v _ => ?_) h
  cases r <;> trivial

/-- A query answers what labelled tables hold. -/
theorem wp_query {q : Tables → α} (hw : w.Labelled) (hq : ∀ t : Tables, t.Labelled → Q (q t)) :
    (Act.select q).wp serveContract (Then Q) w := by
  intro v hrely _
  have hv : v.Labelled := hrely hw
  refine ⟨fun _ => hv, hv, ?_⟩
  rintro a ⟨⟩
  exact hq _ hv

/-- A program that settles such cases only. -/
theorem wp_settles {credit : CaseRow → CaseRow → Prop} {p : Act α}
    {S : Except PyError α → Prop} (h : p.All (Cmd.Settles credit) S)
    (hcredit : ∀ case new, credit case new → Relabels case new) (hw : w.Labelled) :
    p.wp serveContract (Then fun _ => True) w := by
  have hkeeps : p.wp serveContract (fun r v => S r ∧ v.Labelled) w := by
    refine h.wp (fun {u v} (hrely : u.Labelled → v.Labelled) hu => hrely hu)
      (fun c v hc hv _ => ?_) hw
    have hkept := labelled_serve hcredit c v (.inl hc) hv
    exact ⟨fun _ => hkept, hkept⟩
  exact Prog.wp_mono _ (fun r v hr => ⟨hr.2, fun _ _ => trivial⟩) hkeeps

/-- A case nothing proves has no verifier either. -/
theorem Metrics.Labelled.via_none {c : CaseRow} (h : Metrics.Labelled c)
    (hby : c.recoveryVerifiedBy = none) : c.recoveryVerifiedVia = none := by
  cases h with
  | unproven _ hvia _ => exact hvia
  | razorpay hsome _ _ => rw [hby] at hsome; cases hsome
  | simulated hsome _ _ => rw [hby] at hsome; cases hsome

/-! ### A webhook -/

theorem labelled_caseById {t : Tables} {caseId : String} (h : t.Labelled) :
    ∀ c ∈ t.caseById caseId, Metrics.Labelled c := fun c hc =>
  h c (List.mem_of_find?_eq_some hc)

theorem wp_findCase (referenceId : String) (hw : w.Labelled) :
    (Settle.findCase referenceId).wp serveContract
      (Then fun found => ∀ pair ∈ found, Metrics.Labelled pair.1) w := by
  -- whichever table names the case, it is read out of the labelled ones
  have hcase : ∀ {caseId : String} {issued : Option String} {v : BatchWorld}, v.Labelled →
      (do return (← Act.select (·.caseById caseId)).map (·, issued) :
        Act (Option (CaseRow × Option String))).wp serveContract
          (Then fun found => ∀ pair ∈ found, Metrics.Labelled pair.1) v := by
    intro caseId issued v hv
    have hquery : (Act.select (·.caseById caseId)).wp serveContract
        (Then fun found => ∀ c ∈ found, Metrics.Labelled c) v :=
      wp_query hv fun t ht => labelled_caseById ht
    refine wp_then hquery fun found u hfound hu => ?_
    refine ⟨hu, ?_⟩
    rintro _ ⟨⟩ pair hpair
    obtain ⟨c, hc, rfl⟩ := Option.map_eq_some_iff.mp hpair
    exact hfound c hc
  refine wp_then (wp_query hw fun _ _ => trivial : (Act.select _).wp serveContract
    (Then fun _ => True) w) fun entry v _ hv => ?_
  cases entry with
  | some entry => exact hcase hv
  | none =>
    refine wp_then (wp_query hv fun _ _ => trivial : (Act.select _).wp serveContract
      (Then fun _ => True) v) fun action u _ hu => ?_
    cases action with
    | some action => exact hcase hu
    | none =>
      refine wp_then (wp_query hu fun t ht c hc => ht c (List.mem_of_find?_eq_some hc) :
        (Act.select _).wp serveContract (Then fun found => ∀ c ∈ found, Metrics.Labelled c) u)
        fun found x hfound hx => ?_
      refine ⟨hx, ?_⟩
      rintro _ ⟨⟩ pair hpair
      obtain ⟨c, hc, rfl⟩ := Option.map_eq_some_iff.mp hpair
      exact hfound c hc

theorem wp_processSettlement (rt : Runtime) (payload : Json) {eventId : String}
    (hid : startsSimulated eventId = false) (hw : w.Labelled) :
    (Settle.processSettlement rt payload eventId).wp serveContract (Then fun _ => True) w := by
  -- the event id is no simulated one, so neither is the proof it leaves
  have hsettle : ∀ reference (v : BatchWorld), v.Labelled →
      (Settle.settle rt (Ingest.normalise payload eventId) reference).wp serveContract
        (Then fun _ => True) v := by
    intro reference v hv
    unfold Settle.settle
    split
    · next referenceId =>
      refine wp_then (wp_findCase referenceId hv) fun found u hfound hu => ?_
      cases found with
      | none => exact ⟨hu, fun _ _ => trivial⟩
      | some pair =>
        obtain ⟨case, issued⟩ := pair
        have hcase : Metrics.Labelled case := hfound (case, issued) rfl
        refine wp_settles (settles_settleCase rt _ referenceId case issued) ?_ hu
        intro read new hcredit
        obtain ⟨rfl, now, now', hcounts, rfl⟩ := hcredit
        -- the case has no proof yet
        have hnone : read.recoveryVerifiedBy = none := by
          simpa [Settle.facts] using hcounts.once
        exact ⟨⟨hnone, hcase.via_none hnone⟩, _, _, _, _, rfl, hid, .inl rfl⟩
    · exact ⟨hv, fun _ h => by cases h⟩
  unfold Settle.processSettlement
  simp only
  split
  · exact ⟨hw, fun _ _ => trivial⟩
  · split
    · exact ⟨hw, fun _ _ => trivial⟩
    · next reference _ =>
      refine wp_then (Q := fun _ => True) ((Prog.wp_attempt _ _).mpr (Prog.wp_mono _
        (fun r v hr => ⟨hr.1, fun _ _ => trivial⟩) (hsettle reference w hw)))
        fun answer v _ hv => ?_
      cases answer with
      | ok outcome => exact ⟨hv, fun _ _ => trivial⟩
      | error e => exact ⟨hv, fun _ _ => trivial⟩

/-! ### A poll -/

/-- A lookup answers with a real link, if with any. -/
theorem wp_lookup (reference : String) (hw : w.Labelled) :
    (Act.getPaymentLinkByReference reference).attempt.wp serveContract
      (Then fun answer => ∀ link, answer = .ok (some link) → RealLink link) w := by
  rw [Prog.wp_attempt]
  intro v hrely hcond
  have hv : v.Labelled := hrely hw
  have hkept := @labelled_serve (fun _ _ => False) (fun _ _ h => h.elim) _
    (.getPaymentLinkByReference reference) v (.inl trivial) hv
  -- what the guard says of the answer at the instant of the call
  have hreal : RealIds (.serve (.getPaymentLinkByReference reference)) v := hcond
  refine ⟨fun _ => hkept, ?_⟩
  have hsame : (serveContract.exec (.getPaymentLinkByReference reference) v).1 =
      (World.handler.exec (.getPaymentLinkByReference reference) v.world).1 := rfl
  rw [hsame]
  rcases hanswer : (World.handler.exec (.getPaymentLinkByReference reference) v.world).1 with
    e | _ | link
  · refine ⟨hkept, ?_⟩
    rintro _ ⟨⟩ link hlink
    cases hlink
  · refine ⟨hkept, ?_⟩
    rintro _ ⟨⟩ link hlink
    cases hlink
  · refine ⟨hkept, ?_⟩
    rintro _ ⟨⟩ _ ⟨⟩
    simpa only [RealIds, hanswer] using hreal

/-- The transaction that credits a case a link paid for. -/
theorem settles_creditLink (rt : Runtime) (entry : OutboxRow) (fresh : CaseRow)
    (link : PaymentLinkResult) :
    (do
      let new := Settle.recovered fresh fresh.amountPaise (Reconcile.verifier link)
        .apiReconciliation (← Act.nowUtc)
      let (_, session) ← AuditChain.append rt { fresh := [.updateCase fresh new] }
        (Reconcile.verifiedEvent entry fresh link)
      session.commit
      return true : Act Bool).All (Cmd.Settles fun read new => read = fresh ∧ ∃ now,
        new = Settle.recovered fresh fresh.amountPaise (Reconcile.verifier link)
          .apiReconciliation now) fun _ => True := by
  rw [Prog.all_bind, Act.all_nowUtc]
  refine ⟨trivial, fun now => ?_⟩
  refine settles_append ⟨rfl, now, rfl⟩ rfl rfl fun block session htxn => ?_
  exact (settles_commit htxn).seq fun _ => trivial

theorem wp_creditLink (rt : Runtime) (entry : OutboxRow) (caseId : String)
    {link : PaymentLinkResult} (hlink : RealLink link) (hw : w.Labelled) :
    (Reconcile.creditLink rt entry caseId link).wp serveContract (Then fun _ => True) w := by
  have hquery : (Act.select (·.caseById caseId)).wp serveContract
      (Then fun found => ∀ c ∈ found, Metrics.Labelled c) w :=
    wp_query hw fun t ht => labelled_caseById ht
  refine wp_then hquery fun found v hfound hv => ?_
  cases found with
  | none => exact ⟨hv, fun _ _ => trivial⟩
  | some fresh =>
    have hfresh := hfound fresh rfl
    simp only
    split
    · exact ⟨hv, fun _ _ => trivial⟩
    · next hopen =>
      -- a case already proven is left alone
      have hnone : fresh.recoveryVerifiedBy = none := by simpa using hopen
      refine wp_settles (settles_creditLink rt entry fresh link) ?_ hv
      intro read new hcredit
      obtain ⟨rfl, now, rfl⟩ := hcredit
      exact ⟨⟨hnone, hfresh.via_none hnone⟩, _, _, _, _, rfl, hlink.verifier, .inr rfl⟩

theorem wp_pollOne (rt : Runtime) (result : ReconcileResult) (entry : OutboxRow) (case : CaseRow)
    (hw : w.Labelled) :
    (Reconcile.pollOne rt result entry case).wp serveContract (Then fun _ => True) w := by
  refine wp_then (wp_lookup entry.referenceId hw) fun answer v hanswer hv => ?_
  rcases answer with e | _ | link
  · exact ⟨hv, fun _ _ => trivial⟩
  · exact ⟨hv, fun _ _ => trivial⟩
  · simp only
    split
    · exact ⟨hv, fun _ _ => trivial⟩
    · refine wp_then (wp_creditLink rt entry case.id (hanswer link rfl) hv) fun settled u _ hu => ?_
      split <;> exact ⟨hu, fun _ _ => trivial⟩

theorem wp_pollAll (rt : Runtime) (rows : List (OutboxRow × CaseRow)) (result : ReconcileResult)
    (hw : w.Labelled) :
    (Reconcile.pollAll rt result rows).wp serveContract (Then fun _ => True) w := by
  induction rows generalizing result w with
  | nil => exact ⟨hw, fun _ _ => trivial⟩
  | cons row rest ih =>
    exact wp_then (wp_pollOne rt result row.1 row.2 hw) fun result' v _ hv => ih result' hv

theorem wp_reconcileOutstanding (rt : Runtime) (limit : ℕ) (hw : w.Labelled) :
    (Reconcile.reconcileOutstanding rt limit).wp serveContract (Then fun _ => True) w := by
  have hquery : (Act.select Reconcile.outstanding).wp serveContract (Then fun _ => True) w :=
    wp_query hw fun _ _ => trivial
  exact wp_then hquery fun rows v _ hv => wp_pollAll rt _ _ hv

end Settlers

/-! ## The writers -/

/-- The batch, a webhook of an event of Razorpay's, or a poll. -/
inductive TileWriter (rt : Runtime) : BatchAct Unit → Prop
  | webhook (payload : Json) (eventId : String) (hid : startsSimulated eventId = false) :
    TileWriter rt (BatchAct.serve (do let _ ← Settle.processSettlement rt payload eventId))
  | poll (limit : ℕ) :
    TileWriter rt (BatchAct.serve (do let _ ← Reconcile.reconcileOutstanding rt limit))
  | batch (c : BatchConfig) (corpus : List AttemptRow) (hthinks : c.Thinks) :
    TileWriter rt (do let _ ← BatchStore.runBatch rt c corpus)

/-- A statement that changes the proof of a case signs it. -/
def Write.SignsAs (via : RecoveryVerifier) : Write → Prop
  | .updateCase read new => new.recoveryVerifiedVia = some via ∨
      new.recoveryVerifiedVia = read.recoveryVerifiedVia ∧
        new.recoveryVerifiedBy = read.recoveryVerifiedBy ∧
          new.recoveredAmountPaise = read.recoveredAmountPaise
  | _ => True

/-- **Who settled a case is told by its verifier**: each writer signs what it settles, and the batch
writes no case but those it stores. -/
structure WritersSign (rt : Runtime) : Prop where
  webhook : ∀ payload eventId, (Settle.processSettlement rt payload eventId).All
    (Cmd.Writes (Write.SignsAs .webhook)) fun _ => True
  poll : ∀ limit, (Reconcile.reconcileOutstanding rt limit).All
    (Cmd.Writes (Write.SignsAs .apiReconciliation)) fun _ => True
  batch : ∀ (c : BatchConfig) corpus, c.Thinks → (BatchStore.runBatch rt c corpus).All
    (BatchCmd.Stores fun s => s.case.recoveryVerifiedVia =
      s.case.recoveryVerifiedBy.map fun _ => .simulator) fun _ => True

section Writers

variable {rt : Runtime}

theorem signs_settleTxn {credit : CaseRow → CaseRow → Prop} {via : RecoveryVerifier}
    {ws : List Write} (h : SettleTxn credit ws)
    (hcredit : ∀ case new, credit case new → new.recoveryVerifiedVia = some via) :
    ∀ write ∈ ws, write.SignsAs via := by
  intro write hwrite
  cases h with
  | organic hrecovered horganic =>
    rw [List.mem_singleton.mp hwrite]
    exact .inr ⟨rfl, rfl, rfl⟩
  | credited hcredited hname hcase =>
    rcases List.mem_cons.mp hwrite with rfl | hwrite
    · exact .inl (hcredit _ _ hcredited)
    · rw [List.mem_singleton.mp hwrite]
      trivial
  | lost hcredited hname hcase =>
    rw [List.mem_singleton.mp hwrite]
    trivial

theorem signs_settles {credit : CaseRow → CaseRow → Prop} {via : RecoveryVerifier}
    (hcredit : ∀ case new, credit case new → new.recoveryVerifiedVia = some via) {β : Type}
    (c : Cmd β) (h : c.Settles credit) : c.Writes (Write.SignsAs via) := by
  cases c with
  | commit ws => exact signs_settleTxn h hcredit
  | _ => trivial

/-- The case a turn of the batch draws is signed by the simulator, if it is proven. -/
theorem drawn_signed {row : CorpusRow} {playbook : Playbook} {r : BatchRecord}
    (h : r.LeftByRun row playbook) :
    r.case.recoveryVerifiedVia = r.case.recoveryVerifiedBy.map fun _ => .simulator := by
  obtain ⟨final, id, paid, now, hcase⟩ := h
  rw [hcase]
  rfl

theorem writersSign (rt : Runtime) : WritersSign rt where
  webhook payload eventId := (settles_processSettlement rt payload eventId).mono
    (fun c hc => signs_settles (fun case new h => by
      obtain ⟨referenceId, issued, now, now', hcounts, rfl⟩ := h
      rfl) c hc) fun _ hr => hr
  poll limit := (settles_reconcileOutstanding rt limit).mono
    (fun c hc => signs_settles (fun case new h => by
      obtain ⟨hnone, id, now, rfl⟩ := h
      rfl) c hc) fun _ hr => hr
  batch c corpus hthinks := stores_runBatch hthinks corpus fun hsound hdrawn s hs => by
    rw [hs.case]
    exact drawn_signed hdrawn

/-- **Every writer keeps the cases labelled.** -/
theorem wp_writer {p : BatchAct Unit} (h : TileWriter rt p) {w : BatchWorld} (hw : w.Labelled) :
    p.wp labelContract (fun _ _ => True) w := by
  cases h with
  | webhook payload eventId hid =>
    exact (Prog.wp_mapCmd _).mpr (wp_ignored (wp_processSettlement rt payload hid hw))
  | poll limit => exact (Prog.wp_mapCmd _).mpr (wp_ignored (wp_reconcileOutstanding rt limit hw))
  | batch c corpus hthinks =>
    have hstores := @stores_runBatch rt (fun s => Metrics.Labelled s.case) c hthinks corpus
      fun hsound hdrawn s hs => by
        obtain ⟨final, id, paid, now, hcase⟩ := hdrawn
        rw [hs.case, hcase]
        exact labelled_caseRow final _ _ id paid now
    have hunit : ∀ result : BatchTally × List String, (pure () : BatchAct Unit).All
        (BatchCmd.Stores fun s => Metrics.Labelled s.case) fun _ => True := fun _ => trivial
    exact (hstores.seq hunit).keeps (fun c v hc _ hv => labelled_stores c v hc hv) w

end Writers

/-! ## Every run -/

/-- **Every paisa recovered is on one tile**: that of what Razorpay proved, if a webhook or a poll
settled its case, and that of what the simulator wrote, if the batch did. -/
structure CountedOnce (cases : List CaseRow) (report : OverviewReport) : Prop where
  tile : ∀ c ∈ cases, c.recoveredAmountPaise ≠ 0 → Xor (OnVerified c) (OnSimulated c)
  verified : ∀ c ∈ cases, OnVerified c ↔ c.Verified
  simulated : ∀ c ∈ cases, OnSimulated c ↔ c.recoveryVerifiedVia = some .simulator
  grossRecovered : report.grossRecovered.paise =
    ((cases.filter fun c => c.Verified).map (·.recoveredAmountPaise)).sum
  grossSimulated : report.grossSimulated.paise =
    ((cases.filter fun c => c.recoveryVerifiedVia = some .simulator).map
      (·.recoveredAmountPaise)).sum
  total : (cases.map (·.recoveredAmountPaise)).sum =
    report.grossRecovered.paise + report.grossSimulated.paise

/-- Labelled cases are counted once. -/
theorem Tables.Labelled.countedOnce {b : Books} (h : b.db.tables.Labelled) (texts : ReportTexts)
    (fired : String → Bool) (now : DateTime) (attribution : RecoveryReport) :
    CountedOnce b.db.tables.cases (overview texts fired b now attribution) where
  tile c hc hamount := by
    rcases (h c hc).on_tile hamount with hon | hon
    · exact .inl ⟨hon, fun hs => not_both ⟨hon, hs⟩⟩
    · exact .inr ⟨hon, fun hv => not_both ⟨hv, hon⟩⟩
  verified c hc := (h c hc).onVerified_iff
  simulated c hc := (h c hc).onSimulated_iff
  grossRecovered := by
    show (((b.db.tables.cases.filter _).map _).sum) = _
    rw [List.filter_congr fun c hc => decide_eq_decide.mpr (h c hc).onVerified_iff]
  grossSimulated := by
    show (((b.db.tables.cases.filter _).map _).sum) = _
    rw [List.filter_congr fun c hc => decide_eq_decide.mpr (h c hc).onSimulated_iff]
  total := sum_recovered h

/-- **In every run of batches, webhooks and polls, from a database without cases**, as long as no id
of Razorpay's has the simulator's prefix. -/
theorem writers_countedOnce (rt : Runtime) {w : BatchWorld}
    (hempty : w.world.db.tables.cases = []) {moves : List (Move BatchCmd PyError)}
    (hstart : ∀ m ∈ moves, Pool.StartsOnly (TileWriter rt) m)
    (hmeets : ({ state := w } : Pool BatchCmd PyError BatchWorld).Meets labelContract moves)
    (texts : ReportTexts) (fired : String → Bool) (now : DateTime) (attribution : RecoveryReport) :
    CountedOnce (runWriters w moves).world.db.tables.cases
      (overview texts fired (runWriters w moves).books now attribution) ∧ WritersSign rt := by
  have hw : w.Labelled := by
    intro c hc
    rw [hempty] at hc
    cases hc
  obtain ⟨-, hrely⟩ := Pool.safe_run labelContract_closed (P := { state := w })
    (fun p hp => by simp at hp) (fun p hp v hv => wp_writer hp (hv hw)) hstart hmeets
  have hlabelled : (runWriters w moves).Labelled := hrely hw
  exact ⟨@Tables.Labelled.countedOnce (runWriters w moves).books hlabelled texts fired now
    attribution, writersSign rt⟩

theorem startsOnly_tileWriter (amount : ℤ) :
    ∀ m ∈ batchThenWebhook amount, Pool.StartsOnly (TileWriter plainRuntime) m := by
  intro m hm
  simp only [batchThenWebhook, List.mem_append, List.mem_cons, List.mem_replicate, List.not_mem_nil,
    or_false] at hm
  rcases hm with ((rfl | rfl) | ⟨-, rfl⟩) | ⟨-, rfl⟩
  · apply TileWriter.batch
    intro complete hcomplete
    cases hcomplete
  · exact .webhook _ "evt_1" (by decide)
  · trivial
  · trivial

/-- The case of a batch, paid by a webhook after it. -/
theorem writers_countedOnce_batchThenWebhook :
    CountedOnce (runWriters emptyBooks (batchThenWebhook 250000)).world.db.tables.cases
      (overview plainTexts (fun _ => false)
        (runWriters emptyBooks (batchThenWebhook 250000)).books { utc := 8 * hour }
        (recoveryReport plainTexts
          (runWriters emptyBooks (batchThenWebhook 250000)).books.outcomes)) ∧
      WritersSign plainRuntime :=
  writers_countedOnce plainRuntime rfl (startsOnly_tileWriter 250000) (by decide +kernel) _ _ _ _

end AegisMerchant
