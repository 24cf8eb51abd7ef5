import AegisMerchant.Workers.DrainLaws

/-!
# On committed terms

The row of an action is committed before its link is asked for, and says what the link charges and
what the action gives away. A row that exists is reused by its reference alone.

`along_execute_onCommittedTerms` is one execution, `drainOnce_onCommittedTerms` one pass, and
`inTurn_onCommittedTerms` any calls in turn; `not_inTurn_onCommittedTerms` reuses a row under other
terms.
-/

namespace AegisMerchant

open Time Rows

/-! ## The terms of an intent -/

namespace OutboxRow

/-- `charge_amount_paise` of the payload. -/
def charge? (row : OutboxRow) : Option ℤ :=
  row.payloadJson.bind fun payload => (payload.get? "charge_amount_paise").bind Json.toInt?

/-- `discount_pct` and `discount_amount_paise` of the payload. -/
def discount? (row : OutboxRow) : Option (ℚ × ℤ) :=
  row.payloadJson.bind fun payload =>
    ((payload.get? "discount_pct").bind Json.toRat?).bind fun pct =>
      ((payload.get? "discount_amount_paise").bind Json.toInt?).map (pct, ·)

/-- The row charges what an action charges. -/
def Charges (row : OutboxRow) (applied : AppliedAction) : Prop :=
  row.charge? = some applied.chargeAmountPaise

/-- The row gives away what an action gives away. -/
def Discounts (row : OutboxRow) (applied : AppliedAction) : Prop :=
  row.discount? = some (applied.discountPct, applied.discountAmountPaise)

instance (row : OutboxRow) (applied : AppliedAction) : Decidable (row.Charges applied) :=
  inferInstanceAs (Decidable (_ = _))

instance (row : OutboxRow) (applied : AppliedAction) : Decidable (row.Discounts applied) :=
  inferInstanceAs (Decidable (_ = _))

/-- A row carries the terms of the action it reads back as. -/
theorem terms_of_action {row : OutboxRow} {applied : AppliedAction}
    (h : row.action = .ok applied) : row.Charges applied ∧ row.Discounts applied := by
  unfold action at h
  unfold Charges Discounts charge? discount?
  cases hpayload : row.payloadJson with
  | none => simp [hpayload] at h
  | some payload =>
    rw [hpayload] at h
    obtain ⟨hcharge, hpct, hdiscount⟩ := AppliedAction.fromPayload_terms h
    refine ⟨hcharge, ?_⟩
    rw [Option.bind_some, hpct, Option.bind_some, hdiscount]
    rfl

/-- And of the action it was written for. -/
theorem terms_of_asPayload {row : OutboxRow} {applied : AppliedAction}
    (h : row.payloadJson = some applied.asPayload) :
    row.Charges applied ∧ row.Discounts applied := by
  unfold Charges Discounts charge? discount?
  rw [h]
  exact ⟨rfl, rfl⟩

theorem SameIntent.charges {row row' : OutboxRow} {applied : AppliedAction}
    (h : row.SameIntent row') (hcharges : row.Charges applied) : row'.Charges applied := by
  unfold Charges charge? at *
  rw [h.2.2.2]
  exact hcharges

theorem SameIntent.discounts {row row' : OutboxRow} {applied : AppliedAction}
    (h : row.SameIntent row') (hdiscounts : row.Discounts applied) : row'.Discounts applied := by
  unfold Discounts discount? at *
  rw [h.2.2.2]
  exact hdiscounts

end OutboxRow

/-! ## The law -/

/-- An action that is recorded finds the row of its reference, and gives away what the row says. -/
def Write.OnCommittedTerms (t : Tables) : Write → Prop
  | .insertAction a => ∃ row ∈ t.outbox, a.referenceId = some row.referenceId ∧
      row.discount? = some (a.discountPctApplied, a.discountAmountPaise)
  | _ => True

/-- **On committed terms**: a command that makes a link finds the row of its reference committed,
and the link charges what the row says; and so with every action that is recorded. -/
def OnCommittedTerms : {β : Type} → Cmd β → World → Prop
  | _, .createPaymentLink request, w =>
    w.links.length < (World.handler.exec (.createPaymentLink request) w).2.links.length →
      ∃ row ∈ w.db.tables.outbox, row.referenceId = request.referenceId ∧
        row.charge? = some request.amountPaise
  | _, .commit ws, w => ∀ write ∈ ws, write.OnCommittedTerms w.db.tables
  | _, _, _ => True

instance (t : Tables) : (write : Write) → Decidable (write.OnCommittedTerms t)
  | .insertAction a => inferInstanceAs (Decidable (∃ row ∈ t.outbox,
      a.referenceId = some row.referenceId ∧
        row.discount? = some (a.discountPctApplied, a.discountAmountPaise)))
  | .insertOutbox _ | .updateOutbox _ _ | .insertContact _ | .insertDeadLetter _
  | .updateDeadLetter _ _ | .updateCase _ _ | .updateApproval _ _ | .insertBlock _ =>
    inferInstanceAs (Decidable True)

instance : {β : Type} → (c : Cmd β) → (w : World) → Decidable (OnCommittedTerms c w)
  | _, .createPaymentLink request, w => inferInstanceAs (Decidable (_ → ∃ row ∈ w.db.tables.outbox,
      row.referenceId = request.referenceId ∧ row.charge? = some request.amountPaise))
  | _, .commit ws, w =>
    inferInstanceAs (Decidable (∀ write ∈ ws, write.OnCommittedTerms w.db.tables))
  | _, .now, _ | _, .select _ _, _ | _, .flush _ _, _ | _, .tokenHex, _ | _, .uniform, _
  | _, .getPaymentLinkByReference _, _ | _, .completeStructured _ _, _ =>
    inferInstanceAs (Decidable True)

/-- What neither asks for a link nor records an action is on committed terms. -/
theorem onCommittedTerms_of_idle {β : Type} (c : Cmd β) (v : World) (h : c.Books ∅ ∅) :
    OnCommittedTerms c v := by
  cases c with
  | createPaymentLink request =>
    obtain ⟨_, hmem, -⟩ := h
    exact hmem.elim
  | commit ws =>
    intro write hmem
    cases write with
    | insertAction a =>
      obtain ⟨_, hnone, -⟩ := h _ hmem
      exact hnone.elim
    | _ => trivial
  | _ => trivial

namespace World

theorem linkOf_register {w : World} {reference : String} (h : (w.linkOf reference).isSome)
    (link : PaymentLinkResult) : ((w.register link).linkOf reference).isSome := by
  unfold register
  split
  · exact h
  · simp only [linkOf, List.find?_append] at h ⊢
    rw [Option.isSome_or, h, Bool.true_or]

/-- The provider keeps the links it holds. -/
theorem exec_linkOf {reference : String} {β : Type} (c : Cmd β) {w : World}
    (h : (w.linkOf reference).isSome) : ((handler.exec c w).2.linkOf reference).isSome := by
  cases c with
  | commit ws | flush sent ws =>
    simp only [handler, serve]
    split <;> exact h
  | createPaymentLink request =>
    simp only [handler, serve, create]
    split
    · split
      · exact h
      · exact linkOf_register (w := { w.advance with calls := _ }) h _
    · exact h
    · exact linkOf_register (w := { w.advance with calls := _ }) h _
    · exact h
    · exact h
  | _ => exact h

/-- Under a reference it holds one for, it makes no other. -/
theorem links_of_linkOf {request : PaymentLinkRequest} {w : World}
    (h : (w.linkOf request.referenceId).isSome) :
    (handler.exec (.createPaymentLink request) w).2.links = w.links := by
  have hlink : ∀ link : PaymentLinkResult, link.referenceId = request.referenceId →
      (({ w.advance with calls := w.advance.calls ++ [(w.advance.clock, request)] } :
        World).register link).links = w.links := by
    intro link href
    unfold register
    rw [if_pos]
    · rfl
    · rw [href]
      exact h
  simp only [handler, serve, create]
  split
  · split
    · rfl
    · exact hlink _ rfl
  · rfl
  · exact hlink _ rfl
  · rfl
  · rfl

end World

/-! ## One execution -/

namespace OutboxExecutor

variable {s : RecoveryState} {applied : AppliedAction} {w : World}

/-- The link of an action may be asked for: its row is there, and charges the same unless the
provider holds the link. -/
def MayAsk (applied : AppliedAction) (w : World) : Prop :=
  ∃ row, w.db.tables.Holds row ∧ row.referenceId = applied.referenceId ∧
    (row.Charges applied ∨ (w.linkOf applied.referenceId).isSome)

/-- An action may be recorded: its row is there, and gives away the same. -/
def MayRecord (applied : AppliedAction) (w : World) : Prop :=
  ∃ row, w.db.tables.Holds row ∧ row.referenceId = applied.referenceId ∧ row.Discounts applied

theorem exec_holds {row : OutboxRow} {β : Type} (c : Cmd β) {w : World}
    (h : w.db.tables.Holds row) : (World.handler.exec c w).2.db.tables.Holds row :=
  World.exec_keeps_tables (I := (Tables.Holds · row))
    (fun _ write ht => Tables.apply_holds ht write) c w h

theorem exec_mayAsk {β : Type} (c : Cmd β) (v : World) (h : MayAsk applied v) :
    MayAsk applied (World.handler.exec c v).2 := by
  obtain ⟨row, hholds, href, hterms⟩ := h
  exact ⟨row, exec_holds c hholds, href, hterms.imp_right (World.exec_linkOf c)⟩

theorem exec_mayRecord {β : Type} (c : Cmd β) (v : World) (h : MayRecord applied v) :
    MayRecord applied (World.handler.exec c v).2 := by
  obtain ⟨row, hholds, href, hterms⟩ := h
  exact ⟨row, exec_holds c hholds, href, hterms⟩

/-- A request for a link that may be asked for is on committed terms. -/
theorem onCommittedTerms_of_charges {request : PaymentLinkRequest} (h : MayAsk applied w)
    (hcharges : request.Charges applied) :
    OnCommittedTerms (.createPaymentLink request) w := by
  intro hmade
  obtain ⟨row, ⟨row', hmem, hsame⟩, href, hterms⟩ := h
  rcases hterms with hterms | hheld
  · refine ⟨row', hmem, (hsame.2.1.trans href).trans hcharges.1.symm, ?_⟩
    rw [hcharges.2]
    exact hsame.charges hterms
  · rw [World.links_of_linkOf (hcharges.1 ▸ hheld)] at hmade
    exact absurd hmade (lt_irrefl _)

/-- What asks for a link that may be asked for, and records nothing, is on committed terms. -/
theorem onCommittedTerms_of_ask {β : Type} (c : Cmd β) (v : World)
    (h : c.Books {applied} ∅) (hask : MayAsk applied v) : OnCommittedTerms c v := by
  cases c with
  | createPaymentLink request =>
    obtain ⟨_, rfl, hcharges⟩ := h
    exact onCommittedTerms_of_charges hask hcharges
  | commit ws => exact onCommittedTerms_of_idle (.commit ws) v h
  | _ => trivial

/-- What records an action that may be recorded, too. -/
theorem onCommittedTerms_of_record {β : Type} (c : Cmd β) (v : World)
    (h : c.Books {applied} {applied}) (hask : MayAsk applied v) (hrecord : MayRecord applied v) :
    OnCommittedTerms c v := by
  cases c with
  | createPaymentLink request =>
    obtain ⟨_, rfl, hcharges⟩ := h
    exact onCommittedTerms_of_charges hask hcharges
  | commit ws =>
    intro write hmem
    cases write with
    | insertAction a =>
      obtain ⟨_, rfl, hrecords⟩ := h _ hmem
      obtain ⟨row, ⟨row', hmem', hsame⟩, href, hterms⟩ := hrecord
      refine ⟨row', hmem', ?_, ?_⟩
      · rw [hrecords.1, hsame.2.1, href]
      · rw [hrecords.2.1, hrecords.2.2]
        exact hsame.discounts hterms
    | _ => trivial
  | _ => trivial

/-! ## A row and the action read from it -/

/-- An intent agrees with an action: it charges the same unless the provider holds the link, and
gives away the same unless the action is recorded. -/
def Agrees (row : OutboxRow) (applied : AppliedAction) (w : World) : Prop :=
  (row.Charges applied ∨ (w.linkOf applied.referenceId).isSome) ∧
    (row.Discounts applied ∨ row.status = .sent)

instance (row : OutboxRow) (applied : AppliedAction) (w : World) :
    Decidable (Agrees row applied w) := inferInstanceAs (Decidable (_ ∧ _))

/-- **An execution starts on terms**: if its action is authorised, an intent that is there under its
reference agrees with it. -/
def StartsOnTerms (rt : Runtime) (s : RecoveryState) (w : World) : Prop :=
  ∀ applied ∈ s.policyApplied, ∀ token ∈ s.policyToken, token.verify rt = .ok () →
    ∀ row ∈ w.db.tables.outboxByReference applied.referenceId, Agrees row applied w

instance (rt : Runtime) (s : RecoveryState) (w : World) : Decidable (StartsOnTerms rt s w) := by
  unfold StartsOnTerms
  infer_instance

/-- An action that is recorded already is not recorded again. -/
theorem along_phaseTwo_of_sent {row : OutboxRow} {result : PaymentLinkResult}
    (hfound : w.db.tables.outboxById row.id = some row) (hsent : row.status = .sent) :
    (phaseTwo s applied row.id result).Along World.handler OnCommittedTerms w := by
  rw [phaseTwo, Prog.along_bind, Act.along_nowUtc, Act.run_nowUtc]
  refine ⟨trivial, ?_⟩
  simp only
  rw [Prog.along_bind, Act.along_select, Act.run_select, World.after_db, hfound]
  refine ⟨trivial, ?_⟩
  simp only [if_pos hsent]
  trivial

/-- An execution whose action may be asked for and recorded is on committed terms. -/
theorem along_of_mayRecord {p : Act RecoveryState}
    (hp : p.All (Cmd.Books {applied} {applied}) fun _ => True)
    (hask : MayAsk applied w) (hrecord : MayRecord applied w) :
    p.Along World.handler OnCommittedTerms w :=
  hp.along_of_inv (I := fun v => MayAsk applied v ∧ MayRecord applied v)
    (fun c v hv => ⟨exec_mayAsk c v hv.1, exec_mayRecord c v hv.2⟩)
    (fun c v hc hv => onCommittedTerms_of_record c v hc hv.1 hv.2) ⟨hask, hrecord⟩

/-- After the intent of a row that is sent already, the link is asked for and nothing is recorded. -/
theorem along_afterIntent_of_sent (ex : OutboxExecutor) {row : OutboxRow}
    (hfound : w.db.tables.outboxById row.id = some row) (hsent : row.status = .sent)
    (hask : MayAsk applied w) :
    ((callProvider s applied).attempt >>= fun
      | .error (.providerRetryable m) => do
        ex.scheduleRetry row.id (.providerRetryable m)
        trace s .executing
      | .error (.providerPermanent m) => do
        deadLetter row.id (.providerPermanent m) m
        trace s .failedPermanent
      | .error exc => throw exc
      | .ok (result, _) => do
        phaseTwo s applied row.id result
        trace (executed s applied result) .monitoring :
      Act RecoveryState).Along World.handler OnCommittedTerms w := by
  have hidle : ∀ {p : Act RecoveryState}, p.All (Cmd.Books ∅ ∅) (fun _ => True) →
      ∀ v, p.Along World.handler OnCommittedTerms v :=
    fun hp v => hp.along onCommittedTerms_of_idle v
  rw [Prog.along_bind, Prog.along_attempt, Prog.run_attempt]
  refine ⟨(books_callProvider s applied).along_of_inv exec_mayAsk onCommittedTerms_of_ask hask, ?_⟩
  -- the provider's answer leaves the row as it is
  have hdb := World.run_quiet (quiet_callProvider s applied) w
  generalize (callProvider s applied).run World.handler w = answer at hdb ⊢
  rcases answer with ⟨e | ⟨result, _⟩, u⟩
  · cases e with
    | providerRetryable m =>
      exact hidle ((books_scheduleRetry ex _ _).seq fun _ => books_trace s _) u
    | providerPermanent m =>
      exact hidle ((books_deadLetter _ _ m).seq fun _ => books_trace s _) u
    | _ => trivial
  · have hu : u.db.tables.outboxById row.id = some row := by
      rw [hdb]
      exact hfound
    simp only
    rw [Prog.along_bind]
    refine ⟨along_phaseTwo_of_sent hu hsent, ?_⟩
    split
    · exact hidle (books_trace _ _) _
    · trivial

/-- **An execution that starts on terms stays on them.** -/
theorem along_execute_onCommittedTerms {rt : Runtime} (ex : OutboxExecutor)
    (h : StartsOnTerms rt s w) :
    (ex.execute rt s).Along World.handler OnCommittedTerms w := by
  unfold execute
  split
  · next applied token happlied htoken =>
    rw [Prog.along_bind, Act.run_liftExcept]
    refine ⟨Act.along_liftExcept, ?_⟩
    cases hverify : token.verify rt with
    | error e => trivial
    | ok _ =>
      have hterms := h applied happlied token htoken hverify
      have hphaseOne : (phaseOne s applied).All (Cmd.Books ∅ ∅) fun _ => True :=
        books_phaseOne s applied
      simp only
      rw [Prog.along_bind]
      refine ⟨hphaseOne.along onCommittedTerms_of_idle w, ?_⟩
      cases hfound : w.db.tables.outboxByReference applied.referenceId with
      | none =>
        rw [run_phaseOne_of_none hfound]
        cases hdb : w.db.commit [.insertOutbox (intentOf (w.after 1) s applied)] with
        | none => trivial
        | some db =>
          -- the intent is the row
          have hholds : db.tables.Holds (intentOf (w.after 1) s applied) := by
            rw [Database.commit_eq_some.mp hdb]
            exact Tables.holds_of_mem (List.mem_append_right _ (List.mem_singleton_self _))
          have hrow := OutboxRow.terms_of_asPayload
            (show (intentOf (w.after 1) s applied).payloadJson = some applied.asPayload from rfl)
          exact along_of_mayRecord (books_afterIntent ex s applied _)
            ⟨_, hholds, rfl, .inl hrow.1⟩ ⟨_, hholds, rfl, hrow.2⟩
      | some row =>
        -- an earlier execution committed the row: its terms are what the hypothesis is about
        rw [run_phaseOne_of_some hfound]
        obtain ⟨hmem, href⟩ := mem_of_outboxByReference hfound
        obtain ⟨hcharges, hdiscounts⟩ := hterms row hfound
        have hholds : (w.after 1).db.tables.Holds row := Tables.holds_of_mem hmem
        have hask : MayAsk applied (w.after 1) := ⟨row, hholds, href, hcharges⟩
        rcases hdiscounts with hdiscounts | hsent
        · exact along_of_mayRecord (books_afterIntent ex s applied _) hask
            ⟨row, hholds, href, hdiscounts⟩
        · exact along_afterIntent_of_sent ex (outboxById_of_mem hmem) hsent hask
  · have htrace : (trace s .suppressed).All (Cmd.Books ∅ ∅) fun _ => True := books_trace s _
    exact htrace.along onCommittedTerms_of_idle w

end OutboxExecutor

/-! ## One pass -/

namespace OutboxDrainer

variable {rt : Runtime} {d : OutboxDrainer} {w : World}

/-- A turn starts on terms: it reads its action off the row. -/
theorem startsOnTerms_resumed {row : OutboxRow} {case : CaseRow} {applied : AppliedAction}
    (hholds : w.db.tables.Holds row) (hmatches : row.Matches) (haction : row.action = .ok applied) :
    OutboxExecutor.StartsOnTerms rt (resumed rt case applied w) (w.after 2) := by
  rintro _ ⟨⟩ token - - found hfound
  obtain ⟨row', hrow', hsame⟩ := outboxByReference_of_holds hholds
  obtain ⟨hcharges, hdiscounts⟩ := OutboxRow.terms_of_action haction
  rw [World.after_db, hmatches.reference haction, Option.mem_def, hrow',
    Option.some.injEq] at hfound
  subst hfound
  exact ⟨.inl (hsame.charges hcharges), .inl (hsame.discounts hdiscounts)⟩

/-- **A pass is on committed terms.** -/
theorem drainOnce_onCommittedTerms {includeStale : Bool} (hw : w.db.tables.AllMatch) :
    (d.drainOnce rt includeStale).Along World.handler OnCommittedTerms w := by
  have hmarks : ∀ {β : Type} (c : Cmd β) (v : World), c.Marks → OnCommittedTerms c v :=
    fun c v hc => onCommittedTerms_of_idle c v hc.books
  rw [along_drainOnce hmarks]
  intro turn hturn
  obtain ⟨hmem, hholds⟩ := passTurn_holds hturn
  rw [along_drainRow hmarks]
  intro case applied hresumes
  exact OutboxExecutor.along_execute_onCommittedTerms _
    (startsOnTerms_resumed hholds (hw _ hmem) hresumes.2.2)

end OutboxDrainer

/-! ## Any calls in turn -/

/-- A call of the executor, or a pass of the drainer. -/
inductive ExecutorCall where
  | execute (ex : OutboxExecutor) (s : RecoveryState)
  | drainOnce (d : OutboxDrainer) (includeStale : Bool)

namespace ExecutorCall

def act (rt : Runtime) : ExecutorCall → Act Unit
  | execute ex s => do
    let _ ← ex.execute rt s
    return ()
  | drainOnce d includeStale => do
    let _ ← d.drainOnce rt includeStale
    return ()

/-- Calls in a row. One that raises is over, and the next one starts. -/
def inTurn (rt : Runtime) : List ExecutorCall → Act Unit
  | [] => return ()
  | call :: rest => do
    let _ ← (call.act rt).attempt
    inTurn rt rest

/-- An execution starts on terms; a pass always does. -/
def StartsOnTerms (rt : Runtime) : ExecutorCall → World → Prop
  | execute _ s, w => OutboxExecutor.StartsOnTerms rt s w
  | drainOnce _ _, _ => True

/-- Each of the calls starts on terms, where the calls before it leave off. -/
def AllStartOnTerms (rt : Runtime) : List ExecutorCall → World → Prop
  | [], _ => True
  | call :: rest, w =>
    call.StartsOnTerms rt w ∧ AllStartOnTerms rt rest ((call.act rt).attempt.run World.handler w).2

instance (rt : Runtime) : (call : ExecutorCall) → (w : World) → Decidable (call.StartsOnTerms rt w)
  | execute _ s, w => inferInstanceAs (Decidable (OutboxExecutor.StartsOnTerms rt s w))
  | drainOnce _ _, _ => inferInstanceAs (Decidable True)

instance decidableAllStartOnTerms (rt : Runtime) :
    (calls : List ExecutorCall) → (w : World) → Decidable (AllStartOnTerms rt calls w)
  | [], _ => inferInstanceAs (Decidable True)
  | call :: rest, w =>
    have := decidableAllStartOnTerms rt rest ((call.act rt).attempt.run World.handler w).2
    inferInstanceAs (Decidable (call.StartsOnTerms rt w ∧ AllStartOnTerms rt rest _))

variable {rt : Runtime} {w : World}

theorem books_act (call : ExecutorCall) :
    (call.act rt).All (Cmd.Books Set.univ Set.univ) fun _ => True := by
  cases call with
  | execute ex s =>
    exact Prog.All.seq ((OutboxExecutor.books_execute ex rt s).mono
      (Cmd.Books.mono (Set.subset_univ _) (Set.subset_univ _)) fun _ h => h) fun _ => trivial
  | drainOnce d includeStale =>
    exact (OutboxDrainer.books_drainOnce rt d includeStale).seq fun _ => trivial

/-- One call. -/
theorem along_act {call : ExecutorCall} (hw : w.db.tables.AllMatch)
    (h : call.StartsOnTerms rt w) : (call.act rt).Along World.handler OnCommittedTerms w := by
  have hreturn : ∀ {α : Type} {p : Act α}, p.Along World.handler OnCommittedTerms w →
      (p >>= fun _ => pure ()).Along World.handler OnCommittedTerms w := by
    intro α p hp
    rw [Prog.along_bind]
    refine ⟨hp, ?_⟩
    split <;> trivial
  cases call with
  | execute ex s => exact hreturn (OutboxExecutor.along_execute_onCommittedTerms ex h)
  | drainOnce d includeStale => exact hreturn (OutboxDrainer.drainOnce_onCommittedTerms hw)

/-- **Calls that each start on terms stay on committed terms**: every link they make charges what
the row of its reference said before the call, and every action they record gives away what that row
says. -/
theorem inTurn_onCommittedTerms (rt : Runtime) (calls : List ExecutorCall) (w : World)
    (hw : w.db.tables.AllMatch) (h : AllStartOnTerms rt calls w) :
    (inTurn rt calls).Along World.handler OnCommittedTerms w := by
  induction calls generalizing w with
  | nil => trivial
  | cons call rest ih =>
    rw [inTurn, Prog.along_bind, Prog.along_attempt, Prog.run_attempt]
    refine ⟨along_act hw h.1, ih _ ?_ (by simpa only [Prog.run_attempt] using h.2)⟩
    exact Prog.Along.run (I := fun v : World => v.db.tables.AllMatch)
      ((books_act call).along (fun c _ hc => hc) w) (fun c v => Cmd.Books.keeps_allMatch c v) hw

/-- The same attempt, decided again with a tenth off. -/
def discountedAction : AppliedAction :=
  { linkAction 1 with
    discountPct := 1 / 10, discountAmountPaise := 25000, chargeAmountPaise := 225000 }

/-- A provider that does not hear the first request for a link. -/
def deafOnce : World :=
  { worldOf oneCase with
    fate := fun n =>
      { elapsed := 1000, hex := String.ofList (List.replicate n 'a')
        create := if n < 8 then .lostBefore "timeout" else .served } }

set_option maxRecDepth 20000 in
/-- A second execution of the same decision, and a pass. -/
theorem inTurn_onCommittedTerms_again :
    (inTurn plainRuntime [.execute {} (authorisedState (linkAction 1)),
        .execute {} (authorisedState (linkAction 1)), .drainOnce {} true]).Along World.handler
      OnCommittedTerms deafOnce :=
  inTurn_onCommittedTerms plainRuntime _ _ (fun row h => by cases h) (by decide +kernel)

set_option maxRecDepth 20000 in
/-- A second execution under another decision makes a link that charges what no row says. -/
theorem not_inTurn_onCommittedTerms :
    ¬∀ (rt : Runtime) (calls : List ExecutorCall) (w : World), w.db.tables.AllMatch →
      (inTurn rt calls).Along World.handler OnCommittedTerms w := by
  intro h
  have hrun := h plainRuntime [.execute {} (authorisedState (linkAction 1)),
    .execute {} (authorisedState discountedAction)] deafOnce fun row h => by cases h
  revert hrun
  decide +kernel

end ExecutorCall

end AegisMerchant
