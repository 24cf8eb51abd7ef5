import AegisMerchant.Guardrails.MayAct
import AegisMerchant.Workers.DrainLaws

/-!
# What the drainer re-checks before it sends

An intent may wait in the outbox while the facts it was authorised on change. The drainer looks at
one of them, the status of the case; the others it sends regardless of.

So whether a pass keeps to the stopping rules is decided by what the rules would say of each row when
its turn starts (`TurnClear`): `drainOnce_rulesAllow` says that clear turns are enough, and that they
are needed, save where a rule ceases to stand against an action in the middle of its turn.
-/

namespace AegisMerchant

open Time

/-! ## The facts at drain time -/

def Tables.merchantById (t : Tables) (id : String) : Option MerchantRow :=
  t.merchants.find? fun m => m.id = id

def Tables.consentOf (t : Tables) (customerId : String) : Option ConsentRow :=
  t.consents.find? fun c => c.customerId = customerId

/-- The contacts of a customer after an instant, as the rolling windows count them. -/
def Tables.contactsAfter (t : Tables) (customerId : String) (since : DateTime) : ℤ :=
  t.contacts.countP fun c => c.customerId = customerId ∧ since < c.sentAt

def Tables.lastContactAt (t : Tables) (customerId : String) : Option DateTime :=
  ((t.contacts.filter fun c => c.customerId = customerId).map (·.sentAt)).foldl
    (fun latest at' => some (latest.elim at' fun l => if l < at' then at' else l)) none

/-- What the stopping rules judge an action of a case by at an instant: the case, the consents of
its customer, the contact ledger and the kill switch as they are stored, and the action's own class
and discount. What no table of the model holds (the policy, the order's status, a promise, the
budgets spent) is `other`'s. -/
def currentFacts (other : StoppingContext) (t : Tables) (case : CaseRow) (applied : AppliedAction)
    (now : DateTime) : StoppingContext :=
  let consent := (t.consentOf case.customerId).getD { customerId := case.customerId }
  { other with
    nowUtc := now
    caseStatus := case.status
    attemptNo := case.attemptNo
    discountBearingAttempts := case.discountBearingAttempts
    windowExpiresAt := some case.windowExpiresAt
    optedOut := consent.optedOut
    dndRegistered := consent.dndRegistered
    marketingConsent := consent.marketing
    transactionalConsent := consent.transactional
    contacts24h := t.contactsAfter case.customerId (now.add (-day))
    contacts48h := t.contactsAfter case.customerId (now.add (-(2 * day)))
    lastContactAt := t.lastContactAt case.customerId
    autopilotEnabled := ((t.merchantById case.merchantId).map (·.autopilotEnabled)).getD true
    proposedMessageClass := applied.messageClass
    proposedDiscountPct := .fin applied.discountPct }

/-! ## The law -/

/-- **What a call of the drainer should meet**: the stopping rules, on the facts of the instant, allow
the action of the row it is for. -/
def RulesAllow (other : StoppingContext) (request : PaymentLinkRequest) (w : World) : Prop :=
  match w.db.tables.outboxByReference request.referenceId with
  | none => False
  | some row =>
    match w.db.tables.caseById row.caseId, row.action with
    | some case, .ok applied => MayActNow (currentFacts other w.db.tables case applied w.clock)
    | _, _ => False

instance (other : StoppingContext) (request : PaymentLinkRequest) (w : World) :
    Decidable (RulesAllow other request w) :=
  let decide : (found : Option OutboxRow) → Decidable
      (match found with
      | none => False
      | some row =>
        match w.db.tables.caseById row.caseId, row.action with
        | some case, .ok applied => MayActNow (currentFacts other w.db.tables case applied w.clock)
        | _, _ => False)
    | none => inferInstanceAs (Decidable False)
    | some _ => decidableRead (P := fun case applied =>
        MayActNow (currentFacts other w.db.tables case applied w.clock)) (Q := False) _ _
  decide (w.db.tables.outboxByReference request.referenceId)

/-! ## When a turn is clear -/

/-- Up to a later instant, nothing comes to stand against an action: the window does not close, and
no quiet hours begin. -/
def NothingBegins (ctx : StoppingContext) (later : DateTime) : Prop :=
  (∀ expires ∈ ctx.windowExpiresAt, ctx.nowUtc < expires → later < expires) ∧
    (ctx.isOutboundContact = true →
      inQuietHours ctx.nowUtc ctx.policy.quietHoursStartIst ctx.policy.quietHoursEndIst = false →
        inQuietHours later ctx.policy.quietHoursStartIst ctx.policy.quietHoursEndIst = false)

instance (ctx : StoppingContext) (later : DateTime) : Decidable (NothingBegins ctx later) := by
  unfold NothingBegins
  infer_instance

/-- Up to a later instant, nothing that stands against an action ceases to: no quiet hours end, no
promise thaws, and no contact is a day or two days old at last. -/
def NothingEnds (other : StoppingContext) (t : Tables) (case : CaseRow) (now later : DateTime) :
    Prop :=
  (inQuietHours later other.policy.quietHoursStartIst other.policy.quietHoursEndIst = false →
      inQuietHours now other.policy.quietHoursStartIst other.policy.quietHoursEndIst = false) ∧
    (∀ promised ∈ other.promisedAt,
      promised.add (other.policy.promiseFreezeH * hour) ≤ later →
        promised.add (other.policy.promiseFreezeH * hour) ≤ now) ∧
      ∀ c ∈ t.contacts, c.customerId = case.customerId →
        (c.sentAt.add day ≤ later → c.sentAt.add day ≤ now) ∧
          (c.sentAt.add (2 * day) ≤ later → c.sentAt.add (2 * day) ≤ now)

instance (other : StoppingContext) (t : Tables) (case : CaseRow) (now later : DateTime) :
    Decidable (NothingEnds other t case now later) := by
  unfold NothingEnds
  infer_instance

/-- **When a turn is clear**, by the world it starts in: its case is over, its action cannot be
charged, or nothing stands against the action and nothing will before the call, five commands on. -/
def TurnClear (other : StoppingContext) (row : OutboxRow) (w : World) : Prop :=
  match w.db.tables.caseById row.caseId, row.action with
  | some case, .ok applied =>
    case.status.isTerminal = true ∨ ¬OutboxExecutor.Chargeable applied ∨
      (ClearToAct (currentFacts other w.db.tables case applied w.clock) ∧
        NothingBegins (currentFacts other w.db.tables case applied w.clock) (w.after 5).clock)
  | _, _ => True

instance (other : StoppingContext) (row : OutboxRow) (w : World) :
    Decidable (TurnClear other row w) :=
  decidableRead (P := fun case applied =>
    case.status.isTerminal = true ∨ ¬OutboxExecutor.Chargeable applied ∨
      (ClearToAct (currentFacts other w.db.tables case applied w.clock) ∧
        NothingBegins (currentFacts other w.db.tables case applied w.clock) (w.after 5).clock))
    (Q := True) _ _

/-- A turn in the middle of which nothing ceases to stand against its action. -/
def TurnSteady (other : StoppingContext) (row : OutboxRow) (w : World) : Prop :=
  ∀ case ∈ w.db.tables.caseById row.caseId,
    NothingEnds other w.db.tables case w.clock (w.after 5).clock

instance (other : StoppingContext) (row : OutboxRow) (w : World) :
    Decidable (TurnSteady other row w) := by
  unfold TurnSteady
  infer_instance

section Later

variable {other : StoppingContext} {t : Tables} {case : CaseRow} {applied : AppliedAction}
  {now later : DateTime}

/-- Contacts leave a rolling window, and none enters it. -/
theorem contactsAfter_mono {customerId : String} {span : ℤ} (h : now ≤ later) :
    t.contactsAfter customerId (later.add (-span)) ≤ t.contactsAfter customerId (now.add (-span)) := by
  unfold Tables.contactsAfter
  refine Int.ofNat_le.mpr (List.countP_mono_left fun c _ hc => ?_)
  simp only [decide_eq_true_eq] at hc ⊢
  have hback : now.add (-span) ≤ later.add (-span) := Int.add_le_add_right h _
  exact ⟨hc.1, lt_of_le_of_lt hback hc.2⟩

/-- A contact that leaves a window of some length in between is as old as that at last. -/
theorem contactsAfter_le {customerId : String} {span : ℤ}
    (h : ∀ c ∈ t.contacts, c.customerId = customerId → c.sentAt.add span ≤ later →
      c.sentAt.add span ≤ now) :
    t.contactsAfter customerId (now.add (-span)) ≤ t.contactsAfter customerId (later.add (-span)) := by
  unfold Tables.contactsAfter
  refine Int.ofNat_le.mpr (List.countP_mono_left fun c hmem hc => ?_)
  simp only [decide_eq_true_eq] at hc ⊢
  refine ⟨hc.1, ?_⟩
  -- were it outside the window by then, it would have come of age in between
  by_contra hold
  have haged := h c hmem hc.1 (by
    simp only [DateTime.not_lt, DateTime.le_def, DateTime.add_utc] at hold ⊢
    omega)
  have hnew := hc.2
  simp only [DateTime.lt_def, DateTime.le_def, DateTime.add_utc] at haged hnew
  omega

/-- The latest contact is a contact. -/
theorem lastContactAt_mem {customerId : String} {last : DateTime}
    (h : t.lastContactAt customerId = some last) :
    ∃ c ∈ t.contacts, c.customerId = customerId ∧ c.sentAt = last := by
  have hfold : ∀ (times : List DateTime) (first : Option DateTime),
      times.foldl (fun latest at' => some (latest.elim at' fun l => if l < at' then at' else l))
        first = some last → last ∈ times ∨ first = some last := by
    intro times
    -- on the times still to look at, with the latest so far left open
    induction times with
    | nil => exact fun first h => .inr h
    | cons at' rest ih =>
      intro first hlast
      rcases ih _ hlast with hmem | heq
      · exact .inl (List.mem_cons_of_mem _ hmem)
      · cases first with
        | none => exact .inl (by simp_all)
        | some l =>
          simp only [Option.elim_some, Option.some.injEq] at heq
          split at heq
          · exact .inl (by simp [heq])
          · exact .inr (by rw [heq])
  rcases hfold _ _ h with hmem | hnone
  · obtain ⟨c, hc, hsent⟩ := List.mem_map.mp hmem
    obtain ⟨hmem, hcustomer⟩ := List.mem_filter.mp hc
    exact ⟨c, hmem, of_decide_eq_true hcustomer, hsent⟩
  · cases hnone

/-- **An action the rules allow stays allowed** while nothing comes to stand against it: all else the
rules look at either stays or passes. -/
theorem ClearToAct.forward (h : ClearToAct (currentFacts other t case applied now))
    (hle : now ≤ later)
    (hbegins : NothingBegins (currentFacts other t case applied now) later) :
    ClearToAct (currentFacts other t case applied later) where
  autopilot := h.autopilot
  unresolved := h.unresolved
  unpaid := h.unpaid
  optedIn := h.optedIn
  window expires hexpires := hbegins.1 expires hexpires (h.window expires hexpires)
  attempts := h.attempts
  budget := h.budget
  contacts48h houtbound := lt_of_le_of_lt
    (contactsAfter_mono hle) (h.contacts48h houtbound)
  consent := h.consent
  promise hactive promised hpromised := le_trans (h.promise hactive promised hpromised) hle
  contacts24h houtbound := by
    rcases h.contacts24h houtbound with hcount | ⟨last, hlast, haged⟩
    · exact .inl (lt_of_le_of_lt (contactsAfter_mono hle) hcount)
    · exact .inr ⟨last, hlast, le_trans haged hle⟩
  quietHours houtbound := hbegins.2 houtbound (h.quietHours houtbound)

/-- **An action the rules allow was allowed before** if nothing has ceased to stand against it. -/
theorem ClearToAct.backward (h : ClearToAct (currentFacts other t case applied later))
    (hle : now ≤ later) (hends : NothingEnds other t case now later) :
    ClearToAct (currentFacts other t case applied now) where
  autopilot := h.autopilot
  unresolved := h.unresolved
  unpaid := h.unpaid
  optedIn := h.optedIn
  window expires hexpires := lt_of_le_of_lt hle (h.window expires hexpires)
  attempts := h.attempts
  budget := h.budget
  contacts48h houtbound := lt_of_le_of_lt
    (contactsAfter_le fun c hc hcustomer => (hends.2.2 c hc hcustomer).2) (h.contacts48h houtbound)
  consent := h.consent
  promise hactive promised hpromised :=
    hends.2.1 promised hpromised (h.promise hactive promised hpromised)
  contacts24h houtbound := by
    rcases h.contacts24h houtbound with hcount | ⟨last, hlast, haged⟩
    · exact .inl (lt_of_le_of_lt
        (contactsAfter_le fun c hc hcustomer => (hends.2.2 c hc hcustomer).1) hcount)
    · obtain ⟨c, hc, hcustomer, rfl⟩ := lastContactAt_mem hlast
      exact .inr ⟨_, hlast, (hends.2.2 c hc hcustomer).1 haged⟩
  quietHours houtbound := hends.1 (h.quietHours houtbound)

/-- What is clear at a later instant has nothing come to stand against it by then. -/
theorem ClearToAct.nothingBegins (h : ClearToAct (currentFacts other t case applied later)) :
    NothingBegins (currentFacts other t case applied now) later :=
  ⟨fun expires hexpires _ => h.window expires hexpires, fun houtbound _ => h.quietHours houtbound⟩

end Later

/-! ## One call -/

/-- **When a call is clear**, by the world it is made in. -/
def CallClear (other : StoppingContext) (row : OutboxRow) (w : World) : Prop :=
  match w.db.tables.caseById row.caseId, row.action with
  | some case, .ok applied =>
    case.status.isTerminal = true ∨ ¬OutboxExecutor.Chargeable applied ∨
      ClearToAct (currentFacts other w.db.tables case applied (w.after 5).clock)
  | _, _ => True

/-- **A clear turn makes a clear call.** -/
theorem TurnClear.call {other : StoppingContext} {row : OutboxRow} {w : World}
    (h : TurnClear other row w) : CallClear other row w := by
  unfold TurnClear at h
  unfold CallClear
  cases hcase : w.db.tables.caseById row.caseId with
  | none => trivial
  | some case =>
    cases haction : row.action with
    | error e => trivial
    | ok applied =>
      simp only [hcase, haction] at h
      rcases h with hover | hfree | ⟨hclear, hbegins⟩
      · exact .inl hover
      · exact .inr (.inl hfree)
      · exact .inr (.inr (hclear.forward (World.le_after_clock w 5) hbegins))

/-- **A clear call was made in a clear turn**, if the turn is steady. -/
theorem CallClear.turn {other : StoppingContext} {row : OutboxRow} {w : World}
    (h : CallClear other row w) (hsteady : TurnSteady other row w) : TurnClear other row w := by
  unfold CallClear at h
  unfold TurnClear
  cases hcase : w.db.tables.caseById row.caseId with
  | none => trivial
  | some case =>
    cases haction : row.action with
    | error e => trivial
    | ok applied =>
      simp only [hcase, haction] at h
      rcases h with hover | hfree | hclear
      · exact .inl hover
      · exact .inr (.inl hfree)
      · exact .inr (.inr ⟨hclear.backward (World.le_after_clock w 5) (hsteady case hcase),
          hclear.nothingBegins⟩)

namespace OutboxDrainer

variable {rt : Runtime} {d : OutboxDrainer} {other : StoppingContext}

/-- **Step.** One turn calls within the rules exactly when its call is clear. -/
theorem drainRow_rulesAllow_iff {report : DrainReport} {row : OutboxRow} {w : World}
    (hholds : w.db.tables.Holds row) (hmatches : row.Matches) :
    (d.drainRow rt report row).Along World.handler (World.Creates (RulesAllow other)) w ↔
      CallClear other row w := by
  rw [creates_drainRow hholds hmatches]
  obtain ⟨r, hfound, hsame⟩ := outboxByReference_of_holds hholds
  -- at the call, the rules read the row's own case and action
  have hallow : ∀ case applied, w.db.tables.caseById row.caseId = some case →
      row.action = .ok applied → ∀ request, request.referenceId = applied.referenceId →
        (RulesAllow other request (w.after 5) ↔
          ClearToAct (currentFacts other w.db.tables case applied (w.after 5).clock)) := by
    intro case applied hcase haction request href
    have hfound' : w.db.tables.outboxByReference request.referenceId = some r := by
      rw [href, hmatches.reference haction, hfound]
    simp only [RulesAllow, World.after_db, hfound', hsame.2.2.1, hsame.action, hcase, haction,
      mayActNow_iff_clear]
  unfold CallClear
  cases hcase : w.db.tables.caseById row.caseId with
  | none => simp [Resumes, hcase]
  | some case =>
    cases haction : row.action with
    | error e => simp [Resumes, haction]
    | ok applied =>
      have hrequest := OutboxExecutor.requestOf_cases
        (resumed rt case applied w) applied (w.after 4).clock
      constructor
      · -- the calls are within the rules: there is one where the request can be built
        intro h
        rcases hrequest with ⟨-, request, hok, hcharges⟩ | ⟨hfree, -⟩
        · cases hterminal : case.status.isTerminal with
          | true => exact .inl hterminal
          | false =>
            have hcall := h case applied ⟨hcase, hterminal, haction⟩ request hok
            exact .inr (.inr ((hallow case applied hcase haction request hcharges.1).mp hcall))
        · exact .inr (.inl hfree)
      · -- the call is clear: whatever call is made is the one for this row
        rintro h case' applied' ⟨hcase', hopen, haction'⟩ request hok
        obtain rfl : case = case' := Option.some.inj (hcase.symm.trans hcase')
        obtain rfl : applied = applied' := Except.ok.inj (haction.symm.trans haction')
        rcases hrequest with ⟨hcharge, request', hok', hcharges⟩ | ⟨-, e, herror⟩
        · obtain rfl : request' = request := Except.ok.inj (hok'.symm.trans hok)
          rcases h with hterminal | hfree | hclear
          · rw [hopen] at hterminal
            cases hterminal
          · exact absurd hcharge hfree
          · exact (hallow case applied hcase haction request' hcharges.1).mpr hclear
        · rw [herror] at hok
          cases hok

/-- **The drainer keeps to the rules in the passes whose every turn is clear**; and, where every turn
is steady, only in these: nothing but a terminal case holds it back. -/
theorem drainOnce_rulesAllow (rt : Runtime) (d : OutboxDrainer) (other : StoppingContext)
    (includeStale : Bool) (w : World) (hmatches : ∀ row ∈ w.db.tables.outbox, row.Matches) :
    ((∀ turn ∈ d.passTurns rt includeStale w, TurnClear other turn.row turn.world) →
      (d.drainOnce rt includeStale).Along World.handler (World.Creates (RulesAllow other)) w) ∧
    ((∀ turn ∈ d.passTurns rt includeStale w, TurnSteady other turn.row turn.world) →
      (d.drainOnce rt includeStale).Along World.handler (World.Creates (RulesAllow other)) w →
        ∀ turn ∈ d.passTurns rt includeStale w, TurnClear other turn.row turn.world) := by
  have hcalls : (d.drainOnce rt includeStale).Along World.handler
      (World.Creates (RulesAllow other)) w ↔
        ∀ turn ∈ d.passTurns rt includeStale w, CallClear other turn.row turn.world := by
    -- the query for the rows calls nobody, so the pass is its turns
    rw [along_drainOnce fun c v hc => World.creates_of_passive hc.passive v]
    refine forall₂_congr fun turn hturn => ?_
    obtain ⟨hmem, hholds⟩ := passTurn_holds hturn
    exact drainRow_rulesAllow_iff hholds (hmatches _ hmem)
  rw [hcalls]
  exact ⟨fun hclear turn hturn => (hclear turn hturn).call,
    fun hsteady hclear turn hturn => (hclear turn hturn).turn (hsteady turn hturn)⟩

end OutboxDrainer

/-! ## A row in the afternoon -/

/-- The treated case with the intent of its first attempt committed, and its outcome unrecorded. -/
def committedIntent : Database where
  tables :=
    { oneCase.tables with
      outbox := [
        { id := "obx_1", caseId := "RC-0001", actionType := .createPaymentLink
          referenceId := referenceId "RC-0001" 1, payloadJson := some (linkAction 1).asPayload
          nextAttemptAt := { utc := 0 }, createdAt := { utc := 0 } }] }
  valid := by decide +kernel

/-- The default policy, and nothing else to say. -/
def noOtherFacts : StoppingContext := { nowUtc := { utc := 0 }, policy := {} }

/-- At half past one in the afternoon, the intent goes out within the rules; at half past five in the
morning, it does not. -/
theorem drainOnce_rulesAllow_afternoon :
    (OutboxDrainer.drainOnce plainRuntime {} false).Along World.handler
        (World.Creates (RulesAllow noOtherFacts))
        { worldOf committedIntent with clock := { utc := 8 * hour } } ∧
      ¬(OutboxDrainer.drainOnce plainRuntime {} false).Along World.handler
        (World.Creates (RulesAllow noOtherFacts)) (worldOf committedIntent) := by
  refine ⟨(OutboxDrainer.drainOnce_rulesAllow plainRuntime {} noOtherFacts false
    { worldOf committedIntent with clock := { utc := 8 * hour } } (by decide +kernel)).1
      (by decide +kernel), fun h => ?_⟩
  have hdawn := (OutboxDrainer.drainOnce_rulesAllow plainRuntime {} noOtherFacts false
    (worldOf committedIntent) (by decide +kernel)).2 (by decide +kernel) h
  revert hdawn
  decide +kernel

/-- So the pass at dawn does not keep to the rules. -/
theorem not_drainOnce_rulesAllow :
    ¬∀ (rt : Runtime) (d : OutboxDrainer) (other : StoppingContext) (includeStale : Bool)
      (w : World), (∀ row ∈ w.db.tables.outbox, row.Matches) →
        (d.drainOnce rt includeStale).Along World.handler (World.Creates (RulesAllow other)) w := by
  intro h
  have hdawn := h plainRuntime {} noOtherFacts false (worldOf committedIntent) (by decide +kernel)
  revert hdawn
  decide +kernel

end AegisMerchant
