import AegisMerchant.Base.History
import AegisMerchant.Workers.SettleRaces

/-!
# Every credit finds its case open

A case should become recovered only while it is monitored, not counted yet, and within its window and
grace. A webhook checks all three on the case it reads. A poll lists the monitored cases, asks the
provider about each, and credits the case it then reads again, of which it checks only that nothing
proves it yet; neither looks at the clock.

So the condition of a run is about what a settler saw before its commit: the case has not been
written meanwhile, the deadline has not passed meanwhile, and a poll started before the deadline.
Under it every credit is right (`settlers_creditRightly`), by one lemma for each way to credit
(`keeps_webhook`, `keeps_poll`).
-/

namespace AegisMerchant

open Time Rows

/-! ## What a credit should find -/

/-- The end of a case's window and its grace. -/
def CaseRow.deadline (case : CaseRow) : DateTime := case.windowExpiresAt.add attributionGrace

/-- A case that became recovered, or was credited anew. -/
def CreditedCase (row row' : CaseRow) : Prop :=
  row'.status = .recovered ∧ (row.status ≠ .recovered ∨
    row'.recoveryVerifiedBy ≠ row.recoveryVerifiedBy ∨
      row'.recoveredAmountPaise ≠ row.recoveredAmountPaise)

instance (row row' : CaseRow) : Decidable (CreditedCase row row') :=
  inferInstanceAs (Decidable (_ ∧ _))

/-- **What every credit should find**: the case monitored, not counted yet, and within its window and
grace. -/
def CreditsRightly (w w' : World) : Prop :=
  ∀ row ∈ w.db.tables.cases, ∀ row' ∈ w'.db.tables.cases, row'.id = row.id →
    CreditedCase row row' → row.status = .monitoring ∧ row.recoveryVerifiedBy = none ∧
      w'.clock ≤ row.deadline

instance (w w' : World) : Decidable (CreditsRightly w w') := by
  unfold CreditsRightly
  infer_instance

theorem not_creditedCase_self {row row' : CaseRow} (h : row' = row) : ¬CreditedCase row row' := by
  subst h
  rintro ⟨h, hne | hne | hne⟩
  · exact hne h
  · exact hne rfl
  · exact hne rfl

/-- What leaves the cases alone credits nothing. -/
theorem creditsRightly_of_cases {w w' : World}
    (h : w'.db.tables.cases = w.db.tables.cases) : CreditsRightly w w' := by
  intro row hrow row' hrow' hid hcredited
  rw [h] at hrow'
  exact absurd hcredited
    (not_creditedCase_self (eq_of_key_eq w.db.valid.case_id hrow' hrow hid))

/-! ## The condition -/

/-- A poll's credit starts by the deadline, and from the case as it reads it again. -/
def Write.PolledOpen (first : World) : Write → Prop
  | .updateCase read new => new.recoveryVerifiedVia = some .apiReconciliation →
    (Write.updateCase read new).FindsCase first.db.tables ∧ first.advance.clock ≤ read.deadline
  | _ => True

instance (first : World) : (w : Write) → Decidable (w.PolledOpen first)
  | .updateCase _ _ => by unfold Write.PolledOpen; infer_instance
  | .insertOutbox _ | .updateOutbox _ _ | .insertAction _ | .insertContact _
  | .insertDeadLetter _ | .updateDeadLetter _ _ | .updateApproval _ _ | .insertBlock _ =>
    inferInstanceAs (Decidable True)

/-- The deadline of the case a credit writes does not pass between an earlier moment and now. -/
def Write.StillInTime (now earlier : DateTime) : Write → Prop
  | .updateCase read new => new.status = .recovered → earlier ≤ read.deadline → now ≤ read.deadline
  | _ => True

instance (now earlier : DateTime) : (w : Write) → Decidable (w.StillInTime now earlier)
  | .updateCase _ _ => by unfold Write.StillInTime; infer_instance
  | .insertOutbox _ | .updateOutbox _ _ | .insertAction _ | .insertContact _
  | .insertDeadLetter _ | .updateDeadLetter _ _ | .updateApproval _ _ | .insertBlock _ =>
    inferInstanceAs (Decidable True)

/-- **The condition**, on a commit and on the worlds its settler saw before it: it finds the stored
case as its session read it, no deadline passes between an earlier command and the commit, and a poll
starts by the deadline and with the case as it reads it again. -/
def CreditsOpen : {β : Type} → Cmd β → World → List World → Prop
  | _, .commit ws, w, past => ∀ write ∈ ws, write.FindsCase w.db.tables ∧
      (∀ v ∈ past, write.StillInTime w.advance.clock v.advance.clock) ∧
        ∀ first ∈ past.getLast?, write.PolledOpen first
  | _, _, _, _ => True

instance : {β : Type} → (c : Cmd β) → (w : World) → (past : List World) →
    Decidable (CreditsOpen c w past)
  | _, .commit ws, w, past =>
    inferInstanceAs (Decidable (∀ write ∈ ws, write.FindsCase w.db.tables ∧
      (∀ v ∈ past, write.StillInTime w.advance.clock v.advance.clock) ∧
        ∀ first ∈ past.getLast?, write.PolledOpen first))
  | _, .now, _, _ | _, .select _ _, _, _ | _, .flush _ _, _, _ | _, .tokenHex, _, _
  | _, .uniform, _, _ | _, .createPaymentLink _, _, _ | _, .getPaymentLinkByReference _, _, _
  | _, .completeStructured _ _, _, _ => inferInstanceAs (Decidable True)

/-- The contract of a settler that looks back: every step credits rightly. -/
def creditContract : Contract Cmd (World × List World) :=
  .logged World.handler CreditsRightly CreditsOpen

/-! ## One commit -/

/-- What the credit of a case has to find. -/
structure OpenCase (w : World) (case : CaseRow) : Prop where
  stored : ∀ row ∈ w.db.tables.cases, row.id = case.id → row = case
  monitoring : case.status = .monitoring
  once : case.recoveryVerifiedBy = none
  inTime : w.advance.clock ≤ case.deadline

theorem creditsRightly_commit {credit : CaseRow → CaseRow → Prop} {w : World} {ws : List Write}
    {db : Database} (htxn : SettleTxn credit ws)
    (hopen : ∀ case new, credit case new → Write.updateCase case new ∈ ws → OpenCase w case)
    (hcommit : w.db.commit ws = some db) : CreditsRightly w (w.advance.committed ws db) := by
  have htables := Database.commit_eq_some.mp hcommit
  cases htxn with
  | lost hcredit hname hcase =>
    refine creditsRightly_of_cases ?_
    rw [World.committed_db, htables]
    rfl
  | @organic case now hrecovered horganic =>
    intro row hrow row' hrow' hid hcredited
    rw [World.committed_db, htables] at hrow'
    rcases updateCase_cases hrow hrow' hid with ⟨-, rfl⟩ | ⟨-, rfl⟩
    · exact absurd hcredited (not_creditedCase_self rfl)
    · have hstatus := (store_organic horganic now row).1
      rw [hcredited.1] at hstatus
      cases hstatus
  | @credited case new block hcredit hname hcase =>
    intro row hrow row' hrow' hid hcredited
    rw [World.committed_db, htables] at hrow'
    rcases updateCase_cases hrow hrow' hid with ⟨-, rfl⟩ | ⟨hrowid, -⟩
    · exact absurd hcredited (not_creditedCase_self rfl)
    · have hfound := hopen case new hcredit List.mem_cons_self
      obtain rfl := hfound.stored row hrow hrowid
      exact ⟨hfound.monitoring, hfound.once, hfound.inTime⟩

/-- A command that commits nothing credits nothing. -/
theorem creditsRightly_quiet {β : Type} {c : Cmd β} (h : c.Quiet) (w : World) :
    CreditsRightly w (World.handler.exec c w).2 :=
  creditsRightly_of_cases (by rw [(World.exec_quiet h w).1])

namespace CreditsOpen

section Logs

variable {α β : Type} {I : List World → Prop} {w : World × List World}

/-- Commands that commit nothing, then the rest: what the log is known to hold, it still holds. -/
theorem wp_quiet_bind (hI : ∀ v past, I past → I (v :: past)) {p : Act α} {f : α → Act β}
    {R : Except PyError α → Prop} {Q : Except PyError β → World × List World → Prop}
    (h : p.All Cmd.Quiet R) (hw : I w.2)
    (hok : ∀ a w', R (.ok a) → I w'.2 → (f a).wp creditContract Q w')
    (herror : ∀ e w', I w'.2 → Q (.error e) w') : (p >>= f).wp creditContract Q w := by
  refine h.wp_bind (C := creditContract) (I := fun w => I w.2) (fun hpast hu => ?_)
    (fun c v hc hv _ => ?_) hw hok fun e w' _ => herror e w'
  · rw [show _ = _ from hpast]
    exact hu
  · exact ⟨creditsRightly_quiet hc v.1, hI _ _ hv⟩

/-- A query, then the rest: the log holds the world that answered it. -/
theorem wp_select_log {q : Tables → α} {f : α → Act β}
    {Q : Except PyError β → World × List World → Prop}
    (h : ∀ v, (f (q v.db.tables)).wp creditContract Q (v.advance, v :: w.2)) :
    (Act.select q >>= f).wp creditContract Q w := by
  rw [Prog.wp_bind]
  rintro ⟨v, past⟩ hpast -
  obtain rfl : past = w.2 := hpast
  exact ⟨creditsRightly_quiet (c := .select [] q) trivial v, h v⟩

/-- The transaction of a settler, when it finds the case it credits open. -/
theorem wp_settleTxn (credit : CaseRow → CaseRow → Prop) (hI : ∀ v past, I past → I (v :: past))
    {ws : List Write} (htxn : SettleTxn credit ws)
    (hopen : ∀ v past, I past → CreditsOpen (.commit ws) v past → ∀ case new, credit case new →
      Write.updateCase case new ∈ ws → OpenCase v case) (hw : I w.2) :
    (Act.commit ws).wp creditContract (fun _ w' => I w'.2) w := by
  rintro ⟨v, past⟩ hpast hcond
  obtain rfl : past = w.2 := hpast
  have hguar : CreditsRightly v (World.handler.exec (.commit ws) v).2 := by
    simp only [World.handler, World.serve, World.advance_db]
    -- a commit that breaks a constraint stores nothing
    cases hcommit : v.db.commit ws with
    | none => exact creditsRightly_of_cases rfl
    | some db => exact creditsRightly_commit htxn (hopen v _ hw hcond) hcommit
  refine ⟨hguar, ?_⟩
  cases (creditContract.exec (Cmd.commit ws) (v, w.2)).1 with
  | ok _ => exact hI _ _ hw
  | error _ => exact hI _ _ hw

end Logs

/-! ## A webhook -/

section Webhook

variable (rt : Runtime)

/-- The clock a webhook read is in its log when it commits, and so is what it read of the case. -/
theorem wp_settleCase (event : RevenueRiskEvent) (referenceId : String) (case : CaseRow)
    (issued : Option String) (w : World × List World) :
    (Settle.settleCase rt event referenceId case issued).wp creditContract (fun _ _ => True) w := by
  unfold Settle.settleCase
  rw [Prog.wp_bind]
  rintro ⟨v, past⟩ - -
  refine ⟨creditsRightly_quiet (c := .now) trivial v, ?_⟩
  have hcons : ∀ u log, v ∈ log → v ∈ u :: log := fun u log h => List.mem_cons_of_mem _ h
  have hmem : v ∈ v :: past := List.mem_cons_self
  change Prog.wp creditContract (if _ then _ else _) _ _
  split
  · next hcounted =>
      -- `attribute` looked at the status, the proof and the deadline of the case as it was read
      have hcounts := (SettlingFacts.attribution_counted_iff _).mp hcounted
      refine wp_quiet_bind hcons (p := Act.nowUtc) (R := fun _ => True) ⟨trivial, fun _ => trivial⟩
        hmem (fun now' w₁ _ hw₁ => ?_) fun _ _ _ => trivial
      refine wp_quiet_bind hcons (AuditChain.all_append rt _ _) hw₁ (fun appended w₂ happended hw₂ => ?_)
        fun _ _ _ => trivial
      rw [Prog.wp_bind]
      refine Prog.wp_mono _ (fun r w₃ _ => ?_) (wp_settleTxn
        (fun read new => read = case ∧ new.status = .recovered) hcons
        (settleTxn_of_appended ⟨rfl, rfl⟩ rfl rfl happended)
        (fun u log hlog hcond read new hread hwrite => ?_) hw₂)
      · rcases r with _ | _
        · trivial
        · change Prog.wp creditContract (if _ then _ else _) _ _
          split <;> trivial
      · obtain ⟨rfl, hrecovered⟩ := hread
        obtain ⟨hstored, htime, -⟩ := hcond _ hwrite
        exact { stored := hstored
                monitoring := hcounts.monitoring
                once := by simpa [Settle.facts] using hcounts.once
                inTime := htime v hlog hrecovered
                  (DateTime.not_lt.mp fun hlate => hcounts.inTime ⟨_, rfl, hlate⟩) }
  · change Prog.wp creditContract (if _ then _ else _) _ _
    split
    · next horganic =>
        -- resolved without us: the transaction credits nothing
        refine wp_quiet_bind hcons (p := Act.nowUtc) (R := fun _ => True)
          ⟨trivial, fun _ => trivial⟩ hmem (fun now' w₁ _ hw₁ => ?_) fun _ _ _ => trivial
        rw [Prog.wp_bind]
        refine Prog.wp_mono _ (fun r w₂ _ => ?_) (wp_settleTxn (fun _ _ => False) hcons
          (.organic horganic.2.1 horganic.2.2) (fun _ _ _ _ _ _ h => h.elim) hw₁)
        rcases r with _ | _ <;> trivial
    · trivial

/-- **A webhook credits rightly**, under the condition. -/
theorem keeps_webhook (payload : Json) (eventId : String) :
    LoggedPool.Keeps World.handler CreditsRightly CreditsOpen
      (do let _ ← Settle.processSettlement rt payload eventId) := by
  intro w
  have hsettle : ∀ reference w', ((Settle.settle rt (Ingest.normalise payload eventId) reference)
      ).wp creditContract (fun _ _ => True) w' := by
    intro reference w'
    unfold Settle.settle
    split
    · refine wp_quiet_bind (I := fun _ => True) (fun _ _ h => h) (quiet_findCase _) trivial
        (fun found w₁ _ _ => ?_) fun _ _ _ => trivial
      cases found with
      | none => trivial
      | some found => exact wp_settleCase rt _ _ _ _ w₁
    · trivial
  rw [Prog.wp_bind]
  unfold Settle.processSettlement
  simp only
  split
  · trivial
  · split
    · trivial
    · next reference _ =>
        rw [Prog.wp_bind, Prog.wp_attempt]
        refine Prog.wp_mono _ (fun r w' _ => ?_) (hsettle reference (w, []))
        cases r <;> trivial

end Webhook

/-! ## A poll -/

section Poll

variable (rt : Runtime) {first : World}

theorem getLast?_cons_of_some {v : World} {past : List World} (h : past.getLast? = some first) :
    (v :: past).getLast? = some first := by
  rw [List.getLast?_cons, h]
  rfl

/-- The case a poll credits is the one it listed: the condition says so of the case it reads again,
and a listed case is monitored. -/
theorem wp_creditLink {entry : OutboxRow} {case : CaseRow} {link : PaymentLinkResult}
    (hlisted : case ∈ first.db.tables.cases) (hmonitoring : case.status = .monitoring)
    {w : World × List World} (hw : w.2.getLast? = some first) :
    (Reconcile.creditLink rt entry case.id link).wp creditContract
      (fun _ w' => w'.2.getLast? = some first) w := by
  have hcons : ∀ (v : World) (past : List World), past.getLast? = some first →
      (v :: past).getLast? = some first := fun _ _ => getLast?_cons_of_some
  unfold Reconcile.creditLink
  refine wp_select_log fun v => ?_
  have hlast := hcons v _ hw
  cases hfound : v.db.tables.caseById case.id with
  | none => exact hlast
  | some fresh =>
    -- of the case as it is read again, only the proof is looked at
    have hid : fresh.id = case.id := by simpa using List.find?_some hfound
    simp only
    split
    · exact hlast
    · next hnone =>
        refine wp_quiet_bind hcons (p := Act.nowUtc) (R := fun _ => True)
          ⟨trivial, fun _ => trivial⟩ hlast (fun now w₁ _ hw₁ => ?_) fun _ _ h => h
        refine wp_quiet_bind hcons (AuditChain.all_append rt _ _) hw₁
          (fun appended w₂ happended hw₂ => ?_) fun _ _ h => h
        rw [Prog.wp_bind]
        refine Prog.wp_mono _ (fun r w₃ hw₃ => ?_) (wp_settleTxn
          (fun read new => read = fresh ∧ new.recoveryVerifiedVia = some .apiReconciliation ∧
            new.status = .recovered) hcons
          (settleTxn_of_appended ⟨rfl, rfl, rfl⟩ rfl rfl happended)
          (fun u log hlog hcond read new hread hwrite => ?_) hw₂)
        · rcases r with _ | _ <;> exact hw₃
        · obtain ⟨rfl, hvia, hrecovered⟩ := hread
          obtain ⟨hstored, htime, hpolled⟩ := hcond _ hwrite
          obtain ⟨hfirst, hstart⟩ := hpolled first hlog hvia
          -- the case as the poll lists it is the case as it reads it again
          have hsame : case = read := hfirst case hlisted hid.symm
          exact { stored := hstored
                  monitoring := hsame ▸ hmonitoring
                  once := by simpa using hnone
                  inTime := htime first (List.mem_of_getLast? hlog) hrecovered hstart }

/-- One reference. -/
theorem wp_pollOne (result : ReconcileResult) {entry : OutboxRow} {case : CaseRow}
    (hlisted : case ∈ first.db.tables.cases) (hmonitoring : case.status = .monitoring)
    {w : World × List World} (hw : w.2.getLast? = some first) :
    (Reconcile.pollOne rt result entry case).wp creditContract
      (fun _ w' => w'.2.getLast? = some first) w := by
  unfold Reconcile.pollOne
  refine wp_quiet_bind (I := fun past => past.getLast? = some first)
    (fun _ _ => getLast?_cons_of_some) (p := (Act.getPaymentLinkByReference _).attempt)
    (R := fun _ => True) ((Prog.all_attempt _).mpr (Act.all_call.mpr ⟨trivial, fun _ => trivial⟩))
    hw (fun r w₁ _ hw₁ => ?_) fun _ _ h => h
  rcases r with exc | _ | link
  · exact hw₁
  · exact hw₁
  · simp only
    split
    · exact hw₁
    · rw [Prog.wp_bind]
      refine Prog.wp_mono _ (fun r w₂ hw₂ => ?_) (wp_creditLink rt hlisted hmonitoring hw₁)
      rcases r with _ | _ | _ <;> exact hw₂

/-- The loop over the references, each of them listed. -/
theorem wp_pollAll (first : World) (rows : List (OutboxRow × CaseRow)) (result : ReconcileResult)
    (hrows : ∀ row ∈ rows, row.2 ∈ first.db.tables.cases ∧ row.2.status = .monitoring)
    {w : World × List World} (hw : w.2.getLast? = some first) :
    (Reconcile.pollAll rt result rows).wp creditContract (fun _ _ => True) w := by
  -- on the rows; what is carried along is that the log ends in the world that listed them
  induction rows generalizing result w with
  | nil => trivial
  | cons row rest ih =>
    obtain ⟨hlisted, hmonitoring⟩ := hrows row List.mem_cons_self
    unfold Reconcile.pollAll
    rw [Prog.wp_bind]
    refine Prog.wp_mono _ (fun r w₁ hw₁ => ?_) (wp_pollOne rt result hlisted hmonitoring hw)
    cases r with
    | ok result' => exact ih result' (fun row' h => hrows row' (List.mem_cons_of_mem _ h)) hw₁
    | error exc => trivial

/-- What `_outstanding` lists is monitored. -/
theorem monitoring_of_outstanding {t : Tables} {row : OutboxRow × CaseRow}
    (h : row ∈ Reconcile.outstanding t) : row.2 ∈ t.cases ∧ row.2.status = .monitoring := by
  obtain ⟨entry, -, hrow⟩ := List.mem_flatMap.mp h
  split at hrow
  · obtain ⟨case, hcase, rfl⟩ := List.mem_map.mp hrow
    obtain ⟨hmem, hopen⟩ := List.mem_filter.mp hcase
    exact ⟨hmem, (of_decide_eq_true hopen).2.1⟩
  · cases hrow

/-- **A poll credits rightly**, under the condition. -/
theorem keeps_poll (limit : ℕ) :
    LoggedPool.Keeps World.handler CreditsRightly CreditsOpen
      (do let _ ← Reconcile.reconcileOutstanding rt limit) := by
  intro w
  rw [Prog.wp_bind]
  refine wp_select_log fun v => ?_
  refine Prog.wp_mono _ (fun r w' _ => ?_)
    (wp_pollAll rt v _ {} (fun row hrow => ?_) rfl)
  · cases r <;> trivial
  · exact monitoring_of_outstanding (List.mem_of_mem_take hrow)

end Poll

end CreditsOpen

/-! ## Every run -/

/-- **In every run whose commits meet the condition, every step credits rightly.** -/
theorem settlers_creditRightly (rt : Runtime) {w : World} {moves : List (Move Cmd PyError)}
    {m : Move Cmd PyError}
    (hstart : ∀ m' ∈ moves ++ [m], Pool.StartsOnly (Settler rt fun _ => True) m')
    (hmeets : ({ state := w } : LoggedPool Cmd PyError World).Meets CreditsOpen World.handler
      (moves ++ [m])) :
    CreditsRightly (runWorkers w moves).state (runWorkers w (moves ++ [m])).state := by
  have hkeeps : ∀ p, Settler rt (fun _ => True) p →
      LoggedPool.Keeps World.handler CreditsRightly CreditsOpen p := by
    intro p hp
    cases hp with
    | webhook payload eventId _ => exact CreditsOpen.keeps_webhook rt payload eventId
    | poll limit => exact CreditsOpen.keeps_poll rt limit
  rcases LoggedPool.guar_last hkeeps hstart hmeets with h | h
  · exact creditsRightly_of_cases (congrArg (fun v : World => v.db.tables.cases) h)
  · exact h

def pollToCommit : List (Move Cmd PyError) := .spawn pollRun :: List.replicate 8 (.run 0)

theorem startsOnly_pollToCommit {Pays : ℤ → Prop} (hpays : Pays 250000) :
    ∀ m ∈ pollToCommit ++ [.run 0], Pool.StartsOnly (Settler plainRuntime Pays) m := by
  intro m hm
  refine startsOnly_settler hpays ?_
  simp only [pollToCommit, List.cons_append, List.mem_cons, List.mem_append, List.mem_replicate,
    List.not_mem_nil, or_false] at hm
  grind

/-- On the day itself, a poll credits rightly. -/
theorem settlers_creditRightly_poll :
    CreditsRightly (runWorkers (paidWorld { utc := 0 }) pollToCommit).state
      (runWorkers (paidWorld { utc := 0 }) (pollToCommit ++ [.run 0])).state :=
  settlers_creditRightly plainRuntime (startsOnly_pollToCommit trivial) (by decide +kernel)

/-- Three days later, a day after the window and its grace, it credits all the same. -/
theorem not_settlers_creditRightly :
    ¬∀ (rt : Runtime) (w : World) (moves : List (Move Cmd PyError)) (m : Move Cmd PyError),
      (∀ m' ∈ moves ++ [m], Pool.StartsOnly (Settler rt fun _ => True) m') →
        CreditsRightly (runWorkers w moves).state (runWorkers w (moves ++ [m])).state := by
  intro h
  have hlate := h plainRuntime (paidWorld { utc := 3 * day }) pollToCommit (.run 0)
    (startsOnly_pollToCommit trivial)
  revert hlate
  decide +kernel

end AegisMerchant
