import AegisMerchant.Workers.SettleLaws

/-!
# Settlers against each other

Webhooks and polls of any number of workers, interleaved in any way and killed anywhere. Each reads
a case in one step and writes it in a later one, without looking at it again; and a poll looks at
less of it than a webhook does. What either may credit is `Credits`, and `Credits.spec` what every
credit has; the laws of whole runs are in the modules above this one.
-/

namespace AegisMerchant

open Time Rows

/-! ## Settlers -/

/-- A webhook on its way into its settlement, or a poll; the amounts of webhooks satisfy `Pays`. -/
inductive Settler (rt : Runtime) (Pays : ℤ → Prop) : Act Unit → Prop
  | webhook (payload : Json) (eventId : String)
      (hpays : ∀ a ∈ (Ingest.normalise payload eventId).amountPaise, Pays a) :
      Settler rt Pays (do let _ ← Settle.processSettlement rt payload eventId)
  | poll (limit : ℕ) : Settler rt Pays (do let _ ← Reconcile.reconcileOutstanding rt limit)

/-- What a settler may credit. -/
def Credits (Pays : ℤ → Prop) (case new : CaseRow) : Prop :=
  (∃ payload eventId, (∀ a ∈ (Ingest.normalise payload eventId).amountPaise, Pays a) ∧
    WebhookCredit payload eventId case new) ∨ PollCredit case new

theorem settles_settler {rt : Runtime} {Pays : ℤ → Prop} {p : Act Unit} (h : Settler rt Pays p) :
    p.All (Cmd.Settles (Credits Pays)) fun _ => True := by
  cases h with
  | webhook payload eventId hpays =>
    refine Prog.All.seq ((settles_processSettlement rt payload eventId).mono
      (Cmd.Settles.mono fun case new hcredit => ?_) fun _ h => h) fun _ => trivial
    exact .inl ⟨payload, eventId, hpays, hcredit⟩
  | poll limit =>
    exact Prog.All.seq ((settles_reconcileOutstanding rt limit).mono
      (Cmd.Settles.mono fun case new hcredit => .inr hcredit) fun _ h => h) fun _ => trivial

/-- **What every credit has**: a case nothing proves yet, monitored unless a poll credits it, and an
amount as positive as the case's and the webhook's are. -/
theorem Credits.spec {Pays : ℤ → Prop} {case new : CaseRow} (h : Credits Pays case new) :
    case.recoveryVerifiedBy = none ∧ ∃ amount by' via now,
      new = Settle.recovered case amount by' via now ∧
        (via = .apiReconciliation ∨ case.status = .monitoring) ∧
          ((∀ a, Pays a → 0 < a) → 0 < case.amountPaise → 0 < amount) := by
  rcases h with ⟨payload, eventId, hpays, referenceId, issued, now, now', hcounts, rfl⟩ |
    ⟨hnone, by', now, rfl⟩
  · refine ⟨?_, _, _, _, _, rfl, .inr hcounts.monitoring, fun hpos hcase => ?_⟩
    · have honce := hcounts.once
      simpa [Settle.facts] using honce
    · unfold SettlingFacts.amount
      split
      · next a ha =>
          split
          · exact hcase
          · exact lt_min (hpos a (hpays a ha)) hcase
      · exact hcase
  · exact ⟨hnone, _, _, _, _, rfl, .inl rfl, fun _ hcase => hcase⟩

/-! ## The stored case under a commit -/

/-- A statement that changes a case finds the case as its session read it. -/
def Write.FindsCase (t : Tables) : Write → Prop
  | .updateCase read _ => ∀ row ∈ t.cases, row.id = read.id → row = read
  | _ => True

instance (t : Tables) : (w : Write) → Decidable (w.FindsCase t)
  | .updateCase read _ => by unfold Write.FindsCase; infer_instance
  | .insertOutbox _ | .updateOutbox _ _ | .insertAction _ | .insertContact _
  | .insertDeadLetter _ | .updateDeadLetter _ _ | .updateApproval _ _ | .insertBlock _ =>
    inferInstanceAs (Decidable True)

/-- A credit by a poll finds the case monitored. -/
def Write.PollsMonitored : Write → Prop
  | .updateCase read new =>
    new.recoveryVerifiedVia = some .apiReconciliation → read.status = .monitoring
  | _ => True

instance : (w : Write) → Decidable w.PollsMonitored
  | .updateCase _ _ => by unfold Write.PollsMonitored; infer_instance
  | .insertOutbox _ | .updateOutbox _ _ | .insertAction _ | .insertContact _
  | .insertDeadLetter _ | .updateDeadLetter _ _ | .updateApproval _ _ | .insertBlock _ =>
    inferInstanceAs (Decidable True)

/-- A stored case before and after an update: another one, or the one rewritten. -/
theorem updateCase_cases {db : Database} {read new row row' : CaseRow}
    (hrow : row ∈ db.tables.cases)
    (hrow' : row' ∈ (db.tables.apply (.updateCase read new)).cases) (hid : row'.id = row.id) :
    (row.id ≠ read.id ∧ row' = row) ∨ (row.id = read.id ∧ row' = read.store new row) := by
  obtain ⟨row₀, hrow₀, rfl⟩ := mem_updateWhere.mp hrow'
  have hid₀ : row₀.id = row.id := by
    split at hid <;> exact hid
  obtain rfl := eq_of_key_eq db.valid.case_id hrow₀ hrow hid₀
  split
  · next h => exact .inr ⟨h, rfl⟩
  · next h => exact .inl ⟨h, rfl⟩

/-- The amount a credit stores, when it finds the case as it read it. -/
theorem store_recoveredAmount {case : CaseRow} (amount : ℤ) (by' : String)
    (via : RecoveryVerifier) (now : DateTime) :
    (case.store (Settle.recovered case amount by' via now) case).recoveredAmountPaise = amount := by
  by_cases h : amount = case.recoveredAmountPaise
  · simp [CaseRow.store, Settle.recovered, h]
  · simp [CaseRow.store, Settle.recovered, dirty, h]

/-- The columns of a case that a credit sets, when it finds the case as it read it. -/
theorem store_recovered {case : CaseRow} (hopen : case.status ≠ .recovered)
    (hnone : case.recoveryVerifiedBy = none) (amount : ℤ) (by' : String) (via : RecoveryVerifier)
    (now : DateTime) :
    let row := case.store (Settle.recovered case amount by' via now) case
    row.status = .recovered ∧ row.recoveryVerifiedBy = some by' ∧
      row.recoveredAmountPaise = amount := by
  refine ⟨?_, ?_, store_recoveredAmount _ _ _ _⟩
  · simp [CaseRow.store, Settle.recovered, dirty, hopen.symm]
  · simp [CaseRow.store, Settle.recovered, dirty, hnone]

/-- The columns an organic resolution sets. -/
theorem store_organic {case : CaseRow} (hopen : case.status ≠ .resolvedOrganic) (now : DateTime)
    (row : CaseRow) :
    let row' := case.store (Settle.organic case now) row
    row'.status = .resolvedOrganic ∧ row'.recoveryVerifiedBy = row.recoveryVerifiedBy ∧
      row'.recoveredAmountPaise = row.recoveredAmountPaise := by
  refine ⟨?_, ?_, ?_⟩
  · simp [CaseRow.store, Settle.organic, dirty, hopen.symm]
  · simp [CaseRow.store, Settle.organic]
  · simp [CaseRow.store, Settle.organic]

/-! ## One case, its link paid -/

/-- The case, monitored, with the link of its first attempt sent. -/
def sentLink : Database where
  tables :=
    { oneCase.tables with
      cases := [
        { id := "RC-0001", merchantId := "mch_1", customerId := "cus_1"
          playbook := .paymentFailure, status := .monitoring, amountPaise := 250000, attemptNo := 1
          windowExpiresAt := { utc := day } }]
      outbox := [
        { id := "obx_1", caseId := "RC-0001", actionType := .createPaymentLink
          referenceId := referenceId "RC-0001" 1, payloadJson := some (linkAction 1).asPayload
          status := .sent, nextAttemptAt := { utc := 0 }, createdAt := { utc := 0 } }] }
  valid := by decide +kernel

def paidWebhook (amount : ℤ) : Json :=
  .obj [("event", .str "payment_link.paid"),
    ("payload", .obj [("payment_link", .obj [("entity",
      .obj [("reference_id", .str (referenceId "RC-0001" 1)), ("amount", .int amount)])])])]

/-- A world in which the link is paid, at some time. -/
def paidWorld (clock : DateTime) : World :=
  { worldOf sentLink with
    clock
    links := [
      { linkId := "plink_1", shortUrl := "https://rzp.io/i/1"
        referenceId := referenceId "RC-0001" 1, amountPaise := 250000, status := "paid" }]
    fate := fun n =>
      { elapsed := 1000, hex := String.ofList (List.replicate n 'a')
        lookup := .served "paid" (.obj []) } }

def webhookRun (eventId : String) : Act Unit := do
  let _ ← Settle.processSettlement plainRuntime (paidWebhook 250000) eventId

def pollRun : Act Unit := do let _ ← Reconcile.reconcileOutstanding plainRuntime 50

theorem startsOnly_settler {Pays : ℤ → Prop} (hpays : Pays 250000) {m : Move Cmd PyError}
    (h : (∃ eventId, m = .spawn (webhookRun eventId)) ∨ m = .spawn pollRun ∨ ∃ i, m = .run i) :
    Pool.StartsOnly (Settler plainRuntime Pays) m := by
  rcases h with ⟨eventId, rfl⟩ | rfl | ⟨i, rfl⟩
  · exact .webhook (paidWebhook 250000) eventId fun a ha => by
      obtain rfl : 250000 = a := Option.some.inj ha
      exact hpays
  · exact .poll 50
  · trivial

end AegisMerchant
