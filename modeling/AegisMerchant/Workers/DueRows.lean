import AegisMerchant.Db.Types
import AegisMerchant.Services.Scheduler
import AegisMerchant.Workers.Drainer

/-!
# Deadlines compared as texts

The queries of the drainer and of the sweeps compare a column with the bound parameter as texts. They
select the rows the instants say they should, and give what the queries over instants give.

`OutboxDrainer.run_due_text`, `OutboxDrainer.run_stale_text`, `Scheduler.overdueText_eq` and
`Scheduler.deferredText_eq` tie each query to its text. `DbTypes.deadlines_as_texts` is the law of
the texts, and `DbTypes.not_deadlines_as_texts` an instant whose year in UTC has no four digits.
-/

namespace AegisMerchant

open Time DbTypes

/-! ## The queries, over texts -/

namespace OutboxDrainer

/-- The query of `due`, given the text its parameter is bound to. -/
def dueText (bound : String) (t : Tables) : List OutboxRow :=
  (t.outbox.filter fun r => r.status = .pending ∧
    AegisMerchant.toDbIso r.nextAttemptAt ≤ bound).insertionSort
      fun r r' => AegisMerchant.toDbIso r.nextAttemptAt ≤ AegisMerchant.toDbIso r'.nextAttemptAt

/-- The query of `stale`. -/
def staleText (bound : String) (t : Tables) : List OutboxRow :=
  t.outbox.filter fun r =>
    (r.status = .pending ∨ r.status = .sending) ∧ AegisMerchant.toDbIso r.createdAt ≤ bound

end OutboxDrainer

namespace Scheduler

/-- The query of `_expire_approvals`. -/
def overdueText (bound : String) (t : Tables) : List ApprovalRow :=
  t.approvals.filter fun a => a.status = .pending ∧ AegisMerchant.toDbIso a.expiresAt ≤ bound

/-- The query of `_kill_stale_deferrals`. -/
def deferredText (bound : String) (t : Tables) : List OutboxRow :=
  t.outbox.filter fun r =>
    r.status = .pending ∧ bound < AegisMerchant.toDbIso r.nextAttemptAt

end Scheduler

section Queries

variable {now : DateTime} {bound : String} {t : Tables} {r : OutboxRow}

/-- The text a parameter is bound to. -/
theorem bound_eq (hnow : FourDigits now) (hbound : DbTypes.toDbIso (.aware now) = .ok bound) :
    bound = AegisMerchant.toDbIso now := by
  rw [toDbIso_aware hnow] at hbound
  exact (Except.ok.inj hbound).symm

/-! ## What they select -/

theorem OutboxDrainer.mem_dueText (hnow : FourDigits now)
    (hbound : DbTypes.toDbIso (.aware now) = .ok bound) (hr : FourDigits r.nextAttemptAt) :
    r ∈ dueText bound t ↔
      r ∈ t.outbox ∧ r.status = .pending ∧ dbTime r.nextAttemptAt ≤ dbTime now := by
  rw [dueText, List.mem_insertionSort, List.mem_filter, decide_eq_true_iff, bound_eq hnow hbound,
    toDbIso_le_iff hr hnow]

theorem OutboxDrainer.mem_staleText (hnow : FourDigits now)
    (hbound : DbTypes.toDbIso (.aware now) = .ok bound) (hr : FourDigits r.createdAt) :
    r ∈ staleText bound t ↔
      r ∈ t.outbox ∧ (r.status = .pending ∨ r.status = .sending) ∧
        dbTime r.createdAt ≤ dbTime now := by
  rw [staleText, List.mem_filter, decide_eq_true_iff, bound_eq hnow hbound, toDbIso_le_iff hr hnow]

theorem Scheduler.mem_overdueText {a : ApprovalRow} (hnow : FourDigits now)
    (hbound : DbTypes.toDbIso (.aware now) = .ok bound) (ha : FourDigits a.expiresAt) :
    a ∈ overdueText bound t ↔
      a ∈ t.approvals ∧ a.status = .pending ∧ dbTime a.expiresAt ≤ dbTime now := by
  rw [overdueText, List.mem_filter, decide_eq_true_iff, bound_eq hnow hbound,
    toDbIso_le_iff ha hnow]

/-- The sweep of the deferred sends takes the rows that are not due. -/
theorem Scheduler.mem_deferredText (hnow : FourDigits now)
    (hbound : DbTypes.toDbIso (.aware now) = .ok bound) (hr : FourDigits r.nextAttemptAt) :
    r ∈ deferredText bound t ↔
      r ∈ t.outbox ∧ r.status = .pending ∧ ¬dbTime r.nextAttemptAt ≤ dbTime now := by
  rw [deferredText, List.mem_filter, decide_eq_true_iff, bound_eq hnow hbound,
    toDbIso_lt_iff hnow hr, DateTime.not_le]

/-! ## The queries over instants -/

/-- An instant as a column gives it back. -/
def StoredInstant (t : DateTime) : Prop := FourDigits t ∧ dbTime t = t

/-- The texts of what columns give back are in the order of the instants. -/
theorem StoredInstant.le_iff {s s' : DateTime} (h : StoredInstant s) (h' : StoredInstant s') :
    AegisMerchant.toDbIso s ≤ AegisMerchant.toDbIso s' ↔ s ≤ s' := by
  rw [toDbIso_le_iff h.1 h'.1, h.2, h'.2]

theorem insertionSort_congr {α : Type} {l : List α} {le le' : α → α → Prop} [DecidableRel le]
    [DecidableRel le'] (h : ∀ a ∈ l, ∀ b ∈ l, le a b ↔ le' a b) :
    l.insertionSort le = l.insertionSort le' := by
  have hmap := List.map_insertionSort le le' id l h
  rwa [List.map_id, List.map_id] at hmap

/-- The drainer's query gives the rows the comparison of the instants gives, in the same order. -/
theorem OutboxDrainer.run_due_text {w : World} (hclock : FourDigits (w.after 1).clock)
    (hrows : ∀ r ∈ w.db.tables.outbox, StoredInstant r.nextAttemptAt)
    (hbound : DbTypes.toDbIso (.aware (w.after 1).clock) = .ok bound) :
    due.run World.handler w = (.ok (dueText bound w.db.tables), w.after 2) := by
  have hfilter : (w.db.tables.outbox.filter fun r => r.status = .pending ∧
      r.nextAttemptAt ≤ dbTime (w.after 1).clock) =
        w.db.tables.outbox.filter fun r => r.status = .pending ∧
          AegisMerchant.toDbIso r.nextAttemptAt ≤ bound := by
    apply List.filter_congr
    intro r hr
    rw [decide_eq_decide, bound_eq hclock hbound, toDbIso_le_iff (hrows r hr).1 hclock,
      (hrows r hr).2]
  have horder : ∀ r ∈ w.db.tables.outbox.filter fun r => r.status = .pending ∧
      AegisMerchant.toDbIso r.nextAttemptAt ≤ bound, ∀ r' ∈ w.db.tables.outbox.filter fun r =>
        r.status = .pending ∧ AegisMerchant.toDbIso r.nextAttemptAt ≤ bound,
      r.nextAttemptAt ≤ r'.nextAttemptAt ↔
        AegisMerchant.toDbIso r.nextAttemptAt ≤ AegisMerchant.toDbIso r'.nextAttemptAt :=
    fun r hr r' hr' => (StoredInstant.le_iff (hrows r (List.mem_of_mem_filter hr))
      (hrows r' (List.mem_of_mem_filter hr'))).symm
  rw [dueText, ← insertionSort_congr horder, ← hfilter]
  rfl

theorem OutboxDrainer.run_stale_text {d : OutboxDrainer} {w : World}
    (hcutoff : FourDigits ((w.after 1).clock.add (-(d.staleAfterS * second))))
    (hrows : ∀ r ∈ w.db.tables.outbox, StoredInstant r.createdAt)
    (hbound : DbTypes.toDbIso (.aware ((w.after 1).clock.add (-(d.staleAfterS * second)))) =
      .ok bound) :
    d.stale.run World.handler w = (.ok (staleText bound w.db.tables), w.after 2) := by
  have hfilter : staleText bound w.db.tables = w.db.tables.outbox.filter fun r =>
      (r.status = .pending ∨ r.status = .sending) ∧
        r.createdAt ≤ dbTime ((w.after 1).clock.add (-(d.staleAfterS * second))) := by
    apply List.filter_congr
    intro r hr
    rw [decide_eq_decide, bound_eq hcutoff hbound, toDbIso_le_iff (hrows r hr).1 hcutoff,
      (hrows r hr).2]
  rw [hfilter]
  rfl

theorem Scheduler.overdueText_eq (hnow : FourDigits now)
    (hbound : DbTypes.toDbIso (.aware now) = .ok bound)
    (hrows : ∀ a ∈ t.approvals, StoredInstant a.expiresAt) :
    overdueText bound t = overdue now t := by
  apply List.filter_congr
  intro a ha
  rw [decide_eq_decide, bound_eq hnow hbound, toDbIso_le_iff (hrows a ha).1 hnow, (hrows a ha).2]

theorem Scheduler.deferredText_eq (hnow : FourDigits now)
    (hbound : DbTypes.toDbIso (.aware now) = .ok bound)
    (hrows : ∀ r ∈ t.outbox, StoredInstant r.nextAttemptAt) :
    deferredText bound t = deferred now t := by
  apply List.filter_congr
  intro r hr
  rw [decide_eq_decide, bound_eq hnow hbound, toDbIso_lt_iff hnow (hrows r hr).1, (hrows r hr).2]

end Queries

/-! ## Texts for instants -/

/-- The queries, given the text of an instant, select the rows that instant says they should. -/
structure SelectsByInstant (now : DateTime) (bound : String) (t : Tables) : Prop where
  due : ∀ r, FourDigits r.nextAttemptAt → (r ∈ OutboxDrainer.dueText bound t ↔
    r ∈ t.outbox ∧ r.status = .pending ∧ dbTime r.nextAttemptAt ≤ dbTime now)
  stale : ∀ r, FourDigits r.createdAt → (r ∈ OutboxDrainer.staleText bound t ↔
    r ∈ t.outbox ∧ (r.status = .pending ∨ r.status = .sending) ∧ dbTime r.createdAt ≤ dbTime now)
  overdue : ∀ a, FourDigits a.expiresAt → (a ∈ Scheduler.overdueText bound t ↔
    a ∈ t.approvals ∧ a.status = .pending ∧ dbTime a.expiresAt ≤ dbTime now)
  deferred : ∀ r, FourDigits r.nextAttemptAt → (r ∈ Scheduler.deferredText bound t ↔
    r ∈ t.outbox ∧ r.status = .pending ∧ ¬dbTime r.nextAttemptAt ≤ dbTime now)

/-- **While the year in UTC takes four digits**, an instant is stored in 24 characters, read back cut
down to the millisecond, and compared as its text is; and the deadline queries select by the
instants. What has no year a datetime can hold is not stored at all. -/
theorem DbTypes.deadlines_as_texts :
    (∀ t, FourDigits t → ∃ s, DbTypes.toDbIso (.aware t) = .ok s ∧ s.length = 24 ∧
      fromDbIso s = some (dbTime t)) ∧
    (∀ t t' s s', FourDigits t → FourDigits t' → DbTypes.toDbIso (.aware t) = .ok s →
      DbTypes.toDbIso (.aware t') = .ok s' → (s < s' ↔ dbTime t < dbTime t')) ∧
    (∀ now bound tables, FourDigits now → DbTypes.toDbIso (.aware now) = .ok bound →
      SelectsByInstant now bound tables) ∧
    (∀ (w : World) bound, FourDigits (w.after 1).clock →
      (∀ r ∈ w.db.tables.outbox, StoredInstant r.nextAttemptAt) →
      DbTypes.toDbIso (.aware (w.after 1).clock) = .ok bound →
        OutboxDrainer.due.run World.handler w =
          (.ok (OutboxDrainer.dueText bound w.db.tables), w.after 2)) ∧
    ∀ t, (∃ s, DbTypes.toDbIso (.aware t) = .ok s) ↔ (t.astimezone 0).InRange := by
  refine ⟨fun t h => ⟨_, toDbIso_aware h, length_toDbIso h, fromDbIso_toDbIso h⟩, ?_, ?_, ?_, ?_⟩
  · intro t t' s s' h h' hs hs'
    rw [bound_eq h hs, bound_eq h' hs']
    exact toDbIso_lt_iff h h'
  · intro now bound tables hnow hbound
    exact
      { due := fun _ => OutboxDrainer.mem_dueText hnow hbound
        stale := fun _ => OutboxDrainer.mem_staleText hnow hbound
        overdue := fun _ => Scheduler.mem_overdueText hnow hbound
        deferred := fun _ => Scheduler.mem_deferredText hnow hbound }
  · intro w bound hclock hrows hbound
    exact OutboxDrainer.run_due_text hclock hrows hbound
  · exact fun t => toDbIso_ok_iff

/-- A case with one send that waits since the first second of the epoch. -/
def waiting : Database where
  tables := { oneCase.tables with
    outbox := [
      { id := "obx_1", caseId := "RC-0001", actionType := .createPaymentLink
        referenceId := referenceId "RC-0001" 1, payloadJson := none
        nextAttemptAt := { utc := 0 }, createdAt := { utc := 0 } }] }
  valid := by decide +kernel

/-- Two milliseconds of one second, and the send that is due in the later one. -/
theorem DbTypes.deadlines_as_texts_waiting :
    (∃ s, DbTypes.toDbIso (.aware { utc := 1999, offset := 19800 }) = .ok s ∧ s.length = 24 ∧
      fromDbIso s = some { utc := 1000 }) ∧
    (AegisMerchant.toDbIso { utc := 0 } < AegisMerchant.toDbIso { utc := 1999, offset := 19800 } ↔
      dbTime { utc := 0 } < dbTime { utc := 1999, offset := 19800 }) ∧
    SelectsByInstant { utc := 1000 } (AegisMerchant.toDbIso { utc := 1000 }) waiting.tables ∧
    OutboxDrainer.due.run World.handler (worldOf waiting) =
      (.ok (OutboxDrainer.dueText (AegisMerchant.toDbIso { utc := 1000 }) waiting.tables),
        (worldOf waiting).after 2) := by
  refine ⟨deadlines_as_texts.1 { utc := 1999, offset := 19800 } (by decide),
    deadlines_as_texts.2.1 _ _ _ _ (by decide) (by decide) (toDbIso_aware (by decide)) (toDbIso_aware (by decide)),
    deadlines_as_texts.2.2.1 _ _ _ (by decide) (toDbIso_aware (by decide)),
    deadlines_as_texts.2.2.2.1 (worldOf waiting) _ (by decide) ?_ (toDbIso_aware (by decide))⟩
  intro r hr
  rw [List.mem_singleton.mp hr]
  exact ⟨by decide, by decide⟩

/-- The last evening of the year 9999, half past five hours behind UTC. -/
def lastEvening : DateTime :=
  { utc := 2932896 * day + 106140 * second, offset := -19800 }

/-- A year of four digits on the clock of its zone is not enough: in UTC the year is over. -/
theorem DbTypes.not_deadlines_as_texts :
    ¬∀ t : DateTime, 1000 ≤ (civilFromDays t.wallDay).1 ∧ (civilFromDays t.wallDay).1 ≤ 9999 →
      t.OffsetInRange → ∃ s, DbTypes.toDbIso (.aware t) = .ok s ∧ s.length = 24 ∧
        fromDbIso s = some (dbTime t) := by
  intro h
  obtain ⟨s, hs, -⟩ := h lastEvening (by decide) (by decide)
  exact absurd (toDbIso_ok_iff.mp ⟨s, hs⟩) (by decide)

end AegisMerchant
