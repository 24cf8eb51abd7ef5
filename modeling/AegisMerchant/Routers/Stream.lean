import AegisMerchant.Base.JsonLoads
import AegisMerchant.Base.Queue

/-!
# The event stream

An in-process fan-out: every subscriber has a bounded queue, and one that does not keep up loses its
oldest frames, which are counted. Each subscriber is seen here with the history of what it was sent
and what it has read, over any order of subscribing, publishing, reading and leaving.

`invariant_step` is the step, and `subscribers_owed` what it comes to for each subscriber.
-/

namespace AegisMerchant

namespace Stream

def queueMaxsize : ℕ := 256

def publicEvents : List String :=
  ["case.detected", "case.diagnosed", "case.strategy_formed", "case.awaiting_approval",
    "case.executing", "case.monitoring", "case.recovered", "case.stopped", "case.control_held",
    "policy.clamped", "approval.requested", "approval.approved", "approval.rejected",
    "approval.expired", "action.dispatched", "recovery.verified", "stopping_rule.fired",
    "outbox.deferral_cancelled"]

/-- A frame, before it is written out: its id, its event and the fields of its data. -/
structure Frame where
  id : ℕ
  event : String
  data : List (String × Json)

structure Subscriber where
  queue : BoundedQueue Frame queueMaxsize := {}
  dropped : ℕ := 0

/-- `EventBus`, with the subscribers that were ever made. A subscriber is its place in that list, and
the set holds those that are connected. -/
structure EventBus where
  made : List Subscriber := []
  subscribers : List ℕ := []
  seq : ℕ := 0

/-- The frame of an event, with the counters of the bus and of the subscriber. -/
def frameFor (seq : ℕ) (event : String) (data : List (String × Json)) (sub : Subscriber) : Frame where
  id := seq
  event
  data := Json.setField (Json.setField data ("seq", .int seq)) ("dropped", .int sub.dropped)

/-- The body of the loop of `publish`: the subscriber afterwards, and what is added to the count of
deliveries. -/
def deliver (sub : Subscriber) (frame : Frame) : Subscriber × ℕ :=
  match sub.queue.put frame with
  | some queue => ({ sub with queue }, 1)
  | none =>
    -- full: the oldest goes, the newest stays
    match sub.queue.get with
    | none => ({ sub with dropped := sub.dropped + 1 }, 0)
    | some (_, shorter) =>
      match shorter.put frame with
      | none => ({ queue := shorter, dropped := sub.dropped + 1 }, 0)
      | some queue => ({ queue, dropped := sub.dropped + 1 }, 1)

/-- `publish`. The order of a set is not fixed, and each turn of the loop touches its own subscriber
only. -/
def publish (bus : EventBus) (event : String) (data : List (String × Json)) : EventBus × ℕ :=
  if event ∈ publicEvents then
    let delivered := bus.made.mapIdx fun i sub =>
      if i ∈ bus.subscribers then deliver sub (frameFor (bus.seq + 1) event data sub) else (sub, 0)
    ({ bus with made := delivered.map (·.1), seq := bus.seq + 1 }, (delivered.map (·.2)).sum)
  else (bus, 0)

def subscribe (bus : EventBus) : EventBus × ℕ :=
  ({ bus with made := bus.made ++ [{}], subscribers := bus.made.length :: bus.subscribers },
    bus.made.length)

def unsubscribe (bus : EventBus) (i : ℕ) : EventBus :=
  { bus with subscribers := bus.subscribers.filter (· ≠ i) }

/-- `sub.queue.get()` when a frame is there; while there is none, the reader waits. -/
def consume (bus : EventBus) (i : ℕ) : Option (Frame × EventBus) := do
  let sub ← bus.made[i]?
  let (frame, queue) ← sub.queue.get
  return (frame, { bus with made := bus.made.set i { sub with queue } })

/-! ## Runs -/

/-- What happens to the bus. A subscriber reads on after it left. -/
inductive Move where
  | subscribe
  | publish (event : String) (data : List (String × Json))
  | consume (i : ℕ)
  | unsubscribe (i : ℕ)

/-- What a subscriber was sent and what it has read. -/
structure History where
  published : ℕ := 0
  consumed : List Frame := []

/-- A bus with the histories of its subscribers. -/
structure Watched where
  bus : EventBus := {}
  histories : ℕ → History := fun _ => {}

def step (w : Watched) : Move → Watched
  | .subscribe => { w with bus := (subscribe w.bus).1 }
  | .publish event data =>
    { bus := (publish w.bus event data).1
      histories := fun i =>
        if event ∈ publicEvents ∧ i ∈ w.bus.subscribers then
          { w.histories i with published := (w.histories i).published + 1 }
        else w.histories i }
  | .consume i =>
    match consume w.bus i with
    | none => w
    | some (frame, bus) =>
      { bus
        histories := Function.update w.histories i
          { w.histories i with consumed := (w.histories i).consumed ++ [frame] } }
  | .unsubscribe i => { w with bus := unsubscribe w.bus i }

def run (moves : List Move) : Watched := moves.foldl step {}

/-! ## One delivery -/

/-- What a delivery does to a queue. -/
theorem deliver_spec (sub : Subscriber) (frame : Frame) :
    (sub.queue.items.length < queueMaxsize ∧
        (deliver sub frame).1.queue.items = sub.queue.items ++ [frame] ∧
        (deliver sub frame).1.dropped = sub.dropped) ∨
      ∃ oldest rest, sub.queue.items = oldest :: rest ∧
        sub.queue.items.length = queueMaxsize ∧
        (deliver sub frame).1.queue.items = rest ++ [frame] ∧
        (deliver sub frame).1.dropped = sub.dropped + 1 := by
  rcases Nat.lt_or_eq_of_le sub.queue.length_le with hroom | hfull
  · obtain ⟨queue, hput, hitems⟩ := BoundedQueue.put_of_lt hroom frame
    rw [deliver, hput]
    exact .inl ⟨hroom, hitems, rfl⟩
  · obtain ⟨oldest, shorter, queue, hget, hput, hold, hitems⟩ :=
      BoundedQueue.get_put_of_full (by decide) hfull frame
    have hdeliver : deliver sub frame = ({ queue, dropped := sub.dropped + 1 }, 1) := by
      rw [deliver, BoundedQueue.put_of_full hfull]
      simp only [hget, hput]
    rw [hdeliver]
    exact .inr ⟨oldest, shorter.items, hold, hfull, hitems, rfl⟩

/-- What publishing does to one subscriber, whatever the others are. -/
theorem publish_made {event : String} (hpublic : event ∈ publicEvents) (bus : EventBus)
    (data : List (String × Json)) (i : ℕ) :
    (publish bus event data).1.made[i]? = bus.made[i]?.map fun sub =>
      if i ∈ bus.subscribers then (deliver sub (frameFor (bus.seq + 1) event data sub)).1
      else sub := by
  rw [publish, if_pos hpublic]
  simp only [List.getElem?_map, List.getElem?_mapIdx, Option.map_map]
  congr 1
  funext sub
  show (if i ∈ bus.subscribers then _ else (sub, 0)).1 = _
  split
  · rfl
  · rfl

theorem publish_private {event : String} (h : event ∉ publicEvents) (bus : EventBus)
    (data : List (String × Json)) : publish bus event data = (bus, 0) := if_neg h

theorem publish_bus {event : String} (hpublic : event ∈ publicEvents) (bus : EventBus)
    (data : List (String × Json)) :
    (publish bus event data).1.seq = bus.seq + 1 ∧
      (publish bus event data).1.subscribers = bus.subscribers ∧
      (publish bus event data).1.made.length = bus.made.length := by
  rw [publish, if_pos hpublic]
  simp

theorem consume_eq_some {bus bus' : EventBus} {i : ℕ} {frame : Frame}
    (h : consume bus i = some (frame, bus')) :
    ∃ sub queue, bus.made[i]? = some sub ∧ sub.queue.get = some (frame, queue) ∧
      bus' = { bus with made := bus.made.set i { sub with queue } } := by
  unfold consume at h
  obtain ⟨sub, hsub, h⟩ := Option.bind_eq_some_iff.mp h
  obtain ⟨⟨frame', queue⟩, hget, h⟩ := Option.bind_eq_some_iff.mp h
  obtain ⟨rfl, rfl⟩ := Prod.mk.inj (Option.some.inj h)
  exact ⟨sub, queue, hsub, hget, rfl⟩

/-! ## What holds of every subscriber -/

/-- The books of one subscriber: what it was sent it has read, still has to read or has lost, and the
frames come in the order of their ids. -/
structure Sound (w : Watched) (i : ℕ) (sub : Subscriber) : Prop where
  conserved : (w.histories i).published =
    (w.histories i).consumed.length + sub.queue.items.length + sub.dropped
  ordered : (((w.histories i).consumed ++ sub.queue.items).map Frame.id).Pairwise (· < ·)
  past : ∀ frame ∈ (w.histories i).consumed ++ sub.queue.items, frame.id ≤ w.bus.seq

structure Invariant (w : Watched) : Prop where
  sound : ∀ i sub, w.bus.made[i]? = some sub → Sound w i sub
  fresh : ∀ i, w.bus.made.length ≤ i → w.histories i = {}
  known : ∀ i ∈ w.bus.subscribers, i < w.bus.made.length

/-- A frame with the next id keeps the order. -/
theorem pairwise_concat {frames : List Frame} {frame : Frame} {seq : ℕ}
    (hordered : (frames.map Frame.id).Pairwise (· < ·)) (hpast : ∀ f ∈ frames, f.id ≤ seq)
    (hid : frame.id = seq + 1) : ((frames ++ [frame]).map Frame.id).Pairwise (· < ·) := by
  rw [List.map_append, List.pairwise_append]
  refine ⟨hordered, List.pairwise_singleton _ _, ?_⟩
  intro a ha b hb
  obtain ⟨f, hf, rfl⟩ := List.mem_map.mp ha
  obtain rfl := List.mem_singleton.mp hb
  have := hpast f hf
  show f.id < frame.id
  omega

/-- A delivery keeps a subscriber's books. -/
theorem Sound.deliver {w w' : Watched} {i : ℕ} {sub : Subscriber} (h : Sound w i sub)
    {frame : Frame} (hid : frame.id = w.bus.seq + 1) (hseq : w'.bus.seq = w.bus.seq + 1)
    (hpublished : (w'.histories i).published = (w.histories i).published + 1)
    (hconsumed : (w'.histories i).consumed = (w.histories i).consumed) :
    Sound w' i (Stream.deliver sub frame).1 := by
  have hsent := h.conserved
  rcases deliver_spec sub frame with ⟨-, hitems, hdropped⟩ |
      ⟨oldest, rest, hold, hfull, hitems, hdropped⟩
  · refine ⟨?_, ?_, ?_⟩
    · rw [hpublished, hconsumed, hitems, hdropped, List.length_append, List.length_singleton]
      omega
    · rw [hconsumed, hitems, ← List.append_assoc]
      exact pairwise_concat h.ordered h.past hid
    · rw [hconsumed, hitems, hseq, ← List.append_assoc]
      intro f hf
      rcases List.mem_append.mp hf with hf | hf
      · exact Nat.le_succ_of_le (h.past f hf)
      · rw [List.mem_singleton.mp hf, hid]
  · -- without the oldest frame the others stay in order
    have hkept : List.Sublist ((w.histories i).consumed ++ rest)
        ((w.histories i).consumed ++ sub.queue.items) := by
      rw [hold]
      exact (List.Sublist.refl _).append (List.sublist_cons_self _ _)
    have hpast : ∀ f ∈ (w.histories i).consumed ++ rest, f.id ≤ w.bus.seq :=
      fun f hf => h.past f (hkept.subset hf)
    refine ⟨?_, ?_, ?_⟩
    · rw [hold, List.length_cons] at hsent
      rw [hpublished, hconsumed, hitems, hdropped, List.length_append, List.length_singleton]
      omega
    · rw [hconsumed, hitems, ← List.append_assoc]
      exact pairwise_concat (h.ordered.sublist (hkept.map _)) hpast hid
    · rw [hconsumed, hitems, hseq, ← List.append_assoc]
      intro f hf
      rcases List.mem_append.mp hf with hf | hf
      · exact Nat.le_succ_of_le (hpast f hf)
      · rw [List.mem_singleton.mp hf, hid]

/-- A subscriber whose history and frames stay keeps its books. -/
theorem Sound.congr {w w' : Watched} {i : ℕ} {sub : Subscriber} (h : Sound w i sub)
    (hseq : w.bus.seq ≤ w'.bus.seq) (hhistory : w'.histories i = w.histories i) :
    Sound w' i sub := by
  obtain ⟨hconserved, hordered, hpast⟩ := h
  rw [← hhistory] at hconserved hordered hpast
  exact ⟨hconserved, hordered, fun f hf => (hpast f hf).trans hseq⟩

/-- **One move keeps the books of all subscribers.** -/
theorem invariant_step {w : Watched} (h : Invariant w) (move : Move) : Invariant (step w move) := by
  obtain ⟨hsound, hfresh, hknown⟩ := h
  cases move with
  | subscribe =>
    refine ⟨fun i sub hsub => ?_, fun i hi => ?_, fun i hi => ?_⟩
    · simp only [step, subscribe] at hsub
      rcases Nat.lt_or_ge i w.bus.made.length with hlt | hge
      · rw [List.getElem?_append_left hlt] at hsub
        exact (hsound i sub hsub).congr le_rfl rfl
      · -- the new one has no history yet
        rw [List.getElem?_append_right hge, List.getElem?_singleton] at hsub
        split at hsub
        · obtain rfl := Option.some.inj hsub
          have hnone : (step w .subscribe).histories i = {} := hfresh i hge
          exact ⟨by rw [hnone]; rfl, by rw [hnone]; exact List.Pairwise.nil,
            by rw [hnone]; exact fun _ hf => absurd hf List.not_mem_nil⟩
        · cases hsub
    · simp only [step, subscribe, List.length_append, List.length_singleton] at hi
      exact hfresh i (Nat.le_of_succ_le hi)
    · simp only [step, subscribe, List.length_append, List.length_singleton] at hi ⊢
      rcases List.mem_cons.mp hi with rfl | hi
      · exact Nat.lt_succ_self _
      · exact Nat.lt_succ_of_lt (hknown i hi)
  | publish event data =>
    by_cases hpublic : event ∈ publicEvents
    · obtain ⟨hseq, hsubscribers, hlength⟩ := publish_bus hpublic w.bus data
      refine ⟨fun i sub hsub => ?_, fun i hi => ?_, fun i hi => ?_⟩
      · simp only [step, publish_made hpublic, Option.map_eq_some_iff] at hsub
        obtain ⟨before, hbefore, rfl⟩ := hsub
        by_cases hmember : i ∈ w.bus.subscribers
        · rw [if_pos hmember]
          exact (hsound i before hbefore).deliver rfl hseq
            (by simp [step, hpublic, hmember]) (by simp [step, hpublic, hmember])
        · rw [if_neg hmember]
          exact (hsound i before hbefore).congr (hseq ▸ Nat.le_succ _)
            (by simp [step, hmember])
      · have hlate : w.bus.made.length ≤ i := hlength ▸ hi
        have hmember : i ∉ w.bus.subscribers := fun hmem => absurd (hknown i hmem) (by omega)
        simp only [step, hmember, and_false, if_false]
        exact hfresh i hlate
      · have hmember : i ∈ w.bus.subscribers := hsubscribers ▸ hi
        exact hlength ▸ hknown i hmember
    · have hsame : step w (.publish event data) = w := by
        simp [step, publish_private hpublic, hpublic]
      rw [hsame]
      exact ⟨hsound, hfresh, hknown⟩
  | consume j =>
    simp only [step]
    cases hread : consume w.bus j with
    | none => exact ⟨hsound, hfresh, hknown⟩
    | some result =>
      obtain ⟨frame, bus⟩ := result
      obtain ⟨reader, queue, hreader, hget, rfl⟩ := consume_eq_some hread
      have hitems := BoundedQueue.get_eq_some hget
      have hj : j < w.bus.made.length := (List.getElem?_eq_some_iff.mp hreader).1
      refine ⟨fun i sub hsub => ?_, fun i hi => ?_, fun i hi => ?_⟩
      · by_cases hij : i = j
        · subst hij
          simp only [List.getElem?_set_self hj, Option.some.injEq] at hsub
          subst hsub
          obtain ⟨hconserved, hordered, hpast⟩ := hsound i reader hreader
          rw [hitems] at hconserved hordered hpast
          -- the frame moves from the front of the queue to the end of what was read
          refine ⟨?_, ?_, ?_⟩
          · simp only [Function.update_self, List.length_append, List.length_singleton]
            rw [List.length_cons] at hconserved
            omega
          · simpa using hordered
          · simpa using hpast
        · simp only [List.getElem?_set_ne (Ne.symm hij)] at hsub
          exact (hsound i sub hsub).congr le_rfl (by simp [hij])
      · simp only [List.length_set] at hi
        have hij : i ≠ j := by omega
        simp only [Function.update_of_ne hij]
        exact hfresh i hi
      · simp only [List.length_set]
        exact hknown i hi
  | unsubscribe j =>
    refine ⟨fun i sub hsub => (hsound i sub hsub).congr le_rfl rfl, hfresh, fun i hi => ?_⟩
    exact hknown i (List.mem_of_mem_filter hi)

theorem invariant_run (moves : List Move) : Invariant (run moves) := by
  have hrun : ∀ w, Invariant w → Invariant (moves.foldl step w) := by
    induction moves with
    | nil => exact fun w h => h
    | cons move rest ih => exact fun w h => ih _ (invariant_step h move)
  refine hrun {} ⟨fun i sub hsub => ?_, fun _ _ => rfl, fun i hi => ?_⟩
  · exact absurd hsub (by simp)
  · exact absurd hi List.not_mem_nil

/-! ## What the others do -/

/-- The moves that can concern a subscriber: those of the bus and its own. -/
def Concerns (i : ℕ) : Move → Bool
  | .subscribe => true
  | .publish _ _ => true
  | .consume j => j = i
  | .unsubscribe j => j = i

structure Alike (i : ℕ) (w v : Watched) : Prop where
  made : w.bus.made[i]? = v.bus.made[i]?
  length : w.bus.made.length = v.bus.made.length
  seq : w.bus.seq = v.bus.seq
  member : i ∈ w.bus.subscribers ↔ i ∈ v.bus.subscribers
  history : w.histories i = v.histories i

/-- A move of another subscriber is not seen. -/
theorem Alike.step_left {i : ℕ} {w v : Watched} (h : Alike i w v) {move : Move}
    (hmove : Concerns i move = false) : Alike i (step w move) v := by
  cases move with
  | subscribe => cases hmove
  | publish event data => cases hmove
  | consume j =>
    have hij : j ≠ i := of_decide_eq_false hmove
    simp only [step]
    cases hread : consume w.bus j with
    | none => exact h
    | some result =>
      obtain ⟨frame, bus⟩ := result
      obtain ⟨reader, queue, -, -, rfl⟩ := consume_eq_some hread
      refine ⟨?_, ?_, h.seq, h.member, ?_⟩
      · rw [← h.made]
        exact List.getElem?_set_ne hij
      · rw [← h.length]
        exact List.length_set
      · rw [← h.history]
        exact Function.update_of_ne hij.symm _ _
  | unsubscribe j =>
    have hij : j ≠ i := of_decide_eq_false hmove
    refine ⟨h.made, h.length, h.seq, ?_, h.history⟩
    rw [← h.member]
    simp [step, unsubscribe, hij.symm]

/-- A move of the bus or of the subscriber itself is seen alike. -/
theorem Alike.step_both {i : ℕ} {w v : Watched} (h : Alike i w v) {move : Move}
    (hmove : Concerns i move = true) : Alike i (step w move) (step v move) := by
  cases move with
  | subscribe =>
    refine ⟨?_, ?_, h.seq, ?_, h.history⟩
    · simp only [step, subscribe, List.getElem?_append, h.length, h.made]
    · simp only [step, subscribe, List.length_append, h.length]
    · simp only [step, subscribe, List.mem_cons, h.length, h.member]
  | publish event data =>
    by_cases hpublic : event ∈ publicEvents
    · obtain ⟨hseq, hsubscribers, hlength⟩ := publish_bus hpublic w.bus data
      obtain ⟨hseq', hsubscribers', hlength'⟩ := publish_bus hpublic v.bus data
      refine ⟨?_, ?_, ?_, ?_, ?_⟩
      · simp only [step, publish_made hpublic, h.made, h.seq, h.member]
      · exact hlength.trans (h.length.trans hlength'.symm)
      · exact hseq.trans ((congrArg (· + 1) h.seq).trans hseq'.symm)
      · simp only [step, hsubscribers, hsubscribers', h.member]
      · simp only [step, h.history, h.member]
    · simpa [step, publish_private hpublic, hpublic] using h
  | consume j =>
    obtain rfl : j = i := of_decide_eq_true hmove
    have hsame : (consume w.bus j).map Prod.fst = (consume v.bus j).map Prod.fst := by
      simp only [consume, h.made]
      cases v.bus.made[j]? with
      | none => rfl
      | some sub => cases hget : sub.queue.get <;> simp [hget]
    simp only [step]
    cases hw : consume w.bus j with
    | none =>
      rw [hw] at hsame
      rw [Option.map_eq_none_iff.mp hsame.symm]
      exact h
    | some result =>
      rw [hw] at hsame
      obtain ⟨result', hv, hframe⟩ := Option.map_eq_some_iff.mp hsame.symm
      rw [hv]
      obtain ⟨frame, bus⟩ := result
      obtain ⟨frame', bus'⟩ := result'
      obtain rfl : frame' = frame := hframe
      obtain ⟨reader, queue, hreader, hget, rfl⟩ := consume_eq_some hw
      obtain ⟨reader', queue', hreader', hget', rfl⟩ := consume_eq_some hv
      obtain rfl : reader = reader' :=
        Option.some.inj (hreader.symm.trans (h.made.trans hreader'))
      obtain rfl : queue = queue' :=
        (Prod.mk.inj (Option.some.inj (hget.symm.trans hget'))).2
      have hj : j < w.bus.made.length := (List.getElem?_eq_some_iff.mp hreader).1
      refine ⟨?_, ?_, h.seq, h.member, ?_⟩
      · simp only [List.getElem?_set_self hj, List.getElem?_set_self (h.length ▸ hj)]
      · simp only [List.length_set, h.length]
      · simp only [Function.update_self, h.history]
  | unsubscribe j =>
    obtain rfl : j = i := of_decide_eq_true hmove
    exact ⟨h.made, h.length, h.seq, by simp [step, unsubscribe], h.history⟩

/-- To a subscriber a run looks as it would without what the others do. -/
theorem alike_run (i : ℕ) (moves : List Move) : Alike i (run moves) (run (moves.filter (Concerns i))) := by
  have hrun : ∀ w v, Alike i w v →
      Alike i (moves.foldl step w) ((moves.filter (Concerns i)).foldl step v) := by
    induction moves with
    | nil => exact fun w v h => h
    | cons move rest ih =>
      intro w v h
      by_cases hmove : Concerns i move = true
      · rw [List.filter_cons_of_pos hmove]
        exact ih _ _ (h.step_both hmove)
      · rw [List.filter_cons_of_neg hmove]
        exact ih _ _ (h.step_left (Bool.eq_false_iff.mpr hmove))
  exact hrun {} {} ⟨rfl, rfl, rfl, Iff.rfl, rfl⟩

/-! ## The stream -/

/-- What publishing an event does to the queue of a connected subscriber: the new frame is put at its
end, and only from a full queue a frame is lost, which is the oldest. -/
structure Overflows (bus : EventBus) (i : ℕ) (sub : Subscriber) (event : String)
    (data : List (String × Json)) (after : Subscriber) : Prop where
  delivered : (publish bus event data).1.made[i]? = some after
  kept : sub.queue.items.length < queueMaxsize → after.dropped = sub.dropped ∧
    after.queue.items = sub.queue.items ++ [frameFor (bus.seq + 1) event data sub]
  lost : sub.queue.items.length = queueMaxsize → ∃ oldest rest,
    sub.queue.items = oldest :: rest ∧ (∀ frame ∈ rest, oldest.id < frame.id) ∧
      after.dropped = sub.dropped + 1 ∧
      after.queue.items = rest ++ [frameFor (bus.seq + 1) event data sub]

/-- **What every subscriber is owed**, after any run of moves: nothing it was sent is unaccounted for,
its queue is within the maximum, it reads in the order of the ids, an overflow takes its oldest
frame, and what the others do makes no difference to it. -/
structure Owed (moves : List Move) (i : ℕ) (sub : Subscriber) : Prop where
  conserved : ((run moves).histories i).published =
    ((run moves).histories i).consumed.length + sub.queue.items.length + sub.dropped
  bounded : sub.queue.items.length ≤ queueMaxsize
  ordered : (((run moves).histories i).consumed.map Frame.id).Pairwise (· < ·)
  overflows : i ∈ (run moves).bus.subscribers → ∀ event ∈ publicEvents, ∀ data,
    ∃ after, Overflows (run moves).bus i sub event data after
  independent : (run (moves.filter (Concerns i))).bus.made[i]? = some sub ∧
    (run (moves.filter (Concerns i))).histories i = (run moves).histories i

theorem subscribers_owed (moves : List Move) (i : ℕ) (sub : Subscriber)
    (hsub : (run moves).bus.made[i]? = some sub) : Owed moves i sub := by
  obtain ⟨hconserved, hordered, -⟩ := (invariant_run moves).sound i sub hsub
  have halike := alike_run i moves
  rw [List.map_append, List.pairwise_append] at hordered
  refine ⟨hconserved, sub.queue.length_le, hordered.1, fun hmember event hpublic data => ?_,
    ⟨halike.made ▸ hsub, halike.history.symm⟩⟩
  refine ⟨_, by rw [publish_made hpublic, hsub, Option.map_some, if_pos hmember],
    fun hroom => ?_, fun hfull => ?_⟩
  · rcases deliver_spec sub (frameFor ((run moves).bus.seq + 1) event data sub) with
      ⟨-, hitems, hdropped⟩ | ⟨-, -, -, hfull, -⟩
    · exact ⟨hdropped, hitems⟩
    · omega
  · rcases deliver_spec sub (frameFor ((run moves).bus.seq + 1) event data sub) with
      ⟨hroom, -⟩ | ⟨oldest, rest, hold, -, hitems, hdropped⟩
    · omega
    · refine ⟨oldest, rest, hold, fun frame hframe => ?_, hdropped, hitems⟩
      have hqueue := hordered.2.1
      rw [hold, List.map_cons, List.pairwise_cons] at hqueue
      exact hqueue.1 _ (List.mem_map_of_mem hframe)

/-- A client that reads its first event and then falls behind by one more than its queue holds. -/
def fallsBehind : List Move :=
  [.subscribe, .publish "case.recovered" [], .consume 0] ++
    List.replicate (queueMaxsize + 1) (.publish "case.stopped" [])

theorem subscribers_owed_behind : ∃ sub, Owed fallsBehind 0 sub ∧
    sub.queue.items.length = queueMaxsize ∧ sub.dropped = 1 := by
  have hleft : ((run fallsBehind).bus.made[0]?).map
      (fun sub => (sub.queue.items.length, sub.dropped)) = some (queueMaxsize, 1) := by
    decide +kernel
  obtain ⟨sub, hsub, heq⟩ := Option.map_eq_some_iff.mp hleft
  obtain ⟨hlength, hdropped⟩ := Prod.mk.inj heq
  exact ⟨sub, subscribers_owed fallsBehind 0 sub hsub, hlength, hdropped⟩

end Stream

end AegisMerchant
