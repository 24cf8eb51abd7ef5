import AegisMerchant.Services.Scheduler
import AegisMerchant.Tools.ChainLaws

/-!
# An approval past its TTL

A sweep expires an approval with the case that waits for it and a block that says so. A reviewer who
comes too late expires the approval alone: the case waits on, and no sweep sees the approval again.

`Releases.decide` and `Swept.spec` are the two services that close a request, `expiresFully_after`
is one late touch, and `touches_expireFully` every run of them; `not_touches_expireFully` is a
reviewer who clicks first.
-/

namespace AegisMerchant

open Time Rows

/-! ## What a touch does to the tables -/

/-- A case that waits, and had an approval, has one that is still open. -/
def OpenHasPending (t : Tables) : Prop :=
  ∀ c ∈ t.cases, c.status = .awaitingApproval → (∃ a ∈ t.approvals, a.caseId = c.id) →
    ∃ a ∈ t.approvals, a.caseId = c.id ∧ a.status = .pending

instance (t : Tables) : Decidable (OpenHasPending t) := by unfold OpenHasPending; infer_instance

/-- **What the expiry of an approval comes with**: its case, if it waited, has expired too, and is
resolved; and a block records it. -/
def ExpiresFully (rt : Runtime) (t u : Tables) : Prop :=
  ∀ a ∈ t.approvals, a.status = .pending →
    ∀ a' ∈ u.approvals, a'.id = a.id → a'.status = .expired →
      (∀ c ∈ t.cases, c.id = a.caseId → c.status = .awaitingApproval →
        ∀ c' ∈ u.cases, c'.id = c.id → c'.status = .expired ∧ c'.resolvedAt.isSome) ∧
      ∃ b ∈ u.blocks, AuditChain.Records rt (Scheduler.expiredEvent a) b

/-- Between two tables: a case that changed is released, and so is the case of an approval that
changed. -/
structure Releases (Released : CaseRow → Prop) (Decided : ApprovalStatus → Prop) (t u : Tables) :
    Prop where
  caseIds : u.cases.map (·.id) = t.cases.map (·.id)
  approvalKeys : (u.approvals.map fun a => (a.id, a.caseId)) =
    t.approvals.map fun a => (a.id, a.caseId)
  cases : ∀ c' ∈ u.cases, c' ∈ t.cases ∨ Released c'
  approvals : ∀ a' ∈ u.approvals, a' ∈ t.approvals ∨
    Decided a'.status ∧ ∀ c' ∈ u.cases, c'.id = a'.caseId → c'.status ≠ .awaitingApproval

section Releases

variable {Released : CaseRow → Prop} {Decided : ApprovalStatus → Prop} {t u u' : Tables}

theorem Releases.refl (t : Tables) : Releases Released Decided t t :=
  ⟨rfl, rfl, fun _ => .inl, fun _ => .inl⟩

theorem Releases.congr (h : Releases Released Decided t u) (hcases : u'.cases = u.cases)
    (happrovals : u'.approvals = u.approvals) : Releases Released Decided t u' := by
  constructor
  · rw [hcases]
    exact h.caseIds
  · rw [happrovals]
    exact h.approvalKeys
  · rw [hcases]
    exact h.cases
  · rw [hcases, happrovals]
    exact h.approvals

/-- The approval row under an id belongs to the case it always belonged to. -/
theorem Releases.caseId_eq (h : Releases Released Decided t u) (ht : t.Valid) {a a' : ApprovalRow}
    (ha : a ∈ t.approvals) (ha' : a' ∈ u.approvals) (hid : a'.id = a.id) : a'.caseId = a.caseId := by
  have hmem : (a'.id, a'.caseId) ∈ t.approvals.map fun a => (a.id, a.caseId) := by
    rw [← h.approvalKeys]
    exact List.mem_map_of_mem ha'
  obtain ⟨a₀, ha₀, hkey⟩ := List.mem_map.mp hmem
  obtain ⟨hid₀, hcase₀⟩ := Prod.mk.inj hkey
  obtain rfl := eq_of_key_eq ht.approval_id ha₀ ha (hid₀.trans hid)
  exact hcase₀.symm

/-- **A released case leaves no other waiting**: a case that waits on has an open approval on. -/
theorem Releases.openHasPending (h : Releases Released Decided t u) (ht : t.Valid)
    (hreleased : ∀ c, Released c → c.status ≠ .awaitingApproval) (hopen : OpenHasPending t) :
    OpenHasPending u := by
  rintro c hc hwaits ⟨a', ha', hcase'⟩
  have hct : c ∈ t.cases := (h.cases c hc).resolve_right fun hr => hreleased c hr hwaits
  -- its approval was there before, so an open one was, and that one did not change
  have himage : ∀ {x y : List ApprovalRow},
      (x.map fun a => (a.id, a.caseId)) = y.map (fun a => (a.id, a.caseId)) →
        ∀ a ∈ x, ∃ b ∈ y, b.id = a.id ∧ b.caseId = a.caseId := by
    intro x y hxy a ha
    have hmem := List.mem_map_of_mem (f := fun a : ApprovalRow => (a.id, a.caseId)) ha
    rw [hxy] at hmem
    obtain ⟨b, hb, hkey⟩ := List.mem_map.mp hmem
    exact ⟨b, hb, (Prod.mk.inj hkey).1, (Prod.mk.inj hkey).2⟩
  obtain ⟨a, ha, -, hcase⟩ := himage h.approvalKeys a' ha'
  obtain ⟨p, hp, hpcase, hpending⟩ := hopen c hct hwaits ⟨a, ha, hcase.trans hcase'⟩
  obtain ⟨p', hp', hpid, hpcase'⟩ := himage h.approvalKeys.symm p hp
  rcases h.approvals p' hp' with hsame | ⟨-, hrest⟩
  · obtain rfl := eq_of_key_eq ht.approval_id hsame hp hpid
    exact ⟨p', hp', hpcase, hpending⟩
  · exact absurd hwaits (hrest c hc (hpcase.symm.trans hpcase'.symm))

/-- The case an approval waits on, released. -/
theorem applyAll_releaseCase {released : CaseRow → CaseRow} (hu : (u.cases.map (·.id)).Nodup)
    (hstore : ∀ c : CaseRow, Released (c.store (released c) c))
    (hreleased : ∀ c, Released c → c.status ≠ .awaitingApproval) (caseId : String) :
    let v := u.applyAll (releaseCase released (u.caseById caseId))
    v.approvals = u.approvals ∧ v.blocks = u.blocks ∧
      v.cases.map (·.id) = u.cases.map (·.id) ∧ (∀ c ∈ v.cases, c ∈ u.cases ∨ Released c) ∧
      ∀ c ∈ v.cases, c.id = caseId → c.status ≠ .awaitingApproval := by
  cases hfound : u.caseById caseId with
  | none =>
    refine ⟨rfl, rfl, rfl, fun c hc => .inl hc, fun c hc hid => ?_⟩
    exact absurd (decide_eq_true hid) (List.find?_eq_none.mp hfound c hc)
  | some case =>
    have hmem : case ∈ u.cases := List.mem_of_find?_eq_some hfound
    have hid : case.id = caseId := by simpa using List.find?_some hfound
    by_cases hwaits : case.status = .awaitingApproval
    · simp only [releaseCase, if_pos hwaits]
      have hcases : ∀ c ∈ (u.apply (.updateCase case (released case))).cases,
          (c.id ≠ caseId ∧ c ∈ u.cases) ∨ Released c := by
        intro c hc
        obtain ⟨c₀, hc₀, rfl⟩ := mem_updateWhere.mp hc
        by_cases hkey : c₀.id = case.id
        · obtain rfl := eq_of_key_eq hu hc₀ hmem hkey
          rw [if_pos rfl]
          exact .inr (hstore c₀)
        · rw [if_neg hkey]
          exact .inl ⟨hid ▸ hkey, hc₀⟩
      refine ⟨rfl, rfl, map_updateWhere _ fun _ => rfl, fun c hc => ?_, fun c hc hcid => ?_⟩
      · exact (hcases c hc).imp_left And.right
      · rcases hcases c hc with ⟨hne, -⟩ | hr
        · exact absurd hcid hne
        · exact hreleased c hr
    · simp only [releaseCase, if_neg hwaits]
      refine ⟨rfl, rfl, rfl, fun c hc => .inl hc, fun c hc hcid => ?_⟩
      obtain rfl := eq_of_key_eq hu hc hmem (hcid.trans hid.symm)
      exact hwaits

/-- **Step.** An approval that is decided, with the case that waits for it. -/
theorem Releases.decide {released : CaseRow → CaseRow} (h : Releases Released Decided t u)
    (ht : t.Valid) (hstore : ∀ c : CaseRow, Released (c.store (released c) c))
    (hreleased : ∀ c, Released c → c.status ≠ .awaitingApproval) {a new : ApprovalRow}
    (ha : a ∈ t.approvals) (hnew : new.status ≠ a.status) (hdecided : Decided new.status) :
    Releases Released Decided t ((u.apply (.updateApproval a new)).applyAll
      (releaseCase released (u.caseById a.caseId))) := by
  have hu : (u.cases.map (·.id)).Nodup := h.caseIds ▸ ht.case_id
  obtain ⟨happrovals, -, hids, hcases, hcase⟩ := applyAll_releaseCase
    (u := u.apply (.updateApproval a new)) hu hstore hreleased a.caseId
  have hkeys : ((u.apply (.updateApproval a new)).approvals.map fun a => (a.id, a.caseId)) =
      u.approvals.map fun a => (a.id, a.caseId) := map_updateWhere _ fun _ => rfl
  constructor
  · exact hids.trans h.caseIds
  · show List.map _ (Tables.applyAll _ (releaseCase released
      ((u.apply (.updateApproval a new)).caseById a.caseId))).approvals = _
    rw [happrovals]
    exact hkeys.trans h.approvalKeys
  · intro c hc
    rcases hcases c hc with hc | hc
    · exact h.cases c hc
    · exact .inr hc
  · intro a' ha'
    have ha'' : a' ∈ (u.apply (.updateApproval a new)).approvals := happrovals ▸ ha'
    obtain ⟨a₀, ha₀, rfl⟩ := mem_updateWhere.mp ha''
    by_cases hkey : a₀.id = a.id
    · rw [if_pos hkey]
      refine .inr ⟨?_, fun c hc hid => ?_⟩
      · show Decided (dirty a.status new.status a₀.status)
        rwa [dirty, if_neg hnew]
      · have hcaseId : a₀.caseId = a.caseId := h.caseId_eq ht ha ha₀ hkey
        exact hcase c hc (hid.trans hcaseId)
    · rw [if_neg hkey]
      refine (h.approvals a₀ ha₀).imp_right fun hrest => ⟨hrest.1, fun c hc hid => ?_⟩
      rcases hcases c hc with hc | hc
      · exact hrest.2 c hc hid
      · exact hreleased c hc

end Releases

/-! ## A sweep -/

def CaseRow.Expired (c : CaseRow) : Prop := c.status = .expired ∧ c.resolvedAt.isSome

/-- **The statements a sweep holds**, over the tables it sweeps. -/
inductive Swept (rt : Runtime) (t : Tables) : List Write → Prop
  | nil : Swept rt t []
  | expired {ws : List Write} {a : ApprovalRow} {now : DateTime} {block : AuditBlockRow}
      (h : Swept rt t ws) (ha : a ∈ t.approvals) (hpending : a.status = .pending)
      (hblock : AuditChain.Records rt (Scheduler.expiredEvent a) block) :
      Swept rt t (ws ++ (.updateApproval a (a.expire now) ::
        releaseCase (Scheduler.expiredCase now) ((t.applyAll ws).caseById a.caseId)) ++
          [.insertBlock block])
  | cancelled {ws : List Write} {read new : OutboxRow} {block : AuditBlockRow} (h : Swept rt t ws) :
      Swept rt t (ws ++ [.updateOutbox read new] ++ [.insertBlock block])
  /-- The append was retried, and everything before it rolled back. -/
  | lost {block : AuditBlockRow} : Swept rt t [.insertBlock block]

/-- Each approval that expired has its block. -/
def Witnessed (rt : Runtime) (t u : Tables) : Prop :=
  ∀ a ∈ t.approvals, a.status = .pending → ∀ a' ∈ u.approvals, a'.id = a.id →
    a'.status = .expired → ∃ b ∈ u.blocks, AuditChain.Records rt (Scheduler.expiredEvent a) b

section Sweep

variable {rt : Runtime} {t : Tables}

theorem Witnessed.refl (ht : t.Valid) : Witnessed rt t t := by
  intro a ha hpending a' ha' hid hexpired
  obtain rfl := eq_of_key_eq ht.approval_id ha' ha hid
  rw [hpending] at hexpired
  cases hexpired

theorem expired_store (now : DateTime) (c : CaseRow) :
    (c.store (Scheduler.expiredCase now c) c).Expired := by
  constructor
  · show dirty c.status .expired c.status = .expired
    unfold dirty
    split
    · next h => exact h.symm
    · rfl
  · show (dirty c.resolvedAt (some (dbTime now)) c.resolvedAt).isSome
    unfold dirty
    split
    · next h => rw [← h]; rfl
    · rfl

/-- **Step.** What a sweep holds releases the cases whose approvals it expires, and records each. -/
theorem Swept.spec (ht : t.Valid) {ws : List Write} (h : Swept rt t ws) :
    Releases CaseRow.Expired (· = .expired) t (t.applyAll ws) ∧ Witnessed rt t (t.applyAll ws) := by
  induction h with
  | nil => exact ⟨.refl t, .refl ht⟩
  | @expired ws a now block _ ha hpending hblock ih =>
    obtain ⟨hreleases, hwitnessed⟩ := ih
    have hexpires : (a.expire now).status ≠ a.status := by
      rw [hpending]
      show ApprovalStatus.expired ≠ _
      decide
    have hnext := hreleases.decide ht (expired_store now) (fun c hc => by simp [hc.1]) ha hexpires
      rfl
    have hu : ((t.applyAll ws).cases.map (·.id)).Nodup := hreleases.caseIds ▸ ht.case_id
    obtain ⟨happrovals, hblocks, -⟩ := applyAll_releaseCase
      (u := (t.applyAll ws).apply (.updateApproval a (a.expire now))) hu (expired_store now)
        (fun c hc => by simp [hc.1]) a.caseId
    rw [Tables.applyAll_append, Tables.applyAll_append, Tables.applyAll_cons]
    refine ⟨hnext.congr rfl rfl, fun a₀ ha₀ hpending₀ a' ha' hid hexpired => ?_⟩
    -- the approval is told of by its own block, every other one by a block there already
    by_cases hsame : a₀ = a
    · subst hsame
      exact ⟨block, List.mem_append_right _ (List.mem_singleton_self _), hblock⟩
    · have ha'' : a' ∈ ((t.applyAll ws).apply (.updateApproval a (a.expire now))).approvals :=
        happrovals ▸ ha'
      obtain ⟨r, hr, rfl⟩ := mem_updateWhere.mp ha''
      have hkey : r.id ≠ a.id := by
        intro hkey
        rw [if_pos hkey] at hid
        exact hsame (eq_of_key_eq ht.approval_id ha₀ ha (hid.symm.trans hkey))
      rw [if_neg hkey] at hid hexpired
      obtain ⟨b, hb, hrecords⟩ := hwitnessed a₀ ha₀ hpending₀ r hr hid hexpired
      exact ⟨b, List.mem_append_left _ (hblocks ▸ hb), hrecords⟩
  | cancelled _ ih =>
    -- a cancelled send touches no approval
    rw [Tables.applyAll_append, Tables.applyAll_append]
    refine ⟨ih.1.congr rfl rfl, fun a ha hpending a' ha' hid hexpired => ?_⟩
    obtain ⟨b, hb, hrecords⟩ := ih.2 a ha hpending a' ha' hid hexpired
    exact ⟨b, List.mem_append_left _ hb, hrecords⟩
  | lost =>
    -- the session was rolled back: the block is all that is left of it
    refine ⟨(Releases.refl t).congr rfl rfl, fun a ha hpending a' ha' hid hexpired => ?_⟩
    obtain ⟨b, hb, hrecords⟩ := Witnessed.refl ht a ha hpending a' ha' hid hexpired
    exact ⟨b, List.mem_append_left _ hb, hrecords⟩

/-! ## The sweep, running alone -/

/-- A session of a sweep between two flushes. -/
def Sweeping (rt : Runtime) (t : Tables) (session : Session) : Prop :=
  session.fresh = [] ∧ Swept rt t session.sent

/-- A part of a sweep leaves the database as it was, and hands on the session of a sweep. -/
def Sweeps (rt : Runtime) {α : Type} (p : Act α) (session : α → Session) (w : World) : Prop :=
  (p.run World.handler w).2.db = w.db ∧
    ∀ a, (p.run World.handler w).1 = .ok a → Sweeping rt w.db.tables (session a)

theorem Sweeps.bind {α β : Type} {p : Act α} {f : α → Act β} {g : α → Session} {h : β → Session}
    {w : World} (hp : Sweeps rt p g w)
    (hf : ∀ a v, v.db = w.db → Sweeping rt w.db.tables (g a) → Sweeps rt (f a) h v) :
    Sweeps rt (p >>= f) h w := by
  obtain ⟨hdb, hok⟩ := hp
  unfold Sweeps
  rw [Prog.run_bind]
  rcases hrun : p.run World.handler w with ⟨exc | a, v⟩
  · rw [hrun] at hdb
    exact ⟨hdb, fun b hb => by cases hb⟩
  · rw [hrun] at hdb hok
    obtain ⟨hdb', hok'⟩ := hf a v hdb (hok a rfl)
    rw [show v.db = w.db from hdb] at hdb' hok'
    exact ⟨hdb', hok'⟩

/-- What an append hands back has nothing unflushed. -/
theorem flushed_appendLoop (e : AuditEvent) (tries : ℕ) (session : Session) :
    (AuditChain.appendLoop rt e tries session).All (fun _ => True)
      fun r => ∀ block session', r = .ok (block, session') → session'.fresh = [] := by
  induction tries generalizing session with
  | zero => exact fun block session' h => by cases h
  | succ tries ih =>
    unfold AuditChain.appendLoop Session.flush Session.select
    simp only [Prog.all_bind, Prog.all_lift, Act.all_nowUtc, Act.all_freshId, Prog.all_attempt,
      Act.all_call]
    refine ⟨trivial, fun head => ⟨trivial, fun created => ⟨trivial, fun hex => ⟨trivial, ?_⟩⟩⟩⟩
    rintro (exc | ⟨⟩)
    · cases exc with
      | integrityError =>
        simp only
        split
        · exact fun block session' h => by cases h
        · exact ih session.rollback
      | _ => exact fun block session' h => by cases h
    · intro block session' h
      cases h
      rfl

/-- An append keeps a sweep going, whether it was retried or not. -/
theorem sweeps_append {session : Session} {e : AuditEvent} {w : World}
    (hswept : ∀ block, AuditChain.Records rt e block →
      Swept rt w.db.tables (session.pending ++ [.insertBlock block])) :
    Sweeps rt (AuditChain.append rt session e) (·.2) w := by
  refine ⟨World.run_quiet (AuditChain.all_append rt session e) w, ?_⟩
  rintro ⟨block, session'⟩ hrun
  have hfresh := (flushed_appendLoop e _ session).run (H := World.handler) w block session' hrun
  have happended := (AuditChain.all_append rt session e).run (H := World.handler) w
  rw [hrun] at happended
  obtain ⟨hrecords, hpending⟩ := happended
  refine ⟨hfresh, ?_⟩
  rw [Session.pending, hfresh, List.append_nil] at hpending
  show Swept rt w.db.tables session'.sent
  rcases hpending with hpending | hpending <;> rw [hpending]
  · exact hswept block hrecords
  · exact .lost

/-- A query of the session, then the rest. -/
theorem Sweeps.select {α β : Type} {session : Session} {q : Tables → α} {f : α → Act β}
    {h : β → Session} {w : World}
    (hf : Sweeps rt (f (q (w.db.tables.applyAll session.sent))) h (w.after 1)) :
    Sweeps rt (session.select q >>= f) h w := hf

theorem Sweeps.nowUtc {β : Type} {f : DateTime → Act β} {h : β → Session} {w : World}
    (hf : Sweeps rt (f (w.after 1).clock) h (w.after 1)) : Sweeps rt (Act.nowUtc >>= f) h w := hf

theorem sweeps_return {α : Type} {a : α} {g : α → Session} {w : World}
    (h : Sweeping rt w.db.tables (g a)) : Sweeps rt (return a) g w := by
  refine ⟨rfl, fun b hb => ?_⟩
  cases hb
  exact h

theorem sweeps_throw {α : Type} {e : PyError} {g : α → Session} {w : World} :
    Sweeps rt (throw e : Act α) g w := ⟨rfl, fun b hb => by cases hb⟩

theorem sweeps_expireApproval {now : DateTime} {a : ApprovalRow} {session : Session} {w : World}
    (ha : a ∈ w.db.tables.approvals) (hpending : a.status = .pending)
    (h : Sweeping rt w.db.tables session) :
    Sweeps rt (Scheduler.expireApproval rt now a session) id w := by
  obtain ⟨hfresh, hswept⟩ := h
  unfold Scheduler.expireApproval
  refine @Sweeps.select rt _ _ (session.add _) _ _ _ w ?_
  refine Sweeps.bind (sweeps_append fun block hblock => ?_) fun appended v hv h => ?_
  · simp only [Session.add, Session.pending, hfresh, List.nil_append, List.singleton_append]
    exact .expired hswept ha hpending hblock
  · exact sweeps_return (hv ▸ h)

theorem sweeps_expireAll {now : DateTime} {w : World} (rows : List ApprovalRow) :
    ∀ {count : ℕ} {session : Session} {v : World}, v.db = w.db →
      (∀ a ∈ rows, a ∈ w.db.tables.approvals) → Sweeping rt w.db.tables session →
        Sweeps rt (Scheduler.expireAll rt now rows count session) (·.2) v := by
  induction rows with
  | nil => exact fun hv _ h => sweeps_return (hv ▸ h)
  | cons a rest ih =>
    intro count session v hv hrows h
    have hrest : ∀ a ∈ rest, a ∈ w.db.tables.approvals := fun a ha =>
      hrows a (List.mem_cons_of_mem _ ha)
    unfold Scheduler.expireAll
    split
    · exact sweeps_throw
    · split
      · exact ih hv hrest h
      · next hpending =>
          refine Sweeps.bind (sweeps_expireApproval (hv ▸ hrows a List.mem_cons_self)
            (not_not.mp hpending) (hv ▸ h)) fun session' v' hv' h' => ?_
          exact ih (hv'.trans hv) hrest (hv ▸ h')

theorem sweeps_cancelAll {w : World} (rows : List OutboxRow) :
    ∀ {count : ℕ} {session : Session} {v : World}, v.db = w.db →
      Sweeping rt w.db.tables session →
        Sweeps rt (Scheduler.cancelAll rt rows count session) (·.2) v := by
  induction rows with
  | nil => exact fun hv h => sweeps_return (hv ▸ h)
  | cons entry rest ih =>
    intro count session v hv h
    unfold Scheduler.cancelAll
    split
    · exact sweeps_throw
    · split
      · exact ih hv h
      · refine Sweeps.select ?_
        split
        · exact ih hv h
        · refine Sweeps.bind (sweeps_append fun block hblock => ?_) fun appended v' hv' h' => ?_
          · obtain ⟨hfresh, hswept⟩ := h
            simp only [Session.add, Session.pending, hfresh, List.nil_append]
            exact .cancelled (hv ▸ hswept)
          · exact ih (hv'.trans hv) (hv ▸ h')

/-- **A sweep** commits what it holds, or nothing. -/
theorem run_sweep (w : World) :
    ∃ ws, Swept rt w.db.tables ws ∧
      ((Scheduler.sweep rt).run World.handler w).2.db.tables = w.db.tables.applyAll ws := by
  have hexpire : Sweeps rt (Scheduler.expireApprovals rt {}) (·.2) w := by
    refine Sweeps.nowUtc (Sweeps.select ?_)
    exact sweeps_expireAll (w := w) _ rfl (fun a ha => (List.mem_filter.mp ha).1) ⟨rfl, .nil⟩
  have hcancel : ∀ {session : Session} {v : World}, v.db = w.db → Sweeping rt w.db.tables session →
      Sweeps rt (Scheduler.killStaleDeferrals rt session) (·.2) v := by
    intro session v hv h
    refine Sweeps.nowUtc (Sweeps.select ?_)
    exact sweeps_cancelAll (w := w) _ hv h
  unfold Scheduler.sweep
  rw [Prog.run_bind]
  -- whatever raises before the commit leaves the tables as they were
  obtain ⟨hdb, hok⟩ := hexpire
  rcases hrun : (Scheduler.expireApprovals rt {}).run World.handler w with ⟨exc | expired, v⟩
  · rw [hrun] at hdb
    exact ⟨[], .nil, congrArg Database.tables hdb⟩
  · rw [hrun] at hdb hok
    simp only
    rw [Prog.run_bind]
    obtain ⟨hdb', hok'⟩ := hcancel hdb (hok expired rfl)
    rcases hrun' : (Scheduler.killStaleDeferrals rt expired.2).run World.handler v with
      ⟨exc | stale, v'⟩
    · rw [hrun'] at hdb'
      exact ⟨[], .nil, congrArg Database.tables (hdb'.trans hdb)⟩
    · rw [hrun'] at hdb' hok'
      simp only
      obtain ⟨hfresh, hswept⟩ := hok' stale rfl
      have hv : v'.db = w.db := hdb'.trans hdb
      rw [Prog.run_bind, Session.commit, Act.run_commit, hv]
      cases hcommit : w.db.commit stale.2.pending with
      | none => exact ⟨[], .nil, congrArg Database.tables hv⟩
      | some db =>
        refine ⟨stale.2.sent, hdb ▸ hswept, ?_⟩
        show db.tables = _
        rw [Database.commit_eq_some.mp hcommit, Session.pending, hfresh, List.append_nil]

end Sweep

/-! ## A reviewer -/

section Review

variable {rt : Runtime} {t u : Tables}

/-- An approval that was open and has changed was decided. -/
theorem Releases.changed {Released : CaseRow → Prop} {Decided : ApprovalStatus → Prop}
    (h : Releases Released Decided t u) (ht : t.Valid) {a a' : ApprovalRow} (ha : a ∈ t.approvals)
    (ha' : a' ∈ u.approvals) (hid : a'.id = a.id) (hne : a'.status ≠ a.status) :
    Decided a'.status ∧ ∀ c' ∈ u.cases, c'.id = a.caseId → c'.status ≠ .awaitingApproval := by
  rw [← h.caseId_eq ht ha ha' hid]
  refine (h.approvals a' ha').resolve_left fun hsame => hne ?_
  rw [eq_of_key_eq ht.approval_id hsame ha hid]

theorem expiresFully_of_witnessed {Decided : ApprovalStatus → Prop}
    (h : Releases CaseRow.Expired Decided t u) (ht : t.Valid) (hwitnessed : Witnessed rt t u) :
    ExpiresFully rt t u := by
  intro a ha hpending a' ha' hid hexpired
  refine ⟨fun c hc hcase hwaits c' hc' hid' => ?_, hwitnessed a ha hpending a' ha' hid hexpired⟩
  have hrest := (h.changed ht ha ha' hid (by rw [hexpired, hpending]; decide)).2
  refine (h.cases c' hc').resolve_left fun hsame => ?_
  obtain rfl := eq_of_key_eq ht.case_id hsame hc hid'
  exact hrest c' hc' hcase hwaits

theorem expiresFully_of_decided {Released : CaseRow → Prop}
    (h : Releases Released (· ≠ .expired) t u) (ht : t.Valid) : ExpiresFully rt t u := by
  intro a ha hpending a' ha' hid hexpired
  exact absurd hexpired (h.changed ht ha ha' hid (by rw [hexpired, hpending]; decide)).1

def CaseRow.Closed (c : CaseRow) : Prop := c.status ≠ .awaitingApproval

theorem closed_store (body : Approvals.ActionRequest) (now : DateTime) (c : CaseRow) :
    (c.store (Approvals.released body now c) c).Closed := by
  have hnew : (Approvals.released body now c).status ≠ .awaitingApproval := by
    unfold Approvals.released
    split
    · show CaseStatus.strategyFormed ≠ _
      decide
    · show CaseStatus.rejected ≠ _
      decide
  show dirty c.status (Approvals.released body now c).status c.status ≠ _
  unfold dirty
  split
  · next h => rwa [h] at hnew
  · exact hnew

/-- **A decision** releases the case that waits for it, or changes nothing. -/
theorem releases_decide (principal : Principal) (body : Approvals.ActionRequest)
    {approval : ApprovalRow} (now : DateTime) {w : World} (ha : approval ∈ w.db.tables.approvals)
    (hpending : approval.status = .pending) :
    Releases CaseRow.Closed (· ≠ .expired) w.db.tables
      ((Approvals.decide rt principal body approval now).run World.handler w).2.db.tables := by
  have ht := w.db.valid
  have hnew : (Approvals.decided approval body principal now).status ≠ approval.status ∧
      (Approvals.decided approval body principal now).status ≠ .expired := by
    rw [hpending]
    show (if body.approve then ApprovalStatus.approved else .rejected) ≠ .pending ∧
      (if body.approve then ApprovalStatus.approved else .rejected) ≠ .expired
    cases body.approve <;> decide
  unfold Approvals.decide
  rw [Prog.run_bind, Act.run_select]
  simp only
  generalize hsession : ({ fresh := _ :: releaseCase _ _ } : Session) = session
  have hpend : session.pending = .updateApproval approval
      (Approvals.decided approval body principal now) ::
        releaseCase (Approvals.released body now) (w.db.tables.caseById approval.caseId) := by
    rw [← hsession]
    rfl
  have hdb := World.run_quiet (AuditChain.all_append rt session
    (Approvals.decisionEvent approval body principal)) (w.after 1)
  have happended := (AuditChain.all_append rt session
    (Approvals.decisionEvent approval body principal)).run (H := World.handler) (w.after 1)
  rw [Prog.run_bind]
  rcases hrun : (AuditChain.append rt session
    (Approvals.decisionEvent approval body principal)).run World.handler (w.after 1) with
      ⟨exc | ⟨block, session'⟩, v⟩
  · rw [hrun] at hdb
    rw [show v.db = w.db from hdb]
    exact .refl _
  · rw [hrun] at hdb happended
    simp only
    rw [Prog.run_bind, Session.commit, Act.run_commit, show v.db = w.db from hdb]
    cases hcommit : w.db.commit session'.pending with
    | none =>
      show Releases _ _ _ v.db.tables
      rw [show v.db = w.db from hdb]
      exact .refl _
    | some db =>
      have htables : Releases CaseRow.Closed (· ≠ .expired) w.db.tables db.tables := by
        rw [Database.commit_eq_some.mp hcommit]
        -- the block came after the decision, or was all that a rollback left
        rcases happended.2 with hp | hp <;> rw [hp]
        · rw [hpend, Tables.applyAll_append, Tables.applyAll_cons]
          exact ((Releases.refl _).decide ht (closed_store body now) (fun _ h => h) ha hnew.1
            hnew.2).congr rfl rfl
        · exact (Releases.refl _).congr rfl rfl
      simp only
      split <;> exact htables

/-- A reviewer reads an open approval past its TTL: the request is its second command. -/
def LateReview (approvalId : String) (w : World) : Prop :=
  match w.db.tables.approvalById approvalId with
  | some a => a.status = .pending ∧ a.expiresAt ≤ (w.after 2).clock
  | none => False

instance (approvalId : String) (w : World) : Decidable (LateReview approvalId w) := by
  unfold LateReview
  split <;> infer_instance

/-- **A reviewer who is not late** decides the approval, or changes nothing. -/
theorem releases_actionApproval (principal : Principal) (approvalId : String)
    (body : Approvals.ActionRequest) {w : World} (honTime : ¬LateReview approvalId w) :
    Releases CaseRow.Closed (· ≠ .expired) w.db.tables
      ((Approvals.actionApproval rt principal approvalId body).run World.handler w).2.db.tables := by
  unfold Approvals.actionApproval
  rw [Prog.run_bind, Act.run_select]
  unfold LateReview at honTime
  cases hfound : w.db.tables.approvalById approvalId with
  | none => exact .refl _
  | some a =>
    rw [hfound] at honTime
    simp only
    rw [Prog.run_bind, Act.run_nowUtc]
    simp only
    split
    · exact .refl _
    · next hpending =>
        have hopen := not_not.mp hpending
        have hintime : ¬a.expiresAt ≤ ((w.after 1).after 1).clock := fun hlate =>
          honTime ⟨hopen, hlate⟩
        rw [if_neg hintime, Prog.run_bind, Act.run_liftExcept]
        cases verifyApprovalHash body.policyAppliedHash a.policyAppliedHash with
        | error e => exact .refl _
        | ok _ =>
          exact releases_decide principal body _ (w := (w.after 1).after 1)
            (List.mem_of_find?_eq_some hfound) hopen

end Review

/-! ## Late clicks and sweeps, in any order -/

inductive Touch where
  | review (principal : Principal) (approvalId : String) (body : Approvals.ActionRequest)
  | sweep

namespace Touch

def act (rt : Runtime) : Touch → Act Unit
  | review principal approvalId body => do
    let _ ← Approvals.actionApproval rt principal approvalId body
  | sweep => do let _ ← Scheduler.sweep rt

/-- The world after one touch, whenever its commands are served. -/
def after (rt : Runtime) (w : World) (touch : Touch) : World :=
  ((touch.act rt).run World.handler w).2

def afterAll (rt : Runtime) (w : World) (touches : List Touch) : World :=
  touches.foldl (after rt) w

def Late (w : World) : Touch → Prop
  | review _ approvalId _ => LateReview approvalId w
  | sweep => False

instance (w : World) : (touch : Touch) → Decidable (touch.Late w)
  | review _ approvalId _ => inferInstanceAs (Decidable (LateReview approvalId w))
  | sweep => inferInstanceAs (Decidable False)

/-- The condition: no reviewer comes too late. -/
def OnTime (rt : Runtime) : World → List Touch → Prop
  | _, [] => True
  | w, touch :: rest => ¬touch.Late w ∧ OnTime rt (touch.after rt w) rest

instance decidableOnTime (rt : Runtime) :
    (w : World) → (touches : List Touch) → Decidable (OnTime rt w touches)
  | _, [] => inferInstanceAs (Decidable True)
  | w, touch :: rest =>
    have := decidableOnTime rt (touch.after rt w) rest
    inferInstanceAs (Decidable (¬touch.Late w ∧ OnTime rt (touch.after rt w) rest))

/-- Every touch that expires an approval expires it fully. -/
def EachExpiresFully (rt : Runtime) : World → List Touch → Prop
  | _, [] => True
  | w, touch :: rest =>
    ExpiresFully rt w.db.tables (touch.after rt w).db.tables ∧
      EachExpiresFully rt (touch.after rt w) rest

theorem run_discard {α : Type} (p : Act α) (w : World) :
    ((do let _ ← p : Act Unit).run World.handler w).2 = (p.run World.handler w).2 := by
  show ((p >>= fun _ => pure ()).run World.handler w).2 = _
  rw [Prog.run_bind]
  rcases p.run World.handler w with ⟨exc | a, v⟩ <;> rfl

/-- **Step.** A touch that is not late keeps an open approval for each case that waits, and expires
fully what it expires. -/
theorem expiresFully_after (rt : Runtime) {w : World} {touch : Touch} (honTime : ¬touch.Late w) :
    (OpenHasPending w.db.tables → OpenHasPending (touch.after rt w).db.tables) ∧
      ExpiresFully rt w.db.tables (touch.after rt w).db.tables := by
  have ht := w.db.valid
  unfold after
  cases touch with
  | review principal approvalId body =>
    unfold act
    simp only
    rw [run_discard]
    have h := @releases_actionApproval rt principal approvalId body w honTime
    exact ⟨h.openHasPending ht (fun _ hc => hc), expiresFully_of_decided h ht⟩
  | sweep =>
    unfold act
    simp only
    rw [run_discard]
    obtain ⟨ws, hswept, htables⟩ := @run_sweep rt w
    obtain ⟨hreleases, hwitnessed⟩ := hswept.spec ht
    rw [htables]
    exact ⟨hreleases.openHasPending ht (fun c hc => by simp [hc.1]),
      expiresFully_of_witnessed hreleases ht hwitnessed⟩

/-- **Run.** When no reviewer is late, every case that waits has an open approval in every state
reached, and every approval that expires does so with its case and its block. -/
theorem touches_expireFully (rt : Runtime) (w : World) (touches : List Touch)
    (hopen : OpenHasPending w.db.tables) (honTime : OnTime rt w touches) :
    OpenHasPending (afterAll rt w touches).db.tables ∧ EachExpiresFully rt w touches := by
  induction touches generalizing w with
  | nil => exact ⟨hopen, trivial⟩
  | cons touch rest ih =>
    obtain ⟨hnow, hrest⟩ := honTime
    obtain ⟨hkeeps, hfully⟩ := expiresFully_after rt hnow
    obtain ⟨hend, heach⟩ := ih (touch.after rt w) (hkeeps hopen) hrest
    exact ⟨hend, hfully, heach⟩

/-- The case waits for an approval, which can be given for four hours. -/
def waitingCase : Database where
  tables :=
    { oneCase.tables with
      cases := oneCase.tables.cases.map fun case => { case with status := .awaitingApproval }
      approvals := [
        { id := "apr_1", caseId := "RC-0001", triggerRung := .a2Approval, amountPaise := 250000
          policyAppliedJson := "null", policyAppliedHash := String.ofList (List.replicate 64 'a')
          expiresAt := { utc := 4 * hour } }] }
  valid := by decide +kernel

def approveIt : Touch :=
  .review { name := "ops" } "apr_1"
    { approve := true, policyAppliedHash := String.ofList (List.replicate 64 'a')
      hash_length := by decide, notes_length := by simp }

def nextMorning : World := { worldOf waitingCase with clock := { utc := 12 * hour } }

set_option maxRecDepth 20000 in
/-- A sweep expires it with its case. -/
theorem touches_expireFully_sweep :
    OpenHasPending (afterAll plainRuntime nextMorning [.sweep, approveIt]).db.tables ∧
      EachExpiresFully plainRuntime nextMorning [.sweep, approveIt] :=
  touches_expireFully plainRuntime nextMorning [.sweep, approveIt] (by decide +kernel)
    (by decide +kernel)

set_option maxRecDepth 20000 in
/-- A reviewer who clicks first leaves the case waiting, whatever sweep comes after. -/
theorem not_touches_expireFully :
    ¬∀ (rt : Runtime) (w : World) (touches : List Touch), OpenHasPending w.db.tables →
      OpenHasPending (afterAll rt w touches).db.tables ∧ EachExpiresFully rt w touches := by
  intro h
  have hrun := (h plainRuntime nextMorning [approveIt, .sweep] (by decide +kernel)).1
  revert hrun
  decide +kernel

end Touch

end AegisMerchant
