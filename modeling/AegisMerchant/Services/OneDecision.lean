import AegisMerchant.Base.JsonText
import AegisMerchant.Services.ApprovalExpiry
import AegisMerchant.Tools.AppendLaws
import AegisMerchant.Tools.ChainLaws

/-!
# One decision for each approval

Reviewers and sweeps read an approval in one step and write it in a later one, without looking at it
again. The chain tells what became of an approval by the id its blocks carry.

`oneDecision_applyAll` is about a transaction, `keeps_decide` and `keeps_sweep` about the two
services. `deciders_decideOnce` is the law of a run, and `not_deciders_decideOnce` the sweep that
overwrites a reviewer.
-/

namespace AegisMerchant

open Time Rows

/-! ## What a block tells -/

/-- The name of the block that records a decision. -/
def ApprovalStatus.blockName : ApprovalStatus → String
  | pending => ""
  | approved => "approval.approved"
  | rejected => "approval.rejected"
  | expired => "approval.expired"

def decisionNames : List String := ["approval.approved", "approval.rejected", "approval.expired"]

/-- The field of a payload that names its approval, as it is written. -/
def approvalField (id : String) : List Char := (",\"approval_id\":" ++ Json.quote id).toList

/-- A block records a decision on an approval: its payload names it after the amount. -/
def AuditBlockRow.Tells (b : AuditBlockRow) (id : String) : Prop :=
  b.eventName ∈ decisionNames ∧
    approvalField id <+: b.payloadCanonical.toList.dropWhile (· ≠ ',')

instance (b : AuditBlockRow) (id : String) : Decidable (b.Tells id) := by
  unfold AuditBlockRow.Tells
  infer_instance

/-- A block tells of one approval only. -/
theorem AuditBlockRow.Tells.inj {b : AuditBlockRow} {id id' : String} (h : b.Tells id)
    (h' : b.Tells id') : id = id' := by
  obtain ⟨-, rest, hrest⟩ := h
  obtain ⟨-, rest', hrest'⟩ := h'
  have heq := hrest.trans hrest'.symm
  simp only [approvalField, Json.quote, String.toList_append, String.toList_ofList,
    List.append_assoc, List.append_cancel_left_eq] at heq
  exact String.toList_inj.mp (Json.escape_inj heq)

/-- The payload of a decision names its approval. -/
theorem approvalField_prefix {rt : Runtime} (amount : ℤ) {id : String}
    {fields : List (String × Json)}
    (h : ∃ more, Json.sortFields (Json.dumpsFields rt.floatRepr fields) =
      ("amount_paise", toString amount) :: ("approval_id", Json.quote id) :: more) :
    approvalField id <+: ((Json.obj fields).dumps rt.floatRepr).toList.dropWhile (· ≠ ',') := by
  obtain ⟨more, h⟩ := h
  have hopening : "\x7b\"amount_paise\":".toList.all (fun c => decide (c ≠ ',')) = true := by
    decide +kernel
  have hbefore : ∀ c ∈ "\x7b\"amount_paise\":".toList ++ (toString amount).toList,
      decide (c ≠ ',') = true := fun c hc => (List.mem_append.mp hc).elim
    (List.all_eq_true.mp hopening c) fun hc => decide_eq_true (Json.ne_comma_of_mem_toString hc)
  -- the fields up to the second one, and whatever follows
  have hamount : "\x7b" ++ (Json.quote "amount_paise" ++ ":") = "\x7b\"amount_paise\":" := by
    decide +kernel
  have hfield : "," ++ (Json.quote "approval_id" ++ ":") = ",\"approval_id\":" := by
    decide +kernel
  obtain ⟨rest, hrest⟩ : ∃ rest, ",".intercalate
      ((Json.quote "approval_id" ++ ":" ++ Json.quote id) ::
        more.map fun f => Json.quote f.1 ++ ":" ++ f.2) =
        Json.quote "approval_id" ++ ":" ++ Json.quote id ++ rest := by
    cases more.map fun f => Json.quote f.1 ++ ":" ++ f.2 with
    | nil => exact ⟨"", by rw [String.intercalate_singleton, String.append_empty]⟩
    | cons field fields => exact ⟨_, by rw [String.intercalate_cons_cons, String.append_assoc]⟩
  have htext : (Json.obj fields).dumps rt.floatRepr = ("\x7b\"amount_paise\":" ++ toString amount) ++
      ((",\"approval_id\":" ++ Json.quote id) ++ (rest ++ "\x7d")) := by
    simp only [Json.dumps, h, List.map_cons]
    rw [String.intercalate_cons_cons, hrest, ← hamount, ← hfield]
    simp only [String.append_assoc]
  have hcomma : (",\"approval_id\":" ++ Json.quote id).toList =
      ',' :: ("\"approval_id\":" ++ Json.quote id).toList := by
    rw [String.toList_append, String.toList_append]
    rfl
  rw [htext, String.toList_append, String.toList_append, List.dropWhile_append_of_pos hbefore,
    String.toList_append, hcomma, List.cons_append, List.dropWhile_cons_of_neg (by decide)]
  refine ⟨(rest ++ "\x7d").toList, ?_⟩
  rw [approvalField, hcomma, List.cons_append]

/-- The block of a reviewer's decision tells of its approval. -/
theorem tells_decision {rt : Runtime} {a : ApprovalRow} {body : Approvals.ActionRequest}
    {principal : Principal} {block : AuditBlockRow}
    (h : AuditChain.Records rt (Approvals.decisionEvent a body principal) block) :
    block.Tells a.id := by
  obtain ⟨head, id, created, rfl⟩ := h
  constructor
  · show (if body.approve then "approval.approved" else "approval.rejected") ∈ decisionNames
    split <;> decide
  · exact approvalField_prefix a.amountPaise (by
      simp +decide [Json.dumpsFields, Json.sortFields, List.insertionSort, List.orderedInsert,
        Json.dumps])

/-- So does the block of an expiry. -/
theorem tells_expired {rt : Runtime} {a : ApprovalRow} {block : AuditBlockRow}
    (h : AuditChain.Records rt (Scheduler.expiredEvent a) block) : block.Tells a.id := by
  obtain ⟨head, id, created, rfl⟩ := h
  constructor
  · show "approval.expired" ∈ decisionNames
    decide
  · exact approvalField_prefix a.amountPaise (by
      simp +decide [Json.dumpsFields, Json.sortFields, List.insertionSort, List.orderedInsert,
        Json.dumps])

/-! ## What a transaction decides -/

/-- **One decision**: at most one block tells of the approval, and it tells what its status is. -/
def OneDecision (id : String) (t : Tables) : Prop :=
  (∀ b ∈ t.blocks, ∀ b' ∈ t.blocks, b.Tells id → b'.Tells id → b = b') ∧
    ∀ b ∈ t.blocks, b.Tells id → ∀ a ∈ t.approvals, a.id = id → b.eventName = a.status.blockName

instance (id : String) (t : Tables) : Decidable (OneDecision id t) := by
  unfold OneDecision
  infer_instance

/-- A human decision stays as it was. -/
def HumanKept (t u : Tables) : Prop :=
  ∀ a ∈ t.approvals, a.status = .approved ∨ a.status = .rejected → a ∈ u.approvals

instance (t u : Tables) : Decidable (HumanKept t u) := by
  unfold HumanKept
  infer_instance

/-- **A transaction that decides**: it changes open approvals only, each of its blocks comes with the
change it tells of, and it decides no approval twice. -/
structure Decisive (ws : List Write) : Prop where
  opens : ∀ read new, .updateApproval read new ∈ ws → read.status = .pending ∧ new.status ≠ .pending
  single : ∀ read new read' new', .updateApproval read new ∈ ws → .updateApproval read' new' ∈ ws →
    read.id = read'.id → new.status = new'.status
  told : ∀ b id, .insertBlock b ∈ ws → b.Tells id →
    ∃ read new, .updateApproval read new ∈ ws ∧ read.id = id ∧ b.eventName = new.status.blockName
  once : ∀ b b' id, .insertBlock b ∈ ws → .insertBlock b' ∈ ws → b.Tells id → b'.Tells id → b = b'
  lone : ∀ read new, ws = [.updateApproval read new] → new.status = .expired

/-- A change of an approval finds it open; one that comes alone may find it expired. -/
def Write.FindsOpen (t : Tables) (alone : Prop) : Write → Prop
  | .updateApproval read _ => ∃ row ∈ t.approvals, row.id = read.id ∧
      (row.status = .pending ∨ row.status = .expired ∧ alone)
  | _ => True

/-- Every change of a transaction does. -/
def FindsOpen (t : Tables) (ws : List Write) : Prop :=
  ∀ write ∈ ws, write.FindsOpen t (ws.length = 1)

instance (t : Tables) (alone : Prop) [Decidable alone] :
    (w : Write) → Decidable (w.FindsOpen t alone)
  | .updateApproval read _ => inferInstanceAs (Decidable (∃ row ∈ t.approvals, row.id = read.id ∧
      (row.status = .pending ∨ row.status = .expired ∧ alone)))
  | .insertOutbox _ | .updateOutbox _ _ | .insertAction _ | .insertContact _
  | .insertDeadLetter _ | .updateDeadLetter _ _ | .updateCase _ _ | .insertBlock _ =>
    inferInstanceAs (Decidable True)

instance (t : Tables) (ws : List Write) : Decidable (FindsOpen t ws) := by
  unfold FindsOpen
  infer_instance

section Commit

variable {t : Tables} {ws : List Write}

/-- A row after some statements comes from one before them, and is as it was or as one of them
left it. -/
theorem mem_applyAll_approvals
    (hws : ∀ read new, .updateApproval read new ∈ ws → new.status ≠ read.status) :
    ∀ a' ∈ (t.applyAll ws).approvals, ∃ a ∈ t.approvals, a'.id = a.id ∧
      ((a' = a ∧ ∀ read new, .updateApproval read new ∈ ws → read.id ≠ a.id) ∨
        ∃ read new, .updateApproval read new ∈ ws ∧ read.id = a.id ∧ a'.status = new.status) := by
  induction ws generalizing t with
  | nil => exact fun a' ha' => ⟨a', ha', rfl, .inl ⟨rfl, fun _ _ h => by cases h⟩⟩
  | cons write rest ih =>
    intro a' ha'
    have hrest : ∀ read new, .updateApproval read new ∈ rest → new.status ≠ read.status :=
      fun read new h => hws read new (List.mem_cons_of_mem _ h)
    obtain ⟨a₁, ha₁, hid, hcase⟩ := ih hrest a' ha'
    -- what the first statement did to the row
    obtain ⟨a, ha, hid₁, hfirst⟩ : ∃ a ∈ t.approvals, a₁.id = a.id ∧
        ((a₁ = a ∧ ∀ read new, write = .updateApproval read new → read.id ≠ a.id) ∨
          ∃ read new, write = .updateApproval read new ∧ read.id = a.id ∧
            a₁.status = new.status) := by
      cases write with
      | updateApproval read new =>
        obtain ⟨a, ha, rfl⟩ := mem_updateWhere.mp ha₁
        refine ⟨a, ha, ?_, ?_⟩
        · split <;> rfl
        · by_cases hkey : a.id = read.id
          · rw [if_pos hkey]
            refine .inr ⟨read, new, rfl, hkey.symm, ?_⟩
            show dirty read.status new.status a.status = new.status
            rw [dirty, if_neg (hws read new List.mem_cons_self)]
          · rw [if_neg hkey]
            refine .inl ⟨rfl, fun read' new' h => ?_⟩
            cases h
            exact fun h => hkey h.symm
      | _ => exact ⟨a₁, ha₁, rfl, .inl ⟨rfl, fun _ _ h => by cases h⟩⟩
    refine ⟨a, ha, hid.trans hid₁, ?_⟩
    rcases hcase with ⟨rfl, hnone⟩ | ⟨read, new, hmem, hread, hstatus⟩
    · rcases hfirst with ⟨rfl, hnone'⟩ | ⟨read, new, rfl, hread, hstatus⟩
      · refine .inl ⟨rfl, fun read new h => ?_⟩
        rcases List.mem_cons.mp h with h | h
        · exact hnone' read new h.symm
        · exact hnone read new h
      · exact .inr ⟨read, new, List.mem_cons_self, hread, hstatus⟩
    · exact .inr ⟨read, new, List.mem_cons_of_mem _ hmem, hread.trans hid₁, hstatus⟩

/-- A row no statement changes stays. -/
theorem mem_applyAll_of_unchanged {a : ApprovalRow} (ha : a ∈ t.approvals)
    (h : ∀ read new, .updateApproval read new ∈ ws → read.id ≠ a.id) :
    a ∈ (t.applyAll ws).approvals := by
  induction ws generalizing t with
  | nil => exact ha
  | cons write rest ih =>
    refine ih ?_ fun read new hmem => h read new (List.mem_cons_of_mem _ hmem)
    cases write with
    | updateApproval read new =>
      refine mem_updateWhere.mpr ⟨a, ha, (if_neg ?_).symm⟩
      exact fun hid => h read new List.mem_cons_self hid.symm
    | _ => exact ha

theorem blockName_pending {b : AuditBlockRow} {id : String} (h : b.Tells id)
    (hname : b.eventName = ApprovalStatus.pending.blockName) : False := by
  have hmem := h.1
  rw [hname] at hmem
  revert hmem
  decide

/-! ### The tables after a transaction -/

/-- **Step.** A commit that decides, and finds what it decides open. -/
theorem oneDecision_applyAll (hws : Decisive ws) (ht : t.Valid) (hfinds : FindsOpen t ws) :
    (∀ id, OneDecision id t → OneDecision id (t.applyAll ws)) ∧ HumanKept t (t.applyAll ws) := by
  have hfound : ∀ read new, .updateApproval read new ∈ ws → ∃ row ∈ t.approvals,
      row.id = read.id ∧ (row.status = .pending ∨ row.status = .expired ∧ ws.length = 1) :=
    fun read new h => hfinds _ h
  have hchanges : ∀ read new, .updateApproval read new ∈ ws → new.status ≠ read.status := by
    intro read new h
    obtain ⟨hread, hnew⟩ := hws.opens read new h
    rwa [hread]
  constructor
  · rintro id ⟨honce, hagrees⟩
    -- no block told of an approval that a block of the transaction tells of
    have hfresh : ∀ b ∈ t.blocks, b.Tells id → ∀ b', .insertBlock b' ∈ ws → ¬b'.Tells id := by
      intro b hb htells b' hb' htells'
      obtain ⟨read, new, hmem, hid, -⟩ := hws.told b' id hb' htells'
      obtain ⟨row, hrow, hrowid, hstatus | ⟨-, hlength⟩⟩ := hfound read new hmem
      · exact blockName_pending htells (hstatus ▸ hagrees b hb htells row hrow (hrowid.trans hid))
      · obtain ⟨write, hwrite⟩ := List.length_eq_one_iff.mp hlength
        rw [hwrite] at hmem hb'
        have heq := (List.mem_singleton.mp hmem).trans (List.mem_singleton.mp hb').symm
        cases heq
    constructor
    · -- two blocks of one approval: both old, one of each, or both new
      intro b hb b' hb' htells htells'
      rcases mem_applyAll_blocks.mp hb with hb | hb <;>
        rcases mem_applyAll_blocks.mp hb' with hb' | hb'
      · exact honce b hb b' hb' htells htells'
      · exact absurd htells' (hfresh b hb htells b' hb')
      · exact absurd htells (hfresh b' hb' htells' b hb)
      · exact hws.once b b' id hb hb' htells htells'
    · -- a block and the approval it tells of, as the transaction left it
      intro b hb htells a' ha' hid'
      obtain ⟨a, ha, hid, hcase⟩ := mem_applyAll_approvals hchanges a' ha'
      have haid : a.id = id := hid.symm.trans hid'
      rcases mem_applyAll_blocks.mp hb with hb | hb
      · have hname := hagrees b hb htells a ha haid
        rcases hcase with ⟨rfl, -⟩ | ⟨read, new, hmem, hread, hstatus⟩
        · exact hname
        · obtain ⟨row, hrow, hrowid, hopen⟩ := hfound read new hmem
          obtain rfl := eq_of_key_eq ht.approval_id hrow ha (hrowid.trans hread)
          rcases hopen with hopen | ⟨hexpired, hlength⟩
          · exact (blockName_pending htells (hopen ▸ hname)).elim
          · -- expired already: such a statement comes alone, and expires it again
            obtain ⟨write, hwrite⟩ := List.length_eq_one_iff.mp hlength
            have hlone : ws = [.updateApproval read new] := by
              rw [hwrite] at hmem ⊢
              rw [List.mem_singleton.mp hmem]
            rw [hname, hstatus, hws.lone read new hlone, hexpired]
      · obtain ⟨read, new, hmem, hread, hname⟩ := hws.told b id hb htells
        rcases hcase with ⟨rfl, hnone⟩ | ⟨read', new', hmem', hread', hstatus⟩
        · exact absurd (hread.trans haid.symm) (hnone read new hmem)
        · rw [hname, hstatus, hws.single read new read' new' hmem hmem'
            (hread.trans (haid.symm.trans hread'.symm))]
  · -- what a human decided is neither pending nor expired, so no statement finds it
    intro a ha hhuman
    refine mem_applyAll_of_unchanged ha fun read new hmem hid => ?_
    obtain ⟨row, hrow, hrowid, hopen⟩ := hfound read new hmem
    obtain rfl := eq_of_key_eq ht.approval_id hrow ha (hrowid.trans hid)
    rcases hhuman with h | h <;> rcases hopen with h' | ⟨h', -⟩ <;> rw [h] at h' <;> cases h'

end Commit

/-! ## The contract -/

/-- What every step does, as far as decisions go. -/
def KeepsDecisions (w w' : World) : Prop :=
  (∀ id, OneDecision id w.db.tables → OneDecision id w'.db.tables) ∧
    HumanKept w.db.tables w'.db.tables

/-- The condition: a commit finds the approvals it changes open, and a retried block of a decision
loses its index again. -/
def DecidesOpen : {β : Type} → Cmd β → World → Prop
  | _, .commit ws, w => FindsOpen w.db.tables ws
  | _, c, w => RetriesLose decisionNames c w

instance : {β : Type} → (c : Cmd β) → (w : World) → Decidable (DecidesOpen c w)
  | _, .commit ws, w => inferInstanceAs (Decidable (FindsOpen w.db.tables ws))
  | _, .flush sent ws, w =>
    inferInstanceAs (Decidable (RetriesLose decisionNames (.flush sent ws) w))
  | _, .now, _ | _, .select _ _, _ | _, .tokenHex, _ | _, .uniform, _
  | _, .createPaymentLink _, _ | _, .getPaymentLinkByReference _, _
  | _, .completeStructured _ _, _ => inferInstanceAs (Decidable True)

def decisionContract : Contract Cmd World :=
  World.contract KeepsDecisions KeepsDecisions DecidesOpen

instance {β : Type} (c : Cmd β) (w : World) : Decidable (decisionContract.cond c w) :=
  inferInstanceAs (Decidable (DecidesOpen c w))

theorem KeepsDecisions.of_db {w w' : World} (h : w'.db = w.db) : KeepsDecisions w w' := by
  unfold KeepsDecisions
  rw [h]
  exact ⟨fun _ => id, fun _ ha _ => ha⟩

theorem decisionContract_closed : decisionContract.Closed where
  refl _ := .of_db rfl
  trans h h' := ⟨fun id hid => h'.1 id (h.1 id hid),
    fun a ha hhuman => h'.2 a (h.2 a ha hhuman) hhuman⟩
  guar h := h

theorem retriesLose_of_open {β : Type} (c : Cmd β) (w : World) (h : DecidesOpen c w) :
    RetriesLose decisionNames c w := by
  cases c with
  | commit ws => trivial
  | _ => exact h

def Cmd.Decides : {β : Type} → Cmd β → Prop
  | _, .commit ws => Decisive ws
  | _, _ => True

theorem Cmd.decides_of_quiet {β : Type} (c : Cmd β) (h : c.Quiet) : c.Decides := by
  cases c with
  | commit ws => exact h.elim
  | _ => trivial

/-! ### One step -/

theorem keepsDecisions_step {β : Type} (c : Cmd β) (w : World) (hc : c.Decides)
    (hcond : DecidesOpen c w) : KeepsDecisions w (World.handler.exec c w).2 := by
  by_cases hquiet : c.Quiet
  · exact .of_db (World.exec_quiet hquiet w).1
  · cases c with
    | commit ws =>
      simp only [World.handler, World.serve, World.advance_db]
      cases hcommit : w.db.commit ws with
      | none => exact .of_db rfl
      | some db =>
        unfold KeepsDecisions
        rw [World.committed_db, Database.commit_eq_some.mp hcommit]
        exact oneDecision_applyAll hc w.db.valid hcond
    | _ => exact absurd trivial hquiet

theorem keeps_of_decides {α : Type} {p : Act α} {R : Except PyError α → Prop}
    (h : p.All Cmd.Decides R) : p.Keeps decisionContract :=
  h.keeps fun c v hc hcond => keepsDecisions_step c v hc hcond

/-! ## Transactions that decide -/

section Transactions

variable {ws : List Write}

theorem decisive_nil : Decisive [] where
  opens _ _ h := by cases h
  single _ _ _ _ h := by cases h
  told _ _ h := by cases h
  once _ _ _ h := by cases h
  lone _ _ h := by cases h

/-- An approval that is expired alone. -/
theorem decisive_expire {a : ApprovalRow} (hpending : a.status = .pending) (now : DateTime) :
    Decisive [.updateApproval a (a.expire now)] where
  opens read new h := by
    cases List.mem_singleton.mp h
    exact ⟨hpending, by show ApprovalStatus.expired ≠ _; decide⟩
  single read new read' new' h h' _ := by
    cases List.mem_singleton.mp h
    cases List.mem_singleton.mp h'
    rfl
  told b id h := by cases List.mem_singleton.mp h
  once b b' id h := by cases List.mem_singleton.mp h
  lone read new h := by
    cases h
    rfl

/-- A decision with the case it releases and the block that tells of it, after others. -/
theorem Decisive.decision (hws : Decisive ws) {a new : ApprovalRow} {released : CaseRow → CaseRow}
    {case : Option CaseRow} {block : AuditBlockRow} (hpending : a.status = .pending)
    (hnew : new.status ≠ .pending)
    (hother : ∀ read new, .updateApproval read new ∈ ws → read.id ≠ a.id)
    (htells : block.Tells a.id) (hname : block.eventName = new.status.blockName) :
    Decisive (ws ++ .updateApproval a new :: releaseCase released case ++ [.insertBlock block]) := by
  have hmem : ∀ write, write ∈ ws ++ .updateApproval a new :: releaseCase released case ++
      [.insertBlock block] → write ∈ ws ∨ write = .updateApproval a new ∨
        write ∈ releaseCase released case ∨ write = .insertBlock block := by
    intro write h
    simp only [List.mem_append, List.mem_cons, List.not_mem_nil, or_false] at h
    tauto
  have happroval : ∀ read new', .updateApproval read new' ∈ ws ++ .updateApproval a new ::
      releaseCase released case ++ [.insertBlock block] →
        .updateApproval read new' ∈ ws ∨ read = a ∧ new' = new := by
    intro read new' h
    rcases hmem _ h with h | h | h | h
    · exact .inl h
    · cases h
      exact .inr ⟨rfl, rfl⟩
    · obtain ⟨_, _, h⟩ := mem_releaseCase h
      cases h
    · cases h
  have hblock : ∀ b, .insertBlock b ∈ ws ++ .updateApproval a new ::
      releaseCase released case ++ [.insertBlock block] → .insertBlock b ∈ ws ∨ b = block := by
    intro b h
    rcases hmem _ h with h | h | h | h
    · exact .inl h
    · cases h
    · obtain ⟨_, _, h⟩ := mem_releaseCase h
      cases h
    · cases h
      exact .inr rfl
  -- a block of the others tells of another approval
  have hapart : ∀ b id, .insertBlock b ∈ ws → b.Tells id → ¬block.Tells id := by
    intro b id hb hb' hblock'
    obtain ⟨read, new', hread, hid, -⟩ := hws.told b id hb hb'
    exact hother read new' hread (hid.trans (hblock'.inj htells))
  constructor
  · intro read new' h
    rcases happroval read new' h with h | ⟨rfl, rfl⟩
    · exact hws.opens read new' h
    · exact ⟨hpending, hnew⟩
  · intro read new₁ read' new₂ h h' hid
    rcases happroval read new₁ h with hold | ⟨rfl, rfl⟩ <;>
      rcases happroval read' new₂ h' with hold' | ⟨rfl, rfl⟩
    · exact hws.single read new₁ read' new₂ hold hold' hid
    · exact absurd hid (hother read new₁ hold)
    · exact absurd hid.symm (hother read' new₂ hold')
    · rfl
  · intro b id h hb
    rcases hblock b h with h | rfl
    · obtain ⟨read, new', hread, hid, hname'⟩ := hws.told b id h hb
      exact ⟨read, new', by simp [hread], hid, hname'⟩
    · exact ⟨a, new, by simp, htells.inj hb, hname⟩
  · intro b b' id h h' hb hb'
    rcases hblock b h with hold | rfl <;> rcases hblock b' h' with hold' | rfl
    · exact hws.once b b' id hold hold' hb hb'
    · exact absurd hb' (hapart b id hold hb)
    · exact absurd hb (hapart b' id hold' hb')
    · rfl
  · intro read new' h
    have hlast : Write.insertBlock block ∈ [Write.updateApproval read new'] := by
      rw [← h]
      simp
    cases List.mem_singleton.mp hlast

/-- A send that is cancelled decides nothing. -/
theorem Decisive.aside (hws : Decisive ws) (others : List Write)
    (hothers : ∀ write ∈ others, ∃ read new, write = .updateOutbox read new)
    {block : AuditBlockRow} (hname : block.eventName ∉ decisionNames) :
    Decisive (ws ++ others ++ [.insertBlock block]) := by
  have hmem : ∀ write, write ∈ ws ++ others ++ [.insertBlock block] →
      write ∈ ws ∨ (∃ read new, write = .updateOutbox read new) ∨ write = .insertBlock block := by
    intro write h
    simp only [List.mem_append, List.mem_cons, List.not_mem_nil, or_false] at h
    rcases h with (h | h) | h
    · exact .inl h
    · exact .inr (.inl (hothers write h))
    · exact .inr (.inr h)
  have happroval : ∀ read new, .updateApproval read new ∈ ws ++ others ++ [.insertBlock block] →
      .updateApproval read new ∈ ws := by
    intro read new h
    rcases hmem _ h with h | ⟨_, _, h⟩ | h
    · exact h
    · cases h
    · cases h
  have hblock : ∀ b id, .insertBlock b ∈ ws ++ others ++ [.insertBlock block] → b.Tells id →
      .insertBlock b ∈ ws := by
    intro b id h hb
    rcases hmem _ h with h | ⟨_, _, h⟩ | h
    · exact h
    · cases h
    · cases h
      exact absurd hb.1 hname
  constructor
  · exact fun read new h => hws.opens read new (happroval read new h)
  · exact fun read new read' new' h h' =>
      hws.single read new read' new' (happroval read new h) (happroval read' new' h')
  · intro b id h hb
    obtain ⟨read, new, hread, hrest⟩ := hws.told b id (hblock b id h hb) hb
    exact ⟨read, new, by simp [hread], hrest⟩
  · exact fun b b' id h h' hb hb' =>
      hws.once b b' id (hblock b id h hb) (hblock b' id h' hb') hb hb'
  · intro read new h
    have hlast : Write.insertBlock block ∈ [Write.updateApproval read new] := by
      rw [← h]
      simp
    cases List.mem_singleton.mp hlast

end Transactions

/-! ## Reviewers and sweeps -/

section Deciders

variable {rt : Runtime}

/-! ### A reviewer -/

/-- An append of a decision: what it hands back holds everything, and tells. -/
theorem wp_append_decision {e : AuditEvent} (hname : e.eventName ∈ decisionNames)
    (session : Session) (w : World) :
    (AuditChain.append rt session e).wp decisionContract (fun r _ => ∀ appended, r = .ok appended →
      AuditChain.Records rt e appended.1 ∧
        appended.2.pending = session.pending ++ [.insertBlock appended.1]) w :=
  Prog.wp_mono _ (fun _ _ hr appended h => (hr appended h).2)
    (wp_appendLoop_keeps (fun hdb _ => .of_db hdb) retriesLose_of_open rt hname _ session w)

/-- **A reviewer's decision.** -/
theorem keeps_decide (principal : Principal) (body : Approvals.ActionRequest) {a : ApprovalRow}
    (hpending : a.status = .pending) (now : DateTime) :
    (Approvals.decide rt principal body a now).Keeps decisionContract := by
  have hselect : (Act.select (·.caseById a.caseId)).Keeps decisionContract :=
    keeps_uncommitted (fun hdb _ => .of_db hdb) (c := .select [] _) trivial
  unfold Approvals.decide
  refine hselect.bind fun case w => Prog.wp_bind_keeps (wp_append_decision ?_ _ w) ?_
  · show (if body.approve then "approval.approved" else "approval.rejected") ∈ decisionNames
    split <;> decide
  · rintro ⟨block, session⟩ ⟨hrecords, hpend⟩
    refine Prog.Keeps.bind (keeps_of_decides (R := fun _ => True)
      (Act.all_commit.mpr ⟨?_, fun _ => trivial⟩)) fun _ => ?_
    · show Decisive session.pending
      rw [hpend]
      refine decisive_nil.decision hpending ?_ (fun _ _ h => by cases h) (tells_decision hrecords) ?_
      · show (if body.approve then ApprovalStatus.approved else .rejected) ≠ _
        split <;> decide
      · rw [hrecords.eventName]
        show (if body.approve then "approval.approved" else "approval.rejected") =
          (if body.approve then ApprovalStatus.approved else .rejected).blockName
        split <;> rfl
    · split
      · exact Prog.keeps_throw _
      · exact Prog.keeps_pure _

theorem keeps_actionApproval (principal : Principal) (approvalId : String)
    (body : Approvals.ActionRequest) :
    (Approvals.actionApproval rt principal approvalId body).Keeps decisionContract := by
  have hselect : (Act.select (·.approvalById approvalId)).Keeps decisionContract :=
    keeps_uncommitted (fun hdb _ => .of_db hdb) (c := .select [] _) trivial
  have hnow : Act.nowUtc.Keeps decisionContract :=
    keeps_uncommitted (fun hdb _ => .of_db hdb) (c := .now) trivial
  unfold Approvals.actionApproval
  refine hselect.bind fun found => ?_
  cases found with
  | none => exact Prog.keeps_throw _
  | some a =>
    refine hnow.bind fun now => ?_
    split
    · exact Prog.keeps_throw _
    · next hpending =>
        have hopen := not_not.mp hpending
        split
        · -- too late: the approval is expired alone, and the request refused
          exact Prog.Keeps.bind (keeps_of_decides (R := fun _ => True)
            (Act.all_commit.mpr ⟨decisive_expire hopen now, fun _ => trivial⟩))
              fun _ => Prog.keeps_throw _
        · exact Prog.Keeps.bind (keeps_of_decides (R := fun _ => True)
            (Act.all_liftExcept.mpr trivial)) fun _ => keeps_decide principal body hopen now

/-! ### The sweep of expired approvals -/

/-- An expiry, after what else a sweep holds. -/
theorem Decisive.expiry {ws : List Write} (hws : Decisive ws) {a : ApprovalRow} {now : DateTime}
    {released : CaseRow → CaseRow} {case : Option CaseRow} {block : AuditBlockRow}
    (hpending : a.status = .pending)
    (hother : ∀ read new, .updateApproval read new ∈ ws → read.id ≠ a.id)
    (hrecords : AuditChain.Records rt (Scheduler.expiredEvent a) block) :
    Decisive (ws ++ .updateApproval a (a.expire now) :: releaseCase released case ++
      [.insertBlock block]) :=
  hws.decision hpending (by show ApprovalStatus.expired ≠ _; decide) hother (tells_expired hrecords)
    hrecords.eventName

/-- A sweep expires one approval. -/
theorem wp_expireApproval {now : DateTime} {a : ApprovalRow} {session : Session}
    (hpending : a.status = .pending) (hsession : Decisive session.pending)
    (hother : ∀ read new, .updateApproval read new ∈ session.pending → read.id ≠ a.id) (w : World) :
    (Scheduler.expireApproval rt now a session).wp decisionContract (fun r _ => ∀ session',
      r = .ok session' → Decisive session'.pending ∧
        ∀ read new, .updateApproval read new ∈ session'.pending →
          .updateApproval read new ∈ session.pending ∨ read.id = a.id) w := by
  unfold Scheduler.expireApproval
  simp only
  rw [Prog.wp_bind]
  refine wp_uncommitted (fun hdb _ => .of_db hdb)
    (c := .select session.sent (·.caseById a.caseId)) trivial fun w₁ _ _ => ?_
  simp only
  generalize (World.handler.exec (.select session.sent _) w₁).1 = case
  rw [Prog.wp_bind]
  refine Prog.wp_mono _ (fun r w' hr => ?_) (wp_append_decision
    (show "approval.expired" ∈ decisionNames by decide) _ _)
  rcases r with exc | ⟨block, session'⟩
  · exact fun session' h => by cases h
  · obtain ⟨hrecords, hpend⟩ := hr _ rfl
    intro session'' h
    cases h
    -- the approval, its case and the block join what the sweep holds already
    have hheld : session'.pending = session.pending ++ .updateApproval a (a.expire now) ::
        releaseCase (Scheduler.expiredCase now) case ++ [.insertBlock block] := by
      rw [hpend]
      simp [Session.add, Session.pending]
    show Decisive session'.pending ∧ ∀ read new, .updateApproval read new ∈ session'.pending → _
    rw [hheld]
    refine ⟨hsession.expiry hpending hother hrecords, fun read new hmem => ?_⟩
    rcases List.mem_append.mp hmem with hmem | hmem
    · rcases List.mem_append.mp hmem with hmem | hmem
      · exact .inl hmem
      · rcases List.mem_cons.mp hmem with hmem | hmem
        · cases hmem
          exact .inr rfl
        · obtain ⟨_, _, h⟩ := mem_releaseCase hmem
          cases h
    · cases List.mem_singleton.mp hmem

theorem wp_expireAll {now : DateTime} (rows : List ApprovalRow) :
    ∀ {count : ℕ} {session : Session}, Decisive session.pending → (rows.map (·.id)).Nodup →
      (∀ read new, .updateApproval read new ∈ session.pending → read.id ∉ rows.map (·.id)) →
        ∀ w, (Scheduler.expireAll rt now rows count session).wp decisionContract (fun r _ =>
          ∀ result, r = .ok result → Decisive result.2.pending) w := by
  induction rows with
  | nil =>
    intro count session hsession _ _ w result h
    cases h
    exact hsession
  | cons a rest ih =>
    intro count session hsession hnodup hother w
    -- the rows have different ids, so none of the rest is of an approval that was expired before
    obtain ⟨hnotin, hrest⟩ := List.nodup_cons.mp hnodup
    have hothers : ∀ read new, .updateApproval read new ∈ session.pending →
        read.id ∉ rest.map (·.id) := fun read new h hmem =>
      hother read new h (List.mem_cons_of_mem _ hmem)
    unfold Scheduler.expireAll
    split
    · exact fun result h => by cases h
    · split
      · exact ih hsession hrest hothers w
      · next hpending =>
          rw [Prog.wp_bind]
          refine Prog.wp_mono _ (fun r w' hr => ?_) (wp_expireApproval (not_not.mp hpending) hsession
            (fun read new h hid => hother read new h (hid ▸ List.mem_cons_self)) w)
          rcases r with exc | session'
          · exact fun result h => by cases h
          · obtain ⟨hsession', hnew⟩ := hr session' rfl
            refine ih hsession' hrest (fun read new h => ?_) w'
            rcases hnew read new h with h | hid
            · exact hothers read new h
            · rwa [hid]

/-! ### The sweep of stale deferrals -/

/-- Cancelling sends decides nothing more. -/
theorem decisive_cancelAll (rows : List OutboxRow) {count : ℕ} {session : Session}
    (h : Decisive session.pending) :
    (Scheduler.cancelAll rt rows count session).All Cmd.Decides fun r =>
      ∀ result, r = .ok result → Decisive result.2.pending := by
  refine Prog.All.mono (Scheduler.all_cancelAll (I := fun s => Decisive s.pending)
    (fun session entry reason block session' hsession hrecords hpend => ?_) rows h)
      (fun c hc => Cmd.decides_of_quiet c hc.quiet) fun _ hr => hr
  have hname : block.eventName ∉ decisionNames := by
    rw [hrecords.eventName]
    show "outbox.deferral_cancelled" ∉ _
    decide
  show Decisive session'.pending
  rcases hpend with hpend | hpend <;> rw [hpend]
  · have hheld := hsession.aside [.updateOutbox entry (Scheduler.cancelled entry reason)]
      (fun write h => ⟨_, _, List.mem_singleton.mp h⟩) hname
    simpa [Session.add, Session.pending] using hheld
  · exact decisive_nil.aside [] (fun write h => by cases h) hname

/-- **A sweep.** -/
theorem keeps_sweep : (Scheduler.sweep rt).Keeps decisionContract := by
  intro w
  have hexpire : (Scheduler.expireApprovals rt {}).wp decisionContract (fun r _ => ∀ result,
      r = .ok result → Decisive result.2.pending) w := by
    unfold Scheduler.expireApprovals
    rw [Prog.wp_bind]
    refine wp_uncommitted (fun hdb _ => .of_db hdb) (c := .now) trivial fun w₁ _ _ => ?_
    simp only
    rw [Prog.wp_bind]
    have hquiet : ∀ q : Tables → List ApprovalRow, (Cmd.select [] q).Quiet := fun _ => trivial
    refine wp_uncommitted (fun hdb _ => .of_db hdb) (hquiet _) fun w₂ _ _ => ?_
    have hnil : Decisive ({ ({} : Session) with expired := false }).pending := decisive_nil
    refine wp_expireAll _ hnil ?_ (fun _ _ h => by cases h) _
    exact (List.filter_sublist.map _).nodup w₂.db.valid.approval_id
  -- the second sweep adds to the same session, and one commit stores both
  refine Prog.wp_bind_keeps hexpire fun expired hexpired w₁ => ?_
  have hcancel : (Scheduler.killStaleDeferrals rt expired.2).All Cmd.Decides fun r =>
      ∀ result, r = .ok result → Decisive result.2.pending := by
    refine (Prog.all_bind _ _).mpr ⟨trivial, fun now => (Prog.all_bind _ _).mpr ⟨trivial, ?_⟩⟩
    exact fun rows => decisive_cancelAll rows hexpired
  refine Prog.wp_bind_keeps (Prog.wp_mono _ (fun r w' h => h.1) (hcancel.wp (I := fun _ => True)
    (fun _ _ => trivial) (fun c v hc _ hcond => ⟨keepsDecisions_step c v hc hcond, trivial⟩)
      trivial)) fun stale hstale => ?_
  exact Prog.Keeps.bind (keeps_of_decides (R := fun _ => True)
    (Act.all_commit.mpr ⟨hstale, fun _ => trivial⟩)) fun _ => Prog.keeps_pure _

inductive Decider (rt : Runtime) : Act Unit → Prop
  | review (principal : Principal) (approvalId : String) (body : Approvals.ActionRequest) :
      Decider rt (do let _ ← Approvals.actionApproval rt principal approvalId body)
  | sweep : Decider rt (do let _ ← Scheduler.sweep rt)

theorem Decider.keeps {p : Act Unit} (h : Decider rt p) : p.Keeps decisionContract := by
  cases h with
  | review principal approvalId body =>
    exact (keeps_actionApproval principal approvalId body).bind fun _ => Prog.keeps_pure _
  | sweep => exact keeps_sweep.bind fun _ => Prog.keeps_pure _

end Deciders

/-- **Run.** In every interleaving of reviewers and sweeps whose commits find what they decide open,
at most one block tells of an approval, it tells what the approval is, and no human decision is
changed. -/
theorem deciders_decideOnce (rt : Runtime) (id : String) {w : World}
    {moves rest : List (Move Cmd PyError)} (hone : OneDecision id w.db.tables)
    (hstart : ∀ m ∈ moves ++ rest, Pool.StartsOnly (Decider rt) m)
    (hmeets : ({ state := w } : Pool Cmd PyError World).Meets decisionContract (moves ++ rest)) :
    OneDecision id (runWorkers w moves).state.db.tables ∧
      HumanKept (runWorkers w moves).state.db.tables
        (runWorkers w (moves ++ rest)).state.db.tables := by
  obtain ⟨hbefore, hafter⟩ := Pool.rely_of_keeps decisionContract_closed (fun p hp => hp.keeps)
    hstart hmeets
  exact ⟨hbefore.1 id hone, hafter.2⟩

/-! ## Two reviewers, and a sweep between them -/

theorem length_sixtyFour : (String.ofList (List.replicate 64 'a')).length = 64 := by decide

/-- An answer without notes keeps to their length. -/
theorem notes_none_length : ∀ n ∈ (none : Option String), n.length ≤ 1000 :=
  fun _ hn => absurd hn (Option.not_mem_none _)

def reviewRun (approve : Bool) : Act Unit := do
  let _ ← Approvals.actionApproval plainRuntime { name := "ops" } "apr_1"
    { approve, policyAppliedHash := String.ofList (List.replicate 64 'a')
      hash_length := length_sixtyFour
      notes_length := notes_none_length }

/-- Two reviewers, the first of whom has come some way when the second answers. -/
def racingReviewers (before : ℕ) : List (Move Cmd PyError) :=
  [.spawn (reviewRun true), .spawn (reviewRun false)] ++ List.replicate before (.run 0) ++
    List.replicate 8 (.run 1) ++ List.replicate 8 (.run 0)

theorem startsOnly_racingReviewers (before : ℕ) :
    ∀ m ∈ racingReviewers before, Pool.StartsOnly (Decider plainRuntime) m := by
  intro m hm
  simp only [racingReviewers, List.mem_append, List.mem_cons, List.mem_replicate, List.not_mem_nil,
    or_false] at hm
  rcases hm with (((rfl | rfl) | ⟨-, rfl⟩) | ⟨-, rfl⟩) | ⟨-, rfl⟩
  · exact .review _ _ _
  · exact .review _ _ _
  · trivial
  · trivial
  · trivial

set_option maxRecDepth 20000 in
/-- Once the first has approved, the second is refused. -/
theorem deciders_decideOnce_inTurn :
    OneDecision "apr_1" (runWorkers (worldOf Touch.waitingCase) (racingReviewers 8)).state.db.tables ∧
      HumanKept (runWorkers (worldOf Touch.waitingCase) (racingReviewers 8)).state.db.tables
        (runWorkers (worldOf Touch.waitingCase) (racingReviewers 8 ++ [])).state.db.tables :=
  deciders_decideOnce plainRuntime "apr_1" (by decide +kernel)
    (by rw [List.append_nil]; exact startsOnly_racingReviewers 8) (by decide +kernel)

set_option maxRecDepth 20000 in
/-- When both have read the approval, both decide it: the chain tells of two decisions. -/
theorem not_deciders_decideOnce :
    ¬∀ (rt : Runtime) (id : String) (w : World) (moves rest : List (Move Cmd PyError)),
      OneDecision id w.db.tables →
        (∀ m ∈ moves ++ rest, Pool.StartsOnly (Decider rt) m) →
          OneDecision id (runWorkers w moves).state.db.tables ∧
            HumanKept (runWorkers w moves).state.db.tables
              (runWorkers w (moves ++ rest)).state.db.tables := by
  intro h
  have hrun := (h plainRuntime "apr_1" (worldOf Touch.waitingCase) (racingReviewers 2) []
    (by decide +kernel) (by rw [List.append_nil]; exact startsOnly_racingReviewers 2)).1
  revert hrun
  decide +kernel

end AegisMerchant
