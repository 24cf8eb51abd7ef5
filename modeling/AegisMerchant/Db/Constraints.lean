import AegisMerchant.Db.Transaction

/-!
# What one statement may break

For each statement of the executor's transactions, exactly when the tables still satisfy every
constraint after it.
-/

namespace AegisMerchant

open Rows

/-- A new outbox row breaks no constraint of valid tables. -/
structure OutboxRow.Fits (t : Tables) (row : OutboxRow) : Prop where
  id_ne : ∀ r ∈ t.outbox, r.id ≠ row.id
  reference_ne : ∀ r ∈ t.outbox, r.referenceId ≠ row.referenceId
  /-- `case_action_attempt`. -/
  attempt_ne : ∀ r ∈ t.outbox,
    ¬(r.caseId = row.caseId ∧ r.actionType = row.actionType ∧ r.attempt = row.attempt)
  nonneg : 0 ≤ row.attempt
  case : ∃ c ∈ t.cases, c.id = row.caseId

theorem valid_insertOutbox {t : Tables} (h : t.Valid) {row : OutboxRow} :
    (t.apply (.insertOutbox row)).Valid ↔ row.Fits t := by
  constructor
  · intro h'
    have hattempt := (nodup_map_concat.mp h'.outbox_attempt).2
    refine ⟨(nodup_map_concat.mp h'.outbox_id).2, (nodup_map_concat.mp h'.outbox_reference).2,
      fun r hr heq => hattempt r hr ?_, ?_, ?_⟩
    · rw [heq.1, heq.2.1, heq.2.2]
    · exact h'.outbox_nonneg row (List.mem_append_right _ (List.mem_singleton.mpr rfl))
    · exact h'.outbox_case row (List.mem_append_right _ (List.mem_singleton.mpr rfl))
  · intro hfits
    have hmem : ∀ r ∈ t.outbox, r ∈ (t.apply (.insertOutbox row)).outbox :=
      fun r hr => List.mem_append_left _ hr
    refine { h with
      outbox_id := nodup_map_concat.mpr ⟨h.outbox_id, hfits.id_ne⟩
      outbox_reference := nodup_map_concat.mpr ⟨h.outbox_reference, hfits.reference_ne⟩
      outbox_attempt := nodup_map_concat.mpr ⟨h.outbox_attempt, fun r hr heq => ?_⟩
      outbox_nonneg := ?_
      outbox_case := ?_
      action_outbox := ?_
      dlq_outbox := ?_ }
    · simp only [Prod.mk.injEq] at heq
      exact hfits.attempt_ne r hr heq
    · intro r hr
      rcases List.mem_append.mp hr with hr | hr
      · exact h.outbox_nonneg r hr
      · exact List.mem_singleton.mp hr ▸ hfits.nonneg
    · intro r hr
      rcases List.mem_append.mp hr with hr | hr
      · exact h.outbox_case r hr
      · exact List.mem_singleton.mp hr ▸ hfits.case
    · intro a ha i hi
      obtain ⟨r, hr, hri⟩ := h.action_outbox a ha i hi
      exact ⟨r, hmem r hr, hri⟩
    · intro d hd
      obtain ⟨r, hr, hri⟩ := h.dlq_outbox d hd
      exact ⟨r, hmem r hr, hri⟩

/-- A row rewritten by an update is found under the same id. -/
private theorem exists_updated {t : Tables} {read new : OutboxRow} {i : String}
    (h : ∃ r ∈ t.outbox, r.id = i) :
    ∃ r ∈ (t.apply (.updateOutbox read new)).outbox, r.id = i := by
  obtain ⟨r, hr, hri⟩ := h
  refine ⟨_, updateWhere_of_mem hr, ?_⟩
  split <;> exact hri

/-- An update of an outbox row can only break the constraints on its attempt counter. -/
theorem valid_updateOutbox {t : Tables} (h : t.Valid) {read new : OutboxRow} :
    (t.apply (.updateOutbox read new)).Valid ↔
      ∀ row ∈ t.outbox, row.id = read.id →
        0 ≤ (read.store new row).attempt ∧ ∀ r ∈ t.outbox, r.id ≠ read.id →
          ¬(r.caseId = row.caseId ∧ r.actionType = row.actionType ∧
            r.attempt = (read.store new row).attempt) := by
  have hunique := nodup_map_updateWhere (k := read.id) (f := read.store new) h.outbox_id
    h.outbox_attempt
  constructor
  · intro h' row hrow hid
    refine ⟨?_, fun r hr hrid heq => ?_⟩
    · have hmem : read.store new row ∈ (t.apply (.updateOutbox read new)).outbox :=
        updateWhere_mem hid hrow
      exact h'.outbox_nonneg _ hmem
    · refine hunique.mp h'.outbox_attempt row hrow hid r hr hrid ?_
      simp only [Prod.mk.injEq]
      exact heq
  · intro hfits
    refine { h with
      outbox_id := ?_
      outbox_reference := ?_
      outbox_attempt := hunique.mpr fun row hrow hid r hr hrid heq => ?_
      outbox_nonneg := ?_
      outbox_case := ?_
      action_outbox := fun a ha i hi => exists_updated (h.action_outbox a ha i hi)
      dlq_outbox := fun d hd => exists_updated (h.dlq_outbox d hd) }
    · show ((updateWhere (·.id) read.id (read.store new) t.outbox).map (·.id)).Nodup
      rw [map_updateWhere (f := read.store new) (fun r => r.id) fun _ => rfl]
      exact h.outbox_id
    · show ((updateWhere (·.id) read.id (read.store new) t.outbox).map (·.referenceId)).Nodup
      rw [map_updateWhere (f := read.store new) (fun r => r.referenceId) fun _ => rfl]
      exact h.outbox_reference
    · simp only [Prod.mk.injEq] at heq
      exact (hfits row hrow hid).2 r hr hrid heq
    · intro r hr
      obtain ⟨r₀, hr₀, rfl⟩ := mem_updateWhere.mp hr
      split
      · next hid => exact (hfits r₀ hr₀ hid).1
      · exact h.outbox_nonneg r₀ hr₀
    · intro r hr
      obtain ⟨r₀, hr₀, rfl⟩ := mem_updateWhere.mp hr
      have hcase := h.outbox_case r₀ hr₀
      split <;> exact hcase

/-- An update of a case that leaves what it recovered and its proof breaks no constraint. -/
theorem valid_updateCase {t : Tables} (h : t.Valid) {read new : CaseRow}
    (hamount : new.recoveredAmountPaise = read.recoveredAmountPaise)
    (hproof : new.recoveryVerifiedBy = read.recoveryVerifiedBy) :
    (t.apply (.updateCase read new)).Valid := by
  have hmem : ∀ {i : String}, (∃ c ∈ t.cases, c.id = i) →
      ∃ c ∈ (t.apply (.updateCase read new)).cases, c.id = i := by
    rintro i ⟨c, hc, hid⟩
    refine ⟨_, updateWhere_of_mem hc, ?_⟩
    split <;> exact hid
  -- the columns the constraints on cases are about
  have hkeeps : ∀ c ∈ (t.apply (.updateCase read new)).cases, ∃ c₀ ∈ t.cases,
      c.amountPaise = c₀.amountPaise ∧ c.recoveredAmountPaise = c₀.recoveredAmountPaise ∧
        c.recoveryVerifiedBy = c₀.recoveryVerifiedBy := by
    intro c hc
    obtain ⟨c₀, hc₀, rfl⟩ := mem_updateWhere.mp hc
    refine ⟨c₀, hc₀, ?_⟩
    split <;> simp [CaseRow.store, hamount, hproof]
  have hid : (t.apply (.updateCase read new)).cases.map (·.id) = t.cases.map (·.id) :=
    map_updateWhere (f := read.store new) (fun c => c.id) fun _ => rfl
  have hobserved : (t.apply (.updateCase read new)).cases.map (·.observedReferenceId) =
      t.cases.map (·.observedReferenceId) :=
    map_updateWhere (f := read.store new) (fun c => c.observedReferenceId) fun _ => rfl
  refine { h with
    case_id := by rw [hid]; exact h.case_id
    case_observed := ?_
    case_amount := fun c hc => ?_
    case_proof := fun c hc => ?_
    outbox_case := fun r hr => hmem (h.outbox_case r hr)
    action_case := fun a ha => hmem (h.action_case a ha)
    contact_case := fun c hc i hi => hmem (h.contact_case c hc i hi)
    approval_case := fun a ha => hmem (h.approval_case a ha)
    block_case := fun b hb i hi => hmem (h.block_case b hb i hi) }
  · have hfilter : ∀ cs : List CaseRow, cs.filterMap (·.observedReferenceId) =
        (cs.map (·.observedReferenceId)).filterMap id := fun cs => by
      rw [List.filterMap_map]
      rfl
    rw [hfilter, hobserved, ← hfilter]
    exact h.case_observed
  · obtain ⟨c₀, hc₀, hamount, hrecovered, -⟩ := hkeeps c hc
    rw [hamount, hrecovered]
    exact h.case_amount c₀ hc₀
  · obtain ⟨c₀, hc₀, -, hrecovered, hproof⟩ := hkeeps c hc
    rw [hrecovered, hproof]
    exact h.case_proof c₀ hc₀

/-- A dead letter needs a fresh id and the row it is about. -/
theorem valid_insertDeadLetter {t : Tables} {d : DeadLetterRow} :
    (t.apply (.insertDeadLetter d)).Valid ↔
      t.Valid ∧ (∀ d' ∈ t.deadLetters, d'.id ≠ d.id) ∧ ∃ r ∈ t.outbox, r.id = d.outboxId := by
  constructor
  · intro h
    refine ⟨{ h with
      dlq_id := (nodup_map_concat.mp h.dlq_id).1
      dlq_outbox := fun d' hd' => h.dlq_outbox d' (List.mem_append_left _ hd') }, ?_, ?_⟩
    · exact (nodup_map_concat.mp h.dlq_id).2
    · exact h.dlq_outbox d (List.mem_append_right _ (List.mem_singleton.mpr rfl))
  · rintro ⟨h, hid, hrow⟩
    refine { h with
      dlq_id := nodup_map_concat.mpr ⟨h.dlq_id, hid⟩
      dlq_outbox := fun d' hd' => ?_ }
    rcases List.mem_append.mp hd' with hd' | hd'
    · exact h.dlq_outbox d' hd'
    · exact List.mem_singleton.mp hd' ▸ hrow

end AegisMerchant
