import AegisMerchant.Base.Casing
import AegisMerchant.Base.Search
import AegisMerchant.Workers.PoisonRows
import AegisMerchant.Workers.SettleLaws

/-!
# Whose reference it is

A reference names its case and its attempt, and the merchant's own checkout has references of its
own kind. So whatever reference comes back, in any casing, the case it is booked on is one it was
issued for.

`referenceId_inj` tells references apart, and `findCase_answers` says what a settler finds under
one.
-/

namespace AegisMerchant

open Text

/-! ## The two kinds of reference -/

theorem lower_toString_int (n : ℤ) : lower (toString n) = toString n := by
  rw [← String.toList_inj, toList_lower_of_ascii (ascii_toString_int n)]
  refine (List.map_congr_left fun c hc => ?_).trans (List.map_id _)
  rcases mem_toString_int hc with hdigit | rfl
  · have := lowerChar_of_isDigit hdigit
    rw [lowerChar_of_ascii (ascii_toString_int n c hc)] at this
    exact List.singleton_inj.mp this
  · rfl

theorem toList_referenceId (caseId : String) (attemptNo : ℤ) :
    (referenceId caseId attemptNo).toList =
      'r' :: 'v' :: 'p' :: '_' :: ((lower caseId).toList ++ '_' :: (toString attemptNo).toList) := by
  rw [referenceId, lower_append, lower_append, lower_append, lower_toString_int]
  simp only [String.toList_append, List.append_assoc]
  rfl

theorem toList_observedReferenceId (caseId : String) :
    (observedReferenceId caseId).toList =
      'r' :: 'v' :: 'p' :: 'o' :: '_' :: (lower caseId).toList := by
  rw [observedReferenceId, lower_append, String.toList_append]
  rfl

/-- **A reference names its attempt, and its case up to letter case.** -/
theorem referenceId_inj {caseId caseId' : String} {attemptNo attemptNo' : ℤ}
    (h : referenceId caseId attemptNo = referenceId caseId' attemptNo') :
    attemptNo = attemptNo' ∧ SameLetters caseId caseId' := by
  have hseparator : ∀ n : ℤ, '_' ∉ (toString n).toList := by
    intro n hmem
    rcases mem_toString_int hmem with hdigit | hsign
    · exact absurd hdigit (by decide)
    · exact absurd hsign (by decide)
  have hlist := congrArg String.toList h
  rw [toList_referenceId, toList_referenceId] at hlist
  simp only [List.cons.injEq, true_and] at hlist
  obtain ⟨hcase, hattempt⟩ := cut_last (hseparator _) (hseparator _) hlist
  exact ⟨toString_int_inj (String.toList_inj.mp hattempt), String.toList_inj.mp hcase⟩

/-- No reference to an attempt is a reference to a merchant's own checkout. -/
theorem referenceId_ne_observedReferenceId (caseId caseId' : String) (attemptNo : ℤ) :
    referenceId caseId attemptNo ≠ observedReferenceId caseId' := by
  intro h
  have hlist := congrArg String.toList h
  rw [toList_referenceId, toList_observedReferenceId] at hlist
  simp at hlist

theorem lower_referenceId (caseId : String) (attemptNo : ℤ) :
    lower (referenceId caseId attemptNo) = referenceId caseId attemptNo := lower_lower _

/-- A reference stands in a message without whitespace at its ends. -/
theorem echoes_referenceId {incoming caseId : String} {attemptNo : ℤ}
    (h : Echoes incoming (referenceId caseId attemptNo)) :
    lower (strip incoming) = referenceId caseId attemptNo := by
  refine h.lower_strip (lower_referenceId _ _) (referenceId_ne_empty _ _) ?_ ?_
  · rw [toList_referenceId]
    rintro c ⟨⟩
    rfl
  · intro c hc
    have hlast : c ∈ ('_' :: (toString attemptNo).toList).getLast? := by
      rw [toList_referenceId] at hc
      simpa [List.getLast?_append, List.getLast?_cons] using hc
    rcases List.mem_cons.mp (List.mem_of_mem_getLast? hlast) with rfl | hmem
    · rfl
    · rcases mem_toString_int hmem with hdigit | rfl
      · exact isSpace_of_isDigit hdigit
      · rfl

/-- The merchant's own reference, in any casing, is never mistaken for one of ours. -/
theorem echoes_observedReferenceId {incoming caseId caseId' : String} {attemptNo : ℤ}
    (h : Echoes incoming (observedReferenceId caseId)) :
    lower (strip incoming) ≠ referenceId caseId' attemptNo := by
  obtain ⟨before, s, after, rfl, hbefore, -, hs⟩ := h
  have hlist : (lower s).toList = 'r' :: 'v' :: 'p' :: 'o' :: '_' :: (lower caseId).toList := by
    rw [hs, observedReferenceId, lower_lower, ← observedReferenceId, toList_observedReferenceId]
  have hne : s ≠ "" := by
    rintro rfl
    cases hlist
  have hfirst : ∀ c ∈ s.toList.head?, isSpace c = false := by
    intro c hc
    by_contra hspace
    have hc' := (ends_lower (eq_true_of_ne_false hspace)).1 hc
    rw [hlist] at hc'
    cases hc'
    exact hspace rfl
  -- the stripped text starts as the reference does, in its fourth letter too
  have hprefix := prefix_lower (prefix_strip hbefore hne hfirst after)
  intro heq
  rw [heq, toList_referenceId, lower_append, String.toList_append, hlist] at hprefix
  simp at hprefix

/-- Written in lower case, a reference is found as it is. -/
theorem sqlLower_lower {s : String} (h : Ascii s) : sqlLower (lower s) = lower s := by
  rw [← String.toList_inj, sqlLower, String.toList_ofList, toList_lower_of_ascii h, List.map_map]
  exact List.map_congr_left fun c hc => (toLower_of_ascii (h c hc)).2.1

theorem sqlLower_referenceId {caseId : String} (h : Ascii caseId) (attemptNo : ℤ) :
    sqlLower (referenceId caseId attemptNo) = referenceId caseId attemptNo := by
  refine sqlLower_lower (ascii_append.mpr ⟨ascii_append.mpr ⟨ascii_append.mpr ⟨?_, h⟩, ?_⟩,
    ascii_toString_int _⟩)
  · decide
  · decide

theorem sqlLower_observedReferenceId {caseId : String} (h : Ascii caseId) :
    sqlLower (observedReferenceId caseId) = observedReferenceId caseId :=
  sqlLower_lower (ascii_append.mpr ⟨by decide, h⟩)

/-! ## The case a reference finds -/

/-- Every reference stored is one made for the case of its own row. -/
structure Tables.OwnReferences (t : Tables) : Prop where
  outbox : ∀ row ∈ t.outbox, Ascii row.caseId ∧
    ∃ attemptNo, row.referenceId = referenceId row.caseId attemptNo
  actions : ∀ a ∈ t.actions, ∀ r ∈ a.referenceId, Ascii a.caseId ∧
    ∃ attemptNo, r = referenceId a.caseId attemptNo
  cases : ∀ c ∈ t.cases, ∀ r ∈ c.observedReferenceId, Ascii c.id ∧ r = observedReferenceId c.id

def Tables.Issues (t : Tables) (caseId reference : String) : Prop :=
  (∃ row ∈ t.outbox, row.caseId = caseId ∧ row.referenceId = reference) ∨
    ∃ a ∈ t.actions, a.caseId = caseId ∧ a.referenceId = some reference

/-- What an incoming reference finds: the case it was issued for, with the reference as it was
issued; a case of the merchant's own checkout, with none; or nothing. -/
inductive Tables.Answers (t : Tables) (needle : String) :
    Option (CaseRow × Option String) → Prop
  | nothing : t.Answers needle none
  | issuer {case : CaseRow} {attemptNo : ℤ} (stored : case ∈ t.cases)
      (issues : t.Issues case.id needle) (own : needle = referenceId case.id attemptNo) :
      t.Answers needle (some (case, some needle))
  | observed {case : CaseRow} (stored : case ∈ t.cases)
      (own : needle = observedReferenceId case.id) : t.Answers needle (some (case, none))

theorem foundCase_answers {t : Tables} (h : t.OwnReferences) (incoming : String) :
    t.Answers (lower (strip incoming)) (t.foundCase incoming) := by
  unfold Tables.foundCase
  generalize lower (strip incoming) = needle
  have hissuer : ∀ {caseId : String} {attemptNo : ℤ}, t.Issues caseId needle →
      needle = referenceId caseId attemptNo →
        t.Answers needle ((t.caseById caseId).map (·, some needle)) := by
    intro caseId attemptNo hissues hown
    cases hcase : t.caseById caseId with
    | none => exact .nothing
    | some case =>
      obtain rfl : case.id = caseId := by simpa using List.find?_some hcase
      exact .issuer (List.mem_of_find?_eq_some hcase) hissues hown
  simp only
  cases hentry : t.outboxByLower needle with
  | some entry =>
    have hmem := List.mem_of_find?_eq_some hentry
    obtain ⟨hascii, attemptNo, hown⟩ := h.outbox entry hmem
    obtain rfl : entry.referenceId = needle := by
      have hlower : sqlLower entry.referenceId = needle := by simpa using List.find?_some hentry
      rw [← hlower, hown, sqlLower_referenceId hascii]
    exact hissuer (.inl ⟨entry, hmem, rfl, rfl⟩) hown
  | none =>
    simp only
    cases haction : t.actionByLower needle with
    | some action =>
      have hmem := List.mem_of_find?_eq_some haction
      have hlower : action.referenceId.map sqlLower = some needle := by
        simpa using List.find?_some haction
      obtain ⟨r, hr, hneedle⟩ := Option.map_eq_some_iff.mp hlower
      obtain ⟨hascii, attemptNo, hown⟩ := h.actions action hmem r hr
      obtain rfl : r = needle := by rw [← hneedle, hown, sqlLower_referenceId hascii]
      simp only [hr]
      exact hissuer (.inr ⟨action, hmem, rfl, hr⟩) hown
    | none =>
      simp only
      cases hcase : t.caseByObserved needle with
      | none => exact .nothing
      | some case =>
        have hmem := List.mem_of_find?_eq_some hcase
        have hlower : case.observedReferenceId.map sqlLower = some needle := by
          simpa using List.find?_some hcase
        obtain ⟨r, hr, hneedle⟩ := Option.map_eq_some_iff.mp hlower
        obtain ⟨hascii, rfl⟩ := h.cases case hmem r hr
        refine .observed hmem ?_
        rw [← hneedle, sqlLower_observedReferenceId hascii]

/-- An echo of one of our references finds its case, if any. -/
theorem Tables.Answers.of_echo {t : Tables} {incoming caseId : String} {attemptNo : ℤ}
    {case : CaseRow} {issued : Option String}
    (h : t.Answers (lower (strip incoming)) (some (case, issued)))
    (hecho : Echoes incoming (referenceId caseId attemptNo)) :
    issued = some (referenceId caseId attemptNo) ∧ SameLetters case.id caseId := by
  have hneedle := echoes_referenceId hecho
  cases h with
  | issuer _ _ own => exact ⟨by rw [hneedle], (referenceId_inj (own.symm.trans hneedle)).2⟩
  | observed _ own =>
    exact absurd (hneedle.symm.trans own) (referenceId_ne_observedReferenceId _ _ _)

/-- An echo of the merchant's own finds no reference of ours. -/
theorem Tables.Answers.of_observed {t : Tables} {incoming caseId : String} {case : CaseRow}
    {issued : Option String} (h : t.Answers (lower (strip incoming)) (some (case, issued)))
    (hecho : Echoes incoming (observedReferenceId caseId)) : issued = none := by
  cases h with
  | issuer _ _ own => exact absurd own (echoes_observedReferenceId hecho)
  | observed => rfl

/-- **References tell their cases and attempts apart, ours and the merchant's own; so where every
row's reference was made for its own case, whatever comes back finds the case it was issued for, a
case of the merchant's own checkout with no reference of ours, or nothing.** -/
theorem findCase_answers (w : World) (h : w.db.tables.OwnReferences) (incoming : String) :
    (∀ caseId caseId' attemptNo attemptNo', Ascii caseId → Ascii caseId' →
      referenceId caseId attemptNo = referenceId caseId' attemptNo' →
        attemptNo = attemptNo' ∧ SameLetters caseId caseId') ∧
    (∀ caseId caseId' attemptNo, referenceId caseId attemptNo ≠ observedReferenceId caseId') ∧
    ∃ n found, (Settle.findCase incoming).run World.handler w = (.ok found, w.after n) ∧
      w.db.tables.Answers (lower (strip incoming)) found ∧
      ∀ case issued, found = some (case, issued) →
        (∀ caseId attemptNo, Echoes incoming (referenceId caseId attemptNo) →
          issued = some (referenceId caseId attemptNo) ∧ SameLetters case.id caseId) ∧
        ∀ caseId, Echoes incoming (observedReferenceId caseId) → issued = none := by
  refine ⟨fun _ _ _ _ _ _ heq => referenceId_inj heq, referenceId_ne_observedReferenceId, ?_⟩
  obtain ⟨n, hrun⟩ := run_findCase incoming w
  have hanswers := foundCase_answers h incoming
  refine ⟨n, _, hrun, hanswers, fun case issued hfound => ?_⟩
  rw [hfound] at hanswers
  exact ⟨fun _ _ => hanswers.of_echo, fun _ => hanswers.of_observed⟩

def twoRows : World := worldOf OutboxDrainer.poisoned

theorem twoRows_ownReferences : twoRows.db.tables.OwnReferences := by
  have hrow : ∀ row ∈ [OutboxDrainer.poisonRow, OutboxDrainer.healthyRow], Ascii row.caseId ∧
      ∃ attemptNo, row.referenceId = referenceId row.caseId attemptNo := by
    intro row hrow
    rcases List.mem_pair.mp hrow with rfl | rfl
    · exact ⟨by decide, 1, rfl⟩
    · exact ⟨by decide, 1, rfl⟩
  have hcase : ∀ c ∈ twoRows.db.tables.cases, c.observedReferenceId = none := by decide +kernel
  refine ⟨hrow, fun a ha => ?_, fun c hc r hr => ?_⟩
  · exact absurd ha List.not_mem_nil
  · rw [hcase c hc] at hr
    cases hr

/-- A reference of one of them that comes back in capitals finds the case it was issued for. -/
theorem findCase_answers_capitals : ∃ n case,
    (Settle.findCase " RVP_RC-0001_1").run World.handler twoRows =
        (.ok (some (case, some (referenceId "RC-0001" 1))), twoRows.after n) ∧
      case.id = "RC-0001" := by
  obtain ⟨-, -, n, found, hrun, -, hfound⟩ :=
    findCase_answers twoRows twoRows_ownReferences " RVP_RC-0001_1"
  have hid : ((Settle.findCase " RVP_RC-0001_1").run World.handler twoRows).1.toOption.map
      (·.map (·.1.id)) = some (some "RC-0001") := by decide +kernel
  rw [hrun] at hid
  obtain ⟨⟨case, issued⟩, rfl, hcase⟩ := Option.map_eq_some_iff.mp (Option.some.inj hid)
  have hecho : Echoes " RVP_RC-0001_1" (referenceId "RC-0001" 1) :=
    ⟨" ", "RVP_RC-0001_1", "", by decide, by decide, by decide, by decide +kernel⟩
  obtain ⟨rfl, -⟩ := (hfound case issued rfl).1 "RC-0001" 1 hecho
  exact ⟨n, case, hrun, hcase⟩

end AegisMerchant
