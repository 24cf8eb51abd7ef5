import AegisMerchant.Base.TimeText
import AegisMerchant.Tools.ChainLaws

/-!
# What a head hash pins down

A chain the verifier accepts is told by its last hash alone: the material of each hash reads back,
whatever the payload holds, and it carries the hash before it. What is not in the material, and not
compared either, can be changed in place.

`hashMaterial_inj` takes the hashed text apart. `headHash_pins` says what the last hash determines,
`changed_rejected_iff` which edits it shows, and `not_changed_rejected` one that it does not.
-/

namespace AegisMerchant

open Time

/-! ## The hashed material -/

theorem toList_toDbIso (t : DateTime) :
    (toDbIso t).toList = (toString (civilFromDays (t.astimezone 0).wallDay).1).toList ++
      (clockText (t.astimezone 0) ++
        '.' :: ((Text.padNat 3 ((t.astimezone 0).wallTime % second / 1000).toNat).toList ++
          ['Z'])) := by
  unfold toDbIso clockText
  simp only [String.toList_append, List.append_assoc, List.cons_append]
  simp

theorem length_clockText (t : DateTime) : (clockText t).length = 15 := by
  obtain ⟨hmonth, hdom⟩ := civilFromDays_bounds t.wallDay
  have htime := wallTime_bounds t
  unfold second at htime
  simp only [clockText, List.length_cons, List.length_append, length_pad2 hmonth.2,
    length_pad2 hdom.2]
  rw [length_pad2 (by unfold second; omega), length_pad2 (by unfold second; omega),
    length_pad2 (by unfold second; omega)]

/-- **The storage text of an instant tells it to the millisecond.** -/
theorem toDbIso_inj {t t' : DateTime} (h : toDbIso t = toDbIso t') : dbTime t = dbTime t' := by
  have hlist := congrArg String.toList h
  rw [toList_toDbIso, toList_toDbIso] at hlist
  have hmillis : ∀ t : DateTime, 0 ≤ t.wallTime % second / 1000 ∧
      t.wallTime % second / 1000 < 1000 := by
    intro t
    unfold second
    omega
  have hwidth : ∀ t : DateTime,
      (Text.padNat 3 (t.wallTime % second / 1000).toNat).toList.length = 3 := fun t =>
    Text.length_padNat (by decide) (by have := (hmillis t).2; omega)
  -- everything after the year is of one width
  obtain ⟨hyear, hrest⟩ := List.append_inj' hlist (by
    simp only [List.length_append, List.length_cons, length_clockText, hwidth])
  obtain ⟨hdate, hseconds, hrest⟩ := cut_clockText hrest
  have hmilli := Text.padNat_inj
    (List.append_inj (List.cons.inj hrest).2 (by rw [hwidth, hwidth])).1
  have hyear := Text.toString_int_inj (String.toList_inj.mp hyear)
  have hday := civilFromDays_inj (Prod.ext hyear hdate)
  have h0 := (hmillis (t.astimezone 0)).1
  have h0' := (hmillis (t'.astimezone 0)).1
  unfold second at hseconds hmilli h0 h0'
  simp only [DateTime.wallDay, DateTime.wallTime, DateTime.wall, DateTime.astimezone, day, hour,
    second] at hday hseconds hmilli h0 h0'
  simp only [dbTime, DateTime.truncateMs, DateTime.mk.injEq, and_true]
  omega

def unitSeparator : Char := '\x1f'

/-- The separator cannot occur in hexadecimal digits. -/
theorem separator_not_mem_hex {s : String} (h : Text.IsHex s) : unitSeparator ∉ s.toList :=
  fun hmem => absurd (h _ hmem) (by decide)

theorem toList_genesisHash : genesisHash.toList = List.replicate 64 '0' :=
  String.toList_ofList

theorem isHex_genesisHash : Text.IsHex genesisHash := by
  intro c hc
  rw [toList_genesisHash] at hc
  rw [List.eq_of_mem_replicate hc]
  exact .inl rfl

theorem separator_not_mem_toString (n : ℤ) : unitSeparator ∉ (toString n).toList := by
  intro hmem
  rcases Text.mem_toString_int hmem with h | h
  · exact absurd h (by decide)
  · exact absurd h (by decide)

theorem separator_not_mem_toDbIso (t : DateTime) : unitSeparator ∉ (toDbIso t).toList := by
  intro hmem
  rw [toList_toDbIso] at hmem
  simp only [List.mem_append, List.mem_cons, List.not_mem_nil, or_false] at hmem
  rcases hmem with h | h | h | h | h
  · exact separator_not_mem_toString _ h
  · rcases mem_clockText h with h | h
    · exact absurd h (by decide)
    · exact absurd h (by decide)
  · exact absurd h (by decide)
  · exact absurd (Text.isDigit_of_mem_padNat h) (by decide)
  · exact absurd h (by decide)

/-- What a block's hash is taken of. -/
def hashMaterial (prevHash payloadCanonical : String) (blockIndex : ℤ) (createdAt : DateTime) :
    String :=
  fieldSeparator.intercalate [prevHash, payloadCanonical, toString blockIndex, toDbIso createdAt]

theorem toList_hashMaterial (prev payload : String) (index : ℤ) (t : DateTime) :
    (hashMaterial prev payload index t).toList = prev.toList ++
      unitSeparator :: ((payload.toList ++ unitSeparator :: (toString index).toList) ++
        unitSeparator :: (toDbIso t).toList) := by
  have hseparator : fieldSeparator.toList = [unitSeparator] := by decide
  unfold hashMaterial
  simp only [String.intercalate_cons_cons, String.intercalate_singleton, String.toList_append,
    hseparator, List.append_assoc, List.cons_append, List.nil_append]

/-- **The material reads back**, whatever the payload holds: the hash before ends at the first
separator, the index and the instant start at the last two. -/
theorem hashMaterial_inj {prev prev' payload payload' : String} {index index' : ℤ}
    {t t' : DateTime} (hprev : Text.IsHex prev) (hprev' : Text.IsHex prev')
    (h : hashMaterial prev payload index t = hashMaterial prev' payload' index' t') :
    prev = prev' ∧ payload = payload' ∧ index = index' ∧ dbTime t = dbTime t' := by
  have hlist := congrArg String.toList h
  rw [toList_hashMaterial, toList_hashMaterial] at hlist
  obtain ⟨h1, hlist⟩ := Text.cut_first (separator_not_mem_hex hprev) (separator_not_mem_hex hprev') hlist
  obtain ⟨hlist, h4⟩ := Text.cut_last (separator_not_mem_toDbIso t) (separator_not_mem_toDbIso t')
    hlist
  obtain ⟨h2, h3⟩ := Text.cut_last (separator_not_mem_toString index)
    (separator_not_mem_toString index') hlist
  exact ⟨String.toList_inj.mp h1, String.toList_inj.mp h2,
    Text.toString_int_inj (String.toList_inj.mp h3), toDbIso_inj (String.toList_inj.mp h4)⟩

namespace AuditChain

/-! ## What the verifier accepts -/

/-- The chain from one position on: every block stands at its index, follows the hash before it and
stores its own hashes. -/
def Accepted (rt : Runtime) : ℕ → String → List AuditBlockRow → Prop
  | _, _, [] => True
  | position, prevHash, block :: rest =>
    (block.blockIndex = position ∧ block.prevHash = prevHash ∧ block.Hashed rt) ∧
      Accepted rt (position + 1) block.currentHash rest

def headOf : String → List AuditBlockRow → String
  | prevHash, [] => prevHash
  | _, block :: rest => headOf block.currentHash rest

/-- The loop accepts exactly such chains. -/
theorem verifyFrom_valid_iff {rt : Runtime} {total : ℕ} {blocks : List AuditBlockRow} :
    ∀ {position : ℕ} {prevHash : String},
      (verifyFrom rt total position prevHash blocks).valid = true ↔
        Accepted rt position prevHash blocks := by
  induction blocks with
  | nil =>
    intro position prevHash
    exact iff_of_true rfl trivial
  | cons block rest ih =>
    intro position prevHash
    rw [verifyFrom, Accepted]
    split
    · next h => exact iff_of_false (by simp) fun hok => h hok.1.1
    · next hindex =>
      split
      · next h => exact iff_of_false (by simp) fun hok => h hok.1.2.2.payload
      · next hpayload =>
        split
        · next h => exact iff_of_false (by simp) fun hok => h hok.1.2.1
        · next hprev =>
          split
          · next h => exact iff_of_false (by simp) fun hok => h hok.1.2.2.current
          · next hcurrent =>
            rw [ih]
            exact (and_iff_right ⟨not_not.mp hindex, not_not.mp hprev, not_not.mp hpayload,
              not_not.mp hcurrent⟩).symm

theorem verifyFrom_headHash {rt : Runtime} {total : ℕ} {blocks : List AuditBlockRow} :
    ∀ {position : ℕ} {prevHash : String}, Accepted rt position prevHash blocks →
      (verifyFrom rt total position prevHash blocks).headHash = some (headOf prevHash blocks) := by
  induction blocks with
  | nil =>
    intro position prevHash _
    rfl
  | cons block rest ih =>
    intro position prevHash hok
    obtain ⟨⟨hindex, hprev, hhashed⟩, hrest⟩ := hok
    rw [verifyFrom, if_neg (not_not.mpr hindex), if_neg (not_not.mpr hhashed.payload),
      if_neg (not_not.mpr hprev), if_neg (not_not.mpr hhashed.current), headOf]
    exact ih hrest

theorem verifyBlocks_valid_iff {rt : Runtime} {blocks : List AuditBlockRow} :
    (verifyBlocks rt blocks).valid = true ↔ Accepted rt 0 genesisHash blocks := by
  unfold verifyBlocks
  split
  · next h =>
    subst h
    exact iff_of_true rfl trivial
  · exact verifyFrom_valid_iff

/-- A chain cut in two at a block. -/
theorem accepted_append {rt : Runtime} {before after : List AuditBlockRow} {block : AuditBlockRow} :
    ∀ {position : ℕ} {prevHash : String},
      Accepted rt position prevHash (before ++ block :: after) ↔
        Accepted rt position prevHash before ∧
          (block.blockIndex = (position + before.length : ℕ) ∧
            block.prevHash = headOf prevHash before ∧ block.Hashed rt) ∧
            Accepted rt (position + before.length + 1) block.currentHash after := by
  induction before with
  | nil =>
    intro position prevHash
    simp [Accepted, headOf]
  | cons b before ih =>
    intro position prevHash
    rw [List.cons_append, Accepted, Accepted, ih, headOf, List.length_cons,
      show position + 1 + before.length = position + (before.length + 1) by omega, ← and_assoc]

theorem headOf_concat (prevHash : String) (before : List AuditBlockRow) (block : AuditBlockRow) :
    headOf prevHash (before ++ [block]) = block.currentHash := by
  induction before generalizing prevHash with
  | nil => rfl
  | cons b before ih => exact ih b.currentHash

/-! ## The history a head hash pins -/

/-- Two blocks that agree on everything the material and the links hold. -/
structure SameHashed (b b' : AuditBlockRow) : Prop where
  blockIndex : b.blockIndex = b'.blockIndex
  prevHash : b.prevHash = b'.prevHash
  payloadCanonical : b.payloadCanonical = b'.payloadCanonical
  payloadHash : b.payloadHash = b'.payloadHash
  createdAt : dbTime b.createdAt = dbTime b'.createdAt

section Pins

variable {rt : Runtime} (hinj : Function.Injective rt.sha256) (hhex : ∀ s, Text.IsHex (rt.sha256 s))

include hhex in
/-- Every hash a chain is linked by is written in hexadecimal digits. -/
theorem isHex_headOf {blocks : List AuditBlockRow} :
    ∀ {position : ℕ} {prevHash : String}, Text.IsHex prevHash →
      Accepted rt position prevHash blocks → Text.IsHex (headOf prevHash blocks) := by
  induction blocks with
  | nil =>
    intro position prevHash hprev _
    exact hprev
  | cons block rest ih =>
    intro position prevHash _ hok
    obtain ⟨⟨-, -, hhashed⟩, hrest⟩ := hok
    refine ih ?_ hrest
    rw [← hhashed.current]
    exact hhex _

include hinj in
/-- Equal hashes, equal contents. -/
theorem sameHashed_of_currentHash {b b' : AuditBlockRow} (hb : b.Hashed rt) (hb' : b'.Hashed rt)
    (hprev : Text.IsHex b.prevHash) (hprev' : Text.IsHex b'.prevHash)
    (h : b.currentHash = b'.currentHash) : SameHashed b b' := by
  rw [← hb.current, ← hb'.current] at h
  obtain ⟨h1, h2, h3, h4⟩ := hashMaterial_inj hprev hprev' (hinj h)
  refine ⟨h3, h1, h2, ?_, h4⟩
  rw [← hb.payload, ← hb'.payload, h2]

include hinj hhex in
/-- Backwards along two chains that end in the same hash. -/
theorem sameHashed_of_headOf {blocks blocks' : List AuditBlockRow}
    (hok : Accepted rt 0 genesisHash blocks) (hok' : Accepted rt 0 genesisHash blocks')
    (hnil : blocks = [] ↔ blocks' = [])
    (hhead : headOf genesisHash blocks = headOf genesisHash blocks') :
    List.Forall₂ SameHashed blocks blocks' := by
  induction blocks using List.reverseRecOn generalizing blocks' with
  | nil =>
    rw [hnil.mp rfl]
    exact .nil
  | append_singleton before block ih =>
    cases blocks' using List.reverseRecOn with
    | nil => exact absurd (hnil.mpr rfl) (by simp)
    | append_singleton before' block' =>
      obtain ⟨hbefore, ⟨hindex, hprev, hhashed⟩, -⟩ := accepted_append.mp hok
      obtain ⟨hbefore', ⟨hindex', hprev', hhashed'⟩, -⟩ := accepted_append.mp hok'
      rw [headOf_concat, headOf_concat] at hhead
      have hhex0 := isHex_headOf hhex isHex_genesisHash hbefore
      have hhex0' := isHex_headOf hhex isHex_genesisHash hbefore'
      rw [← hprev] at hhex0
      rw [← hprev'] at hhex0'
      have hsame := sameHashed_of_currentHash hinj hhashed hhashed' hhex0 hhex0' hhead
      -- the index is in the material, so the chains are of one length
      have hlength : before.length = before'.length := by
        have := hsame.blockIndex
        omega
      refine List.rel_append (ih hbefore hbefore' ?_ ?_) (.cons hsame .nil)
      · rw [← List.length_eq_zero_iff, ← List.length_eq_zero_iff, hlength]
      · rw [← hprev, ← hprev', hsame.prevHash]

include hinj hhex in
/-- **A head hash pins the whole hashed history.** -/
theorem headHash_pins {blocks blocks' : List AuditBlockRow} (hne : blocks ≠ []) (hne' : blocks' ≠ [])
    (hvalid : (verifyBlocks rt blocks).valid = true)
    (hvalid' : (verifyBlocks rt blocks').valid = true)
    (hhead : (verifyBlocks rt blocks).headHash = (verifyBlocks rt blocks').headHash) :
    blocks.length = blocks'.length ∧ List.Forall₂ SameHashed blocks blocks' := by
  have hok := verifyBlocks_valid_iff.mp hvalid
  have hok' := verifyBlocks_valid_iff.mp hvalid'
  have heads : headOf genesisHash blocks = headOf genesisHash blocks' := by
    unfold verifyBlocks at hhead
    rw [if_neg hne, if_neg hne', verifyFrom_headHash hok, verifyFrom_headHash hok'] at hhead
    exact Option.some.inj hhead
  have hall := sameHashed_of_headOf hinj hhex hok hok' (by simp [hne, hne']) heads
  exact ⟨hall.length_eq, hall⟩

end Pins

/-! ## A runtime with such digests -/

/-- The code point of a character in six hexadecimal digits. -/
def hexChar (c : Char) : List Char :=
  [Text.hexDigit (c.toNat / 16 ^ 5), Text.hexDigit (c.toNat / 16 ^ 4),
    Text.hexDigit (c.toNat / 16 ^ 3), Text.hexDigit (c.toNat / 16 ^ 2),
    Text.hexDigit (c.toNat / 16), Text.hexDigit c.toNat]

/-- A runtime whose digests spell their texts out. -/
def hexRuntime : Runtime :=
  { plainRuntime with sha256 := fun s => String.ofList (s.toList.flatMap hexChar) }

theorem hexDigit_inj {m n : ℕ} (h : Text.hexDigit m = Text.hexDigit n) : m % 16 = n % 16 := by
  have hdigit : ∀ a < 16, ∀ b < 16, Nat.digitChar a = Nat.digitChar b → a = b := by decide
  exact hdigit _ (Nat.mod_lt _ (by decide)) _ (Nat.mod_lt _ (by decide)) h

theorem hexChar_inj {c d : Char} (h : hexChar c = hexChar d) : c = d := by
  simp only [hexChar, List.cons.injEq, and_true] at h
  obtain ⟨h5, h4, h3, h2, h1, h0⟩ := h
  have h5 := hexDigit_inj h5
  have h4 := hexDigit_inj h4
  have h3 := hexDigit_inj h3
  have h2 := hexDigit_inj h2
  have h1 := hexDigit_inj h1
  have h0 := hexDigit_inj h0
  have hrange : ∀ e : Char, e.toNat < 1114112 := by
    intro e
    rcases e.valid with hlow | ⟨-, hhigh⟩
    · exact lt_trans hlow (by decide)
    · exact hhigh
  have := hrange c
  have := hrange d
  have hnat : c.toNat = d.toNat := by omega
  rw [← Char.ofNat_toNat c, hnat, Char.ofNat_toNat]

theorem hexRuntime_injective : Function.Injective hexRuntime.sha256 := by
  have hflat : ∀ s s' : List Char, s.flatMap hexChar = s'.flatMap hexChar → s = s' := by
    intro s
    induction s with
    | nil =>
      rintro (_ | ⟨c, s'⟩) h
      · rfl
      · cases h
    | cons c s ih =>
      rintro (_ | ⟨c', s'⟩) h
      · cases h
      · rw [List.flatMap_cons, List.flatMap_cons] at h
        obtain ⟨hchar, hrest⟩ := List.append_inj h rfl
        rw [hexChar_inj hchar, ih s' hrest]
  intro s s' h
  have hlist := congrArg String.toList h
  simp only [hexRuntime, String.toList_ofList] at hlist
  exact String.toList_inj.mp (hflat _ _ hlist)

theorem hexRuntime_isHex (s : String) : Text.IsHex (hexRuntime.sha256 s) := by
  have hdigit : ∀ a < 16, (Nat.digitChar a).isDigit = true ∨
      Nat.digitChar a ∈ ['a', 'b', 'c', 'd', 'e', 'f'] := by decide
  intro c hc
  simp only [hexRuntime, String.toList_ofList, List.mem_flatMap] at hc
  obtain ⟨e, -, he⟩ := hc
  simp only [hexChar, List.mem_cons, List.not_mem_nil, or_false] at he
  rcases he with rfl | rfl | rfl | rfl | rfl | rfl <;>
    exact hdigit _ (Nat.mod_lt _ (by decide))

/-- The first block of a chain, whose payload holds the unit separator. -/
def firstBlock (rt : Runtime) (actor : String) : AuditBlockRow where
  id := "blk_1"
  blockIndex := 0
  caseId := none
  prevHash := genesisHash
  currentHash := computeBlockHash rt genesisHash "\x1f" 0 { utc := 0 }
  eventName := "case.opened"
  actor
  payloadCanonical := "\x1f"
  payloadHash := payloadDigest rt "\x1f"
  createdAt := { utc := 0 }

def secondBlock (rt : Runtime) (actor : String) : AuditBlockRow where
  id := "blk_2"
  blockIndex := 1
  caseId := none
  prevHash := (firstBlock rt actor).currentHash
  currentHash := computeBlockHash rt (firstBlock rt actor).currentHash "\x7b\x7d" 1 { utc := 1000 }
  eventName := "case.triaged"
  actor
  payloadCanonical := "\x7b\x7d"
  payloadHash := payloadDigest rt "\x7b\x7d"
  createdAt := { utc := 1000 }

/-- Whoever each of them names. -/
theorem twoBlocks_valid (rt : Runtime) (actor actor' : String) :
    (verifyBlocks rt [firstBlock rt actor, secondBlock rt actor']).valid = true :=
  verifyBlocks_valid_iff.mpr ⟨⟨rfl, rfl, rfl, rfl⟩, ⟨rfl, rfl, rfl, rfl⟩, trivial⟩

theorem headHash_pins_twoBlocks :
    List.Forall₂ SameHashed [firstBlock hexRuntime "agent", secondBlock hexRuntime "agent"]
      [firstBlock hexRuntime "ops", secondBlock hexRuntime "ops"] :=
  (headHash_pins hexRuntime_injective hexRuntime_isHex (List.cons_ne_nil _ _)
    (List.cons_ne_nil _ _) (twoBlocks_valid _ "agent" "agent") (twoBlocks_valid _ "ops" "ops") rfl).2

/-! ## One field, changed in place -/

inductive FieldChange where
  | blockIndex (n : ℤ)
  | caseId (id : Option String)
  | prevHash (hash : String)
  | currentHash (hash : String)
  | eventName (name : String)
  | actor (name : String)
  | payloadCanonical (payload : String)
  | payloadHash (hash : String)
  | createdAt (t : DateTime)

namespace FieldChange

def apply (b : AuditBlockRow) : FieldChange → AuditBlockRow
  | .blockIndex n => { b with blockIndex := n }
  | .caseId id => { b with caseId := id }
  | .prevHash hash => { b with prevHash := hash }
  | .currentHash hash => { b with currentHash := hash }
  | .eventName name => { b with eventName := name }
  | .actor name => { b with actor := name }
  | .payloadCanonical payload => { b with payloadCanonical := payload }
  | .payloadHash hash => { b with payloadHash := hash }
  | .createdAt t => { b with createdAt := t }

/-- The field really changes, an instant to the millisecond. -/
def Changes (b : AuditBlockRow) : FieldChange → Prop
  | .blockIndex n => n ≠ b.blockIndex
  | .caseId id => id ≠ b.caseId
  | .prevHash hash => hash ≠ b.prevHash
  | .currentHash hash => hash ≠ b.currentHash
  | .eventName name => name ≠ b.eventName
  | .actor name => name ≠ b.actor
  | .payloadCanonical payload => payload ≠ b.payloadCanonical
  | .payloadHash hash => hash ≠ b.payloadHash
  | .createdAt t => dbTime t ≠ dbTime b.createdAt

/-- The field is in the hashed material, or compared. -/
def Covered : FieldChange → Prop
  | .caseId _ | .eventName _ | .actor _ => False
  | .blockIndex _ | .prevHash _ | .currentHash _ | .payloadCanonical _ | .payloadHash _
  | .createdAt _ => True

end FieldChange

/-- Another instant, another hash. -/
theorem computeBlockHash_ne {rt : Runtime} (hinj : Function.Injective rt.sha256) {prev payload : String}
    {index : ℤ} {t t' : DateTime} (h : dbTime t ≠ dbTime t') :
    computeBlockHash rt prev payload index t ≠ computeBlockHash rt prev payload index t' := by
  intro heq
  have hmaterial : hashMaterial prev payload index t = hashMaterial prev payload index t' :=
    hinj heq
  have hlist := congrArg String.toList hmaterial
  rw [toList_hashMaterial, toList_hashMaterial, List.append_cancel_left_eq] at hlist
  have hiso := List.append_cancel_left (List.cons.inj hlist).2
  exact h (toDbIso_inj (String.toList_inj.mp (List.cons.inj hiso).2))

/-- A block with a changed field that is covered no longer fits its place. -/
theorem changed_unfit {rt : Runtime} (hinj : Function.Injective rt.sha256) {b : AuditBlockRow}
    {change : FieldChange} {position : ℕ} {prev : String}
    (hok : b.blockIndex = position ∧ b.prevHash = prev ∧ b.Hashed rt)
    (hchanges : change.Changes b) (hcovered : change.Covered)
    (hok' : (change.apply b).blockIndex = position ∧ (change.apply b).prevHash = prev ∧
      (change.apply b).Hashed rt) : False := by
  obtain ⟨hindex, hprev, hhashed⟩ := hok
  obtain ⟨hindex', hprev', hhashed'⟩ := hok'
  cases change with
  | blockIndex n => exact hchanges (hindex'.trans hindex.symm)
  | prevHash hash => exact hchanges (hprev'.trans hprev.symm)
  | currentHash hash => exact hchanges (hhashed'.current.symm.trans hhashed.current)
  | payloadCanonical payload =>
    exact hchanges (hinj (hhashed'.payload.trans hhashed.payload.symm))
  | payloadHash hash => exact hchanges (hhashed'.payload.symm.trans hhashed.payload)
  | createdAt t =>
    exact computeBlockHash_ne hinj hchanges (hhashed'.current.trans hhashed.current.symm)
  | caseId _ | eventName _ | actor _ => exact hcovered

/-- **A change to one field of one block is rejected exactly when the field is covered.** -/
theorem changed_rejected_iff {rt : Runtime} (hinj : Function.Injective rt.sha256)
    {before after : List AuditBlockRow} {b : AuditBlockRow} {change : FieldChange}
    (hvalid : (verifyBlocks rt (before ++ b :: after)).valid = true) (hchanges : change.Changes b) :
    (verifyBlocks rt (before ++ change.apply b :: after)).valid = false ↔ change.Covered := by
  obtain ⟨hbefore, hblock, hafter⟩ := accepted_append.mp (verifyBlocks_valid_iff.mp hvalid)
  rw [← Bool.not_eq_true, verifyBlocks_valid_iff, accepted_append]
  constructor
  · intro hrejected
    cases change with
    | caseId _ | eventName _ | actor _ =>
      -- neither hashed nor compared: the chain is as good as before
      refine hrejected ⟨hbefore, ⟨hblock.1, hblock.2.1, ?_⟩, hafter⟩
      exact ⟨hblock.2.2.payload, hblock.2.2.current⟩
    | _ => exact trivial
  · rintro hcovered ⟨-, hblock', -⟩
    exact changed_unfit hinj hblock hchanges hcovered hblock'

theorem changed_rejected_backdated :
    (verifyBlocks plainRuntime
      [(FieldChange.createdAt { utc := 1000 }).apply (firstBlock plainRuntime "agent"),
        secondBlock plainRuntime "agent"]).valid = false := by
  have hinj : Function.Injective plainRuntime.sha256 := fun _ _ h => h
  have hchanges : (FieldChange.createdAt { utc := 1000 }).Changes (firstBlock plainRuntime "agent") := by
    show dbTime { utc := 1000 } ≠ dbTime { utc := 0 }
    decide
  exact (@changed_rejected_iff _ hinj [] [secondBlock plainRuntime "agent"] _ _
    (twoBlocks_valid _ _ _) hchanges).mpr trivial

/-- Another actor's name on the record goes unnoticed. -/
theorem not_changed_rejected :
    ¬∀ (rt : Runtime), Function.Injective rt.sha256 → ∀ before after b (change : FieldChange),
      (verifyBlocks rt (before ++ b :: after)).valid = true → change.Changes b →
        (verifyBlocks rt (before ++ change.apply b :: after)).valid = false := by
  intro h
  have hrejected := h hexRuntime hexRuntime_injective [] [secondBlock hexRuntime "agent"]
    (firstBlock hexRuntime "agent") (.actor "ops") (twoBlocks_valid _ _ _)
    (by show ("ops" : String) ≠ "agent"; decide)
  have haccepted : (verifyBlocks hexRuntime
      [firstBlock hexRuntime "ops", secondBlock hexRuntime "agent"]).valid = true :=
    twoBlocks_valid _ _ _
  exact absurd (hrejected.symm.trans haccepted) (by decide)

end AuditChain

end AegisMerchant
