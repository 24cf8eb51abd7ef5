import AegisMerchant.Base.Dict
import AegisMerchant.Core.World

/-!
# The mock provider

`MockRazorpayProvider`, with the faults that can be injected into it, and that whatever it answers
the provider of the world could have answered: what is proved of a service against that provider
holds when it runs against the mock.

`mock_refines` is the simulation.
-/

namespace AegisMerchant

namespace MockProvider

/-! ## The mock -/

structure Fault where
  kind : String
  remaining : ℤ

structure State where
  /-- `_links_by_reference`. -/
  links : List (String × PaymentLinkResult) := []
  fault : Option Fault := none
  callCount : ℕ := 0

def Fault.raised (f : Fault) : PyError :=
  if f.kind = "TIMEOUT" then .providerRetryable "mock: request timed out"
  else if f.kind = "SERVER_ERROR" then .providerRetryable "mock: 502 Bad Gateway"
  else if f.kind = "BAD_REQUEST" then .providerPermanent "mock: 400 invalid request"
  else .valueError ("unknown fault kind: " ++ f.kind)

def tick (s : State) : Except PyError Unit × State :=
  let s := { s with callCount := s.callCount + 1 }
  match s.fault with
  | none => (.ok (), s)
  | some f =>
    if f.remaining ≤ 0 then (.ok (), s)
    else
      (.error f.raised,
        { s with
          fault :=
            if f.remaining - 1 ≤ 0 then none else some { f with remaining := f.remaining - 1 } })

/-- `f"{n:012x}"`. -/
def hex12 (n : ℕ) : String :=
  String.ofList (List.replicate (12 - (Nat.toDigits 16 n).length) '0' ++ Nat.toDigits 16 n)

/-- `link_id[-8:]`. -/
def lastEight (s : String) : String := String.ofList (s.toList.drop (s.toList.length - 8))

/-- The link of a request, for a number that was drawn. -/
def newLink (request : PaymentLinkRequest) (draw : ℕ) : PaymentLinkResult :=
  let linkId := "plink_mock" ++ hex12 draw
  { linkId
    shortUrl := "https://rzp.io/i/mock" ++ lastEight linkId
    referenceId := request.referenceId
    amountPaise := request.amountPaise
    status := "created"
    raw := .obj [("id", .str linkId), ("amount", .int request.amountPaise),
      ("reference_id", .str request.referenceId),
      ("notes", .obj (request.notes.map fun n => (n.1, .str n.2)))] }

def createPaymentLink (request : PaymentLinkRequest) (draw : ℕ) (s : State) :
    Except PyError PaymentLinkResult × State :=
  match tick s with
  | (.error e, s) => (.error e, s)
  | (.ok (), s) =>
    if request.referenceId ∈ s.links.map Prod.fst then
      (.error (.duplicateReference request.referenceId), s)
    else
      (.ok (newLink request draw),
        { s with links := Dict.set s.links request.referenceId (newLink request draw) })

def getPaymentLinkByReference (reference : String) (s : State) :
    Except PyError (Option PaymentLinkResult) × State :=
  match tick s with
  | (.error e, s) => (.error e, s)
  | (.ok (), s) => (.ok ((s.links.lookup reference).map fun l => { l with wasExisting := true }), s)

inductive Op where
  | create (request : PaymentLinkRequest) (draw : ℕ)
  | lookup (reference : String)
  | inject (kind : String) (count : ℤ)
  | clear

inductive Answer where
  | created (r : Except PyError PaymentLinkResult)
  | found (r : Except PyError (Option PaymentLinkResult))
  | done

def step (op : Op) (s : State) : Answer × State :=
  match op with
  | .create request draw =>
    (.created (createPaymentLink request draw s).1, (createPaymentLink request draw s).2)
  | .lookup reference =>
    (.found (getPaymentLinkByReference reference s).1, (getPaymentLinkByReference reference s).2)
  | .inject kind count => (.done, { s with fault := some { kind, remaining := count } })
  | .clear => (.done, { s with fault := none })

def run : List Op → State → List Answer × State
  | [], s => ([], s)
  | op :: ops, s => ((step op s).1 :: (run ops (step op s).2).1, (run ops (step op s).2).2)

/-! ## The world's provider -/

/-- The same operation at the world's provider. -/
def worldStep (op : Op) (f : Fate) (w : World) : Answer × World :=
  match op with
  | .create request _ => (.created (w.create f request).1, (w.create f request).2)
  | .lookup reference => (.found (w.lookup f reference), w)
  | .inject _ _ | .clear => (.done, w)

def worldRun : List (Op × Fate) → World → List Answer × World
  | [], w => ([], w)
  | (op, f) :: ops, w =>
    ((worldStep op f w).1 :: (worldRun ops (worldStep op f w).2).1,
      (worldRun ops (worldStep op f w).2).2)

/-! ## The mock is a provider of the world -/

/-- A link without the payload it came in, which the world leaves to the provider. -/
def bare (l : PaymentLinkResult) : PaymentLinkResult := { l with raw := .obj [] }

/-- Two answers that differ in payloads at most. -/
def Answer.Alike : Answer → Answer → Prop
  | created r, created r' => r.map bare = r'.map bare
  | found r, found r' => r.map (Option.map bare) = r'.map (Option.map bare)
  | done, done => True
  | _, _ => False

/-- A fault that the code injects. -/
def Op.Known : Op → Prop
  | inject kind _ => kind = "TIMEOUT" ∨ kind = "SERVER_ERROR" ∨ kind = "BAD_REQUEST"
  | _ => True

/-- The mock holds the links of the world, each once and under its reference, and its fault is one of
the three. -/
structure Related (s : State) (w : World) : Prop where
  links : s.links.map (fun e => bare e.2) = w.links.map bare
  different : (s.links.map Prod.fst).Nodup
  reference : ∀ e ∈ s.links, e.2.referenceId = e.1
  fault : ∀ f ∈ s.fault, f.kind = "TIMEOUT" ∨ f.kind = "SERVER_ERROR" ∨ f.kind = "BAD_REQUEST"

/-! ## One operation -/

/-- A tick keeps the links; it raises what a provider raises that did nothing. -/
theorem tick_spec {s : State} {w : World} (h : Related s w) :
    Related (tick s).2 w ∧ (tick s).2.links = s.links ∧
      ((tick s).1 = .ok () ∨ (∃ m, (tick s).1 = .error (.providerRetryable m)) ∨
        ∃ m, (tick s).1 = .error (.providerPermanent m)) := by
  unfold tick
  dsimp only
  split
  · exact ⟨⟨h.links, h.different, h.reference, h.fault⟩, rfl, .inl rfl⟩
  · next f hf =>
    split
    · exact ⟨⟨h.links, h.different, h.reference, h.fault⟩, rfl, .inl rfl⟩
    · refine ⟨⟨h.links, h.different, h.reference, fun g hg => ?_⟩, rfl, .inr ?_⟩
      · dsimp only at hg
        split at hg
        · cases hg
        · obtain rfl := Option.some.inj hg
          exact h.fault f hf
      · unfold Fault.raised
        -- a fault is one of the three kinds, which raise one of two errors
        rcases h.fault f hf with hkind | hkind | hkind
        · exact .inl ⟨_, by rw [hkind]; rfl⟩
        · exact .inl ⟨_, by rw [hkind]; rfl⟩
        · exact .inr ⟨_, by rw [hkind]; rfl⟩

/-- What the mock holds under a reference is what the world's provider holds. -/
theorem lookup_alike {s : State} {w : World} (h : Related s w) (reference : String) :
    (s.links.lookup reference).map bare = (w.linkOf reference).map bare := by
  -- on the two lists together, entry by entry
  have hlists : ∀ {links : List (String × PaymentLinkResult)} {held : List PaymentLinkResult},
      links.map (fun e => bare e.2) = held.map bare → (∀ e ∈ links, e.2.referenceId = e.1) →
        (links.lookup reference).map bare =
          (held.find? fun l => l.referenceId = reference).map bare := by
    intro links
    induction links with
    | nil =>
      intro held hsame _
      obtain rfl := List.map_eq_nil_iff.mp hsame.symm
      rfl
    | cons e links ih =>
      intro held hsame href
      obtain ⟨l, held, rfl⟩ : ∃ l rest, held = l :: rest := by
        cases held with
        | nil => cases hsame
        | cons l rest => exact ⟨l, rest, rfl⟩
      obtain ⟨hhead, htail⟩ := List.cons.inj hsame
      have hsame : (bare e.2).referenceId = (bare l).referenceId :=
        congrArg PaymentLinkResult.referenceId hhead
      have hreference : e.1 = l.referenceId := (href e List.mem_cons_self).symm.trans hsame
      rw [List.lookup_cons, List.find?_cons]
      by_cases hkey : reference = e.1
      · rw [beq_iff_eq.mpr hkey, decide_eq_true (hreference ▸ hkey.symm)]
        exact congrArg some hhead
      · rw [beq_eq_false_iff_ne.mpr hkey,
          decide_eq_false fun hl => hkey (hl.symm.trans hreference.symm)]
        exact ih htail fun f hf => href f (List.mem_cons_of_mem e hf)
  exact hlists h.links h.reference

/-- A request, its link created unless there is one, or lost before the provider did anything. -/
theorem create_related {s : State} {w : World} (h : Related s w) (request : PaymentLinkRequest)
    (draw : ℕ) :
    ∃ f : Fate, (createPaymentLink request draw s).1.map bare = (w.create f request).1.map bare ∧
      Related (createPaymentLink request draw s).2 (w.create f request).2 := by
  obtain ⟨hticked, hlinks, hraised⟩ := tick_spec h
  unfold createPaymentLink
  obtain ⟨answer, after, hafter⟩ : ∃ answer after, tick s = (answer, after) := ⟨_, _, rfl⟩
  rw [hafter] at hticked hlinks hraised ⊢
  dsimp only at hticked hlinks hraised
  rcases hraised with rfl | ⟨m, rfl⟩ | ⟨m, rfl⟩
  · dsimp only
    have hheld := lookup_alike hticked request.referenceId
    -- the reference has a link already, on both sides or on neither
    by_cases hmem : request.referenceId ∈ after.links.map Prod.fst
    · rw [if_pos hmem]
      have hsome : (w.linkOf request.referenceId).isSome := by
        cases hnone : w.linkOf request.referenceId with
        | some l => rfl
        | none =>
          rw [hnone] at hheld
          exact absurd hmem (Dict.lookup_eq_none.mp (Option.map_eq_none_iff.mp hheld))
      refine ⟨{ create := .served }, ?_⟩
      unfold World.create
      dsimp only
      rw [if_pos hsome]
      exact ⟨rfl, hticked⟩
    · rw [if_neg hmem]
      have hnone : w.linkOf request.referenceId = none := by
        rw [Dict.lookup_eq_none.mpr hmem] at hheld
        exact Option.map_eq_none_iff.mp hheld.symm
      refine ⟨{ create := .served, linkId := (newLink request draw).linkId
                shortUrl := (newLink request draw).shortUrl }, ?_⟩
      unfold World.create World.register
      dsimp only
      rw [if_neg (by rw [hnone]; decide)]
      refine ⟨rfl, ?_, Dict.nodup_set hticked.different _ _, fun e he => ?_, hticked.fault⟩
      · rw [if_neg (by rw [World.newLink, hnone]; decide), Dict.set, if_neg hmem, List.map_append,
          List.map_append, hticked.links]
        rfl
      · rcases Dict.mem_set he with rfl | ⟨he, -⟩
        · rfl
        · exact hticked.reference e he
  · exact ⟨{ create := .lostBefore m }, rfl, hticked⟩
  · exact ⟨{ create := .refused m }, rfl, hticked⟩

/-- A lookup, answered with what is held, or lost. -/
theorem lookup_related {s : State} {w : World} (h : Related s w) (reference : String) :
    ∃ f : Fate, (getPaymentLinkByReference reference s).1.map (Option.map bare) =
        (w.lookup f reference).map (Option.map bare) ∧
      Related (getPaymentLinkByReference reference s).2 w := by
  obtain ⟨hticked, hlinks, hraised⟩ := tick_spec h
  unfold getPaymentLinkByReference
  obtain ⟨answer, after, hafter⟩ : ∃ answer after, tick s = (answer, after) := ⟨_, _, rfl⟩
  rw [hafter] at hticked hlinks hraised ⊢
  dsimp only at hticked hlinks hraised
  rcases hraised with rfl | ⟨m, rfl⟩ | ⟨m, rfl⟩
  · dsimp only
    have hheld := lookup_alike hticked reference
    cases hfound : after.links.lookup reference with
    | none =>
      rw [hfound] at hheld
      refine ⟨{ lookup := .served "" (.obj []) }, ?_, hticked⟩
      rw [World.lookup, Option.map_eq_none_iff.mp hheld.symm]
      rfl
    -- the World answers with the status and the payload the mock has
    | some l =>
      rw [hfound] at hheld
      obtain ⟨l', hl', hsame⟩ := Option.map_eq_some_iff.mp hheld.symm
      refine ⟨{ lookup := .served l.status l.raw }, ?_, hticked⟩
      rw [World.lookup, hl']
      simp only [bare, PaymentLinkResult.mk.injEq] at hsame
      obtain ⟨hid, hurl, href, hamount, -⟩ := hsame
      simp only [Option.map_some, Except.map, bare, hid, hurl, href, hamount]
  · exact ⟨{ lookup := .lost m }, rfl, hticked⟩
  · exact ⟨{ lookup := .refused m }, rfl, hticked⟩

/-- One operation of the mock is one of the world's provider, under some fate. -/
theorem step_related {s : State} {w : World} (h : Related s w) {op : Op} (hop : op.Known) :
    ∃ f : Fate, (step op s).1.Alike (worldStep op f w).1 ∧
      Related (step op s).2 (worldStep op f w).2 := by
  cases op with
  | create request draw => exact create_related h request draw
  | lookup reference => exact lookup_related h reference
  | inject kind count =>
    refine ⟨{}, trivial, h.links, h.different, h.reference, fun f hf => ?_⟩
    obtain rfl := Option.some.inj hf
    exact hop
  | clear => exact ⟨{}, trivial, h.links, h.different, h.reference, by rintro _ ⟨⟩⟩

/-! ## Every sequence of operations -/

/-- The answers of two runs, one by one. -/
theorem run_related {ops : List Op} (hops : ∀ op ∈ ops, op.Known) {s : State} {w : World}
    (h : Related s w) :
    ∃ fates : List Fate, fates.length = ops.length ∧
      List.Forall₂ Answer.Alike (run ops s).1 (worldRun (ops.zip fates) w).1 ∧
      Related (run ops s).2 (worldRun (ops.zip fates) w).2 := by
  induction ops generalizing s w with
  | nil => exact ⟨[], rfl, .nil, h⟩
  | cons op ops ih =>
    obtain ⟨f, halike, hnext⟩ := step_related h (hops op List.mem_cons_self)
    obtain ⟨fates, hlength, hanswers, hlast⟩ :=
      ih (fun o ho => hops o (List.mem_cons_of_mem op ho)) hnext
    exact ⟨f :: fates, congrArg (· + 1) hlength, .cons halike hanswers, hlast⟩

/-- A link that the mock holds stays as it is, and no operation puts another under its reference. -/
theorem prefix_step (op : Op) (s : State) : s.links <+: (step op s).2.links := by
  have htick : (tick s).2.links = s.links := by
    unfold tick
    dsimp only
    split
    · rfl
    · split <;> rfl
  obtain ⟨answer, after, hafter⟩ : ∃ answer after, tick s = (answer, after) := ⟨_, _, rfl⟩
  rw [hafter] at htick
  dsimp only at htick
  cases op with
  | create request draw =>
    unfold step createPaymentLink
    dsimp only
    rw [hafter, ← htick]
    cases answer with
    | error e => exact List.prefix_refl _
    | ok u =>
      dsimp only
      split
      · exact List.prefix_refl _
      · next hnew =>
        rw [Dict.set, if_neg hnew]
        exact List.prefix_append _ _
  | lookup reference =>
    unfold step getPaymentLinkByReference
    dsimp only
    rw [hafter, ← htick]
    cases answer <;> exact List.prefix_refl _
  | inject kind count => exact List.prefix_refl _
  | clear => exact List.prefix_refl _

theorem prefix_run (ops : List Op) (s : State) : s.links <+: (run ops s).2.links := by
  induction ops generalizing s with
  | nil => exact List.prefix_refl _
  | cons op ops ih => exact (prefix_step op s).trans (ih _)

theorem run_append (ops more : List Op) (s : State) :
    (run (ops ++ more) s).2 = (run more (run ops s).2).2 := by
  induction ops generalizing s with
  | nil => rfl
  | cons op ops ih => exact ih _

/-- **The mock is a provider of the world.** Whatever links are asked of it and whatever faults are
injected between, its answers are those of the world's provider under some fates, payloads apart. It
never holds two links under one reference, and never replaces one. -/
theorem mock_refines {ops : List Op} (hops : ∀ op ∈ ops, op.Known) {w : World} (hw : w.links = []) :
    (∃ fates : List Fate, fates.length = ops.length ∧
      List.Forall₂ Answer.Alike (run ops {}).1 (worldRun (ops.zip fates) w).1) ∧
    ((run ops {}).2.links.map Prod.fst).Nodup ∧
    ∀ more, (run ops {}).2.links <+: (run (ops ++ more) {}).2.links := by
  have hstart : Related {} w :=
    ⟨by rw [hw]; rfl, List.nodup_nil, by simp, by rintro _ ⟨⟩⟩
  obtain ⟨fates, hlength, hanswers, hlast⟩ := run_related hops hstart
  refine ⟨⟨fates, hlength, hanswers⟩, hlast.different, fun more => ?_⟩
  rw [run_append]
  exact prefix_run more _

/-! ## A call that times out -/

def oneRupee : PaymentLinkRequest where
  amountPaise := 100
  referenceId := "rvp_rc-1_a1"
  description := "RevPilot recovery"
  customerName := "Asha"
  amount_pos := by decide
  reference_ne := by decide

/-- An attempt that timed out, one that creates the link and one that finds it there. -/
def threeAttempts : List Op :=
  [.inject "TIMEOUT" 1, .create oneRupee 7, .create oneRupee 8, .create oneRupee 9]

theorem mock_refines_timedOut :
    ∃ fates : List Fate, fates.length = 4 ∧ ((run threeAttempts {}).1).Forall₂ Answer.Alike
      (worldRun (threeAttempts.zip fates)
        { db := ⟨{}, Tables.valid_empty⟩, clock := { utc := 0 }, fate := fun _ => {} }).1 := by
  obtain ⟨⟨fates, hlength, hanswers⟩, -⟩ := @mock_refines threeAttempts (fun op hop => by
    simp only [threeAttempts, List.mem_cons, List.not_mem_nil, or_false] at hop
    rcases hop with rfl | rfl | rfl | rfl
    · exact .inl rfl
    · trivial
    · trivial
    · trivial) { db := ⟨{}, Tables.valid_empty⟩, clock := { utc := 0 }, fate := fun _ => {} } rfl
  exact ⟨fates, hlength, hanswers⟩

end MockProvider

end AegisMerchant
