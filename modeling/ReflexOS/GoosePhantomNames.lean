import ReflexOS.GoosePhantomRuns

set_option autoImplicit false

/-!
# Whether two names on peers lead to one cell

The coordinates of phantoms come from a counter of which sixteen bits are used, and a lookup
registers its name also where it finds a cell already.
-/
namespace ReflexOS.Goose
open VmTernary Runs
open Kv hiding Entry

/-- The registry that an allocation registers its name in. -/
def registeringIn (F : Fabric) (coord : Tryte9) : Option Registry :=
  match getCellByCoord F coord with
  | some _ => some F.registry
  | none => (claimSlot F).map fun claimed => claimed.2.registry

/-- No two names on peers that resolve lead to one cell. -/
def PhantomsDistinct (F : Fabric) : Prop :=
  ∀ name name' v, nsPeer.isPrefixOf name → nsPeer.isPrefixOf name' →
    (gooniesResolve F.registry name).bind (getCellByCoord F) = some v →
    (gooniesResolve F.registry name').bind (getCellByCoord F) = some v → name = name'

/-- No two names on peers are registered at one coordinate. -/
def Parted (reg : Registry) : Prop :=
  ∀ name name' c, nsPeer.isPrefixOf name → nsPeer.isPrefixOf name' → Registered reg name c →
    Registered reg name' c → name = name'

/-- A lookup registers its name where another name on a peer is registered. -/
def PhantomClash (atlas : Atlas) (s : Fabric × Mesh) : PhantomOp → Prop
  | .resolve lock _ name =>
    nsPeer.isPrefixOf name ∧ gooniesResolve s.1.registry name = none ∧
      ¬ Refused atlas lock s.1 false ∧
      ∃ reg,
        registeringIn (heapPressure atlas lock s.1).2 (ghostCoord s.2.ghostCounter) = some reg ∧
        ¬ Refuses atlas reg name (ghostCoord s.2.ghostCounter) false ∧
        ∃ name', nsPeer.isPrefixOf name' ∧ Registered reg name' (ghostCoord s.2.ghostCounter)
  | _ => False

section Registering
variable {atlas : Atlas} {F : Fabric} {S : Set ℕ} {name : CName} {coord : Tryte9} {sys ret : Bool}
  {reg : Registry}

theorem allocLocked_registry :
    (allocLocked atlas true F (some name) coord sys ret).2.registry =
      match registeringIn F coord with
      | none => F.registry
      | some reg => (gooniesRegister atlas reg name coord sys).2 := by
  unfold allocLocked registeringIn
  rw [if_neg (by simp)]
  cases getCellByCoord F coord with
  | some e => rfl
  | none =>
    cases claimSlot F with
    | none => rfl
    | some claimed =>
      dsimp only [Option.map_some]
      split <;> rfl

theorem TablesSound.registeringIn_names (h : TablesSound F S)
    (hreg : registeringIn F coord = some reg) : NamesIndexed reg ∧
      ∀ name c, Registered reg name c → Registered F.registry name c := by
  unfold registeringIn at hreg
  split at hreg
  · cases hreg
    exact ⟨h.names, fun _ _ hr => hr⟩
  · obtain ⟨⟨idx, F'⟩, hclaim, rfl⟩ := Option.map_eq_some_iff.mp hreg
    obtain ⟨S', -, hF', -, -, -, hnames, -⟩ := h.claim_names hclaim
    exact ⟨hF'.names, hnames.old⟩

theorem TablesSound.registeringIn_new (h : TablesSound F S)
    (hreg : registeringIn F coord = some reg) (hnew : gooniesResolve F.registry name = none) :
    gooniesResolve reg name = none := by
  obtain ⟨hnames, hold⟩ := h.registeringIn_names hreg
  exact h.names.unresolved hnames hnew (hold name)

theorem TablesSound.registeringIn_finds (h : TablesSound F S)
    (hreg : registeringIn F coord = some reg) (hok : ¬ Refuses atlas reg name coord sys) :
    ∃ v, getCellByCoord (Goose.allocLocked atlas true F (some name) coord sys false).2 coord =
      some v := by
  cases hget : getCellByCoord F coord with
  | some e =>
    refine ⟨e, ?_⟩
    unfold Goose.allocLocked
    rw [if_neg (by simp), hget]
    exact hget
  | none =>
    unfold registeringIn at hreg
    rw [hget] at hreg
    obtain ⟨⟨idx, F'⟩, hclaim, rfl⟩ := Option.map_eq_some_iff.mp hreg
    refine ⟨idx, h.allocLocked_found ?_⟩
    unfold Goose.allocLocked
    rw [if_neg (by simp), hget]
    dsimp only
    rw [hclaim]
    dsimp only
    have hok' : ¬ (gooniesRegister atlas F'.registry name coord sys).1 ≠ Err.ok := hok
    rw [if_neg hok']

end Registering

section Lookup
variable {atlas : Atlas} {hmac : List UInt8 → List UInt8} {lock : Bool} {now : ℕ} {F : Fabric}
  {M : Mesh} {name : CName}

theorem fabricAllocCell_refused (h : Refused atlas lock F false) (name : CName) (coord : Tryte9) :
    (fabricAllocCell atlas lock F (some name) coord false).2 = (heapPressure atlas lock F).2 := by
  unfold fabricAllocCell fabricAllocInternal
  simp only [Bool.false_eq_true, if_false]
  split
  · rfl
  next hfree =>
    obtain rfl := h.resolve_right fun hp => hfree hp.2
    rfl

theorem fabricAllocCell_free (h : ¬ Refused atlas lock F false) (name : CName) (coord : Tryte9) :
    fabricAllocCell atlas lock F (some name) coord false =
      allocLocked atlas true (heapPressure atlas lock F).2 (some name) coord false false := by
  simp only [Refused, true_and, not_or, Bool.not_eq_false] at h
  obtain ⟨rfl, hfree⟩ := h
  unfold fabricAllocCell fabricAllocInternal
  simp only [Bool.false_eq_true, if_false]
  rw [if_neg hfree]

theorem lookup_phantom (hnew : gooniesResolve F.registry name = none)
    (hpeer : nsPeer.isPrefixOf name) :
    (gooniesResolveCell atlas hmac lock now F M name).2.1.registry =
        (fabricAllocCell atlas lock F (some name) (ghostCoord M.ghostCounter) false).2.registry ∧
      ∀ c, getCellByCoord (gooniesResolveCell atlas hmac lock now F M name).2.1 c =
        getCellByCoord
          (fabricAllocCell atlas lock F (some name) (ghostCoord M.ghostCounter) false).2 c := by
  unfold gooniesResolveCell
  rw [hnew, hpeer, if_pos (by decide)]
  unfold resolvePeer
  dsimp only
  rw [atmosphereQuery_ghostCounter]
  generalize fabricAllocCell atlas lock F (some name) (ghostCoord M.ghostCounter) false = got
  split
  · refine ⟨rfl, fun c => @getCellByCoord_recoat got.2 _ (fun w => ?_) c⟩
    apply update_coord
    rfl
  · exact ⟨rfl, fun _ => rfl⟩

end Lookup

section Parts
variable {F F' : Fabric} {reg reg' : Registry} {atlas : Atlas} {hmac : List UInt8 → List UInt8}

theorem Parted.of_names (h : Parted reg) (hnames : ∀ name c, nsPeer.isPrefixOf name →
    Registered reg' name c → Registered reg name c) : Parted reg' :=
  fun name name' c hpeer hpeer' hr hr' =>
    h name name' c hpeer hpeer' (hnames name c hpeer hr) (hnames name' c hpeer' hr')

theorem Parted.rewoven (h : Parted F.registry) (hwoven : Rewoven none F F') : Parted F'.registry :=
  h.of_names fun name c hpeer hr => (hwoven.names name c hpeer hr).resolve_right nofun

/-- A name that is registered where no other on a peer is leaves them apart. -/
theorem Parted.register (h : Parted reg) (hreg : NamesIndexed reg) {name : CName}
    (hnew : gooniesResolve reg name = none) {coord : Tryte9} {sys : Bool}
    (hfree : ¬ Refuses atlas reg name coord sys →
      ∀ name', nsPeer.isPrefixOf name' → ¬ Registered reg name' coord) :
    Parted (gooniesRegister atlas reg name coord sys).2 := by
  by_cases hok : Refuses atlas reg name coord sys
  · rwa [gooniesRegister_fail _ _ _ _ _ hok]
  intro name₁ name₂ c hpeer₁ hpeer₂ hr₁ hr₂
  have hold : ∀ name', nsPeer.isPrefixOf name' →
      Registered (gooniesRegister atlas reg name coord sys).2 name' c →
      Registered reg name' c ∨ name' = name ∧ c = coord := fun name' hpeer hr =>
    (hreg.registered_peer (fun _ => hnew) hpeer).2 hr
  rcases hold name₁ hpeer₁ hr₁ with h₁ | ⟨rfl, rfl⟩
  · rcases hold name₂ hpeer₂ hr₂ with h₂ | ⟨rfl, rfl⟩
    · exact h name₁ name₂ c hpeer₁ hpeer₂ h₁ h₂
    · exact absurd h₁ (hfree hok name₁ hpeer₁)
  · rcases hold name₂ hpeer₂ hr₂ with h₂ | ⟨rfl, -⟩
    · exact absurd h₂ (hfree hok name₂ hpeer₂)
    · rfl

theorem Parted.distinct (h : Parted F.registry) (hF : Tabled F) : PhantomsDistinct F :=
  fun name name' _ hpeer hpeer' hres hres' =>
    h name name' _ hpeer hpeer' (hF.resolved hres).1 (hF.resolved hres').1

theorem Parted.lookup {M : Mesh} {name : CName} {lock : Bool} {now : ℕ} (h : Parted F.registry)
    (hF : Tabled F) (hclash : ¬ PhantomClash atlas (F, M) (.resolve lock now name)) :
    Parted (gooniesResolveCell atlas hmac lock now F M name).2.1.registry := by
  by_cases hphantom : nsPeer.isPrefixOf name ∧ gooniesResolve F.registry name = none
  · obtain ⟨hpeer, hnew⟩ := hphantom
    have hseen := hF.rewoven_heapPressure atlas lock
    obtain ⟨S, hS⟩ : Tabled (heapPressure atlas lock F).2 :=
      hF.resolveCell atlas lock heapPressureName
    rw [(lookup_phantom hnew hpeer).1]
    by_cases hrefused : Refused atlas lock F false
    · rw [fabricAllocCell_refused hrefused]
      exact h.rewoven hseen
    · rw [fabricAllocCell_free hrefused, allocLocked_registry]
      cases hreg : registeringIn (heapPressure atlas lock F).2 (ghostCoord M.ghostCounter) with
      | none => exact h.rewoven hseen
      | some reg =>
        obtain ⟨hnames, hold⟩ := hS.registeringIn_names hreg
        have hnew' := hS.registeringIn_new hreg (hseen.unresolved hF ⟨S, hS⟩ hpeer hnew)
        refine Parted.register ((h.rewoven hseen).of_names fun name c _ => hold name c) hnames hnew'
          fun hok name' hpeer' hr => hclash ?_
        exact ⟨hpeer, hnew, hrefused, reg, hreg, hok, name', hpeer', hr⟩
  · refine h.rewoven (hF.rewoven_known atlas hmac lock now M fun hpeer hres => ?_)
    exact hphantom ⟨hpeer, hres⟩

/-- Behind a clash two names lead to one cell. -/
theorem PhantomClash.meets {M : Mesh} {name : CName} {lock : Bool} {now : ℕ} (hF : Tabled F)
    (hclash : PhantomClash atlas (F, M) (.resolve lock now name)) :
    ¬ PhantomsDistinct (gooniesResolveCell atlas hmac lock now F M name).2.1 := by
  obtain ⟨hpeer, hnew, hrefused, reg, hreg, hok, name', hpeer', hr⟩ := hclash
  have hseen := hF.rewoven_heapPressure atlas lock
  obtain ⟨S, hS⟩ : Tabled (heapPressure atlas lock F).2 :=
    hF.resolveCell atlas lock heapPressureName
  obtain ⟨hnames, hold⟩ := hS.registeringIn_names hreg
  obtain ⟨v, hv⟩ := hS.registeringIn_finds hreg hok
  have hnew' := hS.registeringIn_new hreg (hseen.unresolved hF ⟨S, hS⟩ hpeer hnew)
  have hne : name' ≠ name := by
    rintro rfl
    rw [← hnames.resolve_iff, hnew'] at hr
    cases hr
  obtain ⟨hregistry, hget⟩ := @lookup_phantom atlas hmac lock now F M name hnew hpeer
  rw [fabricAllocCell_free hrefused] at hregistry hget
  rw [allocLocked_registry, hreg] at hregistry
  rw [← hget] at hv
  intro hdistinct
  refine hne (hdistinct name' name v hpeer' hpeer ?_ ?_)
  · rw [hregistry, hnames.resolve_register_other hnew' hne, (hnames.resolve_iff _ _).mpr hr]
    exact hv
  · rw [hregistry, hnames.resolve_register hnew' (not_not.mp hok)]
    exact hv

end Parts

section Run
variable {atlas : Atlas} {hmac : List UInt8 → List UInt8} {s s' : Fabric × Mesh} {op : PhantomOp}

theorem PhantomStep.parted (hs : PhantomStep atlas hmac s op s') (hF : Tabled s.1)
    (h : Parted s.1.registry) (hclash : ¬ PhantomClash atlas s op) : Parted s'.1.registry := by
  cases hs with
  | arc F M now mac nameHash state =>
    obtain hsame | ⟨v, -, hset, -⟩ := mmioSyncRecv_cases hF now M mac nameHash state
    · rwa [hsame]
    · rw [hset]
      exact h
  | addPeer => exact h
  | resolve F M lock now name => exact h.lookup hF hclash
  | alloc F M lock name coord sys ret hname =>
    exact h.rewoven (hF.rewoven_unnamed atlas lock hname coord sys ret)
  | staleness F M now =>
    rw [(stalenessCheck_hushed now F M).same.registry]
    exact h
  | warmBoot F M purpose store =>
    exact fun name name' c hpeer _ hr _ =>
      absurd hr (fabricInit_names purpose (.inr hF) hpeer c)

/-- A step leaves two names apart exactly if it is no clash. -/
theorem PhantomStep.distinct_iff (hs : PhantomStep atlas hmac s op s') (hF : Tabled s.1)
    (h : Parted s.1.registry) : PhantomsDistinct s'.1 ↔ ¬ PhantomClash atlas s op := by
  constructor
  · intro hdistinct hclash
    cases hs with
    | resolve F M lock now name => exact hclash.meets hF hdistinct
    | arc => exact hclash
    | addPeer => exact hclash
    | alloc => exact hclash
    | staleness => exact hclash
    | warmBoot => exact hclash
  · intro hclash
    exact (hs.parted hF h hclash).distinct (hs.tabled hF)

theorem coldBoard_parted (atlas : Atlas) (purpose : Bool) (F₀ : Fabric) (store : Store) :
    Tabled (coldBoard atlas purpose F₀ store).1 ∧
      Parted (coldBoard atlas purpose F₀ store).1.registry :=
  ⟨fabricInit_tabled atlas true purpose (.inl rfl), fun _ _ c hpeer _ hr _ =>
    absurd hr (fabricInit_names purpose (.inl rfl) hpeer c)⟩

/-- Two names on peers never lead to one cell exactly in the runs without a clash. -/
theorem phantoms_distinct_iff (atlas : Atlas) (hmac : List UInt8 → List UInt8) (purpose : Bool)
    (F₀ : Fabric) (store : Store) (ops : List PhantomOp) (s : Fabric × Mesh) :
    PhantomsDistinct (coldBoard atlas purpose F₀ store).1 ∧
      (Always (PhantomStep atlas hmac) (fun _ _ s' => PhantomsDistinct s'.1)
          (coldBoard atlas purpose F₀ store) ops s ↔
        Always (PhantomStep atlas hmac) (fun s op _ => ¬ PhantomClash atlas s op)
          (coldBoard atlas purpose F₀ store) ops s) := by
  obtain ⟨hF, hparted⟩ := coldBoard_parted atlas purpose F₀ store
  refine ⟨hparted.distinct hF, ?_⟩
  apply Always.iff_of_kept fun s => Tabled s.1 ∧ Parted s.1.registry
  · intro s op s' h hs hclash
    exact ⟨hs.tabled h.1, hs.parted h.1 h.2 hclash⟩
  · intro s op s' h hs
    exact hs.distinct_iff h.1 h.2
  · exact ⟨hF, hparted⟩

end Run

section Wrapped

def firstPhantom : CName := ascii "peer.a.led"
def otherPhantom : CName := ascii "peer.b.led"

/-- Behind a cold boot, with one phantom. -/
def phantomBoard : Fabric × Mesh :=
  (gooniesResolveCell emptyAtlas (fun _ => []) true 0 coldFabric noPeers firstPhantom).2

theorem phantomBoard_holds : phantomBoard.2.ghostCounter = 1 ∧
    gooniesResolve phantomBoard.1.registry otherPhantom = none ∧
    registeringIn phantomBoard.1 (ghostCoord 0) = some phantomBoard.1.registry ∧
    gooniesResolve phantomBoard.1.registry firstPhantom = some (ghostCoord 0) := by
  refine ⟨?_, ?_, ?_, ?_⟩
  · decide +kernel
  · decide +kernel
  · have hget : getCellByCoord phantomBoard.1 (ghostCoord 0) = some 2 := by decide +kernel
    rw [registeringIn, hget]
  · decide +kernel

/-- A lookup that finds the loom taken uses up a coordinate and leaves the fabric alone. -/
theorem lookup_locked {F : Fabric} {name : CName} (hnew : gooniesResolve F.registry name = none)
    (hpeer : nsPeer.isPrefixOf name) (now : ℕ) (M : Mesh) : ∃ M',
      gooniesResolveCell emptyAtlas (fun _ => []) false now F M name = (none, F, M') ∧
        M'.ghostCounter = M.ghostCounter + 1 := by
  have hrefused : Refused emptyAtlas false F false := .inl rfl
  unfold gooniesResolveCell
  rw [hnew, hpeer, if_pos (by decide)]
  unfold resolvePeer fabricAllocCell
  dsimp only
  rw [fabricAllocInternal_refused rfl hrefused]
  exact ⟨_, rfl, congrArg (· + 1) atmosphereQuery_ghostCounter⟩

theorem lookups_locked {F : Fabric} {name : CName} (hnew : gooniesResolve F.registry name = none)
    (hpeer : nsPeer.isPrefixOf name) (n : ℕ) (M : Mesh) : ∃ ops M',
      Run (PhantomStep emptyAtlas fun _ => []) (F, M) ops (F, M') ∧
        M'.ghostCounter = M.ghostCounter + n := by
  induction n generalizing M with
  | zero => exact ⟨[], M, .nil _, rfl⟩
  | succ n ih =>
    obtain ⟨M₁, hgot, hcounter⟩ := lookup_locked hnew hpeer 0 M
    obtain ⟨ops, M', hrun, hcounter'⟩ := ih M₁
    have hstep : PhantomStep emptyAtlas (fun _ => []) (F, M) (.resolve false 0 name) (F, M₁) := by
      have hstep := @PhantomStep.resolve emptyAtlas (fun _ => []) F M false 0 name
      rwa [hgot] at hstep
    exact ⟨_, M', .cons hstep hrun, by omega⟩

theorem ghostCoord_wraps : ghostCoord 65536 = ghostCoord 0 := by
  funext i
  simp [ghostCoord]

/-- The lookup after 65535 that met a taken loom gives a second name to the first phantom. -/
theorem phantom_named_twice : ¬ ∀ (atlas : Atlas) (hmac : List UInt8 → List UInt8) (purpose : Bool)
    (F₀ : Fabric) (store : Store) (ops : List PhantomOp) (s : Fabric × Mesh),
    Run (PhantomStep atlas hmac) (coldBoard atlas purpose F₀ store) ops s →
      PhantomsDistinct s.1 := by
  intro hall
  obtain ⟨hcounter, hnew, hregistering, hfirst⟩ := phantomBoard_holds
  have hfirstStep : PhantomStep emptyAtlas (fun _ => []) (coldFabric, noPeers)
      (.resolve true 0 firstPhantom) phantomBoard := .resolve _ _ _ _ _
  have hpeer : nsPeer.isPrefixOf otherPhantom := by decide
  obtain ⟨ops, M, hrun, hcounter'⟩ := lookups_locked hnew hpeer 65535 phantomBoard.2
  have hall' := hall emptyAtlas (fun _ => []) false blankFabric freshStore
  rw [coldBoard_fresh] at hall'
  have htabled : Tabled phantomBoard.1 :=
    hfirstStep.tabled (fabricInit_tabled emptyAtlas true false (.inl rfl))
  have hnext : ghostCoord M.ghostCounter = ghostCoord 0 := by
    rw [hcounter', hcounter]
    exact ghostCoord_wraps
  have hpressure : heapPressure emptyAtlas true phantomBoard.1 = (false, phantomBoard.1) :=
    Prod.ext (by decide +kernel) (heapPressure_fabric rfl true phantomBoard.1)
  have hclash : PhantomClash emptyAtlas (phantomBoard.1, M) (.resolve true 0 otherPhantom) := by
    refine ⟨hpeer, hnew, ?_, phantomBoard.1.registry, ?_, ?_, firstPhantom, by decide, ?_⟩
    · rw [Refused, hpressure]
      simp
    · rw [hpressure, hnext]
      exact hregistering
    · rw [hnext]
      have hok : (gooniesRegister emptyAtlas phantomBoard.1.registry otherPhantom (ghostCoord 0)
          false).1 = Err.ok := by decide +kernel
      exact not_not.mpr hok
    · rw [hnext]
      obtain ⟨S, hS⟩ := htabled
      exact (hS.names.resolve_iff _ _).mp hfirst
  have hlast : PhantomStep emptyAtlas (fun _ => []) (phantomBoard.1, M)
      (.resolve true 0 otherPhantom)
      (gooniesResolveCell emptyAtlas (fun _ => []) true 0 phantomBoard.1 M otherPhantom).2 :=
    .resolve _ _ _ _ _
  exact hclash.meets htabled (hall' _ _ (.cons hfirstStep (hrun.append (.single hlast))))

end Wrapped

end ReflexOS.Goose
