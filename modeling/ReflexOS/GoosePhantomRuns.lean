import ReflexOS.GoosePeers
import ReflexOS.GoosePhantoms

set_option autoImplicit false

/-!
# The phantoms of a board from boot to boot

What one weave does to the cells that are found by their coordinates and to the names on peers,
and the runs in which phantoms come and go.
-/
namespace ReflexOS.Goose
open VmTernary Runs
open Kv hiding Entry

/-- The fabric finds the cell at its coordinate. -/
def Live (F : Fabric) (v : ℕ) : Prop := getCellByCoord F (F.cells v).coord = some v

theorem TablesSound.live_iff {F : Fabric} {S : Set ℕ} (h : TablesSound F S) {v : ℕ} :
    Live F v ↔ v ∈ S := by
  rw [Live, h.getCell_iff, and_iff_left rfl]

/-- A cell as a weave leaves it: only a phantom has a peer. -/
def Blank (c : Cell) : Prop := c.state = 0 ∧ (c.peerId = 0 ∨ c.coord 8 = -1)

/-- What weaving does: cells stay with their names on peers, go, or are blank, and no other name on
a peer is new than `added`. -/
structure Rewoven (added : Option CName) (F F' : Fabric) : Prop where
  live : ∀ v, Live F' v → Blank (F'.cells v) ∨ Live F v ∧ F'.cells v = F.cells v ∧
    ∀ name, nsPeer.isPrefixOf name → Registered F.registry name (F.cells v).coord →
      Registered F'.registry name (F.cells v).coord
  slots : ∀ v < F'.cellCount, Blank (F'.cells v) ∨ v < F.cellCount ∧ F'.cells v = F.cells v
  names : ∀ name coord, nsPeer.isPrefixOf name → Registered F'.registry name coord →
    Registered F.registry name coord ∨ added = some name

section Names

variable {reg : Registry} {atlas : Atlas} {name name' : CName} {coord c : Tryte9} {sys : Bool}

theorem registered_setCoord_other {idx : ℕ} (hne : name' ≠ (reg.entries idx).name) :
    Registered (registrySetCoord reg idx coord) name' c ↔ Registered reg name' c := by
  unfold registrySetCoord
  split
  · exact Iff.rfl
  split
  · exact Iff.rfl
  refine exists_congr fun i => and_congr_right fun _ => ?_
  dsimp only
  by_cases hi : i = idx
  · subst hi
    rw [Function.update_self]
    exact iff_of_false (fun he => hne (congrArg RegistryEntry.name he).symm)
      fun he => hne (congrArg RegistryEntry.name he).symm
  · rw [Function.update_of_ne hi]

theorem NamesOver.unresolved {reg' : Registry} (h : NamesIndexed reg) (h' : NamesIndexed reg')
    (hnew : gooniesResolve reg name = none)
    (hold : ∀ c, Registered reg' name c → Registered reg name c) :
    gooniesResolve reg' name = none := by
  refine Option.eq_none_iff_forall_ne_some.mpr fun c hres => ?_
  have hr := hold c ((h'.resolve_iff name c).mp hres)
  rw [← h.resolve_iff, hnew] at hr
  cases hr

theorem NamesOver.registered_other (h : NamesIndexed reg) (hne : name' ≠ name) :
    Registered (gooniesRegister atlas reg name coord sys).2 name' c ↔ Registered reg name' c := by
  cases hfind : registryFindName reg name with
  | none =>
    have hnew : gooniesResolve reg name = none := by rw [gooniesResolve, hfind, Option.map_none]
    rw [← h.resolve_iff, ← h.resolve_register_other hnew hne,
      (h.register atlas name coord sys).resolve_iff]
  | some idx =>
    have hname := ((h.find_iff name idx).mp hfind).2
    unfold gooniesRegister
    rw [hfind]
    split
    · exact Iff.rfl
    split
    · exact Iff.rfl
    dsimp only
    split
    · exact Iff.rfl
    · exact registered_setCoord_other (hname ▸ hne)

/-- Of the names on peers, registering one that is new adds at most this one. -/
theorem NamesOver.registered_peer (h : NamesIndexed reg)
    (hnew : nsPeer.isPrefixOf name → gooniesResolve reg name = none)
    (hpeer : nsPeer.isPrefixOf name') :
    (Registered reg name' c → Registered (gooniesRegister atlas reg name coord sys).2 name' c) ∧
      (Registered (gooniesRegister atlas reg name coord sys).2 name' c →
        Registered reg name' c ∨ name' = name ∧ c = coord) := by
  by_cases hname : name' = name
  · subst hname
    by_cases hok : (gooniesRegister atlas reg name' coord sys).1 = Err.ok
    · have hiff := h.registered_new (hnew hpeer) hok name' c
      exact ⟨fun hr => hiff.mpr (.inl hr), hiff.mp⟩
    · rw [gooniesRegister_fail _ _ _ _ _ hok]
      exact ⟨id, .inl⟩
  · have hiff : Registered (gooniesRegister atlas reg name coord sys).2 name' c ↔
        Registered reg name' c := h.registered_other hname
    exact ⟨hiff.mpr, fun hr => .inl (hiff.mp hr)⟩

end Names

section Weave

variable {F F' G : Fabric} {added : Option CName} {name : CName} {coord : Tryte9}

theorem Rewoven.refl (F : Fabric) : Rewoven added F F where
  live _ hv := .inr ⟨hv, rfl, fun _ _ hr => hr⟩
  slots _ hv := .inr ⟨hv, rfl⟩
  names _ _ _ hr := .inl hr

theorem Rewoven.some_added (h : Rewoven none F F') : Rewoven added F F' :=
  ⟨h.live, h.slots, fun name coord hpeer hr => .inl ((h.names name coord hpeer hr).resolve_right
    nofun)⟩

theorem Rewoven.none_added (h : Rewoven added F F')
    (hname : ∀ s, added = some s → ¬ nsPeer.isPrefixOf s) : Rewoven none F F' :=
  ⟨h.live, h.slots, fun name coord hpeer hr => .inl ((h.names name coord hpeer hr).resolve_right
    fun hadd => hname name hadd hpeer)⟩

theorem Rewoven.trans (h : Rewoven added F F') (h' : Rewoven added F' G) : Rewoven added F G where
  live v hv := by
    rcases h'.live v hv with hblank | ⟨hv', hsame', hnames'⟩
    · exact .inl hblank
    rw [hsame']
    rcases h.live v hv' with hblank | ⟨hv₀, hsame, hnames⟩
    · exact .inl hblank
    rw [hsame] at hnames' ⊢
    exact .inr ⟨hv₀, rfl, fun name hpeer hr => hnames' name hpeer (hnames name hpeer hr)⟩
  slots v hv := by
    rcases h'.slots v hv with hblank | ⟨hv', hsame'⟩
    · exact .inl hblank
    rw [hsame']
    exact h.slots v hv'
  names name coord hpeer hr := by
    rcases h'.names name coord hpeer hr with hr | hadded
    · exact h.names name coord hpeer hr
    · exact .inr hadded

/-- The names a claim leaves: none is new, and none is gone from where another cell is. -/
structure NamesClaimed (F F' : Fabric) (S : Set ℕ) : Prop where
  old : ∀ name coord, Registered F'.registry name coord → Registered F.registry name coord
  kept : ∀ v ∈ S, ∀ name, Registered F.registry name (F.cells v).coord →
    Registered F'.registry name (F.cells v).coord

theorem TablesSound.evict_names {S : Set ℕ} (h : TablesSound F S) (t : ℕ) :
    NamesClaimed F (Goose.evict F t) (S \ { v | (F.cells v).coord = (F.cells t).coord }) := by
  cases hfind : registryFindCoord F.registry (F.cells t).coord with
  | none =>
    have hregistry : (Goose.evict F t).registry = F.registry := by
      change (Goose.forgetName F (F.cells t).coord).registry = _
      rw [Goose.forgetName, hfind]
    refine ⟨fun name coord hr => ?_, fun v _ name hr => ?_⟩
    · rwa [hregistry] at hr
    · rwa [hregistry]
  | some g =>
    have hregistry : (Goose.evict F t).registry =
        (registryRemoveCoord F.registry (F.cells t).coord).2 := by
      change (Goose.forgetName F (F.cells t).coord).registry = _
      rw [Goose.forgetName, hfind]
    obtain ⟨-, hremoved⟩ := h.names.removeCoord hfind
    obtain ⟨hg, hcoord⟩ := registryFindCoord_some (Nat.zero_lt_of_lt h.names.keyed.room) hfind
    refine ⟨fun name coord hr => ?_, fun v hv name hr => ?_⟩
    · rw [hregistry] at hr
      exact ((hremoved name coord).mp hr).1
    · rw [hregistry]
      refine (hremoved name _).mpr ⟨hr, fun hname => hv.2 ?_⟩
      -- The entry that was removed is at the victim's coordinate, so the name was not its.
      obtain ⟨i, hi, hentry⟩ := hr
      have hig := h.names.name_inj hi hg ((congrArg RegistryEntry.name hentry).trans hname)
      subst hig
      exact (congrArg RegistryEntry.coord hentry).symm.trans hcoord

/-- A claimed slot, as in `TablesSound.claim`, with the names that are left. -/
theorem TablesSound.claim_names {S : Set ℕ} (h : TablesSound F S) {idx : ℕ}
    (hc : claimSlot F = some (idx, F')) : ∃ S' ⊆ S, TablesSound F' S' ∧ idx ∉ S' ∧
      idx < F'.cellCount ∧ F'.cells = F.cells ∧ NamesClaimed F F' S' ∧
      ∀ v < F'.cellCount, v ≠ idx → v < F.cellCount := by
  unfold claimSlot at hc
  split at hc
  next hroom =>
    cases hc
    refine ⟨S, subset_rfl, h.append hroom, fun hv => absurd (h.live _ hv) (lt_irrefl _),
      Nat.lt_succ_self _, rfl, ⟨fun _ _ hr => hr, fun _ _ _ hr => hr⟩, fun v hv hne => ?_⟩
    dsimp only at hv
    omega
  next hfull =>
    obtain ⟨t, ht, hpair⟩ := Option.map_eq_some_iff.mp hc
    cases hpair
    rw [evict_cellCount]
    exact ⟨_, Set.sdiff_subset, h.evict idx, fun hv => hv.2 rfl,
      lt_of_lt_of_le (findVictim_lt ht).1 (not_lt.mp hfull), evict_cells F idx, h.evict_names idx,
      fun v hv _ => hv⟩

theorem TablesSound.rewoven_evict {S : Set ℕ} (h : TablesSound F S) (t : ℕ) :
    Rewoven added F (Goose.evict F t) where
  live v hv := by
    have hnames := h.evict_names t
    rw [(h.evict t).live_iff] at hv
    exact .inr ⟨h.live_iff.mpr hv.1, by rw [evict_cells],
      fun name _ hr => hnames.kept v hv name hr⟩
  slots v hv := by
    rw [evict_cellCount] at hv
    exact .inr ⟨hv, by rw [evict_cells]⟩
  names name coord _ hr := .inl ((h.evict_names t).old name coord hr)

/-- A cell woven into a claimed slot, with a registry that has at most `added` more. -/
theorem TablesSound.rewoven_publish {S S' : Set ℕ} (h : TablesSound F S) (hsub : S' ⊆ S)
    (hF' : TablesSound F' S') {idx : ℕ} (hidx : idx ∉ S') (hlt : idx < F'.cellCount)
    (hcells : F'.cells = F.cells) (hnames : NamesClaimed F F' S')
    (hold : ∀ v < F'.cellCount, v ≠ idx → v < F.cellCount)
    (hfree : ∀ v ∈ S', (F'.cells v).coord ≠ coord) {reg : Registry} (hreg : NamesIndexed reg)
    (hkeep : ∀ name c, nsPeer.isPrefixOf name → Registered F'.registry name c →
      Registered reg name c)
    (hadd : ∀ name c, nsPeer.isPrefixOf name → Registered reg name c →
      Registered F'.registry name c ∨ added = some name) (sys : Bool) :
    Rewoven added F (Goose.publish { F' with registry := reg } idx coord sys) := by
  have hsound := (hF'.setRegistry hreg).publish hlt hidx hfree sys
  have hfresh : Blank ((Goose.publish { F' with registry := reg } idx coord sys).cells idx) := by
    change Blank (Function.update F'.cells idx (freshCell coord sys) idx)
    rw [Function.update_self]
    exact ⟨rfl, .inl rfl⟩
  have hother : ∀ v, v ≠ idx →
      (Goose.publish { F' with registry := reg } idx coord sys).cells v = F.cells v := fun v hv =>
    (Function.update_of_ne hv _ _).trans (congrFun hcells v)
  refine ⟨fun v hv => ?_, fun v hv => ?_, fun name c hpeer hr => ?_⟩
  · by_cases hvi : v = idx
    · exact .inl (hvi ▸ hfresh)
    · have hv' : v ∈ S' := (hsound.live_iff.mp hv).resolve_right hvi
      refine .inr ⟨h.live_iff.mpr (hsub hv'), hother v hvi, fun name hpeer hr => ?_⟩
      exact hkeep name _ hpeer (hnames.kept v hv' name hr)
  · by_cases hvi : v = idx
    · exact .inl (hvi ▸ hfresh)
    · exact .inr ⟨hold v hv hvi, hother v hvi⟩
  · exact (hadd name c hpeer hr).imp_left (hnames.old name c)

/-- The registry may take names that are not on peers, or one that is new. -/
theorem TablesSound.rewoven_register {S : Set ℕ} (h : TablesSound F S) (atlas : Atlas)
    (hnew : nsPeer.isPrefixOf name → gooniesResolve F.registry name = none) (coord : Tryte9)
    (sys : Bool) : Rewoven (some name) F
      { F with registry := (gooniesRegister atlas F.registry name coord sys).2 } where
  live _ hv := .inr ⟨hv, rfl, fun _ hpeer hr => (h.names.registered_peer hnew hpeer).1 hr⟩
  slots _ hv := .inr ⟨hv, rfl⟩
  names _ _ hpeer hr := ((h.names.registered_peer hnew hpeer).2 hr).imp_right fun hadd =>
    congrArg some hadd.1.symm

/-- An allocation adds its own name, where that is on a peer. -/
theorem TablesSound.rewoven_allocLocked {S : Set ℕ} (h : TablesSound F S) (atlas : Atlas)
    (lock : Bool) {name : Option CName}
    (hnew : ∀ s, name = some s → nsPeer.isPrefixOf s → gooniesResolve F.registry s = none)
    (coord : Tryte9) (sys ret : Bool) :
    Rewoven name F (Goose.allocLocked atlas lock F name coord sys ret).2 := by
  unfold Goose.allocLocked
  split
  · exact .refl F
  cases hget : getCellByCoord F coord with
  | some e =>
    cases name with
    | none => exact .refl F
    | some s => exact h.rewoven_register atlas (hnew s rfl) coord sys
  | none =>
    cases hc : claimSlot F with
    | none => exact .refl F
    | some claimed =>
      obtain ⟨idx, F'⟩ := claimed
      obtain ⟨S', hsub, hF', hidx, hlt, hcells, hnames, hold⟩ := h.claim_names hc
      have hfree := h.left_free hsub hcells hget
      cases name with
      | none =>
        exact h.rewoven_publish hsub hF' hidx hlt hcells hnames hold hfree hF'.names
          (fun _ _ _ hr => hr) (fun _ _ _ hr => .inl hr) sys
      | some s =>
        have hnew' : nsPeer.isPrefixOf s → gooniesResolve F'.registry s = none := fun hpeer =>
          h.names.unresolved hF'.names (hnew s rfl hpeer) (hnames.old s)
        dsimp only
        split
        next hfail =>
          rw [gooniesRegister_fail _ _ _ _ _ hfail]
          unfold claimSlot at hc
          split at hc
          next hroom =>
            cases hc
            rw [if_pos hroom]
            exact .refl F
          next hfull =>
            obtain ⟨t, -, hpair⟩ := Option.map_eq_some_iff.mp hc
            cases hpair
            rw [if_neg hfull]
            exact h.rewoven_evict idx
        next =>
          refine h.rewoven_publish hsub hF' hidx hlt hcells hnames hold hfree
            (hF'.names.register atlas s coord sys)
            (fun name c hpeer hr => (hF'.names.registered_peer hnew' hpeer).1 hr) ?_ sys
          intro name c hpeer hr
          exact ((hF'.names.registered_peer hnew' hpeer).2 hr).imp_right fun hadd =>
            congrArg some hadd.1.symm

/-- The cell an allocation returns is the one at its coordinate. -/
theorem TablesSound.allocLocked_found {S : Set ℕ} (h : TablesSound F S) {atlas : Atlas}
    {lock : Bool} {name : Option CName} {sys ret : Bool} {idx : ℕ}
    (hgot : (Goose.allocLocked atlas lock F name coord sys ret).1 = some idx) :
    getCellByCoord (Goose.allocLocked atlas lock F name coord sys ret).2 coord = some idx := by
  unfold Goose.allocLocked at hgot ⊢
  split at hgot
  · cases hgot
  rw [if_neg ‹_›]
  cases hget : getCellByCoord F coord with
  | some e =>
    rw [hget] at hgot
    dsimp only at hgot ⊢
    cases ret with
    | false => cases hgot
    | true =>
      cases hgot
      cases name with
      | none => exact hget
      | some s => exact hget
  | none =>
    rw [hget] at hgot
    cases hc : claimSlot F with
    | none =>
      rw [hc] at hgot
      cases hgot
    | some claimed =>
      obtain ⟨i, F'⟩ := claimed
      obtain ⟨S', hsub, hF', hidx, hlt, hcells, -, -⟩ := h.claim_names hc
      have hfree := h.left_free hsub hcells hget
      have hwoven : ∀ reg, NamesIndexed reg →
          getCellByCoord (Goose.publish { F' with registry := reg } i coord sys) coord =
            some i := by
        intro reg hreg
        rw [(hF'.setRegistry hreg).getCell_publish hlt hidx hfree, if_pos rfl]
      rw [hc] at hgot
      cases name with
      | none =>
        cases hgot
        exact hwoven F'.registry hF'.names
      | some s =>
        dsimp only at hgot ⊢
        split at hgot
        · cases hgot
        next hok =>
          cases hgot
          rw [if_neg hok]
          exact hwoven _ (hF'.names.register atlas s coord sys)

theorem live_recoat {cells : ℕ → Cell} (hc : ∀ v, (cells v).coord = (F.cells v).coord) {v : ℕ} :
    Live { F with cells := cells } v ↔ Live F v := by
  unfold Live
  rw [getCellByCoord_recoat hc]
  dsimp only
  rw [hc]

/-- What is written into a cell that a weave has left blank. -/
theorem Rewoven.overwrite (h : Rewoven added F F') {idx : ℕ} {cell : Cell}
    (hc : cell.coord = (F'.cells idx).coord) (hblank : Blank cell) :
    Rewoven added F { F' with cells := Function.update F'.cells idx cell } := by
  have hself : Blank (Function.update F'.cells idx cell idx) := by
    rwa [Function.update_self]
  refine ⟨fun v hv => ?_, fun v hv => ?_, h.names⟩
  · rw [live_recoat (update_coord hc)] at hv
    by_cases hvi : v = idx
    · exact .inl (hvi ▸ hself)
    · dsimp only
      rw [Function.update_of_ne hvi]
      exact h.live v hv
  · by_cases hvi : v = idx
    · exact .inl (hvi ▸ hself)
    · dsimp only
      rw [Function.update_of_ne hvi]
      exact h.slots v hv

theorem setAgency_blank {c : Cell} (hc : Blank c) (addr : ℕ) (type : CellType) :
    Blank (setAgency c addr type).2 := by
  unfold setAgency
  split_ifs <;> exact hc

theorem Tabled.rewoven_resolveCell (h : Tabled F) (atlas : Atlas) (lock : Bool)
    (hname : ¬ nsPeer.isPrefixOf name) :
    Rewoven none F (Goose.resolveCell atlas lock F name).2 := by
  have hunnamed : ∀ s, some name = some s → ¬ nsPeer.isPrefixOf s := by
    rintro s hs
    cases hs
    exact hname
  obtain ⟨S, hS⟩ := h
  unfold Goose.resolveCell
  split
  · exact .refl F
  split
  · exact .refl F
  next e _ =>
  have hwoven := (hS.rewoven_allocLocked atlas lock (fun s hs hpeer => absurd hpeer
    (hunnamed s hs)) e.coord true false).none_added hunnamed
  dsimp only
  split
  · exact hwoven
  next idx hgot =>
    have hfresh := allocLocked_fresh hgot
    refine hwoven.overwrite (setAgency_coord _ _ _) ?_
    rw [hfresh]
    exact setAgency_blank ⟨rfl, .inl rfl⟩ e.addr e.type

theorem Tabled.rewoven_heapPressure (h : Tabled F) (atlas : Atlas) (lock : Bool) :
    Rewoven none F (heapPressure atlas lock F).2 := by
  have hheap : ¬ nsPeer.isPrefixOf heapPressureName := by decide
  exact h.rewoven_resolveCell atlas lock hheap

theorem Rewoven.unresolved (h : Rewoven none F F') (hF : Tabled F) (hF' : Tabled F')
    (hpeer : nsPeer.isPrefixOf name) (hnew : gooniesResolve F.registry name = none) :
    gooniesResolve F'.registry name = none := by
  obtain ⟨S, hS⟩ := hF
  obtain ⟨S', hS'⟩ := hF'
  exact hS.names.unresolved hS'.names hnew fun c hr =>
    (h.names name c hpeer hr).resolve_right nofun

theorem Tabled.rewoven_alloc (h : Tabled F) (atlas : Atlas) (lock : Bool) {name : Option CName}
    (hnew : ∀ s, name = some s → nsPeer.isPrefixOf s → gooniesResolve F.registry s = none)
    (coord : Tryte9) (sys ret : Bool) :
    Rewoven name F (fabricAllocInternal atlas lock F name coord sys ret).2 := by
  unfold fabricAllocInternal
  cases sys with
  | true =>
    obtain ⟨S, hS⟩ := h
    exact hS.rewoven_allocLocked atlas lock hnew coord true ret
  | false =>
    have hpressed := h.rewoven_heapPressure atlas lock
    simp only [Bool.false_eq_true, if_false]
    split
    · exact hpressed.some_added
    · obtain ⟨S, hS⟩ : Tabled (heapPressure atlas lock F).2 :=
        h.resolveCell atlas lock heapPressureName
      have hnew' : ∀ s, name = some s → nsPeer.isPrefixOf s →
          gooniesResolve (heapPressure atlas lock F).2.registry s = none := fun s hs hpeer =>
        hpressed.unresolved h ⟨S, hS⟩ hpeer (hnew s hs hpeer)
      exact hpressed.some_added.trans (hS.rewoven_allocLocked atlas lock hnew' coord false ret)

theorem Tabled.rewoven_unnamed (h : Tabled F) (atlas : Atlas) (lock : Bool)
    {name : Option CName} (hname : ∀ s, name = some s → ¬ nsPeer.isPrefixOf s) (coord : Tryte9)
    (sys ret : Bool) : Rewoven none F (fabricAllocInternal atlas lock F name coord sys ret).2 :=
  (h.rewoven_alloc atlas lock (fun s hs hpeer => absurd hpeer (hname s hs)) coord sys
    ret).none_added hname

theorem Tabled.rewoven_known (h : Tabled F) (atlas : Atlas) (hmac : List UInt8 → List UInt8)
    (lock : Bool) (now : ℕ) (M : Mesh)
    (hknown : nsPeer.isPrefixOf name → gooniesResolve F.registry name ≠ none) :
    Rewoven none F (gooniesResolveCell atlas hmac lock now F M name).2.1 := by
  unfold gooniesResolveCell
  cases hres : gooniesResolve F.registry name with
  | some coord =>
    have hsame : Goose.resolveCell atlas lock F name = (getCellByCoord F coord, F) := by
      rw [Goose.resolveCell, hres]
    rw [hsame]
    exact .refl F
  | none =>
    have hpeer : ¬ nsPeer.isPrefixOf name := fun hpeer => hknown hpeer hres
    rw [if_neg (by simp [hpeer])]
    exact h.rewoven_resolveCell atlas lock hpeer

theorem Tabled.rewoven_lookup (h : Tabled F) (atlas : Atlas) (hmac : List UInt8 → List UInt8)
    (lock : Bool) (now : ℕ) (M : Mesh) (name : CName) :
    Rewoven (some name) F (gooniesResolveCell atlas hmac lock now F M name).2.1 := by
  by_cases hphantom : nsPeer.isPrefixOf name ∧ gooniesResolve F.registry name = none
  · obtain ⟨hpeer, hres⟩ := hphantom
    have hnew : ∀ s, some name = some s → nsPeer.isPrefixOf s →
        gooniesResolve F.registry s = none := fun s hs _ => Option.some.inj hs ▸ hres
    have hwoven : Rewoven (some name) F
        (fabricAllocCell atlas lock F (some name) (ghostCoord M.ghostCounter) false).2 :=
      h.rewoven_alloc atlas lock hnew (ghostCoord M.ghostCounter) false false
    unfold gooniesResolveCell
    rw [hres, hpeer, if_pos (by decide)]
    unfold resolvePeer
    dsimp only
    rw [atmosphereQuery_ghostCounter]
    split
    next idx peer hgot _ =>
      have hfresh := fabricAllocCell_fresh hgot
      refine hwoven.overwrite rfl ⟨?_, .inr ?_⟩
      · exact congrArg Cell.state hfresh
      · exact congrFun (congrArg Cell.coord hfresh) 8
    next => exact hwoven
  · exact (h.rewoven_known atlas hmac lock now M fun hpeer hres =>
      hphantom ⟨hpeer, hres⟩).some_added

end Weave

section Boot
variable {F : Fabric} {atlas : Atlas}

theorem Tabled.rewoven_seed (h : Tabled F) (atlas : Atlas) {name : CName}
    (hname : ¬ nsPeer.isPrefixOf name) (coord : Tryte9) (ret : Bool) :
    Rewoven none F
      (fabricAllocInternal atlas true F (some name) coord true ret).2 := by
  apply h.rewoven_unnamed
  rintro s hs
  cases hs
  exact hname

/-- A boot seeds the fabric that it found, and marks the cell of the purpose. -/
theorem fabricInit_rewoven (atlas : Atlas) {cold : Bool} (purpose : Bool)
    (h : cold = true ∨ Tabled F) : ∃ F', Tabled F' ∧ Rewoven none (fabricReset cold F) F' ∧
      (fabricInit atlas cold purpose F = F' ∨ ∃ idx, idx < F'.cellCount ∧
        (F'.cells idx).coord = makeCoord 0 0 2 ∧ fabricInit atlas cold purpose F =
          { F' with
            cells := Function.update F'.cells idx
              { F'.cells idx with type := .purpose, state := 1 } }) := by
  have hreset := fabricReset_tabled cold h
  have hseeded := hreset.alloc atlas true (some seedOrigin) (makeCoord 0 0 0) true false
  have hseeds : Rewoven none (fabricReset cold F) (seedCell atlas (seedCell atlas
      (fabricReset cold F) seedOrigin (makeCoord 0 0 0)) seedLedIntent (makeCoord 0 0 1)) :=
    (hreset.rewoven_seed atlas (by decide) (makeCoord 0 0 0) false).trans
      (hseeded.rewoven_seed atlas (by decide) (makeCoord 0 0 1) false)
  have hbooted := hseeded.alloc atlas true (some seedLedIntent) (makeCoord 0 0 1) true false
  cases purpose with
  | false => exact ⟨_, hbooted, hseeds, .inl rfl⟩
  | true =>
    have hpurpose : Rewoven none _ (fabricEnsureCell atlas true (seedCell atlas
        (seedCell atlas (fabricReset cold F) seedOrigin (makeCoord 0 0 0)) seedLedIntent
        (makeCoord 0 0 1)) (some seedPurpose) (makeCoord 0 0 2) true).2 :=
      hbooted.rewoven_seed atlas (by decide) (makeCoord 0 0 2) true
    refine ⟨_, hbooted.alloc atlas true (some seedPurpose) (makeCoord 0 0 2) true true,
      hseeds.trans hpurpose, ?_⟩
    simp only [fabricInit, if_true, seedPurposeCell]
    split
    · exact .inl rfl
    next idx hgot =>
      obtain ⟨S, hS⟩ := hbooted
      obtain ⟨S', hS'⟩ := hS.allocLocked atlas true (some seedPurpose) (makeCoord 0 0 2) true true
      change (Goose.allocLocked atlas true _ (some seedPurpose) (makeCoord 0 0 2) true true).1 =
        some idx at hgot
      have hfound := hS.allocLocked_found hgot
      obtain ⟨hv, hcoord⟩ := (hS'.getCell_iff (makeCoord 0 0 2) idx).mp hfound
      exact .inr ⟨idx, hS'.live idx hv, hcoord, rfl⟩

theorem fabricReset_names (cold : Bool) (F : Fabric) (name : CName) (coord : Tryte9) :
    ¬ Registered (fabricReset cold F).registry name coord := by
  rintro ⟨i, hi, -⟩
  exact Nat.not_lt_zero i hi

theorem fabricInit_names {cold : Bool} (purpose : Bool) (h : cold = true ∨ Tabled F) {name : CName}
    (hpeer : nsPeer.isPrefixOf name) (coord : Tryte9) :
    ¬ Registered (fabricInit atlas cold purpose F).registry name coord := by
  intro hr
  obtain ⟨F', -, hwoven, hinit | ⟨idx, -, -, hinit⟩⟩ := fabricInit_rewoven atlas purpose h
  · rw [hinit] at hr
    exact (hwoven.names name coord hpeer hr).elim (fabricReset_names cold F name coord) nofun
  · rw [hinit] at hr
    exact (hwoven.names name coord hpeer hr).elim (fabricReset_names cold F name coord) nofun

end Boot

/-- Only states have changed, to 0. -/
structure Hushed (F F' : Fabric) : Prop where
  same : SameButStates F F'
  hushed : ∀ v, (F'.cells v).state = (F.cells v).state ∨ (F'.cells v).state = 0

section Hush
variable {F F' G : Fabric}

theorem Hushed.refl (F : Fabric) : Hushed F F := ⟨.refl F, fun _ => .inl rfl⟩

theorem Hushed.trans (h : Hushed F F') (h' : Hushed F' G) : Hushed F G where
  same := h.same.trans h'.same
  hushed v := by
    rcases h'.hushed v with hv | hv
    · rw [hv]
      exact h.hushed v
    · exact .inr hv

theorem Hushed.setState (F : Fabric) (v : ℕ) : Hushed F (F.setState v 0) where
  same := .setState F v 0
  hushed w := by
    unfold Fabric.setState
    dsimp only
    by_cases hw : w = v
    · rw [hw, Function.update_self]
      exact .inr rfl
    · rw [Function.update_of_ne hw]
      exact .inl rfl

theorem Hushed.foldl {α : Type*} {f : Fabric → α → Fabric} (hf : ∀ F a, Hushed F (f F a))
    (F : Fabric) (l : List α) : Hushed F (l.foldl f F) := by
  induction l generalizing F with
  | nil => exact .refl F
  | cons a l ih => exact (hf F a).trans (ih _)

/-- The cell that a reset finds under a name, where that is on a peer. -/
def resetPhantom (pid : ℕ) (F : Fabric) (name : CName) : Fabric :=
  if nsPeer.isPrefixOf name then
    match (gooniesResolve F.registry name).bind (getCellByCoord F) with
    | none => F
    | some v => if (F.cells v).peerId = pid then F.setState v 0 else F
  else F

theorem resetPhantom_hushed (pid : ℕ) (F : Fabric) (name : CName) :
    Hushed F (resetPhantom pid F name) := by
  unfold resetPhantom
  split
  · split
    · exact .refl F
    split
    · exact .setState F _
    · exact .refl F
  · exact .refl F

theorem resetPhantoms_eq (F : Fabric) (pid : ℕ) :
    resetPhantoms F pid = (registeredNames F.registry).foldl (resetPhantom pid) F := rfl

theorem resetPhantoms_hushed (F : Fabric) (pid : ℕ) : Hushed F (resetPhantoms F pid) := by
  rw [resetPhantoms_eq]
  exact .foldl (resetPhantom_hushed pid) F _

theorem stalenessCheck_hushed (now : ℕ) (F : Fabric) (M : Mesh) :
    Hushed F (stalenessCheck now F M).1 := by
  refine Hushed.foldl (fun F p => ?_) F _
  split
  · exact resetPhantoms_hushed F _
  · exact .refl F

theorem SameButStates.tabled (h : SameButStates F F') (htabled : Tabled F) : Tabled F' := by
  obtain ⟨S, hS⟩ := htabled
  have hrecoat : TablesSound { F with cells := F'.cells } S := hS.recoat h.coord
  refine ⟨S, h.stable.trans hS.stable, ?_, ?_, ?_, ?_⟩
  · rw [h.count]
    exact hS.count_le
  · rw [h.count]
    exact hS.live
  · rw [h.lattice]
    exact hrecoat.indexed
  · rw [h.registry]
    exact hS.names

end Hush

/-- What happens to phantoms. The store is what it is by the next boot. -/
inductive PhantomOp where
  | arc (now : ℕ) (mac : Mac) (nameHash : ℕ) (state : ℤ)
  | addPeer (now : ℕ) (name : CName) (mac : Mac)
  | resolve (lock : Bool) (now : ℕ) (name : CName)
  | alloc (lock : Bool) (name : Option CName) (coord : Tryte9) (sys ret : Bool)
  | staleness (now : ℕ)
  | warmBoot (purpose : Bool) (store : Store)

/-- The mesh behind a boot; what was sent stays sent. -/
def bootMesh (store : Store) (sent : List ArcPacket) : Mesh := ⟨peersLoad store, 0, 0, sent⟩

/-- Allocations other than by a lookup are not for names on peers. -/
inductive PhantomStep (atlas : Atlas) (hmac : List UInt8 → List UInt8) :
    Fabric × Mesh → PhantomOp → Fabric × Mesh → Prop where
  | arc (F : Fabric) (M : Mesh) (now : ℕ) (mac : Mac) (nameHash : ℕ) (state : ℤ) :
      PhantomStep atlas hmac (F, M) (.arc now mac nameHash state)
        (mmioSyncRecv now F M mac nameHash state)
  | addPeer (F : Fabric) (M : Mesh) (now : ℕ) (name : CName) (mac : Mac) :
      PhantomStep atlas hmac (F, M) (.addPeer now name mac)
        (F, { M with peers := (Goose.addPeer now M.peers name mac).2 })
  | resolve (F : Fabric) (M : Mesh) (lock : Bool) (now : ℕ) (name : CName) :
      PhantomStep atlas hmac (F, M) (.resolve lock now name)
        (gooniesResolveCell atlas hmac lock now F M name).2
  | alloc (F : Fabric) (M : Mesh) (lock : Bool) (name : Option CName) (coord : Tryte9)
      (sys ret : Bool) (hname : ∀ s, name = some s → ¬ nsPeer.isPrefixOf s) :
      PhantomStep atlas hmac (F, M) (.alloc lock name coord sys ret)
        ((fabricAllocInternal atlas lock F name coord sys ret).2, M)
  | staleness (F : Fabric) (M : Mesh) (now : ℕ) :
      PhantomStep atlas hmac (F, M) (.staleness now) (stalenessCheck now F M)
  | warmBoot (F : Fabric) (M : Mesh) (purpose : Bool) (store : Store) :
      PhantomStep atlas hmac (F, M) (.warmBoot purpose store)
        (fabricInit atlas false purpose F, bootMesh store M.sent)

/-- A board behind a cold boot. -/
def coldBoard (atlas : Atlas) (purpose : Bool) (F : Fabric) (store : Store) : Fabric × Mesh :=
  (fabricInit atlas true purpose F, bootMesh store [])

section Steps
variable {atlas : Atlas} {hmac : List UInt8 → List UInt8} {s s' : Fabric × Mesh} {op : PhantomOp}

theorem PhantomStep.tabled (hs : PhantomStep atlas hmac s op s') (h : Tabled s.1) :
    Tabled s'.1 := by
  cases hs with
  | arc F M now mac nameHash state =>
    obtain hsame | ⟨v, -, hset, -⟩ := mmioSyncRecv_cases h now M mac nameHash state
    · rwa [hsame]
    · rw [hset]
      exact h.write rfl
  | addPeer => exact h
  | resolve F M lock now name => exact h.lookup atlas hmac lock now M name
  | alloc F M lock name coord sys ret => exact h.alloc atlas lock name coord sys ret
  | staleness F M now => exact (stalenessCheck_hushed now F M).same.tabled h
  | warmBoot F M purpose store => exact fabricInit_tabled atlas false purpose (.inr h)

end Steps

def noPeers : Mesh := ⟨[], 0, 0, []⟩

theorem coldBoard_fresh :
    coldBoard emptyAtlas false blankFabric freshStore = (coldFabric, noPeers) := by
  rw [coldBoard, bootMesh, freshStore_empty]
  rfl

end ReflexOS.Goose
