import ReflexOS.GooseAllocation
import Mathlib.Data.Finset.Card

set_option autoImplicit false

/-!
# Names, coordinates and cells stay together

System weaves whose names and coordinates follow a one-to-one assignment, across
evictions and warm boots.
-/
namespace ReflexOS.Goose
open VmTernary LinearProbing Runs

def OneToOne (coord : CName → Option Tryte9) : Prop :=
  ∀ s s' c, coord s = some c → coord s' = some c → s = s'

/-- A one-to-one assignment of usable names to coordinates, with the pairs every boot seeds. -/
structure Assignment where
  coord : CName → Option Tryte9
  inj : OneToOne coord
  len : ∀ s c, coord s = some c → 3 ≤ s.length ∧ s.length < registryNameMax
  origin : coord seedOrigin = some (makeCoord 0 0 0)
  ledIntent : coord seedLedIntent = some (makeCoord 0 0 1)

/-- Where a boot seeds the purpose cell, its pair is in the assignment as well. -/
def Assignment.Seeds (asg : Assignment) (purpose : Bool) : Prop :=
  purpose = true → asg.coord seedPurpose = some (makeCoord 0 0 2)

/-- The registry indexes its entries and follows the assignment. -/
structure NamesSound (asg : Assignment) (reg : Registry) : Prop where
  buckets : reg.buckets = registryBuckets
  capacity : reg.capacity = fabricMaxCells
  indexed : RegistryIndexes reg (liveEntries reg)
  named : ∀ i < reg.count, asg.coord (reg.entries i).name = some (reg.entries i).coord

section Names

variable {asg : Assignment} {reg : Registry} (h : NamesSound asg reg)
include h

theorem NamesSound.coord_inj {i j : ℕ} (hi : i < reg.count) (hj : j < reg.count)
    (hc : (reg.entries i).coord = (reg.entries j).coord) : i = j :=
  h.indexed.byCoord.distinct i hi j hj (by simp [RegistryEntry.key, hc])

theorem NamesSound.findName_iff (s : CName) (i : ℕ) :
    registryFindName reg s = some i ↔ i < reg.count ∧ (reg.entries i).name = s :=
  h.indexed.findName_iff s i

theorem NamesSound.register_new {s : CName} {c : Tryte9} (hs : asg.coord s = some c)
    (hroom : reg.count < fabricMaxCells) (hnew : ∀ i < reg.count, (reg.entries i).coord ≠ c)
    (atlas : Atlas) :
    ∃ reg', gooniesRegister atlas reg s c true = (Err.ok, reg') ∧ NamesSound asg reg' ∧
      reg'.count = reg.count + 1 ∧
      reg'.entries = Function.update reg.entries reg.count ⟨s, c⟩ := by
  obtain ⟨hmin, hmax⟩ := asg.len s c hs
  have hname : ∀ i < reg.count, (reg.entries i).name ≠ s := by
    rintro i hi rfl
    have := (h.named i hi).symm.trans hs
    exact hnew i hi (Option.some.inj this)
  have hfind : registryFindName reg s = none := by
    rw [Option.eq_none_iff_forall_ne_some]
    intro i hi
    obtain ⟨hlt, hn⟩ := (h.findName_iff s i).mp hi
    exact hname i hlt hn
  have hbuckets : registryBuckets = 503 := rfl
  have hcells : fabricMaxCells = 256 := rfl
  have hb := h.buckets
  obtain ⟨reg', hadd, hidx, hcount, hentries⟩ := registryAdd_indexes h.indexed
    (by rw [h.capacity]; exact hroom) (by omega) hmax hname hnew
  refine ⟨reg', ?_, ⟨?_, ?_, hidx, ?_⟩, hcount, hentries⟩
  · rw [gooniesRegister, if_neg (by omega), if_neg (by omega), hfind]
    simp [hadd]
  · rw [registryAdd, if_neg (by rw [h.capacity]; omega), if_neg (by omega)] at hadd
    cases hadd
    exact h.buckets
  · rw [registryAdd, if_neg (by rw [h.capacity]; omega), if_neg (by omega)] at hadd
    cases hadd
    exact h.capacity
  · intro i hi
    rw [hentries]
    by_cases hne : i = reg.count
    · subst i
      simpa using hs
    · simpa [hne] using h.named i (by omega)

theorem NamesSound.register_known {s : CName} {c : Tryte9} (hs : asg.coord s = some c) {i : ℕ}
    (hi : i < reg.count) (hn : (reg.entries i).name = s) (atlas : Atlas) :
    (gooniesRegister atlas reg s c true).2 = reg := by
  have hc : (reg.entries i).coord = c := by
    have := (h.named i hi).symm.trans (hn ▸ hs)
    exact Option.some.inj this
  have hfind := (h.findName_iff s i).mpr ⟨hi, hn⟩
  have hset : registrySetCoord reg i c = reg := by
    rw [registrySetCoord, if_neg (by omega), if_pos ((coordEqual_iff _ _).mpr hc)]
  unfold gooniesRegister
  split
  · rfl
  split
  · rfl
  rw [hfind]
  simpa using hset

/-- Registering an assigned name keeps the registry sound, with that name at most added. -/
theorem NamesSound.register {s : CName} {c : Tryte9} (hs : asg.coord s = some c)
    (atlas : Atlas) :
    NamesSound asg (gooniesRegister atlas reg s c true).2 ∧
      ∀ i < (gooniesRegister atlas reg s c true).2.count,
        (∃ j < reg.count, reg.entries j = (gooniesRegister atlas reg s c true).2.entries i) ∨
          ((gooniesRegister atlas reg s c true).2.entries i).coord = c := by
  by_cases hknown : ∃ i < reg.count, (reg.entries i).name = s
  · obtain ⟨i, hi, hn⟩ := hknown
    rw [h.register_known hs hi hn]
    exact ⟨h, fun j hj => .inl ⟨j, hj, rfl⟩⟩
  by_cases hroom : reg.count < fabricMaxCells
  · have hnew : ∀ i < reg.count, (reg.entries i).coord ≠ c := by
      intro i hi hc
      have := asg.inj _ s c ((h.named i hi).trans (congrArg some hc)) hs
      exact hknown ⟨i, hi, this⟩
    obtain ⟨reg', heq, hsound, hcount, hentries⟩ := h.register_new hs hroom hnew atlas
    rw [heq]
    refine ⟨hsound, fun i hi => ?_⟩
    dsimp only at hi ⊢
    rw [hentries]
    by_cases hne : i = reg.count
    · subst i
      simp
    · exact .inl ⟨i, by omega, by simp [hne]⟩
  · have hfull : (gooniesRegister atlas reg s c true).2 = reg := by
      rw [gooniesRegister, if_pos (by omega)]
    rw [hfull]
    exact ⟨h, fun j hj => .inl ⟨j, hj, rfl⟩⟩

/-- Once a coordinate's name is removed, what is left is sound and lies elsewhere. -/
theorem NamesSound.remove {c : Tryte9} {g : ℕ} (hf : registryFindCoord reg c = some g) :
    NamesSound asg (registryRemoveCoord reg c).2 ∧
      ∀ i < (registryRemoveCoord reg c).2.count,
        ((registryRemoveCoord reg c).2.entries i).coord ≠ c ∧
          ∃ j < reg.count, reg.entries j = (registryRemoveCoord reg c).2.entries i := by
  obtain ⟨hg, hgc⟩ := (h.indexed.findCoord_iff c g).mp hf
  have hg : g < reg.count := hg
  obtain ⟨hidx, hcount, hentries, hbuckets⟩ := registryRemoveCoord_indexes h.indexed hf
  have hfrom : ∀ i < reg.count - 1, ∃ j < reg.count, j ≠ g ∧
      reg.entries j = (registryRemoveCoord reg c).2.entries i := by
    intro i hi
    rw [hentries i hi, withoutEntry]
    by_cases hig : i = g
    · exact ⟨reg.count - 1, by omega, by omega, by rw [if_pos hig]⟩
    · exact ⟨i, by omega, hig, by rw [if_neg hig]⟩
  refine ⟨⟨hbuckets.trans h.buckets, (registryRemoveCoord_capacity _ _).trans h.capacity, hidx,
    fun i hi => ?_⟩, fun i hi => ?_⟩
  · obtain ⟨j, hj, -, he⟩ := hfrom i (by omega)
    rw [← he]
    exact h.named j hj
  · obtain ⟨j, hj, hne, he⟩ := hfrom i (by omega)
    refine ⟨fun hc => hne (h.coord_inj hj hg ?_), j, hj, he⟩
    rw [he, hc, hgc]

end Names

/-- Cells, coordinate index and names agree. -/
structure Consistent (asg : Assignment) (F : Fabric) : Prop where
  fabric : FabricSound F
  names : NamesSound asg F.registry
  live : ∀ i < F.registry.count, ∃ v < F.cellCount, (F.cells v).coord = (F.registry.entries i).coord

/-- Each name has a live cell of its own, and one cell besides has none. -/
theorem registry_count_lt {asg : Assignment} {reg : Registry} (h : NamesSound asg reg)
    {cells : ℕ → Cell} {count spare : ℕ} (hs : spare < count)
    (hlive : ∀ i < reg.count, ∃ v < count, v ≠ spare ∧ (cells v).coord = (reg.entries i).coord) :
    reg.count < count := by
  choose! f hf using hlive
  have hmaps : Set.MapsTo f (Finset.range reg.count) ((Finset.range count).erase spare) := by
    intro i hi
    obtain ⟨hlt, hne, -⟩ := hf i (by simpa using hi)
    simpa using ⟨hlt, hne⟩
  have hinj : Set.InjOn f (Finset.range reg.count) := by
    intro i hi j hj he
    have hi : i < reg.count := by simpa using hi
    have hj : j < reg.count := by simpa using hj
    refine h.coord_inj hi hj ?_
    rw [← (hf i hi).2.2, ← (hf j hj).2.2, he]
  have hcard := Finset.card_le_card_of_injOn f hmaps hinj
  rw [Finset.card_range, Finset.card_erase_of_mem (Finset.mem_range.mpr hs),
    Finset.card_range] at hcard
  omega

section Step

variable {asg : Assignment} {F : Fabric} (h : Consistent asg F)
include h

/-- The names left in a claimed fabric belong to the cells other than the claimed slot. -/
theorem Consistent.claim {idx : ℕ} {F' : Fabric} (hc : claimSlot F = some (idx, F')) :
    NamesSound asg F'.registry ∧ ∀ i < F'.registry.count,
      ∃ v < F'.cellCount, v ≠ idx ∧ (F.cells v).coord = (F'.registry.entries i).coord := by
  obtain ⟨-, ⟨hroom, rfl, rfl⟩ | ⟨hfull, hv, rfl⟩⟩ := h.fabric.claim hc
  · refine ⟨h.names, fun i hi => ?_⟩
    obtain ⟨v, hv, hcoord⟩ := h.live i hi
    exact ⟨v, Nat.lt_succ_of_lt hv, Nat.ne_of_lt hv, hcoord⟩
  · have hidx : idx < F.cellCount := by
      rw [hfull]
      exact (findVictim_lt hv).1
    have hreg : (evict F idx).registry = (forgetName F (F.cells idx).coord).registry := rfl
    rw [evict_cellCount, hreg]
    unfold forgetName
    cases hf : registryFindCoord F.registry (F.cells idx).coord with
    | none =>
      refine ⟨h.names, fun i hi => ?_⟩
      obtain ⟨v, hv, hcoord⟩ := h.live i hi
      refine ⟨v, hv, ?_, hcoord⟩
      rintro rfl
      have := (h.names.indexed.findCoord_iff _ i).mpr ⟨hi, hcoord.symm⟩
      rw [hf] at this
      cases this
    | some g =>
      obtain ⟨hsound, hleft⟩ := h.names.remove hf
      refine ⟨hsound, fun i hi => ?_⟩
      obtain ⟨hne, j, hj, he⟩ := hleft i hi
      obtain ⟨v, hv, hcoord⟩ := h.live j hj
      refine ⟨v, hv, ?_, by rw [hcoord, he]⟩
      rintro rfl
      exact hne (by rw [← he, hcoord])

theorem Consistent.register {s : CName} {c : Tryte9} (hs : asg.coord s = some c) {v : ℕ}
    (hv : v < F.cellCount) (hc : (F.cells v).coord = c) (atlas : Atlas) :
    Consistent asg { F with registry := (gooniesRegister atlas F.registry s c true).2 } := by
  obtain ⟨hsound, hfrom⟩ := h.names.register hs atlas
  refine ⟨⟨h.fabric.stable, h.fabric.count_le, hsound.capacity, h.fabric.indexed⟩, hsound,
    fun i hi => ?_⟩
  rcases hfrom i hi with ⟨j, hj, he⟩ | hcoord
  · obtain ⟨w, hw, hcw⟩ := h.live j hj
    exact ⟨w, hw, by rw [hcw, he]⟩
  · exact ⟨v, hv, by rw [hc, hcoord]⟩

theorem Consistent.write {idx : ℕ} {cell : Cell} (hc : cell.coord = (F.cells idx).coord) :
    Consistent asg { F with cells := Function.update F.cells idx cell } := by
  refine ⟨h.fabric.write hc, h.names, fun i hi => ?_⟩
  obtain ⟨v, hv, hcoord⟩ := h.live i hi
  refine ⟨v, hv, ?_⟩
  by_cases hne : v = idx
  · subst v
    simpa [hc] using hcoord
  · simpa [hne] using hcoord

/-- A system weave at its assigned coordinate keeps everything together. -/
theorem Consistent.alloc {s : CName} {c : Tryte9} (hs : asg.coord s = some c) (atlas : Atlas)
    (lock ret : Bool) : Consistent asg (allocLocked atlas lock F (some s) c true ret).2 := by
  cases lock with
  | false => exact h
  | true =>
    cases he : getCellByCoord F c with
    | some e =>
      obtain ⟨hlt, hcoord⟩ := (h.fabric.getCell_iff c e).mp he
      simp only [allocLocked, Bool.not_true, Bool.false_eq_true, if_false, he]
      exact h.register hs hlt hcoord atlas
    | none =>
      have hfree := (h.fabric.getCell_none_iff c).mp he
      cases hc : claimSlot F with
      | none =>
        simp only [allocLocked, Bool.not_true, Bool.false_eq_true, if_false, he, hc]
        exact h
      | some claimed =>
        obtain ⟨idx, F'⟩ := claimed
        obtain ⟨hclaim, -⟩ := h.fabric.claim hc
        obtain ⟨hnames, hlive⟩ := h.claim hc
        have hroom : F'.registry.count < fabricMaxCells :=
          lt_of_lt_of_le (registry_count_lt hnames hclaim.idx_lt hlive) hclaim.count_le
        have hnew : ∀ i < F'.registry.count, (F'.registry.entries i).coord ≠ c := by
          intro i hi hcoord
          obtain ⟨v, hv, hne, hcv⟩ := hlive i hi
          exact hfree v (hclaim.old v hv hne) (by rw [hcv, hcoord])
        obtain ⟨reg', hreg, hsound, hcount, hentries⟩ :=
          hnames.register_new hs hroom hnew atlas
        have halloc : (allocLocked atlas true F (some s) c true ret).2 =
            publish { F' with registry := reg' } idx c true := by
          simp only [allocLocked, Bool.not_true, Bool.false_eq_true, if_false, he, hc, hreg,
            ne_eq, not_true_eq_false]
        rw [halloc]
        refine ⟨hclaim.publish hfree reg' hsound.capacity true, hsound, fun i hi => ?_⟩
        change ∃ v < F'.cellCount, (Function.update F'.cells idx (freshCell c true) v).coord =
          (reg'.entries i).coord
        have hi : i < reg'.count := hi
        rw [hentries, hclaim.cells]
        by_cases hne : i = F'.registry.count
        · subst i
          exact ⟨idx, hclaim.idx_lt, by simp [freshCell]⟩
        · obtain ⟨v, hv, hvi, hcv⟩ := hlive i (by omega)
          exact ⟨v, hv, by simp [hvi, hne, hcv]⟩

end Step

theorem fabricInit_consistent (asg : Assignment) (atlas : Atlas) {F : Fabric}
    (cold : Bool) {purpose : Bool} (hseed : asg.Seeds purpose) (h : cold = true ∨ FabricSound F) :
    Consistent asg (fabricInit atlas cold purpose F) := by
  have h₀ : Consistent asg (fabricReset cold F) :=
    ⟨fabricReset_sound cold h, ⟨rfl, rfl, registryInit_indexes _ _ (by decide),
      fun i hi => absurd hi (Nat.not_lt_zero i)⟩, fun i hi => absurd hi (Nat.not_lt_zero i)⟩
  have h₁ : Consistent asg (seedCell atlas (fabricReset cold F) seedOrigin (makeCoord 0 0 0)) :=
    h₀.alloc asg.origin atlas true false
  have h₂ := h₁.alloc asg.ledIntent atlas true false
  cases purpose with
  | false => exact h₂
  | true =>
    have h₃ := h₂.alloc (hseed rfl) atlas true true
    simp only [fabricInit, if_true, seedPurposeCell]
    split
    · exact h₃
    · exact h₃.write rfl

/-- The calls of the run: system weaves from the assignment, writes that keep coordinates,
and warm boots. -/
def Drawn (asg : Assignment) (_ : Fabric) (op : FabricOp) : Prop :=
  match op with
  | .alloc _ name coord sys _ => sys = true ∧ ∃ s, name = some s ∧ asg.coord s = some coord
  | .write _ _ => True
  | .boot cold purpose => cold = false ∧ asg.Seeds purpose

theorem Consistent.step {asg : Assignment} {atlas : Atlas} {F F' : Fabric} {op : FabricOp}
    (h : Consistent asg F) (hs : Guarded (Drawn asg) (FabricStep atlas) F op F') :
    Consistent asg F' := by
  obtain ⟨hd, hs⟩ := hs
  cases hs with
  | alloc lock name coord sys ret =>
    obtain ⟨rfl, s, rfl, hs⟩ := hd
    exact h.alloc hs atlas lock ret
  | write idx cell hc => exact h.write hc
  | boot cold purpose =>
    obtain ⟨rfl, hseed⟩ := hd
    exact fabricInit_consistent asg atlas false hseed (.inr h.fabric)

theorem Consistent.resolve {asg : Assignment} {F : Fabric} (h : Consistent asg F)
    (atlas : Atlas) {i : ℕ} (hi : i < F.registry.count) :
    ∃ c v, asg.coord (F.registry.entries i).name = some c ∧
      resolveCell atlas true F (F.registry.entries i).name = (some v, F) ∧
      v < F.cellCount ∧ (F.cells v).coord = c := by
  obtain ⟨v, hv, hcoord⟩ := h.live i hi
  refine ⟨(F.registry.entries i).coord, v, h.names.named i hi, ?_, hv, hcoord⟩
  have hfind := (h.names.findName_iff _ i).mpr ⟨hi, rfl⟩
  have hget := (h.fabric.getCell_iff _ v).mpr ⟨hv, hcoord⟩
  simp [resolveCell, gooniesResolve, hfind, hget]

/-- In every state a run reaches from a cold boot, live cells have distinct coordinates, the
index finds exactly the cell that carries a coordinate, and every registered name resolves
to the live cell at its assigned coordinate. -/
theorem assigned_fabric_consistent (asg : Assignment) (atlas : Atlas) {purpose : Bool}
    (hseed : asg.Seeds purpose) (F₀ : Fabric) {ops : List FabricOp} {F : Fabric}
    (hrun : Run (Guarded (Drawn asg) (FabricStep atlas)) (fabricInit atlas true purpose F₀) ops F) :
    (∀ v < F.cellCount, ∀ w < F.cellCount, (F.cells v).coord = (F.cells w).coord → v = w) ∧
    (∀ c v, getCellByCoord F c = some v ↔ v < F.cellCount ∧ (F.cells v).coord = c) ∧
    ∀ i < F.registry.count, ∃ c v, asg.coord (F.registry.entries i).name = some c ∧
      resolveCell atlas true F (F.registry.entries i).name = (some v, F) ∧
      v < F.cellCount ∧ (F.cells v).coord = c := by
  have h : Consistent asg F := hrun.invariant (Consistent asg) (fun _ _ _ h hs => h.step hs)
    (fabricInit_consistent asg atlas true hseed (.inl rfl))
  exact ⟨fun _ hv _ hw => h.fabric.coord_inj hv hw, h.fabric.getCell_iff,
    fun _ hi => h.resolve atlas hi⟩

def seedAssignment : Assignment where
  coord s := if s = seedOrigin then some (makeCoord 0 0 0)
    else if s = seedLedIntent then some (makeCoord 0 0 1)
    else if s = seedPurpose then some (makeCoord 0 0 2) else none
  inj s s' c hs hs' := by
    have h01 : makeCoord 0 0 0 ≠ makeCoord 0 0 1 := by decide
    have h02 : makeCoord 0 0 0 ≠ makeCoord 0 0 2 := by decide
    have h12 : makeCoord 0 0 1 ≠ makeCoord 0 0 2 := by decide
    dsimp only at hs hs'
    split_ifs at hs hs' <;> simp_all
  len s c hs := by
    split_ifs at hs with h₁ h₂ h₃ <;> subst s <;> decide
  origin := by decide
  ledIntent := by decide

theorem assigned_fabric_consistent_warm :
    getCellByCoord (fabricInit emptyAtlas false true coldFabric) (makeCoord 0 0 1) = some 1 ↔
      1 < (fabricInit emptyAtlas false true coldFabric).cellCount ∧
        ((fabricInit emptyAtlas false true coldFabric).cells 1).coord = makeCoord 0 0 1 := by
  have hstep : Guarded (Drawn seedAssignment) (FabricStep emptyAtlas) coldFabric
      (.boot false true) (fabricInit emptyAtlas false true coldFabric) :=
    ⟨⟨rfl, fun _ => by decide⟩, .boot coldFabric false true⟩
  have hseed : seedAssignment.Seeds false := fun h => absurd h (by decide)
  exact (assigned_fabric_consistent seedAssignment emptyAtlas hseed blankFabric
    (.single hstep)).2.1 _ _

/-- An assignment that puts `sys.origin` elsewhere is contradicted by the boot itself. -/
theorem seed_elsewhere_conflicts :
    ¬ ∀ coord : CName → Option Tryte9, OneToOne coord → ∀ i < coldFabric.registry.count,
      ∀ c, coord (coldFabric.registry.entries i).name = some c →
        ∃ v, resolveCell emptyAtlas true coldFabric (coldFabric.registry.entries i).name =
          (some v, coldFabric) ∧ (coldFabric.cells v).coord = c := by
  intro h
  let coord : CName → Option Tryte9 :=
    fun s => if s = seedOrigin then some (makeCoord 1 0 0) else none
  have hinj : OneToOne coord := by
    intro s s' c hs hs'
    simp only [coord] at hs hs'
    split_ifs at hs hs'
    simp_all
  have hfirst : 0 < coldFabric.registry.count ∧
      (coldFabric.registry.entries 0).name = seedOrigin := by decide +kernel
  obtain ⟨v, hv, hc⟩ := h coord hinj 0 hfirst.1 (makeCoord 1 0 0) (by simp [coord, hfirst.2])
  have hcells : ∀ v < 2, (coldFabric.cells v).coord ≠ makeCoord 1 0 0 := by decide +kernel
  have hres : (resolveCell emptyAtlas true coldFabric seedOrigin).1 = some 0 := by
    decide +kernel
  rw [hfirst.2] at hv
  rw [hv] at hres
  cases hres
  exact hcells 0 (by decide) hc

end ReflexOS.Goose
