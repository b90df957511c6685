import ReflexOS.GooseEvictionRing

set_option autoImplicit false

/-!
# Runs of allocations on a full fabric

What the ring and the seeds keep as long as no call moves a name, and what they lose when
one does.
-/
namespace ReflexOS.Goose
open VmTernary Runs

/-- A page of the shadow namespace. -/
def stockCoord (v : ℕ) : Tryte9 := fun i => if i = 8 then 1 else ((v / 3 ^ i.val % 3 : ℕ) : ℤ) - 1

def stockName (v : ℕ) : CName := ascii "page" ++ [UInt8.ofNat v]

theorem stockCoord_inj {v w : ℕ} (hv : v < 3 ^ 8) (hw : w < 3 ^ 8)
    (h : stockCoord v = stockCoord w) : v = w := by
  have hdigit : ∀ i : Fin 8, v / 3 ^ i.val % 3 = w / 3 ^ i.val % 3 := by
    intro i
    have hi := congrFun h i.castSucc
    have hne : i.castSucc ≠ (8 : Fin 9) := (Fin.castSucc_lt_last i).ne
    simp only [stockCoord, if_neg hne, Fin.val_castSucc] at hi
    omega
  have h0 : v % 3 = w % 3 := by simpa using hdigit 0
  have h1 : v / 3 % 3 = w / 3 % 3 := hdigit 1
  have h2 : v / 9 % 3 = w / 9 % 3 := hdigit 2
  have h3 : v / 27 % 3 = w / 27 % 3 := hdigit 3
  have h4 : v / 81 % 3 = w / 81 % 3 := hdigit 4
  have h5 : v / 243 % 3 = w / 243 % 3 := hdigit 5
  have h6 : v / 729 % 3 = w / 729 % 3 := hdigit 6
  have h7 : v / 2187 % 3 = w / 2187 % 3 := hdigit 7
  omega

theorem stockName_inj {v w : ℕ} (hv : v < 256) (hw : w < 256) (h : stockName v = stockName w) :
    v = w := by
  have hlast : UInt8.ofNat v = UInt8.ofNat w := by simpa [stockName] using h
  have hnat := congrArg UInt8.toNat hlast
  rw [UInt8.toNat_ofNat', UInt8.toNat_ofNat'] at hnat
  omega

theorem stock_evictable {c : Cell} {v : ℕ} (hc : c.coord = stockCoord v) :
    cellIsEvictable c = true := by
  simp [cellIsEvictable, policyCellEvictable, hc, stockCoord]

def seedNames : List RegistryEntry :=
  [⟨seedOrigin, makeCoord 0 0 0⟩, ⟨seedLedIntent, makeCoord 0 0 1⟩]

/-- The two seeds, then pages under their names; the page in slot 3 has none. -/
structure Stocked (F : Fabric) : Prop where
  tidy : Tidy F
  quiet : F.evictionCount = 0 ∧ F.evictionRingIdx = 0 ∧ F.lastEvictionIdx = 0
  seeded : 2 ≤ F.cellCount ∧ ∀ v < 2, IsIdentity (F.cells v)
  origin : (F.cells 0).coord = makeCoord 0 0 0
  paged : ∀ v, 2 ≤ v → v < F.cellCount → (F.cells v).coord = stockCoord v
  room : F.registry.count ≤ F.cellCount
  names : ∀ s c, Registered F.registry s c ↔ ⟨s, c⟩ ∈ seedNames ∨
    ∃ v, 2 ≤ v ∧ v < F.cellCount ∧ v ≠ 3 ∧ s = stockName v ∧ c = stockCoord v

theorem coldFabric_stocked : Stocked coldFabric := by
  have hcold : coldFabric.registry.count = 2 ∧
      (List.range 2).map coldFabric.registry.entries = seedNames ∧
      coldFabric.lastEvictionIdx = 0 ∧ coldFabric.evictionRingIdx = 0 ∧
      (∀ v < 2, IsIdentity (coldFabric.cells v)) ∧
      (coldFabric.cells 0).coord = makeCoord 0 0 0 := by
    decide +kernel
  obtain ⟨hcount, hentries, hcursor, hidx, hseeded, horigin⟩ := hcold
  have hcells := coldFabric_seeds.1
  refine ⟨fabricInit_tidy emptyAtlas true false (.inl rfl),
    ⟨fabricInit_quiet emptyAtlas false blankFabric, hidx, hcursor⟩, ⟨hcells.ge, hseeded⟩, horigin,
    fun v h2 hv => by omega, by omega, fun s c => ?_⟩
  rw [← hentries, Registered, hcount]
  constructor
  · rintro ⟨i, hi, he⟩
    exact .inl (List.mem_map.mpr ⟨i, List.mem_range.mpr hi, he⟩)
  · rintro (hmem | ⟨v, h2, hv, -⟩)
    · obtain ⟨i, hi, he⟩ := List.mem_map.mp hmem
      exact ⟨i, List.mem_range.mp hi, he⟩
    · omega

theorem stockName_accepted {reg : Registry} (hcap : reg.capacity = fabricMaxCells)
    (hroom : reg.count < fabricMaxCells) (w : ℕ) (coord : Tryte9) :
    (gooniesRegister emptyAtlas reg (stockName w) coord true).1 = Err.ok := by
  refine (gooniesRegister_ok_iff emptyAtlas reg (stockName w) coord true hcap).mpr ?_
  have hlen : (stockName w).length = 5 := rfl
  exact ⟨hroom, by omega, by rw [hlen]; decide, fun _ => rfl⟩

section Stock
variable {F : Fabric} (h : Stocked F)
include h

theorem Stocked.free {w : ℕ} (hw : F.cellCount ≤ w) (hlt : w < 3 ^ 8) :
    CoordFree F (stockCoord w) := by
  intro v hv hc
  by_cases h2 : v < 2
  · have h8 := (h.seeded.2 v h2).1
    rw [hc] at h8
    simp [stockCoord] at h8
  · rw [h.paged v (by omega) hv] at hc
    have := stockCoord_inj (by omega) hlt hc
    omega

theorem Stocked.name_new {w : ℕ} (hw : F.cellCount ≤ w) (hlt : w < 256) :
    gooniesResolve F.registry (stockName w) = none := by
  have hmax := h.tidy.fabric.count_le
  have hcells : fabricMaxCells = 256 := rfl
  refine (h.tidy.names.resolve_none_iff _).mpr fun c hr => ?_
  rcases (h.names _ c).mp hr with hseed | ⟨v, h2, hv, h3, hs, -⟩
  · have hlen : ∀ e ∈ seedNames, e.name.length ≠ 5 := by decide
    exact hlen _ hseed rfl
  · have := stockName_inj hlt (by omega) hs
    omega

theorem Stocked.page (hroom : F.cellCount < fabricMaxCells) :
    ∃ op F', FabricStep emptyAtlas F op F' ∧ Stocked F' ∧ F'.cellCount = F.cellCount + 1 := by
  let k := F.cellCount
  let name : Option CName := if k = 3 then none else some (stockName k)
  have hcells : fabricMaxCells = 256 := rfl
  have hk : k < 256 := hroom
  have h2 : 2 ≤ k := h.seeded.1
  have hfree : CoordFree F (stockCoord k) := h.free le_rfl (by omega)
  have hclaim : claimSlot F = some (k, { F with cellCount := k + 1 }) := if_pos hroom
  have hname : ∀ s, name = some s ↔ k ≠ 3 ∧ s = stockName k := by
    intro s
    by_cases h3 : k = 3 <;> simp [name, h3, eq_comm]
  have hnew : ∀ s, name = some s → gooniesResolve F.registry s = none := by
    intro s hs
    rw [((hname s).mp hs).2]
    exact h.name_new le_rfl hk
  have hok : ∀ s, name = some s →
      (gooniesRegister emptyAtlas F.registry s (stockCoord k) true).1 = Err.ok := by
    intro s hs
    rw [((hname s).mp hs).2]
    exact stockName_accepted h.tidy.fabric.capacity (lt_of_le_of_lt h.room hroom) k _
  have halloc := @allocLocked_woven emptyAtlas F _ name _ true _ false
    ((h.tidy.fabric.getCell_none_iff _).mpr hfree) hclaim hok
  have htidy := @Tidy.allocLocked emptyAtlas F name _ true h.tidy
    (fun s _ => h.tidy.oneName_free hfree s) (fun _ => .inl hroom) false
  refine ⟨.alloc true name (stockCoord k) true false, _, .alloc _ _ _ _ _ _, ?_⟩
  change Stocked (allocLocked emptyAtlas true F name (stockCoord k) true false).2 ∧
    (allocLocked emptyAtlas true F name (stockCoord k) true false).2.cellCount = k + 1
  rw [halloc] at htidy ⊢
  have hold : ∀ v, v ≠ k →
      Function.update F.cells k (freshCell (stockCoord k) true) v = F.cells v :=
    fun v hne => Function.update_of_ne hne _ _
  refine ⟨⟨htidy, h.quiet, ⟨Nat.le_succ_of_le h2, fun v hv => ?_⟩, ?_, fun v hv2 hv => ?_, ?_,
    fun s c => ?_⟩, rfl⟩
  · change IsIdentity (Function.update F.cells k (freshCell (stockCoord k) true) v)
    rw [hold v (by omega)]
    exact h.seeded.2 v hv
  · change (Function.update F.cells k (freshCell (stockCoord k) true) 0).coord = _
    rw [hold 0 (by omega)]
    exact h.origin
  · change (Function.update F.cells k (freshCell (stockCoord k) true) v).coord = _
    change v < k + 1 at hv
    by_cases hne : v = k
    · rw [hne, Function.update_self, freshCell]
    · rw [hold v hne]
      exact h.paged v hv2 (by omega)
  · exact (withName_count _ _ _ _ _).trans (Nat.succ_le_succ h.room)
  · change Registered (withName emptyAtlas F.registry name (stockCoord k) true) s c ↔ _
    rw [h.tidy.names.withName_new hnew hok, h.names, hname, or_assoc]
    refine or_congr_right ⟨?_, ?_⟩
    · rintro (⟨v, hv2, hv, h3, hs, hc⟩ | ⟨⟨h3, hs⟩, hc⟩)
      · exact ⟨v, hv2, Nat.lt_succ_of_lt hv, h3, hs, hc⟩
      · exact ⟨k, h2, Nat.lt_succ_self k, h3, hs, hc⟩
    · rintro ⟨v, hv2, hv, h3, hs, hc⟩
      rcases Nat.lt_succ_iff_lt_or_eq.mp hv with hv | rfl
      · exact .inl ⟨v, hv2, hv, h3, hs, hc⟩
      · exact .inr ⟨⟨h3, hs⟩, hc⟩

end Stock

theorem exists_stocked {k : ℕ} (h2 : 2 ≤ k) (hk : k ≤ fabricMaxCells) :
    ∃ ops F, Run (FabricStep emptyAtlas) coldFabric ops F ∧ Stocked F ∧ F.cellCount = k := by
  induction k, h2 using Nat.le_induction with
  | base => exact ⟨[], coldFabric, .nil _, coldFabric_stocked, coldFabric_seeds.1⟩
  | succ k h2 ih =>
    obtain ⟨ops, F, hrun, hF, hcount⟩ := ih (by omega)
    obtain ⟨op, F', hstep, hF', hcount'⟩ := hF.page (by omega)
    exact ⟨ops ++ [op], F', hrun.append (.single hstep), hF', by omega⟩

/-- The calls of a run of allocations on a full fabric: what is new lies outside namespace 0,
and the ring's size in named evictable cells is there. -/
def PageCall (F : Fabric) : FabricOp → Prop
  | .alloc _ _ coord _ _ => F.cellCount = fabricMaxCells ∧
      evictionRingSize ≤ (namedEvictable F).length ∧
      (CoordFree F coord → coord 8 = 1 ∨ coord 8 = -1)
  | _ => False

theorem findVictim_next {F : Fabric} {t : ℕ} (ht : t < fabricMaxCells)
    (hle : F.lastEvictionIdx ≤ t)
    (hskip : ∀ v, F.lastEvictionIdx ≤ v → v < t → cellIsEvictable (F.cells v) = false)
    (hev : cellIsEvictable (F.cells t) = true) : findVictim F = some t := by
  have hslot : ∀ i ≤ t - F.lastEvictionIdx,
      (F.lastEvictionIdx + i) % fabricMaxCells = F.lastEvictionIdx + i :=
    fun i hi => Nat.mod_eq_of_lt (by omega)
  have hlast : F.lastEvictionIdx + (t - F.lastEvictionIdx) = t := by omega
  rw [findVictim, List.find?_map, Option.map_eq_some_iff]
  refine ⟨t - F.lastEvictionIdx, List.find?_range_eq_some.mpr ⟨?_, ?_, fun i hi => ?_⟩, ?_⟩
  · change cellIsEvictable (F.cells ((F.lastEvictionIdx + (t - F.lastEvictionIdx)) %
      fabricMaxCells)) = true
    rwa [hslot _ le_rfl, hlast]
  · exact List.mem_range.mpr (by omega)
  · have hno := hskip (F.lastEvictionIdx + i) (Nat.le_add_right _ _) (by omega)
    simpa [hslot i (Nat.le_of_lt hi)] using hno
  · rw [hslot _ le_rfl, hlast]

/-- Eight named pages are enough. -/
theorem Tidy.pageCall {F : Fabric} (h : Tidy F) (hcount : F.cellCount = fabricMaxCells)
    (hstock : ∀ v, 4 ≤ v → v < 12 →
      (F.cells v).coord = stockCoord v ∧ Registered F.registry (stockName v) (stockCoord v))
    (name : Option CName) (coord : Tryte9) (h8 : coord 8 = 1) :
    PageCall F (.alloc true name coord true false) := by
  have hsub : List.range' 4 8 ⊆ namedEvictable F := by
    intro v hv
    rw [List.mem_range'_1] at hv
    obtain ⟨hc, hr⟩ := hstock v hv.1 hv.2
    have hcells : fabricMaxCells = 256 := rfl
    refine List.mem_filter.mpr ⟨List.mem_range.mpr (by omega), ?_⟩
    rw [evictableName, if_pos (stock_evictable hc), hc, (h.names.resolveName_iff _ _).mpr hr]
    rfl
  have hlen := ((List.nodup_range' (s := 4) (n := 8)).subperm hsub).length_le
  rw [List.length_range'] at hlen
  exact ⟨hcount, hlen, fun _ => .inl h8⟩

/-- Slot `t` went to a page without a name. -/
structure Vacated (F F' : Fabric) (t : ℕ) (s : CName) (coord : Tryte9) : Prop where
  tidy : Tidy F'
  room : F'.registry.count < fabricMaxCells
  count : F'.cellCount = F.cellCount
  cell : (F'.cells t).coord = coord
  cells : ∀ v, v ≠ t → F'.cells v = F.cells v
  names : ∀ s' c, Registered F'.registry s' c ↔
    Registered F.registry s' c ∧ c ≠ (F.cells t).coord
  cursor : F'.lastEvictionIdx = (t + 1) % fabricMaxCells
  evictions : F'.evictionCount = (F.evictionCount + 1) % 2 ^ 32
  index : F'.evictionRingIdx = (F.evictionRingIdx + 1) % 2 ^ 32
  ring : F'.evictionRing =
    Function.update F.evictionRing (F.evictionRingIdx % evictionRingSize) s

theorem Tidy.vacate {F : Fabric} (h : Tidy F) (hcount : F.cellCount = fabricMaxCells) {t : ℕ}
    (hv : findVictim F = some t) {s : CName} (hs : Registered F.registry s (F.cells t).coord)
    {coord : Tryte9} (hfree : CoordFree F coord) :
    ∃ F', FabricStep emptyAtlas F (.alloc true none coord true false) F' ∧
      Vacated F F' t s coord := by
  have hclaim : claimSlot F = some (t, evict F t) := by
    rw [claimSlot, if_neg (Nat.not_lt_of_ge hcount.ge), hv]
    rfl
  have halloc := @allocLocked_woven emptyAtlas F _ none coord true _ false
    ((h.fabric.getCell_none_iff _).mpr hfree) hclaim (by simp)
  have htidy : Tidy (Goose.allocLocked emptyAtlas true F none coord true false).2 :=
    h.allocLocked (by simp) (fun _ => .inr (by simp)) false
  rw [halloc] at htidy
  have hroom := h.evict_room hs
  obtain ⟨i, hi, he⟩ := hs
  have hname := congrArg RegistryEntry.name he
  have hforget : forgetName F (F.cells t).coord = { F with
      evictionRing := Function.update F.evictionRing (F.evictionRingIdx % evictionRingSize) s
      evictionRingIdx := (F.evictionRingIdx + 1) % 2 ^ 32
      evictionCount := (F.evictionCount + 1) % 2 ^ 32
      registry := (registryRemoveCoord F.registry (F.cells t).coord).2 } := by
    rw [forgetName, (h.names.coords.keyed.findCoord_iff _ i).mpr
      ⟨hi, congrArg RegistryEntry.coord he⟩]
    dsimp only
    rw [hname]
  have hleft := (h.names.forget (F.cells t).coord).2
  refine ⟨_, .alloc _ _ _ _ _ _, ?_⟩
  change Vacated F (Goose.allocLocked emptyAtlas true F none coord true false).2 t s coord
  rw [halloc]
  refine ⟨htidy, hroom, evict_cellCount F t, ?_, fun v hne => ?_, hleft, rfl, ?_, ?_, ?_⟩
  · change (Function.update (evict F t).cells t (freshCell coord true) t).coord = coord
    rw [Function.update_self, freshCell]
  · change Function.update (evict F t).cells t _ v = F.cells v
    rw [Function.update_of_ne hne, evict_cells]
  · exact congrArg Fabric.evictionCount hforget
  · exact congrArg Fabric.evictionRingIdx hforget
  · exact congrArg Fabric.evictionRing hforget

theorem Tidy.name_live {F : Fabric} (h : Tidy F) {v : ℕ} (hv : v < F.cellCount)
    (hnone : ∀ s, ¬ Registered F.registry s (F.cells v).coord) {s : CName}
    (hnew : gooniesResolve F.registry s = none)
    (hok : (gooniesRegister emptyAtlas F.registry s (F.cells v).coord true).1 = Err.ok) :
    ∃ reg, FabricStep emptyAtlas F (.alloc true (some s) (F.cells v).coord true false)
        { F with registry := reg } ∧
      Tidy { F with registry := reg } ∧ ∀ s' c, Registered reg s' c ↔
        Registered F.registry s' c ∨ s' = s ∧ c = (F.cells v).coord := by
  have hget := (h.fabric.getCell_iff _ v).mpr ⟨hv, rfl⟩
  have hone : OneName F.registry s (F.cells v).coord := fun s' hs' =>
    absurd ((h.names.resolveName_iff s' _).mp hs') (hnone s')
  have htidy := @Tidy.allocLocked emptyAtlas F (some s) _ true h
    (fun _ hs' => Option.some.inj hs' ▸ hone) (fun hfree => absurd rfl (hfree v hv)) false
  have hstep := @FabricStep.alloc emptyAtlas F true (some s) (F.cells v).coord true false
  change FabricStep emptyAtlas F _ (Goose.allocLocked emptyAtlas true F (some s) (F.cells v).coord
    true false).2 at hstep
  simp only [Goose.allocLocked, Bool.not_true, Bool.false_eq_true, if_false, hget] at htidy hstep
  exact ⟨_, hstep, htidy, h.names.names.registered_new hnew hok⟩

section Full
variable {F : Fabric} (h : Stocked F) (hfull : F.cellCount = fabricMaxCells)

include h hfull

theorem Stocked.page_named {v : ℕ} (h2 : 2 ≤ v) (hv : v < 256) (h3 : v ≠ 3) :
    (F.cells v).coord = stockCoord v ∧ Registered F.registry (stockName v) (stockCoord v) :=
  ⟨h.paged v h2 (hfull ▸ hv), (h.names _ _).mpr (.inr ⟨v, h2, hfull ▸ hv, h3, rfl, rfl⟩)⟩

theorem Stocked.victim : findVictim F = some 2 := by
  have hcursor := h.quiet.2.2
  refine findVictim_next (by decide) (by omega) (fun v _ hv => ?_) ?_
  · exact (h.seeded.2 v hv).not_evictable
  · exact stock_evictable (h.paged 2 le_rfl (by rw [hfull]; decide))

theorem Stocked.unnamed (s : CName) : ¬ Registered F.registry s (stockCoord 3) := by
  have hcells : fabricMaxCells = 256 := rfl
  rw [h.names]
  rintro (hseed | ⟨v, -, hv, h3, -, hc⟩)
  · have h8 : ∀ e ∈ seedNames, e.coord ≠ stockCoord 3 := by decide
    exact h8 _ hseed rfl
  · exact h3 (stockCoord_inj (by decide) (by omega) hc).symm

section Next
variable {F₁ : Fabric} (h₁ : Vacated F F₁ 2 (stockName 2) (stockCoord 256))
include h₁

theorem Stocked.vacated_stock (v : ℕ) (h4 : 4 ≤ v) (hv : v < 12) :
    (F₁.cells v).coord = stockCoord v ∧
      Registered F₁.registry (stockName v) (stockCoord v) := by
  obtain ⟨hc2, -⟩ := h.page_named hfull le_rfl (by decide) (by decide)
  obtain ⟨hc, hr⟩ := h.page_named hfull (v := v) (by omega) (by omega) (by omega)
  refine ⟨by rw [h₁.cells v (by omega), hc], (h₁.names _ _).mpr ⟨hr, fun heq => ?_⟩⟩
  have := stockCoord_inj (by omega) (by decide) (heq.trans hc2)
  omega

theorem Stocked.vacated_name : gooniesResolve F₁.registry (stockName 2) = none := by
  obtain ⟨hc2, hr2⟩ := h.page_named hfull le_rfl (by decide) (by decide)
  refine (h₁.tidy.names.resolve_none_iff _).mpr fun c hr => ?_
  obtain ⟨hr, hne⟩ := (h₁.names _ c).mp hr
  exact hne ((h.tidy.names.coord_unique hr hr2).trans hc2.symm)

theorem Stocked.vacated_free : CoordFree F₁ (stockCoord 257) := by
  have hcells : fabricMaxCells = 256 := rfl
  have hcount := h₁.count
  intro v hv hc
  by_cases hv2 : v = 2
  · rw [hv2, h₁.cell] at hc
    exact absurd (stockCoord_inj (by decide) (by decide) hc) (by decide)
  · rw [h₁.cells v hv2] at hc
    exact h.free (w := 257) (by omega) (by decide) v (by omega) hc

end Next

/-- A victim's name that a page without one gets is evicted again two calls later. -/
theorem Stocked.repeats : ∃ ops F', Run (Guarded PageCall (FabricStep emptyAtlas)) F ops F' ∧
    ¬ (getEvictionRing F').Nodup := by
  have hcells : fabricMaxCells = 256 := rfl
  obtain ⟨hc2, hr2⟩ := h.page_named hfull le_rfl (by decide) (by decide)
  have hfree := h.free (w := 256) hfull.le (by decide)
  rw [← hc2] at hr2
  -- slot 2 goes, and its name with it
  obtain ⟨F₁, hstep₁, h₁⟩ := h.tidy.vacate hfull (h.victim hfull) hr2 hfree
  have hfull₁ := h₁.count.trans hfull
  have hstock₁ := h.vacated_stock hfull h₁
  -- slot 3 gets that name
  have hc3 : (F₁.cells 3).coord = stockCoord 3 := by
    rw [h₁.cells 3 (by decide), h.paged 3 (by decide) (by omega)]
  have hnone : ∀ s, ¬ Registered F₁.registry s (F₁.cells 3).coord := by
    intro s hr
    rw [hc3] at hr
    exact h.unnamed hfull s ((h₁.names s _).mp hr).1
  have hok : (gooniesRegister emptyAtlas F₁.registry (stockName 2) (F₁.cells 3).coord true).1 =
      Err.ok := stockName_accepted h₁.tidy.fabric.capacity h₁.room 2 _
  obtain ⟨reg, hstep₂, h₂, hnames₂⟩ :=
    h₁.tidy.name_live (v := 3) (by omega) hnone (h.vacated_name hfull h₁) hok
  have hstock₂ : ∀ v, 4 ≤ v → v < 12 → (F₁.cells v).coord = stockCoord v ∧
      Registered reg (stockName v) (stockCoord v) := by
    intro v h4 hv
    obtain ⟨hc, hr⟩ := hstock₁ v h4 hv
    exact ⟨hc, (hnames₂ _ _).mpr (.inl hr)⟩
  -- and goes itself
  have hvictim : findVictim { F₁ with registry := reg } = some 3 := by
    have hcursor : F₁.lastEvictionIdx = 3 := h₁.cursor
    refine findVictim_next (by decide) hcursor.le (fun v h3 hv => ?_) (stock_evictable hc3)
    have h3 : 3 ≤ v := hcursor.ge.trans h3
    omega
  have hfree₁ := h.vacated_free hfull h₁
  have hfree₂ : CoordFree { F₁ with registry := reg } (stockCoord 257) := hfree₁
  obtain ⟨F₃, hstep₃, h₃⟩ := h₂.vacate hfull₁ hvictim ((hnames₂ _ _).mpr (.inr ⟨rfl, rfl⟩)) hfree₂
  have hcall₁ := h.tidy.pageCall hfull (fun v h4 hv =>
    h.page_named hfull (by omega) (by omega) (by omega)) none (stockCoord 256) rfl
  have hcall₂ := h₁.tidy.pageCall hfull₁ hstock₁ (some (stockName 2)) (F₁.cells 3).coord
    (by rw [hc3]; rfl)
  have hcall₃ := h₂.pageCall hfull₁ hstock₂ none (stockCoord 257) rfl
  refine ⟨_, F₃, .cons ⟨hcall₁, hstep₁⟩ (.cons ⟨hcall₂, hstep₂⟩ (.single ⟨hcall₃, hstep₃⟩)), ?_⟩
  have hring : getEvictionRing F₃ = [stockName 2, stockName 2] := by
    obtain ⟨hcount, hindex, -⟩ := h.quiet
    simp [getEvictionRing, ringCount, evictionRingSize, List.range_succ, h₃.evictions, h₃.index,
      h₃.ring, h₁.evictions, h₁.index, h₁.ring, hcount, hindex]
  rw [hring]
  decide

/-- A name that is woven again takes its cell's place with it. -/
theorem Stocked.moves : ∃ op F', Guarded PageCall (FabricStep emptyAtlas) F op F' ∧
    gooniesResolve F'.registry seedOrigin = some (stockCoord 256) := by
  have hcells : fabricMaxCells = 256 := rfl
  obtain ⟨hc2, hr2⟩ := h.page_named hfull le_rfl (by decide) (by decide)
  rw [← hc2] at hr2
  have hfree := h.free (w := 256) hfull.le (by decide)
  have hroom := h.tidy.evict_room hr2
  have hclaim : claimSlot F = some (2, evict F 2) := by
    rw [claimSlot, if_neg (Nat.not_lt_of_ge hfull.ge), h.victim hfull]
    rfl
  have hacc : RegisterAccepts emptyAtlas seedOrigin true (evict F 2).registry.count :=
    ⟨hroom, by decide, by decide, fun _ => rfl⟩
  have hcap : (evict F 2).registry.capacity = fabricMaxCells :=
    (evict_capacity F 2).trans h.tidy.fabric.capacity
  have hok := (gooniesRegister_ok_iff emptyAtlas _ seedOrigin (stockCoord 256) true hcap).mpr hacc
  have hsafe : EvictionSafe emptyAtlas F (some seedOrigin) true := by
    refine .inr fun t ht s hs => ?_
    rw [h.victim hfull] at ht
    cases ht
    cases hs
    rwa [← evict_registry_count]
  have htidy := h.tidy.allocLocked (fun s _ => h.tidy.oneName_free hfree s) (fun _ => hsafe) false
  have hcall := h.tidy.pageCall hfull (fun v h4 hv =>
    h.page_named hfull (by omega) (by omega) (by omega)) (some seedOrigin) (stockCoord 256) rfl
  refine ⟨_, _, ⟨hcall, .alloc _ _ _ _ _ _⟩, ?_⟩
  change gooniesResolve
    (allocLocked emptyAtlas true F (some seedOrigin) (stockCoord 256) true false).2.registry
      seedOrigin = some (stockCoord 256)
  refine (htidy.names.names.resolve_iff _ _).mpr ?_
  rw [allocLocked_woven false ((h.tidy.fabric.getCell_none_iff _).mpr hfree) hclaim
    (fun s hs => Option.some.inj hs ▸ hok)]
  exact (h.tidy.names.forget (F.cells 2).coord).1.register_there hok

end Full

end ReflexOS.Goose
