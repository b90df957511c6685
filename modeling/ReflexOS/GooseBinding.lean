import ReflexOS.GooseTables

set_option autoImplicit false

/-!
# Names bound to cells

A registered name and the cell at its coordinate, across the weaves of other names: they
part only when the cell is a victim.
-/
namespace ReflexOS.Goose
open VmTernary LinearProbing

/-- The name is registered at the coordinate, and the index has cell `v` there. -/
structure BoundTo (F : Fabric) (name : CName) (coord : Tryte9) (v : ℕ) : Prop where
  resolve : gooniesResolve F.registry name = some coord
  getCell : getCellByCoord F coord = some v

/-- The name is registered nowhere else, and the index has no cell at the coordinate. -/
structure LostAt (F : Fabric) (name : CName) (coord : Tryte9) : Prop where
  resolve : ∀ c, gooniesResolve F.registry name = some c → c = coord
  getCell : getCellByCoord F coord = none

section Names

variable {reg : Registry} (h : NamesIndexed reg) {atlas : Atlas} {name : CName} {coord : Tryte9}
  {sys : Bool} (hnew : gooniesResolve reg name = none)
include h hnew

theorem NamesOver.resolve_register (hok : (gooniesRegister atlas reg name coord sys).1 = Err.ok) :
    gooniesResolve (gooniesRegister atlas reg name coord sys).2 name = some coord := by
  rw [(h.register atlas name coord sys).resolve_iff, h.registered_new hnew hok]
  exact .inr ⟨rfl, rfl⟩

theorem NamesOver.resolve_register_other {name' : CName} (hne : name' ≠ name) :
    gooniesResolve (gooniesRegister atlas reg name coord sys).2 name' = gooniesResolve reg name' := by
  by_cases hok : (gooniesRegister atlas reg name coord sys).1 = Err.ok
  · ext c
    rw [(h.register atlas name coord sys).resolve_iff, h.registered_new hnew hok, h.resolve_iff]
    simp [hne]
  · rw [gooniesRegister_fail _ _ _ _ _ hok]

end Names

section Effects

variable {F : Fabric} {S : Set ℕ} (h : TablesSound F S) {name : CName} {coord : Tryte9} {v : ℕ}
include h

theorem TablesSound.getCell_evict (t : ℕ) (c : Tryte9) :
    getCellByCoord (Goose.evict F t) c =
      if c = (F.cells t).coord then none else getCellByCoord F c := by
  split
  next hc =>
    rw [(h.evict t).getCell_none_iff, evict_cells]
    exact fun v hv he => hv.2 (he.trans hc)
  next hc =>
    ext v
    rw [(h.evict t).getCell_iff, h.getCell_iff, evict_cells]
    constructor
    · exact fun hv => ⟨hv.1.1, hv.2⟩
    · exact fun hv => ⟨⟨hv.1, fun he => hc (hv.2.symm.trans he)⟩, hv.2⟩

theorem TablesSound.registered_evict {t g : ℕ}
    (hf : registryFindCoord F.registry (F.cells t).coord = some g) (name' : CName) (c : Tryte9) :
    NamesIndexed (Goose.evict F t).registry ∧
      (Registered (Goose.evict F t).registry name' c ↔
        Registered F.registry name' c ∧ name' ≠ (F.registry.entries g).name) := by
  have hreg : (Goose.evict F t).registry = (registryRemoveCoord F.registry (F.cells t).coord).2 := by
    unfold Goose.evict Goose.forgetName
    dsimp only
    rw [hf]
  rw [hreg]
  obtain ⟨hleft, hiff⟩ := h.names.removeCoord hf
  exact ⟨hleft, hiff name' c⟩

theorem TablesSound.resolve_evict_found {t g : ℕ}
    (hf : registryFindCoord F.registry (F.cells t).coord = some g) :
    gooniesResolve F.registry (F.registry.entries g).name = some (F.cells t).coord ∧
      gooniesResolve (Goose.evict F t).registry (F.registry.entries g).name = none := by
  obtain ⟨hg, hgc⟩ := registryFindCoord_some (Nat.zero_lt_of_lt h.names.keyed.room) hf
  constructor
  · rw [h.names.resolve_iff, ← hgc]
    exact ⟨g, hg, rfl⟩
  · rw [Option.eq_none_iff_forall_ne_some]
    intro c hc
    obtain ⟨hleft, hiff⟩ := h.registered_evict hf (F.registry.entries g).name c
    exact (hiff.mp ((hleft.resolve_iff _ c).mp hc)).2 rfl

theorem TablesSound.resolve_evict (t : ℕ) :
    gooniesResolve (Goose.evict F t).registry name = gooniesResolve F.registry name ∨
      gooniesResolve (Goose.evict F t).registry name = none ∧
        gooniesResolve F.registry name = some (F.cells t).coord := by
  cases hf : registryFindCoord F.registry (F.cells t).coord with
  | none =>
    refine .inl (congrArg (fun reg => gooniesResolve reg name) ?_)
    unfold Goose.evict Goose.forgetName
    dsimp only
    rw [hf]
  | some g =>
    by_cases hn : name = (F.registry.entries g).name
    · obtain ⟨hres, hgone⟩ := h.resolve_evict_found hf
      rw [hn]
      exact .inr ⟨hgone, hres⟩
    · refine .inl ?_
      ext c
      obtain ⟨hleft, hiff⟩ := h.registered_evict hf name c
      rw [hleft.resolve_iff, hiff, h.names.resolve_iff]
      exact and_iff_left hn

/-- The index is the same after cells change that keep their coordinates. -/
theorem TablesSound.getCell_recoat {cells : ℕ → Cell}
    (hc : ∀ v, (cells v).coord = (F.cells v).coord) (c : Tryte9) :
    getCellByCoord { F with cells := cells } c = getCellByCoord F c := by
  ext v
  rw [(h.recoat hc).getCell_iff, h.getCell_iff]
  exact and_congr_right fun _ => by rw [hc v]

theorem TablesSound.getCell_append (hroom : F.cellCount < fabricMaxCells) (c : Tryte9) :
    getCellByCoord { F with cellCount := F.cellCount + 1 } c = getCellByCoord F c := by
  ext v
  rw [(h.append hroom).getCell_iff, h.getCell_iff]

theorem TablesSound.getCell_publish {idx : ℕ} (hlt : idx < F.cellCount) (hidx : idx ∉ S)
    (hfree : ∀ v ∈ S, (F.cells v).coord ≠ coord) (sys : Bool) (c : Tryte9) :
    getCellByCoord (Goose.publish F idx coord sys) c =
      if c = coord then some idx else getCellByCoord F c := by
  have hpub := h.publish hlt hidx hfree sys
  have hself : ((Goose.publish F idx coord sys).cells idx).coord = coord := by
    simp [Goose.publish, freshCell]
  split
  next hc =>
    rw [hpub.getCell_iff, hc]
    exact ⟨.inr rfl, hself⟩
  next hc =>
    ext v
    rw [hpub.getCell_iff, h.getCell_iff]
    by_cases hv : v = idx
    · subst hv
      refine iff_of_false (fun he => hc ?_) fun he => hidx he.1
      rw [← he.2, hself]
    · have hcell : (Goose.publish F idx coord sys).cells v = F.cells v :=
        Function.update_of_ne hv _ _
      rw [hcell]
      simp [hv]

theorem BoundTo.coord_eq (hb : BoundTo F name coord v) :
    v < F.cellCount ∧ (F.cells v).coord = coord := by
  obtain ⟨hv, hc⟩ := (h.getCell_iff coord v).mp hb.getCell
  exact ⟨h.live v hv, hc⟩

theorem BoundTo.recoat {cells : ℕ → Cell} (hb : BoundTo F name coord v)
    (hc : ∀ v, (cells v).coord = (F.cells v).coord) :
    BoundTo { F with cells := cells } name coord v :=
  ⟨hb.resolve, (h.getCell_recoat hc coord).trans hb.getCell⟩

theorem LostAt.recoat {cells : ℕ → Cell} (hl : LostAt F name coord)
    (hc : ∀ v, (cells v).coord = (F.cells v).coord) :
    LostAt { F with cells := cells } name coord :=
  ⟨hl.resolve, (h.getCell_recoat hc coord).trans hl.getCell⟩

theorem BoundTo.evict {t : ℕ} (hb : BoundTo F name coord v) (hne : (F.cells t).coord ≠ coord) :
    BoundTo (evict F t) name coord v := by
  refine ⟨?_, ?_⟩
  · rcases h.resolve_evict t with he | ⟨-, he⟩
    · rw [he, hb.resolve]
    · rw [hb.resolve] at he
      exact absurd (Option.some.inj he).symm hne
  · rw [h.getCell_evict, if_neg (Ne.symm hne), hb.getCell]

theorem BoundTo.lost {t : ℕ} (hb : BoundTo F name coord v) (hc : (F.cells t).coord = coord) :
    LostAt (Goose.evict F t) name coord := by
  refine ⟨fun c hres => ?_, ?_⟩
  · rcases h.resolve_evict t with he | ⟨he, -⟩
    · rw [he, hb.resolve] at hres
      exact (Option.some.inj hres).symm
    · rw [he] at hres
      cases hres
  · rw [h.getCell_evict, if_pos hc.symm]

theorem LostAt.evict (hl : LostAt F name coord) (t : ℕ) : LostAt (evict F t) name coord := by
  refine ⟨fun c hres => ?_, ?_⟩
  · rcases h.resolve_evict t with he | ⟨he, -⟩
    · exact hl.resolve c (by rw [← he, hres])
    · rw [he] at hres
      cases hres
  · rw [h.getCell_evict, hl.getCell, ite_self]

variable {atlas : Atlas} {new : CName} {sys : Bool} (hnew : gooniesResolve F.registry new = none)
  (hne : name ≠ new)
include hnew hne

theorem BoundTo.register (hb : BoundTo F name coord v) (c : Tryte9) :
    BoundTo { F with registry := (gooniesRegister atlas F.registry new c sys).2 } name coord v :=
  ⟨(h.names.resolve_register_other hnew hne).trans hb.resolve, hb.getCell⟩

theorem LostAt.register (hl : LostAt F name coord) (c : Tryte9) :
    LostAt { F with registry := (gooniesRegister atlas F.registry new c sys).2 } name coord :=
  ⟨fun d hd => hl.resolve d ((h.names.resolve_register_other hnew hne).symm.trans hd), hl.getCell⟩

end Effects

section Weave

variable {F : Fabric} {S : Set ℕ} (h : TablesSound F S) {name new : CName} {coord c : Tryte9}
  {v idx : ℕ} {atlas : Atlas} {sys : Bool} (hnew : gooniesResolve F.registry new = none)
include h hnew

theorem TablesSound.resolve_evict_none (t : ℕ) :
    gooniesResolve (Goose.evict F t).registry new = none := by
  rcases h.resolve_evict t with he | ⟨he, -⟩
  · rw [he, hnew]
  · exact he

section Publish

variable (hlt : idx < F.cellCount) (hidx : idx ∉ S) (hfree : ∀ v ∈ S, (F.cells v).coord ≠ c)
include hlt hidx hfree

theorem TablesSound.boundTo_publish
    (hok : (gooniesRegister atlas F.registry new c sys).1 = Err.ok) :
    BoundTo (Goose.publish { F with registry := (gooniesRegister atlas F.registry new c sys).2 }
      idx c sys) new c idx where
  resolve := h.names.resolve_register hnew hok
  getCell := by
    rw [(h.setRegistry (h.names.register atlas new c sys)).getCell_publish hlt hidx hfree,
      if_pos rfl]

theorem BoundTo.publish (hb : BoundTo F name coord v) (hne : name ≠ new) :
    BoundTo (Goose.publish { F with registry := (gooniesRegister atlas F.registry new c sys).2 }
      idx c sys) name coord v where
  resolve := (hb.register h hnew hne c).resolve
  getCell := by
    have hc : coord ≠ c := by
      rintro rfl
      have hnone := (h.getCell_none_iff coord).mpr hfree
      rw [hb.getCell] at hnone
      cases hnone
    rw [(h.setRegistry (h.names.register atlas new c sys)).getCell_publish hlt hidx hfree,
      if_neg hc]
    exact hb.getCell

theorem LostAt.publish (hl : LostAt F name coord) (hne : name ≠ new) (hc : coord ≠ c) :
    LostAt (Goose.publish { F with registry := (gooniesRegister atlas F.registry new c sys).2 }
      idx c sys) name coord where
  resolve := (hl.register h hnew hne c).resolve
  getCell := by
    rw [(h.setRegistry (h.names.register atlas new c sys)).getCell_publish hlt hidx hfree,
      if_neg hc]
    exact hl.getCell

end Publish

/-- What a property of the fabric has to survive so that it survives a weave under a new
name: a registration, the eviction of the victim, and a cell woven into a slot the index
does not have. -/
theorem TablesSound.allocLocked_keeps {P : Fabric → Prop} (hF : P F)
    (happend : F.cellCount < fabricMaxCells → P { F with cellCount := F.cellCount + 1 })
    (hevict : ∀ t, getCellByCoord F c = none → fabricMaxCells ≤ F.cellCount →
      findVictim F = some t → P (Goose.evict F t))
    (hregister : ∀ G S', TablesSound G S' → gooniesResolve G.registry new = none → P G →
      P { G with registry := (gooniesRegister atlas G.registry new c sys).2 })
    (hpublish : ∀ G S' idx, TablesSound G S' → gooniesResolve G.registry new = none →
      idx < G.cellCount → idx ∉ S' → (∀ v ∈ S', (G.cells v).coord ≠ c) → P G →
      P (Goose.publish { G with registry := (gooniesRegister atlas G.registry new c sys).2 } idx c
        sys)) (lock : Bool) :
    P (Goose.allocLocked atlas lock F (some new) c sys false).2 := by
  unfold Goose.allocLocked
  split
  · exact hF
  cases hget : getCellByCoord F c with
  | some e => exact hregister F S h hnew hF
  | none =>
    have hfree := (h.getCell_none_iff c).mp hget
    by_cases hroom : F.cellCount < fabricMaxCells
    · have hclaim : claimSlot F = some (F.cellCount, { F with cellCount := F.cellCount + 1 }) :=
        if_pos hroom
      rw [hclaim]
      dsimp only
      split
      · exact hregister F S h hnew hF
      · exact hpublish _ S F.cellCount (h.append hroom) hnew (Nat.lt_succ_self _)
          (fun hv => lt_irrefl _ (h.live _ hv)) hfree (happend hroom)
    · have hclaim : claimSlot F = (findVictim F).map fun t => (t, Goose.evict F t) := if_neg hroom
      rw [hclaim]
      cases hv : findVictim F with
      | none => exact hF
      | some t =>
        have hev := h.evict t
        have hnew' := h.resolve_evict_none hnew t
        have hP := hevict t hget (not_lt.mp hroom) hv
        simp only [Option.map_some]
        split
        · exact hregister _ _ hev hnew' hP
        · refine hpublish _ _ t hev hnew' ?_ (fun hv => hv.2 rfl) (fun w hw => ?_) hP
          · rw [evict_cellCount]
            exact lt_of_lt_of_le (findVictim_lt hv).1 (not_lt.mp hroom)
          · rw [evict_cells]
            exact hfree w hw.1

/-- A weave under a new name leaves every other name bound unless its cell is the victim. -/
theorem BoundTo.allocLocked (hb : BoundTo F name coord v)
    (hkept : ∀ t, getCellByCoord F c = none → fabricMaxCells ≤ F.cellCount →
      findVictim F = some t → (F.cells t).coord ≠ coord) (lock : Bool) :
    BoundTo (Goose.allocLocked atlas lock F (some new) c sys false).2 name coord v := by
  have hne : name ≠ new := by
    rintro rfl
    have := hb.resolve
    rw [hnew] at this
    cases this
  exact h.allocLocked_keeps (P := fun G => BoundTo G name coord v) hnew hb
    (fun hroom => ⟨hb.resolve, (h.getCell_append hroom coord).trans hb.getCell⟩)
    (fun t hget hfull hv => hb.evict h (hkept t hget hfull hv))
    (fun G S' hG hres hP => hP.register hG hres hne c)
    (fun G S' idx hG hres hlt hidx hfree hP => hP.publish hG hres hlt hidx hfree hne) lock

/-- Nothing but its own name or a cell at its own coordinate brings a lost name back. -/
theorem LostAt.allocLocked (hl : LostAt F name coord) (hne : name ≠ new)
    (hc : getCellByCoord F c = none → coord ≠ c) (lock : Bool) :
    LostAt (Goose.allocLocked atlas lock F (some new) c sys false).2 name coord := by
  cases hget : getCellByCoord F c with
  | some e =>
    unfold Goose.allocLocked
    split
    · exact hl
    · rw [hget]
      exact hl.register h hnew hne c
  | none =>
    exact h.allocLocked_keeps (P := fun G => LostAt G name coord) hnew hl
      (fun hroom => ⟨hl.resolve, (h.getCell_append hroom coord).trans hl.getCell⟩)
      (fun t _ _ _ => hl.evict h t)
      (fun G S' hG hres hP => hP.register hG hres hne c)
      (fun G S' idx hG hres hlt hidx hfree hP => hP.publish hG hres hlt hidx hfree hne (hc hget))
      lock

/-- A weave that gets a cell binds its name to it. -/
theorem TablesSound.allocLocked_boundTo {lock : Bool}
    (hgot : (Goose.allocLocked atlas lock F (some new) c sys false).1 = some idx) :
    BoundTo (Goose.allocLocked atlas lock F (some new) c sys false).2 new c idx := by
  unfold Goose.allocLocked at hgot ⊢
  split at hgot
  · cases hgot
  rw [if_neg ‹_›]
  cases hget : getCellByCoord F c with
  | some e =>
    rw [hget] at hgot
    cases hgot
  | none =>
    rw [hget] at hgot
    cases hc : claimSlot F with
    | none =>
      rw [hc] at hgot
      cases hgot
    | some claimed =>
      obtain ⟨i, F'⟩ := claimed
      obtain ⟨S', hsub, hF', hidx, hlt, hcells⟩ := h.claim hc
      have hnew' : gooniesResolve F'.registry new = none := by
        unfold claimSlot at hc
        split at hc
        · cases hc
          exact hnew
        · obtain ⟨t, -, hpair⟩ := Option.map_eq_some_iff.mp hc
          cases hpair
          exact h.resolve_evict_none hnew i
      have hfree := h.left_free hsub hcells hget
      rw [hc] at hgot
      dsimp only at hgot ⊢
      split at hgot
      · cases hgot
      next hok =>
        rw [if_neg hok]
        cases hgot
        exact hF'.boundTo_publish hnew' hlt hidx hfree (not_not.mp hok)

theorem BoundTo.evicted {t : ℕ} (hb : BoundTo F name coord v) (hget : getCellByCoord F c = none)
    (hfull : fabricMaxCells ≤ F.cellCount) (hv : findVictim F = some t)
    (ht : (F.cells t).coord = coord) :
    LostAt (Goose.allocLocked atlas true F (some new) c sys false).2 name coord := by
  have hne : name ≠ new := by
    rintro rfl
    have := hb.resolve
    rw [hnew] at this
    cases this
  have hcoord : coord ≠ c := by
    rintro rfl
    rw [hb.getCell] at hget
    cases hget
  have hev := h.evict t
  have hnew' := h.resolve_evict_none hnew t
  have hl := hb.lost h ht
  have hroom : ¬ F.cellCount < fabricMaxCells := not_lt.mpr hfull
  have hclaim : claimSlot F = some (t, Goose.evict F t) := by
    rw [claimSlot, if_neg hroom, hv]
    rfl
  unfold Goose.allocLocked
  rw [if_neg (by simp), hget]
  dsimp only
  rw [hclaim]
  dsimp only
  split
  · exact hl.register hev hnew' hne c
  · refine hl.publish hev hnew' ?_ (fun hv => hv.2 rfl) (fun w hw => ?_) hne hcoord
    · rw [evict_cellCount]
      exact lt_of_lt_of_le (findVictim_lt hv).1 hfull
    · rw [evict_cells]
      exact (h.getCell_none_iff c).mp hget w hw.1

end Weave

end ReflexOS.Goose
