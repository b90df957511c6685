import ReflexOS.GooseLoomReads

set_option autoImplicit false

/-!
# What a rejected fragment leaves

The names of a fragment are resolved before its routes are looked at, and to resolve a name
can be to weave a cell for it.
-/
namespace ReflexOS.Goose
open VmTernary Runs

structure Traceless {W : Type*} (T T' : Tapestry W) : Prop where
  fabric : SameTables T.substrate.fabric T'.substrate.fabric
  fields : T'.substrate.fields = T.substrate.fields
  supervised : T'.supervised = T.supervised
  fragments : T'.activeLoomFragments = T.activeLoomFragments

theorem Traceless.refl {W : Type*} (T : Tapestry W) : Traceless T T := ⟨.refl _, rfl, rfl, rfl⟩

/-- Nothing is left at the coordinate of the slot: no cell in the index and no name. -/
def Stray (F : Fabric) (t : ℕ) : Prop :=
  getCellByCoord F (F.cells t).coord = none ∧
    registryFindCoord F.registry (F.cells t).coord = none

/-- An allocation under a new name gives up, at most past a stray victim. -/
def AllocHarmless (atlas : Atlas) (F : Fabric) (name : CName) (coord : Tryte9) (sys : Bool) :
    Prop :=
  match getCellByCoord F coord with
  | some _ => Refuses atlas F.registry name coord sys
  | none =>
    if F.cellCount < fabricMaxCells then Refuses atlas F.registry name coord sys
    else ∀ t, findVictim F = some t → Stray F t ∧ Refuses atlas F.registry name coord sys

/-- The lookup of a name that is not registered has no place to weave, is refused, or is
harmless. -/
def LookupHarmless (atlas : Atlas) (lock : Bool) (F : Fabric) (M : Mesh) (name : CName) : Prop :=
  gooniesResolve F.registry name = none → ∀ coord sys, pageCoord atlas M name = some (coord, sys) →
    ¬ Refused atlas lock F sys → AllocHarmless atlas F name coord sys

/-- Where a harmless allocation leaves the eviction cursor. -/
def cursorAfterAlloc (F : Fabric) (coord : Tryte9) : ℕ :=
  if (getCellByCoord F coord).isSome || decide (F.cellCount < fabricMaxCells) then F.lastEvictionIdx
  else
    match findVictim F with
    | some t => (t + 1) % fabricMaxCells
    | none => F.lastEvictionIdx

def cursorAfter (atlas : Atlas) (lock : Bool) (F : Fabric) (M : Mesh) (name : CName) : ℕ :=
  match gooniesResolve F.registry name, pageCoord atlas M name with
  | none, some (coord, sys) =>
    if !lock || (!sys && (heapPressure atlas lock F).1) then F.lastEvictionIdx
    else cursorAfterAlloc F coord
  | _, _ => F.lastEvictionIdx

/-- The phantoms asked for, whether or not they are woven. -/
def ghostsAfter (F : Fabric) (M : Mesh) (name : CName) : ℕ :=
  if (gooniesResolve F.registry name).isNone && nsPeer.isPrefixOf name then M.ghostCounter + 1
  else M.ghostCounter

/-- The fabric and the mesh before the lookup of a name, all lookups before it harmless: only
the eviction cursor and the counter of the phantoms have moved. -/
def beforeLookup (atlas : Atlas) (calls : LoomCalls) (buffer : List UInt8) (F : Fabric) (M : Mesh) :
    ℕ → Fabric × Mesh
  | 0 => (F, M)
  | k + 1 =>
    let before := beforeLookup atlas calls buffer F M k
    let name := loomCellName buffer k
    ({ F with lastEvictionIdx := cursorAfter atlas (calls.lock k) before.1 before.2 name },
      { M with ghostCounter := ghostsAfter before.1 before.2 name })

def HarmlessAt (atlas : Atlas) (calls : LoomCalls) (buffer : List UInt8) (F : Fabric) (M : Mesh)
    (k : ℕ) : Prop :=
  let before := beforeLookup atlas calls buffer F M k
  LookupHarmless atlas (calls.lock k) before.1 before.2 (loomCellName buffer k)

/-- The header is refused, or no lookup of the fragment does any harm. -/
def LookupsHarmless {W : Type*} (atlas : Atlas) (calls : LoomCalls) (T : Tapestry W) :
    Option (List UInt8) → Prop
  | none => True
  | some buffer =>
    loomHeaderError T.activeLoomFragments buffer = Err.ok → ∀ k < (loomHeader buffer).cellCount,
      HarmlessAt atlas calls buffer T.substrate.fabric T.mesh k

section Alloc

variable {atlas : Atlas} {F : Fabric} {name : CName} {coord : Tryte9} {sys : Bool}

/-- A stray victim costs nothing but the cursor. -/
theorem Stray.evict {S : Set ℕ} (h : TablesSound F S) {t : ℕ} (ht : Stray F t) :
    evict F t = { F with lastEvictionIdx := (t + 1) % fabricMaxCells } := by
  have hlattice := h.latticeRemove_absent ((h.getCell_none_iff _).mp ht.1)
  unfold Goose.evict forgetName
  dsimp only
  rw [ht.2]
  dsimp only
  rw [hlattice]

theorem AllocEnd.harmless {S : Set ℕ} (h : TablesSound F S) {got : Option ℕ × Fabric}
    (hend : AllocEnd atlas F name coord sys got) (hsafe : AllocHarmless atlas F name coord sys) :
    got = (none, { F with lastEvictionIdx := cursorAfterAlloc F coord }) := by
  unfold AllocHarmless at hsafe
  unfold cursorAfterAlloc
  cases hend with
  | occupied e hget =>
    rw [hget] at hsafe ⊢
    rw [gooniesRegister_fail _ _ _ _ _ hsafe]
    rfl
  | refused hget hroom hr =>
    rw [hget, decide_eq_true hroom]
    rfl
  | noVictim hget hfull hv =>
    rw [hget, decide_eq_false hfull, hv]
    rfl
  | victimLost t hget hfull hv hr =>
    rw [hget] at hsafe ⊢
    dsimp only at hsafe
    rw [if_neg hfull] at hsafe
    rw [decide_eq_false hfull, hv, (hsafe t hv).1.evict h]
    rfl
  | woven idx G hget hroom hfull _ _ =>
    rw [hget] at hsafe
    dsimp only at hsafe
    split at hsafe
    next hlt => exact absurd hsafe (hroom hlt)
    next hlt =>
      obtain ⟨t, hv, hno⟩ := hfull hlt
      obtain ⟨hstray, hr⟩ := hsafe t hv
      rw [hstray.evict h] at hno
      exact absurd hr hno

/-- A difference that shows in the tables: a coordinate without its cell, or a name gained or
lost. -/
inductive Marked (F G : Fabric) : Prop where
  | cell (coord : Tryte9) (hcell : getCellByCoord F coord ≠ none)
      (hgone : getCellByCoord G coord = none)
  | named (name : CName) (coord : Tryte9) (hcell : getCellByCoord F coord ≠ none)
      (hnew : gooniesResolve F.registry name = none)
      (hres : gooniesResolve G.registry name = some coord)
  | unnamed (name : CName) (coord : Tryte9) (hgone : getCellByCoord G coord = none)
      (hold : gooniesResolve F.registry name = some coord)
      (hres : gooniesResolve G.registry name ≠ some coord)

/-- What a lookup that weaves nothing can do. -/
inductive Unwoven (atlas : Atlas) (F : Fabric) : Fabric → Prop where
  | same : Unwoven atlas F F
  | aliased (name : CName) (coord : Tryte9) (sys : Bool)
      (hnew : gooniesResolve F.registry name = none) (hcell : getCellByCoord F coord ≠ none) :
      Unwoven atlas F { F with registry := (gooniesRegister atlas F.registry name coord sys).2 }
  | evicted (t : ℕ) : Unwoven atlas F (evict F t)

theorem AllocEnd.unwoven {got : Option ℕ × Fabric} (hend : AllocEnd atlas F name coord sys got)
    (hnew : gooniesResolve F.registry name = none) (hnone : got.1 = none) :
    Unwoven atlas F got.2 := by
  cases hend with
  | occupied e hget => exact .aliased name coord sys hnew (by simp [hget])
  | refused => exact .same
  | noVictim => exact .same
  | victimLost t => exact .evicted t
  | woven => cases hnone

/-- An allocation that is not harmless weaves a cell or leaves a mark. -/
theorem AllocEnd.marked {S : Set ℕ} (h : TablesSound F S) {got : Option ℕ × Fabric}
    (hend : AllocEnd atlas F name coord sys got) (hnew : gooniesResolve F.registry name = none)
    (hharm : ¬ AllocHarmless atlas F name coord sys) (hnone : got.1 = none) : Marked F got.2 := by
  unfold AllocHarmless at hharm
  cases hend with
  | occupied e hget =>
    rw [hget] at hharm
    have hcell : getCellByCoord F coord ≠ none := by simp [hget]
    exact .named name coord hcell hnew (h.names.resolve_register hnew (not_not.mp hharm))
  | refused hget hroom hr =>
    rw [hget] at hharm
    dsimp only at hharm
    rw [if_pos hroom] at hharm
    exact absurd hr hharm
  | noVictim hget hfull hv =>
    rw [hget] at hharm
    dsimp only at hharm
    rw [if_neg hfull, hv] at hharm
    exact absurd (fun t ht => by cases ht) hharm
  | victimLost t hget hfull hv hr =>
    have hgone : getCellByCoord (evict F t) (F.cells t).coord = none := by
      rw [h.getCell_evict, if_pos rfl]
    by_cases hcell : getCellByCoord F (F.cells t).coord = none
    · cases hfind : registryFindCoord F.registry (F.cells t).coord with
      | none =>
        have hstray : Stray F t := ⟨hcell, hfind⟩
        rw [hget] at hharm
        dsimp only at hharm
        rw [if_neg hfull] at hharm
        refine absurd (fun u hu => ?_) hharm
        rw [hv] at hu
        cases hu
        rw [hstray.evict h] at hr
        exact ⟨hstray, hr⟩
      | some g =>
        obtain ⟨hold, hlost⟩ := h.resolve_evict_found hfind
        exact .unnamed _ _ hgone hold (by simp [hlost])
    · exact .cell _ hcell hgone
  | woven => cases hnone

theorem Marked.unwoven {F₀ G : Fabric} {S : Set ℕ} (h : TablesSound F S) (hm : Marked F₀ F)
    (hstep : Unwoven atlas F G) : Marked F₀ G := by
  cases hstep with
  | same => exact hm
  | aliased new c sys hnew hcell =>
    cases hm with
    | cell coord hcell₀ hgone => exact .cell coord hcell₀ hgone
    | named name coord hcell₀ hnew₀ hres =>
      have hne : name ≠ new := by
        rintro rfl
        rw [hnew] at hres
        cases hres
      exact .named name coord hcell₀ hnew₀ ((h.names.resolve_register_other hnew hne).trans hres)
    | unnamed name coord hgone hold hres =>
      refine .unnamed name coord hgone hold ?_
      by_cases hn : name = new
      · subst hn
        by_cases hok : (gooniesRegister atlas F.registry name c sys).1 = Err.ok
        · -- The coordinate of the alias has a cell, the mark's has none.
          rw [show _ = some c from h.names.resolve_register hnew hok]
          rintro hc
          cases hc
          exact hcell hgone
        · rw [show (gooniesRegister atlas F.registry name c sys).2 = F.registry from
            gooniesRegister_fail _ _ _ _ _ hok]
          exact hres
      · rwa [show gooniesResolve (gooniesRegister atlas F.registry new c sys).2 name = _ from
          h.names.resolve_register_other hnew hn]
  | evicted t =>
    have hgone : ∀ c, getCellByCoord F c = none → getCellByCoord (evict F t) c = none := by
      intro c hc
      rw [h.getCell_evict, hc, ite_self]
    cases hm with
    | cell coord hcell₀ hc => exact .cell coord hcell₀ (hgone coord hc)
    | named name coord hcell₀ hnew₀ hres =>
      rcases @TablesSound.resolve_evict F S h name t with he | ⟨-, he⟩
      · exact .named name coord hcell₀ hnew₀ (he.trans hres)
      · -- The coordinate that was given a name was the victim's.
        have hc : coord = (F.cells t).coord := Option.some.inj (hres.symm.trans he)
        refine .cell coord hcell₀ ?_
        rw [h.getCell_evict, if_pos hc]
    | unnamed name coord hc hold hres =>
      refine .unnamed name coord (hgone coord hc) hold ?_
      rcases @TablesSound.resolve_evict F S h name t with he | ⟨he, -⟩
      · rwa [he]
      · rw [he]
        exact (Option.some_ne_none coord).symm

theorem Marked.not_same {F₀ : Fabric} (h₀ : F₀.latticeStable = true) (h : F.latticeStable = true)
    (hm : Marked F₀ F) : ¬ SameTables F₀ F := by
  intro hsame
  have hget : ∀ c, getCellByCoord F c = getCellByCoord F₀ c := by
    intro c
    unfold getCellByCoord
    rw [h₀, h, hsame.lattice, hsame.cells, hsame.cellCount]
  cases hm with
  | cell coord hcell hgone => exact hcell ((hget coord).symm.trans hgone)
  | named name coord _ hnew hres =>
    rw [hsame.registry, hnew] at hres
    cases hres
  | unnamed name coord _ hold hres =>
    rw [hsame.registry] at hres
    exact hres hold

theorem Unwoven.counts {G : Fabric} (hstep : Unwoven atlas F G) :
    G.version = F.version ∧ G.cellCount = F.cellCount := by
  cases hstep with
  | same => exact ⟨rfl, rfl⟩
  | aliased => exact ⟨rfl, rfl⟩
  | evicted t => exact ⟨evict_version F t, evict_cellCount F t⟩

end Alloc

section Lookup

variable {atlas : Atlas} {hmac : List UInt8 → List UInt8} {lock : Bool} {now : ℕ} {F : Fabric}
  {M : Mesh} {name : CName}

theorem refused_iff {sys : Bool} :
    Refused atlas lock F sys ↔ (!lock || (!sys && (heapPressure atlas lock F).1)) = true := by
  unfold Refused
  simp

theorem gooniesResolveCell_unwoven (hheap : atlas heapPressureName = none) {coord : Tryte9}
    {sys : Bool} (hnew : gooniesResolve F.registry name = none)
    (hpage : pageCoord atlas M name = some (coord, sys)) (hr : ¬ Refused atlas lock F sys)
    (hnone : (allocLocked atlas true F (some name) coord sys false).1 = none) :
    (gooniesResolveCell atlas hmac lock now F M name).2.1 =
      (allocLocked atlas true F (some name) coord sys false).2 := by
  unfold gooniesResolveCell
  by_cases hpeer : nsPeer.isPrefixOf name
  · rw [pageCoord, if_pos hpeer] at hpage
    cases hpage
    rw [if_pos (by simp [hnew, hpeer])]
    unfold resolvePeer
    dsimp only
    rw [atmosphereQuery_ghostCounter, fabricAllocCell, fabricAllocInternal_free hheap hr, hnone]
  · rw [pageCoord, if_neg hpeer] at hpage
    obtain ⟨e, he, hpair⟩ := Option.map_eq_some_iff.mp hpage
    cases hpair
    have hlock : lock = true := by simpa [Refused] using hr
    rw [if_neg (by simp [hpeer]), hlock]
    unfold resolveCell
    rw [hnew, he]
    dsimp only
    rw [hnone]

/-- A lookup weaves nothing, or weaves one cell, which the version counts. -/
theorem lookup_counts (hheap : atlas heapPressureName = none) :
    Unwoven atlas F (gooniesResolveCell atlas hmac lock now F M name).2.1 ∨
      (gooniesResolveCell atlas hmac lock now F M name).2.1.version = (F.version + 1) % 2 ^ 32 ∧
      (gooniesResolveCell atlas hmac lock now F M name).2.1.cellCount =
        if F.cellCount < fabricMaxCells then F.cellCount + 1 else F.cellCount := by
  cases hres : gooniesResolve F.registry name with
  | some coord =>
    rw [gooniesResolveCell_known hres]
    exact .inl .same
  | none =>
    rcases @gooniesResolveCell_new atlas hmac lock now F M name hheap hres with
      ⟨-, -, hF⟩ | ⟨coord, sys, cells, hpage, hr, -, -, hF⟩
    · rw [hF]
      exact .inl .same
    · have hend := allocLocked_end atlas F name coord sys
      cases hgot : (allocLocked atlas true F (some name) coord sys false).1 with
      | none =>
        rw [gooniesResolveCell_unwoven hheap hres hpage hr hgot]
        exact .inl (hend.unwoven hres hgot)
      | some idx =>
        rw [hF]
        exact .inr (hend.counts hgot)

theorem lookup_harmless {S : Set ℕ} (h : TablesSound F S) (hheap : atlas heapPressureName = none)
    (hsafe : LookupHarmless atlas lock F M name) :
    (gooniesResolveCell atlas hmac lock now F M name).2.1 =
      { F with lastEvictionIdx := cursorAfter atlas lock F M name } := by
  unfold cursorAfter
  cases hres : gooniesResolve F.registry name with
  | some coord => rw [gooniesResolveCell_known hres]
  | none =>
    rcases @gooniesResolveCell_new atlas hmac lock now F M name hheap hres with
      ⟨hrefused, -, hF⟩ | ⟨coord, sys, cells, hpage, hr, -, -, -⟩
    · rw [hF]
      cases hpage : pageCoord atlas M name with
      | none => rfl
      | some page =>
        dsimp only
        rw [if_pos (refused_iff.mp (hrefused _ _ hpage))]
    · have hend := (allocLocked_end atlas F name coord sys).harmless h (hsafe hres _ _ hpage hr)
      rw [gooniesResolveCell_unwoven hheap hres hpage hr (congrArg Prod.fst hend), hend, hpage]
      dsimp only
      rw [if_neg (mt refused_iff.mpr hr)]

theorem lookup_marked {S : Set ℕ} (h : TablesSound F S) (hheap : atlas heapPressureName = none)
    (hharm : ¬ LookupHarmless atlas lock F M name)
    (hweaves : (gooniesResolveCell atlas hmac lock now F M name).2.1.version = F.version) :
    Marked F (gooniesResolveCell atlas hmac lock now F M name).2.1 := by
  unfold LookupHarmless at hharm
  simp only [not_forall] at hharm
  obtain ⟨hres, coord, sys, hpage, hr, hharm⟩ := hharm
  have hend := allocLocked_end atlas F name coord sys
  cases hgot : (allocLocked atlas true F (some name) coord sys false).1 with
  | none =>
    rw [gooniesResolveCell_unwoven hheap hres hpage hr hgot]
    exact hend.marked h hres hharm hgot
  | some idx =>
    rcases @gooniesResolveCell_new atlas hmac lock now F M name hheap hres with
      ⟨hrefused, -, -⟩ | ⟨coord', sys', cells, hpage', -, -, -, hF⟩
    · exact absurd (hrefused _ _ hpage) hr
    · rw [hpage] at hpage'
      cases hpage'
      have hversion := (hend.counts hgot).1
      rw [hF] at hweaves
      have hsame : (F.version + 1) % 2 ^ 32 = F.version := hversion.symm.trans hweaves
      omega

theorem lookup_ghosts :
    (gooniesResolveCell atlas hmac lock now F M name).2.2.ghostCounter = ghostsAfter F M name := by
  unfold gooniesResolveCell ghostsAfter
  split
  · rw [resolvePeer_mesh, atmosphereQuery_ghostCounter]
  · rfl

end Lookup

theorem pageCoord_congr {atlas : Atlas} {M M' : Mesh} {name : CName}
    (hM : M.ghostCounter = M'.ghostCounter) : pageCoord atlas M name = pageCoord atlas M' name := by
  unfold pageCoord
  rw [hM]

section Names

variable {atlas : Atlas} {hmac : List UInt8 → List UInt8} {calls : LoomCalls}
  {buffer : List UInt8} {F : Fabric} {M : Mesh}

theorem beforeLookup_fabric (k : ℕ) : ∃ c, (beforeLookup atlas calls buffer F M k).1 =
    { F with lastEvictionIdx := c } := by
  cases k with
  | zero => exact ⟨F.lastEvictionIdx, rfl⟩
  | succ k => exact ⟨_, rfl⟩

/-- Marks are no matter of the eviction cursor. -/
theorem Marked.of_beforeLookup {G : Fabric} {k : ℕ}
    (hm : Marked (beforeLookup atlas calls buffer F M k).1 G) : Marked F G := by
  obtain ⟨c, hc⟩ := @beforeLookup_fabric atlas calls buffer F M k
  rw [hc] at hm
  cases hm with
  | cell coord hcell hgone => exact .cell coord hcell hgone
  | named name coord hcell hnew hres => exact .named name coord hcell hnew hres
  | unnamed name coord hgone hold hres => exact .unnamed name coord hgone hold hres

/-- The lookups weave nothing and keep both counts, or the version counts what they weave. -/
theorem resolveNames_counts (hheap : atlas heapPressureName = none) (n : ℕ) :
    ((∀ k < n, Unwoven atlas (resolveNames atlas hmac calls buffer F M k).fabric
        (resolveNames atlas hmac calls buffer F M (k + 1)).fabric) ∧
      (resolveNames atlas hmac calls buffer F M n).fabric.version = F.version ∧
      (resolveNames atlas hmac calls buffer F M n).fabric.cellCount = F.cellCount) ∨
    (∃ p, 0 < p ∧ p ≤ n ∧ (resolveNames atlas hmac calls buffer F M n).fabric.version =
        (F.version + p) % 2 ^ 32) ∧
      (F.cellCount < fabricMaxCells →
        F.cellCount < (resolveNames atlas hmac calls buffer F M n).fabric.cellCount) := by
  induction n with
  | zero => exact .inl ⟨fun k hk => absurd hk (Nat.not_lt_zero k), rfl, rfl⟩
  | succ n ih =>
    have hstep := @lookup_counts atlas hmac (calls.lock n) (calls.now n)
      (resolveNames atlas hmac calls buffer F M n).fabric
      (resolveNames atlas hmac calls buffer F M n).mesh (loomCellName buffer n) hheap
    change Unwoven atlas _ (resolveNames atlas hmac calls buffer F M (n + 1)).fabric ∨
      (resolveNames atlas hmac calls buffer F M (n + 1)).fabric.version = _ ∧
        (resolveNames atlas hmac calls buffer F M (n + 1)).fabric.cellCount = _ at hstep
    rcases ih with ⟨hunwoven, hversion, hcount⟩ | ⟨⟨p, hp, hpn, hversion⟩, hgrown⟩
    · rcases hstep with hstep | ⟨hv, hc⟩
      · obtain ⟨hv, hc⟩ := hstep.counts
        refine .inl ⟨fun k hk => ?_, hv.trans hversion, hc.trans hcount⟩
        rcases Nat.lt_succ_iff_lt_or_eq.mp hk with hk | rfl
        · exact hunwoven k hk
        · exact hstep
      · refine .inr ⟨⟨1, Nat.one_pos, by omega, by rw [hv, hversion]⟩, fun hroom => ?_⟩
        rw [hc, hcount, if_pos hroom]
        exact Nat.lt_succ_self _
    · rcases hstep with hstep | ⟨hv, hc⟩
      · obtain ⟨hv, hc⟩ := hstep.counts
        rw [hv, hc]
        exact .inr ⟨⟨p, hp, by omega, hversion⟩, hgrown⟩
      · refine .inr ⟨⟨p + 1, by omega, by omega, ?_⟩, fun hroom => ?_⟩
        · rw [hv, hversion]
          omega
        · have := hgrown hroom
          rw [hc]
          split <;> omega

/-- Where the tables end as they were, and so does the version or the fabric had room, nothing
was woven on the way. -/
theorem unwoven_of_same (hheap : atlas heapPressureName = none) {n : ℕ} (hn : n < 2 ^ 32)
    (hsame : SameTables F (resolveNames atlas hmac calls buffer F M n).fabric)
    (h : (resolveNames atlas hmac calls buffer F M n).fabric.version = F.version ∨
      F.cellCount < fabricMaxCells) :
    ∀ k < n, Unwoven atlas (resolveNames atlas hmac calls buffer F M k).fabric
      (resolveNames atlas hmac calls buffer F M (k + 1)).fabric := by
  rcases @resolveNames_counts atlas hmac calls buffer F M hheap n with
    ⟨hunwoven, -, -⟩ | ⟨⟨p, hp, hpn, hversion⟩, hgrown⟩
  · exact hunwoven
  · rcases h with h | hroom
    · rw [h] at hversion
      omega
    · exact absurd hsame.cellCount (Nat.ne_of_gt (hgrown hroom))

variable (hF : Tabled F) (hheap : atlas heapPressureName = none)
include hF hheap

theorem resolveNames_harmless {n : ℕ} (hsafe : ∀ k < n, HarmlessAt atlas calls buffer F M k) :
    (resolveNames atlas hmac calls buffer F M n).fabric =
        (beforeLookup atlas calls buffer F M n).1 ∧
      (resolveNames atlas hmac calls buffer F M n).mesh.ghostCounter =
        (beforeLookup atlas calls buffer F M n).2.ghostCounter := by
  induction n with
  | zero => exact ⟨rfl, rfl⟩
  | succ n ih =>
    obtain ⟨hfabric, hghosts⟩ := ih fun k hk => hsafe k (Nat.lt_succ_of_lt hk)
    obtain ⟨S, h⟩ := hF.resolveNames hmac calls buffer M hheap n
    have hpage : pageCoord atlas (beforeLookup atlas calls buffer F M n).2 (loomCellName buffer n) =
        pageCoord atlas (resolveNames atlas hmac calls buffer F M n).mesh (loomCellName buffer n) :=
      pageCoord_congr hghosts.symm
    have hlookup := hsafe n (Nat.lt_succ_self n)
    unfold HarmlessAt LookupHarmless at hlookup
    dsimp only at hlookup
    rw [hpage, ← hfabric] at hlookup
    constructor
    · refine (lookup_harmless h hheap hlookup).trans ?_
      unfold beforeLookup cursorAfter
      dsimp only
      rw [hpage, hfabric]
      obtain ⟨c, hc⟩ := @beforeLookup_fabric atlas calls buffer F M n
      rw [hc]
    · refine lookup_ghosts.trans ?_
      unfold beforeLookup ghostsAfter
      dsimp only
      rw [hfabric, hghosts]

theorem marked_of_harm {k : ℕ} (hsafe : ∀ j < k, HarmlessAt atlas calls buffer F M j)
    (hharm : ¬ HarmlessAt atlas calls buffer F M k)
    (hunwoven : Unwoven atlas (resolveNames atlas hmac calls buffer F M k).fabric
      (resolveNames atlas hmac calls buffer F M (k + 1)).fabric) :
    Marked F (resolveNames atlas hmac calls buffer F M (k + 1)).fabric := by
  obtain ⟨hfabric, hghosts⟩ := @resolveNames_harmless atlas hmac calls buffer F M hF hheap k hsafe
  obtain ⟨S, h⟩ := hF.resolveNames hmac calls buffer M hheap k
  have hpage : pageCoord atlas (beforeLookup atlas calls buffer F M k).2 (loomCellName buffer k) =
      pageCoord atlas (resolveNames atlas hmac calls buffer F M k).mesh (loomCellName buffer k) :=
    pageCoord_congr hghosts.symm
  unfold HarmlessAt LookupHarmless at hharm
  dsimp only at hharm
  rw [hpage, ← hfabric] at hharm
  have hmark : Marked (resolveNames atlas hmac calls buffer F M k).fabric
      (resolveNames atlas hmac calls buffer F M (k + 1)).fabric :=
    lookup_marked h hheap hharm hunwoven.counts.1
  rw [hfabric] at hmark
  exact hmark.of_beforeLookup

theorem marked_resolveNames {m n : ℕ} (hmn : m ≤ n)
    (hm : Marked F (resolveNames atlas hmac calls buffer F M m).fabric)
    (hunwoven : ∀ k < n, Unwoven atlas (resolveNames atlas hmac calls buffer F M k).fabric
      (resolveNames atlas hmac calls buffer F M (k + 1)).fabric) :
    Marked F (resolveNames atlas hmac calls buffer F M n).fabric := by
  induction n, hmn using Nat.le_induction with
  | base => exact hm
  | succ n hmn ih =>
    obtain ⟨S, h⟩ := hF.resolveNames hmac calls buffer M hheap n
    exact (ih fun k hk => hunwoven k (Nat.lt_succ_of_lt hk)).unwoven h
      (hunwoven n (Nat.lt_succ_self n))

/-- Where nothing was woven and the tables are as they were, every lookup was harmless: the
first that was not has left a mark. -/
theorem harmless_of_same {n : ℕ}
    (hunwoven : ∀ k < n, Unwoven atlas (resolveNames atlas hmac calls buffer F M k).fabric
      (resolveNames atlas hmac calls buffer F M (k + 1)).fabric)
    (hsame : SameTables F (resolveNames atlas hmac calls buffer F M n).fabric) {k : ℕ}
    (hk : k < n) : HarmlessAt atlas calls buffer F M k := by
  induction k using Nat.strong_induction_on with
  | _ k ih =>
    by_contra hharm
    have hmark := marked_of_harm hF hheap (fun j hj => ih j hj (hj.trans hk)) hharm (hunwoven k hk)
    obtain ⟨S, h⟩ := hF
    obtain ⟨S', h'⟩ := Tabled.resolveNames hmac calls buffer M ⟨S, h⟩ hheap n
    exact (marked_resolveNames ⟨S, h⟩ hheap hk hmark hunwoven).not_same h.stable h'.stable hsame

/-- The lookups of a fragment change neither the tables nor the version exactly if all of them
are harmless; with room on the fabric the tables alone say it. -/
theorem harmless_iff {n : ℕ} (hn : n < 2 ^ 32) :
    (SameTables F (resolveNames atlas hmac calls buffer F M n).fabric ∧
        (resolveNames atlas hmac calls buffer F M n).fabric.version = F.version ↔
      ∀ k < n, HarmlessAt atlas calls buffer F M k) ∧
    (F.cellCount < fabricMaxCells →
      (SameTables F (resolveNames atlas hmac calls buffer F M n).fabric ↔
        ∀ k < n, HarmlessAt atlas calls buffer F M k)) := by
  have hback : (∀ k < n, HarmlessAt atlas calls buffer F M k) →
      SameTables F (resolveNames atlas hmac calls buffer F M n).fabric ∧
        (resolveNames atlas hmac calls buffer F M n).fabric.version = F.version := by
    intro hsafe
    obtain ⟨c, hc⟩ := @beforeLookup_fabric atlas calls buffer F M n
    rw [(@resolveNames_harmless atlas hmac calls buffer F M hF hheap n hsafe).1, hc]
    exact ⟨⟨rfl, rfl, rfl, rfl⟩, rfl⟩
  refine ⟨⟨fun ⟨hsame, hversion⟩ k hk => ?_, hback⟩, fun hroom =>
    ⟨fun hsame k hk => ?_, fun hsafe => (hback hsafe).1⟩⟩
  · exact harmless_of_same hF hheap (unwoven_of_same hheap hn hsame (.inl hversion)) hsame hk
  · exact harmless_of_same hF hheap (unwoven_of_same hheap hn hsame (.inr hroom)) hsame hk

end Names

theorem loomHeader_cellCount_lt (buffer : List UInt8) : (loomHeader buffer).cellCount < 2 ^ 32 := by
  have hlt := LittleEndian.decode_lt ((buffer.drop 12).take 2)
  have hlen : ((buffer.drop 12).take 2).length ≤ 2 := List.length_take_le _ _
  calc (loomHeader buffer).cellCount < 256 ^ ((buffer.drop 12).take 2).length := hlt
    _ ≤ 256 ^ 2 := Nat.pow_le_pow_right (by decide) hlen
    _ < 2 ^ 32 := by decide

/-- A rejected fragment leaves no trace and the version alone exactly if none of its lookups
does harm; with room on the fabric, it leaves no trace exactly then. -/
theorem rejected_traceless_iff {W : Type*} {atlas : Atlas} {hmac : List UInt8 → List UInt8}
    {calls : LoomCalls} {buffer : Option (List UInt8)} {T : Tapestry W} {purpose : Bool}
    {F₀ : Fabric} {ops : List FabricOp} (hheap : atlas heapPressureName = none)
    (hrun : Run (FabricStep atlas) (fabricInit atlas true purpose F₀) ops T.substrate.fabric)
    (hrejected : (weaveLoom atlas hmac calls T buffer).1 ≠ Err.ok) :
    (Traceless T (weaveLoom atlas hmac calls T buffer).2 ∧
        (weaveLoom atlas hmac calls T buffer).2.substrate.fabric.version =
          T.substrate.fabric.version ↔
      LookupsHarmless atlas calls T buffer) ∧
    (T.substrate.fabric.cellCount < fabricMaxCells →
      (Traceless T (weaveLoom atlas hmac calls T buffer).2 ↔
        LookupsHarmless atlas calls T buffer)) := by
  cases buffer with
  | none =>
    exact ⟨iff_of_true ⟨.refl T, rfl⟩ trivial, fun _ => iff_of_true (.refl T) trivial⟩
  | some buffer =>
    rw [weaveLoom_refused hrejected]
    unfold LookupsHarmless
    by_cases hheader : loomHeaderError T.activeLoomFragments buffer = Err.ok
    · have htrace : ∀ R : Resolved, Traceless T { T with
          substrate := { T.substrate with fabric := R.fabric }, mesh := R.mesh } ↔
          SameTables T.substrate.fabric R.fabric :=
        fun R => ⟨Traceless.fabric, fun h => ⟨h, rfl, rfl, rfl⟩⟩
      dsimp only
      rw [if_pos hheader, htrace, forall_prop_of_true hheader]
      exact harmless_iff (tabled_of_run hrun) hheap (loomHeader_cellCount_lt buffer)
    · dsimp only
      rw [if_neg hheader, forall_prop_of_false hheader]
      exact ⟨iff_of_true ⟨.refl T, rfl⟩ trivial, fun _ => iff_of_true (.refl T) trivial⟩

/-- The two cells, and a route over the radio, which no fragment may have. -/
def radioFragment (src snk : CName) : List UInt8 := (pairFragment src snk).dropLast ++ [3]

/-- Between two seeds. -/
theorem rejected_traceless_iff_seeds :
    Traceless (loomTapestry coldFabric) (weaveLoom emptyAtlas (fun _ => []) freeCalls
      (loomTapestry coldFabric) (some (radioFragment seedOrigin seedLedIntent))).2 := by
  refine ((@rejected_traceless_iff Unit emptyAtlas (fun _ => []) freeCalls
    (some (radioFragment seedOrigin seedLedIntent)) (loomTapestry coldFabric) false blankFabric []
    rfl (.nil _) (by decide +kernel)).1.mpr ?_).1
  intro _ k hk hnew
  have hcells : (loomHeader (radioFragment seedOrigin seedLedIntent)).cellCount = 2 := by decide
  have hres : ∀ k < 2, gooniesResolve coldFabric.registry
      (loomCellName (radioFragment seedOrigin seedLedIntent) k) ≠ none := by decide +kernel
  obtain ⟨c, hc⟩ := @beforeLookup_fabric emptyAtlas freeCalls
    (radioFragment seedOrigin seedLedIntent) coldFabric (loomTapestry coldFabric).mesh k
  change gooniesResolve (beforeLookup emptyAtlas freeCalls
    (radioFragment seedOrigin seedLedIntent) coldFabric (loomTapestry coldFabric).mesh
    k).1.registry _ = none at hnew
  rw [hc] at hnew
  exact absurd hnew (hres k (hcells ▸ hk))

/-- A phantom is woven for a fragment whose route is then refused. -/
theorem rejected_fragment_weaves :
    ¬ ∀ ops F, Run (FabricStep emptyAtlas) coldFabric ops F → ∀ buffer : List UInt8,
      (weaveLoom emptyAtlas (fun _ => []) freeCalls (loomTapestry F) (some buffer)).1 ≠ Err.ok →
      Traceless (loomTapestry F) (weaveLoom emptyAtlas (fun _ => []) freeCalls (loomTapestry F)
        (some buffer)).2 := by
  intro hall
  have hkept := hall [] coldFabric (.nil _) (radioFragment phantomName seedOrigin)
    (by decide +kernel)
  have hwoven : (weaveLoom emptyAtlas (fun _ => []) freeCalls (loomTapestry coldFabric)
      (some (radioFragment phantomName seedOrigin))).2.substrate.fabric.cellCount = 3 := by
    decide +kernel
  have hcount := hkept.fabric.cellCount
  rw [hwoven] at hcount
  exact absurd (hcount.trans coldFabric_seeds.1) (by decide)

end ReflexOS.Goose
