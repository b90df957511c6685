import ReflexOS.BinarySearch
import ReflexOS.GooseCoordinates

set_option autoImplicit false

/-!
# The catalogue of registers

The names of the catalogue are sorted in flash and resolved by binary search. `atlas verify`
resolves every name of it and looks for names that stand there twice.
-/
namespace ReflexOS.Goose
open VmTernary BinarySearch

structure ShadowNode where
  name : CName
  addr : ℕ
  bitMask : ℕ
  f : Int8
  r : Int8
  c : Int16
  type : CellType

def ShadowNode.coord (n : ShadowNode) : Tryte9 := makeShadowCoord n.f n.r n.c

def ShadowNode.entry (n : ShadowNode) : ShadowEntry := ⟨n.addr, n.bitMask, n.coord, n.type⟩

/-- `strcmp` orders the bytes as Lean does. -/
def shadowResolve (shadowMap : List ShadowNode) : Atlas := fun name =>
  (lookup (compare : CName → CName → Ordering) ShadowNode.name shadowMap name).map
    ShadowNode.entry

structure AtlasReport where
  ok : ℕ
  failed : ℕ
  duplicates : ℕ
  firstFailure : Option ℕ
  firstDuplicate : Option ℕ

/-- The sweep over neighbours, from the pair whose second entry is `i`. -/
def duplicateSweep : ℕ → List ShadowNode → ℕ × Option ℕ
  | i, a :: b :: rest =>
    let later := duplicateSweep (i + 1) (b :: rest)
    if a.name = b.name then (later.1 + 1, some i) else later
  | _, _ => (0, none)

/-- One name resolves to its own entry in every field. -/
def resolvesBack (shadowMap : List ShadowNode) (n : ShadowNode) : Bool :=
  match shadowResolve shadowMap n.name with
  | some e =>
    decide (e.addr = n.addr) && decide (e.mask = n.bitMask) && decide (e.type = n.type) &&
      coordEqual e.coord n.coord
  | none => false

/-- The sweep over the names, from entry `i` on: how many resolve, how many fail, which first. -/
def resolveSweep (shadowMap : List ShadowNode) : ℕ → List ShadowNode → ℕ × ℕ × Option ℕ
  | _, [] => (0, 0, none)
  | i, n :: rest =>
    let later := resolveSweep shadowMap (i + 1) rest
    if resolvesBack shadowMap n then (later.1 + 1, later.2.1, later.2.2)
    else (later.1, later.2.1 + 1, some i)

/-- `reflex_shell_atlas_verify`. -/
def atlasVerify (shadowMap : List ShadowNode) : AtlasReport :=
  let pairs := duplicateSweep 1 shadowMap
  let names := resolveSweep shadowMap 0 shadowMap
  ⟨names.1, names.2.1, pairs.1, names.2.2, pairs.2⟩

/-- The command does not end as a failure. -/
def AtlasReport.clean (r : AtlasReport) : Bool :=
  !(decide (0 < r.failed) || decide (0 < r.duplicates))

section Sorted

def NameSorted (shadowMap : List ShadowNode) : Prop :=
  SortedBy (compare : CName → CName → Ordering) ShadowNode.name shadowMap

variable {shadowMap : List ShadowNode} {name : CName} {e : ShadowEntry}

theorem shadowResolve_eq_some_iff (hs : NameSorted shadowMap)
    (hnodup : (shadowMap.map ShadowNode.name).Nodup) :
    shadowResolve shadowMap name = some e ↔ ∃ n ∈ shadowMap, n.name = name ∧ n.entry = e := by
  rw [shadowResolve, Option.map_eq_some_iff]
  constructor
  · rintro ⟨n, hn, rfl⟩
    obtain ⟨hmem, hname⟩ := (lookup_eq_some_iff hs hnodup).mp hn
    exact ⟨n, hmem, hname, rfl⟩
  · rintro ⟨n, hmem, hname, rfl⟩
    exact ⟨n, (lookup_eq_some_iff hs hnodup).mpr ⟨hmem, hname⟩, rfl⟩

theorem shadowResolve_self (hs : NameSorted shadowMap)
    (hnodup : (shadowMap.map ShadowNode.name).Nodup) {n : ShadowNode} (hn : n ∈ shadowMap) :
    shadowResolve shadowMap n.name = some n.entry :=
  (shadowResolve_eq_some_iff hs hnodup).mpr ⟨n, hn, rfl, rfl⟩

theorem shadowResolve_found (h : shadowResolve shadowMap name = some e) :
    ∃ n ∈ shadowMap, n.name = name ∧ n.entry = e := by
  obtain ⟨n, hn, rfl⟩ := Option.map_eq_some_iff.mp h
  obtain ⟨hmem, hname⟩ := lookup_found hn
  exact ⟨n, hmem, (Std.LawfulEqCmp.compare_eq_iff_eq.mp hname).symm, rfl⟩

theorem resolvesBack_iff (n : ShadowNode) :
    resolvesBack shadowMap n = true ↔ shadowResolve shadowMap n.name = some n.entry := by
  unfold resolvesBack
  cases h : shadowResolve shadowMap n.name with
  | none => simp
  | some e =>
    obtain ⟨addr, mask, coord, type⟩ := e
    simp only [Bool.and_eq_true, decide_eq_true_eq, coordEqual_iff, ShadowNode.entry,
      Option.some.injEq, ShadowEntry.mk.injEq]
    tauto

theorem resolveSweep_counts (i : ℕ) (ns : List ShadowNode) :
    (resolveSweep shadowMap i ns).1 = ns.countP (resolvesBack shadowMap) ∧
      (resolveSweep shadowMap i ns).2.1 = ns.countP fun n => !resolvesBack shadowMap n := by
  induction ns generalizing i with
  | nil => exact ⟨rfl, rfl⟩
  | cons n ns ih =>
    obtain ⟨hok, hbad⟩ := ih (i + 1)
    rw [resolveSweep]
    by_cases hn : resolvesBack shadowMap n = true
    · simp [hn, hok, hbad]
    · simp [hn, hok, hbad]

/-- Names in order that stand there twice stand next to each other. -/
theorem duplicateSweep_zero (hs : NameSorted shadowMap) (i : ℕ) :
    (duplicateSweep i shadowMap).1 = 0 ↔ (shadowMap.map ShadowNode.name).Nodup := by
  induction shadowMap generalizing i with
  | nil => simp [duplicateSweep]
  | cons a rest ih =>
    obtain ⟨hbelow, hrest⟩ := List.pairwise_cons.mp hs
    have ih := ih hrest (i + 1)
    cases rest with
    | nil => simp [duplicateSweep]
    | cons b rest =>
      rw [duplicateSweep, List.map_cons, List.nodup_cons]
      by_cases hab : a.name = b.name
      · simp [hab]
      · rw [if_neg hab, ih]
        refine ⟨fun hnd => ⟨fun hmem => ?_, hnd⟩, And.right⟩
        obtain ⟨c, hc, hname⟩ := List.mem_map.mp hmem
        -- `a` is below `b`, and `b` is not above the entry that is called as `a` is
        have hbc : (compare b.name c.name).isLE = true := by
          rcases List.mem_cons.mp hc with rfl | hc
          · exact Std.ReflCmp.isLE_rfl
          · exact (List.pairwise_cons.mp hrest).1 c hc
        have hba : (compare b.name a.name).isLE = true := hname ▸ hbc
        have heq := Std.OrientedCmp.isLE_antisymm (hbelow b List.mem_cons_self) hba
        exact hab (Std.LawfulEqCmp.compare_eq_iff_eq.mp heq)

/-- A clean report says that no name stands there twice, and only then every name resolves to its
own entry. -/
theorem atlasVerify_clean_iff (hs : NameSorted shadowMap) :
    (atlasVerify shadowMap).clean = true ↔ (shadowMap.map ShadowNode.name).Nodup := by
  have hdup := duplicateSweep_zero hs 1
  have hfailed : (resolveSweep shadowMap 0 shadowMap).2.1 =
      shadowMap.countP fun n => !resolvesBack shadowMap n :=
    (resolveSweep_counts 0 shadowMap).2
  have hclean : (atlasVerify shadowMap).clean = true ↔
      (resolveSweep shadowMap 0 shadowMap).2.1 = 0 ∧ (duplicateSweep 1 shadowMap).1 = 0 := by
    simp [AtlasReport.clean, atlasVerify, Nat.pos_iff_ne_zero]
  rw [hclean, hdup, hfailed]
  refine ⟨And.right, fun hnd => ⟨?_, hnd⟩⟩
  rw [List.countP_eq_zero]
  intro n hn
  simpa using (resolvesBack_iff n).mpr (shadowResolve_self hs hnd hn)

end Sorted

end ReflexOS.Goose
