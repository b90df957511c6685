import Mathlib.Data.List.Range
import Mathlib.Data.List.ReduceOption
import ReflexOS.GooseLoomRejects
import ReflexOS.GoosePhantomNames

set_option autoImplicit false

/-!
# Three namespaces of coordinates

The seeds, the entries of the atlas and the phantoms of peers are told apart by the last trit; a
cell's number is spread over two trits, a byte each.
-/
namespace ReflexOS.Goose
open VmTernary Runs

/-- `goose_make_shadow_coord`; a trit is an enumeration of the width of an int. -/
def makeShadowCoord (field region : Int8) (cell : Int16) : Tryte9 := fun i =>
  if i = 0 then field.toInt else if i = 3 then region.toInt
  else if i = 6 then (cell &&& 0xFF).toInt else if i = 7 then ((cell >>> 8) &&& 0xFF).toInt
  else if i = 8 then 1 else 0

theorem eq_of_bytes {x y : BitVec 16} (hlow : x &&& 0xFF = y &&& 0xFF)
    (hhigh : x.sshiftRight 8 &&& 0xFF = y.sshiftRight 8 &&& 0xFF) : x = y := by
  apply BitVec.eq_of_getLsbD_eq
  intro i hi
  have hmask : ∀ k < 8, (0xFF#16).getLsbD k = true := by decide
  by_cases h : i < 8
  · have hbit := congrArg (BitVec.getLsbD · i) hlow
    simpa [hmask i h] using hbit
  · have hbit := congrArg (BitVec.getLsbD · (i - 8)) hhigh
    have hback : 8 + (i - 8) = i := by omega
    simpa [BitVec.getLsbD_sshiftRight, hmask (i - 8) (by omega), hback, hi,
      show ¬ 16 ≤ i - 8 by omega] using hbit

theorem makeShadowCoord_inj {f r f' r' : Int8} {c c' : Int16}
    (h : makeShadowCoord f r c = makeShadowCoord f' r' c') : f = f' ∧ r = r' ∧ c = c' := by
  have hfield : f.toInt = f'.toInt := congrFun h 0
  have hregion : r.toInt = r'.toInt := congrFun h 3
  have hlow : (c &&& 0xFF).toInt = (c' &&& 0xFF).toInt := congrFun h 6
  have hhigh : ((c >>> 8) &&& 0xFF).toInt = ((c' >>> 8) &&& 0xFF).toInt := congrFun h 7
  refine ⟨Int8.toInt_inj.mp hfield, Int8.toInt_inj.mp hregion, Int16.toBitVec_inj.mp ?_⟩
  exact eq_of_bytes (congrArg Int16.toBitVec (Int16.toInt_inj.mp hlow))
    (congrArg Int16.toBitVec (Int16.toInt_inj.mp hhigh))

/-- The trits of the number hold sixteen bits of it. -/
theorem ghostCoord_inj {m n : ℕ} : ghostCoord m = ghostCoord n ↔ m % 65536 = n % 65536 := by
  constructor
  · intro h
    have hlow : ((m % 256 : ℕ) : ℤ) = (n % 256 : ℕ) := congrFun h 6
    have hhigh : ((m / 256 % 256 : ℕ) : ℤ) = (n / 256 % 256 : ℕ) := congrFun h 7
    omega
  · intro h
    funext i
    simp only [ghostCoord, show m % 256 = n % 256 by omega,
      show m / 256 % 256 = n / 256 % 256 by omega]

/-- A counter of the width of an int makes the same coordinates. -/
theorem ghostCoord_int (n : ℕ) : ghostCoord (n % 2 ^ 32) = ghostCoord n :=
  ghostCoord_inj.mpr (by omega)

section Lookups
variable (atlas : Atlas) (hmac : List UInt8 → List UInt8)

/-- The coordinate that a lookup weaves a phantom at, when it comes to that. -/
def phantomMade (now : ℕ) (F : Fabric) (M : Mesh) (name : CName) : Option Tryte9 :=
  if (gooniesResolve F.registry name).isNone && nsPeer.isPrefixOf name then
    some (ghostCoord (atmosphereQuery hmac now M name).ghostCounter)
  else none

/-- Lookups among whatever else happens to the fabric and the mesh. The counter is local to the
lookup, so that nothing else changes it between two boots. -/
inductive LookupStep : Fabric × Mesh → Option Tryte9 → Fabric × Mesh → Prop where
  | lookup (F : Fabric) (M : Mesh) (lock : Bool) (now : ℕ) (name : CName) :
      LookupStep (F, M) (phantomMade hmac now F M name)
        (gooniesResolveCell atlas hmac lock now F M name).2
  | other (F F' : Fabric) (M M' : Mesh) (same : M'.ghostCounter = M.ghostCounter) :
      LookupStep (F, M) none (F', M')

variable {atlas : Atlas} {hmac : List UInt8 → List UInt8} {s s' : Fabric × Mesh}
  {made : List (Option Tryte9)}

theorem LookupStep.made_eq {m : Option Tryte9} (h : LookupStep atlas hmac s m s') :
    m = none ∧ s'.2.ghostCounter = s.2.ghostCounter ∨
      m = some (ghostCoord s.2.ghostCounter) ∧ s'.2.ghostCounter = s.2.ghostCounter + 1 := by
  cases h with
  | lookup F M lock now name =>
    have hcounter := @lookup_ghosts atlas hmac lock now F M name
    by_cases hpeer : (gooniesResolve F.registry name).isNone && nsPeer.isPrefixOf name
    · refine .inr ⟨?_, ?_⟩
      · rw [phantomMade, if_pos hpeer, atmosphereQuery_ghostCounter]
      · rw [hcounter, ghostsAfter, if_pos hpeer]
    · refine .inl ⟨if_neg hpeer, ?_⟩
      rw [hcounter, ghostsAfter, if_neg hpeer]
  | other F F' M M' same => exact .inl ⟨rfl, same⟩

/-- The phantoms of a run are numbered one after the other. -/
theorem phantoms_numbered (h : Run (LookupStep atlas hmac) s made s') :
    made.reduceOption = (List.range' s.2.ghostCounter made.reduceOption.length).map ghostCoord := by
  induction h with
  | nil s => rfl
  | cons hstep _ ih =>
    obtain ⟨rfl, hcounter⟩ | ⟨rfl, hcounter⟩ := hstep.made_eq
    · rwa [List.reduceOption_cons_of_none, ← hcounter]
    · rw [List.reduceOption_cons_of_some, List.length_cons, List.range'_succ, List.map_cons,
        ← hcounter, ← ih]

theorem ghostCoords_nodup {a n : ℕ} (hn : n ≤ 65536) :
    ((List.range' a n).map ghostCoord).Nodup := by
  refine List.Nodup.map_on (fun x hx y hy hxy => ?_) List.nodup_range'
  rw [List.mem_range'_1] at hx hy
  rw [ghostCoord_inj] at hxy
  omega

/-- Among phantoms of a run that follow each other no two of 65,536 share a coordinate. -/
theorem phantoms_nodup (h : Run (LookupStep atlas hmac) s made s') (k : ℕ) :
    ((made.reduceOption.drop k).take 65536).Nodup := by
  rw [phantoms_numbered h, ← List.map_drop, ← List.map_take, List.drop_range']
  rcases le_total (made.reduceOption.length - k) 65536 with hn | hn
  · rw [List.take_range'_of_length_le hn]
    exact ghostCoords_nodup hn
  · rw [List.take_range'_of_length_ge hn]
    exact ghostCoords_nodup le_rfl

end Lookups

/-- Seeds, entries of the atlas and phantoms never meet, and meet among themselves only where the
same was asked for: phantoms when their numbers are a multiple of 65,536 apart. -/
theorem namespaces_disjoint :
    (∀ f r f' r' c c', makeShadowCoord f r c = makeShadowCoord f' r' c' →
      f = f' ∧ r = r' ∧ c = c') ∧
    (∀ atlas hmac s made s', Run (LookupStep atlas hmac) s made s' →
      ∀ k, ((made.reduceOption.drop k).take 65536).Nodup) ∧
    (∀ f r c f' r' c', makeCoord f r c ≠ makeShadowCoord f' r' c') ∧
    (∀ f r c n, makeCoord f r c ≠ ghostCoord n) ∧
    ∀ f r c n, makeShadowCoord f r c ≠ ghostCoord n := by
  refine ⟨fun _ _ _ _ _ _ h => makeShadowCoord_inj h, fun _ _ _ _ _ h => phantoms_nodup h, ?_, ?_,
    ?_⟩
  · intro f r c f' r' c' h
    cases (congrFun h 8 : (0 : ℤ) = 1)
  · intro f r c n h
    cases (congrFun h 8 : (0 : ℤ) = -1)
  · intro f r c n h
    cases (congrFun h 8 : (1 : ℤ) = -1)

/-- Two names on peers, looked up one behind the other. -/
theorem namespaces_disjoint_twice :
    (([some (ghostCoord 0), some (ghostCoord 1)].reduceOption.drop 0).take 65536).Nodup := by
  obtain ⟨hcounter, hnew, -⟩ := phantomBoard_holds
  have hfirst : phantomMade (fun _ => []) 0 coldFabric noPeers firstPhantom =
      some (ghostCoord 0) := by
    rw [phantomMade, if_pos (by decide +kernel), atmosphereQuery_ghostCounter]
    rfl
  have hsecond : phantomMade (fun _ => []) 0 phantomBoard.1 phantomBoard.2 otherPhantom =
      some (ghostCoord 1) := by
    rw [phantomMade, hnew, if_pos (by decide), atmosphereQuery_ghostCounter, hcounter]
  have hstep : LookupStep emptyAtlas (fun _ => []) (coldFabric, noPeers) (some (ghostCoord 0))
      phantomBoard := hfirst ▸ .lookup coldFabric noPeers true 0 firstPhantom
  have hstep' := @LookupStep.lookup emptyAtlas (fun _ => []) phantomBoard.1 phantomBoard.2 true 0
    otherPhantom
  rw [hsecond] at hstep'
  exact namespaces_disjoint.2.1 _ _ _ _ _ (.cons hstep (.single hstep')) 0

end ReflexOS.Goose
