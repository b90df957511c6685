import ReflexOS.LoomScript

set_option autoImplicit false

/-!
# LoomScript round trip

What a weave reads out of the bytes of an accepted text.
-/
namespace ReflexOS.Loomc
open Goose LittleEndian PythonText

/-- A route as a weave reads it: the names at its two indexes, its orientation and coupling. -/
def routeRead (buffer : List UInt8) (i : ℕ) : CName × CName × ℤ × Coupling :=
  let re := loomRouteEntry buffer (loomHeader buffer).cellCount i
  (loomCellName buffer re.srcIdx, loomCellName buffer re.snkIdx, re.orientation,
    couplingOf re.coupling)

/-- The bytes pass every check of a weave and say what the text says. -/
structure RoundTrip (source : Text) (buffer : List UInt8) : Prop where
  structural : ∀ active < maxLoomFragments, loomHeaderError active buffer = Err.ok
  routesAccepted : ∀ cells : List ℕ, cells.length = (loomHeader buffer).cellCount →
    loomRoutesError buffer (cells.map some) = Err.ok
  cells : (List.range (loomHeader buffer).cellCount).map (loomCellName buffer) =
    (namesOf (weaves source)).map encodeAscii
  routes : (List.range (loomHeader buffer).routeCount).map (routeRead buffer) =
    (weaves source).map fun w => (encodeAscii w.1, encodeAscii w.2, 1, .software)
  distinct : ((List.range (loomHeader buffer).cellCount).map (loomCellName buffer)).Nodup

section Numbers

variable {w n off v : ℕ} {rest : List UInt8}

theorem loomNumber_here (h : n < 256 ^ w) : loomNumber (encode w n ++ rest) 0 w = n := by
  rw [loomNumber, List.drop_zero, decode_take h]

theorem loomNumber_behind (h : w ≤ off) :
    loomNumber (encode w n ++ rest) off v = loomNumber rest (off - w) v := by
  rw [loomNumber, drop_encode h]
  rfl

end Numbers

section Layout

variable {frag : Fragment} {nameHash : UInt32} {i : ℕ}

/-- Counts and indexes fit their bytes. -/
structure Sized (frag : Fragment) : Prop where
  cells : frag.cells.length ≤ maxCellsPerFragment
  routes : frag.routes.length ≤ maxRoutesPerFragment
  names : ∀ name ∈ frag.cells, name.length ≤ cellNameMax
  indexes : ∀ r ∈ frag.routes, r.srcIdx < frag.cells.length ∧ r.snkIdx < frag.cells.length

theorem length_buildCell {name : Text} (h : name.length ≤ cellNameMax) :
    (buildCell name).length = loomCellEntrySize := by
  have hmax : cellNameMax = 23 := rfl
  have hsize : loomCellEntrySize = 24 := rfl
  simp only [buildCell, paddedName, encodeAscii, List.length_append, List.length_map,
    List.length_replicate]
  omega

theorem length_buildRoute (r : RouteEntry) : (buildRoute r).length = loomRouteEntrySize := by
  simp only [buildRoute, List.length_append, length_encode]
  rfl

variable (h : Sized frag)
include h

theorem loomHeader_build : loomHeader (build frag nameHash) =
    ⟨Goose.loomMagic, nameHash.toNat, frag.cells.length, frag.routes.length, 0⟩ := by
  have hhash : nameHash.toNat < 256 ^ 4 := nameHash.toNat_lt
  have hcells : frag.cells.length < 256 ^ 2 := h.cells.trans_lt (by decide)
  have hroutes : frag.routes.length < 256 ^ 2 := h.routes.trans_lt (by decide)
  have hmagic : loomMagic < 256 ^ 4 := by decide
  simp (disch := omega) only [build, loomHeader, List.append_assoc, loomNumber_behind,
    loomNumber_here, Nat.reduceSub]
  rfl

theorem flatMap_buildCell_length :
    (frag.cells.flatMap buildCell).length = frag.cells.length * loomCellEntrySize :=
  length_flatMap_fixed fun name hname => length_buildCell (h.names name hname)

omit h in
theorem flatMap_buildRoute_length (routes : List RouteEntry) :
    (routes.flatMap buildRoute).length = routes.length * loomRouteEntrySize :=
  length_flatMap_fixed fun r _ => length_buildRoute r

omit h in
theorem drop_header : (build frag nameHash).drop loomHeaderSize =
    frag.cells.flatMap buildCell ++ frag.routes.flatMap buildRoute := by
  have hsize : loomHeaderSize = 18 := rfl
  simp (disch := decide) only [build, hsize, List.append_assoc, drop_encode, Nat.reduceSub,
    List.drop_zero]

theorem length_build : (build frag nameHash).length = loomHeaderSize +
    frag.cells.length * loomCellEntrySize + frag.routes.length * loomRouteEntrySize := by
  simp only [build, List.length_append, length_encode, flatMap_buildCell_length h,
    flatMap_buildRoute_length]
  rfl

/-- A name is read up to its first terminator. -/
theorem loomCellName_build {name : Text} (hname : frag.cells[i]? = some name) :
    loomCellName (build frag nameHash) i = (encodeAscii name).takeWhile (· ≠ 0) := by
  have hshort := h.names name (List.mem_of_getElem? hname)
  have hlen : (encodeAscii name).length = name.length := List.length_map _
  have hi := (List.getElem?_eq_some_iff.mp hname).1
  obtain ⟨rest, hrest⟩ := drop_flatMap_get
    (fun name hname => length_buildCell (h.names name hname)) hname
  have hcell : (build frag nameHash).drop (loomHeaderSize + i * loomCellEntrySize) =
      encodeAscii name ++ List.replicate (24 - name.length) 0 ++
        (rest ++ frag.routes.flatMap buildRoute) := by
    rw [← List.drop_drop, drop_header, List.drop_append_of_le_length, hrest, buildCell, paddedName,
      hlen, List.append_assoc]
    rw [flatMap_buildCell_length h]
    exact Nat.mul_le_mul_right _ hi.le
  have hsize : loomCellEntrySize - 1 = cellNameMax := rfl
  have hroom : cellNameMax ≤ name.length + (24 - name.length) := by
    unfold cellNameMax
    omega
  rw [loomCellName, hcell, hsize, take_pad (hlen ▸ hshort) (hlen ▸ hroom), takeWhile_pad]

theorem loomRouteEntry_build {r : RouteEntry} (hr : frag.routes[i]? = some r)
    (horientation : r.orientation = orientationDefault) (hcoupling : r.coupling = couplingSoftware) :
    loomRouteEntry (build frag nameHash) frag.cells.length i =
      ⟨r.srcIdx, r.snkIdx, orientationDefault, policyCouplingSoftware⟩ := by
  obtain ⟨rest, hrest⟩ := drop_flatMap_get (fun r _ => length_buildRoute r) hr
  have hcells := flatMap_buildCell_length h
  have hroute : (build frag nameHash).drop (loomHeaderSize +
      frag.cells.length * loomCellEntrySize + i * loomRouteEntrySize) = buildRoute r ++ rest := by
    rw [← List.drop_drop, ← List.drop_drop, drop_header, List.drop_left' hcells, hrest]
  have hat : ∀ off w, loomNumber (build frag nameHash) (loomHeaderSize +
      frag.cells.length * loomCellEntrySize + i * loomRouteEntrySize + off) w =
        loomNumber (buildRoute r ++ rest) off w := by
    intro off w
    rw [loomNumber, ← List.drop_drop, hroute]
    rfl
  have hfew : frag.cells.length < 256 ^ 2 := h.cells.trans_lt (by decide)
  obtain ⟨hsrc, hsnk⟩ := h.indexes r (List.mem_of_getElem? hr)
  have hsrc := hsrc.trans hfew
  have hsnk := hsnk.trans hfew
  have hone : u8 orientationDefault < 256 ^ 1 := by decide
  have hsoft : couplingSoftware < 256 ^ 1 := by decide
  have hfirst := hat 0 2
  rw [Nat.add_zero] at hfirst
  simp (disch := omega) only [loomRouteEntry, hat, hfirst, buildRoute, horientation, hcoupling,
    List.append_assoc, loomNumber_behind, loomNumber_here, Nat.reduceSub]
  rfl

end Layout

section Names

variable {name : Text}

theorem toNat_encoded {c : Char} (h : WireName name) (hc : c ∈ name) :
    (UInt8.ofNat c.toNat).toNat = c.toNat := by
  have hsmall := h.ascii c hc
  rw [UInt8.toNat_ofNat', Nat.mod_eq_of_lt (by omega)]

theorem mem_encodeAscii_zero (h : WireName name) : (0 : UInt8) ∈ encodeAscii name ↔ nul ∈ name := by
  rw [encodeAscii, List.mem_map]
  constructor
  · rintro ⟨c, hc, hzero⟩
    have hval : c.toNat = 0 := by
      rw [← toNat_encoded h hc, hzero]
      rfl
    have hnul : c = nul := Char.toNat_inj.mp hval
    rwa [hnul] at hc
  · exact fun hnul => ⟨nul, hnul, rfl⟩

theorem decode_encodeAscii (h : WireName name) :
    (encodeAscii name).map (fun b => Char.ofNat b.toNat) = name := by
  rw [encodeAscii, List.map_map]
  apply (List.map_congr_left _).trans (List.map_id name)
  intro c hc
  rw [Function.comp_apply, toNat_encoded h hc, Char.ofNat_toNat]
  rfl

/-- A name is read back unless a terminator cuts it. -/
theorem takeWhile_encodeAscii_iff (h : WireName name) :
    (encodeAscii name).takeWhile (· ≠ 0) = encodeAscii name ↔ nul ∉ name := by
  rw [← mem_encodeAscii_zero h]
  constructor
  · intro heq hzero
    rw [← heq] at hzero
    have hne := List.mem_takeWhile_imp hzero
    exact absurd rfl (of_decide_eq_true hne)
  · intro hzero
    exact (congrArg _ (List.append_nil _).symm).trans
      ((takeWhile_string hzero []).trans (List.append_nil _))

end Names

section Accepted

variable {source : Text} (h : Accepted source) (nameHash : UInt32)
include h

theorem Accepted.sized : Sized (fragmentOf (weaves source)) where
  cells := h.cells
  routes := by
    rw [fragmentOf, List.length_map]
    exact h.routes
  names name hname := (h.wireName hname).short
  indexes r hr := by
    obtain ⟨w, hw, rfl⟩ := List.mem_map.mp hr
    have hnames := mem_namesOf hw
    exact ⟨List.idxOf_lt_length_of_mem hnames.1, List.idxOf_lt_length_of_mem hnames.2⟩

theorem Accepted.loomHeader : loomHeader (build (fragmentOf (weaves source)) nameHash) =
    ⟨Goose.loomMagic, nameHash.toNat, (namesOf (weaves source)).length, (weaves source).length, 0⟩ := by
  rw [loomHeader_build h.sized]
  simp only [fragmentOf, List.length_map]

theorem Accepted.structural (active : ℕ) (hactive : active < maxLoomFragments) :
    loomHeaderError active (build (fragmentOf (weaves source)) nameHash) = Err.ok := by
  have hlen : (build (fragmentOf (weaves source)) nameHash).length =
      loomHeaderSize + (namesOf (weaves source)).length * loomCellEntrySize +
        (weaves source).length * loomRouteEntrySize := by
    rw [length_build h.sized]
    simp only [fragmentOf, List.length_map]
  have hcells : (namesOf (weaves source)).length ≠ 0 := by
    intro hnil
    obtain ⟨w, hw⟩ := List.exists_mem_of_ne_nil _ h.woven
    have hmem := (mem_namesOf hw).1
    rw [List.length_eq_zero_iff.mp hnil] at hmem
    cases hmem
  have hroutes : (weaves source).length ≠ 0 := fun hnil => h.woven (List.length_eq_zero_iff.mp hnil)
  have hfew := h.cells
  have hcount := h.routes
  unfold maxCellsPerFragment at hfew
  unfold maxRoutesPerFragment at hcount
  unfold loomHeaderError
  rw [if_neg (by omega), if_neg (by omega)]
  simp only [h.loomHeader nameHash]
  unfold Goose.maxCellsPerFragment Goose.maxRoutesPerFragment
  rw [if_neg (not_not.mpr rfl), if_neg (by omega), if_neg (not_not.mpr rfl), if_neg (by omega)]

theorem Accepted.cellName {i : ℕ} {name : Text} (hname : (namesOf (weaves source))[i]? = some name) :
    loomCellName (build (fragmentOf (weaves source)) nameHash) i =
      (encodeAscii name).takeWhile (· ≠ 0) :=
  loomCellName_build h.sized hname

theorem Accepted.routeEntry {i : ℕ} {w : Weave} (hw : (weaves source)[i]? = some w) :
    loomRouteEntry (build (fragmentOf (weaves source)) nameHash) (namesOf (weaves source)).length i =
      ⟨(namesOf (weaves source)).idxOf w.1, (namesOf (weaves source)).idxOf w.2,
        orientationDefault, policyCouplingSoftware⟩ := by
  apply loomRouteEntry_build h.sized (r := ⟨_, _, _, couplingSoftware⟩) _ rfl rfl
  rw [fragmentOf, List.getElem?_map, hw]
  rfl

theorem Accepted.routesAccepted (cells : List ℕ)
    (hcells : cells.length =
      (Goose.loomHeader (build (fragmentOf (weaves source)) nameHash)).cellCount) :
    loomRoutesError (build (fragmentOf (weaves source)) nameHash) (cells.map some) = Err.ok := by
  rw [h.loomHeader] at hcells
  simp only [loomRoutesError, h.loomHeader nameHash]
  rw [List.find?_eq_none.mpr]
  · rfl
  · intro err herr
    obtain ⟨i, hi, rfl⟩ := List.mem_map.mp herr
    have hw := List.getElem?_eq_getElem (List.mem_range.mp hi)
    have hmem := mem_namesOf (List.mem_of_getElem? hw)
    have hsrc := List.idxOf_lt_length_of_mem hmem.1
    have hsnk := List.idxOf_lt_length_of_mem hmem.2
    have hsome : ∀ {k : ℕ}, k < cells.length → (cells.map some)[k]?.join ≠ none := by
      intro k hk
      rw [List.getElem?_map, List.getElem?_eq_getElem hk]
      exact Option.some_ne_none _
    dsimp only at hcells
    have hpolicy : policyLoomRouteAcceptable orientationDefault policyCouplingSoftware = true := by
      decide
    have hin := not_or.mpr ⟨Nat.not_le.mpr hsrc, Nat.not_le.mpr hsnk⟩
    have hresolved := not_or.mpr ⟨hsome (hcells ▸ hsrc), hsome (hcells ▸ hsnk)⟩
    rw [h.routeEntry nameHash hw, loomRouteError, if_neg hin, if_neg hresolved, hpolicy]
    decide

theorem Accepted.readNames : (List.range (Goose.loomHeader (build (fragmentOf (weaves source))
    nameHash)).cellCount).map (loomCellName (build (fragmentOf (weaves source)) nameHash)) =
      (namesOf (weaves source)).map fun name => (encodeAscii name).takeWhile (· ≠ 0) := by
  rw [h.loomHeader]
  apply List.ext_getElem
  · rw [List.length_map, List.length_map, List.length_range]
  · intro i hi _
    rw [List.length_map, List.length_range] at hi
    rw [List.getElem_map, List.getElem_map, List.getElem_range]
    exact h.cellName nameHash (List.getElem?_eq_getElem hi)

theorem Accepted.readRoutes : (List.range (Goose.loomHeader (build (fragmentOf (weaves source))
    nameHash)).routeCount).map (routeRead (build (fragmentOf (weaves source)) nameHash)) =
      (weaves source).map fun w => ((encodeAscii w.1).takeWhile (· ≠ 0),
        (encodeAscii w.2).takeWhile (· ≠ 0), 1, .software) := by
  rw [h.loomHeader]
  apply List.ext_getElem
  · rw [List.length_map, List.length_map, List.length_range]
  · intro i hi _
    rw [List.length_map, List.length_range] at hi
    rw [List.getElem_map, List.getElem_map, List.getElem_range, routeRead, h.loomHeader]
    have hmem := mem_namesOf (List.getElem_mem hi)
    dsimp only
    rw [h.routeEntry nameHash (List.getElem?_eq_getElem hi)]
    dsimp only
    rw [h.cellName nameHash (List.getElem?_idxOf hmem.1),
      h.cellName nameHash (List.getElem?_idxOf hmem.2)]
    rfl

end Accepted

/-- The bytes of an accepted text say what it says exactly when no line but a comment holds a
terminator. -/
theorem build_roundTrip_iff {source : Text} {frag : Fragment} (h : parse source = .ok frag)
    (nameHash : UInt32) :
    RoundTrip source (build frag nameHash) ↔
      ∀ raw ∈ splitLines source, nul ∈ raw → isSkipped raw = true := by
  obtain ⟨rfl, haccepted⟩ := parse_ok h
  rw [haccepted.nul_iff]
  constructor
  · intro hround name hname
    have hcells := hround.cells
    rw [haccepted.readNames] at hcells
    exact (takeWhile_encodeAscii_iff (haccepted.wireName hname)).mp
      (List.map_inj_left.mp hcells name hname)
  · intro hnames
    have hread : ∀ name ∈ namesOf (weaves source),
        (encodeAscii name).takeWhile (· ≠ 0) = encodeAscii name := fun name hname =>
      (takeWhile_encodeAscii_iff (haccepted.wireName hname)).mpr (hnames name hname)
    have hcells := (haccepted.readNames nameHash).trans (List.map_congr_left hread)
    refine ⟨haccepted.structural nameHash, haccepted.routesAccepted nameHash, hcells, ?_, ?_⟩
    · rw [haccepted.readRoutes]
      apply List.map_congr_left
      intro w hw
      rw [hread _ (mem_namesOf hw).1, hread _ (mem_namesOf hw).2]
    · rw [hcells]
      apply List.Nodup.map_on _ (nodup_eraseDups _)
      intro name hname other hother heq
      rw [← decode_encodeAscii (haccepted.wireName hname), heq,
        decode_encodeAscii (haccepted.wireName hother)]

def pairText : Text := text "weave a -> b"

theorem build_roundTrip_pair :
    RoundTrip pairText (build ⟨[text "a", text "b"], [⟨0, 1, 1, 1⟩]⟩ defaultNameHash) := by
  apply (build_roundTrip_iff _ defaultNameHash).mpr
  · decide
  · rfl

/-- Two names that agree up to a terminator. -/
def aliasText : Text :=
  text "weave a" ++ nul :: text "x -> b\n" ++ text "weave a" ++ nul :: text "y -> c"

def aliasFragment : Fragment where
  cells := [text "a" ++ nul :: text "x", text "b", text "a" ++ nul :: text "y", text "c"]
  routes := [⟨0, 1, 1, 1⟩, ⟨2, 3, 1, 1⟩]

/-- The text is accepted, and both its sources are the cell `a` to the firmware. -/
theorem names_aliased :
    parse aliasText = .ok aliasFragment ∧
      (loomCellName (build aliasFragment defaultNameHash) 0 = ascii "a" ∧
        loomCellName (build aliasFragment defaultNameHash) 2 = ascii "a") ∧
      ¬ RoundTrip aliasText (build aliasFragment defaultNameHash) := by
  have hname : loomCellName (build aliasFragment defaultNameHash) 0 = ascii "a" ∧
      loomCellName (build aliasFragment defaultNameHash) 2 = ascii "a" := by decide +kernel
  refine ⟨by rfl, hname, fun hround => ?_⟩
  have hnodup := hround.distinct
  have hcount : (loomHeader (build aliasFragment defaultNameHash)).cellCount = 4 := by decide +kernel
  rw [hcount, List.nodup_map_iff_inj_on List.nodup_range] at hnodup
  have heq := hnodup 0 (by decide) 2 (by decide) (hname.1.trans hname.2.symm)
  cases heq

end ReflexOS.Loomc
