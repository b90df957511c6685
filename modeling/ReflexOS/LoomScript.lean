import ReflexOS.Fallible
import ReflexOS.GooseLoom
import ReflexOS.PythonText

set_option autoImplicit false

/-!
# LoomScript

The compiler from the text of a fragment to its bytes.
-/
namespace ReflexOS.Loomc
open Fallible LittleEndian PythonText

def loomMagic : ℕ := 0x4D4F4F4C
def loomVersion : ℕ := 1
def couplingSoftware : ℕ := 1
def orientationDefault : ℤ := 1
def cellNameMax : ℕ := 23
def maxCellsPerFragment : ℕ := 64
def maxRoutesPerFragment : ℕ := 32

def nul : Char := '\x00'

/-- A source and a sink. -/
abbrev Weave := Text × Text

structure RouteEntry where
  srcIdx : ℕ
  snkIdx : ℕ
  orientation : ℤ
  coupling : ℕ
deriving DecidableEq

structure Fragment where
  cells : List Text
  routes : List RouteEntry
deriving DecidableEq

/-- `str.split("->")`. -/
def splitArrow : Text → List Text
  | [] => [[]]
  | '-' :: '>' :: cs => [] :: splitArrow cs
  | c :: cs =>
    match splitArrow cs with
    | half :: halves => (c :: half) :: halves
    | [] => [[c]]

def checkName (name : Text) (side : String) (lineno : ℕ) : Except String Unit :=
  if name = [] then .error s!"Line {lineno}: empty {side} cell name"
  else if name.any isSpace then
    .error s!"Line {lineno}: {side} name '{str name}' contains whitespace"
  else if name.any fun c => decide (128 ≤ c.toNat) then
    .error s!"Line {lineno}: {side} name '{str name}' is not ASCII; the wire field is bytes"
  else if cellNameMax < name.length then
    .error (s!"Line {lineno}: {side} name '{str name}' is {name.length} bytes, " ++
      s!"over the {cellNameMax}-byte wire field")
  else .ok ()

def isSkipped (raw : Text) : Bool := strip raw = [] || (text "//").isPrefixOf (strip raw)

/-- What one line weaves; `none` is a line without a directive. -/
def parseLine (lineno : ℕ) (raw : Text) : Except String (Option Weave) :=
  if isSkipped raw then .ok none
  else
    let parts := splitOnce (strip raw)
    let verb := parts.headD []
    if verb ≠ text "weave" then
      .error s!"Line {lineno}: unknown directive '{str verb}' (expected 'weave')"
    else
      match parts[1]? with
      | none => .error s!"Line {lineno}: 'weave' needs '<src> -> <snk>'"
      | some operand =>
        match splitArrow operand with
        | [_] => .error s!"Line {lineno}: 'weave' needs '->' between two cells"
        | [src, snk] => do
          checkName (strip src) "source" lineno
          checkName (strip snk) "sink" lineno
          return some (strip src, strip snk)
        | halves => .error s!"Line {lineno}: expected one '->', found {halves.length - 1}"

def addCell (cells : List Text) (name : Text) : List Text :=
  if name ∈ cells then cells else cells ++ [name]

def Fragment.weave (frag : Fragment) (w : Weave) : Fragment :=
  let cells := addCell (addCell frag.cells w.1) w.2
  { cells := cells
    routes := frag.routes ++
      [⟨cells.idxOf w.1, cells.idxOf w.2, orientationDefault, couplingSoftware⟩] }

def parseLines (lineno : ℕ) (frag : Fragment) : List Text → Except String Fragment
  | [] => .ok frag
  | raw :: raws => do
    match ← parseLine lineno raw with
    | none => parseLines (lineno + 1) frag raws
    | some w => parseLines (lineno + 1) (frag.weave w) raws

def parse (source : Text) : Except String Fragment := do
  let frag ← parseLines 1 ⟨[], []⟩ (splitLines source)
  if frag.routes = [] then .error "no routes: the fragment would weave to nothing"
  else if maxCellsPerFragment < frag.cells.length then
    .error (s!"{frag.cells.length} cells exceeds the firmware quota of " ++
      s!"{maxCellsPerFragment}")
  else if maxRoutesPerFragment < frag.routes.length then
    .error (s!"{frag.routes.length} routes exceeds the firmware quota of " ++
      s!"{maxRoutesPerFragment}")
  else .ok frag

/-- `str.encode("ascii")`. -/
def encodeAscii (name : Text) : CName := name.map fun c => UInt8.ofNat c.toNat

def buildCell (name : Text) : List UInt8 := Goose.paddedName (encodeAscii name)

def buildRoute (r : RouteEntry) : List UInt8 :=
  encode 2 r.srcIdx ++ encode 2 r.snkIdx ++ encode 1 (u8 r.orientation) ++ encode 1 r.coupling

def build (frag : Fragment) (nameHash : UInt32) : List UInt8 :=
  encode 4 loomMagic ++ encode 4 loomVersion ++ encode 4 nameHash.toNat ++
    encode 2 frag.cells.length ++ encode 2 frag.routes.length ++ encode 2 0 ++
    frag.cells.flatMap buildCell ++ frag.routes.flatMap buildRoute

/-- The hash `build` takes when it is given none. -/
def defaultNameHash : UInt32 := 0xABCDEF01

def compileLoom (source : Text) : Except String (List UInt8) := do
  let frag ← parse source
  return build frag defaultNameHash

/-- What a line says, whether it is accepted or not. -/
def weaveOf (raw : Text) : Option Weave :=
  if isSkipped raw then none
  else
    match splitArrow ((splitOnce (strip raw)).getD 1 []) with
    | [src, snk] => some (strip src, strip snk)
    | _ => none

/-- The weaves of a text, in line order. -/
def weaves (source : Text) : List Weave := (splitLines source).filterMap weaveOf

/-- The names of a list of weaves, in order of first use. -/
def namesOf (ws : List Weave) : List Text := (ws.flatMap fun w => [w.1, w.2]).eraseDups

/-- What a list of weaves compiles to. -/
def fragmentOf (ws : List Weave) : Fragment where
  cells := namesOf ws
  routes := ws.map fun w =>
    ⟨(namesOf ws).idxOf w.1, (namesOf ws).idxOf w.2, orientationDefault, couplingSoftware⟩

/-- A name the compiler puts into a cell entry. -/
structure WireName (name : Text) : Prop where
  nonempty : name ≠ []
  ascii : ∀ c ∈ name, c.toNat < 128
  short : name.length ≤ cellNameMax

section Names

theorem eraseDups_concat (names : List Text) (name : Text) :
    (names ++ [name]).eraseDups = addCell names.eraseDups name := by
  rw [List.eraseDups_append, addCell]
  by_cases h : name ∈ names
  · have hgone : [name].removeAll names = [] := by simp [List.removeAll, h]
    rw [if_pos (List.mem_eraseDups.mpr h), hgone, List.eraseDups_nil, List.append_nil]
  · have hkept : [name].removeAll names = [name] := by simp [List.removeAll, h]
    rw [if_neg (List.mem_eraseDups.not.mpr h), hkept]
    rfl

theorem nodup_eraseDups (names : List Text) : names.eraseDups.Nodup := by
  induction names using List.reverseRecOn with
  | nil => exact List.nodup_nil
  | append_singleton names name ih =>
    rw [eraseDups_concat, addCell]
    split
    · exact ih
    next hnew => exact List.nodup_append_comm.mp (List.nodup_cons.mpr ⟨hnew, ih⟩)

theorem namesOf_concat (ws : List Weave) (w : Weave) :
    namesOf (ws ++ [w]) = addCell (addCell (namesOf ws) w.1) w.2 := by
  have hnames : (ws ++ [w]).flatMap (fun w => [w.1, w.2]) =
      ws.flatMap (fun w => [w.1, w.2]) ++ [w.1] ++ [w.2] := by simp
  rw [namesOf, hnames, eraseDups_concat, eraseDups_concat]
  rfl

theorem prefix_addCell (cells : List Text) (name : Text) : cells <+: addCell cells name := by
  unfold addCell
  split
  · exact List.prefix_rfl
  · exact List.prefix_append _ _

theorem mem_namesOf {ws : List Weave} {w : Weave} (hw : w ∈ ws) :
    w.1 ∈ namesOf ws ∧ w.2 ∈ namesOf ws := by
  constructor <;>
    exact List.mem_eraseDups.mpr (List.mem_flatMap.mpr ⟨w, hw, by simp⟩)

theorem idxOf_concat {ws : List Weave} {name : Text} (w : Weave) (h : name ∈ namesOf ws) :
    (namesOf (ws ++ [w])).idxOf name = (namesOf ws).idxOf name := by
  rw [namesOf_concat]
  apply (List.IsPrefix.idxOf_eq_of_mem _ h).symm
  exact (prefix_addCell _ _).trans (prefix_addCell _ _)

/-- One weave more is one step of the parser. -/
theorem weave_fragmentOf (ws : List Weave) (w : Weave) :
    (fragmentOf ws).weave w = fragmentOf (ws ++ [w]) := by
  have hcells : addCell (addCell (namesOf ws) w.1) w.2 = namesOf (ws ++ [w]) :=
    (namesOf_concat ws w).symm
  have hroutes : ∀ v ∈ ws, (namesOf (ws ++ [w])).idxOf v.1 = (namesOf ws).idxOf v.1 ∧
      (namesOf (ws ++ [w])).idxOf v.2 = (namesOf ws).idxOf v.2 := by
    intro v hv
    exact ⟨idxOf_concat w (mem_namesOf hv).1, idxOf_concat w (mem_namesOf hv).2⟩
  simp only [Fragment.weave, fragmentOf, hcells, List.map_append, List.map_cons, List.map_nil]
  congr 2
  apply List.map_congr_left
  intro v hv
  rw [(hroutes v hv).1, (hroutes v hv).2]

end Names

section Parsing

variable {lineno : ℕ} {raw : Text} {got : Option Weave}

theorem checkName_ok {name : Text} {side : String} (h : checkName name side lineno = .ok ()) :
    WireName name := by
  unfold checkName at h
  split at h
  · cases h
  next hne =>
    split at h
    · cases h
    split at h
    · cases h
    next hascii =>
      split at h
      · cases h
      next hlen =>
        refine ⟨hne, fun c hc => ?_, Nat.not_lt.mp hlen⟩
        apply Nat.not_le.mp
        intro hwide
        exact hascii (List.any_eq_true.mpr ⟨c, hc, decide_eq_true hwide⟩)

theorem mem_splitArrow {c : Char} (hdash : c ≠ '-') (hhead : c ≠ '>') (t : Text) :
    c ∈ t ↔ ∃ half ∈ splitArrow t, c ∈ half := by
  induction t using splitArrow.induct with
  | case1 => simp [splitArrow]
  | case2 cs ih => simp [splitArrow, hdash, hhead, ih]
  | case3 d cs hne half halves hcs ih => 
    rw [splitArrow.eq_3 _ _ hne, hcs, List.mem_cons, ih, hcs]
    simp [or_and_right, or_assoc, exists_or]
  | case4 d cs hne hcs ih =>
    rw [splitArrow.eq_3 _ _ hne, hcs, List.mem_cons, ih, hcs]
    simp

/-- A line that weaves: the verb, and two names around one arrow. -/
structure LineWeaves (raw : Text) (w : Weave) : Prop where
  kept : isSkipped raw = false
  halves : ∃ operand src snk, splitOnce (strip raw) = [text "weave", operand] ∧
    splitArrow operand = [src, snk] ∧ w = (strip src, strip snk)
  names : WireName w.1 ∧ WireName w.2

theorem splitOnce_eq {t operand : Text} (h : (splitOnce t)[1]? = some operand) :
    splitOnce t = [(splitOnce t).headD [], operand] := by
  have hlen := length_splitOnce t
  cases hparts : splitOnce t with
  | nil =>
    rw [hparts] at h
    cases h
  | cons word rest =>
    rw [hparts] at h hlen
    cases rest with
    | nil => cases h
    | cons second rest =>
      have hrest : rest = [] := by
        apply List.eq_nil_of_length_eq_zero
        simp only [List.length_cons] at hlen
        omega
      cases h
      rw [hrest]
      rfl

theorem parseLine_ok (h : parseLine lineno raw = .ok got) :
    (isSkipped raw = true ∧ got = none) ∨ ∃ w, got = some w ∧ LineWeaves raw w := by
  unfold parseLine at h
  split at h
  next hskip =>
    cases h
    exact .inl ⟨hskip, rfl⟩
  next hkept =>
    dsimp only at h
    split at h
    · cases h
    next hverb =>
      split at h
      · cases h
      next operand hparts =>
        split at h
        · cases h
        next src snk harrow =>
          obtain ⟨u, hsrc, h⟩ := of_bind_ok h
          obtain ⟨v, hsnk, h⟩ := of_bind_ok h
          cases h
          refine .inr ⟨_, rfl, Bool.eq_false_iff.mpr hkept, ?_, checkName_ok hsrc, checkName_ok hsnk⟩
          refine ⟨operand, src, snk, ?_, harrow, rfl⟩
          rw [splitOnce_eq hparts, not_not.mp hverb]
        · cases h

theorem LineWeaves.weaveOf {w : Weave} (h : LineWeaves raw w) : weaveOf raw = some w := by
  obtain ⟨operand, src, snk, hparts, harrow, rfl⟩ := h.halves
  simp [Loomc.weaveOf, h.kept, hparts, harrow]

/-- A terminator is no white space and no part of the verb or of the arrow. -/
theorem LineWeaves.nul_iff {w : Weave} (h : LineWeaves raw w) :
    nul ∈ raw ↔ nul ∈ w.1 ∨ nul ∈ w.2 := by
  obtain ⟨operand, src, snk, hparts, harrow, rfl⟩ := h.halves
  have hsolid : isSpace nul = false := by decide
  rw [← mem_strip hsolid raw, mem_splitOnce hsolid, hparts]
  have hverb : nul ∉ text "weave" := by decide
  have hhalves := mem_splitArrow (c := nul) (by decide) (by decide) operand
  rw [harrow] at hhalves
  simp only [List.mem_cons, List.not_mem_nil, or_false, exists_eq_or_imp, exists_eq_left, hverb,
    false_or] at hhalves ⊢
  rw [hhalves, mem_strip hsolid, mem_strip hsolid]

theorem parseLines_ok {frag : Fragment} {raws : List Text} {ws : List Weave}
    (h : parseLines lineno (fragmentOf ws) raws = .ok frag) :
    frag = fragmentOf (ws ++ raws.filterMap weaveOf) ∧
      ∀ raw ∈ raws, isSkipped raw = true ∨ ∃ w, LineWeaves raw w := by
  induction raws generalizing lineno ws with
  | nil =>
    cases h
    exact ⟨by rw [List.filterMap_nil, List.append_nil], by simp⟩
  | cons raw raws ih =>
    obtain ⟨got, hgot, h⟩ := of_bind_ok h
    rcases parseLine_ok hgot with ⟨hskip, rfl⟩ | ⟨w, rfl, hw⟩
    · have hnone : weaveOf raw = none := by simp [weaveOf, hskip]
      rw [List.filterMap_cons_none hnone]
      obtain ⟨hfrag, hlines⟩ := ih h
      exact ⟨hfrag, List.forall_mem_cons.mpr ⟨.inl hskip, hlines⟩⟩
    · dsimp only at h
      rw [weave_fragmentOf] at h
      obtain ⟨hfrag, hlines⟩ := ih h
      rw [List.filterMap_cons_some hw.weaveOf, List.append_cons]
      exact ⟨hfrag, List.forall_mem_cons.mpr ⟨.inr ⟨w, hw⟩, hlines⟩⟩

end Parsing

/-- What the compiler accepts. -/
structure Accepted (source : Text) : Prop where
  lines : ∀ raw ∈ splitLines source, isSkipped raw = true ∨ ∃ w, LineWeaves raw w
  woven : weaves source ≠ []
  cells : (namesOf (weaves source)).length ≤ maxCellsPerFragment
  routes : (weaves source).length ≤ maxRoutesPerFragment

section Accepted

variable {source : Text} {frag : Fragment}

theorem parse_ok (h : parse source = .ok frag) :
    frag = fragmentOf (weaves source) ∧ Accepted source := by
  obtain ⟨got, hgot, h⟩ := of_bind_ok h
  obtain ⟨hfrag, hlines⟩ := @parseLines_ok 1 got (splitLines source) [] hgot
  have hgot : got = fragmentOf (weaves source) := hfrag
  subst hgot
  split at h
  · cases h
  next hroutes =>
    split at h
    · cases h
    next hcells =>
      split at h
      · cases h
      next hcount =>
        cases h
        refine ⟨rfl, hlines, ?_, Nat.not_lt.mp hcells, ?_⟩
        · intro hnil
          apply hroutes
          rw [hnil]
          rfl
        · have hlen : (fragmentOf (weaves source)).routes.length = (weaves source).length :=
            List.length_map _
          rw [← hlen]
          exact Nat.not_lt.mp hcount

theorem Accepted.weave {w : Weave} (h : Accepted source) (hw : w ∈ weaves source) :
    ∃ raw ∈ splitLines source, LineWeaves raw w := by
  obtain ⟨raw, hraw, hof⟩ := List.mem_filterMap.mp hw
  rcases h.lines raw hraw with hskip | ⟨v, hv⟩
  · simp [weaveOf, hskip] at hof
  · rw [hv.weaveOf] at hof
    cases hof
    exact ⟨raw, hraw, hv⟩

theorem Accepted.wireName {name : Text} (h : Accepted source)
    (hname : name ∈ namesOf (weaves source)) : WireName name := by
  obtain ⟨w, hw, hmem⟩ := List.mem_flatMap.mp (List.mem_eraseDups.mp hname)
  obtain ⟨raw, -, hweave⟩ := h.weave hw
  rcases List.mem_pair.mp hmem with rfl | rfl
  · exact hweave.names.1
  · exact hweave.names.2

/-- A terminator in a line is one in a name, unless the line is skipped. -/
theorem Accepted.nul_iff (h : Accepted source) :
    (∀ raw ∈ splitLines source, nul ∈ raw → isSkipped raw = true) ↔
      ∀ name ∈ namesOf (weaves source), nul ∉ name := by
  constructor
  · intro hlines name hname hnul
    obtain ⟨w, hw, hmem⟩ := List.mem_flatMap.mp (List.mem_eraseDups.mp hname)
    obtain ⟨raw, hraw, hweave⟩ := h.weave hw
    have hin : nul ∈ raw := by
      apply hweave.nul_iff.mpr
      rcases List.mem_pair.mp hmem with rfl | rfl
      · exact .inl hnul
      · exact .inr hnul
    have hskip := hlines raw hraw hin
    rw [hweave.kept] at hskip
    cases hskip
  · intro hnames raw hraw hnul
    rcases h.lines raw hraw with hskip | ⟨w, hweave⟩
    · exact hskip
    · have hw := mem_namesOf (List.mem_filterMap.mpr ⟨raw, hraw, hweave.weaveOf⟩)
      rcases hweave.nul_iff.mp hnul with h1 | h2
      · exact absurd h1 (hnames _ hw.1)
      · exact absurd h2 (hnames _ hw.2)

end Accepted

end ReflexOS.Loomc
