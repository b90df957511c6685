import ReflexOS.GooseLoom
import ReflexOS.GooseTrits

set_option autoImplicit false

/-!
# What a weave reads

The same weave with every copy out of the buffer checked against its end.
-/
namespace ReflexOS.Goose
open LittleEndian Runs

/-- `memcpy` out of the buffer; `none` is a read outside it. -/
def readBytes (buffer : List UInt8) (off w : ℕ) : Option (List UInt8) :=
  if off + w ≤ buffer.length then some ((buffer.drop off).take w) else none

def cellEntryName (ce : List UInt8) : CName :=
  (ce.take (loomCellEntrySize - 1)).takeWhile fun c => decide (c ≠ 0)

def routeEntryOf (re : List UInt8) : LoomRouteEntry where
  srcIdx := loomNumber re 0 2
  snkIdx := loomNumber re 2 2
  orientation := i8 (loomNumber re 4 1)
  coupling := loomNumber re 5 1

def readCellEntry (buffer : List UInt8) (i : ℕ) : Option (List UInt8) :=
  readBytes buffer (loomHeaderSize + i * loomCellEntrySize) loomCellEntrySize

def readRouteEntry (buffer : List UInt8) (head : LoomHeader) (i : ℕ) : Option (List UInt8) :=
  readBytes buffer (loomHeaderSize + head.cellCount * loomCellEntrySize + i * loomRouteEntrySize)
    loomRouteEntrySize

def resolveReads (atlas : Atlas) (hmac : List UInt8 → List UInt8) (calls : LoomCalls)
    (buffer : List UInt8) (F : Fabric) (M : Mesh) : ℕ → Option Resolved
  | 0 => some ⟨[], F, M⟩
  | n + 1 => do
    let R ← resolveReads atlas hmac calls buffer F M n
    let ce ← readCellEntry buffer n
    let got := gooniesResolveCell atlas hmac (calls.lock n) (calls.now n) R.fabric R.mesh
      (cellEntryName ce)
    return ⟨R.cells ++ [got.1], got.2.1, got.2.2⟩

/-- The routes are read up to the first that is refused. -/
def routesReads (buffer : List UInt8) (head : LoomHeader) (cells : List (Option ℕ)) :
    List ℕ → Option Err
  | [] => some Err.ok
  | i :: is => do
    let re ← readRouteEntry buffer head i
    let err := loomRouteError head.cellCount cells (routeEntryOf re)
    if err ≠ Err.ok then return err else routesReads buffer head cells is

def wovenRoute (head : LoomHeader) (R : Resolved) (i : ℕ) (re : LoomRouteEntry) : Route :=
  { zeroRoute with
    name := (ascii "ls" ++ decimal (head.nameHash % 2 ^ 12) ++ ascii "_" ++ decimal i).take 15
    sourceCoord := pointedCoord R re.srcIdx
    sinkCoord := pointedCoord R re.snkIdx
    orientation := re.orientation
    coupling := couplingOf re.coupling }

def wovenRoutes (buffer : List UInt8) (head : LoomHeader) (R : Resolved) :
    List ℕ → Option (List Route)
  | [] => some []
  | i :: is => do
    let re ← readRouteEntry buffer head i
    let routes ← wovenRoutes buffer head R is
    return wovenRoute head R i (routeEntryOf re) :: routes

variable {W : Type*}

def weaveLoomReads (atlas : Atlas) (hmac : List UInt8 → List UInt8) (calls : LoomCalls)
    (T : Tapestry W) : Option (List UInt8) → Option (Err × Tapestry W)
  | none => some (Err.invalidArg, T)
  | some buffer =>
    if buffer.length < loomHeaderSize then some (Err.invalidSize, T)
    else if maxLoomFragments ≤ T.activeLoomFragments then some (Err.noMem, T)
    else
      (readBytes buffer 0 loomHeaderSize).bind fun bytes =>
        let head := loomHeader bytes
        if head.magic ≠ loomMagic then some (Err.invalidVersion, T)
        else if head.cellCount = 0 ∨ maxCellsPerFragment < head.cellCount ∨
            head.routeCount = 0 ∨ maxRoutesPerFragment < head.routeCount then
          some (Err.invalidSize, T)
        else if head.transCount ≠ 0 then some (Err.notSupported, T)
        else if buffer.length < loomHeaderSize + head.cellCount * loomCellEntrySize +
            head.routeCount * loomRouteEntrySize then some (Err.invalidSize, T)
        else
          (resolveReads atlas hmac calls buffer T.substrate.fabric T.mesh head.cellCount).bind fun R =>
            let T := { T with substrate := { T.substrate with fabric := R.fabric }, mesh := R.mesh }
            (routesReads buffer head R.cells (List.range head.routeCount)).bind fun err =>
              if err ≠ Err.ok then some (err, T)
              else
                match calls.field with
                | none => some (Err.noMem, T)
                | some fid =>
                  if !calls.routes then some (Err.noMem, T)
                  else
                    (wovenRoutes buffer head R (List.range head.routeCount)).map fun routes =>
                      let field : Field :=
                        { name := (ascii "ls_0x" ++ hex8 head.nameHash).take 15
                          routes := routes
                          transitions := []
                          totalPulses := 0 }
                      (Err.ok, { T with
                        substrate := fieldStartPulse (T.substrate.setField fid field) fid
                        supervised := supervisorRegisterField T.supervised fid
                        activeLoomFragments := T.activeLoomFragments + 1 })

section Reads
variable {buffer : List UInt8} {off w a b : ℕ}

theorem readBytes_some (h : off + w ≤ buffer.length) :
    readBytes buffer off w = some ((buffer.drop off).take w) := if_pos h

theorem loomNumber_copy (h : a + b ≤ w) :
    loomNumber ((buffer.drop off).take w) a b = loomNumber buffer (off + a) b := by
  rw [loomNumber, loomNumber, List.drop_take, List.take_take, List.drop_drop,
    Nat.min_eq_left (by omega)]

theorem loomHeader_copy : loomHeader ((buffer.drop 0).take loomHeaderSize) = loomHeader buffer := by
  have hsize : loomHeaderSize = 18 := rfl
  simp (disch := omega) only [loomHeader, loomNumber_copy, Nat.zero_add]

theorem cellEntryName_copy (i : ℕ) :
    cellEntryName ((buffer.drop (loomHeaderSize + i * loomCellEntrySize)).take loomCellEntrySize) =
      loomCellName buffer i := by
  rw [cellEntryName, List.take_take, Nat.min_eq_left (Nat.sub_le _ _)]
  rfl

theorem routeEntryOf_copy (head : LoomHeader) (i : ℕ) :
    routeEntryOf ((buffer.drop (loomHeaderSize + head.cellCount * loomCellEntrySize +
        i * loomRouteEntrySize)).take loomRouteEntrySize) =
      loomRouteEntry buffer head.cellCount i := by
  have hsize : loomRouteEntrySize = 6 := rfl
  simp (disch := omega) only [routeEntryOf, loomRouteEntry, loomNumber_copy, Nat.add_zero]

variable {head : LoomHeader} {n : ℕ}

/-- The entries behind the header lie inside the buffer. -/
def EntriesInside (buffer : List UInt8) : Prop :=
  loomHeaderSize + (loomHeader buffer).cellCount * loomCellEntrySize +
    (loomHeader buffer).routeCount * loomRouteEntrySize ≤ buffer.length

variable (h : EntriesInside buffer)
include h

theorem readCellEntry_inside {i : ℕ} (hi : i < (loomHeader buffer).cellCount) :
    readCellEntry buffer i =
      some ((buffer.drop (loomHeaderSize + i * loomCellEntrySize)).take loomCellEntrySize) := by
  have hentry := Nat.mul_le_mul_right loomCellEntrySize (Nat.succ_le_of_lt hi)
  rw [Nat.succ_mul] at hentry
  unfold EntriesInside at h
  exact readBytes_some (by omega)

theorem readRouteEntry_inside {i : ℕ} (hi : i < (loomHeader buffer).routeCount) :
    (readRouteEntry buffer (loomHeader buffer) i).map routeEntryOf =
      some (loomRouteEntry buffer (loomHeader buffer).cellCount i) := by
  have hentry := Nat.mul_le_mul_right loomRouteEntrySize (Nat.succ_le_of_lt hi)
  rw [Nat.succ_mul] at hentry
  unfold EntriesInside at h
  rw [readRouteEntry, readBytes_some (by omega), Option.map_some, routeEntryOf_copy]

theorem resolveReads_inside (atlas : Atlas) (hmac : List UInt8 → List UInt8) (calls : LoomCalls)
    (F : Fabric) (M : Mesh) {n : ℕ} (hn : n ≤ (loomHeader buffer).cellCount) :
    resolveReads atlas hmac calls buffer F M n =
      some (resolveNames atlas hmac calls buffer F M n) := by
  induction n with
  | zero => rfl
  | succ n ih =>
    rw [resolveReads, ih (Nat.le_of_succ_le hn), readCellEntry_inside h hn, resolveNames,
      ← cellEntryName_copy]
    rfl

theorem routesReads_inside (cells : List (Option ℕ)) {is : List ℕ}
    (his : ∀ i ∈ is, i < (loomHeader buffer).routeCount) :
    routesReads buffer (loomHeader buffer) cells is =
      some (((is.map fun i => loomRouteError (loomHeader buffer).cellCount cells
        (loomRouteEntry buffer (loomHeader buffer).cellCount i)).find?
          fun err => decide (err ≠ Err.ok)).getD Err.ok) := by
  induction is with
  | nil => rfl
  | cons i is ih =>
    obtain ⟨hi, his⟩ := List.forall_mem_cons.mp his
    obtain ⟨re, hread, hentry⟩ := Option.map_eq_some_iff.mp (readRouteEntry_inside h hi)
    rw [routesReads, hread, List.map_cons, List.find?_cons]
    simp only [Option.bind_eq_bind, Option.bind_some, hentry]
    by_cases herr : loomRouteError (loomHeader buffer).cellCount cells
        (loomRouteEntry buffer (loomHeader buffer).cellCount i) = Err.ok
    · rw [if_neg (not_not.mpr herr), decide_eq_false (not_not.mpr herr), ih his]
    · rw [if_pos herr, decide_eq_true herr]
      rfl

theorem wovenRoutes_inside (R : Resolved) {is : List ℕ}
    (his : ∀ i ∈ is, i < (loomHeader buffer).routeCount) :
    wovenRoutes buffer (loomHeader buffer) R is = some (is.map (loomRoute buffer R)) := by
  induction is with
  | nil => rfl
  | cons i is ih =>
    obtain ⟨hi, his⟩ := List.forall_mem_cons.mp his
    obtain ⟨re, hread, hentry⟩ := Option.map_eq_some_iff.mp (readRouteEntry_inside h hi)
    rw [wovenRoutes, hread, ih his]
    simp only [Option.bind_eq_bind, Option.bind_some, hentry]
    rfl

end Reads

/-- No copy of a weave leaves the buffer. -/
theorem weaveLoomReads_eq (atlas : Atlas) (hmac : List UInt8 → List UInt8) (calls : LoomCalls)
    (T : Tapestry W) (buffer : Option (List UInt8)) :
    weaveLoomReads atlas hmac calls T buffer = some (weaveLoom atlas hmac calls T buffer) := by
  cases buffer with
  | none => rfl
  | some buffer =>
    unfold weaveLoomReads weaveLoom loomHeaderError
    dsimp only
    by_cases hsize : buffer.length < loomHeaderSize
    · simp only [if_pos hsize]
      rfl
    have hcopy := @readBytes_some buffer 0 loomHeaderSize (by omega)
    simp only [if_neg hsize, hcopy, Option.bind_some, loomHeader_copy]
    by_cases hquota : maxLoomFragments ≤ T.activeLoomFragments
    · simp only [if_pos hquota]
      rfl
    simp only [if_neg hquota]
    by_cases hmagic : (loomHeader buffer).magic ≠ loomMagic
    · simp only [if_pos hmagic]
      rfl
    simp only [if_neg hmagic]
    by_cases hcounts : (loomHeader buffer).cellCount = 0 ∨
        maxCellsPerFragment < (loomHeader buffer).cellCount ∨
        (loomHeader buffer).routeCount = 0 ∨
        maxRoutesPerFragment < (loomHeader buffer).routeCount
    · simp only [if_pos hcounts]
      rfl
    simp only [if_neg hcounts]
    by_cases htrans : (loomHeader buffer).transCount ≠ 0
    · simp only [if_pos htrans]
      rfl
    simp only [if_neg htrans]
    by_cases hneed : buffer.length < loomHeaderSize +
        (loomHeader buffer).cellCount * loomCellEntrySize +
        (loomHeader buffer).routeCount * loomRouteEntrySize
    · simp only [if_pos hneed]
      rfl
    have hinside : EntriesInside buffer := Nat.le_of_not_lt hneed
    have hrange : ∀ i ∈ List.range (loomHeader buffer).routeCount,
        i < (loomHeader buffer).routeCount := fun i hi => List.mem_range.mp hi
    rw [if_neg hneed, if_neg hneed, if_neg (not_not.mpr rfl),
      resolveReads_inside hinside atlas hmac calls _ _ le_rfl, Option.bind_some,
      routesReads_inside hinside _ hrange, Option.bind_some, wovenRoutes_inside hinside _ hrange]
    by_cases hroutes : loomRoutesError buffer (resolveNames atlas hmac calls buffer
        T.substrate.fabric T.mesh (loomHeader buffer).cellCount).cells ≠ Err.ok
    · rw [if_pos hroutes]
      exact if_pos hroutes
    · rw [if_neg hroutes]
      refine (if_neg hroutes).trans ?_
      cases calls.field with
      | none => rfl
      | some fid =>
        cases hcall : calls.routes with
        | true => rfl
        | false => rfl

/-- What a woven field is of an accepted fragment. -/
structure WovenSound (buffer : List UInt8) (field : Field) : Prop where
  routeCount : field.routes.length = (loomHeader buffer).routeCount
  transCount : (loomHeader buffer).transCount = 0
  indexes : ∀ i < (loomHeader buffer).routeCount,
    (loomRouteEntry buffer (loomHeader buffer).cellCount i).srcIdx < (loomHeader buffer).cellCount ∧
      (loomRouteEntry buffer (loomHeader buffer).cellCount i).snkIdx < (loomHeader buffer).cellCount
  orientation : ∀ r ∈ field.routes, IsTrit r.orientation
  coupling : ∀ r ∈ field.routes, r.coupling = .software

section Accepted
variable {atlas : Atlas} {hmac : List UInt8 → List UInt8} {calls : LoomCalls} {T : Tapestry W}
  {buffer : List UInt8}

theorem loomHeaderError_ok {active : ℕ} (h : loomHeaderError active buffer = Err.ok) :
    active < maxLoomFragments ∧ (loomHeader buffer).transCount = 0 := by
  unfold loomHeaderError at h
  dsimp only at h
  split at h
  · cases h
  split at h
  · cases h
  next hactive =>
  split at h
  · cases h
  split at h
  · cases h
  split at h
  · cases h
  next htrans => exact ⟨Nat.lt_of_not_le hactive, not_not.mp htrans⟩

theorem weaveLoom_ok (h : (weaveLoom atlas hmac calls T (some buffer)).1 = Err.ok) :
    loomHeaderError T.activeLoomFragments buffer = Err.ok ∧
      (∃ fid, calls.field = some fid) ∧
      (weaveLoom atlas hmac calls T (some buffer)).2.activeLoomFragments =
        T.activeLoomFragments + 1 := by
  obtain ⟨hheader, -, fid, hfield, hwoven⟩ := weaveLoom_woven h
  rw [hwoven]
  exact ⟨hheader, ⟨fid, hfield⟩, rfl⟩

theorem weaveLoom_refused_count {buffer : Option (List UInt8)}
    (h : (weaveLoom atlas hmac calls T buffer).1 ≠ Err.ok) :
    (weaveLoom atlas hmac calls T buffer).2.activeLoomFragments = T.activeLoomFragments := by
  cases buffer with
  | none => rfl
  | some buffer =>
    rw [weaveLoom_refused h]
    split <;> rfl

theorem loomRouteError_sound {cellCount : ℕ} {cells : List (Option ℕ)} {re : LoomRouteEntry}
    (h : loomRouteError cellCount cells re = Err.ok) :
    re.srcIdx < cellCount ∧ re.snkIdx < cellCount ∧ IsTrit re.orientation ∧
      couplingOf re.coupling = .software := by
  unfold loomRouteError at h
  split at h
  · cases h
  next hidx =>
  split at h
  · cases h
  split at h
  · cases h
  next hpolicy =>
    unfold policyLoomRouteAcceptable at hpolicy
    split at hpolicy
    · exact absurd rfl hpolicy
    next htrit =>
      have hcoupling : re.coupling = policyCouplingSoftware := by
        by_contra hne
        rw [decide_eq_false hne] at hpolicy
        exact hpolicy rfl
      refine ⟨by omega, by omega, ⟨by omega, by omega⟩, ?_⟩
      rw [hcoupling]
      rfl

theorem wovenSound (h : (weaveLoom atlas hmac calls T (some buffer)).1 = Err.ok) {fid : ℕ}
    (hfid : calls.field = some fid) :
    WovenSound buffer ((weaveLoom atlas hmac calls T (some buffer)).2.substrate.fields fid) := by
  obtain ⟨hroutes, -, hfield⟩ := weaveLoom_accepted h hfid
  obtain ⟨hheader, -, -⟩ := weaveLoom_ok h
  have hentry := fun i (hi : i < (loomHeader buffer).routeCount) =>
    loomRouteError_sound (loomRoutesError_ok hroutes hi)
  rw [hfield]
  refine ⟨?_, (loomHeaderError_ok hheader).2, fun i hi => ?_, fun r hr => ?_, fun r hr => ?_⟩
  · rw [loomField, List.length_map, List.length_range]
  · exact ⟨(hentry i hi).1, (hentry i hi).2.1⟩
  · obtain ⟨i, hi, rfl⟩ := List.mem_map.mp hr
    exact (hentry i (List.mem_range.mp hi)).2.2.1
  · obtain ⟨i, hi, rfl⟩ := List.mem_map.mp hr
    exact (hentry i (List.mem_range.mp hi)).2.2.2

end Accepted

/-- A weave, or anything else that leaves the count of fragments alone. -/
inductive LoomStep (atlas : Atlas) (hmac : List UInt8 → List UInt8) :
    Tapestry W → Option (LoomCalls × Option (List UInt8)) → Tapestry W → Prop where
  | weave (T : Tapestry W) (calls : LoomCalls) (buffer : Option (List UInt8)) :
      LoomStep atlas hmac T (some (calls, buffer)) (weaveLoom atlas hmac calls T buffer).2
  | other (T T' : Tapestry W) (h : T'.activeLoomFragments = T.activeLoomFragments) :
      LoomStep atlas hmac T none T'

theorem LoomStep.count {atlas : Atlas} {hmac : List UInt8 → List UInt8} {T T' : Tapestry W}
    {l : Option (LoomCalls × Option (List UInt8))} (h : LoomStep atlas hmac T l T')
    (hT : T.activeLoomFragments ≤ maxLoomFragments) :
    T'.activeLoomFragments ≤ maxLoomFragments := by
  cases h with
  | other T' h => rwa [h]
  | weave calls buffer =>
    by_cases hok : (weaveLoom atlas hmac calls T buffer).1 = Err.ok
    · cases buffer with
      | none => exact hT
      | some buffer =>
        obtain ⟨hheader, -, hcount⟩ := weaveLoom_ok hok
        rw [hcount]
        exact (loomHeaderError_ok hheader).1
    · rwa [weaveLoom_refused_count hok]

/-- Whatever is woven since boot, at most eight fragments are; no weave reads outside its buffer,
and what it accepts is as its header declares. -/
theorem weave_loom_sound {atlas : Atlas} {hmac : List UInt8 → List UInt8} {T₀ T : Tapestry W}
    {ls : List (Option (LoomCalls × Option (List UInt8)))} (hboot : T₀.activeLoomFragments = 0)
    (hrun : Run (LoomStep atlas hmac) T₀ ls T) :
    T.activeLoomFragments ≤ maxLoomFragments ∧
      ∀ calls buffer,
        weaveLoomReads atlas hmac calls T buffer = some (weaveLoom atlas hmac calls T buffer) ∧
          ∀ bytes, buffer = some bytes → (weaveLoom atlas hmac calls T buffer).1 = Err.ok →
            (weaveLoom atlas hmac calls T buffer).2.activeLoomFragments =
                T.activeLoomFragments + 1 ∧
              ∃ fid, calls.field = some fid ∧
                WovenSound bytes ((weaveLoom atlas hmac calls T buffer).2.substrate.fields fid) := by
  have hcount : T.activeLoomFragments ≤ maxLoomFragments := by
    apply hrun.invariant (fun T => T.activeLoomFragments ≤ maxLoomFragments)
    · exact fun _ _ _ hT hs => LoomStep.count hs hT
    · exact hboot ▸ Nat.zero_le _
  refine ⟨hcount, fun calls buffer => ?_⟩
  refine ⟨weaveLoomReads_eq atlas hmac calls T buffer, ?_⟩
  rintro bytes rfl hok
  obtain ⟨-, ⟨fid, hfid⟩, hcount⟩ := weaveLoom_ok hok
  exact ⟨hcount, fid, hfid, wovenSound hok hfid⟩

theorem weave_loom_sound_seeds :
    (weaveLoomReads emptyAtlas (fun _ => []) freeCalls (loomTapestry coldFabric)
        (some seedFragment)).map (fun r => r.2.activeLoomFragments) = some 1 ∧
      WovenSound seedFragment ((weaveLoom emptyAtlas (fun _ => []) freeCalls
        (loomTapestry coldFabric) (some seedFragment)).2.substrate.fields 1) := by
  have hok : (weaveLoom emptyAtlas (fun _ => []) freeCalls (loomTapestry coldFabric)
      (some seedFragment)).1 = Err.ok := by decide +kernel
  obtain ⟨-, hweave⟩ := @weave_loom_sound _ emptyAtlas (fun _ => []) _ _ [] rfl
    (.nil (loomTapestry coldFabric))
  obtain ⟨hread, hwoven⟩ := hweave freeCalls (some seedFragment)
  obtain ⟨hcount, fid, hfid, hsound⟩ := hwoven seedFragment rfl hok
  rw [hread]
  cases hfid
  exact ⟨congrArg some hcount, hsound⟩

end ReflexOS.Goose
