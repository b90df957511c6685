import ReflexOS.GooseBinding
import ReflexOS.GooseMesh
import ReflexOS.LittleEndian

set_option autoImplicit false

/-!
# LoomScript fragments

A fragment names cells and routes between them. All names are resolved first, to pointers;
the coordinates of the routes are read through the pointers afterwards.
-/
namespace ReflexOS.Goose
open VmTernary LinearProbing Runs

def loomMagic : ℕ := 0x4D4F4F4C
def maxLoomFragments : ℕ := 8
def maxRoutesPerFragment : ℕ := 32
def maxCellsPerFragment : ℕ := 64
def maxGlobalFields : ℕ := 16
def maxSupervisedFields : ℕ := 32

def loomHeaderSize : ℕ := 18
def loomCellEntrySize : ℕ := 24
def loomRouteEntrySize : ℕ := 6

structure LoomHeader where
  magic : ℕ
  nameHash : ℕ
  cellCount : ℕ
  routeCount : ℕ
  transCount : ℕ

structure LoomRouteEntry where
  srcIdx : ℕ
  snkIdx : ℕ
  orientation : ℤ
  coupling : ℕ

/-- The number in `w` bytes at an offset. -/
def loomNumber (buffer : List UInt8) (off w : ℕ) : ℕ :=
  LittleEndian.decode ((buffer.drop off).take w)

def loomHeader (buffer : List UInt8) : LoomHeader where
  magic := loomNumber buffer 0 4
  nameHash := loomNumber buffer 8 4
  cellCount := loomNumber buffer 12 2
  routeCount := loomNumber buffer 14 2
  transCount := loomNumber buffer 16 2

/-- The name of a cell entry; its last byte is overwritten by a terminator. -/
def loomCellName (buffer : List UInt8) (i : ℕ) : CName :=
  ((buffer.drop (loomHeaderSize + i * loomCellEntrySize)).take (loomCellEntrySize - 1)).takeWhile
    fun c => decide (c ≠ 0)

def loomRouteEntry (buffer : List UInt8) (cellCount i : ℕ) : LoomRouteEntry :=
  let base := loomHeaderSize + cellCount * loomCellEntrySize + i * loomRouteEntrySize
  { srcIdx := loomNumber buffer base 2
    snkIdx := loomNumber buffer (base + 2) 2
    orientation := i8 (loomNumber buffer (base + 4) 1)
    coupling := loomNumber buffer (base + 5) 1 }

def couplingOf : ℕ → Coupling
  | 1 => .software
  | 2 => .async
  | 3 => .radio
  | 4 => .dma
  | 5 => .silicon
  | _ => .hardware

def policyCouplingSoftware : ℕ := 1

def policyLoomRouteAcceptable (orientation : ℤ) (coupling : ℕ) : Bool :=
  if orientation < -1 ∨ 1 < orientation then false else decide (coupling = policyCouplingSoftware)

/-- What the calls out of one weave meet: the loom and the clock at each lookup, and the two
allocations on the heap. -/
structure LoomCalls where
  lock : ℕ → Bool
  now : ℕ → ℕ
  field : Option ℕ
  routes : Bool

/-- What the names resolved to so far. -/
structure Resolved where
  cells : List (Option ℕ)
  fabric : Fabric
  mesh : Mesh

/-- The first `n` names, in order. -/
def resolveNames (atlas : Atlas) (hmac : List UInt8 → List UInt8) (calls : LoomCalls)
    (buffer : List UInt8) (F : Fabric) (M : Mesh) : ℕ → Resolved
  | 0 => ⟨[], F, M⟩
  | n + 1 =>
    let R := resolveNames atlas hmac calls buffer F M n
    let got := gooniesResolveCell atlas hmac (calls.lock n) (calls.now n) R.fabric R.mesh
      (loomCellName buffer n)
    ⟨R.cells ++ [got.1], got.2.1, got.2.2⟩

def loomHeaderError (active : ℕ) (buffer : List UInt8) : Err :=
  let head := loomHeader buffer
  if buffer.length < loomHeaderSize then Err.invalidSize
  else if maxLoomFragments ≤ active then Err.noMem
  else if head.magic ≠ loomMagic then Err.invalidVersion
  else if head.cellCount = 0 ∨ maxCellsPerFragment < head.cellCount ∨
      head.routeCount = 0 ∨ maxRoutesPerFragment < head.routeCount then Err.invalidSize
  else if head.transCount ≠ 0 then Err.notSupported
  else if buffer.length < loomHeaderSize + head.cellCount * loomCellEntrySize +
      head.routeCount * loomRouteEntrySize then Err.invalidSize
  else Err.ok

def loomRouteError (cellCount : ℕ) (cells : List (Option ℕ)) (re : LoomRouteEntry) : Err :=
  if cellCount ≤ re.srcIdx ∨ cellCount ≤ re.snkIdx then Err.invalidArg
  else if cells[re.srcIdx]?.join = none ∨ cells[re.snkIdx]?.join = none then Err.notFound
  else if !policyLoomRouteAcceptable re.orientation re.coupling then Err.invalidArg
  else Err.ok

/-- The first route that is refused decides. -/
def loomRoutesError (buffer : List UInt8) (cells : List (Option ℕ)) : Err :=
  let head := loomHeader buffer
  (((List.range head.routeCount).map fun i =>
    loomRouteError head.cellCount cells (loomRouteEntry buffer head.cellCount i)).find?
      fun err => decide (err ≠ Err.ok)).getD Err.ok

def decimal (n : ℕ) : CName := ascii (toString n)

/-- Eight upper-case digits. -/
def hex8 (n : ℕ) : CName := (List.range 8).map fun i =>
  let digit := n / 16 ^ (7 - i) % 16
  UInt8.ofNat (if digit < 10 then 48 + digit else 55 + digit)

/-- The coordinate a resolved pointer leads to now. -/
def pointedCoord (R : Resolved) (idx : ℕ) : Tryte9 :=
  (R.fabric.cells ((R.cells[idx]?.join).getD 0)).coord

def loomRoute (buffer : List UInt8) (R : Resolved) (i : ℕ) : Route :=
  let head := loomHeader buffer
  let re := loomRouteEntry buffer head.cellCount i
  { zeroRoute with
    name := (ascii "ls" ++ decimal (head.nameHash % 2 ^ 12) ++ ascii "_" ++ decimal i).take 15
    sourceCoord := pointedCoord R re.srcIdx
    sinkCoord := pointedCoord R re.snkIdx
    orientation := re.orientation
    coupling := couplingOf re.coupling }

def loomField (buffer : List UInt8) (R : Resolved) : Field where
  name := (ascii "ls_0x" ++ hex8 (loomHeader buffer).nameHash).take 15
  routes := (List.range (loomHeader buffer).routeCount).map (loomRoute buffer R)
  transitions := []
  totalPulses := 0

variable {W : Type*}

def fieldStartPulse (S : Substrate W) (fid : ℕ) : Substrate W :=
  if S.globalFields.length < maxGlobalFields then { S with globalFields := S.globalFields ++ [fid] }
  else S

@[simp] theorem fieldStartPulse_fields (S : Substrate W) (fid : ℕ) :
    (fieldStartPulse S fid).fields = S.fields := by
  unfold fieldStartPulse
  split <;> rfl

@[simp] theorem fieldStartPulse_fabric (S : Substrate W) (fid : ℕ) :
    (fieldStartPulse S fid).fabric = S.fabric := by
  unfold fieldStartPulse
  split <;> rfl

def supervisorRegisterField (supervised : List ℕ) (fid : ℕ) : List ℕ :=
  if maxSupervisedFields ≤ supervised.length then supervised
  else if fid ∈ supervised then supervised
  else supervised ++ [fid]

/-- The substrate with the peers it resolves names on, the fields under supervision and the
count of fragments woven. -/
structure Tapestry (W : Type*) where
  substrate : Substrate W
  mesh : Mesh
  supervised : List ℕ
  activeLoomFragments : ℕ

/-- `goose_weave_loom`. -/
def weaveLoom (atlas : Atlas) (hmac : List UInt8 → List UInt8) (calls : LoomCalls)
    (T : Tapestry W) : Option (List UInt8) → Err × Tapestry W
  | none => (Err.invalidArg, T)
  | some buffer =>
    let headerErr := loomHeaderError T.activeLoomFragments buffer
    if headerErr ≠ Err.ok then (headerErr, T)
    else
      let R := resolveNames atlas hmac calls buffer T.substrate.fabric T.mesh
        (loomHeader buffer).cellCount
      let T := { T with substrate := { T.substrate with fabric := R.fabric }, mesh := R.mesh }
      let routesErr := loomRoutesError buffer R.cells
      if routesErr ≠ Err.ok then (routesErr, T)
      else
        match calls.field with
        | none => (Err.noMem, T)
        | some fid =>
          if !calls.routes then (Err.noMem, T)
          else
            (Err.ok, { T with
              substrate := fieldStartPulse (T.substrate.setField fid (loomField buffer R)) fid
              supervised := supervisorRegisterField T.supervised fid
              activeLoomFragments := T.activeLoomFragments + 1 })

/-- The coordinate of the live cell registered under the name. -/
def CellNamed (F : Fabric) (name : CName) (coord : Tryte9) : Prop :=
  gooniesResolve F.registry name = some coord ∧
    ∃ v < F.cellCount, getCellByCoord F coord = some v ∧ (F.cells v).coord = coord

/-- The woven field has every route of the fragment, between the cells the fragment names. -/
def LoomRoutesNamed (T : Tapestry W) (fid : ℕ) (buffer : List UInt8) : Prop :=
  let head := loomHeader buffer
  ∀ i < head.routeCount, ∃ r, (T.substrate.fields fid).routes[i]? = some r ∧
    let re := loomRouteEntry buffer head.cellCount i
    CellNamed T.substrate.fabric (loomCellName buffer re.srcIdx) r.sourceCoord ∧
      CellNamed T.substrate.fabric (loomCellName buffer re.snkIdx) r.sinkCoord

/-- Where a cell for an unregistered name goes, and whether the system weaves it. -/
def pageCoord (atlas : Atlas) (M : Mesh) (name : CName) : Option (Tryte9 × Bool) :=
  if nsPeer.isPrefixOf name then some (ghostCoord M.ghostCounter, false)
  else (atlas name).map fun e => (e.coord, true)

/-- The lookup of a name weaves a cell at the coordinate. -/
def LookupPages (atlas : Atlas) (lock : Bool) (F : Fabric) (M : Mesh) (name : CName)
    (coord : Tryte9) : Prop :=
  gooniesResolve F.registry name = none ∧ ∃ sys, pageCoord atlas M name = some (coord, sys) ∧
    ¬ Refused atlas lock F sys ∧ getCellByCoord F coord = none

/-- The lookup of a name takes the slot of a victim. -/
def LookupEvicts (atlas : Atlas) (lock : Bool) (F : Fabric) (M : Mesh) (name : CName)
    (t : ℕ) : Prop :=
  (∃ coord, LookupPages atlas lock F M name coord) ∧ fabricMaxCells ≤ F.cellCount ∧
    findVictim F = some t

section Lookup

variable {atlas : Atlas} {hmac : List UInt8 → List UInt8} {lock : Bool} {now : ℕ} {F : Fabric}
  {M : Mesh} {name : CName}

theorem gooniesResolveCell_known {coord : Tryte9} (hres : gooniesResolve F.registry name = some coord) :
    gooniesResolveCell atlas hmac lock now F M name = (getCellByCoord F coord, F, M) := by
  simp [gooniesResolveCell, resolveCell, hres]

/-- The lookup of a name that is not registered: nothing, or a weave with something written
into the new cell. -/
theorem gooniesResolveCell_new (hheap : atlas heapPressureName = none)
    (hnew : gooniesResolve F.registry name = none) :
    ((∀ coord sys, pageCoord atlas M name = some (coord, sys) → Refused atlas lock F sys) ∧
      (gooniesResolveCell atlas hmac lock now F M name).1 = none ∧
      (gooniesResolveCell atlas hmac lock now F M name).2.1 = F) ∨
    ∃ coord sys cells, pageCoord atlas M name = some (coord, sys) ∧ ¬ Refused atlas lock F sys ∧
      (∀ v, (cells v).coord =
        ((allocLocked atlas true F (some name) coord sys false).2.cells v).coord) ∧
      (gooniesResolveCell atlas hmac lock now F M name).1 =
        (allocLocked atlas true F (some name) coord sys false).1 ∧
      (gooniesResolveCell atlas hmac lock now F M name).2.1 =
        { (allocLocked atlas true F (some name) coord sys false).2 with cells := cells } := by
  by_cases hpeer : nsPeer.isPrefixOf name
  · have hpage : pageCoord atlas M name = some (ghostCoord M.ghostCounter, false) := if_pos hpeer
    have hgot : gooniesResolveCell atlas hmac lock now F M name =
        resolvePeer atlas hmac lock now F M name := by
      simp [gooniesResolveCell, hnew, hpeer]
    rw [hgot, hpage]
    unfold resolvePeer
    dsimp only
    rw [atmosphereQuery_ghostCounter, fabricAllocCell]
    by_cases hr : Refused atlas lock F false
    · rw [fabricAllocInternal_refused hheap hr]
      refine .inl ⟨fun coord sys hsome => ?_, rfl, rfl⟩
      cases hsome
      exact hr
    · rw [fabricAllocInternal_free hheap hr]
      refine .inr ⟨ghostCoord M.ghostCounter, false, ?_⟩
      split
      next idx peer hidx _ =>
        refine ⟨_, rfl, hr, ?_, hidx.symm, rfl⟩
        exact update_coord rfl
      next => exact ⟨_, rfl, hr, fun _ => rfl, rfl, rfl⟩
  · have hgot : (gooniesResolveCell atlas hmac lock now F M name).1 = (resolveCell atlas lock F name).1 ∧
        (gooniesResolveCell atlas hmac lock now F M name).2.1 = (resolveCell atlas lock F name).2 := by
      simp [gooniesResolveCell, hpeer]
    have hpage : pageCoord atlas M name = (atlas name).map fun e => (e.coord, true) := if_neg hpeer
    rw [hgot.1, hgot.2, hpage]
    unfold resolveCell
    rw [hnew]
    cases atlas name with
    | none => exact .inl ⟨by simp, rfl, rfl⟩
    | some e =>
      cases lock with
      | false =>
        refine .inl ⟨fun coord sys _ => .inl rfl, ?_, ?_⟩ <;> rfl
      | true =>
        have hr : ¬ Refused atlas true F true := by simp [Refused]
        refine .inr ⟨e.coord, true, ?_⟩
        dsimp only
        cases hidx : (allocLocked atlas true F (some name) e.coord true false).1 with
        | none => exact ⟨_, rfl, hr, fun _ => rfl, hidx, rfl⟩
        | some idx =>
          refine ⟨_, rfl, hr, ?_, rfl, rfl⟩
          exact update_coord (setAgency_coord _ _ _)

theorem resolveNames_known {calls : LoomCalls} {buffer : List UInt8} {found : ℕ → Option ℕ} {n : ℕ}
    (h : ∀ i < n, ∃ coord, gooniesResolve F.registry (loomCellName buffer i) = some coord ∧
      getCellByCoord F coord = found i) :
    resolveNames atlas hmac calls buffer F M n = ⟨(List.range n).map found, F, M⟩ := by
  induction n with
  | zero => rfl
  | succ n ih =>
    obtain ⟨coord, hres, hfound⟩ := h n (Nat.lt_succ_self n)
    rw [resolveNames, ih fun i hi => h i (Nat.lt_succ_of_lt hi)]
    dsimp only
    rw [gooniesResolveCell_known hres, hfound, List.range_succ, List.map_append]
    rfl

variable {S : Set ℕ} (h : TablesSound F S) (hheap : atlas heapPressureName = none)
include h hheap

variable (hmac lock now M name) in
theorem TablesSound.lookup : Tabled (gooniesResolveCell atlas hmac lock now F M name).2.1 := by
  cases hres : gooniesResolve F.registry name with
  | some coord =>
    rw [gooniesResolveCell_known hres]
    exact ⟨S, h⟩
  | none =>
    rcases @gooniesResolveCell_new atlas hmac lock now F M name hheap hres with
      ⟨-, -, hF⟩ | ⟨coord, sys, cells, -, -, hc, -, hF⟩
    · rw [hF]
      exact ⟨S, h⟩
    · obtain ⟨S', hA⟩ := h.allocLocked atlas true (some name) coord sys false
      rw [hF]
      exact ⟨S', hA.recoat hc⟩

theorem TablesSound.lookup_boundTo {p : ℕ}
    (hgot : (gooniesResolveCell atlas hmac lock now F M name).1 = some p) :
    BoundTo (gooniesResolveCell atlas hmac lock now F M name).2.1 name
      ((gooniesResolveCell atlas hmac lock now F M name).2.1.cells p).coord p := by
  cases hres : gooniesResolve F.registry name with
  | some coord =>
    rw [gooniesResolveCell_known hres] at hgot ⊢
    have hc := ((h.getCell_iff coord p).mp hgot).2
    dsimp only
    rw [hc]
    exact ⟨hres, hgot⟩
  | none =>
    rcases @gooniesResolveCell_new atlas hmac lock now F M name hheap hres with
      ⟨-, hnone, -⟩ | ⟨coord, sys, cells, -, -, hc, hA, hF⟩
    · rw [hnone] at hgot
      cases hgot
    · rw [hA] at hgot
      obtain ⟨S', hS'⟩ := h.allocLocked atlas true (some name) coord sys false
      have hb := h.allocLocked_boundTo hres hgot
      have hcoord := (hb.coord_eq hS').2
      rw [hF]
      dsimp only
      rw [hc, hcoord]
      exact hb.recoat hS' hc

variable {other : CName} {coord : Tryte9} {v t : ℕ}

/-- A lookup leaves every other name bound unless its cell is the victim. -/
theorem BoundTo.lookup (hb : BoundTo F other coord v)
    (hkept : ∀ t, LookupEvicts atlas lock F M name t → (F.cells t).coord ≠ coord) :
    BoundTo (gooniesResolveCell atlas hmac lock now F M name).2.1 other coord v := by
  cases hres : gooniesResolve F.registry name with
  | some c =>
    rw [gooniesResolveCell_known hres]
    exact hb
  | none =>
    rcases @gooniesResolveCell_new atlas hmac lock now F M name hheap hres with
      ⟨-, -, hF⟩ | ⟨c, sys, cells, hpage, hr, hc, -, hF⟩
    · rwa [hF]
    · obtain ⟨S', hS'⟩ := h.allocLocked atlas true (some name) c sys false
      rw [hF]
      refine BoundTo.recoat hS' (hb.allocLocked h hres (fun t hget hfull hv => ?_) true) hc
      exact hkept t ⟨⟨c, hres, sys, hpage, hr, hget⟩, hfull, hv⟩

theorem BoundTo.lookup_lost (hb : BoundTo F other coord v)
    (hev : LookupEvicts atlas lock F M name t) (ht : (F.cells t).coord = coord) :
    LostAt (gooniesResolveCell atlas hmac lock now F M name).2.1 other coord := by
  obtain ⟨⟨c, hres, sys, hpage, hr, hget⟩, hfull, hv⟩ := hev
  rcases @gooniesResolveCell_new atlas hmac lock now F M name hheap hres with
    ⟨hrefused, -, -⟩ | ⟨c', sys', cells, hpage', -, hc, -, hF⟩
  · exact absurd (hrefused c sys hpage) hr
  · rw [hpage] at hpage'
    cases hpage'
    obtain ⟨S', hS'⟩ := h.allocLocked atlas true (some name) c sys false
    rw [hF]
    exact LostAt.recoat hS' (hb.evicted h hres hget hfull hv ht) hc

theorem LostAt.lookup (hl : LostAt F other coord) (hne : other ≠ name)
    (hpage : ¬ LookupPages atlas lock F M name coord) :
    LostAt (gooniesResolveCell atlas hmac lock now F M name).2.1 other coord := by
  cases hres : gooniesResolve F.registry name with
  | some c =>
    rw [gooniesResolveCell_known hres]
    exact hl
  | none =>
    rcases @gooniesResolveCell_new atlas hmac lock now F M name hheap hres with
      ⟨-, -, hF⟩ | ⟨c, sys, cells, hc', hr, hc, -, hF⟩
    · rwa [hF]
    · obtain ⟨S', hS'⟩ := h.allocLocked atlas true (some name) c sys false
      rw [hF]
      refine LostAt.recoat hS' (hl.allocLocked h hres hne (fun hget => ?_) true) hc
      rintro rfl
      exact hpage ⟨hres, sys, hc', hr, hget⟩

end Lookup

/-- A route of the fragment starts or ends at the entry. -/
def EntryUsed (buffer : List UInt8) (k : ℕ) : Prop :=
  let head := loomHeader buffer
  ∃ i < head.routeCount, (loomRouteEntry buffer head.cellCount i).srcIdx = k ∨
    (loomRouteEntry buffer head.cellCount i).snkIdx = k

section Weave

variable (atlas : Atlas) (hmac : List UInt8 → List UInt8) (calls : LoomCalls)
  (buffer : List UInt8) (F : Fabric) (M : Mesh)

/-- What is asked of an entry a route uses, of the coordinate its lookup found and of every
later lookup. -/
def LaterLookups (P : ℕ → Tryte9 → ℕ → Resolved → Prop) : Prop :=
  ∀ k, EntryUsed buffer k → ∀ coord,
    gooniesResolve (resolveNames atlas hmac calls buffer F M (k + 1)).fabric.registry
      (loomCellName buffer k) = some coord →
    ∀ j, k < j → j < (loomHeader buffer).cellCount →
      P k coord j (resolveNames atlas hmac calls buffer F M j)

/-- No lookup takes the slot of a cell that an earlier entry of a route resolved to. -/
def EntriesKept : Prop :=
  LaterLookups atlas hmac calls buffer F M fun _ coord j R =>
    ∀ t, LookupEvicts atlas (calls.lock j) R.fabric R.mesh (loomCellName buffer j) t →
      (R.fabric.cells t).coord ≠ coord

/-- No lookup is for the name of an earlier entry of a route, or weaves a cell where that
entry was found. -/
def EntriesOnce : Prop :=
  LaterLookups atlas hmac calls buffer F M fun k coord j R =>
    loomCellName buffer k ≠ loomCellName buffer j ∧
      ¬ LookupPages atlas (calls.lock j) R.fabric R.mesh (loomCellName buffer j) coord

end Weave

section Names

variable {atlas : Atlas} {hmac : List UInt8 → List UInt8} {calls : LoomCalls}
  {buffer : List UInt8} {F : Fabric} {M : Mesh} (hF : Tabled F)
  (hheap : atlas heapPressureName = none)

theorem length_resolveNames (n : ℕ) :
    (resolveNames atlas hmac calls buffer F M n).cells.length = n := by
  induction n with
  | zero => rfl
  | succ n ih => simp [resolveNames, ih]

theorem resolveNames_get {k n : ℕ} (hk : k < n) :
    (resolveNames atlas hmac calls buffer F M n).cells[k]? =
      some (gooniesResolveCell atlas hmac (calls.lock k) (calls.now k)
        (resolveNames atlas hmac calls buffer F M k).fabric
        (resolveNames atlas hmac calls buffer F M k).mesh (loomCellName buffer k)).1 := by
  induction n with
  | zero => omega
  | succ n ih =>
    have hlen := @length_resolveNames atlas hmac calls buffer F M n
    by_cases hn : k = n
    · subst hn
      rw [resolveNames]
      dsimp only
      rw [List.getElem?_append_right (by omega), hlen, Nat.sub_self]
      rfl
    · rw [← ih (by omega), resolveNames]
      exact List.getElem?_append_left (by omega)

include hF hheap

variable (hmac calls buffer M) in
theorem Tabled.resolveNames (n : ℕ) :
    Tabled (resolveNames atlas hmac calls buffer F M n).fabric := by
  induction n with
  | zero => exact hF
  | succ n ih =>
    obtain ⟨S, h⟩ := ih
    exact h.lookup hmac (calls.lock n) (calls.now n) _ (loomCellName buffer n) hheap

/-- From its lookup on, an entry is bound to its cell until that cell is a victim. -/
theorem boundTo_resolveNames {k n p : ℕ} (hk : k < n) {coord : Tryte9}
    (hb : BoundTo (resolveNames atlas hmac calls buffer F M (k + 1)).fabric (loomCellName buffer k)
      coord p)
    (hkept : ∀ j, k < j → j < n → ∀ t,
      LookupEvicts atlas (calls.lock j) (resolveNames atlas hmac calls buffer F M j).fabric
        (resolveNames atlas hmac calls buffer F M j).mesh (loomCellName buffer j) t →
      ((resolveNames atlas hmac calls buffer F M j).fabric.cells t).coord ≠ coord) :
    BoundTo (resolveNames atlas hmac calls buffer F M n).fabric (loomCellName buffer k) coord p := by
  induction n, hk using Nat.le_induction with
  | base => exact hb
  | succ n hn ih =>
    obtain ⟨S, h⟩ := hF.resolveNames hmac calls buffer M hheap n
    exact (ih fun j hj hjn => hkept j hj (by omega)).lookup h hheap (hkept n hn (Nat.lt_succ_self n))

/-- An entry whose cell was a victim stays lost where nothing looks for it again. -/
theorem lostAt_resolveNames {k m n : ℕ} (hm : k < m) (hn : m ≤ n) {coord : Tryte9}
    (hl : LostAt (resolveNames atlas hmac calls buffer F M m).fabric (loomCellName buffer k) coord)
    (honce : ∀ j, k < j → j < n → loomCellName buffer k ≠ loomCellName buffer j ∧
      ¬ LookupPages atlas (calls.lock j) (resolveNames atlas hmac calls buffer F M j).fabric
        (resolveNames atlas hmac calls buffer F M j).mesh (loomCellName buffer j) coord) :
    LostAt (resolveNames atlas hmac calls buffer F M n).fabric (loomCellName buffer k) coord := by
  induction n, hn using Nat.le_induction with
  | base => exact hl
  | succ n hmn ih =>
    obtain ⟨S, h⟩ := hF.resolveNames hmac calls buffer M hheap n
    obtain ⟨hne, hpage⟩ := honce n (by omega) (Nat.lt_succ_self n)
    exact (ih fun j hj hjn => honce j hj (by omega)).lookup h hheap hne hpage

theorem lostAt_of_evicted {k j n p t : ℕ} (hk : k < j) (hj : j < n) {coord : Tryte9}
    (hb : BoundTo (resolveNames atlas hmac calls buffer F M (k + 1)).fabric (loomCellName buffer k)
      coord p)
    (honce : ∀ j, k < j → j < n → loomCellName buffer k ≠ loomCellName buffer j ∧
      ¬ LookupPages atlas (calls.lock j) (resolveNames atlas hmac calls buffer F M j).fabric
        (resolveNames atlas hmac calls buffer F M j).mesh (loomCellName buffer j) coord)
    (hev : LookupEvicts atlas (calls.lock j) (resolveNames atlas hmac calls buffer F M j).fabric
      (resolveNames atlas hmac calls buffer F M j).mesh (loomCellName buffer j) t)
    (ht : ((resolveNames atlas hmac calls buffer F M j).fabric.cells t).coord = coord) :
    LostAt (resolveNames atlas hmac calls buffer F M n).fabric (loomCellName buffer k) coord := by
  induction j using Nat.strong_induction_on generalizing t with
  | _ j ih =>
    -- An earlier victim at the coordinate is lost already; else the entry is bound up to here.
    by_cases hearlier : ∃ i, k < i ∧ i < j ∧ ∃ u,
        LookupEvicts atlas (calls.lock i) (resolveNames atlas hmac calls buffer F M i).fabric
          (resolveNames atlas hmac calls buffer F M i).mesh (loomCellName buffer i) u ∧
        ((resolveNames atlas hmac calls buffer F M i).fabric.cells u).coord = coord
    · obtain ⟨i, hki, hij, u, hevi, hu⟩ := hearlier
      exact ih i hij hki (by omega) hevi hu
    · have hbound := boundTo_resolveNames hF hheap hk hb fun i hki hij u hevi hu =>
        hearlier ⟨i, hki, hij, u, hevi, hu⟩
      obtain ⟨S, h⟩ := hF.resolveNames hmac calls buffer M hheap j
      exact lostAt_resolveNames hF hheap (Nat.lt_succ_of_lt hk) hj
        (hbound.lookup_lost h hheap hev ht) honce

end Names

section Accepted

variable {atlas : Atlas} {hmac : List UInt8 → List UInt8} {calls : LoomCalls}
  {buffer : List UInt8}

theorem loomRoutesError_ok {cells : List (Option ℕ)} (hok : loomRoutesError buffer cells = Err.ok)
    {i : ℕ} (hi : i < (loomHeader buffer).routeCount) :
    loomRouteError (loomHeader buffer).cellCount cells
      (loomRouteEntry buffer (loomHeader buffer).cellCount i) = Err.ok := by
  by_contra hne
  unfold loomRoutesError at hok
  dsimp only at hok
  cases hfind : ((List.range (loomHeader buffer).routeCount).map fun i =>
      loomRouteError (loomHeader buffer).cellCount cells
        (loomRouteEntry buffer (loomHeader buffer).cellCount i)).find?
      fun err => decide (err ≠ Err.ok) with
  | none =>
    have := List.find?_eq_none.mp hfind _ (List.mem_map.mpr ⟨i, List.mem_range.mpr hi, rfl⟩)
    simp [hne] at this
  | some err =>
    rw [hfind] at hok
    have := List.find?_some hfind
    simp [show err = Err.ok from hok] at this

/-- The endpoints of an accepted route have resolved. -/
theorem loomRouteError_ok {cellCount : ℕ} {cells : List (Option ℕ)} {re : LoomRouteEntry}
    (hok : loomRouteError cellCount cells re = Err.ok) {k : ℕ} (hk : re.srcIdx = k ∨ re.snkIdx = k) :
    k < cellCount ∧ ∃ p, cells[k]? = some (some p) := by
  unfold loomRouteError at hok
  split at hok
  · cases hok
  next hidx =>
  split at hok
  · cases hok
  next hres =>
    have hjoin : cells[k]?.join ≠ none := by
      rcases hk with rfl | rfl
      · exact fun h => hres (.inl h)
      · exact fun h => hres (.inr h)
    obtain ⟨p, hp⟩ := Option.ne_none_iff_exists'.mp hjoin
    exact ⟨by omega, p, Option.join_eq_some_iff.mp hp⟩

theorem weaveLoom_woven {W : Type*} {T : Tapestry W}
    (h : (weaveLoom atlas hmac calls T (some buffer)).1 = Err.ok) :
    let R := resolveNames atlas hmac calls buffer T.substrate.fabric T.mesh
      (loomHeader buffer).cellCount
    loomHeaderError T.activeLoomFragments buffer = Err.ok ∧
      loomRoutesError buffer R.cells = Err.ok ∧
      ∃ fid, calls.field = some fid ∧ (weaveLoom atlas hmac calls T (some buffer)).2 =
        { substrate := fieldStartPulse
            (Substrate.setField { T.substrate with fabric := R.fabric } fid (loomField buffer R)) fid
          mesh := R.mesh
          supervised := supervisorRegisterField T.supervised fid
          activeLoomFragments := T.activeLoomFragments + 1 } := by
  unfold weaveLoom at h ⊢
  dsimp only at h ⊢
  split at h
  · contradiction
  next hheader =>
  split at h
  · contradiction
  next hroutes =>
  rw [if_neg hheader, if_neg hroutes]
  cases hfield : calls.field with
  | none =>
    rw [hfield] at h
    cases h
  | some fid =>
    rw [hfield] at h
    dsimp only at h ⊢
    split at h
    · cases h
    next hcall =>
      rw [if_neg hcall]
      exact ⟨not_not.mp hheader, not_not.mp hroutes, fid, rfl, rfl⟩

/-- A refusal after the header leaves what the names resolved to, and one before it nothing. -/
theorem weaveLoom_refused {W : Type*} {T : Tapestry W}
    (h : (weaveLoom atlas hmac calls T (some buffer)).1 ≠ Err.ok) :
    let R := resolveNames atlas hmac calls buffer T.substrate.fabric T.mesh
      (loomHeader buffer).cellCount
    (weaveLoom atlas hmac calls T (some buffer)).2 =
      if loomHeaderError T.activeLoomFragments buffer = Err.ok then
        { T with substrate := { T.substrate with fabric := R.fabric }, mesh := R.mesh }
      else T := by
  unfold weaveLoom at h ⊢
  dsimp only at h ⊢
  by_cases hheader : loomHeaderError T.activeLoomFragments buffer ≠ Err.ok
  · rw [if_pos hheader, if_neg hheader]
  rw [if_neg hheader] at h
  rw [if_neg hheader, if_pos (not_not.mp hheader)]
  split
  · rfl
  next hroutes =>
  rw [if_neg hroutes] at h
  cases hfield : calls.field with
  | none => rfl
  | some fid =>
    rw [hfield] at h
    dsimp only at h ⊢
    split
    · rfl
    next hcall =>
      rw [if_neg hcall] at h
      exact absurd rfl h

theorem weaveLoom_accepted {W : Type*} {T : Tapestry W} {fid : ℕ}
    (hok : (weaveLoom atlas hmac calls T (some buffer)).1 = Err.ok)
    (hfield : calls.field = some fid) :
    let R := resolveNames atlas hmac calls buffer T.substrate.fabric T.mesh
      (loomHeader buffer).cellCount
    loomRoutesError buffer R.cells = Err.ok ∧
      (weaveLoom atlas hmac calls T (some buffer)).2.substrate.fabric = R.fabric ∧
      (weaveLoom atlas hmac calls T (some buffer)).2.substrate.fields fid = loomField buffer R := by
  obtain ⟨-, hroutes, fid', hfid, hwoven⟩ := weaveLoom_woven hok
  cases hfid.symm.trans hfield
  rw [hwoven]
  dsimp only
  rw [fieldStartPulse_fields, fieldStartPulse_fabric]
  exact ⟨hroutes, rfl, setField_fields _ _ _⟩

/-- The routes of an accepted fragment are right when the entries they use are. -/
theorem loomRoutesNamed_iff {W : Type*} {T : Tapestry W} {fid : ℕ}
    (hok : (weaveLoom atlas hmac calls T (some buffer)).1 = Err.ok)
    (hfield : calls.field = some fid) :
    let R := resolveNames atlas hmac calls buffer T.substrate.fabric T.mesh
      (loomHeader buffer).cellCount
    LoomRoutesNamed (weaveLoom atlas hmac calls T (some buffer)).2 fid buffer ↔
      ∀ k, EntryUsed buffer k → CellNamed R.fabric (loomCellName buffer k) (pointedCoord R k) := by
  obtain ⟨-, hfabric, hwoven⟩ := weaveLoom_accepted hok hfield
  have hroute : ∀ i < (loomHeader buffer).routeCount,
      ((weaveLoom atlas hmac calls T (some buffer)).2.substrate.fields fid).routes[i]? =
        some (loomRoute buffer (resolveNames atlas hmac calls buffer T.substrate.fabric T.mesh
          (loomHeader buffer).cellCount) i) := by
    intro i hi
    rw [hwoven, loomField, List.getElem?_map, List.getElem?_range hi]
    rfl
  unfold LoomRoutesNamed
  rw [hfabric]
  dsimp only
  constructor
  · rintro hall k ⟨i, hi, hk⟩
    obtain ⟨r, hr, hsrc, hsnk⟩ := hall i hi
    rw [hroute i hi] at hr
    cases hr
    rcases hk with rfl | rfl
    · exact hsrc
    · exact hsnk
  · intro hall i hi
    exact ⟨_, hroute i hi, hall _ ⟨i, hi, .inl rfl⟩, hall _ ⟨i, hi, .inr rfl⟩⟩

end Accepted

theorem BoundTo.cellNamed {F : Fabric} {name : CName} {coord : Tryte9} {v : ℕ} {S : Set ℕ}
    (h : TablesSound F S) (hb : BoundTo F name coord v) : CellNamed F name coord := by
  obtain ⟨hlt, hc⟩ := hb.coord_eq h
  exact ⟨hb.resolve, v, hlt, hb.getCell, hc⟩

theorem LostAt.not_cellNamed {F : Fabric} {name : CName} {coord c : Tryte9}
    (hl : LostAt F name coord) : ¬ CellNamed F name c := by
  rintro ⟨hres, v, -, hget, -⟩
  rw [hl.resolve c hres, hl.getCell] at hget
  cases hget

/-- An accepted fragment gets its routes right where no lookup takes the slot of a cell that
an earlier entry of a route resolved to; and where no lookup pages such a cell in again, only
there. -/
theorem loom_routes_named {W : Type*} {atlas : Atlas} {hmac : List UInt8 → List UInt8}
    {calls : LoomCalls} {buffer : List UInt8} {T : Tapestry W} {fid : ℕ} {purpose : Bool}
    {F₀ : Fabric} {ops : List FabricOp} (hheap : atlas heapPressureName = none)
    (hrun : Run (FabricStep atlas) (fabricInit atlas true purpose F₀) ops T.substrate.fabric)
    (hok : (weaveLoom atlas hmac calls T (some buffer)).1 = Err.ok)
    (hfield : calls.field = some fid) :
    (EntriesKept atlas hmac calls buffer T.substrate.fabric T.mesh →
      LoomRoutesNamed (weaveLoom atlas hmac calls T (some buffer)).2 fid buffer) ∧
    (EntriesOnce atlas hmac calls buffer T.substrate.fabric T.mesh →
      LoomRoutesNamed (weaveLoom atlas hmac calls T (some buffer)).2 fid buffer →
      EntriesKept atlas hmac calls buffer T.substrate.fabric T.mesh) := by
  have hF := tabled_of_run hrun
  obtain ⟨hroutes, -, -⟩ := weaveLoom_accepted hok hfield
  have hiff := loomRoutesNamed_iff hok hfield
  dsimp only at hiff
  rw [hiff]
  -- A used entry has resolved, and its lookup has bound its name.
  have hbound : ∀ k, EntryUsed buffer k → k < (loomHeader buffer).cellCount ∧ ∃ p coord,
      (resolveNames atlas hmac calls buffer T.substrate.fabric T.mesh
        (loomHeader buffer).cellCount).cells[k]? = some (some p) ∧
      BoundTo (resolveNames atlas hmac calls buffer T.substrate.fabric T.mesh (k + 1)).fabric
        (loomCellName buffer k) coord p := by
    rintro k ⟨i, hi, hk⟩
    obtain ⟨hlt, p, hp⟩ := loomRouteError_ok (loomRoutesError_ok hroutes hi) hk
    have hgot := @resolveNames_get atlas hmac calls buffer T.substrate.fabric T.mesh k _ hlt
    rw [hp, Option.some.injEq] at hgot
    obtain ⟨S, h⟩ := hF.resolveNames hmac calls buffer T.mesh hheap k
    exact ⟨hlt, p, _, hp, h.lookup_boundTo hheap hgot.symm⟩
  constructor
  · intro hkept k hk
    obtain ⟨hlt, p, coord, hp, hb⟩ := hbound k hk
    have hend := boundTo_resolveNames hF hheap hlt hb fun j hj hjn t hev =>
      hkept k hk coord hb.resolve j hj hjn t hev
    obtain ⟨S, h⟩ := hF.resolveNames hmac calls buffer T.mesh hheap (loomHeader buffer).cellCount
    have hcoord : pointedCoord (resolveNames atlas hmac calls buffer T.substrate.fabric T.mesh
        (loomHeader buffer).cellCount) k = coord := by
      rw [pointedCoord, hp]
      exact (hend.coord_eq h).2
    rw [hcoord]
    exact hend.cellNamed h
  · intro honce hall k hk coord hres j hj hjn t hev ht
    obtain ⟨hlt, p, coord', hp, hb⟩ := hbound k hk
    have hc : coord' = coord := by
      have := hb.resolve
      rw [hres] at this
      exact (Option.some.inj this).symm
    subst hc
    have hlost := lostAt_of_evicted hF hheap hj hjn hb
      (fun i hi hin => honce k hk coord' hres i hi hin) hev ht
    exact hlost.not_cellNamed (hall k hk)

def freeCalls : LoomCalls := ⟨fun _ => true, fun _ => 0, some 1, true⟩

/-- No peers, and nothing woven yet. -/
def loomTapestry (F : Fabric) : Tapestry Unit where
  substrate := ⟨F, fun _ => ⟨[], [], [], 0⟩, [], ()⟩
  mesh := ⟨[], 0, 0, []⟩
  supervised := []
  activeLoomFragments := 0

def paddedName (name : CName) : List UInt8 := name ++ List.replicate (24 - name.length) 0

/-- Two cells, and a route from the first to the second. -/
def pairFragment (src snk : CName) : List UInt8 :=
  LittleEndian.encode 4 loomMagic ++ LittleEndian.encode 4 1 ++ LittleEndian.encode 4 7 ++
    [2, 0, 1, 0, 0, 0] ++ paddedName src ++ paddedName snk ++ [0, 0, 1, 0, 1, 1]

def seedFragment : List UInt8 := pairFragment seedOrigin seedLedIntent

/-- Two seeds on a fabric with room. -/
theorem loom_routes_named_seeds :
    LoomRoutesNamed (weaveLoom emptyAtlas (fun _ => []) freeCalls (loomTapestry coldFabric)
      (some seedFragment)).2 1 seedFragment := by
  refine (@loom_routes_named Unit emptyAtlas (fun _ => []) freeCalls seedFragment
    (loomTapestry coldFabric) 1 false blankFabric [] rfl (.nil _) (by decide +kernel) rfl).1 ?_
  intro k _ coord _ j hk hj t hev
  have hcells : (loomHeader seedFragment).cellCount = 2 := by decide
  have hj1 : j = 1 := by omega
  subst hj1
  have hcount : (resolveNames emptyAtlas (fun _ => []) freeCalls seedFragment coldFabric
      (loomTapestry coldFabric).mesh 1).fabric.cellCount = 2 := by decide +kernel
  have hfull := hev.2.1
  change fabricMaxCells ≤ (resolveNames emptyAtlas (fun _ => []) freeCalls seedFragment coldFabric
      (loomTapestry coldFabric).mesh 1).fabric.cellCount at hfull
  rw [hcount] at hfull
  exact absurd hfull (by decide)

def pagedName : CName := ascii "ext.x"
def phantomName : CName := ascii "peer.a.b"
def phantomFragment : List UInt8 := pairFragment pagedName phantomName

/-- A full fabric whose next victim has a name. -/
structure NamedVictim (F : Fabric) (t : ℕ) (coord : Tryte9) : Prop where
  sound : FabricSound F
  tables : Tabled F
  full : F.cellCount = fabricMaxCells
  victim : findVictim F = some t
  named : gooniesResolve F.registry pagedName = some coord
  coord : (F.cells t).coord = coord
  unnamed : ∀ name, name ≠ pagedName → gooniesResolve F.registry name =
    gooniesResolve coldFabric.registry name
  room : F.registry.count ≤ 3
  free : ∀ w, CoordFree F (ghostCoord w)

theorem ghostCoord_trit (w : ℕ) : ghostCoord w 8 = -1 := by simp [ghostCoord]

theorem exists_namedVictim : ∃ ops F t coord, Run (FabricStep emptyAtlas) coldFabric ops F ∧
    NamedVictim F t coord := by
  obtain ⟨ops, F, hrun, hF, hcount, hreg⟩ := exists_filled (k := fabricMaxCells) (by decide) le_rfl
  have hev : cellIsEvictable (F.cells 2) = true := by
    have h8 : (F.cells 2).coord 8 = 1 := by
      rw [hF.paged 2 (by rw [hcount]; decide) le_rfl]
      rfl
    simp [cellIsEvictable, policyCellEvictable, h8]
  obtain ⟨t, hv⟩ := exists_victim (by decide) hev
  have ht : t < F.cellCount := by
    rw [hcount]
    exact (findVictim_lt hv).1
  have hget := (hF.sound.getCell_iff (F.cells t).coord t).mpr ⟨ht, rfl⟩
  have hnew : gooniesResolve F.registry pagedName = none := by
    rw [hreg]
    decide +kernel
  obtain ⟨S, hS⟩ := tabled_of_run hrun
  have hstep : FabricStep emptyAtlas F (.alloc true (some pagedName) (F.cells t).coord true true)
      { F with registry :=
        (gooniesRegister emptyAtlas F.registry pagedName (F.cells t).coord true).2 } := by
    have halloc : (fabricAllocInternal emptyAtlas true F (some pagedName) (F.cells t).coord true
        true).2 = { F with registry :=
          (gooniesRegister emptyAtlas F.registry pagedName (F.cells t).coord true).2 } := by
      simp only [fabricAllocInternal, if_true, allocLocked, Bool.not_true, Bool.false_eq_true,
        if_false, hget]
    rw [← halloc]
    exact .alloc _ _ _ _ _ _
  have hrun' := hrun.append (.single hstep)
  have hcold : F.registry.count = 2 := by
    rw [hreg]
    decide +kernel
  have hok : (gooniesRegister emptyAtlas F.registry pagedName (F.cells t).coord true).1 = Err.ok := by
    rw [gooniesRegister_ok_iff _ _ _ _ _ hF.sound.capacity]
    exact ⟨by rw [hcold]; decide, by decide, by decide, fun _ => rfl⟩
  refine ⟨_, _, t, (F.cells t).coord, hrun', ?_⟩
  exact {
    sound := ⟨hF.sound.stable, hF.sound.count_le, (gooniesRegister_capacity _ _ _ _ _).trans
      hF.sound.capacity, hF.sound.indexed⟩
    tables := tabled_of_run hrun'
    full := hcount
    victim := hv
    named := hS.names.resolve_register hnew hok
    coord := rfl
    unnamed := fun name hne => by
      rw [← hreg]
      exact hS.names.resolve_register_other hnew hne
    room := (gooniesRegister_count _ _ _ _ _).trans (by omega)
    free := fun w v hv hc => by
      have h8 : (F.cells v).coord 8 = -1 := (congrFun hc 8).trans (ghostCoord_trit w)
      by_cases h2 : v < 2
      · rw [hF.seeded v h2] at h8
        cases h8
      · rw [hF.paged v hv (by omega)] at h8
        cases h8 }

section Victim

variable {F : Fabric} {t : ℕ} {coord : Tryte9} (h : NamedVictim F t coord)
include h

theorem NamedVictim.boundTo : BoundTo F pagedName coord t := by
  refine ⟨h.named, (h.sound.getCell_iff coord t).mpr ⟨?_, h.coord⟩⟩
  rw [h.full]
  exact (findVictim_lt h.victim).1

theorem NamedVictim.not_refused : ¬ Refused emptyAtlas true F false := by
  have hnone : gooniesResolve F.registry heapPressureName = none := by
    rw [h.unnamed _ (by decide)]
    decide +kernel
  rintro (hr | ⟨-, hr⟩)
  · cases hr
  · simp [heapPressure, resolveCell, hnone, emptyAtlas] at hr

theorem NamedVictim.pages (n : ℕ) :
    LookupPages emptyAtlas true F ⟨[], n, 0, []⟩ phantomName (ghostCoord n) := by
  refine ⟨?_, false, if_pos (by decide), h.not_refused, (h.sound.getCell_none_iff _).mpr (h.free n)⟩
  rw [h.unnamed _ (by decide)]
  decide +kernel

/-- The phantom gets the victim's slot. -/
theorem NamedVictim.phantom (n : ℕ) : ∃ p,
    (gooniesResolveCell emptyAtlas (fun _ => []) true 0 F ⟨[], n, 0, []⟩ phantomName).1 = some p := by
  obtain ⟨hnew, sys, hpage, hr, -⟩ := h.pages n
  have hclaim : claimSlot F = some (t, evict F t) := by
    rw [claimSlot, if_neg (by rw [h.full]; decide), h.victim]
    rfl
  rcases @gooniesResolveCell_new emptyAtlas (fun _ => []) true 0 F ⟨[], n, 0, []⟩ phantomName rfl
    hnew with ⟨hrefused, -, -⟩ | ⟨c, sys', cells, hpage', -, -, hgot, -⟩
  · exact absurd (hrefused _ sys hpage) hr
  · rw [hpage] at hpage'
    cases hpage'
    have hsys : sys = false := by
      have : pageCoord emptyAtlas ⟨[], n, 0, []⟩ phantomName = some (ghostCoord n, false) :=
        if_pos (by decide)
      rw [hpage] at this
      cases this
      rfl
    subst hsys
    rcases h.sound.allocLocked_claimed emptyAtlas (some phantomName) false false (h.free n) hclaim
      with ⟨-, hidx, -⟩ | ⟨⟨s, hs, hrefused⟩, -⟩
    · exact ⟨t, hgot.trans hidx⟩
    · cases hs
      refine absurd ⟨?_, by decide, by decide, fun hp => ?_⟩ hrefused
      · rw [evict_registry_count]
        have hroom := h.room
        unfold countWithout
        have : fabricMaxCells = 256 := rfl
        split <;> omega
      · have hno : isProtected emptyAtlas phantomName = false := by decide
        rw [hno] at hp
        cases hp

end Victim

/-- The phantom of the second entry evicts the cell of the first, and the route starts at the
phantom. -/
theorem loom_route_of_evicted_cell :
    ¬ ∀ ops F, Run (FabricStep emptyAtlas) coldFabric ops F → ∀ buffer : List UInt8,
      (weaveLoom emptyAtlas (fun _ => []) freeCalls (loomTapestry F) (some buffer)).1 = Err.ok →
      LoomRoutesNamed (weaveLoom emptyAtlas (fun _ => []) freeCalls (loomTapestry F)
        (some buffer)).2 1 buffer := by
  intro hall
  obtain ⟨ops, F, t, coord, hrun, h⟩ := exists_namedVictim
  obtain ⟨p, hp⟩ := h.phantom 0
  obtain ⟨S, hS⟩ := h.tables
  have hname₀ : loomCellName phantomFragment 0 = pagedName := by decide
  have hname₁ : loomCellName phantomFragment 1 = phantomName := by decide
  have hcount : (loomHeader phantomFragment).cellCount = 2 := by decide
  have hrouteCount : (loomHeader phantomFragment).routeCount = 1 := by decide
  have hentry : loomRouteEntry phantomFragment 2 0 = ⟨0, 1, 1, 1⟩ := by rfl
  have hfirst : resolveNames emptyAtlas (fun _ => []) freeCalls phantomFragment F
      ⟨[], 0, 0, []⟩ 1 = ⟨[some t], F, ⟨[], 0, 0, []⟩⟩ := by
    have hgot := @gooniesResolveCell_known emptyAtlas (fun _ => []) true 0 F ⟨[], 0, 0, []⟩ _ _ h.named
    simp only [resolveNames, hname₀, freeCalls, hgot, h.boundTo.getCell, List.nil_append]
  have hlost : LostAt (resolveNames emptyAtlas (fun _ => []) freeCalls phantomFragment F
      ⟨[], 0, 0, []⟩ 2).fabric pagedName coord := by
    have hev : LookupEvicts emptyAtlas true F ⟨[], 0, 0, []⟩ phantomName t :=
      ⟨⟨_, h.pages 0⟩, le_of_eq h.full.symm, h.victim⟩
    have hl := @BoundTo.lookup_lost emptyAtlas (fun _ => []) true 0 F _ _ S hS rfl _ _ _ t h.boundTo hev h.coord
    rw [resolveNames, hfirst, hname₁]
    exact hl
  have hcells : (resolveNames emptyAtlas (fun _ => []) freeCalls phantomFragment F
      ⟨[], 0, 0, []⟩ 2).cells = [some t, some p] := by
    rw [resolveNames, hfirst, hname₁]
    dsimp only
    rw [show (gooniesResolveCell emptyAtlas (fun _ => []) (freeCalls.lock 1) (freeCalls.now 1) F
      ⟨[], 0, 0, []⟩ phantomName).1 = some p from hp]
    rfl
  have hok : (weaveLoom emptyAtlas (fun _ => []) freeCalls (loomTapestry F)
      (some phantomFragment)).1 = Err.ok := by
    have hheader : loomHeaderError 0 phantomFragment = Err.ok := by decide
    have hroutes : loomRoutesError phantomFragment [some t, some p] = Err.ok := by
      simp [loomRoutesError, loomRouteError, hrouteCount, hcount, hentry, policyLoomRouteAcceptable,
        policyCouplingSoftware, Err.ok]
    have hresolved : (resolveNames emptyAtlas (fun _ => []) freeCalls phantomFragment
        (loomTapestry F).substrate.fabric (loomTapestry F).mesh
        (loomHeader phantomFragment).cellCount).cells = [some t, some p] := hcount ▸ hcells
    unfold weaveLoom
    dsimp only
    rw [show loomHeaderError (loomTapestry F).activeLoomFragments phantomFragment = Err.ok from hheader,
      if_neg (not_not.mpr rfl), hresolved, hroutes, if_neg (not_not.mpr rfl)]
    rfl
  have hused : EntryUsed phantomFragment 0 :=
    ⟨0, by rw [hrouteCount]; exact Nat.one_pos, .inl (by rw [hcount, hentry])⟩
  have hiff := loomRoutesNamed_iff hok (show freeCalls.field = some 1 from rfl)
  dsimp only at hiff
  have hnamed := hiff.mp (hall ops F hrun phantomFragment hok) 0 hused
  rw [hname₀] at hnamed
  exact (hcount ▸ hlost).not_cellNamed hnamed

end ReflexOS.Goose
