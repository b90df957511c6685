import ReflexOS.GooseSnapshot
import ReflexOS.GooseTrits
import ReflexOS.KvMap
import Mathlib.Algebra.Order.Group.Abs

set_option autoImplicit false

/-!
# Saving what the routes have learned

The entries that are saved are found again by name, so a load does not depend on the order
of the routes.
-/
namespace ReflexOS.Goose
open LittleEndian VmTernary

/-- A backend of the key-value store, in the namespace of the substrate. -/
structure KvBackend (K : Type*) where
  valueMax : ℕ
  opened : K → Err
  setBlob : K → CName → List UInt8 → Err × K
  getBlob : K → CName → Option (List UInt8)

def policySnapEntryCount (routeCount maxRoutes : ℕ) : ℕ :=
  (if routeCount < maxRoutes then routeCount else maxRoutes) % 2 ^ 16

/-- The routes of a field that fit a value of the backend. -/
def snapCap (valueMax : ℕ) : ℕ :=
  let fits := if snapHeaderSize < valueMax then (valueMax - snapHeaderSize) / snapRouteEntrySize else 0
  if fits < snapMaxRoutes then fits else snapMaxRoutes

def snapRouteBytes (r : Route) : List UInt8 :=
  nameBytes r.name ++ (encode 1 (u8 r.learnedOrientation) ++ encode 2 (u16 r.hebbianCounter))

/-- What is serialised under the lock. -/
def snapBytes (valueMax : ℕ) (field : Field) : List UInt8 :=
  let n := policySnapEntryCount field.routes.length (snapCap valueMax)
  encode 2 snapVersion ++ (encode 2 n ++ (field.routes.take n).flatMap snapRouteBytes)

structure SaveState (K : Type*) where
  store : K
  skippedFields : ℕ
  failedFields : ℕ

variable {W K : Type*}

def snapshotSaveField (B : KvBackend K) (lock : ℕ → Bool) (S : Substrate W) (st : SaveState K)
    (fid : ℕ) : SaveState K :=
  let field := S.fields fid
  if field.routes = [] then st
  else if !lock fid then { st with skippedFields := st.skippedFields + 1 }
  else
    let saved := B.setBlob st.store (snapKey field) (snapBytes B.valueMax field)
    if saved.1 = Err.ok then { st with store := saved.2 }
    else { st with store := saved.2, failedFields := st.failedFields + 1 }

/-- `goose_snapshot_save` over the supervised fields. -/
def snapshotSave (B : KvBackend K) (lock : ℕ → Bool) (supervised : List ℕ) (S : Substrate W)
    (store : K) : Err × K :=
  if B.opened store ≠ Err.ok then (B.opened store, store)
  else
    let st := supervised.foldl (snapshotSaveField B lock S) ⟨store, 0, 0⟩
    (if 0 < st.skippedFields then Err.timeout else if 0 < st.failedFields then Err.fail else Err.ok,
      st.store)

/-- `goose_snapshot_load` from a backend. -/
def snapshotLoadFrom (B : KvBackend K) (store : K) (lock : ℕ → Bool) (supervised : List ℕ)
    (S : Substrate W) : Err × Substrate W :=
  if B.opened store ≠ Err.ok then (B.opened store, S)
  else (Err.ok, snapshotLoad (B.getBlob store) lock supervised S)

/-- Route names and learned values are of their types, and the field is within the cap. -/
structure Snappable (valueMax : ℕ) (field : Field) : Prop where
  names : (field.routes.map Route.name).Nodup
  fits : ∀ r ∈ field.routes, r.name.length ≤ snapNameSize ∧ (0 : UInt8) ∉ r.name
  cap : field.routes.length ≤ snapCap valueMax
  learned : ∀ r ∈ field.routes, IsTrit r.learnedOrientation
  counter : ∀ r ∈ field.routes, |r.hebbianCounter| ≤ hebbianCounterMax

section Bytes

variable {name name' : CName} {r : Route} {rest : List UInt8}

theorem length_nameBytes (name : CName) : (nameBytes name).length = snapNameSize := by
  rw [nameBytes, List.length_take, List.length_append, List.length_replicate]
  omega

theorem nameBytes_eq (h : name.length ≤ snapNameSize) :
    nameBytes name = name ++ List.replicate (snapNameSize - name.length) 0 := by
  rw [nameBytes, List.take_append, List.take_of_length_le h, List.take_replicate]
  congr 2
  omega

theorem takeWhile_nameBytes (h : name.length ≤ snapNameSize) (hzero : (0 : UInt8) ∉ name) :
    (nameBytes name).takeWhile (· ≠ 0) = name := by
  rw [nameBytes_eq h, takeWhile_padded hzero]

theorem nameBytes_inj (h : name.length ≤ snapNameSize ∧ (0 : UInt8) ∉ name)
    (h' : name'.length ≤ snapNameSize ∧ (0 : UInt8) ∉ name') :
    nameBytes name = nameBytes name' ↔ name = name' := by
  constructor
  · intro heq
    rw [← takeWhile_nameBytes h.1 h.2, heq, takeWhile_nameBytes h'.1 h'.2]
  · exact fun heq => heq ▸ rfl

theorem length_snapRouteBytes (r : Route) : (snapRouteBytes r).length = snapRouteEntrySize := by
  rw [snapRouteBytes, List.length_append, List.length_append, length_nameBytes, length_encode,
    length_encode]
  rfl

theorem i8_u8 {z : ℤ} (h : IsTrit z) : i8 (u8 z) = z := by
  have hz := h
  unfold IsTrit at hz
  unfold i8 u8
  omega

theorem i16_u16 {z : ℤ} (h : |z| ≤ hebbianCounterMax) : i16 (u16 z) = z := by
  have hmax : hebbianCounterMax = 16 := rfl
  rw [hmax, abs_le] at h
  unfold i16 u16
  omega

theorem u8_lt (z : ℤ) : u8 z < 256 ^ 1 := by
  unfold u8
  omega

theorem u16_lt (z : ℤ) : u16 z < 256 ^ 2 := by
  unfold u16
  omega

/-- The entry of a route. -/
def savedEntry (r : Route) : SnapEntry := ⟨nameBytes r.name, r.learnedOrientation, r.hebbianCounter⟩

/-- The entry that is read where a route was written is that of the route. -/
theorem snapEntry_written {blob : List UInt8} {i : ℕ}
    (h : blob.drop (snapHeaderSize + i * snapRouteEntrySize) = snapRouteBytes r ++ rest)
    (hlearned : IsTrit r.learnedOrientation) (hcounter : |r.hebbianCounter| ≤ hebbianCounterMax) :
    snapEntry blob i = savedEntry r := by
  have hbehind : blob.drop (snapHeaderSize + i * snapRouteEntrySize + snapNameSize) =
      encode 1 (u8 r.learnedOrientation) ++ (encode 2 (u16 r.hebbianCounter) ++ rest) := by
    rw [← List.drop_drop, h, snapRouteBytes, List.append_assoc, List.append_assoc,
      List.drop_left' (length_nameBytes r.name)]
  have hname : (blob.drop (snapHeaderSize + i * snapRouteEntrySize)).take snapNameSize =
      nameBytes r.name := by
    rw [h, snapRouteBytes, List.append_assoc, List.take_left' (length_nameBytes r.name)]
  have horient : loomNumber blob (snapHeaderSize + i * snapRouteEntrySize + 16) 1 =
      u8 r.learnedOrientation := by
    change decode ((blob.drop (_ + snapNameSize)).take 1) = _
    rw [hbehind, List.take_left' (length_encode _ _), decode_encode (u8_lt _)]
  have hcount : loomNumber blob (snapHeaderSize + i * snapRouteEntrySize + 17) 2 =
      u16 r.hebbianCounter := by
    rw [loomNumber, show snapHeaderSize + i * snapRouteEntrySize + 17 =
        snapHeaderSize + i * snapRouteEntrySize + snapNameSize + 1 from rfl, ← List.drop_drop, hbehind,
      List.drop_left' (length_encode _ _), List.take_left' (length_encode _ _),
      decode_encode (u16_lt _)]
  change SnapEntry.mk _ (i8 (loomNumber blob (_ + 16) 1)) (i16 (loomNumber blob (_ + 17) 2)) = _
  rw [hname, horient, hcount, i8_u8 hlearned, i16_u16 hcounter]
  rfl

end Bytes

section Blob

variable {valueMax : ℕ} {field : Field}

theorem snapCap_le (valueMax : ℕ) : snapCap valueMax ≤ snapMaxRoutes := by
  have hmin : ∀ a b : ℕ, (if a < b then a else b) ≤ b := by
    intro a b
    split <;> omega
  exact hmin _ _

theorem Snappable.few (h : Snappable valueMax field) : field.routes.length ≤ snapMaxRoutes :=
  h.cap.trans (snapCap_le valueMax)

theorem Snappable.snapBytes_eq (h : Snappable valueMax field) : snapBytes valueMax field =
    encode 2 snapVersion ++
      (encode 2 field.routes.length ++ field.routes.flatMap snapRouteBytes) := by
  have hcap := h.cap
  have hfew := h.few
  have hmax : snapMaxRoutes = 32 := rfl
  have hcount : policySnapEntryCount field.routes.length (snapCap valueMax) =
      field.routes.length := by
    unfold policySnapEntryCount
    split <;> omega
  unfold snapBytes
  dsimp only
  rw [hcount, List.take_length]

theorem Snappable.length_snapBytes (h : Snappable valueMax field) :
    (snapBytes valueMax field).length =
      snapHeaderSize + field.routes.length * snapRouteEntrySize := by
  rw [h.snapBytes_eq, List.length_append, List.length_append, length_encode, length_encode,
    length_flatMap_fixed (fun r _ => length_snapRouteBytes r), ← Nat.add_assoc]
  rfl

theorem Snappable.snapBytes_version (h : Snappable valueMax field) :
    loomNumber (snapBytes valueMax field) 0 2 = snapVersion := by
  rw [loomNumber, h.snapBytes_eq, List.drop_zero, List.take_left' (length_encode _ _)]
  exact decode_encode (by decide)

theorem Snappable.snapBytes_count (h : Snappable valueMax field) :
    loomNumber (snapBytes valueMax field) 2 2 = field.routes.length := by
  have hlt : field.routes.length < 256 ^ 2 := lt_of_le_of_lt h.few (by decide)
  rw [loomNumber, h.snapBytes_eq, List.drop_left' (length_encode _ _),
    List.take_left' (length_encode _ _), decode_encode hlt]

theorem Snappable.drop_snapBytes (h : Snappable valueMax field) (i : ℕ) :
    (snapBytes valueMax field).drop (snapHeaderSize + i * snapRouteEntrySize) =
      (field.routes.drop i).flatMap snapRouteBytes := by
  have hheader : (encode 2 snapVersion ++ encode 2 field.routes.length).length = snapHeaderSize := by
    rw [List.length_append, length_encode, length_encode]
    rfl
  rw [h.snapBytes_eq, ← List.append_assoc, ← List.drop_drop, List.drop_left' hheader,
    drop_flatMap fun r _ => length_snapRouteBytes r]

/-- What is read from the blob of a field is what its routes had learned. -/
theorem Snappable.snapEntries_snapBytes (h : Snappable valueMax field) :
    snapEntries (snapBytes valueMax field) = field.routes.map savedEntry := by
  have hcount : min (loomNumber (snapBytes valueMax field) 2 2)
      (((snapBytes valueMax field).length - snapHeaderSize) / snapRouteEntrySize) =
        field.routes.length := by
    rw [h.snapBytes_count, h.length_snapBytes, Nat.add_sub_cancel_left,
      Nat.mul_div_cancel _ (by decide), Nat.min_self]
  unfold snapEntries
  rw [hcount]
  apply List.ext_getElem
  · rw [List.length_map, List.length_map, List.length_range]
  · intro i hi hi'
    rw [List.length_map] at hi'
    have hr : field.routes[i] ∈ field.routes := List.getElem_mem hi'
    rw [List.getElem_map, List.getElem_map, List.getElem_range]
    apply snapEntry_written _ (h.learned _ hr) (h.counter _ hr)
    · exact ((field.routes.drop (i + 1)).flatMap snapRouteBytes)
    · rw [h.drop_snapBytes, List.drop_eq_getElem_cons hi', List.flatMap_cons]

theorem Snappable.snapBlob {field' : Field} (h : Snappable valueMax field)
    {kv : CName → Option (List UInt8)} (hname : field'.name = field.name)
    (hkv : kv (snapKey field) = some (snapBytes valueMax field)) :
    snapBlob kv field' = some (snapBytes valueMax field) := by
  have hkey : snapKey field' = snapKey field := by rw [snapKey, hname, snapKey]
  have hfits : (snapBytes valueMax field).length ≤
      snapHeaderSize + snapMaxRoutes * snapRouteEntrySize := by
    rw [h.length_snapBytes]
    exact Nat.add_le_add_left (Nat.mul_le_mul_right _ h.few) _
  have hheader : snapHeaderSize ≤ (snapBytes valueMax field).length := by
    rw [h.length_snapBytes]
    exact Nat.le_add_right _ _
  unfold Goose.snapBlob
  rw [hkey, hkv, Option.filter_some, decide_eq_true hfits, decide_eq_true hheader,
    decide_eq_true h.snapBytes_version]
  rfl

end Blob

/-- A route with the values of an entry of its name. -/
def takeEntry (e : SnapEntry) (r : Route) : Route :=
  if nameBytes r.name = e.name then
    { r with
      learnedOrientation := policyClampLearnedOrientation e.orientation
      hebbianCounter := policyClampHebbianCounter e.hebbianCounter hebbianCounterMax }
  else r

/-- A route behind all entries. -/
def takeEntries (entries : List SnapEntry) (r : Route) : Route :=
  entries.foldl (fun r e => takeEntry e r) r

section Restore

variable {routes : List Route} {entries : List SnapEntry} {e : SnapEntry} {r : Route}

@[simp] theorem takeEntry_name (e : SnapEntry) (r : Route) : (takeEntry e r).name = r.name := by
  unfold takeEntry
  split <;> rfl

@[simp] theorem takeEntries_name (entries : List SnapEntry) (r : Route) :
    (takeEntries entries r).name = r.name := by
  induction entries generalizing r with
  | nil => rfl
  | cons e entries ih =>
    rw [takeEntries, List.foldl_cons]
    exact (ih _).trans (takeEntry_name e r)

theorem takeEntry_other (h : nameBytes r.name ≠ e.name) : takeEntry e r = r := if_neg h

/-- Among distinct names the first route of a name is the only one. -/
theorem restoreEntry_eq (h : (routes.map fun r => nameBytes r.name).Nodup) (e : SnapEntry) :
    restoreEntry routes e = routes.map (takeEntry e) := by
  induction routes with
  | nil => rfl
  | cons r routes ih =>
    rw [List.map_cons, List.nodup_cons] at h
    by_cases hr : nameBytes r.name = e.name
    · have hrest : routes.map (takeEntry e) = routes := by
        refine (List.map_congr_left fun r' hr' => ?_).trans (List.map_id _)
        apply takeEntry_other
        intro hname
        exact h.1 (List.mem_map.mpr ⟨r', hr', hname.trans hr.symm⟩)
      unfold restoreEntry
      rw [List.findIdx?_cons, if_pos (decide_eq_true hr), List.map_cons, hrest, takeEntry, if_pos hr]
      rfl
    · have hrec := ih h.2
      unfold restoreEntry at hrec ⊢
      rw [List.findIdx?_cons, if_neg (by simpa using hr), List.map_cons, takeEntry_other hr, ← hrec]
      cases hfind : routes.findIdx? fun r => decide (nameBytes r.name = e.name) with
      | none => rfl
      | some i => rfl

theorem foldl_restoreEntry (h : (routes.map fun r => nameBytes r.name).Nodup)
    (entries : List SnapEntry) :
    entries.foldl restoreEntry routes = routes.map (takeEntries entries) := by
  induction entries generalizing routes with
  | nil => exact (List.map_id _).symm
  | cons e entries ih =>
    have hnames : ((routes.map (takeEntry e)).map fun r => nameBytes r.name) =
        routes.map fun r => nameBytes r.name := by
      rw [List.map_map]
      exact List.map_congr_left fun r _ => congrArg nameBytes (takeEntry_name e r)
    rw [List.foldl_cons, restoreEntry_eq h, ih (hnames ▸ h), List.map_map]
    rfl

theorem takeEntries_other (h : ∀ e ∈ entries, nameBytes r.name ≠ e.name) :
    takeEntries entries r = r := by
  induction entries with
  | nil => rfl
  | cons e entries ih =>
    rw [takeEntries, List.foldl_cons, takeEntry_other (h e List.mem_cons_self)]
    exact ih fun d hd => h d (List.mem_cons_of_mem _ hd)

/-- Among entries of distinct names a route ends with the values of its own. -/
theorem takeEntries_mem (hnames : (entries.map SnapEntry.name).Nodup) (he : e ∈ entries)
    (hr : nameBytes r.name = e.name) : takeEntries entries r = takeEntry e r := by
  induction entries with
  | nil => exact absurd he List.not_mem_nil
  | cons d entries ih =>
    rw [List.map_cons, List.nodup_cons] at hnames
    rw [takeEntries, List.foldl_cons]
    rcases List.mem_cons.mp he with rfl | he
    · apply takeEntries_other
      intro d hd hname
      rw [takeEntry_name, hr] at hname
      exact hnames.1 (List.mem_map.mpr ⟨d, hd, hname.symm⟩)
    · have hne : nameBytes r.name ≠ d.name := by
        intro hname
        exact hnames.1 (List.mem_map.mpr ⟨e, he, hr.symm.trans hname⟩)
      rw [takeEntry_other hne]
      exact ih hnames.2 he

theorem policyClampLearnedOrientation_trit {z : ℤ} (h : IsTrit z) :
    policyClampLearnedOrientation z = z := by
  have hz := h
  unfold IsTrit at hz
  unfold policyClampLearnedOrientation
  exact if_neg (by omega)

theorem policyClampHebbianCounter_within {z c : ℤ} (h : |z| ≤ c) :
    policyClampHebbianCounter z c = z := by
  have hc := (abs_nonneg z).trans h
  rw [abs_le] at h
  unfold policyClampHebbianCounter
  rw [if_neg (by omega), if_neg (by omega), if_neg (by omega)]

end Restore

/-- What a backend does with the keys it is given, from the stores of `P` on. -/
structure KvBackend.Sound (B : KvBackend K) (keys : List CName) (P : K → Prop) : Prop where
  stays : ∀ {k}, P k → ∀ key ∈ keys, ∀ val, P (B.setBlob k key val).2
  opened : ∀ {k}, P k → ∀ key ∈ keys, ∀ val, B.opened (B.setBlob k key val).2 = B.opened k
  same : ∀ {k}, P k → ∀ key ∈ keys, ∀ val, (B.setBlob k key val).1 = Err.ok →
    B.getBlob (B.setBlob k key val).2 key = some val
  other : ∀ {k}, P k → ∀ key ∈ keys, ∀ val, ∀ key', key' ≠ key →
    B.getBlob (B.setBlob k key val).2 key' = B.getBlob k key'

def snapKeys (supervised : List ℕ) (S : Substrate W) : List CName :=
  supervised.map fun fid => snapKey (S.fields fid)

/-- What a part of the save did: the values of other keys stay, and without a field skipped or
failed each field is stored. -/
structure Saves (B : KvBackend K) (P : K → Prop) (S : Substrate W) (fids : List ℕ)
    (st st' : SaveState K) : Prop where
  store : P st'.store
  opened : B.opened st'.store = B.opened st.store
  skipped : st.skippedFields ≤ st'.skippedFields
  failed : st.failedFields ≤ st'.failedFields
  other : ∀ key ∉ snapKeys fids S, B.getBlob st'.store key = B.getBlob st.store key
  saved : st'.skippedFields = st.skippedFields → st'.failedFields = st.failedFields →
    ∀ fid ∈ fids, (S.fields fid).routes ≠ [] →
      B.getBlob st'.store (snapKey (S.fields fid)) = some (snapBytes B.valueMax (S.fields fid))

section Save

variable {B : KvBackend K} {P : K → Prop} {keys : List CName} {S : Substrate W} {fids : List ℕ}
  {st st' st'' : SaveState K} {fid : ℕ}

theorem Saves.refl (hst : P st.store) : Saves B P S [] st st :=
  ⟨hst, rfl, Nat.le_refl _, Nat.le_refl _, fun _ _ => rfl,
    fun _ _ _ hfid => absurd hfid List.not_mem_nil⟩

theorem Saves.trans (h : Saves B P S [fid] st st') (h' : Saves B P S fids st' st'')
    (hkey : snapKey (S.fields fid) ∉ snapKeys fids S) : Saves B P S (fid :: fids) st st'' where
  store := h'.store
  opened := h'.opened.trans h.opened
  skipped := h.skipped.trans h'.skipped
  failed := h.failed.trans h'.failed
  other key hout := by
    have hout' : key ∉ snapKeys [fid] S ∧ key ∉ snapKeys fids S := by
      simpa [snapKeys, not_or] using hout
    rw [h'.other key hout'.2, h.other key hout'.1]
  saved hskipped hfailed f hf hroutes := by
    have hle := h.skipped
    have hle' := h'.skipped
    have hfle := h.failed
    have hfle' := h'.failed
    rcases List.mem_cons.mp hf with rfl | hf
    · rw [h'.other _ hkey]
      exact h.saved (by omega) (by omega) f List.mem_cons_self hroutes
    · exact h'.saved (by omega) (by omega) f hf hroutes

theorem snapshotSaveField_saves (hB : B.Sound keys P) (hst : P st.store)
    (hkey : snapKey (S.fields fid) ∈ keys) (lock : ℕ → Bool) :
    Saves B P S [fid] st (snapshotSaveField B lock S st fid) := by
  unfold snapshotSaveField
  dsimp only
  by_cases hroutes : (S.fields fid).routes = []
  · rw [if_pos hroutes]
    refine ⟨hst, rfl, Nat.le_refl _, Nat.le_refl _, fun _ _ => rfl, fun _ _ f hf hne => ?_⟩
    exact absurd (List.mem_singleton.mp hf ▸ hroutes) hne
  rw [if_neg hroutes]
  cases hlock : lock fid with
  | false =>
    exact ⟨hst, rfl, Nat.le_succ _, Nat.le_refl _, fun _ _ => rfl,
      fun hskipped => absurd hskipped (Nat.succ_ne_self _)⟩
  | true =>
    have hother : ∀ key ∉ snapKeys [fid] S,
        B.getBlob (B.setBlob st.store (snapKey (S.fields fid))
          (snapBytes B.valueMax (S.fields fid))).2 key = B.getBlob st.store key := by
      intro key hout
      exact hB.other hst _ hkey _ key fun h => hout (List.mem_singleton.mpr h)
    rw [if_neg (by decide : ¬ (!true) = true)]
    by_cases hok : (B.setBlob st.store (snapKey (S.fields fid))
        (snapBytes B.valueMax (S.fields fid))).1 = Err.ok
    · rw [if_pos hok]
      refine ⟨hB.stays hst _ hkey _, hB.opened hst _ hkey _, Nat.le_refl _, Nat.le_refl _, hother,
        fun _ _ f hf _ => ?_⟩
      rw [List.mem_singleton.mp hf]
      exact hB.same hst _ hkey _ hok
    · rw [if_neg hok]
      exact ⟨hB.stays hst _ hkey _, hB.opened hst _ hkey _, Nat.le_refl _, Nat.le_succ _, hother,
        fun _ hfailed => absurd hfailed (Nat.succ_ne_self _)⟩

theorem snapshotSave_saves (hB : B.Sound keys P) (hst : P st.store)
    (hkeys : ∀ key ∈ snapKeys fids S, key ∈ keys) (hdistinct : (snapKeys fids S).Nodup)
    (lock : ℕ → Bool) : Saves B P S fids st (fids.foldl (snapshotSaveField B lock S) st) := by
  induction fids generalizing st with
  | nil => exact Saves.refl hst
  | cons fid fids ih =>
    rw [snapKeys, List.map_cons, List.nodup_cons] at hdistinct
    have hstep := snapshotSaveField_saves hB hst (hkeys _ List.mem_cons_self) lock
    have hrest := ih hstep.store (fun key hkey => hkeys key (List.mem_cons_of_mem _ hkey)) hdistinct.2
    exact hstep.trans hrest hdistinct.1

/-- A save that reports success has stored every field that has routes. -/
theorem snapshotSave_stored {store : K} {supervised : List ℕ} {lock : ℕ → Bool}
    (hB : B.Sound (snapKeys supervised S) P) (hstore : P store)
    (hkeys : (snapKeys supervised S).Nodup)
    (hsaved : (snapshotSave B lock supervised S store).1 = Err.ok) :
    B.opened (snapshotSave B lock supervised S store).2 = Err.ok ∧
      ∀ fid ∈ supervised, (S.fields fid).routes ≠ [] →
        B.getBlob (snapshotSave B lock supervised S store).2 (snapKey (S.fields fid)) =
          some (snapBytes B.valueMax (S.fields fid)) := by
  have hsaves : Saves B P S supervised ⟨store, 0, 0⟩ _ :=
    snapshotSave_saves hB hstore (fun _ h => h) hkeys lock
  by_cases hopen : B.opened store = Err.ok
  · unfold snapshotSave at hsaved ⊢
    rw [if_neg (not_not.mpr hopen)] at hsaved ⊢
    dsimp only at hsaved ⊢
    by_cases hskipped : 0 < (supervised.foldl (snapshotSaveField B lock S) ⟨store, 0, 0⟩).skippedFields
    · rw [if_pos hskipped] at hsaved
      exact absurd hsaved (by decide)
    rw [if_neg hskipped] at hsaved
    by_cases hfailed : 0 < (supervised.foldl (snapshotSaveField B lock S) ⟨store, 0, 0⟩).failedFields
    · rw [if_pos hfailed] at hsaved
      exact absurd hsaved (by decide)
    exact ⟨hsaves.opened.trans hopen,
      hsaves.saved (Nat.eq_zero_of_not_pos hskipped) (Nat.eq_zero_of_not_pos hfailed)⟩
  · unfold snapshotSave at hsaved
    rw [if_pos hopen] at hsaved
    exact absurd hsaved hopen

end Save

section Load

variable {kv : CName → Option (List UInt8)} {lock : ℕ → Bool} {S : Substrate W} {fid fid' : ℕ}
  {supervised : List ℕ}

theorem snapshotLoadField_other (hne : fid' ≠ fid) :
    (snapshotLoadField kv lock S fid).fields fid' = S.fields fid' := by
  unfold snapshotLoadField
  dsimp only
  split
  · rfl
  split
  · rfl
  split
  · rfl
  · exact Function.update_of_ne hne _ _

theorem snapshotLoadField_self {blob : List UInt8} (hblob : snapBlob kv (S.fields fid) = some blob)
    (hlock : lock fid = true) (hroutes : (S.fields fid).routes ≠ []) :
    ((snapshotLoadField kv lock S fid).fields fid).routes =
      (snapEntries blob).foldl restoreEntry (S.fields fid).routes := by
  unfold snapshotLoadField
  dsimp only
  rw [if_neg hroutes, hblob, hlock]
  change (Function.update S.fields fid _ fid).routes = _
  rw [Function.update_self]

theorem snapshotLoadField_empty (hroutes : (S.fields fid).routes = []) :
    snapshotLoadField kv lock S fid = S := if_pos hroutes

theorem snapshotLoad_empty (hroutes : (S.fields fid).routes = []) :
    (snapshotLoad kv lock supervised S).fields fid = S.fields fid := by
  induction supervised generalizing S with
  | nil => rfl
  | cons f fids ih =>
    rw [snapshotLoad, List.foldl_cons]
    by_cases hf : fid = f
    · rw [← hf, snapshotLoadField_empty hroutes]
      exact ih hroutes
    · have hsame := @snapshotLoadField_other W kv lock S f fid hf
      exact (ih (hsame ▸ hroutes)).trans hsame

theorem snapshotLoad_other (hout : fid ∉ supervised) :
    (snapshotLoad kv lock supervised S).fields fid = S.fields fid := by
  induction supervised generalizing S with
  | nil => rfl
  | cons f fids ih =>
    rw [List.mem_cons, not_or] at hout
    rw [snapshotLoad, List.foldl_cons]
    exact (ih hout.2).trans (snapshotLoadField_other hout.1)

theorem snapshotLoad_routes (hdistinct : supervised.Nodup) (hfid : fid ∈ supervised)
    {blob : List UInt8} (hblob : snapBlob kv (S.fields fid) = some blob)
    (hlock : lock fid = true) (hroutes : (S.fields fid).routes ≠ []) :
    ((snapshotLoad kv lock supervised S).fields fid).routes =
      (snapEntries blob).foldl restoreEntry (S.fields fid).routes := by
  induction supervised generalizing S with
  | nil => exact absurd hfid List.not_mem_nil
  | cons f fids ih =>
    rw [List.nodup_cons] at hdistinct
    rw [snapshotLoad, List.foldl_cons]
    by_cases hf : fid = f
    · rw [← hf] at hdistinct ⊢
      rw [← snapshotLoadField_self hblob hlock hroutes]
      exact congrArg Field.routes (snapshotLoad_other hdistinct.1)
    · have hsame := @snapshotLoadField_other W kv lock S f fid hf
      have hrec := @ih (snapshotLoadField kv lock S f) hdistinct.2
        ((List.mem_cons.mp hfid).resolve_left hf) (hsame ▸ hblob) (hsame ▸ hroutes)
      exact hrec.trans (by rw [hsame])

end Load

def snapNamespace : CName := ascii "goose"

/-- The store on raw flash, read into the buffer of the snapshot. -/
def flashBackend : KvBackend Kv.Store where
  valueMax := Kv.kvValMax
  opened S := match Kv.kvOpen S snapNamespace with
    | .error e => e
    | .ok _ => Err.ok
  setBlob S key val := Kv.kvWriteEntry S (Kv.nsHash snapNamespace) key Kv.kvTypeBlob val
  getBlob S key := (Kv.kvGetBlob S (Kv.nsHash snapNamespace) key
    (snapHeaderSize + snapMaxRoutes * snapRouteEntrySize)).toOption

def snapStored (key : CName) (val : List UInt8) : Kv.Entry :=
  ⟨Kv.nsHash snapNamespace, key, Kv.kvTypeBlob, val⟩

/-- A store whose entries are of these keys. -/
def FlashKnows (known : List (UInt8 × CName)) (S : Kv.Store) : Prop :=
  ∃ es, Kv.Carries S es ∧ ∀ e ∈ es, e.id ∈ known

section Flash

variable {known : List (UInt8 × CName)} {keys : List CName} {store : Kv.Store}
  {es : List Kv.Entry}

theorem flashBackend_getBlob (h : Kv.Carries store es) (key : CName) :
    flashBackend.getBlob store key =
      (Kv.lookup es (Kv.nsHash snapNamespace, key)).map Kv.Entry.val := by
  change (Kv.kvGetBlob _ _ _ _).toOption = _
  rw [h.getBlob]
  cases hl : Kv.lookup es (Kv.nsHash snapNamespace, key) with
  | none => rfl
  | some e =>
    have hval := (h.sane e (Kv.lookup_some hl).1).val_le
    have hcap : ¬ snapHeaderSize + snapMaxRoutes * snapRouteEntrySize < e.val.length :=
      Nat.not_lt_of_le (hval.trans (by decide))
    dsimp only
    rw [if_neg hcap]
    rfl

theorem snapStored_id_ne {key key' : CName} (hne : key' ≠ key) (val : List UInt8) :
    (snapStored key val).id ≠ (Kv.nsHash snapNamespace, key') :=
  fun h => hne (congrArg Prod.snd h).symm

/-- As long as a compaction keeps all keys, the store on flash is a backend. -/
theorem flashBackend_sound (hfew : known.dedup.length ≤ Kv.kvEntryMax)
    (hknown : ∀ key ∈ keys, key ≠ [] ∧ (Kv.nsHash snapNamespace, key) ∈ known) :
    flashBackend.Sound keys (FlashKnows known) where
  stays := by
    rintro S ⟨es, hes, hmem⟩ key hkey val
    obtain ⟨es', hes', hback, -⟩ := hes.write (e := snapStored key val) (hknown key hkey).1
      ((Kv.ids_dedup_le hmem).trans hfew)
    refine ⟨es', hes', fun e he => ?_⟩
    rcases hback e he with rfl | he
    · exact (hknown key hkey).2
    · exact hmem e he
  opened := by
    rintro S ⟨es, hes, -⟩ key hkey val
    have hinit := hes.write_initialized (e := snapStored key val) (hknown key hkey).1
    change (match Kv.kvOpen (Kv.kvWrite S (snapStored key val)).2 snapNamespace with
      | .error e => e | .ok _ => Err.ok) = _
    rw [Kv.kvOpen, hinit]
    rfl
  same := by
    rintro S ⟨es, hes, hmem⟩ key hkey val hok
    obtain ⟨es', hes', -, hlook⟩ := hes.write (e := snapStored key val) (hknown key hkey).1
      ((Kv.ids_dedup_le hmem).trans hfew)
    refine (flashBackend_getBlob hes' key).trans ?_
    rw [hlook, if_pos ⟨hok, rfl⟩]
    rfl
  other := by
    rintro S ⟨es, hes, hmem⟩ key hkey val key' hne
    obtain ⟨es', hes', -, hlook⟩ := hes.write (e := snapStored key val) (hknown key hkey).1
      ((Kv.ids_dedup_le hmem).trans hfew)
    refine (flashBackend_getBlob hes' key').trans ?_
    rw [hlook, if_neg fun h => snapStored_id_ne hne val h.2, flashBackend_getBlob hes]

theorem length_snapKey (field : Field) : (snapKey field).length = 10 := by
  rw [snapKey, lowerHex8, List.length_append, List.length_map, List.length_range]
  rfl

theorem snapKey_ne_nil (field : Field) : snapKey field ≠ [] := by
  intro h
  have hlength := length_snapKey field
  rw [h] at hlength
  exact absurd hlength (by decide)

theorem Snappable.stored_sane {field : Field} (h : Snappable Kv.kvValMax field) :
    (snapStored (snapKey field) (snapBytes Kv.kvValMax field)).Sane where
  key_pos := (length_snapKey field).symm ▸ (by decide : 1 ≤ 10)
  key_le := (length_snapKey field).symm ▸ (by decide : 10 ≤ Kv.kvKeyMax)
  val_le := by
    have hcap : snapCap Kv.kvValMax * snapRouteEntrySize ≤ Kv.kvValMax - snapHeaderSize := by decide
    have hroutes := Nat.mul_le_mul_right snapRouteEntrySize h.cap
    have hmax : snapHeaderSize ≤ Kv.kvValMax := by decide
    change (snapBytes Kv.kvValMax field).length ≤ Kv.kvValMax
    rw [h.length_snapBytes]
    omega

variable {S : Substrate W} {lock : ℕ → Bool} {supervised : List ℕ}

theorem snapshotSaveField_flash {fid : ℕ} {st : SaveState Kv.Store}
    (hes : Kv.Carries st.store es) (hlock : lock fid = true)
    (hfield : Snappable Kv.kvValMax (S.fields fid))
    (hroom : st.store.writeOffset + 260 < Kv.kvSectorSize) :
    let st' := snapshotSaveField flashBackend lock S st fid
    st'.skippedFields = st.skippedFields ∧ st'.failedFields = st.failedFields ∧
      st'.store.writeOffset ≤ st.store.writeOffset + 260 ∧ ∃ es', Kv.Carries st'.store es' := by
  obtain ⟨htakes, hoffset, hcarries⟩ := hes.write_roomy
    (e := snapStored (snapKey (S.fields fid)) (snapBytes Kv.kvValMax (S.fields fid)))
    (snapKey_ne_nil _) hroom
  have hok := (hes.write_takes hfield.stored_sane htakes).1
  unfold snapshotSaveField
  dsimp only
  by_cases hroutes : (S.fields fid).routes = []
  · rw [if_pos hroutes]
    exact ⟨rfl, rfl, Nat.le_add_right _ _, es, hes⟩
  · rw [if_neg hroutes, hlock]
    change (flashBackend.setBlob st.store (snapKey (S.fields fid))
      (snapBytes flashBackend.valueMax (S.fields fid))).1 = Err.ok at hok
    rw [if_neg (by decide : ¬ (!true) = true), if_pos hok]
    exact ⟨rfl, rfl, hoffset, hcarries⟩

theorem snapshotSave_flash {fids : List ℕ} {st : SaveState Kv.Store}
    (hes : ∃ es, Kv.Carries st.store es) (hlock : ∀ fid ∈ fids, lock fid = true)
    (hfields : ∀ fid ∈ fids, Snappable Kv.kvValMax (S.fields fid))
    (hroom : st.store.writeOffset + 260 * fids.length < Kv.kvSectorSize) :
    (fids.foldl (snapshotSaveField flashBackend lock S) st).skippedFields = st.skippedFields ∧
      (fids.foldl (snapshotSaveField flashBackend lock S) st).failedFields = st.failedFields := by
  induction fids generalizing st with
  | nil => exact ⟨rfl, rfl⟩
  | cons fid fids ih =>
    obtain ⟨es, hes⟩ := hes
    rw [List.length_cons, Nat.mul_succ] at hroom
    have hone : st.store.writeOffset + 260 < Kv.kvSectorSize :=
      lt_of_le_of_lt (Nat.add_le_add_left (Nat.le_add_left _ _) _) hroom
    obtain ⟨hskipped, hfailed, hoffset, hcarries⟩ :=
      snapshotSaveField_flash hes (hlock fid List.mem_cons_self) (hfields fid List.mem_cons_self) hone
    have hleft := Nat.add_le_add_right hoffset (260 * fids.length)
    rw [Nat.add_assoc, Nat.add_comm 260] at hleft
    have hrest := ih hcarries (fun f hf => hlock f (List.mem_cons_of_mem _ hf))
      (fun f hf => hfields f (List.mem_cons_of_mem _ hf)) (lt_of_le_of_lt hleft hroom)
    rw [List.foldl_cons]
    exact ⟨hrest.1.trans hskipped, hrest.2.trans hfailed⟩

theorem flashSave_ok (hes : Kv.Carries store es) (hinit : store.initialized = true)
    (hlock : ∀ fid ∈ supervised, lock fid = true)
    (hfields : ∀ fid ∈ supervised, Snappable Kv.kvValMax (S.fields fid))
    (hroom : store.writeOffset + 260 * supervised.length < Kv.kvSectorSize) :
    (snapshotSave flashBackend lock supervised S store).1 = Err.ok := by
  obtain ⟨hskipped, hfailed⟩ := @snapshotSave_flash W S lock supervised ⟨store, 0, 0⟩ ⟨es, hes⟩
    hlock hfields hroom
  have hopen : flashBackend.opened store = Err.ok := by
    change (match Kv.kvOpen store snapNamespace with | .error e => e | .ok _ => Err.ok) = Err.ok
    rw [Kv.kvOpen, if_pos hinit]
  unfold snapshotSave
  rw [if_neg (not_not.mpr hopen)]
  dsimp only
  rw [hskipped, hfailed]
  rfl

end Flash

/-- The routes of a field as they are loaded, against those that were saved. -/
structure RestoredFrom (saved present loaded : Field) : Prop where
  order : loaded.routes.map Route.name = present.routes.map Route.name
  values : ∀ r ∈ saved.routes, ∀ r' ∈ loaded.routes, r'.name = r.name →
    r'.learnedOrientation = r.learnedOrientation ∧ r'.hebbianCounter = r.hebbianCounter

/-- The field is still the one that was saved, its routes in any order. -/
structure SameRoutes (saved present : Field) : Prop where
  name : present.name = saved.name
  routes : (present.routes.map Route.name).Perm (saved.routes.map Route.name)

section RoundTrip

variable {valueMax : ℕ} {saved present loaded : Field}

theorem nameBytes_nodup {names : List CName} {routes : List Route} (hnames : names.Nodup)
    (hfits : ∀ name ∈ names, name.length ≤ snapNameSize ∧ (0 : UInt8) ∉ name)
    (hperm : (routes.map Route.name).Perm names) :
    (routes.map fun r => nameBytes r.name).Nodup := by
  have hcomp : (routes.map fun r => nameBytes r.name) = (routes.map Route.name).map nameBytes := by
    rw [List.map_map]
    rfl
  rw [hcomp]
  apply (hperm.nodup_iff.mpr hnames).map_on
  intro a ha b hb heq
  exact (nameBytes_inj (hfits a (hperm.subset ha)) (hfits b (hperm.subset hb))).mp heq

theorem Snappable.nameBytes_nodup (h : Snappable valueMax saved) (hsame : SameRoutes saved present) :
    (present.routes.map fun r => nameBytes r.name).Nodup := by
  apply Goose.nameBytes_nodup h.names _ hsame.routes
  intro name hname
  obtain ⟨r, hr, rfl⟩ := List.mem_map.mp hname
  exact h.fits r hr

theorem Snappable.restored (h : Snappable valueMax saved)
    (hpresent : (present.routes.map fun r => nameBytes r.name).Nodup)
    (hloaded : loaded.routes =
      (snapEntries (snapBytes valueMax saved)).foldl restoreEntry present.routes) :
    RestoredFrom saved present loaded := by
  have hself := h.nameBytes_nodup ⟨rfl, List.Perm.refl _⟩
  have hentries : ((saved.routes.map savedEntry).map SnapEntry.name).Nodup := by
    rw [List.map_map]
    exact hself
  rw [h.snapEntries_snapBytes, foldl_restoreEntry hpresent] at hloaded
  constructor
  · rw [hloaded, List.map_map]
    exact List.map_congr_left fun r _ => takeEntries_name _ r
  · intro r hr r' hr' hname
    rw [hloaded] at hr'
    obtain ⟨r₀, -, rfl⟩ := List.mem_map.mp hr'
    have hbytes : nameBytes r₀.name = (savedEntry r).name := by
      rw [← takeEntries_name (saved.routes.map savedEntry) r₀, hname]
      rfl
    rw [takeEntries_mem hentries (List.mem_map_of_mem hr) hbytes, takeEntry, if_pos hbytes]
    exact ⟨policyClampLearnedOrientation_trit (h.learned r hr),
      policyClampHebbianCounter_within (h.counter r hr)⟩

theorem Snappable.snapshotLoad {kv : CName → Option (List UInt8)} {lock : ℕ → Bool} {supervised : List ℕ}
    {S : Substrate W} {fid : ℕ} (h : Snappable valueMax saved) (hdistinct : supervised.Nodup)
    (hfid : fid ∈ supervised) (hlock : lock fid = true) (hname : (S.fields fid).name = saved.name)
    (hpresent : ((S.fields fid).routes.map fun r => nameBytes r.name).Nodup)
    (hkv : (S.fields fid).routes ≠ [] → kv (snapKey saved) = some (snapBytes valueMax saved)) :
    RestoredFrom saved (S.fields fid) ((snapshotLoad kv lock supervised S).fields fid) := by
  by_cases hroutes : (S.fields fid).routes = []
  · rw [snapshotLoad_empty hroutes]
    refine ⟨rfl, fun r _ r' hr' => ?_⟩
    rw [hroutes] at hr'
    exact absurd hr' List.not_mem_nil
  · apply h.restored hpresent
    apply snapshotLoad_routes hdistinct hfid _ hlock hroutes
    exact h.snapBlob hname (hkv hroutes)

end RoundTrip

/-- A load behind a save gives every route back what it had learned when it was saved, whatever
the routes have learned since and in whatever order they stand. -/
theorem snapshot_round_trip (B : KvBackend K) {P : K → Prop} {store : K} {supervised : List ℕ}
    {S S' : Substrate W} {lock lock' : ℕ → Bool} (hB : B.Sound (snapKeys supervised S) P)
    (hstore : P store) (hkeys : (snapKeys supervised S).Nodup)
    (hfields : ∀ fid ∈ supervised, Snappable B.valueMax (S.fields fid))
    (hsaved : (snapshotSave B lock supervised S store).1 = Err.ok)
    (hsame : ∀ fid ∈ supervised, SameRoutes (S.fields fid) (S'.fields fid)) :
    let loaded := snapshotLoadFrom B (snapshotSave B lock supervised S store).2 lock' supervised S'
    loaded.1 = Err.ok ∧ ∀ fid ∈ supervised, lock' fid = true →
      RestoredFrom (S.fields fid) (S'.fields fid) (loaded.2.fields fid) := by
  obtain ⟨hopen, hstored⟩ := snapshotSave_stored hB hstore hkeys hsaved
  have hload : snapshotLoadFrom B (snapshotSave B lock supervised S store).2 lock' supervised S' =
      (Err.ok, snapshotLoad (B.getBlob (snapshotSave B lock supervised S store).2) lock' supervised
        S') := if_neg (not_not.mpr hopen)
  rw [hload]
  refine ⟨rfl, fun fid hfid hlock => ?_⟩
  have hpresent := hsame fid hfid
  apply (hfields fid hfid).snapshotLoad (hkeys.of_map _) hfid hlock hpresent.name
  · exact (hfields fid hfid).nameBytes_nodup hpresent
  · intro hroutes
    apply hstored fid hfid
    intro hnone
    have hperm := hpresent.routes
    rw [hnone, List.map_nil, List.perm_nil, List.map_eq_nil_iff] at hperm
    exact hroutes hperm

def learnedRoute (name : CName) (orientation counter : ℤ) : Route :=
  { zeroRoute with name, learnedOrientation := orientation, hebbianCounter := counter }

def learnedField (routes : List Route) : Field := ⟨ascii "limbic", routes, [], 0⟩

def learnedSubstrate (routes : List Route) : Substrate Unit :=
  ⟨blankFabric, fun _ => learnedField routes, [0], ()⟩

def twoLearned : List Route := [learnedRoute (ascii "a") 1 5, learnedRoute (ascii "b") (-1) (-16)]

def twoUnlearned : List Route := [learnedRoute (ascii "b") 0 7, learnedRoute (ascii "a") (-1) 0]

theorem twoLearned_snappable : Snappable Kv.kvValMax (learnedField twoLearned) where
  names := by decide
  fits := by decide
  cap := by decide
  learned := by decide
  counter := by decide

/-- Two routes, in the other order when they are loaded from a flash that was blank. -/
theorem snapshot_round_trip_two :
    RestoredFrom (learnedField twoLearned) (learnedField twoUnlearned)
      ((snapshotLoadFrom flashBackend
        (snapshotSave flashBackend (fun _ => true) [0] (learnedSubstrate twoLearned)
          (Kv.kvInit Kv.blankFlash)).2 (fun _ => true) [0] (learnedSubstrate twoUnlearned)).2.fields
            0) := by
  have hes := Kv.blankFlash_holds.carries
  have hroom : (Kv.kvInit Kv.blankFlash).writeOffset + 260 * [0].length < Kv.kvSectorSize := by
    rw [hes.offset]
    decide
  have hfields : ∀ fid ∈ [0], Snappable Kv.kvValMax ((learnedSubstrate twoLearned).fields fid) :=
    fun _ _ => twoLearned_snappable
  have hknown : ∀ key ∈ snapKeys [0] (learnedSubstrate twoLearned), key ≠ [] ∧
      (Kv.nsHash snapNamespace, key) ∈
        [(Kv.nsHash snapNamespace, snapKey (learnedField twoLearned))] := by
    intro key hkey
    rw [List.mem_singleton.mp hkey]
    exact ⟨snapKey_ne_nil _, List.mem_singleton.mpr rfl⟩
  have hsame : ∀ fid ∈ [0], SameRoutes ((learnedSubstrate twoLearned).fields fid)
      ((learnedSubstrate twoUnlearned).fields fid) := fun _ _ => ⟨rfl, List.Perm.swap _ _ _⟩
  exact (snapshot_round_trip flashBackend (flashBackend_sound (by decide) hknown)
    ⟨[], hes, fun e he => absurd he List.not_mem_nil⟩ (List.nodup_singleton _) hfields
    (flashSave_ok hes Kv.blankFlash_holds.initialized (fun _ _ => rfl) hfields hroom)
    hsame).2 0 List.mem_cons_self rfl

end ReflexOS.Goose
