import ReflexOS.GooseLearning
import ReflexOS.GooseLoom

set_option autoImplicit false

/-!
# Snapshots of what the routes have learned

One blob a field: a header of version and count, then the entries. The count is not
trusted beyond the length of the blob.
-/
namespace ReflexOS.Goose
open VmTernary

def snapHeaderSize : ℕ := 4
def snapRouteEntrySize : ℕ := 19
def snapMaxRoutes : ℕ := 32
def snapVersion : ℕ := 2
def snapNameSize : ℕ := 16

structure SnapEntry where
  name : List UInt8
  orientation : ℤ
  hebbianCounter : ℤ

/-- Eight lower-case digits. -/
def lowerHex8 (n : ℕ) : CName := (List.range 8).map fun i =>
  let digit := n / 16 ^ (7 - i) % 16
  UInt8.ofNat (if digit < 10 then 48 + digit else 87 + digit)

def snapKey (field : Field) : CName := ascii "s_" ++ lowerHex8 (gooseNameHash field.name)

/-- All bytes of the array a name is stored in. -/
def nameBytes (name : CName) : List UInt8 :=
  (name ++ List.replicate snapNameSize 0).take snapNameSize

def snapEntry (blob : List UInt8) (i : ℕ) : SnapEntry :=
  let base := snapHeaderSize + i * snapRouteEntrySize
  { name := (blob.drop base).take snapNameSize
    orientation := i8 (loomNumber blob (base + 16) 1)
    hebbianCounter := i16 (loomNumber blob (base + 17) 2) }

/-- The entries that are all there. -/
def snapEntries (blob : List UInt8) : List SnapEntry :=
  (List.range (min (loomNumber blob 2 2) ((blob.length - snapHeaderSize) / snapRouteEntrySize))).map
    (snapEntry blob)

def policyClampLearnedOrientation (value : ℤ) : ℤ := if value < -1 ∨ 1 < value then 0 else value

def policyClampHebbianCounter (value counterMax : ℤ) : ℤ :=
  if counterMax < 0 then 0
  else if counterMax < value then counterMax
  else if value < -counterMax then -counterMax
  else value

/-- The first route of the name takes the entry. -/
def restoreEntry (routes : List Route) (e : SnapEntry) : List Route :=
  match routes.findIdx? fun r => decide (nameBytes r.name = e.name) with
  | none => routes
  | some i => routes.modify i fun r =>
    { r with
      learnedOrientation := policyClampLearnedOrientation e.orientation
      hebbianCounter := policyClampHebbianCounter e.hebbianCounter hebbianCounterMax }

/-- The blob stored for a field, where it fits the buffer and is of this version. -/
def snapBlob (kv : CName → Option (List UInt8)) (field : Field) : Option (List UInt8) :=
  (kv (snapKey field)).filter fun blob =>
    decide (blob.length ≤ snapHeaderSize + snapMaxRoutes * snapRouteEntrySize) &&
      decide (snapHeaderSize ≤ blob.length) && decide (loomNumber blob 0 2 = snapVersion)

variable {W : Type*}

/-- `lock` is whether the loom was free for the field. -/
def snapshotLoadField (kv : CName → Option (List UInt8)) (lock : ℕ → Bool) (S : Substrate W)
    (fid : ℕ) : Substrate W :=
  let field := S.fields fid
  if field.routes = [] then S
  else
    match snapBlob kv field with
    | none => S
    | some blob =>
      if !lock fid then S
      else S.setField fid
        { field with routes := (snapEntries blob).foldl restoreEntry field.routes }

/-- `goose_snapshot_load` over the supervised fields. -/
def snapshotLoad (kv : CName → Option (List UInt8)) (lock : ℕ → Bool) (supervised : List ℕ)
    (S : Substrate W) : Substrate W :=
  supervised.foldl (snapshotLoadField kv lock) S

end ReflexOS.Goose
