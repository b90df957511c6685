import ReflexOS.GooseLoomReads
import ReflexOS.GooseSnapshot
import ReflexOS.GooseTrits
import Mathlib.Algebra.Order.Group.Abs
import Mathlib.Data.List.Forall2

set_option autoImplicit false

/-!
# Loading whatever the store holds

The load byte by byte, with the loom taken and given back. A read past the end of the blob and
the release of a loom that is not held have no result.
-/
namespace ReflexOS.Goose
open LittleEndian VmTernary

variable {W : Type*}

section Load

structure LoadState (W : Type*) where
  substrate : Substrate W
  /-- The task holds the loom. -/
  held : Bool

def readNumber (blob : List UInt8) (pos n : ℕ) : Option ℕ := (readBytes blob pos n).map decode

/-- `free` is whether nobody else holds the loom until the budget runs out. -/
def loomTryLock (free : Bool) (s : LoadState W) : Bool × LoadState W :=
  if s.held then (false, s) else (free, { s with held := free })

def loomUnlock (s : LoadState W) : Option (LoadState W) :=
  if s.held then some { s with held := false } else none

/-- The entries still counted, from `pos` on. -/
def applyEntries (blob : List UInt8) : ℕ → ℕ → List Route → Option (List Route)
  | 0, _, routes => some routes
  | n + 1, pos, routes =>
    if pos + snapRouteEntrySize ≤ blob.length then do
      let name ← readBytes blob pos snapNameSize
      let orientation ← readNumber blob (pos + 16) 1
      let hebbianCounter ← readNumber blob (pos + 17) 2
      applyEntries blob n (pos + snapRouteEntrySize)
        (restoreEntry routes ⟨name, i8 orientation, i16 hebbianCounter⟩)
    else some routes

/-- One field, from a blob that fits the buffer; the store refuses one that does not. -/
def snapshotLoadStep (kv : CName → Option (List UInt8)) (s : LoadState W) (attempt : ℕ × Bool) :
    Option (LoadState W) :=
  let field := s.substrate.fields attempt.1
  if field.routes = [] then some s
  else
    match kv (snapKey field) with
    | none => some s
    | some blob =>
      if snapHeaderSize + snapMaxRoutes * snapRouteEntrySize < blob.length then some s
      else if blob.length < snapHeaderSize then some s
      else
        (readNumber blob 0 2).bind fun version =>
          if version ≠ snapVersion then some s
          else
            (readNumber blob 2 2).bind fun count =>
              let taken := loomTryLock attempt.2 s
              if !taken.1 then some taken.2
              else
                (applyEntries blob count snapHeaderSize field.routes).bind fun routes =>
                  loomUnlock { taken.2 with substrate :=
                    taken.2.substrate.setField attempt.1 { field with routes := routes } }

/-- `goose_snapshot_load`, each supervised field with the answer its attempt at the loom gets. -/
def gooseSnapshotLoad (opened : Err) (kv : CName → Option (List UInt8))
    (attempts : List (ℕ × Bool)) (s : LoadState W) : Option (Err × LoadState W) :=
  if opened ≠ Err.ok then some (opened, s)
  else (attempts.foldlM (snapshotLoadStep kv) s).map (Err.ok, ·)

end Load

section Reads
variable {blob : List UInt8} {routes : List Route} {n pos : ℕ}

theorem readNumber_some (h : pos + n ≤ blob.length) :
    readNumber blob pos n = some (loomNumber blob pos n) := by
  rw [readNumber, readBytes_some h]
  rfl

def entryAt (blob : List UInt8) (pos : ℕ) : SnapEntry where
  name := (blob.drop pos).take snapNameSize
  orientation := i8 (loomNumber blob (pos + 16) 1)
  hebbianCounter := i16 (loomNumber blob (pos + 17) 2)

/-- Neither bound of the loop lets a read leave the blob. -/
theorem applyEntries_eq (blob : List UInt8) (n pos : ℕ) (routes : List Route) :
    applyEntries blob n pos routes =
      some (((List.range (min n ((blob.length - pos) / snapRouteEntrySize))).map fun i =>
        entryAt blob (pos + i * snapRouteEntrySize)).foldl restoreEntry routes) := by
  induction n generalizing pos routes with
  | zero => simp [applyEntries]
  | succ n ih =>
    have hsize : snapRouteEntrySize = 19 := rfl
    have hname : snapNameSize = 16 := rfl
    rw [applyEntries]
    split_ifs with hfits
    · rw [readBytes_some (by omega), readNumber_some (by omega), readNumber_some (by omega)]
      have hcount : min (n + 1) ((blob.length - pos) / snapRouteEntrySize) =
          min n ((blob.length - (pos + snapRouteEntrySize)) / snapRouteEntrySize) + 1 := by
        rw [hsize] at hfits ⊢
        omega
      have hshift : ∀ i, pos + snapRouteEntrySize + i * snapRouteEntrySize =
          pos + (i + 1) * snapRouteEntrySize := fun i => by rw [hsize]; omega
      simp only [Option.bind_eq_bind, Option.bind_some, ih, hcount, List.range_succ_eq_map,
        List.map_cons, List.map_map, List.foldl_cons, Nat.zero_mul, Nat.add_zero, hshift,
        Function.comp_def, Nat.succ_eq_add_one]
      rfl
    · have hzero : (blob.length - pos) / snapRouteEntrySize = 0 := by
        rw [hsize] at hfits ⊢
        omega
      rw [hzero, Nat.min_zero]
      rfl

theorem snapBlob_eq {kv : CName → Option (List UInt8)} {field : Field}
    (hkv : kv (snapKey field) = some blob) :
    snapBlob kv field =
      if snapHeaderSize + snapMaxRoutes * snapRouteEntrySize < blob.length then none
      else if blob.length < snapHeaderSize then none
      else if loomNumber blob 0 2 ≠ snapVersion then none
      else some blob := by
  rw [snapBlob, hkv, Option.filter_some]
  split_ifs <;> simp_all <;> omega

/-- The step never reads outside, and gives the loom back whichever way it leaves. -/
theorem snapshotLoadStep_eq (kv : CName → Option (List UInt8)) (S : Substrate W) (fid : ℕ)
    (free : Bool) :
    snapshotLoadStep kv ⟨S, false⟩ (fid, free) =
      some ⟨snapshotLoadField kv (fun _ => free) S fid, false⟩ := by
  unfold snapshotLoadStep snapshotLoadField
  dsimp only
  by_cases hroutes : (S.fields fid).routes = []
  · rw [if_pos hroutes, if_pos hroutes]
  rw [if_neg hroutes, if_neg hroutes]
  cases hkv : kv (snapKey (S.fields fid)) with
  | none =>
    have hblob : snapBlob kv (S.fields fid) = none := by rw [snapBlob, hkv, Option.filter_none]
    rw [hblob]
  | some blob =>
    have hheader : snapHeaderSize = 4 := rfl
    rw [snapBlob_eq hkv]
    dsimp only
    by_cases hbig : snapHeaderSize + snapMaxRoutes * snapRouteEntrySize < blob.length
    · rw [if_pos hbig, if_pos hbig]
    by_cases hsmall : blob.length < snapHeaderSize
    · rw [if_neg hbig, if_neg hbig, if_pos hsmall, if_pos hsmall]
    rw [if_neg hbig, if_neg hbig, if_neg hsmall, if_neg hsmall, readNumber_some (by omega),
      readNumber_some (by omega), Option.bind_some, Option.bind_some]
    by_cases hversion : loomNumber blob 0 2 ≠ snapVersion
    · rw [if_pos hversion, if_pos hversion]
    rw [if_neg hversion, if_neg hversion, applyEntries_eq]
    cases free <;> rfl

end Reads

section Frame
variable {kv : CName → Option (List UInt8)} {S S' S'' : Substrate W}

theorem policyClampLearnedOrientation_isTrit (value : ℤ) :
    IsTrit (policyClampLearnedOrientation value) := by
  unfold policyClampLearnedOrientation
  split
  · decide
  · constructor <;> omega

theorem policyClampHebbianCounter_abs (value : ℤ) {counterMax : ℤ} (h : 0 ≤ counterMax) :
    |policyClampHebbianCounter value counterMax| ≤ counterMax := by
  rw [abs_le]
  unfold policyClampHebbianCounter
  split_ifs <;> constructor <;> omega

/-- What loading may do to a route of the field whose blob has this key. -/
inductive RestoresRoute (kv : CName → Option (List UInt8)) (key : CName) (r : Route) : Route → Prop
  | kept : RestoresRoute kv key r r
  | learned {blob : List UInt8} (stored : kv key = some blob)
      (named : nameBytes r.name <:+: blob) {orientation counter : ℤ} (trit : IsTrit orientation)
      (bounded : |counter| ≤ hebbianCounterMax) :
      RestoresRoute kv key r { r with learnedOrientation := orientation, hebbianCounter := counter }

theorem RestoresRoute.trans {key : CName} {r r' r'' : Route} (h : RestoresRoute kv key r r')
    (h' : RestoresRoute kv key r' r'') : RestoresRoute kv key r r'' := by
  cases h' with
  | kept => exact h
  | learned stored named trit bounded =>
    cases h with
    | kept => exact .learned stored named trit bounded
    | learned => exact RestoresRoute.learned (r := r) stored named trit bounded

theorem restoreEntry_restores {key : CName} {blob : List UInt8} (hkv : kv key = some blob)
    {e : SnapEntry} (he : e.name <:+: blob) (routes : List Route) :
    List.Forall₂ (RestoresRoute kv key) routes (restoreEntry routes e) := by
  rw [List.forall₂_iff_get]
  unfold restoreEntry
  cases hfind : routes.findIdx? fun r => decide (nameBytes r.name = e.name) with
  | none => exact ⟨rfl, fun _ _ _ => .kept⟩
  | some i =>
    obtain ⟨hi, hname, -⟩ := List.findIdx?_eq_some_iff_getElem.mp hfind
    refine ⟨(List.length_modify ..).symm, fun j hj hj' => ?_⟩
    simp only [List.get_eq_getElem, List.getElem_modify]
    split_ifs with hij
    · subst hij
      exact .learned hkv (of_decide_eq_true hname ▸ he)
        (policyClampLearnedOrientation_isTrit _) (policyClampHebbianCounter_abs _ (by decide))
    · exact .kept

theorem forall₂_restores_trans {key : CName} {a b c : List Route}
    (h : List.Forall₂ (RestoresRoute kv key) a b) (h' : List.Forall₂ (RestoresRoute kv key) b c) :
    List.Forall₂ (RestoresRoute kv key) a c := by
  induction h generalizing c with
  | nil => exact h'
  | cons hr hrs ih =>
    cases h' with
    | cons hr' hrs' => exact .cons (hr.trans hr') (ih hrs')

theorem forall₂_restores_refl (key : CName) (routes : List Route) :
    List.Forall₂ (RestoresRoute kv key) routes routes :=
  List.forall₂_same.mpr fun _ _ => .kept

theorem snapEntries_name {blob : List UInt8} {e : SnapEntry} (h : e ∈ snapEntries blob) :
    e.name <:+: blob := by
  obtain ⟨i, -, rfl⟩ := List.mem_map.mp h
  exact ((List.take_prefix _ _).isInfix).trans (List.drop_suffix _ _).isInfix

theorem restoreEntries_restores {key : CName} {blob : List UInt8} (hkv : kv key = some blob)
    (entries : List SnapEntry) (h : ∀ e ∈ entries, e.name <:+: blob) (routes : List Route) :
    List.Forall₂ (RestoresRoute kv key) routes (entries.foldl restoreEntry routes) := by
  induction entries generalizing routes with
  | nil => exact forall₂_restores_refl key routes
  | cons e entries ih =>
    obtain ⟨he, hentries⟩ := List.forall_mem_cons.mp h
    exact forall₂_restores_trans (restoreEntry_restores hkv he routes) (ih hentries _)

/-- The routes of the fields may have learned; nothing else has changed. -/
structure LoadedFrom (kv : CName → Option (List UInt8)) (S S' : Substrate W) : Prop where
  fabric : S'.fabric = S.fabric
  globalFields : S'.globalFields = S.globalFields
  world : S'.world = S.world
  fields : ∀ fid, ∃ routes, S'.fields fid = { S.fields fid with routes := routes } ∧
    List.Forall₂ (RestoresRoute kv (snapKey (S.fields fid))) (S.fields fid).routes routes

theorem LoadedFrom.refl (S : Substrate W) : LoadedFrom kv S S :=
  ⟨rfl, rfl, rfl, fun fid => ⟨(S.fields fid).routes, rfl, forall₂_restores_refl _ _⟩⟩

theorem LoadedFrom.trans (h : LoadedFrom kv S S') (h' : LoadedFrom kv S' S'') :
    LoadedFrom kv S S'' := by
  refine ⟨h'.fabric.trans h.fabric, h'.globalFields.trans h.globalFields, h'.world.trans h.world,
    fun fid => ?_⟩
  obtain ⟨routes, hfield, hroutes⟩ := h.fields fid
  obtain ⟨routes', hfield', hroutes'⟩ := h'.fields fid
  rw [hfield] at hfield' hroutes'
  exact ⟨routes', hfield', forall₂_restores_trans hroutes hroutes'⟩

theorem snapshotLoadField_loaded (lock : ℕ → Bool) (S : Substrate W) (fid : ℕ) :
    LoadedFrom kv S (snapshotLoadField kv lock S fid) := by
  unfold snapshotLoadField
  dsimp only
  split
  · exact .refl S
  split
  · exact .refl S
  next blob hblob =>
    split
    · exact .refl S
    · have hkv : kv (snapKey (S.fields fid)) = some blob := (Option.filter_eq_some_iff.mp hblob).1
      refine ⟨rfl, rfl, rfl, fun fid' => ?_⟩
      by_cases hfid : fid' = fid
      · rw [hfid]
        refine ⟨_, Function.update_self .., ?_⟩
        exact restoreEntries_restores hkv _ (fun e => snapEntries_name) _
      · exact ⟨_, Function.update_of_ne hfid .., forall₂_restores_refl _ _⟩

theorem snapshotLoadSteps_safe (kv : CName → Option (List UInt8)) (attempts : List (ℕ × Bool))
    (S : Substrate W) :
    ∃ S', attempts.foldlM (snapshotLoadStep kv) ⟨S, false⟩ = some ⟨S', false⟩ ∧
      LoadedFrom kv S S' := by
  induction attempts generalizing S with
  | nil => exact ⟨S, rfl, .refl S⟩
  | cons attempt attempts ih =>
    obtain ⟨fid, free⟩ := attempt
    obtain ⟨S', hrun, hloaded⟩ := ih (snapshotLoadField kv (fun _ => free) S fid)
    refine ⟨S', ?_, (snapshotLoadField_loaded _ S fid).trans hloaded⟩
    rw [List.foldlM_cons, snapshotLoadStep_eq]
    exact hrun

/-- Whatever is stored, every read is inside its blob, the loom is free again, and the routes
named there are all that has changed. -/
theorem snapshot_load_safe (opened : Err) (kv : CName → Option (List UInt8))
    (attempts : List (ℕ × Bool)) (S : Substrate W) :
    ∃ e S', gooseSnapshotLoad opened kv attempts ⟨S, false⟩ = some (e, ⟨S', false⟩) ∧
      LoadedFrom kv S S' := by
  obtain ⟨S', hrun, hloaded⟩ := snapshotLoadSteps_safe kv attempts S
  unfold gooseSnapshotLoad
  split_ifs with hopened
  · exact ⟨opened, S, rfl, .refl S⟩
  · exact ⟨Err.ok, S', by rw [hrun]; rfl, hloaded⟩

end Frame

end ReflexOS.Goose
