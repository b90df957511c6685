import ReflexOS.GooseSnapshotSave
import ReflexOS.GooseLoomReads
import ReflexOS.LoomScriptRoundTrip

set_option autoImplicit false

/-!
# The memory of fragments

Compiled fragments are woven one after the other, learn, are saved and are loaded.
-/
namespace ReflexOS.Goose
open Loomc (compileLoom build defaultNameHash parse_ok)
open PythonText Runs VmTernary

def ledAgencyName : CName := ascii "led_agency"
def autonomyName : CName := ascii "sys.autonomy"

/-- The fields that services put under supervision. -/
def serviceNames : List CName := [ledAgencyName, autonomyName]

def loomFieldName (nameHash : ℕ) : CName := (ascii "ls_0x" ++ hex8 nameHash).take 15

def loomRouteName (nameHash i : ℕ) : CName :=
  (ascii "ls" ++ decimal (nameHash % 2 ^ 12) ++ ascii "_" ++ decimal i).take 15

/-- The values learned are of their ranges. -/
structure Learned (field : Field) : Prop where
  orientation : ∀ r ∈ field.routes, IsTrit r.learnedOrientation
  counter : ∀ r ∈ field.routes, |r.hebbianCounter| ≤ hebbianCounterMax

/-- The same routes, whatever they have learned in between. -/
structure Relearned (before after : Field) : Prop where
  name : after.name = before.name
  routes : after.routes.map Route.name = before.routes.map Route.name
  learned : Learned before → Learned after

variable {W : Type*}

inductive FragmentOp where
  | weave (source : Text) (calls : LoomCalls) (fid : ℕ)
  /-- A service registers its field. -/
  | register (fid : ℕ)
  | other

/-- Fragments are woven into memory that no supervised field stands in. -/
inductive FragmentStep (atlas : Atlas) (hmac : List UInt8 → List UInt8) :
    Tapestry W → FragmentOp → Tapestry W → Prop where
  | weave (T : Tapestry W) (source : Text) (calls : LoomCalls) (fid : ℕ) (buffer : List UInt8)
      (hcompiled : compileLoom source = .ok buffer) (hfield : calls.field = some fid)
      (hfresh : fid ∉ T.supervised)
      (hok : (weaveLoom atlas hmac calls T (some buffer)).1 = Err.ok) :
      FragmentStep atlas hmac T (.weave source calls fid)
        (weaveLoom atlas hmac calls T (some buffer)).2
  | register (T : Tapestry W) (fid : ℕ) (field : Field) (hservice : field.name ∈ serviceNames)
      (hnew : ∀ f ∈ T.supervised, (T.substrate.fields f).name ≠ field.name)
      (hfresh : fid ∉ T.supervised) :
      FragmentStep atlas hmac T (.register fid)
        { T with
          substrate := T.substrate.setField fid field
          supervised := supervisorRegisterField T.supervised fid }
  | other (T T' : Tapestry W) (hsupervised : T'.supervised = T.supervised)
      (hactive : T'.activeLoomFragments = T.activeLoomFragments)
      (hfields : ∀ f ∈ T.supervised, Relearned (T.substrate.fields f) (T'.substrate.fields f)) :
      FragmentStep atlas hmac T .other T'

def FragmentOp.woven : FragmentOp → Option ℕ
  | .weave _ _ fid => some fid
  | .register _ => none
  | .other => none

def FragmentOp.source : FragmentOp → Option Text
  | .weave source _ _ => some source
  | .register _ => none
  | .other => none

/-- The fields woven from compiled texts, in order. -/
def wovenFields (ops : List FragmentOp) : List ℕ := ops.filterMap FragmentOp.woven

/-- The routes of a field that a snapshot has room for. -/
def snapPart (valueMax : ℕ) (field : Field) : Field :=
  { field with routes := field.routes.take (snapCap valueMax) }

/-- A save and a load behind it give each of the fields what it had saved itself. -/
def MemoryRestored (T : Tapestry W) (woven : List ℕ) : Prop :=
  ∀ (K : Type) (B : KvBackend K) (P : K → Prop) (store : K) (lock lock' : ℕ → Bool)
    (S' : Substrate W), B.Sound (snapKeys T.supervised T.substrate) P → P store →
    (snapshotSave B lock T.supervised T.substrate store).1 = Err.ok →
    (∀ fid ∈ woven, SameRoutes (T.substrate.fields fid) (S'.fields fid)) →
    let loaded := snapshotLoadFrom B (snapshotSave B lock T.supervised T.substrate store).2 lock'
      T.supervised S'
    loaded.1 = Err.ok ∧ ∀ fid ∈ woven, lock' fid = true →
      RestoredFrom (snapPart B.valueMax (T.substrate.fields fid)) (S'.fields fid)
        (loaded.2.fields fid)

structure FragmentsKept (T : Tapestry W) (woven : List ℕ) : Prop where
  names : (woven.map fun fid => (T.substrate.fields fid).name).Nodup
  keys : (snapKeys woven T.substrate).Nodup
  restored : MemoryRestored T woven

/-- A field woven from a compiled text. -/
structure FragmentField (field : Field) : Prop where
  name : field.name = loomFieldName defaultNameHash.toNat
  routes : ∃ n ≤ maxRoutesPerFragment,
    field.routes.map Route.name = (List.range n).map (loomRouteName defaultNameHash.toNat)
  learned : Learned field

theorem FragmentField.relearned {before after : Field} (h : FragmentField before)
    (hre : Relearned before after) : FragmentField after :=
  ⟨hre.name.trans h.name, hre.routes ▸ h.routes, hre.learned h.learned⟩

section Woven

variable {atlas : Atlas} {hmac : List UInt8 → List UInt8} {calls : LoomCalls} {T : Tapestry W}
  {source : Text} {buffer : List UInt8} {fid : ℕ}

theorem fragmentField_woven (hcompiled : compileLoom source = .ok buffer)
    (hfield : calls.field = some fid)
    (hok : (weaveLoom atlas hmac calls T (some buffer)).1 = Err.ok) :
    FragmentField ((weaveLoom atlas hmac calls T (some buffer)).2.substrate.fields fid) := by
  obtain ⟨frag, hparse, hbuild⟩ := Fallible.of_bind_ok hcompiled
  cases hbuild
  obtain ⟨rfl, haccepted⟩ := parse_ok hparse
  obtain ⟨-, -, hwoven⟩ := weaveLoom_accepted hok hfield
  rw [hwoven]
  have hhead := haccepted.loomHeader defaultNameHash
  refine ⟨?_, ⟨(Loomc.weaves source).length, haccepted.routes, ?_⟩, ?_, ?_⟩
  · rw [loomField, hhead]
    rfl
  · rw [loomField, hhead, List.map_map]
    apply List.map_congr_left
    intro i hi
    rw [Function.comp_apply, loomRoute, hhead]
    rfl
  · intro r hr
    obtain ⟨i, -, rfl⟩ := List.mem_map.mp hr
    have hzero : IsTrit zeroRoute.learnedOrientation := by decide
    exact hzero
  · intro r hr
    obtain ⟨i, -, rfl⟩ := List.mem_map.mp hr
    have hzero : |zeroRoute.hebbianCounter| ≤ hebbianCounterMax := by decide
    exact hzero

theorem weaveLoom_frame (hok : (weaveLoom atlas hmac calls T (some buffer)).1 = Err.ok)
    (hfield : calls.field = some fid) :
    (weaveLoom atlas hmac calls T (some buffer)).2.supervised =
        supervisorRegisterField T.supervised fid ∧
      ∀ f ≠ fid, (weaveLoom atlas hmac calls T (some buffer)).2.substrate.fields f =
        T.substrate.fields f := by
  obtain ⟨-, -, fid', hfid, hwoven⟩ := weaveLoom_woven hok
  cases hfid.symm.trans hfield
  rw [hwoven]
  refine ⟨rfl, fun f hne => ?_⟩
  rw [fieldStartPulse_fields]
  exact Function.update_of_ne hne _ _

end Woven

/-- The supervised fields are those of the services, each once, and the woven ones. -/
structure Fragments (woven : List ℕ) (T : Tapestry W) : Prop where
  supervised : T.supervised.Nodup
  distinct : woven.Nodup
  count : T.activeLoomFragments = woven.length
  few : woven.length ≤ maxLoomFragments
  fragments : ∀ fid ∈ woven, fid ∈ T.supervised ∧ FragmentField (T.substrate.fields fid)
  services : ∀ f ∈ T.supervised, f ∉ woven → (T.substrate.fields f).name ∈ serviceNames
  once : ∀ f ∈ T.supervised, ∀ g ∈ T.supervised, f ∉ woven → g ∉ woven →
    (T.substrate.fields f).name = (T.substrate.fields g).name → f = g

section Supervision

variable {woven : List ℕ} {T T' : Tapestry W} {fid : ℕ}

/-- The table of supervised fields never fills. -/
theorem Fragments.length_lt (h : Fragments woven T) : T.supervised.length < maxSupervisedFields := by
  have hsplit := List.length_eq_length_filter_add (l := T.supervised) fun f => decide (f ∈ woven)
  have hwoven : (T.supervised.filter fun f => decide (f ∈ woven)).length ≤ woven.length := by
    apply (List.subperm_of_subset (h.supervised.filter _) _).length_le
    intro f hf
    exact of_decide_eq_true (List.mem_filter.mp hf).2
  have hservices : (T.supervised.filter fun f => !decide (f ∈ woven)).length ≤
      serviceNames.length := by
    rw [← List.length_map fun f => (T.substrate.fields f).name]
    have hout : ∀ f ∈ T.supervised.filter fun f => !decide (f ∈ woven),
        f ∈ T.supervised ∧ f ∉ woven := by
      intro f hf
      simpa using hf
    apply (List.subperm_of_subset _ _).length_le
    · apply (h.supervised.filter _).map_on
      intro f hf g hg hname
      exact h.once f (hout f hf).1 g (hout g hg).1 (hout f hf).2 (hout g hg).2 hname
    · intro name hname
      obtain ⟨f, hf, rfl⟩ := List.mem_map.mp hname
      exact h.services f (hout f hf).1 (hout f hf).2
  have hfew := h.few
  have hfragments : maxLoomFragments = 8 := rfl
  have htwo : serviceNames.length = 2 := rfl
  have hroom : maxSupervisedFields = 32 := rfl
  omega

theorem Fragments.register (h : Fragments woven T) (hfresh : fid ∉ T.supervised) :
    supervisorRegisterField T.supervised fid = T.supervised ++ [fid] := by
  rw [supervisorRegisterField, if_neg (Nat.not_le.mpr h.length_lt), if_neg hfresh]

theorem nodup_concat {α : Type*} {xs : List α} {x : α} (h : xs.Nodup) (hx : x ∉ xs) :
    (xs ++ [x]).Nodup := List.nodup_append_comm.mp (List.nodup_cons.mpr ⟨hx, h⟩)

variable {atlas : Atlas} {hmac : List UInt8 → List UInt8}

theorem Fragments.weave {source : Text} {calls : LoomCalls} {buffer : List UInt8}
    (h : Fragments woven T) (hcompiled : compileLoom source = .ok buffer)
    (hfield : calls.field = some fid) (hfresh : fid ∉ T.supervised)
    (hok : (weaveLoom atlas hmac calls T (some buffer)).1 = Err.ok) :
    Fragments (woven ++ [fid]) (weaveLoom atlas hmac calls T (some buffer)).2 := by
  have hnew : fid ∉ woven := fun hmem => hfresh (h.fragments fid hmem).1
  obtain ⟨hsupervised, hfields⟩ := weaveLoom_frame hok hfield
  obtain ⟨hheader, -, hcount⟩ := weaveLoom_ok hok
  have hactive := (loomHeaderError_ok hheader).1
  have hkept : ∀ f ∈ T.supervised, (weaveLoom atlas hmac calls T (some buffer)).2.substrate.fields f =
      T.substrate.fields f := fun f hf => hfields f fun heq => hfresh (heq ▸ hf)
  rw [h.register hfresh] at hsupervised
  have hold : ∀ f ∈ T.supervised ++ [fid], f ∉ woven ++ [fid] → f ∈ T.supervised ∧ f ∉ woven := by
    intro f hf hout
    rw [List.mem_append, List.mem_singleton] at hf hout
    exact ⟨hf.resolve_right fun heq => hout (.inr heq), fun hmem => hout (.inl hmem)⟩
  have hlen : (woven ++ [fid]).length = woven.length + 1 := List.length_append
  refine ⟨?_, nodup_concat h.distinct hnew, ?_, ?_, ?_, ?_, ?_⟩
  · rw [hsupervised]
    exact nodup_concat h.supervised hfresh
  · rw [hcount, h.count, hlen]
  · rw [hlen, ← h.count]
    exact hactive
  · intro f hf
    rw [hsupervised]
    rcases List.mem_append.mp hf with hf | hf
    · obtain ⟨hmem, hfragment⟩ := h.fragments f hf
      rw [hkept f hmem]
      exact ⟨List.mem_append_left _ hmem, hfragment⟩
    · rw [List.mem_singleton.mp hf]
      exact ⟨List.mem_append_right _ List.mem_cons_self, fragmentField_woven hcompiled hfield hok⟩
  · rw [hsupervised]
    intro f hf hout
    obtain ⟨hmem, hout⟩ := hold f hf hout
    rw [hkept f hmem]
    exact h.services f hmem hout
  · rw [hsupervised]
    intro f hf g hg hfout hgout hname
    obtain ⟨hf, hfout⟩ := hold f hf hfout
    obtain ⟨hg, hgout⟩ := hold g hg hgout
    rw [hkept f hf, hkept g hg] at hname
    exact h.once f hf g hg hfout hgout hname

theorem Fragments.service {field : Field} (h : Fragments woven T)
    (hservice : field.name ∈ serviceNames)
    (hnew : ∀ f ∈ T.supervised, (T.substrate.fields f).name ≠ field.name)
    (hfresh : fid ∉ T.supervised) :
    Fragments woven { T with
      substrate := T.substrate.setField fid field
      supervised := supervisorRegisterField T.supervised fid } := by
  have hself : (T.substrate.setField fid field).fields fid = field := setField_fields _ _ _
  have hkept : ∀ f ∈ T.supervised,
      (T.substrate.setField fid field).fields f = T.substrate.fields f := fun f hf =>
    setField_other _ (fun heq : f = fid => hfresh (heq ▸ hf)) _
  have hsplit : ∀ f ∈ T.supervised ++ [fid], f ∈ T.supervised ∨ f = fid := by
    intro f hf
    rwa [List.mem_append, List.mem_singleton] at hf
  rw [h.register hfresh]
  refine ⟨nodup_concat h.supervised hfresh, h.distinct, h.count, h.few, ?_, ?_, ?_⟩
  · intro f hf
    obtain ⟨hmem, hfragment⟩ := h.fragments f hf
    exact ⟨List.mem_append_left _ hmem, (hkept f hmem).symm ▸ hfragment⟩
  · intro f hf hout
    dsimp only at hf ⊢
    rcases hsplit f hf with hf | rfl
    · rw [hkept f hf]
      exact h.services f hf hout
    · rwa [hself]
  · intro f hf g hg hfout hgout hname
    dsimp only at hf hg hname
    rcases hsplit f hf with hold | rfl
    · rw [hkept f hold] at hname
      rcases hsplit g hg with hold' | rfl
      · rw [hkept g hold'] at hname
        exact h.once f hold g hold' hfout hgout hname
      · rw [hself] at hname
        exact absurd hname (hnew f hold)
    · rcases hsplit g hg with hold' | rfl
      · rw [hkept g hold', hself] at hname
        exact absurd hname.symm (hnew g hold')
      · rfl

theorem Fragments.other (h : Fragments woven T) (hsupervised : T'.supervised = T.supervised)
    (hactive : T'.activeLoomFragments = T.activeLoomFragments)
    (hfields : ∀ f ∈ T.supervised, Relearned (T.substrate.fields f) (T'.substrate.fields f)) :
    Fragments woven T' := by
  refine ⟨hsupervised ▸ h.supervised, h.distinct, hactive.trans h.count, h.few, ?_, ?_, ?_⟩
  · intro f hf
    obtain ⟨hmem, hfragment⟩ := h.fragments f hf
    exact ⟨hsupervised ▸ hmem, hfragment.relearned (hfields f hmem)⟩
  · rw [hsupervised]
    intro f hf hout
    rw [(hfields f hf).name]
    exact h.services f hf hout
  · rw [hsupervised]
    intro f hf g hg hfout hgout hname
    rw [(hfields f hf).name, (hfields g hg).name] at hname
    exact h.once f hf g hg hfout hgout hname

theorem Fragments.step {op : FragmentOp} (h : Fragments woven T)
    (hstep : FragmentStep atlas hmac T op T') : Fragments (woven ++ op.woven.toList) T' := by
  cases hstep with
  | weave source calls fid buffer hcompiled hfield hfresh hok =>
    exact h.weave hcompiled hfield hfresh hok
  | register fid field hservice hnew hfresh =>
    rw [FragmentOp.woven, Option.toList_none, List.append_nil]
    exact h.service hservice hnew hfresh
  | other _ hsupervised hactive hfields =>
    rw [FragmentOp.woven, Option.toList_none, List.append_nil]
    exact h.other hsupervised hactive hfields

theorem Fragments.run {ops : List FragmentOp} (h : Fragments woven T)
    (hrun : Run (FragmentStep atlas hmac) T ops T') : Fragments (woven ++ wovenFields ops) T' := by
  induction hrun generalizing woven with
  | nil _ => rwa [wovenFields, List.filterMap_nil, List.append_nil]
  | @cons _ _ _ op ops hstep _ ih =>
    have hrest := ih (h.step hstep)
    have hwoven : wovenFields (op :: ops) = op.woven.toList ++ wovenFields ops := by
      cases op <;> rfl
    rwa [hwoven, ← List.append_assoc]

end Supervision

def fragmentName : CName := loomFieldName defaultNameHash.toNat

def nameKey (name : CName) : CName := ascii "s_" ++ lowerHex8 (gooseNameHash name)

/-- The keys of the names that occur are no collision of the hash, and the names of the routes of
a fragment are different and fit. -/
theorem names_computed : (∀ a ∈ fragmentName :: serviceNames, ∀ b ∈ fragmentName :: serviceNames,
      nameKey a = nameKey b → a = b) ∧
    ((List.range maxRoutesPerFragment).map (loomRouteName defaultNameHash.toNat)).Nodup ∧
    ∀ name ∈ (List.range maxRoutesPerFragment).map (loomRouteName defaultNameHash.toNat),
      name.length ≤ snapNameSize ∧ (0 : UInt8) ∉ name := by
  decide +kernel

theorem nameKey_inj : ∀ a ∈ fragmentName :: serviceNames, ∀ b ∈ fragmentName :: serviceNames,
    nameKey a = nameKey b → a = b := names_computed.1

theorem loomRouteNames_nodup :
    ((List.range maxRoutesPerFragment).map (loomRouteName defaultNameHash.toNat)).Nodup :=
  names_computed.2.1

theorem loomRouteNames_fit : ∀ name ∈
    (List.range maxRoutesPerFragment).map (loomRouteName defaultNameHash.toNat),
    name.length ≤ snapNameSize ∧ (0 : UInt8) ∉ name := names_computed.2.2

section Memory

variable {woven : List ℕ} {T : Tapestry W} {valueMax : ℕ} {field : Field}

theorem FragmentField.names (h : FragmentField field) : (field.routes.map Route.name).Sublist
    ((List.range maxRoutesPerFragment).map (loomRouteName defaultNameHash.toNat)) := by
  obtain ⟨n, hn, hroutes⟩ := h.routes
  rw [hroutes]
  exact (List.range_sublist.mpr hn).map _

theorem FragmentField.snappable (h : FragmentField field) :
    Snappable valueMax (snapPart valueMax field) := by
  have hsub : (snapPart valueMax field).routes.Sublist field.routes := List.take_sublist _ _
  refine ⟨?_, ?_, List.length_take_le _ _, ?_, ?_⟩
  · exact ((hsub.map Route.name).trans h.names).nodup loomRouteNames_nodup
  · intro r hr
    apply loomRouteNames_fit
    exact h.names.mem (List.mem_map_of_mem (hsub.mem hr))
  · exact fun r hr => h.learned.orientation r (hsub.mem hr)
  · exact fun r hr => h.learned.counter r (hsub.mem hr)

theorem FragmentField.nameBytes_nodup {routes : List Route} (h : FragmentField field)
    (hperm : (routes.map Route.name).Perm (field.routes.map Route.name)) :
    (routes.map fun r => nameBytes r.name).Nodup := by
  apply Goose.nameBytes_nodup (h.names.nodup loomRouteNames_nodup) _ hperm
  exact fun name hname => loomRouteNames_fit name (h.names.mem hname)

theorem snapBytes_snapPart (valueMax : ℕ) (field : Field) :
    snapBytes valueMax (snapPart valueMax field) = snapBytes valueMax field := by
  have hcap := snapCap_le valueMax
  have hmax : snapMaxRoutes = 32 := rfl
  have hcount : policySnapEntryCount (snapPart valueMax field).routes.length (snapCap valueMax) =
      policySnapEntryCount field.routes.length (snapCap valueMax) := by
    have hlen : (snapPart valueMax field).routes.length =
        min (snapCap valueMax) field.routes.length := List.length_take
    unfold policySnapEntryCount
    rw [hlen]
    split <;> split <;> omega
  have htake : policySnapEntryCount field.routes.length (snapCap valueMax) ≤ snapCap valueMax := by
    unfold policySnapEntryCount
    split <;> omega
  unfold snapBytes
  dsimp only
  rw [hcount]
  change _ ++ (_ ++ (List.take _ (List.take _ field.routes)).flatMap _) = _
  rw [List.take_take, Nat.min_eq_left htake]

theorem FragmentField.snapshotLoad {kv : CName → Option (List UInt8)} {lock : ℕ → Bool}
    {supervised : List ℕ} {S : Substrate W} {fid : ℕ} (h : FragmentField field)
    (hsame : SameRoutes field (S.fields fid)) (hdistinct : supervised.Nodup)
    (hfid : fid ∈ supervised) (hlock : lock fid = true)
    (hkv : (S.fields fid).routes ≠ [] → kv (snapKey field) = some (snapBytes valueMax field)) :
    RestoredFrom (snapPart valueMax field) (S.fields fid)
      ((snapshotLoad kv lock supervised S).fields fid) := by
  apply h.snappable.snapshotLoad hdistinct hfid hlock hsame.name
  · exact h.nameBytes_nodup hsame.routes
  · rw [snapBytes_snapPart]
    exact hkv

/-- With one fragment no two fields share a key. -/
theorem Fragments.keys_nodup (h : Fragments woven T) (hone : woven.length ≤ 1) :
    (snapKeys T.supervised T.substrate).Nodup := by
  have hname : ∀ f ∈ T.supervised, (T.substrate.fields f).name ∈ fragmentName :: serviceNames ∧
      (f ∈ woven ↔ (T.substrate.fields f).name = fragmentName) := by
    intro f hf
    by_cases hmem : f ∈ woven
    · have hfragment := (h.fragments f hmem).2.name
      exact ⟨List.mem_cons.mpr (.inl hfragment), fun _ => hfragment, fun _ => hmem⟩
    · have hservice := h.services f hf hmem
      refine ⟨List.mem_cons_of_mem _ hservice, fun hin => absurd hin hmem, fun heq => ?_⟩
      rw [heq] at hservice
      exact absurd hservice (by decide)
  apply h.supervised.map_on
  intro f hf g hg hkey
  have heq := nameKey_inj _ (hname f hf).1 _ (hname g hg).1 hkey
  by_cases hmem : f ∈ woven
  · have hmem' : g ∈ woven := (hname g hg).2.mpr (heq ▸ (hname f hf).2.mp hmem)
    obtain ⟨x, hx⟩ := List.length_eq_one_iff.mp
      (Nat.le_antisymm hone (List.length_pos_of_mem hmem))
    rw [hx, List.mem_singleton] at hmem hmem'
    rw [hmem, hmem']
  · have hmem' : g ∉ woven := fun hin => hmem ((hname f hf).2.mpr (heq ▸ (hname g hg).2.mp hin))
    exact h.once f hf g hg hmem hmem' heq

theorem Fragments.restored (h : Fragments woven T) (hone : woven.length ≤ 1) :
    MemoryRestored T woven := by
  intro K B P store lock lock' S' hB hstore hsaved hsame
  have hkeys := h.keys_nodup hone
  obtain ⟨hopen, hstored⟩ := snapshotSave_stored hB hstore hkeys hsaved
  have hload : snapshotLoadFrom B (snapshotSave B lock T.supervised T.substrate store).2 lock'
      T.supervised S' = (Err.ok, snapshotLoad
        (B.getBlob (snapshotSave B lock T.supervised T.substrate store).2) lock' T.supervised S') :=
    if_neg (not_not.mpr hopen)
  rw [hload]
  refine ⟨rfl, fun fid hfid hlock => ?_⟩
  obtain ⟨hmem, hfragment⟩ := h.fragments fid hfid
  have hpresent := hsame fid hfid
  apply hfragment.snapshotLoad hpresent h.supervised hmem hlock
  intro hroutes
  apply hstored fid hmem
  intro hnone
  have hperm := hpresent.routes
  rw [hnone, List.map_nil, List.perm_nil, List.map_eq_nil_iff] at hperm
  exact hroutes hperm

end Memory

theorem fragments_boot {T : Tapestry W} (hboot : T.supervised = [] ∧ T.activeLoomFragments = 0) :
    Fragments [] T := by
  refine ⟨?_, List.nodup_nil, hboot.2, Nat.zero_le _, by simp, ?_, ?_⟩ <;> simp [hboot.1]

/-- Compiled fragments keep their own memory as long as there is one of them. -/
theorem fragments_kept_iff {atlas : Atlas} {hmac : List UInt8 → List UInt8} {T₀ T : Tapestry W}
    {ops : List FragmentOp} (hrun : Run (FragmentStep atlas hmac) T₀ ops T)
    (hboot : T₀.supervised = [] ∧ T₀.activeLoomFragments = 0) :
    FragmentsKept T (wovenFields ops) ↔ (wovenFields ops).length ≤ 1 := by
  have h : Fragments (wovenFields ops) T := (fragments_boot hboot).run hrun
  have hname : ∀ fid ∈ wovenFields ops, (T.substrate.fields fid).name = fragmentName :=
    fun fid hfid => (h.fragments fid hfid).2.name
  constructor
  · intro hkept
    have hnames : (wovenFields ops).map (fun fid => (T.substrate.fields fid).name) =
        List.replicate (wovenFields ops).length fragmentName := by
      rw [← List.map_const']
      exact List.map_congr_left hname
    exact List.nodup_replicate.mp (hnames ▸ hkept.names)
  · intro hone
    have hsingle : ∀ f : ℕ → CName, ((wovenFields ops).map f).Nodup := by
      intro f
      apply h.distinct.map_on
      intro a ha b hb _
      obtain ⟨x, hx⟩ := List.length_eq_one_iff.mp
        (Nat.le_antisymm hone (List.length_pos_of_mem ha))
      rw [hx, List.mem_singleton] at ha hb
      rw [ha, hb]
    exact ⟨hsingle _, hsingle _, h.restored hone⟩

def originText : Text := text "weave sys.origin -> agency.led.intent"
def ledText : Text := text "weave agency.led.intent -> sys.origin"

def compiled (source : Text) : List UInt8 := (compileLoom source).toOption.getD []

def callsAt (fid : ℕ) : LoomCalls := { freeCalls with field := some fid }

/-- A fragment between cells that are all there. -/
def knownWeave (T : Tapestry W) (fid : ℕ) (buffer : List UInt8) (cells : List (Option ℕ)) :
    Tapestry W :=
  { T with
    substrate := fieldStartPulse
      (T.substrate.setField fid (loomField buffer ⟨cells, T.substrate.fabric, T.mesh⟩)) fid
    supervised := supervisorRegisterField T.supervised fid
    activeLoomFragments := T.activeLoomFragments + 1 }

theorem weaveLoom_known {atlas : Atlas} {hmac : List UInt8 → List UInt8} {T : Tapestry W} {fid : ℕ}
    {buffer : List UInt8} {found : ℕ → Option ℕ}
    (hheader : loomHeaderError T.activeLoomFragments buffer = Err.ok)
    (hfound : ∀ i < (loomHeader buffer).cellCount, ∃ coord,
      gooniesResolve T.substrate.fabric.registry (loomCellName buffer i) = some coord ∧
        getCellByCoord T.substrate.fabric coord = found i)
    (hroutes : loomRoutesError buffer
      ((List.range (loomHeader buffer).cellCount).map found) = Err.ok) :
    weaveLoom atlas hmac (callsAt fid) T (some buffer) =
      (Err.ok, knownWeave T fid buffer ((List.range (loomHeader buffer).cellCount).map found)) := by
  unfold weaveLoom
  dsimp only
  rw [resolveNames_known hfound, hheader, if_neg (not_not.mpr rfl), hroutes,
    if_neg (not_not.mpr rfl)]
  rfl

def wovenOnce : Tapestry Unit :=
  knownWeave (loomTapestry coldFabric) 1 (compiled originText) [some 0, some 1]

def wovenTwice : Tapestry Unit := knownWeave wovenOnce 2 (compiled ledText) [some 1, some 0]

/-- What is woven, computed: the two texts, their cells and routes, and the seeds they name. -/
theorem weaves_computed :
    (compileLoom originText = .ok (compiled originText) ∧
      compileLoom ledText = .ok (compiled ledText)) ∧
    ((loomHeader (compiled originText)).cellCount = 2 ∧
      (loomHeader (compiled ledText)).cellCount = 2) ∧
    (loomCellName (compiled originText) 0 = seedOrigin ∧
      loomCellName (compiled originText) 1 = seedLedIntent) ∧
    (loomCellName (compiled ledText) 0 = seedLedIntent ∧
      loomCellName (compiled ledText) 1 = seedOrigin) ∧
    (loomHeaderError 0 (compiled originText) = Err.ok ∧
      loomHeaderError 1 (compiled ledText) = Err.ok) ∧
    (loomRoutesError (compiled originText) [some 0, some 1] = Err.ok ∧
      loomRoutesError (compiled ledText) [some 1, some 0] = Err.ok) ∧
    ((gooniesResolve coldFabric.registry seedOrigin).isSome = true ∧
      (gooniesResolve coldFabric.registry seedLedIntent).isSome = true) ∧
    (gooniesResolve coldFabric.registry seedOrigin).bind (getCellByCoord coldFabric) = some 0 ∧
      (gooniesResolve coldFabric.registry seedLedIntent).bind (getCellByCoord coldFabric) =
        some 1 := by
  decide +kernel

theorem seeds_found :
    (∃ coord, gooniesResolve coldFabric.registry seedOrigin = some coord ∧
      getCellByCoord coldFabric coord = some 0) ∧
    ∃ coord, gooniesResolve coldFabric.registry seedLedIntent = some coord ∧
      getCellByCoord coldFabric coord = some 1 := by
  obtain ⟨-, -, -, -, -, -, hregistered, hcells⟩ := weaves_computed
  obtain ⟨origin, horigin⟩ := Option.isSome_iff_exists.mp hregistered.1
  obtain ⟨led, hled⟩ := Option.isSome_iff_exists.mp hregistered.2
  rw [horigin, hled] at hcells
  exact ⟨⟨origin, horigin, hcells.1⟩, led, hled, hcells.2⟩

theorem wovenOnce_eq : weaveLoom emptyAtlas (fun _ => []) (callsAt 1) (loomTapestry coldFabric)
    (some (compiled originText)) = (Err.ok, wovenOnce) := by
  obtain ⟨-, hcount, hname, -, hheader, hroutes, -⟩ := weaves_computed
  have hknown := @weaveLoom_known Unit emptyAtlas (fun _ => []) (loomTapestry coldFabric) 1
    (compiled originText) some hheader.1
  rw [hcount.1] at hknown
  refine hknown (fun i hi => ?_) hroutes.1
  obtain rfl | rfl : i = 0 ∨ i = 1 := by omega
  · exact hname.1 ▸ seeds_found.1
  · exact hname.2 ▸ seeds_found.2

theorem wovenTwice_eq : weaveLoom emptyAtlas (fun _ => []) (callsAt 2) wovenOnce
    (some (compiled ledText)) = (Err.ok, wovenTwice) := by
  obtain ⟨-, hcount, -, hname, hheader, hroutes, -⟩ := weaves_computed
  have hknown := @weaveLoom_known Unit emptyAtlas (fun _ => []) wovenOnce 2
    (compiled ledText) (fun i => some (1 - i)) hheader.2
  rw [hcount.2] at hknown
  refine hknown (fun i hi => ?_) hroutes.2
  obtain rfl | rfl : i = 0 ∨ i = 1 := by omega
  · exact hname.1 ▸ seeds_found.2
  · exact hname.2 ▸ seeds_found.1

theorem wovenOnce_run : Run (FragmentStep emptyAtlas fun _ => []) (loomTapestry coldFabric)
    [.weave originText (callsAt 1) 1] wovenOnce := by
  have hstep := @FragmentStep.weave Unit emptyAtlas (fun _ => []) (loomTapestry coldFabric)
    originText (callsAt 1) 1 (compiled originText)
  rw [wovenOnce_eq] at hstep
  exact Run.single (hstep weaves_computed.1.1 rfl (by decide) rfl)

/-- One fragment. -/
theorem fragment_kept_once : FragmentsKept wovenOnce [1] :=
  (fragments_kept_iff wovenOnce_run ⟨rfl, rfl⟩).mpr (by decide)

/-- The route of the first fragment has learned something. -/
def relearned : Tapestry Unit :=
  { wovenTwice with
    substrate := wovenTwice.substrate.setField 1
      { wovenTwice.substrate.fields 1 with
        routes := (wovenTwice.substrate.fields 1).routes.map fun r =>
          { r with learnedOrientation := 1 } } }

def relearnedOps : List FragmentOp :=
  [.weave originText (callsAt 1) 1, .weave ledText (callsAt 2) 2, .other]

theorem relearned_run : Run (FragmentStep emptyAtlas fun _ => []) (loomTapestry coldFabric)
    relearnedOps relearned := by
  have hstep := @FragmentStep.weave Unit emptyAtlas (fun _ => []) wovenOnce ledText (callsAt 2) 2
    (compiled ledText)
  rw [wovenTwice_eq] at hstep
  have hrun := wovenOnce_run.append (Run.single (hstep weaves_computed.1.2 rfl (by decide) rfl))
  apply hrun.append (Run.single (FragmentStep.other wovenTwice relearned rfl rfl _))
  intro f _
  by_cases hone : f = 1
  · rw [hone]
    have hlearned : IsTrit 1 := by decide
    have hself : relearned.substrate.fields 1 = _ := setField_fields _ _ _
    rw [hself]
    refine ⟨rfl, ?_, fun h => ⟨fun r hr => ?_, fun r hr => ?_⟩⟩
    · rw [List.map_map]
      rfl
    · obtain ⟨r, -, rfl⟩ := List.mem_map.mp hr
      exact hlearned
    · obtain ⟨r₀, hr₀, rfl⟩ := List.mem_map.mp hr
      exact h.counter r₀ hr₀
  · have hkept : relearned.substrate.fields f = wovenTwice.substrate.fields f :=
      setField_other _ hone _
    rw [hkept]
    exact ⟨rfl, rfl, id⟩

/-- A store in memory. -/
def tableBackend : KvBackend (CName → Option (List UInt8)) where
  valueMax := 4000
  opened _ := Err.ok
  setBlob table key val := (Err.ok, Function.update table key (some val))
  getBlob table key := table key

theorem tableBackend_sound (keys : List CName) : tableBackend.Sound keys fun _ => True where
  stays _ _ _ _ := trivial
  opened _ _ _ _ := rfl
  same _ _ _ _ _ := Function.update_self _ _ _
  other _ _ _ _ _ hne := Function.update_of_ne hne _ _

theorem relearned_values :
    ((relearned.substrate.fields 1).routes.map fun r => (r.name, r.learnedOrientation)) =
        [(loomRouteName defaultNameHash.toNat 0, 1)] ∧
      ((relearned.substrate.fields 2).routes.map fun r => (r.name, r.learnedOrientation)) =
        [(loomRouteName defaultNameHash.toNat 0, 0)] := by
  decide +kernel

section Lost

variable {T : Tapestry W} {woven : List ℕ} {a b : ℕ} {r₁ r₂ : Route}

/-- The save of the second field stands under its key. -/
theorem tableBackend_saved (hsupervised : T.supervised = [a, b])
    (ha : (T.substrate.fields a).routes ≠ []) (hb : (T.substrate.fields b).routes ≠ []) :
    (snapshotSave tableBackend (fun _ => true) T.supervised T.substrate fun _ => none).1 = Err.ok ∧
      (snapshotSave tableBackend (fun _ => true) T.supervised T.substrate fun _ => none).2
        (snapKey (T.substrate.fields b)) = some (snapBytes 4000 (T.substrate.fields b)) := by
  rw [hsupervised]
  simp [snapshotSave, snapshotSaveField, tableBackend, ha, hb]

/-- Of two fragments that learned differently the first loads what the second saved. -/
theorem memory_lost (h : Fragments woven T) (hsupervised : T.supervised = [a, b]) (ha : a ∈ woven)
    (hb : b ∈ woven) (hr₁ : (T.substrate.fields a).routes = [r₁])
    (hr₂ : (T.substrate.fields b).routes = [r₂]) (hname : r₁.name = r₂.name)
    (hlearned : r₁.learnedOrientation ≠ r₂.learnedOrientation) : ¬ MemoryRestored T woven := by
  intro hrestored
  obtain ⟨hmem, hfirst⟩ := h.fragments a ha
  obtain ⟨-, hsecond⟩ := h.fragments b hb
  obtain ⟨hsaved, hstored⟩ := tableBackend_saved hsupervised (hr₁ ▸ List.cons_ne_nil _ _)
    (hr₂ ▸ List.cons_ne_nil _ _)
  have hown := (hrestored _ tableBackend (fun _ => True) (fun _ => none) (fun _ => true)
    (fun _ => true) T.substrate (tableBackend_sound _) trivial hsaved
    fun _ _ => ⟨rfl, List.Perm.refl _⟩).2 a ha rfl
  -- The blob under the key of the first field is that of the second.
  have hsame : SameRoutes (T.substrate.fields b) (T.substrate.fields a) := by
    refine ⟨hfirst.name.trans hsecond.name.symm, List.Perm.of_eq ?_⟩
    rw [hr₁, hr₂, List.map_singleton, List.map_singleton, hname]
  have hother := @FragmentField.snapshotLoad W 4000 _ _ (fun _ => true) T.supervised T.substrate a
    hsecond hsame h.supervised hmem rfl fun _ => hstored
  have horder := hother.order
  rw [hr₁] at horder
  obtain ⟨r, rest, hloaded, hr, -⟩ := List.map_eq_cons_iff.mp horder
  have hfit : ∀ {fid : ℕ} {r : Route}, (T.substrate.fields fid).routes = [r] →
      r ∈ (snapPart 4000 (T.substrate.fields fid)).routes := by
    intro fid r hroutes
    rw [snapPart, hroutes]
    exact List.mem_cons_self
  have hin := hloaded ▸ List.mem_cons_self
  apply hlearned
  rw [← (hown.values r₁ (hfit hr₁) r hin hr).1, (hother.values r₂ (hfit hr₂) r hin (hr.trans hname)).1]

end Lost

theorem singleRoute {routes : List Route} {name : CName} {z : ℤ}
    (h : (routes.map fun r => (r.name, r.learnedOrientation)) = [(name, z)]) :
    ∃ r, routes = [r] ∧ r.name = name ∧ r.learnedOrientation = z := by
  obtain ⟨r, rest, rfl, hr, hrest⟩ := List.map_eq_cons_iff.mp h
  cases List.map_eq_nil_iff.mp hrest
  exact ⟨r, rfl, congrArg Prod.fst hr, congrArg Prod.snd hr⟩

/-- Two texts, two fields of one name: a load gives the first what the second saved. -/
theorem fragments_share_memory :
    (¬ ∀ ops T, Run (FragmentStep emptyAtlas fun _ => []) (loomTapestry coldFabric) ops T →
      (ops.filterMap FragmentOp.source).Nodup → FragmentsKept T (wovenFields ops)) ∧
    ¬ MemoryRestored relearned (wovenFields relearnedOps) := by
  have hlost : ¬ MemoryRestored relearned (wovenFields relearnedOps) := by
    obtain ⟨r₁, hr₁, hname₁, hlearned₁⟩ := singleRoute relearned_values.1
    obtain ⟨r₂, hr₂, hname₂, hlearned₂⟩ := singleRoute relearned_values.2
    have hfragments := (fragments_boot ⟨rfl, rfl⟩).run relearned_run
    rw [List.nil_append] at hfragments
    apply memory_lost hfragments rfl (by decide) (by decide) hr₁ hr₂ (hname₁.trans hname₂.symm)
    rw [hlearned₁, hlearned₂]
    decide
  exact ⟨fun h => hlost (h relearnedOps relearned relearned_run (by decide)).restored, hlost⟩

end ReflexOS.Goose
