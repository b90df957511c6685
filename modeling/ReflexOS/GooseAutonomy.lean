import ReflexOS.GooseFragmentMemory
import ReflexOS.GooseMirror

set_option autoImplicit false

/-!
# Autonomous fabrication

The supervisor weaves a route from every need that is felt to a cell of its capability.
-/
namespace ReflexOS.Goose
open Runs VmTernary

def maxFabricatedRoutes : ℕ := 16

def nsPerception : CName := ascii "perception."

def trustedZones : List CName := [nsAgency, nsPerception, nsSys]

/-- The part of a name from its last dot on. -/
def lastSegment (name : CName) : Option CName :=
  if 46 ∈ name then some (46 :: (name.reverse.takeWhile fun c => decide (c ≠ 46)).reverse) else none

/-- The domain is a run of whole labels of the name, but not its first. -/
def nameContainsDomain (name domain : CName) : Bool :=
  (List.range (name.length + 1)).any fun p =>
    domain.isPrefixOf (name.drop p) && (decide (0 < p) && decide (name[p - 1]? = some 46)) &&
      match name[p + domain.length]? with
      | none => true
      | some c => decide (c = 46)

/-- What an entry gives the search: nothing, or the cell it ends with, if there is one. -/
def capabilityAt (F : Fabric) (accepts : CName → Bool) (suffix zone : CName) (i : ℕ) :
    Option (Option ℕ) :=
  let e := F.registry.entries i
  if zone.isPrefixOf e.name && accepts e.name && suffix.isSuffixOf e.name then
    let c := getCellByCoord F e.coord
    if c.any fun v => decide ((F.cells v).type = .need) then none else some c
  else none

def resolveCapability (F : Fabric) (accepts : CName → Bool) (suffix : CName) : Option ℕ :=
  (trustedZones.findSome? fun zone =>
    (List.range F.registry.count).findSome? (capabilityAt F accepts suffix zone)).join

def gooniesResolveByCapability (F : Fabric) (suffix : CName) : Option ℕ :=
  resolveCapability F (fun _ => true) suffix

def gooniesResolveByCapabilityInDomain (F : Fabric) (suffix domain : CName) : Option ℕ :=
  if domain = [] then none
  else resolveCapability F (fun name => nameContainsDomain name domain) suffix

/-- The cell that meets the need in a slot, if the need is felt and trusted. -/
def needSink (F : Fabric) (purpose : CName) (i : ℕ) : Option ℕ :=
  let need := F.cells i
  if need.type ≠ .need ∨ need.state = 0 then none
  else
    match gooniesResolveNameByCoord F.registry need.coord with
    | none => none
    | some name =>
      if !(nsSys.isPrefixOf name || nsAgency.isPrefixOf name) then none
      else
        match lastSegment name with
        | none => none
        | some suffix =>
          let cap := if purpose = [] then none
            else gooniesResolveByCapabilityInDomain F suffix purpose
          match cap with
          | some v => some v
          | none => gooniesResolveByCapability F suffix

def autoRouteName (i : ℕ) : CName := (ascii "auto_" ++ decimal i).take 15

def autoRoute (F : Fabric) (i cap : ℕ) : Route :=
  { zeroRoute with
    name := autoRouteName i
    sourceCoord := (F.cells i).coord
    sinkCoord := (F.cells cap).coord
    orientation := 1
    coupling := .software }

/-- A route between the two cells is there. -/
def routeExists (routes : List Route) (source sink : Tryte9) : Bool :=
  routes.any fun r => coordEqual r.sourceCoord source && coordEqual r.sinkCoord sink

/-- One slot of the pass. The source leaves the loop when the field is full; no later slot would
weave anything then. -/
def weaveNeed (F : Fabric) (purpose : CName) (lock : ℕ → Bool) (routes : List Route) (i : ℕ) :
    List Route :=
  match needSink F purpose i with
  | none => routes
  | some cap =>
    if !lock i then routes
    else if maxFabricatedRoutes ≤ routes.length then routes
    else if routeExists routes (F.cells i).coord (F.cells cap).coord then routes
    else routes ++ [autoRoute F i cap]

/-- The two allocations on the heap, and the loom at each slot. -/
structure WeaveCalls where
  field : Option ℕ
  routes : Bool
  lock : ℕ → Bool

structure Autonomy (W : Type*) where
  substrate : Substrate W
  supervised : List ℕ
  autonomyField : Option ℕ
  purposeName : CName

variable {W : Type*}

def weaveNeeds (calls : WeaveCalls) (A : Autonomy W) (fid : ℕ) : Autonomy W :=
  let F := A.substrate.fabric
  let field := A.substrate.fields fid
  let routes := (List.range F.cellCount).foldl (weaveNeed F A.purposeName calls.lock) field.routes
  { A with substrate := A.substrate.setField fid { field with routes := routes } }

def newAutonomyField : Field := ⟨autonomyName, [], [], 0⟩

def startAutonomy (A : Autonomy W) (fid : ℕ) : Autonomy W :=
  { A with
    substrate := fieldStartPulse (A.substrate.setField fid newAutonomyField) fid
    supervised := supervisorRegisterField A.supervised fid
    autonomyField := some fid }

/-- `goose_supervisor_weave_sync`. -/
def weaveSync (calls : WeaveCalls) (A : Autonomy W) : Err × Autonomy W :=
  match A.autonomyField with
  | some fid => (Err.ok, weaveNeeds calls A fid)
  | none =>
    match calls.field with
    | none => (Err.noMem, A)
    | some fid =>
      if !calls.routes then (Err.noMem, A)
      else (Err.ok, weaveNeeds calls (startAutonomy A fid) fid)

/-- What makes a route what it is, whatever it has learned. -/
def routeIdent (r : Route) : CName × Tryte9 × Tryte9 := (r.name, r.sourceCoord, r.sinkCoord)

inductive AutonomyOp where
  | purpose (name : CName)
  | fabric (op : FabricOp)
  | weaveSync (calls : WeaveCalls)
  | other

inductive AutonomyStep (atlas : Atlas) : Autonomy W → AutonomyOp → Autonomy W → Prop where
  | purpose (A : Autonomy W) (name : CName) :
      AutonomyStep atlas A (.purpose name) { A with purposeName := name.take 15 }
  | fabric (A : Autonomy W) {op : FabricOp} {F : Fabric}
      (h : FabricStep atlas A.substrate.fabric op F) :
      AutonomyStep atlas A (.fabric op) { A with substrate := { A.substrate with fabric := F } }
  | weaveSync (A : Autonomy W) (calls : WeaveCalls) :
      AutonomyStep atlas A (.weaveSync calls) (weaveSync calls A).2
  /-- Pulses, plasticity and loads leave the routes of the field what they are. -/
  | other (A : Autonomy W) (S : Substrate W) (supervised : List ℕ)
      (hfabric : S.fabric = A.substrate.fabric)
      (hfield : ∀ fid, A.autonomyField = some fid →
        Relearned (A.substrate.fields fid) (S.fields fid) ∧
          (S.fields fid).routes.map routeIdent = (A.substrate.fields fid).routes.map routeIdent) :
      AutonomyStep atlas A .other { A with substrate := S, supervised := supervised }

/-- A load gives each entry that was saved to the route it was taken from. -/
def EntriesReturned (saved : Field) (S : Substrate W) (fid : ℕ) : Prop :=
  ∀ (kv : CName → Option (List UInt8)) (lock : ℕ → Bool) (supervised : List ℕ) (valueMax : ℕ),
    supervised.Nodup → fid ∈ supervised → lock fid = true → saved.routes ≠ [] →
    kv (snapKey saved) = some (snapBytes valueMax saved) →
    ∀ (k : ℕ) (r : Route), (saved.routes.take (snapCap valueMax))[k]? = some r →
      ∃ r' : Route, ((snapshotLoad kv lock supervised S).fields fid).routes[k]? = some r' ∧
        routeIdent r' = routeIdent r ∧ r'.learnedOrientation = r.learnedOrientation ∧
        r'.hebbianCounter = r.hebbianCounter

/-- What the field of the autonomy keeps to, saved in one state and loaded in a later one. -/
structure AutonomyKept (A A' : Autonomy W) (fid : ℕ) : Prop where
  names : ((A.substrate.fields fid).routes.map Route.name).Nodup
  pairs : ((A.substrate.fields fid).routes.map fun r => (r.sourceCoord, r.sinkCoord)).Nodup
  returned : EntriesReturned (A.substrate.fields fid) A'.substrate fid

/-- No slot whose need is about to be woven has given its name to a route. -/
def SlotsFresh (A : Autonomy W) : AutonomyOp → Prop
  | .weaveSync calls => ∀ fid, A.autonomyField = some fid →
      let F := A.substrate.fabric
      let routes := (A.substrate.fields fid).routes
      routes.length < maxFabricatedRoutes →
      ∀ i < F.cellCount, calls.lock i = true → ∀ cap, needSink F A.purposeName i = some cap →
        routeExists routes (F.cells i).coord (F.cells cap).coord = false →
        autoRouteName i ∉ routes.map Route.name
  | _ => True

section Names

variable {i j : ℕ}

theorem decimal_eq (n : ℕ) :
    decimal n = (Nat.toDigits 10 n).map fun c => UInt8.ofNat c.toNat := by
  have hrepr : (toString n).toList = Nat.toDigits 10 n := Nat.toList_repr
  rw [decimal, ascii, hrepr]

theorem toDigits_small {n : ℕ} {c : Char} (hc : c ∈ Nat.toDigits 10 n) :
    48 ≤ c.toNat ∧ c.toNat ≤ 57 := by
  have hdigit := Nat.isDigit_of_mem_toDigits (by decide) (by decide) hc
  simpa [Char.isDigit, UInt32.le_iff_toNat_le] using hdigit

theorem decimal_inj {n m : ℕ} (h : decimal n = decimal m) : n = m := by
  have hback : ∀ n, (decimal n).map (fun b => Char.ofNat b.toNat) = Nat.toDigits 10 n := by
    intro n
    rw [decimal_eq, List.map_map]
    apply (List.map_congr_left _).trans (List.map_id _)
    intro c hc
    have hsmall := toDigits_small hc
    rw [Function.comp_apply, UInt8.toNat_ofNat', Nat.mod_eq_of_lt (by omega), Char.ofNat_toNat]
    rfl
  rw [← @Nat.ofDigitChars_ten_toDigits n, ← hback n, h, hback m, Nat.ofDigitChars_ten_toDigits]

theorem length_decimal {n : ℕ} (hn : n < 10 ^ 10) : (decimal n).length ≤ 10 := by
  rw [decimal_eq, List.length_map]
  exact (Nat.length_toDigits_le_iff (by decide) (by decide)).mpr hn

theorem autoRouteName_eq (hi : i < 10 ^ 10) : autoRouteName i = ascii "auto_" ++ decimal i := by
  apply List.take_of_length_le
  have hlen := length_decimal hi
  have hauto : (ascii "auto_").length = 5 := rfl
  rw [List.length_append]
  omega

theorem autoRouteName_inj (hi : i < 10 ^ 10) (hj : j < 10 ^ 10)
    (h : autoRouteName i = autoRouteName j) : i = j := by
  rw [autoRouteName_eq hi, autoRouteName_eq hj] at h
  exact decimal_inj (List.append_cancel_left h)

theorem autoRouteName_fits (i : ℕ) :
    (autoRouteName i).length ≤ snapNameSize ∧ (0 : UInt8) ∉ autoRouteName i := by
  constructor
  · exact (List.length_take_le _ _).trans (by decide)
  · intro hzero
    rcases List.mem_append.mp (List.mem_of_mem_take hzero) with hauto | hdigits
    · exact absurd hauto (by decide)
    · rw [decimal_eq] at hdigits
      obtain ⟨c, hc, hval⟩ := List.mem_map.mp hdigits
      have hsmall := toDigits_small hc
      have hnat := congrArg UInt8.toNat hval
      rw [UInt8.toNat_ofNat', Nat.mod_eq_of_lt (by omega)] at hnat
      change c.toNat = 0 at hnat
      omega

end Names

section Pass

variable {F : Fabric} {purpose : CName} {lock : ℕ → Bool} {before routes : List Route} {i k : ℕ}

theorem routeExists_iff {source sink : Tryte9} :
    routeExists routes source sink = true ↔
      (source, sink) ∈ routes.map fun r => (r.sourceCoord, r.sinkCoord) := by
  rw [routeExists, List.any_eq_true, List.mem_map]
  apply exists_congr
  intro r
  rw [Bool.and_eq_true, coordEqual_iff, coordEqual_iff, Prod.mk.injEq]

/-- The slot weaves a route, or nothing happens. -/
theorem weaveNeed_cases (F : Fabric) (purpose : CName) (lock : ℕ → Bool) (routes : List Route)
    (i : ℕ) : weaveNeed F purpose lock routes i = routes ∨
      ∃ cap, needSink F purpose i = some cap ∧ lock i = true ∧
        routes.length < maxFabricatedRoutes ∧
        routeExists routes (F.cells i).coord (F.cells cap).coord = false ∧
        weaveNeed F purpose lock routes i = routes ++ [autoRoute F i cap] := by
  unfold weaveNeed
  cases hsink : needSink F purpose i with
  | none => exact .inl rfl
  | some cap =>
    dsimp only
    cases hlock : lock i with
    | false => exact .inl rfl
    | true =>
      by_cases hfull : maxFabricatedRoutes ≤ routes.length
      · rw [if_pos hfull]
        exact .inl rfl
      · rw [if_neg hfull]
        cases hexists : routeExists routes (F.cells i).coord (F.cells cap).coord with
        | true => exact .inl rfl
        | false => exact .inr ⟨cap, rfl, rfl, Nat.not_le.mp hfull, hexists, rfl⟩

/-- What the first slots of a pass have woven onto the routes before it. -/
structure Passed (before : List Route) (k : ℕ) (routes : List Route) : Prop where
  grown : before <+: routes
  names : (routes.map Route.name).Nodup
  pairs : (routes.map fun r => (r.sourceCoord, r.sinkCoord)).Nodup
  named : ∀ r ∈ routes, r ∈ before ∨ ∃ j < k, r.name = autoRouteName j

theorem Passed.weaveNeed (h : Passed before k routes) (hk : k < 10 ^ 10)
    (hfresh : before.length < maxFabricatedRoutes → lock k = true → ∀ cap,
      needSink F purpose k = some cap →
      routeExists before (F.cells k).coord (F.cells cap).coord = false →
      autoRouteName k ∉ before.map Route.name) :
    Passed before (k + 1) (weaveNeed F purpose lock routes k) := by
  rcases weaveNeed_cases F purpose lock routes k with hsame | ⟨cap, hsink, hlock, hroom, hnew, hadd⟩
  · rw [hsame]
    refine ⟨h.grown, h.names, h.pairs, fun r hr => ?_⟩
    apply (h.named r hr).imp_right
    rintro ⟨j, hj, hname⟩
    exact ⟨j, Nat.lt_succ_of_lt hj, hname⟩
  · rw [hadd]
    have hpair : ((F.cells k).coord, (F.cells cap).coord) ∉
        routes.map fun r => (r.sourceCoord, r.sinkCoord) := by
      intro hmem
      rw [routeExists_iff.mpr hmem] at hnew
      cases hnew
    have hold : routeExists before (F.cells k).coord (F.cells cap).coord = false := by
      apply Bool.eq_false_iff.mpr
      intro hmem
      exact hpair ((h.grown.map _).subset (routeExists_iff.mp hmem))
    have hnotbefore := hfresh (h.grown.length_le.trans_lt hroom) hlock cap hsink hold
    have hname : autoRouteName k ∉ routes.map Route.name := by
      intro hmem
      obtain ⟨r, hr, hname⟩ := List.mem_map.mp hmem
      rcases h.named r hr with hin | ⟨j, hj, hj'⟩
      · exact hnotbefore (List.mem_map.mpr ⟨r, hin, hname⟩)
      · exact absurd (autoRouteName_inj (hj.trans hk) hk (hj'.symm.trans hname)) (Nat.ne_of_lt hj)
    refine ⟨h.grown.trans (List.prefix_append _ _), ?_, ?_, ?_⟩
    · rw [List.map_append]
      exact nodup_concat h.names hname
    · rw [List.map_append]
      exact nodup_concat h.pairs hpair
    · intro r hr
      rcases List.mem_append.mp hr with hr | hr
      · apply (h.named r hr).imp_right
        rintro ⟨j, hj, hname⟩
        exact ⟨j, Nat.lt_succ_of_lt hj, hname⟩
      · rw [List.mem_singleton.mp hr]
        exact .inr ⟨k, Nat.lt_succ_self k, rfl⟩

theorem passed_weaveNeeds {n : ℕ} (hn : n ≤ 10 ^ 10) (hnames : (before.map Route.name).Nodup)
    (hpairs : (before.map fun r => (r.sourceCoord, r.sinkCoord)).Nodup)
    (hfresh : before.length < maxFabricatedRoutes → ∀ i < n, lock i = true → ∀ cap,
      needSink F purpose i = some cap →
      routeExists before (F.cells i).coord (F.cells cap).coord = false →
      autoRouteName i ∉ before.map Route.name) :
    Passed before n ((List.range n).foldl (weaveNeed F purpose lock) before) := by
  induction n with
  | zero => exact ⟨List.prefix_rfl, hnames, hpairs, fun r hr => .inl hr⟩
  | succ n ih =>
    have hprev := ih (Nat.le_of_succ_le hn) fun hroom i hi => hfresh hroom i (Nat.lt_succ_of_lt hi)
    rw [List.range_succ, List.foldl_append]
    exact hprev.weaveNeed hn fun hroom => hfresh hroom n (Nat.lt_succ_self n)

end Pass

section Load

variable {kv : CName → Option (List UInt8)} {lock : ℕ → Bool} {S : Substrate W} {fid : ℕ}

theorem restoreEntry_idents (routes : List Route) (e : SnapEntry) :
    (restoreEntry routes e).map routeIdent = routes.map routeIdent := by
  unfold restoreEntry
  split
  · rfl
  · apply map_modify_of_eq
    exact fun _ => rfl

theorem foldl_restoreEntry_idents (entries : List SnapEntry) (routes : List Route) :
    (entries.foldl restoreEntry routes).map routeIdent = routes.map routeIdent := by
  induction entries generalizing routes with
  | nil => rfl
  | cons e entries ih =>
    rw [List.foldl_cons, ih, restoreEntry_idents]

/-- A load changes what the routes have learned and nothing else of them. -/
theorem snapshotLoad_idents (supervised : List ℕ) :
    ((snapshotLoad kv lock supervised S).fields fid).routes.map routeIdent =
      (S.fields fid).routes.map routeIdent := by
  induction supervised generalizing S with
  | nil => rfl
  | cons f fids ih =>
    rw [snapshotLoad, List.foldl_cons]
    apply (ih (S := snapshotLoadField kv lock S f)).trans
    by_cases hf : fid = f
    · subst hf
      unfold snapshotLoadField
      dsimp only
      split
      · rfl
      split
      · rfl
      split
      · rfl
      · rw [setField_fields]
        exact foldl_restoreEntry_idents _ _
    · rw [snapshotLoadField_other hf]

end Load

/-- Routes that the passes wove, each name and each pair once. -/
structure AutonomyRoutes (routes : List Route) : Prop where
  names : (routes.map Route.name).Nodup
  pairs : (routes.map fun r => (r.sourceCoord, r.sinkCoord)).Nodup
  named : ∀ name ∈ routes.map Route.name, ∃ i, name = autoRouteName i

/-- The field as it was before: the routes woven since are missing. -/
structure Earlier (saved present : Field) : Prop where
  name : present.name = saved.name
  routes : saved.routes.map routeIdent <+: present.routes.map routeIdent

section Returned

variable {saved present : Field}

theorem Earlier.refl (field : Field) : Earlier field field := ⟨rfl, List.prefix_rfl⟩

theorem Earlier.trans {later : Field} (h : Earlier saved present) (h' : Earlier present later) :
    Earlier saved later := ⟨h'.name.trans h.name, h.routes.trans h'.routes⟩

theorem names_of_idents (routes : List Route) :
    (routes.map routeIdent).map Prod.fst = routes.map Route.name := by
  rw [List.map_map]
  rfl

theorem pairs_of_idents (routes : List Route) :
    (routes.map routeIdent).map Prod.snd = routes.map fun r => (r.sourceCoord, r.sinkCoord) := by
  rw [List.map_map]
  rfl

theorem Earlier.names (h : Earlier saved present) :
    saved.routes.map Route.name <+: present.routes.map Route.name := by
  have hmap := h.routes.map Prod.fst
  rwa [names_of_idents, names_of_idents] at hmap

theorem AutonomyRoutes.fits (h : AutonomyRoutes present.routes) :
    ∀ name ∈ present.routes.map Route.name, name.length ≤ snapNameSize ∧ (0 : UInt8) ∉ name := by
  intro name hname
  obtain ⟨i, rfl⟩ := h.named name hname
  exact autoRouteName_fits i

theorem Earlier.snappable (h : Earlier saved present) (hlearned : Learned saved)
    (hroutes : AutonomyRoutes present.routes) (valueMax : ℕ) :
    Snappable valueMax (snapPart valueMax saved) := by
  have hsub : (snapPart valueMax saved).routes.Sublist saved.routes := List.take_sublist _ _
  refine ⟨?_, fun r hr => ?_, List.length_take_le _ _, fun r hr => ?_, fun r hr => ?_⟩
  · exact ((hsub.map Route.name).trans h.names.sublist).nodup hroutes.names
  · exact hroutes.fits _ (h.names.subset (List.mem_map_of_mem (hsub.mem hr)))
  · exact hlearned.orientation r (hsub.mem hr)
  · exact hlearned.counter r (hsub.mem hr)

/-- Entries are found again by distinct names, and the names stand where they stood. -/
theorem Earlier.returned {S : Substrate W} {fid : ℕ} (h : Earlier saved (S.fields fid))
    (hlearned : Learned saved) (hroutes : AutonomyRoutes (S.fields fid).routes) :
    EntriesReturned saved S fid := by
  intro kv lock supervised valueMax hdistinct hfid hlock _ hkv k r hr
  have hrestored := (h.snappable hlearned hroutes valueMax).snapshotLoad hdistinct hfid hlock
    h.name (nameBytes_nodup hroutes.names hroutes.fits (List.Perm.refl _)) fun _ =>
      hkv.trans (congrArg some (snapBytes_snapPart valueMax saved).symm)
  have hat : saved.routes[k]? = some r := by
    obtain ⟨hlt, hget⟩ := List.getElem?_eq_some_iff.mp hr
    rw [List.getElem_take] at hget
    exact List.getElem?_eq_some_iff.mpr ⟨_, hget⟩
  have hident : (((snapshotLoad kv lock supervised S).fields fid).routes.map routeIdent)[k]? =
      some (routeIdent r) := by
    rw [snapshotLoad_idents]
    obtain ⟨later, hlater⟩ := h.routes
    have hlt : k < (saved.routes.map routeIdent).length := by
      rw [List.length_map]
      exact (List.getElem?_eq_some_iff.mp hat).1
    rw [← hlater, List.getElem?_append_left hlt, List.getElem?_map, hat]
    rfl
  rw [List.getElem?_map, Option.map_eq_some_iff] at hident
  obtain ⟨r', hr', hsame⟩ := hident
  have hvalues := hrestored.values r (List.mem_of_getElem? hr) r' (List.mem_of_getElem? hr')
    (congrArg Prod.fst hsame)
  exact ⟨r', hr', hsame, hvalues⟩

end Returned

section Passes

variable {atlas : Atlas} {A A' : Autonomy W} {op : AutonomyOp} {fid : ℕ}

/-- What holds between the passes. -/
structure AutonomySound (A : Autonomy W) : Prop where
  tabled : Tabled A.substrate.fabric
  woven : ∀ fid, A.autonomyField = some fid →
    AutonomyRoutes (A.substrate.fields fid).routes ∧ Learned (A.substrate.fields fid)

theorem weaveNeeds_field (calls : WeaveCalls) (A : Autonomy W) (fid : ℕ) :
    (weaveNeeds calls A fid).substrate.fields fid =
      { A.substrate.fields fid with
        routes := (List.range A.substrate.fabric.cellCount).foldl
          (weaveNeed A.substrate.fabric A.purposeName calls.lock)
          (A.substrate.fields fid).routes } := by
  unfold weaveNeeds
  dsimp only
  rw [setField_fields]

/-- A pass weaves behind the routes that are there, and what it weaves has learned nothing. -/
theorem foldl_weaveNeed {F : Fabric} {purpose : CName} {lock : ℕ → Bool} (slots : List ℕ)
    (routes : List Route) : ∃ later, slots.foldl (weaveNeed F purpose lock) routes = routes ++ later ∧
      ∀ r ∈ later, r.learnedOrientation = 0 ∧ r.hebbianCounter = 0 := by
  induction slots generalizing routes with
  | nil => exact ⟨[], (List.append_nil routes).symm, by simp⟩
  | cons i slots ih =>
    rw [List.foldl_cons]
    obtain ⟨later, hlater, hzero⟩ := ih (weaveNeed F purpose lock routes i)
    rw [hlater]
    rcases weaveNeed_cases F purpose lock routes i with hsame | ⟨cap, -, -, -, -, hadd⟩
    · rw [hsame]
      exact ⟨later, rfl, hzero⟩
    · rw [hadd, List.append_assoc]
      exact ⟨_, rfl, List.forall_mem_cons.mpr ⟨⟨rfl, rfl⟩, hzero⟩⟩

theorem weaveNeeds_earlier (calls : WeaveCalls) (A : Autonomy W) (fid : ℕ) :
    Earlier (A.substrate.fields fid) ((weaveNeeds calls A fid).substrate.fields fid) := by
  obtain ⟨later, hlater, -⟩ := @foldl_weaveNeed A.substrate.fabric A.purposeName calls.lock
    (List.range A.substrate.fabric.cellCount) (A.substrate.fields fid).routes
  rw [weaveNeeds_field]
  refine ⟨rfl, ?_⟩
  dsimp only
  rw [hlater, List.map_append]
  exact List.prefix_append _ _

theorem weaveNeeds_learned (calls : WeaveCalls) (h : Learned (A.substrate.fields fid)) :
    Learned ((weaveNeeds calls A fid).substrate.fields fid) := by
  obtain ⟨later, hlater, hzero⟩ := @foldl_weaveNeed A.substrate.fabric A.purposeName calls.lock
    (List.range A.substrate.fabric.cellCount) (A.substrate.fields fid).routes
  have htrit : IsTrit 0 := by decide
  have hcounter : |(0 : ℤ)| ≤ hebbianCounterMax := by decide
  rw [weaveNeeds_field, hlater]
  constructor <;> intro r hr <;> rcases List.mem_append.mp hr with hr | hr
  · exact h.orientation r hr
  · exact (hzero r hr).1.symm ▸ htrit
  · exact h.counter r hr
  · exact (hzero r hr).2.symm ▸ hcounter

theorem weaveNeeds_routes {calls : WeaveCalls} (htabled : Tabled A.substrate.fabric)
    (hwoven : AutonomyRoutes (A.substrate.fields fid).routes)
    (hfresh : let F := A.substrate.fabric
      let routes := (A.substrate.fields fid).routes
      routes.length < maxFabricatedRoutes →
      ∀ i < F.cellCount, calls.lock i = true → ∀ cap, needSink F A.purposeName i = some cap →
        routeExists routes (F.cells i).coord (F.cells cap).coord = false →
        autoRouteName i ∉ routes.map Route.name) :
    AutonomyRoutes ((weaveNeeds calls A fid).substrate.fields fid).routes := by
  obtain ⟨S, htables⟩ := htabled
  have hcount : A.substrate.fabric.cellCount ≤ 10 ^ 10 := htables.count_le.trans (by decide)
  have hpassed := passed_weaveNeeds hcount hwoven.names hwoven.pairs hfresh
  rw [weaveNeeds_field]
  refine ⟨hpassed.names, hpassed.pairs, fun name hname => ?_⟩
  obtain ⟨r, hr, rfl⟩ := List.mem_map.mp hname
  rcases hpassed.named r hr with hin | ⟨j, -, hj⟩
  · exact hwoven.named _ (List.mem_map_of_mem hin)
  · exact ⟨j, hj⟩

theorem startAutonomy_field (A : Autonomy W) (fid : ℕ) :
    (startAutonomy A fid).substrate.fields fid = newAutonomyField := by
  unfold startAutonomy
  dsimp only
  rw [fieldStartPulse_fields, setField_fields]

theorem startAutonomy_fabric (A : Autonomy W) (fid : ℕ) :
    (startAutonomy A fid).substrate.fabric = A.substrate.fabric := fieldStartPulse_fabric _ _

theorem AutonomySound.weaveSync (h : AutonomySound A) (calls : WeaveCalls)
    (hfresh : SlotsFresh A (.weaveSync calls)) : AutonomySound (weaveSync calls A).2 := by
  unfold Goose.weaveSync
  split
  next fid hfid =>
    obtain ⟨hroutes, hlearned⟩ := h.woven fid hfid
    refine ⟨h.tabled, fun f hf => ?_⟩
    have heq : fid = f := Option.some.inj (hfid.symm.trans hf)
    subst heq
    exact ⟨weaveNeeds_routes h.tabled hroutes (hfresh fid hfid), weaveNeeds_learned calls hlearned⟩
  next hnone =>
    split
    · exact h
    next fid _ =>
      split
      · exact h
      · have htabled : Tabled (startAutonomy A fid).substrate.fabric := by
          rw [startAutonomy_fabric]
          exact h.tabled
        have hroutes : ((startAutonomy A fid).substrate.fields fid).routes = [] := by
          rw [startAutonomy_field]
          rfl
        refine ⟨htabled, fun f hf => ?_⟩
        have heq : fid = f := Option.some.inj hf
        subst heq
        constructor
        · apply weaveNeeds_routes htabled
          · rw [hroutes]
            exact ⟨List.nodup_nil, List.nodup_nil, fun name hname => absurd hname List.not_mem_nil⟩
          · dsimp only
            intro _ i _ _ cap _ _
            rw [hroutes]
            exact List.not_mem_nil
        · apply weaveNeeds_learned
          constructor <;> intro r hr <;> rw [hroutes] at hr <;> exact absurd hr List.not_mem_nil

theorem routes_of_idents {routes routes' : List Route}
    (h : routes'.map routeIdent = routes.map routeIdent) (hroutes : AutonomyRoutes routes) :
    AutonomyRoutes routes' := by
  have hnames : routes'.map Route.name = routes.map Route.name := by
    rw [← names_of_idents, h, names_of_idents]
  have hpairs : (routes'.map fun r => (r.sourceCoord, r.sinkCoord)) =
      routes.map fun r => (r.sourceCoord, r.sinkCoord) := by
    rw [← pairs_of_idents, h, pairs_of_idents]
  exact ⟨hnames ▸ hroutes.names, hpairs ▸ hroutes.pairs, hnames ▸ hroutes.named⟩

theorem AutonomySound.step (h : AutonomySound A) (hstep : AutonomyStep atlas A op A')
    (hfresh : SlotsFresh A op) : AutonomySound A' := by
  cases hstep with
  | purpose name => exact ⟨h.tabled, h.woven⟩
  | fabric hF => exact ⟨h.tabled.fabricStep hF, h.woven⟩
  | weaveSync calls => exact h.weaveSync calls hfresh
  | other S supervised hfabric hfield =>
    refine ⟨hfabric ▸ h.tabled, fun fid hfid => ?_⟩
    obtain ⟨hroutes, hlearned⟩ := h.woven fid hfid
    obtain ⟨hrelearned, hidents⟩ := hfield fid hfid
    exact ⟨routes_of_idents hidents hroutes, hrelearned.learned hlearned⟩

theorem AutonomyStep.earlier (hstep : AutonomyStep atlas A op A')
    (hfid : A.autonomyField = some fid) : A'.autonomyField = some fid ∧
      Earlier (A.substrate.fields fid) (A'.substrate.fields fid) := by
  cases hstep with
  | purpose name => exact ⟨hfid, .refl _⟩
  | fabric hF => exact ⟨hfid, .refl _⟩
  | weaveSync calls =>
    unfold Goose.weaveSync
    rw [hfid]
    exact ⟨hfid, weaveNeeds_earlier calls A fid⟩
  | other S supervised hfabric hfield =>
    obtain ⟨hrelearned, hidents⟩ := hfield fid hfid
    refine ⟨hfid, hrelearned.name, ?_⟩
    rw [hidents]

theorem earlier_of_run {ops : List AutonomyOp}
    (hrun : Run (Guarded SlotsFresh (AutonomyStep atlas)) A ops A')
    (hfid : A.autonomyField = some fid) : A'.autonomyField = some fid ∧
      Earlier (A.substrate.fields fid) (A'.substrate.fields fid) := by
  induction hrun with
  | nil _ => exact ⟨hfid, .refl _⟩
  | cons hstep _ ih =>
    obtain ⟨hfid', hfirst⟩ := hstep.2.earlier hfid
    obtain ⟨hlast, hrest⟩ := ih hfid'
    exact ⟨hlast, hfirst.trans hrest⟩

end Passes

/-- As long as no slot weaves twice, names and pairs stay distinct and a load returns each entry
to its route. -/
theorem autonomy_kept {atlas : Atlas} (purpose : Bool) (F₀ : Fabric) {A₀ A A' : Autonomy W}
    {ops later : List AutonomyOp} (hboot : A₀.substrate.fabric = fabricInit atlas true purpose F₀ ∧
      A₀.autonomyField = none)
    (hrun : Run (Guarded SlotsFresh (AutonomyStep atlas)) A₀ ops A)
    (hlater : Run (Guarded SlotsFresh (AutonomyStep atlas)) A later A') (fid : ℕ)
    (hfid : A.autonomyField = some fid) : AutonomyKept A A' fid := by
  have hinv : ∀ (B : Autonomy W) op B', AutonomySound B →
      Guarded SlotsFresh (AutonomyStep atlas) B op B' → AutonomySound B' :=
    fun _ _ _ h hstep => h.step hstep.2 hstep.1
  have hcold : AutonomySound A₀ := by
    refine ⟨hboot.1 ▸ fabricInit_tabled atlas true purpose (.inl rfl), fun f hf => ?_⟩
    rw [hboot.2] at hf
    cases hf
  have hsound : AutonomySound A := hrun.invariant AutonomySound hinv hcold
  have hsound' : AutonomySound A' := hlater.invariant AutonomySound hinv hsound
  obtain ⟨hroutes, hlearned⟩ := hsound.woven fid hfid
  obtain ⟨hfid', hearlier⟩ := earlier_of_run hlater hfid
  exact ⟨hroutes.names, hroutes.pairs, hearlier.returned hlearned (hsound'.woven fid hfid').1⟩

def bootAutonomy : Autonomy Unit :=
  ⟨⟨coldFabric, fun _ => ⟨[], [], [], 0⟩, [], ()⟩, [], none, []⟩

def cellOp (name : CName) (coord : Tryte9) : FabricOp := .alloc true (some name) coord true true

def withCell (F : Fabric) (name : CName) (coord : Tryte9) : Fabric :=
  (fabricAllocInternal emptyAtlas true F (some name) coord true true).2

def needCell : Cell := { freshCell (makeCoord 1 1 1) true with type := .need, state := 1 }

/-- A need in slot 2, and two cells of its capability. -/
def needFabric : Fabric :=
  let F := withCell (withCell (withCell coldFabric (ascii "sys.need.move") (makeCoord 1 1 1))
    (ascii "agency.arm.move") (makeCoord 1 1 2)) (ascii "agency.wheel.move") (makeCoord 1 1 3)
  { F with cells := Function.update F.cells 2 needCell }

def freeWeave : WeaveCalls := ⟨some 1, true, fun _ => true⟩

def needAutonomy : Autonomy Unit :=
  { bootAutonomy with substrate := { bootAutonomy.substrate with fabric := needFabric } }

def wovenAutonomy : Autonomy Unit := (weaveSync freeWeave needAutonomy).2

def needOps : List AutonomyOp :=
  [.fabric (cellOp (ascii "sys.need.move") (makeCoord 1 1 1)),
    .fabric (cellOp (ascii "agency.arm.move") (makeCoord 1 1 2)),
    .fabric (cellOp (ascii "agency.wheel.move") (makeCoord 1 1 3)),
    .fabric (.write 2 needCell), .weaveSync freeWeave]

theorem wovenAutonomy_run : Run (Guarded SlotsFresh (AutonomyStep emptyAtlas)) bootAutonomy needOps
    wovenAutonomy := by
  refine .cons ⟨trivial, .fabric _ (.alloc _ _ _ _ _ _)⟩ ?_
  refine .cons ⟨trivial, .fabric _ (.alloc _ _ _ _ _ _)⟩ ?_
  refine .cons ⟨trivial, .fabric _ (.alloc _ _ _ _ _ _)⟩ ?_
  refine .cons ⟨trivial, .fabric _ (.write _ 2 needCell ?_)⟩ ?_
  · decide +kernel
  · refine .cons ⟨fun fid hfid => ?_, .weaveSync _ freeWeave⟩ (.nil _)
    cases hfid

/-- One pass, and the purpose changes. -/
theorem autonomy_kept_once :
    AutonomyKept wovenAutonomy { wovenAutonomy with purposeName := (ascii "wheel").take 15 } 1 := by
  have hlater : Run (Guarded SlotsFresh (AutonomyStep emptyAtlas)) wovenAutonomy
      [.purpose (ascii "wheel")]
      { wovenAutonomy with purposeName := (ascii "wheel").take 15 } :=
    .single ⟨trivial, .purpose _ _⟩
  exact autonomy_kept false blankFabric ⟨rfl, rfl⟩ wovenAutonomy_run hlater 1 rfl

def wovenTwiceAutonomy : Autonomy Unit :=
  (weaveSync freeWeave { wovenAutonomy with purposeName := (ascii "wheel").take 15 }).2

/-- The purpose selects another cell for the need, and its slot names a second route. -/
theorem slot_weaves_twice :
    ¬ ∀ ops later (A A' : Autonomy Unit), Run (AutonomyStep emptyAtlas) bootAutonomy ops A →
      Run (AutonomyStep emptyAtlas) A later A' → ∀ fid, A.autonomyField = some fid →
      AutonomyKept A A' fid := by
  intro h
  have hrun : Run (AutonomyStep emptyAtlas) bootAutonomy
      (needOps ++ [.purpose (ascii "wheel"), .weaveSync freeWeave]) wovenTwiceAutonomy := by
    have hfirst : Run (AutonomyStep emptyAtlas) bootAutonomy needOps wovenAutonomy :=
      wovenAutonomy_run.mono (fun _ => True) (fun _ _ _ _ _ => trivial)
        (fun _ _ _ _ hstep => hstep.2) trivial
    apply hfirst.append
    exact .cons (.purpose wovenAutonomy (ascii "wheel")) (.single (.weaveSync _ freeWeave))
  have hnames := (h _ [] _ _ hrun (.nil _) 1 rfl).names
  have htwice : (wovenTwiceAutonomy.substrate.fields 1).routes.map Route.name =
      [autoRouteName 2, autoRouteName 2] := by
    decide +kernel
  rw [htwice] at hnames
  exact absurd hnames (by decide)

end ReflexOS.Goose
