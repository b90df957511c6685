import ReflexOS.GoosePulse

set_option autoImplicit false

/-!
# Learning

The Hebbian pass over the supervised fields reads the cells its routes have cached; only
a pulse looks them up again.
-/
namespace ReflexOS.Goose
open VmTernary LinearProbing Runs

def painName : CName := ascii "sys.ai.pain"
def rewardName : CName := ascii "sys.ai.reward"

def hebbianCommitThreshold : ℤ := 8
def hebbianCounterMax : ℤ := hebbianCommitThreshold * 2

/-- Co-activation under reward. -/
def rewardRoute (purposeMultiplier s k : ℤ) (r : Route) : Route :=
  if s = 0 ∨ k = 0 then r
  else
    let next := r.hebbianCounter + (if s = k then 1 else -1) * purposeMultiplier
    let next := if hebbianCounterMax < next then hebbianCounterMax else next
    let next := if next < -hebbianCounterMax then -hebbianCounterMax else next
    if hebbianCommitThreshold ≤ next then { r with learnedOrientation := 1, hebbianCounter := 0 }
    else if next ≤ -hebbianCommitThreshold then
      { r with learnedOrientation := -1, hebbianCounter := 0 }
    else { r with hebbianCounter := next }

/-- Decay under pain. -/
def decayRoute (r : Route) : Route :=
  if 0 < r.hebbianCounter then { r with hebbianCounter := r.hebbianCounter - 1 }
  else if r.hebbianCounter < 0 then { r with hebbianCounter := r.hebbianCounter + 1 }
  else r

/-- The fabric and the signals a pass works with. -/
structure Signals where
  fabric : Fabric
  reward : Option ℕ
  rewarded : Bool
  pained : Bool
  purposeMultiplier : ℤ

def stateIs (F : Fabric) (cell : Option ℕ) (state : ℤ) : Bool :=
  match cell with
  | none => false
  | some v => decide ((F.cells v).state = state)

/-- `paging` is whether the loom is free when a name has to be paged in. -/
def learnSignals (atlas : Atlas) (paging : Bool) (F : Fabric) : Signals :=
  let pain := resolveCell atlas paging F painName
  let reward := resolveCell atlas paging pain.2 rewardName
  let rewarded := stateIs reward.2 reward.1 1
  let pained := stateIs reward.2 pain.1 (-1)
  if !rewarded && !pained then ⟨reward.2, reward.1, false, false, 1⟩
  else
    let purpose := resolveCell atlas paging reward.2 seedPurpose
    let active := purpose.1.isSome && !stateIs purpose.2 purpose.1 0
    ⟨purpose.2, reward.1, rewarded, pained, if active then 2 else 1⟩

def learnRoute (sig : Signals) (r : Route) : Route :=
  match r.cachedSource, r.cachedSink with
  | some src, some snk =>
    if sig.rewarded then
      rewardRoute sig.purposeMultiplier (sig.fabric.cells src).state (sig.fabric.cells snk).state r
    else if sig.pained then decayRoute r
    else r
  | _, _ => r

def learnField (sig : Signals) (field : Field) : Field :=
  { field with routes := field.routes.map (learnRoute sig) }

variable {W : Type*}

/-- The pass over the fields, one after the other. -/
def learnFields (sig : Signals) (supervised : List ℕ) (S : Substrate W) : Substrate W :=
  supervised.foldl (fun S f => S.setField f (learnField sig (S.fields f))) S

/-- `goose_supervisor_learn_sync` over the supervised fields; `lock` is whether the loom was
free. -/
def learnSync (atlas : Atlas) (paging lock : Bool) (supervised : List ℕ) (S : Substrate W) :
    Substrate W :=
  let sig := learnSignals atlas paging S.fabric
  let S := { S with fabric := sig.fabric }
  if !sig.rewarded && !sig.pained || !lock then S
  else
    let S := learnFields sig supervised S
    match sig.reward with
    | some reward => if sig.rewarded then S.setState reward 0 else S
    | none => S

inductive LearnOp where
  | alloc (lock : Bool) (name : Option CName) (coord : Tryte9) (sys ret : Bool)
  | page (lock : Bool) (name : CName)
  /-- Any write to a cell that keeps its coordinate. -/
  | write (idx : ℕ) (cell : Cell)
  | pulse (lock : Bool) (now fid : ℕ)
  | learn (paging lock : Bool)

inductive LearnStep (atlas : Atlas) (B : Board W) (supervised : List ℕ) :
    Substrate W → LearnOp → Substrate W → Prop where
  | alloc (S : Substrate W) (lock : Bool) (name : Option CName) (coord : Tryte9)
      (sys ret : Bool) :
      LearnStep atlas B supervised S (.alloc lock name coord sys ret)
        { S with fabric := (fabricAllocInternal atlas lock S.fabric name coord sys ret).2 }
  | page (S : Substrate W) (lock : Bool) (name : CName) :
      LearnStep atlas B supervised S (.page lock name)
        { S with fabric := (resolveCell atlas lock S.fabric name).2 }
  | write (S : Substrate W) (idx : ℕ) (cell : Cell)
      (h : cell.coord = (S.fabric.cells idx).coord) :
      LearnStep atlas B supervised S (.write idx cell)
        { S with fabric := { S.fabric with cells := Function.update S.fabric.cells idx cell } }
  | pulse (S : Substrate W) (lock : Bool) (now fid : ℕ) :
      LearnStep atlas B supervised S (.pulse lock now fid) (processTransitions B lock now fid S).2
  | learn (S : Substrate W) (paging lock : Bool) :
      LearnStep atlas B supervised S (.learn paging lock) (learnSync atlas paging lock supervised S)

/-- The two cells carry the coordinates of the route. -/
def OwnCells (F : Fabric) (r : Route) (src snk : ℕ) : Prop :=
  (F.cells src).coord = r.sourceCoord ∧ (F.cells snk).coord = r.sinkCoord

/-- A rewarded pass reads no other cell as a source or sink, and what a pass changes in a
route comes from such cells or is decay. -/
def LearnsFromOwn (atlas : Atlas) (supervised : List ℕ) (S : Substrate W) (op : LearnOp)
    (S' : Substrate W) : Prop :=
  match op with
  | .learn paging lock =>
    let sig := learnSignals atlas paging S.fabric
    (lock = true → sig.rewarded = true → ∀ f ∈ supervised, ∀ r ∈ (S.fields f).routes,
      ∀ src snk, r.cachedSource = some src → r.cachedSink = some snk →
        OwnCells sig.fabric r src snk) ∧
    ∀ (f i : ℕ) (r : Route), (S.fields f).routes[i]? = some r →
      ∃ r', (S'.fields f).routes[i]? = some r' ∧
      (r' = r ∨ (sig.rewarded = false ∧ r' = decayRoute r) ∨
        ∃ src snk, OwnCells sig.fabric r src snk ∧
          r' = rewardRoute sig.purposeMultiplier (sig.fabric.cells src).state
            (sig.fabric.cells snk).state r)
  | _ => True

/-- The reward cell stands at 1. -/
def RewardSet (atlas : Atlas) (paging : Bool) (F : Fabric) : Prop :=
  stateIs F (resolveCell atlas paging F rewardName).1 1 = true

/-- The test the other reader of the route cache makes holds of every route that is read,
and the version counter does not wrap. -/
def Revalidated (atlas : Atlas) (supervised : List ℕ) (S : Substrate W) : LearnOp → Prop
  | .learn paging lock => lock = true → RewardSet atlas paging S.fabric → ∀ f ∈ supervised,
      ∀ r ∈ (S.fields f).routes, r.cachedSource ≠ none → r.cachedSink ≠ none →
        r.cachedVersion = S.fabric.version
  | .alloc _ _ _ _ _ | .page _ _ => S.fabric.version + 1 < 2 ^ 32
  | _ => True

/-- Where the cached version is the fabric's, the cached cells are the route's own. -/
def CacheSound (F : Fabric) (r : Route) : Prop :=
  (∀ v, r.cachedSource = some v → r.cachedVersion ≤ F.version ∧
    (r.cachedVersion = F.version → (F.cells v).coord = r.sourceCoord)) ∧
  ∀ v, r.cachedSink = some v → r.cachedVersion ≤ F.version ∧
    (r.cachedVersion = F.version → (F.cells v).coord = r.sinkCoord)

/-- What happens to the fabric between two looks at it: no cell changes its coordinate, or the
version grows. -/
def Traced (F F' : Fabric) : Prop :=
  (F'.version = F.version ∧ ∀ v, (F'.cells v).coord = (F.cells v).coord) ∨ F.version < F'.version

theorem CacheSound.traced {F F' : Fabric} {r : Route} (h : CacheSound F r) (ht : Traced F F') :
    CacheSound F' r := by
  rcases ht with ⟨hv, hc⟩ | hlt
  · unfold CacheSound
    rw [hv]
    simp only [hc]
    exact h
  · constructor
    · intro v hr
      have := (h.1 v hr).1
      exact ⟨by omega, fun he => by omega⟩
    · intro v hr
      have := (h.2 v hr).1
      exact ⟨by omega, fun he => by omega⟩

theorem SameButStates.traced {F F' : Fabric} (h : SameButStates F F') : Traced F F' :=
  .inl ⟨h.version, h.coord⟩

theorem getCellByCoord_coord {F : Fabric} {coord : Tryte9} {v : ℕ}
    (h : getCellByCoord F coord = some v) : (F.cells v).coord = coord := by
  unfold getCellByCoord at h
  split at h
  · have hm := (find_some (latticeHash_lt (by decide) coord) h).2
    rw [slotMatches, Bool.and_eq_true] at hm
    exact (coordEqual_iff _ _).mp hm.2
  · cases h

/-- A look-up finds cells at the coordinates of the route. -/
theorem CacheSound.refresh {F : Fabric} {r : Route} (h : CacheSound F r) :
    CacheSound F (refreshRoute F r) := by
  unfold refreshRoute
  split
  · exact ⟨fun v hv => ⟨le_refl _, fun _ => getCellByCoord_coord hv⟩,
      fun v hv => ⟨le_refl _, fun _ => getCellByCoord_coord hv⟩⟩
  · exact h

theorem forgetName_version (F : Fabric) (coord : Tryte9) :
    (forgetName F coord).version = F.version := by
  unfold forgetName
  split <;> rfl

theorem claimSlot_traced {F F' : Fabric} {idx : ℕ} (h : claimSlot F = some (idx, F')) :
    F'.version = F.version ∧ F'.cells = F.cells := by
  unfold claimSlot at h
  split at h
  · cases h
    exact ⟨rfl, rfl⟩
  · obtain ⟨t, -, ht⟩ := Option.map_eq_some_iff.mp h
    cases ht
    exact ⟨forgetName_version _ _, evict_cells _ _⟩

/-- An allocation that gets a slot for a new cell moves the version on. -/
theorem allocLocked_traced (atlas : Atlas) (lock : Bool) {F : Fabric} (name : Option CName)
    (coord : Tryte9) (sys ret : Bool) (hv : F.version + 1 < 2 ^ 32) :
    Traced F (allocLocked atlas lock F name coord sys ret).2 := by
  have hsame : Traced F F := .inl ⟨rfl, fun _ => rfl⟩
  have hpublish : ∀ (G : Fabric) (idx : ℕ), G.version = F.version →
      Traced F (publish G idx coord sys) := by
    intro G idx hG
    refine .inr ?_
    change F.version < (G.version + 1) % 2 ^ 32
    rw [hG, Nat.mod_eq_of_lt hv]
    exact Nat.lt_succ_self _
  unfold allocLocked
  split
  · exact hsame
  cases getCellByCoord F coord with
  | some e =>
    cases name with
    | none => exact hsame
    | some s => exact .inl ⟨rfl, fun _ => rfl⟩
  | none =>
    cases hc : claimSlot F with
    | none => exact hsame
    | some claimed =>
      obtain ⟨hv', hcells⟩ := claimSlot_traced hc
      cases name with
      | none => exact hpublish _ _ hv'
      | some s =>
        dsimp only
        split
        · exact .inl ⟨hv', fun v => by rw [hcells]⟩
        · exact hpublish _ _ hv'

theorem resolveCell_none {atlas : Atlas} {name : CName} (hn : atlas name = none) (lock : Bool)
    (F : Fabric) : (resolveCell atlas lock F name).2 = F := by
  unfold resolveCell
  rw [hn]
  split <;> rfl

theorem Traced.cells {F F' : Fabric} (h : Traced F F') (cells : ℕ → Cell)
    (hc : ∀ v, (cells v).coord = (F'.cells v).coord) : Traced F { F' with cells := cells } := by
  rcases h with ⟨hv, hold⟩ | hlt
  · exact .inl ⟨hv, fun v => (hc v).trans (hold v)⟩
  · exact .inr hlt

theorem resolveCell_traced (atlas : Atlas) (lock : Bool) {F : Fabric} (name : CName)
    (hv : F.version + 1 < 2 ^ 32) : Traced F (resolveCell atlas lock F name).2 := by
  unfold resolveCell
  split
  · exact .inl ⟨rfl, fun _ => rfl⟩
  · split
    · exact .inl ⟨rfl, fun _ => rfl⟩
    next e _ =>
      have halloc := allocLocked_traced atlas lock (some name) e.coord true false hv
      dsimp only
      split
      · exact halloc
      · exact halloc.cells _ (update_coord (setAgency_coord _ _ _))

/-- Learning changes the weight of a route and its counter. -/
def Reweighted (r r' : Route) : Prop :=
  ∃ l h, r' = { r with learnedOrientation := l, hebbianCounter := h }

theorem rewardRoute_reweighted (m s k : ℤ) (r : Route) : Reweighted r (rewardRoute m s k r) := by
  unfold rewardRoute
  dsimp only
  split_ifs <;> exact ⟨_, _, rfl⟩

theorem decayRoute_reweighted (r : Route) : Reweighted r (decayRoute r) := by
  unfold decayRoute
  split_ifs <;> exact ⟨_, _, rfl⟩

theorem learnRoute_reweighted (sig : Signals) (r : Route) : Reweighted r (learnRoute sig r) := by
  unfold learnRoute
  split
  · split_ifs
    · exact rewardRoute_reweighted _ _ _ _
    · exact decayRoute_reweighted _
    · exact ⟨_, _, rfl⟩
  · exact ⟨_, _, rfl⟩

theorem CacheSound.reweighted {F : Fabric} {r r' : Route} (h : CacheSound F r)
    (hr : Reweighted r r') : CacheSound F r' := by
  obtain ⟨_, _, rfl⟩ := hr
  exact h

def CachesSound (S : Substrate W) : Prop :=
  ∀ f, ∀ r ∈ (S.fields f).routes, CacheSound S.fabric r

theorem CachesSound.frame {S S' : Substrate W} (h : CachesSound S) (ht : Traced S.fabric S'.fabric)
    (hr : ∀ f, (S'.fields f).routes = (S.fields f).routes) : CachesSound S' := by
  intro f r hmem
  rw [hr f] at hmem
  exact (h f r hmem).traced ht

section Pulse

variable (B : Board W)

theorem CachesSound.routeTurn {S : Substrate W} (h : CachesSound S) (fid i : ℕ) :
    CachesSound (routeTurn B fid S i) := by
  cases hr : (S.fields fid).routes[i]? with
  | none => rwa [routeTurn_none B S hr]
  | some r =>
    have hturn := routeTurn_touches B S hr
    have hr' : CacheSound S.fabric (refreshRoute S.fabric r) :=
      (h fid r (List.mem_of_getElem? hr)).refresh
    have hstored : CachesSound (storeRoute fid i S (refreshRoute S.fabric r)) := by
      intro f q hq
      by_cases hf : f = fid
      · subst hf
        rw [storeRoute, setField_fields] at hq
        rcases List.mem_or_eq_of_mem_set hq with hq | rfl
        · exact h f q hq
        · exact hr'
      · rw [storeRoute, setField_other _ hf] at hq
        exact h f q hq
    exact hstored.frame hturn.fabric.traced fun f => by rw [hturn.fields]

theorem CachesSound.processTransitions {S : Substrate W} (h : CachesSound S) (lock : Bool)
    (now fid : ℕ) : CachesSound (processTransitions B lock now fid S).2 := by
  have hruns : ∀ n, CachesSound (atTurn B now fid S n) := by
    intro n
    induction n with
    | zero =>
      obtain ⟨hfab, hroutes⟩ := transitionsRun_frame B S now fid (S.fields fid).transitions.length
      exact h.frame hfab.traced hroutes
    | succ n ih => exact ih.routeTurn B fid n
  unfold Goose.processTransitions
  split
  · exact h
  · refine (hruns _).frame (.inl ⟨rfl, fun _ => rfl⟩) fun f => ?_
    by_cases hf : f = fid
    · subst hf
      dsimp only
      rw [setField_fields]
    · exact congrArg Field.routes (setField_other _ hf _)

end Pulse

section Learn

variable (sig : Signals) (supervised : List ℕ)

theorem learnFields_fabric (S : Substrate W) :
    (learnFields sig supervised S).fabric = S.fabric := by
  unfold learnFields
  induction supervised generalizing S with
  | nil => rfl
  | cons f fs ih => exact ih _

/-- A field registered once is passed over once. -/
theorem learnFields_fields (hnd : supervised.Nodup) (S : Substrate W) (f : ℕ) :
    (learnFields sig supervised S).fields f =
      if f ∈ supervised then learnField sig (S.fields f) else S.fields f := by
  unfold learnFields
  induction supervised generalizing S with
  | nil => rfl
  | cons g fs ih =>
    obtain ⟨hg, hnd⟩ := List.nodup_cons.mp hnd
    rw [List.foldl_cons, ih hnd]
    by_cases hf : f = g
    · subst hf
      rw [if_neg hg, if_pos List.mem_cons_self, setField_fields]
    · have hother : (S.setField g (learnField sig (S.fields g))).fields f = S.fields f :=
        setField_other S hf _
      simp only [hother, List.mem_cons, hf, false_or]

end Learn

section Run

variable {atlas : Atlas} (hpressure : atlas heapPressureName = none) (hpain : atlas painName = none)
  (hreward : atlas rewardName = none) (hpurpose : atlas seedPurpose = none)

include hpain hreward hpurpose in
theorem learnSignals_fabric (paging : Bool) (F : Fabric) :
    (learnSignals atlas paging F).fabric = F := by
  unfold learnSignals
  dsimp only
  rw [resolveCell_none hpain, resolveCell_none hreward, resolveCell_none hpurpose]
  split <;> rfl

include hpain hreward in
theorem rewardSet_of_rewarded {paging : Bool} {F : Fabric}
    (h : (learnSignals atlas paging F).rewarded = true) : RewardSet atlas paging F := by
  unfold learnSignals at h
  dsimp only at h
  rw [resolveCell_none hpain, resolveCell_none hreward] at h
  split at h
  · cases h
  · exact h

include hpain hreward hpurpose in
theorem learnSync_fields {supervised : List ℕ} (hnd : supervised.Nodup) (paging lock : Bool)
    (S : Substrate W) :
    SameButStates S.fabric (learnSync atlas paging lock supervised S).fabric ∧
      ∀ f, (learnSync atlas paging lock supervised S).fields f = S.fields f ∨
        lock = true ∧ f ∈ supervised ∧ (learnSync atlas paging lock supervised S).fields f =
          learnField (learnSignals atlas paging S.fabric) (S.fields f) := by
  have hsig := learnSignals_fabric hpain hreward hpurpose paging S.fabric
  unfold learnSync
  dsimp only
  rw [hsig]
  split
  · exact ⟨.refl _, fun f => .inl rfl⟩
  next hrun =>
    have hlock : lock = true := by
      cases lock
      · simp at hrun
      · rfl
    have hfab := learnFields_fabric (learnSignals atlas paging S.fabric) supervised S
    have hfields : ∀ f,
        (learnFields (learnSignals atlas paging S.fabric) supervised S).fields f = S.fields f ∨
          lock = true ∧ f ∈ supervised ∧
            (learnFields (learnSignals atlas paging S.fabric) supervised S).fields f =
              learnField (learnSignals atlas paging S.fabric) (S.fields f) := by
      intro f
      rw [learnFields_fields _ _ hnd]
      by_cases hf : f ∈ supervised
      · exact .inr ⟨hlock, hf, if_pos hf⟩
      · exact .inl (if_neg hf)
    have hsame : SameButStates S.fabric
        (learnFields (learnSignals atlas paging S.fabric) supervised S).fabric := by
      rw [hfab]
      exact .refl _
    split
    · split
      · exact ⟨hsame.trans (.setState _ _ _), hfields⟩
      · exact ⟨hsame, hfields⟩
    · exact ⟨hsame, hfields⟩

include hpain hreward hpurpose in
theorem CachesSound.learnSync {supervised : List ℕ} (hnd : supervised.Nodup) {S : Substrate W}
    (h : CachesSound S) (paging lock : Bool) :
    CachesSound (Goose.learnSync atlas paging lock supervised S) := by
  obtain ⟨hfab, hfields⟩ := learnSync_fields hpain hreward hpurpose hnd paging lock S
  intro f r hr
  rcases hfields f with hf | ⟨-, -, hf⟩
  · rw [hf] at hr
    exact (h f r hr).traced hfab.traced
  · rw [hf] at hr
    obtain ⟨q, hq, rfl⟩ := List.mem_map.mp hr
    exact ((h f q hq).reweighted (learnRoute_reweighted _ q)).traced hfab.traced

include hpain hreward hpurpose in
/-- A revalidated pass learns from the cells of its routes. -/
theorem CachesSound.learnsFromOwn {supervised : List ℕ} (hnd : supervised.Nodup)
    {S : Substrate W} (h : CachesSound S) {paging lock : Bool}
    (hok : Revalidated atlas supervised S (.learn paging lock)) :
    LearnsFromOwn atlas supervised S (.learn paging lock)
      (Goose.learnSync atlas paging lock supervised S) := by
  have hsig := learnSignals_fabric hpain hreward hpurpose paging S.fabric
  have hown : lock = true → (learnSignals atlas paging S.fabric).rewarded = true →
      ∀ f ∈ supervised, ∀ r ∈ (S.fields f).routes, ∀ src snk, r.cachedSource = some src →
        r.cachedSink = some snk →
          OwnCells (learnSignals atlas paging S.fabric).fabric r src snk := by
    intro hlock hrew f hf r hr src snk hsrc hsnk
    have hv := hok hlock (rewardSet_of_rewarded hpain hreward hrew) f hf r hr (by simp [hsrc])
      (by simp [hsnk])
    rw [hsig]
    exact ⟨((h f r hr).1 src hsrc).2 hv, ((h f r hr).2 snk hsnk).2 hv⟩
  refine ⟨hown, fun f i r hr => ?_⟩
  obtain ⟨-, hfields⟩ := learnSync_fields hpain hreward hpurpose hnd paging lock S
  rcases hfields f with hf | ⟨hlock, hmem, hf⟩
  · exact ⟨r, by rw [hf, hr], .inl rfl⟩
  · refine ⟨learnRoute (learnSignals atlas paging S.fabric) r, ?_, ?_⟩
    · rw [hf]
      simp [learnField, hr]
    · unfold learnRoute
      split
      next src snk hsrc hsnk =>
        split
        next hrew =>
          exact .inr (.inr ⟨src, snk,
            hown hlock hrew f hmem r (List.mem_of_getElem? hr) src snk hsrc hsnk, rfl⟩)
        next hrew =>
          split
          · exact .inr (.inl ⟨by simpa using hrew, rfl⟩)
          · exact .inl rfl
      · exact .inl rfl

include hpressure in
theorem fabricAllocInternal_traced (lock : Bool) {F : Fabric} (name : Option CName)
    (coord : Tryte9) (sys ret : Bool) (hv : F.version + 1 < 2 ^ 32) :
    Traced F (fabricAllocInternal atlas lock F name coord sys ret).2 := by
  by_cases hr : Refused atlas lock F sys
  · rw [fabricAllocInternal_refused hpressure hr]
    exact .inl ⟨rfl, fun _ => rfl⟩
  · rw [fabricAllocInternal_free hpressure hr]
    exact allocLocked_traced atlas true name coord sys ret hv

/-- The version has room for what the step may weave. -/
def VersionRoom (S : Substrate W) : LearnOp → Prop
  | .alloc _ _ _ _ _ | .page _ _ => S.fabric.version + 1 < 2 ^ 32
  | _ => True

include hpressure hpain hreward hpurpose in
theorem CachesSound.kept {B : Board W} {supervised : List ℕ} (hnd : supervised.Nodup)
    {S S' : Substrate W} {op : LearnOp} (h : CachesSound S) (hroom : VersionRoom S op)
    (hs : LearnStep atlas B supervised S op S') : CachesSound S' := by
  cases hs with
  | alloc lock name coord sys ret =>
    exact h.frame (fabricAllocInternal_traced hpressure lock name coord sys ret hroom) fun _ => rfl
  | page lock name => exact h.frame (resolveCell_traced atlas lock name hroom) fun _ => rfl
  | write idx cell hc => exact h.frame (.inl ⟨rfl, update_coord hc⟩) fun _ => rfl
  | pulse lock now fid => exact h.processTransitions B lock now fid
  | learn paging lock => exact h.learnSync hpain hreward hpurpose hnd paging lock

include hpressure hpain hreward hpurpose in
theorem CachesSound.step {B : Board W} {supervised : List ℕ} (hnd : supervised.Nodup)
    {S S' : Substrate W} {op : LearnOp} (h : CachesSound S)
    (hok : Revalidated atlas supervised S op) (hs : LearnStep atlas B supervised S op S') :
    CachesSound S' ∧ LearnsFromOwn atlas supervised S op S' := by
  have hroom : VersionRoom S op := by
    cases op <;> first | exact hok | trivial
  refine ⟨h.kept hpressure hpain hreward hpurpose hnd hroom hs, ?_⟩
  cases hs with
  | learn paging lock => exact h.learnsFromOwn hpain hreward hpurpose hnd hok
  | alloc | page | write | pulse => trivial

include hpressure hpain hreward hpurpose in
/-- From fields whose routes were never looked up on: where every rewarded pass finds its
routes revalidated, every pass learns from the routes' own cells. -/
theorem learns_from_own_cells (B : Board W) {supervised : List ℕ} (hnd : supervised.Nodup)
    {S₀ S : Substrate W} (hfresh : ∀ f, ∀ r ∈ (S₀.fields f).routes, r.cachedSource = none ∧
      r.cachedSink = none) {ops : List LearnOp}
    (hrun : Run (Guarded (Revalidated atlas supervised) (LearnStep atlas B supervised)) S₀ ops S) :
    Always (LearnStep atlas B supervised) (LearnsFromOwn atlas supervised) S₀ ops S := by
  have hsound : CachesSound S₀ := by
    intro f r hr
    obtain ⟨hsrc, hsnk⟩ := hfresh f r hr
    exact ⟨fun v hv => absurd (hsrc ▸ hv) (by simp), fun v hv => absurd (hsnk ▸ hv) (by simp)⟩
  clear hfresh
  induction hrun with
  | nil S => exact .nil S
  | cons hstep _ ih =>
    obtain ⟨hS, hprop⟩ := hsound.step hpressure hpain hreward hpurpose hnd hstep.1 hstep.2
    exact .cons hstep.2 hprop (ih hS)

end Run

/-- A cold boot with the reward cell seeded, and the reward given. -/
def rewardFabric : Fabric :=
  let F := (fabricEnsureCell emptyAtlas true coldFabric (some rewardName) (makeCoord 0 0 6) true).2
  { F with cells := Function.update F.cells 2 { F.cells 2 with type := .systemOnly, state := 1 } }

theorem rewardFabric_seeds : rewardFabric.cellCount = 3 ∧
    (∀ v < 3, (rewardFabric.cells v).coord 8 = 0 ∧ cellIsEvictable (rewardFabric.cells v) = false) ∧
    (rewardFabric.cells 2).coord = makeCoord 0 0 6 ∧ (rewardFabric.cells 2).state = 1 ∧
    gooniesResolve rewardFabric.registry rewardName = some (makeCoord 0 0 6) ∧
    rewardFabric.registry.count = 3 ∧ rewardFabric.registry.buckets = registryBuckets ∧
    ∀ g < 3, (rewardFabric.registry.entries g).coord 8 = 0 := by
  decide +kernel

theorem rewardFabric_sound : FabricSound rewardFabric := by
  have hcold : FabricSound coldFabric := fabricInit_sound emptyAtlas true false (.inl rfl)
  have hroom : ∀ F, NoVictimLost emptyAtlas coldFabric
      (.alloc true (some rewardName) (makeCoord 0 0 6) true true) F := by
    refine fun _ _ => .inr (.inl ?_)
    rw [coldFabric_seeds.1]
    decide
  have hgiven : ∀ F : Fabric, FabricSound F → FabricSound { F with
      cells := Function.update F.cells 2 { F.cells 2 with type := .systemOnly, state := 1 } } :=
    fun F hF => hF.write rfl
  have hstep : FabricStep emptyAtlas coldFabric
      (.alloc true (some rewardName) (makeCoord 0 0 6) true true) _ := .alloc _ _ _ _ _ _
  unfold rewardFabric fabricEnsureCell
  exact hgiven _ (hcold.step rfl hstep (hroom _))

/-- The seeds, then pages of the shadow namespace without a name. -/
structure Paged (F : Fabric) : Prop where
  sound : FabricSound F
  registry : F.registry = rewardFabric.registry
  seeded : ∀ v < 3, F.cells v = rewardFabric.cells v
  paged : ∀ v < F.cellCount, 3 ≤ v → F.cells v = freshCell (shadowCoord v) true

theorem Paged.free {F : Fabric} (h : Paged F) {w : ℕ} (hw : F.cellCount ≤ w) :
    CoordFree F (shadowCoord w) := by
  intro v hv hc
  by_cases h3 : v < 3
  · have h8 := (rewardFabric_seeds.2.1 v h3).1
    rw [← h.seeded v h3, hc] at h8
    simp [shadowCoord] at h8
  · rw [h.paged v hv (by omega)] at hc
    have := shadowCoord_inj hc
    omega

theorem fabricAllocInternal_page {F : Fabric} (h : FabricSound F) {coord : Tryte9}
    (hfree : CoordFree F coord) {idx : ℕ} {F' : Fabric} (hclaim : claimSlot F = some (idx, F')) :
    (fabricAllocInternal emptyAtlas true F none coord true false).2 =
      publish F' idx coord true := by
  simp only [fabricAllocInternal, if_true, allocLocked, Bool.not_true, Bool.false_eq_true, if_false,
    (h.getCell_none_iff _).mpr hfree, hclaim]

def staleSubstrate (fields : ℕ → Field) (F : Fabric) : Substrate Unit := ⟨F, fields, [0], ()⟩

theorem page_step {F : Fabric} (h : FabricSound F) {coord : Tryte9} (hfree : CoordFree F coord)
    {idx : ℕ} {F' : Fabric} (hclaim : claimSlot F = some (idx, F')) (fields : ℕ → Field) :
    LearnStep emptyAtlas idleBoard [0] (staleSubstrate fields F) (.alloc true none coord true false)
      (staleSubstrate fields (publish F' idx coord true)) := by
  rw [← fabricAllocInternal_page h hfree hclaim]
  exact .alloc _ _ _ _ _ _

theorem exists_paged {k : ℕ} (h3 : 3 ≤ k) (hk : k ≤ fabricMaxCells) :
    ∃ ops F, (∀ fields, Run (LearnStep emptyAtlas idleBoard [0])
      (staleSubstrate fields rewardFabric) ops (staleSubstrate fields F)) ∧
        Paged F ∧ F.cellCount = k := by
  induction k, h3 using Nat.le_induction with
  | base =>
    refine ⟨[], rewardFabric, fun _ => .nil _, ⟨rewardFabric_sound, rfl, fun _ _ => rfl, ?_⟩,
      rewardFabric_seeds.1⟩
    intro v hv h3
    rw [rewardFabric_seeds.1] at hv
    omega
  | succ k h3 ih =>
    obtain ⟨ops, F, hrun, hF, hcount⟩ := ih (by omega)
    have hroom : F.cellCount < fabricMaxCells := by omega
    have hfree := hF.free (le_refl F.cellCount)
    refine ⟨ops ++ [.alloc true none (shadowCoord F.cellCount) true false], _,
      fun fields => (hrun fields).append (.single (page_step hF.sound hfree (if_pos hroom) fields)),
      ⟨(hF.sound.append hroom).publish hfree F.registry hF.sound.capacity true, hF.registry,
      fun v hv => ?_, fun v hv hv3 => ?_⟩, congrArg Nat.succ hcount⟩
    · exact (Function.update_of_ne (by omega) _ _).trans (hF.seeded v hv)
    · by_cases hne : v = F.cellCount
      · subst hne
        exact Function.update_self _ _ _
      · have hlt : v < F.cellCount + 1 := hv
        exact (Function.update_of_ne hne _ _).trans (hF.paged v (by omega) hv3)

/-- A route from a cell to itself. -/
def loopRoute (coord : Tryte9) : Route :=
  { zeroRoute with sourceCoord := coord, sinkCoord := coord }

def loopField (coord : Tryte9) : Field := ⟨[], [loopRoute coord], [], 0⟩

/-- A pulse over a route that drives nothing looks the cell up and changes nothing else. -/
theorem Paged.pulse {F : Fabric} (h : Paged F) {t : ℕ} (h3 : 3 ≤ t) (ht : t < F.cellCount)
    {route : Route} (hsource : route.sourceCoord = shadowCoord t)
    (hsink : route.sinkCoord = shadowCoord t) (hnone : route.cachedSource = none)
    (hcoupling : route.coupling ≠ .software) :
    ∃ fields r, (processTransitions idleBoard true 0 0
        (staleSubstrate (fun _ => ⟨[], [route], [], 0⟩) F)).2 = staleSubstrate fields F ∧
      (fields 0).routes = [r] ∧ r.cachedSource = some t ∧ r.cachedSink = some t ∧
      r.sourceCoord = shadowCoord t ∧ r.sinkCoord = shadowCoord t ∧
      r.coupling = route.coupling := by
  have hcell := h.paged t ht h3
  have hfind : getCellByCoord F (shadowCoord t) = some t := by
    rw [h.sound.getCell_iff, hcell]
    exact ⟨ht, rfl⟩
  have htype : (F.cells t).type = .pinned := by rw [hcell]; rfl
  have hsample : ∀ fields, sampleSource idleBoard (staleSubstrate fields F) t =
      staleSubstrate fields F := by
    intro fields
    simp only [sampleSource, sampleHardware, sampleField, staleSubstrate, htype, reduceCtorEq,
      false_and, if_false]
  obtain ⟨r, hr⟩ : ∃ r, r = refreshRoute F route := ⟨_, rfl⟩
  have hlooked : r = { route with
      cachedSource := getCellByCoord F route.sourceCoord
      cachedSink := getCellByCoord F route.sinkCoord
      cachedControl := getCellByCoord F route.controlCoord
      cachedVersion := F.version } := by
    rw [hr, refreshRoute, hnone, Option.isNone_none, Bool.true_or, if_pos rfl]
  have hsrc : r.cachedSource = some t := by rw [hlooked, ← hfind, ← hsource]
  have hsnk : r.cachedSink = some t := by rw [hlooked, ← hfind, ← hsink]
  have hsame : r.coupling = route.coupling := by rw [hlooked]
  obtain ⟨stored, hstored⟩ : ∃ stored, stored = Function.update
      (fun _ : ℕ => (⟨[], [route], [], 0⟩ : Field)) 0 ⟨[], [r], [], 0⟩ := ⟨_, rfl⟩
  have hturn : routeTurn idleBoard 0 (staleSubstrate (fun _ => ⟨[], [route], [], 0⟩) F) 0 =
      staleSubstrate stored F := by
    have hroute : ((staleSubstrate (fun _ => ⟨[], [route], [], 0⟩) F).fields 0).routes[0]? =
        some route := rfl
    have hfab : (staleSubstrate (fun _ => ⟨[], [route], [], 0⟩) F).fabric = F := rfl
    have hstore : storeRoute 0 0 (staleSubstrate (fun _ => ⟨[], [route], [], 0⟩) F) r =
        staleSubstrate stored F := by
      rw [hstored]
      rfl
    simp only [routeTurn, hroute, hfab, ← hr, hstore, hsrc, hsnk, hsample]
    split
    next hsoftware => exact absurd (hsame.symm.trans hsoftware) hcoupling
    next => rfl
    next => rfl
  have hpulse : atTurn idleBoard 0 0 (staleSubstrate (fun _ => ⟨[], [route], [], 0⟩) F) 1 =
      staleSubstrate stored F := hturn
  have hrun : (processTransitions idleBoard true 0 0
      (staleSubstrate (fun _ => ⟨[], [route], [], 0⟩) F)).2 =
        (staleSubstrate stored F).setField 0 { stored 0 with
          totalPulses := ((stored 0).totalPulses + 1) % 2 ^ 64 } := by
    have hlen : ((staleSubstrate (fun _ => ⟨[], [route], [], 0⟩) F).fields 0).routes.length = 1 :=
      rfl
    simp only [processTransitions, Bool.not_true, Bool.false_eq_true, if_false, hlen, hpulse]
    rfl
  refine ⟨_, r, hrun, ?_, hsrc, hsnk, by rw [hlooked, hsource], by rw [hlooked, hsink], hsame⟩
  rw [Function.update_self, hstored, Function.update_self]

theorem Paged.nameless {F : Fabric} (h : Paged F) (t : ℕ) :
    registryFindCoord F.registry (shadowCoord t) = none := by
  cases hf : registryFindCoord F.registry (shadowCoord t) with
  | none => rfl
  | some g =>
    obtain ⟨-, -, -, -, -, hcount, hbuckets, hzero⟩ := rewardFabric_seeds
    rw [← h.registry] at hcount hbuckets hzero
    obtain ⟨hg, hc⟩ := registryFindCoord_some (by rw [hbuckets]; decide) hf
    have h8 := hzero g (hcount ▸ hg)
    rw [hc] at h8
    simp [shadowCoord] at h8

/-- Wherever the reward cell is left alone, the reward stands. -/
theorem rewarded_of_seeds {G : Fabric} (h : FabricSound G) (hcount : 2 < G.cellCount)
    (hreg : G.registry = rewardFabric.registry) (hcell : G.cells 2 = rewardFabric.cells 2) :
    (learnSignals emptyAtlas true G).rewarded = true := by
  obtain ⟨-, -, hcoord, hstate, hresolve, -⟩ := rewardFabric_seeds
  have hfind : getCellByCoord G (makeCoord 0 0 6) = some 2 := by
    rw [h.getCell_iff, hcell]
    exact ⟨hcount, hcoord⟩
  have hreward : resolveCell emptyAtlas true G rewardName = (some 2, G) := by
    unfold resolveCell
    rw [hreg, hresolve]
    exact congrArg (fun c => (c, G)) hfind
  have hgiven : stateIs G (some 2) 1 = true := by
    change decide ((G.cells 2).state = 1) = true
    rw [hcell]
    exact decide_eq_true hstate
  have hpain : (resolveCell emptyAtlas true G painName).2 = G := resolveCell_none rfl _ _
  unfold learnSignals
  dsimp only
  rw [hpain, hreward, hgiven]
  rfl

/-- A full fabric of pages, and the slot the next one takes. -/
structure Recycling (F : Fabric) (t : ℕ) : Prop where
  paged : Paged F
  full : F.cellCount = fabricMaxCells
  page : 3 ≤ t
  live : t < F.cellCount
  free : CoordFree F (shadowCoord fabricMaxCells)
  claim : claimSlot F = some (t, evict F t)

theorem exists_recycling : ∃ ops F t, (∀ fields, Run (LearnStep emptyAtlas idleBoard [0])
    (staleSubstrate fields rewardFabric) ops (staleSubstrate fields F)) ∧ Recycling F t := by
  obtain ⟨ops, F, hrun, hF, hcount⟩ := exists_paged (k := fabricMaxCells) (by decide) le_rfl
  have hev : cellIsEvictable (F.cells 3) = true := by
    rw [hF.paged 3 (by rw [hcount]; decide) le_rfl]
    decide
  obtain ⟨t, hvictim⟩ := exists_victim (by decide) hev
  obtain ⟨hlt, hevt⟩ := findVictim_lt hvictim
  have h3 : 3 ≤ t := by
    by_contra hsmall
    have hseed := (rewardFabric_seeds.2.1 t (by omega)).2
    rw [← hF.seeded t (by omega), hevt] at hseed
    cases hseed
  refine ⟨ops, F, t, hrun, hF, hcount, h3, by omega, hF.free (le_of_eq hcount), ?_⟩
  rw [claimSlot, if_neg (by omega), hvictim]
  rfl

/-- After an eviction a rewarded pass reads the new tenant as the route's source. -/
theorem learning_reads_recycled_cell :
    ¬ ∀ fields : ℕ → Field,
      (∀ f, ∀ r ∈ (fields f).routes, r.cachedSource = none ∧ r.cachedSink = none) →
      ∀ ops S, Run (LearnStep emptyAtlas idleBoard [0]) (staleSubstrate fields rewardFabric) ops S →
        ∀ op S', LearnStep emptyAtlas idleBoard [0] S op S' →
          LearnsFromOwn emptyAtlas [0] S op S' := by
  intro hall
  obtain ⟨ops, F, t, hrun, hF, hcount, h3, ht, hfree, hclaim⟩ := exists_recycling
  obtain ⟨fields, r, hpulse, hr, hsrc, hsnk, hcoord, -⟩ :=
    @Paged.pulse F hF t h3 ht (loopRoute (shadowCoord t)) rfl rfl rfl nofun
  have hmem : r ∈ (fields 0).routes := by
    rw [hr]
    exact List.mem_singleton.mpr rfl
  have hstart : ∀ f, ∀ r ∈ ((fun _ => loopField (shadowCoord t) : ℕ → Field) f).routes,
      r.cachedSource = none ∧ r.cachedSink = none := by
    intro f r hr
    rw [List.mem_singleton.mp hr]
    exact ⟨rfl, rfl⟩
  have hreach := ((hrun fun _ => loopField (shadowCoord t)).append
    (.single (.pulse _ true 0 0))).append
      (.single (hpulse ▸ page_step hF.sound hfree hclaim fields))
  have hown := (hall _ hstart _ _ hreach _ _ (.learn _ true true)).1 rfl
  have hcell := hF.paged t ht h3
  have hregistry : (publish (evict F t) t (shadowCoord fabricMaxCells) true).registry =
      rewardFabric.registry := by
    change (forgetName F (F.cells t).coord).registry = _
    rw [hcell, forgetName, show (freshCell (shadowCoord t) true).coord = shadowCoord t from rfl,
      hF.nameless]
    exact hF.registry
  have hsound : FabricSound (publish (evict F t) t (shadowCoord fabricMaxCells) true) :=
    (hF.sound.evict ht).publish hfree (evict F t).registry (evict_capacity F t ▸ hF.sound.capacity)
      true
  have hseed : (publish (evict F t) t (shadowCoord fabricMaxCells) true).cells 2 =
      rewardFabric.cells 2 := by
    rw [← hF.seeded 2 (by omega)]
    refine (Function.update_of_ne (by omega) _ _).trans ?_
    rw [evict_cells]
  have hcount' : 2 < (publish (evict F t) t (shadowCoord fabricMaxCells) true).cellCount := by
    change 2 < (evict F t).cellCount
    rw [evict_cellCount]
    omega
  have hrewarded := rewarded_of_seeds hsound hcount' hregistry hseed
  have hread := (hown hrewarded 0 (List.mem_singleton.mpr rfl) r hmem t t hsrc hsnk).1
  rw [hcoord, learnSignals_fabric rfl rfl rfl] at hread
  have hnew : shadowCoord fabricMaxCells = shadowCoord t := by
    rw [← hread]
    simp [staleSubstrate, publish, freshCell]
  have := shadowCoord_inj hnew
  omega

/-- A pulse, then a rewarded pass over the route it looked up. -/
theorem learns_from_own_cells_pulsed :
    let S := staleSubstrate (fun _ => loopField (makeCoord 0 0 6)) rewardFabric
    let S' := (processTransitions idleBoard true 0 0 S).2
    Always (LearnStep emptyAtlas idleBoard [0]) (LearnsFromOwn emptyAtlas [0]) S
      [.pulse true 0 0, .learn true true] (learnSync emptyAtlas true true [0] S') := by
  intro S S'
  have hfresh : ∀ f, ∀ r ∈ (S.fields f).routes, r.cachedSource = none ∧ r.cachedSink = none := by
    intro f r hr
    rw [List.mem_singleton.mp hr]
    exact ⟨rfl, rfl⟩
  have hversion : ∀ r ∈ (S'.fields 0).routes, r.cachedVersion = S'.fabric.version := by
    decide +kernel
  have hok : Revalidated emptyAtlas [0] S' (.learn true true) := by
    intro _ _ f hf r hr _ _
    rw [List.mem_singleton.mp hf] at hr
    exact hversion r hr
  exact learns_from_own_cells rfl rfl rfl rfl idleBoard (List.nodup_singleton 0) hfresh
    (.cons ⟨trivial, .pulse S true 0 0⟩ (.cons ⟨hok, .learn S' true true⟩ (.nil _)))

end ReflexOS.Goose
