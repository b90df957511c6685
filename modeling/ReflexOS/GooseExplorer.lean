import ReflexOS.GooseAtlas
import ReflexOS.GooseLearning
import ReflexOS.Runs

set_option autoImplicit false

/-!
# Curiosity

Once a second the supervisor reads some registers of the catalogue, from a cursor on, and reads
them again a second later. A register that has changed is paged into the loom.
-/
namespace ReflexOS.Goose
open VmTernary Runs

def exploreProbeSlots : ℕ := 8
def exploreProbeCount : ℕ := 4
def explorePainThreshold : ℕ := 5
def exploreMaxActive : ℕ := 30
def exploreMaxScan : ℕ := 2000

structure Probe where
  atlasIdx : ℕ
  lastValue : ℕ

structure Explorer where
  cursor : ℕ
  painTicks : ℕ
  total : ℕ
  purpose : CName
  probes : List Probe

def Explorer.init : Explorer := ⟨0, 0, 0, [], []⟩

/-- What a call finds: the purpose, the metabolic state, whether the loom is free for each
allocation, what a register holds after so many reads, and the fabric. -/
structure ExplorePulse where
  purpose : CName
  metabolic : ℤ
  lock : ℕ → Bool
  value : ℕ → ℕ → ℕ
  fabric : Fabric

/-- How far a call has come: the fabric, `s_explore_total`, the registers read with what they
held, and the entries paged in. -/
structure Exploring where
  fabric : Fabric
  total : ℕ
  reads : List (ℕ × ℕ)
  paged : List ℕ

variable (shadowMap : List ShadowNode) (p : ExplorePulse)

def readRegister (addr : ℕ) (S : Exploring) : ℕ × Exploring :=
  let now := p.value addr S.reads.length
  (now, { S with reads := S.reads ++ [(addr, now)] })

/-- At most `n` attempts. -/
def allocAttempts (name : CName) (coord : Tryte9) : ℕ → ℕ → Fabric → Option ℕ × Fabric
  | 0, _, F => (none, F)
  | n + 1, k, F =>
    match fabricAllocCell (shadowResolve shadowMap) (p.lock k) F (some name) coord true with
    | (some idx, F) => (some idx, F)
    | (none, F) => allocAttempts name coord n (k + 1) F

/-- Phase B for one probe; there is nothing behind the end of the catalogue. -/
def checkProbe (i : ℕ) (probe : Probe) (S : Exploring) : Exploring :=
  match shadowMap[probe.atlasIdx]? with
  | none => S
  | some entry =>
    if addrIsSanctuary entry.addr then S
    else
      let (now, S) := readRegister p entry.addr S
      if now = probe.lastValue then S
      else if (gooniesResolve S.fabric.registry entry.name).isSome then S
      else
        match allocAttempts shadowMap p entry.name entry.coord 5 (3 + 5 * i) S.fabric with
        | (none, F) => { S with fabric := F }
        | (some idx, F) =>
          { S with
            fabric := { F with
              cells := Function.update F.cells idx
                (setAgency (F.cells idx) entry.addr .hardwareIn).2 }
            total := S.total + 1
            paged := S.paged ++ [probe.atlasIdx] }

/-- Phase B, from probe `i` on. -/
def checkProbes (i : ℕ) : List Probe → Exploring → Exploring
  | [], S => S
  | probe :: probes, S =>
    if exploreMaxActive ≤ S.total then S
    else checkProbes (i + 1) probes (checkProbe shadowMap p i probe S)

/-- An entry Phase A may read. -/
def ShadowNode.probeable (entry : ShadowNode) : Bool :=
  decide (entry.type = .hardwareIn) && decide (entry.bitMask = 0xFFFFFFFF) &&
    !addrIsSanctuary entry.addr

/-- Phase A, with `n` entries left to examine. -/
def probeNew (slots : ℕ) : ℕ → ℕ → List Probe → Exploring → ℕ × List Probe × Exploring
  | 0, cursor, probes, S => (cursor, probes, S)
  | n + 1, cursor, probes, S =>
    if probes.length < slots then
      match shadowMap[cursor]? with
      | none => (cursor, probes, S)
      | some entry =>
        let next := if shadowMap.length ≤ cursor + 1 then 0 else cursor + 1
        if !entry.probeable || (gooniesResolve S.fabric.registry entry.name).isSome then
          probeNew slots n next probes S
        else
          let (now, S) := readRegister p entry.addr S
          probeNew slots n next
            (probes ++ [⟨if 0 < next then next - 1 else shadowMap.length - 1, now⟩]) S
    else (cursor, probes, S)

def exploreSlots (urgent : Bool) (metabolic : ℤ) : ℕ :=
  let slots := if urgent then exploreProbeCount * 2 else exploreProbeCount
  let slots := if metabolic = 0 then slots / 2 else slots
  min (max slots 1) exploreProbeSlots

/-- A new purpose starts over; the buffer has 15 characters of it. -/
def Explorer.notice (E : Explorer) (purpose : CName) : Explorer :=
  if E.purpose.take 15 ≠ purpose.take 15 then
    { E with purpose := purpose.take 15, painTicks := 0, total := 0, probes := [] }
  else E

/-- What a call leaves, and whether it has come to Phase A. -/
structure Exploration where
  explorer : Explorer
  fabric : Fabric
  reads : List (ℕ × ℕ)
  paged : List ℕ
  searched : Bool

/-- The state of a cell that may be missing. -/
def cellStateIs (F : Fabric) (cell : Option ℕ) (test : ℤ → Bool) : Bool :=
  cell.any fun idx => test (F.cells idx).state

def supervisorExplore (E : Explorer) : Exploration :=
  let atlas := shadowResolve shadowMap
  if p.purpose = [] then
    ⟨{ E with painTicks := 0, purpose := [], probes := [] }, p.fabric, [], [], false⟩
  else
    let E := E.notice p.purpose
    if exploreMaxActive ≤ E.total then ⟨E, p.fabric, [], [], false⟩
    else
      let heap := resolveCell atlas (p.lock 0) p.fabric heapPressureName
      if cellStateIs heap.2 heap.1 fun s => decide (s < 0) then ⟨E, heap.2, [], [], false⟩
      else
        let reward := resolveCell atlas (p.lock 1) heap.2 rewardName
        let pain := resolveCell atlas (p.lock 2) reward.2 painName
        let makingProgress := cellStateIs pain.2 reward.1 fun s => decide (0 < s)
        let inPain := cellStateIs pain.2 pain.1 fun s => decide (s = -1)
        let painTicks :=
          if makingProgress && !inPain then 0
          else if E.painTicks < 0xFFFF then E.painTicks + 1
          else E.painTicks
        let slots := exploreSlots (decide (explorePainThreshold ≤ painTicks)) p.metabolic
        let checked := checkProbes shadowMap p 0 E.probes ⟨pain.2, E.total, [], []⟩
        let found := probeNew shadowMap p slots (min shadowMap.length exploreMaxScan) E.cursor []
          checked
        ⟨⟨found.1, painTicks, checked.total, E.purpose, found.2.1⟩, found.2.2.fabric,
          found.2.2.reads, found.2.2.paged, true⟩

/-- A call: what it found, and what it left. -/
structure ExploreLabel where
  pulse : ExplorePulse
  result : Exploration

inductive ExploreStep : Explorer → ExploreLabel → Explorer → Prop where
  | explore (p : ExplorePulse) (E : Explorer) :
      ExploreStep E ⟨p, supervisorExplore shadowMap p E⟩ (supervisorExplore shadowMap p E).explorer

section Search

variable {shadowMap : List ShadowNode} {p : ExplorePulse}

/-- What Phase B does with these probes. -/
structure Checked (shadowMap : List ShadowNode) (probes : List Probe) (S S' : Exploring) : Prop where
  kept : S.reads <+: S'.reads
  total : S.total ≤ exploreMaxActive → S'.total ≤ exploreMaxActive
  reads : ∀ r ∈ S'.reads, r ∈ S.reads ∨ ∃ probe ∈ probes, ∃ entry : ShadowNode,
    shadowMap[probe.atlasIdx]? = some entry ∧ r.1 = entry.addr
  paged : ∀ i ∈ S'.paged, i ∈ S.paged ∨ ∃ probe ∈ probes, probe.atlasIdx = i ∧
    ∃ (entry : ShadowNode) (now : ℕ), shadowMap[i]? = some entry ∧
      (entry.addr, now) ∈ S'.reads ∧ now ≠ probe.lastValue

theorem checkProbe_checked {probe : Probe} {S : Exploring} (hroom : S.total < exploreMaxActive)
    (i : ℕ) : Checked shadowMap [probe] S (checkProbe shadowMap p i probe S) := by
  have hsame : Checked shadowMap [probe] S S :=
    ⟨List.prefix_refl _, id, fun _ hr => .inl hr, fun _ hi => .inl hi⟩
  unfold checkProbe
  split
  · exact hsame
  next entry hentry =>
    split
    · exact hsame
    next =>
      dsimp only [readRegister]
      have hreads : ∀ r ∈ S.reads ++ [(entry.addr, p.value entry.addr S.reads.length)],
          r ∈ S.reads ∨ ∃ probe' ∈ [probe], ∃ entry : ShadowNode,
            shadowMap[probe'.atlasIdx]? = some entry ∧ r.1 = entry.addr := fun r hr => by
        rcases List.mem_append.mp hr with hr | hr
        · exact .inl hr
        · exact .inr ⟨probe, List.mem_cons_self, entry, hentry, by rw [List.mem_singleton.mp hr]⟩
      have hread : ∀ F, Checked shadowMap [probe] S
          ⟨F, S.total, S.reads ++ [(entry.addr, p.value entry.addr S.reads.length)], S.paged⟩ :=
        fun F => ⟨List.prefix_append _ _, id, hreads, fun _ hi => .inl hi⟩
      by_cases hnow : p.value entry.addr S.reads.length = probe.lastValue
      · rw [if_pos hnow]
        exact hread S.fabric
      · rw [if_neg hnow]
        split
        · exact hread S.fabric
        · split
          · exact hread _
          · refine ⟨List.prefix_append _ _, fun _ => hroom, hreads, fun j hj => ?_⟩
            rcases List.mem_append.mp hj with hj | hj
            · exact .inl hj
            · obtain rfl := List.mem_singleton.mp hj
              exact .inr ⟨probe, List.mem_cons_self, rfl, entry, _, hentry,
                List.mem_append_right _ List.mem_cons_self, hnow⟩

theorem Checked.trans {probe : Probe} {probes : List Probe} {S T U : Exploring}
    (h : Checked shadowMap [probe] S T) (h' : Checked shadowMap probes T U) :
    Checked shadowMap (probe :: probes) S U := by
  refine ⟨h.kept.trans h'.kept, fun hs => h'.total (h.total hs), fun r hr => ?_, fun i hi => ?_⟩
  · rcases h'.reads r hr with hr | ⟨q, hq, hread⟩
    · apply (h.reads r hr).imp_right
      rintro ⟨q, hq, hread⟩
      exact ⟨q, List.mem_singleton.mp hq ▸ List.mem_cons_self, hread⟩
    · exact .inr ⟨q, List.mem_cons_of_mem _ hq, hread⟩
  · rcases h'.paged i hi with hi | ⟨q, hq, hpaged⟩
    · apply (h.paged i hi).imp_right
      rintro ⟨q, hq, hidx, entry, now, hentry, hread, hne⟩
      exact ⟨q, List.mem_singleton.mp hq ▸ List.mem_cons_self, hidx, entry, now, hentry,
        h'.kept.subset hread, hne⟩
    · exact .inr ⟨q, List.mem_cons_of_mem _ hq, hpaged⟩

theorem checkProbes_checked (p : ExplorePulse) (probes : List Probe) (i : ℕ) (S : Exploring) :
    Checked shadowMap probes S (checkProbes shadowMap p i probes S) := by
  have hsame : ∀ probes, Checked shadowMap probes S S := fun _ =>
    ⟨List.prefix_refl _, id, fun _ hr => .inl hr, fun _ hi => .inl hi⟩
  induction probes generalizing i S with
  | nil => exact hsame []
  | cons probe probes ih =>
    rw [checkProbes]
    split
    · exact hsame _
    next hroom =>
      refine (checkProbe_checked (Nat.lt_of_not_le hroom) i).trans (ih _ _ fun _ => ?_)
      exact ⟨List.prefix_refl _, id, fun _ hr => .inl hr, fun _ hi => .inl hi⟩

/-- What Phase A does from entry `c` on: it goes round the catalogue, examines `m` entries, and
reads those it may unless their names are resolved. -/
structure Searched (shadowMap : List ShadowNode) (c n slots : ℕ) (pending : List Probe)
    (S : Exploring) (found : ℕ × List Probe × Exploring) (m : ℕ) : Prop where
  fabric : found.2.2.fabric = S.fabric
  total : found.2.2.total = S.total
  paged : found.2.2.paged = S.paged
  kept : S.reads <+: found.2.2.reads
  cursor : found.1 = (c + m) % shadowMap.length
  advances : 0 < n → pending.length < slots → 0 < m
  room : pending.length ≤ slots → found.2.1.length ≤ slots
  reads : ∀ r ∈ found.2.2.reads, r ∈ S.reads ∨
    ∃ entry ∈ shadowMap, entry.probeable = true ∧ entry.addr = r.1
  probes : ∀ probe ∈ found.2.1, probe ∈ pending ∨ ∃ entry : ShadowNode,
    shadowMap[probe.atlasIdx]? = some entry ∧ entry.probeable = true ∧
      (entry.addr, probe.lastValue) ∈ found.2.2.reads
  examined : ∀ j < m, ∀ entry : ShadowNode,
    shadowMap[(c + j) % shadowMap.length]? = some entry → entry.probeable = true →
      (gooniesResolve S.fabric.registry entry.name).isSome ∨
        ∃ now, (entry.addr, now) ∈ found.2.2.reads

theorem next_cursor {N c : ℕ} (h : c < N) :
    (if N ≤ c + 1 then 0 else c + 1) = (c + 1) % N ∧ (c + 1) % N < N ∧
      (if 0 < (c + 1) % N then (c + 1) % N - 1 else N - 1) = c := by
  by_cases hlast : N ≤ c + 1
  · have hN : N = c + 1 := by omega
    subst hN
    simp
  · rw [if_neg hlast, Nat.mod_eq_of_lt (by omega)]
    simp
    omega

theorem probeNew_searched (p : ExplorePulse) (slots n cursor : ℕ) (probes : List Probe)
    (S : Exploring) (hn : n ≤ shadowMap.length)
    (hc : 0 < shadowMap.length → cursor < shadowMap.length) :
    ∃ m, Searched shadowMap cursor n slots probes S
      (probeNew shadowMap p slots n cursor probes S) m := by
  have hstay : ∀ cursor, (0 < shadowMap.length → cursor < shadowMap.length) → ∀ n probes S,
      (0 < n → ¬ probes.length < slots) →
        Searched shadowMap cursor n slots probes S (cursor, probes, S) 0 := by
    intro c hc n qs S hfull
    have hmod : c = (c + 0) % shadowMap.length := by
      rcases Nat.eq_zero_or_pos shadowMap.length with hzero | hpos
      · rw [hzero, Nat.mod_zero, Nat.add_zero]
      · exact (Nat.mod_eq_of_lt (hc hpos)).symm
    exact ⟨rfl, rfl, rfl, List.prefix_refl _, hmod, fun hn hroom => absurd hroom (hfull hn), id,
      fun _ hr => .inl hr, fun _ hq => .inl hq, fun j hj => absurd hj (Nat.not_lt_zero j)⟩
  induction n generalizing cursor probes S with
  | zero => exact ⟨0, hstay cursor hc 0 probes S fun h => absurd h (Nat.lt_irrefl 0)⟩
  | succ n ih =>
    have hcursor : cursor < shadowMap.length := hc (by omega)
    obtain ⟨hnext, hlt, hprev⟩ := next_cursor hcursor
    have hentry := List.getElem?_eq_getElem hcursor
    have hplace : ∀ j, (cursor + (j + 1)) % shadowMap.length =
        ((cursor + 1) % shadowMap.length + j) % shadowMap.length := fun j => by
      rw [Nat.mod_add_mod]
      congr 1
      omega
    rw [probeNew]
    by_cases hroom : probes.length < slots
    · rw [if_pos hroom, hentry]
      dsimp only
      rw [hnext]
      split
      next hskip =>
        obtain ⟨m, h⟩ := ih _ probes S (by omega) fun _ => hlt
        refine ⟨m + 1, h.fabric, h.total, h.paged, h.kept, ?_, fun _ _ => Nat.succ_pos m, h.room,
          h.reads, h.probes, fun j hj entry hget hprobe => ?_⟩
        · exact h.cursor.trans (hplace m).symm
        · cases j with
          | zero =>
            rw [Nat.add_zero, Nat.mod_eq_of_lt hcursor, hentry] at hget
            obtain rfl := Option.some.inj hget
            rw [hprobe] at hskip
            exact .inl (by simpa using hskip)
          | succ j =>
            rw [hplace] at hget
            exact h.examined j (Nat.lt_of_succ_lt_succ hj) entry hget hprobe
      next hread =>
        simp only [readRegister, hprev]
        have hboth : shadowMap[cursor].probeable = true ∧
            (gooniesResolve S.fabric.registry shadowMap[cursor].name).isSome = false := by
          simpa using hread
        obtain ⟨m, h⟩ := ih _
          (probes ++ [⟨cursor, p.value shadowMap[cursor].addr S.reads.length⟩])
          { S with reads :=
            S.reads ++ [(shadowMap[cursor].addr, p.value shadowMap[cursor].addr S.reads.length)] }
          (by omega) fun _ => hlt
        have hthere : (shadowMap[cursor].addr, p.value shadowMap[cursor].addr S.reads.length) ∈
            S.reads ++ [(shadowMap[cursor].addr, p.value shadowMap[cursor].addr S.reads.length)] :=
          List.mem_append_right _ List.mem_cons_self
        refine ⟨m + 1, h.fabric, h.total, h.paged, (List.prefix_append _ _).trans h.kept, ?_,
          fun _ _ => Nat.succ_pos m, fun _ => h.room ?_, fun r hr => ?_, fun q hq => ?_,
          fun j hj entry hget hprobe => ?_⟩
        · exact h.cursor.trans (hplace m).symm
        · rw [List.length_append]
          exact hroom
        · rcases h.reads r hr with hr | hr
          · rcases List.mem_append.mp hr with hr | hr
            · exact .inl hr
            · exact .inr ⟨_, List.getElem_mem hcursor, hboth.1, by rw [List.mem_singleton.mp hr]⟩
          · exact .inr hr
        · rcases h.probes q hq with hq | hq
          · rcases List.mem_append.mp hq with hq | hq
            · exact .inl hq
            · obtain rfl := List.mem_singleton.mp hq
              exact .inr ⟨_, hentry, hboth.1, h.kept.subset hthere⟩
          · exact .inr hq
        · cases j with
          | zero =>
            rw [Nat.add_zero, Nat.mod_eq_of_lt hcursor, hentry] at hget
            obtain rfl := Option.some.inj hget
            exact .inr ⟨_, h.kept.subset hthere⟩
          | succ j =>
            rw [hplace] at hget
            exact h.examined j (Nat.lt_of_succ_lt_succ hj) entry hget hprobe
    · rw [if_neg hroom]
      exact ⟨0, hstay cursor hc _ probes S fun _ => hroom⟩

end Search

section Calls

variable {shadowMap : List ShadowNode} {p : ExplorePulse} {E : Explorer}

theorem exploreSlots_range (urgent : Bool) (metabolic : ℤ) :
    1 ≤ exploreSlots urgent metabolic ∧ exploreSlots urgent metabolic ≤ exploreProbeSlots :=
  ⟨le_min (le_max_right _ _) (by decide), min_le_right _ _⟩

theorem notice_cases (E : Explorer) (purpose : CName) :
    (E.notice purpose).cursor = E.cursor ∧
      (E.notice purpose).purpose.take 15 = purpose.take 15 ∧
        ((E.notice purpose).probes = [] ∧ (E.notice purpose).total = 0 ∨ E.notice purpose = E) := by
  rw [Explorer.notice]
  split
  · exact ⟨rfl, by rw [List.take_take]; rfl, .inl ⟨rfl, rfl⟩⟩
  next h => exact ⟨rfl, not_not.mp h, .inr rfl⟩

/-- A call that stops early reads nothing and forgets its probes or keeps them. -/
structure Idle (E : Explorer) (r : Exploration) : Prop where
  searched : r.searched = false
  reads : r.reads = []
  paged : r.paged = []
  cursor : r.explorer.cursor = E.cursor
  total : r.explorer.total ≤ E.total
  probes : r.explorer.probes = [] ∨ r.explorer = E

theorem idle_notice (E : Explorer) (purpose : CName) (F : Fabric) :
    Idle E ⟨E.notice purpose, F, [], [], false⟩ := by
  obtain ⟨hcursor, -, hprobes⟩ := notice_cases E purpose
  refine ⟨rfl, rfl, rfl, hcursor, ?_, hprobes.imp_left And.left⟩
  rcases hprobes with ⟨-, htotal⟩ | heq
  · exact htotal.trans_le (Nat.zero_le _)
  · exact le_of_eq (congrArg Explorer.total heq)

/-- A call stops early, or checks the old probes and looks for new ones. -/
theorem supervisorExplore_cases (shadowMap : List ShadowNode) (p : ExplorePulse) (E : Explorer) :
    Idle E (supervisorExplore shadowMap p E) ∨
    ∃ F painTicks slots, 1 ≤ slots ∧ slots ≤ exploreProbeSlots ∧
      (E.notice p.purpose).total < exploreMaxActive ∧
      let checked := checkProbes shadowMap p 0 (E.notice p.purpose).probes
        ⟨F, (E.notice p.purpose).total, [], []⟩
      let found := probeNew shadowMap p slots (min shadowMap.length exploreMaxScan)
        (E.notice p.purpose).cursor [] checked
      supervisorExplore shadowMap p E =
        ⟨⟨found.1, painTicks, checked.total, (E.notice p.purpose).purpose, found.2.1⟩,
          found.2.2.fabric, found.2.2.reads, found.2.2.paged, true⟩ := by
  unfold supervisorExplore
  dsimp only
  by_cases hpurpose : p.purpose = []
  · rw [if_pos hpurpose]
    exact .inl ⟨rfl, rfl, rfl, rfl, Nat.le_refl _, .inl rfl⟩
  rw [if_neg hpurpose]
  by_cases hmax : exploreMaxActive ≤ (E.notice p.purpose).total
  · rw [if_pos hmax]
    exact .inl (idle_notice E p.purpose p.fabric)
  rw [if_neg hmax]
  split
  · exact .inl (idle_notice E p.purpose _)
  · have hslots := exploreSlots_range
    exact .inr ⟨_, _, _, (hslots _ _).1, (hslots _ _).2, Nat.lt_of_not_le hmax, rfl⟩

/-- The entry was read at an earlier call under the same purpose, and held this then. -/
def SeenBefore (shadowMap : List ShadowNode) (history : List ExploreLabel) (purpose : CName)
    (probe : Probe) : Prop :=
  ∃ entry : ShadowNode, shadowMap[probe.atlasIdx]? = some entry ∧ entry.probeable = true ∧
    ∃ l ∈ history, l.pulse.purpose.take 15 = purpose.take 15 ∧
      (entry.addr, probe.lastValue) ∈ l.result.reads

/-- The explorer after these calls. -/
structure Curious (shadowMap : List ShadowNode) (history : List ExploreLabel) (E : Explorer) :
    Prop where
  cursor : 0 < shadowMap.length → E.cursor < shadowMap.length
  total : E.total ≤ exploreMaxActive
  room : E.probes.length ≤ exploreProbeSlots
  probes : ∀ probe ∈ E.probes, SeenBefore shadowMap history E.purpose probe

/-- What a call reads and pages in, after these calls. -/
structure Careful (shadowMap : List ShadowNode) (history : List ExploreLabel) (l : ExploreLabel) :
    Prop where
  reads : ∀ r ∈ l.result.reads, ∃ entry ∈ shadowMap, entry.probeable = true ∧ entry.addr = r.1
  paged : ∀ i ∈ l.result.paged, ∃ entry : ShadowNode, shadowMap[i]? = some entry ∧
    ∃ earlier ∈ history, earlier.pulse.purpose.take 15 = l.pulse.purpose.take 15 ∧
      ∃ v now, (entry.addr, v) ∈ earlier.result.reads ∧ (entry.addr, now) ∈ l.result.reads ∧
        now ≠ v

theorem SeenBefore.mono {history : List ExploreLabel} {purpose : CName} {probe : Probe}
    (h : SeenBefore shadowMap history purpose probe) (l : ExploreLabel) :
    SeenBefore shadowMap (history ++ [l]) purpose probe := by
  obtain ⟨entry, hentry, hprobe, earlier, hmem, hread⟩ := h
  exact ⟨entry, hentry, hprobe, earlier, List.mem_append_left [l] hmem, hread⟩

theorem Curious.explore {history : List ExploreLabel} (h : Curious shadowMap history E)
    (p : ExplorePulse) :
    Careful shadowMap history ⟨p, supervisorExplore shadowMap p E⟩ ∧
      Curious shadowMap (history ++ [⟨p, supervisorExplore shadowMap p E⟩])
        (supervisorExplore shadowMap p E).explorer := by
  rcases supervisorExplore_cases shadowMap p E with
    hidle | ⟨F, painTicks, slots, hone, hslots, hmax, heq⟩
  · have hreads := hidle.reads
    have hpaged := hidle.paged
    refine ⟨⟨fun r hr => ?_, fun i hi => ?_⟩, ?_, hidle.total.trans h.total, ?_, ?_⟩
    · rw [hreads] at hr
      cases hr
    · rw [hpaged] at hi
      cases hi
    · rw [hidle.cursor]
      exact h.cursor
    · rcases hidle.probes with hnil | hsame
      · rw [hnil]
        exact Nat.zero_le _
      · rw [hsame]
        exact h.room
    · intro probe hprobe
      rcases hidle.probes with hnil | hsame
      · rw [hnil] at hprobe
        cases hprobe
      · rw [hsame] at hprobe ⊢
        exact (h.probes probe hprobe).mono _
  obtain ⟨hcursor, hpurpose, hnotice⟩ := notice_cases E p.purpose
  have hold : ∀ probe ∈ (E.notice p.purpose).probes,
      SeenBefore shadowMap history p.purpose probe := by
    intro probe hprobe
    rcases hnotice with ⟨hnil, -⟩ | hsame
    · rw [hnil] at hprobe
      cases hprobe
    · rw [hsame] at hprobe hpurpose
      obtain ⟨entry, hentry, hgood, l, hl, hsince, hread⟩ := h.probes probe hprobe
      exact ⟨entry, hentry, hgood, l, hl, hsince.trans hpurpose, hread⟩
  have hchecked : Checked shadowMap _ _ (checkProbes shadowMap p 0 _ _) :=
    checkProbes_checked p (E.notice p.purpose).probes 0 ⟨F, (E.notice p.purpose).total, [], []⟩
  dsimp only at heq
  obtain ⟨m, hfound⟩ := probeNew_searched p slots (min shadowMap.length exploreMaxScan)
    (E.notice p.purpose).cursor [] (checkProbes shadowMap p 0 (E.notice p.purpose).probes
      ⟨F, (E.notice p.purpose).total, [], []⟩) (Nat.min_le_left _ _) (by rw [hcursor]; exact h.cursor)
  generalize checkProbes shadowMap p 0 (E.notice p.purpose).probes
    ⟨F, (E.notice p.purpose).total, [], []⟩ = checked at heq hchecked hfound
  generalize probeNew shadowMap p slots (min shadowMap.length exploreMaxScan)
    (E.notice p.purpose).cursor [] checked = found at heq hfound
  rw [heq]
  have hcareful : Careful shadowMap history ⟨p, ⟨⟨found.1, painTicks, checked.total,
      (E.notice p.purpose).purpose, found.2.1⟩, found.2.2.fabric, found.2.2.reads,
      found.2.2.paged, true⟩⟩ := by
    refine ⟨fun r hr => ?_, fun i hi => ?_⟩
    · rcases hfound.reads r hr with hr | hnew
      · rcases hchecked.reads r hr with hr | ⟨probe, hprobe, entry, hentry, haddr⟩
        · cases hr
        · obtain ⟨entry', hentry', hgood, -⟩ := hold probe hprobe
          obtain rfl := Option.some.inj (hentry.symm.trans hentry')
          exact ⟨entry, List.mem_of_getElem? hentry, hgood, haddr.symm⟩
      · exact hnew
    · change i ∈ found.2.2.paged at hi
      rw [hfound.paged] at hi
      rcases hchecked.paged i hi with hi | ⟨probe, hprobe, rfl, entry, now, hentry, hread, hne⟩
      · cases hi
      · obtain ⟨entry', hentry', -, l, hl, hsince, hseen⟩ := hold probe hprobe
        obtain rfl := Option.some.inj (hentry.symm.trans hentry')
        exact ⟨entry, hentry, l, hl, hsince, probe.lastValue, now, hseen,
          hfound.kept.subset hread, hne⟩
  refine ⟨hcareful, fun hpos => ?_, ?_, ?_, fun probe hprobe => ?_⟩
  · change found.1 < _
    rw [hfound.cursor]
    exact Nat.mod_lt _ hpos
  · exact hchecked.total (Nat.le_of_lt hmax)
  · exact (hfound.room (Nat.zero_le _)).trans hslots
  · rcases hfound.probes probe hprobe with hnil | ⟨entry, hentry, hgood, hread⟩
    · cases hnil
    · exact ⟨entry, hentry, hgood, _, List.mem_append_right history List.mem_cons_self,
        hpurpose.symm, hread⟩

end Calls

/-- Whatever the fabric, the registers and the purpose do between the calls: the explorer reads
only full input registers of the catalogue outside the sanctuary, stays within its arrays, and
pages in only registers that an earlier call under the same purpose has read with another
value. -/
theorem explorer_careful {shadowMap : List ShadowNode} {before : List ExploreLabel}
    {l : ExploreLabel} {E : Explorer}
    (hrun : Run (ExploreStep shadowMap) .init (before ++ [l]) E) :
    Careful shadowMap before l ∧ Curious shadowMap (before ++ [l]) E := by
  obtain ⟨D, hrun, hlast⟩ := hrun.split
  have hstart : Curious shadowMap [] .init :=
    ⟨id, by decide, by decide, fun _ h => absurd h List.not_mem_nil⟩
  have hcurious : Curious shadowMap before D :=
    hrun.history (Curious shadowMap) (fun _ _ _ _ h hs => by
      cases hs with
      | explore p E => exact (h.explore p).2) hstart
  cases hlast with
  | cons hs hnil =>
    cases hnil
    cases hs with
    | explore p D => exact hcurious.explore p

section Button

/-- The input register of the pins. -/
def buttonEntry : ShadowNode :=
  ⟨ascii "perception.gpio.in", 0x6009103C, 0xFFFFFFFF, 1, 0, 0, .hardwareIn⟩

def buttonAtlas : List ShadowNode := [buttonEntry]

/-- A pulse that finds the register at `v`. -/
def buttonPulse (v : ℕ) : ExplorePulse :=
  ⟨ascii "led", 1, fun _ => true, fun _ _ => v, rewardFabric⟩

def buttonSeen : Exploration := supervisorExplore buttonAtlas (buttonPulse 0) .init

def buttonFound : Exploration := supervisorExplore buttonAtlas (buttonPulse 1) buttonSeen.explorer

theorem buttonRun : Run (ExploreStep buttonAtlas) .init
    [⟨buttonPulse 0, buttonSeen⟩, ⟨buttonPulse 1, buttonFound⟩] buttonFound.explorer :=
  .cons (.explore _ _) (.single (.explore _ _))

/-- The register changes between two calls, and the second pages it in. -/
theorem explorer_careful_button : buttonFound.paged = [0] ∧
    Careful buttonAtlas [⟨buttonPulse 0, buttonSeen⟩] ⟨buttonPulse 1, buttonFound⟩ :=
  ⟨by decide +kernel, (explorer_careful buttonRun).1⟩

end Button

section Coverage

variable {shadowMap : List ShadowNode}

/-- One of the calls has read the entry, or left its name resolved. -/
def Met (labels : List ExploreLabel) (entry : ShadowNode) : Prop :=
  ∃ l ∈ labels, (∃ v, (entry.addr, v) ∈ l.result.reads) ∨
    (gooniesResolve l.result.fabric.registry entry.name).isSome

/-- The search has gone `m` entries round from `c`, one for each call that searched at least. -/
def Advanced (shadowMap : List ShadowNode) (c : ℕ) (labels : List ExploreLabel) (E : Explorer) :
    Prop :=
  ∃ m, E.cursor = (c + m) % shadowMap.length ∧ labels.countP (·.result.searched) ≤ m ∧
    ∀ j < m, ∀ entry : ShadowNode, shadowMap[(c + j) % shadowMap.length]? = some entry →
      entry.probeable = true → Met labels entry

theorem Met.mono {labels : List ExploreLabel} {entry : ShadowNode} (h : Met labels entry)
    (l : ExploreLabel) : Met (labels ++ [l]) entry := by
  obtain ⟨l', hl', hmet⟩ := h
  exact ⟨l', List.mem_append_left [l] hl', hmet⟩

theorem Advanced.explore {c : ℕ} {labels : List ExploreLabel} {E : Explorer}
    (hpos : 0 < shadowMap.length) (h : Advanced shadowMap c labels E) (p : ExplorePulse) :
    Advanced shadowMap c (labels ++ [⟨p, supervisorExplore shadowMap p E⟩])
      (supervisorExplore shadowMap p E).explorer := by
  obtain ⟨m, hm, hcount, hmet⟩ := h
  have hlt : E.cursor < shadowMap.length := hm ▸ Nat.mod_lt _ hpos
  rcases supervisorExplore_cases shadowMap p E with
    hidle | ⟨F, painTicks, slots, hone, hslots, hmax, heq⟩
  · refine ⟨m, hidle.cursor.trans hm, ?_, fun j hj entry hentry hgood =>
      (hmet j hj entry hentry hgood).mono _⟩
    rw [List.countP_append, List.countP_singleton, hidle.searched]
    exact hcount
  obtain ⟨hcursor, -, -⟩ := notice_cases E p.purpose
  dsimp only at heq
  obtain ⟨k, hfound⟩ := probeNew_searched p slots (min shadowMap.length exploreMaxScan)
    (E.notice p.purpose).cursor [] (checkProbes shadowMap p 0 (E.notice p.purpose).probes
      ⟨F, (E.notice p.purpose).total, [], []⟩) (Nat.min_le_left _ _)
      (by rw [hcursor]; exact fun _ => hlt)
  generalize checkProbes shadowMap p 0 (E.notice p.purpose).probes
    ⟨F, (E.notice p.purpose).total, [], []⟩ = checked at heq hfound
  generalize probeNew shadowMap p slots (min shadowMap.length exploreMaxScan)
    (E.notice p.purpose).cursor [] checked = found at heq hfound
  have hk : 0 < k := hfound.advances (lt_min hpos (by decide)) hone
  have hshift : ∀ j, (E.cursor + j) % shadowMap.length = (c + (m + j)) % shadowMap.length :=
    fun j => by rw [hm, Nat.mod_add_mod, Nat.add_assoc]
  rw [heq]
  refine ⟨m + k, ?_, ?_, fun j hj entry hentry hgood => ?_⟩
  · change found.1 = _
    rw [hfound.cursor, hcursor]
    exact hshift k
  · rw [List.countP_append, List.countP_singleton]
    exact Nat.add_le_add hcount hk
  · by_cases hold : j < m
    · exact (hmet j hold entry hentry hgood).mono _
    · obtain ⟨i, rfl⟩ := Nat.exists_eq_add_of_le (Nat.le_of_not_lt hold)
      rw [← hshift, ← hcursor] at hentry
      refine ⟨_, List.mem_append_right labels List.mem_cons_self, ?_⟩
      rcases hfound.examined i (by omega) entry hentry hgood with hresolved | hread
      · apply Or.inr
        change (gooniesResolve found.2.2.fabric.registry entry.name).isSome
        rw [hfound.fabric]
        exact hresolved
      · exact .inl hread

/-- Some place of every `N` consecutive ones is congruent to `i`. -/
theorem exists_place {N c i : ℕ} (hc : c < N) (hi : i < N) : ∃ j < N, (c + j) % N = i := by
  by_cases hle : c ≤ i
  · refine ⟨i - c, by omega, ?_⟩
    rw [Nat.add_sub_cancel' hle, Nat.mod_eq_of_lt hi]
  · refine ⟨i + N - c, by omega, ?_⟩
    rw [show c + (i + N - c) = i + N by omega, Nat.add_mod_right, Nat.mod_eq_of_lt hi]

end Coverage

/-- Nothing is overlooked for ever: in every stretch of calls in which the explorer searches as
often as the catalogue has entries, it reads each full input register outside the sanctuary, or
leaves its name resolved. -/
theorem explorer_covers {shadowMap : List ShadowNode} {before labels : List ExploreLabel}
    {E : Explorer} (hrun : Run (ExploreStep shadowMap) .init (before ++ labels) E)
    (hlong : shadowMap.length ≤ labels.countP (·.result.searched)) :
    ∀ entry ∈ shadowMap, entry.probeable = true → Met labels entry := by
  intro entry hmem hgood
  obtain ⟨i, hi, hget⟩ := List.getElem_of_mem hmem
  have hpos : 0 < shadowMap.length := Nat.zero_lt_of_lt hi
  obtain ⟨D, hbefore, hstretch⟩ := hrun.split
  have hstart : Curious shadowMap [] .init :=
    ⟨id, by decide, by decide, fun _ h => absurd h List.not_mem_nil⟩
  have hcurious : Curious shadowMap before D :=
    hbefore.history (Curious shadowMap) (fun _ _ _ _ h hs => by
      cases hs with
      | explore p E => exact (h.explore p).2) hstart
  have hD : D.cursor < shadowMap.length := hcurious.cursor hpos
  have hzero : Advanced shadowMap D.cursor [] D :=
    ⟨0, (Nat.mod_eq_of_lt hD).symm, Nat.le_refl 0, fun j hj => absurd hj (Nat.not_lt_zero j)⟩
  obtain ⟨m, -, hcount, hmet⟩ :=
    hstretch.history (Advanced shadowMap D.cursor) (fun _ _ _ _ h hs => by
      cases hs with
      | explore p E => exact h.explore hpos p) hzero
  obtain ⟨j, hj, hplace⟩ := exists_place hD hi
  refine hmet j (by omega) entry ?_ hgood
  rw [hplace, List.getElem?_eq_getElem hi, hget]

/-- Two calls, of which the first has been made; the second goes round an atlas of one. -/
theorem explorer_covers_button : Met [⟨buttonPulse 1, buttonFound⟩] buttonEntry :=
  @explorer_covers buttonAtlas [⟨buttonPulse 0, buttonSeen⟩] _ _ buttonRun (by decide +kernel)
    buttonEntry (List.mem_singleton.mpr rfl) (by decide)

end ReflexOS.Goose
