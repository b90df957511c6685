import ReflexOS.VmState

set_option autoImplicit false

/-!
# The soft cache of a VM

Sixteen direct-mapped lines over the mapped words. Every operation is proved to succeed
on mapped addresses and to keep the cache coherent with the memory a program believes in.
-/
namespace ReflexOS.Vm
open VmTernary VmMmu WriteBack

variable {W : Type*}

def setCount : ℕ := 16

def setIndex (addr : ℕ) : Fin 16 := ⟨addr % setCount, Nat.mod_lt _ (by decide)⟩

def emptyLine : Line ℕ Word18 := ⟨0, .invalid, zeroWord⟩

def cacheInit : Cache := ⟨fun _ => emptyLine, 0, 0, 0⟩

def Cache.setLine (c : Cache) (i : Fin 16) (line : Line ℕ Word18) : Cache :=
  { c with sets := Function.update c.sets i line }

def Machine.setCache (m : Machine W) (c : Cache) : Machine W :=
  { m with vm := { m.vm with cache := some c } }

def cacheFetch (m : Machine W) (c : Cache) (addr : ℕ) : Except Err Word18 × Machine W :=
  match memGetRaw m addr with
  | .error e => (.error e, m.setCache c)
  | .ok w => (.ok w, m.setCache (c.setLine (setIndex addr) ⟨addr, .clean, w⟩))

def cacheLoad (m : Machine W) (addr : ℕ) : Except Err Word18 × Machine W :=
  match m.vm.cache with
  | none => (.error Err.invalidArg, m)
  | some c =>
    let line := c.sets (setIndex addr)
    if line.state ≠ .invalid ∧ line.tag = addr then
      (.ok line.value, m.setCache { c with hits := (c.hits + 1) % 2 ^ 32 })
    else
      let c := { c with misses := (c.misses + 1) % 2 ^ 32 }
      if line.state = .dirty then
        let c := { c with evictions := (c.evictions + 1) % 2 ^ 32 }
        match memSetRaw m line.tag line.value with
        | .error e => (.error e, m.setCache c)
        | .ok m' => cacheFetch m' c addr
      else cacheFetch m c addr

def cacheStore (m : Machine W) (addr : ℕ) (w : Word18) : Err × Machine W :=
  match m.vm.cache with
  | none => (Err.invalidArg, m)
  | some c =>
    let line := c.sets (setIndex addr)
    if line.state = .dirty ∧ line.tag ≠ addr then
      let c := { c with evictions := (c.evictions + 1) % 2 ^ 32 }
      match memSetRaw m line.tag line.value with
      | .error e => (e, m.setCache c)
      | .ok m' => (Err.ok, m'.setCache (c.setLine (setIndex addr) ⟨addr, .dirty, w⟩))
    else (Err.ok, m.setCache (c.setLine (setIndex addr) ⟨addr, .dirty, w⟩))

def cacheFlush (m : Machine W) (addr : ℕ) : Err × Machine W :=
  match m.vm.cache with
  | none => (Err.invalidArg, m)
  | some c =>
    let line := c.sets (setIndex addr)
    if line.state = .dirty ∧ line.tag = addr then
      match memSetRaw m line.tag line.value with
      | .error e => (e, m)
      | .ok m' => (Err.ok, m'.setCache (c.setLine (setIndex addr) { line with state := .clean }))
    else (Err.ok, m)

/-- Drops the line, dirty or not. -/
def cacheInvalidate (m : Machine W) (addr : ℕ) : Err × Machine W :=
  match m.vm.cache with
  | none => (Err.invalidArg, m)
  | some c =>
    let line := c.sets (setIndex addr)
    if line.tag = addr then
      (Err.ok, m.setCache (c.setLine (setIndex addr) { line with state := .invalid }))
    else (Err.ok, m)

def cacheFlushInvalidate (m : Machine W) (addr : ℕ) : Err × Machine W :=
  let flushed := cacheFlush m addr
  if flushed.1 = Err.ok then cacheInvalidate flushed.2 addr else flushed

/-- One turn of the loop of `reflex_cache_flush_all`. -/
def cacheFlushSet (m : Machine W) (i : Fin 16) : Err × Machine W :=
  match m.vm.cache with
  | none => (Err.invalidArg, m)
  | some c =>
    let line := c.sets i
    if line.state = .dirty then
      match memSetRaw m line.tag line.value with
      | .error e => (e, m)
      | .ok m' => (Err.ok, m'.setCache (c.setLine i { line with state := .clean }))
    else (Err.ok, m)

def cacheFlushSets (m : Machine W) : List (Fin 16) → Err × Machine W
  | [] => (Err.ok, m)
  | i :: is =>
    let flushed := cacheFlushSet m i
    if flushed.1 = Err.ok then cacheFlushSets flushed.2 is else flushed

def cacheFlushAll (m : Machine W) : Err × Machine W :=
  match m.vm.cache with
  | none => (Err.invalidArg, m)
  | some _ => cacheFlushSets m (List.finRange 16)

def hostWrite (m : Machine W) (addr : ℕ) (w : Word18) : Err × Machine W :=
  match memSetRaw m addr w with
  | .error e => (e, m)
  | .ok m' => if m'.vm.cache.isSome then cacheInvalidate m' addr else (Err.ok, m')

/-- Nothing but the cache and the words under it differs. -/
structure SameButCache (m m' : Machine W) : Prop where
  vm : m'.vm = { m.vm with cache := m'.vm.cache }
  world : m'.world = m.world

theorem SameButCache.refl (m : Machine W) : SameButCache m m := ⟨rfl, rfl⟩

theorem SameButCache.trans {m₁ m₂ m₃ : Machine W} (h : SameButCache m₁ m₂)
    (h' : SameButCache m₂ m₃) : SameButCache m₁ m₃ := by
  refine ⟨?_, h'.world.trans h.world⟩
  rw [h'.vm, h.vm]

theorem SameButCache.setCache {m m' : Machine W} (h : SameButCache m m') (c : Cache) :
    SameButCache m (m'.setCache c) := by
  refine ⟨?_, h.world⟩
  rw [Machine.setCache, h.vm]

theorem SameButCache.mmu {m m' : Machine W} (h : SameButCache m m') :
    m'.vm.mmu = m.vm.mmu := by rw [h.vm]

theorem memSetRaw_same {m m' : Machine W} {a : ℕ} {w : Word18}
    (h : memSetRaw m a w = .ok m') : SameButCache m m' := by
  obtain ⟨hvm, hworld⟩ := memSetRaw_vm h
  exact ⟨by rw [hvm], hworld⟩

theorem cacheFetch_same (m : Machine W) (c : Cache) (a : ℕ) :
    SameButCache m (cacheFetch m c a).2 := by
  unfold cacheFetch
  split <;> exact (SameButCache.refl m).setCache _

theorem cacheLoad_same (m : Machine W) (a : ℕ) : SameButCache m (cacheLoad m a).2 := by
  unfold cacheLoad
  split
  · exact .refl m
  dsimp only
  split
  · exact (SameButCache.refl m).setCache _
  split
  · split
    · exact (SameButCache.refl m).setCache _
    next hset => exact (memSetRaw_same hset).trans (cacheFetch_same _ _ _)
  · exact cacheFetch_same _ _ _

theorem cacheStore_same (m : Machine W) (a : ℕ) (w : Word18) :
    SameButCache m (cacheStore m a w).2 := by
  unfold cacheStore
  split
  · exact .refl m
  dsimp only
  split
  · split
    · exact (SameButCache.refl m).setCache _
    next hset => exact (memSetRaw_same hset).setCache _
  · exact (SameButCache.refl m).setCache _

theorem cacheFlush_same (m : Machine W) (a : ℕ) : SameButCache m (cacheFlush m a).2 := by
  unfold cacheFlush
  split
  · exact .refl m
  dsimp only
  split
  · split
    · exact .refl m
    next hset => exact (memSetRaw_same hset).setCache _
  · exact .refl m

theorem cacheInvalidate_same (m : Machine W) (a : ℕ) :
    SameButCache m (cacheInvalidate m a).2 := by
  unfold cacheInvalidate
  split
  · exact .refl m
  dsimp only
  split
  · exact (SameButCache.refl m).setCache _
  · exact .refl m

theorem cacheFlushInvalidate_same (m : Machine W) (a : ℕ) :
    SameButCache m (cacheFlushInvalidate m a).2 := by
  unfold cacheFlushInvalidate
  dsimp only
  split
  · exact (cacheFlush_same m a).trans (cacheInvalidate_same _ a)
  · exact cacheFlush_same m a

theorem cacheFlushSet_same (m : Machine W) (i : Fin 16) : SameButCache m (cacheFlushSet m i).2 := by
  unfold cacheFlushSet
  split
  · exact .refl m
  dsimp only
  split
  · split
    · exact .refl m
    next hset => exact (memSetRaw_same hset).setCache _
  · exact .refl m

theorem cacheFlushSets_same (m : Machine W) (is : List (Fin 16)) :
    SameButCache m (cacheFlushSets m is).2 := by
  induction is generalizing m with
  | nil => exact .refl m
  | cons i is ih =>
    unfold cacheFlushSets
    dsimp only
    split
    · exact (cacheFlushSet_same m i).trans (ih _)
    · exact cacheFlushSet_same m i

theorem cacheFlushAll_same (m : Machine W) : SameButCache m (cacheFlushAll m).2 := by
  unfold cacheFlushAll
  split
  · exact .refl m
  · exact cacheFlushSets_same m _

/-- The cache of `m` over its memory stands for the plain memory `ref`. -/
structure CacheCoherent (m : Machine W) (c : Cache) (ref : ℕ → Word18) : Prop where
  attached : m.vm.cache = some c
  disjoint : BuffersDisjoint m.vm.mmu
  coherent : Coherent setIndex (Mapped m.vm.mmu) c.sets m.word ref

variable {m : Machine W} {c : Cache} {ref : ℕ → Word18} {a : ℕ}

@[simp] theorem setCache_cache (m : Machine W) (c : Cache) :
    (m.setCache c).vm.cache = some c := rfl

@[simp] theorem setCache_mmu (m : Machine W) (c : Cache) :
    (m.setCache c).vm.mmu = m.vm.mmu := rfl

@[simp] theorem setCache_word (m : Machine W) (c : Cache) : (m.setCache c).word = m.word := rfl

theorem cacheFetch_word (m : Machine W) (c : Cache) (a : ℕ) : (cacheFetch m c a).2.word = m.word := by
  unfold cacheFetch
  split <;> rfl

theorem cacheCoherent_init {m : Machine W} (hc : m.vm.cache = some c)
    (hi : ∀ i, (c.sets i).state = .invalid) (hd : BuffersDisjoint m.vm.mmu) :
    CacheCoherent m c m.word := ⟨hc, hd, coherent_empty hi⟩

theorem CacheCoherent.evict (h : CacheCoherent m c ref) {i : Fin 16}
    (hi : (c.sets i).state = .dirty) :
    ∃ m', memSetRaw m (c.sets i).tag (c.sets i).value = .ok m' ∧ SameButCache m m' ∧
      CacheCoherent m' c ref ∧ Synced (c.sets i) m'.word := by
  have hdom := h.coherent.tagged i (by simp [hi])
  obtain ⟨m', hset, hvm, hw, hword⟩ := memSetRaw_mapped h.disjoint hdom (c.sets i).value
  refine ⟨m', hset, ⟨by rw [hvm], hw⟩, ⟨?_, ?_, ?_⟩, ?_⟩
  · rw [hvm]
    exact h.attached
  · rw [hvm]
    exact h.disjoint
  · rw [hvm]
    exact (h.coherent.writeBack hi).congr hword
  · intro _
    rw [hword _ hdom, Function.update_self]

theorem CacheCoherent.setCache (h : CacheCoherent m c ref) {c' : Cache} {ref' : ℕ → Word18}
    (hc : Coherent setIndex (Mapped m.vm.mmu) c'.sets m.word ref') :
    CacheCoherent (m.setCache c') c' ref' := ⟨rfl, h.disjoint, hc⟩

theorem CacheCoherent.fetch (h : CacheCoherent m c ref) (ha : a ∈ Mapped m.vm.mmu)
    (hs : Synced (c.sets (setIndex a)) m.word) (c₁ : Cache) (hsets : c₁.sets = c.sets) :
    ∃ m' c', cacheFetch m c₁ a = (.ok (ref a), m') ∧ SameButCache m m' ∧
      CacheCoherent m' c' ref := by
  have hword : m.word a = ref a := h.coherent.mem_of_synced ha hs
  refine ⟨_, c₁.setLine (setIndex a) ⟨a, .clean, ref a⟩, ?_, (SameButCache.refl m).setCache _,
    h.setCache ?_⟩
  · rw [cacheFetch, memGetRaw_mapped ha, hword]
  · rw [Cache.setLine, hsets, ← hword]
    exact h.coherent.fill ha hs

theorem CacheCoherent.load (h : CacheCoherent m c ref) (ha : a ∈ Mapped m.vm.mmu) :
    ∃ m' c', cacheLoad m a = (.ok (ref a), m') ∧ SameButCache m m' ∧
      CacheCoherent m' c' ref := by
  simp only [cacheLoad, h.attached]
  split
  next hhit =>
    have hv : (c.sets (setIndex a)).value = ref a := by
      rw [h.coherent.hit hhit.1, hhit.2]
    rw [hv]
    exact ⟨_, _, rfl, (SameButCache.refl m).setCache _, h.setCache h.coherent⟩
  next hmiss =>
    split
    next hdirty =>
      obtain ⟨m₁, hset, hsame, hcoh, hsync⟩ := h.evict hdirty
      rw [hset]
      obtain ⟨m', c', hf, hs, hc⟩ := hcoh.fetch (by rwa [hsame.mmu]) hsync
        { c with misses := (c.misses + 1) % 2 ^ 32, evictions := (c.evictions + 1) % 2 ^ 32 } rfl
      exact ⟨m', c', hf, hsame.trans hs, hc⟩
    next hclean => exact h.fetch ha (synced_of_not_dirty hclean) _ rfl

theorem CacheCoherent.store (h : CacheCoherent m c ref) (ha : a ∈ Mapped m.vm.mmu)
    (w : Word18) :
    ∃ m' c', cacheStore m a w = (Err.ok, m') ∧ SameButCache m m' ∧
      CacheCoherent m' c' (Function.update ref a w) := by
  simp only [cacheStore, h.attached]
  split
  next hevict =>
    obtain ⟨m₁, hset, hsame, hcoh, hsync⟩ := h.evict hevict.1
    simp only [hset]
    refine ⟨_, _, rfl, hsame.setCache _, hcoh.setCache ?_⟩
    exact hcoh.coherent.store w (by rwa [hsame.mmu]) (.inl hsync)
  next hkeep =>
    refine ⟨_, _, rfl, (SameButCache.refl m).setCache _, h.setCache ?_⟩
    refine h.coherent.store w ha ?_
    by_cases hdirty : (c.sets (setIndex a)).state = .dirty
    · exact .inr (by_contra fun ht => hkeep ⟨hdirty, ht⟩)
    · exact .inl (synced_of_not_dirty hdirty)

theorem CacheCoherent.flush (h : CacheCoherent m c ref) (a : ℕ) :
    ∃ m' c', cacheFlush m a = (Err.ok, m') ∧ SameButCache m m' ∧ CacheCoherent m' c' ref ∧
      ((c'.sets (setIndex a)).tag = a → Synced (c'.sets (setIndex a)) m'.word) := by
  simp only [cacheFlush, h.attached]
  split
  next hdirty =>
    obtain ⟨m₁, hset, hsame, hcoh, hsync⟩ := h.evict hdirty.1
    simp only [hset]
    refine ⟨_, _, rfl, hsame.setCache _, hcoh.setCache (hcoh.coherent.demote hdirty.1 hsync), ?_⟩
    intro _
    exact synced_of_not_dirty (by simp [Cache.setLine])
  next hkeep =>
    refine ⟨m, c, rfl, .refl m, h, fun ht => synced_of_not_dirty fun hd => hkeep ⟨hd, ht⟩⟩

/-- Dropping a line is safe once memory agrees with it. -/
theorem CacheCoherent.invalidate (h : CacheCoherent m c ref)
    (hs : (c.sets (setIndex a)).tag = a → Synced (c.sets (setIndex a)) m.word) :
    ∃ m' c', cacheInvalidate m a = (Err.ok, m') ∧ SameButCache m m' ∧
      CacheCoherent m' c' ref := by
  simp only [cacheInvalidate, h.attached]
  split
  next ht =>
    exact ⟨_, _, rfl, (SameButCache.refl m).setCache _, h.setCache (h.coherent.drop (hs ht))⟩
  next => exact ⟨m, c, rfl, .refl m, h⟩

theorem CacheCoherent.flushInvalidate (h : CacheCoherent m c ref) (a : ℕ) :
    ∃ m' c', cacheFlushInvalidate m a = (Err.ok, m') ∧ SameButCache m m' ∧
      CacheCoherent m' c' ref := by
  obtain ⟨m₁, c₁, hf, hsame, hcoh, hs⟩ := h.flush a
  obtain ⟨m', c', hi, hsame', hcoh'⟩ := hcoh.invalidate hs
  refine ⟨m', c', ?_, hsame.trans hsame', hcoh'⟩
  simp only [cacheFlushInvalidate, hf, if_true]
  exact hi

theorem CacheCoherent.flushSet (h : CacheCoherent m c ref) (i : Fin 16) :
    ∃ m' c', cacheFlushSet m i = (Err.ok, m') ∧ SameButCache m m' ∧ CacheCoherent m' c' ref ∧
      (c'.sets i).state ≠ .dirty ∧
      ∀ j, (c.sets j).state ≠ .dirty → (c'.sets j).state ≠ .dirty := by
  simp only [cacheFlushSet, h.attached]
  split
  next hdirty =>
    obtain ⟨m₁, hset, hsame, hcoh, hsync⟩ := h.evict hdirty
    simp only [hset]
    refine ⟨_, _, rfl, hsame.setCache _, hcoh.setCache (hcoh.coherent.demote hdirty hsync), ?_, ?_⟩
    · simp [Cache.setLine]
    · intro j hj
      by_cases hij : j = i
      · subst j
        simp [Cache.setLine]
      · simpa [Cache.setLine, hij] using hj
  next hclean => exact ⟨m, c, rfl, .refl m, h, hclean, fun _ hj => hj⟩

theorem CacheCoherent.flushSets (h : CacheCoherent m c ref) (is : List (Fin 16)) :
    ∃ m' c', cacheFlushSets m is = (Err.ok, m') ∧ SameButCache m m' ∧ CacheCoherent m' c' ref ∧
      ∀ j, (c.sets j).state ≠ .dirty ∨ j ∈ is → (c'.sets j).state ≠ .dirty := by
  induction is generalizing m c with
  | nil => exact ⟨m, c, rfl, .refl m, h, fun j hj => by simpa using hj⟩
  | cons i is ih =>
    obtain ⟨m₁, c₁, hf, hsame, hcoh, hi, hold⟩ := h.flushSet i
    obtain ⟨m', c', hf', hsame', hcoh', hall⟩ := ih hcoh
    refine ⟨m', c', ?_, hsame.trans hsame', hcoh', ?_⟩
    · simp only [cacheFlushSets, hf, if_true]
      exact hf'
    · rintro j (hj | hj)
      · exact hall j (.inl (hold j hj))
      · rcases List.mem_cons.mp hj with rfl | hj
        · exact hall j (.inl hi)
        · exact hall j (.inr hj)

/-- After `flush_all` memory itself is the reference. -/
theorem CacheCoherent.flushAll (h : CacheCoherent m c ref) :
    ∃ m' c', cacheFlushAll m = (Err.ok, m') ∧ SameButCache m m' ∧ CacheCoherent m' c' ref ∧
      ∀ b ∈ Mapped m'.vm.mmu, m'.word b = ref b := by
  obtain ⟨m', c', hf, hsame, hcoh, hall⟩ := h.flushSets (List.finRange 16)
  refine ⟨m', c', ?_, hsame, hcoh, ?_⟩
  · simp only [cacheFlushAll, h.attached]
    exact hf
  · exact hcoh.coherent.flushed fun j => hall j (.inr (List.mem_finRange j))

theorem CacheCoherent.hostWrite (h : CacheCoherent m c ref) (ha : a ∈ Mapped m.vm.mmu)
    (w : Word18) :
    ∃ m' c', hostWrite m a w = (Err.ok, m') ∧ SameButCache m m' ∧
      CacheCoherent m' c' (Function.update ref a w) := by
  obtain ⟨m₁, hset, hvm, hw, hword⟩ := memSetRaw_mapped h.disjoint ha w
  have hc : m₁.vm.cache = some c := by
    rw [hvm]
    exact h.attached
  have hpoke := (h.coherent.poke (a := a) w).congr hword
  have hd : BuffersDisjoint m₁.vm.mmu := by
    rw [hvm]
    exact h.disjoint
  have hsame : SameButCache m m₁ := ⟨by rw [hvm], hw⟩
  simp only [Vm.hostWrite, hset, hc, Option.isSome_some, if_true, cacheInvalidate]
  split
  next ht =>
    rw [if_pos ht] at hpoke
    refine ⟨_, _, rfl, hsame.setCache _, rfl, hd, ?_⟩
    simpa [hvm, Cache.setLine] using hpoke
  next ht =>
    rw [if_neg ht] at hpoke
    refine ⟨m₁, c, rfl, hsame, hc, hd, ?_⟩
    rwa [hvm]

end ReflexOS.Vm
