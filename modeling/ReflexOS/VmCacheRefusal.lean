import ReflexOS.Runs
import ReflexOS.VmCacheTransparency

set_option autoImplicit false

/-!
# Accesses outside the map

A twin of the VM sees the accesses to mapped addresses only. Whatever the VM does with the
others, the two are compared at every access to a mapped address.
-/
namespace ReflexOS.Vm
open VmTernary VmMmu WriteBack Runs

variable {W : Type*}

inductive CacheOp where
  | load (addr : ℕ)
  | store (addr : ℕ) (w : Word18)
  | flush (addr : ℕ)
  | invalidate (addr : ℕ)
  | flushInvalidate (addr : ℕ)
  | flushAll

def CacheOp.addr? : CacheOp → Option ℕ
  | .load a => some a
  | .store a _ => some a
  | .flush a => some a
  | .invalidate a => some a
  | .flushInvalidate a => some a
  | .flushAll => none

/-- The operation names no address outside every region. -/
def CacheOp.Inside (op : CacheOp) (mmu : Mmu) : Prop := ∀ a ∈ op.addr?, a ∈ Mapped mmu

/-- The result of an operation, with the word of a load. -/
def CacheOp.perform (m : Machine W) : CacheOp → (Err × Option Word18) × Machine W
  | .load a =>
    match cacheLoad m a with
    | (.ok w, m') => ((Err.ok, some w), m')
    | (.error e, m') => ((e, none), m')
  | .store a w => (((cacheStore m a w).1, none), (cacheStore m a w).2)
  | .flush a => (((cacheFlush m a).1, none), (cacheFlush m a).2)
  | .invalidate a => (((cacheInvalidate m a).1, none), (cacheInvalidate m a).2)
  | .flushInvalidate a => (((cacheFlushInvalidate m a).1, none), (cacheFlushInvalidate m a).2)
  | .flushAll => (((cacheFlushAll m).1, none), (cacheFlushAll m).2)

/-- The lines of the cache, without its counters. -/
def Machine.lines (m : Machine W) : Option (Fin 16 → Line ℕ Word18) := m.vm.cache.map Cache.sets

/-- An error, and neither a line nor a word of memory changes. -/
def Refused (m : Machine W) (op : CacheOp) : Prop :=
  (op.perform m).1.1 ≠ Err.ok ∧ (op.perform m).2.lines = m.lines ∧ (op.perform m).2.mem = m.mem

/-- When an access outside the map is refused. A load must miss, and a line that it writes down
must be in memory already; a store must fail to write a line of another stray address down, and a
flush to write one of its own. -/
def Refusable (m : Machine W) (c : Cache) : CacheOp → Prop
  | .load a => let line := c.sets (setIndex a)
    ¬ (line.state ≠ .invalid ∧ line.tag = a) ∧ (line.tag ∈ Mapped m.vm.mmu → Synced line m.word)
  | .store a _ => let line := c.sets (setIndex a)
    line.state = .dirty ∧ line.tag ≠ a ∧ line.tag ∉ Mapped m.vm.mmu
  | .flush a => let line := c.sets (setIndex a)
    line.state = .dirty ∧ line.tag = a
  | .flushInvalidate a => let line := c.sets (setIndex a)
    line.state = .dirty ∧ line.tag = a
  | .invalidate _ => False
  | .flushAll => False

structure Twins (W : Type*) where
  machine : Machine W
  mapped : Machine W

inductive TwinStep : Twins W → CacheOp → Twins W → Prop where
  | mapped {t : Twins W} {op : CacheOp} (h : op.Inside t.machine.vm.mmu) :
      TwinStep t op ⟨(op.perform t.machine).2, (op.perform t.mapped).2⟩
  | unmapped {t : Twins W} {op : CacheOp} (h : ¬ op.Inside t.machine.vm.mmu) :
      TwinStep t op ⟨(op.perform t.machine).2, t.mapped⟩

/-- A mapped access has the result it has for the twin; any other is refused. -/
def Harmless (t : Twins W) (op : CacheOp) (_ : Twins W) : Prop :=
  (op.Inside t.machine.vm.mmu → (op.perform t.machine).1 = (op.perform t.mapped).1) ∧
    (¬ op.Inside t.machine.vm.mmu → Refused t.machine op)

def UnmappedRefusable (t : Twins W) (op : CacheOp) (_ : Twins W) : Prop :=
  ¬ op.Inside t.machine.vm.mmu → ∀ c, t.machine.vm.cache = some c → Refusable t.machine c op

/-- The same lines over the same memory. -/
structure SameLines (m g : Machine W) : Prop where
  lines : m.lines = g.lines
  mmu : m.vm.mmu = g.vm.mmu
  mem : m.mem = g.mem

section Congruence

variable {m g : Machine W} {c d : Cache} {a : ℕ} {w : Word18}

theorem SameLines.refl (m : Machine W) : SameLines m m := ⟨rfl, rfl, rfl⟩

theorem SameLines.trans {k : Machine W} (h : SameLines m g) (h' : SameLines g k) :
    SameLines m k := ⟨h.lines.trans h'.lines, h.mmu.trans h'.mmu, h.mem.trans h'.mem⟩

theorem SameLines.setCache (h : SameLines m g) (hsets : c.sets = d.sets) :
    SameLines (m.setCache c) (g.setCache d) := by
  refine ⟨?_, h.mmu, h.mem⟩
  change some c.sets = some d.sets
  rw [hsets]

theorem SameLines.cases (h : SameLines m g) : m.vm.cache = none ∧ g.vm.cache = none ∨
    ∃ (sets : Fin 16 → Line ℕ Word18) (hits misses evictions hits' misses' evictions' : ℕ),
      m.vm.cache = some ⟨sets, hits, misses, evictions⟩ ∧
        g.vm.cache = some ⟨sets, hits', misses', evictions'⟩ := by
  have hlines := h.lines
  unfold Machine.lines at hlines
  cases hm : m.vm.cache with
  | none =>
    rw [hm] at hlines
    exact .inl ⟨rfl, Option.map_eq_none_iff.mp hlines.symm⟩
  | some c =>
    cases hg : g.vm.cache with
    | none =>
      rw [hm, hg] at hlines
      cases hlines
    | some d =>
      rw [hm, hg] at hlines
      obtain ⟨sets, hits, misses, evictions⟩ := c
      obtain ⟨sets', hits', misses', evictions'⟩ := d
      obtain rfl : sets = sets' := Option.some.inj hlines
      exact .inr ⟨sets, hits, misses, evictions, hits', misses', evictions', rfl, rfl⟩

theorem SameLines.memGetRaw (h : SameLines m g) (a : ℕ) :
    Vm.memGetRaw m a = Vm.memGetRaw g a := by
  rw [Vm.memGetRaw, Vm.memGetRaw, h.mmu, h.mem]

theorem SameLines.memSetRaw (h : SameLines m g) (a : ℕ) (w : Word18) :
    (∃ e, Vm.memSetRaw m a w = .error e ∧ Vm.memSetRaw g a w = .error e) ∨
      ∃ m' g', Vm.memSetRaw m a w = .ok m' ∧ Vm.memSetRaw g a w = .ok g' ∧ SameLines m' g' := by
  unfold Vm.memSetRaw
  rw [← h.mmu]
  cases mmuTranslate m.vm.mmu a with
  | error e => exact .inl ⟨e, rfl, rfl⟩
  | ok p => exact .inr ⟨_, _, rfl, rfl, h.lines, h.mmu, congrArg (Function.update · p w) h.mem⟩

theorem SameLines.fetch (h : SameLines m g) (hsets : c.sets = d.sets) (a : ℕ) :
    (cacheFetch m c a).1 = (cacheFetch g d a).1 ∧
      SameLines (cacheFetch m c a).2 (cacheFetch g d a).2 := by
  unfold cacheFetch
  rw [← h.memGetRaw]
  cases Vm.memGetRaw m a with
  | error e => exact ⟨rfl, h.setCache hsets⟩
  | ok w => exact ⟨rfl, h.setCache (by rw [Cache.setLine, Cache.setLine, hsets])⟩

theorem SameLines.load (h : SameLines m g) (a : ℕ) :
    (cacheLoad m a).1 = (cacheLoad g a).1 ∧ SameLines (cacheLoad m a).2 (cacheLoad g a).2 := by
  unfold cacheLoad
  rcases h.cases with ⟨hm, hg⟩ | ⟨sets, _, _, _, _, _, _, hm, hg⟩
  · rw [hm, hg]
    exact ⟨rfl, h⟩
  · rw [hm, hg]
    dsimp only
    split
    · exact ⟨rfl, h.setCache rfl⟩
    split
    · rcases h.memSetRaw (sets (setIndex a)).tag (sets (setIndex a)).value with
        ⟨e, hme, hge⟩ | ⟨m', g', hme, hge, hsame⟩
      · rw [hme, hge]
        exact ⟨rfl, h.setCache rfl⟩
      · rw [hme, hge]
        exact hsame.fetch (by rfl) a
    · exact h.fetch (by rfl) a

theorem SameLines.store (h : SameLines m g) (a : ℕ) (w : Word18) :
    (cacheStore m a w).1 = (cacheStore g a w).1 ∧
      SameLines (cacheStore m a w).2 (cacheStore g a w).2 := by
  unfold cacheStore
  rcases h.cases with ⟨hm, hg⟩ | ⟨sets, _, _, _, _, _, _, hm, hg⟩
  · rw [hm, hg]
    exact ⟨rfl, h⟩
  · rw [hm, hg]
    dsimp only
    split
    · rcases h.memSetRaw (sets (setIndex a)).tag (sets (setIndex a)).value with
        ⟨e, hme, hge⟩ | ⟨m', g', hme, hge, hsame⟩
      · rw [hme, hge]
        exact ⟨rfl, h.setCache rfl⟩
      · rw [hme, hge]
        exact ⟨rfl, hsame.setCache rfl⟩
    · exact ⟨rfl, h.setCache rfl⟩

theorem SameLines.flush (h : SameLines m g) (a : ℕ) :
    (cacheFlush m a).1 = (cacheFlush g a).1 ∧ SameLines (cacheFlush m a).2 (cacheFlush g a).2 := by
  unfold cacheFlush
  rcases h.cases with ⟨hm, hg⟩ | ⟨sets, _, _, _, _, _, _, hm, hg⟩
  · rw [hm, hg]
    exact ⟨rfl, h⟩
  · rw [hm, hg]
    dsimp only
    split
    · rcases h.memSetRaw (sets (setIndex a)).tag (sets (setIndex a)).value with
        ⟨e, hme, hge⟩ | ⟨m', g', hme, hge, hsame⟩
      · rw [hme, hge]
        exact ⟨rfl, h⟩
      · rw [hme, hge]
        exact ⟨rfl, hsame.setCache rfl⟩
    · exact ⟨rfl, h⟩

theorem SameLines.invalidate (h : SameLines m g) (a : ℕ) :
    (cacheInvalidate m a).1 = (cacheInvalidate g a).1 ∧
      SameLines (cacheInvalidate m a).2 (cacheInvalidate g a).2 := by
  unfold cacheInvalidate
  rcases h.cases with ⟨hm, hg⟩ | ⟨sets, _, _, _, _, _, _, hm, hg⟩
  · rw [hm, hg]
    exact ⟨rfl, h⟩
  · rw [hm, hg]
    dsimp only
    split
    · exact ⟨rfl, h.setCache rfl⟩
    · exact ⟨rfl, h⟩

theorem SameLines.flushInvalidate (h : SameLines m g) (a : ℕ) :
    (cacheFlushInvalidate m a).1 = (cacheFlushInvalidate g a).1 ∧
      SameLines (cacheFlushInvalidate m a).2 (cacheFlushInvalidate g a).2 := by
  obtain ⟨hres, hsame⟩ := h.flush a
  unfold cacheFlushInvalidate
  dsimp only
  rw [← hres]
  split
  · exact hsame.invalidate a
  · exact ⟨hres, hsame⟩

theorem SameLines.flushSet (h : SameLines m g) (i : Fin 16) :
    (cacheFlushSet m i).1 = (cacheFlushSet g i).1 ∧
      SameLines (cacheFlushSet m i).2 (cacheFlushSet g i).2 := by
  unfold cacheFlushSet
  rcases h.cases with ⟨hm, hg⟩ | ⟨sets, _, _, _, _, _, _, hm, hg⟩
  · rw [hm, hg]
    exact ⟨rfl, h⟩
  · rw [hm, hg]
    dsimp only
    split
    · rcases h.memSetRaw (sets i).tag (sets i).value with
        ⟨e, hme, hge⟩ | ⟨m', g', hme, hge, hsame⟩
      · rw [hme, hge]
        exact ⟨rfl, h⟩
      · rw [hme, hge]
        exact ⟨rfl, hsame.setCache rfl⟩
    · exact ⟨rfl, h⟩

theorem SameLines.flushSets (h : SameLines m g) (is : List (Fin 16)) :
    (cacheFlushSets m is).1 = (cacheFlushSets g is).1 ∧
      SameLines (cacheFlushSets m is).2 (cacheFlushSets g is).2 := by
  induction is generalizing m g with
  | nil => exact ⟨rfl, h⟩
  | cons i is ih =>
    obtain ⟨hres, hsame⟩ := h.flushSet i
    unfold cacheFlushSets
    dsimp only
    rw [← hres]
    split
    · exact ih hsame
    · exact ⟨hres, hsame⟩

theorem SameLines.flushAll (h : SameLines m g) :
    (cacheFlushAll m).1 = (cacheFlushAll g).1 ∧
      SameLines (cacheFlushAll m).2 (cacheFlushAll g).2 := by
  unfold cacheFlushAll
  rcases h.cases with ⟨hm, hg⟩ | ⟨sets, _, _, _, _, _, _, hm, hg⟩
  · rw [hm, hg]
    exact ⟨rfl, h⟩
  · rw [hm, hg]
    exact h.flushSets _

theorem perform_load (m : Machine W) (a : ℕ) :
    (CacheOp.perform m (.load a)).2 = (cacheLoad m a).2 := by
  unfold CacheOp.perform
  dsimp only
  split
  next hload => rw [hload]
  next hload => rw [hload]

theorem perform_load_ok {m : Machine W} {a : ℕ} {w : Word18} (h : (cacheLoad m a).1 = .ok w) :
    (CacheOp.perform m (.load a)).1 = (Err.ok, some w) := by
  unfold CacheOp.perform
  dsimp only
  split
  next hload =>
    rw [hload] at h
    rw [Except.ok.inj h]
  next hload =>
    rw [hload] at h
    cases h

theorem perform_load_error {m : Machine W} {a : ℕ} {e : Err}
    (h : (cacheLoad m a).1 = .error e) : (CacheOp.perform m (.load a)).1 = (e, none) := by
  unfold CacheOp.perform
  dsimp only
  split
  next hload =>
    rw [hload] at h
    cases h
  next hload =>
    rw [hload] at h
    rw [Except.error.inj h]

theorem perform_load_word {m : Machine W} {a : ℕ} {w : Word18}
    (h : (CacheOp.perform m (.load a)).1 = (Err.ok, some w)) : (cacheLoad m a).1 = .ok w := by
  cases hload : (cacheLoad m a).1 with
  | error e =>
    rw [perform_load_error hload] at h
    cases (Prod.mk.inj h).2
  | ok v =>
    rw [perform_load_ok hload] at h
    rw [Option.some.inj (Prod.mk.inj h).2]

theorem perform_same (m : Machine W) (op : CacheOp) : SameButCache m (op.perform m).2 := by
  cases op with
  | load a =>
    rw [perform_load]
    exact cacheLoad_same m a
  | store a w => exact cacheStore_same m a w
  | flush a => exact cacheFlush_same m a
  | invalidate a => exact cacheInvalidate_same m a
  | flushInvalidate a => exact cacheFlushInvalidate_same m a
  | flushAll => exact cacheFlushAll_same m

theorem refused_of_unchanged {m : Machine W} {op : CacheOp} {e : Err} (he : e ≠ Err.ok)
    (h : op.perform m = ((e, none), m)) : Refused m op := by
  rw [Refused, h]
  exact ⟨he, rfl, rfl⟩

/-- What an operation does depends on the lines and the memory under them only. -/
theorem SameLines.perform (h : SameLines m g) (op : CacheOp) :
    (op.perform m).1 = (op.perform g).1 ∧ SameLines (op.perform m).2 (op.perform g).2 := by
  cases op with
  | load a =>
    obtain ⟨hres, hsame⟩ := h.load a
    unfold CacheOp.perform
    dsimp only
    revert hres hsame
    rcases cacheLoad m a with ⟨_ | _, m'⟩ <;> rcases cacheLoad g a with ⟨_ | _, g'⟩ <;>
      intro hres hsame <;> cases hres <;> exact ⟨rfl, hsame⟩
  | store a w =>
    obtain ⟨hres, hsame⟩ := h.store a w
    exact ⟨congrArg (·, none) hres, hsame⟩
  | flush a =>
    obtain ⟨hres, hsame⟩ := h.flush a
    exact ⟨congrArg (·, none) hres, hsame⟩
  | invalidate a =>
    obtain ⟨hres, hsame⟩ := h.invalidate a
    exact ⟨congrArg (·, none) hres, hsame⟩
  | flushInvalidate a =>
    obtain ⟨hres, hsame⟩ := h.flushInvalidate a
    exact ⟨congrArg (·, none) hres, hsame⟩
  | flushAll =>
    obtain ⟨hres, hsame⟩ := h.flushAll
    exact ⟨congrArg (·, none) hres, hsame⟩

end Congruence

section Unmapped

variable {m : Machine W} {c : Cache} {a : ℕ}

theorem translate_unmapped {mmu : Mmu} (ha : a ∉ Mapped mmu) :
    mmuTranslate mmu a = .error Err.notFound := by
  unfold mmuTranslate
  cases hfind : mmu.regions.find? fun r => r.contains a with
  | none => rfl
  | some r =>
    refine absurd ⟨r.buffer + (a - r.baseAddr), ?_⟩ ha
    rw [mmuTranslate, hfind]

theorem memSetRaw_unmapped (ha : a ∉ Mapped m.vm.mmu) (w : Word18) :
    memSetRaw m a w = .error Err.notFound := by
  rw [memSetRaw, translate_unmapped ha]

theorem cacheFetch_unmapped (ha : a ∉ Mapped m.vm.mmu) :
    cacheFetch m c a = (.error Err.notFound, m.setCache c) := by
  rw [cacheFetch, memGetRaw, translate_unmapped ha]

theorem memSetRaw_cases (m : Machine W) (a : ℕ) (w : Word18) :
    a ∉ Mapped m.vm.mmu ∧ memSetRaw m a w = .error Err.notFound ∨
      ∃ p g, mmuTranslate m.vm.mmu a = .ok p ∧ memSetRaw m a w = .ok g ∧ g.vm = m.vm ∧
        g.mem = Function.update m.mem p w := by
  by_cases ha : a ∈ Mapped m.vm.mmu
  · obtain ⟨p, hp⟩ := ha
    refine .inr ⟨p, { m with mem := Function.update m.mem p w }, hp, ?_, rfl, rfl⟩
    rw [memSetRaw, hp]
  · exact .inl ⟨ha, memSetRaw_unmapped ha w⟩

theorem lines_of_cache (hc : m.vm.cache = some c) : m.lines = some c.sets := by
  rw [Machine.lines, hc]
  rfl

/-- Writing a line down leaves memory as it is where memory agrees with the line. -/
theorem update_mem_iff {p : ℕ} {w : Word18} (hp : mmuTranslate m.vm.mmu a = .ok p) :
    Function.update m.mem p w = m.mem ↔ m.word a = w := by
  have hword : m.word a = m.mem p := by rw [Machine.word, memGetRaw, hp]
  rw [hword]
  constructor
  · intro hkept
    rw [← congrFun hkept p, Function.update_self]
  · intro hw
    rw [← hw, Function.update_eq_self]

theorem cacheLoad_hit (hc : m.vm.cache = some c)
    (hhit : (c.sets (setIndex a)).state ≠ .invalid ∧ (c.sets (setIndex a)).tag = a) :
    (cacheLoad m a).1 = .ok (c.sets (setIndex a)).value := by
  unfold cacheLoad
  rw [hc]
  dsimp only
  rw [if_pos hhit]

/-- A load that misses fails; it may have written the line of its set down. -/
theorem cacheLoad_unmapped_miss (hc : m.vm.cache = some c) (ha : a ∉ Mapped m.vm.mmu)
    (hmiss : ¬ ((c.sets (setIndex a)).state ≠ .invalid ∧ (c.sets (setIndex a)).tag = a)) :
    (cacheLoad m a).1 = .error Err.notFound ∧ (cacheLoad m a).2.lines = m.lines ∧
      ((cacheLoad m a).2.mem = m.mem ↔
        ((c.sets (setIndex a)).tag ∈ Mapped m.vm.mmu → Synced (c.sets (setIndex a)) m.word)) := by
  have hlines := (lines_of_cache hc).symm
  unfold cacheLoad
  rw [hc]
  dsimp only
  rw [if_neg hmiss]
  by_cases hdirty : (c.sets (setIndex a)).state = .dirty
  · rw [if_pos hdirty]
    rcases memSetRaw_cases m (c.sets (setIndex a)).tag (c.sets (setIndex a)).value with
      ⟨hout, hset⟩ | ⟨p, g, hp, hset, hvm, hmem⟩
    · rw [hset]
      exact ⟨rfl, hlines, fun _ hin => absurd hin hout, fun _ => rfl⟩
    · rw [hset]
      dsimp only
      rw [cacheFetch_unmapped (hvm ▸ ha)]
      refine ⟨rfl, hlines, ?_⟩
      change g.mem = m.mem ↔ _
      rw [hmem, update_mem_iff hp]
      exact ⟨fun hword _ _ => hword, fun hsynced => hsynced ⟨p, hp⟩ hdirty⟩
  · rw [if_neg hdirty, cacheFetch_unmapped ha]
    exact ⟨rfl, hlines, fun _ _ => synced_of_not_dirty hdirty, fun _ => rfl⟩

theorem cacheStore_refused_iff (hc : m.vm.cache = some c) (w : Word18) :
    Refused m (.store a w) ↔ Refusable m c (.store a w) := by
  have hfail : Err.notFound ≠ Err.ok := by decide
  unfold Refused Refusable CacheOp.perform cacheStore
  rw [hc]
  dsimp only
  by_cases hdirty : (c.sets (setIndex a)).state = .dirty ∧ (c.sets (setIndex a)).tag ≠ a
  · rw [if_pos hdirty]
    rcases memSetRaw_cases m (c.sets (setIndex a)).tag (c.sets (setIndex a)).value with
      ⟨hout, hset⟩ | ⟨p, g, hp, hset, -, -⟩
    · rw [hset]
      exact iff_of_true ⟨hfail, (lines_of_cache hc).symm, rfl⟩ ⟨hdirty.1, hdirty.2, hout⟩
    · rw [hset]
      exact iff_of_false (fun hrefused => hrefused.1 rfl) fun hstray => hstray.2.2 ⟨p, hp⟩
  · rw [if_neg hdirty]
    exact iff_of_false (fun hrefused => hrefused.1 rfl) fun hstray =>
      hdirty ⟨hstray.1, hstray.2.1⟩

/-- A flush fails where it has to write a line of its own stray address down. -/
theorem cacheFlush_unmapped (hc : m.vm.cache = some c) (ha : a ∉ Mapped m.vm.mmu) :
    cacheFlush m a =
      (if (c.sets (setIndex a)).state = .dirty ∧ (c.sets (setIndex a)).tag = a
        then Err.notFound else Err.ok, m) := by
  unfold cacheFlush
  rw [hc]
  dsimp only
  split
  next hdirty => rw [hdirty.2, memSetRaw_unmapped ha]
  · rfl

theorem cacheInvalidate_ok (hc : m.vm.cache = some c) : (cacheInvalidate m a).1 = Err.ok := by
  unfold cacheInvalidate
  rw [hc]
  dsimp only
  split <;> rfl

theorem cacheFlush_refused_iff (hc : m.vm.cache = some c) (ha : a ∉ Mapped m.vm.mmu) :
    Refused m (.flush a) ↔ Refusable m c (.flush a) := by
  have hflush := cacheFlush_unmapped hc ha
  by_cases hdirty : (c.sets (setIndex a)).state = .dirty ∧ (c.sets (setIndex a)).tag = a
  · rw [if_pos hdirty] at hflush
    refine iff_of_true (refused_of_unchanged (e := Err.notFound) (by decide) ?_) hdirty
    rw [CacheOp.perform, hflush]
  · rw [if_neg hdirty] at hflush
    exact iff_of_false (fun hrefused => hrefused.1 (congrArg Prod.fst hflush)) hdirty

theorem cacheFlushInvalidate_refused_iff (hc : m.vm.cache = some c) (ha : a ∉ Mapped m.vm.mmu) :
    Refused m (.flushInvalidate a) ↔ Refusable m c (.flushInvalidate a) := by
  have hflush := cacheFlush_unmapped hc ha
  by_cases hdirty : (c.sets (setIndex a)).state = .dirty ∧ (c.sets (setIndex a)).tag = a
  · rw [if_pos hdirty] at hflush
    refine iff_of_true (refused_of_unchanged (e := Err.notFound) (by decide) ?_) hdirty
    rw [CacheOp.perform, cacheFlushInvalidate, hflush]
    rfl
  · rw [if_neg hdirty] at hflush
    have hdrop : cacheFlushInvalidate m a = cacheInvalidate m a := by
      rw [cacheFlushInvalidate, hflush]
      exact if_pos rfl
    refine iff_of_false (fun hrefused => hrefused.1 ?_) hdirty
    rw [CacheOp.perform, hdrop]
    exact cacheInvalidate_ok hc

theorem refused_iff (hc : m.vm.cache = some c) {op : CacheOp} (hop : ¬ op.Inside m.vm.mmu) :
    Refused m op ↔ Refusable m c op := by
  have hout : ∀ a, op.addr? = some a → a ∉ Mapped m.vm.mmu := by
    intro a ha hin
    refine hop fun b hb => ?_
    obtain rfl := Option.some.inj (ha.symm.trans hb)
    exact hin
  cases op with
  | load a =>
    unfold Refused
    rw [perform_load]
    by_cases hhit : (c.sets (setIndex a)).state ≠ .invalid ∧ (c.sets (setIndex a)).tag = a
    · rw [perform_load_ok (cacheLoad_hit hc hhit)]
      exact iff_of_false (fun hrefused => hrefused.1 rfl) fun hmiss => hmiss.1 hhit
    · obtain ⟨herr, hlines, hmem⟩ := cacheLoad_unmapped_miss hc (hout a rfl) hhit
      rw [perform_load_error herr, hmem]
      exact ⟨fun hrefused => ⟨hhit, hrefused.2.2⟩, fun h => ⟨by decide, hlines, h.2⟩⟩
  | store a w => exact cacheStore_refused_iff hc w
  | flush a => exact cacheFlush_refused_iff hc (hout a rfl)
  | invalidate a => exact iff_of_false (fun hrefused => hrefused.1 (cacheInvalidate_ok hc)) id
  | flushInvalidate a => exact cacheFlushInvalidate_refused_iff hc (hout a rfl)
  | flushAll => exact absurd (fun a ha => nomatch ha) hop

theorem perform_detached (hc : m.vm.cache = none) (op : CacheOp) :
    op.perform m = ((Err.invalidArg, none), m) := by
  cases op with
  | load a =>
    unfold CacheOp.perform cacheLoad
    rw [hc]
  | store a w =>
    unfold CacheOp.perform cacheStore
    rw [hc]
  | flush a =>
    unfold CacheOp.perform cacheFlush
    rw [hc]
  | invalidate a =>
    unfold CacheOp.perform cacheInvalidate
    rw [hc]
  | flushInvalidate a =>
    unfold CacheOp.perform cacheFlushInvalidate cacheFlush
    rw [hc]
    rfl
  | flushAll =>
    unfold CacheOp.perform cacheFlushAll
    rw [hc]

end Unmapped

theorem refused_iff_refusable {t t' : Twins W} {op : CacheOp} :
    (¬ op.Inside t.machine.vm.mmu → Refused t.machine op) ↔ UnmappedRefusable t op t' := by
  constructor
  · intro hrefused hout c hc
    exact (refused_iff hc hout).mp (hrefused hout)
  · intro hrefusable hout
    cases hc : t.machine.vm.cache with
    | none => exact refused_of_unchanged (by decide) (perform_detached hc op)
    | some c => exact (refused_iff hc hout).mpr (hrefusable hout c hc)

/-- Nothing changes at a refused access, so the twin keeps the lines and the memory. -/
theorem SameLines.step {t t' : Twins W} {op : CacheOp} (h : SameLines t.machine t.mapped)
    (hstep : TwinStep t op t') (hrefusable : UnmappedRefusable t op t') :
    SameLines t'.machine t'.mapped := by
  cases hstep with
  | mapped hin => exact (h.perform op).2
  | unmapped hout =>
    obtain ⟨-, hlines, hmem⟩ := refused_iff_refusable.mpr hrefusable hout
    exact .trans ⟨hlines, (perform_same _ op).mmu, hmem⟩ h

/-- The VM starts with its twin beside it. -/
theorem unmapped_refused_iff (m : Machine W) (ops : List CacheOp) (t : Twins W) :
    Always TwinStep Harmless ⟨m, m⟩ ops t ↔ Always TwinStep UnmappedRefusable ⟨m, m⟩ ops t := by
  refine Always.iff_of_kept (fun t => SameLines t.machine t.mapped)
    (fun _ _ _ hs h hrefusable => hs.step h hrefusable) ?_ (.refl m)
  intro s op u hs _
  exact ⟨fun hharmless => refused_iff_refusable.mp hharmless.2,
    fun hrefusable => ⟨fun _ => (hs.perform op).1, refused_iff_refusable.mpr hrefusable⟩⟩

theorem storeLoad_mapped {a : ℕ} : a ∈ Mapped storeLoadMachine.vm.mmu ↔ a < 4 := by
  constructor
  · rintro ⟨p, hp⟩
    obtain ⟨r, hr, hin, -⟩ := translate_eq_ok hp
    obtain rfl := List.mem_singleton.mp hr
    simpa [Region.contains] using hin
  · intro ha
    refine ⟨100 + (a - 0), ?_⟩
    simp [mmuTranslate, storeLoadMachine, Region.contains, ha]

theorem storeLoad_inside {op : CacheOp} {a : ℕ} (hop : op.addr? = some a) (ha : a < 4) :
    op.Inside storeLoadMachine.vm.mmu := by
  intro b hb
  obtain rfl := Option.some.inj (hop.symm.trans hb)
  exact storeLoad_mapped.mpr ha

/-- Four words are mapped at address 0, and the store to 16 is accepted. The load of 0 that
evicts its line then fails, where it would return the word at 0. -/
theorem unmapped_store_accepted : storeLoadMachine.vm.cache = some cacheInit ∧
    16 ∉ Mapped storeLoadMachine.vm.mmu ∧ 0 ∈ Mapped storeLoadMachine.vm.mmu ∧
    (cacheStore storeLoadMachine 16 zeroWord).1 = Err.ok ∧
    (cacheLoad storeLoadMachine 0).1 = .ok zeroWord ∧
    (cacheLoad (cacheStore storeLoadMachine 16 zeroWord).2 0).1 = .error Err.notFound ∧
    ∃ t : Twins Unit,
      Run TwinStep ⟨storeLoadMachine, storeLoadMachine⟩ [.store 16 zeroWord, .load 0] t ∧
        ¬ Always TwinStep Harmless ⟨storeLoadMachine, storeLoadMachine⟩
          [.store 16 zeroWord, .load 0] t := by
  have hout : ¬ CacheOp.Inside (.store 16 zeroWord) storeLoadMachine.vm.mmu :=
    fun h => absurd (storeLoad_mapped.mp (h 16 rfl)) (by decide)
  refine ⟨rfl, fun h => absurd (storeLoad_mapped.mp h) (by decide),
    storeLoad_mapped.mpr (by decide), rfl, rfl, rfl, _,
    .cons (.unmapped hout) (.cons (.mapped (storeLoad_inside rfl (by decide))) (.nil _)), ?_⟩
  intro h
  cases h with
  | cons _ hharmless _ => exact (hharmless.2 hout).1 rfl

end ReflexOS.Vm
