import ReflexOS.KernelHeapCheck
import ReflexOS.Runs
import Mathlib.Logic.Function.Basic

set_option autoImplicit false

/-!
# The heap and its callers

Callers ask for memory, resize it, give it back and write into what they hold. The requests
that are still served are recorded beside the heap.
-/
namespace ReflexOS.Kernel
open ByteMemory BlockList Runs

structure HeapRequest where
  size : ℕ
  align : ℕ
deriving DecidableEq

/-- The heap with the payloads handed out and not given back. -/
structure Callers where
  heap : Heap
  live : ℕ → Option HeapRequest

inductive Call where
  | alloc (size : ℕ)
  | allocAligned (align size : ℕ)
  | realloc (p size : ℕ)
  | free (p : ℕ)
  | store (p i : ℕ) (v : UInt8)

namespace Callers

/-- A result of the allocator: NULL hands out nothing. -/
def hand (C : Callers) (r : ℕ × Heap) (q : HeapRequest) : Callers :=
  if r.1 = 0 then ⟨r.2, C.live⟩ else ⟨r.2, Function.update C.live r.1 (some q)⟩

def drop (C : Callers) (H : Heap) (p : ℕ) : Callers := ⟨H, Function.update C.live p none⟩

/-- A call, with the pointer it returns. -/
def perform (C : Callers) : Call → ℕ × Callers
  | .alloc size =>
    let r := heapAlloc C.heap size
    (r.1, C.hand r ⟨size, heapAlign⟩)
  | .allocAligned align size =>
    let r := heapAllocAligned C.heap align size
    (r.1, C.hand r ⟨size, align⟩)
  | .realloc p size =>
    let r := heapRealloc C.heap p size
    (r.1,
      if size = 0 then C.drop r.2 p
      else if r.1 = 0 then ⟨r.2, C.live⟩
      else (C.drop r.2 p).hand r ⟨size, heapAlign⟩)
  | .free p => (0, C.drop (heapFree C.heap p) p)
  | .store p i v => (0, ⟨{ C.heap with mem := Function.update C.heap.mem (p + i) v }, C.live⟩)

def Live (C : Callers) (p : ℕ) : Prop := C.live p ≠ none

/-- Pointers passed are NULL or live, sizes and alignments at most `R`, stores into blocks held. -/
def Permitted (R : ℕ) (C : Callers) : Call → Prop
  | .alloc size => size ≤ R
  | .allocAligned align size => align ≤ R ∧ size ≤ R
  | .realloc p size => (p = 0 ∨ C.Live p) ∧ size ≤ R
  | .free p => p = 0 ∨ C.Live p
  | .store p i _ => C.Live p ∧ i < heapBlockSize C.heap p

/-- What a call asks of its caller, whatever the size: an aligned search has to meet no free block
too close to the top of the word. -/
def Admitted (C : Callers) (bs : List Block) : Call → Prop
  | .alloc _ => True
  | .allocAligned align size => ∀ k, align = 2 ^ k → k ≤ 31 ∧
      (size ≠ 0 → sizeIsSane size = true →
        Addable (2 ^ max k 3) (wanted size) C.heap.regionLo bs)
  | .realloc p _ => p = 0 ∨ C.Live p
  | .free p => p = 0 ∨ C.Live p
  | .store p i _ => C.Live p ∧ i < heapBlockSize C.heap p

def Step (C : Callers) (c : Call) (D : Callers) : Prop := D = (C.perform c).2

/-- The callers before the first call. -/
def start (mem : Memory) (base size : ℕ) : Callers := ⟨heapInit mem base size, fun _ => none⟩

/-- The payloads in use are the ones handed out, and each serves its request. -/
structure Tracked (C : Callers) (bs : List Block) : Prop where
  sound : Sound C.heap bs
  total : C.heap.regionLo + hdr + C.heap.total = C.heap.regionHi
  live_iff : ∀ p, C.Live p ↔ ∃ n, (p, n) ∈ held hdr C.heap.regionLo bs
  served : ∀ p q n, C.live p = some q → (p, n) ∈ held hdr C.heap.regionLo bs →
    q.size ≤ n ∧ p % q.align = 0

variable {C : Callers} {bs : List Block} {R : ℕ}

theorem Tracked.ne_nil (h : C.Tracked bs) : bs ≠ [] := by
  rintro rfl
  have htile := h.sound.laid.tile
  have htotal := h.total
  simp only [spans_nil, hdr] at *
  omega

theorem Tracked.block_size (h : C.Tracked bs) {p n : ℕ}
    (hp : (p, n) ∈ held hdr C.heap.regionLo bs) : heapBlockSize C.heap p = n := by
  obtain ⟨xs, b, ys, rfl, -, hpa, rfl⟩ := exists_of_held hp
  unfold heapBlockSize
  rw [if_pos (h.sound.passes hp).1, hpa, blockOf, Nat.add_sub_cancel]
  exact (h.sound.laid.header rfl).size

theorem Tracked.null (h : C.Tracked bs) : ¬ C.Live 0 := by
  rw [h.live_iff]
  rintro ⟨n, hn⟩
  exact (h.sound.passes hn).2.2 rfl

/-- Another record of the requests over what a call leaves. -/
theorem Tracked.relist (h : C.Tracked bs) {H' : Heap} {bs' : List Block}
    (he : Evolved C.heap H' bs') {live' : ℕ → Option HeapRequest}
    (hlive : ∀ p, live' p ≠ none ↔ ∃ n, (p, n) ∈ held hdr C.heap.regionLo bs')
    (hserved : ∀ p q n, live' p = some q → (p, n) ∈ held hdr C.heap.regionLo bs' →
      q.size ≤ n ∧ p % q.align = 0) : Tracked ⟨H', live'⟩ bs' := by
  refine ⟨he.sound, ?_, fun p => ?_, fun p q n hp hn => ?_⟩
  · rw [he.regionLo, he.regionHi, he.total]
    exact h.total
  · rw [he.regionLo]
    exact hlive p
  · rw [he.regionLo] at hn
    exact hserved p q n hp hn

theorem hand_heap {r : ℕ × Heap} {q : HeapRequest} : (C.hand r q).heap = r.2 := by
  unfold hand
  split <;> rfl

theorem hand_of_ne {H' : Heap} {p : ℕ} {q : HeapRequest} (hp : p ≠ 0) :
    C.hand (p, H') q = ⟨H', Function.update C.live p (some q)⟩ := if_neg hp

theorem Tracked.grant (h : C.Tracked bs) {H' : Heap} {bs' : List Block} {p n : ℕ} {q : HeapRequest}
    (hg : Granted C.heap H' bs bs' p n) (hn : q.size ≤ n) (hp : p % q.align = 0) :
    Tracked (C.hand (p, H') q) bs' := by
  have hnew := (hg.mem_held p n).mpr (.inl ⟨rfl, rfl⟩)
  rw [← hg.evolved.regionLo] at hnew
  rw [hand_of_ne (hg.evolved.sound.passes hnew).2.2]
  apply h.relist hg.evolved
  · intro r
    by_cases hr : r = p
    · subst hr
      rw [Function.update_self]
      exact ⟨fun _ => ⟨n, (hg.mem_held r n).mpr (.inl ⟨rfl, rfl⟩)⟩, fun _ => by simp⟩
    · rw [Function.update_of_ne hr]
      refine (h.live_iff r).trans ⟨fun ⟨m, hm⟩ => ⟨m, (hg.mem_held r m).mpr (.inr hm)⟩,
        fun ⟨m, hm⟩ => ⟨m, ((hg.mem_held r m).mp hm).resolve_left fun hpr => hr hpr.1⟩⟩
  · intro r q' m hq hm
    have hm' := (hg.mem_held r m).mp hm
    by_cases hr : r = p
    · subst hr
      rw [Function.update_self, Option.some.injEq] at hq
      obtain ⟨-, rfl⟩ := hm'.resolve_right (hg.fresh m)
      exact hq ▸ ⟨hn, hp⟩
    · rw [Function.update_of_ne hr] at hq
      exact h.served r q' m hq (hm'.resolve_left fun hpr => hr hpr.1)

theorem Tracked.drop (h : C.Tracked bs) {H' : Heap} {bs' : List Block} {p : ℕ}
    (hf : Freed C.heap H' bs bs' p) : Tracked (C.drop H' p) bs' := by
  apply h.relist hf.evolved
  · intro r
    by_cases hr : r = p
    · subst hr
      rw [Function.update_self]
      exact ⟨fun hne => absurd rfl hne, fun ⟨m, hm⟩ => absurd rfl ((hf.mem_held r m).mp hm).1⟩
    · rw [Function.update_of_ne hr]
      refine (h.live_iff r).trans ⟨fun ⟨m, hm⟩ => ⟨m, (hf.mem_held r m).mpr ⟨hr, hm⟩⟩,
        fun ⟨m, hm⟩ => ⟨m, ((hf.mem_held r m).mp hm).2⟩⟩
  · intro r q m hq hm
    have hm' := (hf.mem_held r m).mp hm
    rw [Function.update_of_ne hm'.1] at hq
    exact h.served r q m hq hm'.2

theorem drop_live_self {H' : Heap} {p : ℕ} : (C.drop H' p).live p = none :=
  Function.update_self _ _ _

theorem drop_live_of_ne {H' : Heap} {p r : ℕ} (hr : r ≠ p) : (C.drop H' p).live r = C.live r :=
  Function.update_of_ne hr _ _

theorem Tracked.resize (h : C.Tracked bs) {H' : Heap} {bs' : List Block} {p n p' n' size : ℕ}
    {q : HeapRequest} (hr : Resized C.heap H' bs bs' p n p' n' size) (hn : q.size ≤ n')
    (hp : p' % q.align = 0) : Tracked ((C.drop H' p).hand (p', H') q) bs' := by
  have hnew := (hr.mem_held p' n').mpr (.inl ⟨rfl, rfl⟩)
  rw [← hr.evolved.regionLo] at hnew
  rw [hand_of_ne (hr.evolved.sound.passes hnew).2.2]
  apply h.relist hr.evolved
  · intro r
    by_cases hrp : r = p'
    · subst hrp
      rw [Function.update_self]
      exact ⟨fun _ => ⟨n', (hr.mem_held r n').mpr (.inl ⟨rfl, rfl⟩)⟩, fun _ => by simp⟩
    rw [Function.update_of_ne hrp]
    by_cases hro : r = p
    · subst hro
      rw [drop_live_self]
      refine ⟨fun hne => absurd rfl hne, fun ⟨m, hm⟩ => ?_⟩
      rcases (hr.mem_held r m).mp hm with hm | hm
      · exact absurd hm.1 hrp
      · exact absurd rfl hm.1
    · rw [drop_live_of_ne hro]
      refine (h.live_iff r).trans ⟨fun ⟨m, hm⟩ => ⟨m, (hr.mem_held r m).mpr (.inr ⟨hro, hm⟩)⟩,
        fun ⟨m, hm⟩ => ⟨m, (((hr.mem_held r m).mp hm).resolve_left fun hpr => hrp hpr.1).2⟩⟩
  · intro r q' m hq hm
    have hm' := (hr.mem_held r m).mp hm
    by_cases hrp : r = p'
    · subst hrp
      rw [Function.update_self, Option.some.injEq] at hq
      have hmn : m = n' := by
        rcases hm' with hm' | ⟨hne, hm'⟩
        · exact hm'.2
        · exact absurd hm' (hr.fresh.resolve_left hne m)
      exact hq ▸ hmn ▸ ⟨hn, hp⟩
    · have hold := hm'.resolve_left fun hpr => hrp hpr.1
      rw [Function.update_of_ne hrp, drop_live_of_ne hold.1] at hq
      exact h.served r q' m hq hold.2

/-- Other bytes in the payloads in use, or outside the region. -/
theorem Tracked.rewrite (h : C.Tracked bs) {m : Memory}
    (hm : ∀ x, C.heap.regionLo ≤ x → x < C.heap.regionHi →
      (∀ p n, (p, n) ∈ held hdr C.heap.regionLo bs → ¬ (p ≤ x ∧ x < p + n)) →
        m x = C.heap.mem x) : Tracked ⟨{ C.heap with mem := m }, C.live⟩ bs :=
  h.relist ⟨h.sound.store hm, rfl, rfl, rfl, le_refl _⟩ h.live_iff h.served

theorem Tracked.store (h : C.Tracked bs) {p i : ℕ} {v : UInt8}
    (hok : C.Live p ∧ i < heapBlockSize C.heap p) :
    Tracked (C.perform (.store p i v)).2 bs := by
  obtain ⟨n, hp⟩ := (h.live_iff p).mp hok.1
  have hi := hok.2
  rw [h.block_size hp] at hi
  refine h.rewrite fun x _ _ hx => ?_
  have := hx p n hp
  exact Function.update_of_ne (by omega) _ _

/-- What a call does to the heap, one case for each way it can end. -/
inductive Outcome (C : Callers) (bs : List Block) : Call → ℕ → Callers → Prop where
  | refused {c : Call} : Outcome C bs c 0 C
  | granted {c : Call} {H' : Heap} {bs' : List Block} {p n : ℕ} {q : HeapRequest}
      (hc : c = .alloc q.size ∧ q.align = heapAlign ∨ c = .allocAligned q.align q.size ∨
        c = .realloc 0 q.size ∧ q.align = heapAlign)
      (hg : Granted C.heap H' bs bs' p n) (hn : q.size ≤ n) (hp : p % q.align = 0) :
      Outcome C bs c p (C.hand (p, H') q)
  | freed {c : Call} {H' : Heap} {bs' : List Block} {p : ℕ}
      (hc : c = .free p ∨ c = .realloc p 0) (hf : Freed C.heap H' bs bs' p) :
      Outcome C bs c 0 (C.drop H' p)
  | resized {H' : Heap} {bs' : List Block} {p n p' n' size : ℕ}
      (hp : (p, n) ∈ held hdr C.heap.regionLo bs)
      (hr : Resized C.heap H' bs bs' p n p' n' size) (hn : size ≤ n') (hmod : p' % 8 = 0) :
      Outcome C bs (.realloc p size) p' ((C.drop H' p).hand (p', H') ⟨size, heapAlign⟩)
  | stored {p i : ℕ} {v : UInt8} (hok : C.Live p ∧ i < heapBlockSize C.heap p) :
      Outcome C bs (.store p i v) 0 (C.perform (.store p i v)).2

theorem Tracked.drop_null (h : C.Tracked bs) {H' : Heap} : C.drop H' 0 = ⟨H', C.live⟩ := by
  have hnone : C.live 0 = none := not_not.mp h.null
  rw [Callers.drop, ← hnone, Function.update_eq_self]

theorem hand_null {H' : Heap} {q : HeapRequest} : C.hand (0, H') q = ⟨H', C.live⟩ := if_pos rfl

theorem Tracked.freed (h : C.Tracked bs) {p : ℕ} (hp : C.Live p) :
    ∃ bs', Freed C.heap (heapFree C.heap p) bs bs' p ∧ Outside C.heap (heapFree C.heap p) := by
  obtain ⟨n, hn⟩ := (h.live_iff p).mp hp
  rw [heapFree, if_pos (h.sound.passes hn).1]
  obtain ⟨xs, b, ys, rfl, hb, rfl, rfl⟩ := exists_of_held hn
  exact h.sound.freeLocked hb rfl

theorem Tracked.allocated (h : C.Tracked bs) {c : Call} {k size : ℕ} (hk : k ≤ 31)
    (hadd : sizeIsSane size = true → Addable (2 ^ max k 3) (wanted size) C.heap.regionLo bs)
    (hc : c = .alloc size ∧ 2 ^ k = heapAlign ∨ c = .allocAligned (2 ^ k) size ∨
      c = .realloc 0 size ∧ 2 ^ k = heapAlign) :
    Outcome C bs c (allocLocked C.heap (2 ^ k) size).1
        (C.hand (allocLocked C.heap (2 ^ k) size) ⟨size, 2 ^ k⟩) ∧
      Outside C.heap (allocLocked C.heap (2 ^ k) size).2 := by
  rcases h.sound.allocate h.ne_nil hk hadd with hnone | ⟨p, H', bs', n, hrun, hg, hout, hmod, hn⟩
  · rw [hnone, hand_null]
    exact ⟨.refused, fun _ _ => rfl⟩
  · rw [hrun]
    exact ⟨.granted (q := ⟨size, 2 ^ k⟩) hc hg hn hmod, hout⟩

theorem Tracked.admitted (h : C.Tracked bs) (hR : R < 2 ^ 31) {c : Call} (hok : C.Permitted R c) :
    C.Admitted bs c := by
  cases c with
  | alloc size => trivial
  | allocAligned align size =>
    rintro k rfl
    have hk : k < 31 := (Nat.pow_lt_pow_iff_right (by decide)).mp (lt_of_le_of_lt hok.1 hR)
    exact ⟨le_of_lt hk, fun _ _ =>
      h.sound.addable_small (Nat.le_of_lt_succ hk) (lt_of_le_of_lt hok.2 hR)⟩
  | realloc p size => exact hok.1
  | free p => exact hok
  | store p i v => exact hok

/-- Every admitted call ends in one of the ways listed, and but for a store writes inside the
region only. -/
theorem Tracked.outcome (h : C.Tracked bs) {c : Call} (hok : C.Admitted bs c) :
    Outcome C bs c (C.perform c).1 (C.perform c).2 ∧
      ((∃ p i v, c = .store p i v) ∨ Outside C.heap (C.perform c).2.heap) := by
  cases c with
  | alloc size =>
    obtain ⟨hout, hkeep⟩ := h.allocated (k := 3) (by decide) h.sound.addable_eight (.inl ⟨rfl, rfl⟩)
    refine ⟨hout, .inr ?_⟩
    simp only [perform, hand_heap]
    exact hkeep
  | allocAligned align size =>
    by_cases hbad : align = 0 ∨ align &&& (align - 1) ≠ 0
    · have hnone : heapAllocAligned C.heap align size = (0, C.heap) := if_pos hbad
      simp only [perform, hnone, hand_null]
      exact ⟨.refused, .inr fun _ _ => rfl⟩
    by_cases hsize : size = 0
    · have hnone : heapAllocAligned C.heap align size = (0, C.heap) := by
        rw [heapAllocAligned, if_neg hbad, allocLocked, if_pos (by simp [hsize])]
      simp only [perform, hnone, hand_null]
      exact ⟨.refused, .inr fun _ _ => rfl⟩
    · obtain ⟨k, rfl⟩ := exists_pow_of_accepted hbad
      obtain ⟨hk, hadd⟩ := hok k rfl
      have hgo : heapAllocAligned C.heap (2 ^ k) size = allocLocked C.heap (2 ^ k) size :=
        if_neg hbad
      simp only [perform, hgo, hand_heap]
      obtain ⟨hout, hkeep⟩ := h.allocated hk (hadd hsize) (.inr (.inl rfl))
      exact ⟨hout, .inr hkeep⟩
  | realloc p size =>
    by_cases hp : p = 0
    · subst hp
      have hgo : heapRealloc C.heap 0 size = allocLocked C.heap (2 ^ 3) size := if_pos rfl
      have hsame : (if size = 0 then ⟨(allocLocked C.heap (2 ^ 3) size).2, C.live⟩
          else if (allocLocked C.heap (2 ^ 3) size).1 = 0 then
            ⟨(allocLocked C.heap (2 ^ 3) size).2, C.live⟩
          else Callers.hand ⟨(allocLocked C.heap (2 ^ 3) size).2, C.live⟩
            (allocLocked C.heap (2 ^ 3) size) ⟨size, heapAlign⟩) =
          C.hand (allocLocked C.heap (2 ^ 3) size) ⟨size, heapAlign⟩ := by
        by_cases hz : (allocLocked C.heap (2 ^ 3) size).1 = 0
        · simp only [hand, if_pos hz, ite_self]
        · have hs : size ≠ 0 := by
            rintro rfl
            exact hz (by simp [allocLocked])
          rw [if_neg hs, if_neg hz]
          rfl
      simp only [perform, hgo, h.drop_null, hsame, hand_heap]
      obtain ⟨hout, hkeep⟩ := h.allocated (k := 3) (by decide) h.sound.addable_eight
        (.inr (.inr ⟨rfl, rfl⟩))
      exact ⟨hout, .inr hkeep⟩
    have hlive := hok.resolve_left hp
    by_cases hs : size = 0
    · subst hs
      obtain ⟨bs', hf, hkeep⟩ := h.freed hlive
      have hgo : heapRealloc C.heap p 0 = (0, heapFree C.heap p) := by
        rw [heapRealloc, if_neg hp, if_pos rfl]
      simp only [perform, hgo, if_true]
      exact ⟨.freed (.inr rfl) hf, .inr hkeep⟩
    · obtain ⟨n, hn⟩ := (h.live_iff p).mp hlive
      rcases h.sound.heapRealloc hn (Nat.pos_of_ne_zero hs) with
        hnone | ⟨p', H', bs', n', hrun, hr, hkeep, hle, hmod⟩
      · simp only [perform, hnone, if_neg hs, if_true]
        exact ⟨.refused, .inr fun _ _ => rfl⟩
      · have hnew := (hr.mem_held p' n').mpr (.inl ⟨rfl, rfl⟩)
        rw [← hr.evolved.regionLo] at hnew
        simp only [perform, hrun, if_neg hs, if_neg (hr.evolved.sound.passes hnew).2.2, hand_heap]
        exact ⟨.resized hn hr hle hmod, .inr hkeep⟩
  | free p =>
    by_cases hp : p = 0
    · subst hp
      have hnone : heapFree C.heap 0 = C.heap := by
        rw [heapFree, if_neg]
        simp [plausiblePayload]
      simp only [perform, hnone, h.drop_null]
      exact ⟨.refused, .inr fun _ _ => rfl⟩
    · obtain ⟨bs', hf, hkeep⟩ := h.freed (hok.resolve_left hp)
      exact ⟨.freed (.inl rfl) hf, .inr hkeep⟩
  | store p i v => exact ⟨.stored hok, .inl ⟨p, i, v, rfl⟩⟩

theorem Tracked.perform (h : C.Tracked bs) {c : Call} (hok : C.Admitted bs c) :
    ∃ bs', Tracked (C.perform c).2 bs' ∧ (C.perform c).2.heap.minFree ≤ C.heap.minFree ∧
      (C.perform c).2.heap.total = C.heap.total := by
  generalize hr : (C.perform c).1 = r, hD : (C.perform c).2 = D
  have hout := (h.outcome hok).1
  rw [hr, hD] at hout
  cases hout with
  | refused => exact ⟨bs, h, le_refl _, rfl⟩
  | granted hc hg hn hp =>
    refine ⟨_, h.grant hg hn hp, ?_, ?_⟩ <;> rw [hand_heap]
    · exact hg.evolved.minFree_le
    · exact hg.evolved.total
  | freed hc hf => exact ⟨_, h.drop hf, hf.evolved.minFree_le, hf.evolved.total⟩
  | resized hp hr hn hmod =>
    refine ⟨_, h.resize hr hn hmod, ?_, ?_⟩ <;> rw [hand_heap]
    · exact hr.evolved.minFree_le
    · exact hr.evolved.total
  | stored hok => exact ⟨bs, h.store hok, le_refl _, rfl⟩

/-- The region is one free block again. -/
structure OneFree (H : Heap) (total : ℕ) : Prop where
  check : heapCheck H = true
  next : H.next H.first = 0
  used : H.used H.first = 0
  size : H.size H.first = total
  free : H.free = total

/-- What holds between any two calls. -/
structure Guaranteed (R : ℕ) (C : Callers) : Prop where
  check : heapCheck C.heap = true
  tiled : ∃ bs, Laid C.heap.mem C.heap.regionLo C.heap.regionHi bs ∧ Calm bs ∧
    C.heap.free = freeBytes bs
  mark : ∀ cs D, Run (Guarded (Permitted R) Step) C cs D → D.heap.minFree ≤ C.heap.free
  served : ∀ p q, C.live p = some q → p % q.align = 0 ∧ q.size ≤ heapBlockSize C.heap p ∧
    C.heap.regionLo + hdr ≤ p ∧ p + heapBlockSize C.heap p ≤ C.heap.regionHi
  apart : ∀ p q, C.Live p → C.Live q → p = q ∨ p + heapBlockSize C.heap p ≤ q ∨
    q + heapBlockSize C.heap q ≤ p
  fresh : ∀ c, C.Permitted R c → ¬ C.Live (C.perform c).1 ∨ ∃ size, c = .realloc (C.perform c).1 size
  resized : ∀ p size, C.Live p → 0 < size → size ≤ R →
    heapRealloc C.heap p size = (0, C.heap) ∨
      (heapRealloc C.heap p size).1 ≠ 0 ∧ ∀ i < heapBlockSize C.heap p, i < size →
        (heapRealloc C.heap p size).2.mem ((heapRealloc C.heap p size).1 + i) = C.heap.mem (p + i)
  drained : ∀ ps : List ℕ, ps.Nodup → (∀ p, p ∈ ps ↔ C.Live p) →
    OneFree (ps.foldl heapFree C.heap) C.heap.total

theorem Tracked.drained (h : C.Tracked bs) {ps : List ℕ} (hnd : ps.Nodup)
    (hps : ∀ p, p ∈ ps ↔ C.Live p) : OneFree (ps.foldl heapFree C.heap) C.heap.total := by
  induction ps generalizing C bs with
  | nil =>
    have hnone : held hdr C.heap.regionLo bs = [] := by
      apply List.eq_nil_iff_forall_not_mem.mpr
      rintro ⟨p, n⟩ hp
      exact List.not_mem_nil ((hps p).mpr ((h.live_iff p).mpr ⟨n, hp⟩))
    obtain ⟨b, rfl, hb⟩ := h.sound.calm.single h.ne_nil hnone
    have htile := h.sound.laid.tile
    have htotal := h.total
    have hsize : b.size = C.heap.total := by
      simp only [spans_cons, spans_nil] at htile
      omega
    have hhead := Laid.header (show Laid C.heap.mem C.heap.regionLo C.heap.regionHi ([] ++ [b]) from
      h.sound.laid) rfl
    rw [spans_nil, Nat.add_zero, ← h.sound.first] at hhead
    refine ⟨h.sound.heapCheck h.ne_nil, hhead.next, ?_, hhead.size.trans hsize, ?_⟩
    · exact hhead.used.trans (by rw [hb]; rfl)
    · rw [List.foldl_nil, h.sound.counted, ← hsize]
      simp [freeBytes, hb]
  | cons p ps ih =>
    obtain ⟨hp, hnd⟩ := List.nodup_cons.mp hnd
    obtain ⟨bs', hf, -⟩ := h.freed ((hps p).mp List.mem_cons_self)
    rw [List.foldl_cons, ← hf.evolved.total]
    apply ih (h.drop hf) hnd
    intro r
    by_cases hr : r = p
    · subst hr
      exact ⟨fun hr => absurd hr hp, fun hr => absurd drop_live_self hr⟩
    · rw [Live, drop_live_of_ne hr]
      exact (List.mem_cons.trans (or_iff_right hr)).symm.trans (hps r)

/-- Later marks stay below what is free now. -/
theorem Tracked.mark (h : C.Tracked bs) (hR : R < 2 ^ 31) {cs : List Call} {D : Callers}
    (hrun : Run (Guarded (Permitted R) Step) C cs D) : D.heap.minFree ≤ C.heap.free := by
  have hkeep : ∃ ds, D.Tracked ds ∧ D.heap.minFree ≤ C.heap.free := by
    refine hrun.invariant (fun D => ∃ ds, D.Tracked ds ∧ D.heap.minFree ≤ C.heap.free) ?_
      ⟨bs, h, h.sound.min_le⟩
    rintro D c E ⟨ds, hD, hle⟩ ⟨hok, rfl⟩
    obtain ⟨es, hE, hmin, -⟩ := hD.perform (hD.admitted hR hok)
    exact ⟨es, hE, hmin.trans hle⟩
  obtain ⟨ds, -, hle⟩ := hkeep
  exact hle

/-- A pointer returned was not live, unless it is the one that was resized. -/
theorem Tracked.fresh (h : C.Tracked bs) {c : Call} (hok : C.Admitted bs c) :
    ¬ C.Live (C.perform c).1 ∨ ∃ size, c = .realloc (C.perform c).1 size := by
  have hnew : ∀ {p : ℕ}, (∀ m, (p, m) ∉ held hdr C.heap.regionLo bs) → ¬ C.Live p := by
    intro p hp hlive
    obtain ⟨m, hm⟩ := (h.live_iff p).mp hlive
    exact hp m hm
  generalize hr : (C.perform c).1 = r, hD : (C.perform c).2 = D
  have hout := (h.outcome hok).1
  rw [hr, hD] at hout
  cases hout with
  | refused => exact .inl h.null
  | granted hc hg hn hp => exact .inl (hnew hg.fresh)
  | freed hc hf => exact .inl h.null
  | resized hp hr hn hmod =>
    rcases hr.fresh with rfl | hf
    · exact .inr ⟨_, rfl⟩
    · exact .inl (hnew hf)
  | stored hok => exact .inl h.null

theorem Tracked.guaranteed (h : C.Tracked bs) (hR : R < 2 ^ 31) : Guaranteed R C := by
  have hblock : ∀ p, C.Live p → ∃ n, (p, n) ∈ held hdr C.heap.regionLo bs ∧
      heapBlockSize C.heap p = n := by
    intro p hp
    obtain ⟨n, hn⟩ := (h.live_iff p).mp hp
    exact ⟨n, hn, h.block_size hn⟩
  refine ⟨h.sound.heapCheck h.ne_nil, ⟨bs, h.sound.laid, h.sound.calm, h.sound.counted⟩,
    fun cs D hrun => ?_, fun p q hq => ?_, fun p q hp hq => ?_, fun c hok => ?_,
    fun p size hp hsize hle => ?_, fun ps hnd hps => h.drained hnd hps⟩
  · exact h.mark hR hrun
  · obtain ⟨n, hn, hsize⟩ := hblock p (by rw [Live, hq]; simp)
    have hserved := h.served p q n hq hn
    have hbounds := held_bounds hn
    have htile := h.sound.laid.tile
    rw [hsize]
    exact ⟨hserved.2, hserved.1, hbounds.1, by omega⟩
  · obtain ⟨n, hn, hsize⟩ := hblock p hp
    obtain ⟨m, hm, hsize'⟩ := hblock q hq
    have := held_apart (by decide) hn hm
    rw [hsize, hsize']
    omega
  · exact h.fresh (h.admitted hR hok)
  · obtain ⟨n, hn, hblk⟩ := hblock p hp
    rcases h.sound.heapRealloc hn hsize with
      hnone | ⟨p', H', bs', n', hrun, hr, -, hle', hmod⟩
    · exact .inl hnone
    · have hnew := (hr.mem_held p' n').mpr (.inl ⟨rfl, rfl⟩)
      rw [← hr.evolved.regionLo] at hnew
      rw [hrun, hblk]
      exact .inr ⟨(hr.evolved.sound.passes hnew).2.2, hr.copied⟩

theorem start_tracked {mem : Memory} {base size : ℕ} (hend : base + size ≤ 2 ^ 32)
    (hsize : size < 2 ^ 31) (hready : (heapInit mem base size).ready = true) :
    ∃ bs, (start mem base size).Tracked bs := by
  obtain ⟨n, hs, htotal⟩ := heapInit_sound hend hsize hready
  refine ⟨_, hs, ?_, fun p => ⟨fun hp => absurd rfl hp, fun ⟨m, hm⟩ => ?_⟩, fun p q m hq _ => ?_⟩
  · have htile := hs.laid.tile
    simp only [spans_cons, spans_nil] at htile
    simp only [start]
    omega
  · simp [held] at hm
  · cases hq

/-- The heap keeps its promises in every run of permitted calls. -/
theorem heap_sound {mem : Memory} {base size : ℕ} (hend : base + size ≤ 2 ^ 32)
    (hsize : size < 2 ^ 31) (hready : (heapInit mem base size).ready = true) {cs : List Call}
    {C : Callers} (hrun : Run (Guarded (Permitted size) Step) (start mem base size) cs C) :
    Guaranteed size C := by
  have hkeep : ∃ bs, C.Tracked bs := by
    refine hrun.invariant (fun C => ∃ bs, C.Tracked bs) ?_ (start_tracked hend hsize hready)
    rintro C c D ⟨bs, hC⟩ ⟨hok, rfl⟩
    obtain ⟨bs', hD, -⟩ := hC.perform (hC.admitted hsize hok)
    exact ⟨bs', hD⟩
  obtain ⟨bs, hC⟩ := hkeep
  exact hC.guaranteed hsize

theorem heap_sound_small :
    Guaranteed 256 ((start (fun _ => 0) 1024 256).perform (.allocAligned 32 10)).2 := by
  have hrun : Run (Guarded (Permitted 256) Step) (start (fun _ => 0) 1024 256)
      [.allocAligned 32 10] ((start (fun _ => 0) 1024 256).perform (.allocAligned 32 10)).2 :=
    Run.single ⟨⟨by decide, by decide⟩, rfl⟩
  exact heap_sound (by decide) (by decide) (by decide +kernel) hrun

end Callers

end ReflexOS.Kernel
