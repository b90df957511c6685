import ReflexOS.BlockList
import ReflexOS.KernelHeap
import Mathlib.Data.Nat.Bitwise

set_option autoImplicit false

/-!
# The chain of block headers

The headers in the region hold a list of blocks. Splitting a block and merging two of them
rewrite headers only.
-/
namespace ReflexOS.Kernel
open ByteMemory BlockList

theorem add32_eq {a b : ℕ} (h : a + b < 2 ^ 32) : add32 a b = a + b := by
  unfold add32
  exact Nat.mod_eq_of_lt h

theorem add32_lt {a b : ℕ} : add32 a b < 2 ^ 32 := by
  unfold add32
  exact Nat.mod_lt _ (by decide)

theorem sub32_eq {a b : ℕ} (ha : a < 2 ^ 32) (hb : b ≤ a) : sub32 a b = a - b := by
  unfold sub32
  omega

/-- The four words of a header. -/
structure Header (m : Memory) (a prev next : ℕ) (b : Block) : Prop where
  prev : load32 m a = prev
  next : load32 m (a + 4) = next
  size : load32 m (a + 8) = b.size
  used : load32 m (a + 12) = b.used.toNat

/-- The blocks lie from `a` on, the first linked back to `prev`, the last on to `next`. -/
def Chain (m : Memory) (prev a : ℕ) : List Block → ℕ → Prop
  | [], _ => True
  | b :: bs, next =>
    Header m a prev (if bs = [] then next else a + (hdr + b.size)) b ∧
      Chain m a (a + (hdr + b.size)) bs next

/-- The header in front of the end of the blocks. -/
def lastHeader (prev a : ℕ) : List Block → ℕ
  | [] => prev
  | b :: bs => lastHeader a (a + (hdr + b.size)) bs

section Chain

variable {m m' : Memory} {prev a next : ℕ} {b c : Block} {bs xs ys : List Block}

theorem Header.congr (h : Header m a prev next b) (hm : ∀ x, a ≤ x → x < a + 16 → m' x = m x) :
    Header m' a prev next b where
  prev := (load32_congr fun x _ _ => hm x (by omega) (by omega)).trans h.prev
  next := (load32_congr fun x _ _ => hm x (by omega) (by omega)).trans h.next
  size := (load32_congr fun x _ _ => hm x (by omega) (by omega)).trans h.size
  used := (load32_congr fun x _ _ => hm x (by omega) (by omega)).trans h.used

/-- A chain is in its headers alone. -/
theorem Chain.congr (h : Chain m prev a bs next)
    (hm : ∀ k ∈ headers hdr a bs, ∀ x, k ≤ x → x < k + 16 → m' x = m x) :
    Chain m' prev a bs next := by
  induction bs generalizing prev a with
  | nil => trivial
  | cons b bs ih =>
    exact ⟨h.1.congr (hm a (by simp [headers])),
      ih h.2 fun k hk => hm k (List.mem_cons_of_mem _ hk)⟩

theorem Chain.congr_before (h : Chain m prev a bs next)
    (hm : ∀ x, x < a + spans hdr bs → m' x = m x) : Chain m' prev a bs next :=
  h.congr fun k hk x _ hx => hm x (by
    have := header_bounds hk
    simp only [hdr] at this ⊢
    omega)

/-- The first block of a chain linked to another one before it. -/
theorem Chain.relink {prev' : ℕ} (h : Chain m prev a bs next)
    (hp : bs ≠ [] → load32 m' a = prev') (hm : ∀ x, a + 4 ≤ x → m' x = m x) :
    Chain m' prev' a bs next := by
  cases bs with
  | nil => trivial
  | cons b bs =>
    refine ⟨⟨hp (List.cons_ne_nil _ _), ?_, ?_, ?_⟩, h.2.congr fun k hk x hx _ => hm x ?_⟩
    · exact (load32_congr fun x _ _ => hm x (by omega)).trans h.1.next
    · exact (load32_congr fun x _ _ => hm x (by omega)).trans h.1.size
    · exact (load32_congr fun x _ _ => hm x (by omega)).trans h.1.used
    · have := header_bounds hk
      simp only [hdr] at this
      omega

theorem chain_append (hne : ys ≠ []) : Chain m prev a (xs ++ ys) next ↔
    Chain m prev a xs (a + spans hdr xs) ∧
      Chain m (lastHeader prev a xs) (a + spans hdr xs) ys next := by
  induction xs generalizing prev a with
  | nil => simp [Chain, lastHeader]
  | cons b xs ih =>
    rw [List.cons_append, Chain, ih, Chain, lastHeader, spans_cons, Nat.add_assoc a, and_assoc]
    by_cases hxs : xs = []
    · subst hxs
      simp [hne]
    · simp [hxs]

/-- The headers of a chain around one of its blocks. -/
theorem chain_focus : Chain m prev a (xs ++ b :: ys) next ↔
    Chain m prev a xs (a + spans hdr xs) ∧
      Header m (a + spans hdr xs) (lastHeader prev a xs)
        (if ys = [] then next else a + spans hdr xs + (hdr + b.size)) b ∧
        Chain m (a + spans hdr xs) (a + spans hdr xs + (hdr + b.size)) ys next :=
  chain_append (List.cons_ne_nil b ys)

end Chain

/-- The blocks fill the region, their sizes in units of the alignment. -/
structure Tiled (m : Memory) (lo hi : ℕ) (bs : List Block) : Prop where
  chain : Chain m 0 lo bs 0
  tile : lo + spans hdr bs = hi
  sizes : ∀ b ∈ bs, b.size % 8 = 0
  lo_pos : 0 < lo
  hi_le : hi ≤ 2 ^ 32

/-- The region holds these blocks. -/
structure Laid (m : Memory) (lo hi : ℕ) (bs : List Block) : Prop where
  chain : Chain m 0 lo bs 0
  tile : lo + spans hdr bs = hi
  sizes : ∀ b ∈ bs, b.size % 8 = 0 ∧ 8 ≤ b.size
  lo_pos : 0 < lo
  hi_le : hi ≤ 2 ^ 32

section Tiled

variable {m m' : Memory} {lo hi : ℕ} {bs : List Block}

theorem Laid.tiled (h : Laid m lo hi bs) : Tiled m lo hi bs :=
  ⟨h.chain, h.tile, fun b hb => (h.sizes b hb).1, h.lo_pos, h.hi_le⟩

theorem Tiled.freeBytes_lt (h : Tiled m lo hi bs) : freeBytes bs < 2 ^ 32 := by
  have hle : freeBytes bs ≤ spans hdr bs := freeBytes_le_spans
  have htile := h.tile
  have hlo := h.lo_pos
  have hhi := h.hi_le
  omega

theorem Laid.freeBytes_lt (h : Laid m lo hi bs) : freeBytes bs < 2 ^ 32 := h.tiled.freeBytes_lt

variable (xs olds news ys : List Block)

/-- Some blocks replaced by others over the same bytes, and their headers written. -/
theorem Tiled.rechain (h : Tiled m lo hi (xs ++ (olds ++ ys))) (hspan : spans hdr news = spans hdr olds)
    (hsizes : ∀ b ∈ news, b.size % 8 = 0) (hchain : Chain m' 0 lo (xs ++ (news ++ ys)) 0) :
    Tiled m' lo hi (xs ++ (news ++ ys)) where
  chain := hchain
  tile := by
    rw [← h.tile, spans_append, spans_append, spans_append, spans_append, hspan]
  sizes c hc := by
    simp only [List.mem_append] at hc
    rcases hc with hc | hc | hc
    · exact h.sizes c (by simp [hc])
    · exact hsizes c hc
    · exact h.sizes c (by simp [hc])
  lo_pos := h.lo_pos
  hi_le := h.hi_le

/-- The new blocks are large enough as well. -/
theorem Laid.of_tiled (h : Laid m lo hi (xs ++ (olds ++ ys))) (ht : Tiled m' lo hi (xs ++ (news ++ ys)))
    (hbig : ∀ b ∈ news, 8 ≤ b.size) : Laid m' lo hi (xs ++ (news ++ ys)) := by
  refine ⟨ht.chain, ht.tile, fun c hc => ⟨ht.sizes c hc, ?_⟩, ht.lo_pos, ht.hi_le⟩
  simp only [List.mem_append] at hc
  rcases hc with hc | hc | hc
  · exact (h.sizes c (by simp [hc])).2
  · exact hbig c hc
  · exact (h.sizes c (by simp [hc])).2

theorem Laid.rechain (h : Laid m lo hi (xs ++ (olds ++ ys))) (hspan : spans hdr news = spans hdr olds)
    (hsizes : ∀ b ∈ news, b.size % 8 = 0 ∧ 8 ≤ b.size)
    (hchain : Chain m' 0 lo (xs ++ (news ++ ys)) 0) : Laid m' lo hi (xs ++ (news ++ ys)) :=
  h.of_tiled xs olds news ys
    (h.tiled.rechain xs olds news ys hspan (fun b hb => (hsizes b hb).1) hchain)
    fun b hb => (hsizes b hb).2

end Tiled

/-- The words written when a header is put at `t`, inside the block at `a`. -/
def cutMem (m : Memory) (a t size want next : ℕ) : Memory :=
  let m := store32 (store32 (store32 (store32 m (t + 8) size) (t + 12) 0) t a) (t + 4) next
  let m := if next ≠ 0 then store32 m next t else m
  store32 (store32 m (a + 4) t) (a + 8) want

section Cut

variable {m : Memory} {a t size want next x : ℕ}

theorem cutMem_other (ha : x < a + 4 ∨ a + 12 ≤ x) (ht : x < t ∨ t + 16 ≤ x)
    (hn : next ≠ 0 → x < next ∨ next + 4 ≤ x) : cutMem m a t size want next x = m x := by
  unfold cutMem
  rw [store32_other (by omega), store32_other (by omega)]
  by_cases hnext : next = 0
  · rw [if_neg (not_not.mpr hnext), store32_other (by omega), store32_other (by omega),
      store32_other (by omega), store32_other (by omega)]
  · rw [if_pos hnext, store32_other (hn hnext), store32_other (by omega), store32_other (by omega),
      store32_other (by omega), store32_other (by omega)]

variable (hat : a + 16 ≤ t) (hnext : next = 0 ∨ t + 16 ≤ next)
include hat hnext

theorem cutMem_tail (hx : t ≤ x) (hx' : x < t + 16) : cutMem m a t size want next x =
    store32 (store32 (store32 (store32 m (t + 8) size) (t + 12) 0) t a) (t + 4) next x := by
  unfold cutMem
  rw [store32_other (by omega), store32_other (by omega)]
  by_cases hn : next = 0
  · rw [if_neg (not_not.mpr hn)]
  · rw [if_pos hn, store32_other (by omega)]

theorem cutMem_header (ha : a < 2 ^ 32) (hsize : size < 2 ^ 32) (hn : next < 2 ^ 32) :
    Header (cutMem m a t size want next) t a next ⟨size, false⟩ where
  prev := by
    rw [load32_congr fun x _ _ => cutMem_tail hat hnext (by omega) (by omega),
      load32_store32_other (by omega), load32_store32 ha]
  next := by
    rw [load32_congr fun x _ _ => cutMem_tail hat hnext (by omega) (by omega), load32_store32 hn]
  size := by
    rw [load32_congr fun x _ _ => cutMem_tail hat hnext (by omega) (by omega),
      load32_store32_other (by omega), load32_store32_other (by omega),
      load32_store32_other (by omega), load32_store32 hsize]
  used := by
    rw [load32_congr fun x _ _ => cutMem_tail hat hnext (by omega) (by omega),
      load32_store32_other (by omega), load32_store32_other (by omega), load32_store32 (by omega)]
    rfl

theorem cutMem_first {prev next₀ : ℕ} {b : Block} (h : Header m a prev next₀ b) (ht : t < 2 ^ 32)
    (hw : want < 2 ^ 32) : Header (cutMem m a t size want next) a prev t ⟨want, b.used⟩ where
  prev := by
    refine (load32_congr fun x _ _ => ?_).trans h.prev
    exact cutMem_other (by omega) (by omega) (by omega)
  next := by
    unfold cutMem
    dsimp only
    rw [load32_store32_other (by omega), load32_store32 ht]
  size := load32_store32 hw
  used := by
    refine (load32_congr fun x _ _ => ?_).trans h.used
    exact cutMem_other (by omega) (by omega) (by omega)

theorem cutMem_back (hn : next ≠ 0) (ht : t < 2 ^ 32) :
    load32 (cutMem m a t size want next) next = t := by
  unfold cutMem
  dsimp only
  rw [load32_store32_other (by omega), load32_store32_other (by omega), if_pos hn,
    load32_store32 ht]

end Cut

section Edit

variable {H : Heap} {a want : ℕ} {b n : Block} {xs ys : List Block}
  (h : Tiled H.mem H.regionLo H.regionHi (xs ++ b :: ys)) (ha : a = H.regionLo + spans hdr xs)
include h ha

theorem Tiled.header : Header H.mem a (lastHeader 0 H.regionLo xs)
    (if ys = [] then 0 else a + (hdr + b.size)) b := by
  subst ha
  exact (chain_focus.mp h.chain).2.1

theorem Tiled.end_le : a + (hdr + b.size) + spans hdr ys = H.regionHi := by
  have := h.tile
  simp only [spans_append, spans_cons] at this
  omega

theorem split_small (hw : want ≤ b.size) (hrest : b.size - want < splitMin) :
    split H a want = H := by
  have hsize := (h.header ha).size
  have hlt : b.size < 2 ^ 32 := hsize ▸ load32_lt
  unfold split Heap.size
  rw [hsize, sub32_eq hlt hw]
  exact if_pos hrest

theorem split_write (hrest : splitMin ≤ b.size - want) : split H a want =
    { H with
      mem := cutMem H.mem a (a + 16 + want) (b.size - want - hdr) want
        (if ys = [] then 0 else a + (hdr + b.size))
      free := sub32 H.free hdr } := by
  have hb := h.header ha
  have hlt : b.size < 2 ^ 32 := hb.size ▸ load32_lt
  simp only [splitMin, hdr, minPayload, heapAlign] at hrest
  generalize (if ys = [] then 0 else a + (hdr + b.size)) = next at hb
  let t := a + 16 + want
  have htail : payloadOf a + want = t := rfl
  -- The link is read twice, behind three writes to the new header and behind four.
  have hread : load32 (store32 (store32 (store32 H.mem (t + 8) (b.size - want - hdr)) (t + 12) 0)
      t a) (a + 4) = next := by
    rw [load32_store32_other (by omega), load32_store32_other (by omega),
      load32_store32_other (by omega)]
    exact hb.next
  have hread' : load32 (store32 (store32 (store32 (store32 H.mem (t + 8) (b.size - want - hdr))
      (t + 12) 0) t a) (t + 4) next) (a + 4) = next := by
    rw [load32_store32_other (by omega)]
    exact hread
  have hrest' : ¬ b.size - want < splitMin := by
    simp only [splitMin, hdr, minPayload, heapAlign]
    omega
  unfold split
  simp only [Heap.size, hb.size, sub32_eq hlt (show want ≤ b.size by omega), if_neg hrest', htail,
    sub32_eq (show b.size - want < 2 ^ 32 by omega) (show hdr ≤ b.size - want by
      simp only [hdr]; omega)]
  simp only [Heap.setSize, Heap.setUsed, Heap.setPrev, Heap.setNext, Heap.next, hread]
  rw [hread']
  unfold cutMem
  by_cases hn : next = 0
  · simp only [if_neg (not_not.mpr hn)]
    rfl
  · simp only [if_pos hn]
    rfl

/-- A block cut in two, the second half free. -/
theorem Tiled.split_cut (hrest : splitMin ≤ b.size - want) (hwant : want % 8 = 0) :
    ∃ m', split H a want = { H with mem := m', free := sub32 H.free hdr } ∧
      Tiled m' H.regionLo H.regionHi
        (xs ++ ⟨want, b.used⟩ :: ⟨b.size - want - hdr, false⟩ :: ys) ∧
      ∀ x, OffHeaders hdr H.regionLo (xs ++ ⟨want, b.used⟩ :: ⟨b.size - want - hdr, false⟩ :: ys) x →
        m' x = H.mem x := by
  refine ⟨_, split_write h ha hrest, ?_⟩
  have hb := h.header ha
  have hend := h.end_le ha
  have hhi := h.hi_le
  have hsizes := h.sizes b (by simp)
  have hlt : b.size < 2 ^ 32 := hb.size ▸ load32_lt
  have hnlt : (if ys = [] then 0 else a + (hdr + b.size)) < 2 ^ 32 := hb.next ▸ load32_lt
  simp only [splitMin, minPayload, heapAlign] at hrest
  have hhdr : hdr = 16 := rfl
  generalize hnext : (if ys = [] then 0 else a + (hdr + b.size)) = next at hnlt ⊢
  have hcase : next = 0 ∨ ys ≠ [] ∧ next = a + (hdr + b.size) := by
    by_cases hys : ys = []
    · exact .inl (hnext.symm.trans (if_pos hys))
    · exact .inr ⟨hys, hnext.symm.trans (if_neg hys)⟩
  have htl : a + (hdr + want) = a + 16 + want := by omega
  have hspan : a + 16 + want + (hdr + (b.size - want - hdr)) = a + (hdr + b.size) := by omega
  have hat : a + 16 ≤ a + 16 + want := by omega
  have hbehind : next = 0 ∨ a + 16 + want + 16 ≤ next := by omega
  obtain ⟨hxs, -, hys⟩ := chain_focus.mp h.chain
  rw [← ha] at hxs hys
  have hchain : Chain (cutMem H.mem a (a + 16 + want) (b.size - want - hdr) want next) 0 H.regionLo
      (xs ++ ⟨want, b.used⟩ :: ⟨b.size - want - hdr, false⟩ :: ys) 0 := by
    refine chain_focus.mpr ?_
    rw [← ha, if_neg (List.cons_ne_nil _ _)]
    dsimp only
    rw [htl]
    refine ⟨hxs.congr_before fun x hx => ?_, cutMem_first hat hbehind hb (by omega) (by omega), ?_, ?_⟩
    · exact cutMem_other (by omega) (by omega) (by omega)
    · rw [show (if ys = [] then 0 else _) = next by rw [hspan]; exact hnext]
      exact cutMem_header hat hbehind (by omega) (by omega) hnlt
    · rw [hspan]
      refine hys.relink (fun hne => ?_) fun x hx => cutMem_other (by omega) (by omega) (by omega)
      have hn : next = a + (hdr + b.size) := hnext.symm.trans (if_neg hne)
      rw [← hn]
      exact cutMem_back hat hbehind (by omega) (by omega)
  constructor
  · refine h.rechain xs [b] [⟨want, b.used⟩, ⟨b.size - want - hdr, false⟩] ys ?_ ?_ ?_
    · simp only [spans_cons, spans_nil]
      omega
    · intro c hc
      simp only [List.mem_cons, List.not_mem_nil, or_false] at hc
      rcases hc with rfl | rfl
      · exact hwant
      · dsimp only
        omega
    · exact hchain
  · intro x hx
    have hxa := hx a (by simp [headers_append, headers, ha])
    have hxt := hx (a + 16 + want) (by simp [headers_append, headers, ← ha, htl])
    refine cutMem_other (by omega) (by omega) fun hn => ?_
    obtain ⟨hys', hn'⟩ := hcase.resolve_left hn
    obtain ⟨c, zs, rfl⟩ := List.exists_cons_of_ne_nil hys'
    have hxn := hx next (by simp [headers_append, headers, ← ha, htl, hspan, hn'])
    omega

end Edit

section Neighbours

variable {H : Heap} {a : ℕ} {b n : Block} {xs ys : List Block}
  (h : Tiled H.mem H.regionLo H.regionHi (xs ++ b :: n :: ys))
  (ha : a = H.regionLo + spans hdr xs)
include h ha

theorem Tiled.nextHeader : Header H.mem (a + (hdr + b.size)) a
    (if ys = [] then 0 else a + (hdr + b.size) + (hdr + n.size)) n := by
  subst ha
  exact (chain_focus.mp h.chain).2.2.1

theorem Tiled.next_eq : H.next a = a + (hdr + b.size) := by
  have hnext := (h.header ha).next
  rwa [if_neg (List.cons_ne_nil _ _)] at hnext

end Neighbours

section Edit

variable {H : Heap} {a want : ℕ} {b : Block} {xs ys : List Block}
  (h : Laid H.mem H.regionLo H.regionHi (xs ++ b :: ys)) (ha : a = H.regionLo + spans hdr xs)
include h ha

theorem Laid.header : Header H.mem a (lastHeader 0 H.regionLo xs)
    (if ys = [] then 0 else a + (hdr + b.size)) b := h.tiled.header ha

theorem Laid.end_le : a + (hdr + b.size) + spans hdr ys = H.regionHi := h.tiled.end_le ha

theorem split_cut (hrest : splitMin ≤ b.size - want) (hwant : want % 8 = 0 ∧ 8 ≤ want) :
    ∃ m', split H a want = { H with mem := m', free := sub32 H.free hdr } ∧
      Laid m' H.regionLo H.regionHi
        (xs ++ ⟨want, b.used⟩ :: ⟨b.size - want - hdr, false⟩ :: ys) ∧
      ∀ x, OffHeaders hdr H.regionLo (xs ++ ⟨want, b.used⟩ :: ⟨b.size - want - hdr, false⟩ :: ys) x →
        m' x = H.mem x := by
  obtain ⟨m', hrun, ht, hk⟩ := h.tiled.split_cut ha hrest hwant.1
  refine ⟨m', hrun, h.of_tiled xs [b] [⟨want, b.used⟩, ⟨b.size - want - hdr, false⟩] ys ht ?_, hk⟩
  intro c hc
  simp only [splitMin, hdr, minPayload, heapAlign] at hrest
  simp only [List.mem_cons, List.not_mem_nil, or_false] at hc
  rcases hc with rfl | rfl
  · exact hwant.2
  · simp only [hdr]
    omega

end Edit

/-- The words written when a block at `a` takes in the next one. -/
def mergeMem (m : Memory) (a size next : ℕ) : Memory :=
  let m := store32 (store32 m (a + 8) size) (a + 4) next
  if next ≠ 0 then store32 m next a else m

section MergeMem

variable {m : Memory} {a size next x : ℕ}

theorem mergeMem_other (ha : x < a + 4 ∨ a + 12 ≤ x) (hn : next ≠ 0 → x < next ∨ next + 4 ≤ x) :
    mergeMem m a size next x = m x := by
  unfold mergeMem
  by_cases hnext : next = 0
  · rw [if_neg (not_not.mpr hnext), store32_other (by omega), store32_other (by omega)]
  · rw [if_pos hnext, store32_other (hn hnext), store32_other (by omega), store32_other (by omega)]

theorem mergeMem_front (hnext : next = 0 ∨ a + 12 ≤ next) (hx : x < a + 12) :
    mergeMem m a size next x = store32 (store32 m (a + 8) size) (a + 4) next x := by
  unfold mergeMem
  by_cases hn : next = 0
  · rw [if_neg (not_not.mpr hn)]
  · rw [if_pos hn, store32_other (by omega)]

theorem mergeMem_header {prev next₀ : ℕ} {b : Block} (h : Header m a prev next₀ b)
    (hnext : next = 0 ∨ a + 16 ≤ next) (hsize : size < 2 ^ 32) (hn : next < 2 ^ 32) :
    Header (mergeMem m a size next) a prev next ⟨size, b.used⟩ where
  prev := by
    refine (load32_congr fun x _ _ => ?_).trans h.prev
    exact mergeMem_other (by omega) (by omega)
  next := by
    rw [load32_congr fun x _ _ => mergeMem_front (by omega) (by omega), load32_store32 hn]
  size := by
    rw [load32_congr fun x _ _ => mergeMem_front (by omega) (by omega),
      load32_store32_other (by omega), load32_store32 hsize]
  used := by
    refine (load32_congr fun x _ _ => ?_).trans h.used
    exact mergeMem_other (by omega) (by omega)

theorem mergeMem_back (hn : next ≠ 0) (ha : a < 2 ^ 32) :
    load32 (mergeMem m a size next) next = a := by
  unfold mergeMem
  rw [if_pos hn, load32_store32 ha]

end MergeMem

section Merge

variable {H : Heap} {a : ℕ} {b n : Block} {xs ys : List Block}
  (h : Laid H.mem H.regionLo H.regionHi (xs ++ b :: n :: ys))
  (ha : a = H.regionLo + spans hdr xs)
include h ha

theorem Laid.nextHeader : Header H.mem (a + (hdr + b.size)) a
    (if ys = [] then 0 else a + (hdr + b.size) + (hdr + n.size)) n := h.tiled.nextHeader ha

theorem Laid.merge {next : ℕ} {m' : Memory}
    (hnext : next = if ys = [] then 0 else a + (hdr + b.size) + (hdr + n.size))
    (hm : m' = mergeMem H.mem a (b.size + (hdr + n.size)) next) :
    Laid m' H.regionLo H.regionHi (xs ++ ⟨b.size + (hdr + n.size), b.used⟩ :: ys) ∧
      ∀ x, OffHeaders hdr H.regionLo (xs ++ ⟨b.size + (hdr + n.size), b.used⟩ :: ys) x →
        m' x = H.mem x := by
  subst hm
  have hb := h.header ha
  have hn := h.nextHeader ha
  have hend := h.end_le ha
  have hhi := h.hi_le
  have hlo := h.lo_pos
  have hsb := h.sizes b (by simp)
  have hsn := h.sizes n (by simp)
  simp only [spans_cons] at hend
  have hnlt : next < 2 ^ 32 := hnext ▸ hn.next ▸ load32_lt
  have hcase : next = 0 ∨ ys ≠ [] ∧ next = a + (hdr + b.size) + (hdr + n.size) := by
    by_cases hys : ys = []
    · exact .inl (hnext.trans (if_pos hys))
    · exact .inr ⟨hys, hnext.trans (if_neg hys)⟩
  simp only [hdr] at hcase hend
  have hspan : a + (hdr + (b.size + (hdr + n.size))) = a + (hdr + b.size) + (hdr + n.size) := by
    omega
  have hsize : b.size + (hdr + n.size) < 2 ^ 32 := by
    simp only [hdr]
    omega
  obtain ⟨hxs, -, -, hys⟩ := chain_focus.mp h.chain
  rw [← ha] at hxs hys
  have hchain : Chain (mergeMem H.mem a (b.size + (hdr + n.size)) next) 0 H.regionLo
      (xs ++ ⟨b.size + (hdr + n.size), b.used⟩ :: ys) 0 := by
    refine chain_focus.mpr ?_
    rw [← ha]
    dsimp only
    rw [hspan, ← hnext]
    refine ⟨hxs.congr_before fun x hx => ?_, mergeMem_header hb (by omega) hsize hnlt, ?_⟩
    · exact mergeMem_other (by omega) (by omega)
    · refine hys.relink (fun hne => ?_) fun x hx => ?_
      · have hn' : next = a + (hdr + b.size) + (hdr + n.size) := hnext.trans (if_neg hne)
        rw [← hn']
        refine mergeMem_back ?_ (by omega)
        simp only [hdr] at hn'
        omega
      · simp only [hdr] at hx
        exact mergeMem_other (by omega) (by omega)
  refine ⟨h.rechain xs [b, n] [⟨b.size + (hdr + n.size), b.used⟩] ys ?_ ?_ hchain, fun x hx => ?_⟩
  · simp only [spans_cons, spans_nil, hdr]
    omega
  · intro c hc
    rw [List.mem_singleton.mp hc]
    simp only [hdr]
    omega
  · have hxa := hx a (by simp [headers_append, headers, ha])
    simp only [hdr] at hxa
    refine mergeMem_other (by omega) fun hn => ?_
    obtain ⟨hys', hn'⟩ := hcase.resolve_left hn
    obtain ⟨c, zs, rfl⟩ := List.exists_cons_of_ne_nil hys'
    have hxn := hx next (by
      rw [if_neg hys'] at hnext
      simp [headers_append, headers, ← ha, hspan, hnext])
    simp only [hdr] at hxn
    omega

theorem Laid.next_eq : H.next a = a + (hdr + b.size) := h.tiled.next_eq ha

theorem Laid.merge_size : add32 (H.size a) (add32 hdr (H.size (a + (hdr + b.size)))) =
    b.size + (hdr + n.size) := by
  have hend := h.end_le ha
  have hhi := h.hi_le
  have hlo := h.lo_pos
  simp only [spans_cons] at hend
  rw [Heap.size, Heap.size, (h.header ha).size, (h.nextHeader ha).size,
    add32_eq (a := hdr) (by omega), add32_eq (by omega)]

variable {next : ℕ} (hnext : next = if ys = [] then 0 else a + (hdr + b.size) + (hdr + n.size))
include hnext

theorem Laid.merge_next {m' : Memory} (hm : ∀ x, a + 12 ≤ x → m' x = H.mem x) :
    load32 m' (a + (hdr + b.size) + 4) = next := by
  refine (load32_congr fun x _ _ => hm x ?_).trans ((h.nextHeader ha).next.trans hnext.symm)
  simp only [hdr] at *
  omega

theorem Laid.merge_grow :
    (H.setSize a (b.size + (hdr + n.size))).setNext a
        ((H.setSize a (b.size + (hdr + n.size))).next (a + (hdr + b.size))) =
      { H with mem := store32 (store32 H.mem (a + 8) (b.size + (hdr + n.size))) (a + 4) next } := by
  have hread : (H.setSize a (b.size + (hdr + n.size))).next (a + (hdr + b.size)) = next :=
    h.merge_next ha hnext fun x hx => store32_other (by omega)
  rw [hread]
  rfl

theorem Laid.merge_prev {K : Heap}
    (hK : K.mem = store32 (store32 H.mem (a + 8) (b.size + (hdr + n.size))) (a + 4) next) :
    (if K.next (a + (hdr + b.size)) ≠ 0 then K.setPrev (K.next (a + (hdr + b.size))) a else K) =
      { K with mem := mergeMem H.mem a (b.size + (hdr + n.size)) next } := by
  have hread : K.next (a + (hdr + b.size)) = next := by
    refine h.merge_next ha hnext fun x hx => ?_
    rw [hK, store32_other (by omega), store32_other (by omega)]
  rw [hread]
  unfold mergeMem
  by_cases hn : next = 0
  · simp only [if_neg (not_not.mpr hn), ← hK]
  · simp only [if_pos hn, Heap.setPrev, hK]

omit hnext

theorem coalesceForward_merge (hfree : n.used = false) :
    ∃ m', coalesceForward H a = { H with mem := m', free := add32 H.free hdr } ∧
      Laid m' H.regionLo H.regionHi (xs ++ ⟨b.size + (hdr + n.size), b.used⟩ :: ys) ∧
      ∀ x, OffHeaders hdr H.regionLo (xs ++ ⟨b.size + (hdr + n.size), b.used⟩ :: ys) x →
        m' x = H.mem x := by
  have hused : H.used (a + (hdr + b.size)) = 0 := by
    rw [Heap.used, (h.nextHeader ha).used, hfree]
    rfl
  have hne : ¬ (a + (hdr + b.size) = 0 ∨ H.used (a + (hdr + b.size)) ≠ 0) := by
    rintro (h0 | h1)
    · simp only [hdr] at h0
      omega
    · exact h1 hused
  refine ⟨_, ?_, h.merge ha rfl rfl⟩
  unfold coalesceForward
  rw [h.next_eq ha]
  dsimp only
  rw [if_neg hne, h.merge_size ha, h.merge_grow ha rfl, h.merge_prev ha rfl rfl]

/-- A free neighbour made part of a block in use. -/
theorem absorbNext_merge :
    ∃ m', absorbNext H a (a + (hdr + b.size)) =
        { H with mem := m', free := sub32 H.free n.size } ∧
      Laid m' H.regionLo H.regionHi (xs ++ ⟨b.size + (hdr + n.size), b.used⟩ :: ys) ∧
      ∀ x, OffHeaders hdr H.regionLo (xs ++ ⟨b.size + (hdr + n.size), b.used⟩ :: ys) x →
        m' x = H.mem x := by
  let K : Heap := { H with free := sub32 H.free n.size }
  have hfree : sub32 H.free (H.size (a + (hdr + b.size))) = sub32 H.free n.size := by
    rw [Heap.size, (h.nextHeader ha).size]
  have hK : Laid K.mem K.regionLo K.regionHi (xs ++ b :: n :: ys) := h
  refine ⟨_, ?_, h.merge ha rfl rfl⟩
  unfold absorbNext
  rw [hfree]
  change (if Heap.next _ _ ≠ 0 then _ else _) = _
  rw [hK.merge_size ha, hK.merge_grow ha rfl, hK.merge_prev ha rfl rfl]

end Merge

theorem coalesceForward_none {H : Heap} {a : ℕ} {b : Block} {xs ys : List Block}
    (h : Laid H.mem H.regionLo H.regionHi (xs ++ b :: ys))
    (ha : a = H.regionLo + spans hdr xs) (hu : ∀ c ∈ ys.head?, c.used = true) :
    coalesceForward H a = H := by
  unfold coalesceForward
  refine if_pos ?_
  cases ys with
  | nil => exact .inl (h.header ha).next
  | cons n ys =>
    refine .inr ?_
    rw [h.next_eq ha, Heap.used, (h.nextHeader ha).used, hu n rfl]
    decide

theorem Tiled.setUsed {H : Heap} {a : ℕ} {b : Block} {xs ys : List Block}
    (h : Tiled H.mem H.regionLo H.regionHi (xs ++ b :: ys))
    (ha : a = H.regionLo + spans hdr xs) (u : Bool) :
    Tiled (H.setUsed a u.toNat).mem H.regionLo H.regionHi (xs ++ ⟨b.size, u⟩ :: ys) ∧
      ∀ x, OffHeaders hdr H.regionLo (xs ++ ⟨b.size, u⟩ :: ys) x →
        (H.setUsed a u.toNat).mem x = H.mem x := by
  have hother : ∀ x, x < a + 12 ∨ a + 16 ≤ x → (H.setUsed a u.toNat).mem x = H.mem x :=
    fun x hx => store32_other (by omega)
  have hb := h.header ha
  obtain ⟨hxs, -, hys⟩ := chain_focus.mp h.chain
  rw [← ha] at hxs hys
  have hchain : Chain (H.setUsed a u.toNat).mem 0 H.regionLo (xs ++ ⟨b.size, u⟩ :: ys) 0 := by
    refine chain_focus.mpr ?_
    rw [← ha]
    refine ⟨hxs.congr_before fun x hx => hother x (by omega), ⟨?_, ?_, ?_, ?_⟩, ?_⟩
    · exact (load32_congr fun x _ _ => hother x (by omega)).trans hb.prev
    · exact (load32_congr fun x _ _ => hother x (by omega)).trans hb.next
    · exact (load32_congr fun x _ _ => hother x (by omega)).trans hb.size
    · exact load32_store32 (by cases u <;> decide)
    · refine hys.congr fun k hk x hx _ => hother x (.inr ?_)
      have := header_bounds hk
      simp only [hdr] at this
      omega
  refine ⟨h.rechain xs [b] [⟨b.size, u⟩] ys ?_ ?_ hchain, fun x hx => ?_⟩
  · simp only [spans_cons]
  · intro c hc
    rw [List.mem_singleton.mp hc]
    exact h.sizes b (by simp)
  · have hxa := hx a (by simp [headers_append, headers, ha])
    simp only [hdr] at hxa
    exact hother x (by omega)

theorem Laid.setUsed {H : Heap} {a : ℕ} {b : Block} {xs ys : List Block}
    (h : Laid H.mem H.regionLo H.regionHi (xs ++ b :: ys))
    (ha : a = H.regionLo + spans hdr xs) (u : Bool) :
    Laid (H.setUsed a u.toNat).mem H.regionLo H.regionHi (xs ++ ⟨b.size, u⟩ :: ys) ∧
      ∀ x, OffHeaders hdr H.regionLo (xs ++ ⟨b.size, u⟩ :: ys) x →
        (H.setUsed a u.toNat).mem x = H.mem x := by
  obtain ⟨ht, hk⟩ := h.tiled.setUsed ha u
  refine ⟨h.of_tiled xs [b] [⟨b.size, u⟩] ys ht fun c hc => ?_, hk⟩
  rw [List.mem_singleton.mp hc]
  exact (h.sizes b (by simp)).2

end ReflexOS.Kernel
