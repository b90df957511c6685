import ReflexOS.KernelQueue
import ReflexOS.RingBuffer
import ReflexOS.ByteMemory
import ReflexOS.Runs

set_option autoImplicit false

/-!
# The bytes of a kernel queue

`reflex_kqueue_t` with its item storage, and the bounded FIFO it stands for.
-/
namespace ReflexOS.Kernel
open RingBuffer ByteMemory Runs

def kqueueMax : ℕ := 16
def uint32Max : ℕ := 2 ^ 32 - 1

/-- `reflex_kqueue_t`; a null `storage` is `none`. -/
structure QueueBlock where
  storage : Option Memory
  length : ℕ
  itemSize : ℕ
  count : ℕ
  head : ℕ
  tail : ℕ
  inUse : Bool

/-- `reflex_kqueue_create`: the slot of the pool it takes and the block it leaves there. -/
def reflexKqueueCreate (queues : ℕ → QueueBlock) (malloc : ℕ → Option Memory)
    (length itemSize : ℕ) : Option (ℕ × QueueBlock) :=
  if length = 0 ∨ itemSize = 0 then none
  else if uint32Max / itemSize < length then none
  else
    match (List.range kqueueMax).find? (fun i => !(queues i).inUse) with
    | none => none
    | some i =>
      match malloc (length * itemSize % 2 ^ 32) with
      | none => none
      | some storage => some (i, {
          storage := some storage
          length := length
          itemSize := itemSize
          count := 0
          head := 0
          tail := 0
          inUse := true })

/-- `memcpy` of the `n` bytes of `item` to offset `at` of the storage. -/
def storeItem (storage : Memory) (offset : ℕ) (item : Memory) (n : ℕ) : Memory := fun x =>
  if offset ≤ x ∧ x < offset + n then item (x - offset) else storage x

def itemBytes (storage : Memory) (offset n : ℕ) : List UInt8 :=
  (List.range n).map fun i => storage (offset + i)

/-- Where slot `i` starts, in the arithmetic of a 32-bit `size_t`. -/
def QueueBlock.offset (q : QueueBlock) (i : ℕ) : ℕ := i * q.itemSize % 2 ^ 32

def reflexKqueueTrySend (q : QueueBlock) (item : Option Memory) : QueueBlock × Bool :=
  match q.storage, item with
  | some storage, some item =>
    if q.length ≤ q.count then (q, false)
    else ({ q with
      storage := some (storeItem storage (q.offset q.head) item q.itemSize)
      head := (q.head + 1) % q.length
      count := q.count + 1 }, true)
  | _, _ => (q, false)

/-- With the bytes copied out: the item's, or none where the caller gave no place for them. -/
def reflexKqueueTryRecv (q : QueueBlock) (item : Bool) : QueueBlock × Option (List UInt8) :=
  match q.storage with
  | none => (q, none)
  | some storage =>
    if q.count = 0 then (q, none)
    else ({ q with tail := (q.tail + 1) % q.length, count := q.count - 1 },
      some (if item then itemBytes storage (q.offset q.tail) q.itemSize else []))

def reflexKqueueCount (q : QueueBlock) : ℕ := q.count
def reflexKqueueIsFull (q : QueueBlock) : Bool := decide (q.length ≤ q.count)
def reflexKqueueIsEmpty (q : QueueBlock) : Bool := decide (q.count = 0)
def reflexKqueueReset (q : QueueBlock) : QueueBlock := { q with count := 0, head := 0, tail := 0 }

inductive QueueOp where
  | trySend (item : Option Memory)
  | tryRecv (item : Bool)
  | count
  | isFull
  | isEmpty
  | reset

inductive QueueReply where
  | sent (ok : Bool)
  | received (bytes : Option (List UInt8))
  | count (n : ℕ)
  | is (answer : Bool)
  | done
deriving DecidableEq

/-- One call on a queue; a NULL queue reads as full and as empty. -/
def kqueueStep : Option QueueBlock → QueueOp → Option QueueBlock × QueueReply
  | none, .trySend _ => (none, .sent false)
  | none, .tryRecv _ => (none, .received none)
  | none, .count => (none, .count 0)
  | none, .isFull => (none, .is true)
  | none, .isEmpty => (none, .is true)
  | none, .reset => (none, .done)
  | some q, .trySend item =>
    (some (reflexKqueueTrySend q item).1, .sent (reflexKqueueTrySend q item).2)
  | some q, .tryRecv item =>
    (some (reflexKqueueTryRecv q item).1, .received (reflexKqueueTryRecv q item).2)
  | some q, .count => (some q, .count (reflexKqueueCount q))
  | some q, .isFull => (some q, .is (reflexKqueueIsFull q))
  | some q, .isEmpty => (some q, .is (reflexKqueueIsEmpty q))
  | some q, .reset => (some (reflexKqueueReset q), .done)

/-- The bounded FIFO: a list of items of `itemSize` bytes, at most `capacity` of them. -/
def fifoStep (capacity itemSize : ℕ) (items : List (List UInt8)) :
    QueueOp → List (List UInt8) × QueueReply
  | .trySend none => (items, .sent false)
  | .trySend (some item) =>
    if items.length < capacity then (items ++ [itemBytes item 0 itemSize], .sent true)
    else (items, .sent false)
  | .tryRecv item =>
    match items with
    | [] => ([], .received none)
    | oldest :: rest => (rest, .received (some (if item then oldest else [])))
  | .count => (items, .count items.length)
  | .isFull => (items, .is (decide (capacity ≤ items.length)))
  | .isEmpty => (items, .is items.isEmpty)
  | .reset => ([], .done)

section Items

variable {storage item : Memory} {offset n start : ℕ}

theorem itemBytes_storeItem : itemBytes (storeItem storage offset item n) offset n =
    itemBytes item 0 n := by
  refine List.map_congr_left fun i hi => ?_
  rw [List.mem_range] at hi
  rw [storeItem, if_pos (by omega), Nat.add_sub_cancel_left, Nat.zero_add]

theorem itemBytes_storeItem_other (h : start + n ≤ offset ∨ offset + n ≤ start) :
    itemBytes (storeItem storage offset item n) start n = itemBytes storage start n := by
  refine List.map_congr_left fun i hi => ?_
  rw [List.mem_range] at hi
  exact if_neg (by omega)

end Items

/-- A queue of items in order: its slots from the tail on are the list. -/
structure Lists (k : KQueue (List UInt8)) (items : List (List UInt8)) : Prop where
  tail_lt : k.tail < k.length
  count_le : k.count ≤ k.length
  head_eq : k.head = (k.tail + k.count) % k.length
  items_eq : items = window k.length k.storage k.tail k.count

section Lists

variable {k : KQueue (List UInt8)} {items : List (List UInt8)} (h : Lists k items)
include h

theorem Lists.length_eq : items.length = k.count := by
  rw [h.items_eq, length_window]

theorem Lists.head_lt : k.head < k.length := by
  rw [h.head_eq]
  exact Nat.mod_lt _ (Nat.zero_lt_of_lt h.tail_lt)

theorem Lists.trySend (hroom : k.count < k.length) (item : List UInt8) :
    ∃ k', kqueueTrySend k item = some k' ∧ Lists k' (items ++ [item]) := by
  refine ⟨_, if_neg (Nat.not_le.mpr hroom), h.tail_lt, hroom, ?_, ?_⟩
  · show (k.head + 1) % k.length = (k.tail + (k.count + 1)) % k.length
    rw [h.head_eq, Nat.mod_add_mod]
    rfl
  · show items ++ [item] = window k.length (Function.update k.storage k.head item) k.tail
      (k.count + 1)
    rw [h.items_eq, h.head_eq, window_push h.tail_lt hroom]

theorem Lists.reset : Lists (kqueueReset k) [] where
  tail_lt := Nat.zero_lt_of_lt h.tail_lt
  count_le := Nat.zero_le _
  head_eq := (Nat.zero_mod _).symm
  items_eq := rfl

omit h in
theorem Lists.tryRecv {oldest : List UInt8} {rest : List (List UInt8)}
    (h : Lists k (oldest :: rest)) :
    ∃ k', kqueueTryRecv k = some (oldest, k') ∧ Lists k' rest := by
  have hcount : k.count = rest.length + 1 := by
    rw [← h.length_eq, List.length_cons]
  have hpos : 0 < k.length := Nat.zero_lt_of_lt h.tail_lt
  have hwindow := h.items_eq
  rw [hcount, window_succ, List.cons.injEq] at hwindow
  obtain ⟨hold, hrest⟩ := hwindow
  have htail : (k.tail + 1) % k.length < k.length := Nat.mod_lt _ hpos
  refine ⟨{ k with tail := (k.tail + 1) % k.length, count := k.count - 1 }, ?_, htail, ?_, ?_, ?_⟩
  · rw [kqueueTryRecv, if_neg (by omega), hold]
  · exact Nat.le_trans (Nat.sub_le k.count 1) h.count_le
  · show k.head = ((k.tail + 1) % k.length + (k.count - 1)) % k.length
    rw [h.head_eq, slot_succ, hcount, Nat.add_sub_cancel]
  · show rest = window k.length k.storage ((k.tail + 1) % k.length) (k.count - 1)
    rw [hcount, Nat.add_sub_cancel]
    exact hrest

end Lists

/-- The slots of a block's storage hold what the slots of a queue of items do. -/
structure Holding (capacity itemSize : ℕ) (q : QueueBlock) (k : KQueue (List UInt8)) : Prop where
  length_eq : q.length = capacity
  itemSize_eq : q.itemSize = itemSize
  fits : capacity * itemSize < 2 ^ 32
  capacity_eq : k.length = capacity
  count_eq : k.count = q.count
  head_eq : k.head = q.head
  tail_eq : k.tail = q.tail
  slots : ∃ storage, q.storage = some storage ∧
    ∀ i < capacity, k.storage i = itemBytes storage (q.offset i) itemSize

section Holding

variable {capacity itemSize : ℕ} {q : QueueBlock} {k k' : KQueue (List UInt8)}
  (h : Holding capacity itemSize q k)
include h

theorem Holding.offset_eq {i : ℕ} (hi : i < capacity) : q.offset i = i * itemSize := by
  rw [QueueBlock.offset, h.itemSize_eq]
  exact Nat.mod_eq_of_lt (Nat.lt_of_le_of_lt (Nat.mul_le_mul_right _ hi.le) h.fits)

theorem Holding.offset_apart {i j : ℕ} (hi : i < capacity) (hj : j < capacity) (hij : i ≠ j) :
    q.offset i + itemSize ≤ q.offset j ∨ q.offset j + itemSize ≤ q.offset i := by
  rw [h.offset_eq hi, h.offset_eq hj, ← Nat.succ_mul, ← Nat.succ_mul]
  rcases Nat.lt_or_gt_of_ne hij with hlt | hgt
  · exact .inl (Nat.mul_le_mul_right _ hlt)
  · exact .inr (Nat.mul_le_mul_right _ hgt)

theorem Holding.trySend (item : Memory) (hhead : k.head < k.length)
    (hsend : kqueueTrySend k (itemBytes item 0 itemSize) = some k') :
    Holding capacity itemSize (reflexKqueueTrySend q (some item)).1 k' ∧
      (reflexKqueueTrySend q (some item)).2 = true := by
  obtain ⟨storage, hstorage, hslots⟩ := h.slots
  have hroom : ¬ k.length ≤ k.count := by
    intro hfull
    rw [kqueueTrySend, if_pos hfull] at hsend
    cases hsend
  rw [kqueueTrySend, if_neg hroom] at hsend
  cases hsend
  rw [h.capacity_eq, ← h.length_eq, h.count_eq] at hroom
  rw [h.capacity_eq, h.head_eq] at hhead
  simp only [reflexKqueueTrySend, hstorage, if_neg hroom, and_true]
  refine ⟨h.length_eq, h.itemSize_eq, h.fits, h.capacity_eq, ?_, ?_, h.tail_eq, _, rfl,
    fun i hi => ?_⟩
  · exact congrArg (· + 1) h.count_eq
  · rw [h.head_eq, h.capacity_eq, h.length_eq]
  · show Function.update k.storage k.head (itemBytes item 0 itemSize) i =
      itemBytes (storeItem storage (q.offset q.head) item q.itemSize) (q.offset i) itemSize
    rw [h.head_eq, h.itemSize_eq]
    by_cases hslot : i = q.head
    · rw [hslot, Function.update_self, itemBytes_storeItem]
    · rw [Function.update_of_ne hslot, hslots i hi,
        itemBytes_storeItem_other (h.offset_apart hi hhead hslot)]

theorem Holding.trySend_full (item : Memory) (hfull : k.length ≤ k.count) :
    reflexKqueueTrySend q (some item) = (q, false) := by
  obtain ⟨storage, hstorage, -⟩ := h.slots
  rw [h.capacity_eq, ← h.length_eq, h.count_eq] at hfull
  simp only [reflexKqueueTrySend, hstorage, if_pos hfull]

theorem Holding.tryRecv {oldest : List UInt8} (item : Bool) (htail : k.tail < k.length)
    (hrecv : kqueueTryRecv k = some (oldest, k')) :
    Holding capacity itemSize (reflexKqueueTryRecv q item).1 k' ∧
      (reflexKqueueTryRecv q item).2 = some (if item then oldest else []) := by
  obtain ⟨storage, hstorage, hslots⟩ := h.slots
  have hitem : k.count ≠ 0 := by
    intro hempty
    rw [kqueueTryRecv, if_pos hempty] at hrecv
    cases hrecv
  rw [kqueueTryRecv, if_neg hitem] at hrecv
  cases hrecv
  rw [h.capacity_eq, h.tail_eq] at htail
  rw [h.count_eq] at hitem
  simp only [reflexKqueueTryRecv, hstorage, if_neg hitem]
  refine ⟨⟨h.length_eq, h.itemSize_eq, h.fits, h.capacity_eq, ?_, h.head_eq, ?_, storage, rfl,
    hslots⟩, ?_⟩
  · exact congrArg (· - 1) h.count_eq
  · rw [h.tail_eq, h.capacity_eq, h.length_eq]
  · rw [h.tail_eq, hslots _ htail, h.itemSize_eq]

theorem Holding.tryRecv_empty (item : Bool) (hempty : k.count = 0) :
    reflexKqueueTryRecv q item = (q, none) := by
  obtain ⟨storage, hstorage, -⟩ := h.slots
  rw [h.count_eq] at hempty
  simp only [reflexKqueueTryRecv, hstorage, if_pos hempty]

theorem Holding.reset : Holding capacity itemSize (reflexKqueueReset q) (kqueueReset k) :=
  ⟨h.length_eq, h.itemSize_eq, h.fits, h.capacity_eq, rfl, rfl, rfl, h.slots⟩

end Holding

/-- The queue a pointer leads to stands for a list of items. -/
def StandsFor (capacity itemSize : ℕ) (q : Option QueueBlock) (items : List (List UInt8)) : Prop :=
  ∃ b k, q = some b ∧ Holding capacity itemSize b k ∧ Lists k items

/-- One call keeps the queue standing for the list and gives the list's answer. -/
def Agrees (capacity itemSize : ℕ) (b : QueueBlock) (items : List (List UInt8)) (op : QueueOp) :
    Prop :=
  StandsFor capacity itemSize (kqueueStep (some b) op).1 (fifoStep capacity itemSize items op).1 ∧
    (kqueueStep (some b) op).2 = (fifoStep capacity itemSize items op).2

section Agrees

variable {capacity itemSize : ℕ} {b : QueueBlock} {k : KQueue (List UInt8)}
  {items : List (List UInt8)} (h : Holding capacity itemSize b k) (hl : Lists k items)
include h hl

theorem agrees_trySend (item : Option Memory) :
    Agrees capacity itemSize b items (.trySend item) := by
  cases item with
  | none =>
    obtain ⟨storage, hstorage, -⟩ := h.slots
    have hsame : reflexKqueueTrySend b none = (b, false) := by
      simp only [reflexKqueueTrySend, hstorage]
    simp only [Agrees, kqueueStep, fifoStep, hsame, and_true]
    exact ⟨b, k, rfl, h, hl⟩
  | some item =>
    have hlen : items.length < capacity ↔ k.count < k.length := by
      rw [hl.length_eq, h.capacity_eq]
    by_cases hroom : k.count < k.length
    · obtain ⟨k', hsend, hnext⟩ := hl.trySend hroom (itemBytes item 0 itemSize)
      obtain ⟨hold, hok⟩ := h.trySend item hl.head_lt hsend
      simp only [Agrees, kqueueStep, fifoStep, if_pos (hlen.mpr hroom), hok, and_true]
      exact ⟨_, k', rfl, hold, hnext⟩
    · have hsame := h.trySend_full item (Nat.not_lt.mp hroom)
      simp only [Agrees, kqueueStep, fifoStep, if_neg (mt hlen.mp hroom), hsame, and_true]
      exact ⟨b, k, rfl, h, hl⟩

theorem agrees_tryRecv (item : Bool) : Agrees capacity itemSize b items (.tryRecv item) := by
  cases items with
  | nil =>
    have hsame := h.tryRecv_empty item hl.length_eq.symm
    simp only [Agrees, kqueueStep, fifoStep, hsame, and_true]
    exact ⟨b, k, rfl, h, hl⟩
  | cons oldest rest =>
    obtain ⟨k', hrecv, hnext⟩ := hl.tryRecv
    obtain ⟨hold, hbytes⟩ := h.tryRecv item hl.tail_lt hrecv
    simp only [Agrees, kqueueStep, fifoStep, hbytes, and_true]
    exact ⟨_, k', rfl, hold, hnext⟩

theorem agrees (op : QueueOp) : Agrees capacity itemSize b items op := by
  have hcount : b.count = items.length := by
    rw [hl.length_eq, h.count_eq]
  cases op with
  | trySend item => exact agrees_trySend h hl item
  | tryRecv item => exact agrees_tryRecv h hl item
  | count => exact ⟨⟨b, k, rfl, h, hl⟩, congrArg QueueReply.count hcount⟩
  | isFull =>
    refine ⟨⟨b, k, rfl, h, hl⟩, ?_⟩
    simp only [kqueueStep, fifoStep, reflexKqueueIsFull, hcount, h.length_eq]
  | isEmpty =>
    refine ⟨⟨b, k, rfl, h, hl⟩, ?_⟩
    simp only [kqueueStep, fifoStep, reflexKqueueIsEmpty, hcount]
    cases items <;> rfl
  | reset => exact ⟨⟨_, _, rfl, h.reset, hl.reset⟩, rfl⟩

end Agrees

section Create

variable {queues : ℕ → QueueBlock} {malloc : ℕ → Option Memory} {length itemSize i : ℕ}
  {q : QueueBlock}

/-- A created queue is empty, and the bytes of its storage were counted without a wrap. -/
theorem reflexKqueueCreate_standsFor
    (h : reflexKqueueCreate queues malloc length itemSize = some (i, q)) :
    StandsFor length itemSize (some q) [] := by
  unfold reflexKqueueCreate at h
  split at h
  · cases h
  next hargs =>
    obtain ⟨hlength, hitem⟩ := not_or.mp hargs
    split at h
    · cases h
    next hwrap =>
      have hfits : length * itemSize ≤ uint32Max :=
        (Nat.le_div_iff_mul_le (Nat.pos_of_ne_zero hitem)).mp (Nat.not_lt.mp hwrap)
      split at h
      · cases h
      · split at h
        · cases h
        next storage hmalloc =>
          cases h
          have hempty : Lists ⟨fun i => itemBytes storage (i * itemSize % 2 ^ 32) itemSize,
              length, 0, 0, 0⟩ [] :=
            ⟨Nat.pos_of_ne_zero hlength, Nat.zero_le _, (Nat.zero_mod _).symm, rfl⟩
          exact ⟨_, _, rfl, ⟨rfl, rfl, Nat.lt_succ_of_le hfits, rfl, rfl, rfl, rfl, storage, rfl,
            fun _ _ => rfl⟩, hempty⟩

end Create

/-- Every sequence of calls on a created queue is answered as the bounded FIFO answers it. -/
theorem kqueue_refines_fifo (queues : ℕ → QueueBlock) (malloc : ℕ → Option Memory)
    (length itemSize i : ℕ) (q : QueueBlock)
    (h : reflexKqueueCreate queues malloc length itemSize = some (i, q)) (ops : List QueueOp) :
    outputs kqueueStep (some q) ops = outputs (fifoStep length itemSize) [] ops := by
  refine outputs_eq (StandsFor length itemSize) ?_ (reflexKqueueCreate_standsFor h) ops
  rintro s items op ⟨b, k, rfl, hold, hlists⟩
  exact agrees hold hlists op

def freeBlock : QueueBlock := ⟨none, 0, 0, 0, 0, 0, false⟩

def pairBlock : QueueBlock := ⟨some fun _ => 0, 2, 3, 0, 0, 0, true⟩

theorem kqueue_refines_fifo_pair :
    outputs kqueueStep (some pairBlock) [.trySend (some fun i => UInt8.ofNat i), .tryRecv true] =
      outputs (fifoStep 2 3) [] [.trySend (some fun i => UInt8.ofNat i), .tryRecv true] :=
  kqueue_refines_fifo (fun _ => freeBlock) (fun _ => some fun _ => 0) 2 3 0 pairBlock rfl _

example : outputs (fifoStep 2 3) [] [.trySend (some fun i => UInt8.ofNat i), .tryRecv true] =
    [.sent true, .received (some [0, 1, 2])] := rfl

end ReflexOS.Kernel
