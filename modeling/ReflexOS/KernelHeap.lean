import ReflexOS.ByteMemory

set_option autoImplicit false

/-!
# The kernel heap

Every block carries its header in the region itself: `prev`, `next`, `size` and `used`, four
words in front of the payload. Sizes and addresses held in integers wrap at 32 bits; a
pointer stays inside the region it points into.
-/
namespace ReflexOS.Kernel
open ByteMemory

/-- Addition and subtraction of `size_t` and `uintptr_t`. -/
@[irreducible] def add32 (a b : ℕ) : ℕ := (a + b) % 2 ^ 32
@[irreducible] def sub32 (a b : ℕ) : ℕ := (a + 2 ^ 32 - b) % 2 ^ 32

/-- `~(align - 1)`. -/
def alignMask (align : ℕ) : ℕ := 2 ^ 32 - 1 - (align - 1)

/-- The next multiple of a power of two. -/
def alignUp (n align : ℕ) : ℕ := add32 n (align - 1) &&& alignMask align

def heapAlign : ℕ := 8
def hdr : ℕ := 16
def minPayload : ℕ := heapAlign
def splitMin : ℕ := hdr + minPayload

structure Heap where
  mem : Memory
  regionLo : ℕ
  regionHi : ℕ
  first : ℕ
  total : ℕ
  free : ℕ
  minFree : ℕ
  ready : Bool

namespace Heap

def prev (H : Heap) (b : ℕ) : ℕ := load32 H.mem b
def next (H : Heap) (b : ℕ) : ℕ := load32 H.mem (b + 4)
def size (H : Heap) (b : ℕ) : ℕ := load32 H.mem (b + 8)
def used (H : Heap) (b : ℕ) : ℕ := load32 H.mem (b + 12)

def setPrev (H : Heap) (b v : ℕ) : Heap := { H with mem := store32 H.mem b v }
def setNext (H : Heap) (b v : ℕ) : Heap := { H with mem := store32 H.mem (b + 4) v }
def setSize (H : Heap) (b v : ℕ) : Heap := { H with mem := store32 H.mem (b + 8) v }
def setUsed (H : Heap) (b v : ℕ) : Heap := { H with mem := store32 H.mem (b + 12) v }

end Heap

def payloadOf (b : ℕ) : ℕ := b + hdr
def blockOf (p : ℕ) : ℕ := p - hdr

def sizeIsSane (size : ℕ) : Bool := decide (size ≤ 2 ^ 32 - 1 - (heapAlign - 1) - hdr)

/-- NULL is address 0. -/
def plausiblePayload (H : Heap) (p : ℕ) : Bool :=
  if !H.ready || decide (p = 0) then false
  else if p < H.regionLo + hdr ∨ H.regionHi ≤ p then false
  else if p &&& (heapAlign - 1) ≠ 0 then false
  else true

def noteFreeChange (H : Heap) : Heap :=
  if H.free < H.minFree then { H with minFree := H.free } else H

def heapInit (mem : Memory) (base size : ℕ) : Heap :=
  let off : Heap := ⟨mem, 0, 0, 0, 0, 0, 0, false⟩
  if base = 0 ∨ size < hdr + minPayload then off
  else
    let start := alignUp base heapAlign
    let lost := sub32 start base
    if size ≤ add32 lost (hdr + minPayload) then off
    else
      let usable := sub32 size lost &&& alignMask heapAlign
      let H := ((({ off with
        regionLo := start
        regionHi := start + usable
        first := start }.setPrev start 0).setNext start 0).setSize start (sub32 usable hdr)).setUsed
          start 0
      { H with
        total := H.size start
        free := H.size start
        minFree := H.size start
        ready := true }

def split (H : Heap) (b want : ℕ) : Heap :=
  let rest := sub32 (H.size b) want
  if rest < splitMin then H
  else
    let tail := payloadOf b + want
    let H := H.setSize tail (sub32 rest hdr)
    let H := H.setUsed tail 0
    let H := H.setPrev tail b
    let H := H.setNext tail (H.next b)
    let H := if H.next b ≠ 0 then H.setPrev (H.next b) tail else H
    let H := H.setNext b tail
    let H := H.setSize b want
    { H with free := sub32 H.free hdr }

def coalesceForward (H : Heap) (b : ℕ) : Heap :=
  let n := H.next b
  if n = 0 ∨ H.used n ≠ 0 then H
  else
    let H := H.setSize b (add32 (H.size b) (add32 hdr (H.size n)))
    let H := H.setNext b (H.next n)
    let H := if H.next n ≠ 0 then H.setPrev (H.next n) b else H
    { H with free := add32 H.free hdr }

/-- The loop that steps over gaps too small for a block. -/
def skipGap (pay align : ℕ) : ℕ → ℕ → ℕ
  | 0, aligned => aligned
  | fuel + 1, aligned =>
    let gap := sub32 aligned pay
    if gap ≠ 0 ∧ gap < splitMin then skipGap pay align fuel (add32 aligned align) else aligned

/-- The end of a search: the block that fits, cut to size and marked. -/
def takeBlock (H : Heap) (b want : ℕ) : ℕ × Heap :=
  let H := split H b want
  let H := H.setUsed b 1
  let H := { H with free := sub32 H.free (H.size b) }
  (payloadOf b, noteFreeChange H)

/-- The search over the blocks. -/
def allocFrom (align want : ℕ) : ℕ → ℕ → Heap → ℕ × Heap
  | 0, _, H => (0, H)
  | fuel + 1, b, H =>
    if b = 0 then (0, H)
    else if H.used b ≠ 0 then allocFrom align want fuel (H.next b) H
    else
      let pay := payloadOf b
      let aligned := skipGap pay align splitMin (alignUp pay align)
      let gap := sub32 aligned pay
      if gap = 0 then
        if H.size b < want then allocFrom align want fuel (H.next b) H else takeBlock H b want
      else if H.size b < add32 gap want then allocFrom align want fuel (H.next b) H
      else
        let H := split H b (sub32 gap hdr)
        let b := H.next b
        if b = 0 ∨ H.used b ≠ 0 ∨ H.size b < want then allocFrom align want fuel (H.next b) H
        else takeBlock H b want

/-- A walk over the blocks ends within one step a byte of the address space below the region's
end. -/
def allocLocked (H : Heap) (align size : ℕ) : ℕ × Heap :=
  if !H.ready || decide (size = 0) || !sizeIsSane size then (0, H)
  else
    let want := alignUp size heapAlign
    let want := if want < minPayload then minPayload else want
    let align := if align < heapAlign then heapAlign else align
    allocFrom align want H.regionHi H.first H

def heapAlloc (H : Heap) (size : ℕ) : ℕ × Heap := allocLocked H heapAlign size

def heapAllocAligned (H : Heap) (align size : ℕ) : ℕ × Heap :=
  if align = 0 ∨ align &&& (align - 1) ≠ 0 then (0, H) else allocLocked H align size

def freeLocked (H : Heap) (p : ℕ) : Heap :=
  let b := blockOf p
  if H.used b = 0 then H
  else
    let H := H.setUsed b 0
    let H := { H with free := add32 H.free (H.size b) }
    let H := coalesceForward H b
    if H.prev b ≠ 0 ∧ H.used (H.prev b) = 0 then coalesceForward H (H.prev b) else H

def heapFree (H : Heap) (p : ℕ) : Heap := if plausiblePayload H p then freeLocked H p else H

def heapBlockSize (H : Heap) (p : ℕ) : ℕ := if plausiblePayload H p then H.size (blockOf p) else 0

/-- The rest of a block in use that was cut, merged with a free neighbour. -/
def settleCut (H : Heap) (b before : ℕ) : Heap :=
  if H.size b = before then H
  else
    let H := { H with free := add32 H.free (sub32 before (H.size b)) }
    if H.next b ≠ 0 ∧ H.used (H.next b) = 0 then coalesceForward H (H.next b) else H

/-- A block in use, cut to size. -/
def shrinkTo (H : Heap) (b want : ℕ) : Heap :=
  noteFreeChange (settleCut (split H b want) b (H.size b))

/-- A free neighbour made part of a block in use. -/
def absorbNext (H : Heap) (b n : ℕ) : Heap :=
  let H := { H with free := sub32 H.free (H.size n) }
  let H := H.setSize b (add32 (H.size b) (add32 hdr (H.size n)))
  let H := H.setNext b (H.next n)
  if H.next n ≠ 0 then H.setPrev (H.next n) b else H

def heapRealloc (H : Heap) (p size : ℕ) : ℕ × Heap :=
  if p = 0 then heapAlloc H size
  else if size = 0 then (0, heapFree H p)
  else if !H.ready || !sizeIsSane size then (0, H)
  else if !plausiblePayload H p then (0, H)
  else
    let b := blockOf p
    let want := alignUp size heapAlign
    let want := if want < minPayload then minPayload else want
    if want ≤ H.size b then (p, shrinkTo H b want)
    else
      let n := H.next b
      if n ≠ 0 ∧ H.used n = 0 ∧ want ≤ add32 (add32 (H.size b) hdr) (H.size n) then
        (p, shrinkTo (absorbNext H b n) b want)
      else
        let old := H.size b
        let fresh := allocLocked H heapAlign size
        if fresh.1 ≠ 0 then
          let H := { fresh.2 with
            mem := copyBytes fresh.2.mem fresh.1 p (if old < size then old else size) }
          (fresh.1, freeLocked H p)
        else fresh

/-- What the walk of the audit has seen so far. -/
structure Audit where
  ok : Bool
  freeSeen : ℕ
  span : ℕ
  prev : ℕ
  last : ℕ

def auditFrom (H : Heap) : ℕ → ℕ → Audit → Audit
  | 0, _, A => A
  | fuel + 1, b, A =>
    if b = 0 ∨ A.ok = false then A
    else
      auditFrom H fuel (H.next b) {
        ok := decide (H.prev b = A.prev) && decide (H.size b &&& (heapAlign - 1) = 0) &&
          decide (H.used b ≤ 1) &&
          (decide (H.next b = 0) || (decide (H.next b = payloadOf b + H.size b) &&
            !(decide (H.used b = 0) && decide (H.used (H.next b) = 0))))
        freeSeen := if H.used b = 0 then add32 A.freeSeen (H.size b) else A.freeSeen
        span := add32 A.span (add32 hdr (H.size b))
        prev := b
        last := b }

def heapCheck (H : Heap) : Bool :=
  let A := auditFrom H H.regionHi H.first
    ⟨H.ready && decide (H.first = H.regionLo), 0, 0, 0, 0⟩
  A.ok && decide (A.freeSeen = H.free) &&
    (decide (A.last = 0) || decide (payloadOf A.last + H.size A.last = H.regionHi)) &&
    decide (A.span = sub32 H.regionHi H.regionLo)

end ReflexOS.Kernel
