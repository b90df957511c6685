import ReflexOS.KernelHeapAligned
import ReflexOS.KernelHeapRuns
import ReflexOS.Threads

set_option autoImplicit false

/-!
# The allocator shim

The wrapped entry points as programs over the calls they make. ESP-IDF's heap is any allocator
over memory outside the region: what it may answer is stated, not how it finds it.
-/
namespace ReflexOS.HeapShim
open ByteMemory Kernel Threads

/-- `REFLEX_HEAP_REGION_BYTES`. -/
def regionBytes : ℕ := 192 * 1024

def cap32Bit : ℕ := 1 <<< 1
def cap8Bit : ℕ := 1 <<< 2
def capDma : ℕ := 1 <<< 3
def capInternal : ℕ := 1 <<< 11
def capDefault : ℕ := 1 <<< 12
def capsServeable : ℕ := capDefault ||| capInternal ||| cap8Bit ||| cap32Bit ||| capDma

def oursToServe (caps : ℕ) : Bool := decide (caps &&& (2 ^ 32 - 1 - capsServeable) = 0)

def heapOwns (H : Heap) (p : ℕ) : Bool :=
  H.ready && decide (H.regionLo ≤ p) && decide (p < H.regionHi)

/-- The entry points of ESP-IDF that the wrappers fall back to. -/
inductive RealCall where
  | malloc (n : ℕ)
  | calloc (c n : ℕ)
  | realloc (p n : ℕ)
  | capsMalloc (n caps : ℕ)
  | capsCalloc (c n caps : ℕ)
  | capsRealloc (p n caps : ℕ)
  | capsAlignedAlloc (a n caps : ℕ)
  | capsFree (p : ℕ)

/-- What a wrapper does in one go. -/
inductive Prim where
  | ensureReady
  | owns (p : ℕ)
  | heap (c : Call)
  | blockSize (p : ℕ)
  | real (c : RealCall)
  | memset (p n : ℕ)
  | memcpy (dst src n : ℕ)

abbrev Code := Prog Prim ℕ ℕ

def heapAlloc (n : ℕ) : Code := .op (.heap (.alloc n))
def heapAllocAligned (a n : ℕ) : Code := .op (.heap (.allocAligned a n))
def heapRealloc (p n : ℕ) : Code := .op (.heap (.realloc p n))
def heapFree (p : ℕ) : Code := .op (.heap (.free p))
def real (c : RealCall) : Code := .op (.real c)

/-- The functions that return nothing return 0 here. -/
def freeAny (p : ℕ) : Code := do
  if p = 0 then return 0
  else if (← .op (.owns p)) ≠ 0 then heapFree p
  else real (.capsFree p)

def wrapMalloc (n : ℕ) : Code := do
  let _ ← .op .ensureReady
  let p ← heapAlloc n
  if p ≠ 0 then return p else real (.malloc n)

def wrapFree (p : ℕ) : Code := freeAny p

/-- The body shared by the two wrappers, up to the allocator that is asked last. -/
def callocFrom (theirs : RealCall) (c n : ℕ) : Code := do
  let _ ← .op .ensureReady
  if c ≠ 0 ∧ (2 ^ 32 - 1) / c < n then return 0
  else
    let total := c * n % 2 ^ 32
    let p ← heapAlloc total
    if p = 0 then real theirs
    else
      let _ ← .op (.memset p total)
      return p

def wrapCalloc (c n : ℕ) : Code := callocFrom (.calloc c n) c n

/-- A pointer that is not NULL and not the region's. -/
def foreign (p : ℕ) : Prog Prim ℕ Bool := do
  if p = 0 then return false
  else
    let o ← .op (.owns p)
    return decide (o = 0)

/-- The block moved to one of ESP-IDF's, if there is one. -/
def moveTo (fallback p n : ℕ) : Code := do
  if fallback ≠ 0 ∧ p ≠ 0 then
    let old ← .op (.blockSize p)
    let _ ← .op (.memcpy fallback p (if old < n then old else n))
    let _ ← heapFree p
    return fallback
  else return fallback

def wrapRealloc (p n : ℕ) : Code := do
  let _ ← .op .ensureReady
  if ← foreign p then real (.realloc p n)
  else
    let q ← heapRealloc p n
    if q ≠ 0 ∨ n = 0 then return q
    else
      let fallback ← real (.malloc n)
      moveTo fallback p n

def wrapCapsMalloc (n caps : ℕ) : Code := do
  if !oursToServe caps then real (.capsMalloc n caps)
  else
    let _ ← .op .ensureReady
    let p ← heapAlloc n
    if p ≠ 0 then return p else real (.capsMalloc n caps)

def wrapCapsCalloc (c n caps : ℕ) : Code :=
  if !oursToServe caps then real (.capsCalloc c n caps)
  else callocFrom (.capsCalloc c n caps) c n

def wrapCapsAlignedAlloc (a n caps : ℕ) : Code := do
  if !oursToServe caps then real (.capsAlignedAlloc a n caps)
  else
    let _ ← .op .ensureReady
    let p ← heapAllocAligned a n
    if p ≠ 0 then return p else real (.capsAlignedAlloc a n caps)

/-- `heap_caps_realloc` once the region has not resized the block. -/
def capsReallocMove (p n caps : ℕ) : Code := do
  if n = 0 then
    if p ≠ 0 then
      let _ ← heapFree p
      return 0
    else return 0
  else
    let fresh ← real (.capsMalloc n caps)
    moveTo fresh p n

def wrapCapsRealloc (p n caps : ℕ) : Code := do
  if ← foreign p then real (.capsRealloc p n caps)
  else if oursToServe caps then
    let _ ← .op .ensureReady
    let q ← heapRealloc p n
    if q ≠ 0 ∨ n = 0 then return q else capsReallocMove p n caps
  else capsReallocMove p n caps

def wrapCapsFree (p : ℕ) : Code := freeAny p

/-- The thirteen wrapped entry points; the reentrant forms of newlib do not use their context. -/
inductive Entry where
  | malloc (n : ℕ)
  | free (p : ℕ)
  | calloc (c n : ℕ)
  | realloc (p n : ℕ)
  | mallocR (n : ℕ)
  | freeR (p : ℕ)
  | callocR (c n : ℕ)
  | reallocR (p n : ℕ)
  | capsMalloc (n caps : ℕ)
  | capsCalloc (c n caps : ℕ)
  | capsAlignedAlloc (a n caps : ℕ)
  | capsRealloc (p n caps : ℕ)
  | capsFree (p : ℕ)

def Entry.body : Entry → Code
  | .malloc n => wrapMalloc n
  | .free p => wrapFree p
  | .calloc c n => wrapCalloc c n
  | .realloc p n => wrapRealloc p n
  | .mallocR n => wrapMalloc n
  | .freeR p => freeAny p
  | .callocR c n => wrapCalloc c n
  | .reallocR p n => wrapRealloc p n
  | .capsMalloc n caps => wrapCapsMalloc n caps
  | .capsCalloc c n caps => wrapCapsCalloc c n caps
  | .capsAlignedAlloc a n caps => wrapCapsAlignedAlloc a n caps
  | .capsRealloc p n caps => wrapCapsRealloc p n caps
  | .capsFree p => wrapCapsFree p

end ReflexOS.HeapShim
