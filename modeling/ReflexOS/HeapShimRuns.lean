import ReflexOS.HeapShim

set_option autoImplicit false

/-!
# The two heaps in use

What each primitive does to the heaps, and the threads whose calls take them in turn. Beside the
heaps it is recorded which allocator issued a block, and whose call is at work on it.
-/
namespace ReflexOS.HeapShim
open ByteMemory Kernel Threads Runs

inductive Issuer where
  | reflex
  | espIdf
deriving DecidableEq

/-- A block as its allocator issued it. -/
structure Issue where
  issuer : Issuer
  size : ℕ
deriving DecidableEq

/-- Reflex's heap, in the memory that both share, and the blocks that ESP-IDF has issued. -/
structure Heaps where
  callers : Callers
  theirs : ℕ → Option ℕ

namespace Heaps

def mem (H : Heaps) : Memory := H.callers.heap.mem

def setMem (H : Heaps) (m : Memory) : Heaps :=
  { H with callers := { H.callers with heap := { H.callers.heap with mem := m } } }

def setTheirs (H : Heaps) (theirs : ℕ → Option ℕ) : Heaps := { H with theirs := theirs }

def issued (H : Heaps) (p : ℕ) : Option Issue :=
  match H.callers.live p with
  | some q => some ⟨.reflex, q.size⟩
  | none => (H.theirs p).map (Issue.mk .espIdf)

end Heaps

/-- The bytes of the region, from where the linker has put it. -/
def InRegion (base x : ℕ) : Prop := base ≤ x ∧ x < base + regionBytes

/-- A block that a correct allocator may issue beside the ones it has issued. -/
structure Grants (base : ℕ) (theirs : ℕ → Option ℕ) (n p : ℕ) : Prop where
  ne : p ≠ 0
  lt : p < 2 ^ 32
  le : p + n ≤ 2 ^ 32
  place : ¬ InRegion base p
  outside : ∀ x, p ≤ x → x < p + n → ¬ InRegion base x
  fresh : theirs p = none
  apart : ∀ q k, theirs q = some k → ∀ x, p ≤ x → x < p + n → ¬ (q ≤ x ∧ x < q + k)

/-- It writes neither into the region nor into the blocks that are out. -/
def Keeps (base : ℕ) (theirs : ℕ → Option ℕ) (m m' : Memory) : Prop :=
  ∀ x, (InRegion base x ∨ ∃ q k, theirs q = some k ∧ q ≤ x ∧ x < q + k) → m' x = m x

inductive Request where
  | alloc (n : ℕ)
  | resize (p n : ℕ)
  | release (p : ℕ)

def RealCall.request : RealCall → Request
  | .malloc n => .alloc n
  | .calloc c n => .alloc (c * n)
  | .realloc p n => .resize p n
  | .capsMalloc n _ => .alloc n
  | .capsCalloc c n _ => .alloc (c * n)
  | .capsRealloc p n _ => .resize p n
  | .capsAlignedAlloc _ n _ => .alloc n
  | .capsFree p => .release p

/-- The block that a request resizes or releases. -/
def Request.pointer : Request → Option ℕ
  | .alloc _ => none
  | .resize p _ => some p
  | .release p => some p

/-- What ESP-IDF's heap may answer. A pointer that it did not issue leaves nothing defined. -/
inductive Answers (base : ℕ) (H : Heaps) : Request → ℕ → Heaps → Prop where
  | refused {n : ℕ} {m : Memory} (keeps : Keeps base H.theirs H.mem m) :
      Answers base H (.alloc n) 0 (H.setMem m)
  | granted {n p : ℕ} {m : Memory} (grants : Grants base H.theirs n p)
      (keeps : Keeps base H.theirs H.mem m) :
      Answers base H (.alloc n) p ((H.setMem m).setTheirs (Function.update H.theirs p (some n)))
  | unresized {p n k : ℕ} {m : Memory} (owns : H.theirs p = some k) (pos : n ≠ 0)
      (keeps : Keeps base H.theirs H.mem m) : Answers base H (.resize p n) 0 (H.setMem m)
  | resized {p n k q : ℕ} {m : Memory} (owns : H.theirs p = some k) (pos : n ≠ 0)
      (grants : Grants base (Function.update H.theirs p none) n q)
      (keeps : Keeps base (Function.update H.theirs p none) H.mem m)
      (copied : ∀ i < k, i < n → m (q + i) = H.mem (p + i)) :
      Answers base H (.resize p n) q ((H.setMem m).setTheirs
        (Function.update (Function.update H.theirs p none) q (some n)))
  | dropped {p k : ℕ} {m : Memory} (owns : H.theirs p = some k)
      (keeps : Keeps base (Function.update H.theirs p none) H.mem m) :
      Answers base H (.resize p 0) 0 ((H.setMem m).setTheirs (Function.update H.theirs p none))
  | released {p k : ℕ} {m : Memory} (owns : H.theirs p = some k)
      (keeps : Keeps base (Function.update H.theirs p none) H.mem m) :
      Answers base H (.release p) 0 ((H.setMem m).setTheirs (Function.update H.theirs p none))
  | stray {c : Request} {p r : ℕ} {H' : Heaps} (names : c.pointer = some p)
      (stray : H.theirs p = none) : Answers base H c r H'

/-- `ensure_ready`, its second check being made with interrupts off. -/
def Heaps.ensureReady (base : ℕ) (H : Heaps) : Heaps :=
  if H.callers.heap.ready then H
  else { H with callers := ⟨heapInit H.mem base regionBytes, H.callers.live⟩ }

/-- The primitives, each of which takes effect at once: under the heap's lock, in ESP-IDF's
allocator, or on bytes that the calling thread alone may use. -/
inductive Effect (base : ℕ) (H : Heaps) : Prim → ℕ → Heaps → Prop where
  | ensureReady : Effect base H .ensureReady 0 (H.ensureReady base)
  | owns {p : ℕ} : Effect base H (.owns p) (if heapOwns H.callers.heap p then 1 else 0) H
  | heap {c : Call} : Effect base H (.heap c) (H.callers.perform c).1
      { H with callers := (H.callers.perform c).2 }
  | blockSize {p : ℕ} : Effect base H (.blockSize p) (heapBlockSize H.callers.heap p) H
  | real {c : RealCall} {r : ℕ} {H' : Heaps} (answers : Answers base H c.request r H') :
      Effect base H (.real c) r H'
  | memset {p n : ℕ} : Effect base H (.memset p n) 0
      (H.setMem fun x => if p ≤ x ∧ x < p + n then 0 else H.mem x)
  | memcpy {dst src n : ℕ} : Effect base H (.memcpy dst src n) 0
      (H.setMem (copyBytes H.mem dst src n))

structure World where
  heaps : Heaps
  holder : ℕ → Option ℕ

namespace World

/-- What a thread's step has issued is the thread's. -/
def after (W : World) (t : ℕ) (H' : Heaps) : World where
  heaps := H'
  holder := fun p =>
    if H'.issued p = W.heaps.issued p then W.holder p
    else if H'.issued p = none then none else some t

/-- What a call that returns was at work on is anyone's again. -/
def released (W : World) (t : ℕ) : World where
  heaps := W.heaps
  holder := fun p => if W.holder p = some t then none else W.holder p

end World

/-- The pointer that a call is given, if it takes one. -/
def Entry.pointer : Entry → ℕ
  | .free p | .freeR p | .capsFree p => p
  | .realloc p _ | .reallocR p _ | .capsRealloc p _ _ => p
  | _ => 0

def Entry.words : Entry → List ℕ
  | .malloc n | .mallocR n => [n]
  | .free p | .freeR p | .capsFree p => [p]
  | .calloc c n | .callocR c n => [c, n]
  | .realloc p n | .reallocR p n => [p, n]
  | .capsMalloc n caps => [n, caps]
  | .capsCalloc c n caps => [c, n, caps]
  | .capsAlignedAlloc a n caps => [a, n, caps]
  | .capsRealloc p n caps => [p, n, caps]

/-- Arguments are words, and a pointer that is passed is NULL, or live and nobody else's. -/
structure Enter (t : ℕ) (W : World) (c : Entry) (W' : World) : Prop where
  words : ∀ w ∈ c.words, w < 2 ^ 32
  live : c.pointer = 0 ∨ W.heaps.issued c.pointer ≠ none ∧ W.holder c.pointer = none
  eq : W' = { W with
    holder := if c.pointer = 0 then W.holder
      else Function.update W.holder c.pointer (some t) }

/-- Callers write into what they hold, and code that reaches ESP-IDF's heap without going
through a wrapper allocates and frees there. -/
inductive Other (base : ℕ) (W : World) : World → Prop where
  | store {p i : ℕ} {b : Issue} {v : UInt8} (live : W.heaps.issued p = some b)
      (idle : W.holder p = none) (lt : i < b.size) :
      Other base W ⟨W.heaps.setMem (Function.update W.heaps.mem (p + i) v), W.holder⟩
  | direct {n r : ℕ} {H' : Heaps} (answers : Answers base W.heaps (.alloc n) r H') :
      Other base W ⟨H', W.holder⟩
  | directFree {p k : ℕ} {H' : Heaps} (owns : W.heaps.theirs p = some k)
      (idle : W.holder p = none) (answers : Answers base W.heaps (.release p) 0 H') :
      Other base W ⟨H', W.holder⟩

/-- The shim and its callers, over a region at `base`. -/
def shim (base : ℕ) : System World Entry Prim ℕ ℕ where
  body := Entry.body
  enter := Enter
  exec := fun t W op r W' => ∃ H', Effect base W.heaps op r H' ∧ W' = W.after t H'
  leave := fun t W _ _ W' => W' = W.released t
  other := Other base

abbrev Machine := State World Entry Prim ℕ ℕ

/-- Nothing is ready yet and nothing is out. -/
def atBoot (mem : Memory) : Machine where
  world := ⟨⟨⟨⟨mem, 0, 0, 0, 0, 0, 0, false⟩, fun _ => none⟩, fun _ => none⟩, fun _ => none⟩
  tasks := fun _ => none

/-- An aligned request meets no free block too close to the top of the word. -/
def Fits (W : World) : Prim → Prop
  | .heap (.allocAligned a n) => ∀ k, a = 2 ^ k → n = 0 ∨ sizeIsSane n = false ∨
      Roomy (2 ^ max k 3) ((n + 7) / 8 * 8) W.heaps.callers.heap.regionLo
        (blocks W.heaps.callers.heap)
  | _ => True

end ReflexOS.HeapShim
