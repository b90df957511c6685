import ReflexOS.Types
import ReflexOS.WordBits

set_option autoImplicit false

/-!
# Interrupt lines

The allocator of CPU interrupt lines, on the registers of the interrupt matrix and the
controller. Registers are 32-bit words at their addresses.
-/
namespace ReflexOS.Hal
open WordBits

def intmtxBase : ℕ := 0x60010000
def intmtxSourceMax : ℕ := 63
def intmtxDisabledLine : ℕ := 6
def plicMxBase : ℕ := 0x20001000
def plicMxintEnable : ℕ := plicMxBase + 0x00
def plicMxintType : ℕ := plicMxBase + 0x04
def plicMxintClear : ℕ := plicMxBase + 0x08
def plicMxintPri (n : ℕ) : ℕ := plicMxBase + 0x10 + n * 4
def plicMxintThresh : ℕ := plicMxBase + 0x90
def intmtxRoute (source : ℕ) : ℕ := intmtxBase + 4 * source

def intrMin : ℕ := 10
def intrMax : ℕ := 31
def intrPriorityMax : BitVec 32 := 7

/-- `reflex_intr_entry_t`. -/
structure IntrEntry where
  handler : Option ℕ
  arg : ℕ
  prevPriority : BitVec 32
  prevTypeBit : BitVec 32
  prevMieBit : BitVec 32
  taken : Bool

/-- The registers, `mie`, `mstatus.MIE`, and the statics of the allocator. -/
structure Interrupts where
  regs : ℕ → BitVec 32
  mie : BitVec 32
  globalIe : Bool
  bitmap : BitVec 32
  unclaimed : BitVec 32
  table : ℕ → IntrEntry

namespace Interrupts

def write (S : Interrupts) (a : ℕ) (v : BitVec 32) : Interrupts :=
  { S with regs := Function.update S.regs a v }

def setEntry (S : Interrupts) (i : ℕ) (e : IntrEntry) : Interrupts :=
  { S with table := Function.update S.table i e }

def priority (S : Interrupts) (line : ℕ) : BitVec 32 := S.regs (plicMxintPri line)
def edge (S : Interrupts) (line : ℕ) : Bool := (S.regs plicMxintType).getLsbD line
def enabled (S : Interrupts) (line : ℕ) : Bool := (S.regs plicMxintEnable).getLsbD line
def mieBit (S : Interrupts) (line : ℕ) : Bool := S.mie.getLsbD line
def route (S : Interrupts) (source : ℕ) : BitVec 32 := S.regs (intmtxRoute source)

end Interrupts

def intrPriorityFor (threshold : BitVec 32) : BitVec 32 :=
  let prio := threshold + 1
  if threshold ≥ intrPriorityMax then intrPriorityMax
  else if prio < 1 then 1
  else prio

def freeLine (bitmap : BitVec 32) : Option ℕ :=
  (List.range' intrMin (intrMax + 1 - intrMin)).find? fun i => !bitmap.getLsbD i

/-- `reflex_hal_intr_alloc` once it has found the line `i`. -/
def Interrupts.claim (i source : ℕ) (handler : Option ℕ) (arg : ℕ) (S : Interrupts) :
    Interrupts :=
  let S := { S with bitmap := setBit S.bitmap i }
  let S := S.setEntry i { S.table i with handler := handler, arg := arg }
  let S := { S with unclaimed := clearBit S.unclaimed i }
  let S := S.write (intmtxRoute source) (BitVec.ofNat 32 i)
  let S := S.setEntry i { S.table i with
    prevPriority := S.regs (plicMxintPri i)
    prevTypeBit := bitOf (S.regs plicMxintType) i
    taken := true }
  let S := S.write (plicMxintPri i) (intrPriorityFor (S.regs plicMxintThresh))
  let S := S.write plicMxintType (clearBit (S.regs plicMxintType) i)
  let S := S.setEntry i { S.table i with prevMieBit := bitOf S.mie i }
  let S := { S with mie := setBit S.mie i }
  let S := S.write plicMxintEnable (setBit (S.regs plicMxintEnable) i)
  { S with globalIe := true }

/-- `reflex_hal_intr_alloc`. A handle is the line plus one; `vectorOurs` says that the vector
is Reflex's, or that the build does not ask. -/
def intrAlloc (vectorOurs : Bool) (source : ℤ) (handler : Option ℕ) (arg : ℕ) (S : Interrupts) :
    Err × Option ℕ × Interrupts :=
  if source < 0 ∨ (intmtxSourceMax : ℤ) < source then (Err.invalidArg, none, S)
  else if handler = none then (Err.invalidArg, none, S)
  else if !vectorOurs then (Err.invalidState, none, S)
  else
    match freeLine S.bitmap with
    | none => (Err.noMem, none, S)
    | some i => (Err.ok, some (i + 1), S.claim i source.toNat handler arg)

/-- `reflex_hal_intr_set_enabled`. -/
def intrSetEnabled (handle : ℕ) (on : Bool) (S : Interrupts) : Err × Interrupts :=
  let i := handle - 1
  if i < intrMin ∨ intrMax < i then (Err.invalidArg, S)
  else
    let enable := S.regs plicMxintEnable
    (Err.ok, S.write plicMxintEnable (if on then setBit enable i else clearBit enable i))

/-- One source is detached from the line `i`. -/
def detachSource (i : ℕ) (regs : ℕ → BitVec 32) (source : ℕ) : ℕ → BitVec 32 :=
  if regs (intmtxRoute source) = BitVec.ofNat 32 i then
    Function.update regs (intmtxRoute source) (BitVec.ofNat 32 intmtxDisabledLine)
  else regs

def detachSources (i : ℕ) (regs : ℕ → BitVec 32) : ℕ → BitVec 32 :=
  (List.range (intmtxSourceMax + 1)).foldl (detachSource i) regs

/-- What the line held before it was taken is put back. -/
def Interrupts.restore (i : ℕ) (S : Interrupts) : Interrupts :=
  let e := S.table i
  if e.taken then
    let S := S.write (plicMxintPri i) e.prevPriority
    let S := S.write plicMxintType (putBit (S.regs plicMxintType) i e.prevTypeBit)
    let S := { S with mie := putBit S.mie i e.prevMieBit }
    S.setEntry i { e with taken := false }
  else S

/-- `reflex_hal_intr_free` of the line `i`. -/
def Interrupts.release (i : ℕ) (S : Interrupts) : Interrupts :=
  let S := S.write plicMxintEnable (clearBit (S.regs plicMxintEnable) i)
  let S := S.write plicMxintClear (1#32 <<< i)
  let S := { S with globalIe := true }
  let S := { S with regs := detachSources i S.regs }
  let S := S.restore i
  let S := S.setEntry i { S.table i with handler := none, arg := 0 }
  { S with bitmap := clearBit S.bitmap i }

/-- `reflex_hal_intr_free`. -/
def intrFree (handle : ℕ) (S : Interrupts) : Err × Interrupts :=
  let i := handle - 1
  if i < intrMin ∨ intrMax < i then (Err.invalidArg, S) else (Err.ok, S.release i)

end ReflexOS.Hal
