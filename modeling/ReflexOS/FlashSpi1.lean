import ReflexOS.ByteMemory
import ReflexOS.NorFlash
import ReflexOS.Types

set_option autoImplicit false

/-!
# The SPI1 flash controller and its driver

A command is started by writing its bit to `CMD`, which reads back zero when the controller is
done; how long that takes, and how long the part then writes, is not known to the driver.
-/
namespace ReflexOS.Flash
open ByteMemory

section Controller

/-- The registers beside `CMD`. -/
inductive Register where
  | addr | ctrl | user | user1 | user2 | mosiDlen | misoDlen | rdStatus
  | w (i : ℕ)
deriving DecidableEq

def spi1CmdUsr : ℕ := 0x00040000
def spi1CmdFlashWren : ℕ := 0x40000000
def spi1CmdFlashRdsr : ℕ := 0x08000000
def spi1CmdFlashPp : ℕ := 0x02000000
def spi1UsrCommand : ℕ := 0x80000000
def spi1UsrAddr : ℕ := 0x40000000
def spi1UsrMiso : ℕ := 0x10000000
def spi1UsrAddrBitlenV : ℕ := 0x3F
def spi1UsrAddrBitlenS : ℕ := 26
def spi1UsrCommandValueV : ℕ := 0xFFFF
def spi1UsrCommandValueS : ℕ := 0
def spi1UsrCommandBitlenS : ℕ := 28
def spi1UsrMisoDbitlenV : ℕ := 0x3FF
def spi1UsrMisoDbitlenS : ℕ := 0

def spi1Chunk : ℕ := 64
def flashPageSize : ℕ := 256
def flashCmdRead : ℕ := 0x03
def addrBits24 : ℕ := 24
def flashStatusWip : ℕ := 1
def spi1SpinLimit : ℕ := 40000000

/-- Polls until `CMD` reads zero and status reads until the part has written, by the number of
the command. -/
structure Delays where
  cmd : ℕ → ℕ
  write : ℕ → ℕ

/-- The controller and the part behind it. -/
structure Spi1 where
  regs : Register → ℕ
  flash : NorFlash.Memory
  writeEnabled : Bool
  pending : ℕ
  writing : ℕ
  started : ℕ
  /-- The page programs so far, with address and data. -/
  programs : List (ℕ × List UInt8)

def Spi1.write (s : Spi1) (r : Register) (v : ℕ) : Spi1 :=
  { s with regs := Function.update s.regs r v }

/-- Byte `k` of the data registers. -/
def wByte (regs : Register → ℕ) (k : ℕ) : UInt8 :=
  UInt8.ofNat (regs (.w (k / 4)) / 2 ^ (8 * (k % 4)))

/-- One data line and an address of 24 bits with nothing behind it. -/
def Configured (regs : Register → ℕ) : Prop :=
  regs .ctrl = 0 ∧ regs .user1 / 2 ^ 26 % 2 ^ 6 = 23 ∧ regs .user / 2 ^ 29 % 2 = 0

/-- A command of eight bits, an address and data coming back. -/
def ConfiguredRead (regs : Register → ℕ) : Prop :=
  regs .user / 2 ^ 31 % 2 = 1 ∧ regs .user / 2 ^ 30 % 2 = 1 ∧ regs .user / 2 ^ 28 % 2 = 1 ∧
    regs .user2 % 2 ^ 16 = 0x03 ∧ regs .user2 / 2 ^ 28 % 2 ^ 4 = 7

instance (regs : Register → ℕ) : Decidable (Configured regs) := inferInstanceAs (Decidable (_ ∧ _))

instance (regs : Register → ℕ) : Decidable (ConfiguredRead regs) :=
  inferInstanceAs (Decidable (_ ∧ _))

/-- The data registers after `n` bytes from `a` on have come in; the part has 24 address bits. -/
def shiftIn (regs : Register → ℕ) (flash : NorFlash.Memory) (a n : ℕ) : Register → ℕ
  | .w i => load32 (fun k => if k < n then flash ((a + k) % 2 ^ 24) else wByte regs k) (4 * i)
  | r => regs r

/-- The transaction of a command. While it writes, the part answers status reads alone. -/
def Spi1.transact (d : Delays) (s : Spi1) (cmd : ℕ) : Spi1 :=
  if cmd = spi1CmdFlashWren then
    if s.writing = 0 then { s with writeEnabled := true } else s
  else if cmd = spi1CmdFlashRdsr then
    let status := if s.writing = 0 then 0 else flashStatusWip
    { s with
      regs := Function.update s.regs .rdStatus status
      writing := s.writing - 1 }
  else if cmd = spi1CmdFlashPp then
    -- the byte count is in the top byte of the address register
    let a := s.regs .addr % 2 ^ 24
    let data := (List.range (s.regs .addr / 2 ^ 24 % 2 ^ 8)).map (wByte s.regs)
    let issued := { s with programs := s.programs ++ [(a, data)] }
    if Configured s.regs ∧ s.writeEnabled = true ∧ s.writing = 0 then
      { issued with
        flash := NorFlash.programPage s.flash a data
        writeEnabled := false
        writing := d.write s.started }
    else issued
  else if cmd = spi1CmdUsr then
    if Configured s.regs ∧ ConfiguredRead s.regs ∧ s.writing = 0 then
      let n := (s.regs .misoDlen % 2 ^ 10 + 1) / 8
      { s with regs := shiftIn s.regs s.flash (s.regs .addr % 2 ^ 24) n }
    else s
  else s

/-- A write to `CMD`. -/
def Spi1.start (d : Delays) (s : Spi1) (cmd : ℕ) : Spi1 :=
  { s.transact d cmd with pending := d.cmd s.started, started := s.started + 1 }

end Controller

section Driver

variable (d : Delays)

/-- Reads of `CMD`, as many as are left. -/
def pollCmd : ℕ → Spi1 → Bool × Spi1
  | 0, s => (false, s)
  | n + 1, s => if s.pending = 0 then (true, s) else pollCmd n { s with pending := s.pending - 1 }

def spi1WaitCmd (s : Spi1) : Bool × Spi1 := pollCmd spi1SpinLimit s

def pollStatus : ℕ → Spi1 → Bool × Spi1
  | 0, s => (false, s)
  | n + 1, s =>
    let r := spi1WaitCmd (s.start d spi1CmdFlashRdsr)
    if !r.1 then r
    else if r.2.regs .rdStatus &&& flashStatusWip = 0 then r
    else pollStatus n r.2

def spi1WaitNotBusy (s : Spi1) : Bool × Spi1 := pollStatus d spi1SpinLimit s

def spi1WriteEnable (s : Spi1) : Bool × Spi1 := spi1WaitCmd (s.start d spi1CmdFlashWren)

def spi1SetAddrPhase (s : Spi1) (value : ℕ) : Spi1 :=
  ((s.write .ctrl 0).write .user1
    (((addrBits24 - 1) &&& spi1UsrAddrBitlenV) <<< spi1UsrAddrBitlenS)).write .addr value

/-- The first `n` data registers, word by word to memory. -/
def readWords (regs : Register → ℕ) (m : Memory) (dst : ℕ) : ℕ → Memory
  | 0 => m
  | n + 1 => store32 (readWords regs m dst n) (dst + 4 * n) (regs (.w n))

/-- Words from memory, to the first `n` data registers. -/
def writeWords (s : Spi1) (m : Memory) (src : ℕ) : ℕ → Spi1
  | 0 => s
  | n + 1 => (writeWords s m src n).write (.w n) (load32 m (src + 4 * n))

def spi1ReadChunk (addr dst len : ℕ) (s : Spi1 × Memory) : Bool × Spi1 × Memory :=
  let t := spi1SetAddrPhase s.1 (addr &&& 0xFFFFFF)
  let t := t.write .user (spi1UsrCommand ||| spi1UsrAddr ||| spi1UsrMiso)
  let t := t.write .user2 (((flashCmdRead &&& spi1UsrCommandValueV) <<< spi1UsrCommandValueS) |||
    ((8 - 1) <<< spi1UsrCommandBitlenS))
  let t := t.write .misoDlen (((len * 8 - 1) &&& spi1UsrMisoDbitlenV) <<< spi1UsrMisoDbitlenS)
  let t := t.write .mosiDlen 0
  let r := spi1WaitCmd (t.start d spi1CmdUsr)
  if !r.1 then (false, r.2, s.2) else (true, r.2, readWords r.2.regs s.2 dst ((len + 3) / 4))

def spi1ProgramChunk (m : Memory) (addr src len : ℕ) (s : Spi1) : Bool × Spi1 :=
  let r := spi1WriteEnable d s
  if !r.1 then r
  else
    let t := spi1SetAddrPhase r.2 ((addr &&& 0xFFFFFF) ||| (len <<< 24))
    let t := t.write .user 0
    let t := writeWords t m src ((len + 3) / 4)
    let r := spi1WaitCmd (t.start d spi1CmdFlashPp)
    if !r.1 then r else spi1WaitNotBusy d r.2

/-- What one turn of the window moves, `off` bytes into a transfer of `len`. -/
def windowChunk (addr off len : ℕ) : ℕ :=
  let n := len - off
  let n := if spi1Chunk < n then spi1Chunk else n
  let toPageEnd := flashPageSize - (addr + off) % flashPageSize
  if toPageEnd < n then toPageEnd else n

/-- The loop of `flash_window`; no turn moves nothing, so `len` turns are enough. -/
def windowLoop {σ : Type} (chunk : ℕ → ℕ → σ → Bool × σ) (addr len : ℕ) : ℕ → ℕ → σ → Bool × σ
  | 0, _, s => (true, s)
  | fuel + 1, off, s =>
    if off < len then
      let r := chunk off (windowChunk addr off len) s
      if !r.1 then r else windowLoop chunk addr len fuel (off + windowChunk addr off len) r.2
    else (true, s)

/-- `flash_window(FLASH_OP_READ, …)`. -/
def flashWindowRead (addr buf len : ℕ) (s : Spi1 × Memory) : Bool × Spi1 × Memory :=
  windowLoop (fun off n => spi1ReadChunk d (addr + off) (buf + off) n) addr len len 0 s

/-- `flash_window(FLASH_OP_WRITE, …)`. -/
def flashWindowWrite (m : Memory) (addr buf len : ℕ) (s : Spi1) : Bool × Spi1 :=
  windowLoop (fun off n => spi1ProgramChunk d m (addr + off) (buf + off) n) addr len len 0 s

/-- What a read works on: the controller, the bounce buffer and the memory of the caller. -/
structure ReadState where
  spi : Spi1
  bounce : Memory
  ram : Memory

/-- The loop of `reflex_flash_read`; no turn copies nothing, so `len` turns are enough. -/
def readLoop : ℕ → ℕ → ℕ → ℕ → ReadState → Err × ReadState
  | 0, _, _, _, s => (Err.ok, s)
  | fuel + 1, addr, out, len, s =>
    if len = 0 then (Err.ok, s)
    else
      let alignedAddr := addr / 4 * 4
      let head := addr - alignedAddr
      let want := if spi1Chunk - head < len then spi1Chunk - head else len
      let span := (head + want + 3) / 4 * 4
      let r := flashWindowRead d alignedAddr 0 span (s.spi, s.bounce)
      if !r.1 then (Err.invalidResponse, ⟨r.2.1, r.2.2, s.ram⟩)
      else
        let ram : Memory := fun x =>
          if out ≤ x ∧ x < out + want then r.2.2 (head + (x - out)) else s.ram x
        readLoop fuel (addr + want) (out + want) (len - want) ⟨r.2.1, r.2.2, ram⟩

/-- A null buffer is 0. -/
def reflexFlashRead (addr dst len : ℕ) (s : ReadState) : Err × ReadState :=
  if dst = 0 ∨ len = 0 then (Err.invalidArg, s) else readLoop d len addr dst len s

def wordAligned (addr buf len : ℕ) : Bool :=
  addr &&& 3 == 0 && len &&& 3 == 0 && buf &&& 3 == 0

def reflexFlashWrite (m : Memory) (addr src len : ℕ) (s : Spi1) : Err × Spi1 :=
  if src = 0 ∨ len = 0 ∨ !wordAligned addr src len then (Err.invalidArg, s)
  else
    let r := flashWindowWrite d m addr src len s
    (if r.1 then Err.ok else Err.invalidResponse, r.2)

end Driver

end ReflexOS.Flash
