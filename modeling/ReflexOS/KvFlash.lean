import ReflexOS.NorFlash
import ReflexOS.Types

set_option autoImplicit false

/-!
# The flash key-value store

Six sectors, one of them active: a page header, then entries appended on word boundaries.
The operations on the medium are logged in order, so that a power loss can fall between any
two of them.
-/
namespace ReflexOS.Kv
open NorFlash

def kvMagic : ℕ := 0x52464B56
def kvSectorSize : ℕ := 4096
def kvNumSectors : ℕ := 6
def kvEntryMax : ℕ := 256
def kvKeyMax : ℕ := 15
def kvValMax : ℕ := 240
def kvFlashBase : ℕ := 0x10000

def kvTypeStr : UInt8 := 0
def kvTypeBlob : UInt8 := 1
def kvTypeI32 : UInt8 := 2
def kvTypeU8 : UInt8 := 3

def le16 (n : ℕ) : List UInt8 := [UInt8.ofNat n, UInt8.ofNat (n / 2 ^ 8)]

def le32 (n : ℕ) : List UInt8 :=
  [UInt8.ofNat n, UInt8.ofNat (n / 2 ^ 8), UInt8.ofNat (n / 2 ^ 16), UInt8.ofNat (n / 2 ^ 24)]

def fromLe : List UInt8 → ℕ
  | [] => 0
  | b :: bytes => b.toNat + 2 ^ 8 * fromLe bytes

structure PageHeader where
  magic : ℕ
  sequence : ℕ
deriving DecidableEq

def PageHeader.bytes (hdr : PageHeader) : List UInt8 := le32 hdr.magic ++ le32 hdr.sequence

def pageHeaderSize : ℕ := 8

def readPageHeader (F : Memory) (a : ℕ) : PageHeader :=
  ⟨fromLe (readBytes F a 4), fromLe (readBytes F (a + 4) 4)⟩

structure EntryHeader where
  nsHash : UInt8
  keyLen : ℕ
  valLen : ℕ
  type : UInt8
deriving DecidableEq

def EntryHeader.bytes (eh : EntryHeader) : List UInt8 :=
  [eh.nsHash, UInt8.ofNat eh.keyLen] ++ le16 eh.valLen ++ [eh.type]

def entryHeaderSize : ℕ := 5

def readEntryHeader (F : Memory) (a : ℕ) : EntryHeader :=
  ⟨F a, (F (a + 1)).toNat, fromLe (readBytes F (a + 2) 2), F (a + 4)⟩

/-- The bytes an entry occupies, padded to a word. -/
def kvEntrySpan (eh : EntryHeader) : ℕ := (entryHeaderSize + eh.keyLen + eh.valLen + 3) / 4 * 4

def kvEntryHeaderSane (eh : EntryHeader) : Bool :=
  decide (1 ≤ eh.keyLen) && decide (eh.keyLen ≤ kvKeyMax) && decide (eh.valLen ≤ kvValMax)

def nsHash (ns : CName) : UInt8 := ns.foldl (fun h c => h * 31 + c) 0

def sectorAddr (sector : ℕ) : ℕ := kvFlashBase + sector * kvSectorSize

inductive FlashOp where
  | erase (addr len : ℕ)
  | write (addr : ℕ) (bytes : List UInt8)
deriving DecidableEq

def FlashOp.apply (F : Memory) : FlashOp → Memory
  | .erase addr len => NorFlash.erase F addr len
  | .write addr bytes => program F addr bytes

/-- What a sequence of operations leaves on the medium. -/
def replay (F : Memory) (ops : List FlashOp) : Memory := ops.foldl FlashOp.apply F

/-- The medium, the variables in RAM, and the operations on the medium so far. -/
structure Store where
  flash : Memory
  activeSector : ℕ
  activeSeq : ℕ
  writeOffset : ℕ
  initialized : Bool
  log : List FlashOp

def Store.perform (S : Store) (op : FlashOp) : Store :=
  { S with flash := op.apply S.flash, log := S.log ++ [op] }

def flashErase (S : Store) (addr len : ℕ) : Store := S.perform (.erase addr len)

/-- Padded to a word; refused off a word boundary or beyond the bounce buffer. -/
def flashWrite (S : Store) (addr : ℕ) (buf : List UInt8) : Bool × Store :=
  let alignedLen := (buf.length + 3) / 4 * 4
  if addr % 4 ≠ 0 then (false, S)
  else if 264 < alignedLen then (false, S)
  else (true, S.perform (.write addr (buf ++ blanks (alignedLen - buf.length))))

/-- The walk over the entries of a sector, shared by the three scans: up to the end of the
sector, a header `stop` asks to stop at, or one that is not sane. What it passed, and where it
stopped. -/
def walk (F : Memory) (base : ℕ) (stop : EntryHeader → Bool) :
    ℕ → ℕ → List (ℕ × EntryHeader) × ℕ
  | 0, off => ([], off)
  | fuel + 1, off =>
    if kvSectorSize ≤ off then ([], off)
    else
      let eh := readEntryHeader F (base + off)
      if stop eh || !kvEntryHeaderSane eh then ([], off)
      else
        let rest := walk F base stop fuel (off + kvEntrySpan eh)
        ((off, eh) :: rest.1, rest.2)

/-- The sector with the greatest sequence, the last one of equals. -/
def bestSector (F : Memory) (sectors : List ℕ) : ℕ × ℕ × Bool :=
  sectors.foldl (fun best s =>
    let hdr := readPageHeader F (sectorAddr s)
    if hdr.magic = kvMagic ∧ best.1 ≤ hdr.sequence then (hdr.sequence, s, true) else best)
    (0, 0, false)

/-- `reflex_kv_init` after a reset, on what the medium holds. -/
def kvInit (F : Memory) : Store :=
  let best := bestSector F (List.range kvNumSectors)
  let S : Store := ⟨F, best.2.1, best.1, pageHeaderSize, true, []⟩
  if best.2.2 then
    { S with writeOffset :=
        (walk F (sectorAddr best.2.1) (fun eh => decide (eh.nsHash = 0xFF)) kvSectorSize
          pageHeaderSize).2 }
  else
    let S := flashErase S kvFlashBase kvSectorSize
    { (flashWrite S kvFlashBase (PageHeader.bytes ⟨kvMagic, 1⟩)).2 with
      activeSector := 0, activeSeq := 1 }

def entryKey (F : Memory) (base off : ℕ) (eh : EntryHeader) : CName :=
  readBytes F (base + off + entryHeaderSize) eh.keyLen

/-- The last entry of the key in the active sector. -/
def kvFind (S : Store) (ns : UInt8) (key : CName) : Option (ℕ × EntryHeader) :=
  let base := sectorAddr S.activeSector
  (walk S.flash base (fun eh => decide (eh.keyLen = 0xFF)) kvSectorSize pageHeaderSize).1.foldl
    (fun found e =>
      if e.2.nsHash = ns ∧ e.2.keyLen = key.length ∧ entryKey S.flash base e.1 e.2 = key then some e
      else found) none

structure KvDedup where
  ns : UInt8
  key : CName
  offset : ℕ
deriving DecidableEq

/-- The table with the offset of a key it has moved. -/
def dedupMove (ns : UInt8) (key : CName) (offset : ℕ) : List KvDedup → Option (List KvDedup)
  | [] => none
  | d :: table =>
    if d.ns = ns ∧ d.key = key then some ({ d with offset := offset } :: table)
    else (dedupMove ns key offset table).map (d :: ·)

def dedupAdd (table : List KvDedup) (ns : UInt8) (key : CName) (offset : ℕ) : List KvDedup :=
  match dedupMove ns key offset table with
  | some moved => moved
  | none => if kvEntryMax ≤ table.length then table else table ++ [⟨ns, key, offset⟩]

/-- The entries of the active sector as compaction sees them. -/
def compactScan (S : Store) : List (ℕ × EntryHeader) :=
  (walk S.flash (sectorAddr S.activeSector)
    (fun eh => decide (eh.keyLen = 0xFF) || decide (eh.keyLen = 0)) kvSectorSize pageHeaderSize).1

def dedupTable (S : Store) : List KvDedup :=
  (compactScan S).foldl (fun table e =>
    dedupAdd table e.2.nsHash (entryKey S.flash (sectorAddr S.activeSector) e.1 e.2) e.1) []

/-- One live entry copied to the new sector, and where the next one goes. -/
def copyEntry (oldBase newBase : ℕ) (acc : Store × ℕ) (d : KvDedup) : Store × ℕ :=
  let size := kvEntrySpan (readEntryHeader acc.1.flash (oldBase + d.offset))
  let buf := readBytes acc.1.flash (oldBase + d.offset) size
  ((flashWrite acc.1 (newBase + acc.2) buf).2, acc.2 + size)

def kvCompact (S : Store) : Store :=
  let oldBase := sectorAddr S.activeSector
  let newSector := (S.activeSector + 1) % kvNumSectors
  let newBase := sectorAddr newSector
  let newSeq := (S.activeSeq + 1) % 2 ^ 32
  let table := dedupTable S
  let erased := flashErase S newBase kvSectorSize
  let headed := (flashWrite erased newBase (PageHeader.bytes ⟨kvMagic, newSeq⟩)).2
  let copied := table.foldl (copyEntry oldBase newBase) (headed, pageHeaderSize)
  { copied.1 with activeSector := newSector, activeSeq := newSeq, writeOffset := copied.2 }

/-- The write of an entry that fits, at the write offset. -/
def kvAppend (S : Store) (eh : EntryHeader) (key val : List UInt8) : Err × Store :=
  let written := flashWrite S (sectorAddr S.activeSector + S.writeOffset) (eh.bytes ++ key ++ val)
  if written.1 then
    (Err.ok, { written.2 with writeOffset := written.2.writeOffset + kvEntrySpan eh })
  else (Err.fail, written.2)

def kvWriteEntry (S : Store) (ns : UInt8) (key : CName) (type : UInt8) (val : List UInt8) :
    Err × Store :=
  if kvKeyMax < key.length ∨ kvValMax < val.length then (Err.invalidArg, S)
  else
    let eh : EntryHeader := ⟨ns, key.length, val.length, type⟩
    if kvSectorSize ≤ S.writeOffset + kvEntrySpan eh then
      let compacted := kvCompact S
      if kvSectorSize ≤ compacted.writeOffset + kvEntrySpan eh then (Err.noMem, compacted)
      else kvAppend compacted eh key val
    else kvAppend S eh key val

def kvReadVal (S : Store) (off : ℕ) (eh : EntryHeader) (cap : ℕ) : Except Err (List UInt8) :=
  if cap < eh.valLen then .error Err.invalidArg
  else .ok (readBytes S.flash
    (sectorAddr S.activeSector + (off + entryHeaderSize + eh.keyLen)) eh.valLen)

def kvGetBlob (S : Store) (ns : UInt8) (key : CName) (cap : ℕ) : Except Err (List UInt8) :=
  match kvFind S ns key with
  | none => .error Err.notFound
  | some (off, eh) => kvReadVal S off eh cap

/-- `buf` is whether there is a buffer to read into. -/
def kvGetStr (S : Store) (ns : UInt8) (key : CName) (buf : Bool) (cap : ℕ) :
    Except Err (List UInt8) :=
  if !buf then .error Err.invalidArg else kvGetBlob S ns key cap

/-- A stored value shorter than four bytes leaves the rest of the zeroed result. -/
def kvGetI32 (S : Store) (ns : UInt8) (key : CName) : Except Err ℤ :=
  (kvGetBlob S ns key 4).map fun bytes => i32 (fromLe bytes)

def kvGetU8 (S : Store) (ns : UInt8) (key : CName) : Except Err ℕ :=
  (kvGetBlob S ns key 1).map fromLe

def kvSetStr (S : Store) (ns : UInt8) (key val : CName) : Err × Store :=
  kvWriteEntry S ns key kvTypeStr (val ++ [0])

def kvSetI32 (S : Store) (ns : UInt8) (key : CName) (val : ℤ) : Err × Store :=
  kvWriteEntry S ns key kvTypeI32 (le32 (u32 val))

def kvSetU8 (S : Store) (ns : UInt8) (key : CName) (val : ℕ) : Err × Store :=
  kvWriteEntry S ns key kvTypeU8 [UInt8.ofNat val]

/-- The handle carries the hash of the namespace. -/
def kvOpen (S : Store) (ns : CName) : Except Err UInt8 :=
  if S.initialized then .ok (nsHash ns) else .error Err.invalidState

end ReflexOS.Kv
