import ReflexOS.LittleEndian
import ReflexOS.Types
import Mathlib.Logic.Function.Basic

set_option autoImplicit false

/-!
# The image loader of boot0

`load_image` with its three passes. Flash reads and the SHA engine are the ROM's; what is moved
to RAM, and what the checks before it have found, is kept in a trace.
-/
namespace ReflexOS.Boot
open LittleEndian

def imageMagic : ℕ := 0xE9
def imageMaxSegments : ℕ := 16
def imageHashLen : ℕ := 32
def imageMaxSegLen : ℕ := 16 * 1024 * 1024
def headerSize : ℕ := 24
def segmentHeaderSize : ℕ := 8
def hashBufSize : ℕ := 4096

def sramLow : ℕ := 0x40800000
def sramHigh : ℕ := 0x40880000
def rtcLow : ℕ := 0x50000000
def rtcHigh : ℕ := 0x50004000
def flashMapBase : ℕ := 0x42000000
def flashMapEnd : ℕ := 0x44000000

def mmuPageSize : ℕ := 0x10000
def mmuEntryNum : ℕ := 256
def mmuValidBit : ℕ := 512
def mmuInvalidVal : ℕ := 0

/-- The flash and what becomes of the reads of it, in the order of the calls; a read that fails
has moved some bytes. -/
structure RomFlash where
  content : ℕ → UInt8
  ok : ℕ → Bool
  moved : ℕ → ℕ

/-- The ROM's SHA-256 engine. -/
structure RomSha where
  initOk : Bool
  finishOk : Bool
  digest : List UInt8 → List UInt8

/-- Segment `i` has passed the checks, the hash has matched, bytes have gone to RAM. -/
inductive BootEvent where
  | checked (i : ℕ)
  | verified
  | stored (addr : ℕ) (bytes : List UInt8)
deriving DecidableEq

structure BootState where
  calls : ℕ
  trace : List BootEvent
  mmu : ℕ → ℕ

def BootState.log (s : BootState) (e : BootEvent) : BootState := { s with trace := s.trace ++ [e] }

/-- Flash addresses have 32 bits. -/
def RomFlash.bytes (rom : RomFlash) (addr len : ℕ) : List UInt8 :=
  (List.range len).map fun i => rom.content ((addr + i) % 2 ^ 32)

/-- `flash_read` into a variable of the loader. -/
def flashRead (rom : RomFlash) (addr len : ℕ) (s : BootState) : Option (List UInt8) × BootState :=
  (if rom.ok s.calls then some (rom.bytes addr len) else none, { s with calls := s.calls + 1 })

/-- `flash_read` into RAM. -/
def flashLoad (rom : RomFlash) (addr dest len : ℕ) (s : BootState) : Bool × BootState :=
  (rom.ok s.calls, { s with calls := s.calls + 1 }.log (.stored dest
    (if rom.ok s.calls then rom.bytes addr len
      else (rom.bytes addr len).take (rom.moved s.calls))))

def imageNumber (bytes : List UInt8) (start len : ℕ) : ℕ := decode ((bytes.drop start).take len)

structure ImageHeader where
  magic : ℕ
  segmentCount : ℕ
  entryAddr : ℕ
  hashAppended : ℕ

def parseHeader (bytes : List UInt8) : ImageHeader where
  magic := imageNumber bytes 0 1
  segmentCount := imageNumber bytes 1 1
  entryAddr := imageNumber bytes 4 4
  hashAppended := imageNumber bytes 23 1

structure SegmentHeader where
  loadAddr : ℕ
  dataLen : ℕ

def parseSegment (bytes : List UInt8) : SegmentHeader where
  loadAddr := imageNumber bytes 0 4
  dataLen := imageNumber bytes 4 4

/-- An element of `segs` and of `seg_data_off`. -/
structure Segment extends SegmentHeader where
  dataOff : ℕ

def isSramAddr (addr : ℕ) : Bool := decide (sramLow ≤ addr) && decide (addr < sramHigh)
def isRtcAddr (addr : ℕ) : Bool := decide (rtcLow ≤ addr) && decide (addr < rtcHigh)
def isRamAddr (addr : ℕ) : Bool := isSramAddr addr || isRtcAddr addr

def isFlashMappedAddr (addr : ℕ) : Bool :=
  decide (flashMapBase ≤ addr) && decide (addr < flashMapEnd)

def rangeWithin (addr len low high : ℕ) : Bool :=
  if addr < low ∨ high ≤ addr then false else decide (len ≤ high - addr)

/-- What pass 1 asks of a segment header. -/
def segmentAccepted (seg : SegmentHeader) : Bool :=
  decide (seg.dataLen ≤ imageMaxSegLen) && (!isRamAddr seg.loadAddr ||
    rangeWithin seg.loadAddr seg.dataLen sramLow sramHigh ||
    rangeWithin seg.loadAddr seg.dataLen rtcLow rtcHigh)

/-- Pass 1, with `n` headers left from segment `i` on: the segments, and where the image ends. -/
def walkSegments (rom : RomFlash) : ℕ → ℕ → ℕ → BootState → Option (List Segment × ℕ) × BootState
  | 0, _, flashOffset, s => (some ([], flashOffset), s)
  | n + 1, i, flashOffset, s =>
    match flashRead rom flashOffset segmentHeaderSize s with
    | (none, s) => (none, s)
    | (some bytes, s) =>
      let seg := parseSegment bytes
      let dataOff := (flashOffset + segmentHeaderSize) % 2 ^ 32
      if segmentAccepted seg then
        match walkSegments rom n (i + 1) ((dataOff + seg.dataLen) % 2 ^ 32)
            (s.log (.checked i)) with
        | (none, s) => (none, s)
        | (some (segs, last), s) => (some (⟨seg, dataOff⟩ :: segs, last), s)
      else (none, s)

/-- The loop of `image_verify_sha256`, at most `n` times: what the engine is fed. -/
def hashChunks (rom : RomFlash) (partOffset bodyLen : ℕ) :
    ℕ → ℕ → BootState → Option (List UInt8) × BootState
  | 0, _, s => (some [], s)
  | n + 1, off, s =>
    if off < bodyLen then
      let chunk := min (bodyLen - off) hashBufSize
      match flashRead rom ((partOffset + off) % 2 ^ 32) chunk s with
      | (none, s) => (none, s)
      | (some bytes, s) =>
        match hashChunks rom partOffset bodyLen n (off + chunk) s with
        | (none, s) => (none, s)
        | (some rest, s) => (some (bytes ++ rest), s)
    else (some [], s)

def hashDiff (digest expected : List UInt8) : UInt8 :=
  (List.range imageHashLen).foldl (fun diff i =>
    diff ||| (digest.getD i 0 ^^^ expected.getD i 0)) 0

def imageVerifySha256 (rom : RomFlash) (sha : RomSha) (partOffset bodyLen : ℕ) (s : BootState) :
    Bool × BootState :=
  match flashRead rom ((partOffset + bodyLen) % 2 ^ 32) imageHashLen s with
  | (none, s) => (false, s)
  | (some expected, s) =>
    if !sha.initOk then (false, s)
    else
      match hashChunks rom partOffset bodyLen bodyLen 0 s with
      | (none, s) => (false, s)
      | (some body, s) =>
        if !sha.finishOk then (false, s)
        else (decide (hashDiff (sha.digest body) expected = 0), s)

/-- Header, table, data and the checksum byte, rounded up to 16 bytes. -/
def bodyLen (partOffset last : ℕ) : ℕ :=
  ((last + 2 ^ 32 - partOffset) % 2 ^ 32 + 1 + 15) % 2 ^ 32 / 16 * 16

structure FlashMapEntry where
  vaddr : ℕ
  paddr : ℕ
  len : ℕ
deriving DecidableEq

/-- Pass 2, with `maps` so far. -/
def loadSegments (rom : RomFlash) :
    List Segment → List FlashMapEntry → BootState → Option (List FlashMapEntry) × BootState
  | [], maps, s => (some maps, s)
  | seg :: segs, maps, s =>
    if isRamAddr seg.loadAddr then
      match flashLoad rom seg.dataOff seg.loadAddr seg.dataLen s with
      | (false, s) => (none, s)
      | (true, s) => loadSegments rom segs maps s
    else if isFlashMappedAddr seg.loadAddr ∧ maps.length < imageMaxSegments then
      loadSegments rom segs (maps ++ [⟨seg.loadAddr, seg.dataOff, seg.dataLen⟩]) s
    else loadSegments rom segs maps s

def mmuMapPage (mmu : ℕ → ℕ) (entryId paddrPage : ℕ) : ℕ → ℕ :=
  Function.update mmu entryId (paddrPage ||| mmuValidBit)

/-- The loop of pass 3 over one segment's pages; `none` when `n` rounds do not end it. -/
def mapPages (last : ℕ) : ℕ → ℕ → ℕ → (ℕ → ℕ) → Option (ℕ → ℕ)
  | 0, _, _, _ => none
  | n + 1, vaddr, paddr, mmu =>
    if paddr < last then
      mapPages last n ((vaddr + mmuPageSize) % 2 ^ 32) ((paddr + mmuPageSize) % 2 ^ 32)
        (mmuMapPage mmu (vaddr / mmuPageSize % mmuEntryNum) (paddr / mmuPageSize))
    else some mmu

/-- More rounds than there are pages in 32 bits. -/
def pageRounds : ℕ := 2 ^ 16 + 1

/-- Pass 3; `none` is a loop that never ends. -/
def mapSegments : List FlashMapEntry → (ℕ → ℕ) → Option (ℕ → ℕ)
  | [], mmu => some mmu
  | m :: maps, mmu =>
    match mapPages ((m.paddr + m.len) % 2 ^ 32) pageRounds (m.vaddr / mmuPageSize * mmuPageSize)
        (m.paddr / mmuPageSize * mmuPageSize) mmu with
    | none => none
    | some mmu => mapSegments maps mmu

def mmuUnmapAll : ℕ → ℕ := fun _ => mmuInvalidVal

/-- Passes 2 and 3. -/
def loadVerified (rom : RomFlash) (hdr : ImageHeader) (segs : List Segment) (s : BootState) :
    Option ℕ × BootState :=
  match loadSegments rom segs [] s with
  | (none, s) => (some 0, s)
  | (some maps, s) =>
    match mapSegments maps mmuUnmapAll with
    | none => (none, s)
    | some mmu => (some hdr.entryAddr, { s with mmu := mmu })

/-- `load_image`: what it returns, or `none` if it never does. -/
def loadImage (rom : RomFlash) (sha : RomSha) (partOffset : ℕ) (s : BootState) :
    Option ℕ × BootState :=
  match flashRead rom partOffset headerSize s with
  | (none, s) => (some 0, s)
  | (some bytes, s) =>
    let hdr := parseHeader bytes
    if hdr.magic ≠ imageMagic then (some 0, s)
    else if imageMaxSegments < hdr.segmentCount then (some 0, s)
    else
      match walkSegments rom hdr.segmentCount 0 ((partOffset + headerSize) % 2 ^ 32) s with
      | (none, s) => (some 0, s)
      | (some (segs, last), s) =>
        if hdr.hashAppended ≠ 0 then
          match imageVerifySha256 rom sha partOffset (bodyLen partOffset last) s with
          | (false, s) => (some 0, s)
          | (true, s) => loadVerified rom hdr segs (s.log .verified)
        else loadVerified rom hdr segs s

section Content

/-- The header of the image at `partOffset`. -/
def RomFlash.header (rom : RomFlash) (partOffset : ℕ) : ImageHeader :=
  parseHeader (rom.bytes partOffset headerSize)

/-- The `n` segments whose headers and data follow one another from `flashOffset` on. -/
def RomFlash.segmentsAt (rom : RomFlash) : ℕ → ℕ → List Segment
  | 0, _ => []
  | n + 1, flashOffset =>
    let seg := parseSegment (rom.bytes flashOffset segmentHeaderSize)
    let dataOff := (flashOffset + segmentHeaderSize) % 2 ^ 32
    ⟨seg, dataOff⟩ :: rom.segmentsAt n ((dataOff + seg.dataLen) % 2 ^ 32)

/-- Where the last of them ends. -/
def RomFlash.endAt (rom : RomFlash) : ℕ → ℕ → ℕ
  | 0, flashOffset => flashOffset
  | n + 1, flashOffset =>
    rom.endAt n (((flashOffset + segmentHeaderSize) % 2 ^ 32 +
      (parseSegment (rom.bytes flashOffset segmentHeaderSize)).dataLen) % 2 ^ 32)

def RomFlash.segments (rom : RomFlash) (partOffset : ℕ) : List Segment :=
  rom.segmentsAt (rom.header partOffset).segmentCount ((partOffset + headerSize) % 2 ^ 32)

def RomFlash.bodyLen (rom : RomFlash) (partOffset : ℕ) : ℕ :=
  Boot.bodyLen partOffset
    (rom.endAt (rom.header partOffset).segmentCount ((partOffset + headerSize) % 2 ^ 32))

/-- What pass 2 hands to pass 3. -/
def flashMaps (segs : List Segment) : List FlashMapEntry :=
  (segs.filter fun seg => isFlashMappedAddr seg.loadAddr).map fun seg =>
    ⟨seg.loadAddr, seg.dataOff, seg.dataLen⟩

/-- The SHA engine works, and its digest of the body is the one appended to it. -/
structure HashMatches (rom : RomFlash) (sha : RomSha) (partOffset bodyLen : ℕ) : Prop where
  init : sha.initOk = true
  finish : sha.finishOk = true
  digest : ∀ i < imageHashLen, (sha.digest (rom.bytes partOffset bodyLen)).getD i 0 =
    (rom.bytes ((partOffset + bodyLen) % 2 ^ 32) imageHashLen).getD i 0

/-- What the image has to be for pass 2 to begin. -/
structure ImageAccepted (rom : RomFlash) (sha : RomSha) (partOffset : ℕ) : Prop where
  magic : (rom.header partOffset).magic = imageMagic
  count : (rom.header partOffset).segmentCount ≤ imageMaxSegments
  segments : ∀ seg ∈ rom.segments partOffset, segmentAccepted seg.toSegmentHeader = true
  hash : (rom.header partOffset).hashAppended ≠ 0 →
    HashMatches rom sha partOffset (rom.bodyLen partOffset)

end Content

end ReflexOS.Boot
