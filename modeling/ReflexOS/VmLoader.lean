import ReflexOS.Crc32
import ReflexOS.VmInterpreter

set_option autoImplicit false

/-!
# Images and the two loaders
-/
namespace ReflexOS.Vm
open VmTernary VmMmu Goose

variable {W : Type*}

def imageMagic : ℕ := 0x52465856

structure Image where
  magic : ℕ
  version : ℕ
  entryIp : ℕ
  /-- `none` is NULL; the count is the length. -/
  instructions : Option (List Instruction)
  privateMemory : Option ℕ
  privateMemoryCount : ℕ

def loaderOpcodeValid : Opcode → Bool
  | .unknown _ => false
  | _ => true

def loaderSyscallValid (imm : ℤ) : Bool := decide (0 ≤ imm ∧ imm ≤ 3)

def loaderTargetInRange (imm : ℤ) (instructionCount : ℕ) : Bool :=
  decide (0 ≤ imm ∧ u32 imm < instructionCount)

def loaderInstructionFieldsValid (i : Instruction) : Bool :=
  match i.opcode with
  | .tnop | .tjmp | .thalt => true
  | .tldi | .trecv => registerIndexValid i.dst
  | .tmov | .tsend | .tld | .tst | .tsense | .tbias =>
    registerIndexValid i.dst && registerIndexValid i.srcA
  | .tadd | .tsub | .tcmp | .tsel | .tsys | .troute =>
    registerIndexValid i.dst && registerIndexValid i.srcA && registerIndexValid i.srcB
  | .tbrneg | .tbrzero | .tbrpos | .tflush | .tinv => registerIndexValid i.srcA
  | .unknown _ => false

def isBranch : Opcode → Bool
  | .tjmp | .tbrneg | .tbrzero | .tbrpos => true
  | _ => false

def validateInstruction (i : Instruction) (count : ℕ) : Err :=
  if !loaderOpcodeValid i.opcode then Err.invalidResponse
  else if !loaderInstructionFieldsValid i then Err.invalidArg
  else if isBranch i.opcode && !loaderTargetInRange i.imm count then Err.invalidArg
  else if decide (i.opcode = .tsys) && !loaderSyscallValid i.imm then Err.invalidArg
  else Err.ok

def validateInstructions (count : ℕ) : List Instruction → Err
  | [] => Err.ok
  | i :: is =>
    if validateInstruction i count ≠ Err.ok then validateInstruction i count
    else validateInstructions count is

def validateImage (image : Image) : Err :=
  if image.magic ≠ imageMagic then Err.invalidResponse
  else if image.version ≠ 1 ∧ image.version ≠ 2 then Err.invalidVersion
  else
    match image.instructions with
    | none => Err.invalidArg
    | some is =>
      if is.length = 0 then Err.invalidSize
      else if is.length ≤ image.entryIp then Err.invalidArg
      else if image.privateMemory = none ∧ image.privateMemoryCount ≠ 0 then Err.invalidArg
      else validateInstructions is.length is

def vmReset (vm : VmState) : VmState :=
  { vm with
    registers := fun _ => zeroWord
    status := .ready
    fault := .none
    ip := 0
    stepsExecuted := 0 }

/-- The open routes are set to zero and applied once more. -/
def closeRoutes (host : Host W) (m : Machine W) : ℕ → Machine W
  | 0 => m
  | n + 1 =>
    let m := closeRoutes host m n
    if h : n < 4 then
      let route := { m.vm.routeManifest ⟨n, h⟩ with orientation := 0 }
      { m with
        vm := { m.vm with routeManifest := Function.update m.vm.routeManifest ⟨n, h⟩ route }
        world := applyRoute host route m.world }
    else m

def vmUnload (host : Host W) (m : Machine W) : Machine W :=
  let m := closeRoutes host m m.vm.routeCount
  { m with vm := vmReset { m.vm with
      routeCount := 0
      program := none
      ownsProgram := false
      ownedPrivateMemory := none
      ownedPrivateMemoryCount := 0
      mmu := mmuInit } }

/-- The host pointer of an image's data; 0 is NULL. -/
def Image.buffer (image : Image) : ℕ := image.privateMemory.getD 0

def loadImage (host : Host W) (m : Machine W) (image : Image) : Err × Machine W :=
  if validateImage image ≠ Err.ok then (validateImage image, m)
  else
    let m := vmUnload host m
    let vm := { m.vm with program := image.instructions }
    if image.privateMemoryCount > 0 then
      match mmuAddRegion mmuInit image.buffer image.privateMemoryCount .privateMem 0 with
      | .error e => (e, { m with vm := vm })
      | .ok mmu =>
        (Err.ok, { m with vm := { vmReset { vm with mmu := mmu } with ip := image.entryIp } })
    else (Err.ok, { m with vm := { vmReset vm with ip := image.entryIp } })

def crcBit (crc : BitVec 32) : BitVec 32 :=
  (crc >>> 1) ^^^ (0xEDB88320#32 &&& (0#32 - (crc &&& 1#32)))

def crcByte (crc : BitVec 32) (byte : UInt8) : BitVec 32 :=
  crcBit^[8] (crc ^^^ BitVec.ofNat 32 byte.toNat)

def vmCrc32 (data : List UInt8) : ℕ := (~~~ (data.foldl crcByte 0xFFFFFFFF#32)).toNat

/-- A little-endian number. -/
def leNat : List UInt8 → ℕ
  | [] => 0
  | b :: bs => b.toNat + 256 * leNat bs

def slice (buffer : List UInt8) (start len : ℕ) : List UInt8 := (buffer.drop start).take len

def field (buffer : List UInt8) (start len : ℕ) : ℕ := leNat (slice buffer start len)

theorem leNat_lt (bytes : List UInt8) : leNat bytes < 256 ^ bytes.length := by
  induction bytes with
  | nil => exact Nat.one_pos
  | cons b bytes ih =>
    have hb := b.toNat_lt
    rw [leNat, List.length_cons, Nat.pow_succ]
    omega

theorem field_lt (buffer : List UInt8) (start len : ℕ) : field buffer start len < 256 ^ len := by
  refine Nat.lt_of_lt_of_le (leNat_lt _) (Nat.pow_le_pow_right (by decide) ?_)
  rw [slice]
  exact List.length_take_le _ _

/-- The 17-bit immediate, sign extended. -/
def signExtend (imm : ℕ) : ℤ := if imm / 2 ^ 16 % 2 = 1 then (imm : ℤ) - 2 ^ 17 else imm

def decodeInstruction (packed : ℕ) : Instruction where
  opcode := Opcode.ofCode (packed % 2 ^ 6)
  dst := packed / 2 ^ 6 % 8
  srcA := packed / 2 ^ 9 % 8
  srcB := packed / 2 ^ 12 % 8
  imm := signExtend (packed / 2 ^ 15)

def packedInstructionBytes : ℕ := 4
def packedWord18Bytes : ℕ := 5

def decodeInstructions (stream : List UInt8) (count : ℕ) : List Instruction :=
  (List.range count).map fun i =>
    decodeInstruction (field stream (i * packedInstructionBytes) packedInstructionBytes)

def unpackWords (stream : List UInt8) : ℕ → Except Err (List Word18)
  | 0 => .ok []
  | n + 1 =>
    match word18Unpack (slice stream 0 packedWord18Bytes) with
    | .error e => .error e
    | .ok w =>
      match unpackWords (stream.drop packedWord18Bytes) n with
      | .error e => .error e
      | .ok ws => .ok (w :: ws)

def payloadLen (buffer : List UInt8) : ℕ :=
  field buffer 12 2 * packedInstructionBytes + field buffer 14 2 * packedWord18Bytes

/-- The words of `ws` from host pointer `p` on. -/
def storeWords (mem : ℕ → Word18) (p : ℕ) (ws : List Word18) : ℕ → Word18 :=
  fun q => if p ≤ q then (ws[q - p]?).getD (mem q) else mem q

/-- The image is decoded, checked and mapped; every failure leaves the VM unloaded. -/
def installBinary (m : Machine W) (buffer : List UInt8) (data : Option ℕ)
    (words : List Word18) : Err × Machine W :=
  let instrs := decodeInstructions (buffer.drop 16) (field buffer 12 2)
  let image : Image :=
    { magic := imageMagic
      version := field buffer 4 2
      entryIp := field buffer 10 2
      instructions := some instrs
      privateMemory := data
      privateMemoryCount := words.length }
  let load (mmu : Mmu) : Err × Machine W :=
    (Err.ok, { m with vm := { vmReset { m.vm with
        mmu := mmu
        program := some instrs
        ownsProgram := true
        ownedPrivateMemory := data
        ownedPrivateMemoryCount := words.length } with ip := field buffer 10 2 } })
  if validateImage image ≠ Err.ok then
    (validateImage image, { m with vm := { m.vm with mmu := mmuInit } })
  else if words.length > 0 then
    match mmuAddRegion mmuInit image.buffer words.length .privateMem 0 with
    | .error e => (e, { m with vm := { m.vm with mmu := mmuInit } })
    | .ok mmu => load mmu
  else load mmuInit

def loadData (host : Host W) (m : Machine W) (buffer : List UInt8) : Err × Machine W :=
  let count := field buffer 14 2
  if count > 0 then
    let got := host.callocWords count m.world
    let m := { m with world := got.2 }
    match got.1 with
    | none => (Err.noMem, { m with vm := { m.vm with mmu := mmuInit } })
    | some p =>
      match unpackWords (buffer.drop (16 + field buffer 12 2 * packedInstructionBytes)) count with
      | .error e => (e, { m with vm := { m.vm with mmu := mmuInit } })
      | .ok ws => installBinary { m with mem := storeWords m.mem p ws } buffer (some p) ws
  else installBinary m buffer none []

def loadBinary (host : Host W) (m : Machine W) (buffer : List UInt8) : Err × Machine W :=
  if buffer.length < 16 then (Err.invalidSize, m)
  else
    let m := vmUnload host m
    if field buffer 0 4 ≠ imageMagic then (Err.invalidResponse, m)
    else if field buffer 4 2 ≠ 2 then (Err.invalidVersion, m)
    else if buffer.length < 16 + payloadLen buffer then (Err.invalidSize, m)
    else if vmCrc32 (slice buffer 16 (payloadLen buffer)) ≠ field buffer 6 4 then
      (Err.invalidCrc, m)
    else
      let got := host.mallocInstructions (field buffer 12 2) m.world
      let m := { m with world := got.2 }
      if got.1 then loadData host m buffer else (Err.noMem, m)

/-- The mask of the loader's loop selects what the shift selects. -/
theorem crcBit_eq_shift : crcBit = Crc32.shift 0xEDB88320#32 := by
  funext c
  rw [crcBit, Crc32.shift, BitVec.and_one_eq_setWidth_ofBool_getLsbD]
  cases c.getLsbD 0
  · rw [if_neg Bool.false_ne_true]
    exact BitVec.xor_zero
  · rw [if_pos rfl]
    exact BitVec.xor_comm _ _

theorem crcByte_eq_bitwise : crcByte = Crc32.bitwise 0xEDB88320#32 := by
  funext crc byte
  rw [crcByte, Crc32.bitwise, crcBit_eq_shift]

theorem validateInstructions_ok {count : ℕ} {is : List Instruction}
    (h : validateInstructions count is = Err.ok) :
    ∀ i ∈ is, validateInstruction i count = Err.ok := by
  induction is with
  | nil => simp
  | cons i is ih =>
    unfold validateInstructions at h
    split at h
    next hi => exact absurd h hi
    next hi => exact List.forall_mem_cons.mpr ⟨not_not.mp hi, ih h⟩

theorem validateInstruction_fields {i : Instruction} {count : ℕ}
    (h : validateInstruction i count = Err.ok) : loaderInstructionFieldsValid i = true := by
  unfold validateInstruction at h
  split at h
  · exact absurd h (by decide)
  split at h
  · exact absurd h (by decide)
  next hn => simpa using hn

/-- What the loader accepts, the interpreter's own register check accepts. -/
theorem validateRegisters_of_fields {i : Instruction}
    (h : loaderInstructionFieldsValid i = true) : validateRegisters i = true := by
  obtain ⟨op, dst, srcA, srcB, imm⟩ := i
  cases op <;> simp_all [loaderInstructionFieldsValid, validateRegisters]

theorem validateImage_accepts {image : Image} (h : validateImage image = Err.ok) :
    ∃ is, image.instructions = some is ∧ image.entryIp < is.length ∧
      ¬ (image.privateMemory = none ∧ image.privateMemoryCount ≠ 0) ∧
      ∀ i ∈ is, validateInstruction i is.length = Err.ok := by
  unfold validateImage at h
  split at h
  · exact absurd h (by decide)
  split at h
  · exact absurd h (by decide)
  split at h
  · exact absurd h (by decide)
  next is his =>
    split at h
    · exact absurd h (by decide)
    split at h
    · exact absurd h (by decide)
    next hip =>
      split at h
      · exact absurd h (by decide)
      next hmemory => exact ⟨is, his, by omega, hmemory, validateInstructions_ok h⟩

theorem validateImage_program {image : Image} (h : validateImage image = Err.ok) :
    ∃ is, image.instructions = some is ∧ image.entryIp < is.length ∧
      ∀ i ∈ is, validateRegisters i = true := by
  obtain ⟨is, his, hip, -, hvalid⟩ := validateImage_accepts h
  exact ⟨is, his, hip, fun i hi =>
    validateRegisters_of_fields (validateInstruction_fields (hvalid i hi))⟩

/-- What a loader leaves behind when it succeeds: a checked program, ready at its entry. -/
structure Loaded (vm : VmState) : Prop where
  nonempty : 0 < vm.programLength
  checked : ∀ i ∈ vm.program.getD [], validateRegisters i = true
  status : vm.status = .ready
  fault : vm.fault = .none

theorem loaded_of_program {vm : VmState} {is : List Instruction}
    (hp : vm.program = some is) (hlen : 0 < is.length)
    (hreg : ∀ i ∈ is, validateRegisters i = true) (hs : vm.status = .ready)
    (hf : vm.fault = .none) : Loaded vm :=
  ⟨by simpa [VmState.programLength, hp] using hlen, by simpa [hp] using hreg, hs, hf⟩

theorem unpackWords_error {stream : List UInt8} {n : ℕ} {e : Err}
    (h : unpackWords stream n = .error e) : e ≠ Err.ok := by
  induction n generalizing stream e with
  | zero => cases h
  | succ n ih =>
    unfold unpackWords at h
    split at h
    next he =>
      cases h
      exact word18Unpack_error he
    split at h
    next he =>
      cases h
      exact ih he
    · cases h

theorem loadImage_loaded {host : Host W} {m m' : Machine W} {image : Image}
    (h : loadImage host m image = (Err.ok, m')) : Loaded m'.vm := by
  unfold loadImage at h
  split at h
  next hv => exact absurd (Prod.mk.inj h).1 hv
  next hv =>
    obtain ⟨is, his, hip, hreg⟩ := validateImage_program (not_not.mp hv)
    have hlen : 0 < is.length := by omega
    split at h
    · split at h
      next he => exact absurd (Prod.mk.inj h).1 (addRegion_error he)
      next =>
        cases h
        exact loaded_of_program his hlen hreg rfl rfl
    · cases h
      exact loaded_of_program his hlen hreg rfl rfl

theorem installBinary_loaded {m m' : Machine W} {buffer : List UInt8} {data : Option ℕ}
    {words : List Word18} (h : installBinary m buffer data words = (Err.ok, m')) :
    Loaded m'.vm := by
  unfold installBinary at h
  dsimp only at h
  split at h
  next hv => exact absurd (Prod.mk.inj h).1 hv
  next hv =>
    obtain ⟨is, his, hip, hreg⟩ := validateImage_program (not_not.mp hv)
    have hlen : 0 < is.length := by omega
    split at h
    · split at h
      next he => exact absurd (Prod.mk.inj h).1 (addRegion_error he)
      next =>
        cases h
        exact loaded_of_program his hlen hreg rfl rfl
    · cases h
      exact loaded_of_program his hlen hreg rfl rfl

theorem loadData_loaded {host : Host W} {m m' : Machine W} {buffer : List UInt8}
    (h : loadData host m buffer = (Err.ok, m')) : Loaded m'.vm := by
  unfold loadData at h
  dsimp only at h
  split at h
  · split at h
    · exact absurd (Prod.mk.inj h).1 (by decide)
    split at h
    next he => exact absurd (Prod.mk.inj h).1 (unpackWords_error he)
    · exact installBinary_loaded h
  · exact installBinary_loaded h

/-- A load that succeeds has unloaded the VM and got through every check of the header. -/
theorem loadBinary_ok {host : Host W} {m m' : Machine W} {buffer : List UInt8}
    (h : loadBinary host m buffer = (Err.ok, m')) :
    loadData host { vmUnload host m with
      world := (host.mallocInstructions (field buffer 12 2) (vmUnload host m).world).2 } buffer =
        (Err.ok, m') := by
  unfold loadBinary at h
  dsimp only at h
  split at h
  · exact absurd (Prod.mk.inj h).1 (by decide)
  split at h
  · exact absurd (Prod.mk.inj h).1 (by decide)
  split at h
  · exact absurd (Prod.mk.inj h).1 (by decide)
  split at h
  · exact absurd (Prod.mk.inj h).1 (by decide)
  split at h
  · exact absurd (Prod.mk.inj h).1 (by decide)
  split at h
  · exact h
  · exact absurd (Prod.mk.inj h).1 (by decide)

theorem loadBinary_loaded {host : Host W} {m m' : Machine W} {buffer : List UInt8}
    (h : loadBinary host m buffer = (Err.ok, m')) : Loaded m'.vm :=
  loadData_loaded (loadBinary_ok h)

end ReflexOS.Vm
