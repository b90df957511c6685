import ReflexOS.Fallible
import ReflexOS.TasmAssembler
import ReflexOS.VmCacheTransparency
import ReflexOS.VmReload

set_option autoImplicit false

/-!
# What is assembled is loaded

The loader reads back the instructions of the assembler, field by field, and accepts them.
-/
namespace ReflexOS.Tasm
open Vm VmMmu LittleEndian Fallible

variable {W : Type*} {py : Python}

section Fields
variable {labels : List (Text × ℕ)} {lineno id : ℕ}

theorem parseReg_yields (lineno : ℕ) (token : Text) :
    Yields (· < 8) (parseReg py lineno token) := by
  unfold parseReg
  split
  · refine yields_bind (yields_true _) fun reg _ => ?_
    split_ifs
    · exact yields_error _
    · apply yields_ok
      omega
  · exact yields_error _

/-- What the fields of the word hold. -/
structure Fields.Fits (i : Fields) : Prop where
  opcode : i.opcode < 22
  dst : i.dst < 8
  srcA : i.srcA < 8
  srcB : i.srcB < 8

theorem reg_bind {f : ℕ → Except String Fields} {p : Fields → Prop} {token : Text}
    (h : ∀ r < 8, Yields p (f r)) : Yields p (parseReg py lineno token >>= f) :=
  yields_bind (parseReg_yields lineno token) h

theorem imm_bind {f : ℤ → Except String Fields} {p : Fields → Prop} {token : Text}
    (h : ∀ v, Yields p (f v)) : Yields p (parseImm py labels token >>= f) :=
  yields_bind (yields_true _) fun v _ => h v

theorem parseOperands_fits (hid : id < 22) (op : Text) (operands : List Text) :
    Yields Fields.Fits (parseOperands py labels lineno op id operands) := by
  have h0 : 0 < 8 := by omega
  unfold parseOperands
  dsimp only
  repeat' apply yields_ite
  all_goals
    try split
    all_goals
      repeat' first
        | exact yields_error _
        | apply reg_bind; intro _ _
        | apply imm_bind; intro _
        | exact yields_ok ⟨by assumption, by assumption, by assumption, by assumption⟩

/-- An instruction that the assembler emits. -/
structure Fields.Encodes (i : Fields) : Prop where
  fits : i.Fits
  immMin_le : -2 ^ 16 ≤ i.imm
  imm_lt : i.imm < 2 ^ 16

theorem mem_of_lookup {key : Text} {table : List (Text × ℕ)} {value : ℕ}
    (h : table.lookup key = some value) : (key, value) ∈ table := by
  obtain ⟨l₁, l₂, hl, -⟩ := List.lookup_eq_some_iff.mp h
  rw [hl]
  exact List.mem_append_right _ List.mem_cons_self

theorem opcodes_lt {op : Text} (h : opcodes.lookup op = some id) : id < 22 := by
  have hall : ∀ p ∈ opcodes, p.2 < 22 := by decide
  exact hall _ (mem_of_lookup h)

theorem checkImm_yields {i : Fields} (h : i.Fits) : Yields Fields.Encodes (checkImm lineno i) := by
  unfold checkImm
  split_ifs with hi
  · exact yields_error _
  · unfold immMin immMax at hi
    exact yields_ok ⟨h, by omega, by omega⟩

theorem encodeLine_yields (line : Text) :
    Yields Fields.Encodes (encodeLine py labels lineno line) := by
  unfold encodeLine
  split
  · exact yields_error _
  dsimp only
  split
  · exact yields_error _
  next id hid =>
    refine yields_bind (parseOperands_fits (opcodes_lt hid) _ _) fun i hi => ?_
    exact checkImm_yields hi

theorem secondPass_yields (lines : List (ℕ × Text)) :
    Yields (fun is => ∀ i ∈ is, Fields.Encodes i) (secondPass py labels lines) := by
  induction lines with
  | nil => exact yields_ok (List.forall_mem_nil _)
  | cons line lines ih =>
    refine yields_bind (encodeLine_yields _) fun i hi => ?_
    refine yields_bind ih fun is his => ?_
    exact yields_ok (List.forall_mem_cons.mpr ⟨hi, his⟩)

theorem translate_yields (source : Text) :
    Yields (fun r => ∀ i ∈ r.2, Fields.Encodes i) (translate py source) := by
  refine yields_bind (yields_true _) fun src _ => ?_
  refine yields_bind (yields_true _) fun entry _ => ?_
  refine yields_bind (secondPass_yields _) fun is his => ?_
  exact yields_ok his

end Fields

section Words
variable {i : Fields}

theorem lor_shift {a k : ℕ} (h : a < 2 ^ k) (b : ℕ) : a ||| b <<< k = a + b * 2 ^ k := by
  rw [Nat.or_comm, ← Nat.shiftLeft_add_eq_or_of_lt h, Nat.shiftLeft_eq, Nat.add_comm]

theorem and_seven {r : ℕ} (h : r < 8) : r &&& 7 = r := by
  rw [show (7 : ℕ) = 2 ^ 3 - 1 from rfl, Nat.and_two_pow_sub_one_eq_mod]
  exact Nat.mod_eq_of_lt h

theorem packWord_eq (h : i.Fits) : packWord i =
    i.opcode + i.dst * 2 ^ 6 + i.srcA * 2 ^ 9 + i.srcB * 2 ^ 12 +
      (i.imm % 2 ^ 17).toNat * 2 ^ 15 := by
  obtain ⟨hop, hdst, ha, hb⟩ := h
  have hcode : i.opcode &&& 0x3F = i.opcode := by
    rw [show (0x3F : ℕ) = 2 ^ 6 - 1 from rfl, Nat.and_two_pow_sub_one_eq_mod]
    omega
  have h6 := lor_shift (show i.opcode < 2 ^ 6 by omega) i.dst
  have h9 := lor_shift (show i.opcode + i.dst * 2 ^ 6 < 2 ^ 9 by omega) i.srcA
  have h12 := lor_shift (show i.opcode + i.dst * 2 ^ 6 + i.srcA * 2 ^ 9 < 2 ^ 12 by omega) i.srcB
  rw [packWord, hcode, and_seven hdst, and_seven ha, and_seven hb, h6, h9, h12]
  exact lor_shift (by omega) _

theorem packWord_lt (h : i.Fits) : packWord i < 256 ^ 4 := by
  obtain ⟨hop, hdst, ha, hb⟩ := h
  rw [packWord_eq ⟨hop, hdst, ha, hb⟩]
  omega

/-- What the loader makes of an instruction. -/
def Fields.instruction (i : Fields) : Instruction :=
  ⟨Opcode.ofCode i.opcode, i.dst, i.srcA, i.srcB, i.imm⟩

/-- The sign comes back from the 17 bits. -/
theorem signExtend_mod {imm : ℤ} (hmin : -2 ^ 16 ≤ imm) (hmax : imm < 2 ^ 16) :
    signExtend (imm % 2 ^ 17).toNat = imm := by
  unfold signExtend
  split_ifs <;> omega

theorem decode_packWord (h : i.Encodes) : decodeInstruction (packWord i) = i.instruction := by
  obtain ⟨⟨hop, hdst, ha, hb⟩, hmin, hmax⟩ := h
  have hword := packWord_eq ⟨hop, hdst, ha, hb⟩
  have himm : packWord i / 2 ^ 15 = (i.imm % 2 ^ 17).toNat := by omega
  rw [decodeInstruction, Fields.instruction, himm, signExtend_mod hmin hmax,
    show packWord i % 2 ^ 6 = i.opcode by omega,
    show packWord i / 2 ^ 6 % 8 = i.dst by omega,
    show packWord i / 2 ^ 9 % 8 = i.srcA by omega,
    show packWord i / 2 ^ 12 % 8 = i.srcB by omega]

end Words

section Bytes
variable {pre mid rest bytes : List UInt8} {start len w n : ℕ}

theorem leNat_eq_decode (bytes : List UInt8) : leNat bytes = decode bytes := by
  induction bytes with
  | nil => rfl
  | cons b bytes ih => rw [leNat, decode, ih]

theorem field_skip (h : w ≤ start) :
    field (encode w n ++ rest) start len = field rest (start - w) len := by
  rw [field, field, slice, slice, drop_encode h]

theorem field_here (h : n < 256 ^ w) : field (encode w n ++ rest) 0 w = n := by
  rw [field, slice, List.drop_zero, leNat_eq_decode, decode_take h]

theorem length_headerOf (checksum entry count : ℕ) :
    (headerOf checksum entry count).length = 16 := by
  simp only [headerOf, List.length_append, length_encode]

theorem length_payloadOf (instrs : List Fields) : (payloadOf instrs).length = instrs.length * 4 :=
  length_flatMap_fixed fun i _ => length_encode 4 (packWord i)

theorem decodeInstructions_payloadOf {instrs : List Fields} (h : ∀ i ∈ instrs, i.Encodes) :
    decodeInstructions (payloadOf instrs) instrs.length = instrs.map Fields.instruction := by
  apply List.ext_getElem
  · rw [decodeInstructions, List.length_map, List.length_map, List.length_range]
  · intro k hk _
    rw [decodeInstructions, List.length_map, List.length_range] at hk
    have hi := h instrs[k] (List.getElem_mem hk)
    have hfield : field (payloadOf instrs) (k * 4) 4 = packWord instrs[k] := by
      obtain ⟨rest, hrest⟩ := drop_flatMap_get (fun i _ => length_encode 4 (packWord i))
        (List.getElem?_eq_getElem hk)
      rw [field, slice, payloadOf, hrest, leNat_eq_decode, decode_take (packWord_lt hi.fits)]
    simp only [decodeInstructions, List.getElem_map, List.getElem_range, packedInstructionBytes,
      hfield, decode_packWord hi]

end Bytes

section Checksum

theorem vmCrc32_eq_zlibCrc32 (data : List UInt8) : vmCrc32 data = zlibCrc32 data := by
  rw [vmCrc32, zlibCrc32, crcByte_eq_bitwise, Crc32.foldl_bytewise]
  exact congrArg BitVec.toNat BitVec.xor_allOnes.symm

end Checksum

section Accepted
variable {i : Fields} {instrs : List Fields} {entry count : ℕ}

/-- Branches inside a program of `count` instructions, and syscalls that the VM has. -/
structure Fields.Valid (count : ℕ) (i : Fields) : Prop where
  target : i.opcode ∈ [9, 10, 11, 12] → 0 ≤ i.imm ∧ i.imm < count
  syscall : i.opcode = 17 → 0 ≤ i.imm ∧ i.imm ≤ 3

theorem opcode_branch (h : i.opcode < 22) (hb : isBranch i.instruction.opcode = true) :
    i.opcode ∈ [9, 10, 11, 12] := by
  have hall : ∀ code < 22, isBranch (Opcode.ofCode code) = true → code ∈ [9, 10, 11, 12] := by
    decide
  exact hall _ h hb

theorem opcode_tsys (h : i.opcode < 22) (hs : i.instruction.opcode = .tsys) : i.opcode = 17 := by
  have hall : ∀ code < 22, Opcode.ofCode code = .tsys → code = 17 := by decide
  exact hall _ h hs

theorem instruction_known (h : i.opcode < 22) : loaderOpcodeValid i.instruction.opcode = true := by
  have hall : ∀ code < 22, loaderOpcodeValid (Opcode.ofCode code) = true := by decide
  exact hall _ h

theorem instruction_fieldsValid (h : i.Fits) :
    loaderInstructionFieldsValid i.instruction = true := by
  have hreg : ∀ r < 8, registerIndexValid r = true := fun r hr => decide_eq_true hr
  have hknown := instruction_known h.opcode
  unfold loaderInstructionFieldsValid
  split <;>
    simp_all [Fields.instruction, h.dst, h.srcA, h.srcB, loaderOpcodeValid]

theorem target_accepted (h : i.Encodes) (hv : i.Valid count) :
    ¬(isBranch i.instruction.opcode && !loaderTargetInRange i.instruction.imm count) = true := by
  intro hout
  obtain ⟨hb, hout⟩ := Bool.and_eq_true_iff.mp hout
  obtain ⟨hpos, hlt⟩ := hv.target (opcode_branch h.fits.opcode hb)
  have hin : loaderTargetInRange i.imm count = true := by
    have hmax := h.imm_lt
    apply decide_eq_true
    rw [u32]
    omega
  rw [Fields.instruction, hin] at hout
  contradiction

theorem syscall_accepted (h : i.Encodes) (hv : i.Valid count) :
    ¬(decide (i.instruction.opcode = .tsys) && !loaderSyscallValid i.instruction.imm) = true := by
  intro hout
  obtain ⟨hs, hout⟩ := Bool.and_eq_true_iff.mp hout
  have hid := hv.syscall (opcode_tsys h.fits.opcode (of_decide_eq_true hs))
  rw [Fields.instruction, loaderSyscallValid, decide_eq_true hid] at hout
  contradiction

theorem validateInstruction_instruction (h : i.Encodes) (hv : i.Valid count) :
    validateInstruction i.instruction count = Err.ok := by
  have hfalse : ¬(!true) = true := Bool.false_ne_true
  rw [validateInstruction, instruction_known h.fits.opcode, instruction_fieldsValid h.fits,
    if_neg hfalse, if_neg hfalse, if_neg (target_accepted h hv), if_neg (syscall_accepted h hv)]

theorem validateInstructions_of_forall {is : List Instruction}
    (h : ∀ i ∈ is, validateInstruction i count = Err.ok) :
    validateInstructions count is = Err.ok := by
  induction is with
  | nil => rfl
  | cons i is ih =>
    obtain ⟨hi, his⟩ := List.forall_mem_cons.mp h
    rw [validateInstructions, if_neg (not_not.mpr hi), ih his]

theorem validateImage_assembled (henc : ∀ i ∈ instrs, i.Encodes) (hentry : entry < instrs.length)
    (hvalid : ∀ i ∈ instrs, i.Valid instrs.length) :
    validateImage ⟨imageMagic, 2, entry, some (instrs.map Fields.instruction), none, 0⟩ =
      Err.ok := by
  unfold validateImage
  dsimp only
  rw [if_neg (not_not.mpr rfl), if_neg (by omega), List.length_map, if_neg (by omega),
    if_neg (by omega), if_neg (fun h => h.2 rfl)]
  apply validateInstructions_of_forall
  intro j hj
  obtain ⟨i, hi, rfl⟩ := List.mem_map.mp hj
  exact validateInstruction_instruction (henc i hi) (hvalid i hi)

end Accepted

section Image
variable {host : Host W} {m : Machine W} {instrs : List Fields} {entry : ℕ} {image : List UInt8}

/-- An image that the assembler wrote. -/
structure Packed (entry : ℕ) (instrs : List Fields) (image : List UInt8) : Prop where
  entry_lt : entry < 2 ^ 16
  length_lt : instrs.length < 2 ^ 16
  bytes : image = headerOf (zlibCrc32 (payloadOf instrs)) entry instrs.length ++ payloadOf instrs

theorem packImage_yields (entry : ℕ) (instrs : List Fields) :
    Yields (Packed entry instrs) (packImage entry instrs) := by
  unfold packImage
  split_ifs with h
  · exact yields_ok ⟨h.1, h.2, rfl⟩
  · exact yields_error _

namespace Packed
variable (h : Packed entry instrs image)
include h

theorem length : image.length = 16 + instrs.length * 4 := by
  rw [h.bytes, List.length_append, length_headerOf, length_payloadOf]

theorem payload : image.drop 16 = payloadOf instrs := by
  rw [h.bytes]
  exact List.drop_left' (length_headerOf _ _ _)

theorem magic : field image 0 4 = imageMagic := by
  rw [h.bytes, headerOf]
  simp only [List.append_assoc]
  exact field_here (by decide)

theorem version : field image 4 2 = 2 := by
  rw [h.bytes, headerOf]
  simp (disch := omega) only [List.append_assoc, field_skip, field_here, Nat.sub_self]

theorem checksum : field image 6 4 = zlibCrc32 (payloadOf instrs) := by
  have hcrc : zlibCrc32 (payloadOf instrs) < 256 ^ 4 := BitVec.isLt _
  rw [h.bytes, headerOf]
  simp (disch := omega) only [List.append_assoc, field_skip, field_here, Nat.reduceSub]

theorem entryIp : field image 10 2 = entry := by
  have hentry := h.entry_lt
  rw [h.bytes, headerOf]
  simp (disch := omega) only [List.append_assoc, field_skip, field_here, Nat.reduceSub]

theorem instructionCount : field image 12 2 = instrs.length := by
  have hlen := h.length_lt
  rw [h.bytes, headerOf]
  simp (disch := omega) only [List.append_assoc, field_skip, field_here, Nat.reduceSub]

theorem dataCount : field image 14 2 = 0 := by
  rw [h.bytes, headerOf]
  simp (disch := omega) only [List.append_assoc, field_skip, field_here, Nat.reduceSub]

theorem payloadLen : payloadLen image = instrs.length * 4 := by
  rw [Vm.payloadLen, h.instructionCount, h.dataCount, Nat.zero_mul, Nat.add_zero]
  rfl

theorem crc : vmCrc32 (slice image 16 (Vm.payloadLen image)) = field image 6 4 := by
  rw [h.checksum, slice, h.payload, h.payloadLen, ← length_payloadOf, List.take_length,
    vmCrc32_eq_zlibCrc32]

theorem program (henc : ∀ i ∈ instrs, i.Encodes) :
    decodeInstructions (image.drop 16) (field image 12 2) = instrs.map Fields.instruction := by
  rw [h.payload, h.instructionCount, decodeInstructions_payloadOf henc]

end Packed

theorem installBinary_packed (h : Packed entry instrs image) (henc : ∀ i ∈ instrs, i.Encodes)
    (hentry : entry < instrs.length) (hvalid : ∀ i ∈ instrs, i.Valid instrs.length) :
    installBinary m image none [] =
      (Err.ok, { m with vm := { vmReset { m.vm with
        mmu := mmuInit
        program := some (instrs.map Fields.instruction)
        ownsProgram := true
        ownedPrivateMemory := none
        ownedPrivateMemoryCount := 0 } with ip := entry } }) := by
  unfold installBinary
  rw [h.program henc, h.version, h.entryIp]
  dsimp only
  rw [List.length_nil, validateImage_assembled henc hentry hvalid, if_neg (not_not.mpr rfl),
    if_neg (Nat.lt_irrefl 0)]

theorem loadData_packed (h : Packed entry instrs image) :
    loadData host m image = installBinary m image none [] := by
  unfold loadData
  rw [h.dataCount]
  exact if_neg (Nat.lt_irrefl 0)

theorem loadBinary_packed (h : Packed entry instrs image)
    (hmalloc : (host.mallocInstructions instrs.length (vmUnload host m).world).1 = true) :
    loadBinary host m image =
      loadData host { vmUnload host m with
        world := (host.mallocInstructions instrs.length (vmUnload host m).world).2 } image := by
  have hlen := h.length
  unfold loadBinary
  dsimp only
  rw [if_neg (by omega), h.magic, if_neg (not_not.mpr rfl), h.version, if_neg (not_not.mpr rfl),
    if_neg (by rw [h.payloadLen]; omega), h.crc, if_neg (not_not.mpr rfl), h.instructionCount,
    if_pos hmalloc]

/-- The program that was assembled is the one that is loaded, at its entry and without data. -/
theorem assembled_image_loads (host : Host W) (m : Machine W) {source : Text}
    (hsource : translate py source = .ok (entry, instrs)) (himage : assemble py source = .ok image)
    (hentry : entry < instrs.length) (hvalid : ∀ i ∈ instrs, i.Valid instrs.length)
    (hmalloc : (host.mallocInstructions instrs.length (vmUnload host m).world).1 = true) :
    ∃ m', loadBinary host m image = (Err.ok, m') ∧
      m'.vm.program = some (instrs.map Fields.instruction) ∧ m'.vm.ip = entry ∧
      m'.vm.ownedPrivateMemory = none ∧ m'.vm.ownedPrivateMemoryCount = 0 ∧
      m'.vm.mmu = mmuInit ∧ m'.mem = m.mem := by
  have henc : ∀ i ∈ instrs, i.Encodes := translate_yields source _ hsource
  have hpacked : Packed entry instrs image := by
    apply packImage_yields
    rw [← himage, assemble, hsource]
    rfl
  have hload := (loadBinary_packed hpacked hmalloc).trans
    ((loadData_packed hpacked).trans (installBinary_packed hpacked henc hentry hvalid))
  exact ⟨_, hload, rfl, rfl, rfl, rfl, rfl, (vmUnload_kept host m).2⟩

end Image

/-- Python's strings as far as ASCII goes. -/
def asciiPython : Python where
  isSpace c := c ∈ [' ', '\t', '\n', '\r', '\x0b', '\x0c']
  upper := List.map Char.toUpper
  int t :=
    let digits := if t.head? = some '-' then t.tail else t
    let value : ℤ := digits.foldl (fun n c => 10 * n + (c.toNat - 48)) 0
    if digits ≠ [] ∧ digits.all Char.isDigit then .ok (if t.head? = some '-' then -value else value)
    else .error "invalid literal for int() with base 10"

def loopSource : Text := text "TLDI r1, -3 ; minus three\n.entry loop\nloop:\nTJMP @loop\n"

theorem assembled_image_loads_loop : ∃ image m',
    assemble asciiPython loopSource = .ok image ∧
      loadBinary quietHost storeLoadMachine image = (Err.ok, m') ∧
      m'.vm.program = some [⟨.tldi, 1, 0, 0, -3⟩, ⟨.tjmp, 0, 0, 0, 1⟩] ∧ m'.vm.ip = 1 := by
  have hsource : translate asciiPython loopSource =
      .ok (1, [⟨1, 1, 0, 0, -3⟩, ⟨9, 0, 0, 0, 1⟩]) := rfl
  have hvalid : ∀ i ∈ [(⟨1, 1, 0, 0, -3⟩ : Fields), ⟨9, 0, 0, 0, 1⟩], i.Valid 2 := by
    intro i hi
    rcases List.mem_cons.mp hi with rfl | hi
    · exact ⟨by decide, by decide⟩
    · obtain rfl := List.mem_singleton.mp hi
      exact ⟨by decide, by decide⟩
  obtain ⟨m', hload, hprogram, hip, -⟩ := assembled_image_loads quietHost storeLoadMachine
    hsource rfl (by decide) hvalid rfl
  exact ⟨_, m', rfl, hload, hprogram, hip⟩

end ReflexOS.Tasm
