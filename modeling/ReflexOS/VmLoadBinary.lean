import ReflexOS.VmFaults
import ReflexOS.VmReload

set_option autoImplicit false

/-!
# Which buffers the binary loader accepts

The format of an image is stated over the offsets of the buffer. The loader walks the same
bytes as shrinking streams and gives up at the first thing it does not like.
-/
namespace ReflexOS.Vm
open VmTernary VmMmu

variable {W : Type*}

section Format

def declaredInstruction (buffer : List UInt8) (i : ℕ) : Instruction :=
  decodeInstruction (field buffer (16 + 4 * i) 4)

def declaredInstructions (buffer : List UInt8) : List Instruction :=
  (List.range (field buffer 12 2)).map (declaredInstruction buffer)

/-- Trit `j` of the packed word at `start`, two bits of it. -/
def packedTrit (buffer : List UInt8) (start j : ℕ) : ℕ :=
  (buffer.getD (start + j / 4) 0).toNat / 4 ^ (j % 4) % 4

def packedWord (buffer : List UInt8) (start : ℕ) : Word18 := fun j => packedTrit buffer start j - 1

def dataStart (buffer : List UInt8) : ℕ := 16 + 4 * field buffer 12 2

def declaredWord (buffer : List UInt8) (a : ℕ) : Word18 :=
  packedWord buffer (dataStart buffer + 5 * a)

def payloadBytes (buffer : List UInt8) : ℕ := 4 * field buffer 12 2 + 5 * field buffer 14 2

def crc32 (data : List UInt8) : ℕ :=
  (~~~ (data.foldl (Crc32.bitwise 0xEDB88320#32) 0xFFFFFFFF#32)).toNat

/-- What the validator is shown of a buffer, its data left out. -/
def declaredImage (buffer : List UInt8) : Image where
  magic := field buffer 0 4
  version := field buffer 4 2
  entryIp := field buffer 10 2
  instructions := some (declaredInstructions buffer)
  privateMemory := none
  privateMemoryCount := 0

structure WellFormed (buffer : List UInt8) : Prop where
  header : 16 ≤ buffer.length
  magic : field buffer 0 4 = 0x52465856
  version : field buffer 4 2 = 2
  payload : 16 + payloadBytes buffer ≤ buffer.length
  crc : crc32 (slice buffer 16 (payloadBytes buffer)) = field buffer 6 4
  words : ∀ a < field buffer 14 2, ∀ j < 18, packedTrit buffer (dataStart buffer + 5 * a) j ≠ 3
  accepted : validateImage (declaredImage buffer) = Err.ok

/-- The VM runs the program and the words the buffer declares. -/
structure Installed (buffer : List UInt8) (m : Machine W) : Prop where
  ip : m.vm.ip = field buffer 10 2
  program : m.vm.program = some (declaredInstructions buffer)
  memory : ∀ a, memGetRaw m a =
    if a < field buffer 14 2 then .ok (declaredWord buffer a) else .error Err.notFound

structure Unloaded (vm : VmState) : Prop where
  program : vm.program = none
  mmu : vm.mmu = mmuInit
  ownsProgram : vm.ownsProgram = false
  ownedPrivateMemory : vm.ownedPrivateMemory = none

end Format

variable {buffer : List UInt8} {host : Host W} {m : Machine W}

theorem field_drop (buffer : List UInt8) (n start len : ℕ) :
    field (buffer.drop n) start len = field buffer (n + start) len := by
  rw [field, field, slice, slice, List.drop_drop]

theorem decodeInstructions_eq (buffer : List UInt8) :
    decodeInstructions (buffer.drop 16) (field buffer 12 2) = declaredInstructions buffer := by
  refine List.map_congr_left fun i _ => ?_
  rw [field_drop, declaredInstruction, packedInstructionBytes, mul_comm]

theorem payloadLen_eq (buffer : List UInt8) : payloadLen buffer = payloadBytes buffer := by
  rw [payloadLen, payloadBytes, packedInstructionBytes, packedWord18Bytes, mul_comm,
    mul_comm (field buffer 14 2)]

theorem vmCrc32_eq (data : List UInt8) : vmCrc32 data = crc32 data := by
  rw [vmCrc32, crc32, crcByte_eq_bitwise]

section Unpack

theorem codeToTrit_cases (code : ℕ) :
    code % 4 = 3 ∧ codeToTrit code = .error Err.invalidResponse ∨
      code % 4 ≠ 3 ∧ codeToTrit code = .ok ((code % 4 : ℕ) - 1) := by
  have h : code % 4 = 0 ∨ code % 4 = 1 ∨ code % 4 = 2 ∨ code % 4 = 3 := by omega
  unfold codeToTrit
  rcases h with h | h | h | h
  · exact .inr ⟨by omega, by rw [h]; rfl⟩
  · exact .inr ⟨by omega, by rw [h]; rfl⟩
  · exact .inr ⟨by omega, by rw [h]; rfl⟩
  · exact .inl ⟨h, by rw [h]; rfl⟩

theorem packedTrit_byte {input : List UInt8} {start : ℕ} {byte : UInt8}
    (h : input[start * 2 / 8]? = some byte) :
    byte.toNat / 2 ^ (start * 2 % 8) % 4 = packedTrit input 0 start := by
  have hindex : 0 + start / 4 = start * 2 / 8 := by omega
  have hshift : start * 2 % 8 = 2 * (start % 4) := by omega
  rw [packedTrit, hindex, List.getD, h, Option.getD_some, hshift, pow_mul]
  rfl

/-- Whether each code is that of a trit decides what unpacking gives. -/
theorem unpackTrits_cases {input : List UInt8} {start n : ℕ} (h : start + n ≤ 4 * input.length) :
    ((∀ j < n, packedTrit input 0 (start + j) ≠ 3) ∧ unpackTrits input start n =
        .ok ((List.range n).map fun j => (packedTrit input 0 (start + j) : ℤ) - 1)) ∨
      (∃ j < n, packedTrit input 0 (start + j) = 3) ∧
        ∃ e, unpackTrits input start n = .error e := by
  induction n generalizing start with
  | zero => exact .inl ⟨fun j hj => absurd hj (Nat.not_lt_zero j), rfl⟩
  | succ n ih =>
    have hbyte : input[start * 2 / 8]? = some input[start * 2 / 8] :=
      List.getElem?_eq_getElem (by omega)
    have hcode := codeToTrit_cases (input[start * 2 / 8].toNat / 2 ^ (start * 2 % 8))
    rw [packedTrit_byte hbyte] at hcode
    simp only [unpackTrits, hbyte]
    rcases hcode with ⟨hbad, hcode⟩ | ⟨hgood, hcode⟩
    · exact .inr ⟨⟨0, Nat.succ_pos n, hbad⟩, _, by rw [hcode]⟩
    · rw [hcode]
      have hshift : ∀ j, start + 1 + j = start + (j + 1) := fun j => by omega
      rcases ih (show start + 1 + n ≤ 4 * input.length by omega) with ⟨hall, hok⟩ | ⟨⟨j, hj, hbad⟩, e, herr⟩
      · refine .inl ⟨fun j hj => ?_, ?_⟩
        · cases j with
          | zero => exact hgood
          | succ j => exact hshift j ▸ hall j (by omega)
        · rw [hok, List.range_succ_eq_map, List.map_cons, List.map_map]
          simp only [hshift, Function.comp_def, Nat.add_zero, Nat.succ_eq_add_one]
      · exact .inr ⟨⟨j + 1, by omega, hshift j ▸ hbad⟩, e, by rw [herr]⟩

/-- The five bytes of a packed word, wherever the buffer has them. -/
theorem word18Unpack_cases {buffer : List UInt8} {start : ℕ} (h : start + 5 ≤ buffer.length) :
    ((∀ j < 18, packedTrit buffer start j ≠ 3) ∧
        word18Unpack (slice buffer start 5) = .ok (packedWord buffer start)) ∨
      (∃ j < 18, packedTrit buffer start j = 3) ∧
        ∃ e, word18Unpack (slice buffer start 5) = .error e := by
  have hlen : (slice buffer start 5).length = 5 := by
    rw [slice, List.length_take, List.length_drop]
    omega
  have htrit : ∀ j < 18,
      packedTrit (slice buffer start 5) 0 (0 + j) = packedTrit buffer start j := by
    intro j hj
    have hbyte : (slice buffer start 5)[j / 4]? = buffer[start + j / 4]? := by
      rw [slice, List.getElem?_take_of_lt (by omega), List.getElem?_drop]
    simp only [packedTrit, Nat.zero_add, List.getD, hbyte]
  rw [word18Unpack]
  rcases unpackTrits_cases (show 0 + 18 ≤ 4 * (slice buffer start 5).length by omega) with
    ⟨hall, hok⟩ | ⟨⟨j, hj, hbad⟩, e, herr⟩
  · refine .inl ⟨fun j hj => htrit j hj ▸ hall j hj, ?_⟩
    rw [hok]
    refine congrArg Except.ok (funext fun i => ?_)
    simp [Trits.ofList, packedWord, ← htrit i i.isLt]
  · exact .inr ⟨⟨j, hj, htrit j hj ▸ hbad⟩, e, by rw [herr]⟩

theorem unpackWords_cases {buffer : List UInt8} {start n : ℕ}
    (h : start + 5 * n ≤ buffer.length) :
    ((∀ a < n, ∀ j < 18, packedTrit buffer (start + 5 * a) j ≠ 3) ∧
        unpackWords (buffer.drop start) n =
          .ok ((List.range n).map fun a => packedWord buffer (start + 5 * a))) ∨
      (∃ a < n, ∃ j < 18, packedTrit buffer (start + 5 * a) j = 3) ∧
        ∃ e, unpackWords (buffer.drop start) n = .error e := by
  induction n generalizing start with
  | zero => exact .inl ⟨fun a ha => absurd ha (Nat.not_lt_zero a), rfl⟩
  | succ n ih =>
    have hslice : slice (buffer.drop start) 0 packedWord18Bytes = slice buffer start 5 := by
      rw [slice, slice, List.drop_drop, Nat.add_zero, packedWord18Bytes]
    have hshift : ∀ a, start + 5 + 5 * a = start + 5 * (a + 1) := fun a => by omega
    rw [unpackWords, hslice, List.drop_drop, packedWord18Bytes]
    rcases word18Unpack_cases (show start + 5 ≤ buffer.length by omega) with
      ⟨hgood, hword⟩ | ⟨⟨j, hj, hbad⟩, e, herr⟩
    · rw [hword]
      rcases ih (show start + 5 + 5 * n ≤ buffer.length by omega) with
        ⟨hall, hok⟩ | ⟨⟨a, ha, hbad⟩, e, herr⟩
      · refine .inl ⟨fun a ha => ?_, ?_⟩
        · cases a with
          | zero => exact hgood
          | succ a => exact hshift a ▸ hall a (by omega)
        · rw [hok, List.range_succ_eq_map, List.map_cons, List.map_map]
          simp only [hshift, Function.comp_def, Nat.mul_zero, Nat.add_zero, Nat.succ_eq_add_one]
      · exact .inr ⟨⟨a + 1, by omega, hshift a ▸ hbad⟩, e, by rw [herr]⟩
    · exact .inr ⟨⟨0, Nat.succ_pos n, j, hj, hbad⟩, e, by rw [herr]⟩

end Unpack

section Install

/-- The loader's answer to a buffer that meets `accepts`, and to one that does not. -/
inductive LoadResult (buffer : List UInt8) (accepts : Prop) : Err × Machine W → Prop
  | loaded {m : Machine W} (accepted : accepts) (installed : Installed buffer m) :
      LoadResult buffer accepts (Err.ok, m)
  | refused {m : Machine W} {e : Err} (rejected : ¬accepts) (failed : e ≠ Err.ok)
      (unloaded : Unloaded m.vm) : LoadResult buffer accepts (e, m)

theorem LoadResult.congr {accepts accepts' : Prop} {r : Err × Machine W}
    (h : LoadResult buffer accepts r) (hiff : accepts ↔ accepts') :
    LoadResult buffer accepts' r := by
  cases h with
  | loaded accepted installed => exact .loaded (hiff.mp accepted) installed
  | refused rejected failed unloaded =>
    exact .refused (fun h => rejected (hiff.mpr h)) failed unloaded

variable {data : Option ℕ} {words : List Word18}

theorem validateImage_declared (hmagic : field buffer 0 4 = imageMagic)
    (hdata : words.length ≠ 0 → ∃ p, data = some p ∧ p ≠ 0) :
    validateImage
        { magic := imageMagic
          version := field buffer 4 2
          entryIp := field buffer 10 2
          instructions := some (declaredInstructions buffer)
          privateMemory := data
          privateMemoryCount := words.length } = validateImage (declaredImage buffer) := by
  have hnull : ¬(data = none ∧ words.length ≠ 0) := by
    rintro ⟨hnone, hlen⟩
    obtain ⟨p, hp, -⟩ := hdata hlen
    rw [hnone] at hp
    cases hp
  simp only [validateImage, declaredImage, hmagic, if_neg hnull, ne_eq, not_true_eq_false,
    and_false, if_false]

theorem addRegion_init {p count : ℕ} (hp : p ≠ 0) (hcount : count < 2 ^ 32) :
    ∃ mmu, mmuAddRegion mmuInit p count .privateMem 0 = .ok mmu := by
  have hfits : 0 + count < 2 ^ 32 := by omega
  unfold mmuAddRegion
  rw [if_neg hp, dif_pos (by decide), dif_pos hfits, dif_neg (by simp [mmuInit])]
  exact ⟨_, rfl⟩

theorem installed_of_layout {m : Machine W} {p : ℕ} (hip : m.vm.ip = field buffer 10 2)
    (hprogram : m.vm.program = some (declaredInstructions buffer))
    (hlayout : Layout p (field buffer 14 2) m.vm.mmu)
    (hmem : ∀ a < field buffer 14 2, m.mem (p + a) = declaredWord buffer a) :
    Installed buffer m where
  ip := hip
  program := hprogram
  memory a := by
    rw [memGetRaw, hlayout a]
    split_ifs with ha
    · exact congrArg Except.ok (hmem a ha)
    · rfl

theorem installBinary_result (hm : Unloaded m.vm) (hmagic : field buffer 0 4 = imageMagic)
    (hlen : words.length = field buffer 14 2)
    (hdata : words.length ≠ 0 → ∃ p, data = some p ∧ p ≠ 0)
    (hmem : ∀ a < field buffer 14 2, m.mem (data.getD 0 + a) = declaredWord buffer a) :
    LoadResult buffer (validateImage (declaredImage buffer) = Err.ok)
      (installBinary m buffer data words) := by
  have himage := validateImage_declared hmagic hdata
  have hrefused : Unloaded { m.vm with mmu := mmuInit } :=
    ⟨hm.program, rfl, hm.ownsProgram, hm.ownedPrivateMemory⟩
  unfold installBinary
  simp only [decodeInstructions_eq, himage]
  split_ifs with hinvalid hpos
  · exact .refused hinvalid hinvalid hrefused
  · obtain ⟨p, rfl, hp⟩ := hdata (by omega)
    have hfield := field_lt buffer 14 2
    obtain ⟨mmu, hmmu⟩ := addRegion_init hp (show words.length < 2 ^ 32 by omega)
    have hlayout := layout_addRegion hmmu
    rw [hlen] at hlayout
    simp only [Image.buffer, Option.getD_some, hmmu]
    exact .loaded (not_not.mp hinvalid) (installed_of_layout rfl rfl hlayout hmem)
  · have hzero : field buffer 14 2 = 0 := by omega
    have hlayout : Layout 0 (field buffer 14 2) mmuInit := hzero ▸ layout_init 0
    exact .loaded (not_not.mp hinvalid) (installed_of_layout rfl rfl hlayout
      fun a ha => absurd ha (by omega))

/-- The host has room for every buffer. -/
structure Allocates (host : Host W) : Prop where
  instructions : ∀ n w, 0 < n → (host.mallocInstructions n w).1 = true
  words : ∀ n w, 0 < n → ∃ p, (host.callocWords n w).1 = some p ∧ p ≠ 0

theorem loadData_result (hhost : Allocates host) (hm : Unloaded m.vm)
    (hmagic : field buffer 0 4 = imageMagic) (hpayload : 16 + payloadBytes buffer ≤ buffer.length) :
    LoadResult buffer
      ((∀ a < field buffer 14 2, ∀ j < 18, packedTrit buffer (dataStart buffer + 5 * a) j ≠ 3) ∧
        validateImage (declaredImage buffer) = Err.ok) (loadData host m buffer) := by
  have hrefused : Unloaded { m.vm with mmu := mmuInit } :=
    ⟨hm.program, rfl, hm.ownsProgram, hm.ownedPrivateMemory⟩
  have hstart : 16 + field buffer 12 2 * packedInstructionBytes = dataStart buffer := by
    rw [dataStart, packedInstructionBytes, mul_comm]
  unfold loadData
  dsimp only
  split_ifs with hcount
  · obtain ⟨p, hp, hnull⟩ := hhost.words _ m.world hcount
    simp only [hp, hstart]
    rcases unpackWords_cases (show dataStart buffer + 5 * field buffer 14 2 ≤ buffer.length by
        unfold payloadBytes at hpayload; unfold dataStart; omega) with
      ⟨hwords, hok⟩ | ⟨⟨a, ha, j, hj, hbad⟩, e, herr⟩
    · simp only [hok]
      have hresult := installBinary_result (m := { m with
          world := (host.callocWords (field buffer 14 2) m.world).2
          mem := storeWords m.mem p ((List.range (field buffer 14 2)).map (declaredWord buffer)) })
        hm hmagic (show ((List.range (field buffer 14 2)).map (declaredWord buffer)).length = _ by simp)
        (fun _ => ⟨p, rfl, hnull⟩) fun a ha => by
          refine (storeWords_get (by simpa using ha)).trans ?_
          simp [List.getD, ha]
      exact hresult.congr ⟨fun h => ⟨hwords, h⟩, fun h => h.2⟩
    · simp only [herr]
      exact .refused (fun h => h.1 a ha j hj hbad) (unpackWords_error herr) hrefused
  · have hzero : field buffer 14 2 = 0 := by omega
    have hresult := @installBinary_result _ buffer _ none [] hm hmagic hzero.symm
      (fun h => absurd rfl h) fun a ha => absurd ha (by omega)
    exact hresult.congr ⟨fun h => ⟨fun a ha => absurd ha (by omega), h⟩, fun h => h.2⟩

theorem vmUnload_unloaded (host : Host W) (m : Machine W) : Unloaded (vmUnload host m).vm :=
  ⟨rfl, rfl, rfl, rfl⟩

theorem not_accepted_of_empty (h : field buffer 12 2 = 0) :
    validateImage (declaredImage buffer) ≠ Err.ok := by
  intro hok
  obtain ⟨is, his, hentry, -, -⟩ := validateImage_accepts hok
  cases his
  simp [declaredInstructions, h] at hentry

theorem loadBinary_result (hhost : Allocates host) (m : Machine W) (hlen : 16 ≤ buffer.length) :
    LoadResult buffer (WellFormed buffer) (loadBinary host m buffer) := by
  have hm := vmUnload_unloaded host m
  unfold loadBinary
  simp only [payloadLen_eq, vmCrc32_eq]
  rw [if_neg (by omega)]
  split_ifs with hmagic hversion hpayload hcrc hroom
  · exact .refused (fun h => hmagic h.magic) (by decide) hm
  · exact .refused (fun h => hversion h.version) (by decide) hm
  · exact .refused (fun h => by have := h.payload; omega) (by decide) hm
  · exact .refused (fun h => hcrc h.crc) (by decide) hm
  · have hresult := loadData_result (m := { vmUnload host m with
        world := (host.mallocInstructions (field buffer 12 2) (vmUnload host m).world).2 })
      hhost hm (not_not.mp hmagic) (by omega)
    exact hresult.congr
      ⟨fun h => ⟨hlen, not_not.mp hmagic, not_not.mp hversion, by omega, not_not.mp hcrc, h.1, h.2⟩,
        fun h => ⟨h.words, h.accepted⟩⟩
  · refine .refused (fun h => ?_) (by decide) hm
    by_cases hzero : field buffer 12 2 = 0
    · exact not_accepted_of_empty hzero h.accepted
    · exact hroom (hhost.instructions _ _ (by omega))

/-- The loader accepts exactly the well-formed buffers, and leaves the VM running what they
declare or empty. -/
theorem load_binary_exact (hhost : Allocates host) (m : Machine W) (buffer : List UInt8) :
    ((loadBinary host m buffer).1 = Err.ok ↔ WellFormed buffer) ∧
      ((loadBinary host m buffer).1 = Err.ok → Installed buffer (loadBinary host m buffer).2) ∧
      ((loadBinary host m buffer).1 ≠ Err.ok → 16 ≤ buffer.length →
        Unloaded (loadBinary host m buffer).2.vm) := by
  by_cases hlen : 16 ≤ buffer.length
  · cases hresult : loadBinary host m buffer with
    | mk e m' =>
      have h := hresult ▸ loadBinary_result hhost m hlen
      cases h with
      | loaded accepted installed =>
        exact ⟨iff_of_true rfl accepted, fun _ => installed, fun h => absurd rfl h⟩
      | refused rejected failed unloaded =>
        exact ⟨iff_of_false failed rejected, fun h => absurd h failed, fun _ _ => unloaded⟩
  · have hshort : loadBinary host m buffer = (Err.invalidSize, m) := if_pos (by omega)
    rw [hshort]
    have hfailed : Err.invalidSize ≠ Err.ok := by decide
    exact ⟨iff_of_false hfailed fun h => hlen h.header, fun h => absurd h hfailed,
      fun _ h => absurd h hlen⟩

/-- A program that halts, and one word of data. -/
def haltImage : List UInt8 :=
  [86, 88, 70, 82, 2, 0, 181, 211, 74, 90, 0, 0, 1, 0, 1, 0, 18, 0, 0, 0, 153, 153, 153, 153, 5]

theorem load_binary_exact_halt :
    (loadBinary quietHost blankMachine haltImage).1 = Err.ok ∧
      Installed haltImage (loadBinary quietHost blankMachine haltImage).2 := by
  have hhost : Allocates quietHost := ⟨fun _ _ _ => rfl, fun _ _ _ => ⟨64, rfl, by decide⟩⟩
  obtain ⟨hiff, hinstalled, -⟩ := load_binary_exact hhost blankMachine haltImage
  have hformat : WellFormed haltImage :=
    ⟨by decide, by decide, by decide, by decide, by decide +kernel, by decide, by decide⟩
  exact ⟨hiff.mpr hformat, hinstalled (hiff.mpr hformat)⟩

end Install

end ReflexOS.Vm
