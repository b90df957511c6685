import ReflexOS.VmFaults

set_option autoImplicit false

/-!
# Register indexes of an accepted program

The loader checks the fields of every instruction, the interpreter checks some of them again,
and the opcode uses its own. TBIAS is the one opcode with a field that is used and never checked.
-/
namespace ReflexOS.Vm
open VmTernary VmMmu Goose Runs

variable {W : Type*} {host : Host W} {m m' : Machine W}

theorem withReg_of_lt {α : Type*} {index : ℕ} (h : index < 8) (k : Fin 8 → Option α) :
    withReg index k = k ⟨index, h⟩ := dif_pos h

theorem withReg_of_le {α : Type*} {index : ℕ} (h : 8 ≤ index) (k : Fin 8 → Option α) :
    withReg index k = none := dif_neg (by omega)

theorem loadImage_fields {image : Image} (h : loadImage host m image = (Err.ok, m')) :
    ∀ i ∈ m'.vm.program.getD [], loaderInstructionFieldsValid i = true := by
  unfold loadImage at h
  split at h
  next hv => exact absurd (Prod.mk.inj h).1 hv
  next hv =>
    obtain ⟨is, his, -, -, hvalid⟩ := validateImage_accepts (not_not.mp hv)
    have hfields : ∀ i ∈ image.instructions.getD [], loaderInstructionFieldsValid i = true := by
      rw [his]
      exact fun i hi => validateInstruction_fields (hvalid i hi)
    split at h
    · split at h
      next he => exact absurd (Prod.mk.inj h).1 (addRegion_error he)
      next =>
        cases h
        exact hfields
    · cases h
      exact hfields

/-- The instruction is a TBIAS whose second source is no register. -/
def StrayBias (i : Instruction) : Prop := i.opcode = .tbias ∧ 8 ≤ i.srcB

/-- An accepted instruction leaves the register file exactly if it is a stray TBIAS. -/
theorem execute_none_iff (m : Machine W) {i : Instruction}
    (h : loaderInstructionFieldsValid i = true) : execute host m i = none ↔ StrayBias i := by
  obtain ⟨op, dst, srcA, srcB, imm⟩ := i
  have hother : op ≠ .tbias → ¬ StrayBias ⟨op, dst, srcA, srcB, imm⟩ := fun hne hs => hne hs.1
  cases op <;> simp only [loaderInstructionFieldsValid, registerIndexValid, Bool.and_eq_true,
    decide_eq_true_eq, Bool.false_eq_true] at h
  case tnop | tjmp | thalt =>
    exact iff_of_false (Option.some_ne_none _) (hother (by decide))
  case tldi | trecv | tbrneg | tbrzero | tbrpos | tflush | tinv =>
    simp only [execute, withReg_of_lt h]
    exact iff_of_false (Option.some_ne_none _) (hother (by decide))
  case tmov | tsend | tld | tst | tsense =>
    simp only [execute, withReg_of_lt h.1, withReg_of_lt h.2]
    exact iff_of_false (Option.some_ne_none _) (hother (by decide))
  case tadd | tsub | tcmp | tsel | troute =>
    simp only [execute, withReg_of_lt h.1.1, withReg_of_lt h.1.2, withReg_of_lt h.2]
    exact iff_of_false (Option.some_ne_none _) (hother (by decide))
  case tsys =>
    simp only [execute, withReg_of_lt h.1.1, withReg_of_lt h.1.2]
    exact iff_of_false (Option.some_ne_none _) (hother (by decide))
  case tbias =>
    simp only [execute, withReg_of_lt h.1, withReg_of_lt h.2]
    by_cases hb : srcB < 8
    · rw [withReg_of_lt hb]
      exact iff_of_false (Option.some_ne_none _) fun hs => absurd hs.2 (by simpa using hb)
    · rw [withReg_of_le (Nat.le_of_not_lt hb)]
      exact iff_of_true rfl ⟨rfl, Nat.le_of_not_lt hb⟩

theorem vmStep_program {r : Err × Machine W} (h : vmStep host m = some r) :
    r.2.vm.program = m.vm.program := by
  unfold vmStep at h
  split at h
  · cases h
    rfl
  split at h
  · cases h
    rfl
  split at h
  · cases h
    rfl
  split at h
  · cases h
    rfl
  next i _ =>
    split at h
    · cases h
      rfl
    · by_cases hv : AddressReadable m.advance.vm i
      · exact (execute_sound (by simp [Machine.advance]) hv h).program
      · rw [execute_unreadable hv h]
        rfl

/-- The VM will execute the instruction: it has neither stopped nor left its program. -/
def Executes (vm : VmState) (i : Instruction) : Prop :=
  vm.status ≠ .halted ∧ vm.status ≠ .faulted ∧ fetch vm = some i

/-- A step leaves the register file exactly if it executes a stray TBIAS. -/
theorem vmStep_none_iff (hp : ∀ i ∈ m.vm.program.getD [], loaderInstructionFieldsValid i = true) :
    vmStep host m = none ↔ ∃ i, Executes m.vm i ∧ StrayBias i := by
  by_cases hlive : m.vm.status = .halted ∨ m.vm.status = .faulted ∨ fetch m.vm = none
  · have hsome : vmStep host m ≠ none := by
      unfold vmStep
      split_ifs
      · exact Option.some_ne_none _
      · exact Option.some_ne_none _
      · exact Option.some_ne_none _
      next hh hx =>
        rcases hlive with hc | hc | hc
        · exact absurd hc hh
        · exact absurd hc hx
        · rw [hc]
          exact Option.some_ne_none _
    refine iff_of_false hsome ?_
    rintro ⟨i, ⟨hh, hx, hf⟩, -⟩
    rcases hlive with hc | hc | hc
    · exact hh hc
    · exact hx hc
    · rw [hf] at hc
      cases hc
  obtain ⟨hh, hx, hf⟩ : m.vm.status ≠ .halted ∧ m.vm.status ≠ .faulted ∧ fetch m.vm ≠ none := by
    simpa only [not_or] using hlive
  obtain ⟨i, hi⟩ := Option.ne_none_iff_exists'.mp hf
  have hfields : loaderInstructionFieldsValid i = true := hp i (List.mem_of_getElem? hi)
  rw [vmStep_of_fetch host hi hh hx (validateRegisters_of_fields hfields),
    execute_none_iff _ hfields]
  constructor
  · exact fun hs => ⟨i, ⟨hh, hx, hi⟩, hs⟩
  · rintro ⟨j, ⟨-, -, hj⟩, hs⟩
    rw [hi] at hj
    cases hj
    exact hs

/-- In every run of an accepted program no step leaves the register file, exactly if no state
reached is about to execute a stray TBIAS. -/
theorem registers_safe_iff (host : Host W) {m m₀ : Machine W} {image : Image}
    (h : loadImage host m image = (Err.ok, m₀)) :
    (∀ ts m', Run (HostStep host) m₀ ts m' → ∀ mem world, vmStep host ⟨m'.vm, mem, world⟩ ≠ none) ↔
      ∀ ts m', Run (HostStep host) m₀ ts m' → ∀ i, Executes m'.vm i → i.opcode = .tbias →
        i.srcB < 8 := by
  have hp : ∀ ts m', Run (HostStep host) m₀ ts m' →
      ∀ i ∈ m'.vm.program.getD [], loaderInstructionFieldsValid i = true := by
    intro ts m' hrun
    refine hrun.invariant
      (fun m => ∀ i ∈ m.vm.program.getD [], loaderInstructionFieldsValid i = true) ?_ ?_
    · intro m t u hm hs
      rw [show u.vm.program = m.vm.program from vmStep_program hs]
      exact hm
    · exact loadImage_fields h
  constructor
  · intro hsafe ts m' hrun i hi hop
    by_contra hb
    have hnone : vmStep host m' = none := (vmStep_none_iff (hp ts m' hrun)).mpr
      ⟨i, hi, hop, Nat.le_of_not_lt hb⟩
    exact hsafe ts m' hrun m'.mem m'.world hnone
  · intro hbias ts m' hrun mem world hnone
    obtain ⟨i, hi, hop, hb⟩ :=
      (vmStep_none_iff (m := ⟨m'.vm, mem, world⟩) (hp ts m' hrun)).mp hnone
    exact absurd (hbias ts m' hrun i hi hop) (Nat.not_lt_of_le hb)

theorem registers_safe_iff_nop : nopLoaded.vm.program = some [⟨.tnop, 0, 0, 0, 0⟩] ∧
    ∀ ts m', Run (HostStep quietHost) nopLoaded ts m' →
      ∀ mem world, vmStep quietHost ⟨m'.vm, mem, world⟩ ≠ none := by
  refine ⟨rfl, (registers_safe_iff quietHost loadImage_nop).mpr fun ts m' hrun i hi hop => ?_⟩
  have hprogram : m'.vm.program = some [⟨.tnop, 0, 0, 0, 0⟩] :=
    hrun.invariant (fun m => m.vm.program = some [⟨.tnop, 0, 0, 0, 0⟩])
      (fun m t u hm hs => Eq.trans (vmStep_program hs) hm) rfl
  have hmem := List.mem_of_getElem? hi.2.2
  rw [hprogram, Option.getD_some, List.mem_singleton] at hmem
  rw [hmem] at hop
  cases hop

/-- One TBIAS whose bias register is the ninth of eight. -/
def strayBiasImage : Image where
  magic := imageMagic
  version := 1
  entryIp := 0
  instructions := some [⟨.tbias, 0, 0, 8, 0⟩]
  privateMemory := none
  privateMemoryCount := 0

def strayBiasLoaded : Machine Unit := (loadImage quietHost blankMachine strayBiasImage).2

/-- The image is accepted and its first step reads past the register file. -/
theorem stray_bias_leaves : validateImage strayBiasImage = Err.ok ∧
    ¬ ∀ ts m', Run (HostStep quietHost) strayBiasLoaded ts m' →
      ∀ mem world, vmStep quietHost ⟨m'.vm, mem, world⟩ ≠ none := by
  refine ⟨by decide, fun hsafe => ?_⟩
  exact hsafe [] strayBiasLoaded (.nil _) (fun _ => zeroWord) () rfl

end ReflexOS.Vm
