import ReflexOS.Runs
import ReflexOS.VmLoader

set_option autoImplicit false

/-!
# Which failed steps leave a fault behind

A step that fails should leave the VM faulted with a code. Two kinds of step do not: one
whose instruction pointer has left the program, and one whose address register holds no
valid word.
-/
namespace ReflexOS.Vm
open VmTernary VmMmu Goose Runs

variable {W : Type*}

/-- The step went through, or it failed and the VM records the fault. -/
structure Sound (m : Machine W) (r : Err × Machine W) : Prop where
  program : r.2.vm.program = m.vm.program
  fate : r.1 = Err.ok ∧ r.2.vm.status ≠ .faulted ∨
    r.1 = Err.fail ∧ r.2.vm.status = .faulted ∧ r.2.vm.fault ≠ .none

variable {m m' : Machine W}

theorem sound_fault {f : Fault} (hp : m'.vm.program = m.vm.program) (hf : f ≠ .none) :
    Sound m (vmFault m' f) := ⟨hp, .inr ⟨rfl, rfl, hf⟩⟩

theorem sound_proceed (hp : m'.vm.program = m.vm.program) (hs : m'.vm.status ≠ .faulted) :
    Sound m (vmProceed m') := by
  unfold vmProceed
  split
  · exact ⟨hp, .inl ⟨rfl, by simp [Machine.setStatus]⟩⟩
  · exact ⟨hp, .inl ⟨rfl, hs⟩⟩

theorem sound_writeResult {d : Fin 8} {f : Fault} {r : Except Err Word18}
    (hp : m'.vm.program = m.vm.program) (hs : m'.vm.status ≠ .faulted) (hf : f ≠ .none) :
    Sound m (writeResult m' d f r) := by
  unfold writeResult
  split
  · exact sound_proceed hp hs
  · exact sound_fault hp hf

theorem setInt32_program (m : Machine W) (d : Fin 8) (v : ℤ) :
    (setInt32 m d v).vm.program = m.vm.program := by
  unfold setInt32
  split <;> rfl

theorem setInt32_status (m : Machine W) (d : Fin 8) (v : ℤ) :
    (setInt32 m d v).vm.status = m.vm.status := by
  unfold setInt32
  split <;> rfl

theorem sound_setInt32 {d : Fin 8} {v : ℤ} (hp : m'.vm.program = m.vm.program)
    (hs : m'.vm.status ≠ .faulted) : Sound m (vmProceed (setInt32 m' d v)) :=
  sound_proceed ((setInt32_program _ _ _).trans hp) (by rwa [setInt32_status])

theorem SameButCache.program (h : SameButCache m m') : m'.vm.program = m.vm.program := by
  rw [h.vm]

theorem SameButCache.status (h : SameButCache m m') : m'.vm.status = m.vm.status := by
  rw [h.vm]

theorem vmJump_sound (hs : m.vm.status ≠ .faulted) (target : ℤ) :
    Sound m (vmJump m target) := by
  unfold vmJump
  split
  · exact sound_fault rfl (by decide)
  · exact ⟨rfl, .inl ⟨rfl, hs⟩⟩

theorem execTcmp_sound (hs : m.vm.status ≠ .faulted) (d a b : Fin 8) :
    Sound m (execTcmp m d a b) := by
  unfold execTcmp
  split
  · exact sound_fault rfl (by decide)
  · exact sound_proceed rfl hs

theorem execBranch_sound (hs : m.vm.status ≠ .faulted) (a : Fin 8) (sign imm : ℤ) :
    Sound m (execBranch m a sign imm) := by
  unfold execBranch
  split
  · exact vmJump_sound hs imm
  · exact sound_proceed rfl hs

theorem execTrecv_sound (host : Host W) (hs : m.vm.status ≠ .faulted) (d : Fin 8) :
    Sound m (execTrecv host m d) := by
  unfold execTrecv
  dsimp only
  split
  · exact sound_proceed rfl hs
  · split
    · exact sound_proceed rfl hs
    · exact sound_proceed rfl hs

theorem execTsys_sound (host : Host W) (hs : m.vm.status ≠ .faulted) (d a : Fin 8) (imm : ℤ) :
    Sound m (execTsys host m d a imm) := by
  unfold execTsys
  split
  · exact sound_fault rfl (by decide)
  · exact sound_writeResult rfl hs (by decide)

theorem execTroute_sound (host : Host W) (hs : m.vm.status ≠ .faulted) (d a b : Fin 8)
    (imm : ℤ) : Sound m (execTroute host m d a b imm) := by
  unfold execTroute
  dsimp only
  split
  · split
    · exact sound_setInt32 rfl hs
    · exact sound_setInt32 rfl hs
  · exact sound_setInt32 rfl hs

theorem execTbias_sound (host : Host W) (hs : m.vm.status ≠ .faulted) (d a b : Fin 8) :
    Sound m (execTbias host m d a b) := by
  unfold execTbias
  dsimp only
  split
  · exact sound_setInt32 rfl hs
  · exact sound_setInt32 rfl hs

theorem vmLoad_same (m : Machine W) (a : ℕ) : SameButCache m (vmLoad m a).2 := by
  unfold vmLoad
  split
  · exact cacheLoad_same m a
  · exact .refl m

theorem vmStore_same (m : Machine W) (a : ℕ) (w : Word18) : SameButCache m (vmStore m a w).2 := by
  unfold vmStore
  split
  · exact cacheStore_same m a w
  · split
    · exact .refl m
    next hset => exact memSetRaw_same hset

/-- The register an instruction takes a host number from, and whose error it returns. -/
def addressRegister (i : Instruction) : Option ℕ :=
  match i.opcode with
  | .tsend | .tst => some i.dst
  | .tld | .tflush | .tinv => some i.srcA
  | _ => none

def AddressReadable (vm : VmState) (i : Instruction) : Prop :=
  ∀ r, addressRegister i = some r → ∀ h : r < 8, word18IsValid (vm.registers ⟨r, h⟩) = true

section AddressOperations

variable {r : Fin 8}

theorem execTsend_sound (host : Host W) (hs : m.vm.status ≠ .faulted)
    (hv : word18IsValid (m.vm.registers r) = true) (a : Fin 8) (imm : ℤ) :
    Sound m (execTsend host m r a imm) := by
  unfold execTsend
  rw [word18ToInt32_valid hv]
  dsimp only
  split
  · exact sound_fault rfl (by decide)
  · split
    · exact sound_proceed rfl hs
    · exact sound_fault rfl (by decide)

theorem execTld_sound (hs : m.vm.status ≠ .faulted)
    (hv : word18IsValid (m.vm.registers r) = true) (d : Fin 8) : Sound m (execTld m d r) := by
  have hsame := vmLoad_same m (u32 (tritsValue (m.vm.registers r).toList 1))
  unfold execTld
  rw [word18ToInt32_valid hv]
  dsimp only
  split
  next h =>
    rw [h] at hsame
    exact sound_fault hsame.program (by decide)
  next h =>
    rw [h] at hsame
    exact sound_proceed hsame.program (by rw [← hsame.status] at hs; exact hs)

theorem execTst_sound (hs : m.vm.status ≠ .faulted)
    (hv : word18IsValid (m.vm.registers r) = true) (a : Fin 8) : Sound m (execTst m r a) := by
  have hsame := vmStore_same m (u32 (tritsValue (m.vm.registers r).toList 1)) (m.vm.registers a)
  unfold execTst
  rw [word18ToInt32_valid hv]
  dsimp only
  split
  · exact sound_proceed hsame.program (by rwa [hsame.status])
  · exact sound_fault hsame.program (by decide)

theorem execCacheOp_sound {op : Machine W → ℕ → Err × Machine W}
    (hop : ∀ m a, SameButCache m (op m a).2) (hs : m.vm.status ≠ .faulted)
    (hv : word18IsValid (m.vm.registers r) = true) : Sound m (execCacheOp op m r) := by
  unfold execCacheOp
  rw [word18ToInt32_valid hv]
  dsimp only
  split
  · exact sound_proceed (hop m _).program (by rwa [(hop m _).status])
  · exact sound_proceed rfl hs

variable (hv : word18IsValid (m.vm.registers r) = false)
include hv

theorem execTsend_unreadable (host : Host W) (a : Fin 8) (imm : ℤ) :
    execTsend host m r a imm = (Err.invalidArg, m) := by
  rw [execTsend, word18ToInt32_invalid hv]

theorem execTld_unreadable (d : Fin 8) : execTld m d r = (Err.invalidArg, m) := by
  rw [execTld, word18ToInt32_invalid hv]

theorem execTst_unreadable (a : Fin 8) : execTst m r a = (Err.invalidArg, m) := by
  rw [execTst, word18ToInt32_invalid hv]

theorem execCacheOp_unreadable (op : Machine W → ℕ → Err × Machine W) :
    execCacheOp op m r = (Err.invalidArg, m) := by
  rw [execCacheOp, word18ToInt32_invalid hv]

end AddressOperations

theorem execute_sound {host : Host W} {i : Instruction} {r : Err × Machine W}
    (hs : m.vm.status ≠ .faulted) (hv : AddressReadable m.vm i)
    (h : execute host m i = some r) : Sound m r := by
  obtain ⟨op, dst, srcA, srcB, imm⟩ := i
  cases op <;> simp only [execute] at h
  case tnop =>
    cases h
    exact sound_proceed rfl hs
  case tldi =>
    obtain ⟨_, h⟩ := withReg_eq_some h
    cases h
    exact sound_writeResult rfl hs (by decide)
  case tmov =>
    obtain ⟨_, h⟩ := withReg_eq_some h
    obtain ⟨_, h⟩ := withReg_eq_some h
    cases h
    exact sound_proceed rfl hs
  case tadd | tsub | tcmp | tsel | troute | tbias =>
    obtain ⟨_, h⟩ := withReg_eq_some h
    obtain ⟨_, h⟩ := withReg_eq_some h
    obtain ⟨_, h⟩ := withReg_eq_some h
    cases h
    first
    | exact sound_writeResult rfl hs (by decide)
    | exact execTcmp_sound hs _ _ _
    | exact execTroute_sound host hs _ _ _ _
    | exact execTbias_sound host hs _ _ _
  case tjmp =>
    cases h
    exact vmJump_sound hs _
  case tbrneg | tbrzero | tbrpos =>
    obtain ⟨_, h⟩ := withReg_eq_some h
    cases h
    exact execBranch_sound hs _ _ _
  case tsend =>
    obtain ⟨hd, h⟩ := withReg_eq_some h
    obtain ⟨_, h⟩ := withReg_eq_some h
    cases h
    exact execTsend_sound host hs (hv _ rfl hd) _ _
  case trecv =>
    obtain ⟨_, h⟩ := withReg_eq_some h
    cases h
    exact execTrecv_sound host hs _
  case tsys =>
    obtain ⟨_, h⟩ := withReg_eq_some h
    obtain ⟨_, h⟩ := withReg_eq_some h
    cases h
    exact execTsys_sound host hs _ _ _
  case thalt =>
    cases h
    exact sound_proceed rfl (by simp [Machine.setStatus])
  case tld =>
    obtain ⟨_, h⟩ := withReg_eq_some h
    obtain ⟨ha, h⟩ := withReg_eq_some h
    cases h
    exact execTld_sound hs (hv _ rfl ha) _
  case tst =>
    obtain ⟨hd, h⟩ := withReg_eq_some h
    obtain ⟨_, h⟩ := withReg_eq_some h
    cases h
    exact execTst_sound hs (hv _ rfl hd) _
  case tflush =>
    obtain ⟨ha, h⟩ := withReg_eq_some h
    cases h
    exact execCacheOp_sound cacheFlush_same hs (hv _ rfl ha)
  case tinv =>
    obtain ⟨ha, h⟩ := withReg_eq_some h
    cases h
    exact execCacheOp_sound cacheFlushInvalidate_same hs (hv _ rfl ha)
  case tsense =>
    obtain ⟨_, h⟩ := withReg_eq_some h
    obtain ⟨_, h⟩ := withReg_eq_some h
    cases h
    exact sound_proceed rfl hs
  case unknown =>
    cases h
    exact sound_fault rfl (by decide)

/-- Without a readable address the step stops half way, with no fault. -/
theorem execute_unreadable {host : Host W} {i : Instruction} {r : Err × Machine W}
    (hv : ¬ AddressReadable m.vm i) (h : execute host m i = some r) : r = (Err.invalidArg, m) := by
  simp only [AddressReadable, not_forall, Bool.not_eq_true] at hv
  obtain ⟨reg, hreg, hlt, hv⟩ := hv
  obtain ⟨op, dst, srcA, srcB, imm⟩ := i
  cases op <;> simp only [addressRegister, reduceCtorEq, Option.some.injEq] at hreg
  all_goals
    subst hreg
    simp only [execute] at h
  case tsend =>
    obtain ⟨_, h⟩ := withReg_eq_some h
    obtain ⟨_, h⟩ := withReg_eq_some h
    rw [execTsend_unreadable hv] at h
    exact (Option.some.inj h).symm
  case tld =>
    obtain ⟨_, h⟩ := withReg_eq_some h
    obtain ⟨_, h⟩ := withReg_eq_some h
    rw [execTld_unreadable hv] at h
    exact (Option.some.inj h).symm
  case tst =>
    obtain ⟨_, h⟩ := withReg_eq_some h
    obtain ⟨_, h⟩ := withReg_eq_some h
    rw [execTst_unreadable hv] at h
    exact (Option.some.inj h).symm
  case tflush | tinv =>
    obtain ⟨_, h⟩ := withReg_eq_some h
    rw [execCacheOp_unreadable hv] at h
    exact (Option.some.inj h).symm

/-- An error is a recorded fault, unless the VM had already halted. -/
def Reports (vm : VmState) (e : Err) (vm' : VmState) : Prop :=
  e ≠ Err.ok → vm.status = .halted ∨ vm'.status = .faulted ∧ vm'.fault ≠ .none

/-- The VM has stopped, or it stands at an instruction whose address register is readable. -/
def Steady (vm : VmState) : Prop :=
  vm.status = .halted ∨ vm.status = .faulted ∨
    ∃ i, fetch vm = some i ∧ AddressReadable vm i

/-- What every VM that was loaded keeps. -/
structure Kept (vm : VmState) : Prop where
  nonempty : 0 < vm.programLength
  checked : ∀ i ∈ vm.program.getD [], validateRegisters i = true
  faulted : vm.status = .faulted → vm.fault ≠ .none

theorem Kept.of_loaded {vm : VmState} (h : Loaded vm) : Kept vm :=
  ⟨h.nonempty, h.checked, by simp [h.status]⟩

theorem Kept.of_program {vm vm' : VmState} (h : Kept vm) (hp : vm'.program = vm.program)
    (hf : vm'.status = .faulted → vm'.fault ≠ .none) : Kept vm' := by
  refine ⟨?_, ?_, hf⟩
  · rw [VmState.programLength, hp]
    exact h.nonempty
  · rw [hp]
    exact h.checked

/-- A stopped VM does not move, and its failure counts as reported. -/
theorem reports_stopped {vm : VmState} (h : Kept vm) {e : Err}
    (hs : vm.status = .halted ∨ vm.status = .faulted) : Reports vm e vm := by
  intro _
  rcases hs with hh | hx
  · exact .inl hh
  · exact .inr ⟨hx, h.faulted hx⟩

theorem Kept.step_past_end {vm : VmState} {e : Err} (h : Kept vm)
    (hip : vm.programLength ≤ vm.ip) (he : e ≠ Err.ok) : Reports vm e vm ↔ Steady vm := by
  have hfetch : fetch vm = none := List.getElem?_eq_none hip
  constructor
  · intro hrep
    rcases hrep he with hh | ⟨hf, -⟩
    · exact .inl hh
    · exact .inr (.inl hf)
  · rintro (hh | hx | ⟨i, hi, -⟩)
    · exact reports_stopped h (.inl hh)
    · exact reports_stopped h (.inr hx)
    · rw [hfetch] at hi
      cases hi

theorem Kept.step_live {host : Host W} {i : Instruction} {e : Err} (h : Kept m.vm)
    (hf : fetch m.vm = some i) (hh : m.vm.status ≠ .halted) (hx : m.vm.status ≠ .faulted)
    (hs : execute host m.advance i = some (e, m')) :
    Kept m'.vm ∧ (Reports m.vm e m'.vm ↔ Steady m.vm) := by
  have hrun : m.advance.vm.status = .running := rfl
  by_cases hv : AddressReadable m.vm i
  · obtain ⟨hp, hfate⟩ := execute_sound (m := m.advance) (by rw [hrun]; decide) hv hs
    refine ⟨h.of_program hp ?_, fun _ => .inr (.inr ⟨i, hf, hv⟩), fun _ hne => ?_⟩
    · rcases hfate with ⟨-, hne⟩ | ⟨-, -, hfault⟩
      · exact fun hc => absurd hc hne
      · exact fun _ => hfault
    · rcases hfate with ⟨hok, -⟩ | ⟨-, hfault⟩
      · exact absurd hok hne
      · exact .inr hfault
  · have hr := execute_unreadable (m := m.advance) hv hs
    obtain ⟨rfl, rfl⟩ := Prod.mk.inj hr
    refine ⟨h.of_program rfl (by simp [hrun]), ?_, ?_⟩
    · intro hrep
      rcases hrep (by decide) with hc | ⟨hc, -⟩
      · exact absurd hc hh
      · rw [hrun] at hc
        cases hc
    · rintro (hc | hc | ⟨j, hj, hv'⟩)
      · exact absurd hc hh
      · exact absurd hc hx
      · rw [hf] at hj
        cases hj
        exact absurd hv' hv

theorem Kept.step {host : Host W} {e : Err} (h : Kept m.vm)
    (hs : vmStep host m = some (e, m')) :
    Kept m'.vm ∧ (Reports m.vm e m'.vm ↔ Steady m.vm) := by
  rcases Nat.lt_or_ge m.vm.ip m.vm.programLength with hip | hip
  · by_cases hh : m.vm.status = .halted
    · rw [vmStep_halted host hip hh] at hs
      cases hs
      exact ⟨h, fun _ => .inl hh, fun _ => reports_stopped h (.inl hh)⟩
    by_cases hx : m.vm.status = .faulted
    · rw [vmStep_faulted host hip hx] at hs
      cases hs
      exact ⟨h, fun _ => .inr (.inl hx), fun _ => reports_stopped h (.inr hx)⟩
    have hf := (fetch_eq_some_iff m.vm _).mpr ⟨hip, rfl⟩
    have hreg := h.checked _ (List.get_mem (m.vm.program.getD []) ⟨m.vm.ip, hip⟩)
    rw [vmStep_of_fetch host hf hh hx hreg] at hs
    exact h.step_live hf hh hx hs
  · rw [vmStep_past_end host h.nonempty hip] at hs
    cases hs
    exact ⟨h, h.step_past_end hip (by decide)⟩

/-- Between two steps the host may change its own state and the words of the VM. -/
structure Turn (W : Type*) where
  world : W
  mem : ℕ → Word18
  result : Err

def HostStep (host : Host W) (m : Machine W) (t : Turn W) (m' : Machine W) : Prop :=
  vmStep host ⟨m.vm, t.mem, t.world⟩ = some (t.result, m')

theorem HostStep.kept {host : Host W} {t : Turn W} (h : Kept m.vm) (hs : HostStep host m t m') :
    Kept m'.vm ∧ (Reports m.vm t.result m'.vm ↔ Steady m.vm) :=
  Kept.step (m := ⟨m.vm, t.mem, t.world⟩) h hs

/-- In a run from a loaded state every error is a recorded fault exactly if every step
starts stopped, or inside the program with a readable address. -/
theorem errors_reported_iff (host : Host W) {m m₀ : Machine W} (image : Image)
    (buffer : List UInt8)
    (h : loadImage host m image = (Err.ok, m₀) ∨ loadBinary host m buffer = (Err.ok, m₀))
    (ts : List (Turn W)) (m' : Machine W) :
    Always (HostStep host) (fun m t m' => Reports m.vm t.result m'.vm) m₀ ts m' ↔
      Always (HostStep host) (fun m _ _ => Steady m.vm) m₀ ts m' := by
  have hk : Kept m₀.vm := by
    rcases h with h | h
    · exact .of_loaded (loadImage_loaded h)
    · exact .of_loaded (loadBinary_loaded h)
  have hp : ∀ (m : Machine W) t m', Kept m.vm → HostStep host m t m' → Kept m'.vm :=
    fun _ _ _ hk hs => (hs.kept hk).1
  constructor
  · exact fun ha => ha.congr (fun m => Kept m.vm) hp (fun _ _ _ hk hs => (hs.kept hk).2.mp) hk
  · exact fun ha => ha.congr (fun m => Kept m.vm) hp (fun _ _ _ hk hs => (hs.kept hk).2.mpr) hk

/-- One `TNOP` and nothing after it. -/
def nopImage : Image where
  magic := imageMagic
  version := 2
  entryIp := 0
  instructions := some [⟨.tnop, 0, 0, 0, 0⟩]
  privateMemory := none
  privateMemoryCount := 0

def blankMachine : Machine Unit where
  vm :=
    { status := .ready
      fault := .none
      ip := 0
      stepsExecuted := 0
      registers := fun _ => zeroWord
      program := none
      ownsProgram := false
      mmu := mmuInit
      ownedPrivateMemory := none
      ownedPrivateMemoryCount := 0
      nodeId := 0
      syscallHandler := none
      cache := none
      routeManifest := fun _ => zeroRoute
      routeCount := 0 }
  mem := fun _ => zeroWord
  world := ()

def nopLoaded : Machine Unit := (loadImage quietHost blankMachine nopImage).2

/-- The VM after its only instruction, past the end of the program. -/
def nopDone : Machine Unit :=
  { nopLoaded with vm := { nopLoaded.vm with ip := 1, stepsExecuted := 1 } }

theorem loadImage_nop : loadImage quietHost blankMachine nopImage = (Err.ok, nopLoaded) := rfl

def idleTurn (e : Err) : Turn Unit := ⟨(), fun _ => zeroWord, e⟩

theorem nop_step : HostStep quietHost nopLoaded (idleTurn Err.ok) nopDone := rfl

theorem nop_steady : Steady nopLoaded.vm :=
  .inr (.inr ⟨⟨.tnop, 0, 0, 0, 0⟩, rfl, fun _ h => by cases h⟩)

theorem errors_reported_iff_nop :
    Always (HostStep quietHost) (fun m t m' => Reports m.vm t.result m'.vm) nopLoaded
      [idleTurn Err.ok] nopDone :=
  (errors_reported_iff quietHost nopImage [] (.inl loadImage_nop) _ _).mpr
    (.cons nop_step nop_steady (.nil _))

/-- The second step fails on a VM that stays READY, with no fault recorded. -/
theorem nop_past_end_unreported :
    ¬ ∀ (m m₀ m' : Machine Unit) (image : Image) (ts : List (Turn Unit)),
      loadImage quietHost m image = (Err.ok, m₀) → Run (HostStep quietHost) m₀ ts m' →
        Always (HostStep quietHost) (fun m t m' => Reports m.vm t.result m'.vm) m₀ ts m' := by
  intro h
  have hstep : HostStep quietHost nopDone (idleTurn Fault.pcOutOfRange.code) nopDone := rfl
  have halways := h _ _ _ _ _ loadImage_nop (.cons nop_step (.single hstep))
  cases halways with
  | cons h₁ _ t =>
    cases nop_step.symm.trans h₁
    cases t with
    | cons h₂ hr _ =>
      rcases hr (by decide) with hh | ⟨hf, -⟩
      · cases hh
      · cases hstep.symm.trans h₂
        cases hf

end ReflexOS.Vm
