import ReflexOS.Runs
import ReflexOS.VmInterpreter

set_option autoImplicit false

/-!
# The cache is transparent

A plain machine reads and writes a flat memory of VM addresses. The VM behind its cache
takes the same steps, with the same registers, and a full flush makes the host memory
the plain one.
-/
namespace ReflexOS.Vm
open VmTernary VmMmu WriteBack Runs

variable {W : Type*}

/-- The memory instructions, with their registers. -/
inductive Access where
  | load (d a : Fin 8)
  | store (d a : Fin 8)
  | flush (a : Fin 8)
  | inv (a : Fin 8)
deriving DecidableEq, Repr

def accessOf (i : Instruction) : Option Access :=
  match i.opcode with
  | .tld => withReg i.dst fun d => withReg i.srcA fun a => some (.load d a)
  | .tst => withReg i.dst fun d => withReg i.srcA fun a => some (.store d a)
  | .tflush => withReg i.srcA fun a => some (.flush a)
  | .tinv => withReg i.srcA fun a => some (.inv a)
  | _ => none

def Access.addressReg : Access → Fin 8
  | .load _ a => a
  | .store d _ => d
  | .flush a => a
  | .inv a => a

def addressOf (w : Word18) : ℕ :=
  match word18ToInt32 w with
  | .ok v => u32 v
  | .error _ => 0

/-- What an access does to the registers, over a plain memory. -/
def Access.regs (regs : Fin 8 → Word18) (mem : ℕ → Word18) : Access → Fin 8 → Word18
  | .load d a => Function.update regs d (mem (addressOf (regs a)))
  | _ => regs

/-- What an access does to a plain memory. -/
def Access.mem (regs : Fin 8 → Word18) (mem : ℕ → Word18) : Access → ℕ → Word18
  | .store d a => Function.update mem (addressOf (regs d)) (regs a)
  | _ => mem

inductive Event where
  /-- The VM executes the instruction it stands at. -/
  | step
  | hostWrite (addr : ℕ) (w : Word18)
  | flushAll
  /-- Other instructions put the VM elsewhere, without touching memory. -/
  | other (registers : Fin 8 → Word18) (ip : ℕ)

structure Plain where
  vm : VmState
  mem : ℕ → Word18

def Plain.access (p : Plain) (acc : Access) : Plain :=
  { vm := { p.vm with
      status := .ready
      ip := (p.vm.ip + 1) % 2 ^ 32
      stepsExecuted := (p.vm.stepsExecuted + 1) % 2 ^ 32
      registers := acc.regs p.vm.registers p.mem }
    mem := acc.mem p.vm.registers p.mem }

def VmState.goTo (vm : VmState) (registers : Fin 8 → Word18) (ip : ℕ) : VmState :=
  { vm with registers := registers, ip := ip }

/-- The plain machine, where flushes mean nothing; every address is a mapped one. -/
inductive PlainStep : Plain → Event → Plain → Prop where
  | step {p : Plain} {i : Instruction} {acc : Access} {v : ℤ}
      (hf : fetch p.vm = some i) (ha : accessOf i = some acc)
      (hh : p.vm.status ≠ .halted) (hx : p.vm.status ≠ .faulted)
      (hv : word18ToInt32 (p.vm.registers acc.addressReg) = .ok v)
      (hm : u32 v ∈ Mapped p.vm.mmu) : PlainStep p .step (p.access acc)
  | hostWrite {p : Plain} {a : ℕ} {w : Word18} (hm : a ∈ Mapped p.vm.mmu) :
      PlainStep p (.hostWrite a w) { p with mem := Function.update p.mem a w }
  | flushAll {p : Plain} : PlainStep p .flushAll p
  | other {p : Plain} {registers : Fin 8 → Word18} {ip : ℕ} :
      PlainStep p (.other registers ip) { p with vm := p.vm.goTo registers ip }

def perform (host : Host W) (m : Machine W) : Event → Option (Err × Machine W)
  | .step => vmStep host m
  | .hostWrite a w => some (hostWrite m a w)
  | .flushAll => some (cacheFlushAll m)
  | .other registers ip => some (Err.ok, { m with vm := m.vm.goTo registers ip })

/-- The event happens, and what was called returns OK. -/
def Succeeds (host : Host W) (m : Machine W) (e : Event) (m' : Machine W) : Prop :=
  perform host m e = some (Err.ok, m')

def execAccess (m : Machine W) : Access → Err × Machine W
  | .load d a => execTld m d a
  | .store d a => execTst m d a
  | .flush a => execCacheOp cacheFlush m a
  | .inv a => execCacheOp cacheFlushInvalidate m a

theorem execute_access (host : Host W) {i : Instruction} {acc : Access}
    (ha : accessOf i = some acc) :
    validateRegisters i = true ∧
      ∀ m : Machine W, execute host m i = some (execAccess m acc) := by
  obtain ⟨op, dst, srcA, srcB, imm⟩ := i
  cases op <;> simp only [accessOf, reduceCtorEq] at ha
  case tld =>
    obtain ⟨hd, ha⟩ := withReg_eq_some ha
    obtain ⟨hs, ha⟩ := withReg_eq_some ha
    cases ha
    simp [validateRegisters, registerIndexValid, execute, withReg, hd, hs, execAccess]
  case tst =>
    obtain ⟨hd, ha⟩ := withReg_eq_some ha
    obtain ⟨hs, ha⟩ := withReg_eq_some ha
    cases ha
    simp [validateRegisters, registerIndexValid, execute, withReg, hd, hs, execAccess]
  case tflush =>
    obtain ⟨hs, ha⟩ := withReg_eq_some ha
    cases ha
    simp [validateRegisters, execute, withReg, hs, execAccess]
  case tinv =>
    obtain ⟨hs, ha⟩ := withReg_eq_some ha
    cases ha
    simp [validateRegisters, registerIndexValid, execute, withReg, hs, execAccess]

variable {m m' : Machine W} {c : Cache} {ref : ℕ → Word18}

theorem CacheCoherent.of_vm (h : CacheCoherent m c ref) (hc : m'.vm.cache = m.vm.cache)
    (hm : m'.vm.mmu = m.vm.mmu) (hmem : m'.mem = m.mem) : CacheCoherent m' c ref := by
  have hw : m'.word = m.word := by
    funext a
    simp [Machine.word, memGetRaw, hm, hmem]
  refine ⟨hc.trans h.attached, ?_, ?_⟩
  · rw [hm]
    exact h.disjoint
  · rw [hm, hw]
    exact h.coherent

theorem vmProceed_running (h : m.vm.status = .running) :
    vmProceed m = (Err.ok, m.setStatus .ready) := by
  simp [vmProceed, h]

/-- An access of the VM is the access of the plain memory its cache stands for. -/
theorem CacheCoherent.access (h : CacheCoherent m c ref) (hs : m.vm.status = .running)
    {acc : Access} {v : ℤ} (hv : word18ToInt32 (m.vm.registers acc.addressReg) = .ok v)
    (hm : u32 v ∈ Mapped m.vm.mmu) :
    ∃ m' c', execAccess m acc = (Err.ok, m') ∧
      CacheCoherent m' c' (acc.mem m.vm.registers ref) ∧
      m'.vm = { m.vm with
        status := .ready
        registers := acc.regs m.vm.registers ref
        cache := m'.vm.cache } := by
  have hcache : m.vm.cache.isSome = true := by simp [h.attached]
  have haddr : addressOf (m.vm.registers acc.addressReg) = u32 v := by simp [addressOf, hv]
  cases acc with
  | load d a =>
    obtain ⟨m₁, c₁, hload, hsame, hcoh⟩ := h.load hm
    simp only [Access.addressReg] at hv haddr
    have hstatus : (m₁.setReg d (ref (u32 v))).vm.status = .running := by
      rw [Machine.setReg, hsame.vm]
      exact hs
    refine ⟨(m₁.setReg d (ref (u32 v))).setStatus .ready, c₁, ?_, ?_, ?_⟩
    · simp only [execAccess, execTld, hv, vmLoad, hcache, if_true, hload]
      exact vmProceed_running hstatus
    · exact hcoh.of_vm rfl rfl rfl
    · simp only [Machine.setStatus, Machine.setReg, Access.regs, haddr]
      rw [hsame.vm]
  | store d a =>
    obtain ⟨m₁, c₁, hstore, hsame, hcoh⟩ := h.store hm (m.vm.registers a)
    simp only [Access.addressReg] at hv haddr
    have hstatus : m₁.vm.status = .running := by
      rw [hsame.vm]
      exact hs
    refine ⟨m₁.setStatus .ready, c₁, ?_, ?_, ?_⟩
    · simp only [execAccess, execTst, hv, vmStore, hcache, if_true, hstore]
      exact vmProceed_running hstatus
    · simp only [Access.mem, haddr]
      exact hcoh.of_vm rfl rfl rfl
    · simp only [Machine.setStatus, Access.regs]
      rw [hsame.vm]
  | flush a =>
    obtain ⟨m₁, c₁, hflush, hsame, hcoh, -⟩ := h.flush (u32 v)
    simp only [Access.addressReg] at hv
    have hstatus : m₁.vm.status = .running := by
      rw [hsame.vm]
      exact hs
    refine ⟨m₁.setStatus .ready, c₁, ?_, hcoh.of_vm rfl rfl rfl, ?_⟩
    · simp only [execAccess, execCacheOp, hv, hcache, if_true, hflush]
      exact vmProceed_running hstatus
    · simp only [Machine.setStatus, Access.regs]
      rw [hsame.vm]
  | inv a =>
    obtain ⟨m₁, c₁, hinv, hsame, hcoh⟩ := h.flushInvalidate (u32 v)
    simp only [Access.addressReg] at hv
    have hstatus : m₁.vm.status = .running := by
      rw [hsame.vm]
      exact hs
    refine ⟨m₁.setStatus .ready, c₁, ?_, hcoh.of_vm rfl rfl rfl, ?_⟩
    · simp only [execAccess, execCacheOp, hv, hcache, if_true, hinv]
      exact vmProceed_running hstatus
    · simp only [Machine.setStatus, Access.regs]
      rw [hsame.vm]

/-- The VM is the plain machine, but for the cache over its memory. -/
def Simulates (m : Machine W) (p : Plain) : Prop :=
  (∃ c, CacheCoherent m c p.mem) ∧ m.vm = { p.vm with cache := m.vm.cache }

theorem Simulates.step {p p' : Plain} {e : Event} (host : Host W) (h : Simulates m p)
    (hp : PlainStep p e p') : ∃ m', Succeeds host m e m' ∧ Simulates m' p' := by
  obtain ⟨⟨c, hcoh⟩, hvm⟩ := h
  cases hp with
  | @step i acc v hf ha hh hx hv hm =>
    obtain ⟨hvalid, hexec⟩ := execute_access host ha
    have hstep : vmStep host m = some (execAccess m.advance acc) := by
      rw [vmStep_of_fetch host ?_ ?_ ?_ hvalid, hexec]
      · rw [hvm]
        exact hf
      · rw [hvm]
        exact hh
      · rw [hvm]
        exact hx
    have hadv : CacheCoherent m.advance c p.mem := hcoh.of_vm rfl rfl rfl
    have hregs : m.advance.vm.registers = p.vm.registers := by
      rw [Machine.advance, hvm]
    obtain ⟨m', c', hacc, hcoh', hvm'⟩ := hadv.access rfl (by rwa [hregs])
      (by rw [Machine.advance, hvm]; exact hm)
    refine ⟨m', ?_, ⟨c', ?_⟩, ?_⟩
    · rw [Succeeds, perform, hstep, hacc]
    · rw [hregs] at hcoh'
      exact hcoh'
    · rw [hvm']
      simp only [Machine.advance, Plain.access]
      rw [hvm]
  | @hostWrite a w hm =>
    obtain ⟨m', c', hw, hsame, hcoh'⟩ := hcoh.hostWrite (by rw [hvm]; exact hm) w
    refine ⟨m', by rw [Succeeds, perform, hw], ⟨c', hcoh'⟩, ?_⟩
    rw [hsame.vm, hvm]
  | flushAll =>
    obtain ⟨m', c', hf, hsame, hcoh', -⟩ := hcoh.flushAll
    refine ⟨m', by rw [Succeeds, perform, hf], ⟨c', hcoh'⟩, ?_⟩
    rw [hsame.vm, hvm]
  | @other registers ip =>
    refine ⟨_, rfl, ⟨c, hcoh.of_vm rfl rfl rfl⟩, ?_⟩
    simp only [VmState.goTo]
    rw [hvm]

theorem PlainStep.mmu {p p' : Plain} {e : Event} (h : PlainStep p e p') :
    p'.vm.mmu = p.vm.mmu := by
  cases h <;> rfl

/-- From a fresh cache every run of the plain machine is a run of the VM in which every
call succeeds, with the same registers throughout; flushing then leaves its memory. -/
theorem cache_transparent (host : Host W) {m : Machine W} {c : Cache}
    (hc : m.vm.cache = some c) (hi : ∀ i, (c.sets i).state = .invalid)
    (hd : BuffersDisjoint m.vm.mmu) {es : List Event} {p : Plain}
    (hp : Run PlainStep ⟨m.vm, m.word⟩ es p) :
    ∃ m', Run (Succeeds host) m es m' ∧ m'.vm = { p.vm with cache := m'.vm.cache } ∧
      ∃ m'', cacheFlushAll m' = (Err.ok, m'') ∧
        ∀ a ∈ Mapped m.vm.mmu, m''.word a = p.mem a := by
  have hstart : Simulates m ⟨m.vm, m.word⟩ := ⟨⟨c, cacheCoherent_init hc hi hd⟩, rfl⟩
  have hstep : ∀ p e p' (m : Machine W), Simulates m p → PlainStep p e p' →
      ∃ m', Succeeds host m e m' ∧ Simulates m' p' := fun _ _ _ _ hs hp => hs.step host hp
  have hmmu : p.vm.mmu = m.vm.mmu :=
    hp.invariant (fun p => p.vm.mmu = m.vm.mmu) (fun _ _ _ he hp => hp.mmu.trans he) rfl
  obtain ⟨m', hrun, ⟨c', hcoh⟩, hvm⟩ :=
    hp.simulation (fun p m => Simulates m p) hstep hstart
  obtain ⟨m'', c'', hf, hsame, -, hmem⟩ := hcoh.flushAll
  refine ⟨m', hrun, hvm, m'', hf, ?_⟩
  rwa [hsame.mmu, hvm, hmmu] at hmem

/-- `TST r0, r1` then `TLD r2, r0` on four words at address 0, `r0` and `r1` zero and one. -/
def storeLoadMachine : Machine Unit where
  vm :=
    { status := .ready
      fault := .none
      ip := 0
      stepsExecuted := 0
      registers := Function.update (fun _ => zeroWord) 1 (Function.update zeroWord 0 1)
      program := some [⟨.tst, 0, 1, 0, 0⟩, ⟨.tld, 2, 0, 0, 0⟩]
      ownsProgram := false
      mmu := ⟨[⟨100, 4, .privateMem, 0, by decide⟩], by decide, List.pairwise_singleton _ _⟩
      ownedPrivateMemory := none
      ownedPrivateMemoryCount := 0
      nodeId := 0
      syscallHandler := none
      cache := some cacheInit
      routeManifest := fun _ => Goose.zeroRoute
      routeCount := 0 }
  mem := fun _ => zeroWord
  world := ()

def storeLoadEvents : List Event := [.step, .hostWrite 3 zeroWord, .step, .flushAll]

theorem storeLoad_plain : ∃ p : Plain,
    Run PlainStep ⟨storeLoadMachine.vm, storeLoadMachine.word⟩ storeLoadEvents p ∧
      p.vm.registers 2 = Function.update zeroWord 0 1 := by
  have hm : ∀ a < 4, a ∈ Mapped storeLoadMachine.vm.mmu := by
    intro a ha
    refine ⟨100 + (a - 0), ?_⟩
    simp [mmuTranslate, storeLoadMachine, Region.contains, ha]
  refine ⟨_, .cons (.step rfl rfl ?_ ?_ rfl (hm _ (by decide))) (.cons (.hostWrite (hm 3 ?_))
    (.cons (.step rfl rfl ?_ ?_ rfl (hm _ (by decide))) (.cons .flushAll (.nil _)))), rfl⟩
  all_goals decide

theorem cache_transparent_storeLoad :
    ∃ (vm : VmState) (m' : Machine Unit),
      Run (Succeeds quietHost) storeLoadMachine storeLoadEvents m' ∧
        m'.vm = { vm with cache := m'.vm.cache } ∧
        vm.registers 2 = Function.update zeroWord 0 1 := by
  obtain ⟨p, hp, hr⟩ := storeLoad_plain
  have hd : BuffersDisjoint storeLoadMachine.vm.mmu := List.pairwise_singleton _ _
  obtain ⟨m', hrun, hvm, -⟩ := cache_transparent quietHost rfl (fun _ => rfl) hd hp
  exact ⟨p.vm, m', hrun, hvm, hr⟩

end ReflexOS.Vm
