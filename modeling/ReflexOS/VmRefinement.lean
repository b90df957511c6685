import ReflexOS.VmRepresents

set_option autoImplicit false

/-!
# The VM implements the integer machine

Step for step, with the same results: ternary words, the memory map and the cache are one way
to hold integers. Behind a cache this needs two things of a program, as the source has them: a
store outside the map is not refused there, and a name is read past the cache.
-/
namespace ReflexOS.Vm
open VmTernary VmMmu Runs

variable {W : Type*}

/-- What a VM with a cache asks of an instruction. -/
def CacheSafe (m : Machine W) (i : Instruction) : Prop :=
  match i.opcode with
  | .tst => ∀ h : i.dst < 8, addressOf (m.vm.registers ⟨i.dst, h⟩) ∈ Mapped m.vm.mmu
  | .troute | .tsense => i.imm ≠ 0
  | _ => True

def CacheSafeStep (m : Machine W) : Prop := ∀ i, fetch m.vm = some i → CacheSafe m i

inductive Act where
  | step
  | hostWrite (addr : ℕ) (n : Number)
deriving DecidableEq

/-- The VM takes a step, or another party writes to its memory. -/
def Act.run (host : Host W) (m : Machine W) : Act → Option (Err × Machine W)
  | .step => vmStep host m
  | .hostWrite addr n => some (Vm.hostWrite m addr n.word)

def IntMachine.poke (a : IntMachine W) (addr : ℕ) (n : Number) : Err × IntMachine W :=
  if (a.memory addr).isSome then
    (Err.ok, { a with memory := Function.update a.memory addr (some n) })
  else (Err.notFound, a)

def Act.runInt (host : Host W) (a : IntMachine W) : Act → Option (Err × IntMachine W)
  | .step => a.step host
  | .hostWrite addr n => some (a.poke addr n)

def VmAct (host : Host W) (m : Machine W) (l : Act × Err) (m' : Machine W) : Prop :=
  l.1.run host m = some (l.2, m')

def IntAct (host : Host W) (a : IntMachine W) (l : Act × Err) (a' : IntMachine W) : Prop :=
  l.1.runInt host a = some (l.2, a')

variable {cached : Bool} {host : Host W} {m m' : Machine W} {a : IntMachine W}

theorem withReg_rel {α β : Type*} {R : α → β → Prop} {index : ℕ} {k : Fin 8 → Option α}
    {k' : Fin 8 → Option β} (h : ∀ hi : index < 8, Option.Rel R (k ⟨index, hi⟩) (k' ⟨index, hi⟩)) :
    Option.Rel R (withReg index k) (withReg index k') := by
  unfold withReg
  split
  next hi => exact h hi
  · exact .none

theorem withReg_agree {index : ℕ} {k : Fin 8 → Err × Machine W} {k' : Fin 8 → Err × IntMachine W}
    (h : ∀ r, Agree cached (k r) (k' r)) :
    Option.Rel (Agree cached) (withReg index fun r => some (k r))
      (withReg index fun r => some (k' r)) :=
  withReg_rel fun _ => .some (h _)

theorem withReg_agree₂ {i j : ℕ} {k : Fin 8 → Fin 8 → Err × Machine W}
    {k' : Fin 8 → Fin 8 → Err × IntMachine W} (h : ∀ r s, Agree cached (k r s) (k' r s)) :
    Option.Rel (Agree cached) (withReg i fun r => withReg j fun s => some (k r s))
      (withReg i fun r => withReg j fun s => some (k' r s)) :=
  withReg_rel fun _ => withReg_agree (h _)

theorem withReg_agree₃ {i j l : ℕ} {k : Fin 8 → Fin 8 → Fin 8 → Err × Machine W}
    {k' : Fin 8 → Fin 8 → Fin 8 → Err × IntMachine W}
    (h : ∀ r s t, Agree cached (k r s t) (k' r s t)) :
    Option.Rel (Agree cached)
      (withReg i fun r => withReg j fun s => withReg l fun t => some (k r s t))
      (withReg i fun r => withReg j fun s => withReg l fun t => some (k' r s t)) :=
  withReg_rel fun _ => withReg_agree₂ (h _)

theorem Represents.execute (hs : SoundHost host) (h : Represents cached m a) (i : Instruction)
    (hsafe : m.vm.cache ≠ none → CacheSafe m i) :
    Option.Rel (Agree cached) (Vm.execute host m i) (a.execute host i) := by
  unfold Vm.execute IntMachine.execute
  unfold CacheSafe at hsafe
  cases hop : i.opcode <;> simp only [hop] at hsafe ⊢
  case tnop => exact .some h.proceed
  case tldi => exact withReg_agree fun d => h.deliver d _ (fromInt32_delivers _)
  case tmov =>
    refine withReg_agree₂ fun d r => ?_
    rw [h.reg]
    exact (h.setReg d _).proceed
  case tld => exact withReg_agree₂ fun d r => h.load d r
  case tst =>
    refine withReg_rel fun hd => withReg_agree fun r => h.store _ r fun hc => ?_
    have haddr := hsafe hc hd
    rwa [addressOf, h.reg, toInt32_word] at haddr
  case tadd =>
    refine withReg_agree₃ fun d r s => ?_
    rw [h.reg, h.reg]
    exact h.deliver d _ (add_delivers _ _)
  case tsub =>
    refine withReg_agree₃ fun d r s => ?_
    rw [h.reg, h.reg]
    exact h.deliver d _ (subtract_delivers _ _)
  case tcmp => exact withReg_agree₃ fun d r s => h.compare d r s
  case tsel => exact withReg_agree₃ fun d r s => h.select d r s _
  case tjmp => exact .some (h.jump _)
  case tbrneg => exact withReg_agree fun r => h.branch r _ _
  case tbrzero => exact withReg_agree fun r => h.branch r _ _
  case tbrpos => exact withReg_agree fun r => h.branch r _ _
  case tsend => exact withReg_agree₂ fun d r => h.send d r _
  case trecv => exact withReg_agree fun d => h.recv hs d
  case tflush =>
    refine withReg_agree fun r => h.cacheOp r fun c addr hcoh => ?_
    obtain ⟨m', c', hrun, hsame, hcoh', -⟩ := hcoh.flush addr
    exact ⟨m', c', hrun, hsame, hcoh'⟩
  case tinv => exact withReg_agree fun r => h.cacheOp r fun c addr hcoh => hcoh.flushInvalidate addr
  case tsys => exact withReg_agree₂ fun d r => h.sys d r _
  case thalt => exact .some h.halt
  case troute => exact withReg_agree₃ fun d r s => h.route d r s hsafe
  case tbias => exact withReg_agree₃ fun d r s => h.bias d r s
  case tsense => exact withReg_agree₂ fun d r => h.sense hs d r hsafe
  case unknown => exact .some (h.fault _)

theorem validateState_past (h : fetch m.vm = none) :
    validateState m.vm =
      if m.vm.program.getD [] = [] then Err.invalidState else Fault.pcOutOfRange.code := by
  have hpast : m.vm.programLength ≤ m.vm.ip := by
    rw [VmState.programLength]
    exact List.getElem?_eq_none_iff.mp h
  unfold validateState
  by_cases hp : m.vm.program = none
  · rw [if_pos hp, hp]
    rfl
  · rw [if_neg hp, if_pos hpast]
    by_cases hnil : m.vm.program.getD [] = []
    · rw [if_pos hnil, if_pos (by rw [VmState.programLength, hnil]; rfl)]
    · rw [if_neg hnil, if_neg (by rwa [VmState.programLength, List.length_eq_zero_iff])]

theorem Represents.fetch (h : Represents cached m a) : Vm.fetch m.vm = a.program[a.pc]? := by
  rw [Vm.fetch, h.program, h.pc]

theorem Represents.live_step (hs : SoundHost host) (h : Represents cached m a)
    (hsafe : cached = true → CacheSafeStep m)
    {i : Instruction} (hf : Vm.fetch m.vm = some i) (hh : m.vm.status ≠ .halted)
    (hx : m.vm.status ≠ .faulted) :
    Option.Rel (Agree cached) (vmStep host m)
      (match a.condition with
        | .halted => some (Err.invalidState, a)
        | .faulted _ => some (Err.fail, a)
        | .live =>
          if validateRegisters i then a.advance.execute host i
          else some (a.fault .invalidRegister)) := by
  have hlive : m.vm.condition = .live := by
    unfold VmState.condition
    cases hstatus : m.vm.status with
    | ready => rfl
    | running => rfl
    | halted => exact absurd hstatus hh
    | faulted => exact absurd hstatus hx
  rw [← h.condition, hlive]
  simp only
  cases hv : validateRegisters i with
  | true =>
    rw [vmStep_of_fetch host hf hh hx hv, if_pos rfl]
    exact (h.advance hlive).execute hs i fun hc => hsafe (h.memory.of_cache hc) i hf
  | false =>
    obtain ⟨hip, -⟩ := (fetch_eq_some_iff _ _).mp hf
    have hstep : vmStep host m = some (vmFault (m.setStatus .running) .invalidRegister) := by
      simp [vmStep, validateState_ok hip, hh, hx, hf, hv]
    rw [hstep, if_neg (by decide)]
    exact .some ⟨rfl, { h with condition := rfl, memory := h.memory.of_vm rfl rfl rfl }⟩

/-- One step of the VM is one step of the integer machine. -/
theorem Represents.step (hs : SoundHost host) (h : Represents cached m a)
    (hsafe : cached = true → CacheSafeStep m) :
    Option.Rel (Agree cached) (vmStep host m) (a.step host) := by
  unfold IntMachine.step
  rw [← h.fetch]
  cases hf : Vm.fetch m.vm with
  | none =>
    have hpast := validateState_past hf
    have herr : validateState m.vm ≠ Err.ok := by
      rw [hpast]
      split <;> decide
    rw [vmStep, if_pos herr, hpast, h.program]
    exact .some ⟨rfl, h⟩
  | some i =>
    obtain ⟨hip, -⟩ := (fetch_eq_some_iff _ _).mp hf
    have hcond := h.condition
    simp only
    cases hstatus : m.vm.status with
    | halted =>
      rw [vmStep_halted host hip hstatus]
      rw [VmState.condition, hstatus] at hcond
      rw [← hcond]
      exact .some ⟨rfl, h⟩
    | faulted =>
      rw [vmStep_faulted host hip hstatus]
      rw [VmState.condition, hstatus] at hcond
      rw [← hcond]
      exact .some ⟨rfl, h⟩
    | ready => exact h.live_step hs hsafe hf (by rw [hstatus]; decide) (by rw [hstatus]; decide)
    | running => exact h.live_step hs hsafe hf (by rw [hstatus]; decide) (by rw [hstatus]; decide)

theorem hostWrite_unmapped {addr : ℕ} (ha : addr ∉ Mapped m.vm.mmu) (w : Word18) :
    hostWrite m addr w = (Err.notFound, m) := by
  rw [hostWrite, memSetRaw_unmapped ha]

theorem Represents.poke (h : Represents cached m a) (addr : ℕ) (n : Number) :
    Agree cached (Vm.hostWrite m addr n.word) (a.poke addr n) := by
  unfold IntMachine.poke
  split
  next ha =>
    obtain ⟨m', hwrite, hrep⟩ := h.hostWrite ha n
    rw [hwrite]
    exact ⟨rfl, hrep⟩
  next ha =>
    have hout : addr ∉ Mapped m.vm.mmu := by rwa [h.mapped]
    rw [hostWrite_unmapped hout]
    exact ⟨rfl, h⟩

theorem Represents.act (hs : SoundHost host) (h : Represents cached m a)
    (hsafe : cached = true → CacheSafeStep m)
    (act : Act) : Option.Rel (Agree cached) (act.run host m) (act.runInt host a) := by
  cases act with
  | step => exact h.step hs hsafe
  | hostWrite addr n => exact .some (h.poke addr n)

theorem rel_some {α β : Type*} {R : α → β → Prop} {o : Option α} {o' : Option β} {x : α}
    (h : Option.Rel R o o') (hx : o = some x) : ∃ y, o' = some y ∧ R x y := by
  cases h with
  | some hr =>
    cases hx
    exact ⟨_, rfl, hr⟩
  | none => cases hx

theorem rel_none_iff {α β : Type*} {R : α → β → Prop} {o : Option α} {o' : Option β}
    (h : Option.Rel R o o') : o = none ↔ o' = none := by
  cases h with
  | some _ => exact iff_of_false (Option.some_ne_none _) (Option.some_ne_none _)
  | none => exact iff_of_true rfl rfl

/-- The integers that the words of a machine stand for. -/
def Machine.integers (m : Machine W) : IntMachine W where
  condition := m.vm.condition
  pc := m.vm.ip
  registers r := .ofWord (m.vm.registers r)
  memory addr :=
    match mmuTranslate m.vm.mmu addr with
    | .ok p => some (.ofWord (m.mem p))
    | .error _ => none
  program := m.vm.program.getD []
  nodeId := m.vm.nodeId
  syscalls := m.vm.syscallHandler.isSome
  routes := m.vm.routeManifest
  routeCount := m.vm.routeCount
  world := m.world

/-- A machine before its first step: its words are valid and its cache is empty. -/
structure FreshWords (m : Machine W) : Prop where
  disjoint : BuffersDisjoint m.vm.mmu
  registers : ∀ r, word18IsValid (m.vm.registers r) = true
  memory : ∀ addr ∈ Mapped m.vm.mmu, word18IsValid (m.word addr) = true
  cache : ∀ c, m.vm.cache = some c → ∀ i, (c.sets i).state = .invalid

theorem FreshWords.represents (h : FreshWords m) :
    Represents m.vm.cache.isSome m m.integers := by
  have hmem : ∀ addr ∈ Mapped m.vm.mmu, m.word addr = m.integers.words addr := by
    intro addr ha
    have hvalid := h.memory addr ha
    obtain ⟨p, hp⟩ := ha
    have hword : m.word addr = m.mem p := by simp [Machine.word, memGetRaw, hp]
    rw [hword] at hvalid ⊢
    simp only [IntMachine.words, Machine.integers, hp, Option.getD_some]
    exact (word_ofWord hvalid).symm
  refine ⟨rfl, rfl, ?_, ?_, ⟨rfl, h.disjoint, fun _ => hmem, ?_⟩, rfl, rfl, rfl, rfl, rfl, rfl⟩
  · funext r
    exact (word_ofWord (h.registers r)).symm
  · intro addr
    change (∃ p, mmuTranslate m.vm.mmu addr = .ok p) ↔ _
    simp only [Machine.integers]
    cases mmuTranslate m.vm.mmu addr with
    | ok p => simp
    | error e => simp
  · intro c hc
    have hcoh := cacheCoherent_init hc (h.cache c hc) h.disjoint
    exact ⟨hcoh.attached, hcoh.disjoint, { hcoh.coherent with
      shows := fun addr ha => (hcoh.coherent.shows addr ha).trans (hmem addr ha) }⟩

/-- The steps of a VM; one with a cache takes only those that the cache is safe for. -/
def SafeVmAct (host : Host W) (cached : Bool) : Machine W → Act × Err → Machine W → Prop :=
  Guarded (fun m _ => cached = true → CacheSafeStep m) (VmAct host)

theorem Represents.run (hs : SoundHost host) (h : Represents cached m a) {ls : List (Act × Err)}
    (hrun : Run (SafeVmAct host cached) m ls m') :
    ∃ a', Run (IntAct host) a ls a' ∧ Represents cached m' a' := by
  refine hrun.simulation (Represents cached) ?_ h
  rintro m ⟨act, e⟩ m' a h ⟨hsafe, hact⟩
  obtain ⟨⟨e', a'⟩, hint, he, hrep⟩ := rel_some (h.act hs hsafe act) hact
  cases he
  exact ⟨a', hint, hrep⟩

/-- Every run of the VM is a run of the integer machine with the same results, and neither gets
stuck without the other. -/
theorem vm_implements_integers (hs : SoundHost host) (h : Represents cached m a)
    {ls : List (Act × Err)} (hrun : Run (SafeVmAct host cached) m ls m') :
    ∃ a', Run (IntAct host) a ls a' ∧ Represents cached m' a' ∧
      ((cached = true → CacheSafeStep m') → (vmStep host m' = none ↔ a'.step host = none)) := by
  obtain ⟨a', hint, hrep⟩ := h.run hs hrun
  exact ⟨a', hint, hrep, fun hsafe => rel_none_iff (hrep.step hs hsafe)⟩

theorem cacheSafeStep_of {i : Instruction} (hf : Vm.fetch m.vm = some i) (h : CacheSafe m i) :
    CacheSafeStep m := by
  intro j hj
  rw [hf] at hj
  cases hj
  exact h

def storeLoadActs : List (Act × Err) :=
  [(.step, Err.ok), (.hostWrite 3 .zero, Err.ok), (.step, Err.ok)]

theorem storeLoad_holds {addr : ℕ} (h : addr < 4) : addr ∈ Mapped storeLoadMachine.vm.mmu :=
  ⟨100 + (addr - 0), by simp [mmuTranslate, storeLoadMachine, Region.contains, h]⟩

theorem storeLoad_fresh : FreshWords storeLoadMachine where
  disjoint := List.pairwise_singleton _ _
  registers := by decide
  memory addr ha := by
    obtain ⟨p, hp⟩ := ha
    simp only [Machine.word, memGetRaw, hp]
    have hzero := word_valid .zero
    rw [word_zero] at hzero
    exact hzero
  cache c hc i := by
    cases hc
    rfl

theorem quietHost_sound : SoundHost quietHost where
  payload _ _ _ h := by cases h
  state _ _ := digit_zero

theorem vm_implements_integers_storeLoad :
    ∃ (m' : Machine Unit) (a' : IntMachine Unit),
      Run (SafeVmAct quietHost true) storeLoadMachine storeLoadActs m' ∧
        Run (IntAct quietHost) storeLoadMachine.integers storeLoadActs a' ∧
        Represents true m' a' := by
  have haddr : addressOf (storeLoadMachine.vm.registers 0) < 4 := by decide
  have hrun : ∃ m', Run (SafeVmAct quietHost true) storeLoadMachine storeLoadActs m' := by
    refine ⟨_, .cons ⟨fun _ => cacheSafeStep_of rfl fun _ => storeLoad_holds haddr, rfl⟩
      (.cons ⟨fun _ => cacheSafeStep_of rfl trivial, rfl⟩
        (.cons ⟨fun _ => cacheSafeStep_of rfl trivial, rfl⟩ (.nil _)))⟩
  obtain ⟨m', hrun⟩ := hrun
  obtain ⟨a', hint, hrep, -⟩ :=
    vm_implements_integers quietHost_sound storeLoad_fresh.represents hrun
  exact ⟨m', a', hrun, hint, hrep⟩

end ReflexOS.Vm
