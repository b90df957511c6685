import ReflexOS.VmIntegers
import ReflexOS.VmCacheRefusal

set_option autoImplicit false

/-!
# What a VM stands for

The relation between a VM and an integer machine, and one lemma for each operation of the two:
related machines give the same result and stay related.
-/
namespace ReflexOS.Vm
open VmTernary VmMmu Goose WriteBack Runs

variable {W : Type*}

/-- A program sees the words `ref` at the mapped addresses, through the cache if there is one. -/
structure Shows (cached : Bool) (m : Machine W) (ref : ℕ → Word18) : Prop where
  attached : m.vm.cache.isSome = cached
  disjoint : BuffersDisjoint m.vm.mmu
  plain : m.vm.cache = none → ∀ addr ∈ Mapped m.vm.mmu, m.word addr = ref addr
  coherent : ∀ c, m.vm.cache = some c → CacheCoherent m c ref

def VmState.condition (vm : VmState) : Condition :=
  match vm.status with
  | .ready | .running => .live
  | .halted => .halted
  | .faulted => .faulted vm.fault

def IntMachine.words (a : IntMachine W) (addr : ℕ) : Word18 := ((a.memory addr).getD .zero).word

structure Represents (cached : Bool) (m : Machine W) (a : IntMachine W) : Prop where
  condition : m.vm.condition = a.condition
  pc : m.vm.ip = a.pc
  registers : m.vm.registers = fun r => (a.registers r).word
  mapped : ∀ addr, addr ∈ Mapped m.vm.mmu ↔ (a.memory addr).isSome = true
  memory : Shows cached m a.words
  program : m.vm.program.getD [] = a.program
  nodeId : m.vm.nodeId = a.nodeId
  syscalls : m.vm.syscallHandler.isSome = a.syscalls
  routes : m.vm.routeManifest = a.routes
  routeCount : m.vm.routeCount = a.routeCount
  world : m.world = a.world

/-- Payloads are words and the states of cells are trits. -/
structure SoundHost (host : Host W) : Prop where
  payload : ∀ id w msg, (host.fabricRecv id w).1 = .ok msg → word18IsValid msg.payload = true
  state : ∀ c w, BalancedTernary.Digit (host.cellAt c w).state

/-- The same result, and machines that still stand for each other. -/
def Agree (cached : Bool) (r : Err × Machine W) (r' : Err × IntMachine W) : Prop :=
  r.1 = r'.1 ∧ Represents cached r.2 r'.2

section Memory

variable {cached : Bool} {m m' : Machine W} {ref : ℕ → Word18} {addr : ℕ}

theorem memGetRaw_unmapped (h : addr ∉ Mapped m.vm.mmu) :
    memGetRaw m addr = .error Err.notFound := by
  rw [memGetRaw, translate_unmapped h]

/-- A coherent cache holds no line of a stray address, so a load of one misses and fails. -/
theorem CacheCoherent.load_unmapped {c : Cache} (h : CacheCoherent m c ref)
    (ha : addr ∉ Mapped m.vm.mmu) :
    ∃ e m' c', cacheLoad m addr = (.error e, m') ∧ SameButCache m m' ∧
      CacheCoherent m' c' ref := by
  simp only [cacheLoad, h.attached]
  split
  next hhit => exact absurd (hhit.2 ▸ h.coherent.tagged _ hhit.1) ha
  split
  next hdirty =>
    obtain ⟨m₁, hset, hsame, hcoh, -⟩ := h.evict hdirty
    have ha' : addr ∉ Mapped m₁.vm.mmu := by rwa [hsame.mmu]
    rw [hset]
    simp only [cacheFetch, memGetRaw_unmapped ha']
    exact ⟨_, _, _, rfl, hsame.setCache _, hcoh.setCache hcoh.coherent⟩
  next hclean =>
    simp only [cacheFetch, memGetRaw_unmapped ha]
    exact ⟨_, _, _, rfl, (SameButCache.refl m).setCache _, h.setCache h.coherent⟩

theorem CacheCoherent.shows {c : Cache} (h : CacheCoherent m c ref) : Shows true m ref where
  attached := by rw [h.attached, Option.isSome_some]
  disjoint := h.disjoint
  plain hnone := by
    rw [h.attached] at hnone
    cases hnone
  coherent c' hc := by
    rw [h.attached] at hc
    cases hc
    exact h

theorem Shows.of_vm (h : Shows cached m ref) (hc : m'.vm.cache = m.vm.cache)
    (hm : m'.vm.mmu = m.vm.mmu) (hmem : m'.mem = m.mem) : Shows cached m' ref where
  attached := hc ▸ h.attached
  disjoint := hm ▸ h.disjoint
  plain hnone addr ha := by
    rw [Machine.word, memGetRaw, hm, hmem]
    exact h.plain (hc ▸ hnone) addr (hm ▸ ha)
  coherent c hc' := (h.coherent c (hc ▸ hc')).of_vm hc hm hmem

/-- Without a cache memory itself is seen; with one, what the cache stands for. -/
theorem Shows.cases (h : Shows cached m ref) :
    cached = false ∧ m.vm.cache = none ∨ cached = true ∧ ∃ c, CacheCoherent m c ref := by
  have hattached := h.attached
  cases hc : m.vm.cache with
  | none =>
    rw [hc] at hattached
    exact .inl ⟨hattached.symm, rfl⟩
  | some c =>
    rw [hc] at hattached
    exact .inr ⟨hattached.symm, c, h.coherent c hc⟩

theorem Shows.of_cache (h : Shows cached m ref) (hc : m.vm.cache ≠ none) : cached = true := by
  rw [← h.attached]
  exact Option.isSome_iff_ne_none.mpr hc

theorem Shows.get (h : Shows cached m ref) (hn : m.vm.cache = none)
    (ha : addr ∈ Mapped m.vm.mmu) : memGetRaw m addr = .ok (ref addr) := by
  rw [memGetRaw_mapped ha, h.plain hn addr ha]

theorem Shows.load (h : Shows cached m ref) (ha : addr ∈ Mapped m.vm.mmu) :
    ∃ m', vmLoad m addr = (.ok (ref addr), m') ∧ SameButCache m m' ∧ Shows cached m' ref := by
  rcases h.cases with ⟨-, hn⟩ | ⟨rfl, c, hcoh⟩
  · exact ⟨m, by rw [vmLoad, hn, h.get hn ha]; rfl, .refl m, h⟩
  · obtain ⟨m', c', hload, hsame, hcoh'⟩ := hcoh.load ha
    exact ⟨m', by rw [vmLoad, hcoh.attached, hload]; rfl, hsame, hcoh'.shows⟩

theorem Shows.load_unmapped (h : Shows cached m ref) (ha : addr ∉ Mapped m.vm.mmu) :
    ∃ e m', vmLoad m addr = (.error e, m') ∧ SameButCache m m' ∧ Shows cached m' ref := by
  rcases h.cases with ⟨-, hn⟩ | ⟨rfl, c, hcoh⟩
  · exact ⟨_, m, by rw [vmLoad, hn, memGetRaw_unmapped ha]; rfl, .refl m, h⟩
  · obtain ⟨e, m', c', hload, hsame, hcoh'⟩ := hcoh.load_unmapped ha
    exact ⟨e, m', by rw [vmLoad, hcoh.attached, hload]; rfl, hsame, hcoh'.shows⟩

/-- A raw store is seen where there is no cache to hide it. -/
theorem Shows.set (h : Shows cached m ref) (hn : m.vm.cache = none) (ha : addr ∈ Mapped m.vm.mmu)
    (w : Word18) : ∃ m', memSetRaw m addr w = .ok m' ∧ SameButCache m m' ∧
      m'.vm.cache = none ∧ Shows cached m' (Function.update ref addr w) := by
  obtain ⟨m', hset, hvm, hworld, hword⟩ := memSetRaw_mapped h.disjoint ha w
  refine ⟨m', hset, memSetRaw_same hset, by rw [hvm, hn],
    ⟨hvm ▸ h.attached, hvm ▸ h.disjoint, ?_, ?_⟩⟩
  · intro _ b hb
    rw [hvm] at hb
    rw [hword b hb]
    by_cases hba : b = addr
    · rw [hba, Function.update_self, Function.update_self]
    · rw [Function.update_of_ne hba, Function.update_of_ne hba, h.plain hn b hb]
  · intro c hc
    rw [hvm, hn] at hc
    cases hc

theorem Shows.store (h : Shows cached m ref) (ha : addr ∈ Mapped m.vm.mmu) (w : Word18) :
    ∃ m', vmStore m addr w = (Err.ok, m') ∧ SameButCache m m' ∧
      Shows cached m' (Function.update ref addr w) := by
  rcases h.cases with ⟨-, hn⟩ | ⟨rfl, c, hcoh⟩
  · obtain ⟨m', hset, hsame, -, hshows⟩ := h.set hn ha w
    exact ⟨m', by rw [vmStore, hn, hset]; rfl, hsame, hshows⟩
  · obtain ⟨m', c', hstore, hsame, hcoh'⟩ := hcoh.store ha w
    exact ⟨m', by rw [vmStore, hcoh.attached, hstore]; rfl, hsame, hcoh'.shows⟩

theorem Shows.hostWrite (h : Shows cached m ref) (ha : addr ∈ Mapped m.vm.mmu) (w : Word18) :
    ∃ m', hostWrite m addr w = (Err.ok, m') ∧ SameButCache m m' ∧
      Shows cached m' (Function.update ref addr w) := by
  rcases h.cases with ⟨-, hn⟩ | ⟨rfl, c, hcoh⟩
  · obtain ⟨m', hset, hsame, hnone, hshows⟩ := h.set hn ha w
    refine ⟨m', ?_, hsame, hshows⟩
    rw [Vm.hostWrite, hset]
    simp [hnone]
  · obtain ⟨m', c', hwrite, hsame, hcoh'⟩ := hcoh.hostWrite ha w
    exact ⟨m', hwrite, hsame, hcoh'.shows⟩

end Memory

section Represented

variable {cached : Bool} {host : Host W} {m m' : Machine W} {a : IntMachine W}

theorem Represents.setReg (h : Represents cached m a) (d : Fin 8) (n : Number) :
    Represents cached (m.setReg d n.word) (a.set d n) :=
  { h with
    memory := h.memory.of_vm rfl rfl rfl
    registers := by
      change Function.update m.vm.registers d n.word = _
      rw [h.registers]
      funext r
      simp only [IntMachine.set, Function.update_apply]
      split <;> rfl }

theorem Represents.setWorld (h : Represents cached m a) (w : W) :
    Represents cached { m with world := w } { a with world := w } :=
  { h with
    memory := h.memory.of_vm rfl rfl rfl
    world := rfl }

theorem Represents.reg (h : Represents cached m a) (r : Fin 8) :
    m.vm.registers r = (a.registers r).word := by rw [h.registers]

theorem Represents.proceed (h : Represents cached m a) : Agree cached (vmProceed m) a.proceed := by
  refine ⟨rfl, ?_⟩
  unfold vmProceed
  dsimp only
  split
  next hr =>
    have hc := h.condition
    rw [VmState.condition, hr] at hc
    exact { h with condition := hc, memory := h.memory.of_vm rfl rfl rfl }
  · exact h

theorem Represents.fault (h : Represents cached m a) (f : Fault) :
    Agree cached (vmFault m f) (a.fault f) :=
  ⟨rfl, { h with condition := rfl, memory := h.memory.of_vm rfl rfl rfl }⟩

theorem Represents.deliver (h : Represents cached m a) (d : Fin 8) (f : Fault)
    {r : Except Err Word18} {o : Option Number} (hr : Delivers r o) :
    Agree cached (writeResult m d f r) (a.deliver d f o) := by
  cases hr with
  | some n => exact (h.setReg d n).proceed
  | none e => exact h.fault f

theorem Represents.answer (h : Represents cached m a) (d : Fin 8) {v : ℤ}
    (hv : BalancedTernary.Digit v) :
    Agree cached (vmProceed (m.setReg d (Function.update zeroWord 0 v))) (a.answer d v) := by
  rw [← trit_valid hv]
  exact (h.setReg d _).proceed

theorem setInt32_word (m : Machine W) (d : Fin 8) (n : Number) :
    setInt32 m d n.val = m.setReg d n.word := by
  unfold setInt32
  rw [(word_spec n).1]

theorem ofInt_val (n : Number) : Number.ofInt n.val = some n := ofInt_some n.range

theorem Represents.setInt32 (h : Represents cached m a) (d : Fin 8) (n : Number) :
    Agree cached (vmProceed (Vm.setInt32 m d n.val)) (a.answer d n.val) := by
  rw [setInt32_word, IntMachine.answer, ofInt_val]
  exact (h.setReg d n).proceed

theorem Represents.jump (h : Represents cached m a) (target : ℤ) :
    Agree cached (vmJump m target) (a.jump target) := by
  rw [vmJump, IntMachine.jump, VmState.programLength, h.program]
  split
  · exact h.fault _
  · exact ⟨rfl, { h with pc := rfl, memory := h.memory.of_vm rfl rfl rfl }⟩

theorem Represents.branchTrit (h : Represents cached m a) (r : Fin 8) :
    branchTrit (m.vm.registers r) = (a.registers r).lowTrit := by
  rw [h.reg, Vm.branchTrit, word_lowTrit]

theorem Represents.branch (h : Represents cached m a) (r : Fin 8) (sign target : ℤ) :
    Agree cached (execBranch m r sign target) (a.branch r sign target) := by
  rw [execBranch, IntMachine.branch, h.branchTrit]
  split
  · exact h.jump target
  · exact h.proceed

theorem Represents.compare (h : Represents cached m a) (d r s : Fin 8) :
    Agree cached (execTcmp m d r s)
      (a.answer d (Int.sign ((a.registers r).val - (a.registers s).val))) := by
  rw [execTcmp, h.reg, h.reg, word18Compare_eq (word_valid _) (word_valid _), wordValue_word,
    wordValue_word]
  exact h.answer d (sign_trit _)

theorem lowTrit_cases (n : Number) : n.lowTrit = -1 ∨ n.lowTrit = 0 ∨ n.lowTrit = 1 := by
  unfold Number.lowTrit
  omega

theorem Represents.select (h : Represents cached m a) (d r z : Fin 8) (imm : ℤ) :
    Agree cached (execTsel m d r z imm) (a.select d r z imm) := by
  have hvalid : ∀ s, word18IsValid (m.vm.registers s) = true := fun s => by
    rw [h.reg]
    exact word_valid _
  have hset : ∀ s, Agree cached (vmProceed (m.setReg d (m.vm.registers s)))
      (a.set d (a.registers s)).proceed := fun s => by
    rw [h.reg]
    exact (h.setReg d _).proceed
  simp only [execTsel, IntMachine.select, word18Select, h.branchTrit, hvalid, Bool.not_true,
    Bool.false_eq_true, if_false]
  rcases lowTrit_cases (a.registers r) with ht | ht | ht
  · simp only [ht]
    exact hset _
  · simp only [ht]
    exact hset _
  · simp only [ht]
    exact hset _

/-- The machines differ from related ones in memory only. -/
theorem Represents.remember (h : Represents cached m a) (hsame : SameButCache m m')
    {memory : ℕ → Option Number}
    (hmap : ∀ addr, (memory addr).isSome = (a.memory addr).isSome)
    (hshows : Shows cached m' fun addr => ((memory addr).getD .zero).word) :
    Represents cached m' { a with memory := memory } := by
  have hvm := hsame.vm
  refine ⟨?_, ?_, ?_, ?_, hshows, ?_, ?_, ?_, ?_, ?_, hsame.world.trans h.world⟩
  · rw [VmState.condition, hvm]
    exact h.condition
  · rw [hvm]
    exact h.pc
  · rw [hvm]
    exact h.registers
  · intro addr
    rw [hsame.mmu, hmap]
    exact h.mapped addr
  · rw [hvm]
    exact h.program
  · rw [hvm]
    exact h.nodeId
  · rw [hvm]
    exact h.syscalls
  · rw [hvm]
    exact h.routes
  · rw [hvm]
    exact h.routeCount

theorem Represents.load (h : Represents cached m a) (d r : Fin 8) :
    Agree cached (execTld m d r) (a.load d r) := by
  simp only [execTld, h.reg, toInt32_word, IntMachine.load]
  cases hcell : a.memory (u32 (a.registers r).val) with
  | none =>
    have hout : u32 (a.registers r).val ∉ Mapped m.vm.mmu := by
      rw [h.mapped, hcell]
      simp
    obtain ⟨e, m', hload, hsame, hshows⟩ := h.memory.load_unmapped hout
    rw [hload]
    exact (h.remember hsame (fun _ => rfl) hshows).fault _
  | some n =>
    have hin : u32 (a.registers r).val ∈ Mapped m.vm.mmu := by
      rw [h.mapped, hcell]
      rfl
    obtain ⟨m', hload, hsame, hshows⟩ := h.memory.load hin
    rw [IntMachine.words, hcell] at hload
    rw [hload]
    exact ((h.remember hsame (fun _ => rfl) hshows).setReg d n).proceed

theorem words_update (a : IntMachine W) (addr : ℕ) (n : Number) :
    Function.update a.words addr n.word =
      fun b => ((Function.update a.memory addr (some n) b).getD .zero).word := by
  funext b
  by_cases hb : b = addr
  · rw [hb, Function.update_self, Function.update_self, Option.getD_some]
  · rw [Function.update_of_ne hb, Function.update_of_ne hb, IntMachine.words]

theorem isSome_update {memory : ℕ → Option Number} {addr : ℕ}
    (h : (memory addr).isSome = true) (n : Number) (b : ℕ) :
    (Function.update memory addr (some n) b).isSome = (memory b).isSome := by
  by_cases hb : b = addr
  · rw [hb, Function.update_self, h]
    rfl
  · rw [Function.update_of_ne hb]

theorem Represents.store (h : Represents cached m a) (d r : Fin 8)
    (hsafe : m.vm.cache ≠ none → u32 (a.registers d).val ∈ Mapped m.vm.mmu) :
    Agree cached (execTst m d r) (a.store d r) := by
  simp only [execTst, h.reg, toInt32_word, IntMachine.store]
  by_cases hcell : (a.memory (u32 (a.registers d).val)).isSome = true
  · obtain ⟨m', hstore, hsame, hshows⟩ :=
      h.memory.store ((h.mapped _).mpr hcell) (a.registers r).word
    rw [words_update] at hshows
    rw [hstore, if_pos hcell]
    exact (h.remember hsame (isSome_update hcell _) hshows).proceed
  · have hout : u32 (a.registers d).val ∉ Mapped m.vm.mmu := by rwa [h.mapped]
    have hnone : m.vm.cache = none := by_contra fun hc => hout (hsafe hc)
    rw [vmStore, hnone, memSetRaw_unmapped hout, if_neg hcell]
    exact h.fault _

theorem Represents.cacheOp (h : Represents cached m a) (r : Fin 8)
    {op : Machine W → ℕ → Err × Machine W}
    (hop : ∀ c addr, CacheCoherent m c a.words → ∃ m' c', op m addr = (Err.ok, m') ∧
      SameButCache m m' ∧ CacheCoherent m' c' a.words) :
    Agree cached (execCacheOp op m r) a.proceed := by
  simp only [execCacheOp, h.reg, toInt32_word]
  rcases h.memory.cases with ⟨-, hn⟩ | ⟨rfl, c, hcoh⟩
  · simp only [hn, Option.isSome_none, Bool.false_eq_true, if_false]
    exact h.proceed
  · obtain ⟨m', c', hrun, hsame, hcoh'⟩ := hop c (u32 (a.registers r).val) hcoh
    simp only [hcoh.attached, Option.isSome_some, if_true, hrun]
    exact (h.remember hsame (fun _ => rfl) hcoh'.shows).proceed

theorem Represents.send (h : Represents cached m a) (d r : Fin 8) (imm : ℤ) :
    Agree cached (execTsend host m d r imm) (a.send host d r imm) := by
  simp only [execTsend, IntMachine.send, h.reg, toInt32_word, h.nodeId, h.world]
  split
  · exact h.fault _
  · split
    · exact (h.setWorld _).proceed
    · exact (h.setWorld _).fault _

theorem Represents.recv (hs : SoundHost host) (h : Represents cached m a) (d : Fin 8) :
    Agree cached (execTrecv host m d) (a.recv host d) := by
  simp only [execTrecv, IntMachine.recv, h.nodeId, h.world]
  cases hr : (host.fabricRecv a.nodeId a.world).1 with
  | ok msg =>
    have hset := (h.setWorld (host.fabricRecv a.nodeId a.world).2).setReg d (.ofWord msg.payload)
    rw [word_ofWord (hs.payload _ _ _ hr)] at hset
    exact hset.proceed
  | error e =>
    simp only
    split
    · rw [← word_zero]
      exact ((h.setWorld _).setReg d .zero).proceed
    · exact (h.setWorld _).proceed

/-- The calls of the two machines leave the same world and deliver the same number. -/
def Answers (r : Except Err Word18 × W) (r' : Option Number × W) : Prop :=
  Delivers r.1 r'.1 ∧ r.2 = r'.2

theorem answers_int (v : ℤ) (w : W) : Answers (word18FromInt32 v, w) (Number.ofInt v, w) :=
  ⟨fromInt32_delivers v, rfl⟩

theorem answers_error (e : Err) (w : W) : Answers (.error e, w) (none, w) := ⟨.none e, rfl⟩

theorem syscall_answers (host : Host W) (id : ℤ) (n : Number) (w : W) :
    Answers (defaultSyscall host id n.word w) (IntMachine.syscall host id n w) := by
  simp only [defaultSyscall, IntMachine.syscall, toInt32_word]
  split
  · exact answers_int _ _
  split
  · exact answers_int _ _
  split
  · split
    · cases host.configDeviceName w with
      | error e => exact answers_error e w
      | ok name => exact answers_int _ _
    split
    · cases host.configLogLevel w with
      | error e => exact answers_error e w
      | ok level => exact answers_int _ _
    · exact answers_error _ w
  split
  · split
    · exact answers_error _ w
    · exact answers_int _ _
  · exact answers_error _ w

theorem Represents.sys (h : Represents cached m a) (d r : Fin 8) (imm : ℤ) :
    Agree cached (execTsys host m d r imm) (a.sys host d r imm) := by
  have hsys := h.syscalls
  unfold execTsys IntMachine.sys
  cases hc : m.vm.syscallHandler with
  | none =>
    have hoff : a.syscalls = false := by rw [← hsys, hc, Option.isSome_none]
    rw [hoff]
    exact h.fault _
  | some handler =>
    cases handler
    have hon : a.syscalls = true := by rw [← hsys, hc, Option.isSome_some]
    obtain ⟨hresult, hworld⟩ := syscall_answers host imm (a.registers r) a.world
    rw [if_pos hon, h.reg, h.world]
    simp only [hworld]
    exact (h.setWorld _).deliver d _ hresult

theorem Represents.tryte (h : Represents cached m a) (r : Fin 8) :
    coordOf (m.vm.registers r) = (a.registers r).tryte := by rw [h.reg, Number.tryte]

theorem Represents.scalar (h : Represents cached m a) (slot : ℕ) (r : Fin 8) :
    scalarOf host m slot (m.vm.registers r) = (a.registers r).val := by
  rw [h.reg, scalarOf, toInt32_word]

/-- Without a cache in between, a name is read as it was stored. -/
theorem Represents.string (h : Represents cached m a) (hn : m.vm.cache = none) (addr n : ℕ) :
    vmGetString host m addr n = a.string addr n := by
  induction n generalizing addr with
  | zero => rfl
  | succ n ih =>
    rw [vmGetString, IntMachine.string]
    cases hcell : a.memory (addr % 2 ^ 32) with
    | none =>
      have hout : addr % 2 ^ 32 ∉ Mapped m.vm.mmu := by
        rw [h.mapped, hcell]
        simp
      rw [memGetRaw_unmapped hout]
    | some v =>
      have hin : addr % 2 ^ 32 ∈ Mapped m.vm.mmu := by
        rw [h.mapped, hcell]
        rfl
      rw [h.memory.get hn hin, IntMachine.words, hcell]
      simp only [Option.getD_some, scalarOf, toInt32_word, ih]

theorem Represents.name (h : Represents cached m a) (hn : m.vm.cache = none) (n : Number) :
    vmName host m n.val = a.name n := by rw [vmName, IntMachine.name, h.string hn]

theorem Represents.routeEnds (h : Represents cached m a) (r s : Fin 8) {imm : ℤ}
    (hsafe : m.vm.cache ≠ none → imm ≠ 0) :
    Vm.routeEnds host m r s imm = a.routeEnds host r s imm := by
  unfold Vm.routeEnds IntMachine.routeEnds
  rw [h.tryte, h.tryte, h.scalar, h.scalar, h.world]
  split
  next hname =>
    have hn : m.vm.cache = none := by_contra fun hc => hsafe hc hname
    rw [h.name hn, h.name hn]
    all_goals rfl
  · rfl

theorem Represents.constant (h : Represents cached m a) (d : Fin 8) {v : ℤ} (hv : |v| ≤ word18Max) :
    Agree cached (vmProceed (Vm.setInt32 m d v)) (a.answer d v) := h.setInt32 d ⟨v, hv⟩

theorem Represents.refused (h : Represents cached m a) (d : Fin 8) :
    Agree cached (vmProceed (Vm.setInt32 m d (-1))) (a.answer d (-1)) := h.constant d (by decide)

theorem Represents.granted (h : Represents cached m a) (d : Fin 8) :
    Agree cached (vmProceed (Vm.setInt32 m d 1)) (a.answer d 1) := h.constant d (by decide)

/-- The manifests change alike. -/
theorem Represents.setRoutes (h : Represents cached m a) (routes : Fin 4 → Route) (count : ℕ) :
    Represents cached { m with vm := { m.vm with routeManifest := routes, routeCount := count } }
      { a with routes := routes, routeCount := count } :=
  { h with
    memory := h.memory.of_vm rfl rfl rfl
    routes := rfl
    routeCount := rfl }

theorem Represents.route (h : Represents cached m a) (d r s : Fin 8) {imm : ℤ}
    (hsafe : m.vm.cache ≠ none → imm ≠ 0) :
    Agree cached (execTroute host m d r s imm) (a.route host d r s imm) := by
  unfold execTroute IntMachine.route
  rw [h.routeEnds r s hsafe]
  generalize a.routeEnds host r s imm = ends
  obtain ⟨source, sink, w⟩ := ends
  have hw := h.setWorld w
  dsimp only
  rcases source with _ | source <;> rcases sink with _ | sink
  · exact hw.refused d
  · exact hw.refused d
  · exact hw.refused d
  · simp only [h.routes, h.routeCount]
    split
    · exact ((hw.setRoutes _ _).setWorld _).granted d
    · exact hw.refused d

theorem Represents.bias (h : Represents cached m a) (d r s : Fin 8) :
    Agree cached (execTbias host m d r s) (a.bias d r s) := by
  simp only [execTbias, IntMachine.bias, h.scalar, h.routes, h.routeCount]
  split
  · exact (h.setRoutes _ a.routeCount).granted d
  · exact h.refused d

theorem digit_zero : BalancedTernary.Digit 0 := by
  unfold BalancedTernary.Digit
  omega

/-- Whatever cell was looked up, its state is the trit that is answered. -/
theorem Represents.answerState (hs : SoundHost host) (h : Represents cached m a) (d : Fin 8)
    (c : Option ℕ) (w : W) :
    Agree cached (vmProceed (({ m with world := w } : Machine W).setReg d
        (Function.update zeroWord 0 (match c with
          | some c => (host.cellAt c w).state
          | none => 0))))
      (({ a with world := w } : IntMachine W).answer d (match c with
        | some c => (host.cellAt c w).state
        | none => 0)) := by
  cases c with
  | none => exact (h.setWorld w).answer d digit_zero
  | some c => exact (h.setWorld w).answer d (hs.state c w)

theorem Represents.sense (hs : SoundHost host) (h : Represents cached m a) (d r : Fin 8) {imm : ℤ}
    (hsafe : m.vm.cache ≠ none → imm ≠ 0) :
    Agree cached (execTsense host m d r imm) (a.sense host d r imm) := by
  simp only [execTsense, IntMachine.sense, h.scalar, h.tryte, h.world]
  by_cases himm : imm = 0
  · have hn : m.vm.cache = none := by_contra fun hc => hsafe hc himm
    simp only [himm, if_true, h.name hn]
    cases a.name (a.registers r) with
    | none => exact h.answerState hs d none a.world
    | some name =>
      exact h.answerState hs d (host.fabricGetCell name a.world).1
        (host.fabricGetCell name a.world).2
  · simp only [if_neg himm]
    exact h.answerState hs d (host.fabricGetCellByCoord (a.registers r).tryte a.world) a.world

theorem Represents.hostWrite (h : Represents cached m a) {addr : ℕ}
    (ha : (a.memory addr).isSome = true) (n : Number) :
    ∃ m', hostWrite m addr n.word = (Err.ok, m') ∧
      Represents cached m' { a with memory := Function.update a.memory addr (some n) } := by
  obtain ⟨m', hwrite, hsame, hshows⟩ := h.memory.hostWrite ((h.mapped _).mpr ha) n.word
  rw [words_update] at hshows
  exact ⟨m', hwrite, h.remember hsame (isSome_update ha n) hshows⟩

theorem Represents.advance (h : Represents cached m a) (hl : m.vm.condition = .live) :
    Represents cached m.advance a.advance :=
  { h with
    condition := hl.symm.trans h.condition
    pc := congrArg (fun pc => (pc + 1) % 2 ^ 32) h.pc
    memory := h.memory.of_vm rfl rfl rfl }

theorem Represents.halt (h : Represents cached m a) :
    Agree cached (vmProceed (m.setStatus .halted)) ({ a with condition := .halted }).proceed :=
  Represents.proceed { h with condition := rfl, memory := h.memory.of_vm rfl rfl rfl }

end Represented

end ReflexOS.Vm
