import ReflexOS.CoreFabric
import ReflexOS.VmFaults

set_option autoImplicit false

/-!
# VMs over the message fabric

Several VMs and the other tasks of a board share one fabric. TRECV gives a program the zero word
where nothing has come, so what a program can rely on is about the words that are not zero.
-/
namespace ReflexOS.Vm
open ReflexOS.Core VmTernary VmMmu Goose Mailboxes Runs

variable {W : Type*}

/-- The message a VM sends, with the channel and the correlation it leaves at zero. -/
def Message.onFabric (msg : Message) : FabricMessage :=
  ⟨msg.toNode, msg.fromNode, msg.op, .system, 0, msg.payload⟩

def ofFabric (msg : FabricMessage) : Message := ⟨msg.toNode, msg.fromNode, msg.op, msg.payload⟩

def receivedMessage : Except Err FabricMessage → Except Err Message
  | .ok msg => .ok (ofFabric msg)
  | .error e => .error e

/-- The host runs the fabric kept in its world, and nothing else it does for a VM touches it. -/
structure OnFabric (host : Host W) (fabric : W → MessageFabric) : Prop where
  send_result : ∀ msg w,
    (host.fabricSend msg w).1 = (fabricSend (fabric w) (some msg.onFabric)).1
  send_fabric : ∀ msg w,
    fabric (host.fabricSend msg w).2 = (fabricSend (fabric w) (some msg.onFabric)).2
  recv_result : ∀ n w,
    (host.fabricRecv n w).1 = receivedMessage (fabricRecv (fabric w) n true).1
  recv_fabric : ∀ n w, fabric (host.fabricRecv n w).2 = (fabricRecv (fabric w) n true).2
  cell : ∀ name w, fabric (host.fabricGetCell name w).2 = fabric w
  gpio : ∀ r w, fabric (host.gpioConnectOut r w) = fabric w
  log : ∀ v w, fabric (host.printLog v w) = fabric w
  delay : ∀ ms w, fabric (host.taskDelayMs ms w) = fabric w

variable {host : Host W} {fabric : W → MessageFabric} {m m' : Machine W}

theorem vmFault_world (m : Machine W) (f : Fault) : (vmFault m f).2.world = m.world := rfl

theorem vmProceed_world (m : Machine W) : (vmProceed m).2.world = m.world := by
  unfold vmProceed
  split <;> rfl

theorem vmJump_world (m : Machine W) (target : ℤ) : (vmJump m target).2.world = m.world := by
  unfold vmJump
  split <;> rfl

theorem setInt32_world (m : Machine W) (r : Fin 8) (v : ℤ) :
    (setInt32 m r v).world = m.world := by
  unfold setInt32
  split <;> rfl

theorem writeResult_world (m : Machine W) (d : Fin 8) (f : Fault) (r : Except Err Word18) :
    (writeResult m d f r).2.world = m.world := by
  unfold writeResult
  split
  · exact vmProceed_world _
  · rfl

theorem execTcmp_world (m : Machine W) (d a b : Fin 8) :
    (execTcmp m d a b).2.world = m.world := by
  unfold execTcmp
  split
  · rfl
  · exact vmProceed_world _

theorem execBranch_world (m : Machine W) (a : Fin 8) (sign imm : ℤ) :
    (execBranch m a sign imm).2.world = m.world := by
  unfold execBranch
  split
  · exact vmJump_world _ _
  · exact vmProceed_world _

theorem execTld_world (m : Machine W) (d a : Fin 8) : (execTld m d a).2.world = m.world := by
  unfold execTld
  split
  · rfl
  next addr haddr =>
    have hsame := vmLoad_same m (u32 addr)
    split
    next hload =>
      rw [hload] at hsame
      exact hsame.world
    next hload =>
      rw [hload] at hsame
      exact (vmProceed_world _).trans hsame.world

theorem execTst_world (m : Machine W) (d a : Fin 8) : (execTst m d a).2.world = m.world := by
  unfold execTst
  split
  · rfl
  next addr haddr =>
    have hsame := vmStore_same m (u32 addr) (m.vm.registers a)
    dsimp only
    split
    · exact (vmProceed_world _).trans hsame.world
    · exact hsame.world

theorem execCacheOp_world {op : Machine W → ℕ → Err × Machine W}
    (hop : ∀ m a, SameButCache m (op m a).2) (m : Machine W) (a : Fin 8) :
    (execCacheOp op m a).2.world = m.world := by
  unfold execCacheOp
  split
  · rfl
  · refine (vmProceed_world _).trans ?_
    split
    · exact (hop m _).world
    · rfl

theorem execTbias_world (host : Host W) (m : Machine W) (d a b : Fin 8) :
    (execTbias host m d a b).2.world = m.world := by
  unfold execTbias
  dsimp only
  split
  · exact (vmProceed_world _).trans (setInt32_world _ _ _)
  · exact (vmProceed_world _).trans (setInt32_world _ _ _)

section Elsewhere

variable (hhost : OnFabric host fabric)
include hhost

theorem defaultSyscall_fabric (id : ℤ) (srcA : Word18) (w : W) :
    fabric (defaultSyscall host id srcA w).2 = fabric w := by
  unfold defaultSyscall
  split
  · split
    · rfl
    · exact hhost.log _ w
  split
  · rfl
  split
  · split
    · rfl
    · split
      · split <;> rfl
      · split
        · split <;> rfl
        · rfl
  split
  · split
    · rfl
    · split
      · rfl
      · exact hhost.delay _ w
  · rfl

theorem execTsys_fabric (m : Machine W) (d a : Fin 8) (imm : ℤ) :
    fabric (execTsys host m d a imm).2.world = fabric m.world := by
  unfold execTsys
  split
  · rfl
  · dsimp only
    rw [writeResult_world]
    exact defaultSyscall_fabric hhost _ _ _

theorem applyRoute_fabric (r : Route) (w : W) : fabric (applyRoute host r w) = fabric w := by
  unfold applyRoute
  split
  · exact hhost.gpio r w
  · rfl

theorem routeEnds_fabric (m : Machine W) (a b : Fin 8) (imm : ℤ) :
    fabric (routeEnds host m a b imm).2.2 = fabric m.world := by
  unfold routeEnds
  split
  · split
    · exact (hhost.cell _ _).trans (hhost.cell _ _)
    · rfl
  · rfl

theorem execTroute_fabric (m : Machine W) (d a b : Fin 8) (imm : ℤ) :
    fabric (execTroute host m d a b imm).2.world = fabric m.world := by
  have hends := routeEnds_fabric hhost m a b imm
  unfold execTroute
  dsimp only
  split
  · split
    · rw [vmProceed_world, setInt32_world]
      dsimp only
      exact (applyRoute_fabric hhost _ _).trans hends
    · rw [vmProceed_world, setInt32_world]
      exact hends
  · rw [vmProceed_world, setInt32_world]
    exact hends

theorem execTsense_fabric (m : Machine W) (d a : Fin 8) (imm : ℤ) :
    fabric (execTsense host m d a imm).2.world = fabric m.world := by
  unfold execTsense
  dsimp only
  rw [vmProceed_world]
  show fabric (Prod.snd _) = _
  split
  · split
    · exact hhost.cell _ _
    · rfl
  · rfl

/-- No instruction but TSEND and TRECV touches the fabric. -/
theorem execute_fabric {i : Instruction} {r : Err × Machine W} (hsend : i.opcode ≠ .tsend)
    (hrecv : i.opcode ≠ .trecv) (h : execute host m i = some r) :
    fabric r.2.world = fabric m.world := by
  obtain ⟨op, dst, srcA, srcB, imm⟩ := i
  cases op <;> simp only [execute] at h
  case tsend => exact absurd rfl hsend
  case trecv => exact absurd rfl hrecv
  case tnop | thalt =>
    cases h
    exact congrArg fabric (vmProceed_world _)
  case tldi =>
    obtain ⟨_, h⟩ := withReg_eq_some h
    cases h
    exact congrArg fabric (writeResult_world _ _ _ _)
  case tmov =>
    obtain ⟨_, h⟩ := withReg_eq_some h
    obtain ⟨_, h⟩ := withReg_eq_some h
    cases h
    exact congrArg fabric (vmProceed_world _)
  case tadd | tsub | tsel =>
    obtain ⟨_, h⟩ := withReg_eq_some h
    obtain ⟨_, h⟩ := withReg_eq_some h
    obtain ⟨_, h⟩ := withReg_eq_some h
    cases h
    exact congrArg fabric (writeResult_world _ _ _ _)
  case tcmp =>
    obtain ⟨_, h⟩ := withReg_eq_some h
    obtain ⟨_, h⟩ := withReg_eq_some h
    obtain ⟨_, h⟩ := withReg_eq_some h
    cases h
    exact congrArg fabric (execTcmp_world _ _ _ _)
  case tjmp =>
    cases h
    exact congrArg fabric (vmJump_world _ _)
  case tbrneg | tbrzero | tbrpos =>
    obtain ⟨_, h⟩ := withReg_eq_some h
    cases h
    exact congrArg fabric (execBranch_world _ _ _ _)
  case tsys =>
    obtain ⟨_, h⟩ := withReg_eq_some h
    obtain ⟨_, h⟩ := withReg_eq_some h
    cases h
    exact execTsys_fabric hhost _ _ _ _
  case tld =>
    obtain ⟨_, h⟩ := withReg_eq_some h
    obtain ⟨_, h⟩ := withReg_eq_some h
    cases h
    exact congrArg fabric (execTld_world _ _ _)
  case tst =>
    obtain ⟨_, h⟩ := withReg_eq_some h
    obtain ⟨_, h⟩ := withReg_eq_some h
    cases h
    exact congrArg fabric (execTst_world _ _ _)
  case tflush =>
    obtain ⟨_, h⟩ := withReg_eq_some h
    cases h
    exact congrArg fabric (execCacheOp_world cacheFlush_same _ _)
  case tinv =>
    obtain ⟨_, h⟩ := withReg_eq_some h
    cases h
    exact congrArg fabric (execCacheOp_world cacheFlushInvalidate_same _ _)
  case troute =>
    obtain ⟨_, h⟩ := withReg_eq_some h
    obtain ⟨_, h⟩ := withReg_eq_some h
    obtain ⟨_, h⟩ := withReg_eq_some h
    cases h
    exact execTroute_fabric hhost _ _ _ _ _
  case tbias =>
    obtain ⟨_, h⟩ := withReg_eq_some h
    obtain ⟨_, h⟩ := withReg_eq_some h
    obtain ⟨_, h⟩ := withReg_eq_some h
    cases h
    exact congrArg fabric (execTbias_world _ _ _ _ _)
  case tsense =>
    obtain ⟨_, h⟩ := withReg_eq_some h
    obtain ⟨_, h⟩ := withReg_eq_some h
    cases h
    exact execTsense_fabric hhost _ _ _ _
  case unknown =>
    cases h
    rfl

end Elsewhere

/-- The VMs of a board share the memory and the world. -/
structure Board (ι W : Type*) where
  vms : ι → VmState
  mem : ℕ → Word18
  world : W

inductive BoardLabel where
  /-- A VM takes a step, from one state to another with a result. -/
  | vm (before after : VmState) (result : Err)
  | task (l : FabricLabel)
  | elsewhere

/-- No task of the tree sends telemetry. -/
def FabricLabel.Lasting : FabricLabel → Prop
  | .send (some m) _ => m.channel ≠ .telem
  | _ => True

variable {ι : Type*} [DecidableEq ι]

/-- A VM's step, a call of the fabric by another task, or anything that leaves the fabric alone,
such as loading a program or writing to a VM's memory. -/
inductive BoardStep (host : Host W) (fabric : W → MessageFabric) (S : Board ι W) :
    BoardLabel → Board ι W → Prop where
  | vm (i : ι) {r : Err} {m' : Machine W}
      (h : vmStep host ⟨S.vms i, S.mem, S.world⟩ = some (r, m')) :
      BoardStep host fabric S (.vm (S.vms i) m'.vm r)
        ⟨Function.update S.vms i m'.vm, m'.mem, m'.world⟩
  | task {l : FabricLabel} {S' : Board ι W} (hl : FabricLabel.Lasting l)
      (h : FabricStep (fabric S.world) l (fabric S'.world)) :
      BoardStep host fabric S (.task l) S'
  | elsewhere {S' : Board ι W} (h : fabric S'.world = fabric S.world) :
      BoardStep host fabric S .elsewhere S'

def VmState.reg (vm : VmState) (r : ℕ) : Word18 :=
  if h : r < 8 then vm.registers ⟨r, h⟩ else zeroWord

/-- The payloads a program can tell from no message. -/
def words (payloads : List Word18) : List Word18 := payloads.filter fun w => decide (w ≠ zeroWord)

def payloads (ms : List FabricMessage) : List Word18 := ms.map (·.payload)

/-- The word of a TSEND that went through, if the register named the node. -/
def tsendWord (node : ℕ) (before : VmState) (result : Err) : List Word18 :=
  match fetch before with
  | some i =>
    if i.opcode = .tsend ∧ result = Err.ok ∧ word18ToInt32 (before.reg i.dst) = .ok (node : ℤ) then
      [before.reg i.srcA]
    else []
  | none => []

/-- The word a TRECV of the node leaves in its register. -/
def trecvWord (node : ℕ) (before after : VmState) (result : Err) : List Word18 :=
  match fetch before with
  | some i =>
    if i.opcode = .trecv ∧ result = Err.ok ∧ before.nodeId = node then [after.reg i.dst] else []
  | none => []

def wordsSent (node : ℕ) : BoardLabel → List Word18
  | .vm before _ result => words (tsendWord node before result)
  | .task l => words (payloads (sentTo node l))
  | .elsewhere => []

def wordsGot (node : ℕ) : BoardLabel → List Word18
  | .vm before after result => words (trecvWord node before after result)
  | .task l => words (payloads (receivedAt node l))
  | .elsewhere => []

def Board.pending (fabric : W → MessageFabric) (node : ℕ) (S : Board ι W) : List Word18 :=
  words (payloads ((fabric S.world).inbox node))

section Words

variable {node : ℕ} {i : Instruction} {r : Err × Machine W}

theorem VmState.reg_of_lt (vm : VmState) {n : ℕ} (hn : n < 8) : vm.reg n = vm.registers ⟨n, hn⟩ :=
  dif_pos hn

theorem words_append (ws vs : List Word18) : words (ws ++ vs) = words ws ++ words vs :=
  List.filter_append ws vs

theorem words_zero : words [zeroWord] = [] := rfl

theorem payloads_append (ms ns : List FabricMessage) :
    payloads (ms ++ ns) = payloads ms ++ payloads ns :=
  List.map_append

/-- A call of the fabric moves words as it moves messages. -/
theorem FabricStep.words {F F' : MessageFabric} {l : FabricLabel} (h : FabricStep F l F')
    (hl : FabricLabel.Lasting l) :
    words (payloads (F.inbox node)) ++ words (payloads (sentTo node l)) =
      words (payloads (receivedAt node l)) ++ words (payloads (F'.inbox node)) := by
  have hall : ∀ msg ∈ sentTo node l, msg.channel ≠ .telem := by
    intro msg hmsg
    cases h with
    | recv n out => cases hmsg
    | send sent =>
      cases sent with
      | none => cases hmsg
      | some m =>
        rw [sentTo] at hmsg
        split at hmsg
        · rw [List.mem_singleton.mp hmsg]
          exact hl
        · cases hmsg
  have hmove : InboxMove (F.inbox node) (sentTo node l) (receivedAt node l) (F'.inbox node) :=
    h.move
  have hkept := hmove.kept hall
  rw [← words_append, ← payloads_append, hkept, payloads_append, words_append]

/-- A step that does not end with OK leaves the world alone, or it runs an instruction. -/
theorem vmStep_cases {e : Err} (h : vmStep host m = some (e, m')) :
    e ≠ Err.ok ∧ m'.world = m.world ∨
      ∃ i, fetch m.vm = some i ∧ execute host m.advance i = some (e, m') := by
  unfold vmStep at h
  split at h
  next hv =>
    cases h
    exact .inl ⟨hv, rfl⟩
  split at h
  · cases h
    exact .inl ⟨by decide, rfl⟩
  split at h
  · cases h
    exact .inl ⟨by decide, rfl⟩
  split at h
  · cases h
    exact .inl ⟨(by decide : Err.fail ≠ Err.ok), rfl⟩
  next i hi =>
    split at h
    · cases h
      exact .inl ⟨(by decide : Err.fail ≠ Err.ok), rfl⟩
    · exact .inr ⟨i, hi, h⟩

variable (hhost : OnFabric host fabric)
include hhost

theorem execTsend_cases (m : Machine W) (d a : Fin 8) (imm : ℤ) :
    (execTsend host m d a imm).1 ≠ Err.ok ∧
        fabric (execTsend host m d a imm).2.world = fabric m.world ∨
      ∃ target : ℕ, word18ToInt32 (m.vm.registers d) = .ok (target : ℤ) ∧
        (execTsend host m d a imm).1 = Err.ok ∧
        FabricStep (fabric m.world)
          (.send (some ⟨target, m.vm.nodeId, u8 imm, .system, 0, m.vm.registers a⟩) Err.ok)
          (fabric (execTsend host m d a imm).2.world) := by
  unfold execTsend
  cases hd : word18ToInt32 (m.vm.registers d) with
  | error e =>
    have hv : word18IsValid (m.vm.registers d) = false := by
      by_contra hv
      rw [word18ToInt32_valid (Bool.not_eq_false _ ▸ hv)] at hd
      cases hd
    rw [word18ToInt32_invalid hv] at hd
    cases hd
    exact .inl ⟨(by decide : Err.invalidArg ≠ Err.ok), rfl⟩
  | ok target =>
    dsimp only
    split
    · exact .inl ⟨(by decide : Err.fail ≠ Err.ok), rfl⟩
    next hrange =>
      obtain ⟨t, rfl⟩ : ∃ t : ℕ, target = t := ⟨target.toNat, by omega⟩
      have hu : u8 (t : ℤ) = t := by
        unfold u8
        omega
      rw [hu]
      have hresult := hhost.send_result ⟨t, m.vm.nodeId, u8 imm, m.vm.registers a⟩ m.world
      have hfabric := hhost.send_fabric ⟨t, m.vm.nodeId, u8 imm, m.vm.registers a⟩ m.world
      have hstep := FabricStep.send (F := fabric m.world)
        (some (Message.onFabric ⟨t, m.vm.nodeId, u8 imm, m.vm.registers a⟩))
      rw [← hresult, ← hfabric] at hstep
      split
      next hok =>
        rw [hok] at hstep
        refine .inr ⟨t, rfl, ?_, ?_⟩
        · unfold vmProceed
          rfl
        · rw [vmProceed_world]
          exact hstep
      next hbad =>
        refine .inl ⟨(by decide : Err.fail ≠ Err.ok), ?_⟩
        refine hfabric.trans ?_
        rw [hresult] at hbad
        rcases fabricSend_cases (fabric m.world)
          (Message.onFabric ⟨t, m.vm.nodeId, u8 imm, m.vm.registers a⟩) with
          ⟨-, hsame⟩ | ⟨htelem, -⟩ | ⟨inbox, inbox', -, -, hs⟩
        · exact hsame
        · cases htelem
        · exact absurd (congrArg Prod.fst hs) hbad

theorem execTrecv_step (m : Machine W) (d : Fin 8) :
    FabricStep (fabric m.world)
      (.recv m.vm.nodeId true (fabricRecv (fabric m.world) m.vm.nodeId true).1)
      (fabric (execTrecv host m d).2.world) := by
  have hfabric : fabric (execTrecv host m d).2.world =
      (fabricRecv (fabric m.world) m.vm.nodeId true).2 := by
    rw [← hhost.recv_fabric]
    unfold execTrecv
    dsimp only
    split
    · exact congrArg fabric (vmProceed_world _)
    · rw [vmProceed_world]
      split <;> rfl
  rw [hfabric]
  exact .recv _ _

/-- The register gets the word of the next message, or zero where there is none. -/
theorem execTrecv_word (hready : (fabric m.world).ready = true) (hn : m.vm.nodeId < nodeMax)
    (d : Fin 8) :
    words [(execTrecv host m d).2.vm.registers d] =
      words (payloads (receivedAt m.vm.nodeId
        (.recv m.vm.nodeId true (fabricRecv (fabric m.world) m.vm.nodeId true).1))) := by
  have hresult := hhost.recv_result m.vm.nodeId m.world
  have hregs : ∀ (n : Machine W) w, (vmProceed (n.setReg d w)).2.vm.registers d = w := by
    intro n w
    unfold vmProceed
    split <;> simp [Machine.setReg, Machine.setStatus]
  unfold execTrecv
  dsimp only
  rw [hresult]
  cases hr : (fabricRecv (fabric m.world) m.vm.nodeId true).1 with
  | ok msg =>
    have hone : receivedAt m.vm.nodeId (.recv m.vm.nodeId true (.ok msg)) = [msg] := if_pos rfl
    rw [hone]
    exact congrArg (fun w => words [w]) (hregs _ _)
  | error e =>
    have he : e = Err.notFound := by
      rw [fabricRecv, hready, if_neg (by decide), if_pos hn, if_pos rfl] at hr
      split at hr
      · exact (Except.error.inj hr).symm
      · cases hr
    dsimp only [receivedMessage]
    rw [if_pos he]
    exact congrArg (fun w => words [w]) (hregs _ _)

omit hhost in
/-- A step that neither sends nor receives. -/
theorem words_silent {e : Err} (hfabric : fabric m'.world = fabric m.world)
    (hquiet : e = Err.ok → ∀ i, fetch m.vm = some i → i.opcode ≠ .tsend ∧ i.opcode ≠ .trecv) :
    words (payloads ((fabric m.world).inbox node)) ++ words (tsendWord node m.vm e) =
      words (trecvWord node m.vm m'.vm e) ++ words (payloads ((fabric m'.world).inbox node)) := by
  have hsent : tsendWord node m.vm e = [] := by
    unfold tsendWord
    split
    next i hi => exact if_neg fun hs => (hquiet hs.2.1 i hi).1 hs.1
    next => rfl
  have hgot : trecvWord node m.vm m'.vm e = [] := by
    unfold trecvWord
    split
    next i hi => exact if_neg fun hs => (hquiet hs.2.1 i hi).2 hs.1
    next => rfl
  rw [hsent, hgot, hfabric]
  exact List.append_nil _

/-- TSEND adds its word to the inbox of the node its register names. -/
theorem tsend_words {e : Err} (hi : fetch m.vm = some i) (hop : i.opcode = .tsend)
    (h : execute host m.advance i = some (e, m')) :
    (words (payloads ((fabric m.world).inbox node)) ++ words (tsendWord node m.vm e) =
      words (trecvWord node m.vm m'.vm e) ++ words (payloads ((fabric m'.world).inbox node))) ∧
    (fabric m'.world).ready = (fabric m.world).ready := by
  have hgot : trecvWord node m.vm m'.vm e = [] := by
    simp only [trecvWord, hi]
    exact if_neg fun hs => by simp [hop] at hs
  unfold execute at h
  rw [hop] at h
  obtain ⟨hd, h⟩ := withReg_eq_some h
  obtain ⟨ha, h⟩ := withReg_eq_some h
  have hexec := Option.some.inj h
  rcases execTsend_cases hhost m.advance ⟨i.dst, hd⟩ ⟨i.srcA, ha⟩ i.imm with
    ⟨hbad, hsame⟩ | ⟨target, hto, hok, hstep⟩
  · rw [hexec] at hbad hsame
    exact ⟨words_silent hsame fun hok => absurd hok hbad, congrArg MessageFabric.ready hsame⟩
  · rw [hexec] at hok hstep
    have hdst : word18ToInt32 (m.vm.reg i.dst) = .ok (target : ℤ) := by
      rw [VmState.reg_of_lt _ hd]
      exact hto
    have hsent : tsendWord node m.vm e = payloads (sentTo node
        (.send (some ⟨target, m.vm.nodeId, u8 i.imm, .system, 0, m.vm.reg i.srcA⟩) Err.ok)) := by
      simp only [tsendWord, hi, sentTo]
      by_cases hn : target = node
      · rw [if_pos ⟨hop, hok, hn ▸ hdst⟩, if_pos ⟨trivial, hn⟩]
        rfl
      · have hother : ¬ (i.opcode = .tsend ∧ e = Err.ok ∧
            word18ToInt32 (m.vm.reg i.dst) = .ok (node : ℤ)) := by
          intro hs
          have hcast := Except.ok.inj (hdst.symm.trans hs.2.2)
          exact hn (by exact_mod_cast hcast)
        rw [if_neg hother, if_neg fun hs => hn hs.2]
        rfl
    rw [VmState.reg_of_lt _ ha] at hsent
    rw [hsent, hgot]
    exact ⟨FabricStep.words hstep (by rintro ⟨⟩), hstep.ready⟩

theorem trecv_words {e : Err} (hready : (fabric m.world).ready = true) (hnode : node < nodeMax)
    (hi : fetch m.vm = some i) (hop : i.opcode = .trecv)
    (h : execute host m.advance i = some (e, m')) :
    (words (payloads ((fabric m.world).inbox node)) ++ words (tsendWord node m.vm e) =
      words (trecvWord node m.vm m'.vm e) ++ words (payloads ((fabric m'.world).inbox node))) ∧
    (fabric m'.world).ready = (fabric m.world).ready := by
  have hsent : tsendWord node m.vm e = [] := by
    simp only [tsendWord, hi]
    exact if_neg fun hs => by simp [hop] at hs
  unfold execute at h
  rw [hop] at h
  obtain ⟨hd, h⟩ := withReg_eq_some h
  have hexec := Option.some.inj h
  have hstep := execTrecv_step hhost m.advance ⟨i.dst, hd⟩
  have hok : e = Err.ok := by
    have hfirst := congrArg Prod.fst hexec
    unfold execTrecv at hfirst
    dsimp only at hfirst
    split at hfirst
    · exact hfirst.symm
    · exact hfirst.symm
  have hmoved := @FabricStep.words node _ _ _ hstep trivial
  rw [hexec] at hstep hmoved
  refine ⟨?_, hstep.ready⟩
  rw [hsent]
  refine hmoved.trans ?_
  congr 1
  simp only [trecvWord, hi]
  by_cases hn : m.vm.nodeId = node
  · have hword := execTrecv_word hhost (m := m.advance) hready (hn ▸ hnode) ⟨i.dst, hd⟩
    rw [if_pos ⟨hop, hok, hn⟩, VmState.reg_of_lt _ hd]
    rw [hexec] at hword
    subst hn
    exact hword.symm
  · rw [if_neg fun hs => hn hs.2.2]
    have hnone : ∀ result, receivedAt node (.recv m.advance.vm.nodeId true result) = [] := by
      intro result
      cases result with
      | ok msg => exact if_neg hn
      | error e => rfl
    rw [hnone]
    rfl

theorem vmStep_words {e : Err} (hready : (fabric m.world).ready = true) (hnode : node < nodeMax)
    (h : vmStep host m = some (e, m')) :
    (words (payloads ((fabric m.world).inbox node)) ++ words (tsendWord node m.vm e) =
      words (trecvWord node m.vm m'.vm e) ++ words (payloads ((fabric m'.world).inbox node))) ∧
    (fabric m'.world).ready = (fabric m.world).ready := by
  rcases vmStep_cases h with ⟨hbad, hsame⟩ | ⟨i, hi, hexec⟩
  · have hfabric := congrArg fabric hsame
    exact ⟨words_silent hfabric fun hok => absurd hok hbad, congrArg MessageFabric.ready hfabric⟩
  by_cases hsend : i.opcode = .tsend
  · exact tsend_words hhost hi hsend hexec
  by_cases hrecv : i.opcode = .trecv
  · exact trecv_words hhost hready hnode hi hrecv hexec
  have hfabric : fabric m'.world = fabric m.world := execute_fabric hhost hsend hrecv hexec
  refine ⟨words_silent hfabric fun _ j hj => ?_, congrArg MessageFabric.ready hfabric⟩
  obtain rfl := Option.some.inj (hi.symm.trans hj)
  exact ⟨hsend, hrecv⟩

end Words

/-- A host whose world is the fabric alone. -/
def fabricHost : Host MessageFabric where
  fabricSend msg F := fabricSend F (some msg.onFabric)
  fabricRecv n F := (receivedMessage (fabricRecv F n true).1, (fabricRecv F n true).2)
  fabricGetCell _ F := (none, F)
  fabricGetCellByCoord _ _ := none
  cellAt _ _ := zeroCell
  gpioConnectOut _ F := F
  timeUs _ := 0
  configDeviceName _ := .error Err.notFound
  configLogLevel _ := .error Err.notFound
  printLog _ F := F
  taskDelayMs _ F := F
  mallocInstructions _ F := (true, F)
  callocWords _ F := (some 64, F)
  uninitialised _ _ := 0

theorem fabricHost_onFabric : OnFabric fabricHost id where
  send_result _ _ := rfl
  send_fabric _ _ := rfl
  recv_result _ _ := rfl
  recv_fabric _ _ := rfl
  cell _ _ := rfl
  gpio _ _ := rfl
  log _ _ := rfl
  delay _ _ := rfl

def unitWord : Word18 := Function.update zeroWord 0 1

def pairBoard : Board Bool MessageFabric where
  vms sender :=
    { blankMachine.vm with
      status := .ready
      nodeId := if sender then 1 else 0
      registers := Function.update (fun _ => zeroWord) ⟨1, by decide⟩ unitWord
      program := some [if sender then ⟨.tsend, 0, 1, 0, 0⟩ else ⟨.trecv, 2, 0, 0, 0⟩] }
  mem _ := zeroWord
  world := readyFabric

section Boards

variable {S S' : Board ι W} {l : BoardLabel} {ls : List BoardLabel} {node : ℕ}
  (hhost : OnFabric host fabric)
include hhost

theorem BoardStep.words (hready : (fabric S.world).ready = true) (hnode : node < nodeMax)
    (h : BoardStep host fabric S l S') :
    (S.pending fabric node ++ wordsSent node l = wordsGot node l ++ S'.pending fabric node) ∧
      (fabric S'.world).ready = true := by
  cases h with
  | vm i hstep =>
    obtain ⟨hwords, hkept⟩ := vmStep_words hhost hready hnode hstep
    exact ⟨hwords, hkept.trans hready⟩
  | task hl hstep => exact ⟨FabricStep.words hstep hl, hstep.ready.trans hready⟩
  | elsewhere hsame =>
    refine ⟨?_, hsame ▸ hready⟩
    unfold Board.pending
    rw [hsame]
    exact List.append_nil _

/-- The words that the VMs and tasks of a node receive are the words sent to it by TSENDs and calls
that went through, in that order, each once and none lost, however all of them interleave. -/
theorem words_pass_between_vms (hready : (fabric S.world).ready = true) (hnode : node < nodeMax)
    (h : Run (BoardStep host fabric) S ls S') :
    S.pending fabric node ++ ls.flatMap (wordsSent node) =
      ls.flatMap (wordsGot node) ++ S'.pending fabric node :=
  passes_on (fun S : Board ι W => (fabric S.world).ready = true)
    (fun _ _ _ hr hstep => (hstep.words hhost hr hnode).2)
    (fun _ _ _ hr hstep => (hstep.words hhost hr hnode).1) h hready

omit hhost in
/-- The VM at node `1` sends a word to node `0`, whose VM receives it. -/
theorem words_pass_between_vms_pair :
    ∃ S S' : Board Bool MessageFabric, ∃ ls : List BoardLabel,
      ls.flatMap (wordsGot 0) = [unitWord] ∧
        S.pending id 0 ++ ls.flatMap (wordsSent 0) =
          ls.flatMap (wordsGot 0) ++ S'.pending id 0 := by
  have hrun : Run (BoardStep fabricHost id) pairBoard _ _ :=
    .cons (.vm true rfl) <| .cons (.vm false rfl) <| .nil _
  exact ⟨_, _, _, rfl, words_pass_between_vms fabricHost_onFabric rfl (by decide) hrun⟩

end Boards

end ReflexOS.Vm
