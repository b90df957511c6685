import ReflexOS.TasmRoundTrip

set_option autoImplicit false

/-!
# The instructions as they are documented

An instruction is documented by the roles of its operands. The assembler decides which field each
operand goes to, and the interpreter which field has which role.
-/
namespace ReflexOS.Tasm
open Vm VmTernary VmMmu Fallible

/-- The entries of the specification; an `IMM` that an entry mentions comes last. -/
inductive Statement where
  | tnop
  | tldi (dst : Fin 8) (imm : ℤ)
  | tmov (dst src : Fin 8)
  | tld (dst addrReg : Fin 8)
  | tst (addrReg src : Fin 8)
  | tadd (dst srcA srcB : Fin 8)
  | tsub (dst srcA srcB : Fin 8)
  | tcmp (dst srcA srcB : Fin 8)
  | tsel (dst sel zero neg pos : Fin 8)
  | tjmp (target : ℤ)
  | tbrneg (src : Fin 8) (target : ℤ)
  | tbrzero (src : Fin 8) (target : ℤ)
  | tbrpos (src : Fin 8) (target : ℤ)
  | tsend (dstReg src : Fin 8) (op : ℤ)
  | trecv (dst : Fin 8)
  | tflush (src : Fin 8)
  | tinv (src : Fin 8)
  | tsys (dst srcA srcB : Fin 8) (id : ℤ)
  | thalt
  | troute (dst source sink : Fin 8) (imm : ℤ)
  | tbias (index bias : Fin 8)
  | tsense (dst cell : Fin 8) (imm : ℤ)

variable {W : Type*}

/-- What an entry describes. TBIAS leaves its result where TROUTE does, in its first operand. -/
def Statement.perform (host : Host W) (m : Machine W) : Statement → Err × Machine W
  | .tnop => vmProceed m
  | .tldi dst imm => writeResult m dst .invalidImmediate (word18FromInt32 imm)
  | .tmov dst src => vmProceed (m.setReg dst (m.vm.registers src))
  | .tld dst addrReg => execTld m dst addrReg
  | .tst addrReg src => execTst m addrReg src
  | .tadd dst srcA srcB =>
    writeResult m dst .arithmeticOverflow (word18Add (m.vm.registers srcA) (m.vm.registers srcB))
  | .tsub dst srcA srcB =>
    writeResult m dst .arithmeticOverflow
      (word18Subtract (m.vm.registers srcA) (m.vm.registers srcB))
  | .tcmp dst srcA srcB => execTcmp m dst srcA srcB
  | .tsel dst sel zero neg pos =>
    writeResult m dst .arithmeticOverflow
      (word18Select (branchTrit (m.vm.registers sel)) (m.vm.registers neg) (m.vm.registers zero)
        (m.vm.registers pos))
  | .tjmp target => vmJump m target
  | .tbrneg src target => execBranch m src (-1) target
  | .tbrzero src target => execBranch m src 0 target
  | .tbrpos src target => execBranch m src 1 target
  | .tsend dstReg src op => execTsend host m dstReg src op
  | .trecv dst => execTrecv host m dst
  | .tflush src => execCacheOp cacheFlush m src
  | .tinv src => execCacheOp cacheFlushInvalidate m src
  | .tsys dst srcA _ id => execTsys host m dst srcA id
  | .thalt => vmProceed (m.setStatus .halted)
  | .troute dst source sink imm => execTroute host m dst source sink imm
  | .tbias index bias => execTbias host m index index bias
  | .tsense dst cell imm => execTsense host m dst cell imm

def Statement.fields : Statement → Fields
  | .tnop => ⟨0, 0, 0, 0, 0⟩
  | .tldi dst imm => ⟨1, dst, 0, 0, imm⟩
  | .tmov dst src => ⟨2, dst, src, 0, 0⟩
  | .tld dst addrReg => ⟨3, dst, addrReg, 0, 0⟩
  | .tst addrReg src => ⟨4, addrReg, src, 0, 0⟩
  | .tadd dst srcA srcB => ⟨5, dst, srcA, srcB, 0⟩
  | .tsub dst srcA srcB => ⟨6, dst, srcA, srcB, 0⟩
  | .tcmp dst srcA srcB => ⟨7, dst, srcA, srcB, 0⟩
  | .tsel dst sel zero neg pos => 
    ⟨8, dst, sel, zero, ((neg &&& 7 : ℕ) ||| ((pos &&& 7 : ℕ) <<< 3) : ℕ)⟩
  | .tjmp target => ⟨9, 0, 0, 0, target⟩
  | .tbrneg src target => ⟨10, 0, src, 0, target⟩
  | .tbrzero src target => ⟨11, 0, src, 0, target⟩
  | .tbrpos src target => ⟨12, 0, src, 0, target⟩
  | .tsend dstReg src op => ⟨13, dstReg, src, 0, op⟩
  | .trecv dst => ⟨14, dst, 0, 0, 0⟩
  | .tflush src => ⟨15, 0, src, 0, 0⟩
  | .tinv src => ⟨16, 0, src, 0, 0⟩
  | .tsys dst srcA srcB id => ⟨17, dst, srcA, srcB, id⟩
  | .thalt => ⟨18, 0, 0, 0, 0⟩
  | .troute dst source sink imm => ⟨19, dst, source, sink, imm⟩
  | .tbias index bias => ⟨20, index, bias, 0, 0⟩
  | .tsense dst cell imm => ⟨21, dst, cell, 0, imm⟩

variable (py : Python)

def readReg (lineno : ℕ) (token : Text) : Except String (Fin 8) := do
  let r ← parseReg py lineno token
  if h : r < 8 then .ok ⟨r, h⟩ else .error s!"Line {lineno}: Register out of range: {str token}"

/-- A line read as the specification has it. The numbers are those of its own table. -/
def statementOf (labels : List (Text × ℕ)) (lineno : ℕ) (id : ℕ) (operands : List Text) :
    Except String Statement :=
  let reg := readReg py lineno
  let imm := parseImm py labels
  match id, operands with
  | 0, [] => .ok .tnop
  | 1, [a, b] => do return .tldi (← reg a) (← imm b)
  | 2, [a, b] => do return .tmov (← reg a) (← reg b)
  | 3, [a, b] => do return .tld (← reg a) (← reg b)
  | 4, [a, b] => do return .tst (← reg a) (← reg b)
  | 5, [a, b, c] => do return .tadd (← reg a) (← reg b) (← reg c)
  | 6, [a, b, c] => do return .tsub (← reg a) (← reg b) (← reg c)
  | 7, [a, b, c] => do return .tcmp (← reg a) (← reg b) (← reg c)
  | 8, [a, b, c, d, e] => do return .tsel (← reg a) (← reg b) (← reg c) (← reg d) (← reg e)
  | 9, [a] => do return .tjmp (← imm a)
  | 10, [a, b] => do return .tbrneg (← reg a) (← imm b)
  | 11, [a, b] => do return .tbrzero (← reg a) (← imm b)
  | 12, [a, b] => do return .tbrpos (← reg a) (← imm b)
  | 13, [a, b, c] => do return .tsend (← reg a) (← reg b) (← imm c)
  | 14, [a] => do return .trecv (← reg a)
  | 15, [a] => do return .tflush (← reg a)
  | 16, [a] => do return .tinv (← reg a)
  | 17, [a, b, c, d] => do return .tsys (← reg a) (← reg b) (← reg c) (← imm d)
  | 18, [] => .ok .thalt
  | 19, [a, b, c] => do return .troute (← reg a) (← reg b) (← reg c) 0
  | 19, [a, b, c, d] => do return .troute (← reg a) (← reg b) (← reg c) (← imm d)
  | 20, [a, b] => do return .tbias (← reg a) (← reg b)
  | 21, [a, b] => do return .tsense (← reg a) (← reg b) 0
  | 21, [a, b, c] => do return .tsense (← reg a) (← reg b) (← imm c)
  | _, _ => .error s!"Line {lineno}: not in the specification"

def tokens (line : Text) : List Text := splitRuns (fun c => c == ',' || py.isSpace c) false line

def mnemonic (line : Text) : Text := py.upper ((tokens py line).headD [])

def operandsOf (line : Text) : List Text := (tokens py line).tail

def documented (labels : List (Text × ℕ)) (lineno : ℕ) (line : Text) : Except String Statement :=
  match opcodes.lookup (mnemonic py line) with
  | none => .error s!"Line {lineno}: not in the specification"
  | some id => statementOf py labels lineno id (operandsOf py line)

/-- A step at the instruction `i` does what the entry `s` describes. -/
def AsDocumented (s : Statement) (i : Fields) : Prop :=
  ∀ (W : Type) (host : Host W) (m : Machine W), fetch m.vm = some i.instruction →
    m.vm.status ≠ .halted → m.vm.status ≠ .faulted →
      vmStep host m = some (s.perform host m.advance)

/-- A register is no number and no name of a syscall. -/
structure Python.Lawful : Prop where
  int_register : ∀ digits, ∃ e, py.int ('r' :: digits) = .error e
  upper_register : ∀ digits, (py.upper ('r' :: digits)).head? = some 'R'

section Execution

/-- The two registers that TSEL keeps in its immediate. -/
theorem register_field (r s : Fin 8) :
    immRegister ((r &&& 7 : ℕ) ||| ((s &&& 7 : ℕ) <<< 3) : ℕ) 0 = r ∧
      immRegister ((r &&& 7 : ℕ) ||| ((s &&& 7 : ℕ) <<< 3) : ℕ) 3 = s := by
  rw [and_seven r.isLt, and_seven s.isLt, lor_shift (show (r : ℕ) < 2 ^ 3 from r.isLt)]
  constructor <;> apply Fin.ext <;> dsimp only [immRegister, u32] <;> omega

theorem withReg_val {α : Type*} (r : Fin 8) (k : Fin 8 → Option α) : withReg r k = k r := by
  unfold withReg
  exact dif_pos r.isLt

variable {host : Host W} {m : Machine W}

theorem execute_tsel (dst sel zero neg pos : Fin 8) :
    execute host m (Statement.tsel dst sel zero neg pos).fields.instruction =
      some ((Statement.tsel dst sel zero neg pos).perform host m) := by
  obtain ⟨hneg, hpos⟩ := register_field neg pos
  simp only [Statement.fields, Fields.instruction, Opcode.ofCode, execute, withReg_val, execTsel,
    hneg, hpos, Statement.perform]

/-- The index is read from the second operand and the bias from the field that stays zero. -/
theorem execute_tbias (index bias : Fin 8) :
    execute host m (Statement.tbias index bias).fields.instruction =
      some (execTbias host m index bias 0) := by
  simp only [Statement.fields, Fields.instruction, Opcode.ofCode, execute, withReg_val]
  exact withReg_val 0 _

theorem execute_fields {s : Statement} (h : ∀ index bias, s ≠ .tbias index bias) :
    execute host m s.fields.instruction = some (s.perform host m) := by
  cases s with
  | tsel dst sel zero neg pos => exact execute_tsel dst sel zero neg pos
  | tbias index bias => exact absurd rfl (h index bias)
  | tsys dst srcA srcB id =>
    simp only [Statement.fields, Fields.instruction, Opcode.ofCode, execute, withReg_val,
      Statement.perform]
  | _ =>
    simp only [Statement.fields, Fields.instruction, Opcode.ofCode, execute, withReg_val,
      Statement.perform]

theorem fields_registers (s : Statement) : validateRegisters s.fields.instruction = true := by
  have hreg : ∀ r : Fin 8, registerIndexValid r = true := fun r => decide_eq_true r.isLt
  cases s <;>
    simp only [Statement.fields, Fields.instruction, Opcode.ofCode, validateRegisters, hreg,
      Bool.and_self]

theorem asDocumented_fields {s : Statement} (h : ∀ index bias, s ≠ .tbias index bias) :
    AsDocumented s s.fields := by
  intro W host m hfetch hhalted hfaulted
  rw [vmStep_of_fetch host hfetch hhalted hfaulted (fields_registers s), execute_fields h]

end Execution

section Bias
variable {host : Host W} {m : Machine W}

theorem vmProceed_registers (m : Machine W) : (vmProceed m).2.vm.registers = m.vm.registers := by
  unfold vmProceed
  dsimp only
  split
  · rfl
  · rfl

theorem vmProceed_routeManifest (m : Machine W) :
    (vmProceed m).2.vm.routeManifest = m.vm.routeManifest := by
  unfold vmProceed
  dsimp only
  split
  · rfl
  · rfl

/-- The low trit tells the two results apart. -/
theorem setInt32_low (m : Machine W) (r : Fin 8) :
    (setInt32 m r 1).vm.registers r 0 = 1 ∧ (setInt32 m r (-1)).vm.registers r 0 = -1 := by
  have hone : setInt32 m r 1 = m.setReg r (Trits.ofList (digits 18 1).1) := rfl
  have hneg : setInt32 m r (-1) = m.setReg r (Trits.ofList (digits 18 (-1)).1) := rfl
  have hreg : ∀ w, (m.setReg r w).vm.registers r = w := fun w => Function.update_self _ _ _
  rw [hone, hneg, hreg, hreg]
  exact ⟨rfl, rfl⟩

theorem setInt32_routeManifest (m : Machine W) (r : Fin 8) (v : ℤ) :
    (setInt32 m r v).vm.routeManifest = m.vm.routeManifest := by
  unfold setInt32
  split
  · rfl
  · rfl

/-- An index past the one open route. -/
theorem execTbias_past {dst index bias : Fin 8} (hcount : m.vm.routeCount = 1)
    (hindex : scalarOf host m 18 (m.vm.registers index) = 1) :
    (execTbias host m dst index bias).2.vm.registers dst 0 = -1 := by
  unfold execTbias
  dsimp only
  rw [dif_neg (by omega), vmProceed_registers]
  exact (setInt32_low m dst).2

theorem execTbias_open {dst index bias : Fin 8} (hcount : m.vm.routeCount = 1)
    (hindex : scalarOf host m 18 (m.vm.registers index) = 0) :
    (execTbias host m dst index bias).2.vm.registers dst 0 = 1 ∧
      ((execTbias host m dst index bias).2.vm.routeManifest 0).orientation =
        scalarOf host m 19 (m.vm.registers bias) := by
  have hslot : (scalarOf host m 18 (m.vm.registers index)).toNat = 0 := by omega
  unfold execTbias
  dsimp only
  rw [dif_pos (by omega), vmProceed_registers, vmProceed_routeManifest, setInt32_routeManifest]
  refine ⟨(setInt32_low _ dst).1, ?_⟩
  simp only [hslot]
  change (Function.update m.vm.routeManifest 0 _ 0).orientation = _
  rw [Function.update_self]

/-- A VM with one open route that stands at the instruction `i`. -/
def biasMachine (registers : Fin 8 → Word18) (i : Fields) : Machine Unit :=
  { storeLoadMachine with vm := { storeLoadMachine.vm with
      registers := registers
      program := some [i.instruction]
      routeCount := 1 } }

theorem bias_steps {index bias : Fin 8}
    (h : AsDocumented (.tbias index bias) (Statement.tbias index bias).fields)
    (registers : Fin 8 → Word18) :
    ∃ m : Machine Unit, m.vm.registers = registers ∧ m.vm.routeCount = 1 ∧
      execTbias quietHost m index bias 0 = execTbias quietHost m index index bias := by
  let m := biasMachine registers (Statement.tbias index bias).fields
  refine ⟨m.advance, rfl, rfl, ?_⟩
  have hstep := h Unit quietHost m rfl Status.noConfusion Status.noConfusion
  rw [vmStep_of_fetch quietHost rfl Status.noConfusion Status.noConfusion (fields_registers _),
    execute_tbias] at hstep
  exact Option.some.inj hstep

theorem scalar_zeroWord (m : Machine Unit) (slot : ℕ) : scalarOf quietHost m slot zeroWord = 0 :=
  rfl

theorem scalar_unit (m : Machine Unit) (slot : ℕ) :
    scalarOf quietHost m slot (Function.update zeroWord 0 1) = 1 := rfl

/-- The entry and the code agree where the index and the bias are both in `r0`. -/
theorem asDocumented_tbias_iff (index bias : Fin 8) :
    AsDocumented (.tbias index bias) (Statement.tbias index bias).fields ↔
      index = 0 ∧ bias = 0 := by
  constructor
  · intro h
    by_cases hsame : index = bias
    · subst hsame
      by_contra hzero
      have hne : index ≠ 0 := fun h => hzero ⟨h, h⟩
      -- The route is told to turn to 0 and turns to the one of `r0`.
      obtain ⟨m, hregs, hcount, heq⟩ := bias_steps h
        (Function.update (fun _ => zeroWord) 0 (Function.update zeroWord 0 1))
      have hindex : scalarOf quietHost m 18 (m.vm.registers index) = 0 := by
        rw [hregs, Function.update_of_ne hne, scalar_zeroWord]
      have hcode := (@execTbias_open _ _ _ index index 0 hcount hindex).2
      have hentry := (@execTbias_open _ _ _ index index index hcount hindex).2
      rw [hregs, Function.update_self, scalar_unit, heq, hentry, hregs,
        Function.update_of_ne hne, scalar_zeroWord] at hcode
      exact absurd hcode (by decide)
    · -- The index is 0 and the bias 1: the code takes the bias for the index.
      obtain ⟨m, hregs, hcount, heq⟩ := bias_steps h
        (Function.update (fun _ => zeroWord) bias (Function.update zeroWord 0 1))
      have hpast : scalarOf quietHost m 18 (m.vm.registers bias) = 1 := by
        rw [hregs, Function.update_self, scalar_unit]
      have hindex : scalarOf quietHost m 18 (m.vm.registers index) = 0 := by
        rw [hregs, Function.update_of_ne hsame, scalar_zeroWord]
      have hcode := @execTbias_past _ _ _ index bias 0 hcount hpast
      have hentry := (@execTbias_open _ _ _ index index bias hcount hindex).1
      rw [heq, hentry] at hcode
      exact absurd hcode (by decide)
  · rintro ⟨rfl, rfl⟩ W host m hfetch hhalted hfaulted
    rw [vmStep_of_fetch host hfetch hhalted hfaulted (fields_registers _), execute_tbias]
    rfl

end Bias

section Operands

/-- What the assembler makes of a line, if anything, is what the entry of that line says. -/
def Matches (x : Except String Fields) (y : Except String Statement) : Prop :=
  Yields (fun i => ∃ s, y = .ok s ∧ s.fields = i) x

variable {py} {labels : List (Text × ℕ)} {lineno : ℕ} {y : Except String Statement}

theorem matches_error (e : String) : Matches (.error e) y := yields_error e

theorem matches_ok (s : Statement) {i : Fields} (h : s.fields = i) : Matches (.ok i) (.ok s) :=
  yields_ok ⟨s, rfl, h⟩

theorem matches_reg {f : ℕ → Except String Fields} {g : Fin 8 → Except String Statement}
    {token : Text} (h : ∀ r : Fin 8, Matches (f r) (g r)) :
    Matches (parseReg py lineno token >>= f) (readReg py lineno token >>= g) := by
  unfold readReg
  have hlt := @parseReg_yields py lineno token
  cases hreg : parseReg py lineno token with
  | error e => exact matches_error e
  | ok r =>
    have hr : r < 8 := hlt r hreg
    have hread : ((Except.ok r : Except String ℕ) >>= fun r =>
        if h : r < 8 then .ok ⟨r, h⟩
        else .error s!"Line {lineno}: Register out of range: {str token}") =
          (.ok ⟨r, hr⟩ : Except String (Fin 8)) := dif_pos hr
    rw [hread]
    exact h ⟨r, hr⟩

theorem matches_imm {f : ℤ → Except String Fields} {g : ℤ → Except String Statement}
    {token : Text} (h : ∀ v, Matches (f v) (g v)) :
    Matches (parseImm py labels token >>= f) (parseImm py labels token >>= g) := by
  cases parseImm py labels token with
  | error e => exact matches_error e
  | ok v => exact h v

theorem parseOperands_matches {op : Text} {id : ℕ} (hop : (op, id) ∈ opcodes) (hroute : id ≠ 19)
    (operands : List Text) :
    Matches (parseOperands py labels lineno op id operands)
      (statementOf py labels lineno id operands) := by
  simp only [opcodes, List.mem_cons, Prod.mk.injEq, List.not_mem_nil, or_false] at hop
  rcases hop with ⟨rfl, rfl⟩ | ⟨rfl, rfl⟩ | ⟨rfl, rfl⟩ | ⟨rfl, rfl⟩ | ⟨rfl, rfl⟩ | ⟨rfl, rfl⟩ |
    ⟨rfl, rfl⟩ | ⟨rfl, rfl⟩ | ⟨rfl, rfl⟩ | ⟨rfl, rfl⟩ | ⟨rfl, rfl⟩ | ⟨rfl, rfl⟩ | ⟨rfl, rfl⟩ |
    ⟨rfl, rfl⟩ | ⟨rfl, rfl⟩ | ⟨rfl, rfl⟩ | ⟨rfl, rfl⟩ | ⟨rfl, rfl⟩ | ⟨rfl, rfl⟩ | ⟨rfl, rfl⟩ |
    ⟨rfl, rfl⟩ | ⟨rfl, rfl⟩
  any_goals exact absurd rfl hroute
  all_goals
    simp +decide only [parseOperands, if_true, if_false]
    split
    all_goals
      repeat' first
        | exact matches_error _
        | exact matches_ok _ rfl
        | refine matches_reg fun _ => ?_
        | refine matches_imm fun _ => ?_

theorem encodeLine_fields {line : Text} {i : Fields} (h : encodeLine py labels lineno line = .ok i) :
    ∃ id, opcodes.lookup (mnemonic py line) = some id ∧
      parseOperands py labels lineno (mnemonic py line) id (operandsOf py line) = .ok i := by
  unfold encodeLine at h
  unfold mnemonic operandsOf tokens
  split at h
  · cases h
  next name operands hline =>
    rw [hline]
    dsimp only at h
    split at h
    · cases h
    next id hid =>
      refine ⟨id, hid, ?_⟩
      cases hparse : parseOperands py labels lineno (py.upper name) id operands with
      | error e =>
        rw [hparse] at h
        cases h
      | ok j =>
        rw [hparse] at h
        change checkImm lineno j = .ok i at h
        unfold checkImm at h
        split at h
        · cases h
        · exact hparse.trans h

/-- No token is a register and a number. -/
theorem imm_of_register (hpy : py.Lawful) {token : Text} {r : ℕ}
    (h : parseReg py lineno token = .ok r) (v : ℤ) : parseImm py labels token ≠ .ok v := by
  unfold parseReg at h
  split at h
  next digits =>
    have hlookup : syscallNames.lookup (py.upper ('r' :: digits)) = none := by
      by_contra hsome
      obtain ⟨id, hid⟩ := Option.ne_none_iff_exists'.mp hsome
      have hall : ∀ p ∈ syscallNames, p.1.head? ≠ some 'R' := by decide
      exact hall _ (mem_of_lookup hid) (hpy.upper_register digits)
    obtain ⟨e, he⟩ := hpy.int_register digits
    have himm : parseImm py labels ('r' :: digits) = .error e := by
      unfold parseImm
      split
      next heq => exact absurd (List.cons.inj heq).1 (by decide)
      next heq => exact absurd (List.cons.inj heq).1 (by decide)
      next =>
        rw [hlookup]
        exact he
    rw [himm]
    exact fun h => nomatch h
  · cases h

/-- The third operand of TROUTE is a number for the assembler and a register by its entry. -/
theorem troute_undocumented (hpy : py.Lawful) {operands : List Text} {i : Fields} {s : Statement}
    (h : parseOperands py labels lineno (text "TROUTE") 19 operands = .ok i) :
    statementOf py labels lineno 19 operands ≠ .ok s := by
  intro hs
  simp +decide only [parseOperands, if_true, if_false] at h
  split at h
  next a b c =>
    obtain ⟨dst, -, h⟩ := of_bind_ok h
    obtain ⟨srcA, -, h⟩ := of_bind_ok h
    obtain ⟨imm, himm, -⟩ := of_bind_ok h
    obtain ⟨r₁, -, hs⟩ := of_bind_ok hs
    obtain ⟨r₂, -, hs⟩ := of_bind_ok hs
    obtain ⟨r₃, hsink, -⟩ := of_bind_ok hs
    obtain ⟨r, hr, -⟩ := of_bind_ok hsink
    exact imm_of_register hpy hr imm himm
  · cases h

theorem readReg_ok {token : Text} {r : ℕ} (h : parseReg py lineno token = .ok r) :
    ∃ r' : Fin 8, (r' : ℕ) = r ∧ readReg py lineno token = .ok r' := by
  have hlt : r < 8 := parseReg_yields lineno token r h
  refine ⟨⟨r, hlt⟩, rfl, ?_⟩
  unfold readReg
  rw [h]
  exact dif_pos hlt

theorem tbias_operands {operands : List Text} {i : Fields}
    (h : parseOperands py labels lineno (text "TBIAS") 20 operands = .ok i) :
    ∃ a b, ∃ index bias : Fin 8, operands = [a, b] ∧ parseReg py lineno a = .ok (index : ℕ) ∧
      parseReg py lineno b = .ok (bias : ℕ) ∧
      statementOf py labels lineno 20 operands = .ok (.tbias index bias) ∧
      i = (Statement.tbias index bias).fields := by
  simp +decide only [parseOperands, if_true, if_false] at h
  split at h
  next a b =>
    obtain ⟨dst, hdst, h⟩ := of_bind_ok h
    obtain ⟨srcA, hsrcA, h⟩ := of_bind_ok h
    obtain ⟨index, rfl, hindex⟩ := readReg_ok hdst
    obtain ⟨bias, rfl, hbias⟩ := readReg_ok hsrcA
    refine ⟨a, b, index, bias, rfl, hdst, hsrcA, ?_, (Except.ok.inj h).symm⟩
    simp only [statementOf, hindex, hbias]
    rfl
  · cases h

theorem parseOperands_opcode {op : Text} {id : ℕ} (operands : List Text) :
    Yields (·.opcode = id) (parseOperands py labels lineno op id operands) := by
  unfold parseOperands
  dsimp only
  repeat' apply yields_ite
  all_goals
    try split
    all_goals
      repeat' first
        | exact yields_error _
        | exact yields_ok rfl
        | apply reg_bind; intro _ _
        | apply imm_bind; intro _

end Operands

theorem asciiPython_lawful : asciiPython.Lawful where
  int_register digits := by
    have hdigits : ¬('r' :: digits ≠ [] ∧ ('r' :: digits).all Char.isDigit) := by
      rintro ⟨-, h⟩
      rw [List.all_cons, Bool.and_eq_true] at h
      exact absurd h.1 (by decide)
    have hsign : ¬('r' :: digits).head? = some '-' :=
      fun h => absurd (Option.some.inj h) (by decide)
    refine ⟨"invalid literal for int() with base 10", ?_⟩
    unfold asciiPython
    dsimp only
    rw [if_neg hsign, if_neg hdigits]
  upper_register _ := rfl

end ReflexOS.Tasm
