import ReflexOS.Crc32
import ReflexOS.PythonText
import ReflexOS.LittleEndian
import Mathlib.Data.List.DropRight

set_option autoImplicit false

/-!
# The assembler

Two passes over the text of a program, then the image. What Python's strings do with Unicode is
a parameter.
-/
namespace ReflexOS.Tasm

abbrev Text := List Char

/-- `str.isspace` of one character, `str.upper` and `int`. -/
structure Python where
  isSpace : Char → Bool
  upper : Text → Text
  int : Text → Except String ℤ

def text (s : String) : Text := s.toList

def str (t : Text) : String := String.ofList t

def opcodes : List (Text × ℕ) :=
  [(text "TNOP", 0), (text "TLDI", 1), (text "TMOV", 2), (text "TLD", 3), (text "TST", 4),
    (text "TADD", 5), (text "TSUB", 6), (text "TCMP", 7), (text "TSEL", 8), (text "TJMP", 9),
    (text "TBRNEG", 10), (text "TBRZERO", 11), (text "TBRPOS", 12), (text "TSEND", 13),
    (text "TRECV", 14), (text "TFLUSH", 15), (text "TINV", 16), (text "TSYS", 17),
    (text "THALT", 18), (text "TROUTE", 19), (text "TBIAS", 20), (text "TSENSE", 21)]

def syscallNames : List (Text × ℕ) :=
  [(text "LOG", 0), (text "UPTIME", 1), (text "CONFIG_GET", 2), (text "DELAY", 3)]

/-- The lines of a file under universal newlines; `acc` is the line so far, backwards. -/
def readLines (acc : Text) : Text → List Text
  | [] => if acc = [] then [] else [acc.reverse]
  | '\r' :: '\n' :: cs => acc.reverse :: readLines [] cs
  | '\n' :: cs => acc.reverse :: readLines [] cs
  | '\r' :: cs => acc.reverse :: readLines [] cs
  | c :: cs => readLines (c :: acc) cs

/-- `re.split` at runs of separators; `inRun` says that one was just read. -/
def splitRuns (sep : Char → Bool) (inRun : Bool) : Text → List Text
  | [] => [[]]
  | c :: cs =>
    if sep c then
      if inRun then splitRuns sep true cs else [] :: splitRuns sep true cs
    else
      match splitRuns sep false cs with
      | token :: tokens => (c :: token) :: tokens
      | [] => [[c]]

variable (py : Python)

def strip (line : Text) : Text := (line.dropWhile py.isSpace).rdropWhile py.isSpace

/-- `str.split`, at white space. -/
def splitSpace (line : Text) : List Text := (splitRuns py.isSpace false line).filter (· ≠ [])

def stripComment (raw : Text) : Text :=
  strip py ((raw.takeWhile (· ≠ ';')).takeWhile (· ≠ '#'))

/-- What the first pass collects. -/
structure Source where
  labels : List (Text × ℕ)
  instrLines : List (ℕ × Text)
  entryLabel : Option Text

def readEntry (src : Source) (lineno : ℕ) (line : Text) : Except String Source :=
  match splitSpace py line with
  | [_, label] =>
    if src.entryLabel.isSome then .error s!"Line {lineno}: .entry already declared"
    else .ok { src with entryLabel := some label }
  | _ :: _ :: parts => .error s!"Line {lineno}: .entry takes one label, got {parts.length + 1}"
  | _ => .error s!"Line {lineno}: .entry requires a label"

def readLabel (src : Source) (lineno : ℕ) (line : Text) : Except String Source :=
  let name := strip py line.dropLast
  if name = [] then .error s!"Line {lineno}: empty label"
  else if (src.labels.lookup name).isSome then
    .error s!"Line {lineno}: duplicate label '{str name}'"
  else .ok { src with labels := (name, src.instrLines.length) :: src.labels }

def readLine (src : Source) (lineno : ℕ) (raw : Text) : Except String Source :=
  let line := stripComment py raw
  if line = [] then .ok src
  else if (text ".entry").isPrefixOf line then readEntry py src lineno line
  else if line.getLast? = some ':' then readLabel py src lineno line
  else .ok { src with instrLines := src.instrLines ++ [(lineno, line)] }

def firstPass (src : Source) (lineno : ℕ) : List Text → Except String Source
  | [] => .ok src
  | raw :: lines => do
    let src ← readLine py src lineno raw
    firstPass src (lineno + 1) lines

def entryOf (src : Source) : Except String ℕ :=
  match src.entryLabel with
  | none => .ok 0
  | some label =>
    match src.labels.lookup label with
    | none => .error s!"Unknown entry label: {str label}"
    | some ip => .ok ip

def ternaryValue : Text → ℤ → ℤ
  | [], _ => 0
  | d :: digits, power =>
    (if d = '+' then power else if d = '-' then -power else 0) + ternaryValue digits (power * 3)

def parseTernary (lit : Text) : ℤ := ternaryValue (lit.drop 1).reverse 1

def parseImm (labels : List (Text × ℕ)) : Text → Except String ℤ
  | 't' :: digits => .ok (parseTernary ('t' :: digits))
  | '@' :: target =>
    match labels.lookup target with
    | none => .error s!"Unknown label: {str target}"
    | some ip => .ok ip
  | lit =>
    match syscallNames.lookup (py.upper lit) with
    | some id => .ok id
    | none => py.int lit

def parseReg (lineno : ℕ) : Text → Except String ℕ
  | 'r' :: digits => do
    let reg ← py.int digits
    if reg < 0 ∨ reg > 7 then .error s!"Line {lineno}: Register out of range: r{str digits}"
    else .ok reg.toNat
  | token => .error s!"Line {lineno}: Expected register, got {str token}"

/-- An instruction as the assembler holds it. -/
structure Fields where
  opcode : ℕ
  dst : ℕ
  srcA : ℕ
  srcB : ℕ
  imm : ℤ
deriving DecidableEq, Repr

/-- The operands of a line, in the fields of its instruction. -/
def parseOperands (labels : List (Text × ℕ)) (lineno : ℕ) (op : Text) (id : ℕ)
    (operands : List Text) : Except String Fields :=
  let reg := parseReg py lineno
  let imm := parseImm py labels
  if op ∈ [text "TNOP", text "THALT"] then
    match operands with
    | [] => .ok ⟨id, 0, 0, 0, 0⟩
    | _ => .error s!"Line {lineno}: {str op} takes no operands"
  else if op = text "TLDI" then
    match operands with
    | [a, b] => do return ⟨id, ← reg a, 0, 0, ← imm b⟩
    | _ => .error s!"Line {lineno}: TLDI requires DST, IMM"
  else if op ∈ [text "TMOV", text "TLD", text "TST"] then
    match operands with
    | [a, b] => do return ⟨id, ← reg a, ← reg b, 0, 0⟩
    | _ => .error s!"Line {lineno}: {str op} requires two registers"
  else if op ∈ [text "TADD", text "TSUB", text "TCMP"] then
    match operands with
    | [a, b, c] => do return ⟨id, ← reg a, ← reg b, ← reg c, 0⟩
    | _ => .error s!"Line {lineno}: {str op} requires DST, SRC_A, SRC_B"
  else if op = text "TSEL" then
    match operands with
    | [a, b, c, d, e] => do
      let dst ← reg a
      let srcA ← reg b
      let srcB ← reg c
      let neg ← reg d
      let pos ← reg e
      return ⟨id, dst, srcA, srcB, ((neg &&& 7) ||| ((pos &&& 7) <<< 3) : ℕ)⟩
    | _ => .error s!"Line {lineno}: TSEL requires DST, SEL, ZERO, NEG, POS"
  else if op = text "TJMP" then
    match operands with
    | [a] => do return ⟨id, 0, 0, 0, ← imm a⟩
    | _ => .error s!"Line {lineno}: TJMP requires TARGET"
  else if op ∈ [text "TBRNEG", text "TBRZERO", text "TBRPOS"] then
    match operands with
    | [a, b] => do return ⟨id, 0, ← reg a, 0, ← imm b⟩
    | _ => .error s!"Line {lineno}: {str op} requires SRC, TARGET"
  else if op = text "TSEND" then
    match operands with
    | [a, b, c] => do return ⟨id, ← reg a, ← reg b, 0, ← imm c⟩
    | _ => .error s!"Line {lineno}: TSEND requires DST, SRC, OP"
  else if op = text "TRECV" then
    match operands with
    | [a] => do return ⟨id, ← reg a, 0, 0, 0⟩
    | _ => .error s!"Line {lineno}: TRECV requires DST"
  else if op ∈ [text "TFLUSH", text "TINV"] then
    match operands with
    | [a] => do return ⟨id, 0, ← reg a, 0, 0⟩
    | _ => .error s!"Line {lineno}: {str op} requires SRC"
  else if op = text "TSYS" then
    match operands with
    | [a, b, c, d] => do return ⟨id, ← reg a, ← reg b, ← reg c, ← imm d⟩
    | _ => .error s!"Line {lineno}: TSYS requires DST, SRC_A, SRC_B, ID"
  else if op = text "TROUTE" then
    match operands with
    | [a, b, c] => do return ⟨id, ← reg a, ← reg b, 0, ← imm c⟩
    | _ => .error s!"Line {lineno}: TROUTE requires DST, SRC_A, IMM"
  else if op = text "TBIAS" then
    match operands with
    | [a, b] => do return ⟨id, ← reg a, ← reg b, 0, 0⟩
    | _ => .error s!"Line {lineno}: TBIAS requires DST, SRC_A"
  else if op = text "TSENSE" then
    match operands with
    | [a, b, c] => do return ⟨id, ← reg a, ← reg b, 0, ← imm c⟩
    | _ => .error s!"Line {lineno}: TSENSE requires DST, SRC_A, IMM"
  else .error s!"Line {lineno}: Unhandled opcode {str op}"

def immMin : ℤ := -2 ^ 16
def immMax : ℤ := 2 ^ 16 - 1

def checkImm (lineno : ℕ) (i : Fields) : Except String Fields :=
  if i.imm < immMin ∨ i.imm > immMax then
    .error (s!"Line {lineno}: immediate {i.imm} out of range for the 17-bit signed field " ++
      s!"({immMin}..{immMax})")
  else .ok i

def encodeLine (labels : List (Text × ℕ)) (lineno : ℕ) (line : Text) : Except String Fields :=
  match splitRuns (fun c => c == ',' || py.isSpace c) false line with
  | [] => .error s!"Line {lineno}: Unknown opcode "
  | name :: operands =>
    let op := py.upper name
    match opcodes.lookup op with
    | none => .error s!"Line {lineno}: Unknown opcode {str op}"
    | some id => do
      let i ← parseOperands py labels lineno op id operands
      checkImm lineno i

def secondPass (labels : List (Text × ℕ)) : List (ℕ × Text) → Except String (List Fields)
  | [] => .ok []
  | (lineno, line) :: lines => do
    let i ← encodeLine py labels lineno line
    let rest ← secondPass labels lines
    return i :: rest

/-- The program of a source text: its entry and its instructions. -/
def translate (source : Text) : Except String (ℕ × List Fields) := do
  let src ← firstPass py ⟨[], [], none⟩ 1 (readLines [] source)
  let entry ← entryOf src
  let instrs ← secondPass py src.labels src.instrLines
  return (entry, instrs)

/-- The 32-bit word of an instruction. `imm & 0x1FFFF` is the remainder modulo 2^17. -/
def packWord (i : Fields) : ℕ :=
  (i.opcode &&& 0x3F) ||| ((i.dst &&& 7) <<< 6) ||| ((i.srcA &&& 7) <<< 9) |||
    ((i.srcB &&& 7) <<< 12) ||| ((i.imm % 2 ^ 17).toNat <<< 15)

def payloadOf (instrs : List Fields) : List UInt8 :=
  instrs.flatMap fun i => LittleEndian.encode 4 (packWord i)

/-- `zlib.crc32`. -/
def zlibCrc32 (data : List UInt8) : ℕ :=
  (data.foldl (Crc32.bytewise 0xEDB88320#32) 0xFFFFFFFF#32 ^^^ 0xFFFFFFFF#32).toNat

def headerOf (checksum entry count : ℕ) : List UInt8 :=
  LittleEndian.encode 4 0x52465856 ++ LittleEndian.encode 2 2 ++ LittleEndian.encode 4 checksum ++
    LittleEndian.encode 2 entry ++ LittleEndian.encode 2 count ++ LittleEndian.encode 2 0

/-- `struct.pack` refuses a count that does not fit its field. -/
def packImage (entry : ℕ) (instrs : List Fields) : Except String (List UInt8) :=
  if entry < 2 ^ 16 ∧ instrs.length < 2 ^ 16 then
    .ok (headerOf (zlibCrc32 (payloadOf instrs)) entry instrs.length ++ payloadOf instrs)
  else .error "'H' format requires 0 <= number <= 65535"

def assemble (source : Text) : Except String (List UInt8) := do
  let (entry, instrs) ← translate py source
  packImage entry instrs

end ReflexOS.Tasm
