import ReflexOS.DecimalText
import ReflexOS.Types

set_option autoImplicit false

/-!
# Telemetry lines

The emitters format a line into a buffer of their own and write as many bytes as `snprintf`
says the line has.
-/
namespace ReflexOS.Goose
open PythonText

/-- The characters of a string of bytes, and back. -/
def chars (bytes : List UInt8) : Text := bytes.map fun b => Char.ofNat b.toNat

def charBytes (t : Text) : List UInt8 := t.map fun c => UInt8.ofNat c.toNat

def printDecimal (z : ℤ) : CName := charBytes (DecimalText.format z)

/-- A name that may be missing. -/
def orUnknown (name : Option CName) : CName := name.getD (ascii "?")

/-- The shape of all formats, without the newline. -/
def telemLine (tag : Char) (fields : List CName) : CName :=
  ascii "#T:" ++ UInt8.ofNat tag.toNat :: 44 :: List.intercalate [44] fields

/-- `snprintf` into a buffer and `telem_emit` of the length it returns; `beyond` is what lies
behind the buffer. -/
def telemEmit (size : ℕ) (line : CName) (beyond : ℕ → UInt8) : List UInt8 :=
  if line.length < size then line
  else line.take (size - 1) ++ 0 :: (List.range (line.length - size)).map beyond

/-- A call of an emitter. -/
inductive Telemetry where
  | cell (name : Option CName) (state type : ℤ)
  | route (src sink : Option CName) (state coupling : ℤ)
  | hebbian (routeName : Option CName) (counter learned : ℤ)
  | weave (routeName src sink : Option CName)
  | alloc (name : Option CName) (type : ℤ)
  | evict (name : Option CName)
  | balance (state : ℤ)
  | mesh (op : Option CName) (state : ℤ)
  | purpose (name : Option CName)
  | eval (rewardScore : ℤ) (pain : Bool)
  | metabolic (metabolic temp batt mesh heap : ℤ)
  | explore (name : Option CName)
  | auth (role : Option CName)

namespace Telemetry

/-- `char buf[]`. -/
def size : Telemetry → ℕ
  | cell .. => 80
  | route .. => 96
  | hebbian .. | alloc .. | explore _ => 64
  | weave .. => 128
  | evict _ | purpose _ => 48
  | mesh .. | metabolic .. => 32
  | eval .. | auth _ => 24
  | balance _ => 16

def tag : Telemetry → Char
  | cell .. => 'C'
  | route .. => 'R'
  | hebbian .. => 'H'
  | weave .. => 'W'
  | alloc .. => 'A'
  | evict _ => 'E'
  | balance _ => 'B'
  | mesh .. => 'M'
  | purpose _ => 'P'
  | eval .. => 'V'
  | metabolic .. => 'X'
  | explore _ => 'D'
  | auth _ => 'U'

def fields : Telemetry → List CName
  | cell name state type => [orUnknown name, printDecimal state, printDecimal type]
  | route src sink state coupling =>
    [orUnknown src, orUnknown sink, printDecimal state, printDecimal coupling]
  | hebbian routeName counter learned =>
    [orUnknown routeName, printDecimal counter, printDecimal learned]
  | weave routeName src sink => [orUnknown routeName, orUnknown src, orUnknown sink]
  | alloc name type => [orUnknown name, printDecimal type]
  | evict name | explore name | auth name => [orUnknown name]
  | balance state => [printDecimal state]
  | mesh op state => [orUnknown op, printDecimal state]
  | purpose name => [if name.getD [] = [] then ascii "(clear)" else name.getD []]
  | eval rewardScore pain => [printDecimal rewardScore, printDecimal (if pain then 1 else 0)]
  | metabolic m t b me h =>
    [printDecimal m, printDecimal t, printDecimal b, printDecimal me, printDecimal h]

def line (ev : Telemetry) : CName := telemLine ev.tag ev.fields

/-- `goose_telem_*`: what reaches the console. -/
def emit (ev : Telemetry) (beyond : ℕ → UInt8) : List UInt8 :=
  telemEmit ev.size (ev.line ++ [10]) beyond

end Telemetry

example : (Telemetry.cell (some (ascii "led")) (-1) 2).line = ascii "#T:C,led,-1,2" := by decide

/-- A field that is one on the other side too. -/
def PlainField (f : CName) : Prop := f ≠ [] ∧ ∀ b ∈ f, 33 ≤ b ∧ b ≤ 126 ∧ b ≠ 44

theorem charBytes_toNat {c : Char} (h : c.toNat < 128) :
    (UInt8.ofNat c.toNat).toNat = c.toNat := by
  rw [UInt8.toNat_ofNat']
  exact Nat.mod_eq_of_lt (by omega)

theorem format_lt {z : ℤ} {c : Char} (h : c ∈ DecimalText.format z) :
    45 ≤ c.toNat ∧ c.toNat ≤ 57 := by
  rcases DecimalText.format_chars h with rfl | hdigit
  · decide
  · have hrange := DecimalText.digit_range hdigit
    omega

theorem chars_printDecimal (z : ℤ) : chars (printDecimal z) = DecimalText.format z := by
  rw [chars, printDecimal, charBytes, List.map_map]
  refine (List.map_congr_left fun c hc => ?_).trans (List.map_id _)
  have hlt := format_lt hc
  rw [Function.comp_apply, charBytes_toNat (by omega), Char.ofNat_toNat]
  rfl

theorem plain_printDecimal (z : ℤ) : PlainField (printDecimal z) := by
  refine ⟨fun h => DecimalText.format_ne_nil z (List.map_eq_nil_iff.mp h), fun b hb => ?_⟩
  obtain ⟨c, hc, rfl⟩ := List.mem_map.mp hb
  have hlt := format_lt hc
  have hval := charBytes_toNat (c := c) (by omega)
  refine ⟨?_, ?_, ?_⟩
  · rw [UInt8.le_iff_toNat_le, hval]
    exact Nat.le_trans (by decide) hlt.1
  · rw [UInt8.le_iff_toNat_le, hval]
    exact Nat.le_trans hlt.2 (by decide)
  · intro heq
    rw [heq] at hval
    exact absurd (hval.symm.trans (by decide : (44 : UInt8).toNat = 44)) (by omega)

/-- The line goes out as it is, whatever lies behind the buffer, just when the buffer has room
for it and for the end of the string. -/
theorem emit_exact_iff {ev : Telemetry} (h : (0 : UInt8) ∉ ev.line) :
    (∀ beyond, ev.emit beyond = ev.line ++ [10]) ↔ ev.line.length + 1 < ev.size := by
  have hlen : (ev.line ++ [10]).length = ev.line.length + 1 := List.length_append
  constructor
  · intro hexact
    by_contra hlong
    have hemit := hexact fun _ => 0
    rw [Telemetry.emit, telemEmit, if_neg (by omega)] at hemit
    have hzero : (0 : UInt8) ∈ ev.line ++ [10] := by
      rw [← hemit]
      exact List.mem_append_right _ List.mem_cons_self
    rcases List.mem_append.mp hzero with hzero | hzero
    · exact h hzero
    · exact absurd (List.mem_singleton.mp hzero) (by decide)
  · intro hshort beyond
    exact if_pos (by omega)

end ReflexOS.Goose
