import ReflexOS.StringTokens
import ReflexOS.Types

set_option autoImplicit false

/-!
# The shell's line editor

The loop of `reflex_shell_run`, from the bytes of the console to the calls of the dispatcher.
The line is a buffer that keeps what earlier lines have left in it.
-/
namespace ReflexOS.Shell
open StringTokens

def shellLineMax : ℕ := 1024
def shellArgvMax : ℕ := 8

/-- The locals of the loop. -/
structure LineEditor where
  line : ℕ → UInt8
  len : ℕ
  overflowed : Bool
  lastWasCr : Bool

/-- The arguments cut out of the line, and the line as the cuts leave it. -/
def cutLine (line : ℕ → UInt8) : List CName × (ℕ → UInt8) :=
  let cut := collect 0 32 shellLineMax shellArgvMax (strtok 0 32 shellLineMax line 0)
  (cut.1.map (stringAt 0 cut.2 shellLineMax), cut.2)

/-- The end of a line, with the dispatch it makes. -/
def shellNewline (S : LineEditor) : LineEditor × Option (List CName) :=
  let line := Function.update S.line S.len 0
  if S.overflowed then ({ S with line := line, len := 0, overflowed := false }, none)
  else
    let cut := cutLine line
    ({ S with line := cut.2, len := 0, overflowed := false },
      if 0 < cut.1.length then some cut.1 else none)

/-- One byte of the console. -/
def shellByte (ch : UInt8) (S : LineEditor) : LineEditor × Option (List CName) :=
  let thisWasCr := decide (ch = 13)
  if !thisWasCr && decide (ch = 10) && S.lastWasCr then ({ S with lastWasCr := false }, none)
  else
    let ch := if thisWasCr then 10 else ch
    let S := { S with lastWasCr := thisWasCr }
    if ch = 10 then shellNewline S
    else if ch = 8 ∨ ch = 0x7F then (if 0 < S.len then { S with len := S.len - 1 } else S, none)
    else if ch ≠ 13 then
      if S.len < shellLineMax - 1 then
        ({ S with line := Function.update S.line S.len ch, len := S.len + 1 }, none)
      else ({ S with overflowed := true }, none)
    else (S, none)

/-- The loop over what the console gives it, nothing being an idle poll: the dispatches. -/
def shellRun : List (Option UInt8) → LineEditor → List (List CName)
  | [], _ => []
  | none :: reads, S => shellRun reads S
  | some ch :: reads, S =>
    let next := shellByte ch S
    next.2.toList ++ shellRun reads next.1

/-- The loop's locals when it starts; the buffer is not initialised. -/
def shellStart (line : ℕ → UInt8) : LineEditor := ⟨line, 0, false, false⟩

end ReflexOS.Shell
