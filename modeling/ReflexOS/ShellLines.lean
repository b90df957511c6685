import ReflexOS.ShellLineEditor

set_option autoImplicit false

/-!
# The line editor against its reference

The reference cuts the stream into lines, edits each on its own and dispatches its words.
-/
namespace ReflexOS.Shell
open StringTokens

/-- One LF for each CR, LF or CR LF. -/
def lineEnds : List UInt8 → List UInt8
  | 13 :: 10 :: bs => 10 :: lineEnds bs
  | 13 :: bs => 10 :: lineEnds bs
  | b :: bs => b :: lineEnds bs
  | [] => []

/-- The lines that have been ended. -/
def endedLines (bs : List UInt8) : List (List UInt8) := ((lineEnds bs).splitOn 10).dropLast

/-- What is kept of a line, and whether a byte of it had to be dropped. -/
structure Edited where
  kept : List UInt8
  dropped : Bool

def editByte (e : Edited) (b : UInt8) : Edited :=
  if b = 8 ∨ b = 0x7F then { e with kept := e.kept.dropLast }
  else if e.kept.length < 1023 then { e with kept := e.kept ++ [b] }
  else { e with dropped := true }

def editLine (l : List UInt8) : Edited := l.foldl editByte ⟨[], false⟩

/-- The words of an edited line. -/
def lineWords (l : List UInt8) : List CName := tokens 32 (editLine l).kept

def lineDispatch (l : List UInt8) : Option (List CName) :=
  if (editLine l).dropped ∨ lineWords l = [] then none else some (lineWords l)

def referenceDispatches (bs : List UInt8) : List (List CName) :=
  (endedLines bs).filterMap lineDispatch

/-- A line whose words fit in `argv`. -/
def FewWords (l : List UInt8) : Prop :=
  (editLine l).dropped = false → (lineWords l).length ≤ shellArgvMax

section Reference

def dropLf : List UInt8 → List UInt8
  | [] => []
  | b :: bs => if b = 10 then bs else b :: bs

lemma lineEnds_cr (bs : List UInt8) : lineEnds (13 :: bs) = 10 :: lineEnds (dropLf bs) := by
  cases bs with
  | nil => rfl
  | cons b bs =>
    by_cases lf : b = 10
    · subst lf
      rfl
    · rw [dropLf, if_neg lf]
      simp [lineEnds, lf]

lemma lineEnds_other {b : UInt8} (ne : b ≠ 13) (bs : List UInt8) :
    lineEnds (b :: bs) = b :: lineEnds bs := by
  simp [lineEnds, ne]

lemma editLine_append (l : List UInt8) (b : UInt8) :
    editLine (l ++ [b]) = editByte (editLine l) b := by
  simp [editLine]

/-- The lines of a stream that ends its first line. -/
lemma splitLines_end {l : List UInt8} (inside : 10 ∉ l) (bs : List UInt8) :
    ((l ++ 10 :: bs).splitOn 10).dropLast = l :: (bs.splitOn 10).dropLast := by
  rw [List.splitOn_append_cons_self_of_not_mem inside,
    List.dropLast_cons_of_ne_nil (List.splitOn_ne_nil 10 bs)]

end Reference

/-- The buffer holds the edited line. -/
structure LineEditor.Shows (S : LineEditor) (e : Edited) : Prop where
  len : S.len = e.kept.length
  line : ∀ i (lt : i < e.kept.length), S.line i = e.kept[i]
  overflowed : S.overflowed = e.dropped
  text : 0 ∉ e.kept
  fits : e.kept.length ≤ 1023

lemma holds_of_getElem {m : ℕ → UInt8} {p : ℕ} {s : List UInt8}
    (line : ∀ i (lt : i < s.length), m (p + i) = s[i]) (stop : m (p + s.length) = 0)
    (text : 0 ∉ s) : Holds 0 m p s := by
  induction s generalizing p with
  | nil => exact stop
  | cons b s ih =>
    rw [List.mem_cons, not_or] at text
    refine ⟨line 0 (by simp), Ne.symm text.1, ih (fun i lt => ?_) ?_ text.2⟩
    · have := line (i + 1) (by simpa using lt)
      rwa [List.getElem_cons_succ, ← Nat.add_assoc, Nat.add_right_comm] at this
    · rwa [List.length_cons, ← Nat.add_assoc, Nat.add_right_comm] at stop

section Step
variable {S : LineEditor} {e : Edited} (h : S.Shows e)
include h

/-- Cutting the line gives the words that the edited line has. -/
lemma LineEditor.Shows.cut : (cutLine (Function.update S.line S.len 0)).1 =
    (tokens 32 e.kept).take shellArgvMax := by
  have text : Holds 0 (Function.update S.line S.len 0) 0 e.kept := by
    refine holds_of_getElem (fun i lt => ?_) ?_ h.text
    · rw [Nat.zero_add, Function.update_of_ne (by rw [h.len]; omega)]
      exact h.line i lt
    · rw [Nat.zero_add, ← h.len]
      exact Function.update_self ..
  exact collect_tokens (by decide) shellArgvMax text (Nat.lt_succ_of_le h.fits)

lemma LineEditor.Shows.edit {b : UInt8} (nonNul : b ≠ 0) (cr : b ≠ 13) (lf : b ≠ 10) :
    (shellByte b S).2 = none ∧ (shellByte b S).1.Shows (editByte e b) ∧
      (shellByte b S).1.lastWasCr = false := by
  by_cases delete : b = 8 ∨ b = 0x7F
  · have eq : shellByte b S =
        (if 0 < S.len then { S with lastWasCr := false, len := S.len - 1 }
          else { S with lastWasCr := false }, none) := by
      simp [shellByte, cr, lf, delete]
    have kept : editByte e b = { e with kept := e.kept.dropLast } := if_pos delete
    rw [eq, kept]
    refine ⟨rfl, ?_, by split_ifs <;> rfl⟩
    by_cases some : 0 < S.len
    · rw [if_pos some]
      refine ⟨by rw [List.length_dropLast, ← h.len], fun i lt => ?_, h.overflowed,
        fun mem => h.text (List.dropLast_subset _ mem), ?_⟩
      · rw [List.getElem_dropLast]
        exact h.line i (by rw [List.length_dropLast] at lt; omega)
      · rw [List.length_dropLast]
        exact Nat.le_trans (Nat.sub_le ..) h.fits
    · have none : e.kept = [] := List.length_eq_zero_iff.1 (by rw [← h.len]; omega)
      rw [if_neg some, none]
      exact ⟨by rw [h.len, none]; rfl, by simp, h.overflowed, by simp, by simp⟩
  have room : S.len < shellLineMax - 1 ↔ e.kept.length < 1023 := by
    rw [h.len]
    rfl
  by_cases full : e.kept.length < 1023
  · have eq : shellByte b S = ({ S with
        lastWasCr := false, line := Function.update S.line S.len b, len := S.len + 1 }, none) := by
      simp [shellByte, cr, lf, delete, room.2 full]
    have kept : editByte e b = { e with kept := e.kept ++ [b] } :=
      (if_neg delete).trans (if_pos full)
    rw [eq, kept]
    refine ⟨rfl, ⟨by rw [List.length_append, h.len]; rfl, fun i lt => ?_, h.overflowed, ?_, ?_⟩,
      rfl⟩
    · dsimp only at lt ⊢
      by_cases last : i = S.len
      · subst last
        rw [Function.update_self]
        simp [h.len]
      · rw [List.length_append, List.length_singleton, ← h.len] at lt
        rw [Function.update_of_ne last, h.line i (by rw [← h.len]; omega),
          List.getElem_append_left]
    · simp [h.text, nonNul.symm]
    · rw [List.length_append, List.length_singleton]
      omega
  · have eq : shellByte b S = ({ S with lastWasCr := false, overflowed := true }, none) := by
      simp [shellByte, cr, lf, delete, mt room.1 full]
    have kept : editByte e b = { e with dropped := true } := (if_neg delete).trans (if_neg full)
    rw [eq, kept]
    exact ⟨rfl, ⟨h.len, h.line, rfl, h.text, h.fits⟩, rfl⟩

end Step

/-- The end of a line dispatches what the reference does, and starts an empty line. -/
lemma LineEditor.Shows.newline {S : LineEditor} {l : List UInt8} (h : S.Shows (editLine l))
    (few : FewWords l) : (shellNewline S).2 = lineDispatch l ∧
      (shellNewline S).1.Shows ⟨[], false⟩ ∧ (shellNewline S).1.lastWasCr = S.lastWasCr := by
  have empty : ∀ line cr, LineEditor.Shows ⟨line, 0, false, cr⟩ ⟨[], false⟩ := fun _ _ =>
    ⟨rfl, by simp, rfl, by simp, by simp⟩
  cases dropped : (editLine l).dropped with
  | true =>
    simp only [shellNewline, h.overflowed, dropped, if_true, lineDispatch, true_or]
    exact ⟨trivial, empty _ _, trivial⟩
  | false =>
    have words : (cutLine (Function.update S.line S.len 0)).1 = lineWords l :=
      h.cut.trans (List.take_of_length_le (few dropped))
    simp only [shellNewline, h.overflowed, dropped, Bool.false_eq_true, if_false, words,
      lineDispatch, false_or]
    refine ⟨?_, empty _ _, trivial⟩
    by_cases none : lineWords l = []
    · simp [none]
    · simp [none, List.length_pos_iff]

/-- The loop from any point of a line on, `pre` being what the line had so far. -/
lemma shellRun_lines (reads : List (Option UInt8)) :
    ∀ (S : LineEditor) (pre : List UInt8), S.Shows (editLine pre) → 10 ∉ pre →
      (∀ b, some b ∈ reads → b ≠ 0) → ∀ bs, reads.filterMap id = bs →
      (∀ l ∈ ((pre ++ lineEnds (if S.lastWasCr then dropLf bs else bs)).splitOn 10).dropLast,
        FewWords l) →
      shellRun reads S =
        ((pre ++ lineEnds (if S.lastWasCr then dropLf bs else bs)).splitOn 10).dropLast.filterMap
          lineDispatch := by
  induction reads with
  | nil =>
    rintro S pre - inside - bs rfl -
    have none : lineEnds (if S.lastWasCr then dropLf [] else []) = [] := by
      split_ifs <;> rfl
    simp [shellRun, none, List.splitOn_eq_singleton inside]
  | cons read reads ih =>
    intro S pre shows inside nonNul bs stream few
    have later : ∀ b, some b ∈ reads → b ≠ 0 := fun b mem => nonNul b (List.mem_cons_of_mem _ mem)
    cases read with
    | none => exact ih S pre shows inside later bs stream few
    | some ch =>
      obtain ⟨cs, rest⟩ : ∃ cs, reads.filterMap id = cs := ⟨_, rfl⟩
      obtain rfl : ch :: cs = bs := by rw [← stream, ← rest]; rfl
      -- the line ends here, and what follows is read with the flag that its byte leaves
      have ends : ∀ cr, (shellByte ch S) = shellNewline { S with lastWasCr := cr } →
          lineEnds (if S.lastWasCr then dropLf (ch :: cs) else ch :: cs) =
            10 :: lineEnds (if cr then dropLf cs else cs) →
          shellRun (some ch :: reads) S = ((pre ++ lineEnds
            (if S.lastWasCr then dropLf (ch :: cs) else ch :: cs)).splitOn 10).dropLast.filterMap
            lineDispatch := by
        intro cr byte split
        rw [split, splitLines_end inside] at few ⊢
        have here : LineEditor.Shows { S with lastWasCr := cr } (editLine pre) :=
          ⟨shows.len, shows.line, shows.overflowed, shows.text, shows.fits⟩
        obtain ⟨call, fresh, flag⟩ := here.newline (few pre List.mem_cons_self)
        have tail := ih (shellNewline { S with lastWasCr := cr }).1 [] fresh List.not_mem_nil
          later cs rest
        rw [flag] at tail
        rw [shellRun, byte, call, tail fun l mem => few l (List.mem_cons_of_mem _ mem),
          List.nil_append]
        cases dispatched : lineDispatch pre <;> simp [dispatched]
      by_cases cr : ch = 13
      · subst cr
        refine ends true (by simp [shellByte]) ?_
        rw [show (if S.lastWasCr then dropLf (13 :: cs) else 13 :: cs) = 13 :: cs by
          split_ifs <;> rfl, lineEnds_cr]
        rfl
      by_cases lf : ch = 10
      · subst lf
        cases last : S.lastWasCr with
        | true =>
          -- the second half of a pair
          have byte : shellByte 10 S = ({ S with lastWasCr := false }, none) := by
            simp [shellByte, last]
          rw [last] at few
          rw [shellRun, byte]
          exact ih { S with lastWasCr := false } pre
            ⟨shows.len, shows.line, shows.overflowed, shows.text, shows.fits⟩ inside later cs rest
            few
        | false =>
          rw [← last]
          refine ends false ?_ ?_
          · simp [shellByte, last]
          · rw [last]
            exact lineEnds_other (by decide) cs
      · obtain ⟨silent, edited, flag⟩ := shows.edit (nonNul ch List.mem_cons_self) cr lf
        rw [← editLine_append] at edited
        have same : (if S.lastWasCr then dropLf (ch :: cs) else ch :: cs) = ch :: cs := by
          rw [dropLf, if_neg lf, ite_self]
        have tail := ih (shellByte ch S).1 (pre ++ [ch]) edited
          (by simp [inside, Ne.symm lf]) later cs rest
        rw [flag, List.append_assoc] at tail
        rw [same, lineEnds_other cr] at few ⊢
        rw [shellRun, silent]
        exact tail few

/-- On every stream whose lines have words enough for `argv`, the loop dispatches what the
reference does, whatever the buffer held and however the console paused. -/
theorem shell_line_editor (line : ℕ → UInt8) (reads : List (Option UInt8))
    (nonNul : ∀ b, some b ∈ reads → b ≠ 0)
    (few : ∀ l ∈ endedLines (reads.filterMap id), FewWords l) :
    shellRun reads (shellStart line) = referenceDispatches (reads.filterMap id) :=
  shellRun_lines reads (shellStart line) [] ⟨rfl, by simp [editLine], rfl, by simp [editLine],
    by simp [editLine]⟩ List.not_mem_nil nonNul _ rfl few

/-- `lex`, a byte deleted, `d on` and CR LF, with a pause inside. -/
def typedLed : List (Option UInt8) :=
  [some 0x6C, some 0x65, some 0x78, some 8, none, some 0x64, some 0x20, some 0x6F, some 0x6E,
    some 13, some 10]

theorem shell_line_editor_led : shellRun typedLed (shellStart fun _ => 0xAA) =
    referenceDispatches (typedLed.filterMap id) := by
  refine shell_line_editor _ typedLed (fun b mem => ?_) fun l mem => ?_
  · simp only [typedLed, List.mem_cons, Option.some.injEq, List.not_mem_nil, or_false,
      reduceCtorEq, false_or] at mem
    rcases mem with rfl | rfl | rfl | rfl | rfl | rfl | rfl | rfl | rfl | rfl <;> decide
  · have line : endedLines (typedLed.filterMap id) =
        [[0x6C, 0x65, 0x78, 8, 0x64, 0x20, 0x6F, 0x6E]] := by decide +kernel
    rw [line, List.mem_singleton] at mem
    subst mem
    show _ → _ ≤ 8
    decide +kernel

end ReflexOS.Shell
