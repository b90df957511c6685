import Mathlib.Data.List.Infix
import ReflexOS.PythonText
import ReflexOS.Runs
import ReflexOS.ShellUpload
import ReflexOS.Utf8Replace

set_option autoImplicit false

/-!
# Commands and their outcomes over the console

The shell ends its answer to a line with a marker of the outcome and a prompt. The program on the
other side reads in chunks until the prompt is there, and looks for the marker among the lines.
-/
namespace ReflexOS.Shell
open PythonText Runs

section Board

/-- `shell_reason_t`. -/
inductive Reason where
  | ok
  | usage
  | none
  | denied
  | invalid
  | guard
  | notfound
  | failed
  | overflow
deriving DecidableEq, Repr

def shellOutcomeTrit : Reason → ℤ
  | .ok => 1
  | .usage | .none => 0
  | .denied | .invalid | .guard | .notfound | .failed | .overflow => -1

def shellOutcomeName : Reason → String
  | .ok => "ok"
  | .usage => "usage"
  | .none => "none"
  | .denied => "denied"
  | .invalid => "invalid"
  | .guard => "guard"
  | .notfound => "notfound"
  | .failed => "failed"
  | .overflow => "overflow"

/-- What `snprintf` leaves in a buffer of `cap` bytes, without its terminator. -/
def shellOutcomeFormat (cap : ℕ) (r : Reason) : List UInt8 :=
  if cap = 0 then []
  else
    let t := shellOutcomeTrit r
    let trit := if 0 < t then "+1" else if t < 0 then "-1" else "0"
    (ascii "#R:" ++ ascii trit ++ ascii "," ++ ascii (shellOutcomeName r)).take (cap - 1)

def marker (r : Reason) : List UInt8 := shellOutcomeFormat 32 r

/-- What a dispatch does to the board, what it prints and the outcome it leaves. -/
abbrev Exec (σ : Type*) := List CName → σ → σ × List UInt8 × Reason

/-- A newline printed by the console, with or without the carriage return put before it. -/
def newline (cr : Bool) : List UInt8 := if cr then [13, 10] else [10]

def promptBytes : List UInt8 := ascii "reflex> "

def tooLong : List UInt8 := ascii "input too long (max 1023 chars); line discarded"

variable {σ : Type*} (cr : Bool) (exec : Exec σ)

/-- The byte ends the line. -/
def endsLine (ch : UInt8) (S : LineEditor) : Bool :=
  decide (ch = 13) || decide (ch = 10) && !S.lastWasCr

/-- The echo of a byte that does not end the line. -/
def echo (ch : UInt8) (S : LineEditor) : List UInt8 :=
  if ch = 10 then []
  else if ch = 8 ∨ ch = 0x7F then (if 0 < S.len then [8, 32, 8] else [])
  else if S.len < shellLineMax - 1 then [ch] else []

/-- What is printed at the end of a line, and the outcome it reports. -/
def answer (S : LineEditor) (dispatched : Option (List CName)) (s : σ) :
    σ × List UInt8 × Option Reason :=
  if S.overflowed then
    (s, tooLong ++ newline cr ++ (marker .overflow ++ newline cr), some .overflow)
  else
    match dispatched with
    | some argv =>
      let said := exec argv s
      (said.1, said.2.1 ++ (marker said.2.2 ++ newline cr), some said.2.2)
    | none => (s, [], none)

/-- What the console prints while it reads, and the outcomes it reports. -/
def shellWire : List (Option UInt8) → LineEditor → σ →
    List UInt8 × List Reason × LineEditor × σ
  | [], S, s => ([], [], S, s)
  | none :: reads, S, s => shellWire reads S s
  | some ch :: reads, S, s =>
    let next := shellByte ch S
    if endsLine ch S then
      let said := answer cr exec S next.2 s
      let rest := shellWire reads next.1 said.1
      ([13, 10] ++ said.2.1 ++ (10 :: promptBytes) ++ rest.1, said.2.2.toList ++ rest.2.1, rest.2.2)
    else
      let rest := shellWire reads next.1 s
      (echo ch S ++ rest.1, rest.2.1, rest.2.2)

end Board

section Python

abbrev Outcome := ℤ × Text

def promptText : Text := text "reflex> "

/-- `\w`, of ASCII. -/
def isWordChar (c : Char) : Bool := c.isAlphanum || c == '_'

def digitsValue (t : Text) : ℕ := t.foldl (fun n c => 10 * n + (c.toNat - 48)) 0

def splitTrit : Text → ℤ × Text
  | '+' :: rest => (1, rest)
  | '-' :: rest => (-1, rest)
  | rest => (1, rest)

/-- `_RESULT_RE.match`, with the groups. -/
def resultMatch : Text → Option Outcome
  | '#' :: 'R' :: ':' :: rest =>
    let signed := splitTrit rest
    let digits := signed.2.takeWhile Char.isDigit
    match signed.2.dropWhile Char.isDigit with
    | ',' :: word =>
      if digits ≠ [] ∧ word ≠ [] ∧ word.all isWordChar then
        some (signed.1 * digitsValue digits, word)
      else none
    | _ => none
  | _ => none

/-- The reads of the port until the prompt is there; at the end the time is up. -/
def readReply (buf : List UInt8) : List (List UInt8) → List UInt8
  | [] => buf
  | chunk :: chunks =>
    if chunk = [] then readReply buf chunks
    else if promptBytes <:+: buf ++ chunk then buf ++ chunk
    else readReply (buf ++ chunk) chunks

/-- One turn of the loop over the lines. -/
def readLine (command : Text) (acc : List Text × Option Outcome) (line : Text) :
    List Text × Option Outcome :=
  let stripped := strip line
  if stripped = strip command then acc
  else if stripped = strip promptText then acc
  else
    let stripped :=
      if strip promptText <:+ stripped then
        strip (stripped.take (stripped.length - (strip promptText).length))
      else stripped
    match resultMatch stripped with
    | some o => (acc.1, some o)
    | none => if stripped ≠ [] then (acc.1 ++ [stripped], acc.2) else acc

structure ExchangeResult where
  /-- `AccessDenied` is raised. -/
  refused : Bool
  text : Text
  outcome : Option Outcome

/-- `_exchange`, after the command has been written. -/
def exchange (command : Text) (chunks : List (List UInt8)) : ExchangeResult :=
  let lines := (Utf8Replace.decode (readReply [] chunks)).splitOn '\n'
  let found := lines.foldl (readLine command) ([], none)
  let result := List.intercalate ['\n'] found.1
  { refused :=
      match found.2 with
      | some o => decide (o.2 = text "denied")
      | none => (text "denied:").isPrefixOf result
    text := result
    outcome := found.2 }

/-- `(command + "\n").encode()`. -/
def commandBytes (command : Text) : List UInt8 := command.flatMap String.utf8EncodeChar ++ [10]

end Python

section Wire

variable {σ : Type*} {cr : Bool} {exec : Exec σ} {l : List UInt8} {reads : List (Option UInt8)}

/-- The editor between two lines. -/
structure AtRest (S : LineEditor) : Prop where
  len : S.len = 0
  overflowed : S.overflowed = false
  lastWasCr : S.lastWasCr = false

/-- A character goes into the line and back to the console, or it does neither. -/
theorem shellByte_plain {b : UInt8} (h : Plain [b]) {S : LineEditor} (hcr : S.lastWasCr = false) :
    endsLine b S = false ∧ (shellByte b S).1.lastWasCr = false ∧
      (S.len < 1023 → echo b S = [b] ∧ (shellByte b S).1.len = S.len + 1 ∧
        (shellByte b S).1.overflowed = S.overflowed) ∧
      (¬ S.len < 1023 → echo b S = [] ∧ (shellByte b S).1.len = S.len ∧
        (shellByte b S).1.overflowed = true) := by
  obtain ⟨-, hback, hlf, hret, hdel⟩ := h b List.mem_cons_self
  have hedit : ¬ (b = 8 ∨ b = 0x7F) := not_or.mpr ⟨hback, hdel⟩
  by_cases hroom : S.len < 1023
  · simp [shellByte, endsLine, echo, hback, hlf, hret, hdel, hcr, hroom, shellLineMax]
  · simp [shellByte, endsLine, echo, hback, hlf, hret, hdel, hcr, hroom, shellLineMax]

theorem shellNewline_rest (S : LineEditor) :
    (shellNewline S).1.len = 0 ∧ (shellNewline S).1.overflowed = false ∧
      (shellNewline S).1.lastWasCr = S.lastWasCr := by
  unfold shellNewline
  split
  · exact ⟨rfl, rfl, rfl⟩
  · exact ⟨rfl, rfl, rfl⟩

theorem shellWire_idle (hreads : reads.filterMap id = []) (S : LineEditor) (s : σ) :
    shellWire cr exec reads S s = ([], [], S, s) := by
  induction reads with
  | nil => rfl
  | cons read reads ih =>
    cases read with
    | none => exact ih hreads
    | some b => cases hreads

/-- A line goes back to the console as far as it fits, then its answer and the prompt. -/
theorem shellWire_line (h : Plain l) (hreads : reads.filterMap id = l ++ [10]) {S : LineEditor}
    (hcr : S.lastWasCr = false) (s : σ) :
    ∃ (T : LineEditor) (d : Option (List CName)) (S' : LineEditor), AtRest S' ∧
      shellWire cr exec reads S s =
        (l.take (1023 - S.len) ++ [13, 10] ++ (answer cr exec T d s).2.1 ++ (10 :: promptBytes),
          (answer cr exec T d s).2.2.toList, S', (answer cr exec T d s).1) := by
  induction reads generalizing l S with
  | nil => cases l <;> cases hreads
  | cons read reads ih =>
    cases read with
    | none => exact ih h hreads hcr
    | some b =>
      cases l with
      | nil =>
        obtain ⟨rfl, hidle⟩ : b = 10 ∧ reads.filterMap id = [] := List.cons.inj hreads
        have hends : endsLine 10 S = true := by simp [endsLine, hcr]
        have hnext : shellByte 10 S = shellNewline { S with lastWasCr := false } := by
          simp [shellByte, hcr]
        obtain ⟨hlen, hover, hlast⟩ := shellNewline_rest { S with lastWasCr := false }
        refine ⟨S, (shellByte 10 S).2, (shellByte 10 S).1, ?_, ?_⟩
        · rw [hnext]
          exact ⟨hlen, hover, hlast⟩
        · rw [shellWire, if_pos hends]
          dsimp only
          rw [shellWire_idle hidle]
          simp
      | cons c l =>
        have hcons : b :: reads.filterMap id = c :: (l ++ [10]) := hreads
        obtain ⟨rfl, hrest⟩ := List.cons.inj hcons
        obtain ⟨hends, hlast, hfits, hfull⟩ := shellByte_plain
          (fun c hc => h c (List.mem_singleton.mp hc ▸ List.mem_cons_self)) hcr
        obtain ⟨T, d, S', hrest', hwire⟩ := ih (fun c hc => h c (List.mem_cons_of_mem b hc)) hrest
          hlast
        refine ⟨T, d, S', hrest', ?_⟩
        rw [shellWire, if_neg (by rw [hends]; decide), hwire]
        by_cases hroom : S.len < 1023
        · obtain ⟨hecho, hlen, -⟩ := hfits hroom
          have htake : (b :: l).take (1023 - S.len) = b :: l.take (1023 - (S.len + 1)) := by
            rw [show 1023 - S.len = 1023 - (S.len + 1) + 1 by omega, List.take_succ_cons]
          rw [hecho, hlen, htake]
          rfl
        · obtain ⟨hecho, hlen, -⟩ := hfull hroom
          rw [hecho, hlen, show 1023 - S.len = 0 by omega, List.take_zero, List.take_zero]
          rfl

end Wire

section Reading

/-- A word without a character lies on one side of it. -/
theorem infix_append_cons {α : Type*} {p a b : List α} {x : α} (hx : x ∉ p)
    (h : p <:+: a ++ x :: b) : p <:+: a ∨ p <:+: b := by
  obtain ⟨s, t, heq⟩ := h
  rcases List.append_eq_append_iff.mp heq with ⟨u, ha, -⟩ | ⟨u, hsp, hxb⟩
  · exact .inl ⟨s, u, ha.symm⟩
  · cases u with
    | nil => exact .inl ⟨s, [], by simpa using hsp⟩
    | cons y u =>
      obtain ⟨rfl, rfl⟩ := List.cons.inj hxb
      rcases List.append_eq_append_iff.mp hsp with ⟨v, -, hp⟩ | ⟨v, -, hv⟩
      · exact absurd (hp ▸ List.mem_append_right v List.mem_cons_self) hx
      · cases v with
        | nil =>
          have hp : x :: u = p := hv
          exact absurd (hp ▸ List.mem_cons_self) hx
        | cons z v =>
          obtain ⟨-, rfl⟩ := List.cons.inj hv
          exact .inr ⟨v, t, rfl⟩

/-- However the reads are cut, they end with the prompt that ends the stream. -/
theorem readReply_all {chunks : List (List UInt8)} {buf rest : List UInt8}
    (hchunks : chunks.flatten = rest) (hprompt : ¬ promptBytes <:+: (buf ++ rest).dropLast) :
    readReply buf chunks = buf ++ rest := by
  induction chunks generalizing buf rest with
  | nil =>
    obtain rfl : rest = [] := hchunks.symm
    simp [readReply]
  | cons chunk chunks ih =>
    obtain rfl : rest = chunk ++ chunks.flatten := by simpa using hchunks.symm
    rw [← List.append_assoc] at hprompt ⊢
    rw [readReply]
    by_cases hempty : chunk = []
    · subst hempty
      rw [if_pos rfl, ih rfl (by simpa using hprompt), List.append_nil]
    rw [if_neg hempty]
    by_cases hfound : promptBytes <:+: buf ++ chunk
    · rw [if_pos hfound]
      by_cases hlater : chunks.flatten = []
      · rw [hlater, List.append_nil]
      · rw [List.dropLast_append_of_ne_nil hlater] at hprompt
        exact absurd (hfound.trans (List.infix_append [] _ _)) hprompt
    · rw [if_neg hfound, ih rfl hprompt]

end Reading

section Outcomes

variable {σ : Type*} {cr : Bool} {exec : Exec σ} {command : Text}

def Reason.outcome (r : Reason) : Outcome := (shellOutcomeTrit r, text (shellOutcomeName r))

def markerText (r : Reason) : Text := (marker r).map fun b => Char.ofNat b.toNat

theorem resultMatch_marker (r : Reason) : resultMatch (markerText r) = some r.outcome := by
  cases r <;> decide

/-- The marker's line as it is read, with what the console put before the newline. -/
def markerLine (cr : Bool) (r : Reason) : Text := markerText r ++ if cr then ['\r'] else []

theorem strip_markerLine (cr : Bool) (r : Reason) : strip (markerLine cr r) = markerText r := by
  cases r <;> cases cr <;> decide

theorem markerText_plain (r : Reason) :
    markerText r ≠ strip promptText ∧ ¬ strip promptText <:+ markerText r := by
  cases r <;> decide

theorem readLine_marker (hcommand : ∀ r, strip command ≠ markerText r) (r : Reason)
    (acc : List Text × Option Outcome) :
    readLine command acc (markerLine cr r) = (acc.1, some r.outcome) := by
  obtain ⟨hprompt, hsuffix⟩ := markerText_plain r
  unfold readLine
  rw [strip_markerLine]
  dsimp only
  rw [if_neg (Ne.symm (hcommand r)), if_neg hprompt, if_neg hsuffix, resultMatch_marker]

theorem readLine_empty (acc : List Text × Option Outcome) :
    readLine command acc [] = acc := by
  have hstrip : strip [] = [] := rfl
  unfold readLine
  rw [hstrip]
  dsimp only
  split
  · rfl
  · rfl

theorem readLine_prompt (acc : List Text × Option Outcome) :
    readLine command acc promptText = acc := by
  unfold readLine
  dsimp only
  split
  · rfl
  · rw [if_pos rfl]

/-- The lines that end every answer. -/
theorem decode_tail (cr : Bool) (r : Reason) (head : List UInt8) :
    (Utf8Replace.decode (head ++ 10 :: (marker r ++ newline cr ++ 10 :: promptBytes))).splitOn '\n' =
      (Utf8Replace.decode head).splitOn '\n' ++ [markerLine cr r, [], promptText] := by
  have hlf : (10 : UInt8).toNat < 0x80 := by decide
  rw [Utf8Replace.decode_append_ascii hlf]
  have htail : Utf8Replace.decode (marker r ++ newline cr ++ 10 :: promptBytes) =
      markerLine cr r ++ '\n' :: '\n' :: promptText := by
    cases r <;> cases cr <;> decide
  have hsplit : (markerLine cr r ++ '\n' :: '\n' :: promptText).splitOn '\n' =
      [markerLine cr r, [], promptText] := by
    cases r <;> cases cr <;> decide
  rw [htail]
  exact (List.splitOn_append_cons_self _ _).trans (congrArg _ hsplit)

/-- What is printed before the marker ends its last line and does not hold the prompt. -/
def Printed (out : List UInt8) : Prop :=
  (out = [] ∨ ∃ lines, out = lines ++ [10]) ∧ ¬ promptBytes <:+: out

theorem printed_tooLong (cr : Bool) : Printed (tooLong ++ newline cr) := by
  cases cr with
  | false => exact ⟨.inr ⟨_, rfl⟩, by decide⟩
  | true => exact ⟨.inr ⟨tooLong ++ [13], by simp [newline]⟩, by decide⟩

theorem answer_report (hexec : ∀ argv s, Printed (exec argv s).2.1) {S : LineEditor}
    {d : Option (List CName)} {s : σ} {r : Reason}
    (hr : (answer cr exec S d s).2.2.toList = [r]) :
    ∃ out, Printed out ∧ (answer cr exec S d s).2.1 = out ++ (marker r ++ newline cr) := by
  unfold answer at hr ⊢
  split at hr
  next hover =>
    obtain rfl : Reason.overflow = r := List.singleton_inj.mp hr
    rw [if_pos hover]
    exact ⟨_, printed_tooLong cr, rfl⟩
  next hover =>
    rw [if_neg hover]
    cases d with
    | none => cases hr
    | some argv =>
      obtain rfl : (exec argv s).2.2 = r := List.singleton_inj.mp hr
      exact ⟨_, hexec argv s, rfl⟩

section Stream

variable {e out : List UInt8} {r : Reason}

theorem marker_noPrompt (cr : Bool) (r : Reason) : ¬ promptBytes <:+: marker r ++ newline cr := by
  cases r <;> cases cr <;> decide

/-- The prompt ends the stream and stands nowhere before. -/
theorem stream_prompt (he : ¬ promptBytes <:+: e) (hout : Printed out) :
    ¬ promptBytes <:+:
      (e ++ [13, 10] ++ (out ++ (marker r ++ newline cr)) ++ (10 :: promptBytes)).dropLast := by
  have hlf : (10 : UInt8) ∉ promptBytes := by decide
  have hret : (13 : UInt8) ∉ promptBytes := by decide
  have hshort : ¬ promptBytes <:+: promptBytes.dropLast := by decide
  have hnil : ¬ promptBytes <:+: [] := by decide
  have hprinted : ¬ promptBytes <:+: out ++ (marker r ++ newline cr) := by
    rcases hout with ⟨rfl | ⟨lines, rfl⟩, hfree⟩
    · exact marker_noPrompt cr r
    · rw [List.append_assoc]
      intro h
      rcases infix_append_cons hlf h with h | h
      · exact hfree (h.trans (List.prefix_append lines [10]).isInfix)
      · exact marker_noPrompt cr r h
  rw [List.dropLast_append_of_ne_nil (by simp),
    List.dropLast_cons_of_ne_nil (show promptBytes ≠ [] by decide)]
  intro h
  rcases infix_append_cons hlf h with h | h
  · rw [List.append_assoc] at h
    rcases infix_append_cons hret h with h | h
    · exact he h
    · rcases infix_append_cons (a := []) hlf h with h | h
      · exact hnil h
      · exact hprinted h
  · exact hshort h

theorem stream_tail (hout : Printed out) :
    ∃ head, e ++ [13, 10] ++ (out ++ (marker r ++ newline cr)) ++ (10 :: promptBytes) =
      head ++ 10 :: (marker r ++ newline cr ++ 10 :: promptBytes) := by
  rcases hout.1 with rfl | ⟨lines, rfl⟩
  · exact ⟨e ++ [13], by simp⟩
  · exact ⟨e ++ [13, 10] ++ lines, by simp⟩

end Stream

theorem exchange_outcome (hcommand : ∀ r, strip command ≠ markerText r) {r : Reason}
    {chunks : List (List UInt8)} {head stream : List UInt8}
    (hchunks : chunks.flatten = stream) (hprompt : ¬ promptBytes <:+: stream.dropLast)
    (htail : stream = head ++ 10 :: (marker r ++ newline cr ++ 10 :: promptBytes)) :
    (exchange command chunks).outcome = some r.outcome ∧
      ((exchange command chunks).refused = true ↔ r = .denied) := by
  have hread : readReply [] chunks = stream := readReply_all hchunks hprompt
  have hfound : (((Utf8Replace.decode (readReply [] chunks)).splitOn '\n').foldl
      (readLine command) ([], none)).2 = some r.outcome := by
    rw [hread, htail, decode_tail, List.foldl_append, List.foldl_cons, List.foldl_cons,
      List.foldl_cons, List.foldl_nil, readLine_marker hcommand, readLine_empty, readLine_prompt]
  refine ⟨hfound, ?_⟩
  unfold exchange
  dsimp only
  rw [hfound]
  have hdenied : ∀ r : Reason, decide (r.outcome.2 = text "denied") = true ↔ r = .denied := by
    intro r
    cases r <;> decide
  exact hdenied r

/-- A command that the line editor takes as it is, and that is neither prompt nor marker. -/
structure Askable (command : Text) : Prop where
  plain : Plain (command.flatMap String.utf8EncodeChar)
  noPrompt : ¬ promptBytes <:+: command.flatMap String.utf8EncodeChar
  noMarker : ∀ r, strip command ≠ markerText r

structure ExchangeLabel where
  command : Text
  result : ExchangeResult
  reports : List Reason

/-- A whole exchange: the command is read with pauses anywhere, and what the board prints reaches
the other side in chunks of any size before the time is up. -/
inductive ExchangeStep (cr : Bool) (exec : Exec σ) (B : LineEditor × σ) :
    ExchangeLabel → LineEditor × σ → Prop where
  | exchange (command : Text) (reads : List (Option UInt8)) (chunks : List (List UInt8))
      (hreads : reads.filterMap id = commandBytes command)
      (hchunks : chunks.flatten = (shellWire cr exec reads B.1 B.2).1) :
      ExchangeStep cr exec B
        ⟨command, exchange command chunks, (shellWire cr exec reads B.1 B.2).2.1⟩
        (shellWire cr exec reads B.1 B.2).2.2

/-- The other side learns the outcome of the command it asked for. -/
def Informed (l : ExchangeLabel) : Prop :=
  ∀ r, l.reports = [r] →
    l.result.outcome = some r.outcome ∧ (l.result.refused = true ↔ r = .denied)

theorem ExchangeStep.informed (hexec : ∀ argv s, Printed (exec argv s).2.1)
    {B B' : LineEditor × σ} {l : ExchangeLabel} (h : ExchangeStep cr exec B l B')
    (hcr : B.1.lastWasCr = false) (hcommand : Askable l.command) :
    AtRest B'.1 ∧ l.reports.length ≤ 1 ∧ Informed l := by
  cases h with
  | exchange command reads chunks hreads hchunks =>
    obtain ⟨T, d, S', hrest, hwire⟩ := @shellWire_line σ cr exec _ _ hcommand.plain hreads _ hcr B.2
    rw [hwire] at hchunks ⊢
    refine ⟨hrest, ?_, ?_⟩
    · cases (answer cr exec T d B.2).2.2 <;> simp
    · intro r hr
      obtain ⟨out, hout, hsaid⟩ := answer_report hexec hr
      have hecho : ¬ promptBytes <:+:
          (command.flatMap String.utf8EncodeChar).take (1023 - B.1.len) :=
        fun h => hcommand.noPrompt (h.trans (List.take_prefix _ _).isInfix)
      dsimp only at hchunks
      rw [hsaid] at hchunks
      obtain ⟨head, htail⟩ := @stream_tail cr
        ((command.flatMap String.utf8EncodeChar).take (1023 - B.1.len)) out r hout
      exact exchange_outcome hcommand.noMarker hchunks (stream_prompt hecho hout) htail

/-- A board that refuses every command. -/
def refusing : Exec Unit := fun _ s => (s, ascii "denied: requires operator\r\n", .denied)

def ledReads : List (Option UInt8) := none :: (commandBytes (text "led on")).map some

theorem refusing_reports :
    (shellWire true refusing ledReads (shellStart fun _ => 0) ()).2.1 = [.denied] := by
  decide +kernel

end Outcomes

end ReflexOS.Shell
