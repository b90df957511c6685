import ReflexOS.GooseTelemetry
import ReflexOS.LineStream
import ReflexOS.Runs
import ReflexOS.Utf8Replace
import Mathlib.Logic.Function.Basic

set_option autoImplicit false

/-!
# The loom viewer

Telemetry at the other end of the console: a thread cuts the bytes into lines, the main loop
reads each telemetry line and keeps the picture of the substrate.
-/
namespace ReflexOS.Viewer
open PythonText Goose Runs

/-- What is logged to Rerun for one line, the graph apart. -/
inductive RerunLog where
  | scalar (path : Text) (value : ℤ)
  | textLog (path message : Text)
deriving DecidableEq

structure LoomState where
  /-- `self.cells`: name, state and type. -/
  cells : List (Text × ℤ × ℤ)
  /-- `self.routes`: source, sink and coupling. -/
  routes : List (Text × Text × ℤ)
  dirty : Bool
  seq : ℕ

namespace LoomState

def init : LoomState := ⟨[], [], true, 0⟩

/-- `self.cells.get`. -/
def cell (S : LoomState) (name : Text) : Option (ℤ × ℤ) := S.cells.lookup name

def route (S : LoomState) (src sink : Text) : Option ℤ :=
  (S.routes.find? fun r => decide (r.1 = src ∧ r.2.1 = sink)).map fun r => r.2.2

/-- An assignment to a dictionary: a key that is there keeps its place. -/
def assign (cells : List (Text × ℤ × ℤ)) (name : Text) (v : ℤ × ℤ) : List (Text × ℤ × ℤ) :=
  if (cells.lookup name).isSome then cells.map fun c => if c.1 = name then (name, v) else c
  else cells ++ [(name, v)]

def upsertCell (S : LoomState) (name : Text) (state cellType : ℤ) : LoomState :=
  if S.cell name = some (state, cellType) then S
  else { S with cells := assign S.cells name (state, cellType), dirty := true }

def removeCell (S : LoomState) (name : Text) : LoomState :=
  if (S.cell name).isSome then
    { S with
      cells := S.cells.filter fun c => decide (c.1 ≠ name)
      routes := S.routes.filter fun r => decide (r.1 ≠ name ∧ r.2.1 ≠ name)
      dirty := true }
  else S

def addRoute (S : LoomState) (src sink : Text) (coupling : ℤ) : LoomState :=
  if (S.route src sink).isSome then S
  else { S with routes := S.routes ++ [(src, sink, coupling)], dirty := true }

def tick (S : LoomState) : LoomState := { S with seq := S.seq + 1 }

/-- `log_graph`, of the flag. -/
def logGraph (S : LoomState) : LoomState := if S.cells = [] then S else { S with dirty := false }

end LoomState

open DecimalText in
/-- The branches of `process_telemetry`; a number that is none leaves everything as it is. -/
def processFields (tag : Char) (fields : List Text) (S : LoomState) : LoomState × List RerunLog :=
  match tag, fields with
  | 'C', name :: s :: t :: _ =>
    match parse s, parse t with
    | some s, some t =>
      (S.upsertCell name s t, [.scalar (text "reflex/scalars/cells/" ++ name) s])
    | _, _ => (S, [])
  | 'R', src :: sink :: s :: coupling :: _ =>
    match parse s, parse coupling with
    | some s, some coupling =>
      (S.addRoute src sink coupling,
        [.scalar (text "reflex/scalars/routes/" ++ src ++ ['>'] ++ sink) s])
    | _, _ => (S, [])
  | 'H', name :: counter :: learned :: _ =>
    match parse counter, parse learned with
    | some counter, some learned =>
      (S, .scalar (text "reflex/scalars/hebbian/" ++ name) counter ::
        if learned ≠ 0 then
          [.textLog (text "reflex/events/learn")
            (text "COMMIT " ++ name ++ text " orient=" ++ format learned)]
        else [])
    | _, _ => (S, [])
  | 'W', name :: src :: sink :: _ =>
    (S.addRoute src sink 1, [.textLog (text "reflex/events/lifecycle")
      (text "WEAVE " ++ name ++ text ": " ++ src ++ text " -> " ++ sink)])
  | 'A', name :: t :: _ =>
    match parse t with
    | some t =>
      (S.upsertCell name 0 t, [.textLog (text "reflex/events/lifecycle")
        (text "ALLOC " ++ name ++ text " type=" ++ format t)])
    | none => (S, [])
  | 'E', name :: _ =>
    (S.removeCell name, [.textLog (text "reflex/events/lifecycle") (text "EVICT " ++ name)])
  | 'B', balance :: _ =>
    match parse balance with
    | some balance => (S, [.scalar (text "reflex/scalars/balance") balance])
    | none => (S, [])
  | 'M', op :: s :: _ =>
    (S, [.textLog (text "reflex/mesh/arcs") (op ++ text " state=" ++ s)])
  | 'P', purpose :: _ =>
    (S, [.textLog (text "reflex/events/lifecycle") (text "PURPOSE " ++ purpose)])
  | 'V', reward :: pain :: _ =>
    match parse reward, parse pain with
    | some reward, some pain =>
      (S, [.scalar (text "reflex/scalars/reward") reward,
        .scalar (text "reflex/scalars/pain") pain])
    | _, _ => (S, [])
  | 'X', metabolic :: temp :: batt :: mesh :: heap :: _ =>
    match parse metabolic, parse temp, parse batt, parse mesh, parse heap with
    | some metabolic, some temp, some batt, some mesh, some heap =>
      (S, [.scalar (text "reflex/scalars/metabolic") metabolic,
        .scalar (text "reflex/scalars/vitals/temp") temp,
        .scalar (text "reflex/scalars/vitals/battery") batt,
        .scalar (text "reflex/scalars/vitals/mesh") mesh,
        .scalar (text "reflex/scalars/vitals/heap") heap])
    | _, _, _, _, _ => (S, [])
  | 'D', name :: _ =>
    if name ≠ [] then
      (S.upsertCell name 0 (-1),
        [.textLog (text "reflex/events/lifecycle") (text "EXPLORE " ++ name)])
    else (S, [])
  | _, _ => (S, [])

def processTelemetry (line : Text) (S : LoomState) : LoomState × List RerunLog :=
  match line.drop 3 with
  | [] => (S.tick, [])
  | tag :: rest =>
    let fields := if 2 < (tag :: rest).length then ((tag :: rest).drop 2).splitOn ',' else []
    processFields tag fields S.tick

/-- Something the console prints: a call of an emitter, with what lies behind its buffer, or a
line of another kind. -/
inductive ConsoleItem where
  | telemetry (ev : Telemetry) (beyond : ℕ → UInt8)
  | other (line : List UInt8)

def ConsoleItem.bytes : ConsoleItem → List UInt8
  | telemetry ev beyond => ev.emit beyond
  | other line => line ++ [10]

/-- The console and the viewer: bytes not yet read, bytes not yet cut into lines, the queue
between the threads, what the reader has printed, the state of the main loop and what it has
logged. -/
structure LoomViewer where
  wire : List UInt8
  buf : List UInt8
  queue : List Text
  printed : List Text
  state : LoomState
  logs : List RerunLog

def LoomViewer.start (S : LoomState) : LoomViewer := ⟨[], [], [], [], S, []⟩

inductive ViewerEvent where
  | emit (item : ConsoleItem)
  | read (chunk : List UInt8)
  | line
  | process
  | render

def queueMax : ℕ := 4096

/-- The text of a line. -/
def readText (line : List UInt8) : Text := strip (Utf8Replace.decode line)

/-- The reader with a line at hand; `put` waits for room. -/
inductive LineRead (V : LoomViewer) (line rest : List UInt8) : LoomViewer → Prop where
  | blank (h : readText line = []) : LineRead V line rest { V with buf := rest }
  | put (h : text "#T:" <+: readText line) (hroom : V.queue.length < queueMax) :
      LineRead V line rest { V with buf := rest, queue := V.queue ++ [readText line] }
  | print (h : ¬ text "#T:" <+: readText line) (hne : readText line ≠ []) :
      LineRead V line rest { V with buf := rest, printed := V.printed ++ [readText line] }

/-- The steps of the board and of the two threads. -/
inductive ViewerStep : LoomViewer → ViewerEvent → LoomViewer → Prop where
  | emit (V : LoomViewer) (item : ConsoleItem) :
      ViewerStep V (.emit item) { V with wire := V.wire ++ item.bytes }
  | read {V : LoomViewer} {chunk wire : List UInt8} (h : 10 ∉ V.buf)
      (hwire : V.wire = chunk ++ wire) :
      ViewerStep V (.read chunk) { V with buf := V.buf ++ chunk, wire := wire }
  | line {V V' : LoomViewer} {line rest : List UInt8} (hbuf : V.buf = line ++ 10 :: rest)
      (hline : 10 ∉ line) (h : LineRead V line rest V') : ViewerStep V .line V'
  | process {V : LoomViewer} {t : Text} {queue : List Text} (h : V.queue = t :: queue) :
      ViewerStep V .process
        { V with
          queue := queue
          state := (processTelemetry t V.state).1
          logs := V.logs ++ (processTelemetry t V.state).2 }
  | render {V : LoomViewer} (h : V.state.dirty = true) :
      ViewerStep V .render { V with state := V.state.logGraph }

/-- What the viewer shows: the cells with state and type, the routes with their coupling. -/
structure Picture where
  cell : Text → Option (ℤ × ℤ)
  route : Text → Text → Option ℤ

namespace Picture

def setCell (P : Picture) (name : Text) (v : ℤ × ℤ) : Picture :=
  { P with cell := Function.update P.cell name (some v) }

/-- A cell that is shown goes with its routes. -/
def dropCell (P : Picture) (name : Text) : Picture :=
  if (P.cell name).isSome then
    ⟨Function.update P.cell name none,
      fun src sink => if src = name ∨ sink = name then none else P.route src sink⟩
  else P

/-- The first report of a route fixes its coupling. -/
def link (P : Picture) (src sink : Text) (coupling : ℤ) : Picture :=
  if (P.route src sink).isSome then P
  else { P with route := fun a b => if a = src ∧ b = sink then some coupling else P.route a b }

def name (n : Option CName) : Text := chars (orUnknown n)

/-- What is shown after an event. -/
def after (P : Picture) : Telemetry → Picture
  | .cell n state type => P.setCell (name n) (state, type)
  | .alloc n type => P.setCell (name n) (0, type)
  | .explore n => P.setCell (name n) (0, -1)
  | .evict n => P.dropCell (name n)
  | .route src sink _ coupling => P.link (name src) (name sink) coupling
  | .weave _ src sink => P.link (name src) (name sink) 1
  | _ => P

end Picture

open Picture DecimalText in
/-- What is logged for an event. -/
def eventLogs : Telemetry → List RerunLog
  | .cell n state _ => [.scalar (text "reflex/scalars/cells/" ++ name n) state]
  | .route src sink state _ =>
    [.scalar (text "reflex/scalars/routes/" ++ name src ++ ['>'] ++ name sink) state]
  | .hebbian n counter learned =>
    .scalar (text "reflex/scalars/hebbian/" ++ name n) counter ::
      if learned ≠ 0 then
        [.textLog (text "reflex/events/learn")
          (text "COMMIT " ++ name n ++ text " orient=" ++ format learned)]
      else []
  | .weave n src sink =>
    [.textLog (text "reflex/events/lifecycle")
      (text "WEAVE " ++ name n ++ text ": " ++ name src ++ text " -> " ++ name sink)]
  | .alloc n type =>
    [.textLog (text "reflex/events/lifecycle")
      (text "ALLOC " ++ name n ++ text " type=" ++ format type)]
  | .evict n => [.textLog (text "reflex/events/lifecycle") (text "EVICT " ++ name n)]
  | .balance state => [.scalar (text "reflex/scalars/balance") state]
  | .mesh op state => [.textLog (text "reflex/mesh/arcs") (name op ++ text " state=" ++ format state)]
  | .purpose n =>
    [.textLog (text "reflex/events/lifecycle") (text "PURPOSE " ++
      chars (if n.getD [] = [] then ascii "(clear)" else n.getD []))]
  | .eval rewardScore pain =>
    [.scalar (text "reflex/scalars/reward") rewardScore,
      .scalar (text "reflex/scalars/pain") (if pain then 1 else 0)]
  | .metabolic metabolic temp batt mesh heap =>
    [.scalar (text "reflex/scalars/metabolic") metabolic,
      .scalar (text "reflex/scalars/vitals/temp") temp,
      .scalar (text "reflex/scalars/vitals/battery") batt,
      .scalar (text "reflex/scalars/vitals/mesh") mesh,
      .scalar (text "reflex/scalars/vitals/heap") heap]
  | .explore n => [.textLog (text "reflex/events/lifecycle") (text "EXPLORE " ++ name n)]
  | .auth _ => []

namespace LoomState

variable (S : LoomState) (name src sink : Text)

def picture : Picture := ⟨S.cell, S.route⟩

theorem lookup_pair (k m : Text) (w : ℤ × ℤ) (cells : List (Text × ℤ × ℤ)) :
    ((k, w) :: cells).lookup m = if m = k then some w else cells.lookup m := by
  rw [List.lookup_cons]
  by_cases hm : m = k
  · simp [hm]
  · simp [hm, beq_eq_false_iff_ne.mpr hm]

theorem lookup_assign (cells : List (Text × ℤ × ℤ)) (v : ℤ × ℤ) (m : Text) :
    (assign cells name v).lookup m = if m = name then some v else cells.lookup m := by
  have hmap : (cells.map fun c => if c.1 = name then (name, v) else c).lookup m =
      if m = name ∧ (cells.lookup name).isSome then some v else cells.lookup m := by
    induction cells with
    | nil => simp
    | cons c cells ih =>
      obtain ⟨k, w⟩ := c
      rw [List.map_cons, lookup_pair, lookup_pair]
      by_cases hk : k = name
      · subst hk
        rw [if_pos rfl, lookup_pair, ih]
        by_cases hm : m = k
        · simp [hm]
        · simp [hm]
      · have hk' : name ≠ k := Ne.symm hk
        rw [if_neg hk, lookup_pair, ih, if_neg hk']
        by_cases hm : m = k
        · simp [hm, hk]
        · simp [hm]
  rw [assign]
  by_cases hsome : (cells.lookup name).isSome
  · rw [if_pos hsome, hmap]
    simp [hsome]
  · rw [if_neg hsome, List.lookup_append, lookup_pair]
    have hnone : cells.lookup name = none := Option.not_isSome_iff_eq_none.mp hsome
    by_cases hm : m = name
    · simp [hm, hnone]
    · simp [hm]

theorem lookup_remove (cells : List (Text × ℤ × ℤ)) (m : Text) :
    (cells.filter fun c => decide (c.1 ≠ name)).lookup m =
      if m = name then none else cells.lookup m := by
  induction cells with
  | nil => simp
  | cons c cells ih =>
    obtain ⟨k, w⟩ := c
    rw [lookup_pair]
    by_cases hk : k = name
    · subst hk
      rw [List.filter_cons_of_neg (by simp), ih]
      by_cases hm : m = k
      · simp [hm]
      · simp [hm]
    · rw [List.filter_cons_of_pos (by simp [hk]), lookup_pair, ih]
      by_cases hm : m = k
      · simp [hm, hk]
      · simp [hm]

theorem picture_upsertCell (state type : ℤ) :
    (S.upsertCell name state type).picture = S.picture.setCell name (state, type) := by
  rw [upsertCell, Picture.setCell, picture]
  split
  next hsame =>
    rw [← hsame]
    exact congrArg (fun cell => Picture.mk cell S.route) (Function.update_eq_self name S.cell).symm
  next =>
    refine congrArg (fun cell => Picture.mk cell S.route) (funext fun m => ?_)
    rw [Function.update_apply]
    exact lookup_assign name S.cells (state, type) m

theorem picture_removeCell : (S.removeCell name).picture = S.picture.dropCell name := by
  rw [removeCell, Picture.dropCell]
  by_cases hcell : (S.cell name).isSome
  · rw [if_pos hcell, if_pos (show (S.picture.cell name).isSome from hcell), picture]
    congr 1
    · funext m
      rw [Function.update_apply]
      exact lookup_remove name S.cells m
    · funext a b
      simp only [route, picture, List.find?_filter]
      by_cases hab : a = name ∨ b = name
      · rw [if_pos hab, Option.map_eq_none_iff, List.find?_eq_none]
        rintro ⟨src, sink, w⟩ -
        simp only [decide_eq_true_eq]
        rintro ⟨⟨hsrc, hsink⟩, rfl, rfl⟩
        exact hab.elim hsrc hsink
      · rw [if_neg hab]
        congr 2
        funext r
        have hne := not_or.mp hab
        simp only [decide_eq_true_eq, decide_eq_decide]
        exact ⟨fun h => h.2, fun h => ⟨⟨h.1 ▸ hne.1, h.2 ▸ hne.2⟩, h⟩⟩
  · rw [if_neg hcell, if_neg (show ¬ (S.picture.cell name).isSome = true from hcell)]

theorem picture_addRoute (coupling : ℤ) :
    (S.addRoute src sink coupling).picture = S.picture.link src sink coupling := by
  rw [addRoute, Picture.link]
  by_cases hroute : (S.route src sink).isSome
  · rw [if_pos hroute, if_pos (show (S.picture.route src sink).isSome from hroute)]
  · rw [if_neg hroute, if_neg (show ¬ (S.picture.route src sink).isSome = true from hroute), picture]
    congr 1
    funext a b
    simp only [route, picture, List.find?_append, Option.map_or]
    by_cases hab : a = src ∧ b = sink
    · obtain ⟨rfl, rfl⟩ := hab
      have hnone := Option.not_isSome_iff_eq_none.mp hroute
      rw [route] at hnone
      rw [hnone, if_pos ⟨rfl, rfl⟩]
      simp
    · have hne : ¬ (src = a ∧ sink = b) := fun h => hab ⟨h.1.symm, h.2.symm⟩
      simp [hab, hne]

end LoomState

end ReflexOS.Viewer
