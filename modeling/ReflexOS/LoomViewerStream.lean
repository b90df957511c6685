import ReflexOS.LoomViewer

set_option autoImplicit false

/-!
# What the viewer follows

A telemetry line that fits its buffer is read back as the event it stands for, however the bytes
come in and whatever else the console prints.
-/
namespace ReflexOS.Viewer
open PythonText Goose Runs

section Lines

variable {ev : Telemetry} {f : CName} {b : UInt8}

/-- A byte of a telemetry line. -/
def Graphic (b : UInt8) : Prop := 33 ≤ b ∧ b ≤ 126

theorem Graphic.toNat (h : Graphic b) : 33 ≤ b.toNat ∧ b.toNat ≤ 126 :=
  ⟨UInt8.le_iff_toNat_le.mp h.1, UInt8.le_iff_toNat_le.mp h.2⟩

theorem Graphic.char (h : Graphic b) : (Char.ofNat b.toNat).toNat = b.toNat := by
  have hrange := h.toNat
  have hvalid : b.toNat.isValidChar := .inl (by omega)
  rw [Char.ofNat, dif_pos hvalid]
  rfl

theorem Graphic.solid (h : Graphic b) : isSpace (Char.ofNat b.toNat) = false := by
  have hrange := h.toNat
  simp only [isSpace, h.char, Bool.or_eq_false_iff, Bool.and_eq_false_iff,
    decide_eq_false_iff_not, beq_eq_false_iff_ne]
  omega

theorem chars_comma (h : PlainField f) : ',' ∉ chars f := by
  intro hmem
  obtain ⟨b, hb, hchar⟩ := List.mem_map.mp hmem
  obtain ⟨hlow, hhigh, hne⟩ := h.2 b hb
  have hgraphic : Graphic b := ⟨hlow, hhigh⟩
  have hval : b.toNat = 44 := by rw [← hgraphic.char, hchar]; rfl
  exact hne (UInt8.toNat_inj.mp hval)

theorem chars_intercalate (fs : List CName) :
    chars (List.intercalate [44] fs) = List.intercalate [','] (fs.map chars) := by
  induction fs with
  | nil => rfl
  | cons f fs ih =>
    cases fs with
    | nil => simp [List.intercalate, chars]
    | cons g fs =>
      simp only [List.intercalate, List.intersperse_cons_cons, List.flatten_cons, List.map_cons,
        chars, List.map_append] at ih ⊢
      rw [ih]
      rfl

theorem mem_intercalate {fs : List CName} (h : b ∈ List.intercalate [44] fs) :
    b = 44 ∨ ∃ f ∈ fs, b ∈ f := by
  induction fs with
  | nil => cases h
  | cons f fs ih =>
    cases fs with
    | nil => exact .inr ⟨f, List.mem_cons_self, by simpa [List.intercalate] using h⟩
    | cons g fs =>
      simp only [List.intercalate, List.intersperse_cons_cons, List.flatten_cons,
        List.mem_append, List.mem_singleton] at h ih
      rcases h with h | h | h
      · exact .inr ⟨f, List.mem_cons_self, h⟩
      · exact .inl h
      · exact (ih h).imp_right fun ⟨k, hk, hb⟩ => ⟨k, List.mem_cons_of_mem f hk, hb⟩

theorem line_graphic (h : ∀ f ∈ ev.fields, PlainField f) : ∀ b ∈ ev.line, Graphic b := by
  intro b hb
  rcases List.mem_append.mp hb with hb | hb
  · have hhead : ∀ b ∈ ascii "#T:", Graphic b := by
      unfold Graphic
      decide +kernel
    exact hhead b hb
  rcases List.mem_cons.mp hb with rfl | hb
  · unfold Graphic
    cases ev <;> simp only [Telemetry.tag] <;> decide
  rcases List.mem_cons.mp hb with rfl | hb
  · exact ⟨by decide, by decide⟩
  · rcases mem_intercalate hb with rfl | ⟨f, hf, hb⟩
    · exact ⟨by decide, by decide⟩
    · exact ⟨((h f hf).2 b hb).1, ((h f hf).2 b hb).2.1⟩

theorem readText_line (h : ∀ f ∈ ev.fields, PlainField f) : readText ev.line = chars ev.line := by
  have hgraphic := line_graphic h
  rw [readText, Utf8Replace.decode_ascii fun b hb => by have := (hgraphic b hb).toNat; omega]
  apply strip_solid
  intro c hc
  obtain ⟨b, hb, rfl⟩ := List.mem_map.mp hc
  exact (hgraphic b hb).solid

theorem chars_line (ev : Telemetry) : chars ev.line =
    text "#T:" ++ ev.tag :: ',' :: List.intercalate [','] (ev.fields.map chars) := by
  have htag : Char.ofNat (UInt8.ofNat ev.tag.toNat).toNat = ev.tag := by
    cases ev <;> simp only [Telemetry.tag] <;> decide
  rw [← chars_intercalate, Telemetry.line, telemLine, chars, List.map_append, List.map_cons,
    List.map_cons, htag]
  rfl

/-- The line comes apart into its tag and its fields. -/
theorem process_fields (h : ∀ f ∈ ev.fields, PlainField f) (S : LoomState) :
    processTelemetry (chars ev.line) S =
      processFields ev.tag (ev.fields.map chars) S.tick := by
  have hfields : ev.fields ≠ [] := by cases ev <;> exact List.cons_ne_nil _ _
  have hsplit : (List.intercalate [','] (ev.fields.map chars)).splitOn ',' = ev.fields.map chars := by
    apply List.splitOn_intercalate
    · intro l hl
      obtain ⟨f, hf, rfl⟩ := List.mem_map.mp hl
      exact chars_comma (h f hf)
    · exact fun hnil => hfields (List.map_eq_nil_iff.mp hnil)
  have hjoined : List.intercalate [','] (ev.fields.map chars) ≠ [] := by
    cases hf : ev.fields with
    | nil => exact absurd hf hfields
    | cons f fs =>
      have hne : f ≠ [] := (h f (hf ▸ List.mem_cons_self)).1
      cases fs <;> simp [List.intercalate, chars, hne]
  have hlen : 2 < (ev.tag :: ',' :: List.intercalate [','] (ev.fields.map chars)).length := by
    have hpos := List.length_pos_iff.mpr hjoined
    simp only [List.length_cons]
    omega
  rw [processTelemetry, chars_line]
  change processFields ev.tag (if 2 < _ then (List.intercalate [','] _).splitOn ',' else []) _ = _
  rw [if_pos hlen, hsplit]

theorem chars_name_ne_nil (h : PlainField f) : chars f ≠ [] :=
  fun hnil => h.1 (List.map_eq_nil_iff.mp hnil)

/-- A telemetry line changes what is shown as its event says, and is logged as that event. -/
theorem process_line (h : ∀ f ∈ ev.fields, PlainField f) (S : LoomState) :
    (processTelemetry (chars ev.line) S).1.picture = S.picture.after ev ∧
      (processTelemetry (chars ev.line) S).2 = eventLogs ev := by
  rw [process_fields h]
  have htick : S.tick.picture = S.picture := rfl
  cases ev with
  | cell n state type =>
    simp only [Telemetry.tag, Telemetry.fields, List.map_cons, List.map_nil, processFields,
      chars_printDecimal, DecimalText.parse_format]
    exact ⟨S.tick.picture_upsertCell _ state type, rfl⟩
  | alloc n type =>
    simp only [Telemetry.tag, Telemetry.fields, List.map_cons, List.map_nil, processFields,
      chars_printDecimal, DecimalText.parse_format]
    exact ⟨S.tick.picture_upsertCell _ 0 type, rfl⟩
  | explore n =>
    have hne := chars_name_ne_nil (h _ List.mem_cons_self)
    simp only [Telemetry.tag, Telemetry.fields, List.map_cons, List.map_nil, processFields,
      if_pos hne]
    exact ⟨S.tick.picture_upsertCell _ 0 (-1), rfl⟩
  | evict n => exact ⟨S.tick.picture_removeCell _, rfl⟩
  | route src sink state coupling =>
    simp only [Telemetry.tag, Telemetry.fields, List.map_cons, List.map_nil, processFields,
      chars_printDecimal, DecimalText.parse_format]
    exact ⟨S.tick.picture_addRoute _ _ coupling, rfl⟩
  | weave n src sink => exact ⟨S.tick.picture_addRoute _ _ 1, rfl⟩
  | hebbian | balance | mesh | eval | metabolic =>
    simp only [Telemetry.tag, Telemetry.fields, List.map_cons, List.map_nil, processFields,
      chars_printDecimal, DecimalText.parse_format]
    exact ⟨htick, rfl⟩
  | purpose | auth => exact ⟨htick, rfl⟩

end Lines

namespace ConsoleItem

def line : ConsoleItem → List UInt8
  | telemetry ev _ => ev.line
  | other line => line

def event : ConsoleItem → Option Telemetry
  | telemetry ev _ => some ev
  | other _ => none

/-- A telemetry line that fits its buffer, of plain names; another line that does not look like
one. -/
def Sound : ConsoleItem → Prop
  | telemetry ev _ => ev.line.length + 1 < ev.size ∧ ∀ f ∈ ev.fields, PlainField f
  | other line => 10 ∉ line ∧ ¬ text "#T:" <+: readText line

variable {item : ConsoleItem}

theorem Sound.newline (h : item.Sound) : 10 ∉ item.line := by
  cases item with
  | telemetry ev beyond =>
    intro hmem
    exact absurd (line_graphic h.2 10 hmem).1 (by decide)
  | other line => exact h.1

theorem Sound.bytes (h : item.Sound) : item.bytes = item.line ++ [10] := by
  cases item with
  | telemetry ev beyond =>
    have hzero : (0 : UInt8) ∉ ev.line := fun hmem =>
      absurd (line_graphic h.2 0 hmem).1 (by decide)
    exact (emit_exact_iff hzero).mpr h.1 beyond
  | other line => rfl

end ConsoleItem

section Following

/-- The items the console has printed. -/
def collect (items : List ConsoleItem) : ViewerEvent → List ConsoleItem
  | .emit item => items ++ [item]
  | _ => items

def emitted (evs : List ViewerEvent) : List ConsoleItem := evs.foldl collect []

def telemetryOf (items : List ConsoleItem) : List Telemetry := items.filterMap ConsoleItem.event

/-- What the reader prints of a line. -/
def printedText (item : ConsoleItem) : Option Text :=
  if item.event = none ∧ readText item.line ≠ [] then some (readText item.line) else none

/-- Of the items printed so far some have been cut from the stream; of their events some have
been processed, and the others wait in the queue. -/
structure Follows (S : LoomState) (V : LoomViewer) (items : List ConsoleItem) : Prop where
  sound : ∀ item ∈ items, item.Sound
  cut : ∃ done left taken waiting, items = done ++ left ∧
    V.buf ++ V.wire = LineStream.join 10 (left.map ConsoleItem.line) ∧
    telemetryOf done = taken ++ waiting ∧ V.queue = waiting.map (fun ev => chars ev.line) ∧
    V.printed = done.filterMap printedText ∧
    V.state.picture = taken.foldl Picture.after S.picture ∧ V.logs = taken.flatMap eventLogs

variable {S : LoomState} {V V' : LoomViewer} {items : List ConsoleItem}

theorem Follows.emit (h : Follows S V items) {item : ConsoleItem} (hitem : item.Sound) :
    Follows S { V with wire := V.wire ++ item.bytes } (items ++ [item]) := by
  obtain ⟨hsound, done, left, taken, waiting, rfl, hbytes, hrest⟩ := h
  refine ⟨fun i hi => ?_, done, left ++ [item], taken, waiting, List.append_assoc .., ?_, hrest⟩
  · rcases List.mem_append.mp hi with hi | hi
    · exact hsound i hi
    · exact List.mem_singleton.mp hi ▸ hitem
  · rw [List.map_append, LineStream.join_append, ← hbytes, List.append_assoc, hitem.bytes]
    exact congrArg _ (congrArg _ LineStream.join_singleton.symm)

theorem telemetryOf_append (xs ys : List ConsoleItem) :
    telemetryOf (xs ++ ys) = telemetryOf xs ++ telemetryOf ys := List.filterMap_append

theorem printedText_event {item : ConsoleItem} {ev : Telemetry} (h : item.event = some ev) :
    printedText item = none := by
  rw [printedText, if_neg]
  rw [h]
  exact fun hnone => absurd hnone.1 (by simp)

/-- The reader cuts off the next item. -/
theorem Follows.line (h : Follows S V items) {l rest : List UInt8} (hbuf : V.buf = l ++ 10 :: rest)
    (hl : 10 ∉ l) (hread : LineRead V l rest V') : Follows S V' items := by
  obtain ⟨hsound, done, left, taken, waiting, rfl, hbytes, htaken, hqueue, hprinted, hpicture,
    hlogs⟩ := h
  refine ⟨hsound, ?_⟩
  rw [hbuf, List.append_assoc, List.cons_append] at hbytes
  cases left with
  | nil => cases l <;> cases hbytes
  | cons item left =>
    have hitem := hsound item (List.mem_append_right done List.mem_cons_self)
    rw [List.map_cons, LineStream.join_cons] at hbytes
    obtain ⟨rfl, hrest⟩ := LineStream.append_cons_inj hl hitem.newline hbytes
    have hsplit : done ++ item :: left = (done ++ [item]) ++ left := by simp
    have hone : telemetryOf (done ++ [item]) = taken ++ (waiting ++ telemetryOf [item]) := by
      rw [telemetryOf_append, htaken, List.append_assoc]
    cases item with
    | telemetry ev beyond =>
      have htext : readText ev.line = chars ev.line := readText_line hitem.2
      have htag : text "#T:" <+: readText ev.line := by
        rw [htext, chars_line]
        exact List.prefix_append _ _
      have hprint : done.filterMap printedText =
          (done ++ [ConsoleItem.telemetry ev beyond]).filterMap printedText := by
        rw [List.filterMap_append, List.filterMap_cons_none (printedText_event rfl)]
        simp
      cases hread with
      | blank hblank =>
        have hnil : text "#T:" <+: [] := hblank ▸ htag
        exact absurd (List.prefix_nil.mp hnil) (by decide)
      | put =>
        refine ⟨done ++ [.telemetry ev beyond], left, taken, waiting ++ [ev], hsplit, hrest, hone,
          ?_, hprinted.trans hprint, hpicture, hlogs⟩
        rw [List.map_append, ← hqueue]
        exact congrArg (fun t => V.queue ++ [t]) htext
      | print hother => exact absurd htag hother
    | other text =>
      have hnone : telemetryOf [ConsoleItem.other text] = [] := rfl
      rw [hnone, List.append_nil] at hone
      cases hread with
      | blank hblank =>
        refine ⟨done ++ [.other text], left, taken, waiting, hsplit, hrest, hone, hqueue, ?_,
          hpicture, hlogs⟩
        have hskip : printedText (.other text) = none := if_neg fun hc => hc.2 hblank
        rw [List.filterMap_append, List.filterMap_cons_none hskip]
        simpa using hprinted
      | put htag => exact absurd htag hitem.2
      | print _ hne =>
        refine ⟨done ++ [.other text], left, taken, waiting, hsplit, hrest, hone, hqueue, ?_,
          hpicture, hlogs⟩
        have hshow : printedText (.other text) = some (readText text) := if_pos ⟨rfl, hne⟩
        rw [List.filterMap_append, List.filterMap_cons_some hshow, ← hprinted]
        rfl

theorem Follows.process (h : Follows S V items) {t : Text} {queue : List Text}
    (hqueue : V.queue = t :: queue) :
    Follows S { V with
      queue := queue
      state := (processTelemetry t V.state).1
      logs := V.logs ++ (processTelemetry t V.state).2 } items := by
  obtain ⟨hsound, done, left, taken, waiting, rfl, hbytes, htaken, hwaiting, hprinted, hpicture,
    hlogs⟩ := h
  rw [hqueue] at hwaiting
  cases waiting with
  | nil => cases hwaiting
  | cons ev waiting =>
    obtain ⟨rfl, rfl⟩ := List.cons.inj hwaiting
    have hmem : ev ∈ telemetryOf done := by
      rw [htaken]
      exact List.mem_append_right taken List.mem_cons_self
    have hfields : ∀ f ∈ ev.fields, PlainField f := by
      obtain ⟨item, hitem, hev⟩ := List.mem_filterMap.mp hmem
      have hs := hsound item (List.mem_append_left left hitem)
      cases item with
      | telemetry ev' beyond => exact Option.some.inj hev ▸ hs.2
      | other line => cases hev
    obtain ⟨hshown, hlogged⟩ := process_line hfields V.state
    refine ⟨hsound, done, left, taken ++ [ev], waiting, rfl, hbytes, ?_, rfl, hprinted, ?_, ?_⟩
    · rw [htaken, List.append_assoc]
      rfl
    · rw [hshown, hpicture, List.foldl_append]
      rfl
    · rw [hlogged, hlogs, List.flatMap_append, List.flatMap_singleton]

theorem Follows.step {ev : ViewerEvent} (h : Follows S V items)
    (hs : Guarded (fun _ ev => ∀ item, ev = .emit item → item.Sound) ViewerStep V ev V') :
    Follows S V' (collect items ev) := by
  obtain ⟨hguard, hs⟩ := hs
  cases hs with
  | emit item => exact h.emit (hguard item rfl)
  | read hbuf hwire =>
    obtain ⟨hsound, done, left, taken, waiting, hitems, hbytes, hrest⟩ := h
    rw [hwire, ← List.append_assoc] at hbytes
    exact ⟨hsound, done, left, taken, waiting, hitems, hbytes, hrest⟩
  | line hbuf hline hread => exact h.line hbuf hline hread
  | process hqueue => exact h.process hqueue
  | render =>
    obtain ⟨hsound, done, left, taken, waiting, hitems, hbytes, htaken, hqueue, hprinted, hpicture,
      hlogs⟩ := h
    refine ⟨hsound, done, left, taken, waiting, hitems, hbytes, htaken, hqueue, hprinted, ?_, hlogs⟩
    rw [← hpicture, LoomState.logGraph]
    dsimp only
    split <;> rfl

end Following

def ledEvent : Telemetry := .cell (some (ascii "led")) 1 3

def ledItem : ConsoleItem := .telemetry ledEvent fun _ => 0

theorem ledItem_sound : ledItem.Sound := by
  refine ⟨by decide +kernel, ?_⟩
  unfold PlainField
  decide +kernel

end ReflexOS.Viewer
