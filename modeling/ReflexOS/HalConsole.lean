import ReflexOS.RingBuffer
import ReflexOS.Runs
import ReflexOS.Types

set_option autoImplicit false

/-!
# Console receive

The USB FIFO, its interrupt, the ring between handler and shell, and the shell's read. A step
is one register access of the handler or one access of the shell to what they share.
-/
namespace ReflexOS.Hal
open Runs RingBuffer

def usjRxRingSize : ℕ := 2048
def usjFifoSize : ℕ := 64

/-- Where the handler stands: the test for data, the FIFO read, the mask on a full ring, the
acknowledgement without our bit, the one of every bit (read, then written), the second look. -/
inductive Handler where
  | idle
  | drain
  | take
  | mask
  | ackOthers
  | ackRead
  | ackWrite (st : Bool)
  | again
deriving DecidableEq

/-- Where `reflex_hal_console_read` stands, with the byte it will return. -/
inductive Reader where
  | idle
  | load
  | advance (byte : UInt8)
  | testStalled (result : Option UInt8)
  | clearStalled (result : Option UInt8)
  | enable (result : Option UInt8)
deriving DecidableEq

/-- `raw` is the receive bit, `enabled` the line at the interrupt controller. -/
structure Console where
  fifo : List UInt8
  raw : Bool
  enabled : Bool
  handler : Handler
  ring : ℕ → UInt8
  head : ℕ
  tail : ℕ
  stalled : Bool
  reader : Reader
  arrived : List UInt8
  returned : List UInt8

inductive Event where
  | packet (bytes : List UInt8)
  | interrupt
  | handler
  | reader

def ringNext (i : ℕ) : ℕ := (i + 1) &&& (usjRxRingSize - 1)

/-- The next register access of `usj_rx_isr`. -/
def handlerStep (s : Console) : Console :=
  match s.handler with
  | .idle => s
  | .drain =>
    if s.fifo = [] then { s with handler := .ackRead }
    else if ringNext s.head = s.tail then { s with handler := .mask }
    else { s with handler := .take }
  | .take =>
    { s with
      ring := Function.update s.ring s.head (s.fifo.headD 0)
      fifo := s.fifo.tail
      head := ringNext s.head
      handler := .drain }
  | .mask => { s with enabled := false, stalled := true, handler := .ackOthers }
  | .ackOthers => { s with handler := .idle }
  | .ackRead => { s with handler := .ackWrite s.raw }
  | .ackWrite st => { s with raw := s.raw && !st, handler := .again }
  | .again => { s with handler := if s.fifo = [] then .idle else .drain }

def finish (s : Console) (result : Option UInt8) : Console :=
  { s with reader := .idle, returned := s.returned ++ result.toList }

def readerStep (s : Console) : Console :=
  match s.reader with
  | .idle => { s with reader := if s.tail = s.head then .testStalled none else .load }
  | .load => { s with reader := .advance (s.ring s.tail) }
  | .advance byte => { s with tail := ringNext s.tail, reader := .testStalled (some byte) }
  | .testStalled result =>
    if s.stalled then { s with reader := .clearStalled result } else finish s result
  | .clearStalled result => { s with stalled := false, reader := .enable result }
  | .enable result => finish { s with enabled := true } result

/-- A packet enters only an empty FIFO; the line is delivered while it is enabled and the bit
is set; the handler runs to completion before the shell goes on. -/
inductive ConsoleStep : Console → Event → Console → Prop where
  | packet (s : Console) (bytes : List UInt8) (hempty : s.fifo = []) (hne : bytes ≠ [])
      (hfit : bytes.length ≤ usjFifoSize) :
      ConsoleStep s (.packet bytes)
        { s with fifo := bytes, raw := true, arrived := s.arrived ++ bytes }
  | interrupt (s : Console) (hidle : s.handler = .idle) (hraw : s.raw = true)
      (henabled : s.enabled = true) : ConsoleStep s .interrupt { s with handler := .drain }
  | handler (s : Console) (hbusy : s.handler ≠ .idle) : ConsoleStep s .handler (handlerStep s)
  | reader (s : Console) (hidle : s.handler = .idle) : ConsoleStep s .reader (readerStep s)

/-- After `reflex_hal_console_init`. -/
def consoleInit : Console where
  fifo := []
  raw := false
  enabled := true
  handler := .idle
  ring _ := 0
  head := 0
  tail := 0
  stalled := false
  reader := .idle
  arrived := []
  returned := []

theorem ringNext_eq (i : ℕ) : ringNext i = (i + 1) % usjRxRingSize :=
  Nat.and_two_pow_sub_one_eq_mod (i + 1) 11

/-- The byte `console_read` has taken out of the ring and not returned yet. -/
def Reader.held : Reader → List UInt8
  | .testStalled result | .clearStalled result | .enable result => result.toList
  | _ => []

def ringCount (s : Console) : ℕ := (s.head + usjRxRingSize - s.tail) % usjRxRingSize

/-- The bytes that are on their way: held by the shell, in the ring, in the FIFO. -/
def pending (s : Console) : List UInt8 :=
  s.reader.held ++ window usjRxRingSize s.ring s.tail (ringCount s) ++ s.fifo

/-- With `len` bytes in the ring, nothing is lost, doubled or out of order. -/
structure Ordered (len : ℕ) (s : Console) : Prop where
  len_lt : len < usjRxRingSize
  tail_lt : s.tail < usjRxRingSize
  head_eq : s.head = (s.tail + len) % usjRxRingSize
  bytes : s.arrived =
    s.returned ++ (s.reader.held ++ window usjRxRingSize s.ring s.tail len ++ s.fifo)
  load : s.reader = .load → 0 < len
  advance : ∀ byte, s.reader = .advance byte → 0 < len ∧ byte = s.ring s.tail
  take : s.handler = .take → s.fifo ≠ [] ∧ len + 1 < usjRxRingSize

section Ordered

variable {len : ℕ} {s : Console} (h : Ordered len s)
include h

theorem Ordered.ringCount : ringCount s = len := by
  have hlen := h.len_lt
  have htail := h.tail_lt
  rw [Hal.ringCount, h.head_eq]
  simp only [usjRxRingSize] at hlen htail ⊢
  omega

theorem Ordered.packet {bytes : List UInt8} (hempty : s.fifo = []) :
    Ordered len { s with fifo := bytes, raw := true, arrived := s.arrived ++ bytes } where
  len_lt := h.len_lt
  tail_lt := h.tail_lt
  head_eq := h.head_eq
  bytes := by simp [h.bytes, hempty]
  load := h.load
  advance := h.advance
  take ht := absurd hempty (h.take ht).1

theorem Ordered.setHandler {handler : Handler} (hne : handler ≠ .take) :
    Ordered len { s with handler := handler } :=
  ⟨h.len_lt, h.tail_lt, h.head_eq, h.bytes, h.load, h.advance, fun ht => absurd ht hne⟩

theorem Ordered.ring_full (hfull : len + 1 = usjRxRingSize) : ringNext s.head = s.tail := by
  have htail := h.tail_lt
  rw [ringNext_eq, h.head_eq]
  simp only [usjRxRingSize] at hfull htail ⊢
  omega

theorem Ordered.takeByte (ht : s.handler = .take) : Ordered (len + 1) (handlerStep s) := by
  obtain ⟨hne, hroom⟩ := h.take ht
  obtain ⟨byte, rest, hfifo⟩ := List.exists_cons_of_ne_nil hne
  have hslot : ∀ k < len, (s.tail + k) % usjRxRingSize ≠ s.head := by
    intro k hk
    rw [h.head_eq]
    exact slot_ne hk h.len_lt
  have hkeep : 0 < len → Function.update s.ring s.head byte s.tail = s.ring s.tail := by
    intro hpos
    have hne := hslot 0 hpos
    rw [Nat.add_zero, Nat.mod_eq_of_lt h.tail_lt] at hne
    exact Function.update_of_ne hne _ _
  simp only [handlerStep, ht, hfifo, List.headD_cons, List.tail_cons]
  refine ⟨hroom, h.tail_lt, ?_, ?_, fun hl => Nat.succ_pos len, fun b hb => ?_, nofun⟩
  · rw [ringNext_eq, h.head_eq, Nat.mod_add_mod]
    rfl
  · have hpush := window_push (f := s.ring) h.tail_lt h.len_lt byte
    rw [← h.head_eq] at hpush
    simp [h.bytes, hfifo, hpush]
  · obtain ⟨hpos, hb⟩ := h.advance b hb
    exact ⟨Nat.succ_pos len, hb.trans (hkeep hpos).symm⟩

theorem Ordered.handler : ∃ len', Ordered len' (handlerStep s) := by
  cases hh : s.handler with
  | idle => exact ⟨len, by simpa only [handlerStep, hh] using h⟩
  | drain =>
    refine ⟨len, ?_⟩
    simp only [handlerStep, hh]
    split
    · exact h.setHandler nofun
    next hne =>
      split
      · exact h.setHandler nofun
      next hroom =>
        refine ⟨h.len_lt, h.tail_lt, h.head_eq, h.bytes, h.load, h.advance, fun _ => ⟨hne, ?_⟩⟩
        have hlt := h.len_lt
        have hnot : len + 1 ≠ usjRxRingSize := fun hfull => hroom (h.ring_full hfull)
        omega
  | take => exact ⟨len + 1, h.takeByte hh⟩
  | mask =>
    refine ⟨len, ?_⟩
    simp only [handlerStep, hh]
    exact ⟨h.len_lt, h.tail_lt, h.head_eq, h.bytes, h.load, h.advance, nofun⟩
  | ackOthers =>
    refine ⟨len, ?_⟩
    simp only [handlerStep, hh]
    exact h.setHandler nofun
  | ackRead =>
    refine ⟨len, ?_⟩
    simp only [handlerStep, hh]
    exact h.setHandler nofun
  | ackWrite st =>
    refine ⟨len, ?_⟩
    simp only [handlerStep, hh]
    exact ⟨h.len_lt, h.tail_lt, h.head_eq, h.bytes, h.load, h.advance, nofun⟩
  | again =>
    refine ⟨len, ?_⟩
    simp only [handlerStep, hh]
    split <;> exact h.setHandler nofun

variable (hidle : s.handler = .idle) {enabled stalled : Bool}
include hidle

theorem Ordered.setReader {reader : Reader} (hheld : reader.held = s.reader.held)
    (hload : reader = .load → 0 < len)
    (hadvance : ∀ byte, reader = .advance byte → 0 < len ∧ byte = s.ring s.tail) :
    Ordered len { s with enabled := enabled, stalled := stalled, reader := reader } where
  len_lt := h.len_lt
  tail_lt := h.tail_lt
  head_eq := h.head_eq
  bytes := by
    rw [hheld]
    exact h.bytes
  load := hload
  advance := hadvance
  take ht := by
    dsimp only at ht
    rw [hidle] at ht
    cases ht

theorem Ordered.finish {result : Option UInt8} (hheld : s.reader.held = result.toList) :
    Ordered len (finish { s with enabled := enabled, stalled := stalled } result) where
  len_lt := h.len_lt
  tail_lt := h.tail_lt
  head_eq := h.head_eq
  bytes := by
    have hbytes := h.bytes
    rw [hheld] at hbytes
    simp [Hal.finish, hbytes, Reader.held]
  load := nofun
  advance := nofun
  take ht := by simp [Hal.finish, hidle] at ht

theorem Ordered.advanceTail {byte : UInt8} (hr : s.reader = .advance byte) :
    ∃ len', Ordered len' (readerStep s) := by
  obtain ⟨hpos, rfl⟩ := h.advance byte hr
  obtain ⟨len', rfl⟩ := Nat.exists_eq_succ_of_ne_zero (by omega : len ≠ 0)
  have hlen := h.len_lt
  have hbytes := h.bytes
  simp only [readerStep, hr]
  refine ⟨len', by omega, ?_, ?_, ?_, nofun, nofun, fun ht => ?_⟩
  · rw [ringNext_eq]
    exact Nat.mod_lt _ (by decide)
  · dsimp only
    rw [ringNext_eq, slot_succ]
    exact h.head_eq
  · rw [hr, Nat.succ_eq_add_one, window_succ] at hbytes
    simpa [ringNext_eq, Reader.held] using hbytes
  · dsimp only at ht
    rw [hidle] at ht
    cases ht

theorem Ordered.reader : ∃ len', Ordered len' (readerStep s) := by
  cases hr : s.reader with
  | idle =>
    refine ⟨len, ?_⟩
    simp only [readerStep, hr]
    split
    · exact h.setReader hidle (by rw [hr]; rfl) nofun nofun
    next hne =>
      refine h.setReader hidle (by rw [hr]; rfl) (fun _ => ?_) nofun
      rw [Nat.pos_iff_ne_zero]
      rintro rfl
      exact hne (by rw [h.head_eq, Nat.add_zero, Nat.mod_eq_of_lt h.tail_lt])
  | load =>
    refine ⟨len, ?_⟩
    simp only [readerStep, hr]
    refine h.setReader hidle (by rw [hr]; rfl) nofun fun byte hb => ?_
    cases hb
    exact ⟨h.load hr, rfl⟩
  | advance byte => exact h.advanceTail hidle hr
  | testStalled result =>
    refine ⟨len, ?_⟩
    simp only [readerStep, hr]
    split
    · exact h.setReader hidle (by rw [hr]; rfl) nofun nofun
    · exact h.finish hidle (by rw [hr]; rfl)
  | clearStalled result =>
    refine ⟨len, ?_⟩
    simp only [readerStep, hr]
    exact h.setReader hidle (by rw [hr]; rfl) nofun nofun
  | enable result =>
    refine ⟨len, ?_⟩
    simp only [readerStep, hr]
    exact h.finish hidle (by rw [hr]; rfl)

end Ordered

theorem consoleInit_ordered : Ordered 0 consoleInit :=
  ⟨by decide, by decide, rfl, rfl, nofun, nofun, nofun⟩

theorem Ordered.step {len : ℕ} {s s' : Console} {e : Event} (h : Ordered len s)
    (hs : ConsoleStep s e s') : ∃ len', Ordered len' s' := by
  cases hs with
  | packet bytes hempty => exact ⟨len, h.packet hempty⟩
  | interrupt => exact ⟨len, h.setHandler nofun⟩
  | handler => exact h.handler
  | reader hidle => exact h.reader hidle

/-- Whenever the handler is out or on its way out after a full ring, bytes left in the FIFO
are announced. -/
def Announced (s : Console) : Prop :=
  s.handler = .idle ∨ s.handler = .mask ∨ s.handler = .ackOthers →
    s.fifo ≠ [] → s.raw = true

/-- A masked line is unmasked by the shell's next read. -/
def Rearmed (s : Console) : Prop :=
  s.enabled = true ∨ s.stalled = true ∨ ∃ result, s.reader = .enable result

/-- The handler finds the ring full with bytes in the FIFO only while the receive bit is set. -/
def StallsAnnounced (s : Console) (e : Event) : Prop :=
  match e with
  | .handler => s.handler = .drain → s.fifo ≠ [] → ringNext s.head = s.tail → s.raw = true
  | _ => True

theorem Announced.step {s s' : Console} {e : Event} (h : Announced s)
    (hguard : StallsAnnounced s e) (hs : ConsoleStep s e s') : Announced s' := by
  cases hs with
  | packet => exact fun _ _ => rfl
  | interrupt => exact fun hout => by simp at hout
  | handler hbusy =>
    intro hout hne
    cases hh : s.handler with
    | idle => exact absurd hh hbusy
    | drain =>
      simp only [handlerStep, hh] at hout hne ⊢
      split at hout
      · simp at hout
      next hfifo =>
        split at hout
        next hfull =>
          rw [if_neg hfifo, if_pos hfull]
          exact hguard hh hfifo hfull
        · simp at hout
    | take => simp [handlerStep, hh] at hout
    | mask =>
      simp only [handlerStep, hh] at hne ⊢
      exact h (.inr (.inl hh)) hne
    | ackOthers =>
      simp only [handlerStep, hh] at hne ⊢
      exact h (.inr (.inr hh)) hne
    | ackRead => simp [handlerStep, hh] at hout
    | ackWrite st => simp [handlerStep, hh] at hout
    | again =>
      simp only [handlerStep, hh] at hout hne
      simp [hne] at hout
  | reader hidle =>
    intro _ hne
    have hsame : (readerStep s).fifo = s.fifo ∧ (readerStep s).raw = s.raw := by
      unfold readerStep finish
      split <;> try exact ⟨rfl, rfl⟩
      split <;> exact ⟨rfl, rfl⟩
    rw [hsame.2]
    exact h (.inl hidle) (hsame.1 ▸ hne)

theorem Rearmed.step {s s' : Console} {e : Event} (h : Rearmed s) (hs : ConsoleStep s e s') :
    Rearmed s' := by
  cases hs with
  | packet => exact h
  | interrupt => exact h
  | handler =>
    cases hh : s.handler <;> simp only [handlerStep, hh]
    case drain => split <;> (try split) <;> exact h
    case mask => exact .inr (.inl rfl)
    all_goals exact h
  | reader =>
    cases hr : s.reader with
    | clearStalled result =>
      simp only [readerStep, hr]
      exact .inr (.inr ⟨result, rfl⟩)
    | enable result =>
      simp only [readerStep, hr]
      exact .inl rfl
    | _ =>
      have hold : s.enabled = true ∨ s.stalled = true := by simpa [Rearmed, hr] using h
      simp only [readerStep, hr, finish]
      try split
      all_goals exact hold.elim .inl fun hst => .inr (.inl hst)

/-- The bytes returned are the bytes arrived, in order, up to those still on their way. -/
theorem console_in_order {es : List Event} {s : Console} (hrun : Run ConsoleStep consoleInit es s) :
    s.arrived = s.returned ++ pending s := by
  obtain ⟨len, h⟩ := hrun.invariant (fun s => ∃ len, Ordered len s)
    (fun _ _ _ ⟨_, h⟩ hs => h.step hs) ⟨0, consoleInit_ordered⟩
  rw [pending, h.ringCount]
  exact h.bytes

/-- In a run in which the handler stalls only on announced bytes the console loses nothing
and never goes deaf. -/
theorem console_never_deaf {es : List Event} {s : Console}
    (hrun : Run (Guarded StallsAnnounced ConsoleStep) consoleInit es s) :
    s.arrived = s.returned ++ pending s ∧
      (s.handler = .idle → s.fifo ≠ [] → s.raw = true ∧ Rearmed s) := by
  constructor
  · exact console_in_order
      (hrun.mono (fun _ => True) (fun _ _ _ _ _ => trivial) (fun _ _ _ _ hs => hs.2) trivial)
  · obtain ⟨hann, hre⟩ := hrun.invariant (fun s => Announced s ∧ Rearmed s)
      (fun _ _ _ h hs => ⟨h.1.step hs.1 hs.2, h.2.step hs.2⟩) ⟨fun _ h => absurd rfl h, .inl rfl⟩
    exact fun hidle hne => ⟨hann (.inl hidle) hne, hre⟩

theorem handler_to {s : Console} (s' : Console) (hbusy : s.handler ≠ .idle) (heq : handlerStep s = s') :
    ConsoleStep s .handler s' := heq ▸ .handler s hbusy

/-- A packet of one byte, fetched by the handler. -/
theorem console_never_deaf_packet :
    ∃ s, s.arrived = s.returned ++ pending s ∧ s.arrived = [65] ∧ s.fifo = [] := by
  let s₁ : Console := { consoleInit with fifo := [65], raw := true, arrived := [65] }
  let s₂ : Console := { s₁ with handler := .drain }
  let s₃ : Console := { s₁ with handler := .take }
  have hroom : ringNext 0 ≠ 0 := by decide
  have hpacket : Guarded StallsAnnounced ConsoleStep consoleInit (.packet [65]) s₁ :=
    ⟨trivial, .packet consoleInit [65] rfl nofun (by decide)⟩
  have hinterrupt : Guarded StallsAnnounced ConsoleStep s₁ .interrupt s₂ :=
    ⟨trivial, .interrupt s₁ rfl rfl rfl⟩
  have hdrain : Guarded StallsAnnounced ConsoleStep s₂ .handler s₃ :=
    ⟨fun _ _ _ => rfl,
      handler_to s₃ nofun (by simp [handlerStep, s₂, s₃, s₁, consoleInit, hroom])⟩
  have htake : Guarded StallsAnnounced ConsoleStep s₃ .handler (handlerStep s₃) :=
    ⟨nofun, .handler s₃ nofun⟩
  have h := console_never_deaf (.cons hpacket (.cons hinterrupt (.cons hdrain (.single htake))))
  exact ⟨_, h.1, rfl, rfl⟩

/-- `k` bytes in the ring from slot 0 on, none in the FIFO. -/
structure Holding (k : ℕ) (handler : Handler) (raw : Bool) (s : Console) : Prop where
  handler : s.handler = handler
  fifo : s.fifo = []
  raw : s.raw = raw
  enabled : s.enabled = true
  head : s.head = k
  tail : s.tail = 0

section Fill

variable {k : ℕ} {s : Console}

theorem Holding.receive (h : Holding k .idle false s) (hk : k + 1 < usjRxRingSize) :
    ∃ es s', Run ConsoleStep s es s' ∧ Holding (k + 1) .ackRead true s' := by
  have hnext : ringNext s.head = k + 1 := by rw [ringNext_eq, h.head, Nat.mod_eq_of_lt hk]
  have hroom : ringNext s.head ≠ s.tail := by rw [hnext, h.tail]; omega
  let s₁ := { s with fifo := [0], raw := true, arrived := s.arrived ++ [0] }
  let s₂ := { s₁ with handler := .drain }
  let s₃ := { s₁ with handler := .take }
  refine ⟨_, _, .cons (.packet s [0] h.fifo nofun (by decide)) <|
    .cons (.interrupt s₁ h.handler rfl h.enabled) <|
    .cons (@handler_to s₂ s₃ nofun ?_) <|
    .cons (.handler s₃ nofun) <| .single (.handler _ nofun), ?_⟩
  · simp [handlerStep, s₂, s₃, s₁, hroom]
  · exact ⟨rfl, rfl, rfl, h.enabled, hnext, h.tail⟩

theorem Holding.acknowledge (h : Holding k .ackRead true s) :
    ∃ es s', Run ConsoleStep s es s' ∧ Holding k .idle false s' := by
  let s₁ := { s with handler := .ackWrite true }
  let s₂ := { s with raw := false, handler := .again }
  let s₃ := { s with raw := false, handler := .idle }
  refine ⟨_, s₃, .cons (handler_to s₁ (by simp [h.handler]) ?_) <|
    .cons (handler_to s₂ nofun ?_) <| .single (handler_to s₃ nofun ?_), ?_⟩
  · simp [handlerStep, h.handler, h.raw, s₁]
  · simp [handlerStep, s₁, s₂]
  · simp [handlerStep, s₂, s₃, h.fifo]
  · exact ⟨rfl, h.fifo, rfl, h.enabled, h.head, h.tail⟩

theorem holding_reachable (k : ℕ) (hk : k < usjRxRingSize) :
    ∃ es s, Run ConsoleStep consoleInit es s ∧ Holding k .idle false s := by
  induction k with
  | zero => exact ⟨[], consoleInit, .nil _, rfl, rfl, rfl, rfl, rfl, rfl⟩
  | succ k ih =>
    obtain ⟨es, s, hrun, h⟩ := ih (by omega)
    obtain ⟨es', s', hrun', h'⟩ := h.receive hk
    obtain ⟨es'', s'', hrun'', h''⟩ := h'.acknowledge
    exact ⟨_, s'', (hrun.append hrun').append hrun'', h''⟩

end Fill

/-- A packet arrives between the last byte of a full ring and the acknowledgement: its bytes
stay in the FIFO with nothing to announce them. -/
theorem stalled_unannounced :
    ∃ es s, Run ConsoleStep consoleInit es s ∧ s.handler = .idle ∧ s.fifo ≠ [] ∧
      s.raw = false := by
  obtain ⟨es, s, hrun, h⟩ := holding_reachable 2046 (by decide)
  obtain ⟨es', s', hrun', h'⟩ := h.receive (by decide)
  have hfull : ringNext s'.head = s'.tail := by
    rw [h'.head, h'.tail]
    rfl
  let s₁ := { s' with fifo := [0], raw := true, arrived := s'.arrived ++ [0] }
  let s₂ := { s₁ with handler := .ackWrite true }
  let s₃ := { s₁ with raw := false, handler := .drain }
  let s₄ := { s₁ with raw := false, handler := .mask }
  have hread : handlerStep s₁ = s₂ := by simp [handlerStep, s₁, s₂, h'.handler]
  have hmask : handlerStep s₃ = s₄ := by simp [handlerStep, s₃, s₄, s₁, hfull]
  have hlast : Run ConsoleStep s' _ _ :=
    .cons (.packet s' [0] h'.fifo nofun (by decide)) <|
    .cons (@handler_to s₁ _ (by simp [s₁, h'.handler]) hread) <|
    .cons (.handler s₂ nofun) <|
    .cons (handler_to s₃ nofun rfl) <|
    .cons (handler_to _ nofun hmask) <|
    .cons (.handler s₄ nofun) <| .single (.handler _ nofun)
  exact ⟨_, _, (hrun.append hrun').append hlast, rfl, nofun, rfl⟩

end ReflexOS.Hal
