import ReflexOS.HalInterrupts
import ReflexOS.Runs

set_option autoImplicit false

/-!
# Interrupt lines over runs

What each call does to the registers and the table, and what holds of the handles in use.
-/
namespace ReflexOS.Hal
open WordBits Runs

section Addresses

lemma pri_ne_type (i : ℕ) : plicMxintPri i ≠ plicMxintType := by
  unfold plicMxintPri plicMxintType
  omega

lemma pri_ne_enable (i : ℕ) : plicMxintPri i ≠ plicMxintEnable := by
  unfold plicMxintPri plicMxintEnable
  omega

lemma pri_ne_clear (i : ℕ) : plicMxintPri i ≠ plicMxintClear := by
  unfold plicMxintPri plicMxintClear
  omega

lemma pri_ne_pri {i j : ℕ} (ne : j ≠ i) : plicMxintPri j ≠ plicMxintPri i := by
  unfold plicMxintPri
  omega

lemma route_ne_pri {i : ℕ} (lt : i < 32) (s : ℕ) : intmtxRoute s ≠ plicMxintPri i := by
  unfold intmtxRoute plicMxintPri intmtxBase plicMxBase
  omega

lemma route_ne_type (s : ℕ) : intmtxRoute s ≠ plicMxintType := by
  unfold intmtxRoute plicMxintType intmtxBase plicMxBase
  omega

lemma route_ne_enable (s : ℕ) : intmtxRoute s ≠ plicMxintEnable := by
  unfold intmtxRoute plicMxintEnable intmtxBase plicMxBase
  omega

lemma route_ne_clear (s : ℕ) : intmtxRoute s ≠ plicMxintClear := by
  unfold intmtxRoute plicMxintClear intmtxBase plicMxBase
  omega

lemma route_ne_route {s t : ℕ} (ne : t ≠ s) : intmtxRoute t ≠ intmtxRoute s := by
  unfold intmtxRoute
  omega

lemma type_ne_enable : plicMxintType ≠ plicMxintEnable := by decide

lemma type_ne_clear : plicMxintType ≠ plicMxintClear := by decide

lemma enable_ne_clear : plicMxintEnable ≠ plicMxintClear := by decide

end Addresses

/-- The registers of every line but `i` are as they were. -/
structure SameLines (S S' : Interrupts) (i : ℕ) : Prop where
  priority : ∀ j < 32, j ≠ i → S'.priority j = S.priority j
  edge : ∀ j ≠ i, S'.edge j = S.edge j
  mieBit : ∀ j ≠ i, S'.mieBit j = S.mieBit j
  enabled : ∀ j ≠ i, S'.enabled j = S.enabled j

section Claim
variable (S : Interrupts) {i : ℕ} (lt : i < 32) (s : ℕ) (f : Option ℕ) (a : ℕ)

lemma Interrupts.claim_regs : (S.claim i s f a).regs =
    Function.update (Function.update (Function.update
      (Function.update S.regs (intmtxRoute s) (BitVec.ofNat 32 i))
      (plicMxintPri i) (intrPriorityFor (Function.update S.regs (intmtxRoute s)
        (BitVec.ofNat 32 i) plicMxintThresh)))
      plicMxintType (clearBit (S.regs plicMxintType) i))
      plicMxintEnable (setBit (S.regs plicMxintEnable) i) := by
  simp [Interrupts.claim, Interrupts.write, Interrupts.setEntry,
    Function.update_of_ne (route_ne_type s).symm, Function.update_of_ne (route_ne_enable s).symm,
    Function.update_of_ne (pri_ne_type i).symm, Function.update_of_ne (pri_ne_enable i).symm,
    Function.update_of_ne type_ne_enable.symm]

include lt in
lemma Interrupts.claim_table : (S.claim i s f a).table = Function.update S.table i
    ⟨f, a, S.priority i, bitOf (S.regs plicMxintType) i, bitOf S.mie i, true⟩ := by
  simp [Interrupts.claim, Interrupts.write, Interrupts.setEntry, Interrupts.priority,
    Function.update_of_ne (route_ne_type s).symm,
    Function.update_of_ne (route_ne_pri lt s).symm]

lemma Interrupts.claim_bitmap : (S.claim i s f a).bitmap = setBit S.bitmap i := rfl

lemma Interrupts.claim_same : SameLines S (S.claim i s f a) i where
  priority := fun j jLt ne => by
    simp only [Interrupts.priority, Interrupts.claim_regs,
      Function.update_of_ne (pri_ne_enable j), Function.update_of_ne (pri_ne_type j),
      Function.update_of_ne (pri_ne_pri ne), Function.update_of_ne (route_ne_pri jLt s).symm]
  edge := fun j ne => by
    simp only [Interrupts.edge, Interrupts.claim_regs, Function.update_of_ne type_ne_enable,
      Function.update_self, clearBit_other _ ne]
  mieBit := fun j ne => setBit_other S.mie ne
  enabled := fun j ne => by
    simp only [Interrupts.enabled, Interrupts.claim_regs, Function.update_self,
      setBit_other _ ne]

include lt in
/-- It routes its own source only. -/
lemma Interrupts.claim_route {t : ℕ} (ne : t ≠ s) : (S.claim i s f a).route t = S.route t := by
  simp only [Interrupts.route, Interrupts.claim_regs, Function.update_of_ne (route_ne_enable t),
    Function.update_of_ne (route_ne_type t), Function.update_of_ne (route_ne_pri lt t),
    Function.update_of_ne (route_ne_route ne)]

end Claim

/-- Detaching after the first `n` sources: those routed to the line go to the disabled one, and
nothing else is written. -/
lemma detach_range (i : ℕ) (regs : ℕ → BitVec 32) (n : ℕ) :
    (∀ s, (List.range n).foldl (detachSource i) regs (intmtxRoute s) =
      if s < n ∧ regs (intmtxRoute s) = BitVec.ofNat 32 i then
        BitVec.ofNat 32 intmtxDisabledLine
      else regs (intmtxRoute s)) ∧
    ∀ b, (∀ s, b ≠ intmtxRoute s) → (List.range n).foldl (detachSource i) regs b = regs b := by
  induction n with
  | zero => exact ⟨fun s => by simp, fun b _ => rfl⟩
  | succ n ih =>
    rw [List.range_succ, List.foldl_append]
    generalize reached : (List.range n).foldl (detachSource i) regs = r at ih ⊢
    have here : r (intmtxRoute n) = regs (intmtxRoute n) := by
      rw [ih.1 n, if_neg fun h => absurd h.1 (Nat.lt_irrefl n)]
    simp only [List.foldl_cons, List.foldl_nil, detachSource]
    constructor
    · intro s
      by_cases eq : s = n
      · subst eq
        by_cases routed : regs (intmtxRoute s) = BitVec.ofNat 32 i
        · rw [if_pos (here.trans routed), Function.update_self, if_pos ⟨Nat.lt_succ_self s, routed⟩]
        · rw [if_neg fun h => routed (here.symm.trans h), here, if_neg fun h => routed h.2]
      · have other : (if r (intmtxRoute n) = BitVec.ofNat 32 i then
            Function.update r (intmtxRoute n) (BitVec.ofNat 32 intmtxDisabledLine)
            else r) (intmtxRoute s) = r (intmtxRoute s) := by
          split_ifs
          · exact Function.update_of_ne (route_ne_route eq) ..
          · rfl
        rw [other, ih.1 s]
        exact if_congr ⟨fun h => ⟨by omega, h.2⟩, fun h => ⟨by omega, h.2⟩⟩ rfl rfl
    · intro b outside
      have other : (if r (intmtxRoute n) = BitVec.ofNat 32 i then
          Function.update r (intmtxRoute n) (BitVec.ofNat 32 intmtxDisabledLine)
          else r) b = r b := by
        split_ifs
        · exact Function.update_of_ne (outside n) ..
        · rfl
      rw [other, ih.2 b outside]

section Release
variable (S : Interrupts) (i : ℕ)

/-- The registers once the line is masked and its sources are detached. -/
def Interrupts.detached (S : Interrupts) (i : ℕ) : ℕ → BitVec 32 :=
  detachSources i (Function.update (Function.update S.regs plicMxintEnable
    (clearBit (S.regs plicMxintEnable) i)) plicMxintClear (1#32 <<< i))

lemma Interrupts.detached_pri {j : ℕ} (lt : j < 32) :
    S.detached i (plicMxintPri j) = S.priority j := by
  rw [Interrupts.detached, detachSources,
    (detach_range i _ _).2 _ fun s => (route_ne_pri lt s).symm,
    Function.update_of_ne (pri_ne_clear j), Function.update_of_ne (pri_ne_enable j)]
  rfl

lemma Interrupts.detached_type : S.detached i plicMxintType = S.regs plicMxintType := by
  rw [Interrupts.detached, detachSources, (detach_range i _ _).2 _ fun s => (route_ne_type s).symm,
    Function.update_of_ne type_ne_clear, Function.update_of_ne type_ne_enable]

lemma Interrupts.detached_enable :
    S.detached i plicMxintEnable = clearBit (S.regs plicMxintEnable) i := by
  rw [Interrupts.detached, detachSources,
    (detach_range i _ _).2 _ fun s => (route_ne_enable s).symm,
    Function.update_of_ne enable_ne_clear, Function.update_self]

lemma Interrupts.detached_route {s : ℕ} (le : s ≤ intmtxSourceMax) :
    S.detached i (intmtxRoute s) =
      if S.route s = BitVec.ofNat 32 i then BitVec.ofNat 32 intmtxDisabledLine
      else S.route s := by
  rw [Interrupts.detached, detachSources, (detach_range i _ _).1 s,
    Function.update_of_ne (route_ne_clear s), Function.update_of_ne (route_ne_enable s)]
  exact if_congr (and_iff_right (Nat.lt_succ_of_le le)) rfl rfl

variable {S} {i} (taken : (S.table i).taken = true)
include taken

lemma Interrupts.release_regs : (S.release i).regs =
    Function.update (Function.update (S.detached i) (plicMxintPri i) (S.table i).prevPriority)
      plicMxintType (putBit (S.regs plicMxintType) i (S.table i).prevTypeBit) := by
  have type := S.detached_type i
  simp only [Interrupts.detached] at type
  simp [Interrupts.release, Interrupts.restore, Interrupts.write, Interrupts.setEntry, taken,
    Interrupts.detached, Function.update_of_ne (pri_ne_type i).symm, type]

lemma Interrupts.release_mie :
    (S.release i).mie = putBit S.mie i (S.table i).prevMieBit := by
  simp [Interrupts.release, Interrupts.restore, Interrupts.write, Interrupts.setEntry, taken]

lemma Interrupts.release_table {j : ℕ} (ne : j ≠ i) :
    (S.release i).table j = S.table j := by
  simp [Interrupts.release, Interrupts.restore, Interrupts.write, Interrupts.setEntry, taken, ne]

lemma Interrupts.release_bitmap : (S.release i).bitmap = clearBit S.bitmap i := by
  simp [Interrupts.release, Interrupts.restore, Interrupts.write, Interrupts.setEntry, taken]

lemma Interrupts.release_priority : (S.release i).priority i = (S.table i).prevPriority := by
  simp only [Interrupts.priority, Interrupts.release_regs taken,
    Function.update_of_ne (pri_ne_type i), Function.update_self]

lemma Interrupts.release_edge {w : BitVec 32} (was : (S.table i).prevTypeBit = bitOf w i) :
    (S.release i).edge i = w.getLsbD i := by
  simp only [Interrupts.edge, Interrupts.release_regs taken, Function.update_self, was,
    putBit_self]

lemma Interrupts.release_mieBit {w : BitVec 32} (was : (S.table i).prevMieBit = bitOf w i) :
    (S.release i).mieBit i = w.getLsbD i := by
  simp only [Interrupts.mieBit, Interrupts.release_mie taken, was, putBit_self]

lemma Interrupts.release_enabled : (S.release i).enabled i = false := by
  simp only [Interrupts.enabled, Interrupts.release_regs taken,
    Function.update_of_ne type_ne_enable.symm, Function.update_of_ne (pri_ne_enable i).symm,
    S.detached_enable i, clearBit_self]

/-- A source that was routed to the line goes to the disabled one, and no other moves. -/
lemma Interrupts.release_route (lt : i < 32) {s : ℕ} (le : s ≤ intmtxSourceMax) :
    (S.release i).route s = if S.route s = BitVec.ofNat 32 i
      then BitVec.ofNat 32 intmtxDisabledLine else S.route s := by
  rw [← S.detached_route i le]
  simp only [Interrupts.route, Interrupts.release_regs taken,
    Function.update_of_ne (route_ne_type s), Function.update_of_ne (route_ne_pri lt s)]

lemma Interrupts.release_same {t m : BitVec 32} (wasType : (S.table i).prevTypeBit = bitOf t i)
    (wasMie : (S.table i).prevMieBit = bitOf m i) : SameLines S (S.release i) i where
  priority := fun j lt ne => by
    rw [← S.detached_pri i lt]
    simp only [Interrupts.priority, Interrupts.release_regs taken,
      Function.update_of_ne (pri_ne_type j), Function.update_of_ne (pri_ne_pri ne)]
  edge := fun j ne => by
    simp only [Interrupts.edge, Interrupts.release_regs taken, Function.update_self, wasType,
      putBit_other _ _ ne]
  mieBit := fun j ne => by
    simp only [Interrupts.mieBit, Interrupts.release_mie taken, wasMie, putBit_other _ _ ne]
  enabled := fun j ne => by
    simp only [Interrupts.enabled, Interrupts.release_regs taken,
      Function.update_of_ne type_ne_enable.symm, Function.update_of_ne (pri_ne_enable i).symm,
      S.detached_enable i, clearBit_other _ ne]

end Release

/-- A line handed out, with what it held before: the words are those of the whole registers. -/
structure Grant where
  handle : ℕ
  handler : Option ℕ
  arg : ℕ
  priority : BitVec 32
  typeWord : BitVec 32
  mieWord : BitVec 32

def Grant.line (g : Grant) : ℕ := g.handle - 1

/-- The controller and the handles in use. -/
structure Lines where
  hw : Interrupts
  live : List Grant

inductive IntrCall where
  | alloc (vectorOurs : Bool) (source : ℤ) (handler : Option ℕ) (arg : ℕ)
  | setEnabled (handle : ℕ) (on : Bool)
  | free (handle : ℕ)

/-- Successful calls, on handles in use. -/
inductive Lines.Step : Lines → IntrCall → Lines → Prop where
  | alloc {hw hw' : Interrupts} {live : List Grant} {vectorOurs : Bool} {source : ℤ}
      {handler : Option ℕ} {arg handle : ℕ}
      (ok : intrAlloc vectorOurs source handler arg hw = (Err.ok, some handle, hw')) :
      Step ⟨hw, live⟩ (.alloc vectorOurs source handler arg)
        ⟨hw', live ++ [⟨handle, handler, arg, hw.priority (handle - 1), hw.regs plicMxintType,
          hw.mie⟩]⟩
  | setEnabled {hw : Interrupts} {live : List Grant} {g : Grant} (on : Bool) (mem : g ∈ live) :
      Step ⟨hw, live⟩ (.setEnabled g.handle on) ⟨(intrSetEnabled g.handle on hw).2, live⟩
  | free {hw : Interrupts} {live : List Grant} {g : Grant} (mem : g ∈ live) :
      Step ⟨hw, live⟩ (.free g.handle)
        ⟨(intrFree g.handle hw).2, live.filter fun g' => decide (g'.handle ≠ g.handle)⟩

/-- What holds of a line in use. -/
structure Grant.Held (g : Grant) (S : Interrupts) : Prop where
  handle : g.handle = g.line + 1
  low : intrMin ≤ g.line
  high : g.line ≤ intrMax
  bit : S.bitmap.getLsbD g.line = true
  entry : S.table g.line = ⟨g.handler, g.arg, g.priority, bitOf g.typeWord g.line,
    bitOf g.mieWord g.line, true⟩

structure Lines.Sound (L : Lines) : Prop where
  distinct : (L.live.map Grant.line).Nodup
  held : ∀ g ∈ L.live, g.Held L.hw

lemma intrAlloc_ok {vectorOurs : Bool} {source : ℤ} {handler : Option ℕ} {arg handle : ℕ}
    {hw hw' : Interrupts}
    (ok : intrAlloc vectorOurs source handler arg hw = (Err.ok, some handle, hw')) :
    ∃ i s : ℕ, handle = i + 1 ∧ source = s ∧ s ≤ intmtxSourceMax ∧ intrMin ≤ i ∧ i ≤ intrMax ∧
      hw.bitmap.getLsbD i = false ∧ hw' = hw.claim i s handler arg := by
  unfold intrAlloc at ok
  by_cases bad : source < 0 ∨ (intmtxSourceMax : ℤ) < source
  · rw [if_pos bad] at ok
    simp at ok
  rw [if_neg bad] at ok
  by_cases null : handler = none
  · rw [if_pos null] at ok
    simp at ok
  rw [if_neg null] at ok
  cases vectorOurs with
  | false => simp at ok
  | true =>
    cases found : freeLine hw.bitmap with
    | none => simp [found] at ok
    | some i =>
      simp only [found, Bool.not_true, Bool.false_eq_true, if_false, Prod.mk.injEq, true_and,
        Option.some.injEq] at ok
      have mem := List.mem_of_find?_eq_some found
      have clear := List.find?_some found
      rw [List.mem_range'_1] at mem
      simp only [Bool.not_eq_true'] at clear
      refine ⟨i, source.toNat, ok.1.symm, by omega, by omega, mem.1, ?_, clear, ok.2.symm⟩
      have high := mem.2
      simp only [intrMin, intrMax] at high ⊢
      omega

lemma intrSetEnabled_ok {g : Grant} {S : Interrupts} (held : g.Held S) (on : Bool) :
    intrSetEnabled g.handle on S = (Err.ok, S.write plicMxintEnable
      (if on then setBit (S.regs plicMxintEnable) g.line
        else clearBit (S.regs plicMxintEnable) g.line)) := by
  have low := held.low
  have high := held.high
  exact if_neg (by unfold Grant.line at low high; omega)

lemma intrFree_ok {g : Grant} {S : Interrupts} (held : g.Held S) :
    intrFree g.handle S = (Err.ok, S.release g.line) := by
  have low := held.low
  have high := held.high
  exact if_neg (by unfold Grant.line at low high; omega)

lemma Grant.Held.lt {g : Grant} {S : Interrupts} (held : g.Held S) : g.line < 32 :=
  Nat.lt_succ_of_le held.high

lemma Grant.Held.taken {g : Grant} {S : Interrupts} (held : g.Held S) :
    (S.table g.line).taken = true := by
  rw [held.entry]

/-- A grant stays held while its bit and its entry stay. -/
lemma Grant.Held.mono {g : Grant} {S S' : Interrupts} (held : g.Held S)
    (bit : S'.bitmap.getLsbD g.line = S.bitmap.getLsbD g.line)
    (entry : S'.table g.line = S.table g.line) : g.Held S' :=
  ⟨held.handle, held.low, held.high, bit.trans held.bit, entry.trans held.entry⟩

theorem Lines.Sound.step {L L' : Lines} {c : IntrCall} (h : L.Sound) (step : L.Step c L') :
    L'.Sound := by
  cases step with
  | @alloc hw hw' live vectorOurs source handler arg handle ok =>
    obtain ⟨i, s, rfl, rfl, -, low, high, clear, rfl⟩ := intrAlloc_ok ok
    have lt : i < 32 := Nat.lt_succ_of_le high
    have other : ∀ g ∈ live, g.line ≠ i := fun g mem eq => by
      have bit := (h.held g mem).bit
      rw [eq, clear] at bit
      exact absurd bit (by decide)
    refine ⟨?_, fun g mem => ?_⟩
    · rw [List.map_append]
      refine List.nodup_append.2 ⟨h.distinct, List.nodup_singleton _, ?_⟩
      intro line mem line' mem' eq
      obtain ⟨g, gMem, rfl⟩ := List.mem_map.1 mem
      rw [List.map_singleton, List.mem_singleton] at mem'
      exact other g gMem (eq.trans mem')
    · rcases List.mem_append.1 mem with mem | mem
      · refine (h.held g mem).mono ?_ ?_
        · rw [Interrupts.claim_bitmap, setBit_other _ (other g mem)]
        · rw [Interrupts.claim_table hw lt, Function.update_of_ne (other g mem)]
      · rw [List.mem_singleton] at mem
        subst mem
        refine ⟨rfl, low, high, setBit_self _ lt, ?_⟩
        rw [Interrupts.claim_table hw lt]
        exact Function.update_self ..
  | @setEnabled hw live g on mem =>
    refine ⟨h.distinct, fun g' mem' => (h.held g' mem').mono ?_ ?_⟩ <;>
      rw [intrSetEnabled_ok (h.held g mem)] <;> rfl
  | @free hw live g mem =>
    have held := h.held g mem
    refine ⟨h.distinct.sublist (List.filter_sublist.map _), fun g' mem' => ?_⟩
    obtain ⟨mem', ne⟩ := List.mem_filter.1 mem'
    have lines : g'.line ≠ g.line := fun eq => by
      rw [decide_eq_true_eq, (h.held g' mem').handle, held.handle, eq] at ne
      exact ne rfl
    dsimp only
    rw [intrFree_ok held]
    refine (h.held g' mem').mono ?_ ?_
    · rw [Interrupts.release_bitmap held.taken, clearBit_other _ lines]
    · rw [Interrupts.release_table held.taken lines]

theorem Lines.run_sound {hw : Interrupts} {calls : List IntrCall} {L : Lines}
    (run : Run Lines.Step ⟨hw, []⟩ calls L) : L.Sound :=
  run.invariant Lines.Sound (fun _ _ _ sound step => sound.step step)
    ⟨List.nodup_nil, fun _ mem => absurd mem List.not_mem_nil⟩

lemma setEnabled_same (S : Interrupts) (i : ℕ) (on : Bool) :
    let S' := S.write plicMxintEnable
      (if on then setBit (S.regs plicMxintEnable) i else clearBit (S.regs plicMxintEnable) i)
    SameLines S S' i ∧ (∀ s, S'.route s = S.route s) ∧ (i < 32 → S'.enabled i = on) := by
  refine ⟨⟨fun j _ _ => ?_, fun j _ => ?_, fun _ _ => rfl, fun j ne => ?_⟩, fun s => ?_,
    fun lt => ?_⟩
  · exact Function.update_of_ne (pri_ne_enable j) ..
  · simp only [Interrupts.edge, Interrupts.write, Function.update_of_ne type_ne_enable]
  · simp only [Interrupts.enabled, Interrupts.write, Function.update_self]
    split_ifs
    exacts [setBit_other _ ne, clearBit_other _ ne]
  · exact Function.update_of_ne (route_ne_enable s) ..
  · simp only [Interrupts.enabled, Interrupts.write, Function.update_self]
    cases on with
    | true => exact setBit_self _ lt
    | false => exact clearBit_self _ i

/-- A freed line holds what it held before it was handed out, is masked, and has no source. -/
structure PutBack (g : Grant) (S' : Interrupts) : Prop where
  priority : S'.priority g.line = g.priority
  edge : S'.edge g.line = g.typeWord.getLsbD g.line
  mieBit : S'.mieBit g.line = g.mieWord.getLsbD g.line
  masked : S'.enabled g.line = false
  unrouted : ∀ s ≤ intmtxSourceMax, S'.route s ≠ BitVec.ofNat 32 g.line

lemma Grant.Held.putBack {g : Grant} {S : Interrupts} (held : g.Held S) :
    PutBack g (S.release g.line) where
  priority := by rw [Interrupts.release_priority held.taken, held.entry]
  edge := Interrupts.release_edge held.taken (by rw [held.entry])
  mieBit := Interrupts.release_mieBit held.taken (by rw [held.entry])
  masked := Interrupts.release_enabled held.taken
  unrouted := fun s le => by
    rw [Interrupts.release_route held.taken held.lt le]
    split_ifs with routed
    · intro eq
      have low := held.low
      have lt := held.lt
      have := congrArg BitVec.toNat eq
      rw [BitVec.toNat_ofNat, BitVec.toNat_ofNat, Nat.mod_eq_of_lt (by decide),
        Nat.mod_eq_of_lt (by omega)] at this
      simp only [intmtxDisabledLine, intrMin] at this low
      omega
    · exact routed

section Calls
variable {L L' : Lines}

lemma Lines.Step.setEnabled_eq {handle : ℕ} {on : Bool}
    (step : L.Step (.setEnabled handle on) L') :
    L' = ⟨(intrSetEnabled handle on L.hw).2, L.live⟩ := by
  cases step
  rfl

lemma Lines.Step.free_eq {handle : ℕ} (step : L.Step (.free handle) L') :
    L' = ⟨(intrFree handle L.hw).2, L.live.filter fun g => decide (g.handle ≠ handle)⟩ := by
  cases step
  rfl

/-- A successful allocation hands out one line, leaves the others alone and routes its own
source only. -/
lemma Lines.Step.alloc_spec {vectorOurs : Bool} {source : ℤ} {handler : Option ℕ} {arg : ℕ}
    (step : L.Step (.alloc vectorOurs source handler arg) L') :
    ∃ g, L'.live = L.live ++ [g] ∧ g.handler = handler ∧ g.arg = arg ∧
      g.priority = L.hw.priority g.line ∧
      g.typeWord.getLsbD g.line = L.hw.edge g.line ∧
      g.mieWord.getLsbD g.line = L.hw.mieBit g.line ∧ SameLines L.hw L'.hw g.line ∧
      ∀ s : ℕ, (s : ℤ) ≠ source → L'.hw.route s = L.hw.route s := by
  cases step with
  | @alloc hw hw' live _ _ _ _ handle ok =>
    obtain ⟨i, s, rfl, rfl, -, -, high, -, rfl⟩ := intrAlloc_ok ok
    have lt : i < 32 := Nat.lt_succ_of_le high
    refine ⟨_, rfl, rfl, rfl, rfl, rfl, rfl, hw.claim_same s handler arg, fun t ne => ?_⟩
    exact hw.claim_route lt s handler arg fun eq => ne (by rw [eq])

end Calls

/-- In every run of successful calls the handles in use have lines of their own, with their
handler and argument; a freed line is as it was found; and no call touches another line. -/
theorem interrupt_lines {hw : Interrupts} {calls : List IntrCall} {L : Lines}
    (run : Run Lines.Step ⟨hw, []⟩ calls L) :
    (L.live.map Grant.line).Nodup ∧
    (∀ g ∈ L.live, intrMin ≤ g.line ∧ g.line ≤ intrMax ∧
      (L.hw.table g.line).handler = g.handler ∧ (L.hw.table g.line).arg = g.arg) ∧
    (∀ vectorOurs source handler arg L', L.Step (.alloc vectorOurs source handler arg) L' →
      ∃ g, L'.live = L.live ++ [g] ∧ g.handler = handler ∧ g.arg = arg ∧
        g.priority = L.hw.priority g.line ∧
        g.typeWord.getLsbD g.line = L.hw.edge g.line ∧
        g.mieWord.getLsbD g.line = L.hw.mieBit g.line ∧ SameLines L.hw L'.hw g.line ∧
        ∀ s : ℕ, (s : ℤ) ≠ source → L'.hw.route s = L.hw.route s) ∧
    (∀ g ∈ L.live, ∀ on L', L.Step (.setEnabled g.handle on) L' →
      SameLines L.hw L'.hw g.line ∧ ∀ s, L'.hw.route s = L.hw.route s) ∧
    ∀ g ∈ L.live, ∀ L', L.Step (.free g.handle) L' →
      PutBack g L'.hw ∧ SameLines L.hw L'.hw g.line ∧
      ∀ s ≤ intmtxSourceMax, L.hw.route s ≠ BitVec.ofNat 32 g.line →
        L'.hw.route s = L.hw.route s := by
  have sound := Lines.run_sound run
  refine ⟨sound.distinct, fun g mem => ?_, fun _ _ _ _ _ step => step.alloc_spec, ?_, ?_⟩
  · have held := sound.held g mem
    exact ⟨held.low, held.high, by rw [held.entry], by rw [held.entry]⟩
  · intro g mem on L' step
    obtain ⟨same, routes, -⟩ := setEnabled_same L.hw g.line on
    rw [step.setEnabled_eq, intrSetEnabled_ok (sound.held g mem)]
    exact ⟨same, routes⟩
  · intro g mem L' step
    have held := sound.held g mem
    rw [step.free_eq, intrFree_ok held]
    refine ⟨held.putBack, Interrupts.release_same held.taken (t := g.typeWord) (m := g.mieWord)
      (by rw [held.entry]) (by rw [held.entry]), fun s le unrouted => ?_⟩
    dsimp only
    rw [Interrupts.release_route held.taken held.lt le, if_neg unrouted]

/-- The controller with every register clear. -/
def clearController : Interrupts :=
  ⟨fun _ => 0, 0, true, 0, 0, fun _ => ⟨none, 0, 0, 0, 0, false⟩⟩

/-- The tick's line, handed out and given back. -/
theorem interrupt_lines_tick :
    PutBack ⟨11, some 1, 0, 0, 0, 0⟩
      (intrFree 11 (intrAlloc true 58 (some 1) 0 clearController).2.2).2 := by
  have allocated : Lines.Step ⟨clearController, []⟩ (.alloc true 58 (some 1) 0)
      ⟨(intrAlloc true 58 (some 1) 0 clearController).2.2, [⟨11, some 1, 0, 0, 0, 0⟩]⟩ :=
    .alloc rfl
  exact ((interrupt_lines (.cons allocated (.nil _))).2.2.2.2 ⟨11, some 1, 0, 0, 0, 0⟩
    List.mem_cons_self _ (.free List.mem_cons_self)).1

end ReflexOS.Hal
