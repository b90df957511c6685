import ReflexOS.HeapShimPrimitives

set_option autoImplicit false

/-!
# What a thread is owed

A thread counts on the blocks that it is at work on: nobody else names them, so they stay.
-/
namespace ReflexOS.HeapShim
open ByteMemory BlockList Kernel Threads

/-- What a primitive asks, and of which heap. -/
def Prim.asked : Prim → Option (Issuer × Request)
  | .heap c => (requestOf c).map (Prod.mk .reflex)
  | .real c => some (.espIdf, c.request)
  | _ => none

/-- The block that a primitive resizes, releases or writes into. -/
def Prim.target : Prim → Option ℕ
  | .heap c => (requestOf c).bind Request.pointer
  | .real c => c.request.pointer
  | .memset p _ => some p
  | .memcpy dst _ _ => some dst
  | _ => none

theorem Prim.target_of_asked {op : Prim} {who : Issuer} {q : Request}
    (h : op.asked = some (who, q)) : op.target = q.pointer := by
  cases op with
  | heap c =>
    simp only [Prim.asked, Option.map_eq_some_iff, Prod.mk.injEq] at h
    obtain ⟨q, hq, -, rfl⟩ := h
    rw [Prim.target, hq, Option.bind_some]
  | real c =>
    simp only [Prim.asked, Option.some.injEq, Prod.mk.injEq] at h
    rw [Prim.target, h.2]
  | _ => cases h

namespace World

def ready (W : World) : Prop := W.heaps.callers.heap.ready = true

/-- A block that thread `t` is at work on. -/
def Held (t : ℕ) (W : World) (p : ℕ) (b : Issue) : Prop :=
  W.holder p = some t ∧ W.heaps.issued p = some b

/-- Both heaps are sound, and what is at work on is out. -/
structure Sound (base : ℕ) (W : World) : Prop where
  heaps : W.heaps.Sound base
  out : ∀ p t, W.holder p = some t → W.heaps.issued p ≠ none

/-- What the others leave to thread `t`. -/
structure Relied (t : ℕ) (W W' : World) : Prop where
  holder : ∀ p, W'.holder p = some t ↔ W.holder p = some t
  stays : ∀ p, W.holder p = some t → W.heaps.Stays W'.heaps p
  ready : W.ready → W'.ready

/-- Where a primitive may be taken: each heap is asked about blocks that it issued and that are
held. -/
def Safe (t : ℕ) (W : World) : Prim → Prop
  | .heap c => W.ready ∧ ∃ q, requestOf c = some q ∧
      (∀ p, q.pointer = some p → ∃ n, Held t W p ⟨.reflex, n⟩) ∧
      ∀ a n, c = .allocAligned a n → a < 2 ^ 32
  | .real c => ∀ p, c.request.pointer = some p → ∃ n, Held t W p ⟨.espIdf, n⟩
  | .blockSize p => ∃ n, Held t W p ⟨.reflex, n⟩
  | .memset p n => ∃ b, Held t W p b ∧ n ≤ b.size
  | .memcpy dst src n => (∃ k, Held t W dst ⟨.espIdf, k⟩ ∧ n ≤ k) ∧ ∃ k, Held t W src ⟨.reflex, k⟩
  | _ => True

theorem Relied.refl (t : ℕ) (W : World) : Relied t W W :=
  ⟨fun _ => Iff.rfl, fun p _ => .refl W.heaps p, id⟩

theorem Relied.trans {t : ℕ} {W W' W'' : World} (h : Relied t W W') (h' : Relied t W' W'') :
    Relied t W W'' :=
  ⟨fun p => (h'.holder p).trans (h.holder p),
    fun p hp => (h.stays p hp).trans (h'.stays p ((h.holder p).mpr hp)),
    fun hr => h'.ready (h.ready hr)⟩

theorem Relied.held {t : ℕ} {W W' : World} (h : Relied t W W') {p : ℕ} {b : Issue}
    (hp : Held t W p b) : Held t W' p b :=
  ⟨(h.holder p).mpr hp.1, (h.stays p hp.1).issued.trans hp.2⟩

theorem Safe.issuer {t : ℕ} {W : World} {op : Prim} (h : Safe t W op) {who : Issuer} {q : Request}
    (hq : op.asked = some (who, q)) {p : ℕ} (hp : q.pointer = some p) :
    ∃ n, Held t W p ⟨who, n⟩ := by
  cases op with
  | heap c =>
    obtain ⟨-, q', hq', hown, -⟩ := h
    simp only [Prim.asked, hq', Option.map_some, Option.some.injEq, Prod.mk.injEq] at hq
    obtain ⟨rfl, rfl⟩ := hq
    exact hown p hp
  | real c =>
    simp only [Prim.asked, Option.some.injEq, Prod.mk.injEq] at hq
    obtain ⟨rfl, rfl⟩ := hq
    exact h p hp
  | _ => cases hq

/-- What a safe primitive may change is held. -/
theorem Safe.target {t : ℕ} {W : World} {op : Prim} (h : Safe t W op) {p : ℕ}
    (hp : op.target = some p) : W.holder p = some t := by
  cases op with
  | heap c =>
    obtain ⟨-, q', hq', hown, -⟩ := h
    simp only [Prim.target, hq', Option.bind_some] at hp
    exact (hown p hp).elim fun _ hp => hp.1
  | real c => exact (h p hp).elim fun _ hp => hp.1
  | memset p n =>
    obtain rfl := Option.some.inj hp
    exact h.elim fun _ hp => hp.1.1
  | memcpy dst src n =>
    obtain rfl := Option.some.inj hp
    exact h.1.elim fun _ hp => hp.1.1
  | _ => cases hp

end World

section Exec
variable {base : ℕ} {W : World} (hW : W.Sound base) {t : ℕ}
include hW

theorem World.Sound.heap (hend : base + regionBytes < 2 ^ 32) {c : Call} {q : Request}
    (hq : requestOf c = some q) (hsafe : W.Safe t (.heap c)) (hfits : Fits W (.heap c)) :
    Kept base W.heaps { W.heaps with callers := (W.heaps.callers.perform c).2 } q.pointer ∧
      Answered .reflex W.heaps { W.heaps with callers := (W.heaps.callers.perform c).2 } q
        (W.heaps.callers.perform c).1 := by
  obtain ⟨hready, q', hq', hown, hword⟩ := hsafe
  obtain rfl : q' = q := Option.some.inj (hq'.symm.trans hq)
  have hown' : ∀ p, q'.pointer = some p → ∃ n, W.heaps.issued p = some ⟨.reflex, n⟩ :=
    fun p hp => (hown p hp).imp fun _ h => h.2
  refine hW.heaps.perform hready hq hown' fun bs ht => ?_
  obtain ⟨-, -, -, hhi⟩ := hW.heaps.tracked hready
  refine Heaps.admitted ht (hhi ▸ hend) hq hown' hword fun k n hc => ?_
  subst hc
  exact hfits k rfl

theorem World.Sound.real {c : RealCall} {r : ℕ} {H' : Heaps} (hsafe : W.Safe t (.real c))
    (ha : Answers base W.heaps c.request r H') :
    Kept base W.heaps H' c.request.pointer ∧ Answered .espIdf W.heaps H' c.request r :=
  hW.heaps.answers (fun p hp => (hsafe p hp).imp fun _ h => h.2) ha

variable (hpos : 0 < base) (h8 : base % 8 = 0) (hend : base + regionBytes < 2 ^ 32) {op : Prim}
  (hsafe : W.Safe t op) (hfits : Fits W op) {r : ℕ} {H' : Heaps}
  (heff : Effect base W.heaps op r H')
include hpos h8 hend hsafe hfits heff

/-- Every primitive taken where it is safe keeps the heaps. -/
theorem World.Sound.kept : Kept base W.heaps H' op.target := by
  have hsame : Kept base W.heaps W.heaps none := ⟨hW.heaps, id, fun p _ _ => .refl _ p⟩
  cases heff with
  | ensureReady => exact (hW.heaps.ensureReady h8 hpos hend).1
  | owns => exact hsame
  | heap =>
    obtain ⟨q, hq, -⟩ := hsafe.2
    rw [Prim.target, hq]
    exact (hW.heap hend hq hsafe hfits).1
  | blockSize => exact hsame
  | real answers => exact (hW.real hsafe answers).1
  | memset =>
    obtain ⟨b, hb, hle⟩ := hsafe
    exact hW.heaps.write hb.2 fun x hx => if_neg (by omega)
  | memcpy =>
    obtain ⟨⟨k, hk, hle⟩, -⟩ := hsafe
    exact hW.heaps.write hk.2 fun x hx => copyBytes_other (by simp only at hx; omega)

omit hpos h8 in
theorem World.Sound.answered {who : Issuer} {q : Request} (hq : op.asked = some (who, q)) :
    Answered who W.heaps H' q r := by
  cases heff with
  | @heap c =>
    simp only [Prim.asked, Option.map_eq_some_iff, Prod.mk.injEq] at hq
    obtain ⟨q, hq, rfl, rfl⟩ := hq
    exact (hW.heap hend hq hsafe hfits).2
  | real answers =>
    simp only [Prim.asked, Option.some.injEq, Prod.mk.injEq] at hq
    obtain ⟨rfl, rfl⟩ := hq
    exact (hW.real hsafe answers).2
  | _ => cases hq

end Exec

section After
variable {base : ℕ} {W : World} {t : ℕ} {H' : Heaps} {p : ℕ}

theorem World.after_holder (hsame : H'.issued p = W.heaps.issued p) :
    (W.after t H').holder p = W.holder p := if_pos hsame

theorem World.after_ne (hne : H'.issued p ≠ W.heaps.issued p) :
    (W.after t H').holder p = if H'.issued p = none then none else some t := if_neg hne

/-- What is out after a step and was not before, or was held already, is held. -/
theorem World.after_held {b : Issue} (hb : H'.issued p = some b)
    (hp : W.heaps.issued p = none ∨ W.holder p = some t) : (W.after t H').Held t p b := by
  refine ⟨?_, hb⟩
  by_cases hsame : H'.issued p = W.heaps.issued p
  · rw [World.after_holder hsame]
    refine hp.resolve_left fun hnone => ?_
    rw [hsame, hnone] at hb
    cases hb
  · rw [World.after_ne hsame, if_neg (by simp [hb])]

variable (hW : W.Sound base) {target : Option ℕ} (hk : Kept base W.heaps H' target)
  (ht : ∀ p, target = some p → W.holder p = some t)
include hW hk ht

/-- A step of one thread, as the others see it. -/
theorem World.Sound.after :
    (W.after t H').Sound base ∧ ∀ u ≠ t, World.Relied u W (W.after t H') := by
  refine ⟨⟨hk.sound, fun p u hp => ?_⟩, fun u hu => ?_⟩
  · change H'.issued p ≠ none
    by_cases hsame : H'.issued p = W.heaps.issued p
    · rw [World.after_holder hsame] at hp
      rw [hsame]
      exact hW.out p u hp
    · rw [World.after_ne hsame] at hp
      intro hnone
      rw [if_pos hnone] at hp
      cases hp
  · have hstays : ∀ p, W.holder p = some u → W.heaps.Stays H' p := by
      intro p hp
      refine hk.stays p (hW.out p u hp) fun htp => hu ?_
      exact Option.some.inj (hp.symm.trans (ht p htp))
    refine ⟨fun p => ?_, hstays, hk.ready⟩
    by_cases hsame : H'.issued p = W.heaps.issued p
    · rw [World.after_holder hsame]
    · refine iff_of_false (fun hp => ?_) fun hp => hsame (hstays p hp).issued
      rw [World.after_ne hsame] at hp
      split at hp
      · cases hp
      · exact hu (Option.some.inj hp).symm

omit ht in
/-- A step of one thread, as it sees the blocks that it did not name. -/
theorem World.Sound.own (hp : W.holder p = some t) (hne : target ≠ some p) :
    (W.after t H').holder p = some t ∧ W.heaps.Stays H' p := by
  have hstay := hk.stays p (hW.out p t hp) hne
  exact ⟨(World.after_holder hstay.issued).trans hp, hstay⟩

omit hk ht in
theorem World.Sound.gone (hp : H'.issued p = none) : (W.after t H').holder p ≠ some t := by
  by_cases hsame : H'.issued p = W.heaps.issued p
  · rw [World.after_holder hsame]
    exact fun hheld => hW.out p t hheld (hsame ▸ hp)
  · rw [World.after_ne hsame, if_pos hp]
    simp

end After

def Request.size : Request → Option ℕ
  | .alloc n | .resize _ n => some n
  | .release _ => none

/-- A heap was asked for so many bytes and gave none. -/
def Refused (who : Issuer) (n : ℕ) (done : List (Prim × ℕ)) : Prop :=
  ∃ op q, (op, 0) ∈ done ∧ op.asked = some (who, q) ∧ q.size = some n

/-- `realloc` is `malloc` where there is no block, and `free` where nothing is asked for. -/
def reallocRequest (p n : ℕ) : Request :=
  if n = 0 then .release p else if p = 0 then .alloc n else .resize p n

def Entry.request : Entry → Request
  | .malloc n | .mallocR n => .alloc n
  | .calloc c n | .callocR c n => .alloc (c * n)
  | .realloc p n | .reallocR p n => reallocRequest p n
  | .free p | .freeR p | .capsFree p => .release p
  | .capsMalloc n _ => .alloc n
  | .capsCalloc c n _ => .alloc (c * n)
  | .capsAlignedAlloc _ n _ => .alloc n
  | .capsRealloc p n _ => reallocRequest p n

/-- Whether the region may serve a call. -/
def Entry.served : Entry → Bool
  | .capsMalloc _ caps | .capsCalloc _ _ caps => oursToServe caps
  | .capsAlignedAlloc _ _ caps | .capsRealloc _ _ caps => oursToServe caps
  | _ => true

/-- What a call has done when it returns, from `B` where it was made. -/
inductive Owed (t : ℕ) (served : Bool) (B : World) (done : List (Prim × ℕ)) (W : World) :
    Request → ℕ → Prop where
  | allocated {n a : ℕ} {who : Issuer} (ne : a ≠ 0) (held : W.Held t a ⟨who, n⟩) :
      Owed t served B done W (.alloc n) a
  | refused {n : ℕ} (refused : 2 ^ 32 ≤ n ∨
      Refused .espIdf n done ∧ (served = true → Refused .reflex n done)) :
      Owed t served B done W (.alloc n) 0
  | resized {p n a : ℕ} {who : Issuer} (ne : a ≠ 0) (held : W.Held t a ⟨who, n⟩)
      (gone : a = p ∨ W.holder p ≠ some t)
      (copied : ∀ b, B.heaps.issued p = some b → ∀ i < b.size, i < n →
        W.heaps.mem (a + i) = B.heaps.mem (p + i)) : Owed t served B done W (.resize p n) a
  | unresized {p n : ℕ} (held : W.holder p = some t) (stays : B.heaps.Stays W.heaps p)
      (refused : Refused .espIdf n done ∧ ∀ b, B.heaps.issued p = some b → b.issuer = .reflex →
        served = true → Refused .reflex n done) : Owed t served B done W (.resize p n) 0
  | released {p : ℕ} (gone : W.holder p ≠ some t) : Owed t served B done W (.release p) 0

theorem Owed.stable {t : ℕ} {served : Bool} {B W W' : World} {done : List (Prim × ℕ)} {q : Request}
    {a : ℕ} (h : Owed t served B done W q a) (hrely : World.Relied t W W') :
    Owed t served B done W' q a := by
  cases h with
  | allocated ne held => exact .allocated ne (hrely.held held)
  | refused refused => exact .refused refused
  | resized ne held gone copied =>
    refine .resized ne (hrely.held held) (gone.imp_right fun hne => mt (hrely.holder _).mp hne)
      fun b hb i hi hin => ?_
    exact ((hrely.stays a held.1).bytes _ held.2 i hin).trans (copied b hb i hi hin)
  | unresized held stays refused =>
    exact .unresized ((hrely.holder _).mpr held) (stays.trans (hrely.stays _ held)) refused
  | released gone => exact .released (mt (hrely.holder _).mp gone)

def contract (base : ℕ) : Contract World Entry Prim ℕ ℕ where
  Inv := World.Sound base
  Rely := World.Relied
  Safe := World.Safe
  Post := fun t c B done a W => Owed t c.served B done W c.request a

theorem World.Safe.stable {t : ℕ} {W W' : World} {op : Prim} (h : W.Safe t op)
    (hrely : World.Relied t W W') : W'.Safe t op := by
  cases op with
  | heap c =>
    obtain ⟨hready, q, hq, hown, hword⟩ := h
    exact ⟨hrely.ready hready, q, hq, fun p hp => (hown p hp).imp fun _ h => hrely.held h, hword⟩
  | real c => exact fun p hp => (h p hp).imp fun _ h => hrely.held h
  | blockSize p => exact h.imp fun _ h => hrely.held h
  | memset p n => exact h.imp fun _ h => ⟨hrely.held h.1, h.2⟩
  | memcpy dst src n =>
    exact ⟨h.1.imp fun _ h => ⟨hrely.held h.1, h.2⟩, h.2.imp fun _ h => hrely.held h⟩
  | ensureReady => trivial
  | owns p => trivial

end ReflexOS.HeapShim
