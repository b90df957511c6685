import ReflexOS.VmLoader

set_option autoImplicit false

/-!
# What a loader leaves behind

The words of the image are mapped from address 0 on. Neither loader touches the cache.
-/
namespace ReflexOS.Vm
open VmTernary VmMmu

variable {W : Type*}

/-- A loader succeeds; the image has `count` words of private memory. -/
inductive Reloads (host : Host W) (m m' : Machine W) : ℕ → (ℕ → Word18) → Prop where
  | image {image : Image} (h : loadImage host m image = (Err.ok, m')) :
      Reloads host m m' image.privateMemoryCount fun a => m.mem (image.buffer + a)
  | binary {buffer : List UInt8} {ws : List Word18}
      (h : loadBinary host m buffer = (Err.ok, m'))
      (hw : unpackWords (buffer.drop (16 + field buffer 12 2 * packedInstructionBytes))
        (field buffer 14 2) = .ok ws) :
      Reloads host m m' ws.length fun a => ws.getD a zeroWord

section Layout

/-- The map holds the first `count` addresses, from host pointer `p` on, and no other. -/
def Layout (p count : ℕ) (mmu : Mmu) : Prop :=
  ∀ a, mmuTranslate mmu a = if a < count then .ok (p + a) else .error Err.notFound

theorem layout_init (p : ℕ) : Layout p 0 mmuInit := fun _ => rfl

theorem layout_addRegion {p count : ℕ} {mmu : Mmu}
    (h : mmuAddRegion mmuInit p count .privateMem 0 = .ok mmu) : Layout p count mmu := by
  unfold mmuAddRegion at h
  split at h
  · cases h
  split at h
  · split at h
    · dsimp only at h
      split at h
      · cases h
      · cases h
        intro a
        by_cases ha : a < count <;>
          simp [mmuTranslate, mmuInit, Region.contains, ha]
    · cases h
  · cases h

variable {p count a b : ℕ} {m m' : Machine W} {w : Word18}

theorem Layout.outside (h : Layout p count m.vm.mmu) (ha : ¬ a < count) :
    a ∉ Mapped m.vm.mmu := by
  rintro ⟨q, hq⟩
  rw [h a, if_neg ha] at hq
  cases hq

theorem Layout.word (h : Layout p count m.vm.mmu) (ha : a < count) : m.word a = m.mem (p + a) := by
  rw [Machine.word, memGetRaw, h a, if_pos ha]

theorem Layout.memGetRaw (h : Layout p count m.vm.mmu) (ha : a < count) :
    Vm.memGetRaw m a = .ok (m.word a) := by
  rw [h.word ha, Vm.memGetRaw, h a, if_pos ha]

theorem Layout.memSetRaw (h : Layout p count m.vm.mmu) (ha : a < count) (w : Word18) :
    ∃ g, Vm.memSetRaw m a w = .ok g ∧ g.vm = m.vm ∧
      ∀ b < count, g.word b = Function.update m.word a w b := by
  refine ⟨{ m with mem := Function.update m.mem (p + a) w }, ?_, rfl, fun b hb => ?_⟩
  · rw [Vm.memSetRaw, h a, if_pos ha]
  · rw [Layout.word (m := { m with mem := Function.update m.mem (p + a) w }) h hb]
    change Function.update m.mem (p + a) w (p + b) = _
    by_cases hab : b = a
    · rw [hab, Function.update_self, Function.update_self]
    · rw [Function.update_of_ne hab, h.word hb, Function.update_of_ne]
      omega

end Layout

section Reload

variable {host : Host W} {m m' : Machine W} {count : ℕ} {words : ℕ → Word18}

theorem closeRoutes_kept (host : Host W) (m : Machine W) (n : ℕ) :
    (closeRoutes host m n).vm.cache = m.vm.cache ∧ (closeRoutes host m n).mem = m.mem := by
  induction n with
  | zero => exact ⟨rfl, rfl⟩
  | succ n ih =>
    unfold closeRoutes
    dsimp only
    split
    · exact ih
    · exact ih

theorem vmUnload_kept (host : Host W) (m : Machine W) :
    (vmUnload host m).vm.cache = m.vm.cache ∧ (vmUnload host m).mem = m.mem :=
  closeRoutes_kept host m m.vm.routeCount

theorem installBinary_layout {buffer : List UInt8} {data : Option ℕ} {ws : List Word18}
    (h : installBinary m buffer data ws = (Err.ok, m')) :
    m'.vm.cache = m.vm.cache ∧ m'.mem = m.mem ∧ Layout (data.getD 0) ws.length m'.vm.mmu := by
  unfold installBinary at h
  dsimp only at h
  split at h
  next hv => exact absurd (Prod.mk.inj h).1 hv
  split at h
  · split at h
    next he => exact absurd (Prod.mk.inj h).1 (addRegion_error he)
    next hadd =>
      cases h
      exact ⟨rfl, rfl, layout_addRegion hadd⟩
  next hlen =>
    cases h
    refine ⟨rfl, rfl, ?_⟩
    rw [Nat.eq_zero_of_not_pos hlen]
    exact layout_init _

theorem unpackWords_length {stream : List UInt8} {n : ℕ} {ws : List Word18}
    (h : unpackWords stream n = .ok ws) : ws.length = n := by
  induction n generalizing stream ws with
  | zero =>
    cases h
    rfl
  | succ n ih =>
    unfold unpackWords at h
    split at h
    · cases h
    split at h
    · cases h
    next hws =>
      cases h
      rw [List.length_cons, ih hws]

theorem storeWords_get {mem : ℕ → Word18} {p a : ℕ} {ws : List Word18} (ha : a < ws.length) :
    storeWords mem p ws (p + a) = ws.getD a zeroWord := by
  rw [storeWords, if_pos (Nat.le_add_right p a), Nat.add_sub_cancel_left, List.getD,
    List.getElem?_eq_getElem ha, Option.getD_some, Option.getD_some]

theorem loadData_layout {buffer : List UInt8} {ws : List Word18}
    (h : loadData host m buffer = (Err.ok, m'))
    (hw : unpackWords (buffer.drop (16 + field buffer 12 2 * packedInstructionBytes))
      (field buffer 14 2) = .ok ws) :
    ∃ p, m'.vm.cache = m.vm.cache ∧ Layout p ws.length m'.vm.mmu ∧
      ∀ a < ws.length, m'.word a = ws.getD a zeroWord := by
  unfold loadData at h
  dsimp only at h
  split at h
  · split at h
    · exact absurd (Prod.mk.inj h).1 (by decide)
    next p _ =>
      rw [hw] at h
      obtain ⟨hcache, hmem, hlayout⟩ := installBinary_layout h
      refine ⟨p, hcache, hlayout, fun a ha => ?_⟩
      rw [Layout.word hlayout ha, hmem]
      exact storeWords_get ha
  next hcount =>
    obtain ⟨hcache, -, hlayout⟩ := installBinary_layout h
    have hlen : ws.length = 0 := (unpackWords_length hw).trans (Nat.eq_zero_of_not_pos hcount)
    rw [hlen]
    exact ⟨0, hcache, hlayout, fun a ha => absurd ha (Nat.not_lt_zero a)⟩

theorem loadImage_layout {image : Image} (h : loadImage host m image = (Err.ok, m')) :
    m'.vm.cache = m.vm.cache ∧ m'.mem = m.mem ∧
      Layout image.buffer image.privateMemoryCount m'.vm.mmu := by
  obtain ⟨hcache, hmem⟩ := vmUnload_kept host m
  unfold loadImage at h
  split at h
  next hv => exact absurd (Prod.mk.inj h).1 hv
  dsimp only at h
  split at h
  · split at h
    next he => exact absurd (Prod.mk.inj h).1 (addRegion_error he)
    next hadd =>
      cases h
      exact ⟨hcache, hmem, layout_addRegion hadd⟩
  next hcount =>
    cases h
    refine ⟨hcache, hmem, ?_⟩
    rw [Nat.eq_zero_of_not_pos hcount]
    exact layout_init _

/-- Both loaders map the image's words and leave the cache as it was. -/
theorem Reloads.layout (h : Reloads host m m' count words) :
    ∃ p, m'.vm.cache = m.vm.cache ∧ Layout p count m'.vm.mmu ∧
      ∀ a < count, m'.word a = words a := by
  cases h with
  | @image image h =>
    obtain ⟨hcache, hmem, hlayout⟩ := loadImage_layout h
    refine ⟨image.buffer, hcache, hlayout, fun a ha => ?_⟩
    rw [Layout.word hlayout ha, hmem]
  | @binary buffer ws h hw =>
    obtain ⟨hcache, -⟩ := vmUnload_kept host m
    obtain ⟨p, hkept, hlayout, hwords⟩ := loadData_layout (loadBinary_ok h) hw
    exact ⟨p, hkept.trans hcache, hlayout, hwords⟩

end Reload

end ReflexOS.Vm
