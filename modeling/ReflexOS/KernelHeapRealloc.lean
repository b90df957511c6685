import ReflexOS.KernelHeapFree

set_option autoImplicit false

/-!
# Resizing

A block in use is cut, grown into the free block behind it, or moved; either way its bytes
come along.
-/
namespace ReflexOS.Kernel
open ByteMemory BlockList

/-- A payload at `p` that becomes one at `p'`. -/
structure Resized (H H' : Heap) (bs bs' : List Block) (p n p' n' size : ℕ) : Prop where
  evolved : Evolved H H' bs'
  mem_held : ∀ q m, (q, m) ∈ held hdr H.regionLo bs' ↔
    (q = p' ∧ m = n') ∨ (q ≠ p ∧ (q, m) ∈ held hdr H.regionLo bs)
  fresh : p' = p ∨ ∀ m, (p', m) ∉ held hdr H.regionLo bs
  copied : ∀ i < n, i < size → H'.mem (p' + i) = H.mem (p + i)
  untouched : ∀ q m, q ≠ p' → (q, m) ∈ held hdr H.regionLo bs' →
    ∀ x, q ≤ x → x < q + m → H'.mem x = H.mem x

theorem Sound.passes {H : Heap} {bs : List Block} {p n : ℕ} (h : Sound H bs)
    (hp : (p, n) ∈ held hdr H.regionLo bs) : plausiblePayload H p = true ∧ p % 8 = 0 ∧ p ≠ 0 := by
  obtain ⟨xs, b, ys, rfl, -, rfl, rfl⟩ := exists_of_held hp
  have hlo := h.laid.lo_pos
  have hlo8 := h.lo_mod
  have hend := h.laid.end_le rfl
  have hb := h.laid.sizes b (by simp)
  have hspan : spans hdr xs % 8 = 0 := spans_mod fun d hd => (h.laid.sizes d (by simp [hd])).1
  have hmod : (H.regionLo + spans hdr xs + hdr) % 8 = 0 := by
    simp only [hdr] at *
    omega
  have hmask : H.regionLo + spans hdr xs + hdr &&& (heapAlign - 1) = 0 :=
    (Nat.and_two_pow_sub_one_eq_mod _ 3).trans hmod
  refine ⟨?_, hmod, by omega⟩
  unfold plausiblePayload
  rw [h.ready, if_neg (by simp only [Bool.not_true, Bool.false_or, decide_eq_true_eq]; omega),
    if_neg (by omega), if_neg (not_not.mpr hmask)]

section InPlace

variable {H : Heap} {a size want : ℕ} {b c : Block} {xs ys zs : List Block}
  (h : Sound H (xs ++ b :: ys)) (ha : a = H.regionLo + spans hdr xs) (hb : b.used = true)
include h ha hb

/-- A block in use, grown or not, cut to size where it lies. -/
theorem Sound.cutInPlace {m : Memory} {f : ℕ} (hle : size ≤ want)
    (hK : Counted { H with mem := m, free := f } (xs ++ c :: zs)) (hc : c.used = true)
    (hz : Calm zs) (hheld : held hdr (a + (hdr + c.size)) zs = held hdr (a + (hdr + b.size)) ys)
    (hm : ∀ p n, (p, n) ∈ held hdr H.regionLo (xs ++ c :: zs) →
      ∀ x, p ≤ x → x < p + n → m x = H.mem x)
    (hout : Outside H { H with mem := m, free := f }) (hw : want ≤ c.size)
    (hwant : want % 8 = 0 ∧ 8 ≤ want) :
    ∃ bs' w, Resized H (shrinkTo { H with mem := m, free := f } a want) (xs ++ b :: ys) bs'
      (payloadOf a) b.size (payloadOf a) w size ∧ want ≤ w ∧
      Outside H (shrinkTo { H with mem := m, free := f } a want) := by
  obtain ⟨m', w, ys', hrun, hww, hl, hyc, hheld', hk, hout'⟩ := hK.shrinkTo hc ha hw hwant hz
  obtain ⟨hxc, -⟩ := (calm_used hb).mp h.calm
  have hmem : ∀ q n, (q, n) ∈ held hdr H.regionLo (xs ++ ⟨w, true⟩ :: ys') ↔
      (q = payloadOf a ∧ n = w) ∨ (q ≠ payloadOf a ∧ (q, n) ∈ held hdr H.regionLo (xs ++ b :: ys)) := by
    intro q n
    rw [show payloadOf a = H.regionLo + spans hdr xs + hdr by rw [ha]; rfl, ← held_without hb,
      held_append, held_used rfl, ← ha, hheld', hheld, ha]
    simp only [List.mem_append, List.mem_cons, Prod.mk.injEq]
    exact or_left_comm
  rw [hrun]
  refine ⟨_, w, ⟨h.settle hl ((calm_used rfl).mpr ⟨hxc, hyc⟩) rfl, hmem, .inl rfl,
    fun i hi hi' => ?_, fun q n hq hqn x hx hx' => ?_⟩, hww, fun x hx => ?_⟩
  · have hnew : (payloadOf a, w) ∈ held hdr H.regionLo (xs ++ ⟨w, true⟩ :: ys') :=
      (hmem _ _).mpr (.inl ⟨rfl, rfl⟩)
    have hold : (payloadOf a, c.size) ∈ held hdr H.regionLo (xs ++ c :: zs) := by
      rw [ha]
      exact held_of_mem hc
    rw [noteFreeChange_mem]
    exact (hk _ _ hnew _ (by omega) (by omega)).trans (hm _ _ hold _ (by omega) (by omega))
  · have hold : (q, n) ∈ held hdr H.regionLo (xs ++ c :: zs) := by
      have hq' := ((hmem q n).mp hqn).resolve_left fun hq' => hq hq'.1
      rw [ha, payloadOf, ← held_without hb, ← ha, ← hheld, List.mem_append] at hq'
      rw [held_append, held_used hc, List.mem_append, List.mem_cons, ← ha]
      exact hq'.imp id .inr
    rw [noteFreeChange_mem]
    exact (hk q n hqn x hx hx').trans (hm q n hold x hx hx')
  · rw [noteFreeChange_mem]
    exact (hout' x hx).trans (hout x hx)

theorem Sound.shrinkInPlace (hle : size ≤ want) (hw : want ≤ b.size)
    (hwant : want % 8 = 0 ∧ 8 ≤ want) :
    ∃ bs' w, Resized H (shrinkTo H a want) (xs ++ b :: ys) bs' (payloadOf a) b.size (payloadOf a) w
      size ∧ want ≤ w ∧ Outside H (shrinkTo H a want) :=
  h.cutInPlace ha hb (m := H.mem) (f := H.free) hle ⟨h.laid, h.counted⟩ hb
    ((calm_used hb).mp h.calm).2 rfl (fun _ _ _ _ _ _ => rfl) (fun _ _ => rfl) hw hwant

end InPlace

theorem Sound.growInPlace {H : Heap} {a size want : ℕ} {b n : Block} {xs ys : List Block}
    (h : Sound H (xs ++ b :: n :: ys)) (ha : a = H.regionLo + spans hdr xs) (hb : b.used = true)
    (hn : n.used = false) (hle : size ≤ want) (hw : want ≤ b.size + (hdr + n.size))
    (hwant : want % 8 = 0 ∧ 8 ≤ want) :
    ∃ bs' w, Resized H (shrinkTo (absorbNext H a (a + (hdr + b.size))) a want)
      (xs ++ b :: n :: ys) bs' (payloadOf a) b.size (payloadOf a) w size ∧ want ≤ w ∧
      Outside H (shrinkTo (absorbNext H a (a + (hdr + b.size))) a want) := by
  obtain ⟨m', hrun, hl, hk⟩ := absorbNext_merge h.laid ha
  have hcount := h.counted
  simp only [freeBytes_append, freeBytes_cons, hb, hn, Bool.false_eq_true, if_false, if_true] at hcount
  have hlt : H.free < 2 ^ 32 := by
    rw [h.counted]
    exact h.laid.freeBytes_lt
  obtain ⟨-, hyc⟩ := (calm_used hb).mp h.calm
  obtain ⟨hzc, -⟩ := calm_cons_free hn hyc
  have hheld : held hdr (a + (hdr + (b.size + (hdr + n.size)))) ys =
      held hdr (a + (hdr + b.size)) (n :: ys) := by
    rw [held_free hn]
    congr 1
    omega
  rw [hrun, sub32_eq hlt (by omega)]
  refine h.cutInPlace ha hb (c := ⟨b.size + (hdr + n.size), b.used⟩) hle ⟨hl, ?_⟩ hb hzc hheld ?_
    (fun x hx => hk x (hl.tiled.outside hx)) hw hwant
  · simp only [freeBytes_append, freeBytes_cons, hb, if_true]
    omega
  · intro p q hp x hx hx'
    exact hk x (held_off hp hx hx')

/-- The heap is in its headers: what is stored in the payloads is not its business. -/
theorem Sound.store {H : Heap} {bs : List Block} (h : Sound H bs) {m : Memory}
    (hm : ∀ x, H.regionLo ≤ x → x < H.regionHi →
      (∀ p n, (p, n) ∈ held hdr H.regionLo bs → ¬ (p ≤ x ∧ x < p + n)) → m x = H.mem x) :
    Sound { H with mem := m } bs := by
  refine ⟨h.ready, h.first, h.lo_mod, h.narrow, ⟨?_, h.laid.tile, h.laid.sizes, h.laid.lo_pos,
    h.laid.hi_le⟩, h.calm, h.counted, h.min_le⟩
  apply h.laid.chain.congr
  intro k hk x hx hx'
  have hbounds := header_bounds hk
  have htile := h.laid.tile
  simp only [hdr] at hbounds htile
  refine hm x (by omega) (by omega) ?_
  rintro p n hp ⟨hlo, hhi⟩
  have := held_off hp hlo hhi k hk
  simp only [hdr] at this
  omega

theorem Sound.move {H H₁ : Heap} {bs bs₁ : List Block} {p n p' n' size len : ℕ}
    (hp : (p, n) ∈ held hdr H.regionLo bs) (hg : Granted H H₁ bs bs₁ p' n') (hout : Outside H H₁)
    (hsize : size ≤ n') (hlen : len = if n < size then n else size) :
    ∃ bs₂, Resized H (Kernel.freeLocked { H₁ with mem := copyBytes H₁.mem p' p len } p) bs bs₂ p n p' n'
      size ∧ Outside H (Kernel.freeLocked { H₁ with mem := copyBytes H₁.mem p' p len } p) := by
  have hne : p ≠ p' := by
    rintro rfl
    exact hg.fresh n hp
  have hlen' : len ≤ n' ∧ len ≤ n ∧ ∀ i, i < n → i < size → i < len := by
    rw [hlen]
    split
    · exact ⟨by omega, by omega, fun i hi hi' => by omega⟩
    · exact ⟨by omega, by omega, fun i hi hi' => by omega⟩
  have hlo := hg.evolved.regionLo
  have hpn : (p, n) ∈ held hdr H.regionLo bs₁ := (hg.mem_held p n).mpr (.inr hp)
  have hnew : (p', n') ∈ held hdr H.regionLo bs₁ := (hg.mem_held p' n').mpr (.inl ⟨rfl, rfl⟩)
  obtain ⟨H₂, hH₂⟩ : ∃ H₂ : Heap, H₂ = { H₁ with mem := copyBytes H₁.mem p' p len } := ⟨_, rfl⟩
  have hmem₂ : H₂.mem = copyBytes H₁.mem p' p len := by rw [hH₂]
  have hlo₂ : H₂.regionLo = H.regionLo := by rw [hH₂, ← hlo]
  have hs₂ : Sound H₂ bs₁ := by
    rw [hH₂]
    apply hg.evolved.sound.store
    intro x _ _ hx
    refine copyBytes_other ?_
    have := hx p' n' (hlo ▸ hnew)
    omega
  have he₂ : Evolved H₁ H₂ bs₁ := by
    rw [hH₂] at hs₂ ⊢
    exact ⟨hs₂, rfl, rfl, rfl, le_refl _⟩
  obtain ⟨xs, b, ys, rfl, hb, hpa, rfl⟩ := exists_of_held hpn
  have hhi₂ : H₂.regionHi = H.regionHi := by rw [hH₂, ← hg.evolved.regionHi]
  have hbounds := held_bounds hnew
  have htile := hs₂.laid.tile
  rw [hlo₂, hhi₂] at htile
  obtain ⟨bs₂, hf, hout₂⟩ := hs₂.freeLocked hb (a := H.regionLo + spans hdr xs) (by rw [hlo₂])
  rw [show payloadOf (H.regionLo + spans hdr xs) = p from hpa.symm] at hf hout₂
  rw [← hH₂]
  have hmem : ∀ q m, (q, m) ∈ held hdr H.regionLo bs₂ ↔
      q ≠ p ∧ ((q = p' ∧ m = n') ∨ (q, m) ∈ held hdr H.regionLo bs) := by
    intro q m
    rw [← hlo₂, hf.mem_held, hlo₂, hg.mem_held]
  have hunt := hf.untouched
  rw [Untouched, hlo₂] at hunt
  refine ⟨bs₂, ⟨(hg.evolved.trans he₂).trans hf.evolved, fun q m => ?_, .inr hg.fresh,
    fun i hi hi' => ?_, fun q m hq hqm x hx hx' => ?_⟩, fun x hx => ?_⟩
  · rw [hmem]
    constructor
    · rintro ⟨hqp, hq | hq⟩
      · exact .inl hq
      · exact .inr ⟨hqp, hq⟩
    · rintro (⟨rfl, rfl⟩ | ⟨hqp, hq⟩)
      · exact ⟨hne.symm, .inl ⟨rfl, rfl⟩⟩
      · exact ⟨hqp, .inr hq⟩
  · have hi₂ := hlen'.2.2 i hi hi'
    rw [hunt p' n' ((hmem p' n').mpr ⟨hne.symm, .inl ⟨rfl, rfl⟩⟩) _ (by omega) (by omega), hmem₂,
      copyBytes_copied hi₂]
    exact hg.untouched _ _ hpn _ (by omega) (by omega)
  · have hold := (hmem q m).mp hqm
    have hq₁ : (q, m) ∈ held hdr H.regionLo (xs ++ b :: ys) :=
      (hg.mem_held q m).mpr hold.2
    have hapart := held_apart (by decide) hq₁ hnew
    rw [hunt q m hqm x hx hx', hmem₂, copyBytes_other (by omega)]
    exact hg.untouched q m hq₁ x hx hx'
  · rw [hout₂ x (by rw [hlo₂, hhi₂]; exact hx), hmem₂, copyBytes_other (by omega)]
    exact hout x hx

/-- `heap_realloc` behind its tests. -/
theorem heapRealloc_run {H : Heap} {p size : ℕ} (hok : plausiblePayload H p = true) (hp0 : p ≠ 0)
    (hsize : 0 < size) (hgood : ¬ (!H.ready || !sizeIsSane size) = true) {a : ℕ}
    (ha : blockOf p = a) :
    Kernel.heapRealloc H p size =
      if wanted size ≤ H.size a then (p, shrinkTo H a (wanted size))
      else if H.next a ≠ 0 ∧ H.used (H.next a) = 0 ∧
          wanted size ≤ add32 (add32 (H.size a) hdr) (H.size (H.next a)) then
        (p, shrinkTo (absorbNext H a (H.next a)) a (wanted size))
      else if (Kernel.allocLocked H heapAlign size).1 ≠ 0 then
        ((Kernel.allocLocked H heapAlign size).1,
          Kernel.freeLocked { (Kernel.allocLocked H heapAlign size).2 with
            mem := copyBytes (Kernel.allocLocked H heapAlign size).2.mem
              (Kernel.allocLocked H heapAlign size).1 p
              (if H.size a < size then H.size a else size) } p)
      else Kernel.allocLocked H heapAlign size := by
  unfold Kernel.heapRealloc
  rw [if_neg hp0, if_neg (by omega), if_neg hgood, hok]
  simp only [Bool.not_true, Bool.false_eq_true, if_false, ha]
  rfl

/-- The block behind one that may grow is free, and large enough. -/
theorem Sound.growable {H : Heap} {a want : ℕ} {b : Block} {xs ys : List Block}
    (h : Sound H (xs ++ b :: ys)) (ha : a = H.regionLo + spans hdr xs)
    (hgrow : H.next a ≠ 0 ∧ H.used (H.next a) = 0 ∧
      want ≤ add32 (add32 b.size hdr) (H.size (H.next a))) :
    ∃ c zs, ys = c :: zs ∧ H.next a = a + (hdr + b.size) ∧ c.used = false ∧
      want ≤ b.size + (hdr + c.size) := by
  obtain ⟨hne, hfree, hroom⟩ := hgrow
  cases ys with
  | nil => exact absurd (h.laid.header ha).next hne
  | cons c ys =>
    have hnext := h.laid.next_eq ha
    have hc := h.laid.nextHeader ha
    have hend := h.laid.end_le ha
    have hhi := h.laid.hi_le
    have hlo := h.laid.lo_pos
    simp only [spans_cons] at hend
    rw [hnext] at hfree hroom
    refine ⟨c, ys, rfl, hnext, ?_, ?_⟩
    · rw [Heap.used, hc.used] at hfree
      cases hcu : c.used with
      | false => rfl
      | true =>
        rw [hcu] at hfree
        cases hfree
    · rw [Heap.size, hc.size, add32_eq (a := b.size) (by omega), add32_eq (by omega)] at hroom
      omega

/-- Resizing a payload in use: the heap is as it was, or the payload has the size asked for. -/
theorem Sound.heapRealloc {H : Heap} {bs : List Block} {p n size : ℕ} (h : Sound H bs)
    (hp : (p, n) ∈ held hdr H.regionLo bs) (hsize : 0 < size) :
    heapRealloc H p size = (0, H) ∨
      ∃ p' H' bs' n', heapRealloc H p size = (p', H') ∧ Resized H H' bs bs' p n p' n' size ∧
        Outside H H' ∧ size ≤ n' ∧ p' % 8 = 0 := by
  obtain ⟨hok, hp8, hp0⟩ := h.passes hp
  by_cases hbad : (!H.ready || !sizeIsSane size) = true
  · left
    unfold Kernel.heapRealloc
    rw [if_neg hp0, if_neg (by omega), if_pos hbad]
  have hsane : sizeIsSane size = true := by
    simp only [Bool.or_eq_true, Bool.not_eq_true', not_or, Bool.not_eq_false] at hbad
    exact hbad.2
  have hlt := sizeIsSane_iff.mp hsane
  obtain ⟨h8, hmin, hle, hup⟩ := wanted_spec (show size + 7 < 2 ^ 32 by omega)
  obtain ⟨xs, b, ys, rfl, hb, hpa, rfl⟩ := exists_of_held hp
  obtain ⟨a, ha⟩ : ∃ a, a = H.regionLo + spans hdr xs := ⟨_, rfl⟩
  rw [← ha] at hpa
  have hblock : blockOf p = a := by
    rw [hpa]
    exact Nat.add_sub_cancel _ _
  have hbs : H.size a = b.size := (h.laid.header ha).size
  rw [heapRealloc_run hok hp0 hsize hbad hblock, hbs]
  by_cases hfit : wanted size ≤ b.size
  · obtain ⟨bs', w, hr, hw, hout⟩ := h.shrinkInPlace ha hb hle hfit ⟨h8, hmin⟩
    rw [if_pos hfit]
    exact .inr ⟨p, _, bs', w, rfl, hpa ▸ hr, hout, hle.trans hw, hp8⟩
  rw [if_neg hfit]
  by_cases hgrow : H.next a ≠ 0 ∧ H.used (H.next a) = 0 ∧
      wanted size ≤ add32 (add32 b.size hdr) (H.size (H.next a))
  · rw [if_pos hgrow]
    obtain ⟨c, zs, rfl, hnext, hcf, hroom⟩ := h.growable ha hgrow
    obtain ⟨bs', w, hr, hw, hout⟩ := h.growInPlace ha hb hcf hle hroom ⟨h8, hmin⟩
    rw [hnext]
    exact .inr ⟨p, _, bs', w, rfl, hpa ▸ hr, hout, hle.trans hw, hp8⟩
  rw [if_neg hgrow]
  have halloc := h.heapAlloc (List.append_ne_nil_of_right_ne_nil _ (List.cons_ne_nil _ _)) size
  unfold Kernel.heapAlloc at halloc
  rcases halloc with hnone | ⟨p', H₁, bs₁, n', hrun₁, hg, hout, hmod, hn⟩
  · rw [hnone]
    exact .inl rfl
  · rw [hrun₁]
    have hnew : (p', n') ∈ held hdr H₁.regionLo bs₁ := by
      rw [hg.evolved.regionLo]
      exact (hg.mem_held p' n').mpr (.inl ⟨rfl, rfl⟩)
    obtain ⟨bs₂, hr, hout'⟩ := Sound.move hp hg hout hn rfl
    rw [if_pos (hg.evolved.sound.passes hnew).2.2]
    exact .inr ⟨p', _, bs₂, n', rfl, hr, hout', hn, hmod⟩

end ReflexOS.Kernel
