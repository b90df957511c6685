import ReflexOS.KernelHeapAlloc

set_option autoImplicit false

/-!
# Freeing and resizing

A block given up is merged with its neighbours on both sides; a block in use is resized in
place or moved.
-/
namespace ReflexOS.Kernel
open ByteMemory BlockList

/-- What the counter says inside a call. -/
structure Counted (H : Heap) (bs : List Block) : Prop where
  laid : Laid H.mem H.regionLo H.regionHi bs
  counted : H.free = freeBytes bs

section Coalesce

variable {H : Heap} {a : ℕ} {b : Block} {xs ys : List Block}

/-- A free block takes in the next one when that is free as well. -/
theorem Counted.coalesce (h : Counted H (xs ++ b :: ys)) (hb : b.used = false) (hy : Calm ys)
    (ha : a = H.regionLo + spans hdr xs) :
    ∃ m' s ys', coalesceForward H a =
        { H with mem := m', free := freeBytes (xs ++ ⟨s, false⟩ :: ys') } ∧
      Laid m' H.regionLo H.regionHi (xs ++ ⟨s, false⟩ :: ys') ∧ Calm ys' ∧
      (∀ c ∈ ys'.head?, c.used = true) ∧ H.free ≤ freeBytes (xs ++ ⟨s, false⟩ :: ys') ∧
      held hdr (a + (hdr + s)) ys' = held hdr (a + (hdr + b.size)) ys ∧
      ∀ x, OffHeaders hdr H.regionLo (xs ++ ⟨s, false⟩ :: ys') x → m' x = H.mem x := by
  have hbe : b = ⟨b.size, false⟩ := by
    cases b
    cases hb
    rfl
  by_cases hu : ∀ c ∈ ys.head?, c.used = true
  · refine ⟨H.mem, b.size, ys, ?_, ?_, hy, hu, ?_, rfl, fun _ _ => rfl⟩
    · rw [coalesceForward_none h.laid ha hu, ← hbe, ← h.counted]
    · rw [← hbe]
      exact h.laid
    · rw [← hbe]
      exact le_of_eq h.counted
  cases ys with
  | nil => exact absurd (by simp) hu
  | cons n ys =>
    have hn : n.used = false := by simpa using hu
    obtain ⟨m', hrun, hl, hk⟩ := coalesceForward_merge h.laid ha hn
    obtain ⟨hyc, hyu⟩ := calm_cons_free hn hy
    rw [hb] at hl hk
    have hsum : freeBytes (xs ++ ⟨b.size + (hdr + n.size), false⟩ :: ys) = H.free + hdr := by
      rw [h.counted]
      simp only [freeBytes_append, freeBytes_cons, hb, hn, Bool.false_eq_true, if_false]
      omega
    have hcount : add32 H.free hdr = freeBytes (xs ++ ⟨b.size + (hdr + n.size), false⟩ :: ys) := by
      have hlt := hl.freeBytes_lt
      rw [hsum, add32_eq (by omega)]
    refine ⟨m', b.size + (hdr + n.size), ys, by rw [hrun, hcount], hl, hyc, hyu, ?_, ?_, hk⟩
    · omega
    · rw [held_free hn]
      congr 1
      omega

end Coalesce

/-- A call that gives up the payload at `p`. -/
structure Freed (H H' : Heap) (bs bs' : List Block) (p : ℕ) : Prop where
  evolved : Evolved H H' bs'
  mem_held : ∀ q m, (q, m) ∈ held hdr H.regionLo bs' ↔ q ≠ p ∧ (q, m) ∈ held hdr H.regionLo bs
  untouched : Untouched H H' bs'

theorem held_without {lo : ℕ} {b : Block} {xs ys : List Block} {q m : ℕ} (hb : b.used = true) :
    (q, m) ∈ held hdr lo xs ++ held hdr (lo + spans hdr xs + (hdr + b.size)) ys ↔
      q ≠ lo + spans hdr xs + hdr ∧ (q, m) ∈ held hdr lo (xs ++ b :: ys) := by
  rw [held_append, held_used hb]
  simp only [List.mem_append, List.mem_cons, Prod.mk.injEq]
  constructor
  · rintro (hq | hq)
    · have := held_bounds hq
      refine ⟨?_, .inl hq⟩
      simp only [hdr] at *
      omega
    · have := held_bounds hq
      refine ⟨?_, .inr (.inr hq)⟩
      simp only [hdr] at *
      omega
  · rintro ⟨hne, hq | ⟨rfl, -⟩ | hq⟩
    · exact .inl hq
    · exact absurd rfl hne
    · exact .inr hq

theorem lastHeader_concat {prev a : ℕ} {b : Block} {bs : List Block} :
    lastHeader prev a (bs ++ [b]) = a + spans hdr bs := by
  induction bs generalizing prev a with
  | nil => rfl
  | cons c bs ih => rw [List.cons_append, lastHeader, ih, spans_cons, Nat.add_assoc]

/-- Inside a call that gives up the payload at `p`: `K` holds the blocks `zs`. -/
structure Releasing (H K : Heap) (bs zs : List Block) (p : ℕ) : Prop where
  same : ∃ m f, K = { H with mem := m, free := f }
  counted : Counted K zs
  free_le : H.free ≤ K.free
  mem_held : ∀ q m, (q, m) ∈ held hdr H.regionLo zs ↔ q ≠ p ∧ (q, m) ∈ held hdr H.regionLo bs
  untouched : Untouched H K zs

theorem Releasing.coalesce {H K : Heap} {bs xs ys : List Block} {p a : ℕ} {b : Block}
    (h : Releasing H K bs (xs ++ b :: ys) p) (hb : b.used = false) (hy : Calm ys)
    (ha : a = H.regionLo + spans hdr xs) :
    ∃ s ys', Releasing H (coalesceForward K a) bs (xs ++ ⟨s, false⟩ :: ys') p ∧ Calm ys' ∧
      (∀ c ∈ ys'.head?, c.used = true) ∧ (Outside H K → Outside H (coalesceForward K a)) := by
  obtain ⟨⟨m, f, rfl⟩, hc, hle, hmem, huntouched⟩ := h
  obtain ⟨m', s, ys', hrun, hl, hyc, hyu, hle', hheld, hk⟩ := hc.coalesce hb hy ha
  have hsame : held hdr H.regionLo (xs ++ ⟨s, false⟩ :: ys') =
      held hdr H.regionLo (xs ++ b :: ys) := by
    rw [held_append, held_append, held_free rfl, held_free hb, ← ha, hheld]
  rw [hrun]
  refine ⟨s, ys', ?_, hyc, hyu, fun hout x hx => (hk x (hl.tiled.outside hx)).trans (hout x hx)⟩
  refine ⟨⟨m', _, rfl⟩, ⟨hl, rfl⟩, hle.trans hle', fun q n => ?_, fun q n hq x hx hx' => ?_⟩
  · rw [hsame]
    exact hmem q n
  · exact (hk x (held_off hq hx hx')).trans (huntouched q n (hsame ▸ hq) x hx hx')

theorem calm_around {xs ys : List Block} {s : ℕ} (hx : Calm xs) (hy : Calm ys)
    (hxu : ∀ c ∈ xs.getLast?, c.used = true) (hyu : ∀ c ∈ ys.head?, c.used = true) :
    Calm (xs ++ ⟨s, false⟩ :: ys) := by
  have hone : Calm [⟨s, false⟩] := List.IsChain.singleton _
  exact hx.between hy hxu hyu hone

/-- A free ends where no two free blocks are neighbours. -/
theorem Releasing.freed {H K : Heap} {bs zs : List Block} {p : ℕ} (h : Releasing H K bs zs p)
    (hs : Sound H bs) (hcalm : Calm zs) : Freed H K bs zs p := by
  obtain ⟨⟨m, f, rfl⟩, hc, hle, hmem, huntouched⟩ := h
  have hsound : Sound { H with mem := m, free := f } zs :=
    ⟨hs.ready, hs.first, hs.lo_mod, hs.narrow, hc.laid, hcalm, hc.counted, hs.min_le.trans hle⟩
  exact ⟨⟨hsound, rfl, rfl, rfl, le_refl _⟩, hmem, huntouched⟩

section Free

variable {H : Heap} {a : ℕ} {b : Block} {xs ys : List Block} (h : Sound H (xs ++ b :: ys))
  (hb : b.used = true) (ha : a = H.regionLo + spans hdr xs)
include h hb ha

theorem Sound.mark :
    Releasing H { H.setUsed a 0 with free := add32 H.free ((H.setUsed a 0).size a) }
      (xs ++ b :: ys) (xs ++ ⟨b.size, false⟩ :: ys) (payloadOf a) := by
  obtain ⟨hl, hk⟩ := h.laid.setUsed ha false
  have hsize : (H.setUsed a 0).size a = b.size := (hl.header (H := H.setUsed a 0) ha).size
  have hsum : freeBytes (xs ++ ⟨b.size, false⟩ :: ys) = H.free + b.size := by
    rw [h.counted]
    simp only [freeBytes_append, freeBytes_cons, hb, Bool.false_eq_true, if_false, if_true]
    omega
  have hlt := hl.freeBytes_lt
  rw [hsize, add32_eq (by omega)]
  refine ⟨⟨_, _, rfl⟩, ⟨hl, hsum.symm⟩, Nat.le_add_right _ _, fun q n => ?_,
    fun q n hq x hx hx' => hk x (held_off hq hx hx')⟩
  rw [held_append, held_free rfl, ha]
  exact held_without hb

omit hb in
theorem Sound.mark_outside : Outside H (H.setUsed a 0) := by
  obtain ⟨hl, hk⟩ := h.laid.setUsed ha false
  exact fun x hx => hk x (hl.tiled.outside hx)

theorem Sound.freeLocked :
    ∃ bs', Freed H (freeLocked H (payloadOf a)) (xs ++ b :: ys) bs' (payloadOf a) ∧
      Outside H (freeLocked H (payloadOf a)) := by
  obtain ⟨hxc, hyc⟩ := (calm_used hb).mp h.calm
  have hused : H.used a ≠ 0 := by
    rw [Heap.used, (h.laid.header ha).used, hb]
    decide
  obtain ⟨s, ys₁, hr, hyc₁, hyu₁, hkeep⟩ := (h.mark hb ha).coalesce rfl hyc ha
  have hout := hkeep (h.mark_outside ha)
  have hfree : Kernel.freeLocked H (payloadOf a) =
      let K := coalesceForward { H.setUsed a 0 with
        free := add32 H.free ((H.setUsed a 0).size a) } a
      if K.prev a ≠ 0 ∧ K.used (K.prev a) = 0 then coalesceForward K (K.prev a) else K :=
    if_neg hused
  rw [hfree]
  generalize coalesceForward { H.setUsed a 0 with
    free := add32 H.free ((H.setUsed a 0).size a) } a = K at hr hout
  dsimp only
  have hlo : K.regionLo = H.regionLo := by
    obtain ⟨m, f, rfl⟩ := hr.same
    rfl
  have hback : K.prev a = lastHeader 0 H.regionLo xs := by
    rw [← hlo]
    exact (hr.counted.laid.header (by rw [hlo, ha])).prev
  have hstop : ¬ (K.prev a ≠ 0 ∧ K.used (K.prev a) = 0) → (∀ c ∈ xs.getLast?, c.used = true) →
      ∃ bs', Freed H (if K.prev a ≠ 0 ∧ K.used (K.prev a) = 0 then coalesceForward K (K.prev a)
          else K) (xs ++ b :: ys) bs' (payloadOf a) ∧
        Outside H (if K.prev a ≠ 0 ∧ K.used (K.prev a) = 0 then coalesceForward K (K.prev a)
          else K) := by
    intro hno hxu
    rw [if_neg hno]
    exact ⟨_, hr.freed h (calm_around hxc hyc₁ hxu hyu₁), hout⟩
  rcases List.eq_nil_or_concat' xs with rfl | ⟨ws, c, rfl⟩
  · exact hstop (fun hp => hp.1 hback) (by simp)
  rw [lastHeader_concat] at hback
  have hzs : (ws ++ [c]) ++ ⟨s, false⟩ :: ys₁ = ws ++ c :: ⟨s, false⟩ :: ys₁ := by
    rw [List.append_assoc, List.singleton_append]
  rw [hzs] at hr
  have hcu := (hr.counted.laid.header rfl).used
  rw [hlo, ← hback] at hcu
  by_cases hu : c.used = true
  · refine hstop (fun hp => ?_) (by simpa using hu)
    rw [Heap.used, hcu, hu] at hp
    exact absurd hp.2 (by decide)
  -- the block in front is free as well
  have hcf : c.used = false := by simpa using hu
  have hlo₀ := h.laid.lo_pos
  have hgo : K.prev a ≠ 0 ∧ K.used (K.prev a) = 0 := by
    rw [Heap.used, hcu, hcf]
    exact ⟨by omega, rfl⟩
  obtain ⟨t, ys₂, hr₂, hyc₂, hyu₂, hout₂⟩ := hr.coalesce hcf (hyc₁.cons hyu₁) hback
  obtain ⟨hwc, -, hwu, -⟩ := calm_free hcf (show Calm (ws ++ c :: []) from hxc)
  rw [if_pos hgo]
  exact ⟨_, hr₂.freed h (calm_around hwc hyc₂ hwu hyu₂), hout₂ hout⟩

end Free

theorem sub32_add32 {f x y : ℕ} (hy : y < 2 ^ 32) (hx : x ≤ y) (hf : f + (y - x) < 2 ^ 32) :
    add32 (sub32 f x) y = f + (y - x) := by
  unfold add32 sub32
  omega

section Shrink

variable {H : Heap} {a want : ℕ} {b : Block} {xs ys : List Block}
  (h : Counted H (xs ++ b :: ys)) (hb : b.used = true) (ha : a = H.regionLo + spans hdr xs)
  (hw : want ≤ b.size) (hwant : want % 8 = 0 ∧ 8 ≤ want)
include h hb ha hw hwant

/-- What a cut leaves to be merged: a free block behind the one in use. -/
theorem Counted.shrinkTo_cut (hrest : splitMin ≤ b.size - want) : ∃ K : Heap,
    (∃ m f, K = { H with mem := m, free := f }) ∧
      shrinkTo H a want = noteFreeChange (coalesceForward K (a + (hdr + want))) ∧
      Counted K (xs ++ ⟨want, true⟩ :: ⟨b.size - want - hdr, false⟩ :: ys) ∧
      ∀ x, OffHeaders hdr H.regionLo
        (xs ++ ⟨want, true⟩ :: ⟨b.size - want - hdr, false⟩ :: ys) x → K.mem x = H.mem x := by
  have hsize : H.size a = b.size := (h.laid.header ha).size
  have hblt : b.size < 2 ^ 32 := hsize ▸ load32_lt
  obtain ⟨m, hrun, hl, hk⟩ := split_cut h.laid ha hrest hwant
  rw [hb] at hl hk
  simp only [splitMin, hdr, minPayload, heapAlign] at hrest
  have hadd : add32 (sub32 H.free hdr) (sub32 b.size want) =
      freeBytes (xs ++ ⟨want, true⟩ :: ⟨b.size - want - hdr, false⟩ :: ys) := by
    have hlt := hl.freeBytes_lt
    have hsum : freeBytes (xs ++ ⟨want, true⟩ :: ⟨b.size - want - hdr, false⟩ :: ys) =
        H.free + (b.size - want - hdr) := by
      rw [h.counted]
      simp only [freeBytes_append, freeBytes_cons, hb, Bool.false_eq_true, if_false, if_true]
      omega
    rw [hsum] at hlt ⊢
    simp only [hdr] at *
    rw [sub32_eq hblt hw, sub32_add32 (by omega) (by omega) (by omega)]
  obtain ⟨K, hK⟩ : ∃ K : Heap, K = { H with
      mem := m
      free := freeBytes (xs ++ ⟨want, true⟩ :: ⟨b.size - want - hdr, false⟩ :: ys) } := ⟨_, rfl⟩
  have hcK : Counted K (xs ++ ⟨want, true⟩ :: ⟨b.size - want - hdr, false⟩ :: ys) := by
    rw [hK]
    exact ⟨hl, rfl⟩
  have haK : a = K.regionLo + spans hdr xs := by rw [hK, ha]
  have hnext : K.next a = a + (hdr + want) := hcK.laid.next_eq haK
  have hused : K.used (a + (hdr + want)) = 0 := (hcK.laid.nextHeader haK).used
  have hcut : settleCut { H with mem := m, free := sub32 H.free hdr } a b.size =
      coalesceForward K (K.next a) := by
    have hsz : load32 m (a + 8) = want := by
      have := (hcK.laid.header haK).size
      rwa [hK] at this
    unfold settleCut
    simp only [Heap.size, hsz, hadd, ← hK]
    rw [if_neg (by omega), if_pos]
    rw [hnext]
    simp only [hdr] at hused ⊢
    exact ⟨by omega, hused⟩
  refine ⟨K, ⟨m, _, hK⟩, ?_, hcK, fun x hx => ?_⟩
  · unfold Kernel.shrinkTo
    rw [hrun, hsize, hcut, hnext]
  · rw [hK]
    exact hk x hx

theorem Counted.shrinkTo (hy : Calm ys) :
    ∃ m' w ys', shrinkTo H a want =
        noteFreeChange { H with mem := m', free := freeBytes (xs ++ ⟨w, true⟩ :: ys') } ∧
      want ≤ w ∧ Laid m' H.regionLo H.regionHi (xs ++ ⟨w, true⟩ :: ys') ∧ Calm ys' ∧
      held hdr (a + (hdr + w)) ys' = held hdr (a + (hdr + b.size)) ys ∧
      (∀ p n, (p, n) ∈ held hdr H.regionLo (xs ++ ⟨w, true⟩ :: ys') →
        ∀ x, p ≤ x → x < p + n → m' x = H.mem x) ∧
      ∀ x, x < H.regionLo ∨ H.regionHi ≤ x → m' x = H.mem x := by
  have hbe : b = ⟨b.size, true⟩ := by
    cases b
    cases hb
    rfl
  by_cases hrest : b.size - want < splitMin
  · have hsize : H.size a = b.size := (h.laid.header ha).size
    refine ⟨H.mem, b.size, ys, ?_, hw, ?_, hy, rfl, fun _ _ _ _ _ _ => rfl, fun _ _ => rfl⟩
    · unfold Kernel.shrinkTo
      rw [split_small h.laid.tiled ha hw hrest, ← hbe, ← h.counted]
      exact congrArg noteFreeChange (if_pos rfl)
    · rw [← hbe]
      exact h.laid
  obtain ⟨K, ⟨m, f, rfl⟩, hrun, hcK, hk⟩ :=
    h.shrinkTo_cut hb ha hw hwant (Nat.le_of_not_lt hrest)
  have hsum : hdr + want + (hdr + (b.size - want - hdr)) = hdr + b.size := by
    simp only [splitMin, hdr, minPayload] at hrest ⊢
    unfold heapAlign at hrest
    omega
  have htiled := hcK.laid.tiled
  rw [← List.singleton_append, ← List.append_assoc] at hcK
  have hpos : a + (hdr + want) = H.regionLo + spans hdr (xs ++ [⟨want, true⟩]) := by
    simp only [spans_append, spans_cons, spans_nil]
    omega
  obtain ⟨m₂, s, ys', hrun₂, hl₂, hyc₂, hyu₂, -, hheld₂, hk₂⟩ := hcK.coalesce rfl hy hpos
  rw [List.append_assoc, List.singleton_append] at hrun₂ hl₂ hk₂
  have hheld : held hdr (a + (hdr + want)) (⟨s, false⟩ :: ys') = held hdr (a + (hdr + b.size)) ys := by
    rw [held_free rfl, hheld₂, Nat.add_assoc, hsum]
  have hsame : held hdr H.regionLo (xs ++ ⟨want, true⟩ :: ⟨s, false⟩ :: ys') =
      held hdr H.regionLo (xs ++ ⟨want, true⟩ :: ⟨b.size - want - hdr, false⟩ :: ys) := by
    rw [held_append, held_append, held_used (b := ⟨want, true⟩) rfl,
      held_used (b := ⟨want, true⟩) rfl, ← ha, hheld, held_free rfl, Nat.add_assoc a, hsum]
  refine ⟨m₂, want, ⟨s, false⟩ :: ys', ?_, le_refl _, hl₂, hyc₂.cons hyu₂, hheld,
    fun p n hp x hx hx' => ?_, fun x hx => ?_⟩
  · rw [hrun, hrun₂]
  · exact (hk₂ x (held_off hp hx hx')).trans (hk x (held_off (hsame ▸ hp) hx hx'))
  · exact (hk₂ x (hl₂.tiled.outside hx)).trans (hk x (htiled.outside hx))

end Shrink

end ReflexOS.Kernel
