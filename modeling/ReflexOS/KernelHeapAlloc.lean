import ReflexOS.KernelHeapChain

set_option autoImplicit false

/-!
# Allocation

What the search finds, and what it leaves of the region.
-/
namespace ReflexOS.Kernel
open ByteMemory BlockList

/-- `x & ~(2 ^ k - 1)`. -/
theorem and_alignMask {x k : ℕ} (hx : x < 2 ^ 32) (hk : k ≤ 32) :
    x &&& alignMask (2 ^ k) = x - x % 2 ^ k := by
  have hpow : 2 ^ k ≤ 2 ^ 32 := Nat.pow_le_pow_right (by decide) hk
  have hpos : 0 < 2 ^ k := Nat.two_pow_pos k
  have hmask : alignMask (2 ^ k) = 2 ^ 32 - ((2 ^ k - 1) + 1) := by
    unfold alignMask
    omega
  have hdiv : x - x % 2 ^ k = x / 2 ^ k * 2 ^ k := by
    have := Nat.div_add_mod x (2 ^ k)
    rw [Nat.mul_comm] at this
    omega
  rw [hdiv]
  apply Nat.eq_of_testBit_eq
  intro i
  rw [Nat.testBit_and, hmask, Nat.testBit_two_pow_sub_succ (by omega), Nat.testBit_two_pow_sub_one,
    Nat.testBit_mul_two_pow, Nat.testBit_div_two_pow]
  by_cases hik : k ≤ i
  · by_cases hi : i < 32
    · simp [hik, hi, Nat.not_lt_of_le hik]
    · have : x.testBit i = false := Nat.testBit_lt_two_pow
        (lt_of_lt_of_le hx (Nat.pow_le_pow_right (by decide) (by omega)))
      simp [hik, this]
  · simp [hik, Nat.lt_of_not_le hik]

theorem alignUp_eight {n : ℕ} (h : n + 7 < 2 ^ 32) : alignUp n 8 = (n + 7) / 8 * 8 := by
  have := and_alignMask (x := n + 7) (k := 3) h (by decide)
  rw [alignUp, add32_eq h]
  refine this.trans ?_
  omega

/-- The gap in front of the next address with the alignment. -/
theorem gap_alignUp {pay k : ℕ} (hpay : pay < 2 ^ 32) (hk : k ≤ 31) :
    sub32 (alignUp pay (2 ^ k)) pay < 2 ^ k ∧ (pay + sub32 (alignUp pay (2 ^ k)) pay) % 2 ^ k = 0 := by
  have hpow : 2 ^ k ≤ 2 ^ 31 := Nat.pow_le_pow_right (by decide) hk
  have hpos : 0 < 2 ^ k := Nat.two_pow_pos k
  have hdvd : (2 : ℕ) ^ k ∣ 2 ^ 32 := Nat.pow_dvd_pow 2 (by omega)
  have hw : add32 pay (2 ^ k - 1) < 2 ^ 32 := add32_lt
  rw [alignUp, and_alignMask hw (by omega)]
  by_cases hwrap : pay + (2 ^ k - 1) < 2 ^ 32
  · rw [add32_eq hwrap]
    have hr := Nat.mod_lt (pay + (2 ^ k - 1)) hpos
    have hu := Nat.sub_mod_eq_zero_of_mod_eq (m := pay + (2 ^ k - 1))
      (n := (pay + (2 ^ k - 1)) % 2 ^ k) (k := 2 ^ k) (Nat.mod_mod _ _).symm
    rw [sub32_eq (by omega) (by omega)]
    refine ⟨by omega, ?_⟩
    rw [Nat.add_sub_cancel' (by omega)]
    exact hu
  · have hlow : add32 pay (2 ^ k - 1) = pay + (2 ^ k - 1) - 2 ^ 32 := by
      unfold add32
      omega
    have hgap : sub32 0 pay = 2 ^ 32 - pay := by
      unfold sub32
      omega
    rw [hlow, Nat.mod_eq_of_lt (by omega), Nat.sub_self, hgap]
    refine ⟨by omega, ?_⟩
    rw [Nat.add_sub_cancel' (by omega)]
    exact Nat.mod_eq_zero_of_dvd hdvd

/-- The loop ends at a gap that is none or large enough, with the alignment kept. -/
theorem skipGap_spec {pay align : ℕ} (halign : 1 ≤ align) (hbig : align ≤ 2 ^ 31)
    (hpay : pay < 2 ^ 32) {fuel aligned : ℕ}
    (hlt : aligned < 2 ^ 32) (hfuel : splitMin ≤ sub32 aligned pay + fuel)
    (hmod : (pay + sub32 aligned pay) % align = 0) (hgap : sub32 aligned pay < splitMin + align) :
    (sub32 (skipGap pay align fuel aligned) pay = 0 ∨
        splitMin ≤ sub32 (skipGap pay align fuel aligned) pay) ∧
      (pay + sub32 (skipGap pay align fuel aligned) pay) % align = 0 ∧
      sub32 (skipGap pay align fuel aligned) pay < splitMin + align := by
  induction fuel generalizing aligned with
  | zero =>
    rw [Nat.add_zero] at hfuel
    rw [skipGap]
    exact ⟨.inr hfuel, hmod, hgap⟩
  | succ fuel ih =>
    rw [skipGap]
    split
    next hsmall =>
      have hnext : sub32 (add32 aligned align) pay = sub32 aligned pay + align := by
        simp only [splitMin, hdr, minPayload, heapAlign] at hsmall
        unfold sub32 add32 at *
        omega
      refine ih add32_lt (by rw [hnext]; omega) ?_ (by rw [hnext]; omega)
      rw [hnext, ← Nat.add_assoc, Nat.add_mod_right]
      exact hmod
    next hdone => exact ⟨by omega, hmod, hgap⟩

/-- The gap in front of a payload of the search. -/
theorem alloc_gap {pay k : ℕ} (hpay : pay < 2 ^ 32) (hk : 3 ≤ k ∧ k ≤ 31) (hp8 : pay % 8 = 0)
    {gap : ℕ} (hgap : gap = sub32 (skipGap pay (2 ^ k) splitMin (alignUp pay (2 ^ k))) pay) :
    (gap = 0 ∨ splitMin ≤ gap) ∧ (pay + gap) % 2 ^ k = 0 ∧ gap < splitMin + 2 ^ k ∧ gap % 8 = 0 := by
  have hpow : 2 ^ k ≤ 2 ^ 31 := Nat.pow_le_pow_right (by decide) hk.2
  obtain ⟨hlt, hmod⟩ := gap_alignUp hpay hk.2
  have hup : alignUp pay (2 ^ k) < 2 ^ 32 :=
    lt_of_le_of_lt Nat.and_le_left add32_lt
  have hfuel : splitMin ≤ sub32 (alignUp pay (2 ^ k)) pay + splitMin := Nat.le_add_left _ _
  obtain ⟨hend, hmod', hlt'⟩ :=
    skipGap_spec (Nat.one_le_two_pow) hpow hpay hup hfuel hmod (by omega)
  rw [← hgap] at hend hmod' hlt'
  have height : (8 : ℕ) ∣ 2 ^ k := Nat.pow_dvd_pow 2 hk.1
  have hdvd : 8 ∣ pay + gap := height.trans (Nat.dvd_of_mod_eq_zero hmod')
  exact ⟨hend, hmod', hlt', by omega⟩

/-- The heap between two calls: the region holds these blocks, and the counters are theirs. -/
structure Sound (H : Heap) (bs : List Block) : Prop where
  ready : H.ready = true
  first : H.first = H.regionLo
  lo_mod : H.regionLo % 8 = 0
  narrow : H.regionHi < H.regionLo + 2 ^ 31
  laid : Laid H.mem H.regionLo H.regionHi bs
  calm : Calm bs
  counted : H.free = freeBytes bs
  min_le : H.minFree ≤ H.free

/-- A call that leaves these blocks in the same region. The mark has not risen. -/
structure Evolved (H H' : Heap) (bs' : List Block) : Prop where
  sound : Sound H' bs'
  regionLo : H'.regionLo = H.regionLo
  regionHi : H'.regionHi = H.regionHi
  total : H'.total = H.total
  minFree_le : H'.minFree ≤ H.minFree

theorem Sound.evolved {H : Heap} {bs : List Block} (h : Sound H bs) : Evolved H H bs :=
  ⟨h, rfl, rfl, rfl, le_refl _⟩

theorem Evolved.trans {H H' H'' : Heap} {bs bs' : List Block} (h : Evolved H H' bs)
    (h' : Evolved H' H'' bs') : Evolved H H'' bs' :=
  ⟨h'.sound, h'.regionLo.trans h.regionLo, h'.regionHi.trans h.regionHi, h'.total.trans h.total,
    h'.minFree_le.trans h.minFree_le⟩

theorem Sound.settle {H : Heap} {bs bs' : List Block} (h : Sound H bs) {m' : Memory} {f : ℕ}
    (hl : Laid m' H.regionLo H.regionHi bs') (hc : Calm bs') (hf : f = freeBytes bs') :
    Evolved H (noteFreeChange { H with mem := m', free := f }) bs' := by
  unfold noteFreeChange
  dsimp only
  split
  next hlt =>
    exact ⟨⟨h.ready, h.first, h.lo_mod, h.narrow, hl, hc, hf, le_refl _⟩, rfl, rfl, rfl,
      le_of_lt hlt⟩
  next hge =>
    exact ⟨⟨h.ready, h.first, h.lo_mod, h.narrow, hl, hc, hf, Nat.le_of_not_lt hge⟩, rfl, rfl, rfl,
      le_refl _⟩

@[simp] theorem noteFreeChange_mem (H : Heap) : (noteFreeChange H).mem = H.mem := by
  unfold noteFreeChange
  split <;> rfl

/-- No payload in use was written to. -/
def Untouched (H H' : Heap) (bs' : List Block) : Prop :=
  ∀ p n, (p, n) ∈ held hdr H.regionLo bs' → ∀ x, p ≤ x → x < p + n → H'.mem x = H.mem x

/-- The heap as far as the structural check looks at it. -/
structure Audited (H : Heap) (bs : List Block) : Prop where
  ready : H.ready = true
  first : H.first = H.regionLo
  lo_mod : H.regionLo % 8 = 0
  tiled : Tiled H.mem H.regionLo H.regionHi bs
  calm : Calm bs
  counted : H.free = freeBytes bs

theorem Sound.audited {H : Heap} {bs : List Block} (h : Sound H bs) : Audited H bs :=
  ⟨h.ready, h.first, h.lo_mod, h.laid.tiled, h.calm, h.counted⟩

/-- Nothing outside the region was written to. -/
def Outside (H H' : Heap) : Prop :=
  ∀ x, x < H.regionLo ∨ H.regionHi ≤ x → H'.mem x = H.mem x

/-- What keeps clear of the headers keeps out of the rest of memory. -/
theorem Tiled.outside {H : Heap} {m' : Memory} {bs : List Block}
    (h : Tiled m' H.regionLo H.regionHi bs) {x : ℕ} (hx : x < H.regionLo ∨ H.regionHi ≤ x) :
    OffHeaders hdr H.regionLo bs x := by
  have htile := h.tile
  exact .of_outside (by omega)

section Take

variable {H : Heap} {a want : ℕ} {b : Block} {xs ys : List Block}
  (h : Tiled H.mem H.regionLo H.regionHi (xs ++ b :: ys)) (ha : a = H.regionLo + spans hdr xs)
include h ha

theorem takeBlock_spec (hw : want ≤ b.size) (hwant : want % 8 = 0)
    (hfree : b.size ≤ H.free) (hlt : H.free < 2 ^ 32) :
    ∃ m' w tail f, takeBlock H a want =
        (a + hdr, noteFreeChange { H with mem := m', free := f }) ∧ want ≤ w ∧
      Spare tail ∧ (∀ c ∈ tail, 8 ≤ c.size) ∧
      spans hdr (⟨w, true⟩ :: tail) = hdr + b.size ∧ f + b.size = H.free + freeBytes tail ∧
      Tiled m' H.regionLo H.regionHi (xs ++ ⟨w, true⟩ :: (tail ++ ys)) ∧
      ∀ x, OffHeaders hdr H.regionLo (xs ++ ⟨w, true⟩ :: (tail ++ ys)) x → m' x = H.mem x := by
  by_cases hrest : b.size - want < splitMin
  · obtain ⟨hl, hk⟩ := h.setUsed ha true
    have hsize : (H.setUsed a 1).size a = b.size := (hl.header (H := H.setUsed a 1) ha).size
    refine ⟨(H.setUsed a 1).mem, b.size, [], H.free - b.size, ?_, hw, .inl rfl, by simp, rfl, ?_,
      hl, hk⟩
    · unfold takeBlock
      rw [split_small h ha hw hrest]
      change (payloadOf a, noteFreeChange
        { H.setUsed a 1 with free := sub32 H.free ((H.setUsed a 1).size a) }) = _
      rw [hsize, sub32_eq hlt hfree]
      rfl
    · simp only [freeBytes]
      omega
  · obtain ⟨m₁, hs, hl₁, hk₁⟩ := h.split_cut ha (Nat.le_of_not_lt hrest) hwant
    let K : Heap := { H with mem := m₁, free := sub32 H.free hdr }
    obtain ⟨hl, hk⟩ := Tiled.setUsed (H := K) hl₁ ha true
    have hsize : (K.setUsed a 1).size a = want := (hl.header (H := K.setUsed a 1) ha).size
    have hsum : hdr + want + 8 ≤ b.size := by
      simp only [splitMin, hdr, minPayload, heapAlign] at hrest ⊢
      omega
    refine ⟨(K.setUsed a 1).mem, want, [⟨b.size - want - hdr, false⟩], H.free - hdr - want, ?_,
      le_refl _, .inr ⟨_, rfl, rfl⟩, ?_, ?_, ?_, hl, fun x hx => ?_⟩
    · unfold takeBlock
      rw [hs]
      change (payloadOf a, noteFreeChange
        { K.setUsed a 1 with free := sub32 (sub32 H.free hdr) ((K.setUsed a 1).size a) }) = _
      rw [hsize, sub32_eq hlt (by omega), sub32_eq (by omega) (by omega)]
      rfl
    · intro c hc
      rw [List.mem_singleton.mp hc]
      dsimp only
      omega
    · simp only [spans_cons, spans_nil]
      omega
    · simp only [freeBytes, Bool.false_eq_true, if_false]
      omega
    · refine (hk x hx).trans (hk₁ x ?_)
      simpa [OffHeaders, headers_append, headers] using hx

end Take

/-- The block behind a gap, taken. -/
theorem takeBehind_spec {K : Heap} {a g r want : ℕ} {xs ys : List Block}
    (h : Tiled K.mem K.regionLo K.regionHi (xs ++ ⟨g, false⟩ :: ⟨r, false⟩ :: ys))
    (ha : a = K.regionLo + spans hdr xs) (hw : want ≤ r) (hwant : want % 8 = 0)
    (hfree : r ≤ K.free) (hlt : K.free < 2 ^ 32) :
    ∃ m' w tail f, takeBlock K (a + (hdr + g)) want =
        (a + (hdr + g) + hdr, noteFreeChange { K with mem := m', free := f }) ∧
      K.next a = a + (hdr + g) ∧
      ¬ (K.next a = 0 ∨ K.used (K.next a) ≠ 0 ∨ K.size (K.next a) < want) ∧
      want ≤ w ∧ Spare tail ∧ (∀ c ∈ tail, 8 ≤ c.size) ∧
      spans hdr (⟨w, true⟩ :: tail) = hdr + r ∧ f + r = K.free + freeBytes tail ∧
      Tiled m' K.regionLo K.regionHi (xs ++ (⟨g, false⟩ :: ⟨w, true⟩ :: (tail ++ ys))) ∧
      ∀ x, OffHeaders hdr K.regionLo (xs ++ (⟨g, false⟩ :: ⟨w, true⟩ :: (tail ++ ys))) x →
        m' x = K.mem x := by
  have hnext := h.next_eq ha
  have hhead := h.nextHeader ha
  have hlo := h.lo_pos
  have hl : Tiled K.mem K.regionLo K.regionHi ((xs ++ [⟨g, false⟩]) ++ ⟨r, false⟩ :: ys) := by
    rw [List.append_assoc, List.singleton_append]
    exact h
  have hpos : a + (hdr + g) = K.regionLo + spans hdr (xs ++ [⟨g, false⟩]) := by
    rw [ha, spans_append, spans_cons, spans_nil, Nat.add_zero, Nat.add_assoc]
  obtain ⟨m', w, tail, f, htake, hww, htail, hbig, hspan, hf, hl', hk⟩ :=
    takeBlock_spec hl hpos hw hwant hfree hlt
  rw [List.append_assoc, List.singleton_append] at hl' hk
  refine ⟨m', w, tail, f, htake, hnext, ?_, hww, htail, hbig, hspan, hf, hl', hk⟩
  rw [hnext, Heap.used, hhead.used, Heap.size, hhead.size]
  rintro (h0 | h1 | h2)
  · omega
  · exact h1 rfl
  · exact absurd hw (Nat.not_le_of_lt h2)

/-- A free block cut up around a payload of `w` bytes at `p`. -/
inductive Carved (H H' : Heap) (bs bs' : List Block) (p w : ℕ) : Prop where
  | intro {b : Block} {xs ys gap tail : List Block} {m' : Memory} {f : ℕ}
      (before : bs = xs ++ b :: ys) (after : bs' = xs ++ (gap ++ ⟨w, true⟩ :: (tail ++ ys)))
      (free : b.used = false) (gapSpare : Spare gap) (tailSpare : Spare tail)
      (big : ∀ c ∈ gap ++ tail, 8 ≤ c.size)
      (span : spans hdr gap + spans hdr (⟨w, true⟩ :: tail) = hdr + b.size)
      (run : H' = noteFreeChange { H with mem := m', free := f })
      (tiled : Tiled m' H.regionLo H.regionHi bs')
      (count : f + b.size = H.free + freeBytes gap + freeBytes tail)
      (place : p = H.regionLo + spans hdr xs + spans hdr gap + hdr)
      (kept : ∀ x, OffHeaders hdr H.regionLo bs' x → m' x = H.mem x)

@[simp] theorem noteFreeChange_free (H : Heap) : (noteFreeChange H).free = H.free := by
  unfold noteFreeChange
  split <;> rfl

theorem noteFreeChange_region (H : Heap) : (noteFreeChange H).ready = H.ready ∧
    (noteFreeChange H).first = H.first ∧ (noteFreeChange H).regionLo = H.regionLo ∧
      (noteFreeChange H).regionHi = H.regionHi := by
  unfold noteFreeChange
  split <;> exact ⟨rfl, rfl, rfl, rfl⟩

section Carved

variable {H H' : Heap} {bs bs' : List Block} {p w : ℕ} (h : Carved H H' bs bs' p w)
include h

theorem Carved.calm (hc : Calm bs) : Calm bs' := by
  obtain ⟨rfl, rfl, hfree, hgap, htail, -⟩ := h
  obtain ⟨hxc, hyc, hxu, hyu⟩ := calm_free hfree hc
  have hseg : Calm (_ ++ ⟨w, true⟩ :: _) := (calm_used rfl).mpr ⟨hgap.calm, htail.calm⟩
  have := hxc.between hyc hxu hyu hseg
  rwa [List.append_assoc, List.cons_append] at this

theorem Carved.counted (hc : H.free = freeBytes bs) : H'.free = freeBytes bs' := by
  obtain ⟨rfl, rfl, hfree, -, -, -, -, rfl, -, hcount, -⟩ := h
  simp only [freeBytes_append, freeBytes_cons, hfree, Bool.false_eq_true, if_false] at hc
  simp only [noteFreeChange_free, freeBytes_append, freeBytes_cons, reduceIte]
  omega

theorem Carved.mem_held (q m : ℕ) : (q, m) ∈ held hdr H.regionLo bs' ↔
    (q = p ∧ m = w) ∨ (q, m) ∈ held hdr H.regionLo bs := by
  obtain @⟨b, xs, ys, gap, tail, m', f, rfl, rfl, hfree, hgap, htail, -, hspan, -, -, -, rfl, -⟩ := h
  have hend : H.regionLo + spans hdr xs + spans hdr gap + (hdr + w) + spans hdr tail =
      H.regionLo + spans hdr xs + (hdr + b.size) := by
    simp only [spans_cons] at hspan
    omega
  have hnew : held hdr H.regionLo (xs ++ (gap ++ ⟨w, true⟩ :: (tail ++ ys))) =
      held hdr H.regionLo xs ++ (H.regionLo + spans hdr xs + spans hdr gap + hdr, w) ::
        held hdr (H.regionLo + spans hdr xs + (hdr + b.size)) ys := by
    rw [held_append, held_append, hgap.held_eq, held_used rfl, held_append, htail.held_eq, hend]
    rfl
  rw [hnew, held_append, held_free hfree]
  simp only [List.mem_append, List.mem_cons, Prod.mk.injEq]
  exact or_left_comm

theorem Carved.fresh (m : ℕ) : (p, m) ∉ held hdr H.regionLo bs := by
  obtain ⟨rfl, -, hfree, -, -, -, hspan, -, -, -, rfl, -⟩ := h
  intro hm
  rw [held_append, held_free hfree, List.mem_append] at hm
  simp only [spans_cons] at hspan
  rcases hm with hm | hm
  · have := held_bounds hm
    simp only [hdr] at *
    omega
  · have := held_bounds hm
    simp only [hdr] at *
    omega

theorem Carved.untouched : Untouched H H' bs' := by
  obtain ⟨-, -, -, -, -, -, -, rfl, -, -, -, hk⟩ := h
  intro q n hq x hlo hhi
  rw [noteFreeChange_mem]
  exact hk x (held_off hq hlo hhi)

theorem Carved.outside : Outside H H' := by
  obtain ⟨-, -, -, -, -, -, -, rfl, ht, -, -, hk⟩ := h
  intro x hx
  rw [noteFreeChange_mem]
  exact hk x (ht.outside hx)

theorem Carved.regionLo : H'.regionLo = H.regionLo := by
  obtain ⟨-, -, -, -, -, -, -, rfl, -⟩ := h
  exact (noteFreeChange_region _).2.2.1

theorem Carved.ne_nil : bs' ≠ [] := by
  obtain ⟨-, rfl, -⟩ := h
  simp

theorem Carved.audited (hs : Audited H bs) : Audited H' bs' := by
  have hcalm := h.calm hs.calm
  have hcount := h.counted hs.counted
  obtain ⟨-, -, -, -, -, -, -, rfl, ht, -⟩ := h
  obtain ⟨hready, hfirst, hlo, hhi⟩ := noteFreeChange_region { H with mem := _, free := _ }
  refine ⟨hready.trans hs.ready, hfirst.trans (hs.first.trans hlo.symm), ?_, ?_, hcalm, hcount⟩
  · rw [hlo]
    exact hs.lo_mod
  · rw [hlo, hhi, noteFreeChange_mem]
    exact ht

end Carved

/-- A call that hands out the payload at `p` and leaves the other payloads where they are. -/
structure Granted (H H' : Heap) (bs bs' : List Block) (p n : ℕ) : Prop where
  evolved : Evolved H H' bs'
  mem_held : ∀ q m, (q, m) ∈ held hdr H.regionLo bs' ↔
    (q = p ∧ m = n) ∨ (q, m) ∈ held hdr H.regionLo bs
  fresh : ∀ m, (p, m) ∉ held hdr H.regionLo bs
  untouched : Untouched H H' bs'

theorem Sound.grant {H H' : Heap} {bs bs' : List Block} {p w : ℕ} (h : Sound H bs)
    (hc : Carved H H' bs bs' p w) (hw : 8 ≤ w) : Granted H H' bs bs' p w := by
  have hcalm := hc.calm h.calm
  have hcount := hc.counted h.counted
  refine ⟨?_, hc.mem_held, hc.fresh, hc.untouched⟩
  obtain @⟨b, xs, ys, gap, tail, m', f, rfl, rfl, -, -, -, hbig, -, rfl, ht, -⟩ := hc
  rw [noteFreeChange_free] at hcount
  have hassoc : ∀ zs : List Block, xs ++ (gap ++ ⟨w, true⟩ :: (tail ++ zs)) =
      xs ++ ((gap ++ ⟨w, true⟩ :: tail) ++ zs) := by simp
  rw [hassoc] at ht hcalm hcount ⊢
  refine h.settle (h.laid.of_tiled xs [b] _ ys ht fun c hc => ?_) hcalm hcount
  simp only [List.mem_append, List.mem_cons] at hc hbig
  rcases hc with hc | rfl | hc
  · exact hbig c (.inl hc)
  · exact hw
  · exact hbig c (.inr hc)

theorem spans_mod {bs : List Block} (h : ∀ b ∈ bs, b.size % 8 = 0) : spans hdr bs % 8 = 0 := by
  induction bs with
  | nil => rfl
  | cons b bs ih =>
    have hb := h b (by simp)
    have hbs := ih fun c hc => h c (by simp [hc])
    simp only [spans_cons, hdr] at *
    omega

/-- Where a walk over the blocks stands. -/
def position (lo : ℕ) (xs ys : List Block) : ℕ := if ys = [] then 0 else lo + spans hdr xs

theorem Tiled.next_position {H : Heap} {b : Block} {xs ys : List Block}
    (h : Tiled H.mem H.regionLo H.regionHi (xs ++ b :: ys)) :
    H.next (H.regionLo + spans hdr xs) = position H.regionLo (xs ++ [b]) ys := by
  rw [Heap.next, (h.header rfl).next, position]
  simp only [spans_append, spans_cons, spans_nil, Nat.add_zero, Nat.add_assoc]

theorem Audited.free_room {H : Heap} {b : Block} {xs ys : List Block}
    (h : Audited H (xs ++ b :: ys)) (hb : b.used = false) : b.size ≤ H.free ∧ H.free < 2 ^ 32 := by
  have hcount := h.counted
  have hlt := h.tiled.freeBytes_lt
  rw [← hcount] at hlt
  simp only [freeBytes_append, freeBytes_cons, hb, Bool.false_eq_true, if_false] at hcount
  omega

section Free

variable {H : Heap} {a want : ℕ} {b : Block} {xs ys : List Block} (h : Audited H (xs ++ b :: ys))
  (ha : a = H.regionLo + spans hdr xs) (hb : b.used = false) (hwant : want % 8 = 0 ∧ 8 ≤ want)
include h ha hb hwant

theorem Audited.takeFront (hw : want ≤ b.size) : ∃ H' bs' n,
    takeBlock H a want = (payloadOf a, H') ∧ Carved H H' (xs ++ b :: ys) bs' (payloadOf a) n ∧
      want ≤ n := by
  obtain ⟨hroom, hlt⟩ := h.free_room hb
  obtain ⟨m', w, tail, f, htake, hww, htail, hbig, hspan, hf, hl, hkept⟩ :=
    takeBlock_spec h.tiled ha hw hwant.1 hroom hlt
  refine ⟨_, xs ++ ([] ++ ⟨w, true⟩ :: (tail ++ ys)), w, htake,
    .intro rfl rfl hb (.inl rfl) htail hbig ?_ rfl hl ?_ ?_ hkept, hww⟩
  · rw [spans_nil, Nat.zero_add, hspan]
  · simpa [freeBytes] using hf
  · rw [payloadOf, ha, spans_nil, Nat.add_zero]

theorem Audited.takeAfter {g : ℕ} (hg : g % 8 = 0 ∧ 8 ≤ g) (hw : g + hdr + want ≤ b.size) :
    let K := split H a g
    ¬ (K.next a = 0 ∨ K.used (K.next a) ≠ 0 ∨ K.size (K.next a) < want) ∧ ∃ H' bs' n,
      takeBlock K (K.next a) want = (payloadOf a + g + hdr, H') ∧
        Carved H H' (xs ++ b :: ys) bs' (payloadOf a + g + hdr) n ∧ want ≤ n := by
  obtain ⟨hroom, hlt⟩ := h.free_room hb
  have hhdr : hdr = 16 := rfl
  have hrest : splitMin ≤ b.size - g := by
    simp only [splitMin, minPayload, heapAlign]
    omega
  obtain ⟨m₁, hs, hl₁, hk₁⟩ := h.tiled.split_cut ha hrest hg.1
  rw [hb] at hl₁ hk₁
  rw [hs, sub32_eq hlt (by omega)]
  generalize hK : ({ H with mem := m₁, free := H.free - hdr } : Heap) = K
  have hKmem : K.mem = m₁ := by rw [← hK]
  have hKlo : K.regionLo = H.regionLo := by rw [← hK]
  have hKhi : K.regionHi = H.regionHi := by rw [← hK]
  have hKfree : K.free = H.free - hdr := by rw [← hK]
  have hl₂ : Tiled K.mem K.regionLo K.regionHi
      (xs ++ ⟨g, false⟩ :: ⟨b.size - g - hdr, false⟩ :: ys) := by
    rw [hKmem, hKlo, hKhi]
    exact hl₁
  have hpos : a = K.regionLo + spans hdr xs := by rw [hKlo, ha]
  have hfree' : b.size - g - hdr ≤ K.free := by omega
  obtain ⟨m', w, tail, f, htake, hnext, hgo, hww, htail, hbig, hspan, hf, hl, hkept⟩ :=
    takeBehind_spec hl₂ hpos (by omega) hwant.1 hfree' (by omega)
  have hsame : noteFreeChange { K with mem := m', free := f } =
      noteFreeChange { H with mem := m', free := f } := by rw [← hK]
  have hp : a + (hdr + g) + hdr = payloadOf a + g + hdr := by
    rw [payloadOf, ← Nat.add_assoc]
  rw [hKlo] at hl hkept
  rw [hKhi] at hl
  rw [hsame, hp] at htake
  have hspare : Spare [⟨g, false⟩] := .inr ⟨_, rfl, rfl⟩
  dsimp only
  rw [hnext] at hgo ⊢
  refine ⟨hgo, _, xs ++ (⟨g, false⟩ :: ⟨w, true⟩ :: (tail ++ ys)), w, htake,
    .intro rfl (show _ = xs ++ ([⟨g, false⟩] ++ _) from rfl) hb hspare htail ?_ ?_ rfl hl ?_ ?_
      fun x hx => ?_, hww⟩
  · intro c hc
    rcases List.mem_append.mp hc with hc | hc
    · rw [List.mem_singleton.mp hc]
      exact hg.2
    · exact hbig c hc
  · rw [hspan, spans_cons, spans_nil]
    dsimp only
    omega
  · rw [show freeBytes [⟨g, false⟩] = g from rfl]
    omega
  · rw [spans_cons, spans_nil, ← hp, ha, Nat.add_zero]
  · refine (hkept x hx).trans ((congrFun hKmem x).trans (hk₁ x ?_))
    have hoff : OffHeaders hdr H.regionLo
        ((xs ++ [⟨g, false⟩]) ++ ⟨w, true⟩ :: (tail ++ ys)) x := by
      rwa [List.append_assoc]
    have hcut := hoff.of_cut (b := ⟨b.size - g - hdr, false⟩) hspan
    rwa [List.append_assoc] at hcut

end Free

/-- The gap the search leaves in a free block whose payload is at `pay`. -/
def gapFor (align pay : ℕ) : ℕ := sub32 (skipGap pay align splitMin (alignUp pay align)) pay

/-- Up to the first block with room, gap and request together fit into a word. -/
def Addable (align want : ℕ) : ℕ → List Block → Prop
  | _, [] => True
  | a, b :: bs =>
    (b.used = false → gapFor align (payloadOf a) + want < 2 ^ 32) ∧
      (b.used = true ∨ b.size < gapFor align (payloadOf a) + want →
        Addable align want (a + (hdr + b.size)) bs)

/-- The search hands out a payload of the size and alignment asked for, or changes nothing. -/
theorem Audited.allocFrom {H : Heap} {k want : ℕ} (hk : 3 ≤ k ∧ k ≤ 31)
    (hwant : want % 8 = 0 ∧ 8 ≤ want) {xs ys : List Block} (h : Audited H (xs ++ ys))
    (hadd : Addable (2 ^ k) want (H.regionLo + spans hdr xs) ys) {fuel : ℕ}
    (hfuel : ys.length < fuel) :
    allocFrom (2 ^ k) want fuel (position H.regionLo xs ys) H = (0, H) ∨
      ∃ p H' bs' n, allocFrom (2 ^ k) want fuel (position H.regionLo xs ys) H = (p, H') ∧
        Carved H H' (xs ++ ys) bs' p n ∧ p % 2 ^ k = 0 ∧ want ≤ n := by
  induction ys generalizing xs fuel with
  | nil =>
    obtain ⟨fuel, rfl⟩ := Nat.exists_eq_succ_of_ne_zero (by omega : fuel ≠ 0)
    exact .inl (if_pos rfl)
  | cons c ys ih =>
    obtain ⟨fuel, rfl⟩ := Nat.exists_eq_succ_of_ne_zero (by omega : fuel ≠ 0)
    have hassoc : Audited H ((xs ++ [c]) ++ ys) := by rwa [List.append_assoc]
    have hafter : H.regionLo + spans hdr (xs ++ [c]) = H.regionLo + spans hdr xs + (hdr + c.size) := by
      rw [spans_append, spans_cons, spans_nil, Nat.add_zero, Nat.add_assoc]
    have hstep := fun hskip => ih hassoc (by rw [hafter]; exact hadd.2 hskip)
      (Nat.lt_of_succ_lt_succ hfuel)
    rw [← h.tiled.next_position, List.append_assoc, List.singleton_append] at hstep
    have hpos : position H.regionLo xs (c :: ys) = H.regionLo + spans hdr xs :=
      if_neg (List.cons_ne_nil _ _)
    have hlo := h.tiled.lo_pos
    have hne : H.regionLo + spans hdr xs ≠ 0 := by omega
    have hb := h.tiled.header rfl
    rw [hpos, Kernel.allocFrom, if_neg hne]
    by_cases hu : c.used = true
    · rw [if_pos (by rw [Heap.used, hb.used, hu]; decide)]
      exact hstep (.inl hu)
    have hfree : c.used = false := by simpa using hu
    have hsum := hadd.1 hfree
    rw [if_neg (by rw [Heap.used, hb.used, hfree]; decide)]
    dsimp only
    have hsize : H.size (H.regionLo + spans hdr xs) = c.size := hb.size
    rw [hsize]
    have hstep' := fun hskip => hstep (.inr hskip)
    unfold gapFor at hsum hstep'
    generalize hg : sub32 (skipGap (payloadOf (H.regionLo + spans hdr xs)) (2 ^ k) splitMin
      (alignUp (payloadOf (H.regionLo + spans hdr xs)) (2 ^ k)))
      (payloadOf (H.regionLo + spans hdr xs)) = gap at hsum hstep' ⊢
    rw [add32_eq hsum]
    by_cases hfit : c.size < gap + want
    · by_cases hzero : gap = 0
      · rw [if_pos hzero, if_pos (by omega)]
        exact hstep' hfit
      · rw [if_neg hzero, if_pos hfit]
        exact hstep' hfit
    have hhdr : hdr = 16 := rfl
    have hspan8 := spans_mod fun d hd => h.tiled.sizes d (List.mem_append_left _ hd)
    have hlo8 := h.lo_mod
    have hend := h.tiled.end_le rfl
    have hhi := h.tiled.hi_le
    have hpay : payloadOf (H.regionLo + spans hdr xs) < 2 ^ 32 := by
      rw [payloadOf]
      omega
    have hpay8 : payloadOf (H.regionLo + spans hdr xs) % 8 = 0 := by
      rw [payloadOf]
      omega
    obtain ⟨hcase, hmod, -, hg8⟩ := alloc_gap hpay hk hpay8 hg.symm
    by_cases hzero : gap = 0
    · rw [if_pos hzero]
      obtain ⟨H', bs', n, htake, hcarved, hn⟩ :=
        h.takeFront rfl hfree hwant (by omega)
      rw [if_neg (by omega)]
      rw [hzero, Nat.add_zero] at hmod
      exact .inr ⟨_, H', bs', n, htake, hcarved, hmod, hn⟩
    · rw [if_neg hzero]
      have hbig := hcase.resolve_left hzero
      simp only [splitMin, minPayload, heapAlign] at hbig
      obtain ⟨hgo, H', bs', n, htake, hcarved, hn⟩ :=
        h.takeAfter rfl hfree hwant (g := gap - hdr) (by omega) (by omega)
      rw [if_neg hfit, sub32_eq (by omega) (by omega), if_neg hgo]
      refine .inr ⟨_, H', bs', n, htake, hcarved, ?_, hn⟩
      rw [← hmod]
      congr 1
      omega

theorem length_le_spans {bs : List Block} : bs.length ≤ spans hdr bs := by
  induction bs with
  | nil => exact le_refl 0
  | cons b bs ih =>
    simp only [List.length_cons, spans_cons, hdr] at *
    omega

theorem Tiled.length_lt {m : Memory} {lo hi : ℕ} {bs : List Block} (h : Tiled m lo hi bs) :
    bs.length < hi := by
  have hlen : bs.length ≤ spans hdr bs := length_le_spans
  have := h.tile
  have := h.lo_pos
  omega

theorem Audited.first_position {H : Heap} {bs : List Block} (h : Audited H bs) (hne : bs ≠ []) :
    H.first = position H.regionLo [] bs := by
  rw [h.first, position, if_neg hne]
  rfl

/-- The size a request is rounded up to. -/
def wanted (size : ℕ) : ℕ :=
  if alignUp size heapAlign < minPayload then minPayload else alignUp size heapAlign

theorem wanted_spec {size : ℕ} (hsmall : size + 7 < 2 ^ 32) :
    wanted size % 8 = 0 ∧ 8 ≤ wanted size ∧ size ≤ wanted size ∧ wanted size ≤ size + 8 := by
  have hup : alignUp size heapAlign = (size + 7) / 8 * 8 := alignUp_eight hsmall
  unfold wanted minPayload
  rw [hup]
  by_cases hs : (size + 7) / 8 * 8 < heapAlign
  · rw [if_pos hs]
    unfold heapAlign at *
    omega
  · rw [if_neg hs]
    unfold heapAlign at *
    omega

theorem sizeIsSane_iff {size : ℕ} : sizeIsSane size = true ↔ size + 23 < 2 ^ 32 := by
  unfold sizeIsSane
  rw [decide_eq_true_eq, heapAlign, hdr]
  omega

theorem alignment_pow {k : ℕ} :
    (if 2 ^ k < heapAlign then heapAlign else 2 ^ k) = 2 ^ max k 3 ∧ 2 ^ k ∣ 2 ^ max k 3 := by
  refine ⟨?_, Nat.pow_dvd_pow 2 (Nat.le_max_left _ _)⟩
  by_cases hk3 : k < 3
  · rw [max_eq_right (by omega), if_pos]
    · rfl
    · exact Nat.pow_lt_pow_right (by decide) hk3
  · rw [max_eq_left (by omega), if_neg]
    exact Nat.not_lt_of_le (Nat.pow_le_pow_right (n := 2) (by decide) (Nat.le_of_not_lt hk3))

/-- A request that succeeds gets a payload carved out of a free block, large enough and aligned;
one that fails changes nothing. -/
theorem Audited.allocLocked {H : Heap} {bs : List Block} (h : Audited H bs) (hne : bs ≠ [])
    {k size : ℕ} (hk : k ≤ 31)
    (hadd : sizeIsSane size = true → Addable (2 ^ max k 3) (wanted size) H.regionLo bs) :
    allocLocked H (2 ^ k) size = (0, H) ∨
      ∃ p H' bs' n, allocLocked H (2 ^ k) size = (p, H') ∧
        Carved H H' bs bs' p n ∧ p % 2 ^ k = 0 ∧ size ≤ n ∧ 8 ≤ n := by
  by_cases hbad : (!H.ready || decide (size = 0) || !sizeIsSane size) = true
  · exact .inl (if_pos hbad)
  have hgo : Kernel.allocLocked H (2 ^ k) size =
      Kernel.allocFrom (if 2 ^ k < heapAlign then heapAlign else 2 ^ k) (wanted size) H.regionHi
        H.first H := if_neg hbad
  have hsane : sizeIsSane size = true := by
    simp only [Bool.or_eq_true, Bool.not_eq_true', not_or, Bool.not_eq_false] at hbad
    exact hbad.2
  have hlt := sizeIsSane_iff.mp hsane
  obtain ⟨h8, hmin, hle, -⟩ := wanted_spec (show size + 7 < 2 ^ 32 by omega)
  obtain ⟨halign, hdvd⟩ := @alignment_pow k
  rw [hgo, h.first_position hne, halign]
  rcases Audited.allocFrom ⟨Nat.le_max_right k 3, max_le hk (by decide)⟩ ⟨h8, hmin⟩
      (show Audited H ([] ++ bs) from h) (hadd hsane) h.tiled.length_lt with
    hnone | ⟨p, H', bs', n, hrun, hcarved, hmod, hn⟩
  · exact .inl hnone
  · refine .inr ⟨p, H', bs', n, hrun, hcarved, ?_, hle.trans hn, hmin.trans hn⟩
    exact Nat.mod_eq_zero_of_dvd (hdvd.trans (Nat.dvd_of_mod_eq_zero hmod))

/-- Where no gap is too large for the request, nothing has to be checked on the way. -/
theorem Laid.addable {m : Memory} {lo hi k want : ℕ} {xs ys : List Block} (h : Laid m lo hi (xs ++ ys))
    (hlo : lo % 8 = 0) (hsum : ∀ pay, pay < 2 ^ 32 → pay % 8 = 0 →
      gapFor (2 ^ k) pay + want < 2 ^ 32) : Addable (2 ^ k) want (lo + spans hdr xs) ys := by
  induction ys generalizing xs with
  | nil => trivial
  | cons c ys ih =>
    have hassoc : Laid m lo hi ((xs ++ [c]) ++ ys) := by rwa [List.append_assoc]
    have hrest := ih hassoc
    rw [spans_append, spans_cons, spans_nil, Nat.add_zero, ← Nat.add_assoc] at hrest
    refine ⟨fun _ => hsum _ ?_ ?_, fun _ => hrest⟩
    · have htile := h.tile
      have hhi := h.hi_le
      have hc := h.sizes c (by simp)
      simp only [spans_append, spans_cons] at htile
      rw [payloadOf]
      omega
    · have hspan := spans_mod fun d hd => (h.sizes d (List.mem_append_left _ hd)).1
      rw [payloadOf]
      simp only [hdr] at *
      omega

theorem Sound.allocate {H : Heap} {bs : List Block} (h : Sound H bs) (hne : bs ≠ []) {k size : ℕ}
    (hk : k ≤ 31)
    (hadd : sizeIsSane size = true → Addable (2 ^ max k 3) (wanted size) H.regionLo bs) :
    Kernel.allocLocked H (2 ^ k) size = (0, H) ∨
      ∃ p H' bs' n, Kernel.allocLocked H (2 ^ k) size = (p, H') ∧ Granted H H' bs bs' p n ∧
        Outside H H' ∧ p % 2 ^ k = 0 ∧ size ≤ n := by
  rcases h.audited.allocLocked hne hk hadd with
    hnone | ⟨p, H', bs', n, hrun, hcarved, hmod, hn, hmin⟩
  · exact .inl hnone
  · exact .inr ⟨p, H', bs', n, hrun, h.grant hcarved hmin, hcarved.outside, hmod, hn⟩

/-- With the alignment of the heap itself there are no gaps. -/
theorem gapFor_eight {pay : ℕ} (hpay : pay < 2 ^ 32) (h8 : pay % 8 = 0) : gapFor 8 pay = 0 := by
  have hup : alignUp pay 8 = pay := by
    rw [alignUp_eight (by omega)]
    omega
  have hzero : sub32 pay pay = 0 := by
    rw [sub32_eq hpay (le_refl _), Nat.sub_self]
  rw [gapFor, hup, show splitMin = 23 + 1 from rfl, skipGap, hzero]
  exact hzero

theorem Sound.addable_eight {H : Heap} {bs : List Block} (h : Sound H bs) {size : ℕ}
    (hsane : sizeIsSane size = true) : Addable (2 ^ 3) (wanted size) H.regionLo bs := by
  have hlt := sizeIsSane_iff.mp hsane
  obtain ⟨-, -, -, hup⟩ := wanted_spec (show size + 7 < 2 ^ 32 by omega)
  have hadd : Addable (2 ^ 3) (wanted size) (H.regionLo + spans hdr []) bs := by
    refine Laid.addable (show Laid H.mem H.regionLo H.regionHi ([] ++ bs) from h.laid) h.lo_mod ?_
    intro pay hpay hpay8
    rw [show 2 ^ 3 = 8 from rfl, gapFor_eight hpay hpay8]
    omega
  exact hadd

/-- Such a request is served or refused whatever its size. -/
theorem Sound.heapAlloc {H : Heap} {bs : List Block} (h : Sound H bs) (hne : bs ≠ []) (size : ℕ) :
    Kernel.heapAlloc H size = (0, H) ∨
      ∃ p H' bs' n, Kernel.heapAlloc H size = (p, H') ∧ Granted H H' bs bs' p n ∧
        Outside H H' ∧ p % 8 = 0 ∧ size ≤ n :=
  h.allocate hne (k := 3) (by decide) h.addable_eight

/-- Sizes and alignments far from the top of the word leave no sum that wraps. -/
theorem Sound.addable_small {H : Heap} {bs : List Block} (h : Sound H bs) {k size : ℕ}
    (hk : k ≤ 30) (hsmall : size < 2 ^ 31) :
    Addable (2 ^ max k 3) (wanted size) H.regionLo bs := by
  obtain ⟨-, -, -, hup⟩ := wanted_spec (show size + 7 < 2 ^ 32 by omega)
  have hpow : 2 ^ max k 3 ≤ 2 ^ 30 := Nat.pow_le_pow_right (by decide) (max_le hk (by decide))
  have hadd : Addable (2 ^ max k 3) (wanted size) (H.regionLo + spans hdr []) bs := by
    refine Laid.addable (show Laid H.mem H.regionLo H.regionHi ([] ++ bs) from h.laid) h.lo_mod ?_
    intro pay hpay hpay8
    have hgap := (alloc_gap hpay ⟨Nat.le_max_right k 3, max_le (by omega) (by decide)⟩ hpay8
      rfl).2.2.1
    have hmin : splitMin = 24 := rfl
    unfold gapFor
    omega
  exact hadd

theorem exists_pow_of_accepted {align : ℕ} (h : ¬ (align = 0 ∨ align &&& (align - 1) ≠ 0)) :
    ∃ k, align = 2 ^ k := by
  simp only [not_or, not_not] at h
  exact (Nat.and_sub_one_eq_zero_iff_isPowerOfTwo h.1).mp h.2

end ReflexOS.Kernel
