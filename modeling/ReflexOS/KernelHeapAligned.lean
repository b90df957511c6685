import ReflexOS.KernelHeapCheck

set_option autoImplicit false

/-!
# Aligned requests near the top of the word

A request is rounded, added to a gap and compared. The sums it forms on the way are listed here,
and none of them wraps exactly when the search meets no free block too close to the top.
-/
namespace ReflexOS.Kernel
open ByteMemory BlockList

/-- The sums of the loop that steps over small gaps. -/
def gapSums (pay align : ℕ) : ℕ → ℕ → List (ℕ × ℕ)
  | 0, _ => []
  | fuel + 1, aligned =>
    let gap := sub32 aligned pay
    if gap ≠ 0 ∧ gap < splitMin then
      (aligned, align) :: gapSums pay align fuel (add32 aligned align)
    else []

/-- The sums of the search, in the order it forms them. -/
def sumsFrom (align want : ℕ) : ℕ → ℕ → Heap → List (ℕ × ℕ)
  | 0, _, _ => []
  | fuel + 1, b, H =>
    if b = 0 then []
    else if H.used b ≠ 0 then sumsFrom align want fuel (H.next b) H
    else
      let pay := payloadOf b
      let aligned := skipGap pay align splitMin (alignUp pay align)
      let gap := sub32 aligned pay
      (pay, align - 1) :: gapSums pay align splitMin (alignUp pay align) ++
        if gap = 0 then
          if H.size b < want then sumsFrom align want fuel (H.next b) H else []
        else
          (gap, want) ::
            if H.size b < add32 gap want then sumsFrom align want fuel (H.next b) H
            else
              let H := split H b (sub32 gap hdr)
              let b := H.next b
              if b = 0 ∨ H.used b ≠ 0 ∨ H.size b < want then sumsFrom align want fuel (H.next b) H
              else []

/-- The sums of a request: the rounding of its size, then those of the search. -/
def sums (H : Heap) (align size : ℕ) : List (ℕ × ℕ) :=
  if !H.ready || decide (size = 0) || !sizeIsSane size then []
  else
    let want := alignUp size heapAlign
    let want := if want < minPayload then minPayload else want
    let align := if align < heapAlign then heapAlign else align
    (size, heapAlign - 1) :: sumsFrom align want H.regionHi H.first H

/-- A payload in use, aligned and large enough, in a heap that passes the check. -/
def Supplies (r : ℕ × Heap) (align size : ℕ) : Prop :=
  r.1 ≠ 0 ∧ r.1 % align = 0 ∧
    (∃ n, (r.1, n) ∈ held hdr r.2.regionLo (blocks r.2) ∧ size ≤ n) ∧ heapCheck r.2 = true

/-- An aligned request supplies a payload or leaves everything as it was, and none of its sums
wraps. -/
def Keeps (H : Heap) (align size : ℕ) : Prop :=
  (Supplies (heapAllocAligned H align size) align size ∨ heapAllocAligned H align size = (0, H)) ∧
    ∀ s ∈ sums H align size, s.1 + s.2 < 2 ^ 32

/-- The first multiple of the alignment that leaves no gap, or one that can be a block. -/
def firstAligned (align pay : ℕ) : ℕ :=
  let up := (pay + align - 1) / align * align
  if up = pay ∨ pay + splitMin ≤ up then up else up + align

/-- Up to the first free block with room, the aligned address and the padded request stay below
`2 ^ 32`. -/
def Roomy (align want : ℕ) : ℕ → List Block → Prop
  | _, [] => True
  | a, b :: bs =>
    let pay := a + hdr
    let padded := firstAligned align pay - pay + want
    (b.used = false → firstAligned align pay < 2 ^ 32 ∧ padded < 2 ^ 32) ∧
      (b.used = true ∨ b.size < padded → Roomy align want (a + (hdr + b.size)) bs)

theorem roomy_cons {align want a : ℕ} {b : Block} {bs : List Block} :
    Roomy align want a (b :: bs) ↔
      (b.used = false → firstAligned align (payloadOf a) < 2 ^ 32 ∧
        firstAligned align (payloadOf a) - payloadOf a + want < 2 ^ 32) ∧
      (b.used = true ∨ b.size < firstAligned align (payloadOf a) - payloadOf a + want →
        Roomy align want (a + (hdr + b.size)) bs) := Iff.rfl

instance decidableRoomy (align want : ℕ) :
    (a : ℕ) → (bs : List Block) → Decidable (Roomy align want a bs)
  | _, [] => isTrue trivial
  | a, b :: bs =>
    have := decidableRoomy align want (a + (hdr + b.size)) bs
    inferInstanceAs (Decidable ((b.used = false → _ ∧ _) ∧ (b.used = true ∨ _ → _)))

section Step

variable {pay align up : ℕ} (hlow : pay ≤ up) (hup : up < pay + align) (hlt : up < 2 ^ 32)
include hlow hup hlt

/-- The loop steps at most once, so it forms at most one sum. -/
theorem gapSums_iff (h8 : pay % 8 = 0 ∧ align % 8 = 0 ∧ up % 8 = 0) :
    (∀ s ∈ gapSums pay align splitMin up, s.1 + s.2 < 2 ^ 32) ↔
      (if up = pay ∨ pay + splitMin ≤ up then up else up + align) < 2 ^ 32 := by
  have hmin : splitMin = 24 := rfl
  have hgap : sub32 up pay = up - pay := sub32_eq hlt hlow
  rw [show splitMin = 22 + 1 + 1 from rfl, gapSums, hgap]
  by_cases hsmall : up = pay ∨ pay + (22 + 1 + 1) ≤ up
  · rw [if_pos hsmall, if_neg (by omega)]
    exact iff_of_true (fun s hs => absurd hs List.not_mem_nil) hlt
  rw [if_neg hsmall, if_pos (by omega)]
  by_cases hnext : up + align < 2 ^ 32
  · have hgap' : sub32 (up + align) pay = up + align - pay := sub32_eq hnext (by omega)
    have hstop : gapSums pay align (22 + 1) (up + align) = [] := by
      rw [gapSums, hgap']
      exact if_neg (by omega)
    rw [add32_eq hnext, hstop]
    exact iff_of_true (fun s hs => List.mem_singleton.mp hs ▸ hnext) hnext
  · exact iff_of_false (fun hall => hnext (hall _ List.mem_cons_self)) hnext

theorem skipGap_eq (h8 : pay % 8 = 0 ∧ align % 8 = 0 ∧ up % 8 = 0)
    (h : (if up = pay ∨ pay + splitMin ≤ up then up else up + align) < 2 ^ 32) :
    skipGap pay align splitMin up = if up = pay ∨ pay + splitMin ≤ up then up else up + align := by
  have hmin : splitMin = 24 := rfl
  have hgap : sub32 up pay = up - pay := sub32_eq hlt hlow
  rw [show splitMin = 22 + 1 + 1 from rfl] at h ⊢
  rw [skipGap, hgap]
  by_cases hsmall : up = pay ∨ pay + (22 + 1 + 1) ≤ up
  · rw [if_pos hsmall, if_neg (by omega)]
  rw [if_neg hsmall] at h ⊢
  have hgap' : sub32 (up + align) pay = up + align - pay := sub32_eq h (by omega)
  rw [if_pos (by omega), add32_eq h, skipGap, hgap']
  exact if_neg (by omega)

end Step

section Gap

variable {pay k : ℕ}

theorem alignUp_pow (hk : k ≤ 32) (h : pay + (2 ^ k - 1) < 2 ^ 32) :
    alignUp pay (2 ^ k) = (pay + 2 ^ k - 1) / 2 ^ k * 2 ^ k := by
  have hpos : 0 < 2 ^ k := Nat.two_pow_pos k
  have hsum : pay + (2 ^ k - 1) = pay + 2 ^ k - 1 := by omega
  rw [alignUp, add32_eq h, and_alignMask h hk, hsum]
  have := Nat.div_add_mod (pay + 2 ^ k - 1) (2 ^ k)
  rw [Nat.mul_comm] at this
  omega

theorem roundUp_bounds (hk : 3 ≤ k) :
    pay ≤ (pay + 2 ^ k - 1) / 2 ^ k * 2 ^ k ∧ (pay + 2 ^ k - 1) / 2 ^ k * 2 ^ k < pay + 2 ^ k ∧
      2 ^ k % 8 = 0 ∧ ((pay + 2 ^ k - 1) / 2 ^ k * 2 ^ k) % 8 = 0 := by
  have hpos : 0 < 2 ^ k := Nat.two_pow_pos k
  have hle := Nat.div_mul_le_self (pay + 2 ^ k - 1) (2 ^ k)
  have hlt := @Nat.lt_div_mul_add (pay + 2 ^ k - 1) (2 ^ k) hpos
  have height : (8 : ℕ) ∣ 2 ^ k := Nat.pow_dvd_pow 2 hk
  have hdvd : 8 ∣ (pay + 2 ^ k - 1) / 2 ^ k * 2 ^ k := height.trans (Nat.dvd_mul_left _ _)
  omega

theorem roundUp_lt_iff (hk : k ≤ 32) :
    (pay + 2 ^ k - 1) / 2 ^ k * 2 ^ k < 2 ^ 32 ↔ pay + (2 ^ k - 1) < 2 ^ 32 := by
  have hpos : 0 < 2 ^ k := Nat.two_pow_pos k
  have hle := Nat.div_mul_le_self (pay + 2 ^ k - 1) (2 ^ k)
  refine ⟨fun h => ?_, fun h => by omega⟩
  by_contra hwrap
  have htop : 2 ^ 32 / 2 ^ k ≤ (pay + 2 ^ k - 1) / 2 ^ k := Nat.div_le_div_right (by omega)
  have hmul := Nat.mul_le_mul_right (2 ^ k) htop
  rw [Nat.div_mul_cancel (Nat.pow_dvd_pow 2 hk)] at hmul
  omega

variable (hk : 3 ≤ k ∧ k ≤ 31) (hp8 : pay % 8 = 0)
include hk hp8

/-- The sums in front of the aligned address. -/
theorem firstAligned_lt_iff : (pay + (2 ^ k - 1) < 2 ^ 32 ∧
      ∀ s ∈ gapSums pay (2 ^ k) splitMin (alignUp pay (2 ^ k)), s.1 + s.2 < 2 ^ 32) ↔
    firstAligned (2 ^ k) pay < 2 ^ 32 := by
  obtain ⟨hlow, hup, hk8, hup8⟩ := @roundUp_bounds pay k hk.1
  have hround := @roundUp_lt_iff pay k (by omega)
  by_cases hwrap : pay + (2 ^ k - 1) < 2 ^ 32
  · rw [alignUp_pow (by omega) hwrap, and_iff_right hwrap]
    exact gapSums_iff hlow hup (hround.mpr hwrap) ⟨hp8, hk8, hup8⟩
  · refine iff_of_false (fun h => hwrap h.1) fun h => hwrap (hround.mp ?_)
    have hle : (pay + 2 ^ k - 1) / 2 ^ k * 2 ^ k ≤ firstAligned (2 ^ k) pay := by
      unfold firstAligned
      dsimp only
      split <;> omega
    exact lt_of_le_of_lt hle h

theorem gapFor_eq (h : firstAligned (2 ^ k) pay < 2 ^ 32) :
    gapFor (2 ^ k) pay = firstAligned (2 ^ k) pay - pay := by
  obtain ⟨hlow, hup, hk8, hup8⟩ := @roundUp_bounds pay k hk.1
  have hwrap := ((firstAligned_lt_iff hk hp8).mpr h).1
  have hlt := (@roundUp_lt_iff pay k (by omega)).mpr hwrap
  have hle : pay ≤ firstAligned (2 ^ k) pay := by
    unfold firstAligned
    dsimp only
    split <;> omega
  rw [gapFor, alignUp_pow (by omega) hwrap, skipGap_eq hlow hup hlt ⟨hp8, hk8, hup8⟩ h]
  exact sub32_eq h hle

end Gap

/-- Where a payload may begin. -/
theorem Audited.payload {H : Heap} {b : Block} {xs ys : List Block} (h : Audited H (xs ++ b :: ys))
    (hhi : H.regionHi < 2 ^ 32) : payloadOf (H.regionLo + spans hdr xs) < 2 ^ 32 ∧
      payloadOf (H.regionLo + spans hdr xs) % 8 = 0 := by
  have hend := h.tiled.end_le rfl
  have hlo8 := h.lo_mod
  have hspan8 := spans_mod fun d hd => h.tiled.sizes d (List.mem_append_left _ hd)
  have hhdr : hdr = 16 := rfl
  rw [payloadOf]
  omega

theorem Audited.next {H : Heap} {b : Block} {xs ys : List Block} (h : Audited H (xs ++ b :: ys)) :
    Audited H ((xs ++ [b]) ++ ys) ∧
      H.regionLo + spans hdr (xs ++ [b]) = H.regionLo + spans hdr xs + (hdr + b.size) := by
  refine ⟨by rwa [List.append_assoc], ?_⟩
  rw [spans_append, spans_cons, spans_nil, Nat.add_zero, Nat.add_assoc]

section Search

variable {H : Heap} {k want : ℕ} {xs ys : List Block} (hk : 3 ≤ k ∧ k ≤ 31)
  (hhi : H.regionHi < 2 ^ 32) (h : Audited H (xs ++ ys))
include hk hhi h

/-- Where there is room no gap and request together leave the word. -/
theorem Audited.addable (hr : Roomy (2 ^ k) want (H.regionLo + spans hdr xs) ys) :
    Addable (2 ^ k) want (H.regionLo + spans hdr xs) ys := by
  induction ys generalizing xs with
  | nil => trivial
  | cons c ys ih =>
    obtain ⟨hnext, hplace⟩ := h.next
    obtain ⟨hpay, hpay8⟩ := h.payload hhi
    have hrest := ih hnext
    rw [hplace] at hrest
    have hgap : c.used = false → gapFor (2 ^ k) (payloadOf (H.regionLo + spans hdr xs)) =
        firstAligned (2 ^ k) (payloadOf (H.regionLo + spans hdr xs)) -
          payloadOf (H.regionLo + spans hdr xs) :=
      fun hc => gapFor_eq hk hpay8 (hr.1 hc).1
    refine ⟨fun hc => ?_, fun hskip => hrest (hr.2 ?_)⟩
    · rw [hgap hc]
      exact (hr.1 hc).2
    · rcases hskip with hu | hskip
      · exact .inl hu
      · by_cases hu : c.used = true
        · exact .inl hu
        · rw [hgap (by simpa using hu)] at hskip
          exact .inr hskip

/-- The sums of the search stay in the word exactly where there is room. -/
theorem Audited.sumsFrom_iff (hwant : want % 8 = 0 ∧ 8 ≤ want) (hlt : want < 2 ^ 32) {fuel : ℕ}
    (hfuel : ys.length < fuel) :
    (∀ s ∈ sumsFrom (2 ^ k) want fuel (position H.regionLo xs ys) H, s.1 + s.2 < 2 ^ 32) ↔
      Roomy (2 ^ k) want (H.regionLo + spans hdr xs) ys := by
  induction ys generalizing xs fuel with
  | nil =>
    obtain ⟨fuel, rfl⟩ := Nat.exists_eq_succ_of_ne_zero (by omega : fuel ≠ 0)
    rw [show sumsFrom (2 ^ k) want (fuel + 1) (position H.regionLo xs []) H = [] from if_pos rfl]
    exact iff_of_true (fun s hs => absurd hs List.not_mem_nil) trivial
  | cons c ys ih =>
    obtain ⟨fuel, rfl⟩ := Nat.exists_eq_succ_of_ne_zero (by omega : fuel ≠ 0)
    obtain ⟨hnext, hplace⟩ := h.next
    obtain ⟨hpay, hpay8⟩ := h.payload hhi
    have hrest := ih hnext (Nat.lt_of_succ_lt_succ hfuel)
    rw [hplace, ← h.tiled.next_position] at hrest
    have hpos : position H.regionLo xs (c :: ys) = H.regionLo + spans hdr xs :=
      if_neg (List.cons_ne_nil _ _)
    have hlo := h.tiled.lo_pos
    have hne : H.regionLo + spans hdr xs ≠ 0 := by omega
    have hb := h.tiled.header rfl
    have hsize : H.size (H.regionLo + spans hdr xs) = c.size := hb.size
    rw [hpos, sumsFrom, if_neg hne, roomy_cons]
    by_cases hu : c.used = true
    · rw [if_pos (by rw [Heap.used, hb.used, hu]; decide), hrest]
      simp [hu]
    have hfree : c.used = false := by simpa using hu
    have hfirst := firstAligned_lt_iff hk hpay8
    rw [if_neg (by rw [Heap.used, hb.used, hfree]; decide)]
    rw [List.cons_append, List.forall_mem_cons, List.forall_mem_append, ← and_assoc, hfirst]
    by_cases hA : firstAligned (2 ^ k) (payloadOf (H.regionLo + spans hdr xs)) < 2 ^ 32
    swap
    · exact iff_of_false (fun hs => hA hs.1) fun hr => hA (hr.1 hfree).1
    have hgap := gapFor_eq hk hpay8 hA
    obtain ⟨hcase, -, -, hg8⟩ := alloc_gap hpay hk hpay8 hgap.symm
    rw [and_iff_right hA, and_iff_right hA, hsize]
    unfold gapFor at hgap
    rw [hgap]
    generalize firstAligned (2 ^ k) (payloadOf (H.regionLo + spans hdr xs)) -
      payloadOf (H.regionLo + spans hdr xs) = gap at hcase hg8 ⊢
    rw [or_iff_right hu, forall_prop_of_true hfree]
    by_cases hsum : gap + want < 2 ^ 32
    swap
    · refine iff_of_false (fun hs => ?_) fun hr => hsum hr.1
      rw [if_neg (by omega)] at hs
      exact hsum (hs _ List.mem_cons_self)
    rw [and_iff_right hsum, add32_eq hsum]
    by_cases hfit : c.size < gap + want
    · rw [forall_prop_of_true hfit, if_pos hfit]
      by_cases hzero : gap = 0
      · rw [if_pos hzero, if_pos (by omega), hrest]
      · rw [if_neg hzero, List.forall_mem_cons, and_iff_right hsum, hrest]
    refine iff_of_true ?_ fun hlt => absurd hlt hfit
    by_cases hzero : gap = 0
    · rw [if_pos hzero, if_neg (by omega)]
      exact fun s hs => absurd hs List.not_mem_nil
    · rw [if_neg hzero, if_neg hfit]
      have hbig := hcase.resolve_left hzero
      simp only [splitMin, hdr, minPayload, heapAlign] at hbig
      obtain ⟨hgo, -⟩ := h.takeAfter rfl hfree hwant (g := gap - hdr)
        (by simp only [hdr]; omega) (by simp only [hdr]; omega)
      rw [sub32_eq (by omega) (by simp only [hdr]; omega), if_neg hgo]
      exact fun s hs => List.mem_singleton.mp hs ▸ hsum

end Search

theorem heapAllocAligned_pow {H : Heap} {k size : ℕ} :
    heapAllocAligned H (2 ^ k) size = allocLocked H (2 ^ k) size := by
  have hne : 2 ^ k ≠ 0 := (Nat.two_pow_pos k).ne'
  refine if_neg ?_
  rintro (h | h)
  · exact hne h
  · exact h ((Nat.and_sub_one_eq_zero_iff_isPowerOfTwo hne).mpr ⟨k, rfl⟩)

/-- A request that gets past the tests. -/
theorem allocLocked_run {H : Heap} {k size : ℕ} (hready : H.ready = true) (hsize : size ≠ 0)
    (hsane : sizeIsSane size = true) :
    allocLocked H (2 ^ k) size = allocFrom (2 ^ max k 3) (wanted size) H.regionHi H.first H ∧
      sums H (2 ^ k) size =
        (size, heapAlign - 1) :: sumsFrom (2 ^ max k 3) (wanted size) H.regionHi H.first H := by
  have hgo : ¬ (!H.ready || decide (size = 0) || !sizeIsSane size) = true := by
    simp [hready, hsize, hsane]
  obtain ⟨halign, -⟩ := @alignment_pow k
  constructor
  · rw [allocLocked, if_neg hgo, ← halign]
    rfl
  · rw [sums, if_neg hgo, ← halign]
    rfl

theorem heapAllocAligned_refused {H : Heap} {k size : ℕ} (hno : size = 0 ∨ sizeIsSane size = false) :
    Keeps H (2 ^ k) size := by
  have hbad : (!H.ready || decide (size = 0) || !sizeIsSane size) = true := by
    rcases hno with h | h <;> simp [h]
  have hnone : heapAllocAligned H (2 ^ k) size = (0, H) := by
    rw [heapAllocAligned, allocLocked, if_pos hbad, ite_self]
  refine ⟨.inr hnone, fun s hs => ?_⟩
  rw [sums, if_pos hbad] at hs
  exact absurd hs List.not_mem_nil

theorem wanted_eq {size : ℕ} (hsize : size ≠ 0) (hlt : size + 7 < 2 ^ 32) :
    wanted size = (size + 7) / 8 * 8 := by
  have hup : alignUp size heapAlign = (size + 7) / 8 * 8 := alignUp_eight hlt
  have hmin : minPayload = 8 := rfl
  rw [wanted, hup, if_neg (by omega)]

/-- Where there is room the request is served or leaves everything as it was. -/
theorem Audited.supplies {H : Heap} {bs : List Block} (h : Audited H bs) (hne : bs ≠ []) {k size : ℕ}
    (hk : k ≤ 31) (hadd : Addable (2 ^ max k 3) (wanted size) H.regionLo bs) :
    Supplies (Kernel.allocLocked H (2 ^ k) size) (2 ^ k) size ∨
      Kernel.allocLocked H (2 ^ k) size = (0, H) := by
  rcases h.allocLocked hne hk fun _ => hadd with hnone | ⟨p, H', bs', n, hrun, hc, hmod, hn, -⟩
  · exact .inr hnone
  have hs := hc.audited h
  have hheld := (hc.mem_held p n).mpr (.inl ⟨rfl, rfl⟩)
  have hbounds := held_bounds hheld
  have hlo := h.tiled.lo_pos
  rw [hrun]
  refine .inl ⟨?_, hmod, ⟨n, ?_, hn⟩, hs.heapCheck hc.ne_nil⟩
  · dsimp only
    omega
  · dsimp only
    rwa [hc.regionLo, hs.blocks_eq hc.ne_nil]

/-- An aligned request keeps its promise exactly where every free block it meets leaves room
below `2 ^ 32`. -/
theorem heapAllocAligned_exact {H : Heap} (hcheck : heapCheck H = true) (hlo8 : H.regionLo % 8 = 0)
    (hlo : H.regionLo < 2 ^ 32) (hhi : H.regionHi < 2 ^ 32) {k size : ℕ} (hk : k < 32) :
    Keeps H (2 ^ k) size ↔
      (size = 0 ∨ sizeIsSane size = false ∨
        Roomy (2 ^ max k 3) ((size + 7) / 8 * 8) H.regionLo (blocks H)) := by
  by_cases hsize : size = 0
  · exact iff_of_true (heapAllocAligned_refused (.inl hsize)) (.inl hsize)
  cases hsane : sizeIsSane size with
  | false => exact iff_of_true (heapAllocAligned_refused (.inr hsane)) (.inr (.inl rfl))
  | true =>
    obtain ⟨hready, hfirst⟩ := start_of_heapCheck hcheck
    obtain ⟨hrun, hsums⟩ := @allocLocked_run H k size hready hsize hsane
    have hlt := sizeIsSane_iff.mp hsane
    obtain ⟨h8, hmin, -, hup⟩ := wanted_spec (show size + 7 < 2 ^ 32 by omega)
    have hwant := wanted_eq hsize (by omega)
    have hsum : size + (heapAlign - 1) < 2 ^ 32 := by
      simp only [heapAlign]
      omega
    have hk3 : 3 ≤ max k 3 ∧ max k 3 ≤ 31 := by omega
    rw [or_iff_right hsize, or_iff_right (by decide), ← hwant, Keeps, hsums, List.forall_mem_cons,
      and_iff_right hsum, heapAllocAligned_pow]
    by_cases hlo0 : H.regionLo = 0
    · rw [hrun, blocks, hfirst, hlo0]
      refine iff_of_true ⟨.inr ?_, fun s hs => ?_⟩ ?_
      · cases H.regionHi <;> rfl
      · have hnil : ∀ fuel, sumsFrom (2 ^ max k 3) (wanted size) fuel 0 H = [] := by
          intro fuel
          cases fuel <;> rfl
        rw [hnil] at hs
        exact absurd hs List.not_mem_nil
      · cases H.regionHi <;> trivial
    obtain ⟨bs, hne, h⟩ := audited_of_heapCheck hcheck ⟨Nat.pos_of_ne_zero hlo0, hlo⟩ hlo8 hhi.le
    have h' : Audited H ([] ++ bs) := h
    have hiff := Audited.sumsFrom_iff hk3 hhi h' ⟨h8, hmin⟩ (by omega) h.tiled.length_lt
    rw [← h.first_position hne] at hiff
    rw [h.blocks_eq hne, hiff]
    exact and_iff_right_of_imp fun hr => h.supplies hne (by omega) (h'.addable hk3 hhi hr)

theorem heapInit_region {mem : Memory} {base size : ℕ} (hend : base + size < 2 ^ 32) :
    (heapInit mem base size).regionLo % 8 = 0 ∧ (heapInit mem base size).regionLo < 2 ^ 32 ∧
      (heapInit mem base size).regionHi < 2 ^ 32 := by
  by_cases hbad : base = 0 ∨ size < hdr + minPayload
  · rw [heapInit, if_pos hbad]
    exact ⟨rfl, Nat.two_pow_pos 32, Nat.two_pow_pos 32⟩
  have hmin : hdr + minPayload = 24 := rfl
  have hup : alignUp base heapAlign = (base + 7) / 8 * 8 := alignUp_eight (by omega)
  have hlost : sub32 ((base + 7) / 8 * 8) base = (base + 7) / 8 * 8 - base :=
    sub32_eq (by omega) (by omega)
  rw [heapInit, if_neg hbad, hup]
  dsimp only
  rw [hlost, add32_eq (by omega)]
  by_cases hshort : size ≤ (base + 7) / 8 * 8 - base + (hdr + minPayload)
  · rw [if_pos hshort]
    exact ⟨rfl, Nat.two_pow_pos 32, Nat.two_pow_pos 32⟩
  · rw [if_neg hshort, sub32_eq (by omega) (by omega)]
    have husable : size - ((base + 7) / 8 * 8 - base) &&& alignMask heapAlign ≤
        size - ((base + 7) / 8 * 8 - base) := Nat.and_le_left
    simp only [Heap.setPrev, Heap.setNext, Heap.setSize, Heap.setUsed]
    omega

theorem heapAllocAligned_exact_small : Keeps (heapInit (fun _ => 0) 1024 256) (2 ^ 6) 40 := by
  obtain ⟨hlo8, hlo, hhi⟩ := @heapInit_region (fun _ => 0) 1024 256 (by decide)
  exact (heapAllocAligned_exact (by decide +kernel) hlo8 hlo hhi (by decide)).mpr
    (.inr (.inr (by decide +kernel)))

/-- The largest size the test admits: gap and request wrap, the one free block is cut in two and
NULL is returned. -/
theorem heapAllocAligned_wraps :
    let H := heapInit (fun _ => 0) 1024 256
    heapCheck H = true ∧ sizeIsSane (2 ^ 32 - 24) = true ∧
      (heapAllocAligned H (2 ^ 6) (2 ^ 32 - 24)).1 = 0 ∧
      heapCheck (heapAllocAligned H (2 ^ 6) (2 ^ 32 - 24)).2 = false ∧
      ¬ Keeps H (2 ^ 6) (2 ^ 32 - 24) := by
  have hbefore : heapCheck (heapInit (fun _ => 0) 1024 256) = true := by decide +kernel
  have hafter : heapCheck (heapAllocAligned (heapInit (fun _ => 0) 1024 256) (2 ^ 6)
      (2 ^ 32 - 24)).2 = false := by decide +kernel
  refine ⟨hbefore, by decide +kernel, by decide +kernel, hafter, ?_⟩
  rintro ⟨hkeep | hkeep, -⟩
  · rw [hkeep.2.2.2] at hafter
    cases hafter
  · rw [hkeep, hbefore] at hafter
    cases hafter

end ReflexOS.Kernel
