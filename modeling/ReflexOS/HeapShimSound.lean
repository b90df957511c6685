import ReflexOS.HeapShimRuns

set_option autoImplicit false

/-!
# Two sound heaps

What holds of both heaps between any two primitives: who issued a block decides where it lies,
and blocks that are out share no byte.
-/
namespace ReflexOS.HeapShim
open ByteMemory BlockList Kernel Threads

theorem heapInit_aligned {mem : Memory} {base size : ℕ} (hpos : 0 < base) (h8 : base % 8 = 0)
    (hs8 : size % 8 = 0) (hbig : 24 < size) (hend : base + size < 2 ^ 32) :
    (heapInit mem base size).ready = true ∧ (heapInit mem base size).regionLo = base ∧
      (heapInit mem base size).regionHi = base + size ∧
      ∀ x, x < base ∨ base + 16 ≤ x → (heapInit mem base size).mem x = mem x := by
  have hmin : hdr + minPayload = 24 := rfl
  have hup : alignUp base heapAlign = base := (alignUp_eight (by omega)).trans (by omega)
  have hlost : sub32 base base = 0 := (sub32_eq (by omega) (le_refl _)).trans (Nat.sub_self _)
  have hroom : add32 0 (hdr + minPayload) = 24 := add32_eq (by omega)
  have hsize : sub32 size 0 = size := sub32_eq (by omega) (Nat.zero_le _)
  have husable : size &&& alignMask heapAlign = size :=
    (and_alignMask (k := 3) (by omega) (by decide)).trans (by omega)
  rw [heapInit, if_neg (by omega), hup]
  dsimp only
  rw [hlost, hroom, if_neg (by omega), hsize, husable]
  refine ⟨rfl, rfl, rfl, fun x hx => ?_⟩
  simp only [Heap.setPrev, Heap.setNext, Heap.setSize, Heap.setUsed]
  rw [store32_other (by omega), store32_other (by omega), store32_other (by omega),
    store32_other (by omega)]

/-- The blocks issued are in use where they are, Reflex's in its region and ESP-IDF's elsewhere. -/
structure Heaps.Sound (base : ℕ) (H : Heaps) : Prop where
  ours : (H.callers.heap.ready = false ∧ ∀ p, H.callers.live p = none) ∨
    ∃ bs, H.callers.Tracked bs ∧ H.callers.heap.regionLo = base ∧
      H.callers.heap.regionHi = base + regionBytes
  place : ∀ p n, H.theirs p = some n →
    p ≠ 0 ∧ ¬ InRegion base p ∧ ∀ x, p ≤ x → x < p + n → ¬ InRegion base x
  apart : ∀ p n q m, H.theirs p = some n → H.theirs q = some m → p ≠ q →
    ∀ x, p ≤ x → x < p + n → ¬ (q ≤ x ∧ x < q + m)

section Sound
variable {base : ℕ} {H : Heaps} (h : H.Sound base)
include h

theorem Heaps.Sound.tracked (hready : H.callers.heap.ready = true) :
    ∃ bs, H.callers.Tracked bs ∧ H.callers.heap.regionLo = base ∧
      H.callers.heap.regionHi = base + regionBytes := by
  rcases h.ours with ⟨hoff, -⟩ | hon
  · rw [hready] at hoff
    cases hoff
  · exact hon

/-- A block of Reflex's lies in the region, behind the payload in use that serves it. -/
theorem Heaps.Sound.held {p : ℕ} {q : HeapRequest} (hp : H.callers.live p = some q) :
    ∃ bs n, H.callers.Tracked bs ∧ H.callers.heap.regionLo = base ∧
      H.callers.heap.regionHi = base + regionBytes ∧ (p, n) ∈ held hdr base bs ∧ q.size ≤ n ∧
      base < p ∧ p < base + regionBytes ∧ p + n ≤ base + regionBytes := by
  rcases h.ours with ⟨-, hnone⟩ | ⟨bs, ht, hlo, hhi⟩
  · rw [hnone] at hp
    cases hp
  obtain ⟨n, hn⟩ := (ht.live_iff p).mp (show H.callers.live p ≠ none by simp [hp])
  have hserved := ht.served p q n hp hn
  have htile := ht.sound.laid.tile
  have hbounds := held_bounds hn
  obtain ⟨xs, b, ys, rfl, -, -, rfl⟩ := exists_of_held hn
  have hb := (ht.sound.laid.sizes b (by simp)).2
  rw [hlo, hhi] at htile
  rw [hlo] at hn hbounds
  simp only [hdr] at hbounds htile hn
  exact ⟨_, _, ht, hlo, hhi, hn, hserved.1, by omega, by omega, by omega⟩

theorem Heaps.Sound.live_none {p n : ℕ} (hp : H.theirs p = some n) : H.callers.live p = none := by
  cases hlive : H.callers.live p with
  | none => rfl
  | some q =>
    obtain ⟨-, -, -, -, -, -, -, hlo, hhi, -⟩ := h.held hlive
    exact absurd ⟨hlo.le, hhi⟩ (h.place p n hp).2.1

end Sound

theorem Heaps.issued_reflex {H : Heaps} {p n : ℕ} :
    H.issued p = some ⟨.reflex, n⟩ ↔ ∃ q, H.callers.live p = some q ∧ q.size = n := by
  unfold Heaps.issued
  cases H.callers.live p with
  | none => simp
  | some q => simp

theorem Heaps.Sound.le_blockSize {base : ℕ} {H : Heaps} (h : H.Sound base) {p k : ℕ}
    (hp : H.issued p = some ⟨.reflex, k⟩) : k ≤ heapBlockSize H.callers.heap p := by
  obtain ⟨q, hq, rfl⟩ := Heaps.issued_reflex.mp hp
  obtain ⟨bs, n, ht, hlo, -, hn, hle, -⟩ := h.held hq
  rwa [ht.block_size (hlo ▸ hn)]

theorem Heaps.Sound.issued_espIdf {base : ℕ} {H : Heaps} (h : H.Sound base) {p n : ℕ} :
    H.issued p = some ⟨.espIdf, n⟩ ↔ H.theirs p = some n := by
  have hnone := @Heaps.Sound.live_none base H h p
  unfold Heaps.issued
  cases hlive : H.callers.live p with
  | none => simp
  | some q =>
    refine iff_of_false (by simp) fun hp => ?_
    rw [hnone hp] at hlive
    cases hlive

section Issued
variable {base : ℕ} {H : Heaps} (h : H.Sound base) {p : ℕ} {b : Issue} (hp : H.issued p = some b)
include h hp

/-- Who has issued a block, and where it lies. -/
theorem Heaps.Sound.cases :
    (b.issuer = .reflex ∧ ∃ q, H.callers.live p = some q ∧ q.size = b.size) ∨
      (b.issuer = .espIdf ∧ H.theirs p = some b.size) := by
  obtain ⟨who, n⟩ := b
  cases who with
  | reflex => exact .inl ⟨rfl, Heaps.issued_reflex.mp hp⟩
  | espIdf => exact .inr ⟨rfl, h.issued_espIdf.mp hp⟩

/-- The range check tells the two heaps apart. -/
theorem Heaps.Sound.owns_iff : heapOwns H.callers.heap p = true ↔ b.issuer = .reflex := by
  unfold heapOwns
  rcases h.cases hp with ⟨hwho, q, hq, -⟩ | ⟨hwho, htheirs⟩
  · obtain ⟨bs, n, ht, hlo, hhi, -, -, hlt, hend, -⟩ := h.held hq
    rw [hlo, hhi, ht.sound.ready]
    simp [hwho, hlt.le, hend]
  · refine iff_of_false (fun howns => ?_) (by simp [hwho])
    simp only [Bool.and_eq_true, decide_eq_true_eq] at howns
    obtain ⟨bs, -, hlo, hhi⟩ := h.tracked howns.1.1
    exact (h.place p b.size htheirs).2.1 ⟨hlo ▸ howns.1.2, hhi ▸ howns.2⟩

theorem Heaps.Sound.issued_ne : p ≠ 0 := by
  rcases h.cases hp with ⟨-, q, hq, -⟩ | ⟨-, htheirs⟩
  · obtain ⟨-, -, -, -, -, -, -, hlt, -⟩ := h.held hq
    omega
  · exact (h.place p b.size htheirs).1

theorem Heaps.Sound.ready_of_reflex (hwho : b.issuer = .reflex) : H.callers.heap.ready = true := by
  have howns := (h.owns_iff hp).mpr hwho
  simp only [heapOwns, Bool.and_eq_true] at howns
  exact howns.1.1

theorem Heaps.Sound.disjoint {q : ℕ} {c : Issue} (hq : H.issued q = some c) (hne : p ≠ q) {x : ℕ}
    (hlo : p ≤ x) (hhi : x < p + b.size) : ¬ (q ≤ x ∧ x < q + c.size) := by
  rcases h.cases hp with ⟨-, a, ha, hsize⟩ | ⟨-, htheirs⟩ <;>
    rcases h.cases hq with ⟨-, a', ha', hsize'⟩ | ⟨-, htheirs'⟩
  · obtain ⟨bs, n, ht, hbase, -, hn, hle, -⟩ := h.held ha
    obtain ⟨m, hm⟩ := (ht.live_iff q).mp (show H.callers.live q ≠ none by simp [ha'])
    have hle' := (ht.served q a' m ha' hm).1
    rw [hbase] at hm
    have := held_apart (by decide) hn hm
    omega
  · obtain ⟨-, n, -, -, -, -, hle, hlt, -, hend⟩ := h.held ha
    rintro ⟨hqlo, hqhi⟩
    exact (h.place q _ htheirs').2.2 x hqlo hqhi ⟨by omega, by omega⟩
  · obtain ⟨-, n, -, -, -, -, hle, hlt, -, hend⟩ := h.held ha'
    rintro ⟨hqlo, hqhi⟩
    exact (h.place p _ htheirs).2.2 x hlo hhi ⟨by omega, by omega⟩
  · exact h.apart p _ q _ htheirs htheirs' hne x hlo hhi

end Issued

end ReflexOS.HeapShim
