import ReflexOS.KernelHeapRealloc

set_option autoImplicit false

/-!
# The audit

A sound heap passes the structural check, and the heap is sound when it is set up.
-/
namespace ReflexOS.Kernel
open ByteMemory BlockList

/-- What the walk has seen when it stands behind these blocks. -/
def seen (lo : ℕ) (xs : List Block) : Audit :=
  ⟨true, freeBytes xs, spans hdr xs, lastHeader 0 lo xs, lastHeader 0 lo xs⟩

theorem Audited.auditFrom {H : Heap} {xs ys : List Block} (h : Audited H (xs ++ ys)) {fuel : ℕ}
    (hfuel : ys.length < fuel) :
    auditFrom H fuel (position H.regionLo xs ys) (seen H.regionLo xs) =
      seen H.regionLo (xs ++ ys) := by
  induction ys generalizing xs fuel with
  | nil =>
    obtain ⟨fuel, rfl⟩ := Nat.exists_eq_succ_of_ne_zero (by omega : fuel ≠ 0)
    rw [List.append_nil]
    exact if_pos (.inl rfl)
  | cons c ys ih =>
    obtain ⟨fuel, rfl⟩ := Nat.exists_eq_succ_of_ne_zero (by omega : fuel ≠ 0)
    have hassoc : Audited H ((xs ++ [c]) ++ ys) := by rwa [List.append_assoc]
    have hstep := ih hassoc (Nat.lt_of_succ_lt_succ hfuel)
    rw [← h.tiled.next_position, List.append_assoc, List.singleton_append] at hstep
    obtain ⟨a, ha⟩ : ∃ a, a = H.regionLo + spans hdr xs := ⟨_, rfl⟩
    have hpos : position H.regionLo xs (c :: ys) = a := (if_neg (List.cons_ne_nil _ _)).trans ha.symm
    have hlo := h.tiled.lo_pos
    have hhi := h.tiled.hi_le
    have hend := h.tiled.end_le ha
    have hhead := h.tiled.header ha
    have hcs := h.tiled.sizes c (by simp)
    have hfx : freeBytes xs ≤ spans hdr xs := freeBytes_le_spans
    rw [← hstep, hpos, Kernel.auditFrom, if_neg (by simp [seen]; omega), ← ha]
    congr 1
    have hprev : H.prev a = lastHeader 0 H.regionLo xs := hhead.prev
    have hsize : H.size a = c.size := hhead.size
    have hmask : c.size &&& (heapAlign - 1) = 0 := (Nat.and_two_pow_sub_one_eq_mod _ 3).trans hcs
    have hused : H.used a = c.used.toNat := hhead.used
    have hlink : (decide (H.next a = 0) || (decide (H.next a = payloadOf a + c.size) &&
        !(decide (c.used.toNat = 0) && decide (H.used (H.next a) = 0)))) = true := by
      cases ys with
      | nil =>
        rw [show H.next a = 0 from hhead.next]
        rfl
      | cons d ys =>
        rw [h.tiled.next_eq ha, Heap.used, (h.tiled.nextHeader ha).used]
        have hcd := (calm_append.mp h.calm).2.1
        unfold Calm at hcd
        rw [List.isChain_cons] at hcd
        have hpair := hcd.1 d rfl
        have hplace : a + (hdr + c.size) = payloadOf a + c.size := (Nat.add_assoc _ _ _).symm
        rw [decide_eq_true hplace]
        cases hcu : c.used
        · have hdu := hpair.resolve_left (by simp [hcu])
          rw [hdu]
          simp
        · simp
    have hfit : spans hdr xs + (hdr + c.size) < 2 ^ 32 := by omega
    have hbit : c.used.toNat ≤ 1 := Bool.toNat_le c.used
    simp only [seen, hprev, hsize, hmask, hused, hlink, Audit.mk.injEq, decide_true, Bool.and_true,
      decide_eq_true hbit, freeBytes_append, spans_append, lastHeader_concat,
      freeBytes_cons, spans_cons, spans_nil, Nat.add_zero, ← ha, and_true, true_and]
    rw [add32_eq (a := hdr) (by omega), add32_eq hfit]
    refine ⟨?_, rfl⟩
    cases c.used
    · rw [show false.toNat = 0 from rfl, if_pos rfl, if_neg (by decide), add32_eq (by omega)]
      rfl
    · rw [show true.toNat = 1 from rfl, if_neg (by decide), if_pos rfl]
      rfl

theorem Audited.heapCheck {H : Heap} {bs : List Block} (h : Audited H bs) (hne : bs ≠ []) :
    heapCheck H = true := by
  have hwalk := Audited.auditFrom (show Audited H ([] ++ bs) from h) h.tiled.length_lt
  rw [List.nil_append, ← h.first_position hne] at hwalk
  have hstart : (⟨H.ready && decide (H.first = H.regionLo), 0, 0, 0, 0⟩ : Audit) =
      seen H.regionLo [] := by
    rw [h.ready, decide_eq_true h.first]
    rfl
  have hlo := h.tiled.lo_pos
  have hhi := h.tiled.hi_le
  have htile := h.tiled.tile
  unfold Kernel.heapCheck
  rw [hstart, hwalk]
  obtain ⟨xs, b, rfl⟩ := (List.eq_nil_or_concat' bs).resolve_left hne
  have hsize : H.size (H.regionLo + spans hdr xs) = b.size := (h.tiled.header rfl).size
  simp only [seen, lastHeader_concat, hsize]
  have hspan : spans hdr (xs ++ [b]) = sub32 H.regionHi H.regionLo := by
    unfold sub32
    omega
  have hlast : payloadOf (H.regionLo + spans hdr xs) + b.size = H.regionHi := by
    simp only [spans_append, spans_cons, spans_nil, Nat.add_zero] at htile
    simp only [payloadOf]
    omega
  rw [h.counted, ← hspan, decide_eq_true hlast]
  simp

theorem Sound.heapCheck {H : Heap} {bs : List Block} (h : Sound H bs) (hne : bs ≠ []) :
    heapCheck H = true := h.audited.heapCheck hne

/-- The blocks a walk finds. -/
def blocksFrom (H : Heap) : ℕ → ℕ → List Block
  | 0, _ => []
  | fuel + 1, b =>
    if b = 0 then []
    else ⟨H.size b, decide (H.used b ≠ 0)⟩ :: blocksFrom H fuel (H.next b)

/-- The blocks of the region. -/
def blocks (H : Heap) : List Block := blocksFrom H H.regionHi H.first

theorem Audited.blocksFrom_eq {H : Heap} {xs ys : List Block} (h : Audited H (xs ++ ys)) {fuel : ℕ}
    (hfuel : ys.length < fuel) : blocksFrom H fuel (position H.regionLo xs ys) = ys := by
  induction ys generalizing xs fuel with
  | nil =>
    obtain ⟨fuel, rfl⟩ := Nat.exists_eq_succ_of_ne_zero (by omega : fuel ≠ 0)
    exact if_pos rfl
  | cons c ys ih =>
    obtain ⟨fuel, rfl⟩ := Nat.exists_eq_succ_of_ne_zero (by omega : fuel ≠ 0)
    have hassoc : Audited H ((xs ++ [c]) ++ ys) := by rwa [List.append_assoc]
    have hstep := ih hassoc (Nat.lt_of_succ_lt_succ hfuel)
    rw [← h.tiled.next_position] at hstep
    have hlo := h.tiled.lo_pos
    have hpos : position H.regionLo xs (c :: ys) = H.regionLo + spans hdr xs :=
      if_neg (List.cons_ne_nil _ _)
    have hhead := h.tiled.header rfl
    have hsize : H.size (H.regionLo + spans hdr xs) = c.size := hhead.size
    have hused : decide (H.used (H.regionLo + spans hdr xs) ≠ 0) = c.used := by
      rw [Heap.used, hhead.used]
      cases c.used <;> rfl
    rw [hpos, blocksFrom, if_neg (by omega), hstep, hsize, hused]

theorem Audited.blocks_eq {H : Heap} {bs : List Block} (h : Audited H bs) (hne : bs ≠ []) :
    blocks H = bs := by
  rw [blocks, h.first_position hne]
  exact Audited.blocksFrom_eq (show Audited H ([] ++ bs) from h) h.tiled.length_lt

/-- Where the walk has been when it finds nothing wrong: it `stop`s at the end of the list or when
the fuel is gone. -/
structure Walked (H : Heap) (prev b fuel stop : ℕ) (bs : List Block) : Prop where
  chain : Chain H.mem prev b bs stop
  sizes : ∀ c ∈ bs, c.size % 8 = 0
  calm : Calm bs
  stopped : stop = 0 ∨ bs.length = fuel
  stay : bs = [] → stop = b
  start : bs ≠ [] → b ≠ 0

theorem auditFrom_failed {H : Heap} {fuel b : ℕ} {A : Audit} (hA : A.ok = false) :
    Kernel.auditFrom H fuel b A = A := by
  cases fuel with
  | zero => rfl
  | succ fuel => exact if_pos (.inr hA)

theorem Walked.nil {H : Heap} {prev b fuel : ℕ} (h : b = 0 ∨ fuel = 0) :
    Walked H prev b fuel b [] :=
  ⟨trivial, by simp, List.IsChain.nil, h.imp id Eq.symm, fun _ => rfl, fun hne => absurd rfl hne⟩

theorem Walked.cons {H : Heap} {prev b fuel stop : ℕ} {bs : List Block}
    (h : Walked H b (H.next b) fuel stop bs) (hb : b ≠ 0) (hprev : H.prev b = prev)
    (hsize : H.size b % 8 = 0) (hused : H.used b ≤ 1)
    (hlink : H.next b = 0 ∨ H.next b = payloadOf b + H.size b ∧
      ¬ (H.used b = 0 ∧ H.used (H.next b) = 0)) :
    Walked H prev b (fuel + 1) stop (⟨H.size b, decide (H.used b ≠ 0)⟩ :: bs) := by
  have hmark : H.used b = (decide (H.used b ≠ 0)).toNat := by
    obtain h0 | h1 : H.used b = 0 ∨ H.used b = 1 := by omega
    · rw [h0]
      rfl
    · rw [h1]
      rfl
  have hnext : bs ≠ [] → H.next b = b + (hdr + H.size b) ∧
      ¬ (H.used b = 0 ∧ H.used (H.next b) = 0) := by
    intro hne
    obtain ⟨hl, hl'⟩ := hlink.resolve_left (h.start hne)
    exact ⟨hl.trans (Nat.add_assoc _ _ _), hl'⟩
  refine ⟨⟨⟨hprev, ?_, rfl, hmark⟩, ?_⟩, ?_, ?_, ?_, by simp, fun _ => hb⟩
  · by_cases hne : bs = []
    · rw [if_pos hne]
      exact (h.stay hne).symm
    · rw [if_neg hne]
      exact (hnext hne).1
  · by_cases hne : bs = []
    · rw [hne]
      trivial
    · have hchain := h.chain
      rwa [(hnext hne).1] at hchain
  · intro c hc
    rcases List.mem_cons.mp hc with rfl | hc
    · exact hsize
    · exact h.sizes c hc
  · refine List.isChain_cons.mpr ⟨fun c hc => ?_, h.calm⟩
    obtain ⟨cs, rfl⟩ : ∃ cs, bs = c :: cs := by
      cases bs with
      | nil => cases hc
      | cons d ds =>
        cases hc
        exact ⟨ds, rfl⟩
    obtain ⟨-, hfree⟩ := hnext (List.cons_ne_nil _ _)
    have hcu : H.used (H.next b) = c.used.toNat := h.chain.1.used
    by_cases h0 : H.used b = 0
    · refine .inr ?_
      cases hu : c.used with
      | true => rfl
      | false =>
        rw [hu] at hcu
        exact absurd ⟨h0, hcu⟩ hfree
    · exact .inl (decide_eq_true h0)
  · rcases h.stopped with hs | hs
    · exact .inl hs
    · exact .inr (congrArg Nat.succ hs)

/-- A walk that ends without a complaint has found what it was looking for. -/
theorem auditFrom_walked {H : Heap} {fuel b : ℕ} {A : Audit} (hA : A.ok = true)
    (hlast : A.last = A.prev) (hseen : A.freeSeen < 2 ^ 32)
    (hok : (Kernel.auditFrom H fuel b A).ok = true) : ∃ stop bs, Walked H A.prev b fuel stop bs ∧
      (Kernel.auditFrom H fuel b A).last = lastHeader A.prev b bs ∧
      (Kernel.auditFrom H fuel b A).freeSeen = (A.freeSeen + freeBytes bs) % 2 ^ 32 := by
  induction fuel generalizing b A with
  | zero => exact ⟨b, [], .nil (.inr rfl), hlast, (Nat.mod_eq_of_lt hseen).symm⟩
  | succ fuel ih =>
    by_cases hb : b = 0
    · have hrun : Kernel.auditFrom H (fuel + 1) b A = A := if_pos (.inl hb)
      rw [hrun]
      exact ⟨b, [], .nil (.inl hb), hlast, (Nat.mod_eq_of_lt hseen).symm⟩
    rw [Kernel.auditFrom, if_neg (by simp [hb, hA])] at hok ⊢
    generalize hA' : Audit.mk _ _ _ _ _ = A' at hok ⊢
    have hok' : A'.ok = true := by
      by_contra hno
      rw [auditFrom_failed (by simpa using hno)] at hok
      exact hno hok
    have hfields := hok'
    rw [← hA'] at hfields
    simp only [Bool.and_eq_true, Bool.or_eq_true, decide_eq_true_eq, Bool.not_eq_true',
      Bool.and_eq_false_iff, decide_eq_false_iff_not] at hfields
    obtain ⟨⟨⟨hprev, hmask⟩, hused⟩, hlink⟩ := hfields
    have hsize : H.size b % 8 = 0 := (Nat.and_two_pow_sub_one_eq_mod _ 3).symm.trans hmask
    have hprev' : A'.prev = b := by rw [← hA']
    have hlast' : A'.last = A'.prev := by rw [← hA']
    have hseen' : A'.freeSeen =
        (A.freeSeen + if decide (H.used b ≠ 0) = true then 0 else H.size b) % 2 ^ 32 := by
      rw [← hA']
      by_cases h0 : H.used b = 0
      · simp only [h0, if_true, add32, ne_eq, not_true_eq_false, decide_false, Bool.false_eq_true,
          if_false]
      · simp only [h0, if_false, ne_eq, not_false_eq_true, decide_true, if_true, Nat.add_zero,
          Nat.mod_eq_of_lt hseen]
    obtain ⟨stop, bs, hw, hl, hf⟩ := ih hok' hlast' (by
      rw [hseen']
      exact Nat.mod_lt _ (by decide)) hok
    rw [hprev'] at hw hl
    have hlink' : H.next b = 0 ∨ H.next b = payloadOf b + H.size b ∧
        ¬ (H.used b = 0 ∧ H.used (H.next b) = 0) := by omega
    refine ⟨stop, _, hw.cons hb hprev hsize hused hlink', ?_, ?_⟩
    · by_cases hne : bs = []
      · rw [hl, hne]
        rfl
      · have hnext := (hlink'.resolve_left (hw.start hne)).1
        rw [hl, lastHeader, hnext, payloadOf, Nat.add_assoc]
    · rw [hf, hseen', freeBytes_cons, Nat.mod_add_mod, Nat.add_assoc]

theorem start_of_heapCheck {H : Heap} (hcheck : heapCheck H = true) :
    H.ready = true ∧ H.first = H.regionLo := by
  unfold Kernel.heapCheck at hcheck
  simp only [Bool.and_eq_true] at hcheck
  have hok := hcheck.1.1.1
  have hstart : (H.ready && decide (H.first = H.regionLo)) = true := by
    by_contra hno
    rw [auditFrom_failed (by simpa using hno)] at hok
    exact hno hok
  simpa using hstart

/-- What the check accepts is a chain of blocks over the whole region. -/
theorem audited_of_heapCheck {H : Heap} (hcheck : heapCheck H = true)
    (hlo : 0 < H.regionLo ∧ H.regionLo < 2 ^ 32) (hlo8 : H.regionLo % 8 = 0)
    (hhi : H.regionHi ≤ 2 ^ 32) : ∃ bs, bs ≠ [] ∧ Audited H bs := by
  obtain ⟨hready, hfirst⟩ := start_of_heapCheck hcheck
  unfold Kernel.heapCheck at hcheck
  simp only [Bool.and_eq_true, Bool.or_eq_true, decide_eq_true_eq] at hcheck
  obtain ⟨⟨⟨hok, hseen⟩, hend⟩, hspan⟩ := hcheck
  have hstart : (H.ready && decide (H.first = H.regionLo)) = true := by
    rw [hready, decide_eq_true hfirst]
    rfl
  obtain ⟨stop, bs, hw, hlast, hfree⟩ := auditFrom_walked hstart rfl (Nat.two_pow_pos 32) hok
  rw [hfree, Nat.zero_add] at hseen
  rw [hlast] at hend
  have hne : bs ≠ [] := by
    rintro rfl
    have h0 : H.regionHi = 0 := by
      rcases hw.stopped with hs | hs
      · rw [hw.stay rfl, hfirst] at hs
        omega
      · exact hs.symm
    rw [h0] at hspan
    have hgap : 0 = sub32 0 H.regionLo := hspan
    unfold sub32 at hgap
    omega
  obtain ⟨xs, b, rfl⟩ := (List.eq_nil_or_concat' bs).resolve_left hne
  have hhead := (chain_focus.mp hw.chain).2.1
  rw [lastHeader_concat, hfirst] at hend
  rw [hfirst] at hhead
  have hsize : H.size (H.regionLo + spans hdr xs) = b.size := hhead.size
  have htile : H.regionLo + spans hdr (xs ++ [b]) = H.regionHi := by
    rw [← hend.resolve_left (by omega), hsize, spans_append, spans_cons, spans_nil, payloadOf]
    omega
  have hlen : (xs ++ [b]).length ≤ spans hdr (xs ++ [b]) := length_le_spans
  have hstop : stop = 0 := hw.stopped.resolve_right (by omega)
  have hchain := hw.chain
  rw [hstop, hfirst] at hchain
  have ht : Tiled H.mem H.regionLo H.regionHi (xs ++ [b]) :=
    ⟨hchain, htile, hw.sizes, hlo.1, hhi⟩
  refine ⟨_, hne, hready, hfirst, hlo8, ht, hw.calm, ?_⟩
  rw [← hseen, Nat.mod_eq_of_lt ht.freeBytes_lt]

theorem heapInit_sound {mem : Memory} {base size : ℕ} (hend : base + size ≤ 2 ^ 32)
    (hsize : size < 2 ^ 31) (hready : (heapInit mem base size).ready = true) :
    ∃ n, Sound (heapInit mem base size) [⟨n, false⟩] ∧ (heapInit mem base size).total = n := by
  by_cases hbad : base = 0 ∨ size < hdr + minPayload
  · rw [heapInit, if_pos hbad] at hready
    cases hready
  have hmin : hdr + minPayload ≤ size := Nat.le_of_not_lt fun hs => hbad (.inr hs)
  have hb0 : base ≠ 0 := fun hb => hbad (.inl hb)
  obtain ⟨start, hstart⟩ : ∃ s, s = alignUp base heapAlign := ⟨_, rfl⟩
  have hmin' : hdr + minPayload = 24 := rfl
  have hup : start = (base + 7) / 8 * 8 := hstart.trans (alignUp_eight (by omega))
  have hlost : sub32 start base = start - base := sub32_eq (by omega) (by omega)
  by_cases hbad' : size ≤ add32 (start - base) (hdr + minPayload)
  · rw [heapInit, if_neg hbad, ← hstart] at hready
    dsimp only at hready
    rw [hlost, if_pos hbad'] at hready
    cases hready
  have hroom : start - base + 24 < size := by
    rw [hmin', add32_eq (by omega)] at hbad'
    omega
  obtain ⟨usable, husable⟩ : ∃ u, u = sub32 size (start - base) &&& alignMask heapAlign := ⟨_, rfl⟩
  have hus : usable = size - (start - base) - (size - (start - base)) % 8 := by
    rw [husable, sub32_eq (by omega) (by omega)]
    exact and_alignMask (k := 3) (by omega) (by decide)
  obtain ⟨n, hn⟩ : ∃ n, n = usable - hdr := ⟨_, rfl⟩
  have hhdr : hdr = 16 := rfl
  have hsub : sub32 usable hdr = n := (sub32_eq (by omega) (by omega)).trans hn.symm
  obtain ⟨m', hm'⟩ : ∃ m', m' =
      store32 (store32 (store32 (store32 mem start 0) (start + 4) 0) (start + 8) n) (start + 12) 0 :=
    ⟨_, rfl⟩
  have hsz : load32 m' (start + 8) = n := by
    rw [hm', load32_store32_other (by omega), load32_store32 (by omega)]
  have hrun : heapInit mem base size = ⟨m', start, start + usable, start, n, n, n, true⟩ := by
    rw [heapInit, if_neg hbad, ← hstart]
    dsimp only
    rw [hlost, if_neg hbad', ← husable, hsub]
    simp only [Heap.setPrev, Heap.setNext, Heap.setSize, Heap.setUsed, Heap.size, ← hm', hsz]
  have hhead : Header m' start 0 0 ⟨n, false⟩ := by
    refine ⟨?_, ?_, hsz, ?_⟩
    · rw [hm', load32_store32_other (by omega), load32_store32_other (by omega),
        load32_store32_other (by omega), load32_store32 (by decide)]
    · rw [hm', load32_store32_other (by omega), load32_store32_other (by omega),
        load32_store32 (by decide)]
    · rw [hm', load32_store32 (by decide)]
      rfl
  rw [hrun]
  refine ⟨n, ⟨rfl, rfl, ?_, ?_, ⟨⟨hhead, trivial⟩, ?_, ?_, ?_, ?_⟩, List.IsChain.singleton _, ?_,
    le_refl _⟩, rfl⟩
  · dsimp only
    omega
  · dsimp only
    omega
  · simp only [spans_cons, spans_nil]
    omega
  · intro b hb
    rw [List.mem_singleton] at hb
    subst hb
    dsimp only
    omega
  · dsimp only
    omega
  · dsimp only
    omega
  · simp [freeBytes]

end ReflexOS.Kernel
