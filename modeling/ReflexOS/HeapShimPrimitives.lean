import ReflexOS.HeapShimSound

set_option autoImplicit false

/-!
# What the primitives keep

Each allocator, asked about blocks of its own, keeps both heaps sound and leaves every block that
it does not name as it was.
-/
namespace ReflexOS.HeapShim
open ByteMemory BlockList Kernel Threads

/-- A block is out as it was, with the same bytes. -/
structure Heaps.Stays (H H' : Heaps) (p : ℕ) : Prop where
  issued : H'.issued p = H.issued p
  bytes : ∀ b, H.issued p = some b → ∀ i < b.size, H'.mem (p + i) = H.mem (p + i)

theorem Heaps.Stays.refl (H : Heaps) (p : ℕ) : H.Stays H p := ⟨rfl, fun _ _ _ _ => rfl⟩

theorem Heaps.Stays.trans {H H' H'' : Heaps} {p : ℕ} (h : H.Stays H' p) (h' : H'.Stays H'' p) :
    H.Stays H'' p :=
  ⟨h'.issued.trans h.issued, fun b hb i hi =>
    (h'.bytes b (h.issued.trans hb) i hi).trans (h.bytes b hb i hi)⟩

/-- What a heap's answer to a request means for the blocks that are out. -/
inductive Answered (who : Issuer) (H H' : Heaps) : Request → ℕ → Prop where
  | refused {n : ℕ} : Answered who H H' (.alloc n) 0
  | granted {n p : ℕ} (ne : p ≠ 0) (fresh : H.issued p = none)
      (issued : H'.issued p = some ⟨who, n⟩) : Answered who H H' (.alloc n) p
  | unresized {p n : ℕ} (pos : n ≠ 0) (stays : H.Stays H' p) : Answered who H H' (.resize p n) 0
  | resized {p n q : ℕ} (pos : n ≠ 0) (ne : q ≠ 0) (issued : H'.issued q = some ⟨who, n⟩)
      (moved : q = p ∨ H.issued q = none ∧ H'.issued p = none)
      (copied : ∀ b, H.issued p = some b → ∀ i < b.size, i < n → H'.mem (q + i) = H.mem (p + i)) :
      Answered who H H' (.resize p n) q
  | dropped {p : ℕ} (gone : H'.issued p = none) : Answered who H H' (.resize p 0) 0
  | released {p : ℕ} (gone : H'.issued p = none) : Answered who H H' (.release p) 0

/-- Both heaps are sound, and the blocks that are not resized or released stay. -/
structure Kept (base : ℕ) (H H' : Heaps) (target : Option ℕ) : Prop where
  sound : H'.Sound base
  ready : H.callers.heap.ready = true → H'.callers.heap.ready = true
  stays : ∀ p, H.issued p ≠ none → target ≠ some p → H.Stays H' p

theorem Heaps.issued_update {H : Heaps} {p q : ℕ} {k : Option ℕ} (hne : q ≠ p) :
    (H.setTheirs (Function.update H.theirs p k)).issued q = H.issued q := by
  simp only [Heaps.issued, Heaps.setTheirs, Function.update_of_ne hne]

section Theirs
variable {base : ℕ} {H : Heaps} (h : H.Sound base)
include h

theorem Heaps.Sound.in_region {p : ℕ} {q : HeapRequest} (hp : H.callers.live p = some q) :
    InRegion base p := by
  obtain ⟨-, -, -, -, -, -, -, hlo, hhi, -⟩ := h.held hp
  exact ⟨hlo.le, hhi⟩

theorem Heaps.Sound.live_outside {p : ℕ} (hp : ¬ InRegion base p) : H.callers.live p = none := by
  cases hlive : H.callers.live p with
  | none => rfl
  | some q => exact absurd (h.in_region hlive) hp

theorem Heaps.Sound.theirs_none {p : ℕ} (hp : InRegion base p) : H.theirs p = none := by
  cases htheirs : H.theirs p with
  | none => rfl
  | some n => exact absurd hp (h.place p n htheirs).2.1

/-- What an allocator writes into memory that is not in use. -/
theorem Heaps.Sound.keeps {m : Memory} (hk : Keeps base H.theirs H.mem m) :
    Kept base H (H.setMem m) none := by
  refine ⟨⟨?_, h.place, h.apart⟩, id, fun p hp _ => ⟨rfl, fun b hb i hi => ?_⟩⟩
  · rcases h.ours with hoff | ⟨bs, ht, hlo, hhi⟩
    · exact .inl hoff
    · refine .inr ⟨bs, ht.rewrite fun x hxlo hxhi _ => hk x (.inl ⟨?_, ?_⟩), hlo, hhi⟩ <;> omega
  · rcases h.cases hb with ⟨-, q, hq, hsize⟩ | ⟨-, htheirs⟩
    · obtain ⟨-, n, -, -, -, -, hle, hlo, -, hend⟩ := h.held hq
      exact hk _ (.inl ⟨by omega, by omega⟩)
    · exact hk _ (.inr ⟨p, b.size, htheirs, by omega, by omega⟩)

theorem Heaps.Sound.dropTheirs {p k : ℕ} (hp : H.theirs p = some k) :
    Kept base H (H.setTheirs (Function.update H.theirs p none)) (some p) ∧
      (H.setTheirs (Function.update H.theirs p none)).issued p = none := by
  have hold : ∀ q n, Function.update H.theirs p none q = some n → H.theirs q = some n := by
    intro q n hq
    by_cases hqp : q = p
    · subst hqp
      rw [Function.update_self] at hq
      cases hq
    · rwa [Function.update_of_ne hqp] at hq
  refine ⟨⟨⟨h.ours, fun q n hq => h.place q n (hold q n hq), fun q n r m hq hr =>
    h.apart q n r m (hold q n hq) (hold r m hr)⟩, id, fun q _ hne => ?_⟩, ?_⟩
  · exact ⟨Heaps.issued_update fun hqp => hne (congrArg some hqp.symm), fun _ _ _ _ => rfl⟩
  · simp [Heaps.issued, Heaps.setTheirs, h.live_none hp]

theorem Heaps.Sound.grantTheirs {p n : ℕ} {m : Memory} (hg : Grants base H.theirs n p)
    (hk : Keeps base H.theirs H.mem m) :
    Kept base H ((H.setMem m).setTheirs (Function.update H.theirs p (some n))) none ∧
      H.issued p = none ∧
      ((H.setMem m).setTheirs (Function.update H.theirs p (some n))).issued p =
        some ⟨.espIdf, n⟩ := by
  have hm := h.keeps hk
  have hlive := h.live_outside hg.place
  have hnone : H.issued p = none := by simp [Heaps.issued, hlive, hg.fresh]
  have hcases : ∀ q k, Function.update H.theirs p (some n) q = some k →
      q = p ∧ k = n ∨ q ≠ p ∧ H.theirs q = some k := by
    intro q k hq
    by_cases hqp : q = p
    · subst hqp
      rw [Function.update_self, Option.some.injEq] at hq
      exact .inl ⟨rfl, hq.symm⟩
    · rw [Function.update_of_ne hqp] at hq
      exact .inr ⟨hqp, hq⟩
  refine ⟨⟨⟨hm.sound.ours, fun q k hq => ?_, fun q k r j hq hr hne x hlo hhi => ?_⟩, id,
    fun q hq _ => ?_⟩, hnone, ?_⟩
  · rcases hcases q k hq with ⟨rfl, rfl⟩ | ⟨-, hq⟩
    · exact ⟨hg.ne, hg.place, hg.outside⟩
    · exact h.place q k hq
  · rcases hcases q k hq with ⟨rfl, rfl⟩ | ⟨-, hq'⟩ <;>
      rcases hcases r j hr with ⟨rfl, rfl⟩ | ⟨-, hr'⟩
    · exact absurd rfl hne
    · exact hg.apart r j hr' x hlo hhi
    · exact fun hx => hg.apart q k hq' x hx.1 hx.2 ⟨hlo, hhi⟩
    · exact h.apart q k r j hq' hr' hne x hlo hhi
  · have hne : q ≠ p := by
      rintro rfl
      exact hq hnone
    exact (hm.stays q hq (by simp)).trans ⟨Heaps.issued_update hne, fun _ _ _ _ => rfl⟩
  · simp [Heaps.issued, Heaps.setTheirs, Heaps.setMem, hlive]

end Theirs

theorem Kept.trans {base : ℕ} {H H' H'' : Heaps} {target : Option ℕ} (h : Kept base H H' target)
    (h' : Kept base H' H'' none) : Kept base H H'' target := by
  refine ⟨h'.sound, fun hready => h'.ready (h.ready hready), fun p hp hne => ?_⟩
  have hstay := h.stays p hp hne
  exact hstay.trans (h'.stays p (hstay.issued ▸ hp) (by simp))

/-- ESP-IDF's heap, asked about blocks of its own only. -/
theorem Heaps.Sound.answers {base : ℕ} {H H' : Heaps} (h : H.Sound base) {c : Request} {r : ℕ}
    (hown : ∀ p, c.pointer = some p → ∃ n, H.issued p = some ⟨.espIdf, n⟩)
    (ha : Answers base H c r H') : Kept base H H' c.pointer ∧ Answered .espIdf H H' c r := by
  cases ha with
  | refused keeps => exact ⟨h.keeps keeps, .refused⟩
  | granted grants keeps =>
    obtain ⟨hkept, hnone, hnew⟩ := h.grantTheirs grants keeps
    exact ⟨hkept, .granted grants.ne hnone hnew⟩
  | unresized owns pos keeps =>
    have hkept := h.keeps keeps
    refine ⟨⟨hkept.sound, hkept.ready, fun p hp _ => hkept.stays p hp (by simp)⟩,
      .unresized pos (hkept.stays _ ?_ (by simp))⟩
    rw [h.issued_espIdf.mpr owns]
    simp
  | @resized p n k _ m owns pos grants keeps copied =>
    obtain ⟨hdrop, hgone⟩ := h.dropTheirs owns
    obtain ⟨hgrant, hnone, hnew⟩ := hdrop.sound.grantTheirs grants keeps
    refine ⟨hdrop.trans hgrant, .resized pos grants.ne hnew ?_ fun b hb i hi hin => ?_⟩
    · by_cases hrp : r = p
      · exact .inl hrp
      · rw [Heaps.issued_update hrp] at hnone
        exact .inr ⟨hnone, (Heaps.issued_update (Ne.symm hrp)).trans hgone⟩
    · rw [h.issued_espIdf.mpr owns, Option.some.injEq] at hb
      subst hb
      exact copied i hi hin
  | dropped owns keeps =>
    obtain ⟨hdrop, hgone⟩ := h.dropTheirs owns
    have hkept := hdrop.sound.keeps keeps
    exact ⟨hdrop.trans hkept, .dropped hgone⟩
  | released owns keeps =>
    obtain ⟨hdrop, hgone⟩ := h.dropTheirs owns
    have hkept := hdrop.sound.keeps keeps
    exact ⟨hdrop.trans hkept, .released hgone⟩
  | stray names stray =>
    obtain ⟨n, hn⟩ := hown _ names
    rw [h.issued_espIdf, stray] at hn
    cases hn

/-- What a call asks of the region's allocator. -/
def requestOf : Call → Option Request
  | .alloc n => some (.alloc n)
  | .allocAligned _ n => some (.alloc n)
  | .realloc p n => some (if p = 0 then .alloc n else .resize p n)
  | .free p => some (.release p)
  | .store _ _ _ => none

section Ours
variable {base : ℕ} {H : Heaps} (h : H.Sound base) (hlo : H.callers.heap.regionLo = base)
  (hhi : H.callers.heap.regionHi = base + regionBytes)
include h hlo hhi

/-- A call of the region's allocator, by what it leaves of the payloads in use. -/
theorem Heaps.Sound.evolve {D : Callers} {bs' : List Block} {target : Option ℕ}
    (ht' : D.Tracked bs') (he : Evolved H.callers.heap D.heap bs')
    (hout : Outside H.callers.heap D.heap)
    (hlive : ∀ p, H.callers.Live p → target ≠ some p → D.live p = H.callers.live p ∧
      ∀ n, (p, n) ∈ BlockList.held hdr H.callers.heap.regionLo bs' → ∀ x, p ≤ x → x < p + n →
        D.heap.mem x = H.mem x) : Kept base H { H with callers := D } target := by
  have hs : Heaps.Sound base { H with callers := D } :=
    ⟨.inr ⟨bs', ht', he.regionLo.trans hlo, he.regionHi.trans hhi⟩, h.place, h.apart⟩
  refine ⟨hs, fun _ => ht'.sound.ready, fun p hp hne => ?_⟩
  obtain ⟨b, hb⟩ := Option.ne_none_iff_exists'.mp hp
  rcases h.cases hb with ⟨-, q, hq, hsize⟩ | ⟨-, htheirs⟩
  · obtain ⟨hsame, hbytes⟩ := hlive p (by simp [Callers.Live, hq]) hne
    refine ⟨?_, fun c hc i hi => ?_⟩
    · simp only [Heaps.issued, hsame, hq]
    · obtain rfl : b = c := Option.some.inj (hb.symm.trans hc)
      obtain ⟨n, hn⟩ := (ht'.live_iff p).mp (show D.live p ≠ none by simp [hsame, hq])
      have hle := (ht'.served p q n (hsame.trans hq) hn).1
      rw [he.regionLo] at hn
      exact hbytes n hn _ (by omega) (by omega)
  · refine ⟨?_, fun c hc i hi => ?_⟩
    · exact (hs.issued_espIdf.mpr htheirs).trans (h.issued_espIdf.mpr htheirs).symm
    · obtain rfl : b = c := Option.some.inj (hb.symm.trans hc)
      have hplace := (h.place p _ htheirs).2.2 (p + i) (by omega) (by omega)
      simp only [InRegion] at hplace
      exact hout _ (by omega)

variable {bs : List Block} (ht : H.callers.Tracked bs)
include ht

theorem Heaps.Sound.freed {p n : ℕ} (hp : H.issued p = some ⟨.reflex, n⟩) :
    Kept base H { H with callers := H.callers.drop (Kernel.heapFree H.callers.heap p) p } (some p) ∧
      ({ H with callers := H.callers.drop (Kernel.heapFree H.callers.heap p) p } : Heaps).issued p =
        none := by
  obtain ⟨q, hq, -⟩ := Heaps.issued_reflex.mp hp
  obtain ⟨bs', hf, hout⟩ := ht.freed (show H.callers.Live p by simp [Callers.Live, hq])
  have hkept : Kept base H { H with callers := H.callers.drop (Kernel.heapFree H.callers.heap p) p }
      (some p) := by
    refine h.evolve hlo hhi (ht.drop hf) hf.evolved hout fun r _ hne => ⟨?_, fun m hm => ?_⟩
    · exact Callers.drop_live_of_ne fun hrp => hne (congrArg some hrp.symm)
    · exact hf.untouched r m hm
  refine ⟨hkept, ?_⟩
  simp only [Heaps.issued, Callers.drop_live_self, h.theirs_none (h.in_region hq), Option.map_none]

theorem Heaps.Sound.granted {H' : Heap} {bs' : List Block} {p n : ℕ} {q : HeapRequest}
    (hg : Granted H.callers.heap H' bs bs' p n) (hn : q.size ≤ n) (hp : p % q.align = 0)
    (hout : Outside H.callers.heap H') :
    Kept base H { H with callers := H.callers.hand (p, H') q } none ∧ p ≠ 0 ∧
      H.issued p = none ∧ ({ H with callers := H.callers.hand (p, H') q } : Heaps).issued p =
        some ⟨.reflex, q.size⟩ := by
  have ht' := ht.grant hg hn hp
  have hnew := (hg.mem_held p n).mpr (.inl ⟨rfl, rfl⟩)
  have hpne : p ≠ 0 := by
    rw [← hg.evolved.regionLo] at hnew
    exact (hg.evolved.sound.passes hnew).2.2
  have hhand := @Callers.hand_of_ne H.callers H' p q hpne
  have hdead : H.callers.live p = none := by
    by_contra hlive
    obtain ⟨m, hm⟩ := (ht.live_iff p).mp hlive
    exact hg.fresh m hm
  have hkept : Kept base H { H with callers := H.callers.hand (p, H') q } none := by
    refine h.evolve hlo hhi ht' ?_ ?_ fun r hr _ => ⟨?_, fun m hm => ?_⟩
    · rw [hhand]
      exact hg.evolved
    · rw [hhand]
      exact hout
    · rw [hhand]
      refine Function.update_of_ne ?_ _ _
      rintro rfl
      exact hr hdead
    · rw [hhand]
      exact hg.untouched r m hm
  have hissued : ({ H with callers := H.callers.hand (p, H') q } : Heaps).issued p =
      some ⟨.reflex, q.size⟩ := by
    simp [Heaps.issued, hhand]
  obtain ⟨r, hr, -⟩ := Heaps.issued_reflex.mp hissued
  refine ⟨hkept, hpne, ?_, hissued⟩
  simp only [Heaps.issued, hdead, h.theirs_none (hkept.sound.in_region hr), Option.map_none]

theorem Heaps.Sound.resized {H' : Heap} {bs' : List Block} {p n p' n' k size : ℕ}
    (hp : H.issued p = some ⟨.reflex, k⟩)
    (hn : (p, n) ∈ BlockList.held hdr H.callers.heap.regionLo bs)
    (hr : Resized H.callers.heap H' bs bs' p n p' n' size) (hsize : size ≤ n') (hmod : p' % 8 = 0)
    (hout : Outside H.callers.heap H') (hpos : size ≠ 0) :
    Kept base H { H with callers := (H.callers.drop H' p).hand (p', H') ⟨size, heapAlign⟩ }
        (some p) ∧
      Answered .reflex H { H with callers := (H.callers.drop H' p).hand (p', H') ⟨size, heapAlign⟩ }
        (.resize p size) p' := by
  have ht' := ht.resize (q := ⟨size, heapAlign⟩) hr hsize hmod
  have hnew := (hr.mem_held p' n').mpr (.inl ⟨rfl, rfl⟩)
  have hpne : p' ≠ 0 := by
    rw [← hr.evolved.regionLo] at hnew
    exact (hr.evolved.sound.passes hnew).2.2
  have hhand := @Callers.hand_of_ne (H.callers.drop H' p) H' p' ⟨size, heapAlign⟩ hpne
  rw [hhand] at ht' ⊢
  have hdead : p' = p ∨ H.callers.live p' = none := by
    refine hr.fresh.imp_right fun hfresh => ?_
    by_contra hlive
    obtain ⟨m, hm⟩ := (ht.live_iff p').mp hlive
    exact hfresh m hm
  have hkept : Kept base H { H with callers := ⟨H', Function.update (H.callers.drop H' p).live p'
      (some ⟨size, heapAlign⟩)⟩ } (some p) := by
    refine h.evolve hlo hhi ht' hr.evolved hout fun r hlive hne => ?_
    have hrp : r ≠ p := fun hrp => hne (congrArg some hrp.symm)
    have hrp' : r ≠ p' := by
      rintro rfl
      exact hlive (hdead.resolve_left hrp)
    refine ⟨?_, fun m hm => hr.untouched r m hrp' hm⟩
    exact (Function.update_of_ne hrp' _ _).trans (Callers.drop_live_of_ne hrp)
  refine ⟨hkept, .resized hpos hpne (by simp [Heaps.issued]) ?_ fun b hb i hi hin => ?_⟩
  · by_cases hpp : p' = p
    · exact .inl hpp
    have htheirs' := h.theirs_none (hkept.sound.in_region
      (show Function.update (H.callers.drop H' p).live p' (some ⟨size, heapAlign⟩) p' = _ from
        Function.update_self _ _ _))
    have hgone : Function.update (H.callers.drop H' p).live p' (some ⟨size, heapAlign⟩) p = none :=
      (Function.update_of_ne (Ne.symm hpp) _ _).trans Callers.drop_live_self
    refine .inr ⟨?_, ?_⟩
    · simp only [Heaps.issued, hdead.resolve_left hpp, htheirs', Option.map_none]
    · obtain ⟨q, hq, -⟩ := Heaps.issued_reflex.mp hp
      simp only [Heaps.issued, hgone, h.theirs_none (h.in_region hq), Option.map_none]
  · obtain rfl := Option.some.inj (hp.symm.trans hb)
    obtain ⟨q, hq, hqk⟩ := Heaps.issued_reflex.mp hp
    have hle := (ht.served p q n hq hn).1
    rw [hqk] at hle
    exact hr.copied i (lt_of_lt_of_le hi hle) hin

/-- A request for a new block: one is handed out, or nothing has changed. -/
theorem Heaps.Sound.served {c : Call} {n r : ℕ} {D : Callers}
    (hout : Callers.Outcome H.callers bs c r D) (hkeep : Outside H.callers.heap D.heap)
    (hc : c = .alloc n ∨ (∃ a, c = .allocAligned a n) ∨ c = .realloc 0 n) :
    Kept base H { H with callers := D } none ∧
      Answered .reflex H { H with callers := D } (.alloc n) r := by
  cases hout with
  | refused => exact ⟨⟨h, id, fun p _ _ => .refl H p⟩, .refused⟩
  | @granted _ _ _ _ _ q hc' hg hn hp =>
    have hsize : q.size = n := by
      rcases hc' with ⟨rfl, -⟩ | rfl | ⟨rfl, -⟩ <;> simpa using hc
    rw [Callers.hand_heap] at hkeep
    obtain ⟨hkept, hne, hnone, hnew⟩ := h.granted hlo hhi ht hg hn hp hkeep
    exact ⟨hkept, .granted hne hnone (hsize ▸ hnew)⟩
  | @freed _ H' _ p hc' hf =>
    -- `realloc(NULL, 0)`
    obtain rfl : p = 0 := by
      rcases hc' with rfl | rfl
      · simp at hc
      · exact (show p = 0 ∧ 0 = n by simpa using hc).1
    refine ⟨h.evolve hlo hhi (ht.drop hf) hf.evolved hkeep fun r hr _ =>
      ⟨Callers.drop_live_of_ne ?_, fun m hm => hf.untouched r m hm⟩, .refused⟩
    rintro rfl
    exact ht.null hr
  | @resized _ _ p _ _ _ size hheld =>
    obtain ⟨rfl, -⟩ : p = 0 ∧ size = n := by simpa using hc
    exact absurd rfl (ht.sound.passes hheld).2.2
  | stored => simp at hc

end Ours

/-- The region's allocator, asked about blocks of its own only. -/
theorem Heaps.Sound.perform {base : ℕ} {H : Heaps} (h : H.Sound base)
    (hready : H.callers.heap.ready = true) {c : Call} {q : Request} (hq : requestOf c = some q)
    (hown : ∀ p, q.pointer = some p → ∃ n, H.issued p = some ⟨.reflex, n⟩)
    (hadm : ∀ bs, H.callers.Tracked bs → H.callers.Admitted bs c) :
    Kept base H { H with callers := (H.callers.perform c).2 } q.pointer ∧
      Answered .reflex H { H with callers := (H.callers.perform c).2 } q
        (H.callers.perform c).1 := by
  obtain ⟨bs, ht, hlo, hhi⟩ := h.tracked hready
  obtain ⟨hout, hkeep⟩ := ht.outcome (hadm bs ht)
  have hkeep := hkeep.resolve_left (by rintro ⟨p, i, v, rfl⟩; cases hq)
  cases c with
  | alloc n =>
    obtain rfl := Option.some.inj hq
    exact h.served hlo hhi ht hout hkeep (.inl rfl)
  | allocAligned a n =>
    obtain rfl := Option.some.inj hq
    exact h.served hlo hhi ht hout hkeep (.inr (.inl ⟨a, rfl⟩))
  | realloc p n =>
    by_cases hp : p = 0
    · subst hp
      obtain rfl : Request.alloc n = q := Option.some.inj hq
      exact h.served hlo hhi ht hout hkeep (.inr (.inr rfl))
    obtain rfl : Request.resize p n = q := by
      simpa [requestOf, hp] using hq
    obtain ⟨k, hk⟩ := hown p rfl
    by_cases hn : n = 0
    · subst hn
      have hgo : Kernel.heapRealloc H.callers.heap p 0 = (0, Kernel.heapFree H.callers.heap p) := by
        rw [Kernel.heapRealloc, if_neg hp, if_pos rfl]
      obtain ⟨hkept, hgone⟩ := h.freed hlo hhi ht hk
      simp only [Callers.perform, hgo, if_true]
      exact ⟨hkept, .dropped hgone⟩
    · generalize (H.callers.perform (.realloc p n)).1 = r,
        (H.callers.perform (.realloc p n)).2 = D at *
      cases hout with
      | refused =>
        exact ⟨⟨h, id, fun r _ _ => .refl H r⟩, .unresized hn (.refl H p)⟩
      | granted hc => simp [hp] at hc
      | freed hc => simp [hn] at hc
      | resized hheld hr hsize hmod =>
        rw [Callers.hand_heap] at hkeep
        exact h.resized hlo hhi ht hk hheld hr hsize hmod hkeep hn
  | free p =>
    obtain rfl := Option.some.inj hq
    obtain ⟨k, hk⟩ := hown p rfl
    obtain ⟨hkept, hgone⟩ := h.freed hlo hhi ht hk
    exact ⟨hkept, .released hgone⟩
  | store p i v => cases hq

/-- A call that names blocks of the region's only, and whose search meets no free block too close
to the top of the word. -/
theorem Heaps.admitted {H : Heaps} {bs : List Block}
    (ht : H.callers.Tracked bs) (hhi : H.callers.heap.regionHi < 2 ^ 32) {c : Call} {q : Request}
    (hq : requestOf c = some q)
    (hown : ∀ p, q.pointer = some p → ∃ n, H.issued p = some ⟨.reflex, n⟩)
    (hword : ∀ a n, c = .allocAligned a n → a < 2 ^ 32)
    (hroom : ∀ k n, c = .allocAligned (2 ^ k) n → n = 0 ∨ sizeIsSane n = false ∨
      Roomy (2 ^ max k 3) ((n + 7) / 8 * 8) H.callers.heap.regionLo (blocks H.callers.heap)) :
    H.callers.Admitted bs c := by
  have hlive : ∀ p, q.pointer = some p → H.callers.Live p := by
    intro p hp
    obtain ⟨n, hn⟩ := hown p hp
    obtain ⟨r, hr, -⟩ := Heaps.issued_reflex.mp hn
    simp [Callers.Live, hr]
  cases c with
  | alloc n => trivial
  | allocAligned a n =>
    rintro k rfl
    have hk : k ≤ 31 :=
      Nat.le_of_lt_succ ((Nat.pow_lt_pow_iff_right (by decide)).mp (hword _ n rfl))
    refine ⟨hk, fun hn hsane => ?_⟩
    have hroomy := ((hroom k n rfl).resolve_left hn).resolve_left (by simp [hsane])
    have hlt := sizeIsSane_iff.mp hsane
    have h := ht.sound.audited
    rw [h.blocks_eq ht.ne_nil, ← wanted_eq hn (by omega)] at hroomy
    have h' : Audited H.callers.heap ([] ++ bs) := h
    exact h'.addable (by omega) hhi hroomy
  | realloc p n =>
    by_cases hp : p = 0
    · exact .inl hp
    · exact .inr (hlive p (by simp [← Option.some.inj hq, hp, Request.pointer]))
  | free p => exact .inr (hlive p (by simp [← Option.some.inj hq, Request.pointer]))
  | store p i v => cases hq

/-- The region is brought up once, while nothing of it is out. -/
theorem Heaps.Sound.ensureReady {base : ℕ} {H : Heaps} (h : H.Sound base) (h8 : base % 8 = 0)
    (hpos : 0 < base) (hend : base + regionBytes < 2 ^ 32) :
    Kept base H (H.ensureReady base) none ∧
      (H.ensureReady base).callers.heap.ready = true := by
  unfold Heaps.ensureReady
  split
  · rename_i hready
    exact ⟨⟨h, id, fun p _ _ => .refl H p⟩, hready⟩
  rename_i hoff
  have hnone : ∀ p, H.callers.live p = none := by
    rcases h.ours with ⟨-, hnone⟩ | ⟨bs, ht, -⟩
    · exact hnone
    · exact absurd ht.sound.ready hoff
  obtain ⟨hready, hlo, hhi, hmem⟩ :=
    @heapInit_aligned H.mem base regionBytes hpos h8 (by decide) (by decide) hend
  obtain ⟨bs, ht⟩ := Callers.start_tracked hend.le (by decide) hready
  have hstart : (⟨heapInit H.mem base regionBytes, H.callers.live⟩ : Callers) =
      Callers.start H.mem base regionBytes := by
    rw [Callers.start, show H.callers.live = fun _ => none from funext hnone]
  refine ⟨⟨⟨.inr ⟨bs, ?_, hlo, hhi⟩, h.place, h.apart⟩, fun _ => hready, fun p hp _ =>
    ⟨rfl, fun b hb i hi => hmem _ ?_⟩⟩, hready⟩
  · rw [hstart]
    exact ht
  · rcases h.cases hb with ⟨-, q, hq, -⟩ | ⟨-, htheirs⟩
    · rw [hnone p] at hq
      cases hq
    · have hout := (h.place p _ htheirs).2.2 (p + i) (by omega) (by omega)
      simp only [InRegion, regionBytes] at hout
      omega

theorem Heaps.Sound.write {base : ℕ} {H : Heaps} (h : H.Sound base) {p : ℕ} {b : Issue}
    (hp : H.issued p = some b) {m : Memory}
    (hm : ∀ x, ¬ (p ≤ x ∧ x < p + b.size) → m x = H.mem x) :
    Kept base H (H.setMem m) (some p) := by
  refine ⟨⟨?_, h.place, h.apart⟩, id, fun q hq hne => ⟨rfl, fun c hc i hi => hm _ ?_⟩⟩
  · rcases h.ours with hoff | ⟨bs, ht, hlo, hhi⟩
    · exact .inl hoff
    refine .inr ⟨bs, ht.rewrite fun x hxlo hxhi hx => hm x ?_, hlo, hhi⟩
    rcases h.cases hp with ⟨-, q, hq, hsize⟩ | ⟨-, htheirs⟩
    · obtain ⟨n, hn⟩ := (ht.live_iff p).mp (show H.callers.live p ≠ none by simp [hq])
      have hle := (ht.served p q n hq hn).1
      have := hx p n hn
      omega
    · intro hin
      exact (h.place p _ htheirs).2.2 x hin.1 hin.2 ⟨by omega, by omega⟩
  · have hpq : q ≠ p := fun hqp => hne (congrArg some hqp.symm)
    exact h.disjoint hc hp hpq (by omega) (by omega)

end ReflexOS.HeapShim
