import ReflexOS.HeapShimContract

set_option autoImplicit false

/-!
# The wrappers

One rule for each primitive, and from them each wrapper, whatever the other threads do between
its primitives.
-/
namespace ReflexOS.HeapShim
open ByteMemory BlockList Kernel Threads

/-- What a primitive leaves to its own thread of the blocks that it did not name. -/
structure World.Leaves (t : ℕ) (target : Option ℕ) (W W' : World) : Prop where
  own : ∀ p, W.holder p = some t → target ≠ some p →
    W'.holder p = some t ∧ W.heaps.Stays W'.heaps p
  ready : W.ready → W'.ready

theorem World.Leaves.held {t : ℕ} {target : Option ℕ} {W W' : World} (h : Leaves t target W W')
    {p : ℕ} {b : Issue} (hp : W.Held t p b) (hne : target ≠ some p) : W'.Held t p b := by
  obtain ⟨hheld, hstay⟩ := h.own p hp.1 hne
  exact ⟨hheld, hstay.issued.trans hp.2⟩

/-- The rest of a call goes well. -/
abbrev Goes (base t : ℕ) (e : Entry) (B : World) (done : List (Prim × ℕ)) (P : Code) (W : World) :
    Prop :=
  (contract base).Ok (shim base) Fits t e B done P W

section Rules
variable {base : ℕ} (hpos : 0 < base) (h8 : base % 8 = 0) (hend : base + regionBytes < 2 ^ 32)
  {t : ℕ} {e : Entry} {B W : World} {done : List (Prim × ℕ)} {next : ℕ → Code}

theorem Goes.ret {a : ℕ} (h : Owed t e.served B done W e.request a) :
    Goes base t e B done (.ret a) W :=
  fun _ hrely _ => h.stable hrely

include hpos h8 hend

theorem Goes.act {op : Prim} (hsafe : W.Safe t op)
    (hnext : ∀ W₁ r H', World.Relied t W W₁ → W₁.Sound base → W₁.Safe t op → Fits W₁ op →
      Effect base W₁.heaps op r H' → World.Leaves t op.target W (W₁.after t H') →
      Goes base t e B (done ++ [(op, r)]) (next r) (W₁.after t H')) :
    Goes base t e B done (.act op next) W := by
  intro W₁ hrely hW
  have hsafe' := hsafe.stable hrely
  refine ⟨hsafe', fun r W' hfits heff _ => ?_⟩
  obtain ⟨H', heff, rfl⟩ := heff
  have hkept := hW.kept hpos h8 hend hsafe' hfits heff
  refine hnext W₁ r H' hrely hW hsafe' hfits heff ⟨fun p hp hne => ?_, fun hr =>
    hkept.ready (hrely.ready hr)⟩
  obtain ⟨hheld, hstay⟩ := hW.own hkept ((hrely.holder p).mpr hp) hne
  exact ⟨hheld, (hrely.stays p hp).trans hstay⟩

theorem Goes.ensureReady (hnext : ∀ W', W'.ready → World.Leaves t none W W' →
      Goes base t e B (done ++ [(.ensureReady, 0)]) (next 0) W') :
    Goes base t e B done (.act .ensureReady next) W := by
  refine Goes.act hpos h8 hend trivial fun W₁ r H' _ hW _ _ heff hleaves => ?_
  cases heff
  exact hnext _ (hW.heaps.ensureReady h8 hpos hend).2 hleaves

/-- The range check of a block that is held. -/
theorem Goes.owns {p : ℕ} {b : Issue} (hp : W.Held t p b)
    (hours : b.issuer = .reflex → ∀ W', W'.ready → World.Leaves t none W W' →
      Goes base t e B (done ++ [(.owns p, 1)]) (next 1) W')
    (htheirs : b.issuer = .espIdf → ∀ W', World.Leaves t none W W' →
      Goes base t e B (done ++ [(.owns p, 0)]) (next 0) W') :
    Goes base t e B done (.act (.owns p) next) W := by
  refine Goes.act hpos h8 hend trivial fun W₁ r H' hrely hW _ _ heff hleaves => ?_
  have howns := hW.heaps.owns_iff (hrely.held hp).2
  cases heff
  cases hwho : b.issuer with
  | reflex =>
    rw [if_pos (howns.mpr hwho)]
    exact hours hwho _ (hW.heaps.ready_of_reflex (hrely.held hp).2 hwho) hleaves
  | espIdf =>
    rw [if_neg (mt howns.mp (by simp [hwho]))]
    exact htheirs hwho _ hleaves

theorem Goes.alloc {op : Prim} {who : Issuer} {n : ℕ} (hsafe : W.Safe t op)
    (hasked : op.asked = some (who, .alloc n))
    (hnone : ∀ W', World.Leaves t none W W' → Goes base t e B (done ++ [(op, 0)]) (next 0) W')
    (hsome : ∀ a W', a ≠ 0 → W'.Held t a ⟨who, n⟩ → World.Leaves t none W W' →
      Goes base t e B (done ++ [(op, a)]) (next a) W') :
    Goes base t e B done (.act op next) W := by
  refine Goes.act hpos h8 hend hsafe fun W₁ r H' hrely hW hsafe' hfits heff hleaves => ?_
  rw [Prim.target_of_asked hasked] at hleaves
  have hans := hW.answered hend hsafe' hfits heff hasked
  cases hans with
  | refused => exact hnone _ hleaves
  | granted ne fresh issued => exact hsome r _ ne (World.after_held issued (.inl fresh)) hleaves

theorem Goes.resize {op : Prim} {who : Issuer} {p n k : ℕ} (hsafe : W.Safe t op)
    (hasked : op.asked = some (who, .resize p n)) (hn : n ≠ 0) (hp : W.Held t p ⟨who, k⟩)
    (hnone : ∀ W', World.Leaves t none W W' → Goes base t e B (done ++ [(op, 0)]) (next 0) W')
    (hsome : ∀ a W', a ≠ 0 → W'.Held t a ⟨who, n⟩ → (a = p ∨ W'.holder p ≠ some t) →
      (∀ i < k, i < n → W'.heaps.mem (a + i) = W.heaps.mem (p + i)) →
      Goes base t e B (done ++ [(op, a)]) (next a) W') :
    Goes base t e B done (.act op next) W := by
  refine Goes.act hpos h8 hend hsafe fun W₁ r H' hrely hW hsafe' hfits heff hleaves => ?_
  rw [Prim.target_of_asked hasked] at hleaves
  have hp' := hrely.held hp
  have hans := hW.answered hend hsafe' hfits heff hasked
  cases hans with
  | unresized pos stays =>
    refine hnone _ ⟨fun q hq _ => ?_, hleaves.ready⟩
    by_cases hqp : q = p
    · subst hqp
      exact ⟨(World.after_holder stays.issued).trans hp'.1, (hrely.stays q hq).trans stays⟩
    · exact hleaves.own q hq fun hpq => hqp (Option.some.inj hpq).symm
  | resized pos ne issued moved copied =>
    refine hsome r _ ne (World.after_held issued ?_) ?_ fun i hi hin => ?_
    · exact moved.elim (fun h => .inr (h ▸ hp'.1)) fun h => .inl h.1
    · exact moved.imp_right fun h => hW.gone h.2
    · exact (copied _ hp'.2 i hi hin).trans ((hrely.stays p hp.1).bytes _ hp.2 i hi)
  | dropped => exact absurd rfl hn

theorem Goes.release {op : Prim} {who : Issuer} {p : ℕ} {q : Request} (hsafe : W.Safe t op)
    (hasked : op.asked = some (who, q)) (hq : q = .release p ∨ q = .resize p 0)
    (hnext : ∀ W', W'.holder p ≠ some t → World.Leaves t (some p) W W' →
      Goes base t e B (done ++ [(op, 0)]) (next 0) W') :
    Goes base t e B done (.act op next) W := by
  refine Goes.act hpos h8 hend hsafe fun W₁ r H' hrely hW hsafe' hfits heff hleaves => ?_
  have hans := hW.answered hend hsafe' hfits heff hasked
  have hgone : op.target = some p ∧ r = 0 ∧ H'.issued p = none := by
    rw [Prim.target_of_asked hasked]
    rcases hq with rfl | rfl
    · cases hans with
      | released gone => exact ⟨rfl, rfl, gone⟩
    · cases hans with
      | unresized pos => exact absurd rfl pos
      | resized pos => exact absurd rfl pos
      | dropped gone => exact ⟨rfl, rfl, gone⟩
  obtain ⟨htarget, rfl, hgone⟩ := hgone
  rw [htarget] at hleaves
  exact hnext _ (hW.gone hgone) hleaves

theorem Goes.blockSize {p k : ℕ} (hp : W.Held t p ⟨.reflex, k⟩)
    (hnext : ∀ n W', k ≤ n → World.Leaves t none W W' →
      Goes base t e B (done ++ [(.blockSize p, n)]) (next n) W') :
    Goes base t e B done (.act (.blockSize p) next) W := by
  refine Goes.act hpos h8 hend ⟨k, hp⟩ fun W₁ r H' hrely hW _ _ heff hleaves => ?_
  cases heff
  exact hnext _ _ (hW.heaps.le_blockSize (hrely.held hp).2) hleaves

theorem Goes.memset {p n : ℕ} {b : Issue} (hp : W.Held t p b) (hn : n ≤ b.size)
    (hnext : ∀ W', W'.Held t p b → World.Leaves t (some p) W W' →
      Goes base t e B (done ++ [(.memset p n, 0)]) (next 0) W') :
    Goes base t e B done (.act (.memset p n) next) W := by
  refine Goes.act hpos h8 hend ⟨b, hp, hn⟩ fun W₁ r H' hrely _ _ _ heff hleaves => ?_
  cases heff
  exact hnext _ (World.after_held (hrely.held hp).2 (.inr (hrely.held hp).1)) hleaves

/-- A block of the region's copied into one of ESP-IDF's. -/
theorem Goes.memcpy {dst src n k j : ℕ} (hdst : W.Held t dst ⟨.espIdf, k⟩) (hn : n ≤ k)
    (hsrc : W.Held t src ⟨.reflex, j⟩)
    (hnext : ∀ W', W'.Held t dst ⟨.espIdf, k⟩ →
      (∀ i < n, i < j → W'.heaps.mem (dst + i) = W.heaps.mem (src + i)) →
      World.Leaves t (some dst) W W' →
      Goes base t e B (done ++ [(.memcpy dst src n, 0)]) (next 0) W') :
    Goes base t e B done (.act (.memcpy dst src n) next) W := by
  refine Goes.act hpos h8 hend ⟨⟨k, hdst, hn⟩, j, hsrc⟩ fun W₁ r H' hrely _ _ _ heff hleaves => ?_
  cases heff
  refine hnext _ (World.after_held (hrely.held hdst).2 (.inr (hrely.held hdst).1))
    (fun i hi hij => ?_) hleaves
  exact (copyBytes_copied hi).trans ((hrely.stays src hsrc.1).bytes _ hsrc.2 i hij)

end Rules

/-- A block as it was when the call was made. -/
structure World.Intact (t : ℕ) (B W : World) (p : ℕ) (b : Issue) : Prop where
  ne : p ≠ 0
  held : W.Held t p b
  stays : B.heaps.Stays W.heaps p

theorem World.Intact.leaves {t : ℕ} {B W W' : World} {p : ℕ} {b : Issue} (h : Intact t B W p b)
    {target : Option ℕ} (hl : Leaves t target W W') (hne : target ≠ some p) :
    Intact t B W' p b :=
  ⟨h.ne, hl.held h.held hne, h.stays.trans (hl.own p h.held.1 hne).2⟩

theorem World.Intact.before {t : ℕ} {B W : World} {p : ℕ} {b c : Issue} (h : Intact t B W p b)
    (hc : B.heaps.issued p = some c) : c = b :=
  Option.some.inj ((hc.symm.trans h.stays.issued.symm).trans h.held.2)

theorem refused_of_mem {who : Issuer} {n : ℕ} {done : List (Prim × ℕ)} {op : Prim} {q : Request}
    (hmem : (op, 0) ∈ done) (hasked : op.asked = some (who, q)) (hsize : q.size = some n) :
    Refused who n done := ⟨op, q, hmem, hasked, hsize⟩

theorem Refused.append {who : Issuer} {n : ℕ} {done : List (Prim × ℕ)} (h : Refused who n done)
    (more : List (Prim × ℕ)) : Refused who n (done ++ more) := by
  obtain ⟨op, q, hmem, hasked, hsize⟩ := h
  exact ⟨op, q, List.mem_append_left _ hmem, hasked, hsize⟩

/-- The one block that a request names. -/
theorem held_of {t : ℕ} {W : World} {who : Issuer} {p k : ℕ} (hp : W.Held t p ⟨who, k⟩) :
    ∀ r, some p = some r → ∃ n, W.Held t r ⟨who, n⟩ :=
  fun _ hr => ⟨k, Option.some.inj hr ▸ hp⟩

section Wrappers
variable {base : ℕ} (hpos : 0 < base) (h8 : base % 8 = 0) (hend : base + regionBytes < 2 ^ 32)
  {t : ℕ} {e : Entry} {B W : World} {done : List (Prim × ℕ)}

/-- Nothing was given. -/
theorem Goes.ret_null (he : e.request = .release 0) : Goes base t e B done (.ret 0) W := by
  intro W' _ hW
  change Owed t e.served B done W' e.request 0
  rw [he]
  refine .released fun hheld => ?_
  obtain ⟨b, hb⟩ := Option.ne_none_iff_exists'.mp (hW.out 0 t hheld)
  exact hW.heaps.issued_ne hb rfl

include hpos h8 hend

theorem freeAny_goes {p : ℕ} (hp : p = 0 ∨ ∃ b, World.Intact t B W p b)
    (he : e.request = .release p) : Goes base t e B done (freeAny p) W := by
  rcases hp with rfl | ⟨⟨who, k⟩, hne, hheld, -⟩
  · exact Goes.ret_null he
  rw [freeAny, if_neg hne]
  refine Goes.owns hpos h8 hend hheld (fun hwho W' hready hl => ?_) fun hwho W' hl => ?_
  · obtain rfl : who = .reflex := hwho
    have hheld' := hl.held hheld (by simp)
    change Goes base t e B _ (.act (.heap (.free p)) .ret) W'
    exact Goes.release hpos h8 hend ⟨hready, _, rfl, held_of hheld', nofun⟩ rfl (.inl rfl)
      fun W'' hgone _ => Goes.ret (he ▸ .released hgone)
  · obtain rfl : who = .espIdf := hwho
    have hheld' := hl.held hheld (by simp)
    change Goes base t e B _ (.act (.real (.capsFree p)) .ret) W'
    exact Goes.release hpos h8 hend (held_of hheld') rfl (.inl rfl)
      fun W'' hgone _ => Goes.ret (he ▸ .released hgone)

/-- The region may not serve the request. -/
theorem real_goes {rc : RealCall} {n : ℕ} (hrc : rc.request = .alloc n) (he : e.request = .alloc n)
    (hours : e.served = true → Refused .reflex n done) :
    Goes base t e B done (.act (.real rc) .ret) W := by
  have hasked : (Prim.real rc).asked = some (.espIdf, .alloc n) := by simp [Prim.asked, hrc]
  refine Goes.alloc hpos h8 hend (by simp [World.Safe, hrc, Request.pointer]) hasked
    (fun W' _ => Goes.ret ?_) fun a W' hne hheld _ => Goes.ret (he ▸ .allocated hne hheld)
  rw [he]
  exact .refused (.inr ⟨refused_of_mem (by simp) hasked rfl, fun h => (hours h).append _⟩)

/-- The region is asked for a new block, and ESP-IDF's heap when it has none. -/
theorem allocOr_goes {c : Call} {r : RealCall} {n : ℕ} {next : ℕ → Code}
    (hc : requestOf c = some (.alloc n)) (hword : ∀ a n, c = .allocAligned a n → a < 2 ^ 32)
    (hrc : r.request = .alloc n) (he : e.request = .alloc n) (hready : W.ready)
    (hnone : next 0 = .act (.real r) .ret)
    (hsome : ∀ done a W', a ≠ 0 → W'.Held t a ⟨.reflex, n⟩ →
      Goes base t e B done (next a) W') :
    Goes base t e B done (.act (.heap c) next) W := by
  have hasked : (Prim.heap c).asked = some (.reflex, .alloc n) := by simp [Prim.asked, hc]
  refine Goes.alloc hpos h8 hend ⟨hready, _, hc, by simp [Request.pointer], hword⟩ hasked
    (fun W' hl => ?_) fun a W' hne hheld _ => hsome _ a W' hne hheld
  rw [hnone]
  exact real_goes hpos h8 hend hrc he fun _ => refused_of_mem (by simp) hasked rfl

theorem callocFrom_goes {theirs : RealCall} {c n : ℕ} (hrc : theirs.request = .alloc (c * n))
    (he : e.request = .alloc (c * n)) : Goes base t e B done (callocFrom theirs c n) W := by
  refine Goes.ensureReady hpos h8 hend fun W' hready hl => ?_
  change Goes base t e B _ (if c ≠ 0 ∧ (2 ^ 32 - 1) / c < n then .ret 0 else _) W'
  by_cases hover : c ≠ 0 ∧ (2 ^ 32 - 1) / c < n
  · rw [if_pos hover]
    refine Goes.ret ?_
    rw [he]
    have := (Nat.div_lt_iff_lt_mul (Nat.pos_of_ne_zero hover.1)).mp hover.2
    exact .refused (.inl (by rw [Nat.mul_comm]; omega))
  rw [if_neg hover]
  have hlt : c * n < 2 ^ 32 := by
    by_cases hc : c = 0
    · simp [hc]
    · have := (Nat.le_div_iff_mul_le (Nat.pos_of_ne_zero hc)).mp
        (not_lt.mp fun hn => hover ⟨hc, hn⟩)
      rw [Nat.mul_comm]
      omega
  rw [Nat.mod_eq_of_lt hlt]
  refine allocOr_goes hpos h8 hend (r := theirs) rfl nofun hrc he hready rfl
    fun done a W'' hne hheld => ?_
  change Goes base t e B _ (if a = 0 then real theirs else _) W''
  rw [if_neg hne]
  refine Goes.memset hpos h8 hend hheld (le_refl _) fun W₃ hheld' _ => Goes.ret ?_
  rw [he]
  exact .allocated hne hheld'

/-- A block of the region's, moved to one that ESP-IDF's heap has just handed out. -/
theorem moveTo_goes {f p n k : ℕ} (hf : f ≠ 0) (hfresh : W.Held t f ⟨.espIdf, n⟩)
    (hp : World.Intact t B W p ⟨.reflex, k⟩) (hready : W.ready) (he : e.request = .resize p n) :
    Goes base t e B done (moveTo f p n) W := by
  have hfp : f ≠ p := by
    rintro rfl
    have := hfresh.2.symm.trans hp.held.2
    simp at this
  rw [moveTo, if_pos ⟨hf, hp.ne⟩]
  refine Goes.blockSize hpos h8 hend hp.held fun old W₁ hold hl₁ => ?_
  have hp₁ := hp.leaves hl₁ (by simp)
  have hfresh₁ := hl₁.held hfresh (by simp)
  refine Goes.memcpy hpos h8 hend hfresh₁ (by split <;> omega) hp₁.held
    fun W₂ hfresh₂ hcopied hl₂ => ?_
  have hp₂ := hp₁.leaves hl₂ (by simpa using hfp)
  change Goes base t e B _ (.act (.heap (.free p)) fun _ => .ret f) W₂
  refine Goes.release hpos h8 hend
    ⟨hl₂.ready (hl₁.ready hready), _, rfl, held_of hp₂.held, nofun⟩ rfl (.inl rfl)
    fun W₃ hgone hl₃ => Goes.ret ?_
  have hfresh₃ := hl₃.held hfresh₂ (by simpa using hfp.symm)
  rw [he]
  refine .resized hf hfresh₃ (.inr hgone) fun b hb i hi hin => ?_
  obtain rfl := hp.before hb
  calc W₃.heaps.mem (f + i) = W₂.heaps.mem (f + i) :=
        (hl₃.own f hfresh₂.1 (by simpa using hfp.symm)).2.bytes _ hfresh₂.2 i hin
    _ = W₁.heaps.mem (p + i) := hcopied i (by simp only at hi; split <;> omega) hi
    _ = B.heaps.mem (p + i) := hp₁.stays.bytes _ hb i hi

/-- ESP-IDF's heap is asked for what the region has not given. -/
theorem fallback_goes {rc : RealCall} {p n : ℕ} (hn : n ≠ 0) (hrc : rc.request = .alloc n)
    (hp : p = 0 ∨ ∃ k, World.Intact t B W p ⟨.reflex, k⟩ ∧ W.ready)
    (hours : e.served = true → Refused .reflex n done) (he : e.request = reallocRequest p n) :
    Goes base t e B done (.act (.real rc) fun f => moveTo f p n) W := by
  have hasked : (Prim.real rc).asked = some (.espIdf, .alloc n) := by simp [Prim.asked, hrc]
  rw [reallocRequest, if_neg hn] at he
  refine Goes.alloc hpos h8 hend (by simp [World.Safe, hrc, Request.pointer]) hasked
    (fun W' hl => ?_) fun f W' hf hheld hl => ?_
  · rw [moveTo, if_neg (by simp)]
    refine Goes.ret ?_
    rcases hp with rfl | ⟨k, hp, -⟩
    · rw [he, if_pos rfl]
      exact .refused (.inr ⟨refused_of_mem (by simp) hasked rfl, fun h => (hours h).append _⟩)
    · have hp' := hp.leaves hl (by simp)
      rw [he, if_neg hp.ne]
      exact .unresized hp'.held.1 hp'.stays ⟨refused_of_mem (by simp) hasked rfl,
        fun _ _ _ h => (hours h).append _⟩
  · rcases hp with rfl | ⟨k, hp, hready⟩
    · rw [moveTo, if_neg (by simp)]
      refine Goes.ret ?_
      rw [he, if_pos rfl]
      exact .allocated hf hheld
    · rw [if_neg hp.ne] at he
      exact moveTo_goes hpos h8 hend hf hheld (hp.leaves hl (by simp)) (hl.ready hready) he

/-- The region is asked to resize a block of its own, or for a new one. -/
theorem heapRealloc_goes {p n : ℕ} {rest : Code}
    (hp : p = 0 ∨ ∃ k, World.Intact t B W p ⟨.reflex, k⟩) (hready : W.ready)
    (he : e.request = reallocRequest p n)
    (hrest : n ≠ 0 → ∀ W', W'.ready → (p = 0 ∨ ∃ k, World.Intact t B W' p ⟨.reflex, k⟩) →
      Refused .reflex n (done ++ [(.heap (.realloc p n), 0)]) →
      Goes base t e B (done ++ [(.heap (.realloc p n), 0)]) rest W') :
    Goes base t e B done
      (.act (.heap (.realloc p n)) fun q => if q ≠ 0 ∨ n = 0 then .ret q else rest) W := by
  rcases hp with rfl | ⟨k, hp⟩
  · have hasked : (Prim.heap (.realloc 0 n)).asked = some (.reflex, .alloc n) := rfl
    have hsafe : W.Safe t (.heap (.realloc 0 n)) := ⟨hready, _, rfl, nofun, nofun⟩
    by_cases hn : n = 0
    · subst hn
      refine Goes.act hpos h8 hend hsafe fun W₁ r H' _ _ _ _ heff _ => ?_
      cases heff
      have hgo : Kernel.heapRealloc W₁.heaps.callers.heap 0 0 =
          allocLocked W₁.heaps.callers.heap 8 0 := if_pos rfl
      have hzero : (W₁.heaps.callers.perform (.realloc 0 0)).1 = 0 := by
        simp [Callers.perform, hgo, allocLocked]
      rw [hzero, if_pos (.inr rfl)]
      exact Goes.ret_null (he.trans (if_pos rfl))
    rw [reallocRequest, if_neg hn, if_pos rfl] at he
    refine Goes.alloc hpos h8 hend hsafe hasked (fun W' hl => ?_) fun a W' ha hheld _ => ?_
    · rw [if_neg (by simpa using hn)]
      exact hrest hn W' (hl.ready hready) (.inl rfl) (refused_of_mem (by simp) hasked rfl)
    · rw [if_pos (.inl ha)]
      exact Goes.ret (he ▸ .allocated ha hheld)
  have hasked : (Prim.heap (.realloc p n)).asked = some (.reflex, .resize p n) := by
    simp [Prim.asked, requestOf, hp.ne]
  have hsafe : W.Safe t (.heap (.realloc p n)) :=
    ⟨hready, .resize p n, by simp [requestOf, hp.ne], held_of hp.held, fun _ _ hc => by cases hc⟩
  by_cases hn : n = 0
  · subst hn
    rw [reallocRequest, if_pos rfl] at he
    refine Goes.release hpos h8 hend hsafe hasked (.inr rfl) fun W' hgone _ => ?_
    rw [if_pos (.inr rfl)]
    exact Goes.ret (he ▸ .released hgone)
  rw [reallocRequest, if_neg hn, if_neg hp.ne] at he
  refine Goes.resize hpos h8 hend hsafe hasked hn hp.held (fun W' hl => ?_)
    fun a W' ha hheld hgone hcopied => ?_
  · rw [if_neg (by simpa using hn)]
    exact hrest hn W' (hl.ready hready) (.inr ⟨k, hp.leaves hl (by simp)⟩)
      (refused_of_mem (by simp) hasked rfl)
  · rw [if_pos (.inl ha)]
    refine Goes.ret (he ▸ .resized ha hheld hgone fun b hb i hi hin => ?_)
    obtain rfl := hp.before hb
    exact (hcopied i hi hin).trans (hp.stays.bytes _ hb i hi)

/-- A block of ESP-IDF's that its heap resizes. -/
theorem realRealloc_goes {rc : RealCall} {p n k : ℕ} (hp : World.Intact t B W p ⟨.espIdf, k⟩)
    (hrc : rc.request = .resize p n) (he : e.request = reallocRequest p n) :
    Goes base t e B done (.act (.real rc) .ret) W := by
  have hasked : (Prim.real rc).asked = some (.espIdf, .resize p n) := by simp [Prim.asked, hrc]
  have hsafe : W.Safe t (.real rc) := by
    simp only [World.Safe, hrc]
    exact held_of hp.held
  by_cases hn : n = 0
  · subst hn
    exact Goes.release hpos h8 hend hsafe hasked (.inr rfl) fun W' hgone _ =>
      Goes.ret (he ▸ .released hgone)
  rw [reallocRequest, if_neg hn, if_neg hp.ne] at he
  refine Goes.resize hpos h8 hend hsafe hasked hn hp.held (fun W' hl => ?_)
    fun a W' ha hheld hgone hcopied => Goes.ret ?_
  · have hp' := hp.leaves hl (by simp)
    refine Goes.ret (he ▸ .unresized hp'.held.1 hp'.stays
      ⟨refused_of_mem (by simp) hasked rfl, fun b hb hwho => ?_⟩)
    rw [hp.before hb] at hwho
    cases hwho
  · rw [he]
    refine .resized ha hheld hgone fun b hb i hi hin => ?_
    obtain rfl := hp.before hb
    exact (hcopied i hi hin).trans (hp.stays.bytes _ hb i hi)

/-- The range check of a pointer that may be NULL. -/
theorem foreign_goes {p : ℕ} {next : Bool → Code} (hp : p = 0 ∨ ∃ b, World.Intact t B W p b)
    (hnull : p = 0 → Goes base t e B done (next false) W)
    (hours : ∀ k W', World.Intact t B W' p ⟨.reflex, k⟩ → W'.ready →
      Goes base t e B (done ++ [(.owns p, 1)]) (next false) W')
    (htheirs : ∀ k W', World.Intact t B W' p ⟨.espIdf, k⟩ →
      Goes base t e B (done ++ [(.owns p, 0)]) (next true) W') :
    Goes base t e B done (foreign p >>= next) W := by
  by_cases hz : p = 0
  · rw [foreign, if_pos hz]
    exact hnull hz
  obtain ⟨⟨who, k⟩, hb⟩ := hp.resolve_left hz
  rw [foreign, if_neg hz]
  refine Goes.owns hpos h8 hend hb.held (fun hwho W' hready hl => ?_) fun hwho W' hl => ?_
  · obtain rfl : who = .reflex := hwho
    exact hours k W' (hb.leaves hl (by simp)) hready
  · obtain rfl : who = .espIdf := hwho
    exact htheirs k W' (hb.leaves hl (by simp))

/-- `malloc` and its forms, up to the request made of each heap. -/
theorem ensured_goes {c : Call} {rc : RealCall} {n : ℕ} (hc : requestOf c = some (.alloc n))
    (hword : ∀ a n, c = .allocAligned a n → a < 2 ^ 32) (hrc : rc.request = .alloc n)
    (he : e.request = .alloc n) :
    Goes base t e B done (.act .ensureReady fun _ => .act (.heap c) fun p =>
      if p ≠ 0 then .ret p else .act (.real rc) .ret) W := by
  refine Goes.ensureReady hpos h8 hend fun W' hready _ =>
    allocOr_goes hpos h8 hend hc hword hrc he hready rfl fun done a W'' hne hheld => ?_
  rw [if_pos hne]
  exact Goes.ret (he ▸ .allocated hne hheld)

theorem wrapRealloc_goes {p n : ℕ} (hp : p = 0 ∨ ∃ b, World.Intact t B W p b)
    (he : e.request = reallocRequest p n) : Goes base t e B done (wrapRealloc p n) W := by
  refine Goes.ensureReady hpos h8 hend fun W' hready hl => ?_
  -- the block is the region's, or there is none
  have hours : ∀ done W'', W''.ready → (p = 0 ∨ ∃ k, World.Intact t B W'' p ⟨.reflex, k⟩) →
      Goes base t e B done (.act (.heap (.realloc p n)) fun q => if q ≠ 0 ∨ n = 0 then .ret q
        else .act (.real (.malloc n)) fun f => moveTo f p n) W'' := by
    intro done W'' hready hp
    refine heapRealloc_goes hpos h8 hend hp hready he fun hn W₃ hready hp hrefused => ?_
    exact fallback_goes hpos h8 hend hn rfl (hp.imp_right fun ⟨k, hk⟩ => ⟨k, hk, hready⟩)
      (fun _ => hrefused) he
  refine foreign_goes hpos h8 hend (hp.imp_right fun ⟨b, hb⟩ => ⟨b, hb.leaves hl (by simp)⟩)
    (fun hz => hours _ W' hready (.inl hz)) (fun k W'' hk hready => ?_) fun k W'' hk => ?_
  · exact hours _ W'' hready (.inr ⟨k, hk⟩)
  · exact realRealloc_goes hpos h8 hend hk rfl he

/-- The test of the capabilities that three wrappers begin with. -/
theorem byCaps_goes {caps n : ℕ} {rc : RealCall} {P : Code} (hserved : e.served = oursToServe caps)
    (hrc : rc.request = .alloc n) (he : e.request = .alloc n) (hP : Goes base t e B done P W) :
    Goes base t e B done (if !oursToServe caps then real rc else P) W := by
  cases hcaps : oursToServe caps with
  | true => exact hP
  | false =>
    refine real_goes hpos h8 hend hrc he fun h => ?_
    rw [hserved, hcaps] at h
    cases h

theorem capsReallocMove_goes {p n caps : ℕ}
    (hp : p = 0 ∨ ∃ k, World.Intact t B W p ⟨.reflex, k⟩ ∧ W.ready)
    (hours : n ≠ 0 → e.served = true → Refused .reflex n done)
    (he : e.request = reallocRequest p n) :
    Goes base t e B done (capsReallocMove p n caps) W := by
  by_cases hn : n = 0
  · subst hn
    rw [capsReallocMove, if_pos rfl]
    rw [reallocRequest, if_pos rfl] at he
    rcases hp with rfl | ⟨k, hp, hready⟩
    · exact Goes.ret_null he
    rw [if_pos hp.ne]
    exact Goes.release hpos h8 hend ⟨hready, _, rfl, held_of hp.held, nofun⟩ rfl (.inl rfl)
      fun W' hgone _ => Goes.ret (he ▸ .released hgone)
  · rw [capsReallocMove, if_neg hn]
    exact fallback_goes hpos h8 hend hn rfl hp (hours hn) he

theorem wrapCapsRealloc_goes {p n caps : ℕ} (hp : p = 0 ∨ ∃ b, World.Intact t B W p b)
    (hserved : e.served = oursToServe caps) (he : e.request = reallocRequest p n) :
    Goes base t e B done (wrapCapsRealloc p n caps) W := by
  -- the block is the region's, or there is none
  have hours : ∀ done W', (p = 0 ∨ ∃ k, World.Intact t B W' p ⟨.reflex, k⟩ ∧ W'.ready) →
      Goes base t e B done (if oursToServe caps then .act .ensureReady fun _ =>
        .act (.heap (.realloc p n)) fun q => if q ≠ 0 ∨ n = 0 then .ret q
          else capsReallocMove p n caps
        else capsReallocMove p n caps) W' := by
    intro done W' hp
    cases hcaps : oursToServe caps with
    | false =>
      refine capsReallocMove_goes hpos h8 hend hp (fun _ h => ?_) he
      rw [hserved, hcaps] at h
      cases h
    | true =>
      refine Goes.ensureReady hpos h8 hend fun W₁ hready hl => ?_
      refine heapRealloc_goes hpos h8 hend
        (hp.imp_right fun ⟨k, hk, _⟩ => ⟨k, hk.leaves hl (by simp)⟩) hready he
        fun _ W₂ hready₂ hp₂ hrefused => ?_
      exact capsReallocMove_goes hpos h8 hend (hp₂.imp_right fun ⟨k, hk⟩ => ⟨k, hk, hready₂⟩)
        (fun _ _ => hrefused) he
  refine foreign_goes hpos h8 hend hp (fun hz => hours _ W (.inl hz)) (fun k W' hk hready => ?_)
    fun k W' hk => ?_
  · exact hours _ W' (.inr ⟨k, hk, hready⟩)
  · exact realRealloc_goes hpos h8 hend hk rfl he

/-- Every wrapper keeps its promise, whoever runs between its primitives. -/
theorem body_goes (hp : e.pointer = 0 ∨ ∃ b, World.Intact t B W e.pointer b)
    (hwords : ∀ w ∈ e.words, w < 2 ^ 32) : Goes base t e B [] e.body W := by
  cases e with
  | malloc n => exact ensured_goes hpos h8 hend (c := .alloc n) rfl nofun rfl rfl
  | mallocR n => exact ensured_goes hpos h8 hend (c := .alloc n) rfl nofun rfl rfl
  | free p => exact freeAny_goes hpos h8 hend hp rfl
  | freeR p => exact freeAny_goes hpos h8 hend hp rfl
  | capsFree p => exact freeAny_goes hpos h8 hend hp rfl
  | calloc c n => exact callocFrom_goes hpos h8 hend rfl rfl
  | callocR c n => exact callocFrom_goes hpos h8 hend rfl rfl
  | realloc p n => exact wrapRealloc_goes hpos h8 hend hp rfl
  | reallocR p n => exact wrapRealloc_goes hpos h8 hend hp rfl
  | capsMalloc n caps =>
    exact byCaps_goes hpos h8 hend rfl rfl rfl
      (ensured_goes hpos h8 hend (c := .alloc n) rfl nofun rfl rfl)
  | capsCalloc c n caps =>
    exact byCaps_goes hpos h8 hend rfl rfl rfl (callocFrom_goes hpos h8 hend rfl rfl)
  | capsAlignedAlloc a n caps =>
    refine byCaps_goes hpos h8 hend rfl rfl rfl
      (ensured_goes hpos h8 hend (c := .allocAligned a n) rfl (fun a' n' hc => ?_) rfl rfl)
    cases hc
    exact hwords a (by simp [Entry.words])
  | capsRealloc p n caps => exact wrapCapsRealloc_goes hpos h8 hend hp rfl rfl

end Wrappers

end ReflexOS.HeapShim
