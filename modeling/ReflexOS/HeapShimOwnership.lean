import ReflexOS.HeapShimCalls

set_option autoImplicit false

/-!
# Mixed ownership

In every run a pointer goes back to the allocator that issued it, and every call that returns has
done what it owes.
-/
namespace ReflexOS.HeapShim
open ByteMemory BlockList Kernel Threads Runs

section Steps
variable {base : ℕ} {W : World} (hW : W.Sound base)
include hW

/-- A step beside every call, which names no block that a call is at work on. -/
theorem World.Sound.beside {H' : Heaps} {o : Option ℕ} (hk : Kept base W.heaps H' o)
    (hidle : ∀ p, o = some p → W.holder p = none) :
    World.Sound base ⟨H', W.holder⟩ ∧ ∀ t, World.Relied t W ⟨H', W.holder⟩ := by
  have hstays : ∀ p t, W.holder p = some t → W.heaps.Stays H' p := by
    intro p t hp
    refine hk.stays p (hW.out p t hp) fun ho => ?_
    rw [hidle p ho] at hp
    cases hp
  refine ⟨⟨hk.sound, fun p t hp => ?_⟩, fun t => ⟨fun _ => Iff.rfl, fun p => hstays p t, hk.ready⟩⟩
  rw [(hstays p t hp).issued]
  exact hW.out p t hp

theorem World.Sound.other {W' : World} (ho : Other base W W') :
    W'.Sound base ∧ ∀ t, World.Relied t W W' := by
  cases ho with
  | @store p i b v live idle lt =>
    refine hW.beside (o := some p) (hW.heaps.write live fun x hx => ?_) ?_
    · exact Function.update_of_ne (by omega) _ _
    · rintro q hq
      exact Option.some.inj hq ▸ idle
  | direct answers =>
    refine hW.beside (hW.heaps.answers (fun p hp => ?_) answers).1 fun p hp => ?_ <;> cases hp
  | @directFree p k H' owns idle answers =>
    have hown : ∀ q, (Request.release p).pointer = some q →
        ∃ n, W.heaps.issued q = some ⟨.espIdf, n⟩ :=
      fun q hq => ⟨k, Option.some.inj hq ▸ hW.heaps.issued_espIdf.mpr owns⟩
    exact hW.beside (hW.heaps.answers hown answers).1 fun q hq => Option.some.inj hq ▸ idle

/-- A call is made: the pointer that it is given is its own from now on. -/
theorem World.Sound.enter {t : ℕ} {e : Entry} {W' : World} (he : Enter t W e W') :
    W'.Sound base ∧ (∀ u ≠ t, World.Relied u W W') ∧
      (e.pointer = 0 ∨ ∃ b, World.Intact t W W' e.pointer b) := by
  obtain ⟨-, hlive, rfl⟩ := he
  by_cases hz : e.pointer = 0
  · simp only [if_pos hz]
    exact ⟨hW, fun u _ => .refl u W, .inl hz⟩
  simp only [if_neg hz]
  obtain ⟨hout, hidle⟩ := hlive.resolve_left hz
  refine ⟨⟨hW.heaps, fun p u hp => ?_⟩, fun u hu => ⟨fun p => ?_, fun p _ => .refl _ p, id⟩,
    .inr ?_⟩
  · by_cases hp' : p = e.pointer
    · exact hp' ▸ hout
    · exact hW.out p u ((Function.update_of_ne hp' _ _).symm.trans hp)
  · by_cases hp : p = e.pointer
    · subst hp
      simp [hidle, Ne.symm hu]
    · simp only [Function.update_of_ne hp]
  · obtain ⟨b, hb⟩ := Option.ne_none_iff_exists'.mp hout
    exact ⟨b, hz, ⟨Function.update_self _ _ _, hb⟩, .refl _ _⟩

/-- A call returns, and holds nothing any more. -/
theorem World.Sound.leave {t : ℕ} :
    (W.released t).Sound base ∧ ∀ u ≠ t, World.Relied u W (W.released t) := by
  have hiff : ∀ p u, (W.released t).holder p = some u ↔ u ≠ t ∧ W.holder p = some u := by
    intro p u
    simp only [World.released]
    split
    · rename_i hp
      rw [hp]
      simp only [reduceCtorEq, Option.some.injEq, false_iff, not_and]
      exact fun hu htu => hu htu.symm
    · rename_i hp
      refine ⟨fun h => ⟨?_, h⟩, fun h => h.2⟩
      rintro rfl
      exact hp h
  refine ⟨⟨hW.heaps, fun p u hp => hW.out p u ((hiff p u).mp hp).2⟩, fun u hu =>
    ⟨fun p => ?_, fun p _ => .refl _ p, id⟩⟩
  rw [hiff]
  exact and_iff_right hu

end Steps

theorem shim_holds {base : ℕ} (hpos : 0 < base) (h8 : base % 8 = 0)
    (hend : base + regionBytes < 2 ^ 32) : (contract base).Holds (shim base) Fits where
  refl := World.Relied.refl
  trans _ _ _ _ := World.Relied.trans
  enter t W e W' hW he := by
    obtain ⟨hW', hothers, hp⟩ := hW.enter he
    exact ⟨hW', hothers, body_goes hpos h8 hend hp he.words⟩
  exec t W op r W' hW hsafe hfits hx := by
    obtain ⟨H', heff, rfl⟩ := hx
    exact hW.after (hW.kept hpos h8 hend hsafe hfits heff) fun p hp => hsafe.target hp
  leave t W e B done a W' hW _ hl := by
    obtain rfl := hl
    exact hW.leave
  other W W' hW ho := hW.other ho

theorem good_atBoot {base : ℕ} {mem : Memory} :
    (contract base).Good (shim base) Fits (atBoot mem) :=
  ⟨⟨⟨.inl ⟨rfl, fun _ => rfl⟩, nofun, nofun⟩, nofun⟩, nofun⟩

/-- Every heap is asked about its own blocks only, every call that returns has done what it owes,
and blocks that are out share no byte. -/
structure Mixed (M : Machine) : Prop where
  asked : ∀ t op who q p, M.About t op → op.asked = some (who, q) → q.pointer = some p →
    ∃ n, M.world.heaps.issued p = some ⟨who, n⟩
  owed : ∀ t k a, M.tasks t = some k → k.left = .ret a →
    Owed t k.call.served k.before k.answers M.world k.call.request a
  apart : ∀ p b q c, M.world.heaps.issued p = some b → M.world.heaps.issued q = some c → p ≠ q →
    ∀ x, p ≤ x → x < p + b.size → ¬ (q ≤ x ∧ x < q + c.size)

/-- Ownership stays mixed correctly in every run whose aligned requests meet no free block too
close to the top of the word. -/
theorem mixed_ownership {base : ℕ} {mem : Memory} (hpos : 0 < base) (h8 : base % 8 = 0)
    (hend : base + regionBytes < 2 ^ 32) {ls : List (Label Entry)} {M : Machine}
    (hrun : Run (Guarded (Meets Fits) (shim base).Step) (atBoot mem) ls M) : Mixed M := by
  have hholds := shim_holds hpos h8 hend
  have hgood := hholds.run hrun good_atBoot
  refine ⟨fun t op who q p habout hasked hp => ?_, fun t k a task left => ?_, ?_⟩
  · obtain ⟨n, hn⟩ := (hgood.safe hholds habout).issuer hasked hp
    exact ⟨n, hn.2⟩
  · exact hgood.post hholds task left
  · exact fun p b q c hp hq hne x hlo hhi => hgood.1.heaps.disjoint hp hq hne hlo hhi

/-- One thread alone, with its call or without. -/
def solo (W : World) (k : Option (Task World Entry Prim ℕ ℕ)) : Machine where
  world := W
  tasks := Function.update (fun _ => none) 0 k

section Solo
variable {base : ℕ} {W W' : World} {e : Entry} {B : World} {done : List (Prim × ℕ)}

theorem solo_tasks {k : Option (Task World Entry Prim ℕ ℕ)} : (solo W k).tasks 0 = k := by
  simp only [solo, Function.update_self]

theorem solo_update {k k' : Option (Task World Entry Prim ℕ ℕ)} :
    (⟨W', Function.update (solo W k).tasks 0 k'⟩ : Machine) = solo W' k' := by
  simp only [solo, Function.update_idem]

theorem solo_enter (h : Enter 0 W e W') :
    (shim base).Step (solo W none) (.enter 0 e) (solo W' (some ⟨e, W, [], e.body⟩)) := by
  have hstep := @System.Step.enter _ _ _ _ _ (shim base) (solo W none) 0 e W' solo_tasks h
  rwa [solo_update] at hstep

theorem solo_exec {o : Prim} {next : ℕ → Code} {r : ℕ} {H' : Heaps}
    (h : Effect base W.heaps o r H') :
    (shim base).Step (solo W (some ⟨e, B, done, .act o next⟩)) (.exec 0)
      (solo (W.after 0 H') (some ⟨e, B, done ++ [(o, r)], next r⟩)) := by
  have hstep := @System.Step.exec _ _ _ _ _ (shim base) _ 0 _ o next r (W.after 0 H')
    (@solo_tasks W (some ⟨e, B, done, .act o next⟩)) rfl ⟨H', h, rfl⟩
  rwa [solo_update] at hstep

theorem solo_leave {a : ℕ} :
    (shim base).Step (solo W (some ⟨e, B, done, .ret a⟩)) (.leave 0)
      (solo (W.released 0) none) := by
  have hstep := @System.Step.leave _ _ _ _ _ (shim base) _ 0 _ a (W.released 0)
    (@solo_tasks W (some ⟨e, B, done, .ret a⟩)) rfl rfl
  rwa [solo_update] at hstep

/-- The one operation that a thread alone is about to take. -/
theorem solo_meets {o : Prim} {next : ℕ → Code} (h : Fits W o) :
    Meets Fits (solo W (some ⟨e, B, done, .act o next⟩)) (.exec 0) := by
  rintro o' ⟨k, next', task, left⟩
  rw [solo_tasks] at task
  obtain rfl := Option.some.inj task
  cases left
  exact h

theorem atBoot_eq {mem : Memory} : atBoot mem = solo (atBoot mem).world none := by
  rw [solo, Function.update_eq_self]
  rfl

theorem ensureReady_atBoot {mem : Memory} :
    Effect base (atBoot mem).world.heaps .ensureReady 0
      ⟨⟨heapInit mem base regionBytes, fun _ => none⟩, fun _ => none⟩ :=
  .ensureReady

/-- Where an aligned request is granted outside the region, the pointer goes back to the wrong
heap. -/
theorem strays {a n p : ℕ} {mem : Memory} {H' : Heap} (ha : a < 2 ^ 32) (hn : n < 2 ^ 32)
    (hp : p < 2 ^ 32) (hne : p ≠ 0)
    (hgrant : Kernel.heapAllocAligned (heapInit mem base regionBytes) a n = (p, H'))
    (hout : heapOwns H' p = false) : ∃ M : Machine,
      Run (shim base).Step (atBoot mem) [.enter 0 (.capsAlignedAlloc a n 0), .exec 0, .exec 0,
        .leave 0, .enter 0 (.free p), .exec 0] M ∧
      M.About 0 (.real (.capsFree p)) ∧ M.world.heaps.issued p = some ⟨.reflex, n⟩ := by
  have hwords : ∀ w ∈ (Entry.capsAlignedAlloc a n 0).words, w < 2 ^ 32 := by
    simp only [Entry.words, List.mem_cons, List.not_mem_nil, or_false]
    rintro w (rfl | rfl | rfl)
    · exact ha
    · exact hn
    · decide
  have hwords' : ∀ w ∈ (Entry.free p).words, w < 2 ^ 32 := by
    simpa [Entry.words] using hp
  let H₁ : Heaps := ⟨⟨heapInit mem base regionBytes, fun _ => none⟩, fun _ => none⟩
  let H₂ : Heaps := ⟨⟨H', Function.update (fun _ => none) p (some ⟨n, a⟩)⟩, fun _ => none⟩
  have hissued : H₂.issued p = some ⟨.reflex, n⟩ := by simp [H₂, Heaps.issued]
  have halloc : Effect base H₁ (.heap (.allocAligned a n)) p H₂ := by
    have h := @Effect.heap base H₁ (.allocAligned a n)
    simp only [Callers.perform, H₁, hgrant, Callers.hand_of_ne hne] at h
    exact h
  have howns : Effect base H₂ (.owns p) 0 H₂ := by
    have h := @Effect.owns base H₂ p
    rwa [show heapOwns H₂.callers.heap p = false from hout] at h
  let W₂ : World := ((atBoot mem).world.after 0 H₁).after 0 H₂
  have hidle : (W₂.released 0).holder p = none := by
    have hnew : W₂.holder p = some 0 := by
      rw [World.after_ne (by rw [hissued]; simp [World.after, H₁, Heaps.issued]), hissued]
      rfl
    simp only [World.released, hnew, if_true]
  rw [atBoot_eq]
  let W₄ : World := ⟨H₂, Function.update (W₂.released 0).holder p (some 0)⟩
  refine ⟨solo (W₄.after 0 H₂) (some ⟨.free p, W₂.released 0, [(.owns p, 0)],
    .act (.real (.capsFree p)) .ret⟩), ?_, ⟨_, _, solo_tasks, rfl⟩, hissued⟩
  refine .cons (solo_enter ⟨hwords, .inl rfl, rfl⟩) (.cons (solo_exec ensureReady_atBoot)
    (.cons (solo_exec halloc) ?_))
  have hret : (if p ≠ 0 then Prog.ret p else HeapShim.real (.capsAlignedAlloc a n 0)) =
      (Prog.ret p : Code) := if_pos hne
  have hbody : (Entry.free p).body = .act (.owns p) fun o =>
      if o ≠ 0 then heapFree p else HeapShim.real (.capsFree p) := by
    rw [Entry.body, wrapFree, freeAny, if_neg hne]
    rfl
  have hlive : H₂.issued p ≠ none := by simp [hissued]
  have hgive : Enter 0 (W₂.released 0) (.free p) W₄ := by
    refine ⟨hwords', .inr ⟨hlive, hidle⟩, ?_⟩
    change W₄ = ⟨H₂, if p = 0 then _ else _⟩
    rw [if_neg hne]
    rfl
  change Run _ (solo W₂ (some ⟨_, _, _, if p ≠ 0 then Prog.ret p else _⟩)) _ _
  rw [hret]
  refine .cons solo_leave (.cons (solo_enter hgive) (.cons ?_ (.nil _)))
  rw [hbody]
  exact solo_exec howns

/-- `malloc` up to the region's answer. -/
theorem asks {n : ℕ} {mem : Memory} (hn : n < 2 ^ 32) : ∃ M : Machine,
    Run (Guarded (Meets Fits) (shim base).Step) (atBoot mem)
      [.enter 0 (.malloc n), .exec 0, .exec 0] M := by
  have hwords : ∀ w ∈ (Entry.malloc n).words, w < 2 ^ 32 := by simpa [Entry.words] using hn
  rw [atBoot_eq]
  exact ⟨_, .cons ⟨trivial, solo_enter ⟨hwords, .inl rfl, rfl⟩⟩
    (.cons ⟨solo_meets trivial, solo_exec ensureReady_atBoot⟩
      (.cons ⟨solo_meets trivial, solo_exec .heap⟩ (.nil _)))⟩

end Solo

/-- A request that wraps is granted past the region, and `free` takes the payload to ESP-IDF's
heap. -/
theorem mixed_ownership_wraps : ∃ M : Machine,
    Run (shim 0x40808000).Step (atBoot fun _ => 0)
      [.enter 0 (.capsAlignedAlloc 0x40000 0xFFFF8000 0), .exec 0, .exec 0, .leave 0,
        .enter 0 (.free 0x40840000), .exec 0] M ∧
      M.About 0 (.real (.capsFree 0x40840000)) ∧
      M.world.heaps.issued 0x40840000 = some ⟨.reflex, 0xFFFF8000⟩ ∧ ¬ Mixed M := by
  have hgrant : (Kernel.heapAllocAligned (heapInit (fun _ => 0) 0x40808000 regionBytes) 0x40000
      0xFFFF8000).1 = 0x40840000 := by decide +kernel
  have hout : heapOwns (Kernel.heapAllocAligned (heapInit (fun _ => 0) 0x40808000 regionBytes)
      0x40000 0xFFFF8000).2 0x40840000 = false := by decide +kernel
  obtain ⟨M, hrun, habout, hissued⟩ := @strays 0x40808000 0x40000 0xFFFF8000 0x40840000 _ _
    (by decide) (by decide) (by decide) (by decide) (Prod.ext hgrant rfl) hout
  refine ⟨M, hrun, habout, hissued, fun hmixed => ?_⟩
  obtain ⟨n, hn⟩ := hmixed.asked 0 _ _ _ _ habout rfl rfl
  rw [hissued] at hn
  cases hn

/-- A call as far as the region's answer. -/
theorem mixed_ownership_asks : ∃ M : Machine,
    Run (Guarded (Meets Fits) (shim 0x40808000).Step) (atBoot fun _ => 0)
      [.enter 0 (.malloc 24), .exec 0, .exec 0] M ∧ Mixed M := by
  obtain ⟨M, hrun⟩ := @asks 0x40808000 24 (fun _ => 0) (by decide)
  exact ⟨M, hrun, mixed_ownership (by decide) (by decide) (by decide) hrun⟩

end ReflexOS.HeapShim
