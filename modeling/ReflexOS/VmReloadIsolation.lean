import ReflexOS.VmCacheHome
import ReflexOS.VmCacheRefusal
import ReflexOS.VmReload

set_option autoImplicit false

/-!
# The cache across a reload

The lines outlive the program that filled them. The next program reads its own image exactly
where no line of its sets disagrees with that image.
-/
namespace ReflexOS.Vm
open VmTernary VmMmu WriteBack Runs

variable {W : Type*}

/-- The word a program last stored at an address, or the word of its image. -/
def current (words : ℕ → Word18) (stored : List (ℕ × Word18)) (a : ℕ) : Word18 :=
  (stored.lookup a).getD (words a)

structure Session (W : Type*) where
  machine : Machine W
  /-- What the program has stored, the newest first. -/
  stored : List (ℕ × Word18)

def CacheOp.remember (stored : List (ℕ × Word18)) : CacheOp → List (ℕ × Word18)
  | .store a w => (a, w) :: stored
  | _ => stored

/-- The memory instructions of a program that stores into its private memory only. -/
def CacheOp.OfProgram (count : ℕ) : CacheOp → Prop
  | .load _ => True
  | .store a _ => a < count
  | .flush _ => True
  | .flushInvalidate _ => True
  | .invalidate _ => False
  | .flushAll => False

inductive SessionStep (count : ℕ) : Session W → CacheOp → Session W → Prop where
  | step {s : Session W} {op : CacheOp} (h : op.OfProgram count) :
      SessionStep count s op ⟨(op.perform s.machine).2, op.remember s.stored⟩

/-- A load from private memory gives the program's own word, and private memory holds a word of
the image or one that the program stored. -/
def OwnWords (count : ℕ) (words : ℕ → Word18) (s : Session W) (op : CacheOp)
    (s' : Session W) : Prop :=
  (∀ a < count, op = .load a →
    (op.perform s.machine).1 = (Err.ok, some (current words s.stored a))) ∧
  ∀ a < count, s'.machine.word a = words a ∨ (a, s'.machine.word a) ∈ s'.stored

def Isolated (count : ℕ) (words : ℕ → Word18) (m : Machine W) : Prop :=
  ∀ ops s, Run (SessionStep count) ⟨m, []⟩ ops s →
    Always (SessionStep count) (OwnWords count words) ⟨m, []⟩ ops s

/-- In the sets of private memory, a copy of a private word agrees with the image, and a line
that has to be written down is such a copy. -/
def Fresh (count : ℕ) (words : ℕ → Word18) (c : Cache) : Prop :=
  ∀ a < count, let line := c.sets (setIndex a)
    (line.state ≠ .invalid → line.tag = a → line.value = words a) ∧
      (line.state = .dirty → line.tag < count ∧ line.value = words line.tag)

/-- A line outside private memory is no copy of it. -/
def hide (count : ℕ) (line : Line ℕ Word18) : Line ℕ Word18 :=
  if line.tag < count then line else { line with state := .invalid }

section Hide

variable {count : ℕ} {line : Line ℕ Word18}

theorem hide_inside (h : line.tag < count) : hide count line = line := if_pos h

theorem hide_outside (h : ¬ line.tag < count) : (hide count line).state = .invalid := by
  rw [hide, if_neg h]

@[simp] theorem hide_tag (count : ℕ) (line : Line ℕ Word18) : (hide count line).tag = line.tag := by
  unfold hide
  split <;> rfl

@[simp] theorem hide_value (count : ℕ) (line : Line ℕ Word18) :
    (hide count line).value = line.value := by
  unfold hide
  split <;> rfl

theorem hide_valid (h : (hide count line).state ≠ .invalid) :
    line.tag < count ∧ hide count line = line := by
  by_cases htag : line.tag < count
  · exact ⟨htag, hide_inside htag⟩
  · exact absurd (hide_outside htag) h

theorem hide_not_dirty (h : line.state ≠ .dirty) : (hide count line).state ≠ .dirty := by
  intro hdirty
  have hvalid : (hide count line).state ≠ .invalid := by
    rw [hdirty]
    decide
  rw [(hide_valid hvalid).2] at hdirty
  exact h hdirty

theorem hide_drop (count : ℕ) (line : Line ℕ Word18) :
    hide count { line with state := .invalid } = { hide count line with state := .invalid } := by
  unfold hide
  split <;> rfl

theorem hide_update (count : ℕ) (sets : Fin 16 → Line ℕ Word18) (i : Fin 16)
    (line : Line ℕ Word18) :
    (fun j => hide count (Function.update sets i line j)) =
      Function.update (fun j => hide count (sets j)) i (hide count line) := by
  funext j
  by_cases hij : j = i
  · rw [hij, Function.update_self, Function.update_self]
  · rw [Function.update_of_ne hij, Function.update_of_ne hij]

end Hide

/-- Behind its cache the program sees `ref`, and the lines that its accesses write down are
copies of private words. -/
structure Shielded (p count : ℕ) (m : Machine W) (c : Cache) (ref : ℕ → Word18) : Prop where
  attached : m.vm.cache = some c
  layout : Layout p count m.vm.mmu
  coherent : Coherent setIndex { a | a < count } (fun i => hide count (c.sets i)) m.word ref
  inside : ∀ a < count, (c.sets (setIndex a)).state = .dirty → (c.sets (setIndex a)).tag < count

/-- Every private word of memory stays, or becomes what the program sees. -/
def Drained (count : ℕ) (m m' : Machine W) (ref : ℕ → Word18) : Prop :=
  ∀ a < count, m'.word a = m.word a ∨ m'.word a = ref a

section Shielded

variable {p count : ℕ} {m : Machine W} {c d : Cache} {ref : ℕ → Word18} {a : ℕ}

theorem setLine_self (c : Cache) (i : Fin 16) (line : Line ℕ Word18) :
    (c.setLine i line).sets i = line := by simp [Cache.setLine]

theorem Drained.refl (count : ℕ) (m : Machine W) (ref : ℕ → Word18) : Drained count m m ref :=
  fun _ _ => .inl rfl

theorem Shielded.setCache (h : Shielded p count m c ref) (hsets : d.sets = c.sets) :
    Shielded p count (m.setCache d) d ref := by
  refine ⟨rfl, h.layout, ?_, ?_⟩
  · rw [hsets]
    exact h.coherent
  · rw [hsets]
    exact h.inside

/-- One line is replaced by a copy of a private word, or by one that needs no writing down. -/
theorem Shielded.setLine (h : Shielded p count m c ref) (hsets : d.sets = c.sets) {i : Fin 16}
    {line : Line ℕ Word18} {ref' : ℕ → Word18} (hline : line.state = .dirty → line.tag < count)
    (hcoh : Coherent setIndex { a | a < count }
      (Function.update (fun j => hide count (c.sets j)) i (hide count line)) m.word ref') :
    Shielded p count (m.setCache (d.setLine i line)) (d.setLine i line) ref' := by
  refine ⟨rfl, h.layout, ?_, fun b hb => ?_⟩
  · rw [Cache.setLine, hsets, hide_update]
    exact hcoh
  · rw [Cache.setLine, hsets]
    dsimp only
    by_cases hi : setIndex b = i
    · rw [hi, Function.update_self]
      exact hline
    · rw [Function.update_of_ne hi]
      exact h.inside b hb

theorem Shielded.evict (h : Shielded p count m c ref) {i : Fin 16}
    (hi : (c.sets i).state = .dirty) (htag : (c.sets i).tag < count) :
    ∃ g, memSetRaw m (c.sets i).tag (c.sets i).value = .ok g ∧ g.vm = m.vm ∧
      Shielded p count g c ref ∧ Synced (c.sets i) g.word ∧ Drained count m g ref := by
  have hhide : hide count (c.sets i) = c.sets i := hide_inside htag
  have hvalid : (c.sets i).state ≠ .invalid := by
    rw [hi]
    decide
  obtain ⟨g, hset, hvm, hword⟩ := h.layout.memSetRaw htag (c.sets i).value
  have hdown := h.coherent.writeBack (i := i) (by rw [hhide, hi])
  rw [hhide] at hdown
  have hvalue : (c.sets i).value = ref (c.sets i).tag := by
    have hhit := h.coherent.hit (i := i) (by rw [hhide]; exact hvalid)
    rwa [hhide] at hhit
  refine ⟨g, hset, hvm, ⟨?_, ?_, ?_, h.inside⟩, ?_, ?_⟩
  · rw [hvm]
    exact h.attached
  · rw [hvm]
    exact h.layout
  · exact hdown.congr hword
  · intro _
    rw [hword _ htag, Function.update_self]
  · intro b hb
    rw [hword b hb]
    by_cases hbt : b = (c.sets i).tag
    · rw [hbt, Function.update_self]
      exact .inr hvalue
    · rw [Function.update_of_ne hbt]
      exact .inl rfl

theorem Shielded.synced (h : ¬ (c.sets (setIndex a)).state = .dirty) :
    Synced (hide count (c.sets (setIndex a))) m.word :=
  synced_of_not_dirty (hide_not_dirty h)

theorem Shielded.fetch (h : Shielded p count m c ref) (hsets : d.sets = c.sets) (ha : a < count)
    (hs : Synced (hide count (c.sets (setIndex a))) m.word) :
    (cacheFetch m d a).1 = .ok (ref a) ∧
      ∃ c', Shielded p count (cacheFetch m d a).2 c' ref ∧
        (cacheFetch m d a).2.word = m.word := by
  have hword : m.word a = ref a := h.coherent.mem_of_synced ha hs
  rw [cacheFetch, h.layout.memGetRaw ha, hword]
  refine ⟨rfl, _, h.setLine hsets (fun _ => ha) ?_, rfl⟩
  rw [hide_inside (show Line.tag _ < count from ha), ← hword]
  exact h.coherent.fill ha hs

theorem Shielded.fetch_outside (h : Shielded p count m c ref) (hsets : d.sets = c.sets)
    (ha : ¬ a < count) :
    ∃ c', Shielded p count (cacheFetch m d a).2 c' ref ∧ (cacheFetch m d a).2.word = m.word := by
  rw [cacheFetch_unmapped (h.layout.outside ha)]
  exact ⟨_, h.setCache hsets, rfl⟩

theorem Drained.of_word {g g' : Machine W} (h : Drained count m g ref) (hword : g'.word = g.word) :
    Drained count m g' ref := by
  intro b hb
  rw [hword]
  exact h b hb

theorem Shielded.load (h : Shielded p count m c ref) (ha : a < count) :
    (cacheLoad m a).1 = .ok (ref a) ∧
      ∃ c', Shielded p count (cacheLoad m a).2 c' ref ∧ Drained count m (cacheLoad m a).2 ref := by
  unfold cacheLoad
  rw [h.attached]
  dsimp only
  split
  next hhit =>
    have hhide : hide count (c.sets (setIndex a)) = c.sets (setIndex a) :=
      hide_inside (hhit.2.trans_lt ha)
    have hvalue := h.coherent.hit (i := setIndex a) (by rw [hhide]; exact hhit.1)
    rw [hhide, hhit.2] at hvalue
    exact ⟨congrArg _ hvalue, _, h.setCache rfl, .refl count m ref⟩
  split
  next hdirty =>
    obtain ⟨g, hset, -, hdown, hsynced, hdrained⟩ := h.evict hdirty (h.inside a ha hdirty)
    rw [hset]
    dsimp only
    rw [← hide_inside (h.inside a ha hdirty)] at hsynced
    obtain ⟨hvalue, c', hc', hword⟩ := hdown.fetch (d := { c with
      misses := (c.misses + 1) % 2 ^ 32, evictions := (c.evictions + 1) % 2 ^ 32 }) rfl ha hsynced
    exact ⟨hvalue, c', hc', hdrained.of_word hword⟩
  next hclean =>
    obtain ⟨hvalue, c', hc', hword⟩ := h.fetch (d := { c with
      misses := (c.misses + 1) % 2 ^ 32 }) rfl ha (Shielded.synced hclean)
    exact ⟨hvalue, c', hc', (Drained.refl count m ref).of_word hword⟩

/-- A load from outside may write a private word down, and fails or hits a stray line. -/
theorem Shielded.load_outside (h : Shielded p count m c ref) (ha : ¬ a < count) :
    ∃ c', Shielded p count (cacheLoad m a).2 c' ref ∧ Drained count m (cacheLoad m a).2 ref := by
  unfold cacheLoad
  rw [h.attached]
  dsimp only
  split
  · exact ⟨_, h.setCache rfl, .refl count m ref⟩
  split
  next hdirty =>
    by_cases htag : (c.sets (setIndex a)).tag < count
    · obtain ⟨g, hset, -, hdown, -, hdrained⟩ := h.evict hdirty htag
      rw [hset]
      dsimp only
      obtain ⟨c', hc', hword⟩ := hdown.fetch_outside (d := { c with
        misses := (c.misses + 1) % 2 ^ 32, evictions := (c.evictions + 1) % 2 ^ 32 }) rfl ha
      exact ⟨c', hc', hdrained.of_word hword⟩
    · rw [memSetRaw_unmapped (h.layout.outside htag)]
      exact ⟨_, h.setCache rfl, .refl count m ref⟩
  next hclean =>
    obtain ⟨c', hc', hword⟩ := h.fetch_outside (d := { c with
      misses := (c.misses + 1) % 2 ^ 32 }) rfl ha
    exact ⟨c', hc', (Drained.refl count m ref).of_word hword⟩

theorem Shielded.store (h : Shielded p count m c ref) (ha : a < count) (w : Word18) :
    ∃ c', Shielded p count (cacheStore m a w).2 c' (Function.update ref a w) ∧
      Drained count m (cacheStore m a w).2 ref := by
  have hline : hide count ⟨a, .dirty, w⟩ = ⟨a, .dirty, w⟩ := hide_inside ha
  unfold cacheStore
  rw [h.attached]
  dsimp only
  split
  next hevict =>
    have htag := h.inside a ha hevict.1
    obtain ⟨g, hset, -, hdown, hsynced, hdrained⟩ := h.evict hevict.1 htag
    rw [hset]
    refine ⟨_, hdown.setLine (d := { c with evictions := (c.evictions + 1) % 2 ^ 32 }) rfl
      (fun _ => ha) ?_, hdrained⟩
    rw [hline]
    rw [← hide_inside htag] at hsynced
    exact hdown.coherent.store w ha (.inl hsynced)
  next hkeep =>
    refine ⟨_, h.setLine rfl (fun _ => ha) ?_, .refl count m ref⟩
    rw [hline]
    refine h.coherent.store w ha ?_
    by_cases hdirty : (c.sets (setIndex a)).state = .dirty
    · exact .inr ((hide_tag count _).trans (by_contra fun htag => hkeep ⟨hdirty, htag⟩))
    · exact .inl (Shielded.synced hdirty)

theorem Shielded.flush (h : Shielded p count m c ref) (a : ℕ) :
    ∃ c', Shielded p count (cacheFlush m a).2 c' ref ∧ Drained count m (cacheFlush m a).2 ref ∧
      ((cacheFlush m a).1 = Err.ok → (c'.sets (setIndex a)).tag = a →
        (c'.sets (setIndex a)).state ≠ .dirty) := by
  unfold cacheFlush
  rw [h.attached]
  dsimp only
  split
  next hdirty =>
    by_cases htag : (c.sets (setIndex a)).tag < count
    · obtain ⟨g, hset, -, hdown, hsynced, hdrained⟩ := h.evict hdirty.1 htag
      rw [hset]
      have hhide := hide_inside htag
      have hcoh := hdown.coherent.demote (i := setIndex a) (by rw [hhide, hdirty.1])
        (by rw [hhide]; exact hsynced)
      rw [hhide] at hcoh
      refine ⟨_, hdown.setLine (d := c) rfl LineState.noConfusion ?_, hdrained, fun _ _ => ?_⟩
      · have hclean : hide count { c.sets (setIndex a) with state := .clean } =
            { c.sets (setIndex a) with state := .clean } := hide_inside htag
        rwa [hclean]
      · rw [setLine_self]
        exact LineState.noConfusion
    · rw [memSetRaw_unmapped (h.layout.outside htag)]
      have hfail : Err.notFound ≠ Err.ok := by decide
      exact ⟨c, h, .refl count m ref, fun hok => absurd hok hfail⟩
  next hkeep =>
    exact ⟨c, h, .refl count m ref, fun _ htag hdirty => hkeep ⟨hdirty, htag⟩⟩

theorem Shielded.invalidate (h : Shielded p count m c ref)
    (hs : (c.sets (setIndex a)).tag = a → (c.sets (setIndex a)).state ≠ .dirty) :
    ∃ c', Shielded p count (cacheInvalidate m a).2 c' ref ∧
      (cacheInvalidate m a).2.word = m.word := by
  unfold cacheInvalidate
  rw [h.attached]
  dsimp only
  split
  next htag =>
    refine ⟨_, h.setLine rfl LineState.noConfusion ?_, rfl⟩
    rw [hide_drop]
    exact h.coherent.drop (Shielded.synced (hs htag))
  · exact ⟨c, h, rfl⟩

theorem Shielded.flushInvalidate (h : Shielded p count m c ref) (a : ℕ) :
    ∃ c', Shielded p count (cacheFlushInvalidate m a).2 c' ref ∧
      Drained count m (cacheFlushInvalidate m a).2 ref := by
  obtain ⟨c', hc', hdrained, hclean⟩ := h.flush a
  unfold cacheFlushInvalidate
  dsimp only
  split
  next hok =>
    obtain ⟨c'', hc'', hword⟩ := hc'.invalidate (hclean hok)
    exact ⟨c'', hc'', hdrained.of_word hword⟩
  · exact ⟨c', hc', hdrained⟩

end Shielded

section Session

variable {p count : ℕ} {words : ℕ → Word18} {s s' : Session W} {op : CacheOp} {a : ℕ}

theorem current_remember (words : ℕ → Word18) (stored : List (ℕ × Word18)) (a : ℕ) (w : Word18) :
    current words ((a, w) :: stored) = Function.update (current words stored) a w := by
  funext b
  by_cases hba : b = a
  · rw [hba, Function.update_self, current, List.lookup_cons_self, Option.getD_some]
  · rw [Function.update_of_ne hba, current, List.lookup_cons, beq_false_of_ne hba]
    rfl

theorem lookup_mem {stored : List (ℕ × Word18)} {w : Word18} (h : stored.lookup a = some w) :
    (a, w) ∈ stored := by
  induction stored with
  | nil => cases h
  | cons e stored ih =>
    by_cases hae : a = e.1
    · subst hae
      rw [List.lookup_cons_self] at h
      exact List.mem_cons.mpr (.inl (Prod.ext rfl (Option.some.inj h).symm))
    · rw [List.lookup_cons, beq_false_of_ne hae] at h
      exact List.mem_cons_of_mem e (ih h)

/-- What the program sees is its own. -/
theorem current_own (words : ℕ → Word18) (stored : List (ℕ × Word18)) (a : ℕ) :
    current words stored a = words a ∨ (a, current words stored a) ∈ stored := by
  unfold current
  cases h : stored.lookup a with
  | none => exact .inl rfl
  | some w => exact .inr (lookup_mem h)

/-- The program sees its own words, and memory holds no others. -/
structure Served (p count : ℕ) (words : ℕ → Word18) (s : Session W) : Prop where
  shielded : ∃ c, Shielded p count s.machine c (current words s.stored)
  own : ∀ a < count, s.machine.word a = words a ∨ (a, s.machine.word a) ∈ s.stored

theorem Served.drained (h : Served p count words s) {g : Machine W}
    (hd : Drained count s.machine g (current words s.stored)) (ha : a < count) :
    g.word a = words a ∨ (a, g.word a) ∈ s.stored := by
  rcases hd a ha with hword | hword
  · rw [hword]
    exact h.own a ha
  · rw [hword]
    exact current_own words s.stored a

theorem Served.step (h : Served p count words s) (hstep : SessionStep count s op s') :
    Served p count words s' := by
  obtain ⟨c, hc⟩ := h.shielded
  cases hstep with
  | step hop =>
    cases op with
    | load a =>
      have hload : ∃ c', Shielded p count (cacheLoad s.machine a).2 c' (current words s.stored) ∧
          Drained count s.machine (cacheLoad s.machine a).2 (current words s.stored) := by
        by_cases ha : a < count
        · exact (hc.load ha).2
        · exact hc.load_outside ha
      obtain ⟨c', hc', hdrained⟩ := hload
      rw [perform_load]
      exact ⟨⟨c', hc'⟩, fun b hb => h.drained hdrained hb⟩
    | store a w =>
      obtain ⟨c', hc', hdrained⟩ := hc.store hop w
      refine ⟨⟨c', ?_⟩, fun b hb => ?_⟩
      · rw [CacheOp.remember, current_remember]
        exact hc'
      · exact (h.drained hdrained hb).imp_right (List.mem_cons_of_mem (a, w))
    | flush a =>
      obtain ⟨c', hc', hdrained, -⟩ := hc.flush a
      exact ⟨⟨c', hc'⟩, fun b hb => h.drained hdrained hb⟩
    | flushInvalidate a =>
      obtain ⟨c', hc', hdrained⟩ := hc.flushInvalidate a
      exact ⟨⟨c', hc'⟩, fun b hb => h.drained hdrained hb⟩
    | invalidate a => exact hop.elim
    | flushAll => exact hop.elim

theorem Served.ownWords (h : Served p count words s) (hstep : SessionStep count s op s') :
    OwnWords count words s op s' := by
  refine ⟨fun a ha hop => ?_, (h.step hstep).own⟩
  subst hop
  obtain ⟨c, hc⟩ := h.shielded
  exact perform_load_ok (hc.load ha).1

theorem Served.isolated {m : Machine W} (h : Served p count words ⟨m, []⟩) :
    Isolated count words m := by
  intro ops s hrun
  have hserved : ∀ s₀ : Session W, Served p count words s₀ → Run (SessionStep count) s₀ ops s →
      Always (SessionStep count) (OwnWords count words) s₀ ops s := by
    clear hrun
    intro s₀ hs₀ hrun
    induction hrun with
    | nil s => exact .nil s
    | cons hstep _ ih => exact .cons hstep (hs₀.ownWords hstep) (ih (hs₀.step hstep))
  exact hserved _ h hrun

end Session

section Reload

variable {host : Host W} {m : Machine W} {p count : ℕ} {words : ℕ → Word18} {c : Cache}

/-- A cache that agrees with the image shields the program that starts on it. -/
theorem Fresh.served (h : Fresh count words c) (hc : m.vm.cache = some c) (hhomed : Homed c)
    (hlayout : Layout p count m.vm.mmu) (hwords : ∀ a < count, m.word a = words a) :
    Served p count words ⟨m, []⟩ := by
  have hvalid : ∀ i, (hide count (c.sets i)).state ≠ .invalid →
      setIndex (c.sets i).tag = i ∧ (c.sets i).tag < count ∧
        (c.sets i).value = words (c.sets i).tag := by
    intro i hi
    obtain ⟨htag, hhide⟩ := hide_valid hi
    rw [hhide] at hi
    have hhome := hhomed i hi
    have hcopy := (h _ htag).1
    rw [hhome] at hcopy
    exact ⟨hhome, htag, hcopy hi rfl⟩
  refine ⟨⟨c, hc, hlayout, ⟨?_, ?_, ?_, ?_⟩, fun a ha hdirty => ((h a ha).2 hdirty).1⟩,
    fun a ha => .inl (hwords a ha)⟩
  · intro i hi
    rw [hide_tag]
    exact (hvalid i hi).1
  · intro i hi
    rw [hide_tag]
    exact (hvalid i hi).2.1
  · intro i hi
    have hline := hvalid i (by rw [hi]; decide)
    rw [hide_tag, hide_value, hwords _ hline.2.1, hline.2.2]
  · intro a ha
    by_cases hhit : (hide count (c.sets (setIndex a))).state ≠ .invalid ∧
        (hide count (c.sets (setIndex a))).tag = a
    · rw [view_hit hhit.1 hhit.2, hide_value, (hvalid _ hhit.1).2.2]
      rw [hide_tag] at hhit
      rw [hhit.2]
      rfl
    · rw [view_miss hhit]
      exact hwords a ha

/-- A load that misses fails over a dirty line from outside, and writes any other down. -/
theorem cacheLoad_evicts (hc : m.vm.cache = some c) (hlayout : Layout p count m.vm.mmu) {a : ℕ}
    (htag : (c.sets (setIndex a)).tag ≠ a) (hdirty : (c.sets (setIndex a)).state = .dirty) :
    (¬ (c.sets (setIndex a)).tag < count → (cacheLoad m a).1 = .error Err.notFound) ∧
      ((c.sets (setIndex a)).tag < count →
        (cacheLoad m a).2.word (c.sets (setIndex a)).tag = (c.sets (setIndex a)).value) := by
  have hmiss : ¬ ((c.sets (setIndex a)).state ≠ .invalid ∧ (c.sets (setIndex a)).tag = a) :=
    fun hhit => htag hhit.2
  unfold cacheLoad
  rw [hc]
  dsimp only
  rw [if_neg hmiss, if_pos hdirty]
  constructor
  · intro hout
    rw [memSetRaw_unmapped (hlayout.outside hout)]
  · intro hin
    obtain ⟨g, hset, hvm, hword⟩ := hlayout.memSetRaw hin (c.sets (setIndex a)).value
    rw [hset]
    dsimp only
    rw [cacheFetch_word, hword _ hin, Function.update_self]

/-- One load of each private word tells whether the cache agrees with the image. -/
theorem Isolated.fresh (h : Isolated count words m) (hc : m.vm.cache = some c)
    (hlayout : Layout p count m.vm.mmu) : Fresh count words c := by
  intro a ha
  have halways := h [.load a] _ (.cons (.step trivial) (.nil _))
  cases halways with
  | cons hstep hown _ =>
    cases hstep with
    | step _ =>
      have hload := hown.1 a ha rfl
      have hcell : ∀ b < count, (cacheLoad m a).2.word b = words b := by
        intro b hb
        rw [← perform_load]
        exact (hown.2 b hb).resolve_right List.not_mem_nil
      have hok : (cacheLoad m a).1 = .ok (words a) := perform_load_word hload
      constructor
      · intro hvalid htag
        rw [cacheLoad_hit hc ⟨hvalid, htag⟩] at hok
        exact Except.ok.inj hok
      · intro hdirty
        by_cases htag : (c.sets (setIndex a)).tag = a
        · have hvalid : (c.sets (setIndex a)).state ≠ .invalid := by
            rw [hdirty]
            decide
          rw [cacheLoad_hit hc ⟨hvalid, htag⟩] at hok
          rw [htag]
          exact ⟨ha, Except.ok.inj hok⟩
        · obtain ⟨hout, hin⟩ := cacheLoad_evicts hc hlayout htag hdirty
          have hinside : (c.sets (setIndex a)).tag < count := by
            by_contra hfar
            rw [hout hfar] at hok
            cases hok
          exact ⟨hinside, (hin hinside).symm.trans (hcell _ hinside)⟩

/-- After any run of the old program and a reload, the new program is served its own words exactly
if the cache agrees with the new image. -/
theorem reload_isolated_iff (host : Host W) {m₀ m m' : Machine W} {es : List Event}
    (hhome : Home m₀) (hrun : Run (Happens host) m₀ es m) (hload : Reloads host m m' count words) :
    Isolated count words m' ↔ ∃ c, m.vm.cache = some c ∧ Fresh count words c := by
  obtain ⟨c, hcache, hhomed⟩ := hrun.invariant Home (fun _ _ _ hs h => hs.happens h) hhome
  obtain ⟨p, hkept, hlayout, hwords⟩ := hload.layout
  have hc : m'.vm.cache = some c := hkept.trans hcache
  constructor
  · intro h
    exact ⟨c, hcache, h.fresh hc hlayout⟩
  · rintro ⟨d, hd, hfresh⟩
    obtain rfl := Option.some.inj (hcache.symm.trans hd)
    exact (hfresh.served hc hhomed hlayout hwords).isolated

end Reload

/-- One instruction and four words at host pointer 200. -/
def nextImage : Image := ⟨imageMagic, 2, 0, some [⟨.tnop, 0, 0, 0, 0⟩], some 200, 4⟩

theorem storeLoad_home : Home storeLoadMachine :=
  ⟨cacheInit, rfl, fun _ hvalid => absurd rfl hvalid⟩

theorem reload_isolated_iff_empty : ∃ m' : Machine Unit,
    loadImage quietHost storeLoadMachine nextImage = (Err.ok, m') ∧
      Isolated 4 (fun a => storeLoadMachine.mem (200 + a)) m' := by
  refine ⟨_, rfl, (reload_isolated_iff quietHost storeLoad_home (.nil _)
    (@Reloads.image _ _ _ _ nextImage rfl)).mpr ⟨cacheInit, rfl, fun a ha => ⟨?_, ?_⟩⟩⟩
  · exact fun hvalid => absurd rfl hvalid
  · exact LineState.noConfusion

/-- The old program stores one at address 0, the image of the next has zero there, and its first
load of address 0 gives one. -/
theorem old_store_loaded : ∃ m m' : Machine Unit,
    Run (Happens quietHost) storeLoadMachine [.step] m ∧
      loadImage quietHost m nextImage = (Err.ok, m') ∧ m.mem (200 + 0) = zeroWord ∧
      (cacheLoad m' 0).1 = .ok (Function.update zeroWord 0 1) ∧
      ¬ Isolated 4 (fun a => m.mem (200 + a)) m' := by
  refine ⟨_, _, .cons ⟨_, rfl⟩ (.nil _), rfl, rfl, rfl, fun h => ?_⟩
  cases h [.load 0] _ (.cons (.step trivial) (.nil _)) with
  | cons _ hown _ =>
    have hload := Except.ok.inj (perform_load_word (hown.1 0 (by decide) rfl))
    exact absurd (congrFun hload 0) (by decide)

end ReflexOS.Vm
