import Mathlib.Logic.Function.Basic
import Mathlib.Data.Set.Basic

set_option autoImplicit false

/-!
# Direct-mapped write-back caches

One line for each set, found by an index function on addresses. `Coherent` relates the
lines and the backing memory to the plain memory a reader believes in; every cache
operation is a few of the moves below, each of which keeps it.
-/
namespace WriteBack

inductive LineState where
  | invalid
  | clean
  | dirty
deriving DecidableEq, Repr

structure Line (A V : Type*) where
  tag : A
  state : LineState
  value : V

variable {A I V : Type*} [DecidableEq A]

/-- The line may be dropped: memory already holds what it would write back. -/
def Synced (line : Line A V) (mem : A → V) : Prop :=
  line.state = .dirty → mem line.tag = line.value

/-- What a reader of `a` sees through the cache. -/
def view (index : A → I) (lines : I → Line A V) (mem : A → V) (a : A) : V :=
  if (lines (index a)).state ≠ .invalid ∧ (lines (index a)).tag = a then
    (lines (index a)).value
  else mem a

structure Coherent (index : A → I) (dom : Set A) (lines : I → Line A V)
    (mem ref : A → V) : Prop where
  home : ∀ i, (lines i).state ≠ .invalid → index (lines i).tag = i
  tagged : ∀ i, (lines i).state ≠ .invalid → (lines i).tag ∈ dom
  clean : ∀ i, (lines i).state = .clean → mem (lines i).tag = (lines i).value
  shows : ∀ a ∈ dom, view index lines mem a = ref a

variable {index : A → I} {dom : Set A} {lines : I → Line A V} {mem ref : A → V}

theorem view_hit {a : A} (hs : (lines (index a)).state ≠ .invalid)
    (ht : (lines (index a)).tag = a) :
    view index lines mem a = (lines (index a)).value := by
  simp [view, hs, ht]

theorem view_miss {a : A}
    (h : ¬((lines (index a)).state ≠ .invalid ∧ (lines (index a)).tag = a)) :
    view index lines mem a = mem a := if_neg h

theorem view_line {i : I} (hs : (lines i).state ≠ .invalid)
    (hi : index (lines i).tag = i) :
    view index lines mem (lines i).tag = (lines i).value := by
  have h : index (lines i).tag = i := hi
  rw [view_hit] <;> simp [h, hs]

/-- An empty cache shows memory itself. -/
theorem coherent_empty (h : ∀ i, (lines i).state = .invalid) :
    Coherent index dom lines mem mem where
  home i hi := absurd (h i) hi
  tagged i hi := absurd (h i) hi
  clean i hi := by simp [h i] at hi
  shows a _ := view_miss (by simp [h])

omit [DecidableEq A] in
theorem synced_of_not_dirty {line : Line A V} (h : line.state ≠ .dirty) : Synced line mem :=
  fun hd => absurd hd h

/-- Distinct sets hold distinct addresses. -/
theorem Coherent.tag_ne (h : Coherent index dom lines mem ref) {i j : I}
    (hi : (lines i).state ≠ .invalid) (hj : (lines j).state ≠ .invalid) (hij : i ≠ j) :
    (lines i).tag ≠ (lines j).tag := by
  intro ht
  exact hij ((h.home i hi).symm.trans ((congrArg index ht).trans (h.home j hj)))

theorem Coherent.hit (h : Coherent index dom lines mem ref) {i : I}
    (hi : (lines i).state ≠ .invalid) : (lines i).value = ref (lines i).tag := by
  rw [← h.shows _ (h.tagged i hi), view_line hi (h.home i hi)]

theorem Coherent.miss (h : Coherent index dom lines mem ref) {a : A} (ha : a ∈ dom)
    (hm : ¬((lines (index a)).state ≠ .invalid ∧ (lines (index a)).tag = a)) :
    mem a = ref a := by
  rw [← h.shows a ha, view_miss hm]

/-- A synced line agrees with the reference about the memory below it. -/
theorem Coherent.mem_of_synced (h : Coherent index dom lines mem ref) {a : A}
    (ha : a ∈ dom) (hs : Synced (lines (index a)) mem) : mem a = ref a := by
  by_cases hm : (lines (index a)).state ≠ .invalid ∧ (lines (index a)).tag = a
  · have hv := h.hit hm.1
    rw [hm.2] at hv
    rw [← hv]
    cases hst : (lines (index a)).state with
    | invalid => exact absurd hst hm.1
    | clean => simpa [hm.2] using h.clean _ hst
    | dirty => simpa [hm.2] using hs hst
  · exact h.miss ha hm

/-- Memory outside the domain does not matter. -/
theorem Coherent.congr (h : Coherent index dom lines mem ref) {mem' : A → V}
    (hm : ∀ a ∈ dom, mem' a = mem a) : Coherent index dom lines mem' ref := by
  refine ⟨h.home, h.tagged, ?_, ?_⟩
  · intro i hi
    rw [hm _ (h.tagged i (by simp [hi]))]
    exact h.clean i hi
  · intro a ha
    rw [← h.shows a ha]
    unfold view
    rw [hm a ha]

/-- Copying a dirty line down changes nothing a reader can see. -/
theorem Coherent.writeBack (h : Coherent index dom lines mem ref) {i : I}
    (hi : (lines i).state = .dirty) :
    Coherent index dom lines (Function.update mem (lines i).tag (lines i).value) ref := by
  have hv : (lines i).state ≠ .invalid := by simp [hi]
  refine ⟨h.home, h.tagged, ?_, ?_⟩
  · intro j hj
    have hne : i ≠ j := by
      rintro rfl
      simp [hi] at hj
    have ht := h.tag_ne hv (j := j) (by simp [hj]) hne
    rw [Function.update_of_ne ht.symm]
    exact h.clean j hj
  · intro a ha
    rw [← h.shows a ha]
    unfold view
    split
    · rfl
    · rename_i hm
      apply Function.update_of_ne
      rintro rfl
      exact hm ⟨by rwa [h.home i hv], by rw [h.home i hv]⟩

/-- With no dirty line left, memory is the reference. -/
theorem Coherent.flushed (h : Coherent index dom lines mem ref)
    (hs : ∀ i, (lines i).state ≠ .dirty) : ∀ a ∈ dom, mem a = ref a :=
  fun _ ha => h.mem_of_synced ha (synced_of_not_dirty (hs _))

variable [DecidableEq I]

/-- Replace one line; the other sets are untouched. -/
theorem Coherent.replace (h : Coherent index dom lines mem ref) {i : I} {line : Line A V}
    {ref' : A → V} (hh : line.state ≠ .invalid → index line.tag = i)
    (hm : line.state ≠ .invalid → line.tag ∈ dom)
    (hc : line.state = .clean → mem line.tag = line.value)
    (hr : ∀ a ∈ dom, index a ≠ i → ref' a = ref a)
    (hw : ∀ a ∈ dom, index a = i →
      (if line.state ≠ .invalid ∧ line.tag = a then line.value else mem a) = ref' a) :
    Coherent index dom (Function.update lines i line) mem ref' := by
  refine ⟨?_, ?_, ?_, ?_⟩
  · intro j
    by_cases hj : j = i
    · subst j
      simpa using hh
    · simpa [hj] using h.home j
  · intro j
    by_cases hj : j = i
    · subst j
      simpa using hm
    · simpa [hj] using h.tagged j
  · intro j
    by_cases hj : j = i
    · subst j
      simpa using hc
    · simpa [hj] using h.clean j
  · intro a ha
    by_cases hj : index a = i
    · have hw' := hw a ha hj
      simpa [view, hj] using hw'
    · rw [hr a ha hj, ← h.shows a ha]
      simp [view, hj]

/-- Fetch `a` into its set. -/
theorem Coherent.fill (h : Coherent index dom lines mem ref) {a : A} (ha : a ∈ dom)
    (hs : Synced (lines (index a)) mem) :
    Coherent index dom (Function.update lines (index a) ⟨a, .clean, mem a⟩) mem ref := by
  refine h.replace (fun _ => rfl) (fun _ => ha) (fun _ => rfl) (fun _ _ _ => rfl) ?_
  intro b hb hi
  have hmem : mem b = ref b := h.mem_of_synced hb (by rwa [hi])
  by_cases hab : a = b
  · subst b
    simpa using hmem
  · simpa [hab] using hmem

/-- Write `v` at `a` into the cache only. -/
theorem Coherent.store (h : Coherent index dom lines mem ref) {a : A} (v : V)
    (ha : a ∈ dom) (hs : Synced (lines (index a)) mem ∨ (lines (index a)).tag = a) :
    Coherent index dom (Function.update lines (index a) ⟨a, .dirty, v⟩) mem
      (Function.update ref a v) := by
  refine h.replace (fun _ => rfl) (fun _ => ha) (by simp) ?_ ?_
  · intro b _ hb
    exact Function.update_of_ne (by rintro rfl; exact hb rfl) _ _
  · intro b hb hi
    by_cases hab : b = a
    · subst b
      simp
    · rw [Function.update_of_ne hab]
      simp only [ne_eq, reduceCtorEq, not_false_eq_true, true_and, Ne.symm hab, if_false]
      rcases hs with hs | ht
      · exact h.mem_of_synced hb (by rwa [hi])
      · refine h.miss hb ?_
        rw [hi, ht]
        exact fun hc => hab hc.2.symm

/-- A dirty line that was just copied down becomes clean. -/
theorem Coherent.demote (h : Coherent index dom lines mem ref) {i : I}
    (hi : (lines i).state = .dirty) (hs : Synced (lines i) mem) :
    Coherent index dom (Function.update lines i { lines i with state := .clean }) mem ref := by
  have hv : (lines i).state ≠ .invalid := by simp [hi]
  refine h.replace (fun _ => h.home i hv) (fun _ => h.tagged i hv) (fun _ => hs hi)
    (fun _ _ _ => rfl) ?_
  intro a ha hia
  rw [← h.shows a ha]
  simp [view, hia, hi]

/-- A line that memory already agrees with may be dropped. -/
theorem Coherent.drop (h : Coherent index dom lines mem ref) {i : I}
    (hs : Synced (lines i) mem) :
    Coherent index dom (Function.update lines i { lines i with state := .invalid })
      mem ref := by
  refine h.replace (by simp) (by simp) (by simp) (fun _ _ _ => rfl) ?_
  intro a ha hia
  have hmem := h.mem_of_synced ha (by rwa [hia])
  simpa using hmem

/-- Write memory behind the cache and drop the copy of that address, if there is one. -/
theorem Coherent.poke (h : Coherent index dom lines mem ref) {a : A} (v : V) :
    Coherent index dom
      (if (lines (index a)).tag = a then
        Function.update lines (index a) { lines (index a) with state := .invalid } else lines)
      (Function.update mem a v) (Function.update ref a v) := by
  have hother : ∀ i, (lines i).state ≠ .invalid → (lines i).tag = a → i = index a := by
    intro i hi ht
    rw [← ht, h.home i hi]
  by_cases ht : (lines (index a)).tag = a
  · rw [if_pos ht]
    refine ⟨?_, ?_, ?_, ?_⟩
    · intro i
      by_cases hi : i = index a
      · subst i; simp
      · simpa [hi] using h.home i
    · intro i
      by_cases hi : i = index a
      · subst i; simp
      · simpa [hi] using h.tagged i
    · intro i
      by_cases hi : i = index a
      · subst i; simp
      · intro hc
        simp only [Function.update_of_ne hi] at hc ⊢
        have hne : (lines i).tag ≠ a := fun he => hi (hother i (by simp [hc]) he)
        rw [Function.update_of_ne hne]
        exact h.clean i hc
    · intro b hb
      by_cases hba : b = a
      · subst b
        simp [view]
      · have hv := h.shows b hb
        rw [Function.update_of_ne hba, ← hv]
        by_cases hi : index b = index a
        · have hne : (lines (index a)).tag ≠ b := by
            rw [ht]
            exact Ne.symm hba
          simp [view, hi, hba, hne]
        · simp [view, hi, hba]
  · rw [if_neg ht]
    refine ⟨h.home, h.tagged, ?_, ?_⟩
    · intro i hc
      have hne : (lines i).tag ≠ a := by
        intro he
        have hi := hother i (by simp [hc]) he
        subst i
        exact ht he
      rw [Function.update_of_ne hne]
      exact h.clean i hc
    · intro b hb
      by_cases hba : b = a
      · subst b
        simp [view, ht]
      · rw [Function.update_of_ne hba, ← h.shows b hb]
        simp [view, hba]

end WriteBack
