import Mathlib.Data.Fintype.Card
import Mathlib.Data.Set.Card
import Mathlib.Tactic.Common

set_option autoImplicit false

/-!
# Linear probing with backward-shift deletion

A table of `n` buckets, each empty or holding a value. A value lives in the first free
bucket from its home bucket on, around the end of the array. Deletion closes the gap it
leaves, so that an empty bucket always ends a search.
-/
namespace LinearProbing

variable {V : Type*}

def next (n b : ℕ) : ℕ := if b + 1 = n then 0 else b + 1

/-- Steps from bucket `h` to bucket `b`, going up and around. -/
def dist (n h b : ℕ) : ℕ := if h ≤ b then b - h else b + n - h

/-- The first bucket from `b` on that holds a match; an empty bucket ends the search. -/
def probe (n : ℕ) (slots : ℕ → Option V) (p : V → Bool) : ℕ → ℕ → Option ℕ
  | 0, _ => none
  | fuel + 1, b =>
    match slots b with
    | none => none
    | some v => if p v then some b else probe n slots p fuel (next n b)

/-- The first bucket from `b` on that is empty or holds a match. -/
def place (n : ℕ) (slots : ℕ → Option V) (p : V → Bool) : ℕ → ℕ → Option ℕ
  | 0, _ => none
  | fuel + 1, b =>
    match slots b with
    | none => some b
    | some v => if p v then some b else place n slots p fuel (next n b)

/-- The bucket's home lies outside the cyclic interval from `hole` (excluded) to `j`. -/
def movable (hole j home : ℕ) : Bool :=
  if hole ≤ j then decide (home ≤ hole) || decide (j < home)
  else decide (home ≤ hole) && decide (j < home)

/-- Backward shift: pull back every entry of the run that may sit in the hole. -/
def shift (n : ℕ) (home : V → ℕ) (live : V → Bool) :
    ℕ → (ℕ → Option V) → ℕ → ℕ → ℕ → Option V
  | 0, slots, _, _ => slots
  | fuel + 1, slots, hole, j =>
    let j := next n j
    match slots j with
    | none => slots
    | some v =>
      if !live v then shift n home live fuel (Function.update slots j none) hole j
      else if movable hole j (home v) then
        shift n home live fuel
          (Function.update (Function.update slots hole (some v)) j none) j j
      else shift n home live fuel slots hole j

def find (n : ℕ) (slots : ℕ → Option V) (p : V → Bool) (start : ℕ) : Option V :=
  (probe n slots p n start).bind slots

def insert (n : ℕ) (slots : ℕ → Option V) (p : V → Bool) (start : ℕ) (v : V) : ℕ → Option V :=
  match place n slots p n start with
  | none => slots
  | some b => Function.update slots b (some v)

def remove (n : ℕ) (home : V → ℕ) (live : V → Bool) (slots : ℕ → Option V) (p : V → Bool)
    (start : ℕ) : ℕ → Option V :=
  match probe n slots p n start with
  | none => slots
  | some hole => shift n home live n (Function.update slots hole none) hole hole

def Holds (n : ℕ) (slots : ℕ → Option V) (v : V) : Prop := ∃ b < n, slots b = some v

/-- Every value is in one bucket, and no bucket between its home and it is empty. -/
structure Probed (n : ℕ) (home : V → ℕ) (slots : ℕ → Option V) : Prop where
  home_lt : ∀ v, Holds n slots v → home v < n
  inj : ∀ b < n, ∀ c < n, ∀ v, slots b = some v → slots c = some v → b = c
  run : ∀ b < n, ∀ v, slots b = some v →
    ∀ c < n, dist n (home v) c < dist n (home v) b → slots c ≠ none

/-- The same with a hole: only entries further on than `j` may miss it. -/
structure Gapped (n : ℕ) (home : V → ℕ) (slots : ℕ → Option V) (hole j : ℕ) : Prop where
  home_lt : ∀ v, Holds n slots v → home v < n
  inj : ∀ b < n, ∀ c < n, ∀ v, slots b = some v → slots c = some v → b = c
  empty : slots hole = none
  run : ∀ b < n, ∀ v, slots b = some v →
    ∀ c < n, dist n (home v) c < dist n (home v) b →
      slots c ≠ none ∨ c = hole ∧ dist n hole j < dist n hole b

variable {n : ℕ} {home : V → ℕ} {live : V → Bool} {slots : ℕ → Option V} {p : V → Bool}

theorem next_lt {b : ℕ} (hb : b < n) : next n b < n := by
  unfold next
  split <;> omega

theorem dist_self (b : ℕ) : dist n b b = 0 := by simp [dist]

theorem dist_pos {h b : ℕ} (hh : h < n) (hne : h ≠ b) : 0 < dist n h b := by
  unfold dist
  split <;> omega

theorem dist_lt {h b : ℕ} (hh : h < n) (hb : b < n) : dist n h b < n := by
  unfold dist
  split <;> omega

theorem dist_next {b c : ℕ} (hb : b < n) (hc : c < n) (hne : b ≠ c) :
    dist n b c = dist n (next n b) c + 1 := by
  unfold dist next
  split <;> split <;> split <;> omega

theorem dist_next_right {h b : ℕ} (hh : h < n) (hne : next n b ≠ h) :
    dist n h (next n b) = dist n h b + 1 := by
  unfold dist next at *
  split at hne <;> split <;> split <;> split <;> omega

theorem dist_inj {h b c : ℕ} (hh : h < n) (hb : b < n) (hc : c < n)
    (he : dist n h b = dist n h c) : b = c := by
  unfold dist at he
  split at he <;> split at he <;> omega

/-- A bucket on the way splits the distance. -/
theorem dist_add {h c b : ℕ} (hh : h < n) (hc : c < n) (hb : b < n)
    (hle : dist n h c ≤ dist n h b) : dist n h c + dist n c b = dist n h b := by
  unfold dist at *
  split_ifs at * <;> omega

theorem dist_trans {h c b : ℕ} (hh : h < n) (hc : c < n)
    (hlt : dist n h c + dist n c b < n) : dist n h b = dist n h c + dist n c b := by
  unfold dist at *
  split_ifs at * <;> omega

theorem movable_iff {hole j h : ℕ} (hh : h < n) (hhole : hole < n) (hj : j < n)
    (hne : hole ≠ j) :
    movable hole j h = true ↔ dist n h hole < dist n h j := by
  unfold movable dist
  split <;> split <;> split <;> simp <;> omega

/-- What holds of the buckets before `t` holds of those before it from the next bucket on. -/
theorem before_next {P : ℕ → Prop} {b t : ℕ} (hb : b < n) (ht : t < n) (hbt : b ≠ t)
    (h : ∀ c < n, dist n b c < dist n b t → P c) :
    ∀ c < n, dist n (next n b) c < dist n (next n b) t → P c := by
  intro c hc hlt
  have hd := dist_next hb ht hbt
  refine h c hc ?_
  by_cases hbc : b = c
  · subst c
    have := dist_lt (next_lt hb) ht
    rw [dist_self]
    omega
  · rw [dist_next hb hc hbc]
    omega

theorem probe_found {v : V} {t : ℕ} (ht : t < n) (htv : slots t = some v) (hpv : p v = true)
    {fuel b : ℕ} (hb : b < n) (hf : dist n b t < fuel)
    (hocc : ∀ c < n, dist n b c < dist n b t → ∃ w, slots c = some w ∧ p w = false) :
    probe n slots p fuel b = some t := by
  induction fuel generalizing b with
  | zero => omega
  | succ fuel ih =>
    by_cases hbt : b = t
    · subst b
      simp [probe, htv, hpv]
    · obtain ⟨w, hw, hpw⟩ := hocc b hb (by rw [dist_self]; exact dist_pos hb hbt)
      have hd := dist_next hb ht hbt
      simp only [probe, hw, hpw, Bool.false_eq_true, if_false]
      exact ih (next_lt hb) (by omega) (before_next hb ht hbt hocc)

theorem probe_none (hno : ∀ b < n, ∀ v, slots b = some v → p v = false) (fuel : ℕ) {b : ℕ}
    (hb : b < n) : probe n slots p fuel b = none := by
  induction fuel generalizing b with
  | zero => rfl
  | succ fuel ih =>
    unfold probe
    split
    · rfl
    next v hv =>
      rw [hno b hb v hv]
      exact ih (next_lt hb)

theorem place_found {v : V} {t : ℕ} (ht : t < n) (htv : slots t = some v) (hpv : p v = true)
    {fuel b : ℕ} (hb : b < n) (hf : dist n b t < fuel)
    (hocc : ∀ c < n, dist n b c < dist n b t → ∃ w, slots c = some w ∧ p w = false) :
    place n slots p fuel b = some t := by
  induction fuel generalizing b with
  | zero => omega
  | succ fuel ih =>
    by_cases hbt : b = t
    · subst b
      simp [place, htv, hpv]
    · obtain ⟨w, hw, hpw⟩ := hocc b hb (by rw [dist_self]; exact dist_pos hb hbt)
      have hd := dist_next hb ht hbt
      simp only [place, hw, hpw, Bool.false_eq_true, if_false]
      exact ih (next_lt hb) (by omega) (before_next hb ht hbt hocc)

theorem place_empty (hno : ∀ b < n, ∀ v, slots b = some v → p v = false) {e : ℕ}
    (he : e < n) (hee : slots e = none) {fuel b : ℕ} (hb : b < n) (hf : dist n b e < fuel) :
    ∃ t < n, place n slots p fuel b = some t ∧ slots t = none ∧
      ∀ c < n, dist n b c < dist n b t → slots c ≠ none := by
  induction fuel generalizing b with
  | zero => omega
  | succ fuel ih =>
    cases hsb : slots b with
    | none =>
      refine ⟨b, hb, by simp [place, hsb], hsb, fun c _ hlt => ?_⟩
      rw [dist_self] at hlt
      omega
    | some v =>
      have hbe : b ≠ e := by
        rintro rfl
        simp [hee] at hsb
      have hd := dist_next hb he hbe
      obtain ⟨t, ht, hplace, hst, hocc⟩ := ih (next_lt hb) (by omega)
      refine ⟨t, ht, by simpa [place, hsb, hno b hb v hsb] using hplace, hst, fun c hc hlt => ?_⟩
      by_cases hbc : b = c
      · subst c
        simp [hsb]
      · have hbt : b ≠ t := by
          rintro rfl
          simp [hst] at hsb
        have h₁ := dist_next hb hc hbc
        have h₂ := dist_next hb ht hbt
        exact hocc c hc (by omega)

/-- The values before a value on its run are not itself. -/
theorem Probed.before (h : Probed n home slots) {t : ℕ} {v : V} (ht : t < n)
    (htv : slots t = some v) (huniq : ∀ w, Holds n slots w → p w = true → w = v) :
    ∀ c < n, dist n (home v) c < dist n (home v) t → ∃ w, slots c = some w ∧ p w = false := by
  intro c hc hlt
  cases hcw : slots c with
  | none => exact absurd hcw (h.run t ht v htv c hc hlt)
  | some w =>
    refine ⟨w, rfl, ?_⟩
    by_contra hpw
    have hwv : w = v := huniq w ⟨c, hc, hcw⟩ (by simpa using hpw)
    have hct : c = t := h.inj c hc t ht v (by rw [hcw, hwv]) htv
    subst c
    exact absurd hlt (lt_irrefl _)

theorem Probed.probe_eq (h : Probed n home slots) {t : ℕ} {v : V} (ht : t < n)
    (htv : slots t = some v) (hpv : p v = true)
    (huniq : ∀ w, Holds n slots w → p w = true → w = v) :
    probe n slots p n (home v) = some t := by
  have hh := h.home_lt v ⟨t, ht, htv⟩
  exact probe_found ht htv hpv hh (dist_lt hh ht) (h.before ht htv huniq)

theorem Probed.find_eq (h : Probed n home slots) {v : V} (hv : Holds n slots v)
    (hpv : p v = true) (huniq : ∀ w, Holds n slots w → p w = true → w = v) :
    find n slots p (home v) = some v := by
  obtain ⟨t, ht, htv⟩ := hv
  simp [find, h.probe_eq ht htv hpv huniq, htv]

theorem find_none (hno : ∀ v, Holds n slots v → p v = false) {start : ℕ} (hs : start < n) :
    find n slots p start = none := by
  rw [find, probe_none (fun b hb v hv => hno v ⟨b, hb, hv⟩) n hs, Option.bind_none]

theorem probe_some {fuel b t : ℕ} (hb : b < n) (h : probe n slots p fuel b = some t) :
    t < n ∧ ∃ v, slots t = some v ∧ p v = true := by
  induction fuel generalizing b with
  | zero => simp [probe] at h
  | succ fuel ih =>
    unfold probe at h
    split at h
    · simp at h
    next v hv =>
      split at h
      next hp =>
        cases h
        exact ⟨hb, v, hv, hp⟩
      next => exact ih (next_lt hb) h

theorem find_some {start : ℕ} {v : V} (hs : start < n)
    (h : find n slots p start = some v) : Holds n slots v ∧ p v = true := by
  unfold find at h
  cases hp : probe n slots p n start with
  | none => simp [hp] at h
  | some t =>
    obtain ⟨ht, w, hw, hpw⟩ := probe_some hs hp
    have hwv : w = v := by simpa [hp, hw] using h
    subst w
    exact ⟨⟨t, ht, hw⟩, hpw⟩

/-- A value in a bucket that a search for it reaches, and nowhere else. -/
theorem Probed.put (h : Probed n home slots) {v : V} {t : ℕ} (ht : t < n) (hh : home v < n)
    (hfresh : ∀ b < n, b ≠ t → slots b ≠ some v)
    (hocc : ∀ c < n, dist n (home v) c < dist n (home v) t → slots c ≠ none) :
    Probed n home (Function.update slots t (some v)) ∧
      ∀ w, Holds n (Function.update slots t (some v)) w ↔
        Holds n slots w ∧ slots t ≠ some w ∨ w = v := by
  have hother : ∀ {b : ℕ} {w : V}, b ≠ t →
      (Function.update slots t (some v) b = some w ↔ slots b = some w) := by
    intro b w hb
    rw [Function.update_of_ne hb]
  have hself : ∀ {w : V}, Function.update slots t (some v) t = some w → w = v := by
    intro w hw
    rw [Function.update_self] at hw
    exact (Option.some.inj hw).symm
  have hholds : ∀ w, Holds n (Function.update slots t (some v)) w ↔
      Holds n slots w ∧ slots t ≠ some w ∨ w = v := by
    intro w
    constructor
    · rintro ⟨b, hb, hbw⟩
      by_cases hbt : b = t
      · subst b
        exact .inr (hself hbw)
      · have hbw := (hother hbt).mp hbw
        exact .inl ⟨⟨b, hb, hbw⟩, fun htw => hbt (h.inj b hb t ht w hbw htw)⟩
    · rintro (⟨⟨b, hb, hbw⟩, htw⟩ | rfl)
      · refine ⟨b, hb, (hother ?_).mpr hbw⟩
        rintro rfl
        exact htw hbw
      · exact ⟨t, ht, Function.update_self ..⟩
  refine ⟨⟨?_, ?_, ?_⟩, hholds⟩
  · intro w hw
    rcases (hholds w).mp hw with ⟨hw, -⟩ | rfl
    · exact h.home_lt w hw
    · exact hh
  · intro b hb c hc w hbw hcw
    by_cases hbt : b = t <;> by_cases hct : c = t
    · rw [hbt, hct]
    · subst b
      rw [hself hbw] at hcw
      exact absurd ((hother hct).mp hcw) (hfresh c hc hct)
    · subst c
      rw [hself hcw] at hbw
      exact absurd ((hother hbt).mp hbw) (hfresh b hb hbt)
    · exact h.inj b hb c hc w ((hother hbt).mp hbw) ((hother hct).mp hcw)
  · intro b hb w hbw c hc hlt
    by_cases hct : c = t
    · subst c
      simp
    rw [Function.update_of_ne hct]
    by_cases hbt : b = t
    · subst b
      rw [hself hbw] at hlt
      exact hocc c hc hlt
    · exact h.run b hb w ((hother hbt).mp hbw) c hc hlt

theorem Probed.insert_new (h : Probed n home slots) {v : V} (hh : home v < n)
    (hno : ∀ w, Holds n slots w → p w = false) (hnv : ¬ Holds n slots v)
    (he : ∃ e < n, slots e = none) :
    Probed n home (insert n slots p (home v) v) ∧
      ∀ w, Holds n (insert n slots p (home v) v) w ↔ Holds n slots w ∨ w = v := by
  obtain ⟨e, hen, hee⟩ := he
  obtain ⟨t, ht, hplace, hst, hocc⟩ := place_empty (fun b hb w hw => hno w ⟨b, hb, hw⟩)
    hen hee hh (dist_lt hh hen)
  have hins : insert n slots p (home v) v = Function.update slots t (some v) := by
    simp only [insert, hplace]
  obtain ⟨hprobed, hholds⟩ := h.put ht hh (fun b hb _ hbv => hnv ⟨b, hb, hbv⟩) hocc
  rw [hins]
  refine ⟨hprobed, fun w => (hholds w).trans ?_⟩
  simp [hst]

theorem Probed.insert_replace (h : Probed n home slots) {u v : V} (hu : Holds n slots u)
    (hpu : p u = true) (huniq : ∀ w, Holds n slots w → p w = true → w = u)
    (hhome : home v = home u) (hnv : ¬ Holds n slots v ∨ v = u) :
    Probed n home (insert n slots p (home v) v) ∧
      ∀ w, Holds n (insert n slots p (home v) v) w ↔ Holds n slots w ∧ w ≠ u ∨ w = v := by
  obtain ⟨t, ht, htu⟩ := hu
  have hh := h.home_lt u ⟨t, ht, htu⟩
  have hplace : place n slots p n (home v) = some t := by
    rw [hhome]
    exact place_found ht htu hpu hh (dist_lt hh ht) (h.before ht htu huniq)
  have hins : insert n slots p (home v) v = Function.update slots t (some v) := by
    simp only [insert, hplace]
  have hfresh : ∀ b < n, b ≠ t → slots b ≠ some v := by
    intro b hb hbt hbv
    rcases hnv with hnv | rfl
    · exact hnv ⟨b, hb, hbv⟩
    · exact hbt (h.inj b hb t ht v hbv htu)
  have hocc : ∀ c < n, dist n (home v) c < dist n (home v) t → slots c ≠ none := by
    rw [hhome]
    exact h.run t ht u htu
  obtain ⟨hprobed, hholds⟩ := h.put ht (hhome ▸ hh) hfresh hocc
  rw [hins]
  refine ⟨hprobed, fun w => (hholds w).trans ?_⟩
  rw [htu, ne_eq, Option.some.injEq, eq_comm]

theorem Probed.gapped (h : Probed n home slots) {t : ℕ} (ht : t < n) :
    Gapped n home (Function.update slots t none) t t := by
  have hother : ∀ {b : ℕ} {w : V}, Function.update slots t none b = some w →
      b ≠ t ∧ slots b = some w := by
    intro b w hbw
    by_cases hbt : b = t
    · subst b
      simp at hbw
    · exact ⟨hbt, by rwa [Function.update_of_ne hbt] at hbw⟩
  refine ⟨?_, ?_, Function.update_self .., ?_⟩
  · rintro v ⟨b, hb, hbv⟩
    exact h.home_lt v ⟨b, hb, (hother hbv).2⟩
  · exact fun b hb c hc v hbv hcv => h.inj b hb c hc v (hother hbv).2 (hother hcv).2
  · intro b hb v hbv c hc hlt
    obtain ⟨hbt, hbv⟩ := hother hbv
    by_cases hct : c = t
    · refine .inr ⟨hct, ?_⟩
      rw [dist_self]
      exact dist_pos ht (Ne.symm hbt)
    · rw [Function.update_of_ne hct]
      exact .inl (h.run b hb v hbv c hc hlt)

section Shift

variable {hole j : ℕ} (h : Gapped n home slots hole j) (hhole : hole < n) (hj : j < n)
include h hhole hj

/-- An empty bucket ends the run, and with it the gap. -/
theorem Gapped.close (hempty : slots (next n j) = none) : Probed n home slots := by
  refine ⟨h.home_lt, h.inj, fun b hb v hbv c hc hlt => ?_⟩
  rcases h.run b hb v hbv c hc hlt with hne | ⟨rfl, hd⟩
  · exact hne
  · have hv := h.home_lt v ⟨b, hb, hbv⟩
    have hjb : next n j ≠ b := by
      rintro rfl
      simp [hempty] at hbv
    have hnext := next_lt hj
    by_cases hjc : next n j = c
    · have hlast : dist n c j + 1 = n := by
        subst c
        unfold next dist
        split_ifs <;> omega
      have := dist_lt hc hb
      omega
    · have hstep := dist_next_right hc hjc
      have hsum := dist_add hv hc hb (le_of_lt hlt)
      have hjlt : dist n c (next n j) < dist n c b := by
        have : dist n c (next n j) ≠ dist n c b := fun he => hjb (dist_inj hc hnext hb he)
        omega
      have hpath : dist n (home v) (next n j) = dist n (home v) c + dist n c (next n j) :=
        dist_trans hv hc (by have := dist_lt hv hb; omega)
      rcases h.run b hb v hbv (next n j) hnext (by omega) with hne | ⟨he, -⟩
      · exact absurd hempty hne
      · exact absurd he hjc

theorem Gapped.skip {v : V} (hv : slots (next n j) = some v)
    (hm : movable hole (next n j) (home v) = false) : Gapped n home slots hole (next n j) := by
  refine ⟨h.home_lt, h.inj, h.empty, fun b hb w hbw c hc hlt => ?_⟩
  rcases h.run b hb w hbw c hc hlt with hne | ⟨rfl, hd⟩
  · exact .inl hne
  · have hnext := next_lt hj
    have hjc : next n j ≠ c := by
      intro he
      rw [he, h.empty] at hv
      cases hv
    have hstep := dist_next_right hc hjc
    refine .inr ⟨rfl, ?_⟩
    by_contra hge
    have hbj : b = next n j := dist_inj hc hb hnext (by omega)
    subst b
    rw [hv] at hbw
    cases hbw
    have hhome := h.home_lt v ⟨_, hnext, hv⟩
    have := (movable_iff hhome hc hnext (Ne.symm hjc)).mpr hlt
    simp [hm] at this

/-- An entry that reached past the hole moves into it and leaves a hole behind. -/
theorem Gapped.pull {v : V} (hv : slots (next n j) = some v)
    (hm : movable hole (next n j) (home v) = true) :
    Gapped n home (Function.update (Function.update slots hole (some v)) (next n j) none)
      (next n j) (next n j) := by
  have hnext := next_lt hj
  have hne : hole ≠ next n j := by
    intro he
    rw [← he, h.empty] at hv
    cases hv
  have hhome := h.home_lt v ⟨_, hnext, hv⟩
  have hpast := (movable_iff hhome hhole hnext hne).mp hm
  have hcases : ∀ {b : ℕ} {w : V},
      Function.update (Function.update slots hole (some v)) (next n j) none b = some w →
        b ≠ next n j ∧ (b = hole ∧ w = v ∨ b ≠ hole ∧ slots b = some w) := by
    intro b w hbw
    by_cases hbj : b = next n j
    · subst b
      simp at hbw
    rw [Function.update_of_ne hbj] at hbw
    by_cases hbh : b = hole
    · subst b
      rw [Function.update_self, Option.some.injEq] at hbw
      exact ⟨hbj, .inl ⟨rfl, hbw.symm⟩⟩
    · rw [Function.update_of_ne hbh] at hbw
      exact ⟨hbj, .inr ⟨hbh, hbw⟩⟩
  refine ⟨?_, ?_, Function.update_self .., ?_⟩
  · rintro w ⟨b, hb, hbw⟩
    obtain ⟨-, ⟨-, rfl⟩ | ⟨-, hbw⟩⟩ := hcases hbw
    · exact hhome
    · exact h.home_lt w ⟨b, hb, hbw⟩
  · intro b hb c hc w hbw hcw
    obtain ⟨hbj, ⟨rfl, rfl⟩ | ⟨-, hbw'⟩⟩ := hcases hbw <;>
      obtain ⟨hcj, ⟨rfl, hwv⟩ | ⟨-, hcw'⟩⟩ := hcases hcw
    · rfl
    · exact absurd (h.inj c hc _ hnext w hcw' hv) hcj
    · subst w
      exact absurd (h.inj b hb _ hnext v hbw' hv) hbj
    · exact h.inj b hb c hc w hbw' hcw'
  · intro b hb w hbw c hc hlt
    obtain ⟨hbj, hbw⟩ := hcases hbw
    by_cases hcj : c = next n j
    · refine .inr ⟨hcj, ?_⟩
      rw [dist_self]
      exact dist_pos hnext (Ne.symm hbj)
    rw [Function.update_of_ne hcj]
    by_cases hch : c = hole
    · subst c
      simp
    rw [Function.update_of_ne hch]
    left
    obtain ⟨rfl, rfl⟩ | ⟨-, hbw⟩ := hbw
    · rcases h.run _ hnext w hv c hc (by omega) with hne' | ⟨he, -⟩
      · exact hne'
      · exact absurd he hch
    · rcases h.run b hb w hbw c hc hlt with hne' | ⟨he, -⟩
      · exact hne'
      · exact absurd he hch

end Shift

theorem holds_pull {hole j : ℕ} {v : V} (hh : hole < n) (hj : j < n) (hempty : slots hole = none)
    (hv : slots j = some v) (w : V) :
    Holds n (Function.update (Function.update slots hole (some v)) j none) w ↔
      Holds n slots w := by
  have hne : hole ≠ j := by
    rintro rfl
    simp [hempty] at hv
  constructor
  · rintro ⟨b, hb, hbw⟩
    by_cases hbj : b = j
    · subst b
      simp at hbw
    rw [Function.update_of_ne hbj] at hbw
    by_cases hbh : b = hole
    · subst b
      rw [Function.update_self, Option.some.injEq] at hbw
      subst w
      exact ⟨j, hj, hv⟩
    · exact ⟨b, hb, by rwa [Function.update_of_ne hbh] at hbw⟩
  · rintro ⟨b, hb, hbw⟩
    by_cases hbj : b = j
    · subst b
      rw [hv] at hbw
      exact ⟨hole, hh, by rw [Function.update_of_ne hne, Function.update_self, hbw]⟩
    · have hbh : b ≠ hole := by
        rintro rfl
        simp [hempty] at hbw
      exact ⟨b, hb, by rw [Function.update_of_ne hbj, Function.update_of_ne hbh, hbw]⟩

variable (live) in
/-- The shift closes the gap and keeps every value, as long as some other bucket is empty. -/
theorem Gapped.shift {hole j e : ℕ} (h : Gapped n home slots hole j) (hhole : hole < n)
    (hj : j < n) (hlive : ∀ v, Holds n slots v → live v = true) (he : e < n)
    (hee : slots e = none) (heh : e ≠ hole) (hej : e ≠ j) {fuel : ℕ} (hf : dist n j e ≤ fuel) :
    Probed n home (shift n home live fuel slots hole j) ∧
      ∀ w, Holds n (shift n home live fuel slots hole j) w ↔ Holds n slots w := by
  induction fuel generalizing slots hole j with
  | zero =>
    have := dist_pos hj (Ne.symm hej)
    omega
  | succ fuel ih =>
    have hnext := next_lt hj
    have hd := dist_next hj he (Ne.symm hej)
    cases hv : slots (next n j) with
    | none =>
      simp only [LinearProbing.shift, hv]
      exact ⟨h.close hhole hj hv, fun _ => trivial⟩
    | some v =>
      have hl : live v = true := hlive v ⟨_, hnext, hv⟩
      have hne : e ≠ next n j := by
        rintro rfl
        simp [hee] at hv
      simp only [LinearProbing.shift, hv, hl, Bool.not_true, Bool.false_eq_true, if_false]
      cases hm : movable hole (next n j) (home v) with
      | false =>
        simp only [Bool.false_eq_true, if_false]
        exact ih (h.skip hhole hj hv hm) hhole hnext hlive hee heh hne (by omega)
      | true =>
        simp only [if_true]
        have hholds := holds_pull hhole hnext h.empty hv
        have hee' : Function.update (Function.update slots hole (some v)) (next n j) none e =
            none := by rw [Function.update_of_ne hne, Function.update_of_ne heh, hee]
        obtain ⟨hprobed, hkeep⟩ := ih (h.pull hhole hj hv hm) hnext hnext
          (fun w hw => hlive w ((hholds w).mp hw)) hee' hne hne (by omega)
        exact ⟨hprobed, fun w => (hkeep w).trans (hholds w)⟩

/-- Removal takes out the one value that matches and keeps the rest findable. -/
theorem Probed.remove_eq (live : V → Bool) (h : Probed n home slots) {v : V} (hv : Holds n slots v)
    (hpv : p v = true) (huniq : ∀ w, Holds n slots w → p w = true → w = v)
    (hlive : ∀ w, Holds n slots w → live w = true) (he : ∃ e < n, slots e = none) :
    Probed n home (remove n home live slots p (home v)) ∧
      ∀ w, Holds n (remove n home live slots p (home v)) w ↔ Holds n slots w ∧ w ≠ v := by
  obtain ⟨t, ht, htv⟩ := hv
  obtain ⟨e, hen, hee⟩ := he
  have het : e ≠ t := by
    rintro rfl
    simp [hee] at htv
  have hholds : ∀ w, Holds n (Function.update slots t none) w ↔ Holds n slots w ∧ w ≠ v := by
    intro w
    constructor
    · rintro ⟨b, hb, hbw⟩
      by_cases hbt : b = t
      · subst b
        simp at hbw
      rw [Function.update_of_ne hbt] at hbw
      refine ⟨⟨b, hb, hbw⟩, ?_⟩
      rintro rfl
      exact hbt (h.inj b hb t ht w hbw htv)
    · rintro ⟨⟨b, hb, hbw⟩, hwv⟩
      refine ⟨b, hb, ?_⟩
      rw [Function.update_of_ne ?_, hbw]
      rintro rfl
      rw [htv, Option.some.injEq] at hbw
      exact hwv hbw.symm
  simp only [remove, h.probe_eq ht htv hpv huniq]
  obtain ⟨hprobed, hkeep⟩ := (h.gapped ht).shift live ht ht
    (fun w hw => hlive w ((hholds w).mp hw).1) hen (by rw [Function.update_of_ne het, hee]) het
    het (le_of_lt (dist_lt ht hen))
  exact ⟨hprobed, fun w => (hkeep w).trans (hholds w)⟩

theorem remove_absent (hno : ∀ v, Holds n slots v → p v = false) {start : ℕ} (hs : start < n) :
    remove n home live slots p start = slots := by
  rw [remove, probe_none (fun b hb v hv => hno v ⟨b, hb, hv⟩) n hs]

theorem probed_empty : Probed n home (fun _ => none) where
  home_lt := by rintro v ⟨b, -, hb⟩; cases hb
  inj _ _ _ _ _ hb := by cases hb
  run _ _ _ hb := by cases hb

/-- Homes may change as long as those of the stored values do not. -/
theorem Probed.congr (h : Probed n home slots) {home' : V → ℕ}
    (heq : ∀ v, Holds n slots v → home' v = home v) : Probed n home' slots where
  home_lt v hv := by
    rw [heq v hv]
    exact h.home_lt v hv
  inj := h.inj
  run b hb v hbv c hc hlt := by
    rw [heq v ⟨b, hb, hbv⟩] at hlt
    exact h.run b hb v hbv c hc hlt

theorem exists_values (hfull : ¬ ∃ e < n, slots e = none) :
    ∃ f : Fin n → V, ∀ b : Fin n, slots b = some (f b) := by
  have hsome : ∀ b : Fin n, ∃ v, slots b = some v := by
    intro b
    cases hb : slots b with
    | none => exact absurd ⟨b.val, b.isLt, hb⟩ hfull
    | some v => exact ⟨v, rfl⟩
  choose f hf using hsome
  exact ⟨f, hf⟩

theorem exists_empty {slots : ℕ → Option ℕ} {k : ℕ}
    (hinj : ∀ b < n, ∀ c < n, ∀ v, slots b = some v → slots c = some v → b = c)
    (hlt : ∀ v, Holds n slots v → v < k) (hk : k < n) : ∃ e < n, slots e = none := by
  by_contra hfull
  obtain ⟨f, hf⟩ := exists_values hfull
  have hfk : ∀ b, f b < k := fun b => hlt _ ⟨b, b.isLt, hf b⟩
  have hg : Function.Injective (fun b : Fin n => (⟨f b, hfk b⟩ : Fin k)) := by
    intro b c hbc
    have hv : f b = f c := congrArg Fin.val hbc
    exact Fin.ext (hinj b b.isLt c c.isLt (f b) (hf b) (by rw [hf c, hv]))
  have := Fintype.card_le_of_injective _ hg
  simp only [Fintype.card_fin] at this
  omega

/-- The table is an index of the values in `S` by their keys. -/
structure Indexes {K : Type*} (n : ℕ) (key : V → K) (hash : K → ℕ) (slots : ℕ → Option V)
    (S : Set V) : Prop where
  probed : Probed n (fun v => hash (key v)) slots
  holds : ∀ v, Holds n slots v ↔ v ∈ S
  distinct : ∀ v ∈ S, ∀ w ∈ S, key v = key w → v = w

section Index

variable {K : Type*} {key : V → K} {hash : K → ℕ} {S : Set V} {k : K}

theorem indexes_empty : Indexes n key hash (fun _ => none) (∅ : Set V) where
  probed := probed_empty
  holds v := by
    constructor
    · rintro ⟨b, -, hb⟩
      cases hb
    · exact fun hv => absurd hv (Set.notMem_empty v)
  distinct v hv := absurd hv (Set.notMem_empty v)

theorem Indexes.congr (h : Indexes n key hash slots S) {key' : V → K}
    (heq : ∀ v ∈ S, key' v = key v) : Indexes n key' hash slots S where
  probed := h.probed.congr fun v hv => by rw [heq v ((h.holds v).mp hv)]
  holds := h.holds
  distinct v hv w hw hk := by
    rw [heq v hv, heq w hw] at hk
    exact h.distinct v hv w hw hk

variable (h : Indexes n key hash slots S) (hk : hash k < n)
  (hp : ∀ v ∈ S, p v = true ↔ key v = k)
include h hk hp

theorem Indexes.find_iff (v : V) :
    find n slots p (hash k) = some v ↔ v ∈ S ∧ key v = k := by
  constructor
  · intro hf
    obtain ⟨hv, hpv⟩ := find_some hk hf
    have hS := (h.holds v).mp hv
    exact ⟨hS, (hp v hS).mp hpv⟩
  · rintro ⟨hS, rfl⟩
    refine h.probed.find_eq ((h.holds v).mpr hS) ((hp v hS).mpr rfl) fun w hw hpw => ?_
    have hwS := (h.holds w).mp hw
    exact h.distinct w hwS v hS ((hp w hwS).mp hpw)

theorem Indexes.find_none_iff :
    find n slots p (hash k) = none ↔ ∀ v ∈ S, key v ≠ k := by
  constructor
  · intro hf v hv hkv
    have := (h.find_iff hk hp v).mpr ⟨hv, hkv⟩
    simp [hf] at this
  · intro hno
    refine find_none (fun v hv => ?_) hk
    have hS := (h.holds v).mp hv
    simpa using mt (hp v hS).mp (hno v hS)

theorem Indexes.insert {v : V} (hkey : key v = k) (hv : v ∉ S) (hno : ∀ w ∈ S, key w ≠ k)
    (he : ∃ e < n, slots e = none) :
    Indexes n key hash (insert n slots p (hash k) v) (S ∪ {v}) := by
  subst hkey
  obtain ⟨hprobed, hholds⟩ := h.probed.insert_new (v := v) hk
    (fun w hw => by
      have hS := (h.holds w).mp hw
      simpa using mt (hp w hS).mp (hno w hS))
    (fun hc => hv ((h.holds v).mp hc)) he
  refine ⟨hprobed, fun w => ?_, ?_⟩
  · rw [hholds, h.holds]
    exact Iff.rfl
  · rintro w (hw | hw) u (hu | hu) hwu
    · exact h.distinct w hw u hu hwu
    · exact absurd (hwu.trans (congrArg key hu)) (hno w hw)
    · exact absurd (hwu.symm.trans (congrArg key hw)) (hno u hu)
    · exact Eq.trans hw (Eq.symm hu)

/-- A new value under a key in use takes the place of the old one. -/
theorem Indexes.replace {u v : V} (hu : u ∈ S) (huk : key u = k) (hkey : key v = k)
    (hv : v ∉ S) :
    Indexes n key hash (LinearProbing.insert n slots p (hash k) v) (S \ {u} ∪ {v}) := by
  subst hkey
  obtain ⟨hprobed, hholds⟩ := h.probed.insert_replace (v := v) ((h.holds u).mpr hu)
    ((hp u hu).mpr huk)
    (fun w hw hpw => by
      have hS := (h.holds w).mp hw
      exact h.distinct w hS u hu (((hp w hS).mp hpw).trans huk.symm))
    (by rw [huk]) (.inl fun hc => hv ((h.holds v).mp hc))
  have hne : ∀ w ∈ S \ {u}, key w ≠ key v :=
    fun w hw hk => hw.2 (h.distinct w hw.1 u hu (hk.trans huk.symm))
  refine ⟨hprobed, fun w => ?_, ?_⟩
  · rw [hholds, h.holds]
    exact Iff.rfl
  · rintro w (hw | hw) x (hx | hx) hwx
    · exact h.distinct w hw.1 x hx.1 hwx
    · exact absurd (hwx.trans (congrArg key hx)) (hne w hw)
    · exact absurd (hwx.symm.trans (congrArg key hw)) (hne x hx)
    · exact Eq.trans hw (Eq.symm hx)

theorem Indexes.remove {v : V} (hv : v ∈ S) (hkey : key v = k)
    (hlive : ∀ w ∈ S, live w = true) (he : ∃ e < n, slots e = none) :
    Indexes n key hash (remove n (fun w => hash (key w)) live slots p (hash k)) (S \ {v}) := by
  subst hkey
  obtain ⟨hprobed, hholds⟩ := h.probed.remove_eq _ ((h.holds v).mpr hv)
    ((hp v hv).mpr rfl)
    (fun w hw hpw => by
      have hS := (h.holds w).mp hw
      exact h.distinct w hS v hv ((hp w hS).mp hpw))
    (fun w hw => hlive w ((h.holds w).mp hw)) he
  refine ⟨hprobed, fun w => ?_, ?_⟩
  · rw [hholds, h.holds]
    exact Iff.rfl
  · exact fun w hw u hu hwu => h.distinct w hw.1 u hu.1 hwu

end Index

section Count

variable {K : Type*} {key : V → K} {hash : K → ℕ} {S : Set V}

theorem Indexes.exists_empty (h : Indexes n key hash slots S) (hlt : (key '' S).ncard < n) :
    ∃ e < n, slots e = none := by
  by_contra hfull
  obtain ⟨f, hf⟩ := exists_values hfull
  have hS : ∀ b, f b ∈ S := fun b => (h.holds _).mp ⟨b, b.isLt, hf b⟩
  have hinj : Function.Injective fun b => key (f b) := by
    intro b c hbc
    have hv := h.distinct _ (hS b) _ (hS c) hbc
    exact Fin.ext (h.probed.inj b b.isLt c c.isLt (f b) (hf b) (by rw [hf c, hv]))
  have hrange : key '' S = Set.range fun b => key (f b) := by
    apply Set.Subset.antisymm
    · rintro _ ⟨v, hv, rfl⟩
      obtain ⟨b, hb, hbv⟩ := (h.holds v).mpr hv
      refine ⟨⟨b, hb⟩, ?_⟩
      have hfb := hf ⟨b, hb⟩
      rw [hbv] at hfb
      exact congrArg key (Option.some.inj hfb).symm
    · rintro _ ⟨b, rfl⟩
      exact ⟨f b, hS b, rfl⟩
  rw [hrange, Set.ncard_range_of_injective hinj, Nat.card_fin] at hlt
  exact lt_irrefl _ hlt

theorem Indexes.insert_self (h : Indexes n key hash slots S) {v : V} (hv : v ∈ S)
    (hk : hash (key v) < n) (hp : ∀ w ∈ S, p w = true ↔ key w = key v) :
    Indexes n key hash (LinearProbing.insert n slots p (hash (key v)) v) S := by
  obtain ⟨hprobed, hholds⟩ := h.probed.insert_replace (v := v) ((h.holds v).mpr hv)
    ((hp v hv).mpr rfl)
    (fun w hw hpw => by
      have hS := (h.holds w).mp hw
      exact h.distinct w hS v hv ((hp w hS).mp hpw))
    rfl (.inr rfl)
  refine ⟨hprobed, fun w => ?_, h.distinct⟩
  rw [hholds, h.holds]
  constructor
  · rintro (⟨hw, -⟩ | rfl)
    · exact hw
    · exact hv
  · intro hw
    by_cases heq : w = v
    · exact .inr heq
    · exact .inl ⟨hw, heq⟩

end Count

end LinearProbing
