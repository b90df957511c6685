import Mathlib.Data.List.Rotate

set_option autoImplicit false

/-!
# Turns in a circle

The slots below `n` take turns from a cursor on, and what leaves a slot comes back behind
everything that stayed.
-/
namespace RoundRobin

section Spacing
variable {α : Type*} {k : ℕ} {l m : List α} {x : α}

/-- Any `k` consecutive items are distinct. -/
def Sparse (k : ℕ) (l : List α) : Prop := ∀ w, w <:+: l → w.length ≤ k → w.Nodup

theorem Sparse.of_nodup (h : l.Nodup) : Sparse k l := fun _ hw _ => h.sublist hw.sublist

theorem Sparse.nodup (h : Sparse k l) (hl : l.length ≤ k) : l.Nodup := h l (List.infix_refl l) hl

theorem Sparse.inside (h : Sparse k l) (hm : m <:+: l) : Sparse k m :=
  fun w hw hk => h w (hw.trans hm) hk

/-- An item may follow if it is none of the last ones. -/
theorem Sparse.concat (h : Sparse k l) (hx : ∀ w, w <:+ l → w.length < k → x ∉ w) :
    Sparse k (l ++ [x]) := by
  intro w hw hk
  rcases List.infix_concat_iff.mp hw with hsuffix | hinside
  · rcases List.suffix_concat_iff.mp hsuffix with rfl | ⟨w', rfl, hw'⟩
    · exact List.nodup_nil
    · rw [List.length_append, List.length_singleton] at hk
      rw [← List.concat_eq_append]
      exact (h w' hw'.isInfix (by omega)).concat (hx w' hw' (by omega))
  · exact h w hinside hk

theorem Sparse.insert (h : Sparse k (l ++ m)) (hx : x ∉ l ++ m) : Sparse k (l ++ x :: m) := by
  intro w hw hk
  rcases List.infix_append_iff.mp hw with hl | hm | ⟨w₁, w₂, rfl, hl, hm⟩
  · exact h w (hl.trans (List.prefix_append l m).isInfix) hk
  · rcases List.infix_cons_iff.mp hm with hhead | hinside
    · rcases List.prefix_cons_iff.mp hhead with rfl | ⟨w', rfl, hw'⟩
      · exact List.nodup_nil
      · have hin : w' <:+: l ++ m := hw'.isInfix.trans (List.suffix_append l m).isInfix
        rw [List.length_cons] at hk
        exact List.nodup_cons.mpr ⟨fun hmem => hx (hin.subset hmem), h w' hin (by omega)⟩
    · exact h w (hinside.trans (List.suffix_append l m).isInfix) hk
  · rcases List.prefix_cons_iff.mp hm with rfl | ⟨w', rfl, hw'⟩
    · rw [List.append_nil] at hk ⊢
      exact h w₁ (hl.isInfix.trans (List.prefix_append l m).isInfix) hk
    · have hin : w₁ ++ w' <:+: l ++ m :=
        List.infix_append_iff.mpr (.inr (.inr ⟨w₁, w', rfl, hl, hw'⟩))
      rw [List.length_append, List.length_cons] at hk
      refine List.nodup_middle.mpr (List.nodup_cons.mpr ⟨fun hmem => hx (hin.subset hmem), ?_⟩)
      exact h _ hin (by rw [List.length_append]; omega)

end Spacing

section Order
variable {n c t : ℕ} {pre post : List ℕ}

/-- The slots in the order of their turns. -/
def order (n c : ℕ) : List ℕ := (List.range n).rotate c

theorem order_eq_map (n c : ℕ) : order n c = (List.range n).map fun i => (c + i) % n := by
  apply List.ext_getElem
  · simp [order]
  · intro i _ _
    simp [order, List.getElem_rotate, Nat.add_comm]

theorem order_nodup : (order n c).Nodup := List.nodup_rotate.mpr List.nodup_range

@[simp] theorem mem_order {v : ℕ} : v ∈ order n c ↔ v < n := by
  rw [order, List.mem_rotate, List.mem_range]

/-- After the turn of slot `t` the order starts behind it. -/
theorem order_next (h : order n c = pre ++ t :: post) :
    order n ((t + 1) % n) = post ++ (pre ++ [t]) := by
  have ht : (c + pre.length) % n = t := by
    have hget : (order n c)[pre.length]? = some t := by simp [h]
    rw [order_eq_map, List.getElem?_map, Option.map_eq_some_iff] at hget
    obtain ⟨i, hi, rfl⟩ := hget
    obtain ⟨_, rfl⟩ := List.getElem?_eq_some_iff.mp hi
    rw [List.getElem_range]
  have hmod : (t + 1) % n = (c + (pre.length + 1)) % n := by
    rw [← ht, Nat.mod_add_mod, Nat.add_assoc]
  have hrot : order n ((t + 1) % n) = (order n c).rotate (pre.length + 1) := by
    have hlen := (List.range n).rotate_mod (c + (pre.length + 1))
    rw [List.length_range] at hlen
    rw [order, order, hmod, hlen, List.rotate_rotate]
  have hsplit : pre ++ t :: post = (pre ++ [t]) ++ post := by simp
  have hturn := List.rotate_append_length_eq (pre ++ [t]) post
  rw [List.length_append, List.length_singleton] at hturn
  rw [hrot, h, hsplit, hturn]

end Order

section Items
variable {α : Type*} {g g' : ℕ → Option α} {n c t k : ℕ} {pre post : List ℕ} {x : α}

/-- What the slots hold, in the order of their turns. -/
def items (g : ℕ → Option α) (n c : ℕ) : List α := (order n c).filterMap g

theorem mem_items : x ∈ items g n c ↔ ∃ v < n, g v = some x := by
  simp [items, List.mem_filterMap]

theorem items_nodup (h : ∀ v < n, ∀ w < n, ∀ x, g v = some x → g w = some x → v = w) :
    (items g n c).Nodup := by
  have hne : (order n c).Pairwise (· ≠ ·) := order_nodup
  refine List.pairwise_filterMap.mpr (hne.imp_of_mem fun hv hw hvw x hx y hy hxy => hvw ?_)
  exact h _ (mem_order.mp hv) _ (mem_order.mp hw) x hx (hxy ▸ hy)

theorem length_items :
    (items g n c).length = ((List.range n).filter fun v => (g v).isSome).length := by
  rw [items, List.length_filterMap_eq_countP, ← List.countP_eq_length_filter]
  exact (List.rotate_perm _ _).countP_eq _

section Turn
variable (h : order n c = pre ++ t :: post)
include h

theorem turn_notMem : t ∉ pre ++ post := by
  have hnodup : (pre ++ t :: post).Nodup := h ▸ order_nodup
  exact (List.nodup_cons.mp (List.nodup_middle.mp hnodup)).1

theorem turn_congr (hg : ∀ v < n, v ≠ t → g' v = g v) :
    pre.filterMap g' = pre.filterMap g ∧ post.filterMap g' = post.filterMap g := by
  have hsame : ∀ v ∈ pre ++ post, g' v = g v := by
    intro v hv
    refine hg v (mem_order.mp (?_ : v ∈ order n c)) ?_
    · rw [h]
      exact List.perm_middle.mem_iff.mpr (List.mem_cons_of_mem t hv)
    · rintro rfl
      exact turn_notMem h hv
  exact ⟨List.filterMap_congr fun v hv => hsame v (List.mem_append_left post hv),
    List.filterMap_congr fun v hv => hsame v (List.mem_append_right pre hv)⟩

variable (hpre : ∀ v ∈ pre, g v = none)
include hpre

theorem items_turn : items g n c = (g t).toList ++ post.filterMap g := by
  have hskip : pre.filterMap g = [] := List.filterMap_eq_nil_iff.mpr hpre
  rw [items, h, List.filterMap_append, hskip, List.nil_append, List.filterMap_cons]
  cases g t <;> rfl

variable (hg : ∀ v < n, v ≠ t → g' v = g v)
include hg

theorem items_next : items g' n ((t + 1) % n) = post.filterMap g ++ (g' t).toList := by
  obtain ⟨hkept, hpost⟩ := turn_congr h hg
  have hskip : pre.filterMap g' = [] := hkept.trans (List.filterMap_eq_nil_iff.mpr hpre)
  rw [items, order_next h, List.filterMap_append, List.filterMap_append, hpost, hskip]
  cases hgt : g' t <;> simp [hgt]

/-- A slot takes its turn: what it held goes to the log, and what it gets is new. -/
theorem Sparse.turn {log log' : List α} (hs : Sparse k (log ++ items g n c))
    (hlog : log' <:+ log ++ (g t).toList) (hlen : k ≤ (items g n c).length)
    (hnew : ∀ x, g' t = some x → x ∉ items g n c) :
    Sparse k (log' ++ items g' n ((t + 1) % n)) := by
  have hitems := items_turn h hpre
  have hlen' : k ≤ (post.filterMap g).length + 1 := by
    rw [hitems, List.length_append] at hlen
    have hone : (g t).toList.length ≤ 1 := by cases g t <;> simp
    omega
  have hkept : Sparse k (log' ++ post.filterMap g) := by
    refine hs.inside ?_
    rw [hitems, ← List.append_assoc]
    obtain ⟨u, hu⟩ := hlog
    exact List.IsSuffix.isInfix ⟨u, by rw [← List.append_assoc, hu]⟩
  rw [items_next h hpre hg, ← List.append_assoc]
  cases hgt : g' t with
  | none => simpa using hkept
  | some x =>
    refine hkept.concat fun w hw hk hx => ?_
    -- the last items are all among those that stayed
    have hstay : w <:+ post.filterMap g :=
      List.suffix_of_suffix_length_le hw (List.suffix_append _ _) (by omega)
    exact hnew x hgt (by rw [hitems]; exact List.mem_append_right _ (hstay.subset hx))

end Turn

/-- An empty slot gets a new item out of turn. -/
theorem Sparse.fill {log : List α} {v : ℕ} (hs : Sparse k (log ++ items g n c)) (hv : v < n)
    (hempty : g v = none) (hx : x ∉ log ++ items g n c) (hgv : g' v = some x)
    (hg : ∀ w < n, w ≠ v → g' w = g w) : Sparse k (log ++ items g' n c) := by
  obtain ⟨pre, post, h⟩ := List.append_of_mem (mem_order.mpr hv : v ∈ order n c)
  obtain ⟨hpre, hpost⟩ := turn_congr h hg
  have hold : items g n c = pre.filterMap g ++ post.filterMap g := by
    simp [items, h, hempty]
  have hnew : items g' n c = pre.filterMap g ++ x :: post.filterMap g := by
    simp [items, h, hgv, hpre, hpost]
  rw [hold, ← List.append_assoc] at hs hx
  rw [hnew, ← List.append_assoc]
  exact hs.insert hx

end Items

end RoundRobin
