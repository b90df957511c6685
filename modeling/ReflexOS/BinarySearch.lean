import Mathlib.Data.List.Nodup
import Mathlib.Data.Int.Order.Basic
import Mathlib.Tactic.Common

set_option autoImplicit false

/-!
# Binary search over a table

The bounds are inclusive and may cross, as with signed indices. What is found is right in any
table; that nothing was found means something where the probes are in order.
-/
namespace BinarySearch

/-- `probe i` compares what is sought with entry `i`. -/
def search (probe : ℤ → Ordering) (low high : ℤ) : Option ℤ :=
  if low ≤ high then
    let mid := low + (high - low) / 2
    match probe mid with
    | .eq => some mid
    | .gt => search probe (mid + 1) high
    | .lt => search probe low (mid - 1)
  else none
termination_by (high + 1 - low).toNat

section Probes

variable {probe : ℤ → Ordering} {low high : ℤ}

/-- Below an entry that is too large everything is too large, and above one that is too small. -/
def InOrder (probe : ℤ → Ordering) (low high : ℤ) : Prop :=
  ∀ i j, low ≤ i → i ≤ j → j ≤ high →
    (probe i = .lt → probe j = .lt) ∧ (probe j = .gt → probe i = .gt)

theorem InOrder.mono {low' high' : ℤ} (h : InOrder probe low high) (hl : low ≤ low')
    (hh : high' ≤ high) : InOrder probe low' high' :=
  fun i j hi hij hj => h i j (by omega) hij (by omega)

theorem search_found {m : ℤ} (h : search probe low high = some m) :
    low ≤ m ∧ m ≤ high ∧ probe m = .eq := by
  fun_induction search probe low high with
  | case1 low high hle mid heq =>
    have hmid : mid = low + (high - low) / 2 := rfl
    obtain rfl := Option.some.inj h
    exact ⟨by omega, by omega, heq⟩
  | case2 low high hle mid hgt ih =>
    have hmid : mid = low + (high - low) / 2 := rfl
    obtain ⟨hl, hh, heq⟩ := ih h
    exact ⟨by omega, hh, heq⟩
  | case3 low high hle mid hlt ih =>
    have hmid : mid = low + (high - low) / 2 := rfl
    obtain ⟨hl, hh, heq⟩ := ih h
    exact ⟨hl, by omega, heq⟩
  | case4 low high hcross => cases h

theorem search_missing (hord : InOrder probe low high) (h : search probe low high = none) :
    ∀ i, low ≤ i → i ≤ high → probe i ≠ .eq := by
  fun_induction search probe low high with
  | case1 low high hle mid heq => cases h
  | case2 low high hle mid hgt ih =>
    have hmid : mid = low + (high - low) / 2 := rfl
    intro i hl hh heq
    by_cases hi : i ≤ mid
    · rw [(hord i mid hl hi (by omega)).2 hgt] at heq
      cases heq
    · exact ih (hord.mono (by omega) le_rfl) h i (by omega) hh heq
  | case3 low high hle mid hlt ih =>
    have hmid : mid = low + (high - low) / 2 := rfl
    intro i hl hh heq
    by_cases hi : mid ≤ i
    · rw [(hord mid i (by omega) hi hh).1 hlt] at heq
      cases heq
    · exact ih (hord.mono le_rfl (by omega)) h i hl (by omega) heq
  | case4 low high hcross =>
    intro i hl hh
    omega

end Probes

section Tables

variable {α β : Type*} (cmp : α → α → Ordering) (key : β → α)

def probe (table : List β) (x : α) (i : ℤ) : Ordering :=
  match table[i.toNat]? with
  | some e => cmp x (key e)
  | none => .lt

/-- The entry of the table whose key is `x`. -/
def lookup (table : List β) (x : α) : Option β :=
  (search (probe cmp key table x) 0 ((table.length : ℤ) - 1)).bind fun i => table[i.toNat]?

def SortedBy (table : List β) : Prop := table.Pairwise fun a b => (cmp (key a) (key b)).isLE = true

variable {cmp key} {table : List β} {x : α} {e : β}

theorem lookup_found (h : lookup cmp key table x = some e) : e ∈ table ∧ cmp x (key e) = .eq := by
  obtain ⟨i, hi, he⟩ := Option.bind_eq_some_iff.mp h
  obtain ⟨-, -, hprobe⟩ := search_found hi
  rw [probe, he] at hprobe
  exact ⟨List.mem_of_getElem? he, hprobe⟩

variable [Std.TransCmp cmp]

theorem probe_inOrder (hs : SortedBy cmp key table) (x : α) :
    InOrder (probe cmp key table x) 0 ((table.length : ℤ) - 1) := by
  intro i j hi hij hj
  by_cases heq : i = j
  · subst heq
    exact ⟨id, id⟩
  have hilt : i.toNat < table.length := by omega
  have hjlt : j.toNat < table.length := by omega
  have hle := List.pairwise_iff_getElem.mp hs i.toNat j.toNat hilt hjlt (by omega)
  simp only [probe, List.getElem?_eq_getElem hilt, List.getElem?_eq_getElem hjlt]
  refine ⟨fun h => Std.TransCmp.lt_of_lt_of_isLE h hle, fun h => ?_⟩
  exact Std.OrientedCmp.gt_iff_lt.mpr
    (Std.TransCmp.lt_of_isLE_of_lt hle (Std.OrientedCmp.gt_iff_lt.mp h))

theorem lookup_missing (hs : SortedBy cmp key table) (h : lookup cmp key table x = none) :
    ∀ e ∈ table, cmp x (key e) ≠ .eq := by
  have hnone : search (probe cmp key table x) 0 ((table.length : ℤ) - 1) = none := by
    cases hsearch : search (probe cmp key table x) 0 ((table.length : ℤ) - 1) with
    | none => rfl
    | some i =>
      obtain ⟨hl, hh, -⟩ := search_found hsearch
      have hi : i.toNat < table.length := by omega
      rw [lookup, hsearch, Option.bind_some, List.getElem?_eq_getElem hi] at h
      cases h
  intro e he
  obtain ⟨n, hn, rfl⟩ := List.mem_iff_getElem.mp he
  have hne := search_missing (probe_inOrder hs x) hnone n (by omega) (by omega)
  simpa [probe, List.getElem?_eq_getElem hn] using hne

/-- With distinct keys the table is a finite map. -/
theorem lookup_eq_some_iff [Std.LawfulEqCmp cmp] (hs : SortedBy cmp key table)
    (hnodup : (table.map key).Nodup) :
    lookup cmp key table x = some e ↔ e ∈ table ∧ key e = x := by
  constructor
  · intro h
    obtain ⟨he, hx⟩ := lookup_found h
    exact ⟨he, (Std.LawfulEqCmp.compare_eq_iff_eq.mp hx).symm⟩
  · rintro ⟨he, rfl⟩
    cases h : lookup cmp key table (key e) with
    | none => exact absurd Std.ReflCmp.compare_self (lookup_missing hs h e he)
    | some e' =>
      obtain ⟨he', hx⟩ := lookup_found h
      have hkey := Std.LawfulEqCmp.compare_eq_iff_eq.mp hx
      rw [List.inj_on_of_nodup_map hnodup he' he hkey.symm]

end Tables

end BinarySearch
