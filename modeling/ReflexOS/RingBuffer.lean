import Mathlib.Data.Nat.ModEq
import Mathlib.Tactic.Common

set_option autoImplicit false

/-!
# Circular buffers

The occupied slots of an array of `n`, read from the oldest on.
-/
namespace RingBuffer

variable {α : Type*} {n start len : ℕ} {f g : ℕ → α}

/-- The `len` items from slot `start` on. -/
def window (n : ℕ) (f : ℕ → α) (start : ℕ) : ℕ → List α
  | 0 => []
  | len + 1 => f start :: window n f ((start + 1) % n) len

@[simp] theorem window_zero : window n f start 0 = [] := rfl

theorem window_succ :
    window n f start (len + 1) = f start :: window n f ((start + 1) % n) len := rfl

@[simp] theorem length_window : (window n f start len).length = len := by
  induction len generalizing start with
  | zero => rfl
  | succ len ih => rw [window_succ, List.length_cons, ih]

theorem slot_succ (n start k : ℕ) : ((start + 1) % n + k) % n = (start + (k + 1)) % n := by
  rw [Nat.mod_add_mod]
  congr 1
  omega

theorem window_congr (hs : start < n) (h : ∀ k < len, f ((start + k) % n) = g ((start + k) % n)) :
    window n f start len = window n g start len := by
  induction len generalizing start with
  | zero => rfl
  | succ len ih =>
    have hfirst := h 0 (Nat.succ_pos len)
    rw [Nat.add_zero, Nat.mod_eq_of_lt hs] at hfirst
    rw [window_succ, window_succ, hfirst]
    congr 1
    refine ih (Nat.mod_lt _ (by omega)) fun k hk => ?_
    rw [slot_succ]
    exact h (k + 1) (by omega)

theorem window_append (hs : start < n) :
    window n f start (len + 1) = window n f start len ++ [f ((start + len) % n)] := by
  induction len generalizing start with
  | zero => simp [window_succ, Nat.mod_eq_of_lt hs]
  | succ len ih =>
    rw [window_succ, ih (Nat.mod_lt _ (by omega)), slot_succ]
    rfl

theorem slot_ne {k : ℕ} (hk : k < len) (hl : len < n) : (start + k) % n ≠ (start + len) % n := by
  intro h
  have hmod : (start + len) ≡ (start + k) [MOD n] := h.symm
  have hlen : len ≡ k [MOD n] := Nat.ModEq.add_left_cancel' start hmod
  rw [Nat.ModEq, Nat.mod_eq_of_lt hl, Nat.mod_eq_of_lt (by omega)] at hlen
  omega

theorem window_push (hs : start < n) (hl : len < n) (x : α) :
    window n (Function.update f ((start + len) % n) x) start (len + 1) =
      window n f start len ++ [x] := by
  rw [window_append hs, Function.update_self]
  congr 1
  refine window_congr hs fun k hk => ?_
  exact Function.update_of_ne (slot_ne hk hl) _ _

section Recent
variable {idx c k : ℕ}

/-- The last `c` items written before slot `idx`, oldest first. -/
def recent (n : ℕ) (f : ℕ → α) (idx c : ℕ) : List α :=
  (List.range c).map fun i => f ((idx + n - c + i) % n)

@[simp] theorem recent_zero : recent n f idx 0 = [] := rfl

theorem recent_suffix (hk : k ≤ c) (hc : c ≤ n) : recent n f idx k <:+ recent n f idx c := by
  have hdrop : recent n f idx k = (recent n f idx c).drop (c - k) := by
    apply List.ext_getElem
    · simp only [recent, List.length_map, List.length_range, List.length_drop]
      omega
    · intro i hi _
      have hslot : idx + n - k + i = idx + n - c + (c - k + i) := by omega
      simp only [recent, List.getElem_map, List.getElem_range, List.getElem_drop, hslot]
  rw [hdrop]
  exact List.drop_suffix _ _

/-- The item just written is the most recent one. -/
theorem recent_push (hc : c < n) (x : α) :
    recent n (Function.update f (idx % n) x) (idx + 1) (c + 1) = recent n f idx c ++ [x] := by
  have hlast : idx + 1 + n - (c + 1) + c = idx + n := by omega
  rw [recent, List.range_succ, List.map_append, List.map_singleton, hlast, Nat.add_mod_right,
    Function.update_self]
  congr 1
  refine List.map_congr_left fun i hi => ?_
  have hi := List.mem_range.mp hi
  have hslot : idx + 1 + n - (c + 1) + i = idx + n - c + i := by omega
  have hne : (idx + n - c + i) % n ≠ (idx + n - c + c) % n := slot_ne hi hc
  have hend : idx + n - c + c = idx + n := by omega
  rw [hend, Nat.add_mod_right] at hne
  rw [hslot, Function.update_of_ne hne]

end Recent

end RingBuffer
