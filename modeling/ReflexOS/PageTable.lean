import Mathlib.Data.List.Nodup
import Mathlib.Logic.Function.Basic
import Mathlib.Tactic.Common

set_option autoImplicit false

/-!
# Page tables filled by a list of writes

A region of addresses takes one entry a page, and entries are numbered modulo their count; the
last write to an entry counts.
-/
namespace PageTable

variable {α β : Type*}

def writeAll (t : ℕ → α) (ws : List (ℕ × α)) : ℕ → α :=
  ws.foldl (fun t w => Function.update t w.1 w.2) t

/-- The last of the writes to entry `e` is of `v`. -/
def LastWrite (ws : List (ℕ × α)) (e : ℕ) (v : α) : Prop :=
  ∃ pre post, ws = pre ++ (e, v) :: post ∧ ∀ w ∈ post, w.1 ≠ e

section Writes

variable {t : ℕ → α} {ws : List (ℕ × α)} {e : ℕ} {v : α}

theorem writeAll_cons (t : ℕ → α) (w : ℕ × α) (ws : List (ℕ × α)) :
    writeAll t (w :: ws) = writeAll (Function.update t w.1 w.2) ws := rfl

theorem writeAll_append (t : ℕ → α) (ws ws' : List (ℕ × α)) :
    writeAll t (ws ++ ws') = writeAll (writeAll t ws) ws' := List.foldl_append

theorem writeAll_other (h : ∀ w ∈ ws, w.1 ≠ e) : writeAll t ws e = t e := by
  induction ws generalizing t with
  | nil => rfl
  | cons w ws ih =>
    rw [List.forall_mem_cons] at h
    have hkeep := ih h.2 (t := Function.update t w.1 w.2)
    rw [Function.update_of_ne h.1.symm] at hkeep
    exact hkeep

theorem LastWrite.writeAll_eq (h : LastWrite ws e v) : writeAll t ws e = v := by
  obtain ⟨pre, post, rfl, hpost⟩ := h
  rw [writeAll_append]
  have hkeep := writeAll_other hpost (t := Function.update (writeAll t pre) e v)
  rw [Function.update_self] at hkeep
  exact hkeep

theorem LastWrite.mem (h : LastWrite ws e v) : (e, v) ∈ ws := by
  obtain ⟨pre, post, rfl, -⟩ := h
  exact List.mem_append_right _ List.mem_cons_self

/-- Where no entry is written twice, every write is the last to its entry. -/
theorem LastWrite.eq_of_nodup (hnodup : (ws.map Prod.fst).Nodup) {w : ℕ × α} (hw : w ∈ ws)
    (h : LastWrite ws w.1 v) : v = w.2 :=
  congrArg Prod.snd (List.inj_on_of_nodup_map hnodup h.mem hw rfl)

theorem exists_lastWrite (h : ∃ w ∈ ws, w.1 = e) : ∃ v, LastWrite ws e v := by
  induction ws with
  | nil =>
    obtain ⟨w, hmem, -⟩ := h
    cases hmem
  | cons w ws ih =>
    by_cases hrest : ∃ w' ∈ ws, w'.1 = e
    · obtain ⟨v, pre, post, rfl, hpost⟩ := ih hrest
      exact ⟨v, w :: pre, post, rfl, hpost⟩
    · obtain ⟨w', hmem, he⟩ := h
      rcases List.mem_cons.mp hmem with rfl | hmem
      · exact ⟨w'.2, [], ws, by rw [← he]; rfl, fun w hw hwe => hrest ⟨w, hw, hwe⟩⟩
      · exact absurd ⟨w', hmem, he⟩ hrest

/-- Renaming the values renames what the table holds. -/
theorem writeAll_map (g : α → β) (t : ℕ → α) (ws : List (ℕ × α)) (e : ℕ) :
    g (writeAll t ws e) = writeAll (fun e => g (t e)) (ws.map fun w => (w.1, g w.2)) e := by
  induction ws generalizing t with
  | nil => rfl
  | cons w ws ih =>
    have hupdate : (fun e => g (Function.update t w.1 w.2 e)) =
        Function.update (fun e => g (t e)) w.1 (g w.2) := by
      funext e
      by_cases he : e = w.1
      · rw [he, Function.update_self, Function.update_self]
      · rw [Function.update_of_ne he, Function.update_of_ne he]
    have hrest := ih (Function.update t w.1 w.2)
    rw [hupdate] at hrest
    exact hrest

end Writes

/-- `len` addresses from `vaddr` on stand for those from `paddr` on, over `pages` pages. -/
structure Region where
  vaddr : ℕ
  paddr : ℕ
  len : ℕ
  pages : ℕ

variable {size entries : ℕ} {f : ℕ → α}

/-- The writes of a region; an entry holds the name `f` gives to a page. -/
def Region.writes (size entries : ℕ) (f : ℕ → α) (r : Region) : List (ℕ × α) :=
  (List.range r.pages).map fun k => ((r.vaddr / size + k) % entries, f (r.paddr / size + k))

/-- The pages that the addresses of a region lie in. -/
def Region.Covers (size : ℕ) (r : Region) : Prop :=
  r.pages = (r.paddr % size + r.len + (size - 1)) / size

def Region.Aligned (size : ℕ) (r : Region) : Prop := r.vaddr % size = r.paddr % size

/-- The table leads every address of the region to its place. -/
def Region.Mapped (size entries : ℕ) (f : ℕ → α) (t : ℕ → α) (r : Region) : Prop :=
  ∀ i < r.len, t ((r.vaddr + i) / size % entries) = f ((r.paddr + i) / size) ∧
    (r.vaddr + i) % size = (r.paddr + i) % size

section Regions

variable {r : Region} {i k : ℕ}

theorem Region.Aligned.page (hsize : 0 < size) (h : r.Aligned size) (i : ℕ) :
    (r.vaddr + i) / size = r.vaddr / size + (r.paddr % size + i) / size ∧
      (r.paddr + i) / size = r.paddr / size + (r.paddr % size + i) / size ∧
      (r.vaddr + i) % size = (r.paddr + i) % size := by
  have hdiv : ∀ a, (a + i) / size = a / size + (a % size + i) / size := fun a => by
    conv_lhs => rw [← Nat.div_add_mod a size, Nat.add_assoc, Nat.mul_add_div hsize]
  refine ⟨?_, hdiv r.paddr, ?_⟩
  · rw [hdiv, show r.vaddr % size = r.paddr % size from h]
  · rw [← Nat.mod_add_mod, show r.vaddr % size = r.paddr % size from h, Nat.mod_add_mod]

/-- Every page of a region holds one of its addresses. -/
theorem Region.Covers.address (hsize : 0 < size) (hcover : r.Covers size) (hlen : 0 < r.len)
    (hk : k < r.pages) : ∃ i < r.len, (r.paddr % size + i) / size = k := by
  have hoffset := Nat.mod_lt r.paddr hsize
  rw [hcover, ← Nat.succ_le_iff, Nat.le_div_iff_mul_le hsize, Nat.succ_mul] at hk
  refine ⟨k * size - r.paddr % size, by omega, ?_⟩
  cases k with
  | zero =>
    rw [Nat.zero_mul, Nat.zero_sub, Nat.add_zero]
    exact Nat.div_eq_of_lt hoffset
  | succ k =>
    have hle : size ≤ (k + 1) * size := Nat.le_mul_of_pos_left size (Nat.succ_pos k)
    rw [Nat.add_sub_cancel' (by omega)]
    exact Nat.mul_div_cancel _ hsize

theorem Region.Covers.page_lt (hsize : 0 < size) (hcover : r.Covers size) (hi : i < r.len) :
    (r.paddr % size + i) / size < r.pages := by
  have hdiv := Nat.div_mul_le_self (r.paddr % size + i) size
  rw [hcover, ← Nat.succ_le_iff, Nat.le_div_iff_mul_le hsize, Nat.succ_mul]
  omega

theorem Region.mem_writes (r : Region) (hk : k < r.pages) :
    ((r.vaddr / size + k) % entries, f (r.paddr / size + k)) ∈ r.writes size entries f :=
  List.mem_map.mpr ⟨k, List.mem_range.mpr hk, rfl⟩

end Regions

/-- Every region is mapped exactly if it is aligned and nothing written to one of its entries
afterwards names another page. -/
theorem mapped_iff (hsize : 0 < size) (f : ℕ → α) (t : ℕ → α) (rs : List Region)
    (hcover : ∀ r ∈ rs, 0 < r.len → r.Covers size) :
    (∀ r ∈ rs, r.Mapped size entries f (writeAll t (rs.flatMap (Region.writes size entries f)))) ↔
      ∀ r ∈ rs, 0 < r.len → r.Aligned size ∧ ∀ w ∈ r.writes size entries f, ∀ v,
        LastWrite (rs.flatMap (Region.writes size entries f)) w.1 v → v = w.2 := by
  refine forall₂_congr fun r hr => ?_
  constructor
  · intro hmapped hlen
    have haligned : r.Aligned size := (hmapped 0 hlen).2
    refine ⟨haligned, fun w hw v hlast => ?_⟩
    obtain ⟨k, hk, rfl⟩ := List.mem_map.mp hw
    obtain ⟨i, hi, hpage⟩ :=
      (hcover r hr hlen).address hsize hlen (List.mem_range.mp hk)
    obtain ⟨hv, hp, -⟩ := haligned.page hsize i
    have hentry := (hmapped i hi).1
    rw [hv, hp, hpage] at hentry
    exact (hlast.writeAll_eq.symm.trans hentry)
  · intro h i hi
    have hlen : 0 < r.len := Nat.zero_lt_of_lt hi
    obtain ⟨haligned, hlast⟩ := h hlen
    obtain ⟨hv, hp, hmod⟩ := haligned.page hsize i
    have hw := @Region.mem_writes _ size entries f _ r ((hcover r hr hlen).page_lt hsize hi)
    obtain ⟨v, hv'⟩ := exists_lastWrite ⟨_, List.mem_flatMap.mpr ⟨r, hr, hw⟩, rfl⟩
    refine ⟨?_, hmod⟩
    rw [hv, hp, hv'.writeAll_eq]
    exact hlast _ hw v hv'

end PageTable
