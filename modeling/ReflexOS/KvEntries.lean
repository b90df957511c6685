import ReflexOS.KvFlash
import Mathlib.Data.Finset.Card

set_option autoImplicit false

/-!
# A log of entries as a finite map

The newest entry of a key is its value; `live` keeps one entry per key.
-/
namespace ReflexOS.Kv

structure Entry where
  ns : UInt8
  key : CName
  type : UInt8
  val : List UInt8
deriving DecidableEq

/-- The key of an entry with its namespace. -/
def Entry.id (e : Entry) : UInt8 × CName := (e.ns, e.key)

def ids (es : List Entry) : List (UInt8 × CName) := es.map Entry.id

/-- The last entry of a key. -/
def lookup (es : List Entry) (k : UInt8 × CName) : Option Entry :=
  es.foldl (fun found e => if e.id = k then some e else found) none

/-- The entry takes the place of the one with its key, or goes to the end. -/
def upsert : List Entry → Entry → List Entry
  | [], e => [e]
  | d :: ds, e => if d.id = e.id then e :: ds else d :: upsert ds e

/-- One entry a key, the last one, in the order the keys first appear. -/
def live (es : List Entry) : List Entry := es.foldl upsert []

/-- A new key is passed over once the table is full. -/
def upsertMax (ds : List Entry) (e : Entry) : List Entry :=
  if e.id ∈ ids ds ∨ ds.length < kvEntryMax then upsert ds e else ds

/-- What a table of the size of compaction's keeps. -/
def keep (es : List Entry) : List Entry := es.foldl upsertMax []

section Lookup

variable {es ds : List Entry} {e x : Entry} {k : UInt8 × CName}

theorem lookup_append_one : lookup (es ++ [e]) k = if e.id = k then some e else lookup es k := by
  simp [lookup]

theorem lookup_some (h : lookup es k = some e) : e ∈ es ∧ e.id = k := by
  induction es using List.reverseRecOn with
  | nil => cases h
  | append_singleton es d ih =>
    rw [lookup_append_one] at h
    split at h
    next hd =>
      cases h
      exact ⟨by simp, hd⟩
    · obtain ⟨hmem, hid⟩ := ih h
      exact ⟨by simp [hmem], hid⟩

theorem lookup_eq_none : lookup es k = none ↔ ∀ e ∈ es, e.id ≠ k := by
  induction es using List.reverseRecOn with
  | nil => exact iff_of_true rfl nofun
  | append_singleton es d ih =>
    rw [lookup_append_one]
    by_cases hd : d.id = k
    · rw [if_pos hd]
      exact iff_of_false nofun fun h => h d (by simp) hd
    · rw [if_neg hd, ih]
      constructor
      · intro h e he
        rcases List.mem_append.mp he with he | he
        · exact h e he
        · rw [List.mem_singleton.mp he]
          exact hd
      · exact fun h e he => h e (List.mem_append_left _ he)

/-- Without repeated keys, the entry of a key is the one that is there. -/
theorem lookup_of_nodup (hn : (ids ds).Nodup) : lookup ds k = some e ↔ e ∈ ds ∧ e.id = k := by
  refine ⟨lookup_some, ?_⟩
  induction ds using List.reverseRecOn with
  | nil => simp
  | append_singleton ds d ih =>
    rintro ⟨hmem, hid⟩
    rw [ids, List.map_append, List.nodup_append] at hn
    obtain ⟨hn, -, hdisj⟩ := hn
    rw [lookup_append_one]
    rcases List.mem_append.mp hmem with hin | hin
    · have hne : d.id ≠ k := fun hd =>
        hdisj e.id (List.mem_map_of_mem hin) d.id (by simp) (hid.trans hd.symm)
      rw [if_neg hne]
      exact ih hn ⟨hin, hid⟩
    · obtain rfl := List.mem_singleton.mp hin
      rw [if_pos hid]

end Lookup

section Upsert

variable {es ds : List Entry} {e x : Entry} {k : UInt8 × CName}

theorem ids_upsert : ids (upsert ds e) = if e.id ∈ ids ds then ids ds else ids ds ++ [e.id] := by
  induction ds with
  | nil => simp [upsert, ids]
  | cons d ds ih =>
    rw [upsert]
    split
    next hd => simp [ids, hd]
    next hd =>
      have hne : e.id ≠ d.id := fun h => hd h.symm
      change d.id :: ids (upsert ds e) = _
      rw [ih]
      by_cases hmem : e.id ∈ ids ds
      · rw [if_pos hmem, if_pos (show e.id ∈ ids (d :: ds) from List.mem_cons_of_mem _ hmem)]
        rfl
      · have hnot : e.id ∉ ids (d :: ds) := by
          simpa [ids, hne] using hmem
        rw [if_neg hmem, if_neg hnot]
        rfl

theorem nodup_upsert (hn : (ids ds).Nodup) : (ids (upsert ds e)).Nodup := by
  rw [ids_upsert]
  split
  · exact hn
  next hnot => exact List.nodup_append.mpr ⟨hn, by simp, by
      rintro a ha b hb rfl
      rw [List.mem_singleton.mp hb] at ha
      exact hnot ha⟩

theorem mem_upsert (hn : (ids ds).Nodup) :
    x ∈ upsert ds e ↔ x = e ∨ x ∈ ds ∧ x.id ≠ e.id := by
  induction ds with
  | nil => simp [upsert]
  | cons d ds ih =>
    obtain ⟨hd, hn⟩ := List.nodup_cons.mp hn
    have hother : ∀ y ∈ ds, y.id ≠ d.id := fun y hy heq => hd (heq ▸ List.mem_map_of_mem hy)
    rw [upsert]
    split
    next heq =>
      rw [← heq]
      constructor
      · rw [List.mem_cons]
        rintro (rfl | hx)
        · exact .inl rfl
        · exact .inr ⟨by simp [hx], hother x hx⟩
      · rw [List.mem_cons, List.mem_cons]
        rintro (rfl | ⟨rfl | hx, hne⟩)
        · exact .inl rfl
        · exact absurd rfl hne
        · exact .inr hx
    next hne =>
      rw [List.mem_cons, ih hn, List.mem_cons]
      constructor
      · rintro (rfl | rfl | hx)
        · exact .inr ⟨.inl rfl, hne⟩
        · exact .inl rfl
        · exact .inr ⟨.inr hx.1, hx.2⟩
      · rintro (rfl | ⟨rfl | hx, hxe⟩)
        · exact .inr (.inl rfl)
        · exact .inl rfl
        · exact .inr (.inr ⟨hx, hxe⟩)

theorem live_append_one : live (es ++ [e]) = upsert (live es) e := by simp [live]

theorem nodup_live : (ids (live es)).Nodup := by
  induction es using List.reverseRecOn with
  | nil => exact List.nodup_nil
  | append_singleton es e ih =>
    rw [live_append_one]
    exact nodup_upsert ih

theorem mem_live : x ∈ live es ↔ lookup es x.id = some x := by
  induction es using List.reverseRecOn with
  | nil => simp [live, lookup]
  | append_singleton es e ih =>
    rw [live_append_one, mem_upsert nodup_live, ih, lookup_append_one]
    by_cases he : e.id = x.id
    · simp [he, eq_comm]
    · rw [if_neg he]
      constructor
      · rintro (rfl | h)
        · exact absurd rfl he
        · exact h.1
      · exact fun h => .inr ⟨h, fun heq => he heq.symm⟩

/-- Dropping the overwritten entries keeps every value. -/
theorem lookup_live : lookup (live es) k = lookup es k := by
  ext e
  rw [lookup_of_nodup nodup_live, mem_live]
  constructor
  · rintro ⟨h, rfl⟩
    exact h
  · intro h
    obtain ⟨-, rfl⟩ := lookup_some h
    exact ⟨h, rfl⟩

theorem mem_of_mem_live (h : x ∈ live es) : x ∈ es := (lookup_some (mem_live.mp h)).1

theorem mem_of_mem_upsert (h : x ∈ upsert ds e) : x = e ∨ x ∈ ds := by
  induction ds with
  | nil => exact .inl (List.mem_singleton.mp h)
  | cons d ds ih =>
    rw [upsert] at h
    split at h
    · rcases List.mem_cons.mp h with hx | hx
      · exact .inl hx
      · exact .inr (List.mem_cons_of_mem _ hx)
    · rcases List.mem_cons.mp h with hx | hx
      · exact .inr (hx ▸ List.mem_cons_self)
      · exact (ih hx).imp_right (List.mem_cons_of_mem _)

theorem keep_append_one : keep (es ++ [e]) = upsertMax (keep es) e := by simp [keep]

theorem mem_of_mem_keep (h : x ∈ keep es) : x ∈ es := by
  induction es using List.reverseRecOn with
  | nil => exact h
  | append_singleton es e ih =>
    rw [keep_append_one, upsertMax] at h
    split at h
    · rcases mem_of_mem_upsert h with rfl | hx
      · exact List.mem_append_right _ List.mem_cons_self
      · exact List.mem_append_left _ (ih hx)
    · exact List.mem_append_left _ (ih h)

/-- With room for every key, the bounded table is the map. -/
theorem keep_eq_live (hroom : (ids es).dedup.length ≤ kvEntryMax) : keep es = live es := by
  induction es using List.reverseRecOn with
  | nil => rfl
  | append_singleton es e ih =>
    have hids : ids (es ++ [e]) = ids es ++ [e.id] := by simp [ids]
    have hsub : (ids es).toFinset ⊆ (ids (es ++ [e])).toFinset := by
      intro k hk
      rw [hids, List.mem_toFinset]
      exact List.mem_append_left _ (List.mem_toFinset.mp hk)
    have hcard := Finset.card_le_card hsub
    rw [List.card_toFinset, List.card_toFinset] at hcard
    rw [keep_append_one, live_append_one, ih (hcard.trans hroom), upsertMax]
    refine if_pos ?_
    by_cases hmem : e.id ∈ ids (live es)
    · exact .inl hmem
    · refine .inr ?_
      have hnodup : (ids (live es) ++ [e.id]).Nodup := List.nodup_append.mpr ⟨nodup_live, by simp, by
        rintro a ha b hb rfl
        rw [List.mem_singleton.mp hb] at ha
        exact hmem ha⟩
      have hlive : (ids (live es) ++ [e.id]).toFinset ⊆ (ids (es ++ [e])).toFinset := by
        intro k hk
        rw [hids, List.mem_toFinset]
        rcases List.mem_append.mp (List.mem_toFinset.mp hk) with hk | hk
        · obtain ⟨d, hd, rfl⟩ := List.mem_map.mp hk
          exact List.mem_append_left _ (List.mem_map_of_mem (mem_of_mem_live hd))
        · exact List.mem_append_right _ hk
      have hle := Finset.card_le_card hlive
      rw [List.toFinset_card_of_nodup hnodup, List.card_toFinset, List.length_append, ids,
        List.length_map] at hle
      change (live es).length + 1 ≤ _ at hle
      omega

end Upsert

end ReflexOS.Kv
