import ReflexOS.KvCrash

set_option autoImplicit false

/-!
# The store as a map

Between two restarts a store is the map of what was set, whatever the namespaces hash to and
however often it compacts.
-/
namespace ReflexOS.Kv
open NorFlash

section Carries

variable {S : Store} {es : List Entry} {e : Entry}

theorem ids_dedup_le {known : List (UInt8 × CName)} (h : ∀ e ∈ es, e.id ∈ known) :
    (ids es).dedup.length ≤ known.dedup.length := by
  have hsub : (ids es).toFinset ⊆ known.toFinset := by
    intro id hid
    obtain ⟨e, he, rfl⟩ := List.mem_map.mp (List.mem_toFinset.mp hid)
    exact List.mem_toFinset.mpr (h e he)
  have hcard := Finset.card_le_card hsub
  rwa [List.card_toFinset, List.card_toFinset] at hcard

theorem Carries.withLog (h : Carries S es) (log : List FlashOp) : Carries { S with log := log } es :=
  ⟨h.active_lt, h.sector, h.offset, h.sane⟩

/-- What a write does to the entries: it goes behind those there are, or behind those that a
compaction keeps. -/
theorem Carries.write_cases (h : Carries S es) (hkey : e.key ≠ []) :
    (kvWrite S e = (Err.invalidArg, S)) ∨
    (¬ Compacts S e ∧ e.Sane ∧ kvWrite S e = (Err.ok, appended S e) ∧
      S.writeOffset + e.span < kvSectorSize) ∨
    (Compacts S e ∧ kvWrite S e = (Err.noMem, kvCompact S)) ∨
    (Compacts S e ∧ e.Sane ∧ kvWrite S e = (Err.ok, appended (kvCompact S) e) ∧
      (kvCompact S).writeOffset + e.span < kvSectorSize) := by
  by_cases hbad : kvKeyMax < e.key.length ∨ kvValMax < e.val.length
  · exact .inl (kvWrite_invalid hbad)
  have hs : e.Sane := ⟨List.length_pos_iff.mpr hkey, by omega, by omega⟩
  rw [kvWrite_valid hbad]
  by_cases hfull : kvSectorSize ≤ S.writeOffset + e.span
  · rw [if_pos hfull]
    have hcomp : Compacts S e := ⟨hs.key_le, hs.val_le, hfull⟩
    by_cases hfit : kvSectorSize ≤ (kvCompact S).writeOffset + e.span
    · rw [if_pos hfit]
      exact .inr (.inr (.inl ⟨hcomp, rfl⟩))
    · have hlt := Nat.lt_of_not_le hfit
      rw [if_neg hfit, (h.compact.1.append hs hlt).1]
      exact .inr (.inr (.inr ⟨hcomp, hs, rfl, hlt⟩))
  · have hlt := Nat.lt_of_not_le hfull
    rw [if_neg hfull, (h.append hs hlt).1]
    exact .inr (.inl ⟨fun hc => hfull hc.2.2, hs, rfl, hlt⟩)

/-- A write that succeeds sets the value of its key; any other leaves every value alone. -/
theorem Carries.write (h : Carries S es) (hkey : e.key ≠ [])
    (hroom : (ids es).dedup.length ≤ kvEntryMax) :
    ∃ es', Carries (kvWrite S e).2 es' ∧ (∀ d ∈ es', d = e ∨ d ∈ es) ∧ ∀ k, lookup es' k =
      if (kvWrite S e).1 = Err.ok ∧ e.id = k then some e else lookup es k := by
  have hlive : keep es = live es := keep_eq_live hroom
  have hback : ∀ {ds : List Entry}, (∀ d ∈ ds, d ∈ es) → ∀ d ∈ ds ++ [e], d = e ∨ d ∈ es := by
    intro ds hds d hd
    rcases List.mem_append.mp hd with hd | hd
    · exact .inr (hds d hd)
    · exact .inl (List.mem_singleton.mp hd)
  rcases h.write_cases hkey with hw | ⟨-, hs, hw, hfit⟩ | ⟨-, hw⟩ | ⟨-, hs, hw, hfit⟩
  · rw [hw]
    exact ⟨es, h, fun d hd => .inr hd, fun k => by simp [Err.invalidArg, Err.ok]⟩
  · rw [hw]
    exact ⟨es ++ [e], (h.append hs hfit).2.1, hback fun d hd => hd,
      fun k => by simp [lookup_append_one]⟩
  · rw [hw]
    refine ⟨keep es, h.compact.1, fun d hd => .inr (mem_of_mem_keep hd), fun k => ?_⟩
    simp [Err.noMem, Err.ok, hlive, lookup_live]
  · rw [hw]
    refine ⟨keep es ++ [e], (h.compact.1.append hs hfit).2.1, hback fun d => mem_of_mem_keep,
      fun k => ?_⟩
    simp [lookup_append_one, hlive, lookup_live]

theorem Carries.getBlob_length (h : Carries S es) {ns : UInt8} {key : CName} {cap : ℕ}
    {val : List UInt8} (hread : kvGetBlob S ns key cap = .ok val) : val.length ≤ kvValMax := by
  rw [h.getBlob] at hread
  cases hl : lookup es (ns, key) with
  | none =>
    rw [hl] at hread
    cases hread
  | some e =>
    rw [hl] at hread
    by_cases hcap : cap < e.val.length
    · cases (if_pos hcap).symm.trans hread
    · cases (if_neg hcap).symm.trans hread
      exact (h.sane e (lookup_some hl).1).val_le

/-- The store has room for the entry, if need be behind a compaction. -/
def Takes (S : Store) (e : Entry) : Prop :=
  Compacts S e → (kvKeys S).dedup.length ≤ kvEntryMax ∧
    (kvCompact S).writeOffset + e.span < kvSectorSize

theorem Carries.write_initialized (h : Carries S es) (hkey : e.key ≠ []) :
    (kvWrite S e).2.initialized = S.initialized := by
  obtain ⟨-, -, -, -, hinit, -⟩ := h.compact
  rcases h.write_cases hkey with hw | ⟨-, -, hw, -⟩ | ⟨-, hw⟩ | ⟨-, -, hw, -⟩
  · rw [hw]
  · rw [hw]
    rfl
  · rw [hw]
    exact hinit
  · rw [hw]
    exact hinit

theorem Carries.write_takes (h : Carries S es) (hs : e.Sane) (htakes : Takes S e) :
    (kvWrite S e).1 = Err.ok ∧ ∃ es', Carries (kvWrite S e).2 es' ∧
      ∀ k, lookup es' k = if e.id = k then some e else lookup es k := by
  have hkey : ¬ kvKeyMax < e.key.length := Nat.not_lt_of_le hs.key_le
  have hval : ¬ kvValMax < e.val.length := Nat.not_lt_of_le hs.val_le
  rw [kvWrite_valid (not_or.mpr ⟨hkey, hval⟩)]
  by_cases hfull : kvSectorSize ≤ S.writeOffset + e.span
  · obtain ⟨hkeys, hfit⟩ := htakes ⟨hs.key_le, hs.val_le, hfull⟩
    rw [h.keys] at hkeys
    obtain ⟨happ, hcarries, -⟩ := h.compact.1.append hs hfit
    rw [if_pos hfull, if_neg (Nat.not_le_of_lt hfit), happ]
    refine ⟨rfl, _, hcarries, fun k => ?_⟩
    rw [lookup_append_one, keep_eq_live hkeys, lookup_live]
  · obtain ⟨happ, hcarries, -⟩ := h.append hs (Nat.lt_of_not_le hfull)
    rw [if_neg hfull, happ]
    exact ⟨rfl, _, hcarries, fun k => lookup_append_one⟩

/-- Far from the end of the sector no write compacts. -/
theorem Carries.write_roomy (h : Carries S es) (hkey : e.key ≠ [])
    (hroom : S.writeOffset + 260 < kvSectorSize) :
    Takes S e ∧ (kvWrite S e).2.writeOffset ≤ S.writeOffset + 260 ∧
      ∃ es', Carries (kvWrite S e).2 es' := by
  by_cases hbad : kvKeyMax < e.key.length ∨ kvValMax < e.val.length
  · rw [kvWrite_invalid hbad]
    exact ⟨fun hc => by have := hc.1; have := hc.2.1; omega, Nat.le_add_right _ _, es, h⟩
  have hs : e.Sane := ⟨List.length_pos_iff.mpr hkey, by omega, by omega⟩
  have hspan := hs.span_le
  have hnot : ¬ Compacts S e := fun hc => by
    have := hc.2.2
    omega
  have htakes : Takes S e := fun hc => absurd hc hnot
  obtain ⟨-, es', hes', -⟩ := h.write_takes hs htakes
  refine ⟨htakes, ?_, es', hes'⟩
  rcases h.write_cases hkey with hw | ⟨-, -, hw, -⟩ | ⟨hc, -⟩ | ⟨hc, -⟩
  · rw [hw]
    exact Nat.le_add_right _ _
  · rw [hw]
    exact Nat.add_le_add_left hspan _
  · exact absurd hc hnot
  · exact absurd hc hnot

theorem CleanWrites.mono {sectors sectors' : List ℕ} {F : Memory} {ops : List FlashOp}
    (h : CleanWrites sectors F ops) (hsub : ∀ s ∈ sectors, s ∈ sectors') :
    CleanWrites sectors' F ops := by
  induction ops generalizing F with
  | nil => trivial
  | cons op ops ih =>
    refine ⟨?_, ih h.2⟩
    cases op with
    | erase addr len => trivial
    | write addr bytes =>
      obtain ⟨hblank, s, hs, hin⟩ := h.1
      exact ⟨hblank, s, hsub s hs, hin⟩

theorem Carries.append_clean (h : Carries S es) (hfit : S.writeOffset + e.span < kvSectorSize) :
    CleanWrites [S.activeSector] S.flash
      [.write (sectorAddr S.activeSector + S.writeOffset) e.bytes] := by
  obtain ⟨hblank, hlo, hhi⟩ := h.sector.append_clean (e := e) (by rw [← h.offset]; exact hfit)
  rw [h.offset]
  exact ⟨⟨hblank, S.activeSector, List.mem_singleton_self _, hlo, hhi⟩, trivial⟩

/-- The writes of a set fall on erased bytes of the active sector and the one compaction moves
to. -/
theorem Carries.write_clean (h : Carries S es) (hkey : e.key ≠ []) :
    CleanWrites [S.activeSector, nextSector S] S.flash (writeOps S e) := by
  obtain ⟨hc, -, hactive, -, -, ops, hlog, -, hclean, hflash⟩ := (h.withLog []).compact
  rw [List.nil_append] at hlog
  have hcompact : CleanWrites [S.activeSector, nextSector S] S.flash (kvCompact { S with log := [] }).log := by
    rw [hlog]
    exact hclean.mono fun s hs => List.mem_cons_of_mem _ hs
  unfold writeOps
  rcases (h.withLog []).write_cases hkey with hw | ⟨-, -, hw, hfit⟩ | ⟨-, hw⟩ | ⟨-, -, hw, hfit⟩
  · rw [hw]
    trivial
  · rw [hw]
    exact ((h.withLog []).append_clean hfit).mono fun s hs => by
      rw [List.mem_singleton.mp hs]
      exact List.mem_cons_self
  · rw [hw]
    exact hcompact
  · rw [hw]
    refine cleanWrites_append hcompact ?_
    rw [hlog, ← hflash]
    refine (hc.append_clean hfit).mono fun s hs => ?_
    rw [List.mem_singleton.mp hs, hactive]
    exact List.mem_cons_of_mem _ List.mem_cons_self

end Carries

/-- A call of a setter, with what it leaves behind. -/
def setCall (H : History) (c : SetCall) : History :=
  ⟨(kvWrite H.store c.entry).2,
    if (kvWrite H.store c.entry).1 = Err.ok then H.record c (some c.val) else H.last⟩

def setCalls (H : History) (calls : List SetCall) : History := calls.foldl setCall H

/-- A read of the key returns the value set last, or nothing was set. -/
def ReadsAs (S : Store) (ns key : CName) : Option (List UInt8) → Prop
  | some val => ∀ cap, val.length ≤ cap → kvGetBlob S (nsHash ns) key cap = .ok val
  | none => ∀ cap, kvGetBlob S (nsHash ns) key cap = .error Err.notFound

/-- The keys that are set, by namespace. -/
def callKeys (calls : List SetCall) : List (CName × CName) := calls.map fun c => (c.ns, c.key)

/-- The entries of the store are those of the keys set, and its map is that of the history. -/
structure MapsTo (names : Set CName) (keys : List (CName × CName)) (H : History)
    (es : List Entry) : Prop where
  carries : Carries H.store es
  known : ∀ e ∈ es, ∃ k ∈ keys, e.id = (nsHash k.1, k.2)
  last : ∀ ns ∈ names, ∀ key, (lookup es (nsHash ns, key)).map Entry.val = H.last ns key

section Map

variable {names : Set CName} {keys : List (CName × CName)} {H : History} {es : List Entry}

theorem MapsTo.reads (h : MapsTo names keys H es) {ns : CName} (hns : ns ∈ names) (key : CName) :
    ReadsAs H.store ns key (H.last ns key) := by
  rw [← h.last ns hns key]
  cases hl : lookup es (nsHash ns, key) with
  | none => exact fun cap => h.carries.getBlob_none hl cap
  | some e => exact fun cap hcap => h.carries.getBlob_some hl hcap

theorem MapsTo.room (h : MapsTo names keys H es) (hfew : keys.dedup.length ≤ kvEntryMax) :
    (ids es).dedup.length ≤ kvEntryMax := by
  have hmem : ∀ e ∈ es, e.id ∈ keys.map fun k => (nsHash k.1, k.2) := by
    intro e he
    obtain ⟨k, hk, heq⟩ := h.known e he
    exact List.mem_map.mpr ⟨k, hk, heq.symm⟩
  have hmap : (keys.map fun k => (nsHash k.1, k.2)).dedup.length ≤ keys.dedup.length := by
    have himage : (keys.map fun k => (nsHash k.1, k.2)).toFinset =
        keys.toFinset.image fun k => (nsHash k.1, k.2) := by
      ext k
      simp only [List.mem_toFinset, List.mem_map, Finset.mem_image]
    rw [← List.card_toFinset, ← List.card_toFinset, himage]
    exact Finset.card_image_le
  exact (ids_dedup_le hmem).trans (hmap.trans hfew)

theorem MapsTo.set (hinj : Set.InjOn nsHash names) (h : MapsTo names keys H es)
    (hfew : keys.dedup.length ≤ kvEntryMax) {c : SetCall} (hns : c.ns ∈ names)
    (hkey : c.key ≠ []) (hmem : (c.ns, c.key) ∈ keys) :
    ∃ es', MapsTo names keys (setCall H c) es' := by
  obtain ⟨es', hcarries, hback, hlook⟩ := h.carries.write (e := c.entry) hkey (h.room hfew)
  refine ⟨es', hcarries, fun d hd => ?_, fun ns hns' key => ?_⟩
  · rcases hback d hd with rfl | hd
    · exact ⟨_, hmem, rfl⟩
    · exact h.known d hd
  · rw [hlook]
    by_cases hok : (kvWrite H.store c.entry).1 = Err.ok
    · have hlast : (setCall H c).last = H.record c (some c.val) := if_pos hok
      rw [hlast]
      by_cases hsame : c.ns = ns ∧ c.key = key
      · obtain ⟨rfl, rfl⟩ := hsame
        rw [if_pos ⟨hok, rfl⟩, History.record_self]
        rfl
      · rw [if_neg fun hid => entry_id_ne hinj hns hns' hsame hid.2, History.record_other hsame]
        exact h.last ns hns' key
    · have hlast : (setCall H c).last = H.last := if_neg hok
      rw [hlast, if_neg fun hid => hok hid.1]
      exact h.last ns hns' key

theorem MapsTo.sets (hinj : Set.InjOn nsHash names) (h : MapsTo names keys H es)
    (hfew : keys.dedup.length ≤ kvEntryMax) {calls : List SetCall}
    (hns : ∀ c ∈ calls, c.ns ∈ names) (hkey : ∀ c ∈ calls, c.key ≠ [])
    (hmem : ∀ c ∈ calls, (c.ns, c.key) ∈ keys) :
    ∃ es', MapsTo names keys (setCalls H calls) es' := by
  induction calls generalizing H es with
  | nil => exact ⟨es, h⟩
  | cons c calls ih =>
    obtain ⟨es', h'⟩ := h.set hinj hfew (hns c (by simp)) (hkey c (by simp)) (hmem c (by simp))
    exact ih h' (fun d hd => hns d (by simp [hd])) (fun d hd => hkey d (by simp [hd]))
      fun d hd => hmem d (by simp [hd])

end Map

/-- From a medium without a page of the store: after any sets every key reads as it was last set,
and no set wrote on anything but erased bytes of its sector or the next. -/
theorem kv_refines_map {names : Set CName} (hinj : Set.InjOn nsHash names) {F : Memory}
    (hblank : ∀ t < kvNumSectors, (readPageHeader F (sectorAddr t)).magic ≠ kvMagic)
    {calls : List SetCall} (hns : ∀ c ∈ calls, c.ns ∈ names) (hkey : ∀ c ∈ calls, c.key ≠ [])
    (hfew : (callKeys calls).dedup.length ≤ kvEntryMax) :
    (∀ ns ∈ names, ∀ key, ReadsAs (setCalls ⟨kvInit F, fun _ _ => none⟩ calls).store ns key
      ((setCalls ⟨kvInit F, fun _ _ => none⟩ calls).last ns key)) ∧
    ∀ pre c post, calls = pre ++ c :: post →
      let S := (setCalls ⟨kvInit F, fun _ _ => none⟩ pre).store
      CleanWrites [S.activeSector, nextSector S] S.flash (writeOps S c.entry) := by
  have hstart : MapsTo names (callKeys calls) ⟨kvInit F, fun _ _ => none⟩ [] :=
    ⟨(holds_fresh hblank).carries, nofun, fun _ _ _ => rfl⟩
  have hmem : ∀ c ∈ calls, (c.ns, c.key) ∈ callKeys calls := fun c hc => List.mem_map_of_mem hc
  constructor
  · intro ns hmemns key
    obtain ⟨es, hes⟩ := hstart.sets hinj hfew hns hkey hmem
    exact hes.reads hmemns key
  · intro pre c post hsplit
    have hsub : ∀ d ∈ pre, d ∈ calls := fun d hd => hsplit ▸ List.mem_append_left _ hd
    obtain ⟨es, hes⟩ := hstart.sets hinj hfew (fun d hd => hns d (hsub d hd))
      (fun d hd => hkey d (hsub d hd)) fun d hd => hmem d (hsub d hd)
    exact hes.carries.write_clean (hkey c (by simp [hsplit]))

/-- One set, in a namespace whose hash is that of an erased byte. -/
theorem kv_refines_map_one :
    ReadsAs (setCall blankHistory ⟨ascii "hg", ascii "a", kvTypeBlob, [1]⟩).store (ascii "hg")
      (ascii "a") ((setCall blankHistory ⟨ascii "hg", ascii "a", kvTypeBlob, [1]⟩).last (ascii "hg")
        (ascii "a")) := by
  have hmap := @kv_refines_map {ascii "hg"} (Set.injOn_singleton _ _) blankFlash
    (fun t _ => blankFlash_magic t) [⟨ascii "hg", ascii "a", kvTypeBlob, [1]⟩]
    (fun c hc => by rw [List.mem_singleton.mp hc]; rfl)
    (fun c hc => by rw [List.mem_singleton.mp hc]; decide) (by decide)
  exact hmap.1 (ascii "hg") rfl (ascii "a")

end ReflexOS.Kv
