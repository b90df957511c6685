import ReflexOS.KvCrash

set_option autoImplicit false

/-!
# Restarts and erased keys

A restart finds the end of the log at the first byte that could be blank, which is the hash
of a namespace; an erase leaves the log alone.
-/
namespace ReflexOS.Kv
open NorFlash Runs

/-- `reflex_kv_erase`. -/
def kvErase (S : Store) (_ns : UInt8) (_key : CName) : Err × Store := (Err.ok, S)

/-- A set whose namespace does not hash to an erased byte, with a key that is not empty; its
compaction does not wrap the sequence. -/
structure Orderly (names : Set CName) (S : Store) (c : SetCall) : Prop where
  ns_mem : c.ns ∈ names
  ns_ne : nsHash c.ns ≠ 0xFF
  key : c.key ≠ []
  seq : Compacts S c.entry → S.activeSeq + 1 < 2 ^ 32

/-- Sets and restarts, without power losses. -/
def OrderlyEvent (names : Set CName) (H : History) : KvEvent → Prop
  | .set c => Orderly names H.store c
  | .cut _ _ => False
  | .reboot => True

section Write

variable {S : Store} {es : List Entry} {e : Entry}

/-- Also where the table of a compaction is too small, a write leaves old entries and its own. -/
theorem Holds.write_any (h : Holds S es) (hns : e.ns ≠ 0xFF) (hkey : e.key ≠ [])
    (hseq : Compacts S e → S.activeSeq + 1 < 2 ^ 32) :
    ∃ es', Holds (kvWrite S e).2 es' ∧ ∀ d ∈ es', d = e ∨ d ∈ es := by
  by_cases hbad : kvKeyMax < e.key.length ∨ kvValMax < e.val.length
  · rw [kvWrite_invalid hbad]
    exact ⟨es, h, fun d hd => .inr hd⟩
  have hw : e.Wf := ⟨List.length_pos_iff.mpr hkey, by omega, by omega, hns⟩
  have hback : ∀ {ds : List Entry}, (∀ d ∈ ds, d ∈ es) → ∀ d ∈ ds ++ [e], d = e ∨ d ∈ es := by
    intro ds hds d hd
    rcases List.mem_append.mp hd with hd | hd
    · exact .inr (hds d hd)
    · exact .inl (List.mem_singleton.mp hd)
  rw [kvWrite_valid hbad]
  split
  next hfull =>
    have hc := h.compact_keep (hseq ⟨hw.key_le, hw.val_le, hfull⟩)
    split
    · exact ⟨keep es, hc, fun d hd => .inr (mem_of_mem_keep hd)⟩
    next hfit =>
      obtain ⟨S', hS, hS', -⟩ := hc.append hw (by omega)
      rw [hS]
      exact ⟨_, hS', hback fun d => mem_of_mem_keep⟩
  next hfit =>
    obtain ⟨S', hS, hS', -⟩ := h.append hw (by omega)
    rw [hS]
    exact ⟨_, hS', hback fun d hd => hd⟩

end Write

/-- The store holds some entries; none of them is of the keys in `gone`. -/
def HoldsWithout (gone : Set (UInt8 × CName)) (S : Store) : Prop :=
  ∃ es, Holds S es ∧ ∀ e ∈ es, e.id ∉ gone

section Run

variable {names : Set CName} {gone : Set (UInt8 × CName)} {H H' : History} {ev : KvEvent}

theorem HoldsWithout.step (h : HoldsWithout gone H.store)
    (hgone : ∀ c, ev = .set c → c.entry.id ∉ gone)
    (hs : Guarded (OrderlyEvent names) KvStep H ev H') : HoldsWithout gone H'.store := by
  obtain ⟨hguard, hs⟩ := hs
  obtain ⟨es, hes, hout⟩ := h
  cases hs with
  | set c =>
    obtain ⟨es', hes', hback⟩ := hes.write_any (e := c.entry) hguard.ns_ne hguard.key hguard.seq
    refine ⟨es', hes', fun d hd => ?_⟩
    rcases hback d hd with rfl | hd
    · exact hgone c rfl
    · exact hout d hd
  | cut c n => exact hguard.elim
  | reboot => exact ⟨es, hes.restart, hout⟩

theorem holds_start {F : Memory}
    (hblank : ∀ t < kvNumSectors, (readPageHeader F (sectorAddr t)).magic ≠ kvMagic) :
    HoldsWithout ∅ (kvInit F) := ⟨[], holds_fresh hblank, nofun⟩

/-- An orderly store. -/
theorem holds_of_run {F : Memory}
    (hblank : ∀ t < kvNumSectors, (readPageHeader F (sectorAddr t)).magic ≠ kvMagic)
    {evs : List KvEvent}
    (hrun : Run (Guarded (OrderlyEvent names) KvStep) ⟨kvInit F, fun _ _ => none⟩ evs H) :
    ∃ es, Holds H.store es := by
  obtain ⟨es, hes, -⟩ := hrun.invariant (fun H => HoldsWithout ∅ H.store)
    (fun _ _ _ h hs => h.step (fun _ _ => Set.notMem_empty _) hs) (holds_start hblank)
  exact ⟨es, hes⟩

/-- What a restart finds is what the running store had, and behind it the sector is blank. -/
structure Resumes (S : Store) : Prop where
  sector : (kvInit S.flash).activeSector = S.activeSector
  seq : (kvInit S.flash).activeSeq = S.activeSeq
  offset : (kvInit S.flash).writeOffset = S.writeOffset
  free : Stored S.flash (sectorAddr S.activeSector + S.writeOffset)
    (blanks (kvSectorSize - S.writeOffset))

theorem Holds.resumes {S : Store} {es : List Entry} (h : Holds S es) : Resumes S := by
  have hblank := (stored_append.mp h.sector.entries).2
  have hfits := h.sector.fits
  refine ⟨by rw [h.init], by rw [h.init], by rw [h.init], ?_⟩
  rw [h.offset, ← Nat.sub_sub, ← Nat.add_assoc]
  exact hblank

/-- While no namespace hashes to an erased byte, a restart resumes the store. -/
theorem resume_equals_live {F : Memory}
    (hblank : ∀ t < kvNumSectors, (readPageHeader F (sectorAddr t)).magic ≠ kvMagic)
    {evs : List KvEvent} {H : History}
    (hrun : Run (Guarded (OrderlyEvent Set.univ) KvStep) ⟨kvInit F, fun _ _ => none⟩ evs H) :
    Resumes H.store := by
  obtain ⟨es, hes⟩ := holds_of_run hblank hrun
  exact hes.resumes

theorem resume_equals_live_small :
    ∃ H, Run KvStep blankHistory [.set smallSet] H ∧ Resumes H.store := by
  have hguard : OrderlyEvent Set.univ blankHistory (.set smallSet) :=
    ⟨Set.mem_univ _, by decide, by decide,
      fun hc => absurd hc.2.2 (Nat.not_le_of_lt blank_fits)⟩
  have hstep := KvStep.set blankHistory smallSet
  exact ⟨_, .single hstep,
    resume_equals_live (fun t _ => blankFlash_magic t) (.single ⟨hguard, hstep⟩)⟩

/-- A set in a namespace whose hash is an erased byte. -/
def hiddenSet : SetCall := ⟨ascii "hg", ascii "a", kvTypeBlob, [1]⟩

theorem hiddenSet_sane : hiddenSet.entry.Sane := ⟨by decide, by decide, by decide⟩

/-- Behind the header of a fresh page, a restart takes such an entry for the end of the log. -/
theorem Holds.init_hidden {S : Store} (h : Holds S []) {e : Entry} (hs : e.Sane)
    (hns : e.ns = 0xFF) (hfit : S.writeOffset + e.span < kvSectorSize) :
    (kvInit (appended S e).flash).writeOffset = pageHeaderSize := by
  obtain ⟨-, hcarries, hsame⟩ := h.carries.append hs hfit
  have hbest : bestSector (appended S e).flash (List.range kvNumSectors) =
      (S.activeSeq, S.activeSector, true) := by
    refine bestSector_fold (hcarries.sector.readHeader h.seq_lt) (fun t ht hta hm => ?_)
      (.inr ⟨List.mem_range.mpr h.active_lt, Nat.zero_le _⟩)
    change t ≠ S.activeSector at hta
    rw [hsame.readPageHeader hta] at hm ⊢
    exact h.newest t (List.mem_range.mp ht) hta hm
  have hfirst : Stored (appended S e).flash (sectorAddr S.activeSector + pageHeaderSize) e.bytes := by
    have hentries := hcarries.stored_entries
    rwa [List.nil_append, show encodeAll [e] = e.bytes by simp [encodeAll]] at hentries
  have hhead := readEntryHeader_of_stored hs hfirst
  have hwalk : (walk (appended S e).flash (sectorAddr S.activeSector)
      (fun eh => decide (eh.nsHash = 0xFF)) kvSectorSize pageHeaderSize).2 = pageHeaderSize := by
    have hstop : decide ((readEntryHeader (appended S e).flash
        (sectorAddr S.activeSector + pageHeaderSize)).nsHash = 0xFF) = true := by
      rw [hhead]
      exact decide_eq_true hns
    change (walk _ _ _ (4095 + 1) _).2 = _
    rw [walk, if_neg (by decide)]
    simp only [hstop, Bool.true_or, if_true]
  unfold kvInit
  simp only [hbest, if_true]
  exact hwalk

theorem hidden_fits : blankHistory.store.writeOffset + hiddenSet.entry.span < kvSectorSize := by
  have hoff : blankHistory.store.writeOffset = 8 := blankFlash_holds.offset
  have hspan : hiddenSet.entry.span = 8 := by decide
  rw [hoff, hspan]
  decide

/-- The set returns OK, and the next append after a restart would overwrite it. -/
theorem hidden_set_not_resumed :
    ∃ H, Run KvStep blankHistory [.set hiddenSet] H ∧ H.last (ascii "hg") (ascii "a") = some [1] ∧
      ¬ Resumes H.store := by
  have hholds : Holds blankHistory.store [] := blankFlash_holds
  have hfit := hidden_fits
  have hwrite : kvWrite blankHistory.store hiddenSet.entry =
      (Err.ok, appended blankHistory.store hiddenSet.entry) := by
    rw [kvWrite_valid (by decide), if_neg (Nat.not_le_of_lt hfit),
      (hholds.carries.append hiddenSet_sane hfit).1]
  have hstep := KvStep.set blankHistory hiddenSet
  rw [hwrite, if_pos rfl] at hstep
  refine ⟨_, .single hstep, blankHistory.record_self hiddenSet _, fun hresume => ?_⟩
  have hoffset := hresume.offset
  rw [hholds.init_hidden hiddenSet_sane (by decide) hfit] at hoffset
  have hpos := hiddenSet.entry.span_pos
  change pageHeaderSize = blankHistory.store.writeOffset + hiddenSet.entry.span at hoffset
  rw [hholds.offset, size_nil] at hoffset
  omega

/-- A value that does not fit the reader's buffer is refused under another code. -/
theorem found_ne_notFound {p : Prop} [Decidable p] {val : List UInt8} :
    (if p then Except.error Err.invalidArg else .ok val) ≠ .error Err.notFound := by
  by_cases hp : p
  · rw [if_pos hp]
    exact fun h => absurd (Except.error.inj h) (by decide)
  · rw [if_neg hp]
    exact nofun

theorem kvGetBlob_notFound {S : Store} {ns : UInt8} {key : CName} (cap : ℕ) :
    kvGetBlob S ns key cap = .error Err.notFound ↔ kvFind S ns key = none := by
  unfold kvGetBlob
  cases kvFind S ns key with
  | none => exact iff_of_true rfl rfl
  | some found => exact iff_of_false found_ne_notFound (Option.some_ne_none _)

theorem Holds.kvFind_eq_none {S : Store} {es : List Entry} (h : Holds S es) {ns : UInt8}
    {key : CName} : kvFind S ns key = none ↔ ∀ e ∈ es, e.id ≠ (ns, key) := by
  rw [← kvGetBlob_notFound 0, h.getBlob, ← lookup_eq_none]
  cases lookup es (ns, key) with
  | none => exact iff_of_true rfl rfl
  | some e => exact iff_of_false found_ne_notFound (Option.some_ne_none _)

/-- A read of the key finds nothing, whatever else is set and however often the store restarts. -/
def StaysErased (names : Set CName) (H : History) (ns key : CName) : Prop :=
  ∀ evs H', Run (Guarded (fun H ev => OrderlyEvent names H ev ∧
      ∀ c, ev = .set c → ¬ (c.ns = ns ∧ c.key = key)) KvStep)
    ⟨(kvErase H.store (nsHash ns) key).2, H.last⟩ evs H' →
    ∀ cap, kvGetBlob H'.store (nsHash ns) key cap = .error Err.notFound

end Run

/-- An erase lasts exactly where there was nothing to erase. -/
theorem erase_durable_iff {names : Set CName} (hinj : Set.InjOn nsHash names) {F : Memory}
    (hblank : ∀ t < kvNumSectors, (readPageHeader F (sectorAddr t)).magic ≠ kvMagic)
    {evs : List KvEvent} {H : History}
    (hrun : Run (Guarded (OrderlyEvent names) KvStep) ⟨kvInit F, fun _ _ => none⟩ evs H)
    {ns key : CName} (hns : ns ∈ names) :
    StaysErased names H ns key ↔ kvFind H.store (nsHash ns) key = none := by
  obtain ⟨es, hes⟩ := holds_of_run hblank hrun
  constructor
  · exact fun h => (kvGetBlob_notFound 0).mp (h [] _ (.nil _) 0)
  · intro h evs' H' hrun' cap
    have hgone : HoldsWithout {(nsHash ns, key)} H.store := ⟨es, hes, hes.kvFind_eq_none.mp h⟩
    obtain ⟨es', hes', hout⟩ := hrun'.invariant (fun H => HoldsWithout {(nsHash ns, key)} H.store)
      (fun H₁ ev H₂ h₁ hs => h₁.step
        (fun c hc hid => hs.1.2 c hc (by
          have hguard := hs.1.1
          rw [hc] at hguard
          by_contra hne
          exact entry_id_ne hinj hguard.ns_mem hns hne hid)) ⟨hs.1.1, hs.2⟩) hgone
    rw [kvGetBlob_notFound]
    exact hes'.kvFind_eq_none.mpr hout

/-- What was erased is read back. -/
theorem erased_key_reads :
    ∃ H, Run KvStep blankHistory [.set smallSet] H ∧
      (kvErase H.store (nsHash configNs) (ascii "a")).1 = Err.ok ∧
      kvGetBlob (kvErase H.store (nsHash configNs) (ascii "a")).2 (nsHash configNs) (ascii "a") 1 =
        .ok [1] := by
  have hholds : Holds blankHistory.store [] := blankFlash_holds
  obtain ⟨hok, hwritten, -⟩ := hholds.write_fits smallSet_wf blank_fits
  have hstep := KvStep.set blankHistory smallSet
  refine ⟨_, .single hstep, rfl, ?_⟩
  change kvGetBlob (kvWrite blankHistory.store smallSet.entry).2 _ _ _ = _
  rw [hwritten.getBlob]
  decide

/-- An erase of a key that was never there, in a store that is set once. -/
theorem erase_durable_absent :
    ∃ H, Run KvStep blankHistory [.set smallSet] H ∧
      StaysErased {configNs} H configNs (ascii "b") := by
  have hholds : Holds blankHistory.store [] := blankFlash_holds
  obtain ⟨hok, hwritten, -⟩ := hholds.write_fits smallSet_wf blank_fits
  have hguard : OrderlyEvent {configNs} blankHistory (.set smallSet) :=
    ⟨rfl, by decide, by decide, fun hc => absurd hc.2.2 (Nat.not_le_of_lt blank_fits)⟩
  have hstep := KvStep.set blankHistory smallSet
  refine ⟨_, .single hstep, (erase_durable_iff (Set.injOn_singleton _ _)
    (fun t _ => blankFlash_magic t) (.single ⟨hguard, hstep⟩) rfl).mpr ?_⟩
  refine hwritten.kvFind_eq_none.mpr fun e he => ?_
  rw [List.nil_append, List.mem_singleton] at he
  rw [he]
  decide

end ReflexOS.Kv
