import ReflexOS.BootImage

set_option autoImplicit false

/-!
# What the image loader moves to RAM, and when
-/
namespace ReflexOS.Boot

section Reads

variable {rom : RomFlash} {sha : RomSha} {s s' : BootState} {n i flashOffset : ℕ}

theorem flashRead_ok (h : rom.ok s.calls = true) (addr len : ℕ) :
    flashRead rom addr len s = (some (rom.bytes addr len), { s with calls := s.calls + 1 }) := by
  rw [flashRead, if_pos h]

theorem flashRead_cases (rom : RomFlash) (addr len : ℕ) (s : BootState) :
    (rom.ok s.calls = false ∧ flashRead rom addr len s = (none, { s with calls := s.calls + 1 })) ∨
      flashRead rom addr len s = (some (rom.bytes addr len), { s with calls := s.calls + 1 }) := by
  cases h : rom.ok s.calls with
  | false => exact .inl ⟨rfl, by rw [flashRead, h]; rfl⟩
  | true => exact .inr (flashRead_ok h addr len)

/-- Pass 1 goes through: every segment is accepted and marked. -/
structure Walked (rom : RomFlash) (n i flashOffset : ℕ) (s s' : BootState) (segs : List Segment)
    (last : ℕ) : Prop where
  segs_eq : segs = rom.segmentsAt n flashOffset
  last_eq : last = rom.endAt n flashOffset
  accepted : ∀ seg ∈ segs, segmentAccepted seg.toSegmentHeader = true
  trace_eq : s'.trace = s.trace ++ (List.range' i n).map .checked

/-- Pass 1 stops at segment `i + k`: it cannot be read, or it is not accepted. -/
structure Stopped (rom : RomFlash) (n i flashOffset : ℕ) (s s' : BootState) (k : ℕ) : Prop where
  lt : k < n
  accepted : ∀ seg ∈ (rom.segmentsAt n flashOffset).take k,
    segmentAccepted seg.toSegmentHeader = true
  trace_eq : s'.trace = s.trace ++ (List.range' i k).map .checked
  cause : (∀ c, rom.ok c = true) →
    ∃ seg ∈ rom.segmentsAt n flashOffset, segmentAccepted seg.toSegmentHeader = false

theorem walkSegments_cases (rom : RomFlash) (n i flashOffset : ℕ) (s : BootState) :
    (∃ s' k, walkSegments rom n i flashOffset s = (none, s') ∧
      Stopped rom n i flashOffset s s' k) ∨
    ∃ s' segs last, walkSegments rom n i flashOffset s = (some (segs, last), s') ∧
      Walked rom n i flashOffset s s' segs last := by
  induction n generalizing i flashOffset s with
  | zero =>
    exact .inr ⟨s, [], flashOffset, rfl, rfl, rfl, nofun, (List.append_nil _).symm⟩
  | succ n ih =>
    unfold walkSegments
    rcases flashRead_cases rom flashOffset segmentHeaderSize s with ⟨hfail, hread⟩ | hread
    · rw [hread]
      refine .inl ⟨_, 0, rfl, Nat.succ_pos n, nofun, (List.append_nil _).symm, fun hall => ?_⟩
      rw [hall] at hfail
      cases hfail
    · rw [hread]
      dsimp only
      split
      next hacc =>
        rcases ih (i + 1) (((flashOffset + segmentHeaderSize) % 2 ^ 32 +
          (parseSegment (rom.bytes flashOffset segmentHeaderSize)).dataLen) % 2 ^ 32)
          ({ s with calls := s.calls + 1 }.log (.checked i)) with
          ⟨s', k, hwalk, hstop⟩ | ⟨s', segs, last, hwalk, hdone⟩
        · rw [hwalk]
          refine .inl ⟨s', k + 1, rfl, Nat.succ_lt_succ hstop.lt, ?_, ?_, fun hall => ?_⟩
          · rw [RomFlash.segmentsAt, List.take_succ_cons, List.forall_mem_cons]
            exact ⟨hacc, hstop.accepted⟩
          · rw [hstop.trace_eq, BootState.log, List.append_assoc]
            rfl
          · obtain ⟨seg, hmem, hbad⟩ := hstop.cause hall
            exact ⟨seg, List.mem_cons_of_mem _ hmem, hbad⟩
        · rw [hwalk]
          refine .inr ⟨s', _, last, rfl, ?_, hdone.last_eq, ?_, ?_⟩
          · rw [hdone.segs_eq]
            rfl
          · rw [List.forall_mem_cons]
            exact ⟨hacc, hdone.accepted⟩
          · rw [hdone.trace_eq, BootState.log, List.append_assoc]
            rfl
      next hacc =>
        refine .inl ⟨_, 0, rfl, Nat.succ_pos n, nofun, (List.append_nil _).symm, fun _ => ?_⟩
        exact ⟨_, List.mem_cons_self, Bool.eq_false_of_not_eq_true hacc⟩

theorem bytes_mod (rom : RomFlash) (addr len : ℕ) :
    rom.bytes (addr % 2 ^ 32) len = rom.bytes addr len := by
  refine List.map_congr_left fun i _ => ?_
  rw [Nat.mod_add_mod]

theorem bytes_append (rom : RomFlash) (addr m k : ℕ) :
    rom.bytes addr m ++ rom.bytes (addr + m) k = rom.bytes addr (m + k) := by
  rw [RomFlash.bytes, RomFlash.bytes, RomFlash.bytes, List.range_add, List.map_append, List.map_map]
  congr 1
  refine List.map_congr_left fun i _ => ?_
  rw [Function.comp_apply, Nat.add_assoc]

theorem foldl_or_eq_zero (f : ℕ → UInt8) (l : List ℕ) (init : UInt8) :
    l.foldl (fun diff i => diff ||| f i) init = 0 ↔ init = 0 ∧ ∀ i ∈ l, f i = 0 := by
  induction l generalizing init with
  | nil => simp
  | cons i l ih =>
    rw [List.foldl_cons, ih, UInt8.or_eq_zero_iff, List.forall_mem_cons, and_assoc]

theorem hashDiff_eq_zero {digest expected : List UInt8} : hashDiff digest expected = 0 ↔
    ∀ i < imageHashLen, digest.getD i 0 = expected.getD i 0 := by
  rw [hashDiff, foldl_or_eq_zero, eq_self, true_and]
  simp only [List.mem_range, UInt8.xor_eq_zero_iff]

/-- The engine is fed the body from `off` on, or a read fails. -/
theorem hashChunks_cases (rom : RomFlash) (partOffset len : ℕ) {n off : ℕ} (s : BootState)
    (hfuel : len ≤ off + n) :
    (∃ s', hashChunks rom partOffset len n off s = (none, s') ∧ s'.trace = s.trace ∧
      ∃ c, rom.ok c = false) ∨
    ∃ s', hashChunks rom partOffset len n off s =
      (some (rom.bytes (partOffset + off) (len - off)), s') ∧ s'.trace = s.trace := by
  induction n generalizing off s with
  | zero =>
    refine .inr ⟨s, ?_, rfl⟩
    rw [show len - off = 0 by omega]
    rfl
  | succ n ih =>
    unfold hashChunks
    split
    next hlt =>
      have hbuf : hashBufSize = 4096 := rfl
      dsimp only
      generalize hchunk : min (len - off) hashBufSize = chunk
      rcases flashRead_cases rom ((partOffset + off) % 2 ^ 32) chunk s with ⟨hfail, hread⟩ | hread
      · rw [hread]
        exact .inl ⟨_, rfl, rfl, _, hfail⟩
      · rw [hread]
        dsimp only
        rcases @ih (off + chunk) { s with calls := s.calls + 1 } (by omega) with
          ⟨s', hrest, htrace, hbad⟩ | ⟨s', hrest, htrace⟩
        · rw [hrest]
          exact .inl ⟨s', rfl, htrace, hbad⟩
        · have hall : chunk + (len - (off + chunk)) = len - off := by omega
          rw [hrest]
          refine .inr ⟨s', ?_, htrace⟩
          dsimp only
          rw [bytes_mod, ← Nat.add_assoc, bytes_append, hall]
    next hge =>
      refine .inr ⟨s, ?_, rfl⟩
      rw [show len - off = 0 by omega]
      rfl

/-- The check of the appended hash marks nothing and moves nothing. -/
theorem imageVerifySha256_cases (rom : RomFlash) (sha : RomSha) (partOffset len : ℕ)
    (s : BootState) :
    (∃ s', imageVerifySha256 rom sha partOffset len s = (false, s') ∧ s'.trace = s.trace ∧
      ((∀ c, rom.ok c = true) → ¬ HashMatches rom sha partOffset len)) ∨
    ∃ s', imageVerifySha256 rom sha partOffset len s = (true, s') ∧ s'.trace = s.trace ∧
      HashMatches rom sha partOffset len := by
  unfold imageVerifySha256
  rcases flashRead_cases rom ((partOffset + len) % 2 ^ 32) imageHashLen s with
    ⟨hfail, hread⟩ | hread
  · rw [hread]
    refine .inl ⟨_, rfl, rfl, fun hall => ?_⟩
    rw [hall] at hfail
    cases hfail
  rw [hread]
  dsimp only
  cases hinit : sha.initOk with
  | false => exact .inl ⟨_, rfl, rfl, fun _ h => Bool.false_ne_true (hinit.symm.trans h.init)⟩
  | true =>
    rcases hashChunks_cases rom partOffset len { s with calls := s.calls + 1 }
      (Nat.le_add_left len 0) with ⟨s', hbody, htrace, c, hbad⟩ | ⟨s', hbody, htrace⟩
    · rw [hbody]
      refine .inl ⟨s', rfl, htrace, fun hall => ?_⟩
      rw [hall] at hbad
      cases hbad
    rw [hbody]
    cases hfinish : sha.finishOk with
    | false =>
      exact .inl ⟨s', rfl, htrace, fun _ h => Bool.false_ne_true (hfinish.symm.trans h.finish)⟩
    | true =>
      simp only [Bool.not_true, Bool.false_eq_true, if_false, Nat.add_zero, Nat.sub_zero]
      by_cases hdiff : hashDiff (sha.digest (rom.bytes partOffset len))
          (rom.bytes ((partOffset + len) % 2 ^ 32) imageHashLen) = 0
      · exact .inr ⟨s', by rw [decide_eq_true hdiff], htrace,
          hinit, hfinish, hashDiff_eq_zero.mp hdiff⟩
      · exact .inl ⟨s', by rw [decide_eq_false hdiff], htrace,
          fun _ h => hdiff (hashDiff_eq_zero.mpr h.digest)⟩

theorem length_bytes (rom : RomFlash) (addr len : ℕ) : (rom.bytes addr len).length = len := by
  rw [RomFlash.bytes, List.length_map, List.length_range]

theorem not_ram_of_flash {addr : ℕ} (h : isFlashMappedAddr addr = true) :
    isRamAddr addr = false := by
  simp only [isFlashMappedAddr, Bool.and_eq_true, decide_eq_true_eq] at h
  simp only [isRamAddr, isSramAddr, isRtcAddr, Bool.or_eq_false_iff, Bool.and_eq_false_iff,
    decide_eq_false_iff_not]
  unfold flashMapBase flashMapEnd at h
  unfold sramLow sramHigh rtcLow rtcHigh
  omega

theorem flashMaps_mapped {seg : Segment} {segs : List Segment}
    (h : isFlashMappedAddr seg.loadAddr = true) :
    flashMaps (seg :: segs) = ⟨seg.loadAddr, seg.dataOff, seg.dataLen⟩ :: flashMaps segs := by
  simp [flashMaps, h]

theorem flashMaps_other {seg : Segment} {segs : List Segment}
    (h : ¬ isFlashMappedAddr seg.loadAddr = true) : flashMaps (seg :: segs) = flashMaps segs := by
  simp [flashMaps, h]

/-- Bytes that a segment for RAM may have sent there. -/
def FromSegment (seg : Segment) (e : BootEvent) : Prop :=
  isRamAddr seg.loadAddr = true ∧
    ∃ bytes, e = .stored seg.loadAddr bytes ∧ bytes.length ≤ seg.dataLen

/-- Pass 2 moves `stores` to RAM and records the mapped segments, unless a read fails. -/
structure Moved (rom : RomFlash) (segs : List Segment) (maps : List FlashMapEntry)
    (s s' : BootState)
    (result : Option (List FlashMapEntry)) (stores : List BootEvent) : Prop where
  trace_eq : s'.trace = s.trace ++ stores
  source : ∀ e ∈ stores, ∃ seg ∈ segs, FromSegment seg e
  maps_eq : ∀ maps', result = some maps' → maps' = maps ++ flashMaps segs
  whole : ∀ maps', result = some maps' → ∀ seg ∈ segs, isRamAddr seg.loadAddr = true →
    .stored seg.loadAddr (rom.bytes seg.dataOff seg.dataLen) ∈ stores
  failed : result = none → ∃ c, rom.ok c = false

section Moving

variable {rom : RomFlash} {seg : Segment} {segs : List Segment} {maps maps' : List FlashMapEntry}
  {s s' : BootState} {result : Option (List FlashMapEntry)} {stores : List BootEvent}

theorem Moved.source_cons (h : Moved rom segs maps s s' result stores) (seg : Segment) :
    ∀ e ∈ stores, ∃ seg' ∈ seg :: segs, FromSegment seg' e := by
  intro e he
  obtain ⟨seg', hseg', hfrom⟩ := h.source e he
  exact ⟨seg', List.mem_cons_of_mem _ hseg', hfrom⟩

theorem Moved.skip (h : Moved rom segs maps' s s' result stores)
    (hram : ¬ isRamAddr seg.loadAddr = true)
    (hmaps : maps ++ flashMaps (seg :: segs) = maps' ++ flashMaps segs) :
    Moved rom (seg :: segs) maps s s' result stores where
  trace_eq := h.trace_eq
  source := h.source_cons seg
  maps_eq entries hres := by
    rw [hmaps]
    exact h.maps_eq entries hres
  whole entries hres := by
    rw [List.forall_mem_cons]
    exact ⟨fun h => absurd h hram, h.whole entries hres⟩
  failed := h.failed

end Moving

theorem loadSegments_spec (rom : RomFlash) (segs : List Segment) (maps : List FlashMapEntry)
    (s : BootState) (hcount : maps.length + segs.length ≤ imageMaxSegments) :
    ∃ result s' stores, loadSegments rom segs maps s = (result, s') ∧
      Moved rom segs maps s s' result stores := by
  induction segs generalizing maps s with
  | nil =>
    refine ⟨some maps, s, [], rfl, (List.append_nil _).symm, nofun, fun maps' h => ?_, nofun, nofun⟩
    rw [flashMaps, List.filter_nil, List.map_nil, List.append_nil]
    exact (Option.some.inj h).symm
  | cons seg segs ih =>
    rw [List.length_cons] at hcount
    unfold loadSegments
    split
    next hram =>
      have hflash : ¬ isFlashMappedAddr seg.loadAddr = true := fun h => by
        rw [not_ram_of_flash h] at hram
        cases hram
      have hbytes : ((rom.bytes seg.dataOff seg.dataLen).take (rom.moved s.calls)).length ≤
          seg.dataLen := by
        rw [List.length_take, length_bytes]
        exact Nat.min_le_right _ _
      unfold flashLoad
      cases hok : rom.ok s.calls with
      | false =>
        refine ⟨none, _, [.stored seg.loadAddr _], rfl, rfl, ?_, nofun, nofun, fun _ => ⟨_, hok⟩⟩
        intro e he
        rw [List.mem_singleton.mp he]
        exact ⟨seg, List.mem_cons_self, hram, _, rfl, hbytes⟩
      | true =>
        obtain ⟨result, s', stores, hrest, hmoved⟩ := ih maps
          ({ s with calls := s.calls + 1 }.log
            (.stored seg.loadAddr (rom.bytes seg.dataOff seg.dataLen))) (by omega)
        refine ⟨result, s', .stored seg.loadAddr (rom.bytes seg.dataOff seg.dataLen) :: stores,
          hrest, ?_, ?_, ?_, ?_, hmoved.failed⟩
        · rw [hmoved.trace_eq, BootState.log, List.append_assoc]
          rfl
        · rw [List.forall_mem_cons]
          exact ⟨⟨seg, List.mem_cons_self, hram, _, rfl, (length_bytes rom _ _).le⟩,
            hmoved.source_cons seg⟩
        · rw [flashMaps_other hflash]
          exact hmoved.maps_eq
        · intro maps' h
          rw [List.forall_mem_cons]
          refine ⟨fun _ => List.mem_cons_self, fun seg' hseg' hram' => ?_⟩
          exact List.mem_cons_of_mem _ (hmoved.whole maps' h seg' hseg' hram')
    next hram =>
      split
      next hflash =>
        obtain ⟨result, s', stores, hrest, hmoved⟩ :=
          ih (maps ++ [⟨seg.loadAddr, seg.dataOff, seg.dataLen⟩]) s (by
            rw [List.length_append, List.length_singleton]
            omega)
        refine ⟨result, s', stores, hrest, hmoved.skip hram ?_⟩
        rw [flashMaps_mapped hflash.1, List.append_assoc]
        rfl
      next hflash =>
        have hnot : ¬ isFlashMappedAddr seg.loadAddr = true := fun h => hflash ⟨h, by omega⟩
        obtain ⟨result, s', stores, hrest, hmoved⟩ := ih maps s (by omega)
        refine ⟨result, s', stores, hrest, hmoved.skip hram ?_⟩
        rw [flashMaps_other hnot]

end Reads

/-- The state `load_image` is called in. -/
def bootInit : BootState := ⟨0, [], mmuUnmapAll⟩

/-- The loop of pass 3 comes to an end. -/
def MappingEnds (rom : RomFlash) (partOffset : ℕ) : Prop :=
  mapSegments (flashMaps (rom.segments partOffset)) mmuUnmapAll ≠ none

section Load

variable {rom : RomFlash} {sha : RomSha} {partOffset : ℕ}

theorem length_segmentsAt (rom : RomFlash) (n flashOffset : ℕ) :
    (rom.segmentsAt n flashOffset).length = n := by
  induction n generalizing flashOffset with
  | zero => rfl
  | succ n ih => rw [RomFlash.segmentsAt, List.length_cons, ih]

/-- A refusal before pass 2: some segments are marked. -/
structure RefusedEarly (rom : RomFlash) (sha : RomSha) (partOffset k : ℕ) (s : BootState) :
    Prop where
  trace_eq : s.trace = (List.range' 0 k).map .checked
  le : k ≤ (rom.header partOffset).segmentCount
  accepted : ∀ seg ∈ (rom.segments partOffset).take k,
    segmentAccepted seg.toSegmentHeader = true
  cause : (∀ c, rom.ok c = true) → ¬ ImageAccepted rom sha partOffset

/-- The marks at the beginning of pass 2. -/
def acceptedMarks (rom : RomFlash) (partOffset : ℕ) : List BootEvent :=
  (List.range' 0 (rom.header partOffset).segmentCount).map .checked ++
    if (rom.header partOffset).hashAppended ≠ 0 then [.verified] else []

theorem loadImage_cases (rom : RomFlash) (sha : RomSha) (partOffset : ℕ) :
    (∃ s k, loadImage rom sha partOffset bootInit = (some 0, s) ∧
      RefusedEarly rom sha partOffset k s) ∨
    ∃ s, loadImage rom sha partOffset bootInit =
        loadVerified rom (rom.header partOffset) (rom.segments partOffset) s ∧
      ImageAccepted rom sha partOffset ∧ s.trace = acceptedMarks rom partOffset := by
  unfold loadImage
  rcases flashRead_cases rom partOffset headerSize bootInit with ⟨hfail, hread⟩ | hread
  · rw [hread]
    refine .inl ⟨_, 0, rfl, rfl, Nat.zero_le _, nofun, fun hall => ?_⟩
    rw [hall] at hfail
    cases hfail
  have hheader : parseHeader (rom.bytes partOffset headerSize) = rom.header partOffset := rfl
  rw [hread]
  simp only [hheader]
  split
  next hmagic =>
    exact .inl ⟨_, 0, rfl, rfl, Nat.zero_le _, nofun, fun _ h => hmagic h.magic⟩
  next hmagic =>
  split
  next hcount =>
    exact .inl ⟨_, 0, rfl, rfl, Nat.zero_le _, nofun, fun _ h =>
      absurd h.count (Nat.not_le.mpr hcount)⟩
  next hcount =>
  rcases walkSegments_cases rom (rom.header partOffset).segmentCount 0
    ((partOffset + headerSize) % 2 ^ 32) { bootInit with calls := bootInit.calls + 1 } with
    ⟨s, k, hwalk, hstop⟩ | ⟨s, segs, last, hwalk, hdone⟩
  · rw [hwalk]
    refine .inl ⟨s, k, rfl, hstop.trace_eq, hstop.lt.le, hstop.accepted, fun hall h => ?_⟩
    obtain ⟨seg, hmem, hbad⟩ := hstop.cause hall
    exact Bool.false_ne_true (hbad.symm.trans (h.segments seg hmem))
  obtain ⟨hsegs, hlast, haccepted, htrace⟩ := hdone
  subst hsegs hlast
  have hlen := length_segmentsAt rom (rom.header partOffset).segmentCount
    ((partOffset + headerSize) % 2 ^ 32)
  rw [hwalk]
  dsimp only
  split
  next happended =>
    rcases imageVerifySha256_cases rom sha partOffset (rom.bodyLen partOffset) s with
      ⟨s', hverify, hsame, hfail⟩ | ⟨s', hverify, hsame, hmatch⟩
    · rw [show Boot.bodyLen partOffset _ = rom.bodyLen partOffset from rfl, hverify]
      refine .inl ⟨s', _, rfl, hsame.trans htrace, le_rfl, ?_, fun hall h =>
        hfail hall (h.hash happended)⟩
      rw [RomFlash.segments, List.take_of_length_le hlen.le]
      exact haccepted
    · rw [show Boot.bodyLen partOffset _ = rom.bodyLen partOffset from rfl, hverify]
      refine .inr ⟨s'.log .verified, rfl, ⟨not_not.mp hmagic, Nat.not_lt.mp hcount, haccepted,
        fun _ => hmatch⟩, ?_⟩
      rw [acceptedMarks, if_pos happended, BootState.log, hsame, htrace]
      rfl
  next happended =>
    refine .inr ⟨s, rfl, ⟨not_not.mp hmagic, Nat.not_lt.mp hcount, haccepted,
      fun h => absurd h happended⟩, ?_⟩
    rw [acceptedMarks, if_neg happended, htrace, List.append_nil]
    rfl

/-- Passes 2 and 3 over accepted segments. -/
structure LoadOutcome (rom : RomFlash) (partOffset : ℕ) (s : BootState) (result : Option ℕ)
    (s' : BootState) (stores : List BootEvent) : Prop where
  trace_eq : s'.trace = s.trace ++ stores
  source : ∀ e ∈ stores, ∃ seg ∈ rom.segments partOffset, FromSegment seg e
  returned : ∀ entry, result = some entry → entry ≠ 0 → entry = (rom.header partOffset).entryAddr ∧
    mapSegments (flashMaps (rom.segments partOffset)) mmuUnmapAll = some s'.mmu
  refused : (∀ c, rom.ok c = true) → (result = some 0 ↔
    (rom.header partOffset).entryAddr = 0 ∧ MappingEnds rom partOffset)
  whole : (∀ c, rom.ok c = true) → ∀ seg ∈ rom.segments partOffset,
    isRamAddr seg.loadAddr = true →
      .stored seg.loadAddr (rom.bytes seg.dataOff seg.dataLen) ∈ stores

theorem loadVerified_spec (hcount : (rom.header partOffset).segmentCount ≤ imageMaxSegments)
    (s : BootState) : ∃ result s' stores,
      loadVerified rom (rom.header partOffset) (rom.segments partOffset) s = (result, s') ∧
        LoadOutcome rom partOffset s result s' stores := by
  have hlen : ([] : List FlashMapEntry).length + (rom.segments partOffset).length ≤
      imageMaxSegments := by
    rw [RomFlash.segments, length_segmentsAt, List.length_nil, Nat.zero_add]
    exact hcount
  obtain ⟨maps, s₁, stores, hload, hmoved⟩ := loadSegments_spec rom _ [] s hlen
  unfold loadVerified
  rw [hload]
  cases maps with
  | none =>
    obtain ⟨c, hc⟩ := hmoved.failed rfl
    have hnot : ¬ ∀ c, rom.ok c = true := fun hall => by
      rw [hall] at hc
      cases hc
    exact ⟨some 0, s₁, stores, rfl, hmoved.trace_eq, hmoved.source,
      fun entry h hne => absurd (Option.some.inj h).symm hne, fun hall => absurd hall hnot,
      fun hall => absurd hall hnot⟩
  | some maps =>
    have hmaps := hmoved.maps_eq maps rfl
    rw [List.nil_append] at hmaps
    subst hmaps
    dsimp only
    cases hmap : mapSegments (flashMaps (rom.segments partOffset)) mmuUnmapAll with
    | none =>
      exact ⟨none, s₁, stores, rfl, hmoved.trace_eq, hmoved.source, nofun,
        fun _ => iff_of_false nofun fun h => h.2 hmap, fun _ => hmoved.whole _ rfl⟩
    | some mmu =>
      refine ⟨some (rom.header partOffset).entryAddr, { s₁ with mmu := mmu }, stores, rfl,
        hmoved.trace_eq, hmoved.source, ?_, fun _ => ?_, fun _ => hmoved.whole _ rfl⟩
      · exact fun entry h _ => ⟨(Option.some.inj h).symm, hmap⟩
      · have hends : MappingEnds rom partOffset := by
          rw [MappingEnds, hmap]
          exact nofun
        rw [Option.some.injEq, and_iff_left hends]

end Load

/-- All of a segment lies in one of the two windows. -/
def InWindow (seg : SegmentHeader) : Prop :=
  (sramLow ≤ seg.loadAddr ∧ seg.loadAddr + seg.dataLen ≤ sramHigh) ∨
    (rtcLow ≤ seg.loadAddr ∧ seg.loadAddr + seg.dataLen ≤ rtcHigh)

/-- What loading may do to RAM: only whole segments inside the windows, only after every header has
been checked and the appended hash has matched, and nothing where the image is refused. -/
structure SafeLoad (rom : RomFlash) (partOffset : ℕ) (sha : RomSha) (result : Option ℕ)
    (trace : List BootEvent) : Prop where
  inside : ∀ addr bytes, .stored addr bytes ∈ trace → ∃ seg ∈ rom.segments partOffset,
    seg.loadAddr = addr ∧ bytes.length ≤ seg.dataLen ∧ InWindow seg.toSegmentHeader
  before : ∀ pre post addr bytes, trace = pre ++ .stored addr bytes :: post →
    (∀ i < (rom.header partOffset).segmentCount, .checked i ∈ pre) ∧
      ((rom.header partOffset).hashAppended ≠ 0 → .verified ∈ pre)
  checked : ∀ i, .checked i ∈ trace → ∃ seg, (rom.segments partOffset)[i]? = some seg ∧
    segmentAccepted seg.toSegmentHeader = true
  verified : .verified ∈ trace → HashMatches rom sha partOffset (rom.bodyLen partOffset)
  refused : (∀ c, rom.ok c = true) → result = some 0 →
    ∀ addr bytes, .stored addr bytes ∈ trace → bytes = []

/-- An image that passes every check and has bytes for RAM, but no entry point. -/
structure EntryMissing (rom : RomFlash) (sha : RomSha) (partOffset : ℕ) : Prop where
  accepted : ImageAccepted rom sha partOffset
  entry : (rom.header partOffset).entryAddr = 0
  ends : MappingEnds rom partOffset
  ram : ∃ seg ∈ rom.segments partOffset, isRamAddr seg.loadAddr = true ∧ 0 < seg.dataLen

section Marks

variable {rom : RomFlash} {sha : RomSha} {partOffset i k addr : ℕ} {bytes : List UInt8}

theorem checked_mem_range : .checked i ∈ (List.range' 0 k).map BootEvent.checked ↔ i < k := by
  simp

theorem stored_not_range : .stored addr bytes ∉ (List.range' 0 k).map BootEvent.checked := by
  simp

theorem checked_mem_marks :
    .checked i ∈ acceptedMarks rom partOffset ↔ i < (rom.header partOffset).segmentCount := by
  rw [acceptedMarks, List.mem_append, checked_mem_range]
  split <;> simp

theorem verified_mem_marks :
    .verified ∈ acceptedMarks rom partOffset ↔ (rom.header partOffset).hashAppended ≠ 0 := by
  rw [acceptedMarks, List.mem_append]
  split <;> simp_all

theorem stored_not_marks : .stored addr bytes ∉ acceptedMarks rom partOffset := by
  rw [acceptedMarks, List.mem_append]
  split <;> simp

theorem prefix_of_split {marks stores pre post : List BootEvent} {e : BootEvent}
    (h : marks ++ stores = pre ++ e :: post) (he : e ∉ marks) : ∃ rest, pre = marks ++ rest := by
  rcases List.append_eq_append_iff.mp h with ⟨rest, hpre, -⟩ | ⟨rest, hmarks, hpost⟩
  · exact ⟨rest, hpre⟩
  · cases rest with
    | nil => exact ⟨[], by rw [hmarks, List.append_nil, List.append_nil]⟩
    | cons x rest =>
      rw [List.cons_append, List.cons.injEq] at hpost
      refine absurd ?_ he
      rw [hmarks, hpost.1]
      exact List.mem_append_right _ List.mem_cons_self

theorem inWindow_of_accepted {seg : SegmentHeader} (h : segmentAccepted seg = true)
    (hram : isRamAddr seg.loadAddr = true) : InWindow seg := by
  simp only [segmentAccepted, hram, rangeWithin, Bool.and_eq_true, Bool.or_eq_true,
    Bool.not_true, Bool.false_eq_true, false_or] at h
  obtain ⟨-, hwithin⟩ := h
  rw [InWindow]
  refine hwithin.imp (fun h => ?_) fun h => ?_
  · split at h
    · cases h
    · have := of_decide_eq_true h
      omega
  · split at h
    · cases h
    · have := of_decide_eq_true h
      omega

end Marks

section Outcomes

variable {rom : RomFlash} {sha : RomSha} {partOffset k : ℕ} {s s' : BootState}
  {result : Option ℕ} {stores : List BootEvent}

theorem RefusedEarly.safe (h : RefusedEarly rom sha partOffset k s) (result : Option ℕ) :
    SafeLoad rom partOffset sha result s.trace := by
  have hstored : ∀ addr bytes, .stored addr bytes ∉ s.trace := fun addr bytes => by
    rw [h.trace_eq]
    exact stored_not_range
  have hlen := length_segmentsAt rom (rom.header partOffset).segmentCount
    ((partOffset + headerSize) % 2 ^ 32)
  refine ⟨fun addr bytes hs => absurd hs (hstored addr bytes), ?_, ?_, ?_,
    fun _ _ addr bytes hs => absurd hs (hstored addr bytes)⟩
  · intro pre post addr bytes hs
    refine absurd ?_ (hstored addr bytes)
    rw [hs]
    exact List.mem_append_right _ List.mem_cons_self
  · intro i hi
    rw [h.trace_eq, checked_mem_range] at hi
    have hi' : i < (rom.segments partOffset).length :=
      Nat.lt_of_lt_of_eq (Nat.lt_of_lt_of_le hi h.le) hlen.symm
    refine ⟨_, List.getElem?_eq_getElem hi', h.accepted _ ?_⟩
    exact List.mem_take_iff_getElem.mpr ⟨i, by omega, rfl⟩
  · rw [h.trace_eq]
    simp

variable (h : LoadOutcome rom partOffset s result s' stores)
include h

theorem LoadOutcome.stores_stored {e : BootEvent} (he : e ∈ stores) :
    ∃ addr bytes, e = .stored addr bytes := by
  obtain ⟨seg, -, -, bytes, heq, -⟩ := h.source e he
  exact ⟨_, bytes, heq⟩

variable (hacc : ImageAccepted rom sha partOffset)
  (htrace : s.trace = acceptedMarks rom partOffset)

include htrace in
theorem LoadOutcome.stored_mem {addr : ℕ} {bytes : List UInt8}
    (hs : .stored addr bytes ∈ s'.trace) : .stored addr bytes ∈ stores := by
  rw [h.trace_eq, htrace] at hs
  exact (List.mem_append.mp hs).resolve_left stored_not_marks

include hacc htrace

/-- What an accepted image has stored is safe unless its entry point is missing. -/
theorem LoadOutcome.safe
    (hentry : (∀ c, rom.ok c = true) → ¬ EntryMissing rom sha partOffset) :
    SafeLoad rom partOffset sha result s'.trace := by
  have hsplit : s'.trace = acceptedMarks rom partOffset ++ stores := by rw [h.trace_eq, htrace]
  refine ⟨?_, ?_, ?_, ?_, ?_⟩
  · intro addr bytes hs
    obtain ⟨seg, hseg, hram, bytes', heq, hle⟩ := h.source _ (h.stored_mem htrace hs)
    cases heq
    exact ⟨seg, hseg, rfl, hle, inWindow_of_accepted (hacc.segments seg hseg) hram⟩
  · intro pre post addr bytes hs
    rw [hsplit] at hs
    obtain ⟨rest, hpre⟩ := prefix_of_split hs stored_not_marks
    rw [hpre]
    exact ⟨fun i hi => List.mem_append_left _ (checked_mem_marks.mpr hi),
      fun hv => List.mem_append_left _ (verified_mem_marks.mpr hv)⟩
  · intro i hi
    rw [hsplit] at hi
    rcases List.mem_append.mp hi with hi | hi
    · have hi' : i < (rom.segments partOffset).length :=
        Nat.lt_of_lt_of_eq (checked_mem_marks.mp hi) (length_segmentsAt rom _ _).symm
      exact ⟨_, List.getElem?_eq_getElem hi', hacc.segments _ (List.getElem_mem hi')⟩
    · obtain ⟨addr, bytes, heq⟩ := h.stores_stored hi
      cases heq
  · intro hv
    rw [hsplit] at hv
    rcases List.mem_append.mp hv with hv | hv
    · exact hacc.hash (verified_mem_marks.mp hv)
    · obtain ⟨addr, bytes, heq⟩ := h.stores_stored hv
      cases heq
  · intro hall hresult addr bytes hs
    obtain ⟨hzero, hends⟩ := (h.refused hall).mp hresult
    obtain ⟨seg, hseg, hram, bytes', heq, hle⟩ := h.source _ (h.stored_mem htrace hs)
    cases heq
    by_contra hne
    have hpos : 0 < seg.dataLen := Nat.lt_of_lt_of_le (List.length_pos_iff.mpr hne) hle
    exact hentry hall ⟨hacc, hzero, hends, seg, hseg, hram, hpos⟩

omit hacc htrace in
/-- An image without an entry point is refused after its bytes are in RAM. -/
theorem LoadOutcome.not_missing (hsafe : SafeLoad rom partOffset sha result s'.trace)
    (hall : ∀ c, rom.ok c = true) : ¬ EntryMissing rom sha partOffset := by
  rintro ⟨-, hentry, hends, seg, hseg, hram, hpos⟩
  have hmem : .stored seg.loadAddr (rom.bytes seg.dataOff seg.dataLen) ∈ s'.trace := by
    rw [h.trace_eq]
    exact List.mem_append_right _ (h.whole hall seg hseg hram)
  have hempty := hsafe.refused hall ((h.refused hall).mpr ⟨hentry, hends⟩) _ _ hmem
  have hlen := length_bytes rom seg.dataOff seg.dataLen
  rw [hempty, List.length_nil] at hlen
  omega

end Outcomes

/-- Loading is safe exactly where no read failed on an image without an entry point. -/
theorem safeLoad_iff (rom : RomFlash) (sha : RomSha) (partOffset : ℕ) :
    SafeLoad rom partOffset sha (loadImage rom sha partOffset bootInit).1
        (loadImage rom sha partOffset bootInit).2.trace ↔
      ((∀ c, rom.ok c = true) → ¬ EntryMissing rom sha partOffset) := by
  rcases loadImage_cases rom sha partOffset with ⟨s, k, hload, hrefused⟩ | ⟨s, hload, hacc, htrace⟩
  · rw [hload]
    exact iff_of_true (hrefused.safe _) fun hall hmissing => hrefused.cause hall hmissing.accepted
  · obtain ⟨result, s', stores, hverified, hout⟩ := loadVerified_spec hacc.count s
    rw [hload, hverified]
    constructor
    · exact fun hsafe hall => hout.not_missing hsafe hall
    · exact hout.safe hacc htrace

/-- One segment of four bytes for the start of SRAM, no hash, entry point 0. -/
def noEntryImage : List UInt8 :=
  [0xE9, 1] ++ List.replicate 22 0 ++ [0, 0, 0x80, 0x40, 4, 0, 0, 0, 1, 2, 3, 4]

def flashOf (partOffset : ℕ) (image : List UInt8) : RomFlash where
  content a := image.getD (a - partOffset) 0xFF
  ok _ := true
  moved _ := 0

def idleSha : RomSha := ⟨true, true, fun _ => []⟩

/-- The image is loaded, and then reported as one that could not be. -/
theorem no_entry_image_loaded : ¬ ∀ (rom : RomFlash) (sha : RomSha) (partOffset : ℕ),
    SafeLoad rom partOffset sha (loadImage rom sha partOffset bootInit).1
      (loadImage rom sha partOffset bootInit).2.trace := by
  intro h
  have hempty := (h (flashOf 0x10000 noEntryImage) idleSha 0x10000).refused (fun _ => rfl)
    (by decide +kernel) 0x40800000 [1, 2, 3, 4] (by decide +kernel)
  cases hempty

end ReflexOS.Boot
