import ReflexOS.BootSafety
import ReflexOS.PageTable

set_option autoImplicit false

/-!
# The MMU table the image loader leaves behind

Pass 3 is a list of writes to the table, one for each page of each mapped segment, so the table
translates as far as `PageTable.mapped_iff` says.
-/
namespace ReflexOS.Boot
open PageTable LittleEndian

/-- What an MMU entry holds: the number of a flash page, if it is valid. -/
def mmuPage (content : ℕ) : Option ℕ :=
  if content / mmuValidBit % 2 = 1 then some (content % mmuValidBit) else none

/-- The flash address behind an address of the mapped window. -/
def mmuTranslate (mmu : ℕ → ℕ) (vaddr : ℕ) : Option ℕ :=
  if isFlashMappedAddr vaddr then
    (mmuPage (mmu (vaddr / mmuPageSize % mmuEntryNum))).map fun page =>
      page * mmuPageSize + vaddr % mmuPageSize
  else none

/-- Every byte of a mapped segment is found at its flash address. -/
def Translated (rom : RomFlash) (partOffset : ℕ) (mmu : ℕ → ℕ) : Prop :=
  ∀ seg ∈ rom.segments partOffset, isFlashMappedAddr seg.loadAddr = true →
    ∀ i < seg.dataLen, mmuTranslate mmu (seg.loadAddr + i) = some (seg.dataOff + i)

/-- The pages from the one that holds `paddr` up to the 32-bit end. -/
def FlashMapEntry.region (m : FlashMapEntry) : Region where
  vaddr := m.vaddr
  paddr := m.paddr
  len := m.len
  pages := ((m.paddr + m.len) % 2 ^ 32 - m.paddr / mmuPageSize * mmuPageSize +
    (mmuPageSize - 1)) / mmuPageSize

/-- A flash page as an entry names it. -/
def flashPage (page : ℕ) : Option ℕ := some (page % mmuValidBit)

/-- The entries a mapped segment takes, each with the page it wants there. -/
def pageWrites (m : FlashMapEntry) : List (ℕ × Option ℕ) :=
  m.region.writes mmuPageSize mmuEntryNum flashPage

/-- A segment that pass 3 can map: virtual and flash address agree within a page, both ends are in
range, and no later page takes one of its entries for another flash page. -/
structure Mappable (maps : List FlashMapEntry) (m : FlashMapEntry) : Prop where
  aligned : m.vaddr % mmuPageSize = m.paddr % mmuPageSize
  window : m.vaddr + m.len ≤ flashMapEnd
  flash : m.paddr + m.len ≤ mmuValidBit * mmuPageSize
  own : ∀ w ∈ pageWrites m, ∀ page, LastWrite (maps.flatMap pageWrites) w.1 page → page = w.2

section Table

variable {last n vaddr paddr : ℕ} {mmu mmu' : ℕ → ℕ}

/-- An end in the last page of 32 bits is never reached. -/
theorem mapPages_wrapped (hlast : 2 ^ 32 - 2 ^ 16 < last) (hpage : paddr % 2 ^ 16 = 0)
    (hlt : paddr < 2 ^ 32) : mapPages last n vaddr paddr mmu = none := by
  induction n generalizing vaddr paddr mmu with
  | zero => rfl
  | succ n ih =>
    rw [mapPages, if_pos (by omega)]
    have hsize : mmuPageSize = 2 ^ 16 := rfl
    apply ih
    · omega
    · omega

theorem pages_succ (h : paddr < last) :
    (last - paddr + (mmuPageSize - 1)) / mmuPageSize =
      (last - (paddr + mmuPageSize) + (mmuPageSize - 1)) / mmuPageSize + 1 := by
  unfold mmuPageSize
  omega

/-- Adding a page to a virtual address adds one to its entry, also where it wraps. -/
theorem entry_succ (vaddr k : ℕ) :
    ((vaddr + mmuPageSize) % 2 ^ 32 / mmuPageSize + k) % mmuEntryNum =
      (vaddr / mmuPageSize + (k + 1)) % mmuEntryNum := by
  unfold mmuPageSize mmuEntryNum
  omega

theorem mapPages_eq (h : mapPages last n vaddr paddr mmu = some mmu')
    (hpage : paddr % 2 ^ 16 = 0) (hlt : paddr < 2 ^ 32) :
    mmu' = writeAll mmu ((List.range ((last - paddr + (mmuPageSize - 1)) / mmuPageSize)).map
      fun k => ((vaddr / mmuPageSize + k) % mmuEntryNum,
        (paddr / mmuPageSize + k) ||| mmuValidBit)) := by
  have hpos : 0 < mmuPageSize := Nat.two_pow_pos 16
  induction n generalizing vaddr paddr mmu with
  | zero => cases h
  | succ n ih =>
    have hlast : last ≤ 2 ^ 32 - 2 ^ 16 := by
      by_contra hwrap
      rw [mapPages_wrapped (by omega) hpage hlt] at h
      cases h
    rw [mapPages] at h
    split at h
    next hmore =>
      have hbelow : paddr + mmuPageSize < 2 ^ 32 := by
        unfold mmuPageSize
        omega
      have hnext : (paddr + mmuPageSize) % 2 ^ 16 = 0 := by
        rw [show mmuPageSize = 2 ^ 16 from rfl, Nat.add_mod_right, hpage]
      rw [Nat.mod_eq_of_lt hbelow] at h
      rw [ih h hnext hbelow, pages_succ hmore, List.range_succ_eq_map, List.map_cons, List.map_map,
        writeAll_cons, Nat.add_zero, Nat.add_zero, mmuMapPage]
      refine congrArg (writeAll _) (List.map_congr_left fun k _ => ?_)
      rw [entry_succ, Nat.add_div_right _ hpos, Nat.succ_add]
      rfl
    next hdone =>
      rw [Nat.sub_eq_zero_of_le (Nat.not_lt.mp hdone), Nat.zero_add,
        Nat.div_eq_of_lt (Nat.sub_one_lt hpos.ne')]
      exact (Option.some.inj h).symm

theorem mapSegments_eq {maps : List FlashMapEntry} (hlt : ∀ m ∈ maps, m.paddr < 2 ^ 32)
    (h : mapSegments maps mmu = some mmu') :
    mmu' = writeAll mmu (maps.flatMap fun m =>
      m.region.writes mmuPageSize mmuEntryNum fun page => page ||| mmuValidBit) := by
  have hpos : 0 < mmuPageSize := Nat.two_pow_pos 16
  induction maps generalizing mmu with
  | nil => exact (Option.some.inj h).symm
  | cons m maps ih =>
    rw [List.forall_mem_cons] at hlt
    rw [mapSegments] at h
    split at h
    next => cases h
    next mmu₁ hpages =>
      have hfirst := mapPages_eq hpages (Nat.mul_mod_left _ _)
        (Nat.lt_of_le_of_lt (Nat.div_mul_le_self _ _) hlt.1)
      rw [Nat.mul_div_cancel _ hpos, Nat.mul_div_cancel _ hpos] at hfirst
      rw [ih hlt.2 h, List.flatMap_cons, writeAll_append, hfirst]
      rfl

theorem mmuPage_valid (page : ℕ) : mmuPage (page ||| mmuValidBit) = flashPage page := by
  have hbit : (page ||| mmuValidBit) / mmuValidBit % 2 = 1 := by
    have h := Nat.testBit_or page (2 ^ 9) 9
    rw [Nat.testBit_two_pow_self, Bool.or_true, Nat.testBit_eq_decide_div_mod_eq] at h
    exact of_decide_eq_true h
  have hpage : (page ||| mmuValidBit) % mmuValidBit = page % mmuValidBit := by
    have h := @Nat.or_mod_two_pow page (2 ^ 9) 9
    rw [Nat.mod_self, Nat.or_zero] at h
    exact h
  rw [mmuPage, if_pos hbit, hpage]
  rfl

theorem mmuPage_lt {content page : ℕ} (h : mmuPage content = some page) : page < mmuValidBit := by
  unfold mmuPage at h
  split at h
  · rw [← Option.some.inj h]
    exact Nat.mod_lt _ (Nat.two_pow_pos 9)
  · cases h

theorem mmuTranslate_eq_some {paddr : ℕ} : mmuTranslate mmu vaddr = some paddr ↔
    isFlashMappedAddr vaddr = true ∧
      mmuPage (mmu (vaddr / mmuPageSize % mmuEntryNum)) = some (paddr / mmuPageSize) ∧
        vaddr % mmuPageSize = paddr % mmuPageSize := by
  have hpos : 0 < mmuPageSize := Nat.two_pow_pos 16
  have hoffset : vaddr % mmuPageSize < mmuPageSize := Nat.mod_lt _ hpos
  unfold mmuTranslate
  split
  next hmapped =>
    rw [Option.map_eq_some_iff, and_iff_right hmapped]
    constructor
    · rintro ⟨page, hpage, rfl⟩
      rw [Nat.mul_comm, Nat.mul_add_div hpos, Nat.div_eq_of_lt hoffset, Nat.add_zero,
        Nat.mul_add_mod, Nat.mod_mod]
      exact ⟨hpage, rfl⟩
    · rintro ⟨hpage, hsame⟩
      exact ⟨_, hpage, by rw [hsame, Nat.div_add_mod']⟩
  next hother => exact iff_of_false nofun fun h => hother h.1

end Table

section Image

variable {rom : RomFlash} {sha : RomSha} {partOffset : ℕ} {m : FlashMapEntry}

theorem dataOff_lt {n flashOffset : ℕ} {seg : Segment} (h : seg ∈ rom.segmentsAt n flashOffset) :
    seg.dataOff < 2 ^ 32 := by
  induction n generalizing flashOffset with
  | zero => cases h
  | succ n ih =>
    rcases List.mem_cons.mp h with rfl | hrest
    · exact Nat.mod_lt _ (Nat.two_pow_pos 32)
    · exact ih hrest

theorem mem_flashMaps {segs : List Segment} : m ∈ flashMaps segs ↔
    ∃ seg ∈ segs, isFlashMappedAddr seg.loadAddr = true ∧
      ⟨seg.loadAddr, seg.dataOff, seg.dataLen⟩ = m := by
  simp only [flashMaps, List.mem_map, List.mem_filter, and_assoc]

theorem flashMapBase_le {segs : List Segment} (h : m ∈ flashMaps segs) :
    flashMapBase ≤ m.vaddr := by
  obtain ⟨seg, -, hmapped, rfl⟩ := mem_flashMaps.mp h
  rw [isFlashMappedAddr, Bool.and_eq_true] at hmapped
  exact of_decide_eq_true hmapped.1

theorem translated_iff_maps {mmu : ℕ → ℕ} : Translated rom partOffset mmu ↔
    ∀ m ∈ flashMaps (rom.segments partOffset), ∀ i < m.len,
      mmuTranslate mmu (m.vaddr + i) = some (m.paddr + i) := by
  constructor
  · intro h m hm
    obtain ⟨seg, hseg, hmapped, rfl⟩ := mem_flashMaps.mp hm
    exact h seg hseg hmapped
  · intro h seg hseg hmapped
    exact h _ (mem_flashMaps.mpr ⟨seg, hseg, hmapped, rfl⟩)

/-- Both ends of a segment are in range. -/
def InRange (m : FlashMapEntry) : Prop :=
  m.vaddr + m.len ≤ flashMapEnd ∧ m.paddr + m.len ≤ mmuValidBit * mmuPageSize

theorem covers_of_inRange (h : InRange m) : m.region.Covers mmuPageSize := by
  obtain ⟨-, hflash⟩ := h
  rw [Region.Covers]
  unfold FlashMapEntry.region
  unfold mmuValidBit mmuPageSize at *
  dsimp only
  omega

theorem translates_iff {mmu : ℕ → ℕ} (hbase : flashMapBase ≤ m.vaddr) :
    (∀ i < m.len, mmuTranslate mmu (m.vaddr + i) = some (m.paddr + i)) ↔
      (0 < m.len → InRange m) ∧
        m.region.Mapped mmuPageSize mmuEntryNum flashPage fun e => mmuPage (mmu e) := by
  constructor
  · intro h
    have hname : ∀ i < m.len, (m.paddr + i) / mmuPageSize < mmuValidBit := fun i hi =>
      mmuPage_lt (mmuTranslate_eq_some.mp (h i hi)).2.1
    refine ⟨fun hlen => ?_, fun i hi => ?_⟩
    · have hend := (mmuTranslate_eq_some.mp (h (m.len - 1) (by omega))).1
      rw [isFlashMappedAddr, Bool.and_eq_true] at hend
      have hwindow := of_decide_eq_true hend.2
      have hflash : m.paddr + (m.len - 1) < mmuValidBit * mmuPageSize :=
        (Nat.div_lt_iff_lt_mul (Nat.two_pow_pos 16)).mp (hname (m.len - 1) (by omega))
      rw [InRange]
      omega
    · obtain ⟨-, hpage, hsame⟩ := mmuTranslate_eq_some.mp (h i hi)
      exact ⟨hpage.trans (congrArg some (Nat.mod_eq_of_lt (hname i hi)).symm), hsame⟩
  · rintro ⟨hrange, hmapped⟩ i hi
    obtain ⟨hwindow, hflash⟩ := hrange (by omega)
    obtain ⟨hpage, hsame⟩ := hmapped i hi
    have hlt : m.paddr + i < mmuValidBit * mmuPageSize := by omega
    have hname : (m.paddr + i) / mmuPageSize < mmuValidBit :=
      (Nat.div_lt_iff_lt_mul (Nat.two_pow_pos 16)).mpr hlt
    refine mmuTranslate_eq_some.mpr ⟨?_, hpage.trans ?_, hsame⟩
    · rw [isFlashMappedAddr, Bool.and_eq_true, decide_eq_true_eq, decide_eq_true_eq]
      omega
    · exact congrArg some (Nat.mod_eq_of_lt hname)

/-- What pass 3 makes of the table, entry by entry. -/
theorem mmuPage_mapSegments {maps : List FlashMapEntry} {mmu : ℕ → ℕ}
    (hlt : ∀ m ∈ maps, m.paddr < 2 ^ 32) (h : mapSegments maps mmuUnmapAll = some mmu) :
    (fun e => mmuPage (mmu e)) = writeAll (fun _ => none)
      ((maps.map FlashMapEntry.region).flatMap
        (Region.writes mmuPageSize mmuEntryNum flashPage)) := by
  have hinvalid : mmuPage mmuInvalidVal = none := by decide
  have hempty : (fun e => mmuPage (mmuUnmapAll e)) = fun _ => none := funext fun _ => hinvalid
  funext e
  rw [mapSegments_eq hlt h, writeAll_map mmuPage, hempty, List.flatMap_map, List.map_flatMap]
  refine congrFun (congrArg (writeAll _) (List.flatMap_congr fun m _ => ?_)) e
  rw [Region.writes, List.map_map]
  refine List.map_congr_left fun k _ => ?_
  rw [Function.comp_apply, mmuPage_valid]

/-- The entry point that is not 0 comes with the table of pass 3. -/
theorem loadImage_mmu {entry : ℕ} {s : BootState}
    (h : loadImage rom sha partOffset bootInit = (some entry, s)) (hentry : entry ≠ 0) :
    mapSegments (flashMaps (rom.segments partOffset)) mmuUnmapAll = some s.mmu := by
  rcases loadImage_cases rom sha partOffset with ⟨s', k, hload, -⟩ | ⟨s', hload, hacc, -⟩
  · rw [hload, Prod.mk.injEq, Option.some.injEq] at h
    exact absurd h.1.symm hentry
  · obtain ⟨result, s'', stores, hverified, hout⟩ := loadVerified_spec hacc.count s'
    rw [hload, hverified, Prod.mk.injEq] at h
    obtain ⟨rfl, rfl⟩ := h
    exact (hout.returned entry rfl hentry).2

/-- An accepted image is translated exactly if pass 3 can map all of its segments. -/
theorem translated_iff_mappable {entry : ℕ} {s : BootState}
    (h : loadImage rom sha partOffset bootInit = (some entry, s)) (hentry : entry ≠ 0) :
    Translated rom partOffset s.mmu ↔ ∀ m ∈ flashMaps (rom.segments partOffset), 0 < m.len →
      Mappable (flashMaps (rom.segments partOffset)) m := by
  have hmmu := loadImage_mmu h hentry
  have hbase : ∀ m ∈ flashMaps (rom.segments partOffset), flashMapBase ≤ m.vaddr :=
    fun m => flashMapBase_le
  have hlt : ∀ m ∈ flashMaps (rom.segments partOffset), m.paddr < 2 ^ 32 := fun m hm => by
    obtain ⟨seg, hseg, -, rfl⟩ := mem_flashMaps.mp hm
    exact dataOff_lt hseg
  rw [translated_iff_maps]
  generalize flashMaps (rom.segments partOffset) = maps at *
  have htable := mmuPage_mapSegments hlt hmmu
  have hcover : (∀ m ∈ maps, 0 < m.len → InRange m) →
      ∀ r ∈ maps.map FlashMapEntry.region, 0 < r.len → r.Covers mmuPageSize := by
    intro hrange r hr hlen
    obtain ⟨m, hm, rfl⟩ := List.mem_map.mp hr
    exact covers_of_inRange (hrange m hm hlen)
  have hwrites : (maps.map FlashMapEntry.region).flatMap
      (Region.writes mmuPageSize mmuEntryNum flashPage) = maps.flatMap pageWrites :=
    List.flatMap_map _ _ _
  have hmapped : (∀ m ∈ maps, 0 < m.len → InRange m) → _ := fun hrange =>
    @mapped_iff _ mmuPageSize mmuEntryNum (Nat.two_pow_pos 16) flashPage (fun _ => none)
      (maps.map FlashMapEntry.region) (hcover hrange)
  rw [← htable, hwrites] at hmapped
  constructor
  · intro htranslated m hm hlen
    have hall := fun m hm => (translates_iff (hbase m hm)).mp (htranslated m hm)
    have hregions := (hmapped fun m hm => (hall m hm).1).mp (by
      rw [List.forall_mem_map]
      exact fun m hm => (hall m hm).2)
    obtain ⟨haligned, hown⟩ := hregions m.region (List.mem_map_of_mem hm) hlen
    obtain ⟨hwindow, hflash⟩ := (hall m hm).1 hlen
    exact ⟨haligned, hwindow, hflash, hown⟩
  · intro hmappable m hm
    have hrange : ∀ m ∈ maps, 0 < m.len → InRange m := fun m hm hlen =>
      ⟨(hmappable m hm hlen).window, (hmappable m hm hlen).flash⟩
    have hregions := (hmapped hrange).mpr (by
      rw [List.forall_mem_map]
      exact fun m hm hlen => ⟨(hmappable m hm hlen).aligned, (hmappable m hm hlen).own⟩)
    exact (translates_iff (hbase m hm)).mpr
      ⟨hrange m hm, hregions m.region (List.mem_map_of_mem hm)⟩

end Image

/-- An image with one mapped segment of `len` bytes, all 0, and entry point `loadAddr`. -/
def mappedImage (loadAddr len : ℕ) : List UInt8 :=
  [0xE9, 1, 0, 0] ++ encode 4 loadAddr ++ List.replicate 16 0 ++ encode 4 loadAddr ++ encode 4 len

/-- The data follows the 32 bytes of headers, so this address is in step with it. -/
theorem translated_aligned : Translated (flashOf 0x10000 (mappedImage 0x42000020 8)) 0x10000
    (loadImage (flashOf 0x10000 (mappedImage 0x42000020 8)) idleSha 0x10000 bootInit).2.mmu := by
  have hload : (loadImage (flashOf 0x10000 (mappedImage 0x42000020 8)) idleSha 0x10000
      bootInit).1 = some 0x42000020 := by decide +kernel
  refine (translated_iff_mappable (Prod.ext hload rfl) (by decide)).mpr ?_
  have hmaps : flashMaps ((flashOf 0x10000 (mappedImage 0x42000020 8)).segments 0x10000) =
      [⟨0x42000020, 0x10020, 8⟩] := by decide +kernel
  rw [hmaps]
  intro m hm _
  rw [List.mem_singleton.mp hm]
  refine ⟨by decide, by decide, by decide, fun w hw page hlast => ?_⟩
  rw [List.flatMap_singleton] at hlast
  exact hlast.eq_of_nodup (by decide +kernel) hw

/-- Mapped at the start of a page, the segment is accepted and found 32 bytes off. -/
theorem misaligned_image_mapped : ¬ ∀ (rom : RomFlash) (sha : RomSha) (partOffset entry : ℕ)
    (s : BootState), loadImage rom sha partOffset bootInit = (some entry, s) → entry ≠ 0 →
      Translated rom partOffset s.mmu := by
  intro h
  have hload : (loadImage (flashOf 0x10000 (mappedImage 0x42000000 8)) idleSha 0x10000
      bootInit).1 = some 0x42000000 := by decide +kernel
  have htranslated := h _ _ _ _ _ (Prod.ext hload rfl) (by decide)
  have hfirst := translated_iff_maps.mp htranslated ⟨0x42000000, 0x10020, 8⟩
    (by decide +kernel) 0 (by decide)
  exact absurd hfirst (by decide +kernel)

end ReflexOS.Boot
