import ReflexOS.KvEntries

set_option autoImplicit false

/-!
# The store on the medium

A sector holds its page header, the encodings of its entries and blanks. The scans of the
source read the entries back; an append and a compaction write them.
-/
namespace ReflexOS.Kv
open NorFlash

theorem fromLe_le16 {n : ℕ} (h : n < 2 ^ 16) : fromLe (le16 n) = n := by
  simp only [le16, fromLe, UInt8.toNat_ofNat']
  omega

theorem fromLe_le32 {n : ℕ} (h : n < 2 ^ 32) : fromLe (le32 n) = n := by
  simp only [le32, fromLe, UInt8.toNat_ofNat']
  omega

theorem readPageHeader_of_stored {F : Memory} {a : ℕ} {hdr : PageHeader}
    (hm : hdr.magic < 2 ^ 32) (hs : hdr.sequence < 2 ^ 32) (h : Stored F a hdr.bytes) :
    readPageHeader F a = hdr := by
  obtain ⟨hmagic, hseq⟩ := stored_append.mp h
  have h1 : readBytes F a 4 = le32 hdr.magic := readBytes_of_stored hmagic
  have h2 : readBytes F (a + 4) 4 = le32 hdr.sequence := readBytes_of_stored hseq
  rw [readPageHeader, h1, h2, fromLe_le32 hm, fromLe_le32 hs]

def Entry.header (e : Entry) : EntryHeader := ⟨e.ns, e.key.length, e.val.length, e.type⟩

def Entry.span (e : Entry) : ℕ := kvEntrySpan e.header

/-- Header, key and value. -/
def Entry.body (e : Entry) : List UInt8 := e.header.bytes ++ e.key ++ e.val

/-- What the entry occupies, with its padding. -/
def Entry.bytes (e : Entry) : List UInt8 := e.body ++ blanks (e.span - e.body.length)

/-- What `kv_write_entry` lets through. -/
structure Entry.Sane (e : Entry) : Prop where
  key_pos : 1 ≤ e.key.length
  key_le : e.key.length ≤ kvKeyMax
  val_le : e.val.length ≤ kvValMax

/-- What every scan reads back, also the one of a restart. -/
structure Entry.Wf (e : Entry) : Prop where
  key_pos : 1 ≤ e.key.length
  key_le : e.key.length ≤ kvKeyMax
  val_le : e.val.length ≤ kvValMax
  ns_ne : e.ns ≠ 0xFF

namespace Entry

variable {e : Entry}

theorem length_body : e.body.length = entryHeaderSize + e.key.length + e.val.length := by
  simp only [body, EntryHeader.bytes, le16, entryHeaderSize, List.length_append,
    List.length_cons, List.length_nil]

theorem length_body_le : e.body.length ≤ e.span := by
  rw [length_body, span, kvEntrySpan]
  simp only [header]
  omega

theorem length_bytes : e.bytes.length = e.span := by
  have := length_body_le (e := e)
  rw [bytes, List.length_append, List.length_replicate]
  omega

theorem span_mod : e.span % 4 = 0 := by
  rw [span, kvEntrySpan]
  omega

theorem span_pos : 1 ≤ e.span := by
  simp only [span, kvEntrySpan, entryHeaderSize]
  omega

theorem Wf.toSane (h : e.Wf) : e.Sane := ⟨h.key_pos, h.key_le, h.val_le⟩

theorem Sane.span_le (h : e.Sane) : e.span ≤ 260 := by
  obtain ⟨-, hk, hv⟩ := h
  simp only [span, kvEntrySpan, header, entryHeaderSize, kvKeyMax, kvValMax] at *
  omega

theorem Sane.header_sane (h : e.Sane) : kvEntryHeaderSane e.header = true := by
  simp [kvEntryHeaderSane, header, h.key_pos, h.key_le, h.val_le]

theorem Sane.keyLen_ne (h : e.Sane) : e.header.keyLen ≠ 0xFF ∧ e.header.keyLen ≠ 0 := by
  have := h.key_pos
  have := h.key_le
  simp only [header, kvKeyMax] at *
  omega

end Entry

section Read

variable {F : Memory} {a : ℕ} {e : Entry}

theorem stored_entry (h : Stored F a e.bytes) :
    Stored F a e.header.bytes ∧ Stored F (a + entryHeaderSize) e.key ∧
      Stored F (a + (entryHeaderSize + e.key.length)) e.val := by
  obtain ⟨hbody, -⟩ := stored_append.mp h
  obtain ⟨hhead, hval⟩ := stored_append.mp hbody
  obtain ⟨hhead, hkey⟩ := stored_append.mp hhead
  refine ⟨hhead, hkey, ?_⟩
  rwa [List.length_append] at hval

theorem readEntryHeader_of_stored (hw : e.Sane) (h : Stored F a e.bytes) :
    readEntryHeader F a = e.header := by
  obtain ⟨hns, hlen, hlo, hhi, htype, -⟩ := (stored_entry h).1
  have hkey := hw.key_le
  have hval := hw.val_le
  have hvl : readBytes F (a + 2) 2 = le16 e.header.valLen := by
    simp only [readBytes, le16]
    rw [← hlo, ← hhi]
  rw [readEntryHeader, hns, hlen, hvl, fromLe_le16, show F (a + 4) = e.header.type from htype,
    UInt8.toNat_ofNat']
  · simp only [Entry.header, kvKeyMax] at hkey ⊢
    rw [Nat.mod_eq_of_lt (by omega)]
  · simp only [Entry.header, kvValMax] at hval ⊢
    omega

theorem entryKey_of_stored {base off : ℕ} (h : Stored F (base + off) e.bytes) :
    entryKey F base off e.header = e.key := readBytes_of_stored (stored_entry h).2.1

end Read

def encodeAll (es : List Entry) : List UInt8 := es.flatMap Entry.bytes

/-- The bytes the entries occupy. -/
def size (es : List Entry) : ℕ := (encodeAll es).length

section Size

variable {es ds : List Entry} {e : Entry} {k : ℕ}

@[simp] theorem size_nil : size [] = 0 := rfl

@[simp] theorem size_cons : size (e :: es) = e.span + size es := by
  simp [size, encodeAll, Entry.length_bytes]

@[simp] theorem size_append : size (es ++ ds) = size es + size ds := by
  simp [size, encodeAll]

theorem size_mod : size es % 4 = 0 := by
  induction es with
  | nil => rfl
  | cons e es ih =>
    have := e.span_mod
    rw [size_cons]
    omega

theorem length_le_size : es.length ≤ size es := by
  induction es with
  | nil => exact le_refl 0
  | cons e es ih =>
    have := e.span_pos
    rw [size_cons, List.length_cons]
    omega

theorem size_upsert_le : size (upsert ds e) ≤ size ds + e.span := by
  induction ds with
  | nil => simp [upsert]
  | cons d ds ih =>
    rw [upsert]
    split <;> simp only [size_cons] <;> omega

theorem size_le (h : ∀ e ∈ es, e.span ≤ k) : size es ≤ k * es.length := by
  induction es with
  | nil => exact le_refl 0
  | cons e es ih =>
    have he := h e (by simp)
    have hes := ih fun d hd => h d (by simp [hd])
    rw [size_cons, List.length_cons, Nat.mul_succ]
    omega

theorem size_keep_le : size (keep es) ≤ size es := by
  induction es using List.reverseRecOn with
  | nil => exact le_refl 0
  | append_singleton es e ih =>
    have hupsert : size (upsert (keep es) e) ≤ size (keep es) + e.span := size_upsert_le
    rw [keep_append_one, upsertMax, size_append, size_cons, size_nil]
    split <;> omega

end Size

/-- Where the entries of a sector lie, with their headers. -/
def located : ℕ → List Entry → List (ℕ × EntryHeader)
  | _, [] => []
  | off, e :: es => (off, e.header) :: located (off + e.span) es

/-- The walk passes every entry and stops at the blanks behind the last one. -/
theorem walk_of_stored {F : Memory} {base : ℕ} {stop : EntryHeader → Bool} {es : List Entry}
    (fuel off : ℕ) {k : ℕ} (hwf : ∀ e ∈ es, e.Sane) (hstop : ∀ e ∈ es, stop e.header = false)
    (h : Stored F (base + off) (encodeAll es ++ blanks k)) (hk : 2 ≤ k)
    (hend : off + size es + k ≤ kvSectorSize) (hfuel : es.length < fuel) :
    walk F base stop fuel off = (located off es, off + size es) := by
  induction es generalizing fuel off with
  | nil =>
    obtain ⟨fuel, rfl⟩ := Nat.exists_eq_succ_of_ne_zero (by omega : fuel ≠ 0)
    obtain ⟨k, rfl⟩ := Nat.exists_eq_add_of_le' hk
    have hblank : F (base + off + 1) = 0xFF := h.2.1
    have hinsane : kvEntryHeaderSane (readEntryHeader F (base + off)) = false := by
      simp [kvEntryHeaderSane, readEntryHeader, hblank, kvKeyMax]
    rw [walk, if_neg (by rw [size_nil] at hend; omega)]
    simp [hinsane, located]
  | cons e es ih =>
    obtain ⟨fuel, rfl⟩ := Nat.exists_eq_succ_of_ne_zero (by omega : fuel ≠ 0)
    have hwe := hwf e (by simp)
    have hsplit : encodeAll (e :: es) = e.bytes ++ encodeAll es := by simp [encodeAll]
    rw [hsplit, List.append_assoc, stored_append, Entry.length_bytes] at h
    have hheader := readEntryHeader_of_stored hwe h.1
    rw [size_cons] at hend
    have hrest := ih fuel (off + e.span) (fun d hd => hwf d (by simp [hd]))
      (fun d hd => hstop d (by simp [hd])) (by rw [← Nat.add_assoc]; exact h.2) (by omega)
      (by rw [List.length_cons] at hfuel; omega)
    rw [walk, if_neg (by omega)]
    simp only [hheader, hstop e (by simp), hwe.header_sane, Bool.not_true, Bool.or_self,
      Bool.false_eq_true, if_false]
    change ((off, e.header) :: (walk F base stop fuel (off + e.span)).1, _) = _
    rw [show kvEntrySpan e.header = e.span from rfl, hrest, located, size_cons, Nat.add_assoc]

/-- A sector in use. -/
structure Sector (F : Memory) (s seq : ℕ) (es : List Entry) : Prop where
  header : Stored F (sectorAddr s) (PageHeader.bytes ⟨kvMagic, seq⟩)
  entries : Stored F (sectorAddr s + pageHeaderSize)
    (encodeAll es ++ blanks (kvSectorSize - pageHeaderSize - size es))
  fits : pageHeaderSize + size es < kvSectorSize

/-- The medium outside a sector. -/
def SameOutside (s : ℕ) (F F' : Memory) : Prop :=
  ∀ x, x < sectorAddr s ∨ sectorAddr s + kvSectorSize ≤ x → F' x = F x

section Sector

variable {F F' : Memory} {s t seq : ℕ} {es : List Entry}

theorem sectors_apart (h : s ≠ t) :
    sectorAddr t + kvSectorSize ≤ sectorAddr s ∨ sectorAddr s + kvSectorSize ≤ sectorAddr t := by
  simp only [sectorAddr, kvSectorSize]
  omega

theorem SameOutside.stored (h : SameOutside t F F') (hne : s ≠ t) {a : ℕ} {xs : List UInt8}
    (hlo : sectorAddr s ≤ a) (hhi : a + xs.length ≤ sectorAddr s + kvSectorSize)
    (hst : Stored F a xs) : Stored F' a xs := by
  have := sectors_apart hne
  exact hst.congr fun x _ _ => h x (by omega)

theorem SameOutside.readPageHeader (h : SameOutside t F F') (hne : s ≠ t) :
    readPageHeader F' (sectorAddr s) = readPageHeader F (sectorAddr s) := by
  have hsame : ∀ i < 8, F' (sectorAddr s + i) = F (sectorAddr s + i) := by
    intro i hi
    have := sectors_apart hne
    exact h _ (by simp only [kvSectorSize] at *; omega)
  have h0 := hsame 0 (by omega)
  rw [Nat.add_zero] at h0
  simp only [Kv.readPageHeader, readBytes, Nat.add_assoc, Nat.reduceAdd, h0, hsame 1 (by omega),
    hsame 2 (by omega), hsame 3 (by omega), hsame 4 (by omega), hsame 5 (by omega),
    hsame 6 (by omega), hsame 7 (by omega)]

theorem Sector.length_entries (h : Sector F s seq es) :
    (encodeAll es ++ blanks (kvSectorSize - pageHeaderSize - size es)).length =
      kvSectorSize - pageHeaderSize := by
  have := h.fits
  rw [List.length_append, List.length_replicate]
  change size es + _ = _
  omega

theorem Sector.congr (h : Sector F s seq es) (hsame : SameOutside t F F') (hne : s ≠ t) :
    Sector F' s seq es where
  header := hsame.stored hne (le_refl _) (by change _ + 8 ≤ _; simp only [kvSectorSize]; omega) h.header
  entries := hsame.stored hne (Nat.le_add_right _ _)
    (by rw [h.length_entries]; simp only [pageHeaderSize, kvSectorSize]; omega) h.entries
  fits := h.fits

theorem Sector.readHeader (h : Sector F s seq es) (hseq : seq < 2 ^ 32) :
    readPageHeader F (sectorAddr s) = ⟨kvMagic, seq⟩ :=
  readPageHeader_of_stored (show kvMagic < 2 ^ 32 by decide) hseq h.header

/-- Every scan of a sector in use sees its entries and ends behind them. -/
theorem Sector.walk (h : Sector F s seq es) (hwf : ∀ e ∈ es, e.Sane) (stop : EntryHeader → Bool)
    (hstop : ∀ e ∈ es, stop e.header = false) :
    walk F (sectorAddr s) stop kvSectorSize pageHeaderSize =
      (located pageHeaderSize es, pageHeaderSize + size es) := by
  have hfits := h.fits
  have hmod : size es % 4 = 0 := size_mod
  have hlen : es.length ≤ size es := length_le_size
  simp only [kvSectorSize, pageHeaderSize] at hfits
  exact walk_of_stored _ _ hwf hstop h.entries
    (by simp only [kvSectorSize, pageHeaderSize]; omega)
    (by simp only [kvSectorSize, pageHeaderSize]; omega)
    (by simp only [kvSectorSize]; omega)

end Sector

/-- The active sector carries the entries `es`, and the write offset is behind them. -/
structure Carries (S : Store) (es : List Entry) : Prop where
  active_lt : S.activeSector < kvNumSectors
  sector : Sector S.flash S.activeSector S.activeSeq es
  offset : S.writeOffset = pageHeaderSize + size es
  sane : ∀ e ∈ es, e.Sane

/-- The store holds the entries `es`, in its variables and on the medium. -/
structure Holds (S : Store) (es : List Entry) : Prop where
  initialized : S.initialized = true
  active_lt : S.activeSector < kvNumSectors
  seq_lt : S.activeSeq < 2 ^ 32
  sector : Sector S.flash S.activeSector S.activeSeq es
  offset : S.writeOffset = pageHeaderSize + size es
  wf : ∀ e ∈ es, e.Wf
  newest : ∀ t < kvNumSectors, t ≠ S.activeSector →
    (readPageHeader S.flash (sectorAddr t)).magic = kvMagic →
      (readPageHeader S.flash (sectorAddr t)).sequence < S.activeSeq

theorem Holds.carries {S : Store} {es : List Entry} (h : Holds S es) : Carries S es :=
  ⟨h.active_lt, h.sector, h.offset, fun e he => (h.wf e he).toSane⟩

/-- What a scan has found matches the entry found so far. -/
def Found (F : Memory) (base : ℕ) (found : Option (ℕ × EntryHeader)) (entry : Option Entry) :
    Prop :=
  match found, entry with
  | none, none => True
  | some (off, eh), some e => eh = e.header ∧ Stored F (base + off) e.bytes
  | _, _ => False

/-- The scan of `kv_find` looks up the last entry of the key. -/
theorem find_located {F : Memory} {base off : ℕ} {es : List Entry} (ns : UInt8) (key : CName)
    (h : Stored F (base + off) (encodeAll es)) {found : Option (ℕ × EntryHeader)}
    {entry : Option Entry} (hf : Found F base found entry) :
    Found F base
      ((located off es).foldl (fun found e =>
        if e.2.nsHash = ns ∧ e.2.keyLen = key.length ∧ entryKey F base e.1 e.2 = key then some e
        else found) found)
      (es.foldl (fun found e => if e.id = (ns, key) then some e else found) entry) := by
  induction es generalizing off found entry with
  | nil => exact hf
  | cons e es ih =>
    have hsplit : encodeAll (e :: es) = e.bytes ++ encodeAll es := by simp [encodeAll]
    rw [hsplit, stored_append, Entry.length_bytes, Nat.add_assoc] at h
    rw [located, List.foldl_cons, List.foldl_cons]
    refine ih h.2 ?_
    have hkey := entryKey_of_stored h.1
    have hiff : (e.header.nsHash = ns ∧ e.header.keyLen = key.length ∧
        entryKey F base off e.header = key) ↔ e.id = (ns, key) := by
      rw [hkey, Entry.id, Prod.mk.injEq]
      constructor
      · exact fun hm => ⟨hm.1, hm.2.2⟩
      · rintro ⟨hns, rfl⟩
        exact ⟨hns, rfl, rfl⟩
    by_cases hm : e.id = (ns, key)
    · rw [if_pos (hiff.mpr hm), if_pos hm]
      exact ⟨rfl, h.1⟩
    · rw [if_neg fun hc => hm (hiff.mp hc), if_neg hm]
      exact hf

section Get

variable {S : Store} {es : List Entry} (h : Carries S es)
include h

theorem Carries.stored_entries :
    Stored S.flash (sectorAddr S.activeSector + pageHeaderSize) (encodeAll es) :=
  (stored_append.mp h.sector.entries).1

theorem Carries.getBlob (ns : UInt8) (key : CName) (cap : ℕ) :
    kvGetBlob S ns key cap =
      match lookup es (ns, key) with
      | none => .error Err.notFound
      | some e => if cap < e.val.length then .error Err.invalidArg else .ok e.val := by
  have hwalk := h.sector.walk h.sane (fun eh => decide (eh.keyLen = 0xFF))
    fun e he => decide_eq_false (h.sane e he).keyLen_ne.1
  have hfound := find_located ns key h.stored_entries
    (show Found S.flash (sectorAddr S.activeSector) none none from trivial)
  change Found _ _ _ (lookup es (ns, key)) at hfound
  unfold kvGetBlob kvFind
  dsimp only
  rw [hwalk]
  dsimp only
  revert hfound
  generalize List.foldl _ none (located pageHeaderSize es) = found
  intro hfound
  cases hl : lookup es (ns, key) with
  | none =>
    rw [hl] at hfound
    cases found with
    | none => rfl
    | some e => exact hfound.elim
  | some e =>
    rw [hl] at hfound
    cases found with
    | none => exact hfound.elim
    | some pair =>
      obtain ⟨off, eh⟩ := pair
      obtain ⟨rfl, hst⟩ := hfound
      have hval : readBytes S.flash
          (sectorAddr S.activeSector + (off + entryHeaderSize + e.key.length)) e.val.length =
            e.val := by
        rw [Nat.add_assoc off, ← Nat.add_assoc]
        exact readBytes_of_stored (stored_entry hst).2.2
      change (if cap < e.val.length then _ else Except.ok (readBytes S.flash _ e.val.length)) = _
      rw [show sectorAddr S.activeSector + (off + entryHeaderSize + e.header.keyLen) =
        sectorAddr S.activeSector + (off + entryHeaderSize + e.key.length) from rfl, hval]

theorem Carries.getBlob_none {ns : UInt8} {key : CName} (hl : lookup es (ns, key) = none)
    (cap : ℕ) : kvGetBlob S ns key cap = .error Err.notFound := by
  rw [h.getBlob, hl]

theorem Carries.getBlob_some {ns : UInt8} {key : CName} {e : Entry} {cap : ℕ}
    (hl : lookup es (ns, key) = some e) (hcap : e.val.length ≤ cap) :
    kvGetBlob S ns key cap = .ok e.val := by
  rw [h.getBlob, hl]
  exact if_neg (Nat.not_lt_of_le hcap)

end Get

theorem Holds.getBlob {S : Store} {es : List Entry} (h : Holds S es) (ns : UInt8) (key : CName)
    (cap : ℕ) : kvGetBlob S ns key cap =
      match lookup es (ns, key) with
      | none => .error Err.notFound
      | some e => if cap < e.val.length then .error Err.invalidArg else .ok e.val :=
  h.carries.getBlob ns key cap

/-- The scan over the page headers picks the sector in use. -/
theorem bestSector_fold {F : Memory} {active seq : ℕ}
    (hactive : readPageHeader F (sectorAddr active) = ⟨kvMagic, seq⟩) {sectors : List ℕ}
    (hother : ∀ t ∈ sectors, t ≠ active → (readPageHeader F (sectorAddr t)).magic = kvMagic →
      (readPageHeader F (sectorAddr t)).sequence < seq) {best : ℕ × ℕ × Bool}
    (hbest : best = (seq, active, true) ∨ active ∈ sectors ∧ best.1 ≤ seq) :
    sectors.foldl (fun best s =>
      let hdr := readPageHeader F (sectorAddr s)
      if hdr.magic = kvMagic ∧ best.1 ≤ hdr.sequence then (hdr.sequence, s, true) else best) best =
        (seq, active, true) := by
  induction sectors generalizing best with
  | nil =>
    rcases hbest with rfl | ⟨hmem, -⟩
    · rfl
    · cases hmem
  | cons t sectors ih =>
    have hrest : ∀ u ∈ sectors, u ≠ active → (readPageHeader F (sectorAddr u)).magic = kvMagic →
        (readPageHeader F (sectorAddr u)).sequence < seq := fun u hu => hother u (by simp [hu])
    rw [List.foldl_cons]
    by_cases ht : t = active
    · subst ht
      refine ih hrest (.inl ?_)
      have hle : best.1 ≤ seq := by
        rcases hbest with rfl | ⟨-, hle⟩
        · exact le_refl _
        · exact hle
      simp [hactive, hle]
    · refine ih hrest ?_
      have hlt := hother t (by simp) ht
      dsimp only
      rcases hbest with rfl | ⟨hmem, hle⟩
      · refine .inl (if_neg ?_)
        rintro ⟨hm, hge⟩
        have := hlt hm
        dsimp only at hge
        omega
      · refine .inr ⟨?_, ?_⟩
        · rcases List.mem_cons.mp hmem with heq | hmem
          · exact absurd heq.symm ht
          · exact hmem
        · split
          next hc => exact le_of_lt (hlt hc.1)
          · exact hle

theorem Holds.init {S : Store} {es : List Entry} (h : Holds S es) :
    kvInit S.flash = { S with log := [] } := by
  have hbest : bestSector S.flash (List.range kvNumSectors) =
      (S.activeSeq, S.activeSector, true) :=
    bestSector_fold (h.sector.readHeader h.seq_lt)
      (fun t ht => h.newest t (List.mem_range.mp ht))
      (.inr ⟨List.mem_range.mpr h.active_lt, Nat.zero_le _⟩)
  have hwalk := h.sector.walk h.carries.sane (fun eh => decide (eh.nsHash = 0xFF))
    fun e he => decide_eq_false (h.wf e he).ns_ne
  unfold kvInit
  simp only [hbest, if_true, hwalk, ← h.offset, ← h.initialized]

section Write

variable {F : Memory} {s seq : ℕ} {es : List Entry} {e : Entry}

theorem flashWrite_eq (S : Store) {addr : ℕ} {buf : List UInt8} (ha : addr % 4 = 0)
    (hl : (buf.length + 3) / 4 * 4 ≤ 264) :
    flashWrite S addr buf = (true, S.perform
      (.write addr (buf ++ blanks ((buf.length + 3) / 4 * 4 - buf.length)))) := by
  rw [flashWrite, if_neg (by omega), if_neg (by omega)]

theorem flashWrite_header (S : Store) (hdr : PageHeader) (s : ℕ) :
    flashWrite S (sectorAddr s) hdr.bytes =
      (true, S.perform (.write (sectorAddr s) hdr.bytes)) := by
  have haddr : sectorAddr s % 4 = 0 := by
    simp only [sectorAddr, kvFlashBase, kvSectorSize]
    omega
  rw [flashWrite_eq S haddr (by simp [PageHeader.bytes, le32])]
  simp [PageHeader.bytes, le32]

theorem Entry.Sane.flashWrite_body (hw : e.Sane) (S : Store) {addr : ℕ} (ha : addr % 4 = 0) :
    flashWrite S addr e.body = (true, S.perform (.write addr e.bytes)) := by
  have hspan : (e.body.length + 3) / 4 * 4 = e.span := by
    rw [Entry.length_body]
    rfl
  have := hw.span_le
  rw [flashWrite_eq S ha (by omega), hspan]
  rfl

theorem Entry.Sane.flashWrite_bytes (hw : e.Sane) (S : Store) {addr : ℕ} (ha : addr % 4 = 0) :
    flashWrite S addr e.bytes = (true, S.perform (.write addr e.bytes)) := by
  have hmod := e.span_mod
  have hle := hw.span_le
  rw [flashWrite_eq S ha (by rw [Entry.length_bytes]; omega), Entry.length_bytes,
    show (e.span + 3) / 4 * 4 - e.span = 0 by omega]
  simp

/-- A sector just erased and headed. -/
theorem sector_fresh (F : Memory) (s seq : ℕ) :
    Sector (program (NorFlash.erase F (sectorAddr s) kvSectorSize) (sectorAddr s)
        (PageHeader.bytes ⟨kvMagic, seq⟩)) s seq [] ∧
      SameOutside s F (program (NorFlash.erase F (sectorAddr s) kvSectorSize) (sectorAddr s)
        (PageHeader.bytes ⟨kvMagic, seq⟩)) := by
  have hlen : (PageHeader.bytes ⟨kvMagic, seq⟩).length = 8 := rfl
  refine ⟨⟨stored_program (stored_erase (le_refl _) ?_), ?_, by decide⟩, fun x hx => ?_⟩
  · rw [hlen]
    simp only [kvSectorSize]
    omega
  · refine (stored_erase (Nat.le_add_right _ _) ?_).program_other (.inr ?_)
    · simp only [kvSectorSize, pageHeaderSize, size_nil]
      omega
    · rw [hlen]
      rfl
  · rw [NorFlash.program_other (by rw [hlen]; simp only [kvSectorSize] at hx; omega),
      NorFlash.erase_other hx]

theorem Sector.append (h : Sector F s seq es)
    (hfit : pageHeaderSize + size es + e.span < kvSectorSize) :
    Sector (program F (sectorAddr s + (pageHeaderSize + size es)) e.bytes) s seq (es ++ [e]) ∧
      SameOutside s F (program F (sectorAddr s + (pageHeaderSize + size es)) e.bytes) := by
  have hlen := Entry.length_bytes (e := e)
  obtain ⟨hes, hblank⟩ := stored_append.mp h.entries
  obtain ⟨hhere, hrest⟩ := stored_blanks_split (k := e.span) hblank (by omega)
  change Stored F (sectorAddr s + pageHeaderSize + size es) _ at hhere
  change Stored F (sectorAddr s + pageHeaderSize + size es + e.span) _ at hrest
  rw [Nat.add_assoc (sectorAddr s)] at hhere hrest
  refine ⟨⟨h.header.program_other (.inl (by change _ + 8 ≤ _; simp only [pageHeaderSize]; omega)),
    ?_, by rw [size_append, size_cons, size_nil]; omega⟩, fun x hx => ?_⟩
  · have hencode : encodeAll (es ++ [e]) = encodeAll es ++ e.bytes := by simp [encodeAll]
    rw [hencode, List.append_assoc, stored_append, stored_append]
    change Stored _ _ (encodeAll es) ∧ Stored _ (sectorAddr s + pageHeaderSize + size es) _ ∧
      Stored _ (sectorAddr s + pageHeaderSize + size es + e.bytes.length) _
    rw [Nat.add_assoc (sectorAddr s), hlen]
    refine ⟨hes.program_other (.inl (by change _ + size es ≤ _; omega)),
      stored_program (by rwa [hlen]), ?_⟩
    rw [size_append, size_cons, size_nil,
      show kvSectorSize - pageHeaderSize - (size es + (e.span + 0)) =
        kvSectorSize - pageHeaderSize - size es - e.span by omega]
    exact hrest.program_other (.inr (by rw [hlen]))
  · exact NorFlash.program_other (by rw [hlen]; omega)

end Write

section Append

variable {S : Store} {es : List Entry} {e : Entry}

/-- A change in one sector that is not the active one, and leaves nothing newer there. -/
theorem Holds.change (h : Holds S es) {F : Memory} {t : ℕ} (log : List FlashOp)
    (hsame : SameOutside t S.flash F) (hne : S.activeSector ≠ t)
    (hold : (readPageHeader F (sectorAddr t)).magic ≠ kvMagic) :
    Holds { S with flash := F, log := log } es where
  initialized := h.initialized
  active_lt := h.active_lt
  seq_lt := h.seq_lt
  sector := h.sector.congr hsame hne
  offset := h.offset
  wf := h.wf
  newest u hu hua hm := by
    by_cases hut : u = t
    · subst hut
      exact absurd hm hold
    · dsimp only at hm ⊢
      rw [hsame.readPageHeader hut] at hm ⊢
      exact h.newest u hu hua hm

theorem Carries.offset_mod (h : Carries S es) :
    (sectorAddr S.activeSector + S.writeOffset) % 4 = 0 := by
  have : size es % 4 = 0 := size_mod
  rw [h.offset]
  simp only [sectorAddr, kvFlashBase, kvSectorSize, pageHeaderSize]
  omega

/-- The store after an entry was written behind the others. -/
def appended (S : Store) (e : Entry) : Store :=
  { S.perform (.write (sectorAddr S.activeSector + S.writeOffset) e.bytes) with
    writeOffset := S.writeOffset + e.span }

theorem Carries.append (h : Carries S es) (hw : e.Sane)
    (hfit : S.writeOffset + e.span < kvSectorSize) :
    kvAppend S e.header e.key e.val = (Err.ok, appended S e) ∧
      Carries (appended S e) (es ++ [e]) ∧
      SameOutside S.activeSector S.flash (appended S e).flash := by
  obtain ⟨hsector, hsame⟩ := h.sector.append (by rw [← h.offset]; exact hfit)
  rw [← h.offset] at hsector hsame
  refine ⟨?_, ⟨h.active_lt, hsector, ?_, ?_⟩, hsame⟩
  · unfold kvAppend
    rw [show e.header.bytes ++ e.key ++ e.val = e.body from rfl, hw.flashWrite_body S h.offset_mod]
    rfl
  · change S.writeOffset + e.span = _
    rw [h.offset, size_append, size_cons, size_nil]
    omega
  · intro d hd
    rcases List.mem_append.mp hd with hd | hd
    · exact h.sane d hd
    · obtain rfl := List.mem_singleton.mp hd
      exact hw

theorem Holds.append (h : Holds S es) (hw : e.Wf) (hfit : S.writeOffset + e.span < kvSectorSize) :
    ∃ S', kvAppend S e.header e.key e.val = (Err.ok, S') ∧ Holds S' (es ++ [e]) ∧
      S'.log = S.log ++ [.write (sectorAddr S.activeSector + S.writeOffset) e.bytes] := by
  obtain ⟨happ, hcarries, hsame⟩ := h.carries.append hw.toSane hfit
  refine ⟨appended S e, happ, ⟨h.initialized, h.active_lt, h.seq_lt, hcarries.sector,
    hcarries.offset, ?_, fun t ht hta hm => ?_⟩, rfl⟩
  · intro d hd
    rcases List.mem_append.mp hd with hd | hd
    · exact h.wf d hd
    · obtain rfl := List.mem_singleton.mp hd
      exact hw
  · change t ≠ S.activeSector at hta
    rw [hsame.readPageHeader hta] at hm ⊢
    exact h.newest t ht hta hm

end Append

/-- What the table of the compaction knows about the newest entry of a key. -/
structure Tracks (F : Memory) (base : ℕ) (d : KvDedup) (e : Entry) : Prop where
  id : (d.ns, d.key) = e.id
  stored : Stored F (base + d.offset) e.bytes
  inside : d.offset + e.span ≤ kvSectorSize
  sane : e.Sane

section Dedup

variable {F : Memory} {base : ℕ} {table : List KvDedup} {ds es : List Entry} {e : Entry} {off : ℕ}

theorem dedupMove_tracks (h : List.Forall₂ (Tracks F base) table ds)
    (he : Tracks F base ⟨e.ns, e.key, off⟩ e) :
    match dedupMove e.ns e.key off table with
    | some moved => e.id ∈ ids ds ∧ List.Forall₂ (Tracks F base) moved (upsert ds e)
    | none => e.id ∉ ids ds ∧
        List.Forall₂ (Tracks F base) (table ++ [⟨e.ns, e.key, off⟩]) (upsert ds e) := by
  induction h with
  | nil => exact ⟨List.not_mem_nil, .cons he .nil⟩
  | cons hd hds ih =>
    rename_i d x table ds
    have hid : (d.ns = e.ns ∧ d.key = e.key) ↔ x.id = e.id := by
      rw [← hd.id, Entry.id, Prod.mk.injEq]
    rw [dedupMove, upsert]
    by_cases hx : x.id = e.id
    · rw [if_pos (hid.mpr hx), if_pos hx]
      refine ⟨hx ▸ List.mem_cons_self, .cons ⟨?_, he.stored, he.inside, he.sane⟩ hds⟩
      rw [← hx, ← hd.id]
    · rw [if_neg fun hc => hx (hid.mp hc), if_neg hx]
      revert ih
      cases dedupMove e.ns e.key off table with
      | some moved => exact fun ih => ⟨List.mem_cons_of_mem _ ih.1, .cons hd ih.2⟩
      | none =>
        rintro ⟨hnot, htracks⟩
        refine ⟨fun hmem => ?_, .cons hd htracks⟩
        rcases List.mem_cons.mp hmem with heq | hmem
        · exact hx heq.symm
        · exact hnot hmem

/-- The table follows the bounded map. -/
theorem dedupAdd_tracks (h : List.Forall₂ (Tracks F base) table ds)
    (he : Tracks F base ⟨e.ns, e.key, off⟩ e) :
    List.Forall₂ (Tracks F base) (dedupAdd table e.ns e.key off) (upsertMax ds e) := by
  have hmove := dedupMove_tracks h he
  have hlen := h.length_eq
  unfold dedupAdd upsertMax
  revert hmove
  cases dedupMove e.ns e.key off table with
  | some moved =>
    rintro ⟨hmem, htracks⟩
    dsimp only
    rw [if_pos (Or.inl hmem)]
    exact htracks
  | none =>
    rintro ⟨hnot, htracks⟩
    dsimp only
    by_cases hfull : kvEntryMax ≤ table.length
    · rw [if_pos hfull, if_neg (by rintro (hmem | hlt); exacts [hnot hmem, by omega])]
      exact h
    · rw [if_neg hfull, if_pos (.inr (by omega))]
      exact htracks

theorem dedup_located (hst : Stored F (base + off) (encodeAll es))
    (hin : off + size es ≤ kvSectorSize) (hsane : ∀ e ∈ es, e.Sane)
    (h : List.Forall₂ (Tracks F base) table ds) :
    List.Forall₂ (Tracks F base)
      ((located off es).foldl (fun table e =>
        dedupAdd table e.2.nsHash (entryKey F base e.1 e.2) e.1) table)
      (es.foldl upsertMax ds) := by
  induction es generalizing off table ds with
  | nil => exact h
  | cons e es ih =>
    have hsplit : encodeAll (e :: es) = e.bytes ++ encodeAll es := by simp [encodeAll]
    rw [hsplit, stored_append, Entry.length_bytes, Nat.add_assoc] at hst
    rw [size_cons] at hin
    rw [located, List.foldl_cons, List.foldl_cons]
    dsimp only
    rw [entryKey_of_stored hst.1]
    exact ih hst.2 (by omega) (fun d hd => hsane d (by simp [hd]))
      (dedupAdd_tracks h ⟨rfl, hst.1, by dsimp only; omega, hsane e (by simp)⟩)

end Dedup

theorem SameOutside.refl (s : ℕ) (F : Memory) : SameOutside s F F := fun _ _ => rfl

theorem SameOutside.trans {s : ℕ} {F F' F'' : Memory} (h : SameOutside s F F')
    (h' : SameOutside s F' F'') : SameOutside s F F'' := fun x hx => (h' x hx).trans (h x hx)

section Compact

variable {S : Store} {es : List Entry}

/-- The keys compaction sees in the active sector. -/
def kvKeys (S : Store) : List (UInt8 × CName) :=
  (compactScan S).map fun e => (e.2.nsHash, entryKey S.flash (sectorAddr S.activeSector) e.1 e.2)

theorem Carries.compactScan (h : Carries S es) : compactScan S = located pageHeaderSize es := by
  unfold Kv.compactScan
  rw [h.sector.walk h.sane]
  intro e he
  have := (h.sane e he).keyLen_ne
  simp [this]

theorem keys_located {F : Memory} {base off : ℕ} (hst : Stored F (base + off) (encodeAll es)) :
    (located off es).map (fun e => (e.2.nsHash, entryKey F base e.1 e.2)) = ids es := by
  induction es generalizing off with
  | nil => rfl
  | cons e es ih =>
    have hsplit : encodeAll (e :: es) = e.bytes ++ encodeAll es := by simp [encodeAll]
    rw [hsplit, stored_append, Entry.length_bytes, Nat.add_assoc] at hst
    rw [located, List.map_cons, ih hst.2, entryKey_of_stored hst.1]
    rfl

theorem Carries.keys (h : Carries S es) : kvKeys S = ids es := by
  rw [kvKeys, h.compactScan]
  exact keys_located h.stored_entries

theorem Carries.dedupTable (h : Carries S es) :
    List.Forall₂ (Tracks S.flash (sectorAddr S.activeSector)) (dedupTable S) (keep es) := by
  unfold Kv.dedupTable
  rw [h.compactScan]
  exact dedup_located h.stored_entries (le_of_lt h.sector.fits) h.sane .nil

/-- Every write falls on erased bytes of one of the sectors. -/
def CleanWrites (sectors : List ℕ) : Memory → List FlashOp → Prop
  | _, [] => True
  | F, op :: ops =>
    (match op with
      | .erase _ _ => True
      | .write addr bytes => Stored F addr (blanks bytes.length) ∧
          ∃ s ∈ sectors, sectorAddr s ≤ addr ∧ addr + bytes.length ≤ sectorAddr s + kvSectorSize) ∧
      CleanWrites sectors (op.apply F) ops

theorem cleanWrites_append {sectors : List ℕ} {F : Memory} {ops ops' : List FlashOp}
    (h : CleanWrites sectors F ops) (h' : CleanWrites sectors (replay F ops) ops') :
    CleanWrites sectors F (ops ++ ops') := by
  induction ops generalizing F with
  | nil => exact h'
  | cons op ops ih => exact ⟨h.1, ih h.2 h'⟩

theorem Sector.append_clean {F : Memory} {s seq : ℕ} {e : Entry} (h : Sector F s seq es)
    (hfit : pageHeaderSize + size es + e.span < kvSectorSize) :
    Stored F (sectorAddr s + (pageHeaderSize + size es)) (blanks e.bytes.length) ∧
      sectorAddr s ≤ sectorAddr s + (pageHeaderSize + size es) ∧
      sectorAddr s + (pageHeaderSize + size es) + e.bytes.length ≤ sectorAddr s + kvSectorSize := by
  have hblank := (stored_append.mp h.entries).2
  obtain ⟨hhere, -⟩ := stored_blanks_split (k := e.span) hblank (by omega)
  change Stored F (sectorAddr s + pageHeaderSize + size es) _ at hhere
  rw [Entry.length_bytes, ← Nat.add_assoc (sectorAddr s)]
  exact ⟨hhere, by omega, by omega⟩

/-- Copying the tracked entries behind those copied already. -/
theorem copy_all {F : Memory} {old new seq : ℕ} (hne : old ≠ new) {table : List KvDedup}
    {ds : List Entry} (ht : List.Forall₂ (Tracks F (sectorAddr old)) table ds)
    (A : Store) (done : List Entry) (hsame : SameOutside new F A.flash)
    (hsector : Sector A.flash new seq done)
    (hfit : pageHeaderSize + size done + size ds < kvSectorSize) :
    ∃ A' ops, table.foldl (copyEntry (sectorAddr old) (sectorAddr new))
        (A, pageHeaderSize + size done) = (A', pageHeaderSize + size (done ++ ds)) ∧
      SameOutside new F A'.flash ∧ Sector A'.flash new seq (done ++ ds) ∧
      A'.log = A.log ++ ops ∧ ops.length = table.length ∧ A'.initialized = A.initialized ∧
      CleanWrites [new] A.flash ops ∧ A'.flash = replay A.flash ops := by
  induction ht generalizing A done with
  | nil => exact ⟨A, [], by simp, hsame, by simpa using hsector, by simp, rfl, rfl, trivial, rfl⟩
  | @cons d e table ds hd _ ih =>
    rw [size_cons] at hfit
    have hst : Stored A.flash (sectorAddr old + d.offset) e.bytes := by
      refine hsame.stored hne (Nat.le_add_right _ _) ?_ hd.stored
      rw [Entry.length_bytes, Nat.add_assoc]
      exact Nat.add_le_add_left hd.inside _
    have haddr : (sectorAddr new + (pageHeaderSize + size done)) % 4 = 0 := by
      have : size done % 4 = 0 := size_mod
      simp only [sectorAddr, kvFlashBase, kvSectorSize, pageHeaderSize]
      omega
    have hspan : kvEntrySpan (readEntryHeader A.flash (sectorAddr old + d.offset)) = e.span := by
      rw [readEntryHeader_of_stored hd.sane hst]
      rfl
    have hbuf : readBytes A.flash (sectorAddr old + d.offset) e.span = e.bytes := by
      rw [← Entry.length_bytes]
      exact readBytes_of_stored hst
    obtain ⟨hsector', hsame'⟩ := hsector.append (e := e) (by omega)
    obtain ⟨hblank, hlo, hhi⟩ := hsector.append_clean (e := e) (by omega)
    let A₁ := A.perform (.write (sectorAddr new + (pageHeaderSize + size done)) e.bytes)
    have hcopy : copyEntry (sectorAddr old) (sectorAddr new) (A, pageHeaderSize + size done) d =
        (A₁, pageHeaderSize + size (done ++ [e])) := by
      unfold copyEntry
      simp only [hspan, hbuf, hd.sane.flashWrite_bytes A haddr, size_append, size_cons, size_nil]
      rw [Nat.add_zero, Nat.add_assoc]
    obtain ⟨A', ops, hfold, hout, hsec, hlog, hlen, hinit, hclean, hflash⟩ :=
      ih A₁ (done ++ [e]) (hsame.trans hsame') hsector'
        (by rw [size_append, size_cons, size_nil]; omega)
    rw [List.append_assoc, List.singleton_append] at hfold hsec
    refine ⟨A', .write (sectorAddr new + (pageHeaderSize + size done)) e.bytes :: ops, ?_, hout,
      hsec, ?_, by simp [hlen], hinit,
      ⟨⟨hblank, new, List.mem_singleton_self new, hlo, hhi⟩, hclean⟩, hflash⟩
    · rw [List.foldl_cons, hcopy, hfold]
    · rw [hlog]
      simp [A₁, Store.perform]

/-- The sector compaction moves to, and its first two operations. -/
def nextSector (S : Store) : ℕ := (S.activeSector + 1) % kvNumSectors

def compactHead (S : Store) : List FlashOp :=
  [.erase (sectorAddr (nextSector S)) kvSectorSize,
    .write (sectorAddr (nextSector S)) (PageHeader.bytes ⟨kvMagic, (S.activeSeq + 1) % 2 ^ 32⟩)]

theorem Carries.nextSector_ne (h : Carries S es) : S.activeSector ≠ nextSector S := by
  have hlt := h.active_lt
  simp only [nextSector, kvNumSectors] at hlt ⊢
  omega

/-- Compaction keeps the newest entry of every key of its table: an erase, the header, one write
a key. -/
theorem Carries.compact (h : Carries S es) :
    Carries (kvCompact S) (keep es) ∧ SameOutside (nextSector S) S.flash (kvCompact S).flash ∧
      (kvCompact S).activeSector = nextSector S ∧
      (kvCompact S).activeSeq = (S.activeSeq + 1) % 2 ^ 32 ∧
      (kvCompact S).initialized = S.initialized ∧
      ∃ ops, (kvCompact S).log = S.log ++ compactHead S ++ ops ∧
        ops.length = (Kv.dedupTable S).length ∧
        CleanWrites [nextSector S] S.flash (compactHead S ++ ops) ∧
        (kvCompact S).flash = replay S.flash (compactHead S ++ ops) := by
  have hne := h.nextSector_ne
  obtain ⟨hfresh, hsame⟩ := sector_fresh S.flash (nextSector S) ((S.activeSeq + 1) % 2 ^ 32)
  let A := (S.perform (.erase (sectorAddr (nextSector S)) kvSectorSize)).perform
    (.write (sectorAddr (nextSector S))
      (PageHeader.bytes ⟨kvMagic, (S.activeSeq + 1) % 2 ^ 32⟩))
  have hfits := h.sector.fits
  have hle : size (keep es) ≤ size es := size_keep_le
  obtain ⟨A', ops, hfold, hout, hsector, hlog, hlen, hinit, hclean, hflash⟩ :=
    copy_all hne h.dedupTable A [] hsame hfresh (by rw [size_nil]; omega)
  rw [List.nil_append] at hfold hsector
  have hcompact : kvCompact S = { A' with
      activeSector := nextSector S
      activeSeq := (S.activeSeq + 1) % 2 ^ 32
      writeOffset := pageHeaderSize + size (keep es) } := by
    have hcopied : (Kv.dedupTable S).foldl (copyEntry (sectorAddr S.activeSector)
        (sectorAddr ((S.activeSector + 1) % kvNumSectors)))
        ((flashErase S (sectorAddr ((S.activeSector + 1) % kvNumSectors)) kvSectorSize).perform
          (.write (sectorAddr ((S.activeSector + 1) % kvNumSectors))
            (PageHeader.bytes ⟨kvMagic, (S.activeSeq + 1) % 2 ^ 32⟩)), pageHeaderSize) =
        (A', pageHeaderSize + size (keep es)) := hfold
    simp only [kvCompact, flashWrite_header, hcopied]
    rfl
  rw [hcompact]
  refine ⟨⟨Nat.mod_lt _ (by decide), hsector, rfl, fun e he => h.sane e (mem_of_mem_keep he)⟩,
    hout, rfl, rfl, hinit, ops, ?_, hlen, ?_, hflash⟩
  · rw [hlog]
    simp [A, Store.perform, compactHead]
  · have hlen : 8 ≤ kvSectorSize := by decide
    refine cleanWrites_append ⟨trivial, ⟨?_, nextSector S, List.mem_singleton_self _, le_refl _, ?_⟩,
      trivial⟩ hclean
    · exact stored_erase (le_refl _) (Nat.add_le_add_left hlen _)
    · exact Nat.add_le_add_left hlen _

theorem Holds.nextSector_ne (h : Holds S es) : S.activeSector ≠ nextSector S :=
  h.carries.nextSector_ne

/-- With the sequence going up, the store after a compaction holds what its table kept. -/
theorem Holds.compact_keep (h : Holds S es) (hseq : S.activeSeq + 1 < 2 ^ 32) :
    Holds (kvCompact S) (keep es) := by
  obtain ⟨hcarries, hout, hactive, hnext, hinit, -⟩ := h.carries.compact
  have hmod : (S.activeSeq + 1) % 2 ^ 32 = S.activeSeq + 1 := Nat.mod_eq_of_lt hseq
  rw [hmod] at hnext
  refine ⟨hinit.trans h.initialized, hcarries.active_lt, hnext ▸ hseq, hcarries.sector,
    hcarries.offset, fun e he => h.wf e (mem_of_mem_keep he), fun t ht hta hm => ?_⟩
  rw [hactive] at hta
  rw [hnext]
  rw [hout.readPageHeader hta] at hm ⊢
  by_cases hold : t = S.activeSector
  · rw [hold, h.sector.readHeader h.seq_lt]
    exact Nat.lt_succ_self _
  · exact Nat.lt_succ_of_lt (h.newest t ht hold hm)

/-- Compaction keeps the newest entry of every key: an erase, the header, one write a key. -/
theorem Holds.compact (h : Holds S es) (hroom : (kvKeys S).dedup.length ≤ kvEntryMax)
    (hseq : S.activeSeq + 1 < 2 ^ 32) :
    Holds (kvCompact S) (live es) ∧
      ∃ ops, (kvCompact S).log = S.log ++ compactHead S ++ ops ∧
        ops.length = (Kv.dedupTable S).length := by
  rw [h.carries.keys] at hroom
  obtain ⟨-, -, -, -, -, ops, hlog, hlen, -, -⟩ := h.carries.compact
  exact ⟨keep_eq_live hroom ▸ h.compact_keep hseq, ops, hlog, hlen⟩

end Compact

theorem bestSector_none {F : Memory} {sectors : List ℕ}
    (h : ∀ t ∈ sectors, (readPageHeader F (sectorAddr t)).magic ≠ kvMagic) :
    bestSector F sectors = (0, 0, false) := by
  unfold bestSector
  induction sectors with
  | nil => rfl
  | cons t sectors ih =>
    rw [List.foldl_cons]
    dsimp only
    rw [if_neg fun hc => h t (by simp) hc.1]
    exact ih fun u hu => h u (by simp [hu])

/-- On a medium without a page of the store, initialisation starts an empty one. -/
theorem holds_fresh {F : Memory}
    (h : ∀ t < kvNumSectors, (readPageHeader F (sectorAddr t)).magic ≠ kvMagic) :
    Holds (kvInit F) [] := by
  obtain ⟨hfresh, hsame⟩ := sector_fresh F 0 1
  have hbest : bestSector F (List.range kvNumSectors) = (0, 0, false) :=
    bestSector_none fun t ht => h t (List.mem_range.mp ht)
  let S₀ : Store := ⟨F, 0, 0, pageHeaderSize, true, []⟩
  let A := (S₀.perform (.erase (sectorAddr 0) kvSectorSize)).perform
    (.write (sectorAddr 0) (PageHeader.bytes ⟨kvMagic, 1⟩))
  have hinit : kvInit F = { A with activeSector := 0, activeSeq := 1 } := by
    have hwrite := flashWrite_header (S₀.perform (.erase (sectorAddr 0) kvSectorSize))
      ⟨kvMagic, 1⟩ 0
    have haddr : sectorAddr 0 = kvFlashBase := by simp [sectorAddr]
    simp only [kvInit, hbest, Bool.false_eq_true, if_false]
    rw [haddr] at hwrite
    change { (flashWrite (S₀.perform (.erase kvFlashBase kvSectorSize)) kvFlashBase _).2 with
      activeSector := 0, activeSeq := 1 } = _
    rw [hwrite]
    simp only [A, haddr]
  rw [hinit]
  have hsector : (0 : ℕ) < kvNumSectors ∧ 1 < 2 ^ 32 := by decide
  refine ⟨rfl, hsector.1, hsector.2, hfresh, rfl, by simp, fun t ht ht0 hm => ?_⟩
  change SameOutside 0 F A.flash at hsame
  dsimp only at ht0 hm
  rw [hsame.readPageHeader ht0] at hm
  exact absurd hm (h t ht)

theorem Holds.withLog {S : Store} {es : List Entry} (h : Holds S es) (log : List FlashOp) :
    Holds { S with log := log } es :=
  ⟨h.initialized, h.active_lt, h.seq_lt, h.sector, h.offset, h.wf, h.newest⟩

theorem Holds.restart {S : Store} {es : List Entry} (h : Holds S es) :
    Holds (kvInit S.flash) es := by
  rw [h.init]
  exact h.withLog []

/-- The write of an entry goes through a compaction. -/
def Compacts (S : Store) (e : Entry) : Prop :=
  e.key.length ≤ kvKeyMax ∧ e.val.length ≤ kvValMax ∧ kvSectorSize ≤ S.writeOffset + e.span

/-- The table has room for every key, and the sequence does not wrap. -/
structure CompactRoom (S : Store) : Prop where
  keys : (kvKeys S).dedup.length ≤ kvEntryMax
  seq : S.activeSeq + 1 < 2 ^ 32

def kvWrite (S : Store) (e : Entry) : Err × Store := kvWriteEntry S e.ns e.key e.type e.val

section WriteEntry

variable {S : Store} {e : Entry}

theorem kvWrite_invalid (h : kvKeyMax < e.key.length ∨ kvValMax < e.val.length) :
    kvWrite S e = (Err.invalidArg, S) := by
  unfold kvWrite kvWriteEntry
  rw [if_pos h]

theorem kvWrite_valid (h : ¬ (kvKeyMax < e.key.length ∨ kvValMax < e.val.length)) :
    kvWrite S e =
      if kvSectorSize ≤ S.writeOffset + e.span then
        if kvSectorSize ≤ (kvCompact S).writeOffset + e.span then (Err.noMem, kvCompact S)
        else kvAppend (kvCompact S) e.header e.key e.val
      else kvAppend S e.header e.key e.val := by
  unfold kvWrite kvWriteEntry
  rw [if_neg h]
  rfl

/-- A write that succeeds sets the value of its key; any other leaves every value alone. -/
theorem Holds.write {es : List Entry} (h : Holds S es) (hns : e.ns ≠ 0xFF) (hkey : e.key ≠ [])
    (hroom : Compacts S e → CompactRoom S) :
    ∃ es', Holds (kvWrite S e).2 es' ∧ ∀ k, lookup es' k =
      if (kvWrite S e).1 = Err.ok ∧ e.id = k then some e else lookup es k := by
  by_cases hbad : kvKeyMax < e.key.length ∨ kvValMax < e.val.length
  · rw [kvWrite_invalid hbad]
    exact ⟨es, h, fun k => by simp [Err.invalidArg, Err.ok]⟩
  have hw : e.Wf := ⟨List.length_pos_iff.mpr hkey, by omega, by omega, hns⟩
  rw [kvWrite_valid hbad]
  split
  next hfull =>
    obtain ⟨hkeys, hseq⟩ := hroom ⟨hw.key_le, hw.val_le, hfull⟩
    have hc := (h.compact hkeys hseq).1
    split
    · exact ⟨live es, hc, fun k => by simp [Err.noMem, Err.ok, lookup_live]⟩
    next hfit =>
      obtain ⟨S', hS, hS', -⟩ := hc.append hw (by omega)
      rw [hS]
      exact ⟨_, hS', fun k => by simp [lookup_append_one, lookup_live]⟩
  next hfit =>
    obtain ⟨S', hS, hS', -⟩ := h.append hw (by omega)
    rw [hS]
    exact ⟨_, hS', fun k => by simp [lookup_append_one]⟩

end WriteEntry

theorem flashWrite_seq (S : Store) (addr : ℕ) (buf : List UInt8) :
    (flashWrite S addr buf).2.activeSeq = S.activeSeq := by
  unfold Kv.flashWrite
  dsimp only
  split
  · rfl
  · split <;> rfl

theorem kvAppend_seq (S : Store) (eh : EntryHeader) (key val : List UInt8) :
    (kvAppend S eh key val).2.activeSeq = S.activeSeq := by
  unfold kvAppend
  dsimp only
  split <;> exact flashWrite_seq _ _ _

theorem Holds.write_fits {S : Store} {es : List Entry} {e : Entry} (h : Holds S es) (hw : e.Wf)
    (hfit : S.writeOffset + e.span < kvSectorSize) :
    (kvWrite S e).1 = Err.ok ∧ Holds (kvWrite S e).2 (es ++ [e]) ∧
      (kvWrite S e).2.activeSeq = S.activeSeq := by
  obtain ⟨S', hS, hS', -⟩ := h.append hw hfit
  have hbad : ¬ (kvKeyMax < e.key.length ∨ kvValMax < e.val.length) := by
    have := hw.key_le
    have := hw.val_le
    omega
  have hseq := kvAppend_seq S e.header e.key e.val
  rw [hS] at hseq
  rw [kvWrite_valid hbad, if_neg (by omega), hS]
  exact ⟨rfl, hS', hseq⟩

theorem kvCompact_seq (S : Store) : (kvCompact S).activeSeq ≤ S.activeSeq + 1 := Nat.mod_le _ _

/-- With room for the entry behind one entry a key, a write succeeds. -/
theorem Holds.write_room {S : Store} {es : List Entry} {e : Entry} (h : Holds S es) (hw : e.Wf)
    (hroom : CompactRoom S) (hfit : pageHeaderSize + size (live es) + e.span < kvSectorSize) :
    ∃ S' es', kvWrite S e = (Err.ok, S') ∧ Holds S' es' ∧
      (∀ k, lookup es' k = if e.id = k then some e else lookup es k) ∧
      (∀ d ∈ es', d = e ∨ d ∈ es) ∧ S'.activeSeq ≤ S.activeSeq + 1 := by
  by_cases hfull : kvSectorSize ≤ S.writeOffset + e.span
  · have hbad : ¬ (kvKeyMax < e.key.length ∨ kvValMax < e.val.length) := by
      have := hw.key_le
      have := hw.val_le
      omega
    have hc := (h.compact hroom.keys hroom.seq).1
    rw [← hc.offset] at hfit
    obtain ⟨S', hS, hS', -⟩ := hc.append hw hfit
    have hseq := kvAppend_seq (kvCompact S) e.header e.key e.val
    rw [hS] at hseq
    rw [kvWrite_valid hbad, if_pos hfull, if_neg (Nat.not_le_of_lt hfit), hS]
    refine ⟨S', _, rfl, hS', fun k => by rw [lookup_append_one, lookup_live], fun d hd => ?_, ?_⟩
    · rcases List.mem_append.mp hd with hd | hd
      · exact .inr (mem_of_mem_live hd)
      · exact .inl (List.mem_singleton.mp hd)
    · exact le_of_eq_of_le hseq (kvCompact_seq S)
  · obtain ⟨hok, hS', hseq⟩ := h.write_fits hw (Nat.lt_of_not_le hfull)
    refine ⟨_, _, Prod.ext hok rfl, hS', fun k => lookup_append_one, fun d hd => ?_,
      le_of_eq_of_le hseq (Nat.le_succ _)⟩
    rcases List.mem_append.mp hd with hd | hd
    · exact .inr hd
    · exact .inl (List.mem_singleton.mp hd)

theorem kvInit_seq {F : Memory}
    (h : ∀ t < kvNumSectors, (readPageHeader F (sectorAddr t)).magic ≠ kvMagic) :
    (kvInit F).activeSeq = 1 := by
  have hbest : bestSector F (List.range kvNumSectors) = (0, 0, false) :=
    bestSector_none fun t ht => h t (List.mem_range.mp ht)
  simp [kvInit, hbest]

/-- An erased partition. -/
def blankFlash : Memory := fun _ => 0xFF

theorem blankFlash_magic (t : ℕ) : (readPageHeader blankFlash (sectorAddr t)).magic ≠ kvMagic :=
  (by decide : fromLe [0xFF, 0xFF, 0xFF, 0xFF] ≠ kvMagic)

theorem blankFlash_holds : Holds (kvInit blankFlash) [] :=
  holds_fresh fun t _ => blankFlash_magic t

theorem blankFlash_seq : (kvInit blankFlash).activeSeq = 1 :=
  kvInit_seq fun t _ => blankFlash_magic t

end ReflexOS.Kv
