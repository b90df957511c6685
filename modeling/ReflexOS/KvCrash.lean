import ReflexOS.KvStore
import ReflexOS.Runs

set_option autoImplicit false

/-!
# Power loss

A set performs a sequence of operations on the medium; power can fail between any two of
them, and the store starts again on what is there.
-/
namespace ReflexOS.Kv
open NorFlash Runs

/-- The log accounts for the medium. -/
def Logged (F : Memory) (S : Store) : Prop := S.flash = replay F S.log

section Logged

variable {F : Memory} {S : Store}

theorem replay_append (F : Memory) (ops ops' : List FlashOp) :
    replay F (ops ++ ops') = replay (replay F ops) ops' := List.foldl_append

theorem Logged.perform (h : Logged F S) (op : FlashOp) : Logged F (S.perform op) := by
  change op.apply S.flash = replay F (S.log ++ [op])
  rw [replay_append, ← h]
  rfl

theorem Logged.flashWrite (h : Logged F S) (addr : ℕ) (buf : List UInt8) :
    Logged F (flashWrite S addr buf).2 := by
  unfold Kv.flashWrite
  dsimp only
  split
  · exact h
  split
  · exact h
  · exact h.perform _

theorem Logged.copies {oldBase newBase : ℕ} {table : List KvDedup} {acc : Store × ℕ}
    (h : Logged F acc.1) : Logged F (table.foldl (copyEntry oldBase newBase) acc).1 := by
  induction table generalizing acc with
  | nil => exact h
  | cons d table ih => exact ih (h.flashWrite _ _)

theorem Logged.compact (h : Logged F S) : Logged F (kvCompact S) :=
  Logged.copies ((h.perform (.erase _ _)).flashWrite _ _)

theorem Logged.append (h : Logged F S) (eh : EntryHeader) (key val : List UInt8) :
    Logged F (kvAppend S eh key val).2 := by
  unfold kvAppend
  dsimp only
  split <;> exact h.flashWrite _ _

theorem Logged.write (h : Logged F S) (e : Entry) : Logged F (kvWrite S e).2 := by
  by_cases hbad : kvKeyMax < e.key.length ∨ kvValMax < e.val.length
  · rw [kvWrite_invalid hbad]
    exact h
  · rw [kvWrite_valid hbad]
    split
    · split
      · exact h.compact
      · exact h.compact.append _ _ _
    · exact h.append _ _ _

end Logged

/-- The operations a write performs on the medium. -/
def writeOps (S : Store) (e : Entry) : List FlashOp := (kvWrite { S with log := [] } e).2.log

/-- Power is lost after the first `n` operations of a write, and the store starts again. -/
def cutAfter (S : Store) (e : Entry) (n : ℕ) : Store :=
  kvInit (replay S.flash ((writeOps S e).take n))

section Cut

variable {S : Store} {es : List Entry} {e : Entry}

theorem logged_nil (S : Store) : Logged S.flash { S with log := [] } := rfl

theorem erased_magic (F : Memory) (s : ℕ) :
    (readPageHeader (NorFlash.erase F (sectorAddr s) kvSectorSize) (sectorAddr s)).magic ≠
      kvMagic := by
  have hst : Stored (NorFlash.erase F (sectorAddr s) kvSectorSize) (sectorAddr s) (blanks 4) :=
    stored_erase (le_refl _) (Nat.add_le_add_left (by decide) _)
  have hread := readBytes_of_stored hst
  change fromLe (readBytes _ _ (blanks 4).length) ≠ kvMagic
  rw [hread]
  decide

theorem Holds.cut_erased (h : Holds S es) :
    Holds (kvInit (replay S.flash ((compactHead S).take 1))) es :=
  (h.change (t := nextSector S) []
    (fun _ hx => NorFlash.erase_other hx) h.nextSector_ne (erased_magic _ _)).restart

/-- A write that does not fail before it touches the medium, as the operations it performs. -/
theorem Holds.writeOps_compact (h : Holds S es) (hw : e.Wf) (hfull : Compacts S e)
    (hroom : CompactRoom S) : ∃ ops last, writeOps S e = compactHead S ++ ops ++ last ∧
      ops.length = (Kv.dedupTable S).length ∧ last.length ≤ 1 ∧
      (kvCompact { S with log := [] }).log = compactHead S ++ ops := by
  have h₀ := h.withLog []
  obtain ⟨hc, ops, hlog, hlen⟩ := h₀.compact hroom.keys hroom.seq
  have hbad : ¬ (kvKeyMax < e.key.length ∨ kvValMax < e.val.length) := by
    have := hw.key_le
    have := hw.val_le
    omega
  have hfull' : kvSectorSize ≤ ({ S with log := [] } : Store).writeOffset + e.span := hfull.2.2
  rw [List.nil_append] at hlog
  unfold writeOps
  rw [kvWrite_valid hbad, if_pos hfull']
  split
  · exact ⟨ops, [], by rw [hlog]; simp; rfl, hlen, by simp, hlog⟩
  next hfit =>
    obtain ⟨S', hS, -, hlog'⟩ := hc.append hw (by omega)
    rw [hS]
    exact ⟨ops, _, by rw [hlog', hlog]; rfl, hlen, le_refl 1, hlog⟩

/-- Cut short anywhere but between the header and the last copy of a compaction, a write
loses nothing but possibly its own value. -/
theorem Holds.cut (h : Holds S es) (hns : e.ns ≠ 0xFF) (hkey : e.key ≠ [])
    (hroom : Compacts S e → CompactRoom S) {n : ℕ}
    (hn : Compacts S e → n ≤ 1 ∨ 2 + (Kv.dedupTable S).length ≤ n) :
    ∃ es', Holds (cutAfter S e n) es' ∧ ∀ k, e.id ≠ k → lookup es' k = lookup es k := by
  have h₀ := h.withLog []
  obtain ⟨es', hdone, hlook⟩ := h₀.write hns hkey
    fun hc => ⟨(hroom hc).keys, (hroom hc).seq⟩
  have hlogged := (logged_nil S).write e
  -- all operations done, or none
  have hall : (writeOps S e).length ≤ n →
      ∃ es', Holds (cutAfter S e n) es' ∧ ∀ k, e.id ≠ k → lookup es' k = lookup es k := by
    intro hle
    rw [cutAfter, List.take_of_length_le hle, writeOps, ← hlogged]
    exact ⟨es', hdone.restart, fun k hk => by rw [hlook k, if_neg fun hc => hk hc.2]⟩
  have hnone : n = 0 →
      ∃ es', Holds (cutAfter S e n) es' ∧ ∀ k, e.id ≠ k → lookup es' k = lookup es k := by
    rintro rfl
    exact ⟨es, h.restart, fun _ _ => rfl⟩
  by_cases hbad : kvKeyMax < e.key.length ∨ kvValMax < e.val.length
  · refine hall ?_
    rw [writeOps, kvWrite_invalid hbad]
    exact Nat.zero_le n
  have hw : e.Wf := ⟨List.length_pos_iff.mpr hkey, by omega, by omega, hns⟩
  by_cases hfull : kvSectorSize ≤ S.writeOffset + e.span
  · have hcomp : Compacts S e := ⟨hw.key_le, hw.val_le, hfull⟩
    obtain ⟨ops, last, hops, hlen, hlast, hclog⟩ := h.writeOps_compact hw hcomp (hroom hcomp)
    have hhead : (compactHead S).length = 2 := rfl
    rcases hn hcomp with hsmall | hlarge
    · rcases Nat.le_one_iff_eq_zero_or_eq_one.mp hsmall with h0 | rfl
      · exact hnone h0
      · refine ⟨es, ?_, fun _ _ => rfl⟩
        rw [cutAfter, hops]
        exact h.cut_erased
    · rcases Nat.lt_or_ge n (writeOps S e).length with hlt | hge
      · have hexact : n = (compactHead S ++ ops).length := by
          rw [hops] at hlt
          simp only [List.length_append] at hlt ⊢
          omega
        refine ⟨live es, ?_, fun _ _ => lookup_live⟩
        rw [cutAfter, hops, hexact, List.take_left, ← hclog, ← (logged_nil S).compact]
        exact (h₀.compact (hroom hcomp).keys (hroom hcomp).seq).1.restart
      · exact hall hge
  · rcases Nat.eq_zero_or_pos n with h0 | hpos
    · exact hnone h0
    · refine hall ?_
      have hnot : ¬ kvSectorSize ≤ ({ S with log := [] } : Store).writeOffset + e.span := hfull
      obtain ⟨S', hS, -, hlog⟩ := h₀.append hw (Nat.lt_of_not_le hnot)
      rw [writeOps, kvWrite_valid hbad, if_neg hnot, hS, hlog]
      exact hpos

end Cut

/-- A call of one of the setters. -/
structure SetCall where
  ns : CName
  key : CName
  type : UInt8
  val : List UInt8

def SetCall.entry (c : SetCall) : Entry := ⟨nsHash c.ns, c.key, c.type, c.val⟩

/-- The store, and for each key the value of its last set if that had returned OK. -/
structure History where
  store : Store
  last : CName → CName → Option (List UInt8)

def History.record (H : History) (c : SetCall) (val : Option (List UInt8)) :
    CName → CName → Option (List UInt8) :=
  fun ns key => if c.ns = ns ∧ c.key = key then val else H.last ns key

theorem History.record_self (H : History) (c : SetCall) (val : Option (List UInt8)) :
    H.record c val c.ns c.key = val := if_pos ⟨rfl, rfl⟩

theorem History.record_other {H : History} {c : SetCall} {val : Option (List UInt8)}
    {ns key : CName} (h : ¬ (c.ns = ns ∧ c.key = key)) : H.record c val ns key = H.last ns key :=
  if_neg h

inductive KvEvent where
  | set (c : SetCall)
  | cut (c : SetCall) (n : ℕ)
  | reboot

/-- A set that fails leaves what was set before; one that is cut short leaves its key open. -/
inductive KvStep : History → KvEvent → History → Prop where
  | set (H : History) (c : SetCall) :
      KvStep H (.set c) ⟨(kvWrite H.store c.entry).2,
        if (kvWrite H.store c.entry).1 = Err.ok then H.record c (some c.val) else H.last⟩
  | cut (H : History) (c : SetCall) (n : ℕ) :
      KvStep H (.cut c n) ⟨cutAfter H.store c.entry n, H.record c none⟩
  | reboot (H : History) : KvStep H .reboot ⟨kvInit H.store.flash, H.last⟩

/-- What a set asks for: one of the namespaces in use, a key that is not empty, and room in the
table and the sequence when it compacts. -/
structure Careful (names : Set CName) (S : Store) (c : SetCall) : Prop where
  ns_mem : c.ns ∈ names
  ns_ne : nsHash c.ns ≠ 0xFF
  key : c.key ≠ []
  room : Compacts S c.entry → CompactRoom S

/-- No power loss between the header of a compaction and its last copy. -/
def Harmless (names : Set CName) (H : History) (ev : KvEvent) : Prop :=
  match ev with
  | .set c => Careful names H.store c
  | .cut c n => Careful names H.store c ∧
      (Compacts H.store c.entry → n ≤ 1 ∨ 2 + (dedupTable H.store).length ≤ n)
  | .reboot => True

/-- The medium has the last value of every key that is not open. -/
def Durable (names : Set CName) (H : History) : Prop :=
  ∃ es, Holds H.store es ∧ ∀ ns key val, H.last ns key = some val →
    ns ∈ names ∧ ∃ e, lookup es (nsHash ns, key) = some e ∧ e.val = val

section Durable

variable {names : Set CName} (hinj : Set.InjOn nsHash names) {H : History}
include hinj

/-- An entry of one key is no entry of another key in use. -/
theorem entry_id_ne {c : SetCall} {ns key : CName} (hc : c.ns ∈ names) (hns : ns ∈ names)
    (hne : ¬ (c.ns = ns ∧ c.key = key)) : c.entry.id ≠ (nsHash ns, key) := by
  intro hid
  rw [Entry.id, Prod.mk.injEq] at hid
  exact hne ⟨hinj hc hns hid.1, hid.2⟩

theorem Durable.set (h : Durable names H) {c : SetCall} (hc : Careful names H.store c) :
    Durable names ⟨(kvWrite H.store c.entry).2,
      if (kvWrite H.store c.entry).1 = Err.ok then H.record c (some c.val) else H.last⟩ := by
  obtain ⟨es, hes, hlast⟩ := h
  obtain ⟨es', hes', hlook⟩ := hes.write (e := c.entry) hc.ns_ne hc.key hc.room
  refine ⟨es', hes', fun ns key val hval => ?_⟩
  rw [hlook]
  by_cases hok : (kvWrite H.store c.entry).1 = Err.ok
  · simp only [if_pos hok, History.record] at hval
    by_cases hsame : c.ns = ns ∧ c.key = key
    · rw [if_pos hsame] at hval
      obtain ⟨rfl, rfl⟩ := hsame
      cases hval
      exact ⟨hc.ns_mem, c.entry, if_pos ⟨hok, rfl⟩, rfl⟩
    · rw [if_neg hsame] at hval
      obtain ⟨hns, hfound⟩ := hlast ns key val hval
      rw [if_neg fun hid => entry_id_ne hinj hc.ns_mem hns hsame hid.2]
      exact ⟨hns, hfound⟩
  · rw [if_neg hok] at hval
    rw [if_neg fun hid => hok hid.1]
    exact hlast ns key val hval

theorem Durable.cut (h : Durable names H) {c : SetCall} (hc : Careful names H.store c) {n : ℕ}
    (hn : Compacts H.store c.entry → n ≤ 1 ∨ 2 + (dedupTable H.store).length ≤ n) :
    Durable names ⟨cutAfter H.store c.entry n, H.record c none⟩ := by
  obtain ⟨es, hes, hlast⟩ := h
  obtain ⟨es', hes', hlook⟩ := hes.cut (e := c.entry) hc.ns_ne hc.key hc.room hn
  refine ⟨es', hes', fun ns key val hval => ?_⟩
  dsimp only [History.record] at hval
  by_cases hsame : c.ns = ns ∧ c.key = key
  · rw [if_pos hsame] at hval
    cases hval
  · rw [if_neg hsame] at hval
    obtain ⟨hns, hfound⟩ := hlast ns key val hval
    rw [hlook _ (entry_id_ne hinj hc.ns_mem hns hsame)]
    exact ⟨hns, hfound⟩

theorem Durable.step {H' : History} {ev : KvEvent} (h : Durable names H)
    (hs : Guarded (Harmless names) KvStep H ev H') : Durable names H' := by
  obtain ⟨hguard, hs⟩ := hs
  cases hs with
  | set c => exact h.set hinj hguard
  | cut c n => exact h.cut hinj hguard.1 hguard.2
  | reboot =>
    obtain ⟨es, hes, hlast⟩ := h
    exact ⟨es, hes.restart, hlast⟩

end Durable

/-- The store as it first starts. -/
def blankHistory : History := ⟨kvInit blankFlash, fun _ _ => none⟩

def configNs : CName := ascii "config"

def smallSet : SetCall := ⟨configNs, ascii "a", kvTypeBlob, [1]⟩

def largeSet : SetCall := ⟨configNs, ascii "b", kvTypeBlob, List.replicate 240 7⟩

theorem smallSet_wf : smallSet.entry.Wf := ⟨by decide, by decide, by decide, by decide⟩

theorem largeSet_length : largeSet.entry.val.length = 240 := List.length_replicate

theorem largeSet_wf : largeSet.entry.Wf where
  key_pos := (by decide : 1 ≤ (ascii "b").length)
  key_le := (by decide : (ascii "b").length ≤ kvKeyMax)
  val_le := le_of_eq largeSet_length
  ns_ne := (by decide : nsHash configNs ≠ 0xFF)

theorem largeSet_key_ne : ¬ (largeSet.ns = configNs ∧ largeSet.key = ascii "a") :=
  (by decide : ¬ (configNs = configNs ∧ ascii "b" = ascii "a"))

theorem record_largeSet (H : History) (val : Option (List UInt8))
    (h : H.last configNs (ascii "a") = some [1]) :
    H.record largeSet val configNs (ascii "a") = some [1] := by
  rw [History.record_other largeSet_key_ne]
  exact h

theorem smallSet_span : smallSet.entry.span = 8 := by decide

theorem largeSet_span : largeSet.entry.span = 248 := by
  have hkey : largeSet.entry.key.length = 1 := (by decide : (ascii "b").length = 1)
  simp only [Entry.span, Entry.header, kvEntrySpan, entryHeaderSize, hkey, largeSet_length]

theorem KvStep.set_fits {H : History} {es : List Entry} {c : SetCall} (h : Holds H.store es)
    (hw : c.entry.Wf) (hfit : H.store.writeOffset + c.entry.span < kvSectorSize) :
    KvStep H (.set c) ⟨(kvWrite H.store c.entry).2, H.record c (some c.val)⟩ := by
  have hstep := KvStep.set H c
  rwa [if_pos (h.write_fits hw hfit).1] at hstep

theorem blank_fits : (kvInit blankFlash).writeOffset + smallSet.entry.span < kvSectorSize := by
  have hoff : (kvInit blankFlash).writeOffset = 8 := blankFlash_holds.offset
  rw [hoff, smallSet_span]
  decide

/-- Cut right behind the header of a compaction, a store starts again empty. -/
theorem Holds.cut_headed {S : Store} {es : List Entry} {e : Entry} (h : Holds S es) (hw : e.Wf)
    (hfull : Compacts S e) (hroom : CompactRoom S) : Holds (cutAfter S e 2) [] := by
  obtain ⟨ops, last, hops, -⟩ := h.writeOps_compact hw hfull hroom
  have hmod : (S.activeSeq + 1) % 2 ^ 32 = S.activeSeq + 1 := Nat.mod_eq_of_lt hroom.seq
  obtain ⟨hfresh, hsame⟩ := sector_fresh S.flash (nextSector S) ((S.activeSeq + 1) % 2 ^ 32)
  let A : Store := ⟨replay S.flash (compactHead S), nextSector S, (S.activeSeq + 1) % 2 ^ 32,
    pageHeaderSize, true, []⟩
  have hA : Holds A [] := by
    refine ⟨rfl, Nat.mod_lt _ (by decide), Nat.mod_lt _ (by decide), hfresh, rfl, by simp,
      fun t _ hta hm => ?_⟩
    change SameOutside (nextSector S) S.flash A.flash at hsame
    rw [hsame.readPageHeader hta] at hm ⊢
    change _ < (S.activeSeq + 1) % 2 ^ 32
    rw [hmod]
    by_cases hold : t = S.activeSector
    · rw [hold, h.sector.readHeader h.seq_lt]
      exact Nat.lt_succ_self _
    · exact Nat.lt_succ_of_lt (h.newest t ‹_› hold hm)
  have htake : (writeOps S e).take 2 = compactHead S := by
    rw [hops, List.append_assoc]
    rfl
  rw [cutAfter, htake]
  exact hA.restart

theorem size_filled (k : ℕ) :
    size (smallSet.entry :: List.replicate k largeSet.entry) = 8 + 248 * k := by
  rw [size_cons, smallSet_span]
  congr 1
  induction k with
  | zero => rfl
  | succ k ih =>
    rw [List.replicate_succ, size_cons, ih, largeSet_span]
    omega

/-- The sector filled with one small entry and `k` large ones. -/
theorem filled_reachable (k : ℕ) (hk : k ≤ 16) :
    ∃ evs H, Run KvStep blankHistory evs H ∧
      Holds H.store (smallSet.entry :: List.replicate k largeSet.entry) ∧
      H.store.activeSeq = 1 ∧ H.last configNs (ascii "a") = some [1] := by
  induction k with
  | zero =>
    obtain ⟨-, hholds, hseq⟩ := blankFlash_holds.write_fits smallSet_wf blank_fits
    exact ⟨_, _, .single (.set_fits blankFlash_holds smallSet_wf blank_fits), hholds,
      hseq.trans blankFlash_seq, blankHistory.record_self smallSet _⟩
  | succ k ih =>
    obtain ⟨evs, H, hrun, hholds, hseq, hlast⟩ := ih (by omega)
    have hsize := size_filled k
    have hfit : H.store.writeOffset + largeSet.entry.span < kvSectorSize := by
      rw [hholds.offset, hsize, largeSet_span]
      simp only [pageHeaderSize, kvSectorSize]
      omega
    obtain ⟨-, hholds', hseq'⟩ := hholds.write_fits largeSet_wf hfit
    have hstep := KvStep.set_fits hholds largeSet_wf hfit
    rw [hseq] at hseq'
    generalize (kvWrite H.store largeSet.entry).2 = S' at hholds' hseq' hstep
    refine ⟨_, _, hrun.append (.single hstep), ?_, hseq',
      record_largeSet H (some largeSet.val) hlast⟩
    rw [List.replicate_succ']
    exact hholds'

end ReflexOS.Kv
