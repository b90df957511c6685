import ReflexOS.ReflexCrypto

set_option autoImplicit false

/-!
# The hash of a stream, and the keyed hash

Whatever the lengths, the context holds the hash of the full blocks of what it was given and the
bytes behind them, and the last blocks are those of the standard's padding.
-/
namespace ReflexOS.Crypto
open SecureHash (Word Words byteAt compress toBits initialHash bytePadding)
open BlockStream

section Buffer
variable {v : Vector UInt8 64} {l : List UInt8}

theorem toList_set (i : ℕ) (b : UInt8) : (v.setIfInBounds i b).toList = v.toList.set i b := by
  rcases v with ⟨v, hv⟩
  simp

theorem prefix_set (h : l <+: v.toList) (hl : l.length < 64) (b : UInt8) :
    l ++ [b] <+: (v.setIfInBounds l.length b).toList := by
  obtain ⟨m, hm⟩ := h
  rw [toList_set, ← hm]
  cases m with
  | nil =>
    have := congrArg List.length hm
    rw [List.append_nil, Vector.length_toList] at this
    omega
  | cons c m =>
    rw [List.set_append_right _ _ le_rfl, Nat.sub_self, List.set_cons_zero]
    exact ⟨m, by simp⟩

theorem prefix_zeros (h : l <+: v.toList) {k : ℕ} (hk : l.length + k ≤ 64) :
    l ++ List.replicate k 0 <+: ((List.range' l.length k).foldl
      (fun buf j => buf.setIfInBounds j 0) v).toList := by
  induction k with
  | zero => simpa using h
  | succ k ih =>
    have hnext := prefix_set (ih (by omega)) (by simp; omega) 0
    rw [List.append_assoc, ← List.replicate_succ', List.length_append, List.length_replicate]
      at hnext
    rwa [List.range'_1_concat, List.foldl_append]

theorem prefix_zeroTo {n : ℕ} (h : l <+: v.toList) (hl : l.length ≤ n) (hn : n ≤ 64) :
    l ++ List.replicate (n - l.length) 0 <+: (zeroTo n v l.length).toList :=
  prefix_zeros h (by omega)

theorem prefix_writes {bytes : List UInt8} (h : l <+: v.toList)
    (hl : l.length + bytes.length ≤ 64) : l ++ bytes <+:
      ((bytes.zipIdx l.length).foldl (fun v w => v.setIfInBounds w.2 w.1) v).toList := by
  induction bytes generalizing l v with
  | nil => simpa using h
  | cons b bytes ih =>
    rw [List.length_cons] at hl
    have hnext := ih (prefix_set h (by omega) b) (by rw [List.length_append]; simp; omega)
    rw [List.append_assoc, List.length_append] at hnext
    exact hnext

theorem eq_of_prefix (h : l <+: v.toList) (hl : l.length = 64) : v.toList = l :=
  (h.eq_of_length (by rw [hl, Vector.length_toList])).symm

end Buffer

/-- The state of the hash behind full blocks. -/
def absorb (H : Words) (blocks : List (List UInt8)) : Words :=
  blocks.foldl (fun H block => compress H (toBits block)) H

theorem absorb_append (H : Words) (l m : List (List UInt8)) :
    absorb H (l ++ m) = absorb (absorb H l) m := List.foldl_append

theorem absorb_block {l : List UInt8} (H : Words) (m : List UInt8) (hl : l.length = 64) :
    absorb H (chunks 64 (l ++ m)) = absorb (compress H (toBits l)) (chunks 64 m) := by
  rw [chunks_block (by decide) hl]
  rfl

theorem absorb_last {l : List UInt8} (H : Words) (hl : l.length = 64) :
    absorb H (chunks 64 l) = compress H (toBits l) := by
  have hblock := absorb_block H [] hl
  rwa [List.append_nil, chunks_nil] at hblock

/-- The context has been given `s` since it was last initialised. -/
structure Absorbed (ctx : Sha256Ctx) (s : List UInt8) : Prop where
  state : ctx.state = absorb initialHash (chunks 64 s)
  bitlen : ctx.bitlen = BitVec.ofNat 64 (512 * (s.length / 64))
  buflen : ctx.buflen = (rest 64 s).length
  buf : rest 64 s <+: ctx.buf.toList

theorem Absorbed.init (ctx : Sha256Ctx) : Absorbed (sha256Init ctx) [] where
  state := by rw [sha256Init_state, chunks_nil]; rfl
  bitlen := rfl
  buflen := rfl
  buf := by rw [rest_nil]; exact List.nil_prefix

theorem length_rest_lt (s : List UInt8) : (rest 64 s).length < 64 := by
  rw [length_rest]
  exact Nat.mod_lt _ (by decide)

theorem updateByte_mk (state : Words) (bitlen : BitVec 64) (buf : Vector UInt8 64) (n : ℕ)
    (b : UInt8) : updateByte ⟨state, bitlen, buf, n⟩ b =
      if n + 1 = 64 then
        ⟨compress state (toBits (buf.setIfInBounds n b).toList), bitlen + 512,
          buf.setIfInBounds n b, 0⟩
      else ⟨state, bitlen, buf.setIfInBounds n b, n + 1⟩ := by
  unfold updateByte
  dsimp only
  rw [sha256Transform_mk]

section Stream
variable {ctx : Sha256Ctx} {s : List UInt8} (h : Absorbed ctx s)
include h

theorem Absorbed.updateByte (b : UInt8) : Absorbed (updateByte ctx b) (s ++ [b]) := by
  obtain ⟨state, bitlen, buf, n⟩ := ctx
  obtain ⟨rfl, rfl, rfl, hbuf⟩ := h
  change rest 64 s <+: buf.toList at hbuf
  have hnext := prefix_set hbuf (length_rest_lt s) b
  have hlen : (s ++ [b]).length = s.length + 1 := List.length_append
  have hmod : (rest 64 s).length = s.length % 64 := length_rest
  rw [updateByte_mk]
  split
  next hfull =>
    obtain ⟨hchunks, hrest⟩ := @push_full _ 64 s b (by decide) hfull
    have hblock := eq_of_prefix hnext (List.length_append.trans hfull)
    constructor
    · rw [hchunks, absorb_append, ← hblock]
      rfl
    · rw [hlen, show 512 * ((s.length + 1) / 64) = 512 * (s.length / 64) + 512 by omega,
        BitVec.ofNat_add]
      rfl
    · rw [hrest]
      rfl
    · rw [hrest]
      exact List.nil_prefix
  next hroom =>
    obtain ⟨hchunks, hrest⟩ := @push_room _ 64 s b (by decide) hroom
    constructor
    · rw [hchunks]
    · rw [hlen, show (s.length + 1) / 64 = s.length / 64 by omega]
    · rw [hrest, List.length_append]
      rfl
    · rw [hrest]
      exact hnext

theorem Absorbed.update (data : List UInt8) : Absorbed (sha256Update ctx data) (s ++ data) := by
  induction data generalizing ctx s with
  | nil => rwa [List.append_nil]
  | cons b data ih =>
    have := ih (h.updateByte b)
    rwa [List.append_assoc] at this

end Stream

section Final

theorem toBits_output (H : Words) : toBits (output H) = SecureHash.digest H := by
  rw [output, toBits, List.flatMap_assoc, SecureHash.digest]
  congr 1
  funext x
  exact (SecureHash.bits_eq_bytes32 x).symm

/-- The buffer of the last block: what stands in front, zeros and the length. -/
theorem toList_putLength {v : Vector UInt8 64} {l : List UInt8} (x : BitVec 64)
    (h : l <+: v.toList) (hl : l.length ≤ 56) :
    (putLength x (zeroTo 56 v l.length)).toList =
      l ++ List.replicate (56 - l.length) 0 ++ [56, 48, 40, 32, 24, 16, 8, 0].map (byteAt x) := by
  have hlen : (l ++ List.replicate (56 - l.length) (0 : UInt8)).length = 56 := by
    rw [List.length_append, List.length_replicate]
    omega
  have hwrites := @prefix_writes _ _ ([56, 48, 40, 32, 24, 16, 8, 0].map (byteAt x))
    (prefix_zeroTo h hl (by decide)) (by rw [hlen]; rfl)
  rw [hlen] at hwrites
  exact eq_of_prefix hwrites (by rw [List.length_append, hlen]; rfl)

theorem sha256Final_mk (state : Words) (bitlen : BitVec 64) (buf : Vector UInt8 64) (n : ℕ) :
    (sha256Final ⟨state, bitlen, buf, n⟩).1 =
      let buf := buf.setIfInBounds n 0x80
      let bitlen := bitlen + BitVec.ofNat 64 (n * 8)
      if 56 < n + 1 then
        let cut := zeroTo 64 buf (n + 1)
        output (compress (compress state (toBits cut.toList))
          (toBits (putLength bitlen (zeroTo 56 cut 0)).toList))
      else output (compress state (toBits (putLength bitlen (zeroTo 56 buf (n + 1))).toList)) := by
  unfold sha256Final
  dsimp only
  split <;> simp only [sha256Transform_mk]

/-- Behind the rest, the padding makes one block where the length finds room in it. -/
theorem rest_padding_one {s : List UInt8} (h : (rest 64 s).length + 1 ≤ 56) :
    rest 64 s ++ bytePadding s.length = (rest 64 s ++ [0x80]) ++
      List.replicate (56 - (rest 64 s ++ [0x80]).length) 0 ++
      [56, 48, 40, 32, 24, 16, 8, 0].map (byteAt (BitVec.ofNat 64 (8 * s.length))) := by
  have hmod : (rest 64 s).length = s.length % 64 := length_rest
  have hzeros : SecureHash.zeroBytes s.length = 56 - (rest 64 s ++ [0x80]).length := by
    rw [SecureHash.zeroBytes, List.length_append, List.length_singleton]
    omega
  rw [bytePadding, hzeros]
  simp only [List.append_assoc, List.cons_append, List.nil_append]

/-- Otherwise it fills the block and makes a second one. -/
theorem rest_padding_two {s : List UInt8} (h : ¬ (rest 64 s).length + 1 ≤ 56) :
    rest 64 s ++ bytePadding s.length = ((rest 64 s ++ [0x80]) ++
      List.replicate (64 - (rest 64 s ++ [0x80]).length) 0) ++
      ([] ++ List.replicate (56 - 0) 0 ++
        [56, 48, 40, 32, 24, 16, 8, 0].map (byteAt (BitVec.ofNat 64 (8 * s.length)))) := by
  have hmod : (rest 64 s).length = s.length % 64 := length_rest
  have hlt := length_rest_lt s
  have hzeros : SecureHash.zeroBytes s.length = (64 - (rest 64 s ++ [0x80]).length) + (56 - 0) := by
    rw [SecureHash.zeroBytes, List.length_append, List.length_singleton]
    omega
  rw [bytePadding, hzeros, ← List.replicate_append_replicate]
  simp only [List.append_assoc, List.cons_append, List.nil_append]

theorem sha256Final_eq {ctx : Sha256Ctx} {s : List UInt8} (h : Absorbed ctx s) :
    (sha256Final ctx).1 = SecureHash.sha256Bytes s := by
  obtain ⟨state, bitlen, buf, n⟩ := ctx
  obtain ⟨rfl, rfl, rfl, hbuf⟩ := h
  change rest 64 s <+: buf.toList at hbuf
  have hlt := length_rest_lt s
  have hmark := prefix_set hbuf hlt 0x80
  have hlen : (rest 64 s ++ [0x80]).length = (rest 64 s).length + 1 := List.length_append
  have hbits : BitVec.ofNat 64 (512 * (s.length / 64)) + BitVec.ofNat 64 ((rest 64 s).length * 8) =
      BitVec.ofNat 64 (8 * s.length) := by
    rw [← BitVec.ofNat_add, length_rest, show 512 * (s.length / 64) + s.length % 64 * 8 =
      8 * s.length by omega]
  symm
  apply SecureHash.sha256Bytes_eq
  rw [sha256Final_mk, SecureHash.sha256_toBits, (append_spec (by decide) _ _).1, ← absorb,
    absorb_append]
  simp only [hbits]
  split
  next htwo =>
    let cut := zeroTo 64 (buf.setIfInBounds (rest 64 s).length 0x80) ((rest 64 s).length + 1)
    have hfull := prefix_zeroTo hmark (by omega) (le_refl 64)
    have hcut := eq_of_prefix hfull
      (by rw [List.length_append, List.length_replicate]; omega)
    have hlast := @toList_putLength cut [] (BitVec.ofNat 64 (8 * s.length)) List.nil_prefix
      (by decide)
    have hpad : rest 64 s ++ bytePadding s.length = cut.toList ++
        (putLength (BitVec.ofNat 64 (8 * s.length)) (zeroTo 56 cut 0)).toList := by
      rw [rest_padding_two (by omega), ← hcut, hlen]
      exact congrArg (cut.toList ++ ·) hlast.symm
    rw [toBits_output, hpad, absorb_block _ _ Vector.length_toList,
      absorb_last _ Vector.length_toList]
  next hone =>
    have hlast := toList_putLength (BitVec.ofNat 64 (8 * s.length)) hmark (by omega)
    have hpad := (rest_padding_one (by omega)).trans hlast.symm
    rw [hlen] at hpad
    rw [toBits_output, hpad, absorb_last _ Vector.length_toList]

theorem sha256_eq (ctx : Sha256Ctx) (message : List UInt8) :
    (sha256Final (sha256Update (sha256Init ctx) message)).1 = SecureHash.sha256Bytes message :=
  sha256Final_eq ((Absorbed.init ctx).update message)

end Final

section Keyed

/-- The key over the fill, as far as the loop has come. -/
theorem keyPad_loop {fill : UInt8} {key : List UInt8} (hkey : key.length ≤ 64) {n : ℕ}
    (hn : n ≤ key.length) : ((List.range n).foldl (fun (pad : Vector UInt8 64) i =>
      pad.setIfInBounds i (pad.getD i 0 ^^^ key.getD i 0)) (.replicate 64 fill)).toList =
      (key.take n).map (· ^^^ fill) ++ List.replicate (64 - n) fill := by
  induction n with
  | zero => rfl
  | succ n ih =>
    have ih := ih (by omega)
    have hlen : ((key.take n).map (· ^^^ fill)).length = n := by
      rw [List.length_map, List.length_take]
      omega
    have hroom : List.replicate (64 - n) fill = fill :: List.replicate (64 - (n + 1)) fill := by
      rw [show 64 - n = 64 - (n + 1) + 1 by omega, List.replicate_succ]
    rw [hroom] at ih
    have hat : key.getD n 0 = key[n] := by
      rw [List.getD_eq_getElem?_getD, List.getElem?_eq_getElem (by omega), Option.getD_some]
    rw [List.range_succ, List.foldl_append, List.foldl_cons, List.foldl_nil, toList_set,
      getD_toList, ih, List.set_append_right _ _ hlen.le, hlen, Nat.sub_self, List.set_cons_zero,
      List.getD_eq_getElem?_getD, List.getElem?_append_right hlen.le, hlen, Nat.sub_self, hat,
      List.take_succ_eq_append_getElem (by omega), List.map_append, List.append_assoc]
    simp [UInt8.xor_comm]

theorem keyPad_eq {fill : UInt8} {key : List UInt8} (hkey : key.length ≤ 64) :
    keyPad fill key = (key ++ List.replicate (64 - key.length) 0).map (· ^^^ fill) := by
  rw [keyPad, keyPad_loop hkey le_rfl, List.take_length, List.map_append, List.map_replicate,
    UInt8.zero_xor]

theorem length_sha256Final (ctx : Sha256Ctx) : (sha256Final ctx).1.length = 32 := by
  simp [sha256Final, output]

theorem sha256_pieces (ctx : Sha256Ctx) (l m : List UInt8) :
    (sha256Final (sha256Update (sha256Update (sha256Init ctx) l) m)).1 =
      SecureHash.sha256Bytes (l ++ m) :=
  sha256Final_eq (((Absorbed.init ctx).update l).update m)

/-- The keyed hash is that of the standards, for every key and every message. -/
theorem reflexHmacSha256_eq (ctx : Sha256Ctx) (key data : List UInt8) :
    reflexHmacSha256 ctx key data =
      (Err.ok, SecureHash.hmac SecureHash.sha256Bytes 64 key data) := by
  unfold reflexHmacSha256 SecureHash.hmac
  by_cases hlong : 64 < key.length
  · have hshort : (SecureHash.sha256Bytes key).length ≤ 64 := by
      rw [← sha256_eq ctx, length_sha256Final]
      decide
    simp only [if_pos hlong, sha256_pieces, keyPad_eq hshort, sha256_eq]
  · simp only [if_neg hlong, sha256_pieces, keyPad_eq (not_lt.mp hlong)]

end Keyed

end ReflexOS.Crypto
