import Mathlib.Analysis.SpecialFunctions.Pow.NthRootLemmas
import Mathlib.Data.Nat.Prime.Basic
import ReflexOS.BlockStream

set_option autoImplicit false

/-!
# SHA-256 and HMAC

The secure hash of FIPS 180-4 over messages of bits, and the keyed hash of RFC 2104 over any hash of
bytes.
-/
namespace SecureHash
open BlockStream

abbrev Word := BitVec 32

/-- The working variables, or the words of a hash value. -/
@[ext] structure Words where
  a : Word
  b : Word
  c : Word
  d : Word
  e : Word
  f : Word
  g : Word
  h : Word

def ch (x y z : Word) : Word := (x &&& y) ^^^ (~~~x &&& z)
def maj (x y z : Word) : Word := (x &&& y) ^^^ (x &&& z) ^^^ (y &&& z)
def bigSigma0 (x : Word) : Word := x.rotateRight 2 ^^^ x.rotateRight 13 ^^^ x.rotateRight 22
def bigSigma1 (x : Word) : Word := x.rotateRight 6 ^^^ x.rotateRight 11 ^^^ x.rotateRight 25
def smallSigma0 (x : Word) : Word := x.rotateRight 7 ^^^ x.rotateRight 18 ^^^ x >>> 3
def smallSigma1 (x : Word) : Word := x.rotateRight 17 ^^^ x.rotateRight 19 ^^^ x >>> 10

/-- The first bits of the fractional part of the `n`th root of `p`. -/
def rootFraction (n p : ℕ) : Word := BitVec.ofNat 32 (Nat.nthRoot n (p * 2 ^ (32 * n)))

/-- The first sixty-four primes. -/
def primes : List ℕ := (List.range 312).filter fun p => decide p.Prime

/-- A divisor below the square root is all that a number this small has to be tried for. -/
theorem prime_iff_small {p : ℕ} (hp : p < 312) :
    p.Prime ↔ 2 ≤ p ∧ ∀ m < 18, 2 ≤ m → m < p → ¬ m ∣ p := by
  constructor
  · intro h
    refine ⟨h.two_le, fun m _ hm hlt hdvd => ?_⟩
    rcases (Nat.dvd_prime h).mp hdvd with rfl | rfl <;> omega
  · rintro ⟨htwo, hnone⟩
    by_contra hp'
    have hsq : p.minFac ^ 2 ≤ p := Nat.minFac_sq_le_self (by omega) hp'
    have hmin : 2 ≤ p.minFac := (Nat.minFac_prime (by omega)).two_le
    have hlt : p.minFac < 18 := by nlinarith only [hsq, hp]
    exact hnone _ hlt hmin (by nlinarith only [hsq, hmin]) (Nat.minFac_dvd p)

theorem primes_eq : primes =
    [2, 3, 5, 7, 11, 13, 17, 19, 23, 29, 31, 37, 41, 43, 47, 53, 59, 61, 67, 71, 73, 79, 83, 89, 97,
      101, 103, 107, 109, 113, 127, 131, 137, 139, 149, 151, 157, 163, 167, 173, 179, 181, 191, 193,
      197, 199, 211, 223, 227, 229, 233, 239, 241, 251, 257, 263, 269, 271, 277, 281, 283, 293, 307,
      311] := by
  have hsmall : primes = (List.range 312).filter fun p =>
      decide (2 ≤ p ∧ ∀ m < 18, 2 ≤ m → m < p → ¬ m ∣ p) :=
    List.filter_congr fun p hp => decide_eq_decide.mpr (prime_iff_small (List.mem_range.mp hp))
  rw [hsmall]
  decide +kernel

/-- A word is the fraction behind the whole part `a`. -/
theorem rootFraction_eq {n p a : ℕ} {x : Word}
    (hlow : (a * 2 ^ 32 + x.toNat) ^ n ≤ p * 2 ^ (32 * n))
    (hhigh : p * 2 ^ (32 * n) < (a * 2 ^ 32 + x.toNat + 1) ^ n) : rootFraction n p = x := by
  rw [rootFraction, Nat.nthRoot_eq_of_le_of_lt hlow hhigh]
  apply BitVec.eq_of_toNat_eq
  rw [BitVec.toNat_ofNat, Nat.mul_add_mod_self_right, Nat.mod_eq_of_lt x.isLt]

def constant (t : ℕ) : Word := rootFraction 3 (primes.getD t 0)

def initialHash : Words :=
  let root (i : ℕ) : Word := rootFraction 2 (primes.getD i 0)
  ⟨root 0, root 1, root 2, root 3, root 4, root 5, root 6, root 7⟩

theorem exists_zeros (length : ℕ) : ∃ k, (length + 1 + k) % 512 = 448 :=
  ⟨(512 + 447 - length % 512) % 512, by omega⟩

/-- As many as leave room for the length at the end of a block, and no more. -/
def zeros (length : ℕ) : ℕ := Nat.find (exists_zeros length)

/-- The bits of a word, the highest first. -/
def bits {w : ℕ} (x : BitVec w) : List Bool := (List.range w).map x.getMsbD

def pad (message : List Bool) : List Bool :=
  message ++ true :: List.replicate (zeros message.length) false ++
    bits (BitVec.ofNat 64 message.length)

/-- The number that bits spell, the highest bit first. -/
def number (bits : List Bool) : ℕ := bits.foldl (fun n b => 2 * n + b.toNat) 0

def word (block : List Bool) (j : ℕ) : Word :=
  BitVec.ofNat 32 (number ((block.drop (32 * j)).take 32))

def schedule (M : ℕ → Word) (t : ℕ) : Word :=
  if t < 16 then M t
  else smallSigma1 (schedule M (t - 2)) + schedule M (t - 7) + smallSigma0 (schedule M (t - 15)) +
    schedule M (t - 16)

theorem schedule_first {M : ℕ → Word} {t : ℕ} (ht : t < 16) : schedule M t = M t := by
  rw [schedule, if_pos ht]

theorem schedule_next {M : ℕ → Word} {t : ℕ} (ht : 16 ≤ t) :
    schedule M t = smallSigma1 (schedule M (t - 2)) + schedule M (t - 7) +
      smallSigma0 (schedule M (t - 15)) + schedule M (t - 16) := by
  rw [schedule, if_neg (by omega)]

def round (W : ℕ → Word) (s : Words) (t : ℕ) : Words :=
  let t1 := s.h + bigSigma1 s.e + ch s.e s.f s.g + constant t + W t
  let t2 := bigSigma0 s.a + maj s.a s.b s.c
  ⟨t1 + t2, s.a, s.b, s.c, s.d + t1, s.e, s.f, s.g⟩

def compress (H : Words) (block : List Bool) : Words :=
  let s := (List.range 64).foldl (round (schedule (word block))) H
  ⟨s.a + H.a, s.b + H.b, s.c + H.c, s.d + H.d, s.e + H.e, s.f + H.f, s.g + H.g, s.h + H.h⟩

def digest (H : Words) : List Bool :=
  [H.a, H.b, H.c, H.d, H.e, H.f, H.g, H.h].flatMap bits

def sha256 (message : List Bool) : List Bool :=
  digest ((chunks 512 (pad message)).foldl compress initialHash)

def byteBits (b : UInt8) : List Bool := bits b.toBitVec

def toBits (bytes : List UInt8) : List Bool := bytes.flatMap byteBits

def ofBits (bits : List Bool) : List UInt8 :=
  (chunks 8 bits).map fun byte => UInt8.ofNat (number byte)

/-- The hash of a message of whole bytes. -/
def sha256Bytes (message : List UInt8) : List UInt8 := ofBits (sha256 (toBits message))

/-- A hash with blocks of `B` bytes, keyed. -/
def hmac (H : List UInt8 → List UInt8) (B : ℕ) (key text : List UInt8) : List UInt8 :=
  let short := if B < key.length then H key else key
  let block := short ++ List.replicate (B - short.length) 0
  H (block.map (· ^^^ 0x5c) ++ H (block.map (· ^^^ 0x36) ++ text))

section Bytes

@[simp] theorem length_byteBits (b : UInt8) : (byteBits b).length = 8 := by
  simp [byteBits, bits]

theorem foldl_number (bits : List Bool) (n : ℕ) :
    bits.foldl (fun n b => 2 * n + b.toNat) n = n * 2 ^ bits.length + number bits := by
  unfold number
  induction bits generalizing n with
  | nil => simp
  | cons b bits ih =>
    rw [List.foldl_cons, List.foldl_cons, ih, ih (2 * 0 + b.toNat), List.length_cons]
    ring

theorem number_byteBits (b : UInt8) : number (byteBits b) = b.toNat := by
  have hall : ∀ x : BitVec 8, number (bits x) = x.toNat := by
    decide +kernel
  exact hall b.toBitVec

theorem number_toBits (bytes : List UInt8) :
    number (toBits bytes) = bytes.foldl (fun n b => 256 * n + b.toNat) 0 := by
  have hfrom : ∀ n, (toBits bytes).foldl (fun n b => 2 * n + b.toNat) n =
      bytes.foldl (fun n b => 256 * n + b.toNat) n := by
    induction bytes with
    | nil => exact fun n => rfl
    | cons b bytes ih =>
      intro n
      rw [toBits, List.flatMap_cons, List.foldl_append, foldl_number (byteBits b),
        length_byteBits, number_byteBits, List.foldl_cons, ← ih, Nat.mul_comm]
      rfl
  exact hfrom 0

theorem chunks_toBits (n : ℕ) (bytes : List UInt8) :
    chunks (8 * n) (toBits bytes) = (chunks n bytes).map toBits :=
  chunks_flatMap (by decide) length_byteBits n bytes

theorem chunks_one (bytes : List UInt8) : chunks 1 bytes = bytes.map fun b => [b] := by
  induction bytes with
  | nil => rfl
  | cons b bytes ih =>
    exact (@chunks_block _ 1 [b] bytes Nat.one_pos rfl).trans (congrArg ([b] :: ·) ih)

theorem ofBits_toBits (bytes : List UInt8) : ofBits (toBits bytes) = bytes := by
  rw [ofBits, chunks_toBits 1, chunks_one, List.map_map, List.map_map]
  refine (List.map_congr_left fun b _ => ?_).trans (List.map_id bytes)
  change UInt8.ofNat (number (toBits [b])) = b
  rw [number_toBits, List.foldl_cons, List.foldl_nil, Nat.mul_zero, Nat.zero_add]
  exact UInt8.ofNat_toNat

theorem zeros_eq {length k : ℕ} (hk : k < 512) (h : (length + 1 + k) % 512 = 448) :
    zeros length = k := by
  refine (Nat.find_eq_iff _).mpr ⟨h, fun j hj => ?_⟩
  omega

def zeroBytes (length : ℕ) : ℕ := (64 + 55 - length % 64) % 64

/-- The byte of a word that `s` bits stand behind. -/
def byteAt {w : ℕ} (x : BitVec w) (s : ℕ) : UInt8 := ⟨(x >>> s).setWidth 8⟩

theorem byteBits_byteAt {w s : ℕ} (x : BitVec w) :
    byteBits (byteAt x s) = (List.range 8).map fun i => x.getLsbD (s + (7 - i)) := by
  refine List.map_congr_left fun i hi => ?_
  have hi := List.mem_range.mp hi
  simp [byteAt, BitVec.getMsbD, hi, show 7 - i < 8 by omega]

theorem bits_eq_bytes64 (x : BitVec 64) :
    bits x = toBits ([56, 48, 40, 32, 24, 16, 8, 0].map (byteAt x)) := by
  simp only [toBits, List.map_cons, List.map_nil, List.flatMap_cons, List.flatMap_nil,
    byteBits_byteAt]
  rfl

theorem bits_eq_bytes32 (x : Word) : bits x = toBits ([24, 16, 8, 0].map (byteAt x)) := by
  simp only [toBits, List.map_cons, List.map_nil, List.flatMap_cons, List.flatMap_nil,
    byteBits_byteAt]
  rfl

/-- The padding of a message of whole bytes. -/
def bytePadding (length : ℕ) : List UInt8 :=
  0x80 :: List.replicate (zeroBytes length) 0 ++
    [56, 48, 40, 32, 24, 16, 8, 0].map (byteAt (BitVec.ofNat 64 (8 * length)))

theorem toBits_append (l m : List UInt8) : toBits (l ++ m) = toBits l ++ toBits m :=
  List.flatMap_append

theorem length_toBits (bytes : List UInt8) : (toBits bytes).length = 8 * bytes.length :=
  length_flatMap_const length_byteBits bytes

theorem toBits_zeros (k : ℕ) : toBits (List.replicate k 0) = List.replicate (8 * k) false := by
  induction k with
  | zero => rfl
  | succ k ih =>
    rw [List.replicate_succ, toBits, List.flatMap_cons, ← toBits, ih, Nat.mul_add_one, Nat.add_comm,
      ← List.replicate_append_replicate]
    rfl

theorem toBits_bytePadding (length : ℕ) : toBits (bytePadding length) =
    true :: List.replicate (7 + 8 * zeroBytes length) false ++
      bits (BitVec.ofNat 64 (8 * length)) := by
  rw [bytePadding, toBits_append, bits_eq_bytes64]
  congr 1
  rw [toBits, List.flatMap_cons, ← toBits, toBits_zeros, ← List.replicate_append_replicate]
  rfl

theorem pad_toBits (message : List UInt8) :
    pad (toBits message) = toBits (message ++ bytePadding message.length) := by
  have hzeros : zeros (8 * message.length) = 7 + 8 * zeroBytes message.length := by
    apply zeros_eq <;> simp only [zeroBytes] <;> omega
  rw [pad, length_toBits, hzeros, toBits_append, toBits_bytePadding, List.append_assoc]

/-- The hash of bytes is taken over blocks of sixty-four of them. -/
theorem sha256_toBits (message : List UInt8) : sha256 (toBits message) =
    digest ((chunks 64 (message ++ bytePadding message.length)).foldl
      (fun H block => compress H (toBits block)) initialHash) := by
  rw [sha256, pad_toBits, chunks_toBits 64, List.foldl_map]

theorem sha256Bytes_eq {message out : List UInt8} (h : toBits out = sha256 (toBits message)) :
    sha256Bytes message = out := by
  rw [sha256Bytes, ← h, ofBits_toBits]

end Bytes

end SecureHash
