import Mathlib.Data.List.Basic
import ReflexOS.SecureHash
import ReflexOS.Types

set_option autoImplicit false

/-!
# The hash of the platform layer

SHA-256 over a buffer of one block, and the keyed hash over it.
-/
namespace ReflexOS.Crypto
open SecureHash (Word Words byteAt)

def K : List Word :=
  [0x428a2f98, 0x71374491, 0xb5c0fbcf, 0xe9b5dba5, 0x3956c25b, 0x59f111f1, 0x923f82a4, 0xab1c5ed5,
   0xd807aa98, 0x12835b01, 0x243185be, 0x550c7dc3, 0x72be5d74, 0x80deb1fe, 0x9bdc06a7, 0xc19bf174,
   0xe49b69c1, 0xefbe4786, 0x0fc19dc6, 0x240ca1cc, 0x2de92c6f, 0x4a7484aa, 0x5cb0a9dc, 0x76f988da,
   0x983e5152, 0xa831c66d, 0xb00327c8, 0xbf597fc7, 0xc6e00bf3, 0xd5a79147, 0x06ca6351, 0x14292967,
   0x27b70a85, 0x2e1b2138, 0x4d2c6dfc, 0x53380d13, 0x650a7354, 0x766a0abb, 0x81c2c92e, 0x92722c85,
   0xa2bfe8a1, 0xa81a664b, 0xc24b8b70, 0xc76c51a3, 0xd192e819, 0xd6990624, 0xf40e3585, 0x106aa070,
   0x19a4c116, 0x1e376c08, 0x2748774c, 0x34b0bcb5, 0x391c0cb3, 0x4ed8aa4a, 0x5b9cca4f, 0x682e6ff3,
   0x748f82ee, 0x78a5636f, 0x84c87814, 0x8cc70208, 0x90befffa, 0xa4506ceb, 0xbef9a3f7, 0xc67178f2]

def rr (x : Word) (n : ℕ) : Word := x >>> n ||| x <<< (32 - n)
def ch (x y z : Word) : Word := (x &&& y) ^^^ (~~~x &&& z)
def maj (x y z : Word) : Word := (x &&& y) ^^^ (x &&& z) ^^^ (y &&& z)
def ep0 (x : Word) : Word := rr x 2 ^^^ rr x 13 ^^^ rr x 22
def ep1 (x : Word) : Word := rr x 6 ^^^ rr x 11 ^^^ rr x 25
def sig0 (x : Word) : Word := rr x 7 ^^^ rr x 18 ^^^ x >>> 3
def sig1 (x : Word) : Word := rr x 17 ^^^ rr x 19 ^^^ x >>> 10

structure Sha256Ctx where
  state : Words
  bitlen : BitVec 64
  buf : Vector UInt8 64
  buflen : ℕ

def loadWord (buf : Vector UInt8 64) (i : ℕ) : Word :=
  let byte (k : ℕ) : Word := (buf.getD k 0).toBitVec.setWidth 32
  byte (i * 4) <<< 24 ||| byte (i * 4 + 1) <<< 16 ||| byte (i * 4 + 2) <<< 8 ||| byte (i * 4 + 3)

/-- The words of the rounds, in an array that starts as anything. -/
def expand (buf : Vector UInt8 64) (w : Vector Word 64) : Vector Word 64 :=
  let w := (List.range 16).foldl (fun w i => w.setIfInBounds i (loadWord buf i)) w
  (List.range' 16 48).foldl (fun w i => w.setIfInBounds i
    (sig1 (w.getD (i - 2) 0) + w.getD (i - 7) 0 + sig0 (w.getD (i - 15) 0) + w.getD (i - 16) 0)) w

def round (w : Vector Word 64) (s : Words) (i : ℕ) : Words :=
  let t1 := s.h + ep1 s.e + ch s.e s.f s.g + K.getD i 0 + w.getD i 0
  let t2 := ep0 s.a + maj s.a s.b s.c
  ⟨t1 + t2, s.a, s.b, s.c, s.d + t1, s.e, s.f, s.g⟩

def transformState (buf : Vector UInt8 64) (state : Words) : Words :=
  let s := (List.range 64).foldl (round (expand buf (.replicate 64 0))) state
  ⟨state.a + s.a, state.b + s.b, state.c + s.c, state.d + s.d, state.e + s.e, state.f + s.f,
    state.g + s.g, state.h + s.h⟩

def sha256Transform (ctx : Sha256Ctx) : Sha256Ctx :=
  { ctx with state := transformState ctx.buf ctx.state }

/-- What the context held before stays in its buffer. -/
def sha256Init (ctx : Sha256Ctx) : Sha256Ctx :=
  { ctx with
    state := ⟨0x6a09e667, 0xbb67ae85, 0x3c6ef372, 0xa54ff53a, 0x510e527f, 0x9b05688c, 0x1f83d9ab,
      0x5be0cd19⟩
    bitlen := 0
    buflen := 0 }

def updateByte (ctx : Sha256Ctx) (b : UInt8) : Sha256Ctx :=
  let ctx := { ctx with buf := ctx.buf.setIfInBounds ctx.buflen b, buflen := ctx.buflen + 1 }
  if ctx.buflen = 64 then
    let ctx := sha256Transform ctx
    { ctx with bitlen := ctx.bitlen + 512, buflen := 0 }
  else ctx

def sha256Update (ctx : Sha256Ctx) (data : List UInt8) : Sha256Ctx := data.foldl updateByte ctx

/-- `while (i < n) buf[i++] = 0` -/
def zeroTo (n : ℕ) (buf : Vector UInt8 64) (i : ℕ) : Vector UInt8 64 :=
  (List.range' i (n - i)).foldl (fun buf j => buf.setIfInBounds j 0) buf

def putLength (bitlen : BitVec 64) (buf : Vector UInt8 64) : Vector UInt8 64 :=
  [7, 6, 5, 4, 3, 2, 1, 0].foldl
    (fun buf j => buf.setIfInBounds (56 + (7 - j)) (byteAt bitlen (j * 8))) buf

def output (s : Words) : List UInt8 :=
  [s.a, s.b, s.c, s.d, s.e, s.f, s.g, s.h].flatMap fun x => [24, 16, 8, 0].map (byteAt x)

def sha256Final (ctx : Sha256Ctx) : List UInt8 × Sha256Ctx :=
  let ctx := { ctx with buf := ctx.buf.setIfInBounds ctx.buflen 0x80 }
  let i := ctx.buflen + 1
  let cut :=
    if 56 < i then (sha256Transform { ctx with buf := zeroTo 64 ctx.buf i }, 0) else (ctx, i)
  let ctx := { cut.1 with
    buf := zeroTo 56 cut.1.buf cut.2
    bitlen := cut.1.bitlen + BitVec.ofNat 64 (cut.1.buflen * 8) }
  let ctx := sha256Transform { ctx with buf := putLength ctx.bitlen ctx.buf }
  (output ctx.state, ctx)

/-- `memset(k_pad, fill, 64)`, with the key over it. -/
def keyPad (fill : UInt8) (key : List UInt8) : List UInt8 :=
  ((List.range key.length).foldl (fun (pad : Vector UInt8 64) i =>
    pad.setIfInBounds i (pad.getD i 0 ^^^ key.getD i 0)) (.replicate 64 fill)).toList

/-- `ctx` is what the stack holds. -/
def reflexHmacSha256 (ctx : Sha256Ctx) (key data : List UInt8) : Err × List UInt8 :=
  let used :=
    if 64 < key.length then sha256Final (sha256Update (sha256Init ctx) key) else (key, ctx)
  let inner := sha256Final
    (sha256Update (sha256Update (sha256Init used.2) (keyPad 0x36 used.1)) data)
  let outer := sha256Final
    (sha256Update (sha256Update (sha256Init inner.2) (keyPad 0x5c used.1)) inner.1)
  (.ok, outer.1)

section Vectors
variable {α : Type*} {n : ℕ}

theorem getD_set (v : Vector α n) (i j : ℕ) (x d : α) :
    (v.setIfInBounds i x).getD j d = if i = j ∧ i < n then x else v.getD j d := by
  have hget : ∀ v : Vector α n, v.getD j d = v[j]?.getD d := by
    intro v
    rcases v with ⟨v, rfl⟩
    simp [Vector.getD]
  rw [hget, hget, Vector.getElem?_setIfInBounds]
  by_cases hij : i = j
  · subst hij
    by_cases hi : i < n <;> simp [hi]
  · simp [hij]

end Vectors

section Macros
variable (x y z : Word)

theorem rr_eq {n : ℕ} (hn : n < 32) : rr x n = x.rotateRight n := by
  rw [BitVec.rotateRight_def, Nat.mod_eq_of_lt hn]
  rfl

theorem ep0_eq : ep0 x = SecureHash.bigSigma0 x := by
  simp (disch := decide) only [ep0, SecureHash.bigSigma0, rr_eq]

theorem ep1_eq : ep1 x = SecureHash.bigSigma1 x := by
  simp (disch := decide) only [ep1, SecureHash.bigSigma1, rr_eq]

theorem sig0_eq : sig0 x = SecureHash.smallSigma0 x := by
  simp (disch := decide) only [sig0, SecureHash.smallSigma0, rr_eq]

theorem sig1_eq : sig1 x = SecureHash.smallSigma1 x := by
  simp (disch := decide) only [sig1, SecureHash.smallSigma1, rr_eq]

end Macros

/-- A table holds the fractions of roots when each entry fits behind some whole part. -/
theorem table_eq {n k : ℕ} {table : List Word} (h : ∀ t < k, ∃ a < 20,
      (a * 2 ^ 32 + (table.getD t 0).toNat) ^ n ≤ SecureHash.primes.getD t 0 * 2 ^ (32 * n) ∧
      SecureHash.primes.getD t 0 * 2 ^ (32 * n) < (a * 2 ^ 32 + (table.getD t 0).toNat + 1) ^ n)
    {t : ℕ} (ht : t < k) :
    SecureHash.rootFraction n (SecureHash.primes.getD t 0) = table.getD t 0 := by
  obtain ⟨a, -, hlow, hhigh⟩ := h t ht
  exact SecureHash.rootFraction_eq hlow hhigh

theorem K_eq {t : ℕ} (ht : t < 64) : SecureHash.constant t = K.getD t 0 := by
  refine @table_eq 3 64 K ?_ t ht
  rw [SecureHash.primes_eq]
  decide +kernel

theorem sha256Init_state (ctx : Sha256Ctx) : (sha256Init ctx).state = SecureHash.initialHash := by
  have hroot : ∀ {t : ℕ}, t < 8 → SecureHash.rootFraction 2 (SecureHash.primes.getD t 0) =
      [0x6a09e667, 0xbb67ae85, 0x3c6ef372, 0xa54ff53a, 0x510e527f, 0x9b05688c, 0x1f83d9ab,
        0x5be0cd19].getD t 0 := by
    refine table_eq ?_
    rw [SecureHash.primes_eq]
    decide +kernel
  symm
  apply Words.ext
  · exact @hroot 0 (by decide)
  · exact @hroot 1 (by decide)
  · exact @hroot 2 (by decide)
  · exact @hroot 3 (by decide)
  · exact @hroot 4 (by decide)
  · exact @hroot 5 (by decide)
  · exact @hroot 6 (by decide)
  · exact @hroot 7 (by decide)

section Transform
variable (buf : Vector UInt8 64)

theorem take_four {l : List UInt8} {k : ℕ} (h : k + 4 ≤ l.length) :
    (l.drop k).take 4 = [l.getD k 0, l.getD (k + 1) 0, l.getD (k + 2) 0, l.getD (k + 3) 0] := by
  have hdrop : ∀ i < l.length, l.drop i = l.getD i 0 :: l.drop (i + 1) := by
    intro i hi
    rw [List.drop_eq_getElem_cons hi, List.getD_eq_getElem?_getD, List.getElem?_eq_getElem hi,
      Option.getD_some]
  rw [hdrop k (by omega), hdrop (k + 1) (by omega), hdrop (k + 1 + 1) (by omega),
    hdrop (k + 1 + 1 + 1) (by omega)]
  rfl

theorem toNat_bytes (b0 b1 b2 b3 : UInt8) :
    (b0.toBitVec.setWidth 32 <<< 24 ||| b1.toBitVec.setWidth 32 <<< 16 |||
      b2.toBitVec.setWidth 32 <<< 8 ||| b3.toBitVec.setWidth 32).toNat =
    256 * (256 * (256 * b0.toNat + b1.toNat) + b2.toNat) + b3.toNat := by
  have h0 := b0.toNat_lt
  have h1 := b1.toNat_lt
  have h2 := b2.toNat_lt
  have h3 := b3.toNat_lt
  have hor : ∀ k a b : ℕ, b < 2 ^ k → 2 ^ k * a ||| b = 2 ^ k * a + b :=
    fun k a b hb => (Nat.two_pow_add_eq_or_of_lt hb a).symm
  have hshift : ∀ (b : UInt8) (k : ℕ), k ≤ 24 →
      (b.toBitVec.setWidth 32 <<< k).toNat = 2 ^ k * b.toNat := by
    intro b k hk
    have hb := b.toNat_lt
    have hpow : 2 ^ k ≤ 2 ^ 24 := Nat.pow_le_pow_right (by decide) hk
    have hlt : b.toNat * 2 ^ k < 2 ^ 32 := by
      calc b.toNat * 2 ^ k ≤ 255 * 2 ^ 24 := Nat.mul_le_mul (by omega) hpow
        _ < 2 ^ 32 := by decide
    rw [BitVec.toNat_shiftLeft, BitVec.toNat_setWidth, UInt8.toNat_toBitVec,
      Nat.mod_eq_of_lt (by omega : b.toNat < 2 ^ 32), Nat.shiftLeft_eq, Nat.mod_eq_of_lt hlt,
      Nat.mul_comm]
  have hlast : (b3.toBitVec.setWidth 32).toNat = b3.toNat := by
    rw [BitVec.toNat_setWidth, UInt8.toNat_toBitVec, Nat.mod_eq_of_lt (by omega)]
  rw [BitVec.toNat_or, BitVec.toNat_or, BitVec.toNat_or, hshift _ _ (by decide),
    hshift _ _ (by decide), hshift _ _ (by decide), hlast, hor 24 _ _ (by omega),
    show 2 ^ 24 * b0.toNat + 2 ^ 16 * b1.toNat = 2 ^ 16 * (256 * b0.toNat + b1.toNat) by ring,
    hor 16 _ _ (by omega),
    show 2 ^ 16 * (256 * b0.toNat + b1.toNat) + 2 ^ 8 * b2.toNat =
      2 ^ 8 * (256 * (256 * b0.toNat + b1.toNat) + b2.toNat) by ring,
    hor 8 _ _ (by omega)]
  rfl

theorem getD_toList (i : ℕ) : buf.getD i 0 = buf.toList.getD i 0 := by
  rcases buf with ⟨buf, h⟩
  simp [Vector.getD]

theorem loadWord_eq {i : ℕ} (hi : i < 16) :
    loadWord buf i = SecureHash.word (SecureHash.toBits buf.toList) i := by
  have hk : i * 4 + 4 ≤ buf.toList.length := by
    rw [Vector.length_toList]
    omega
  apply BitVec.eq_of_toNat_eq
  rw [SecureHash.word, show 32 * i = 8 * (i * 4) by ring, SecureHash.toBits,
    BlockStream.drop_flatMap SecureHash.length_byteBits,
    BlockStream.take_flatMap SecureHash.length_byteBits 4, ← SecureHash.toBits,
    SecureHash.number_toBits, take_four hk]
  simp only [← getD_toList, loadWord, toNat_bytes, List.foldl_cons, List.foldl_nil]
  have h0 := (buf.getD (i * 4) 0).toNat_lt
  have h1 := (buf.getD (i * 4 + 1) 0).toNat_lt
  have h2 := (buf.getD (i * 4 + 2) 0).toNat_lt
  have h3 := (buf.getD (i * 4 + 3) 0).toNat_lt
  rw [BitVec.toNat_ofNat, Nat.mod_eq_of_lt (by omega)]
  omega

/-- The first loop sets the words of the block. -/
theorem expand_head (w : Vector Word 64) {n : ℕ} (hn : n ≤ 16) :
    ∀ t < n, ((List.range n).foldl (fun w i => w.setIfInBounds i (loadWord buf i)) w).getD t 0 =
      loadWord buf t := by
  induction n with
  | zero => exact fun t ht => absurd ht (Nat.not_lt_zero t)
  | succ n ih =>
    intro t ht
    rw [List.range_succ, List.foldl_append, List.foldl_cons, List.foldl_nil, getD_set]
    by_cases htn : n = t
    · rw [if_pos ⟨htn, by omega⟩, htn]
    · rw [if_neg fun h => htn h.1]
      exact ih (by omega) t (by omega)

theorem expand_tail {M : ℕ → Word} {w : Vector Word 64} {n : ℕ} (hn : n ≤ 48)
    (hw : ∀ t < 16, w.getD t 0 = M t) :
    ∀ t < 16 + n, ((List.range' 16 n).foldl (fun w i => w.setIfInBounds i
      (sig1 (w.getD (i - 2) 0) + w.getD (i - 7) 0 + sig0 (w.getD (i - 15) 0) + w.getD (i - 16) 0))
        w).getD t 0 = SecureHash.schedule M t := by
  induction n with
  | zero =>
    intro t ht
    rw [SecureHash.schedule_first ht]
    exact hw t ht
  | succ n ih =>
    intro t ht
    have ih := ih (by omega)
    rw [List.range'_1_concat, List.foldl_append, List.foldl_cons, List.foldl_nil, getD_set]
    by_cases htn : 16 + n = t
    · rw [if_pos ⟨htn, by omega⟩, htn, ih _ (by omega), ih _ (by omega), ih _ (by omega),
        ih _ (by omega), sig0_eq, sig1_eq, SecureHash.schedule_next (t := t) (by omega)]
    · rw [if_neg fun h => htn h.1]
      exact ih t (by omega)

theorem expand_eq (w : Vector Word 64) {t : ℕ} (ht : t < 64) : (expand buf w).getD t 0 =
    SecureHash.schedule (SecureHash.word (SecureHash.toBits buf.toList)) t :=
  expand_tail le_rfl (fun t ht => (expand_head buf w le_rfl t ht).trans (loadWord_eq buf ht)) t ht

theorem round_eq {w : Vector Word 64} {W : ℕ → Word} (s : Words) {t : ℕ} (ht : t < 64)
    (hw : w.getD t 0 = W t) : round w s t = SecureHash.round W s t := by
  rw [round, hw, ep0_eq, ep1_eq, ← K_eq ht]
  rfl

theorem transformState_eq (state : Words) :
    transformState buf state = SecureHash.compress state (SecureHash.toBits buf.toList) := by
  have hrounds := List.foldl_ext _ _ state fun s t ht =>
    round_eq s (List.mem_range.mp ht) (expand_eq buf (.replicate 64 0) (List.mem_range.mp ht))
  unfold transformState SecureHash.compress
  rw [hrounds]
  apply Words.ext <;> exact BitVec.add_comm _ _

theorem sha256Transform_mk (state : Words) (bitlen : BitVec 64) (buflen : ℕ) :
    sha256Transform ⟨state, bitlen, buf, buflen⟩ =
      ⟨SecureHash.compress state (SecureHash.toBits buf.toList), bitlen, buf, buflen⟩ :=
  congrArg (Sha256Ctx.mk · bitlen buf buflen) (transformState_eq buf state)

end Transform

end ReflexOS.Crypto
