import Mathlib.Data.List.Basic
import Mathlib.Data.List.Flatten
import Mathlib.Tactic.Common

set_option autoImplicit false

/-!
# Bytes as hexadecimal text

Two lower-case digits for each byte, and the reader that takes either case.
-/
namespace HexText

def digit (n : ℕ) : UInt8 := UInt8.ofNat (if n < 10 then 48 + n else 87 + n)

def nibble (c : UInt8) : Option ℕ :=
  if 48 ≤ c ∧ c ≤ 57 then some (c.toNat - 48)
  else if 97 ≤ c ∧ c ≤ 102 then some (c.toNat - 87)
  else if 65 ≤ c ∧ c ≤ 70 then some (c.toNat - 55)
  else none

def encode : List UInt8 → List UInt8
  | [] => []
  | b :: bs => digit (b.toNat / 16) :: digit (b.toNat % 16) :: encode bs

def decode : List UInt8 → Option (List UInt8)
  | [] => some []
  | [_] => none
  | c :: d :: cs =>
    match nibble c, nibble d, decode cs with
    | some n, some k, some bs => some (UInt8.ofNat (16 * n + k) :: bs)
    | _, _, _ => none

/-- An upper-case digit in lower case. -/
def lower (c : UInt8) : UInt8 := if 65 ≤ c ∧ c ≤ 70 then c + 32 else c

variable {c : UInt8} {n k : ℕ} {bs cs : List UInt8}

theorem nibble_lt (h : nibble c = some n) : n < 16 := by
  unfold nibble at h
  simp only [UInt8.le_iff_toNat_le] at h
  split_ifs at h <;> cases h <;> simp_all <;> omega

theorem nibble_digit : ∀ n < 16, nibble (digit n) = some n := by decide

theorem digit_nibble (h : nibble c = some n) : digit n = lower c := by
  have hall : ∀ m < 256, ∀ n ∈ nibble (UInt8.ofNat m), digit n = lower (UInt8.ofNat m) := by
    decide +kernel
  have hc := hall c.toNat c.toNat_lt n
  rw [UInt8.ofNat_toNat] at hc
  exact hc h

theorem digit_injective (hn : n < 16) (hk : k < 16) (h : digit n = digit k) : n = k := by
  have hsame := congrArg nibble h
  rw [nibble_digit n hn, nibble_digit k hk] at hsame
  exact Option.some.inj hsame

theorem length_encode (bs : List UInt8) : (encode bs).length = 2 * bs.length := by
  induction bs with
  | nil => rfl
  | cons b bs ih =>
    simp only [encode, List.length_cons, ih]
    omega

theorem byte_halves (b : UInt8) : UInt8.ofNat (16 * (b.toNat / 16) + b.toNat % 16) = b := by
  rw [Nat.div_add_mod]
  exact UInt8.ofNat_toNat

theorem decode_encode (bs : List UInt8) : decode (encode bs) = some bs := by
  induction bs with
  | nil => rfl
  | cons b bs ih =>
    have hb := b.toNat_lt
    rw [encode, decode, nibble_digit _ (by omega), nibble_digit _ (by omega), ih]
    simp only [byte_halves]

/-- Every character of a text of hexadecimal digits is one of sixteen. -/
theorem encode_digits {c : UInt8} (h : c ∈ encode bs) : ∃ n < 16, c = digit n := by
  induction bs with
  | nil => cases h
  | cons b bs ih =>
    have hb := b.toNat_lt
    rcases List.mem_cons.mp h with rfl | h
    · exact ⟨b.toNat / 16, by omega, rfl⟩
    rcases List.mem_cons.mp h with rfl | h
    · exact ⟨b.toNat % 16, by omega, rfl⟩
    · exact ih h

theorem encode_join (hn : n < 16) (hk : k < 16) (bs : List UInt8) :
    encode (UInt8.ofNat (16 * n + k) :: bs) = digit n :: digit k :: encode bs := by
  have hbyte : (UInt8.ofNat (16 * n + k)).toNat = 16 * n + k := by
    apply UInt8.toNat_ofNat_of_lt'
    change 16 * n + k < 256
    omega
  rw [encode, hbyte, show (16 * n + k) / 16 = n by omega, show (16 * n + k) % 16 = k by omega]

theorem encode_injective (h : encode bs = encode cs) : bs = cs := by
  have hsame := congrArg decode h
  rw [decode_encode, decode_encode] at hsame
  exact Option.some.inj hsame

theorem decode_lower : ∀ {cs bs : List UInt8}, decode cs = some bs → cs.map lower = encode bs
  | [], _, h => by
    cases h
    rfl
  | [_], _, h => by cases h
  | c :: d :: cs, _, h => by
    rw [decode] at h
    split at h
    next n k rest hc hd hcs =>
      cases h
      rw [encode_join (nibble_lt hc) (nibble_lt hd), digit_nibble hc, digit_nibble hd,
        ← decode_lower hcs]
      rfl
    · cases h

theorem decode_digits : ∀ {cs bs : List UInt8}, decode cs = some bs →
    (∀ c ∈ cs, (nibble c).isSome = true) ∧ cs.length % 2 = 0
  | [], _, _ => ⟨fun _ hc => absurd hc List.not_mem_nil, rfl⟩
  | [_], _, h => by cases h
  | c :: d :: cs, _, h => by
    rw [decode] at h
    split at h
    next n k rest hc hd hcs =>
      obtain ⟨hdigits, heven⟩ := decode_digits hcs
      refine ⟨fun e he => ?_, ?_⟩
      · rcases List.mem_cons.mp he with rfl | he
        · rw [hc, Option.isSome_some]
        rcases List.mem_cons.mp he with rfl | he
        · rw [hd, Option.isSome_some]
        · exact hdigits e he
      · simp only [List.length_cons]
        omega
    · cases h

theorem decode_of_digits : ∀ {cs : List UInt8}, (∀ c ∈ cs, (nibble c).isSome = true) →
    cs.length % 2 = 0 → ∃ bs, decode cs = some bs
  | [], _, _ => ⟨[], rfl⟩
  | [_], _, he => by simp at he
  | c :: d :: cs, hdigits, he => by
    obtain ⟨n, hc⟩ := Option.isSome_iff_exists.mp (hdigits c (by simp))
    obtain ⟨k, hd⟩ := Option.isSome_iff_exists.mp (hdigits d (by simp))
    have heven : cs.length % 2 = 0 := by
      simp only [List.length_cons] at he
      omega
    obtain ⟨bs, hbs⟩ := decode_of_digits (fun e he => hdigits e (by simp [he])) heven
    exact ⟨_, by rw [decode, hc, hd, hbs]⟩

/-- The reader accepts exactly the spellings of a byte string, in either case. -/
theorem decode_eq_some_iff : decode cs = some bs ↔
    (∀ c ∈ cs, (nibble c).isSome = true) ∧ cs.map lower = encode bs := by
  constructor
  · exact fun h => ⟨(decode_digits h).1, decode_lower h⟩
  · rintro ⟨hd, h⟩
    have hlen : cs.length = 2 * bs.length := by rw [← length_encode, ← h, List.length_map]
    obtain ⟨bs', hbs'⟩ := decode_of_digits hd (by omega)
    rw [hbs', encode_injective ((decode_lower hbs').symm.trans h)]

end HexText
