import ReflexOS.LittleEndian
import ReflexOS.GooseTypes
import Mathlib.Data.List.OfFn

set_option autoImplicit false

/-!
# Arc packets and what their aura authenticates
-/
namespace ReflexOS.Goose
open VmTernary LittleEndian

def gooseArcVersion : UInt8 := 0x03

def arcOpSync : UInt8 := 0x00
def arcOpQuery : UInt8 := 0xDE
def arcOpAdvertise : UInt8 := 0xAD
def arcOpPosture : UInt8 := 0xCC
def arcOpMmioSync : UInt8 := 0x10
def arcOpDiscover : UInt8 := 0xD0

/-- `goose_arc_packet_t`; a trit of the coordinate is an enumerator and takes a whole word. -/
structure ArcPacket where
  version : UInt8
  op : UInt8
  coord : Fin 9 → UInt32
  state : UInt8
  nameHash : UInt32
  nonce : UInt32
  aura : UInt64

/-- The bytes of `aura_input_t`. -/
def auraInput (p : ArcPacket) : List UInt8 :=
  [p.version, p.op] ++ List.ofFn (fun i => (p.coord i).toUInt8) ++
    encode 4 p.nameHash.toNat ++ [p.state] ++ encode 4 p.nonce.toNat

def calculateAura (hmac : List UInt8 → List UInt8) (p : ArcPacket) : UInt64 :=
  UInt64.ofNat (decode ((hmac (auraInput p)).take 8))

/-- The name a DISCOVER packet carries in the first eight bytes of its coordinate. -/
def discoverName (p : ArcPacket) : CName :=
  (encode 4 (p.coord 0).toNat ++ encode 4 (p.coord 1).toNat).takeWhile (· ≠ 0)

def DiffersOutsideAura (p q : ArcPacket) : Prop := { p with aura := 0 } ≠ { q with aura := 0 }

/-- Equal but for the upper three bytes of the coordinate words. -/
structure SameLowBytes (p q : ArcPacket) : Prop where
  version : p.version = q.version
  op : p.op = q.op
  coord : ∀ i, (p.coord i).toUInt8 = (q.coord i).toUInt8
  state : p.state = q.state
  nameHash : p.nameHash = q.nameHash
  nonce : p.nonce = q.nonce

variable {p q : ArcPacket}

theorem encodeWord_inj {a b : UInt32} : encode 4 a.toNat = encode 4 b.toNat ↔ a = b := by
  rw [encode_inj a.toNat_lt b.toNat_lt, UInt32.toNat_inj]

theorem auraInput_eq_iff : auraInput p = auraInput q ↔ SameLowBytes p q := by
  constructor
  · intro h
    obtain ⟨h, hnonce⟩ := List.append_inj' h (by simp)
    obtain ⟨h, hstate⟩ := List.append_inj' h (by simp)
    obtain ⟨h, hhash⟩ := List.append_inj' h (by simp)
    obtain ⟨h, hcoord⟩ := List.append_inj' h (by simp)
    simp only [List.cons.injEq, and_true] at h hstate
    exact ⟨h.1, h.2, congrFun (List.ofFn_injective hcoord), hstate, encodeWord_inj.mp hhash,
      encodeWord_inj.mp hnonce⟩
  · intro h
    rw [auraInput, h.version, h.op, funext h.coord, h.nameHash, h.state, h.nonce]
    rfl

theorem differsOutsideAura_iff : DiffersOutsideAura p q ↔
    ¬(SameLowBytes p q ∧ p.coord = q.coord) := by
  unfold DiffersOutsideAura
  rw [ne_eq, not_iff_not, ArcPacket.mk.injEq]
  constructor
  · rintro ⟨hversion, hop, hcoord, hstate, hhash, hnonce, -⟩
    exact ⟨⟨hversion, hop, fun i => by rw [hcoord], hstate, hhash, hnonce⟩, hcoord⟩
  · rintro ⟨h, hcoord⟩
    exact ⟨h.version, h.op, hcoord, h.state, h.nameHash, h.nonce, rfl⟩

/-- The aura tells two packets apart exactly where they do not differ in the upper bytes of the
coordinate words alone. -/
theorem aura_tells_apart_iff (p q : ArcPacket) :
    (DiffersOutsideAura p q → auraInput p ≠ auraInput q) ↔
      (SameLowBytes p q → p.coord = q.coord) := by
  rw [differsOutsideAura_iff, ne_eq, auraInput_eq_iff, not_imp_not]
  constructor
  · intro h hlow
    exact (h hlow).2
  · intro h hlow
    exact ⟨hlow, h hlow⟩

/-- A coordinate word of a packet that holds a trit. -/
def TritWord (x : UInt32) : Prop := x = 0 ∨ x = 1 ∨ x = 0xFFFFFFFF

theorem TritWord.inj {x y : UInt32} (hx : TritWord x) (hy : TritWord y)
    (h : x.toUInt8 = y.toUInt8) : x = y := by
  rcases hx with rfl | rfl | rfl <;> rcases hy with rfl | rfl | rfl <;>
    first | rfl | exact absurd h (by decide)

/-- Over coordinates of trits the aura covers the whole packet. -/
theorem aura_tells_trits_apart (hp : ∀ i, TritWord (p.coord i)) (hq : ∀ i, TritWord (q.coord i))
    (hne : DiffersOutsideAura p q) : auraInput p ≠ auraInput q := by
  intro heq
  have hlow := auraInput_eq_iff.mp heq
  have hcoord : p.coord = q.coord := funext fun i => (hp i).inj (hq i) (hlow.coord i)
  exact differsOutsideAura_iff.mp hne ⟨hlow, hcoord⟩

/-- A DISCOVER packet with the name packed into the coordinate. -/
def discoverPacket (w : UInt32) : ArcPacket where
  version := gooseArcVersion
  op := arcOpDiscover
  coord := fun i => if i = 0 then w else 0
  state := 0
  nameHash := 0
  nonce := 0
  aura := 0

/-- The names "node" and "nude" share an aura. -/
theorem discover_names_share_aura :
    ¬ ∀ p q, DiffersOutsideAura p q → auraInput p ≠ auraInput q := by
  intro h
  have hlow : SameLowBytes (discoverPacket 0x65646F6E) (discoverPacket 0x6564756E) := by
    refine ⟨rfl, rfl, ?_, rfl, rfl, rfl⟩
    decide
  refine h (discoverPacket 0x65646F6E) (discoverPacket 0x6564756E) ?_ (auraInput_eq_iff.mpr hlow)
  rw [differsOutsideAura_iff]
  rintro ⟨-, hcoord⟩
  have hnames := congrFun hcoord 0
  exact absurd hnames (by decide)

example : discoverName (discoverPacket 0x65646F6E) = ascii "node" ∧
    discoverName (discoverPacket 0x6564756E) = ascii "nude" := by decide

end ReflexOS.Goose
