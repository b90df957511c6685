import ReflexOS.BootSafety

set_option autoImplicit false

/-!
# The entry point of boot0

`call_start_cpu0`: the attempts counted in a register that outlives a reset, the partition table,
the image, the jump.
-/
namespace ReflexOS.Boot

def bootFailMax : ℕ := 3
def bootFailMagic : ℕ := 0xBF000000
def bootFailMask : ℕ := 0xFF000000

/-- `get_fail_count`, of the register's value. -/
def getFailCount (val : ℕ) : ℕ :=
  if val &&& bootFailMask ≠ bootFailMagic then 0 else val &&& 0xFF

/-- What `set_fail_count` leaves in the register. -/
def setFailCount (c : ℕ) : ℕ := bootFailMagic ||| (c &&& 0xFF)

theorem getFailCount_set : ∀ c ≤ bootFailMax, getFailCount (setFailCount c) = c := by decide

theorem getFailCount_zero : getFailCount 0 ≤ bootFailMax := by decide

def partitionTableAddr : ℕ := 0x8000
def partitionMagic : ℕ := 0x50AA
def partitionMagicMd5 : ℕ := 0xEBEB
def partTypeApp : ℕ := 0
def partSubtypeFactory : ℕ := 0
def partitionEntrySize : ℕ := 32

structure PartitionEntry where
  magic : ℕ
  type : ℕ
  subtype : ℕ
  offset : ℕ

def parsePartition (bytes : List UInt8) : PartitionEntry where
  magic := imageNumber bytes 0 2
  type := imageNumber bytes 2 1
  subtype := imageNumber bytes 3 1
  offset := imageNumber bytes 4 4

/-- The loop of `find_factory_partition`. -/
def factoryOffset : List PartitionEntry → ℕ
  | [] => 0
  | e :: es =>
    if e.magic = partitionMagicMd5 ∨ e.magic = 0xFFFF then 0
    else if e.magic ≠ partitionMagic then factoryOffset es
    else if e.type = partTypeApp ∧ e.subtype = partSubtypeFactory then e.offset
    else factoryOffset es

def findFactoryPartition (rom : RomFlash) (s : BootState) : ℕ × BootState :=
  match flashRead rom partitionTableAddr (partitionEntrySize * 32) s with
  | (none, s) => (0, s)
  | (some buf, s) =>
    (factoryOffset ((List.range 32).map fun i =>
      parsePartition (buf.drop (i * partitionEntrySize))), s)

/-- What `halt` is told. -/
inductive HaltMessage where
  | tooManyTimes
  | imageLoadFailed
deriving DecidableEq

def HaltMessage.text : HaltMessage → String
  | .tooManyTimes => "boot failed too many times, halting (power cycle to retry)"
  | .imageLoadFailed => "image load failed"

/-- How `call_start_cpu0` ends: it halts, resets the chip, jumps, or never comes back from
`load_image`. -/
inductive BootEnd where
  | halted (msg : HaltMessage)
  | reset
  | jumped (entry : ℕ)
  | wedged
deriving DecidableEq

/-- `call_start_cpu0`, from what the register holds: how it ends, and the register then. -/
def callStartCpu0 (rom : RomFlash) (sha : RomSha) (store0 : ℕ) : BootEnd × ℕ :=
  let failCount := getFailCount store0
  if bootFailMax ≤ failCount then (.halted .tooManyTimes, 0)
  else
    let store0 := setFailCount (failCount + 1)
    let (partOffset, s) := findFactoryPartition rom bootInit
    if partOffset = 0 then (.reset, store0)
    else
      match (loadImage rom sha partOffset s).1 with
      | none => (.wedged, store0)
      | some entry =>
        if entry = 0 then (.halted .imageLoadFailed, store0) else (.jumped entry, store0)

variable (rom : RomFlash) (sha : RomSha)

/-- A boot is refused and the count cleared, or the attempt is counted. -/
theorem callStartCpu0_cases (store0 : ℕ) :
    (bootFailMax ≤ getFailCount store0 ∧
      callStartCpu0 rom sha store0 = (.halted .tooManyTimes, 0)) ∨
    (getFailCount store0 < bootFailMax ∧
      (callStartCpu0 rom sha store0).1 ≠ .halted .tooManyTimes ∧
      (callStartCpu0 rom sha store0).2 = setFailCount (getFailCount store0 + 1)) := by
  by_cases hmax : bootFailMax ≤ getFailCount store0
  · exact .inl ⟨hmax, if_pos hmax⟩
  · apply Or.inr
    refine ⟨Nat.lt_of_not_le hmax, ?_⟩
    rw [callStartCpu0, if_neg hmax]
    dsimp only
    split
    · exact ⟨BootEnd.noConfusion, rfl⟩
    · split
      · exact ⟨BootEnd.noConfusion, rfl⟩
      · split
        · exact ⟨by simp, rfl⟩
        · exact ⟨BootEnd.noConfusion, rfl⟩

end ReflexOS.Boot
