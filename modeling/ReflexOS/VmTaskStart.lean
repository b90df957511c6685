import ReflexOS.VmFaults
import ReflexOS.VmReload

set_option autoImplicit false

/-!
# Starting a VM task

`reflex_vm_task_start` and `reflex_vm_task_start_binary` with all their exits, and the buffers
the binary loader accepts.
-/
namespace ReflexOS.Vm
open VmTernary VmMmu

variable {W : Type*}

section Accepts

theorem addRegion_init_ok {p n : ℕ} : (∃ mmu, mmuAddRegion mmuInit p n .privateMem 0 = .ok mmu) ↔
    p ≠ 0 ∧ n < 2 ^ 32 := by
  unfold mmuAddRegion
  by_cases hp : p = 0
  · simp [hp]
  · by_cases hn : n < 4294967296
    · simp [hp, hn, mmuInit, maxRegions]
    · simp [hp, hn, mmuInit, maxRegions]

/-- The header of a binary describes its payload. -/
structure HeaderAccepted (buffer : List UInt8) : Prop where
  long : 16 ≤ buffer.length
  magic : field buffer 0 4 = imageMagic
  version : field buffer 4 2 = 2
  payload : 16 + payloadLen buffer ≤ buffer.length
  checksum : vmCrc32 (slice buffer 16 (payloadLen buffer)) = field buffer 6 4

/-- The words and the instructions behind the header can be decoded and run. -/
structure PayloadAccepted (buffer : List UInt8) : Prop where
  words : ∃ ws, unpackWords (buffer.drop (16 + field buffer 12 2 * packedInstructionBytes))
    (field buffer 14 2) = .ok ws
  entry : field buffer 10 2 < field buffer 12 2
  instructions : validateInstructions (field buffer 12 2)
    (decodeInstructions (buffer.drop 16) (field buffer 12 2)) = Err.ok

/-- The host has room for the words a binary brings. -/
def WordsGranted (host : Host W) (buffer : List UInt8) (w : W) : Prop :=
  0 < field buffer 14 2 → ∃ p ≠ 0, (host.callocWords (field buffer 14 2) w).1 = some p

structure RoomGranted (host : Host W) (buffer : List UInt8) (w : W) : Prop where
  instructions : (host.mallocInstructions (field buffer 12 2) w).1 = true
  words : WordsGranted host buffer (host.mallocInstructions (field buffer 12 2) w).2

structure BinaryAccepted (host : Host W) (m : Machine W) (buffer : List UInt8) : Prop where
  header : HeaderAccepted buffer
  payload : PayloadAccepted buffer
  room : RoomGranted host buffer (vmUnload host m).world

theorem length_decodeInstructions (stream : List UInt8) (count : ℕ) :
    (decodeInstructions stream count).length = count := by
  rw [decodeInstructions, List.length_map, List.length_range]

variable {host : Host W} {m : Machine W} {buffer : List UInt8}

theorem validateImage_binary {data : Option ℕ} {words : List Word18}
    (hversion : field buffer 4 2 = 2) (hdata : data = none → words = []) :
    validateImage
        { magic := imageMagic
          version := field buffer 4 2
          entryIp := field buffer 10 2
          instructions := some (decodeInstructions (buffer.drop 16) (field buffer 12 2))
          privateMemory := data
          privateMemoryCount := words.length } = Err.ok ↔
      field buffer 10 2 < field buffer 12 2 ∧
        validateInstructions (field buffer 12 2)
          (decodeInstructions (buffer.drop 16) (field buffer 12 2)) = Err.ok := by
  have hmemory : ¬ (data = none ∧ words.length ≠ 0) := by
    rintro ⟨hnone, hlen⟩
    exact hlen (List.length_eq_zero_iff.mpr (hdata hnone))
  simp only [validateImage, hversion, length_decodeInstructions, ne_eq, not_true_eq_false, if_false,
    and_false, if_neg hmemory]
  by_cases hcount : field buffer 12 2 = 0
  · simp [hcount, Err.invalidSize, Err.ok]
  · by_cases hentry : field buffer 12 2 ≤ field buffer 10 2
    · simp [hcount, hentry, Err.invalidArg, Err.ok]
    · simp [hcount, hentry, Nat.not_le.mp hentry]

theorem installBinary_ok_iff {data : Option ℕ} {words : List Word18}
    (hversion : field buffer 4 2 = 2) (hdata : data = none → words = [])
    (hlen : words.length < 2 ^ 32) :
    (installBinary m buffer data words).1 = Err.ok ↔
      (0 < words.length → data.getD 0 ≠ 0) ∧ field buffer 10 2 < field buffer 12 2 ∧
        validateInstructions (field buffer 12 2)
          (decodeInstructions (buffer.drop 16) (field buffer 12 2)) = Err.ok := by
  rw [← validateImage_binary hversion hdata]
  unfold installBinary
  dsimp only
  split
  next hbad => exact iff_of_false hbad fun h => hbad h.2
  next hgood =>
    rw [and_iff_left (not_not.mp hgood)]
    split
    next hwords =>
      rw [forall_prop_of_true hwords]
      split
      next e herror =>
        refine iff_of_false (addRegion_error herror) fun hbuffer => ?_
        obtain ⟨mmu, hmmu⟩ := addRegion_init_ok.mpr ⟨hbuffer, hlen⟩
        rw [Image.buffer, hmmu] at herror
        cases herror
      next mmu hmmu =>
        exact iff_of_true rfl (addRegion_init_ok.mp ⟨mmu, hmmu⟩).1
    next hwords => exact iff_of_true rfl fun h => absurd h hwords

theorem loadData_ok_iff (hversion : field buffer 4 2 = 2) :
    (loadData host m buffer).1 = Err.ok ↔
      PayloadAccepted buffer ∧ WordsGranted host buffer m.world := by
  have hsmall : field buffer 14 2 < 2 ^ 32 :=
    Nat.lt_trans (field_lt buffer 14 2) (by decide)
  unfold loadData
  dsimp only
  split
  next hcount =>
    split
    next hnone =>
      refine iff_of_false (show Err.noMem ≠ Err.ok by decide) ?_
      rintro ⟨-, hroom⟩
      obtain ⟨p, -, hp⟩ := hroom hcount
      rw [hnone] at hp
      cases hp
    next p hp =>
      split
      next e herror =>
        refine iff_of_false (unpackWords_error herror) ?_
        rintro ⟨hpayload, -⟩
        obtain ⟨ws, hws⟩ := hpayload.words
        rw [herror] at hws
        cases hws
      next ws hws =>
        have hlen := unpackWords_length hws
        rw [@installBinary_ok_iff _ _ _ (some p) ws hversion nofun (hlen ▸ hsmall), hlen,
          forall_prop_of_true hcount]
        constructor
        · exact fun h => ⟨⟨⟨ws, hws⟩, h.2.1, h.2.2⟩, fun _ => ⟨p, h.1, hp⟩⟩
        · rintro ⟨hpayload, hroom⟩
          obtain ⟨q, hq, hgot⟩ := hroom hcount
          cases hp.symm.trans hgot
          exact ⟨hq, hpayload.entry, hpayload.instructions⟩
  next hcount =>
    rw [@installBinary_ok_iff _ _ _ none [] hversion (fun _ => rfl) (by decide)]
    constructor
    · intro h
      refine ⟨⟨⟨[], ?_⟩, h.2.1, h.2.2⟩, fun hpos => absurd hpos hcount⟩
      rw [Nat.eq_zero_of_not_pos hcount]
      rfl
    · exact fun h => ⟨nofun, h.1.entry, h.1.instructions⟩

theorem loadBinary_ok_iff :
    (loadBinary host m buffer).1 = Err.ok ↔ BinaryAccepted host m buffer := by
  unfold loadBinary
  dsimp only
  split
  next hshort =>
    exact iff_of_false (show Err.invalidSize ≠ Err.ok by decide)
      fun h => absurd h.header.long (Nat.not_le.mpr hshort)
  next hlong =>
  split
  next hmagic =>
    exact iff_of_false (show Err.invalidResponse ≠ Err.ok by decide)
      fun h => hmagic h.header.magic
  next hmagic =>
  split
  next hversion =>
    exact iff_of_false (show Err.invalidVersion ≠ Err.ok by decide)
      fun h => hversion h.header.version
  next hversion =>
  split
  next hpayload =>
    exact iff_of_false (show Err.invalidSize ≠ Err.ok by decide)
      fun h => absurd h.header.payload (Nat.not_le.mpr hpayload)
  next hpayload =>
  split
  next hcrc =>
    exact iff_of_false (show Err.invalidCrc ≠ Err.ok by decide)
      fun h => hcrc h.header.checksum
  next hcrc =>
  have hheader : HeaderAccepted buffer :=
    ⟨Nat.not_lt.mp hlong, not_not.mp hmagic, not_not.mp hversion, Nat.not_lt.mp hpayload,
      not_not.mp hcrc⟩
  split
  next hroom =>
    rw [loadData_ok_iff hheader.version]
    constructor
    · exact fun h => ⟨hheader, h.1, ⟨hroom, h.2⟩⟩
    · exact fun h => ⟨h.payload, h.room.words⟩
  next hroom =>
    exact iff_of_false (show Err.noMem ≠ Err.ok by decide) fun h => hroom h.room.instructions

end Accepts

/-- `reflex_vm_task_config_t`; a NULL name is `none`. -/
structure TaskConfig where
  name : Option CName
  stepsPerSlice : ℕ
  delayMs : ℕ
  stackSize : ℕ
  priority : ℤ

def taskDefaultSteps : ℕ := 2
def taskDefaultDelayMs : ℕ := 20
def taskDefaultStack : ℕ := 4096
def taskDefaultPriority : ℤ := 5

def taskApplyDefaults (config : TaskConfig) : TaskConfig where
  stepsPerSlice := if config.stepsPerSlice = 0 then taskDefaultSteps else config.stepsPerSlice
  delayMs := if config.delayMs = 0 then taskDefaultDelayMs else config.delayMs
  stackSize := if config.stackSize = 0 then taskDefaultStack else config.stackSize
  priority := if config.priority = 0 then taskDefaultPriority else config.priority
  name := some (config.name.getD (ascii "reflex-vm"))

/-- `reflex_vm_task_runtime_t` with the host of its VM; `created` counts the tasks. -/
structure TaskRuntime (W : Type*) where
  machine : Machine W
  handle : Option ℕ
  image : Option Image
  config : TaskConfig
  running : Bool
  stopRequested : Bool
  finished : Bool
  created : ℕ

def nodeVm : ℕ := 7

/-- `reflex_task_create`: the handle of the new task, or a failure. -/
abbrev TaskCreate (W : Type*) := TaskConfig → W → Option ℕ × W

/-- What both starts write before they load. -/
def taskBegin (rt : TaskRuntime W) (image : Option Image) (config : Option TaskConfig) :
    TaskRuntime W :=
  { rt with
    image := image
    config := taskApplyDefaults (config.getD ⟨none, 0, 0, 0, 0⟩)
    running := true
    stopRequested := false
    finished := false
    machine := { rt.machine with
      vm := { rt.machine.vm with nodeId := nodeVm, syscallHandler := some .default } } }

/-- The last step of both starts; `undo` is what a failure does to the VM. -/
def taskSpawn (create : TaskCreate W) (undo : Machine W → Machine W) (rt : TaskRuntime W) :
    Err × TaskRuntime W :=
  let got := create rt.config rt.machine.world
  let m := { rt.machine with world := got.2 }
  match got.1 with
  | some handle =>
    (Err.ok, { rt with machine := m, handle := some handle, created := rt.created + 1 })
  | none => (Err.fail, { rt with machine := undo m, running := false, handle := none })

def taskStart (host : Host W) (create : TaskCreate W) (rt : TaskRuntime W) (image : Option Image)
    (config : Option TaskConfig) : Err × TaskRuntime W :=
  match image with
  | none => (Err.invalidArg, rt)
  | some image =>
    if rt.running then (Err.invalidState, rt)
    else if validateImage image ≠ Err.ok then (validateImage image, rt)
    else
      let rt := taskBegin rt (some image) config
      let load := loadImage host rt.machine image
      if load.1 ≠ Err.ok then (load.1, { rt with machine := load.2 })
      else taskSpawn create id { rt with machine := load.2 }

def taskStartBinary (host : Host W) (create : TaskCreate W) (rt : TaskRuntime W)
    (buffer : Option (List UInt8)) (config : Option TaskConfig) : Err × TaskRuntime W :=
  match buffer with
  | none => (Err.invalidArg, rt)
  | some buffer =>
    if buffer.length = 0 then (Err.invalidArg, rt)
    else if rt.running then (Err.invalidState, rt)
    else
      let rt := taskBegin rt none config
      let load := loadBinary host rt.machine buffer
      if load.1 ≠ Err.ok then (load.1, { rt with machine := load.2 })
      else taskSpawn create (vmUnload host) { rt with machine := load.2 }

/-- A start that fails on a runtime at rest leaves it at rest, without a new task. -/
def StartAtomic (rt : TaskRuntime W) (result : Err × TaskRuntime W) : Prop :=
  rt.running = false → result.1 ≠ Err.ok →
    result.2.running = false ∧ result.2.created = rt.created

/-- An image in the types of C: its data pointer is not NULL where there is one, and its count
is a `size_t`. -/
def Image.Typed (image : Image) : Prop :=
  image.privateMemory ≠ some 0 ∧ image.privateMemoryCount < 2 ^ 32

section Start

variable {host : Host W} {create : TaskCreate W} {rt : TaskRuntime W} {config : Option TaskConfig}

/-- A failed creation is undone. -/
theorem taskSpawn_atomic {undo : Machine W → Machine W}
    (h : (taskSpawn create undo rt).1 ≠ Err.ok) :
    (taskSpawn create undo rt).2.running = false ∧
      (taskSpawn create undo rt).2.created = rt.created := by
  unfold taskSpawn at h ⊢
  dsimp only at h ⊢
  split at h
  · exact absurd rfl h
  · exact ⟨rfl, rfl⟩

theorem loadImage_typed {m : Machine W} {image : Image} (htyped : image.Typed)
    (hvalid : validateImage image = Err.ok) : (loadImage host m image).1 = Err.ok := by
  unfold loadImage
  rw [if_neg (not_not.mpr hvalid)]
  dsimp only
  split
  next hcount =>
    have hbuffer : image.buffer ≠ 0 := by
      obtain ⟨-, -, -, hmemory, -⟩ := validateImage_accepts hvalid
      have hnull := htyped.1
      rw [Image.buffer]
      cases hdata : image.privateMemory with
      | none => exact absurd ⟨hdata, Nat.pos_iff_ne_zero.mp hcount⟩ hmemory
      | some p =>
        rw [hdata] at hnull
        exact fun h => hnull (congrArg some h)
    obtain ⟨mmu, hmmu⟩ := addRegion_init_ok.mpr ⟨hbuffer, htyped.2⟩
    simp only [hmmu]
  · rfl

theorem taskStart_atomic {image : Option Image} (htyped : ∀ i, image = some i → i.Typed) :
    StartAtomic rt (taskStart host create rt image config) := by
  intro hrest herr
  unfold taskStart at herr ⊢
  split
  · exact ⟨hrest, rfl⟩
  next i =>
    have hnot : ¬ rt.running = true := by
      rw [hrest]
      exact Bool.false_ne_true
    simp only [if_neg hnot] at herr ⊢
    split
    · exact ⟨hrest, rfl⟩
    next hvalid =>
      have hload := @loadImage_typed W host (taskBegin rt (some i) config).machine i
        (htyped i rfl) (not_not.mp hvalid)
      simp only [if_neg hvalid, hload, ne_eq, not_true_eq_false, if_false] at herr ⊢
      exact taskSpawn_atomic herr

/-- A good program is started exactly if nothing is marked as running. -/
theorem taskStart_ok_iff {image : Image} (htyped : image.Typed)
    (hvalid : validateImage image = Err.ok) (hcreate : ∀ c w, (create c w).1 ≠ none) :
    (taskStart host create rt (some image) config).1 = Err.ok ↔ rt.running = false := by
  unfold taskStart
  dsimp only
  split
  next hrunning =>
    refine iff_of_false (show Err.invalidState ≠ Err.ok by decide) ?_
    rw [hrunning]
    exact Bool.true_eq_false.mp
  next hrest =>
    refine iff_of_true ?_ (Bool.eq_false_of_not_eq_true hrest)
    have hload := @loadImage_typed W host (taskBegin rt (some image) config).machine image
      htyped hvalid
    simp only [hvalid, hload, ne_eq, not_true_eq_false, if_false, taskSpawn]
    split
    · rfl
    next hnone => exact absurd hnone (hcreate _ _)

/-- Of the buffers of a start at rest only those the loader accepts leave nothing to undo. -/
theorem taskStartBinary_atomic_iff {buffer : Option (List UInt8)} :
    StartAtomic rt (taskStartBinary host create rt buffer config) ↔
      (rt.running = false → ∀ bytes, buffer = some bytes → bytes ≠ [] →
        BinaryAccepted host (taskBegin rt none config).machine bytes) := by
  refine forall_congr' fun hrest => ?_
  have hnot : ¬ rt.running = true := by
    rw [hrest]
    exact Bool.false_ne_true
  unfold taskStartBinary
  split
  · exact iff_of_true (fun _ => ⟨hrest, rfl⟩) nofun
  next bytes =>
    split
    next hempty =>
      refine iff_of_true (fun _ => ⟨hrest, rfl⟩) ?_
      rintro _ ⟨⟩ hne
      exact absurd (List.length_eq_zero_iff.mp hempty) hne
    next hlen =>
      have hne : bytes ≠ [] := fun h => hlen (List.length_eq_zero_iff.mpr h)
      have hall : (∀ b, some bytes = some b → b ≠ [] →
          BinaryAccepted host (taskBegin rt none config).machine b) ↔
          BinaryAccepted host (taskBegin rt none config).machine bytes :=
        ⟨fun h => h bytes rfl hne, fun h b hb _ => Option.some.inj hb ▸ h⟩
      rw [hall, ← loadBinary_ok_iff]
      dsimp only
      split
      next hfail =>
        refine iff_of_false (fun h => ?_) hfail
        exact Bool.noConfusion (h hfail).1
      next hload => exact iff_of_true taskSpawn_atomic (not_not.mp hload)

end Start

/-- A start from an image always undoes what it did; one from a buffer does exactly if the loader
accepts the buffer. -/
theorem start_atomic_iff (host : Host W) (create : TaskCreate W) (rt : TaskRuntime W)
    (config : Option TaskConfig) :
    (∀ image : Option Image, (∀ i, image = some i → i.Typed) →
      StartAtomic rt (taskStart host create rt image config)) ∧
    ∀ buffer : Option (List UInt8),
      StartAtomic rt (taskStartBinary host create rt buffer config) ↔
        (rt.running = false → ∀ bytes, buffer = some bytes → bytes ≠ [] →
          BinaryAccepted host (taskBegin rt none config).machine bytes) :=
  ⟨fun _ htyped => taskStart_atomic htyped, fun _ => taskStartBinary_atomic_iff⟩

def restingRuntime : TaskRuntime Unit where
  machine := blankMachine
  handle := none
  image := none
  config := ⟨none, 0, 0, 0, 0⟩
  running := false
  stopRequested := false
  finished := false
  created := 0

def noTask : TaskCreate Unit := fun _ w => (none, w)

theorem start_atomic_nop :
    StartAtomic restingRuntime (taskStart quietHost noTask restingRuntime (some nopImage) none) :=
  (start_atomic_iff quietHost noTask restingRuntime none).1 (some nopImage) fun _ h =>
    Option.some.inj h ▸ ⟨nofun, by decide⟩

/-- A buffer too short for a header leaves the runtime marked as running, without a task. -/
theorem short_buffer_leaves_running : ¬ ∀ (host : Host Unit) (create : TaskCreate Unit)
    (rt : TaskRuntime Unit) (buffer : Option (List UInt8)) (config : Option TaskConfig),
      StartAtomic rt (taskStartBinary host create rt buffer config) := by
  intro h
  have hrest := (h quietHost noTask restingRuntime (some [0]) none rfl (by decide)).1
  cases hrest

end ReflexOS.Vm
