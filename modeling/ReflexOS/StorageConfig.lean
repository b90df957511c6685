import ReflexOS.KvStore
import ReflexOS.Runs

set_option autoImplicit false

/-!
# Configuration over the key-value store

Six settings in one namespace. Every boot runs the defaults pass, which probes each setting
and writes its default where the probe fails.
-/
namespace ReflexOS.Storage
open Kv NorFlash Runs

def configNamespace : CName := ascii "config"
def defaultDeviceName : CName := ascii "reflex-os"
def defaultLogLevel : ℤ := 2
def defaultWifiSsid : CName := ascii ""
def defaultWifiPassword : CName := ascii ""
def defaultSafeMode : ℕ := 0
def defaultBootCount : ℤ := 0

def configOpen (S : Store) : Except Err UInt8 := kvOpen S configNamespace

/-- The probe passes no buffer. -/
def configSetDefaultStr (S : Store) (handle : UInt8) (key value : CName) : Err × Store :=
  match kvGetStr S handle key false 0 with
  | .ok _ => (Err.ok, S)
  | .error _ => kvSetStr S handle key value

def configSetDefaultI32 (S : Store) (handle : UInt8) (key : CName) (value : ℤ) : Err × Store :=
  match kvGetI32 S handle key with
  | .ok _ => (Err.ok, S)
  | .error _ => kvSetI32 S handle key value

def configSetDefaultU8 (S : Store) (handle : UInt8) (key : CName) (value : ℕ) : Err × Store :=
  match kvGetU8 S handle key with
  | .ok _ => (Err.ok, S)
  | .error _ => kvSetU8 S handle key value

/-- The next call, unless the last one failed. -/
def orFail (result : Err × Store) (next : Store → Err × Store) : Err × Store :=
  if result.1 = Err.ok then next result.2 else result

def configInitDefaults (S : Store) : Err × Store :=
  match configOpen S with
  | .error err => (err, S)
  | .ok handle =>
    let r := configSetDefaultStr S handle (ascii "device_name") defaultDeviceName
    let r := orFail r (configSetDefaultI32 · handle (ascii "log_level") defaultLogLevel)
    let r := orFail r (configSetDefaultStr · handle (ascii "wifi_ssid") defaultWifiSsid)
    let r := orFail r (configSetDefaultStr · handle (ascii "wifi_password") defaultWifiPassword)
    let r := orFail r (configSetDefaultU8 · handle (ascii "safe_mode") defaultSafeMode)
    orFail r (configSetDefaultI32 · handle (ascii "boot_count") defaultBootCount)

/-- What a boot does with the partition. -/
def storageInit (F : Memory) : Err × Store := configInitDefaults (kvInit F)

/-- `out` is whether there is a buffer to read into. -/
def configGetString (S : Store) (key : CName) (out : Bool) (outLen : ℕ) :
    Except Err (List UInt8) :=
  if !out then .error Err.invalidArg
  else if outLen = 0 then .error Err.invalidArg
  else
    match configOpen S with
    | .error err => .error err
    | .ok handle => kvGetStr S handle key out outLen

def configGetI32 (S : Store) (key : CName) (out : Bool) : Except Err ℤ :=
  if !out then .error Err.invalidArg
  else
    match configOpen S with
    | .error err => .error err
    | .ok handle => kvGetI32 S handle key

/-- The setters differ in the write they make once the namespace is open; the commit behind it
does nothing in this backend. -/
def configSet (S : Store) (write : UInt8 → Err × Store) : Err × Store :=
  match configOpen S with
  | .error err => (err, S)
  | .ok handle => write handle

def configGetDeviceName (S : Store) (out : Bool) (outLen : ℕ) : Except Err (List UInt8) :=
  configGetString S (ascii "device_name") out outLen

def configSetDeviceName (S : Store) (value : CName) : Err × Store :=
  configSet S fun handle => kvSetStr S handle (ascii "device_name") value

def configGetLogLevel (S : Store) (out : Bool) : Except Err ℤ :=
  configGetI32 S (ascii "log_level") out

def configSetLogLevel (S : Store) (value : ℤ) : Err × Store :=
  configSet S fun handle => kvSetI32 S handle (ascii "log_level") value

def configGetWifiSsid (S : Store) (out : Bool) (outLen : ℕ) : Except Err (List UInt8) :=
  configGetString S (ascii "wifi_ssid") out outLen

def configSetWifiSsid (S : Store) (value : CName) : Err × Store :=
  configSet S fun handle => kvSetStr S handle (ascii "wifi_ssid") value

def configGetWifiPassword (S : Store) (out : Bool) (outLen : ℕ) : Except Err (List UInt8) :=
  configGetString S (ascii "wifi_password") out outLen

def configSetWifiPassword (S : Store) (value : CName) : Err × Store :=
  configSet S fun handle => kvSetStr S handle (ascii "wifi_password") value

def configGetSafeMode (S : Store) (out : Bool) : Except Err Bool :=
  if !out then .error Err.invalidArg
  else
    match configOpen S with
    | .error err => .error err
    | .ok handle => (kvGetU8 S handle (ascii "safe_mode")).map fun value => decide (value ≠ 0)

def configSetSafeMode (S : Store) (value : Bool) : Err × Store :=
  configSet S fun handle => kvSetU8 S handle (ascii "safe_mode") (if value then 1 else 0)

def configGetBootCount (S : Store) (out : Bool) : Except Err ℤ :=
  configGetI32 S (ascii "boot_count") out

def configSetBootCount (S : Store) (value : ℤ) : Err × Store :=
  configSet S fun handle => kvSetI32 S handle (ascii "boot_count") value

/-! ## The settings as a map of stored values -/

inductive Setting where
  | deviceName | logLevel | wifiSsid | wifiPassword | safeMode | bootCount
deriving DecidableEq

namespace Setting

def key : Setting → CName
  | deviceName => ascii "device_name"
  | logLevel => ascii "log_level"
  | wifiSsid => ascii "wifi_ssid"
  | wifiPassword => ascii "wifi_password"
  | safeMode => ascii "safe_mode"
  | bootCount => ascii "boot_count"

def id (s : Setting) : UInt8 × CName := (nsHash configNamespace, s.key)

def all : List Setting := [deviceName, logLevel, wifiSsid, wifiPassword, safeMode, bootCount]

theorem mem_all (s : Setting) : s ∈ all := by cases s <;> simp [all]

theorem key_length (s : Setting) : 1 ≤ s.key.length ∧ s.key.length ≤ kvKeyMax := by
  cases s <;> decide

theorem id_injective {s t : Setting} (h : s.id = t.id) : s = t := by
  revert h
  cases s <;> cases t <;> decide

/-- The bytes the getter of a setting has room for. -/
def room : Setting → ℕ
  | logLevel | bootCount => 4
  | safeMode => 1
  | _ => kvValMax

end Setting

/-- The settings the store has a value for, as stored. -/
abbrev Values := Setting → Option (List UInt8)

/-- The store holds these settings and nothing else. -/
def Keeps (S : Store) (cfg : Values) : Prop :=
  ∃ es, Holds S es ∧ (∀ e ∈ es, ∃ s : Setting, e.id = s.id) ∧
    ∀ s : Setting, (lookup es s.id).map Entry.val = cfg s ∧ ∀ bytes ∈ cfg s, bytes.length ≤ s.room

theorem keeps_fresh {F : Memory}
    (h : ∀ t < kvNumSectors, (readPageHeader F (sectorAddr t)).magic ≠ kvMagic) :
    Keeps (kvInit F) fun _ => none :=
  ⟨[], holds_fresh h, nofun, fun _ => ⟨rfl, nofun⟩⟩

section Keeps

variable {S : Store} {cfg : Values} (h : Keeps S cfg)
include h

theorem Keeps.restart : Keeps (kvInit S.flash) cfg := by
  obtain ⟨es, hes, hids, hcfg⟩ := h
  exact ⟨es, hes.restart, hids, hcfg⟩

theorem Keeps.restart_seq : (kvInit S.flash).activeSeq = S.activeSeq := by
  obtain ⟨es, hes, -⟩ := h
  rw [hes.init]

theorem Keeps.open : configOpen S = .ok (nsHash configNamespace) := by
  obtain ⟨es, hes, -⟩ := h
  exact if_pos hes.initialized

theorem Keeps.getBlob (s : Setting) (cap : ℕ) :
    kvGetBlob S (nsHash configNamespace) s.key cap =
      match cfg s with
      | none => .error Err.notFound
      | some bytes => if cap < bytes.length then .error Err.invalidArg else .ok bytes := by
  obtain ⟨es, hes, -, hcfg⟩ := h
  rw [← (hcfg s).1]
  cases hl : lookup es s.id with
  | none => exact hes.carries.getBlob_none hl cap
  | some e =>
    rw [hes.getBlob, show lookup es (nsHash configNamespace, s.key) = some e from hl]
    rfl

theorem Keeps.length_le (s : Setting) : ∀ bytes, cfg s = some bytes → bytes.length ≤ s.room := by
  obtain ⟨es, -, -, hcfg⟩ := h
  exact (hcfg s).2

/-- Six settings always fit one sector. -/
theorem Keeps.write {s : Setting} {bytes : List UInt8} (type : UInt8)
    (hseq : S.activeSeq + 1 < 2 ^ 32) (hlen : bytes.length ≤ s.room) :
    ∃ S', kvWriteEntry S (nsHash configNamespace) s.key type bytes = (Err.ok, S') ∧
      Keeps S' (Function.update cfg s (some bytes)) ∧ S'.activeSeq ≤ S.activeSeq + 1 := by
  obtain ⟨es, hes, hids, hcfg⟩ := h
  have hfew : ∀ ks : List (UInt8 × CName), ks.Nodup → (∀ k ∈ ks, k ∈ ids es) → ks.length ≤ 6 := by
    intro ks hn hks
    refine (hn.subperm fun k hk => ?_ : ks.Subperm (Setting.all.map Setting.id)).length_le
    obtain ⟨e, he, rfl⟩ := List.mem_map.mp (hks k hk)
    obtain ⟨t, ht⟩ := hids e he
    rw [ht]
    exact List.mem_map_of_mem t.mem_all
  let e : Entry := ⟨nsHash configNamespace, s.key, type, bytes⟩
  have hroom : s.room ≤ kvValMax := by cases s <;> decide
  have hid : e.id = s.id := rfl
  have hw : e.Wf := ⟨s.key_length.1, s.key_length.2, hlen.trans hroom,
    (by decide : nsHash configNamespace ≠ 0xFF)⟩
  have hkeys : CompactRoom S := by
    refine ⟨?_, hseq⟩
    have := hfew _ (List.nodup_dedup (kvKeys S)) fun k hk => by
      rwa [List.mem_dedup, hes.carries.keys] at hk
    simp only [kvEntryMax]
    omega
  have hlive : size (live es) ≤ 260 * 6 := by
    have hn := hfew _ nodup_live fun k hk => by
      obtain ⟨x, hx, rfl⟩ := List.mem_map.mp hk
      exact List.mem_map_of_mem (mem_of_mem_live hx)
    rw [ids, List.length_map] at hn
    exact (size_le fun x hx => (hes.wf x (mem_of_mem_live hx)).toSane.span_le).trans
      (Nat.mul_le_mul_left 260 hn)
  have hfit : pageHeaderSize + size (live es) + e.span < kvSectorSize := by
    have := hw.toSane.span_le
    simp only [pageHeaderSize, kvSectorSize]
    omega
  obtain ⟨S', es', hS, hes', hlook, hmem, hseq'⟩ := hes.write_room hw hkeys hfit
  refine ⟨S', hS, ⟨es', hes', fun d hd => ?_, fun t => ?_⟩, hseq'⟩
  · rcases hmem d hd with rfl | hd
    · exact ⟨s, rfl⟩
    · exact hids d hd
  · rw [hlook, hid]
    by_cases hst : s = t
    · subst hst
      rw [if_pos rfl, Function.update_self]
      exact ⟨rfl, fun b hb => by cases hb; exact hlen⟩
    · rw [if_neg fun heq => hst (Setting.id_injective heq),
        Function.update_of_ne fun hts => hst hts.symm]
      exact hcfg t

/-- Without a buffer the probe fails whatever the store holds. -/
theorem Keeps.setDefaultStr {s : Setting} (value : CName) (hseq : S.activeSeq + 1 < 2 ^ 32)
    (hlen : (value ++ [0]).length ≤ s.room) :
    ∃ S', configSetDefaultStr S (nsHash configNamespace) s.key value = (Err.ok, S') ∧
      Keeps S' (Function.update cfg s (some (value ++ [0]))) ∧
        S'.activeSeq ≤ S.activeSeq + 1 :=
  h.write kvTypeStr hseq hlen

/-- A probe that fails only for a setting without a value. -/
theorem Keeps.setDefault {s : Setting} {bytes : List UInt8} {r : Err × Store} (type : UInt8)
    (hseq : S.activeSeq + 1 < 2 ^ 32) (hlen : bytes.length ≤ s.room)
    (hr : r = if (cfg s).isSome then (Err.ok, S)
      else kvWriteEntry S (nsHash configNamespace) s.key type bytes) :
    ∃ S', r = (Err.ok, S') ∧ Keeps S' (Function.update cfg s (some ((cfg s).getD bytes))) ∧
      S'.activeSeq ≤ S.activeSeq + 1 := by
  subst hr
  cases hs : cfg s with
  | none => exact h.write type hseq hlen
  | some old =>
    have hsame : Function.update cfg s (some ((some old).getD bytes)) = cfg := by
      rw [Option.getD_some, ← hs, Function.update_eq_self]
    exact ⟨S, rfl, by rwa [hsame], Nat.le_succ _⟩

theorem Keeps.setDefaultI32 {s : Setting} (value : ℤ) (hroom : s.room = 4)
    (hseq : S.activeSeq + 1 < 2 ^ 32) :
    ∃ S', configSetDefaultI32 S (nsHash configNamespace) s.key value = (Err.ok, S') ∧
      Keeps S' (Function.update cfg s (some ((cfg s).getD (le32 (u32 value))))) ∧
        S'.activeSeq ≤ S.activeSeq + 1 := by
  refine h.setDefault kvTypeI32 hseq (le_of_eq hroom.symm) ?_
  have hlen := h.length_le s
  unfold configSetDefaultI32 kvGetI32
  rw [h.getBlob s 4]
  cases hs : cfg s with
  | none => rfl
  | some bytes =>
    have hle := hlen bytes hs
    rw [hroom] at hle
    simp [Nat.not_lt_of_le hle, Except.map]

theorem Keeps.setDefaultU8 {s : Setting} (value : ℕ) (hroom : s.room = 1)
    (hseq : S.activeSeq + 1 < 2 ^ 32) :
    ∃ S', configSetDefaultU8 S (nsHash configNamespace) s.key value = (Err.ok, S') ∧
      Keeps S' (Function.update cfg s (some ((cfg s).getD [UInt8.ofNat value]))) ∧
        S'.activeSeq ≤ S.activeSeq + 1 := by
  refine h.setDefault kvTypeU8 hseq (le_of_eq hroom.symm) ?_
  have hlen := h.length_le s
  unfold configSetDefaultU8 kvGetU8
  rw [h.getBlob s 1]
  cases hs : cfg s with
  | none => rfl
  | some bytes =>
    have hle := hlen bytes hs
    rw [hroom] at hle
    simp [Nat.not_lt_of_le hle, Except.map]

end Keeps

/-- The settings behind a boot: the strings start again at their defaults. -/
def bootValues (cfg : Values) : Values
  | .logLevel => some ((cfg .logLevel).getD (le32 (u32 defaultLogLevel)))
  | .safeMode => some ((cfg .safeMode).getD [UInt8.ofNat defaultSafeMode])
  | .bootCount => some ((cfg .bootCount).getD (le32 (u32 defaultBootCount)))
  | .deviceName => some (defaultDeviceName ++ [0])
  | .wifiSsid => some (defaultWifiSsid ++ [0])
  | .wifiPassword => some (defaultWifiPassword ++ [0])

theorem orFail_ok (S : Store) (next : Store → Err × Store) : orFail (Err.ok, S) next = next S :=
  if_pos rfl

theorem Keeps.initDefaults {S : Store} {cfg : Values} (h : Keeps S cfg)
    (hseq : S.activeSeq + 6 < 2 ^ 32) :
    ∃ S', configInitDefaults S = (Err.ok, S') ∧ Keeps S' (bootValues cfg) ∧
      S'.activeSeq ≤ S.activeSeq + 6 := by
  obtain ⟨S₁, e₁, h₁, q₁⟩ := h.setDefaultStr (s := .deviceName) defaultDeviceName (by omega)
    (by decide)
  obtain ⟨S₂, e₂, h₂, q₂⟩ := h₁.setDefaultI32 (s := .logLevel) defaultLogLevel rfl
    (by omega)
  obtain ⟨S₃, e₃, h₃, q₃⟩ := h₂.setDefaultStr (s := .wifiSsid) defaultWifiSsid (by omega)
    (by decide)
  obtain ⟨S₄, e₄, h₄, q₄⟩ := h₃.setDefaultStr (s := .wifiPassword) defaultWifiPassword
    (by omega) (by decide)
  obtain ⟨S₅, e₅, h₅, q₅⟩ := h₄.setDefaultU8 (s := .safeMode) defaultSafeMode rfl
    (by omega)
  obtain ⟨S₆, e₆, h₆, q₆⟩ := h₅.setDefaultI32 (s := .bootCount) defaultBootCount rfl
    (by omega)
  refine ⟨S₆, ?_, ?_, by omega⟩
  · simp only [Setting.key] at e₁ e₂ e₃ e₄ e₅ e₆
    simp only [configInitDefaults, h.open, e₁, orFail_ok, e₂, e₃, e₄, e₅, e₆]
  · convert h₆ using 1
    funext s
    cases s <;> simp [bootValues, Function.update]

end ReflexOS.Storage
