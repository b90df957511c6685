import ReflexOS.ShellPolicy
import ReflexOS.GooseMesh

set_option autoImplicit false

/-!
# The shell

The handlers behind the dispatch table, with every branch an observer can reach. The
branches the policy keeps for higher roles act through `privileged`, about which nothing is
assumed.
-/
namespace ReflexOS.Shell
open Goose

def isSpace (c : UInt8) : Bool := decide (c = 32 ∨ (9 ≤ c ∧ c ≤ 13))

def digitValue (c : UInt8) : ℕ :=
  if 48 ≤ c ∧ c ≤ 57 then c.toNat - 48
  else if 97 ≤ c ∧ c ≤ 122 then c.toNat - 87
  else if 65 ≤ c ∧ c ≤ 90 then c.toNat - 55
  else 36

/-- The base a number announces, and its digits. -/
def splitBase : CName → ℕ × CName
  | 48 :: x :: d :: rest =>
    if (x = 120 ∨ x = 88) ∧ digitValue d < 16 then (16, d :: rest) else (8, 48 :: x :: d :: rest)
  | 48 :: rest => (8, 48 :: rest)
  | s => (10, s)

def splitSign : CName → Bool × CName
  | 45 :: rest => (true, rest)
  | 43 :: rest => (false, rest)
  | s => (false, s)

/-- `strtoul` with base 0, where a `long` has 32 bits. -/
def strtoul (s : CName) : ℕ :=
  let sign := splitSign (s.dropWhile isSpace)
  let based := splitBase sign.2
  let digits := (based.2.map digitValue).takeWhile fun d => decide (d < based.1)
  let value := digits.foldl (fun acc d => acc * based.1 + d) 0
  if 2 ^ 32 ≤ value then 2 ^ 32 - 1
  else if sign.1 then (2 ^ 32 - value) % 2 ^ 32
  else value

/-- Who owns the coexistence priority register. -/
inductive PtiBackend where
  | noMac
  | coexistence
  | reflexMac
deriving DecidableEq

def coexPtiReg : ℕ := 0x600A3070
def coexPtiWritable : ℕ := 0x1FF

structure ShellState (KV VM : Type*) where
  role : Role
  fabric : Fabric
  mesh : Mesh
  kv : KV
  vm : VM
  radioRegs : ℕ → ℕ

/-- The board a command runs on, at the time it runs. -/
structure ShellHost (KV VM : Type*) where
  atlas : Atlas
  hmac : List UInt8 → List UInt8
  lock : Bool
  now : ℕ
  pti : PtiBackend
  kernelScheduler : Bool
  privileged : List CName → ShellState KV VM → ShellState KV VM

variable {KV VM : Type*}

def extraArgs (argv : List CName) (expected : ℕ) : Bool := decide (expected < argv.length)

def resolveName (H : ShellHost KV VM) (S : ShellState KV VM) (name : CName) : ShellState KV VM :=
  let got := gooniesResolveCell H.atlas H.hmac H.lock H.now S.fabric S.mesh name
  { S with fabric := got.2.1, mesh := got.2.2 }

def radioSetCoexPti (H : ShellHost KV VM) (S : ShellState KV VM) (value : ℕ) : ShellState KV VM :=
  match H.pti with
  | .noMac | .coexistence => S
  | .reflexMac =>
    if value &&& (0xFFFFFFFF ^^^ coexPtiWritable) ≠ 0 then S
    else { S with radioRegs := Function.update S.radioRegs coexPtiReg value }

/-- A command that prints what it reads. -/
def shellCmdPrint (_ : ShellHost KV VM) (_ : List CName) (S : ShellState KV VM) :
    ShellState KV VM := S

def shellCmdPrivileged (H : ShellHost KV VM) (argv : List CName) (S : ShellState KV VM) :
    ShellState KV VM := H.privileged argv S

def shellCmdGoonies (H : ShellHost KV VM) (argv : List CName) (S : ShellState KV VM) :
    ShellState KV VM :=
  if argIs argv 1 "ls" then S
  else if 3 ≤ argv.length ∧ argIs argv 1 "find" then
    if extraArgs argv 3 then S else resolveName H S (argv.getD 2 [])
  else if 3 ≤ argv.length ∧ argIs argv 1 "read" then H.privileged argv S
  else S

def shellCmdLed (H : ShellHost KV VM) (argv : List CName) (S : ShellState KV VM) :
    ShellState KV VM :=
  if argIs argv 1 "status" then S
  else if argIs argv 1 "on" || argIs argv 1 "off" then H.privileged argv S
  else S

def dispositionName : CName := ascii "sys.kernel.disposition"

def shellCmdKernel (H : ShellHost KV VM) (argv : List CName) (S : ShellState KV VM) :
    ShellState KV VM :=
  if H.kernelScheduler && (argIs argv 1 "tick" || argIs argv 1 "tasks") then S
  else if H.kernelScheduler && (argIs argv 1 "selftest" || argIs argv 1 "wdt") then
    H.privileged argv S
  else resolveName H S dispositionName

def shellCmdLoom (H : ShellHost KV VM) (argv : List CName) (S : ShellState KV VM) :
    ShellState KV VM :=
  if 3 ≤ argv.length ∧ argIs argv 1 "load" then H.privileged argv S else S

def shellCmdConfig (H : ShellHost KV VM) (argv : List CName) (S : ShellState KV VM) :
    ShellState KV VM :=
  if 3 ≤ argv.length ∧ argIs argv 1 "get" then S
  else if 4 ≤ argv.length ∧ argIs argv 1 "set" then H.privileged argv S
  else S

def temperatureName : CName := ascii "perception.temp.reading"

def shellCmdTemp (H : ShellHost KV VM) (_ : List CName) (S : ShellState KV VM) :
    ShellState KV VM := resolveName H S temperatureName

def shellCmdSnapshot (H : ShellHost KV VM) (argv : List CName) (S : ShellState KV VM) :
    ShellState KV VM :=
  if argIs argv 1 "save" || argIs argv 1 "load" || argIs argv 1 "clear" then H.privileged argv S
  else S

def shellCmdPurpose (H : ShellHost KV VM) (argv : List CName) (S : ShellState KV VM) :
    ShellState KV VM :=
  if 3 ≤ argv.length ∧ argIs argv 1 "set" then H.privileged argv S
  else if argIs argv 1 "get" then resolveName H S seedPurpose
  else if argIs argv 1 "clear" then H.privileged argv S
  else S

def shellCmdMesh (H : ShellHost KV VM) (argv : List CName) (S : ShellState KV VM) :
    ShellState KV VM :=
  if argIs argv 1 "mac" then S
  else if 3 ≤ argv.length ∧ argIs argv 1 "emit" then H.privileged argv S
  else if 3 ≤ argv.length ∧ argIs argv 1 "query" then H.privileged argv S
  else if 4 ≤ argv.length ∧ argIs argv 1 "posture" then H.privileged argv S
  else if argIs argv 1 "macstats" then S
  else if 3 ≤ argv.length ∧ argIs argv 1 "pti" then
    radioSetCoexPti H S (strtoul (argv.getD 2 []))
  else if argIs argv 1 "regs" || argIs argv 1 "stat" then S
  else if 4 ≤ argv.length ∧ argIs argv 1 "peer" ∧ argIs argv 2 "add" then H.privileged argv S
  else if argIs argv 1 "peer" && argIs argv 2 "ls" || argIs argv 1 "status" then S
  else if argIs argv 1 "ping" then H.privileged argv S
  else S

def shellCmdVm (H : ShellHost KV VM) (argv : List CName) (S : ShellState KV VM) :
    ShellState KV VM :=
  if argIs argv 1 "info" then S
  else if 3 ≤ argv.length ∧ argIs argv 1 "run" then H.privileged argv S
  else if argIs argv 1 "stop" then H.privileged argv S
  else if argIs argv 1 "list" then S
  else if 3 ≤ argv.length ∧ argIs argv 1 "loadhex" then H.privileged argv S
  else S

def shellCmdVitals (H : ShellHost KV VM) (argv : List CName) (S : ShellState KV VM) :
    ShellState KV VM :=
  if 4 ≤ argv.length ∧ argIs argv 1 "override" then H.privileged argv S
  else if argIs argv 1 "clear" then H.privileged argv S
  else S

def shellCmdTelemetry (H : ShellHost KV VM) (argv : List CName) (S : ShellState KV VM) :
    ShellState KV VM :=
  if argIs argv 1 "on" || argIs argv 1 "off" then H.privileged argv S else S

def roleNames : List (CName × Role) :=
  [(ascii "observer", .observer), (ascii "agent", .agent), (ascii "operator", .operator),
   (ascii "admin", .admin)]

def shellCmdAuth (_ : ShellHost KV VM) (argv : List CName) (S : ShellState KV VM) :
    ShellState KV VM :=
  if 3 ≤ argv.length ∧ argIs argv 1 "role" then
    if extraArgs argv 3 then S
    else
      match roleNames.find? fun entry => decide (argv.getD 2 [] = entry.1) with
      | none => S
      | some entry => { S with role := entry.2 }
  else S

abbrev Handler (KV VM : Type*) := ShellHost KV VM → List CName → ShellState KV VM → ShellState KV VM

def commands : List (CName × Handler KV VM) :=
  [(ascii "help", shellCmdPrint), (ascii "status", shellCmdPrint),
   (ascii "reboot", shellCmdPrivileged), (ascii "sleep", shellCmdPrivileged),
   (ascii "goonies", shellCmdGoonies), (ascii "atlas", shellCmdPrint),
   (ascii "led", shellCmdLed), (ascii "bonsai", shellCmdPrivileged),
   (ascii "kernel", shellCmdKernel), (ascii "loom", shellCmdLoom),
   (ascii "tapestry", shellCmdPrivileged), (ascii "services", shellCmdPrint),
   (ascii "config", shellCmdConfig), (ascii "temp", shellCmdTemp),
   (ascii "snapshot", shellCmdSnapshot), (ascii "purpose", shellCmdPurpose),
   (ascii "heartbeat", shellCmdPrint), (ascii "mesh", shellCmdMesh),
   (ascii "aura", shellCmdPrivileged), (ascii "vm", shellCmdVm),
   (ascii "telemetry", shellCmdTelemetry), (ascii "vitals", shellCmdVitals),
   (ascii "auth", shellCmdAuth)]

def dispatch (H : ShellHost KV VM) (argv : List CName) (S : ShellState KV VM) :
    ShellState KV VM :=
  match argv.head? with
  | none => S
  | some word =>
    match commands.find? fun cmd => decide (word = cmd.1) with
    | none => S
    | some cmd =>
      if S.role.level < (requiredRole cmd.1 argv).level then S else cmd.2 H argv S

end ReflexOS.Shell
