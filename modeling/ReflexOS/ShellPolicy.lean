import ReflexOS.Types
import Mathlib.Tactic.DeriveFintype

set_option autoImplicit false

/-!
# Roles of a shell session

A command sits at the lowest role any of its sub-commands needs; an escalation table raises
single sub-commands from there.
-/
namespace ReflexOS.Shell

inductive Role where
  | observer
  | agent
  | operator
  | admin
deriving DecidableEq, Repr

def Role.level : Role → ℕ
  | .observer => 0
  | .agent => 1
  | .operator => 2
  | .admin => 3

/-- Argument `i` is there and is the word. -/
def argIs (argv : List CName) (i : ℕ) (word : String) : Bool := decide (argv[i]? = some (ascii word))

def policy : List (CName × Role) :=
  [(ascii "help", .observer), (ascii "status", .observer), (ascii "reboot", .admin),
   (ascii "sleep", .admin), (ascii "goonies", .observer), (ascii "atlas", .observer),
   (ascii "led", .observer), (ascii "bonsai", .operator), (ascii "kernel", .observer),
   (ascii "loom", .observer), (ascii "tapestry", .operator), (ascii "services", .observer),
   (ascii "config", .observer), (ascii "temp", .observer), (ascii "snapshot", .observer),
   (ascii "purpose", .observer), (ascii "heartbeat", .observer), (ascii "mesh", .observer),
   (ascii "aura", .admin), (ascii "vm", .observer), (ascii "telemetry", .observer),
   (ascii "vitals", .observer), (ascii "auth", .observer)]

/-- An unlisted command requires admin. -/
def baseMinRole (cmd : CName) : Role :=
  match policy.find? fun entry => decide (entry.1 = cmd) with
  | none => .admin
  | some entry => entry.2

def subcmdMinRole (cmd : CName) (argv : List CName) : Role :=
  let sub := argIs argv 1
  if cmd = ascii "mesh" then
    if sub "emit" || sub "ping" || sub "posture" || sub "query" then .operator
    else if sub "peer" && argIs argv 2 "add" then .admin
    else .observer
  else if cmd = ascii "vm" then
    if sub "run" || sub "stop" then .operator
    else if sub "loadhex" then .admin
    else .observer
  else if cmd = ascii "snapshot" then
    if sub "save" || sub "load" then .agent
    else if sub "clear" then .admin
    else .observer
  else if cmd = ascii "purpose" then
    if sub "set" || sub "clear" then .agent else .observer
  else if cmd = ascii "config" then
    if sub "set" then .admin else .observer
  else if cmd = ascii "vitals" then
    if sub "override" || sub "clear" then .admin else .observer
  else if cmd = ascii "telemetry" then
    if sub "on" || sub "off" then .operator else .observer
  else if cmd = ascii "led" then
    if sub "on" || sub "off" then .operator else .observer
  else if cmd = ascii "loom" then
    if sub "load" then .admin else .observer
  else if cmd = ascii "kernel" then
    if sub "wdt" then .admin
    else if sub "tasks" then .observer
    else if sub "selftest" then .admin
    else .observer
  else if cmd = ascii "goonies" then
    if sub "read" then .operator else .observer
  else .observer

def requiredRole (cmd : CName) (argv : List CName) : Role :=
  if (baseMinRole cmd).level < (subcmdMinRole cmd argv).level then subcmdMinRole cmd argv
  else baseMinRole cmd

end ReflexOS.Shell
