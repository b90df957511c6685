import ReflexOS.ShellDispatch

set_option autoImplicit false

/-!
# Observer sessions

What the policy lets an observer run either prints, looks one name up, or writes the
coexistence priority of the radio.
-/
namespace ReflexOS.Shell
open Goose

variable {KV VM : Type*}

/-- Everything a command could change on behalf of its session. -/
structure ReadOnly (S S' : ShellState KV VM) : Prop where
  fabric : S'.fabric = S.fabric
  peers : S'.mesh.peers = S.mesh.peers
  sent : S'.mesh.sent = S.mesh.sent
  kv : S'.kv = S.kv
  vm : S'.vm = S.vm
  radioRegs : S'.radioRegs = S.radioRegs

/-- The name an observer's command line has the substrate resolve. -/
def lookedUp (H : ShellHost KV VM) (argv : List CName) : Option CName :=
  if argIs argv 0 "goonies" then
    if argIs argv 1 "find" && decide (argv.length = 3) then argv[2]? else none
  else if argIs argv 0 "kernel" then
    if argIs argv 1 "selftest" || argIs argv 1 "wdt" then none
    else if H.kernelScheduler && (argIs argv 1 "tick" || argIs argv 1 "tasks") then none
    else some dispositionName
  else if argIs argv 0 "temp" then some temperatureName
  else if argIs argv 0 "purpose" && argIs argv 1 "get" then some seedPurpose
  else none

/-- The value an observer's command line writes to the priority register. -/
def ptiWritten (H : ShellHost KV VM) (argv : List CName) : Option ℕ :=
  if argIs argv 0 "mesh" && argIs argv 1 "pti" && decide (3 ≤ argv.length) &&
      decide (H.pti = .reflexMac) then
    let value := strtoul (argv.getD 2 [])
    if value &&& (0xFFFFFFFF ^^^ coexPtiWritable) ≠ 0 then none else some value
  else none

/-- The lookup leaves no trace, and the register holds the value already. -/
def Quiet (H : ShellHost KV VM) (S : ShellState KV VM) (argv : List CName) : Prop :=
  (∀ name, lookedUp H argv = some name →
    LookupQuiet H.atlas H.lock H.now S.fabric S.mesh name) ∧
  ∀ value, ptiWritten H argv = some value → S.radioRegs coexPtiReg = value

def observerEffect (H : ShellHost KV VM) (argv : List CName) (S : ShellState KV VM) :
    ShellState KV VM :=
  match lookedUp H argv, ptiWritten H argv with
  | some name, _ => resolveName H S name
  | none, some value => { S with radioRegs := Function.update S.radioRegs coexPtiReg value }
  | none, none => S

theorem argIs_head (word : CName) (rest : List CName) (s : String) :
    argIs (word :: rest) 0 s = decide (word = ascii s) := by
  simp [argIs]

theorem argIs_other {argv : List CName} {i : ℕ} {s t : String} (h : argIs argv i s = true)
    (hne : ascii s ≠ ascii t) : argIs argv i t = false := by
  have hget : argv[i]? = some (ascii s) := of_decide_eq_true h
  rw [argIs, hget]
  exact decide_eq_false fun he => hne (Option.some.inj he)

/-- An observer may run the line. -/
def Allowed (cmd : CName) (argv : List CName) : Prop := (requiredRole cmd argv).level = 0

theorem allowed_iff {cmd : CName} (argv : List CName) : Allowed cmd argv ↔
    baseMinRole cmd = .observer ∧ subcmdMinRole cmd argv = .observer := by
  unfold Allowed requiredRole
  cases baseMinRole cmd <;> cases subcmdMinRole cmd argv <;> simp [Role.level]

theorem observerEffect_none {H : ShellHost KV VM} {argv : List CName} (S : ShellState KV VM)
    (hname : lookedUp H argv = none) (hpti : ptiWritten H argv = none) :
    observerEffect H argv S = S := by
  rw [observerEffect, hname, hpti]

theorem observerEffect_name {H : ShellHost KV VM} {argv : List CName} (S : ShellState KV VM)
    {name : CName} (hname : lookedUp H argv = some name) :
    observerEffect H argv S = resolveName H S name := by
  rw [observerEffect, hname]

theorem ungated {c : Bool} {r r' : Role} (h : (if c then r else r') = .observer)
    (hr : r ≠ .observer) : c = false ∧ r' = .observer := by
  cases c with
  | true => exact absurd h hr
  | false => exact ⟨rfl, h⟩

section Handlers

variable (H : ShellHost KV VM) (S : ShellState KV VM) {argv : List CName}

/-- The commands that do more than print, for an observer. -/
def effectful : List CName :=
  [ascii "goonies", ascii "kernel", ascii "temp", ascii "purpose", ascii "mesh"]

theorem observerEffect_other {cmd : CName} (rest : List CName) (h : cmd ∉ effectful) :
    observerEffect H (cmd :: rest) S = S := by
  simp only [effectful, List.mem_cons, List.not_mem_nil, or_false, not_or] at h
  obtain ⟨hgoonies, hkernel, htemp, hpurpose, hmesh⟩ := h
  apply observerEffect_none
  · simp [lookedUp, argIs_head, hgoonies, hkernel, htemp, hpurpose]
  · simp [ptiWritten, argIs_head, hmesh]

theorem led_effect (h : Allowed (ascii "led") argv) : shellCmdLed H argv S = S := by
  obtain ⟨hgate, -⟩ := ungated ((allowed_iff argv).mp h).2 (by decide)
  simp [shellCmdLed, hgate]

theorem loom_effect (h : Allowed (ascii "loom") argv) : shellCmdLoom H argv S = S := by
  obtain ⟨hgate, -⟩ := ungated ((allowed_iff argv).mp h).2 (by decide)
  simp [shellCmdLoom, hgate]

theorem config_effect (h : Allowed (ascii "config") argv) : shellCmdConfig H argv S = S := by
  obtain ⟨hgate, -⟩ := ungated ((allowed_iff argv).mp h).2 (by decide)
  simp [shellCmdConfig, hgate]

theorem telemetry_effect (h : Allowed (ascii "telemetry") argv) :
    shellCmdTelemetry H argv S = S := by
  obtain ⟨hgate, -⟩ := ungated ((allowed_iff argv).mp h).2 (by decide)
  simp [shellCmdTelemetry, hgate]

theorem vitals_effect (h : Allowed (ascii "vitals") argv) : shellCmdVitals H argv S = S := by
  obtain ⟨hgate, -⟩ := ungated ((allowed_iff argv).mp h).2 (by decide)
  simp only [Bool.or_eq_false_iff] at hgate
  simp [shellCmdVitals, hgate.1, hgate.2]

theorem snapshot_effect (h : Allowed (ascii "snapshot") argv) : shellCmdSnapshot H argv S = S := by
  obtain ⟨hgate, hrest⟩ := ungated ((allowed_iff argv).mp h).2 (by decide)
  obtain ⟨hclear, -⟩ := ungated hrest (by decide)
  simp [shellCmdSnapshot, hgate, hclear]

theorem vm_effect (h : Allowed (ascii "vm") argv) : shellCmdVm H argv S = S := by
  obtain ⟨hgate, hrest⟩ := ungated ((allowed_iff argv).mp h).2 (by decide)
  obtain ⟨hload, -⟩ := ungated hrest (by decide)
  simp only [Bool.or_eq_false_iff] at hgate
  simp [shellCmdVm, hgate.1, hgate.2, hload]

theorem temp_effect (rest : List CName) : shellCmdTemp H (ascii "temp" :: rest) S =
    observerEffect H (ascii "temp" :: rest) S := by
  rw [observerEffect_name S (show lookedUp H (ascii "temp" :: rest) = some temperatureName from rfl)]
  rfl

theorem goonies_effect {rest : List CName} (h : Allowed (ascii "goonies") (ascii "goonies" :: rest)) :
    shellCmdGoonies H (ascii "goonies" :: rest) S =
      observerEffect H (ascii "goonies" :: rest) S := by
  obtain ⟨hread, -⟩ := ungated ((allowed_iff (ascii "goonies" :: rest)).mp h).2 (by decide)
  obtain ⟨argv, hargv⟩ : ∃ argv, argv = ascii "goonies" :: rest := ⟨_, rfl⟩
  have hlook : lookedUp H argv =
      if argIs argv 1 "find" && decide (argv.length = 3) then argv[2]? else none := hargv ▸ rfl
  have hpti : ptiWritten H argv = none := hargv ▸ rfl
  rw [← hargv] at hread ⊢
  unfold shellCmdGoonies
  cases hfind : argIs argv 1 "find" with
  | false =>
    rw [observerEffect_none S (by simp [hlook, hfind]) hpti]
    simp [hread]
  | true =>
    rw [argIs_other hfind (by decide)]
    by_cases hlen : argv.length = 3
    · obtain ⟨name, hname⟩ : ∃ name, argv[2]? = some name :=
        ⟨_, List.getElem?_eq_getElem (by omega)⟩
      have hget : argv.getD 2 [] = name := by
        rw [List.getD_eq_getElem?_getD, hname]
        rfl
      rw [hfind, decide_eq_true hlen, hname] at hlook
      rw [observerEffect_name S hlook, hget]
      simp [hlen, extraArgs]
    · rw [observerEffect_none S (by simp [hlook, hlen]) hpti]
      by_cases hmore : 3 < argv.length
      · simp [extraArgs, hmore, hmore.le]
      · have hfew : ¬ 3 ≤ argv.length := by omega
        simp [hfew]

theorem kernel_effect {rest : List CName} (h : Allowed (ascii "kernel") (ascii "kernel" :: rest)) :
    shellCmdKernel H (ascii "kernel" :: rest) S = observerEffect H (ascii "kernel" :: rest) S := by
  obtain ⟨hwdt, hrest⟩ := ungated ((allowed_iff (ascii "kernel" :: rest)).mp h).2 (by decide)
  obtain ⟨argv, hargv⟩ : ∃ argv, argv = ascii "kernel" :: rest := ⟨_, rfl⟩
  have hlook : lookedUp H argv =
      if argIs argv 1 "selftest" || argIs argv 1 "wdt" then none
      else if H.kernelScheduler && (argIs argv 1 "tick" || argIs argv 1 "tasks") then none
      else some dispositionName := hargv ▸ rfl
  have hpti : ptiWritten H argv = none := hargv ▸ rfl
  rw [← hargv] at hwdt hrest ⊢
  have hself : argIs argv 1 "selftest" = false := by
    cases htasks : argIs argv 1 "tasks" with
    | true => exact argIs_other htasks (by decide)
    | false =>
      rw [htasks, if_neg (by simp)] at hrest
      exact (ungated hrest (by decide)).1
  unfold shellCmdKernel
  simp only [hself, hwdt, Bool.or_self, Bool.and_false, Bool.false_eq_true, if_false] at hlook ⊢
  split at hlook
  next hprint => rw [if_pos hprint, observerEffect_none S hlook hpti]
  next hprint => rw [if_neg hprint, observerEffect_name S hlook]

theorem purpose_effect {rest : List CName} (h : Allowed (ascii "purpose") (ascii "purpose" :: rest)) :
    shellCmdPurpose H (ascii "purpose" :: rest) S =
      observerEffect H (ascii "purpose" :: rest) S := by
  obtain ⟨hgate, -⟩ := ungated ((allowed_iff (ascii "purpose" :: rest)).mp h).2 (by decide)
  obtain ⟨argv, hargv⟩ : ∃ argv, argv = ascii "purpose" :: rest := ⟨_, rfl⟩
  have hlook : lookedUp H argv = if argIs argv 1 "get" then some seedPurpose else none :=
    hargv ▸ rfl
  have hpti : ptiWritten H argv = none := hargv ▸ rfl
  rw [← hargv] at hgate ⊢
  simp only [Bool.or_eq_false_iff] at hgate
  unfold shellCmdPurpose
  simp only [hgate.1, hgate.2, Bool.false_eq_true, and_false, if_false]
  split at hlook
  next hget => rw [if_pos hget, observerEffect_name S hlook]
  next hget => rw [if_neg hget, observerEffect_none S hlook hpti]

theorem radioSetCoexPti_eq (value : ℕ) : radioSetCoexPti H S value =
    if H.pti = .reflexMac ∧ value &&& (0xFFFFFFFF ^^^ coexPtiWritable) = 0 then
      { S with radioRegs := Function.update S.radioRegs coexPtiReg value }
    else S := by
  unfold radioSetCoexPti
  cases H.pti <;> simp [ite_not]

theorem mesh_effect {rest : List CName} (h : Allowed (ascii "mesh") (ascii "mesh" :: rest)) :
    shellCmdMesh H (ascii "mesh" :: rest) S = observerEffect H (ascii "mesh" :: rest) S := by
  obtain ⟨hgate, hrest⟩ := ungated ((allowed_iff (ascii "mesh" :: rest)).mp h).2 (by decide)
  obtain ⟨hadd, -⟩ := ungated hrest (by decide)
  obtain ⟨argv, hargv⟩ : ∃ argv, argv = ascii "mesh" :: rest := ⟨_, rfl⟩
  have hlook : lookedUp H argv = none := hargv ▸ rfl
  have hhead : argIs argv 0 "mesh" = true := hargv ▸ rfl
  rw [← hargv] at hgate hadd ⊢
  simp only [Bool.or_eq_false_iff] at hgate
  obtain ⟨⟨⟨hemit, hping⟩, hposture⟩, hquery⟩ := hgate
  unfold shellCmdMesh
  simp only [hemit, hping, hposture, hquery, Bool.false_eq_true, and_false, if_false]
  cases hpti : argIs argv 1 "pti" with
  | false =>
    have hnot : ¬ (4 ≤ argv.length ∧ argIs argv 1 "peer" = true ∧ argIs argv 2 "add" = true) := by
      rintro ⟨-, hpeer, hword⟩
      rw [hpeer, hword] at hadd
      cases hadd
    rw [observerEffect_none S hlook (by simp [ptiWritten, hpti])]
    simp only [hnot, Bool.false_eq_true, and_false, if_false, ite_self]
  | true =>
    have hnot : ¬ (4 ≤ argv.length ∧ argIs argv 1 "peer" = true ∧ argIs argv 2 "add" = true) := by
      rw [argIs_other hpti (show ascii "pti" ≠ ascii "peer" by decide)]
      simp
    have hwritten : ptiWritten H argv = if 3 ≤ argv.length ∧ H.pti = .reflexMac ∧
        strtoul (argv.getD 2 []) &&& (0xFFFFFFFF ^^^ coexPtiWritable) = 0 then
          some (strtoul (argv.getD 2 [])) else none := by
      simp only [ptiWritten, hhead, hpti, Bool.true_and, Bool.and_eq_true, decide_eq_true_eq, ite_not,
        ← ite_and, and_assoc, ne_eq]
    rw [argIs_other hpti (show ascii "pti" ≠ ascii "mac" by decide),
      argIs_other hpti (show ascii "pti" ≠ ascii "macstats" by decide)]
    simp only [hnot, Bool.false_eq_true, and_true, if_false, ite_self]
    rw [radioSetCoexPti_eq, ← ite_and]
    split at hwritten
    next hput => rw [if_pos hput, observerEffect, hlook, hwritten]
    next hput => rw [if_neg hput, observerEffect_none S hlook hwritten]

theorem gated {c : Bool} {r r' : Role} (h : (if c then r else r') ≠ .observer) :
    c = true ∨ r' ≠ .observer := by
  cases c with
  | true => exact .inl rfl
  | false => exact .inr h

theorem subcmd_of_denied {cmd : CName} (hbase : baseMinRole cmd = .observer)
    (h : ¬ Allowed cmd argv) : subcmdMinRole cmd argv ≠ .observer :=
  fun hsub => h ((allowed_iff argv).mpr ⟨hbase, hsub⟩)

/-- No line that is denied looks a name up or writes the register. -/
theorem denied_effect {cmd : CName} {rest : List CName} (h : ¬ Allowed cmd (cmd :: rest)) :
    observerEffect H (cmd :: rest) S = S := by
  obtain ⟨argv, hargv⟩ : ∃ argv, argv = cmd :: rest := ⟨_, rfl⟩
  by_cases hcmd : cmd ∉ effectful
  · exact observerEffect_other H S rest hcmd
  simp only [effectful, not_not, List.mem_cons, List.not_mem_nil, or_false] at hcmd
  rcases hcmd with rfl | rfl | rfl | rfl | rfl
  · -- goonies
    have hlook : lookedUp H argv =
        if argIs argv 1 "find" && decide (argv.length = 3) then argv[2]? else none := hargv ▸ rfl
    have hpti : ptiWritten H argv = none := hargv ▸ rfl
    rw [← hargv] at h ⊢
    rcases gated (subcmd_of_denied (by decide) h) with hread | hread
    · rw [argIs_other hread (show ascii "read" ≠ ascii "find" by decide)] at hlook
      exact observerEffect_none S hlook hpti
    · exact absurd rfl hread
  · -- kernel
    have hlook : argIs argv 1 "selftest" = true ∨ argIs argv 1 "wdt" = true →
        lookedUp H argv = none := by
      intro hword
      have hor : (argIs argv 1 "selftest" || argIs argv 1 "wdt") = true := by simpa using hword
      rw [hargv] at hor ⊢
      exact if_pos hor
    have hpti : ptiWritten H argv = none := hargv ▸ rfl
    rw [← hargv] at h ⊢
    rcases gated (subcmd_of_denied (by decide) h) with hwdt | hrest
    · exact observerEffect_none S (hlook (.inr hwdt)) hpti
    · cases htasks : argIs argv 1 "tasks" with
      | true =>
        rw [htasks] at hrest
        exact absurd rfl hrest
      | false =>
        rw [htasks, if_neg (by simp)] at hrest
        rcases gated hrest with hself | hself
        · exact observerEffect_none S (hlook (.inl hself)) hpti
        · exact absurd rfl hself
  · -- temp
    exact absurd rfl h
  · -- purpose
    have hlook : lookedUp H argv = if argIs argv 1 "get" then some seedPurpose else none :=
      hargv ▸ rfl
    have hpti : ptiWritten H argv = none := hargv ▸ rfl
    rw [← hargv] at h ⊢
    rcases gated (subcmd_of_denied (by decide) h) with hword | hword
    · have hget : argIs argv 1 "get" = false := by
        rcases (Bool.or_eq_true _ _).mp hword with hset | hclear
        · exact argIs_other hset (by decide)
        · exact argIs_other hclear (by decide)
      rw [hget] at hlook
      exact observerEffect_none S hlook hpti
    · exact absurd rfl hword
  · -- mesh
    have hlook : lookedUp H argv = none := hargv ▸ rfl
    rw [← hargv] at h ⊢
    have hpti : argIs argv 1 "pti" = false := by
      rcases gated (subcmd_of_denied (by decide) h) with hword | hrest
      · simp only [Bool.or_eq_true] at hword
        rcases hword with ((hword | hword) | hword) | hword <;> exact argIs_other hword (by decide)
      · rcases gated hrest with hpeer | hpeer
        · exact argIs_other ((Bool.and_eq_true _ _).mp hpeer).1 (by decide)
        · exact absurd rfl hpeer
    exact observerEffect_none S hlook (by simp [ptiWritten, hpti])

theorem prints_effect {cmd : CName} {handler : Handler KV VM} (hcmd : cmd ∉ effectful)
    (hprints : ∀ {argv : List CName}, Allowed cmd argv → handler H argv S = S) (rest : List CName)
    (h : Allowed cmd (cmd :: rest)) :
    handler H (cmd :: rest) S = observerEffect H (cmd :: rest) S := by
  rw [hprints h, observerEffect_other H S rest hcmd]

theorem not_allowed {cmd : CName} (hbase : baseMinRole cmd ≠ .observer) :
    ¬ Allowed cmd argv := fun h => hbase ((allowed_iff argv).mp h).1

/-- The dispatch table, entry by entry. -/
theorem command_effect : ∀ cmd ∈ (commands : List (CName × Handler KV VM)),
    cmd.1 ≠ ascii "auth" → ∀ rest, Allowed cmd.1 (cmd.1 :: rest) →
      cmd.2 H (cmd.1 :: rest) S = observerEffect H (cmd.1 :: rest) S := by
  simp only [commands, List.forall_mem_cons]
  refine ⟨fun _ => prints_effect H S (by decide) fun _ => rfl,
    fun _ => prints_effect H S (by decide) fun _ => rfl,
    fun _ _ h => absurd h (not_allowed (by decide)),
    fun _ _ h => absurd h (not_allowed (by decide)),
    fun _ _ h => goonies_effect H S h,
    fun _ => prints_effect H S (by decide) fun _ => rfl,
    fun _ => prints_effect H S (by decide) (led_effect H S),
    fun _ _ h => absurd h (not_allowed (by decide)),
    fun _ _ h => kernel_effect H S h,
    fun _ => prints_effect H S (by decide) (loom_effect H S),
    fun _ _ h => absurd h (not_allowed (by decide)),
    fun _ => prints_effect H S (by decide) fun _ => rfl,
    fun _ => prints_effect H S (by decide) (config_effect H S),
    fun _ rest _ => temp_effect H S rest,
    fun _ => prints_effect H S (by decide) (snapshot_effect H S),
    fun _ _ h => purpose_effect H S h,
    fun _ => prints_effect H S (by decide) fun _ => rfl,
    fun _ _ h => mesh_effect H S h,
    fun _ _ h => absurd h (not_allowed (by decide)),
    fun _ => prints_effect H S (by decide) (vm_effect H S),
    fun _ => prints_effect H S (by decide) (telemetry_effect H S),
    fun _ => prints_effect H S (by decide) (vitals_effect H S),
    fun hauth => absurd rfl hauth,
    fun _ h => absurd h List.not_mem_nil⟩

end Handlers

variable {H : ShellHost KV VM} {S : ShellState KV VM} {argv : List CName}

/-- An observer's command does what its line says it looks up or writes, and nothing else. -/
theorem dispatch_effect (hrole : S.role = .observer) (hauth : argv.head? ≠ some (ascii "auth")) :
    dispatch H argv S = observerEffect H argv S := by
  cases argv with
  | nil => rfl
  | cons word rest =>
    have hword : word ≠ ascii "auth" := fun he => hauth (congrArg some he)
    simp only [dispatch, List.head?_cons, hrole]
    cases hfind : (commands : List (CName × Handler KV VM)).find? fun cmd => decide (word = cmd.1)
    with
    | none =>
      have hunknown : ∀ cmd ∈ (commands : List (CName × Handler KV VM)), word ≠ cmd.1 := by
        intro cmd hmem
        simpa using List.find?_eq_none.mp hfind cmd hmem
      have hother : word ∉ effectful := by
        intro hmem
        simp only [effectful, List.mem_cons, List.not_mem_nil, or_false] at hmem
        rcases hmem with rfl | rfl | rfl | rfl | rfl
        · exact hunknown _ (List.mem_of_getElem? (i := 4) rfl) rfl
        · exact hunknown _ (List.mem_of_getElem? (i := 8) rfl) rfl
        · exact hunknown _ (List.mem_of_getElem? (i := 13) rfl) rfl
        · exact hunknown _ (List.mem_of_getElem? (i := 15) rfl) rfl
        · exact hunknown _ (List.mem_of_getElem? (i := 17) rfl) rfl
      exact (observerEffect_other H S rest hother).symm
    | some cmd =>
      have hmem := List.mem_of_find?_eq_some hfind
      have hcmd : word = cmd.1 := by simpa using List.find?_some hfind
      subst hcmd
      dsimp only
      split
      next hdenied =>
        have hdenied : ¬ Allowed cmd.1 (cmd.1 :: rest) := by
          unfold Allowed
          exact Nat.ne_of_gt hdenied
        exact (denied_effect H S hdenied).symm
      next hallowed =>
        have hallowed : Allowed cmd.1 (cmd.1 :: rest) := Nat.eq_zero_of_not_pos hallowed
        exact command_effect H S cmd hmem hword rest hallowed

theorem lookedUp_of_written {value : ℕ} (h : ptiWritten H argv = some value) :
    lookedUp H argv = none := by
  unfold ptiWritten at h
  split at h
  next hmesh =>
    have hhead : argIs argv 0 "mesh" = true := by
      simp only [Bool.and_eq_true] at hmesh
      exact hmesh.1.1.1
    simp [lookedUp, argIs_other hhead (show ascii "mesh" ≠ ascii "goonies" by decide),
      argIs_other hhead (show ascii "mesh" ≠ ascii "kernel" by decide),
      argIs_other hhead (show ascii "mesh" ≠ ascii "temp" by decide),
      argIs_other hhead (show ascii "mesh" ≠ ascii "purpose" by decide)]
  · cases h

theorem ReadOnly.refl (S : ShellState KV VM) : ReadOnly S S := ⟨rfl, rfl, rfl, rfl, rfl, rfl⟩

theorem resolveName_readOnly_iff (hheap : H.atlas heapPressureName = none) (name : CName) :
    ReadOnly S (resolveName H S name) ↔
      LookupQuiet H.atlas H.lock H.now S.fabric S.mesh name := by
  refine Iff.trans ?_ (@gooniesResolveCell_quiet_iff H.atlas S.fabric name H.lock H.hmac H.now
    S.mesh hheap)
  constructor
  · exact fun h => ⟨h.fabric, h.peers, h.sent⟩
  · exact fun h => ⟨h.1, h.2.1, h.2.2, rfl, rfl, rfl⟩

theorem writeReg_readOnly_iff (S : ShellState KV VM) (reg value : ℕ) :
    ReadOnly S { S with radioRegs := Function.update S.radioRegs reg value } ↔
      S.radioRegs reg = value := by
  constructor
  · intro h
    rw [← congrFun h.radioRegs reg]
    exact Function.update_self _ _ _
  · intro h
    refine ⟨rfl, rfl, rfl, rfl, rfl, ?_⟩
    exact h ▸ Function.update_eq_self reg S.radioRegs

/-- An observer's command leaves no trace exactly where its lookup and its register write do
not. -/
theorem observer_read_only_iff (hheap : H.atlas heapPressureName = none)
    (hrole : S.role = .observer) (hauth : argv.head? ≠ some (ascii "auth")) :
    ReadOnly S (dispatch H argv S) ↔ Quiet H S argv := by
  rw [dispatch_effect hrole hauth]
  unfold observerEffect Quiet
  cases hlook : lookedUp H argv with
  | some name =>
    have hpti : ptiWritten H argv = none := by
      cases hpti : ptiWritten H argv with
      | none => rfl
      | some value => exact absurd (lookedUp_of_written hpti) (by simp [hlook])
    simp only [hpti, reduceCtorEq, false_implies, implies_true, and_true, Option.some.injEq,
      forall_eq']
    exact resolveName_readOnly_iff hheap name
  | none =>
    simp only [reduceCtorEq, false_implies, implies_true, true_and]
    cases ptiWritten H argv with
    | some value =>
      simp only [Option.some.injEq, forall_eq']
      exact writeReg_readOnly_iff S coexPtiReg value
    | none => exact iff_of_true (.refl S) (by simp)

/-- A board whose radio Reflex drives alone. -/
def ownMacHost : ShellHost Unit Unit where
  atlas := emptyAtlas
  hmac := id
  lock := true
  now := 0
  pti := .reflexMac
  kernelScheduler := false
  privileged := fun _ S => S

def observerState : ShellState Unit Unit where
  role := .observer
  fabric := coldFabric
  mesh := ⟨[], 0, 0, []⟩
  kv := ()
  vm := ()
  radioRegs := fun _ => 0x83

/-- With `mesh pti 17` an observer rewrites the register the receive path depends on. -/
theorem observer_writes_priority :
    ¬ ∀ (H : ShellHost Unit Unit) (S : ShellState Unit Unit) (argv : List CName),
      S.role = .observer → argv.head? ≠ some (ascii "auth") → ReadOnly S (dispatch H argv S) := by
  intro h
  have hro := h ownMacHost observerState [ascii "mesh", ascii "pti", ascii "17"] rfl (by decide)
  have hreg := congrFun hro.radioRegs coexPtiReg
  revert hreg
  decide

/-- `goonies find` of a seed. -/
theorem observer_read_only_find :
    ReadOnly observerState
      (dispatch ownMacHost [ascii "goonies", ascii "find", ascii "sys.origin"] observerState) := by
  refine (observer_read_only_iff rfl rfl (by decide)).mpr ⟨?_, ?_⟩
  · intro name hname
    have hfound : lookedUp ownMacHost [ascii "goonies", ascii "find", ascii "sys.origin"] =
        some seedOrigin := by decide
    rw [hfound] at hname
    cases hname
    exact .inl (by decide +kernel)
  · intro value hvalue
    have hnone : ptiWritten ownMacHost [ascii "goonies", ascii "find", ascii "sys.origin"] = none := by
      decide
    rw [hnone] at hvalue
    cases hvalue

end ReflexOS.Shell
