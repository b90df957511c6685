import ReflexOS.GooseAllocation
import ReflexOS.HexText
import ReflexOS.ShellDispatch
import ReflexOS.ShellLines
import ReflexOS.TasmRoundTrip
import ReflexOS.VmFaults
import ReflexOS.VmRefinement

set_option autoImplicit false

/-!
# Programs over the console

The assembler's `upload` writes an image as one line of text. The line goes through the line
editor, the dispatcher and the hexadecimal parser to the loader of the shell's VM.
-/
namespace ReflexOS.Shell
open Goose Vm Tasm Runs

/-- A character that is no digit is -1. -/
def hexNibble (c : UInt8) : ℤ :=
  if 48 ≤ c ∧ c ≤ 57 then c.toNat - 48
  else if 97 ≤ c ∧ c ≤ 102 then c.toNat - 97 + 10
  else if 65 ≤ c ∧ c ≤ 70 then c.toNat - 65 + 10
  else -1

def hexByte (s : CName) (i : ℕ) : UInt8 :=
  UInt8.ofNat ((hexNibble (s.getD (i * 2) 0)).toNat <<< 4 |||
    (hexNibble (s.getD (i * 2 + 1) 0)).toNat)

/-- The bytes written and their number, or nothing where the call returns false. -/
def shellParseHex (s : CName) (cap : ℕ) : Option (List UInt8) :=
  if s.length < 2 ∨ s.length % 2 = 1 then none
  else if cap < s.length / 2 then none
  else if s.any fun c => decide (hexNibble c < 0) then none
  else some ((List.range (s.length / 2)).map (hexByte s))

variable {W : Type*}

/-- The VM that the shell owns. -/
structure ShellVm (W : Type*) where
  machine : Machine W
  loaded : Bool

/-- The `loadhex` branch of `shell_cmd_vm`. -/
def shellVmLoadhex (host : Host W) (malloc : ℕ → Bool) (argv : List CName) (v : ShellVm W) :
    ShellVm W :=
  let hex := argv.getD 2 []
  if extraArgs argv 3 then v
  else if hex.length < 2 ∨ hex.length % 2 = 1 then v
  else if malloc (hex.length / 2) then
    match shellParseHex hex (hex.length / 2) with
    | none => v
    | some image =>
      let result := loadBinary host v.machine image
      if result.1 = Err.ok then ⟨result.2, true⟩ else { v with machine := result.2 }
  else v

variable {KV : Type*}

/-- A board whose shell carries out `vm loadhex`; the other privileged commands stay open. -/
def withLoadhex (host : Host W) (malloc : ℕ → Bool) (H : ShellHost KV (ShellVm W)) :
    ShellHost KV (ShellVm W) :=
  { H with privileged := fun argv S =>
      if argIs argv 0 "vm" && argIs argv 1 "loadhex" then
        { S with vm := shellVmLoadhex host malloc argv S.vm }
      else H.privileged argv S }

/-- What the console's reads do to the board, command by command. -/
def consoleRun (H : ShellHost KV (ShellVm W)) (reads : List (Option UInt8)) (E : LineEditor)
    (S : ShellState KV (ShellVm W)) : ShellState KV (ShellVm W) :=
  (shellRun reads E).foldl (fun S argv => dispatch H argv S) S

section Python

def loadhexLine (image : List UInt8) : List UInt8 :=
  ascii "vm loadhex " ++ HexText.encode image ++ ascii "\n"

/-- What `upload` writes to the port, or nothing for an image that it calls too large. -/
def uploadImage (image : List UInt8) : Option (List UInt8) :=
  if 1024 < (HexText.encode image).length + (ascii "vm loadhex \n").length then none
  else some (loadhexLine image)

def upload (py : Python) (source : Text) : Except String (Option (List UInt8)) := do
  let image ← assemble py source
  return uploadImage image

end Python

section Parse

variable {s : CName} {cap : ℕ} {bytes : List UInt8}

theorem hexNibble_eq (c : UInt8) :
    hexNibble c = match HexText.nibble c with
      | some n => (n : ℤ)
      | none => -1 := by
  have hall : ∀ m < 256, hexNibble (UInt8.ofNat m) = match HexText.nibble (UInt8.ofNat m) with
      | some n => (n : ℤ)
      | none => -1 := by
    decide +kernel
  have hc := hall c.toNat c.toNat_lt
  rwa [UInt8.ofNat_toNat] at hc

theorem hexNibble_some {c : UInt8} {n : ℕ} (h : HexText.nibble c = some n) : hexNibble c = n := by
  rw [hexNibble_eq, h]

theorem hexNibble_neg_iff (c : UInt8) : hexNibble c < 0 ↔ HexText.nibble c = none := by
  rw [hexNibble_eq]
  cases HexText.nibble c with
  | none => simp
  | some n => simp

theorem shift_or {n k : ℕ} (hk : k < 16) : n <<< 4 ||| k = 16 * n + k := by
  rw [Nat.shiftLeft_eq, mul_comm]
  exact (Nat.two_pow_add_eq_or_of_lt (i := 4) hk n).symm

theorem hexByte_next (c d : UInt8) (s : CName) (i : ℕ) :
    hexByte (c :: d :: s) (i + 1) = hexByte s i := by
  have hplace : (i + 1) * 2 = i * 2 + 1 + 1 := by omega
  simp only [hexByte, hplace, List.getD_cons_succ]

theorem decode_hexByte : ∀ {s bytes : List UInt8}, HexText.decode s = some bytes →
    (List.range (s.length / 2)).map (hexByte s) = bytes
  | [], _, h => by
    cases h
    rfl
  | [_], _, h => by cases h
  | c :: d :: s, _, h => by
    rw [HexText.decode] at h
    split at h
    next n k rest hc hd hs =>
      cases h
      have hlen : (c :: d :: s).length / 2 = s.length / 2 + 1 := by
        simp only [List.length_cons]
        omega
      have hfirst : hexByte (c :: d :: s) 0 = UInt8.ofNat (16 * n + k) := by
        simp only [hexByte, Nat.zero_mul, Nat.zero_add, List.getD_cons_zero, List.getD_cons_succ,
          hexNibble_some hc, hexNibble_some hd, Int.toNat_natCast, shift_or (HexText.nibble_lt hd)]
      rw [hlen, List.range_succ_eq_map, List.map_cons, List.map_map, hfirst]
      congr 1
      rw [← decode_hexByte hs]
      exact List.map_congr_left fun i _ => hexByte_next c d s i
    · cases h

/-- The parser is the reader of hexadecimal text, within its bounds. -/
theorem shellParseHex_eq (s : CName) (cap : ℕ) : shellParseHex s cap =
    if 2 ≤ s.length ∧ s.length / 2 ≤ cap then HexText.decode s else none := by
  unfold shellParseHex
  by_cases hlen : 2 ≤ s.length ∧ s.length / 2 ≤ cap
  · rw [if_pos hlen]
    cases hd : HexText.decode s with
    | some bytes =>
      obtain ⟨hdigits, heven⟩ := HexText.decode_digits hd
      have hall : s.any (fun c => decide (hexNibble c < 0)) = false := by
        rw [List.any_eq_false]
        intro c hc hneg
        have hsome := hdigits c hc
        rw [(hexNibble_neg_iff c).mp (of_decide_eq_true hneg)] at hsome
        cases hsome
      rw [if_neg (by omega), if_neg (by omega), hall, if_neg Bool.false_ne_true, decode_hexByte hd]
    | none =>
      split_ifs with hodd hcap hbad
      · rfl
      · rfl
      · rfl
      · exfalso
        have hdigits : ∀ c ∈ s, (HexText.nibble c).isSome = true := by
          intro c hc
          rw [Option.isSome_iff_ne_none]
          intro hnone
          apply hbad
          rw [List.any_eq_true]
          exact ⟨c, hc, decide_eq_true ((hexNibble_neg_iff c).mpr hnone)⟩
        obtain ⟨bytes, hbytes⟩ := HexText.decode_of_digits hdigits (by omega)
        rw [hd] at hbytes
        cases hbytes
  · rw [if_neg hlen]
    split_ifs with hodd hcap hbad
    · rfl
    · rfl
    · rfl
    · omega

theorem shellParseHex_encode (h : bytes ≠ []) :
    shellParseHex (HexText.encode bytes) bytes.length = some bytes := by
  have hpos := List.length_pos_iff.mpr h
  have hlen := HexText.length_encode bytes
  rw [shellParseHex_eq, if_pos (by omega), HexText.decode_encode]

end Parse

section Line

/-- Characters that the line editor keeps as they are. -/
def Plain (l : List UInt8) : Prop := ∀ b ∈ l, b ≠ 0 ∧ b ≠ 8 ∧ b ≠ 10 ∧ b ≠ 13 ∧ b ≠ 0x7F

variable {l hex : List UInt8} {reads : List (Option UInt8)}

theorem lineEnds_plain (h : 13 ∉ l) : lineEnds l = l := by
  induction l with
  | nil => rfl
  | cons b l ih =>
    rw [List.mem_cons, not_or] at h
    rw [lineEnds_other (Ne.symm h.1), ih h.2]

theorem editLine_plain (h : Plain l) : editLine l = ⟨l.take 1023, decide (1023 < l.length)⟩ := by
  induction l using List.reverseRecOn with
  | nil => rfl
  | append_singleton l b ih =>
    obtain ⟨-, hback, -, -, hdelete⟩ := h b (by simp)
    rw [editLine_append, ih fun c hc => h c (by simp [hc]), editByte,
      if_neg (not_or.mpr ⟨hback, hdelete⟩)]
    simp only [List.length_take, List.length_append, List.length_singleton]
    by_cases hroom : l.length < 1023
    · rw [if_pos (by omega), List.take_of_length_le (by omega),
        List.take_of_length_le (by simp; omega)]
      congr 1
      rw [decide_eq_decide]
      omega
    · rw [if_neg (by omega), List.take_append_of_le_length (by omega)]
      congr 1
      exact (decide_eq_true (by omega)).symm

/-- One line typed into an editor at rest, whatever its buffer holds and however the console
pauses. -/
theorem shellRun_line (line : ℕ → UInt8) (h : Plain l) (hreads : reads.filterMap id = l ++ [10])
    (few : FewWords l) : shellRun reads (shellStart line) = (lineDispatch l).toList := by
  have hbytes : ∀ b, some b ∈ reads → b ≠ 0 := by
    intro b hb
    have hmem : b ∈ reads.filterMap id := List.mem_filterMap.mpr ⟨some b, hb, rfl⟩
    rw [hreads, List.mem_append, List.mem_singleton] at hmem
    rcases hmem with hmem | rfl
    · exact (h b hmem).1
    · decide
  have hnewline : 10 ∉ l := fun hmem => (h 10 hmem).2.2.1 rfl
  have hends : lineEnds (l ++ [10]) = l ++ [10] := by
    apply lineEnds_plain
    rw [List.mem_append, List.mem_singleton, not_or]
    exact ⟨fun hmem => (h 13 hmem).2.2.2.1 rfl, by decide⟩
  have hlines : ((l ++ [10]).splitOn 10).dropLast = [l] := by
    rw [splitLines_end hnewline]
    rfl
  have hrun := shellRun_lines reads (shellStart line) []
    ⟨rfl, by simp [editLine], rfl, by simp [editLine], by simp [editLine]⟩ List.not_mem_nil hbytes
    _ hreads
  simp only [shellStart, Bool.false_eq_true, if_false, List.nil_append, hends, hlines,
    List.mem_singleton, forall_eq] at hrun
  rw [shellStart, hrun few]
  cases hdispatch : lineDispatch l <;> simp [hdispatch]

/-- The words of a `vm loadhex` line. -/
def loadhexWords (hex : CName) : List CName := [ascii "vm", ascii "loadhex", hex]

theorem digit_plain : ∀ n < 16, HexText.digit n ≠ 32 ∧ HexText.digit n ≠ 0 ∧
    HexText.digit n ≠ 8 ∧ HexText.digit n ≠ 10 ∧ HexText.digit n ≠ 13 ∧
    HexText.digit n ≠ 0x7F := by decide +kernel

theorem loadhex_plain (image : List UInt8) :
    Plain (ascii "vm loadhex " ++ HexText.encode image) := by
  intro b hb
  rcases List.mem_append.mp hb with hb | hb
  · have hword : Plain (ascii "vm loadhex ") := by
      unfold Plain
      decide +kernel
    exact hword b hb
  · obtain ⟨n, hn, rfl⟩ := HexText.encode_digits hb
    exact (digit_plain n hn).2

theorem loadhex_tokens {image : List UInt8} (h : image ≠ []) :
    StringTokens.tokens 32 (ascii "vm loadhex " ++ HexText.encode image) =
      loadhexWords (HexText.encode image) := by
  have hspace : (32 : UInt8) ∉ HexText.encode image := by
    intro hmem
    obtain ⟨n, hn, heq⟩ := HexText.encode_digits hmem
    exact (digit_plain n hn).1 heq.symm
  have hhex : HexText.encode image ≠ [] := by
    rw [← List.length_pos_iff, HexText.length_encode]
    have := List.length_pos_iff.mpr h
    omega
  have hline : ascii "vm loadhex " ++ HexText.encode image =
      ascii "vm" ++ 32 :: (ascii "loadhex" ++ 32 :: HexText.encode image) := rfl
  rw [hline, StringTokens.tokens_cons (by decide) (by decide),
    StringTokens.tokens_cons (by decide) (by decide), StringTokens.tokens_last hhex hspace]
  rfl

theorem length_command : (ascii "vm loadhex ").length = 11 := by decide

/-- The line reaches the dispatcher whole or not at all, and `upload` knows which. -/
theorem loadhex_dispatch {image : List UInt8} (h : image ≠ []) (line : ℕ → UInt8)
    (hreads : reads.filterMap id = loadhexLine image) :
    shellRun reads (shellStart line) =
      if (uploadImage image).isSome then [loadhexWords (HexText.encode image)] else [] := by
  have hplain := loadhex_plain image
  have hedit := editLine_plain hplain
  have hlen : (ascii "vm loadhex " ++ HexText.encode image).length =
      11 + (HexText.encode image).length := by rw [List.length_append, length_command]
  have hfits : (uploadImage image).isSome = true ↔
      (ascii "vm loadhex " ++ HexText.encode image).length ≤ 1023 := by
    have hnewline : (ascii "vm loadhex \n").length = 12 := by decide
    rw [uploadImage, hnewline, hlen]
    split_ifs with hlarge
    · exact iff_of_false (by simp) (by omega)
    · exact iff_of_true rfl (by omega)
  by_cases hshort : (ascii "vm loadhex " ++ HexText.encode image).length ≤ 1023
  · have hwords : lineWords (ascii "vm loadhex " ++ HexText.encode image) =
        loadhexWords (HexText.encode image) := by
      rw [lineWords, hedit, List.take_of_length_le hshort, loadhex_tokens h]
    have hkept : (editLine (ascii "vm loadhex " ++ HexText.encode image)).dropped = false := by
      rw [hedit]
      exact decide_eq_false (by omega)
    have hdispatch : lineDispatch (ascii "vm loadhex " ++ HexText.encode image) =
        some (loadhexWords (HexText.encode image)) := by
      rw [lineDispatch, hwords, hkept]
      rfl
    have hfew : FewWords (ascii "vm loadhex " ++ HexText.encode image) := by
      intro _
      rw [hwords]
      exact Nat.le_of_ble_eq_true rfl
    rw [shellRun_line line hplain hreads hfew, hdispatch, if_pos (hfits.mpr hshort)]
    rfl
  · have hdropped : (editLine (ascii "vm loadhex " ++ HexText.encode image)).dropped = true := by
      rw [hedit]
      exact decide_eq_true (by omega)
    have hnone : lineDispatch (ascii "vm loadhex " ++ HexText.encode image) = none := by
      rw [lineDispatch, hdropped, if_pos (.inl rfl)]
    have hfew : FewWords (ascii "vm loadhex " ++ HexText.encode image) := by
      intro hkept
      rw [hdropped] at hkept
      cases hkept
    rw [shellRun_line line hplain hreads hfew, hnone, if_neg (mt hfits.mp hshort)]
    rfl

end Line

section Upload

variable {host : Host W} {malloc : ℕ → Bool} {H : ShellHost KV (ShellVm W)}
  {S : ShellState KV (ShellVm W)} {image : List UInt8} {reads : List (Option UInt8)}

/-- Only an administrator's `vm loadhex` reaches the loader. -/
theorem dispatch_loadhex (hex : CName) : dispatch (withLoadhex host malloc H) (loadhexWords hex) S =
    if S.role = .admin then
      { S with vm := shellVmLoadhex host malloc (loadhexWords hex) S.vm }
    else S := by
  have hfind : (commands : List (CName × Handler KV (ShellVm W))).find?
      (fun cmd => decide (ascii "vm" = cmd.1)) = some (ascii "vm", shellCmdVm) := rfl
  have hrole : requiredRole (ascii "vm") (loadhexWords hex) = .admin := rfl
  have hhandler : shellCmdVm (withLoadhex host malloc H) (loadhexWords hex) S =
      { S with vm := shellVmLoadhex host malloc (loadhexWords hex) S.vm } := rfl
  have hhead : (loadhexWords hex).head? = some (ascii "vm") := rfl
  unfold dispatch
  rw [hhead]
  simp only [hfind, hrole, hhandler]
  cases S.role <;> rfl

/-- What the `loadhex` handler makes of the hexadecimal text of an image. -/
theorem shellVmLoadhex_encode (h : image ≠ []) (v : ShellVm W) :
    shellVmLoadhex host malloc (loadhexWords (HexText.encode image)) v =
      if malloc image.length then
        if (loadBinary host v.machine image).1 = Err.ok then
          ⟨(loadBinary host v.machine image).2, true⟩
        else { v with machine := (loadBinary host v.machine image).2 }
      else v := by
  have hpos := List.length_pos_iff.mpr h
  have hlen := HexText.length_encode image
  have hhex : (loadhexWords (HexText.encode image)).getD 2 [] = HexText.encode image := rfl
  have hargs : extraArgs (loadhexWords (HexText.encode image)) 3 = false := rfl
  have hhalf : (HexText.encode image).length / 2 = image.length := by omega
  unfold shellVmLoadhex
  simp only [hhex, hargs, hhalf, shellParseHex_encode h, Bool.false_eq_true, if_false]
  rw [if_neg (by omega)]

theorem consoleRun_loadhex (h : image ≠ []) (line : ℕ → UInt8)
    (hreads : reads.filterMap id = loadhexLine image) :
    consoleRun (withLoadhex host malloc H) reads (shellStart line) S =
      if (uploadImage image).isSome ∧ S.role = .admin then
        { S with vm :=
          shellVmLoadhex host malloc (loadhexWords (HexText.encode image)) S.vm }
      else S := by
  rw [consoleRun, loadhex_dispatch h line hreads]
  by_cases hfits : (uploadImage image).isSome = true
  · rw [if_pos hfits, List.foldl_cons, List.foldl_nil, dispatch_loadhex]
    by_cases hrole : S.role = .admin
    · rw [if_pos hrole, if_pos ⟨hfits, hrole⟩]
    · rw [if_neg hrole, if_neg fun hall => hrole hall.2]
  · rw [if_neg hfits, List.foldl_nil, if_neg fun hall => hfits hall.1]

/-- An image sent to the console is what the loader of an administrator's shell receives, byte
for byte; an image that `upload` refuses would have reached it in no part. -/
theorem upload_delivers (h : image ≠ []) (line : ℕ → UInt8)
    (hreads : reads.filterMap id = loadhexLine image) :
    consoleRun (withLoadhex host malloc H) reads (shellStart line) S =
      if (uploadImage image).isSome ∧ S.role = .admin ∧ malloc image.length then
        { S with vm :=
          if (loadBinary host S.vm.machine image).1 = Err.ok then
            ⟨(loadBinary host S.vm.machine image).2, true⟩
          else { S.vm with machine := (loadBinary host S.vm.machine image).2 } }
      else S := by
  rw [consoleRun_loadhex h line hreads, shellVmLoadhex_encode h]
  cases malloc image.length with
  | true => simp only [if_true, and_true]
  | false =>
    simp only [Bool.false_eq_true, if_false, and_false]
    exact ite_self _

/-- A VM that a loader has just left, without data and without a cache. -/
theorem represents_loaded {m : Machine W} (hmmu : m.vm.mmu = VmMmu.mmuInit)
    (hregisters : m.vm.registers = fun _ => VmTernary.zeroWord) (hcache : m.vm.cache = none) :
    Represents false m m.integers := by
  have hfresh : FreshWords m := {
    disjoint := by
      rw [hmmu]
      exact List.Pairwise.nil
    registers := fun r => by
      rw [hregisters, ← word_zero]
      exact word_valid .zero
    memory := fun addr ⟨p, hp⟩ => by
      rw [hmmu] at hp
      cases hp
    cache := fun c hc => by
      rw [hcache] at hc
      cases hc }
  have hrep := hfresh.represents
  rwa [hcache] at hrep

section Assembled

variable {py : Python} {entry : ℕ} {instrs : List Fields}

/-- The integer machine of an assembled program before its first step. -/
structure StartsAt (entry : ℕ) (instrs : List Fields) (a : IntMachine W) : Prop where
  condition : a.condition = .live
  pc : a.pc = entry
  registers : a.registers = fun _ => .zero
  memory : a.memory = fun _ => none
  program : a.program = instrs.map Fields.instruction

theorem uploadImage_some {bytes : List UInt8} (h : uploadImage image = some bytes) :
    bytes = loadhexLine image := by
  unfold uploadImage at h
  split_ifs at h
  exact (Option.some.inj h).symm

theorem upload_packed {source : Text} {bytes : List UInt8}
    (hsource : translate py source = .ok (entry, instrs))
    (hupload : upload py source = .ok (some bytes)) :
    ∃ image, Packed entry instrs image ∧ uploadImage image = some bytes := by
  unfold upload at hupload
  cases himage : assemble py source with
  | error e =>
    rw [himage] at hupload
    cases hupload
  | ok image =>
    rw [himage] at hupload
    refine ⟨image, ?_, by injection hupload⟩
    apply packImage_yields
    rw [← himage, assemble, hsource]
    rfl

theorem ofWord_zero : Number.ofWord VmTernary.zeroWord = .zero := by decide

/-- The loader leaves the assembled program at its start. -/
theorem loadBinary_starts {m : Machine W} (h : Packed entry instrs image)
    (henc : ∀ i ∈ instrs, i.Encodes) (hentry : entry < instrs.length)
    (hvalid : ∀ i ∈ instrs, i.Valid instrs.length) (hcache : m.vm.cache = none)
    (hroom : (host.mallocInstructions instrs.length (vmUnload host m).world).1 = true) :
    ∃ m', loadBinary host m image = (Err.ok, m') ∧ Represents false m' m'.integers ∧
      StartsAt entry instrs m'.integers := by
  have hload := (loadBinary_packed h hroom).trans
    ((loadData_packed h).trans (installBinary_packed h henc hentry hvalid))
  have hnone := (vmUnload_kept host m).1.trans hcache
  refine ⟨_, hload, ?_, ⟨rfl, rfl, ?_, rfl, rfl⟩⟩
  · exact represents_loaded rfl rfl hnone
  · funext r
    exact ofWord_zero

/-- From the text of a program to its meaning: after `upload`, whatever the shell's VM does is
what the integer machine does with the instructions that the source stands for. -/
theorem uploaded_program_runs {source : Text} {bytes : List UInt8} (hs : SoundHost host)
    (hsource : translate py source = .ok (entry, instrs))
    (hupload : upload py source = .ok (some bytes)) (hentry : entry < instrs.length)
    (hvalid : ∀ i ∈ instrs, i.Valid instrs.length) (hadmin : S.role = .admin)
    (hmalloc : malloc (16 + instrs.length * 4) = true)
    (hroom : (host.mallocInstructions instrs.length (vmUnload host S.vm.machine).world).1 = true)
    (hcache : S.vm.machine.vm.cache = none) (line : ℕ → UInt8)
    (hreads : reads.filterMap id = bytes) :
    ∃ m, (consoleRun (withLoadhex host malloc H) reads (shellStart line) S).vm = ⟨m, true⟩ ∧
      StartsAt entry instrs m.integers ∧
      ∀ ls m', Run (VmAct host) m ls m' →
        ∃ a, Run (IntAct host) m.integers ls a ∧ Represents false m' a := by
  obtain ⟨image, hpacked, hsent⟩ := upload_packed hsource hupload
  have himage : image ≠ [] := by
    rw [← List.length_pos_iff, hpacked.length]
    omega
  obtain ⟨m, hload, hrep, hstart⟩ := loadBinary_starts hpacked (translate_yields source _ hsource)
    hentry hvalid hcache hroom
  rw [uploadImage_some hsent] at hreads
  refine ⟨m, ?_, hstart, fun ls m' hsteps => ?_⟩
  · have hmalloc' : malloc image.length = true := by rw [hpacked.length, hmalloc]
    have hall : (uploadImage image).isSome = true ∧ S.role = .admin :=
      ⟨by rw [hsent, Option.isSome_some], hadmin⟩
    rw [consoleRun_loadhex himage line hreads, if_pos hall, shellVmLoadhex_encode himage,
      if_pos hmalloc', hload]
    rfl
  · refine hrep.run hs (hsteps.mono (fun _ => True) (fun _ _ _ _ _ => trivial) ?_ trivial)
    exact fun _ _ _ _ hstep => ⟨fun hc => absurd hc Bool.false_ne_true, hstep⟩

end Assembled

end Upload

/-- A board with nothing on it, at an administrator's prompt. -/
def bareHost : ShellHost Unit (ShellVm Unit) where
  atlas := emptyAtlas
  hmac := id
  lock := true
  now := 0
  pti := .noMac
  kernelScheduler := false
  privileged := fun _ S => S

def adminState : ShellState Unit (ShellVm Unit) where
  role := .admin
  fabric := coldFabric
  mesh := ⟨[], 0, 0, []⟩
  kv := ()
  vm := ⟨blankMachine, false⟩
  radioRegs := fun _ => 0

def ample : ℕ → Bool := fun _ => true

/-- One byte, which is no image, with a pause before it. -/
theorem upload_delivers_byte :
    consoleRun (withLoadhex quietHost ample bareHost)
        (none :: (loadhexLine [0xA5]).map some) (shellStart fun _ => 0xAA) adminState =
      { adminState with vm := ⟨vmUnload quietHost blankMachine, false⟩ } := by
  have hreads : (none :: (loadhexLine [0xA5]).map some).filterMap id = loadhexLine [0xA5] := by
    simp
  have himage : ([0xA5] : List UInt8) ≠ [] := by decide
  rw [upload_delivers himage _ hreads]
  rfl

theorem uploaded_program_runs_loop : ∃ bytes m,
    upload asciiPython loopSource = .ok (some bytes) ∧
      (consoleRun (withLoadhex quietHost ample bareHost) (bytes.map some)
        (shellStart fun _ => 0xAA) adminState).vm = ⟨m, true⟩ ∧
      StartsAt 1 [⟨1, 1, 0, 0, -3⟩, ⟨9, 0, 0, 0, 1⟩] m.integers := by
  have hsource : translate asciiPython loopSource =
      .ok (1, [⟨1, 1, 0, 0, -3⟩, ⟨9, 0, 0, 0, 1⟩]) := rfl
  have hvalid : ∀ i ∈ [(⟨1, 1, 0, 0, -3⟩ : Fields), ⟨9, 0, 0, 0, 1⟩], i.Valid 2 := by
    intro i hi
    rcases List.mem_cons.mp hi with rfl | hi
    · exact ⟨by decide, by decide⟩
    · obtain rfl := List.mem_singleton.mp hi
      exact ⟨by decide, by decide⟩
  have hupload : ∃ bytes, upload asciiPython loopSource = .ok (some bytes) := ⟨_, rfl⟩
  obtain ⟨bytes, hupload⟩ := hupload
  have hreads : (bytes.map some).filterMap id = bytes := by simp
  have hmalloc : ample (16 + [(⟨1, 1, 0, 0, -3⟩ : Fields), ⟨9, 0, 0, 0, 1⟩].length * 4) = true := rfl
  obtain ⟨m, hvm, hstart, -⟩ := uploaded_program_runs (H := bareHost) (S := adminState)
    quietHost_sound hsource hupload (by decide) hvalid rfl hmalloc rfl rfl (fun _ => 0xAA) hreads
  exact ⟨bytes, m, hupload, hvm, hstart⟩

end ReflexOS.Shell
