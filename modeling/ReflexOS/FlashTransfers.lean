import ReflexOS.FlashSpi1

set_option autoImplicit false

/-!
# What the flash driver moves

A wait that runs out fails the operation; the rules here say what an operation that does not
fail has done, and that none fails while the controller and the part answer in time.
-/
namespace ReflexOS.Flash
open ByteMemory

/-- Every wait ends within the spin limit. -/
structure Delays.Answers (d : Delays) : Prop where
  cmd : ∀ k, d.cmd k < spi1SpinLimit
  write : ∀ k, d.write k < spi1SpinLimit

/-- No command is under way and the part is not writing. -/
structure Idle (s : Spi1) : Prop where
  pending : s.pending = 0
  writing : s.writing = 0

/-- What a success of the step means, and that it succeeds when every wait ends. -/
structure Does {σ : Type} (d : Delays) (P : σ → Prop) (r : Bool × σ) : Prop where
  success : r.1 = true → P r.2
  answers : d.Answers → r.1 = true

variable {d : Delays} {s s' : Spi1} {m : Memory}

section Rules
variable {σ τ : Type} {P Q : σ → Prop} {r : Bool × σ}

theorem Does.mono (h : Does d P r) (hPQ : ∀ s, P s → Q s) : Does d Q r :=
  ⟨fun hok => hPQ _ (h.success hok), h.answers⟩

theorem Does.andThen {f : σ → Bool × σ} (h : Does d P r) (hf : ∀ s, P s → Does d Q (f s)) :
    Does d Q (if !r.1 then r else f r.2) := by
  cases hr : r.1 with
  | true =>
    have hstep := hf r.2 (h.success hr)
    simpa using hstep
  | false =>
    have hfail : ¬d.Answers := fun ha => Bool.false_ne_true (hr ▸ h.answers ha)
    simpa using ⟨fun hok => absurd hok (by simp [hr]), fun ha => absurd ha hfail⟩

theorem does_done {s : σ} (h : P s) : Does d P (true, s) := ⟨fun _ => h, fun _ => rfl⟩

/-- A turn moves something, within the data registers and within a page. -/
theorem windowChunk_spec {addr off len : ℕ} (h : off < len) :
    0 < windowChunk addr off len ∧ off + windowChunk addr off len ≤ len ∧
      windowChunk addr off len ≤ 64 ∧ (addr + off) % 256 + windowChunk addr off len ≤ 256 := by
  unfold windowChunk spi1Chunk flashPageSize
  dsimp only
  split_ifs <;> omega

theorem windowChunk_words {addr off len : ℕ} (haddr : addr % 4 = 0) (hoff : off % 4 = 0)
    (hlen : len % 4 = 0) : windowChunk addr off len % 4 = 0 := by
  unfold windowChunk spi1Chunk flashPageSize
  dsimp only
  split_ifs <;> omega

/-- The turns of a window, from one that keeps the invariant. -/
theorem windowLoop_does {chunk : ℕ → ℕ → σ → Bool × σ} {addr len : ℕ} {I : ℕ → σ → Prop}
    (hstep : ∀ off s, off < len → I off s →
      Does d (I (off + windowChunk addr off len)) (chunk off (windowChunk addr off len) s))
    {fuel off : ℕ} (hfuel : len ≤ off + fuel) (hoff : off ≤ len) {s : σ} (h : I off s) :
    Does d (I len) (windowLoop chunk addr len fuel off s) := by
  induction fuel generalizing off s with
  | zero =>
    obtain rfl : off = len := by omega
    exact does_done h
  | succ fuel ih =>
    unfold windowLoop
    split_ifs with hlt
    · obtain ⟨hpos, hle, -, -⟩ := @windowChunk_spec addr off len hlt
      exact (hstep off s hlt h).andThen fun s' h' => ih (by omega) hle h'
    · obtain rfl : off = len := by omega
      exact does_done h

end Rules

section Waits

theorem pollCmd_ok {n : ℕ} (h : (pollCmd n s).1 = true) :
    (pollCmd n s).2 = { s with pending := 0 } := by
  induction n generalizing s with
  | zero => cases h
  | succ n ih =>
    unfold pollCmd at h ⊢
    split_ifs at h ⊢ with hzero
    · cases s
      cases hzero
      rfl
    · exact ih h

theorem pollCmd_answered {n : ℕ} (h : s.pending < n) : (pollCmd n s).1 = true := by
  induction n generalizing s with
  | zero => exact absurd h (Nat.not_lt_zero _)
  | succ n ih =>
    unfold pollCmd
    split_ifs with hzero
    · rfl
    · exact ih (by simp only; omega)

theorem command_does (d : Delays) (s : Spi1) (cmd : ℕ) :
    Does d (fun s' => s' = { s.transact d cmd with pending := 0, started := s.started + 1 })
      (spi1WaitCmd (s.start d cmd)) where
  success hok := pollCmd_ok hok
  answers ha := pollCmd_answered (ha.cmd s.started)

/-- What the waits of an operation leave as it is. -/
structure SameFlash (s s' : Spi1) : Prop where
  flash : s'.flash = s.flash
  programs : s'.programs = s.programs

theorem transact_rdsr (d : Delays) (s : Spi1) : s.transact d spi1CmdFlashRdsr =
    { s with
      regs := Function.update s.regs .rdStatus (if s.writing = 0 then 0 else flashStatusWip)
      writing := s.writing - 1 } := rfl

theorem transact_wren (d : Delays) (h : s.writing = 0) :
    s.transact d spi1CmdFlashWren = { s with writeEnabled := true } := by
  rw [Spi1.transact, if_pos rfl, if_pos h]

theorem pollStatus_spec (n : ℕ) (s : Spi1) :
    ((pollStatus d n s).1 = true → SameFlash s (pollStatus d n s).2 ∧ Idle (pollStatus d n s).2) ∧
      (d.Answers → s.writing < n → (pollStatus d n s).1 = true) := by
  induction n generalizing s with
  | zero => exact ⟨fun h => absurd h Bool.false_ne_true, fun _ h => absurd h (Nat.not_lt_zero _)⟩
  | succ n ih =>
    have hcommand := command_does d s spi1CmdFlashRdsr
    rw [transact_rdsr] at hcommand
    unfold pollStatus
    dsimp only
    generalize spi1WaitCmd (s.start d spi1CmdFlashRdsr) = r at hcommand
    obtain ⟨ok, t⟩ := r
    cases ok with
    | false =>
      exact ⟨fun h => absurd h Bool.false_ne_true,
        fun ha _ => absurd (hcommand.answers ha) Bool.false_ne_true⟩
    | true =>
      obtain rfl := hcommand.success rfl
      simp only [Bool.not_true, Bool.false_eq_true, if_false]
      by_cases hzero : s.writing = 0
      · rw [if_pos (by simp [hzero])]
        exact ⟨fun _ => ⟨⟨rfl, rfl⟩, ⟨rfl, by simp [hzero]⟩⟩, fun _ _ => rfl⟩
      · rw [if_neg (by simp [hzero, flashStatusWip])]
        obtain ⟨hok, hanswer⟩ := ih (s := _)
        refine ⟨fun h => ?_, fun ha hlt => hanswer ha (by simp only; omega)⟩
        obtain ⟨hsame, hidle⟩ := hok h
        exact ⟨⟨hsame.flash, hsame.programs⟩, hidle⟩

theorem waitNotBusy_does (hwriting : d.Answers → s.writing < spi1SpinLimit) :
    Does d (fun s' => SameFlash s s' ∧ Idle s') (spi1WaitNotBusy d s) :=
  ⟨(pollStatus_spec _ s).1, fun ha => (pollStatus_spec _ s).2 ha (hwriting ha)⟩

theorem writeEnable_does (hs : Idle s) :
    Does d (fun s' => SameFlash s s' ∧ Idle s' ∧ s'.writeEnabled = true) (spi1WriteEnable d s) := by
  refine (command_does d s spi1CmdFlashWren).mono fun s' h' => ?_
  rw [transact_wren d hs.writing] at h'
  subst h'
  exact ⟨⟨rfl, rfl⟩, ⟨rfl, hs.writing⟩, rfl⟩

end Waits

section Program

/-- The bytes of a range of memory. -/
def bytesAt (m : Memory) (a n : ℕ) : List UInt8 := (List.range n).map fun k => m (a + k)

theorem bytesAt_length (m : Memory) (a n : ℕ) : (bytesAt m a n).length = n := by
  rw [bytesAt, List.length_map, List.length_range]

theorem bytesAt_add (m : Memory) (a n k : ℕ) :
    bytesAt m a (n + k) = bytesAt m a n ++ bytesAt m (a + n) k := by
  simp only [bytesAt, List.range_add, List.map_append, List.map_map, Function.comp_def,
    Nat.add_assoc]

theorem writeWords_eq (s : Spi1) (m : Memory) (src n : ℕ) :
    writeWords s m src n = { s with regs := (writeWords s m src n).regs } := by
  induction n with
  | zero => rfl
  | succ n ih =>
    unfold writeWords Spi1.write
    rw [ih]

theorem writeWords_other (s : Spi1) (m : Memory) (src n : ℕ) {r : Register}
    (h : ∀ i, r ≠ .w i) : (writeWords s m src n).regs r = s.regs r := by
  induction n with
  | zero => rfl
  | succ n ih =>
    rw [writeWords, Spi1.write]
    exact (Function.update_of_ne (h n) _ _).trans ih

theorem writeWords_word (s : Spi1) (m : Memory) (src : ℕ) {n i : ℕ} (h : i < n) :
    (writeWords s m src n).regs (.w i) = load32 m (src + 4 * i) := by
  induction n with
  | zero => exact absurd h (Nat.not_lt_zero i)
  | succ n ih =>
    rw [writeWords, Spi1.write]
    by_cases hi : i = n
    · rw [hi]
      exact Function.update_self ..
    · exact (Function.update_of_ne (by simpa using hi) _ _).trans (ih (by omega))

theorem wByte_writeWords (s : Spi1) (m : Memory) (src : ℕ) {n k : ℕ} (h : k < 4 * n) :
    wByte (writeWords s m src n).regs k = m (src + k) := by
  rw [wByte, writeWords_word s m src (by omega), byte_load32 (by omega)]
  congr 1
  omega

theorem addrReg_and {addr : ℕ} (h : addr < 2 ^ 24) : addr &&& 0xFFFFFF = addr := by
  rw [show 0xFFFFFF = 2 ^ 24 - 1 from rfl, Nat.and_two_pow_sub_one_eq_mod, Nat.mod_eq_of_lt h]

theorem addrReg_or {addr : ℕ} (h : addr < 2 ^ 24) (n : ℕ) :
    (addr &&& 0xFFFFFF) ||| (n <<< 24) = addr + 2 ^ 24 * n := by
  rw [addrReg_and h, Nat.or_comm, ← Nat.shiftLeft_add_eq_or_of_lt h, Nat.shiftLeft_eq]
  omega

theorem setAddrPhase_user1 (s : Spi1) (value : ℕ) :
    (spi1SetAddrPhase s value).regs .user1 = 23 * 2 ^ 26 := by
  simp [spi1SetAddrPhase, Spi1.write, addrBits24, spi1UsrAddrBitlenV, spi1UsrAddrBitlenS]

theorem write_other (s : Spi1) {r r' : Register} (h : r' ≠ r) (v : ℕ) :
    (s.write r v).regs r' = s.regs r' := Function.update_of_ne h ..

/-- The registers as a page program finds them. -/
def programRegs (s : Spi1) (m : Memory) (addr src n : ℕ) : Spi1 :=
  writeWords ((spi1SetAddrPhase s ((addr &&& 0xFFFFFF) ||| (n <<< 24))).write .user 0) m src
    ((n + 3) / 4)

theorem programRegs_eq (s : Spi1) (m : Memory) (addr src n : ℕ) :
    programRegs s m addr src n = { s with regs := (programRegs s m addr src n).regs } :=
  writeWords_eq ..

theorem programRegs_configured (s : Spi1) (m : Memory) (addr src n : ℕ) :
    Configured (programRegs s m addr src n).regs := by
  unfold Configured programRegs
  rw [writeWords_other _ _ _ _ (by simp), writeWords_other _ _ _ _ (by simp),
    writeWords_other _ _ _ _ (by simp)]
  generalize (addr &&& 0xFFFFFF) ||| (n <<< 24) = value
  have huser : ((spi1SetAddrPhase s value).write .user 0).regs .user = 0 := rfl
  rw [write_other _ (by simp), write_other _ (by simp), setAddrPhase_user1, huser]
  exact ⟨rfl, by omega, by omega⟩

theorem programRegs_addr (s : Spi1) (m : Memory) {addr : ℕ} (src n : ℕ) (h : addr < 2 ^ 24) :
    (programRegs s m addr src n).regs .addr = addr + 2 ^ 24 * n := by
  rw [← addrReg_or h]
  exact writeWords_other _ _ _ _ (by simp)

theorem programRegs_data (s : Spi1) (m : Memory) (addr src : ℕ) {n : ℕ} (h : n % 4 = 0) :
    (List.range n).map (wByte (programRegs s m addr src n).regs) = bytesAt m src n := by
  refine List.map_congr_left fun k hk => ?_
  rw [List.mem_range] at hk
  exact wByte_writeWords _ _ _ (by omega)

theorem programChunk_does (m : Memory) {addr src n : ℕ} (hs : Idle s) (haddr : addr < 2 ^ 24)
    (hwords : n % 4 = 0) (hchunk : n ≤ 64) (hpage : addr % 256 + n ≤ 256) :
    Does d (fun s' => Idle s' ∧ s'.flash = NorFlash.program s.flash addr (bytesAt m src n) ∧
        s'.programs = s.programs ++ [(addr, bytesAt m src n)])
      (spi1ProgramChunk d m addr src n s) := by
  refine Does.andThen (f := fun t =>
    let r := spi1WaitCmd ((programRegs t m addr src n).start d spi1CmdFlashPp)
    if !r.1 then r else spi1WaitNotBusy d r.2) (writeEnable_does hs) ?_
  rintro t ⟨hsame, hidle, henabled⟩
  have hregs := programRegs_eq t m addr src n
  have haddrReg := programRegs_addr t m src n haddr
  have htransact : (programRegs t m addr src n).transact d spi1CmdFlashPp =
      { programRegs t m addr src n with
        programs := t.programs ++ [(addr, bytesAt m src n)]
        flash := NorFlash.program t.flash addr (bytesAt m src n)
        writeEnabled := false
        writing := d.write t.started } := by
    have hready : (programRegs t m addr src n).writeEnabled = true ∧
        (programRegs t m addr src n).writing = 0 := by
      rw [hregs]
      exact ⟨henabled, hidle.writing⟩
    have ha : ((programRegs t m addr src n).regs .addr) % 2 ^ 24 = addr := by omega
    have hn : ((programRegs t m addr src n).regs .addr) / 2 ^ 24 % 2 ^ 8 = n := by omega
    have hpage' : addr % 256 + (bytesAt m src n).length ≤ 256 := by rwa [bytesAt_length]
    unfold Spi1.transact
    rw [if_neg (by decide), if_neg (by decide), if_pos rfl]
    simp only [ha, hn, programRegs_data t m addr src hwords]
    rw [if_pos ⟨programRegs_configured .., hready⟩, NorFlash.programPage_eq hpage']
    rw [hregs]
  have hcommand := command_does d (programRegs t m addr src n) spi1CmdFlashPp
  rw [htransact] at hcommand
  refine hcommand.andThen fun u hu => ?_
  subst hu
  refine (waitNotBusy_does fun ha => ha.write _).mono fun v ⟨hv, hidle⟩ => ⟨hidle, ?_, ?_⟩
  · rw [hv.flash, hsame.flash]
  · rw [hv.programs, hsame.programs]

/-- Page programs that follow one another from `a` on: what they carry, and the commands. -/
inductive Tiles : ℕ → List UInt8 → List (ℕ × List UInt8) → Prop
  | nil (a : ℕ) : Tiles a [] []
  | cons {a : ℕ} {chunk rest : List UInt8} {cmds : List (ℕ × List UInt8)}
      (nonempty : 0 < chunk.length) (fits : chunk.length ≤ 64)
      (page : a % 256 + chunk.length ≤ 256) (h : Tiles (a + chunk.length) rest cmds) :
      Tiles a (chunk ++ rest) ((a, chunk) :: cmds)

theorem Tiles.snoc {a : ℕ} {xs chunk : List UInt8} {cmds : List (ℕ × List UInt8)}
    (h : Tiles a xs cmds) (nonempty : 0 < chunk.length) (fits : chunk.length ≤ 64)
    (page : (a + xs.length) % 256 + chunk.length ≤ 256) :
    Tiles a (xs ++ chunk) (cmds ++ [(a + xs.length, chunk)]) := by
  induction h with
  | nil a =>
    have hone := Tiles.cons nonempty fits page (.nil _)
    rwa [List.append_nil] at hone
  | @cons a first rest cmds hnonempty hfits hpage _ ih =>
    rw [List.length_append, ← Nat.add_assoc] at page ⊢
    rw [List.append_assoc]
    exact .cons hnonempty hfits hpage (ih page)

/-- The window of a write, `off` bytes into it. -/
structure Written (s : Spi1) (m : Memory) (addr src off : ℕ) (t : Spi1) : Prop where
  idle : Idle t
  words : off % 4 = 0
  flash : t.flash = NorFlash.program s.flash addr (bytesAt m src off)
  programs : ∃ cmds, t.programs = s.programs ++ cmds ∧ Tiles addr (bytesAt m src off) cmds

theorem flashWindowWrite_does (m : Memory) {addr src len : ℕ} (hs : Idle s)
    (hend : addr + len ≤ 2 ^ 24) (haddr : addr % 4 = 0) (hlen : len % 4 = 0) :
    Does d (Written s m addr src len) (flashWindowWrite d m addr src len s) := by
  refine windowLoop_does (I := Written s m addr src) (fun off t hlt ht => ?_) (by omega)
    (Nat.zero_le _) ⟨hs, rfl, NorFlash.program_nil.symm, [], (List.append_nil _).symm, .nil _⟩
  obtain ⟨hpos, hle, hchunk, hpage⟩ := @windowChunk_spec addr off len hlt
  have hwords := windowChunk_words haddr ht.words hlen
  generalize windowChunk addr off len = n at *
  refine (programChunk_does m ht.idle (by omega) hwords hchunk hpage).mono
    fun u ⟨hidle, hflash, hprograms⟩ => ?_
  obtain ⟨cmds, hcmds, htiles⟩ := ht.programs
  have hlength := bytesAt_length m src off
  refine ⟨hidle, by have := ht.words; omega, ?_, cmds ++ [(addr + off, bytesAt m (src + off) n)],
    ?_, ?_⟩
  · rw [hflash, ht.flash, bytesAt_add, ← NorFlash.program_append, hlength]
  · rw [hprograms, hcmds, List.append_assoc]
  · have hnext := @Tiles.snoc _ _ (bytesAt m (src + off) n) _ htiles
    rw [bytesAt_length, bytesAt_length, ← bytesAt_add] at hnext
    exact hnext hpos hchunk hpage

end Program

section Read

/-- The registers as a read finds them. -/
def readRegs (s : Spi1) (addr len : ℕ) : Spi1 :=
  ((((spi1SetAddrPhase s (addr &&& 0xFFFFFF)).write .user
    (spi1UsrCommand ||| spi1UsrAddr ||| spi1UsrMiso)).write .user2
    (((flashCmdRead &&& spi1UsrCommandValueV) <<< spi1UsrCommandValueS) |||
      ((8 - 1) <<< spi1UsrCommandBitlenS))).write .misoDlen
    (((len * 8 - 1) &&& spi1UsrMisoDbitlenV) <<< spi1UsrMisoDbitlenS)).write .mosiDlen 0

theorem readRegs_values (s : Spi1) {addr len : ℕ} (haddr : addr < 2 ^ 24) (hlen : len ≤ 64) :
    (readRegs s addr len).regs .ctrl = 0 ∧ (readRegs s addr len).regs .addr = addr ∧
      (readRegs s addr len).regs .user1 = 23 * 2 ^ 26 ∧
      (readRegs s addr len).regs .user = 2 ^ 31 + 2 ^ 30 + 2 ^ 28 ∧
      (readRegs s addr len).regs .user2 = 3 + 7 * 2 ^ 28 ∧
      (readRegs s addr len).regs .misoDlen = len * 8 - 1 := by
  have hmiso : (len * 8 - 1) &&& 0x3FF = len * 8 - 1 := by
    rw [show 0x3FF = 2 ^ 10 - 1 from rfl, Nat.and_two_pow_sub_one_eq_mod]
    exact Nat.mod_eq_of_lt (by omega)
  simp [readRegs, Spi1.write, spi1SetAddrPhase, addrBits24, spi1UsrAddrBitlenV, spi1UsrAddrBitlenS,
    spi1UsrCommand, spi1UsrAddr, spi1UsrMiso, flashCmdRead, spi1UsrCommandValueV,
    spi1UsrCommandValueS, spi1UsrCommandBitlenS, spi1UsrMisoDbitlenV, spi1UsrMisoDbitlenS,
    hmiso, addrReg_and haddr]

theorem transact_read (hs : Idle s) {addr len : ℕ} (haddr : addr < 2 ^ 24) (hpos : 0 < len)
    (hlen : len ≤ 64) :
    (readRegs s addr len).transact d spi1CmdUsr =
      { readRegs s addr len with
        regs := shiftIn (readRegs s addr len).regs s.flash addr len } := by
  obtain ⟨hctrl, haddrReg, huser1, huser, huser2, hmiso⟩ := readRegs_values s haddr hlen
  have hconfigured : Configured (readRegs s addr len).regs := by
    rw [Configured, hctrl, huser1, huser]
    omega
  have hread : ConfiguredRead (readRegs s addr len).regs := by
    rw [ConfiguredRead, huser, huser2]
    omega
  unfold Spi1.transact
  rw [if_neg (by decide), if_neg (by decide), if_neg (by decide), if_pos rfl,
    if_pos ⟨hconfigured, hread, hs.writing⟩]
  have ha : (readRegs s addr len).regs .addr % 2 ^ 24 = addr := by omega
  have hn : ((readRegs s addr len).regs .misoDlen % 2 ^ 10 + 1) / 8 = len := by omega
  simp only [ha, hn]
  rfl

theorem readWords_other (regs : Register → ℕ) (m : Memory) {dst n x : ℕ}
    (h : x < dst ∨ dst + 4 * n ≤ x) : readWords regs m dst n x = m x := by
  induction n with
  | zero => rfl
  | succ n ih => rw [readWords, store32_other (by omega), ih (by omega)]

/-- Registers filled from `f` hand on what `f` holds. -/
theorem readWords_byte {regs : Register → ℕ} {f : Memory} (m : Memory) (dst : ℕ) {n : ℕ}
    (hregs : ∀ i < n, regs (.w i) = load32 f (4 * i)) {k : ℕ} (hk : k < 4 * n) :
    readWords regs m dst n (dst + k) = f k := by
  induction n with
  | zero => omega
  | succ n ih =>
    rw [readWords, hregs n (Nat.lt_succ_self n)]
    by_cases hlast : 4 * n ≤ k
    · have hindex : dst + k = dst + 4 * n + (k - 4 * n) := by omega
      rw [hindex, store32_load32 (by omega)]
      congr 1
      omega
    · rw [store32_other (by omega), ih (fun i hi => hregs i (by omega)) (by omega)]

/-- What a read has left in memory, and where. -/
structure Fetched (s : Spi1 × Memory) (addr dst len : ℕ) (t : Spi1 × Memory) : Prop where
  idle : Idle t.1
  same : SameFlash s.1 t.1
  bytes : ∀ k < len, t.2 (dst + k) = s.1.flash (addr + k)
  frame : ∀ x, (x < dst ∨ dst + len ≤ x) → t.2 x = s.2 x

theorem readChunk_eq (d : Delays) (addr dst len : ℕ) (t : Spi1 × Memory) :
    spi1ReadChunk d addr dst len t =
      let r := spi1WaitCmd ((readRegs t.1 addr len).start d spi1CmdUsr)
      if !r.1 then (false, r.2, t.2)
      else (true, r.2, readWords r.2.regs t.2 dst ((len + 3) / 4)) := rfl

theorem readChunk_does {t : Spi1 × Memory} {addr dst len : ℕ} (ht : Idle t.1) (hpos : 0 < len)
    (hwords : len % 4 = 0) (hlen : len ≤ 64) (hend : addr + len ≤ 2 ^ 24) :
    Does d (Fetched t addr dst len) (spi1ReadChunk d addr dst len t) := by
  have hcommand := command_does d (readRegs t.1 addr len) spi1CmdUsr
  rw [transact_read ht (by omega) hpos hlen] at hcommand
  rw [readChunk_eq]
  dsimp only
  generalize spi1WaitCmd ((readRegs t.1 addr len).start d spi1CmdUsr) = r at hcommand
  obtain ⟨ok, u⟩ := r
  cases ok with
  | false =>
    exact ⟨fun h => absurd h Bool.false_ne_true,
      fun ha => absurd (hcommand.answers ha) Bool.false_ne_true⟩
  | true =>
    obtain rfl := hcommand.success rfl
    refine does_done ⟨⟨rfl, ht.writing⟩, ⟨rfl, rfl⟩, fun k hk => ?_, fun x hx => ?_⟩
    · refine (readWords_byte (f := fun k => if k < len then t.1.flash ((addr + k) % 2 ^ 24)
        else wByte (readRegs t.1 addr len).regs k) t.2 dst (fun i _ => rfl) (by omega)).trans ?_
      rw [if_pos hk, Nat.mod_eq_of_lt (by omega)]
    · exact readWords_other _ _ (by omega)

theorem flashWindowRead_does {t : Spi1 × Memory} {addr buf len : ℕ} (ht : Idle t.1)
    (haddr : addr % 4 = 0) (hlen : len % 4 = 0) (hend : addr + len ≤ 2 ^ 24) :
    Does d (Fetched t addr buf len) (flashWindowRead d addr buf len t) := by
  refine (windowLoop_does (I := fun off u => Fetched t addr buf off u ∧ off % 4 = 0)
    (fun off u hlt hu => ?_) (by omega) (Nat.zero_le _)
    ⟨⟨ht, ⟨rfl, rfl⟩, fun k hk => absurd hk (Nat.not_lt_zero k), fun _ _ => rfl⟩, rfl⟩).mono
    fun _ h => h.1
  obtain ⟨hfetched, hoff⟩ := hu
  obtain ⟨hpos, hle, hchunk, -⟩ := @windowChunk_spec addr off len hlt
  have hwords := windowChunk_words haddr hoff hlen
  generalize windowChunk addr off len = n at *
  refine (@readChunk_does d u (addr + off) (buf + off) n hfetched.idle hpos hwords hchunk (by omega)).mono
    fun v hv => ⟨⟨hv.idle, ?_, fun k hk => ?_, fun x hx => ?_⟩, by omega⟩
  · exact ⟨hv.same.flash.trans hfetched.same.flash, hv.same.programs.trans hfetched.same.programs⟩
  · by_cases hold : k < off
    · rw [hv.frame _ (by omega), hfetched.bytes k hold]
    · have hindex : k = off + (k - off) := by omega
      rw [hindex, ← Nat.add_assoc, hv.bytes _ (by omega), hfetched.same.flash, Nat.add_assoc]
  · rw [hv.frame x (by omega), hfetched.frame x (by omega)]

/-- A read has put the range into the caller's buffer, and nothing elsewhere. -/
structure Copied (s : ReadState) (addr dst len : ℕ) (t : ReadState) : Prop where
  idle : Idle t.spi
  same : SameFlash s.spi t.spi
  bytes : ∀ k < len, t.ram (dst + k) = s.spi.flash (addr + k)
  frame : ∀ x, (x < dst ∨ dst + len ≤ x) → t.ram x = s.ram x

theorem copied_zero {s : ReadState} (hs : Idle s.spi) (addr dst : ℕ) : Copied s addr dst 0 s where
  idle := hs
  same := ⟨rfl, rfl⟩
  bytes := fun k hk => absurd hk (Nat.not_lt_zero k)
  frame := fun _ _ => rfl

theorem Copied.append {s t u : ReadState} {addr dst n k : ℕ} (h : Copied s addr dst n t)
    (h' : Copied t (addr + n) (dst + n) k u) : Copied s addr dst (n + k) u where
  idle := h'.idle
  same := ⟨h'.same.flash.trans h.same.flash, h'.same.programs.trans h.same.programs⟩
  bytes := fun i hi => by
    by_cases hold : i < n
    · rw [h'.frame _ (by omega), h.bytes i hold]
    · have hindex : i = n + (i - n) := by omega
      rw [hindex, ← Nat.add_assoc, h'.bytes _ (by omega), ← Nat.add_assoc]
      exact congrFun h.same.flash _
  frame := fun x hx => (h'.frame x (by omega)).trans (h.frame x (by omega))

theorem readLoop_copied {fuel : ℕ} {s : ReadState} {addr out len : ℕ} (hfuel : len ≤ fuel)
    (hs : Idle s.spi) (hend : addr + len ≤ 2 ^ 24) :
    ((readLoop d fuel addr out len s).1 = Err.ok →
        Copied s addr out len (readLoop d fuel addr out len s).2) ∧
      (d.Answers → (readLoop d fuel addr out len s).1 = Err.ok) := by
  induction fuel generalizing s addr out len with
  | zero =>
    obtain rfl : len = 0 := by omega
    exact ⟨fun _ => copied_zero hs addr out, fun _ => rfl⟩
  | succ fuel ih =>
    unfold readLoop
    split_ifs with hzero
    · subst hzero
      exact ⟨fun _ => copied_zero hs addr out, fun _ => rfl⟩
    · dsimp only
      generalize hhead : addr - addr / 4 * 4 = head
      generalize hwant : (if spi1Chunk - head < len then spi1Chunk - head else len) = want
      have hwant' : 0 < want ∧ want ≤ len ∧ head + want ≤ 64 := by
        rw [← hwant]
        unfold spi1Chunk
        split_ifs <;> omega
      have hwindow := @flashWindowRead_does d (s.spi, s.bounce) (addr / 4 * 4) 0
        ((head + want + 3) / 4 * 4) hs (by omega) (by omega) (by omega)
      generalize flashWindowRead d (addr / 4 * 4) 0 ((head + want + 3) / 4 * 4)
        (s.spi, s.bounce) = r at hwindow ⊢
      obtain ⟨ok, u⟩ := r
      cases ok with
      | false =>
        exact ⟨fun h => absurd (show Err.invalidResponse = Err.ok from h) (by decide),
          fun ha => absurd (hwindow.answers ha) Bool.false_ne_true⟩
      | true =>
        obtain ⟨hidle, hsame, hbytes, -⟩ := hwindow.success rfl
        simp only [Bool.not_true, Bool.false_eq_true, if_false]
        have hfirst : Copied s addr out want ⟨u.1, u.2, fun x =>
            if out ≤ x ∧ x < out + want then u.2 (head + (x - out)) else s.ram x⟩ := by
          refine ⟨hidle, hsame, fun k hk => ?_, fun x hx => if_neg (by omega)⟩
          have hbyte := hbytes (head + k) (by omega)
          have hplace : addr / 4 * 4 + (head + k) = addr + k := by omega
          rw [Nat.zero_add, hplace] at hbyte
          dsimp only
          rw [if_pos (by omega), Nat.add_sub_cancel_left]
          exact hbyte
        obtain ⟨hok, hanswers⟩ := @ih _ (addr + want) (out + want) (len - want) (by omega)
          hfirst.idle (by omega)
        refine ⟨fun h => ?_, hanswers⟩
        have hwhole := hfirst.append (hok h)
        rwa [Nat.add_sub_cancel' hwant'.2.1] at hwhole

end Read

section Exact

/-- A write has programmed the range, page by page, and nothing elsewhere. -/
structure Programmed (s : Spi1) (m : Memory) (addr src len : ℕ) (t : Spi1) : Prop where
  idle : Idle t
  programs : ∃ cmds, t.programs = s.programs ++ cmds ∧ Tiles addr (bytesAt m src len) cmds
  flash : ∀ x, t.flash x =
    if addr ≤ x ∧ x < addr + len then s.flash x &&& m (src + (x - addr)) else s.flash x

theorem Written.programmed {addr src len : ℕ} {t : Spi1} (h : Written s m addr src len t) :
    Programmed s m addr src len t := by
  refine ⟨h.idle, h.programs, fun x => ?_⟩
  rw [h.flash, NorFlash.program, bytesAt_length]
  split_ifs with hx
  · have hindex : x - addr < len := by omega
    simp [bytesAt, List.getD, hindex]
  · rfl

theorem wordAligned_iff {addr buf len : ℕ} :
    wordAligned addr buf len = true ↔ addr % 4 = 0 ∧ len % 4 = 0 ∧ buf % 4 = 0 := by
  have hmask : ∀ n, n &&& 3 = n % 4 := fun n => Nat.and_two_pow_sub_one_eq_mod n 2
  simp [wordAligned, hmask, and_assoc]

theorem read_exact (d : Delays) {s : ReadState} {addr dst len : ℕ} (hs : Idle s.spi)
    (hend : addr + len ≤ 2 ^ 24) (hdst : dst ≠ 0) :
    ((reflexFlashRead d addr dst len s).1 = Err.ok ∨ len = 0 →
        Copied s addr dst len (reflexFlashRead d addr dst len s).2) ∧
      (d.Answers → 0 < len → (reflexFlashRead d addr dst len s).1 = Err.ok) := by
  unfold reflexFlashRead
  by_cases hlen : len = 0
  · rw [if_pos (.inr hlen), hlen]
    exact ⟨fun _ => copied_zero hs addr dst, fun _ h => absurd h (Nat.not_lt_zero 0)⟩
  · rw [if_neg (by simp [hdst, hlen])]
    obtain ⟨hok, hanswers⟩ := @readLoop_copied d len s addr dst len (Nat.le_refl len) hs hend
    exact ⟨fun h => hok (h.resolve_right hlen), fun ha _ => hanswers ha⟩

theorem write_exact (d : Delays) (m : Memory) {addr src len : ℕ} (hs : Idle s)
    (hend : addr + len ≤ 2 ^ 24) (hsrc : src ≠ 0) (haligned : wordAligned addr src len = true) :
    ((reflexFlashWrite d m addr src len s).1 = Err.ok ∨ len = 0 →
        Programmed s m addr src len (reflexFlashWrite d m addr src len s).2) ∧
      (d.Answers → 0 < len → (reflexFlashWrite d m addr src len s).1 = Err.ok) := by
  obtain ⟨haddr, hlen4, -⟩ := wordAligned_iff.mp haligned
  have hwindow := @flashWindowWrite_does d s m addr src len hs hend haddr hlen4
  unfold reflexFlashWrite
  by_cases hlen : len = 0
  · rw [if_pos (.inr (.inl hlen))]
    subst hlen
    refine ⟨fun _ => ⟨hs, ⟨[], (List.append_nil _).symm, .nil _⟩, fun x => ?_⟩,
      fun _ h => absurd h (Nat.not_lt_zero 0)⟩
    exact (if_neg (by omega)).symm
  · rw [if_neg (by simp [hsrc, hlen, haligned])]
    dsimp only
    refine ⟨fun h => (hwindow.success ?_).programmed, fun ha _ => ?_⟩
    · by_contra hfail
      rw [if_neg hfail] at h
      exact absurd (h.resolve_right hlen) (by decide)
    · rw [hwindow.answers ha]
      rfl

/-- Reads return the range whatever its alignment, and aligned writes program it in commands
that neither overlap, nor leave a gap, nor wrap. -/
theorem flash_transfers_exact (d : Delays) {s : ReadState} (hs : Idle s.spi) {addr len : ℕ}
    (hend : addr + len ≤ 2 ^ 24) :
    (∀ dst, dst ≠ 0 →
      ((reflexFlashRead d addr dst len s).1 = Err.ok ∨ len = 0 →
        Copied s addr dst len (reflexFlashRead d addr dst len s).2) ∧
      (d.Answers → 0 < len → (reflexFlashRead d addr dst len s).1 = Err.ok)) ∧
    ∀ m src, src ≠ 0 → wordAligned addr src len = true →
      ((reflexFlashWrite d m addr src len s.spi).1 = Err.ok ∨ len = 0 →
        Programmed s.spi m addr src len (reflexFlashWrite d m addr src len s.spi).2) ∧
      (d.Answers → 0 < len → (reflexFlashWrite d m addr src len s.spi).1 = Err.ok) :=
  ⟨fun _ hdst => read_exact d hs hend hdst,
    fun m _ hsrc haligned => write_exact d m hs hend hsrc haligned⟩

/-- A controller at rest before a part that has been erased. -/
def restingSpi : Spi1 where
  regs := fun _ => 0
  flash := fun _ => 0xFF
  writeEnabled := false
  pending := 0
  writing := 0
  started := 0
  programs := []

/-- A page boundary inside the range, with waits of a few polls. -/
theorem flash_transfers_exact_boundary :
    (reflexFlashRead ⟨fun _ => 3, fun _ => 5⟩ 0xE4 0x1001 72
        ⟨restingSpi, fun _ => 0, fun _ => 0⟩).1 = Err.ok ∧
      (reflexFlashWrite ⟨fun _ => 3, fun _ => 5⟩ (fun _ => 7) 0xE4 0x2000 72 restingSpi).1 =
        Err.ok := by
  have hcmd : 3 < spi1SpinLimit := by simp [spi1SpinLimit]
  have hwrite : 5 < spi1SpinLimit := by simp [spi1SpinLimit]
  have hanswers : Delays.Answers ⟨fun _ => 3, fun _ => 5⟩ := ⟨fun _ => hcmd, fun _ => hwrite⟩
  obtain ⟨hread, hwrite⟩ := @flash_transfers_exact ⟨fun _ => 3, fun _ => 5⟩
    ⟨restingSpi, fun _ => 0, fun _ => 0⟩ ⟨rfl, rfl⟩ 0xE4 72 (by decide)
  exact ⟨(hread 0x1001 (by decide)).2 hanswers (by decide),
    (hwrite (fun _ => 7) 0x2000 (by decide) (by decide)).2 hanswers (by decide)⟩

end Exact

end ReflexOS.Flash
