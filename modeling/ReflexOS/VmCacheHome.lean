import ReflexOS.VmCacheTransparency

set_option autoImplicit false

/-!
# Every line sits in the set of its address

No operation of the cache and no step of the VM puts a line elsewhere.
-/
namespace ReflexOS.Vm
open VmTernary VmMmu WriteBack Runs

variable {W : Type*}

/-- Every valid line sits in the set of its address. -/
def Homed (c : Cache) : Prop :=
  ∀ i, (c.sets i).state ≠ .invalid → setIndex (c.sets i).tag = i

def Home (m : Machine W) : Prop := ∃ c, m.vm.cache = some c ∧ Homed c

section Home

variable {m m' : Machine W} {c d : Cache} {a : ℕ}

theorem Home.of_cache (h : Home m) (hc : m'.vm.cache = m.vm.cache) : Home m' := by
  obtain ⟨c, hcache, hhomed⟩ := h
  exact ⟨c, hc.trans hcache, hhomed⟩

theorem Homed.setCache (h : Homed c) (hsets : d.sets = c.sets) : Home (m.setCache d) := by
  refine ⟨d, rfl, ?_⟩
  rw [Homed, hsets]
  exact h

theorem Homed.setLine (h : Homed c) (hsets : d.sets = c.sets) {i : Fin 16}
    {line : Line ℕ Word18} (hline : line.state ≠ .invalid → setIndex line.tag = i) :
    Home (m.setCache (d.setLine i line)) := by
  refine ⟨_, rfl, fun j hj => ?_⟩
  by_cases hij : j = i
  · subst j
    simp only [Cache.setLine, Function.update_self] at hj ⊢
    exact hline hj
  · simp only [Cache.setLine, Function.update_of_ne hij, hsets] at hj ⊢
    exact h j hj

theorem Homed.fetch (h : Homed c) (hsets : d.sets = c.sets) (a : ℕ) :
    Home (cacheFetch m d a).2 := by
  unfold cacheFetch
  split
  · exact h.setCache hsets
  · exact h.setLine hsets fun _ => rfl

theorem Home.load (h : Home m) (a : ℕ) : Home (cacheLoad m a).2 := by
  obtain ⟨c, hc, hhomed⟩ := h
  unfold cacheLoad
  rw [hc]
  dsimp only
  split
  · exact hhomed.setCache rfl
  split
  · split
    · exact hhomed.setCache rfl
    · exact hhomed.fetch (by rfl) a
  · exact hhomed.fetch (by rfl) a

theorem Home.store (h : Home m) (a : ℕ) (w : Word18) : Home (cacheStore m a w).2 := by
  obtain ⟨c, hc, hhomed⟩ := h
  unfold cacheStore
  rw [hc]
  dsimp only
  split
  · split
    · exact hhomed.setCache rfl
    · exact hhomed.setLine (by rfl) fun _ => rfl
  · exact hhomed.setLine rfl fun _ => rfl

theorem Home.flush (h : Home m) (a : ℕ) : Home (cacheFlush m a).2 := by
  have hkept := h
  obtain ⟨c, hc, hhomed⟩ := h
  unfold cacheFlush
  rw [hc]
  dsimp only
  split
  next hdirty =>
    split
    · exact hkept
    · refine hhomed.setLine rfl fun _ => hhomed _ ?_
      rw [hdirty.1]
      decide
  · exact hkept

theorem Home.invalidate (h : Home m) (a : ℕ) : Home (cacheInvalidate m a).2 := by
  have hkept := h
  obtain ⟨c, hc, hhomed⟩ := h
  unfold cacheInvalidate
  rw [hc]
  dsimp only
  split
  · exact hhomed.setLine rfl fun hvalid => absurd rfl hvalid
  · exact hkept

theorem Home.flushInvalidate (h : Home m) (a : ℕ) : Home (cacheFlushInvalidate m a).2 := by
  unfold cacheFlushInvalidate
  dsimp only
  split
  · exact (h.flush a).invalidate a
  · exact h.flush a

theorem Home.flushSet (h : Home m) (i : Fin 16) : Home (cacheFlushSet m i).2 := by
  have hkept := h
  obtain ⟨c, hc, hhomed⟩ := h
  unfold cacheFlushSet
  rw [hc]
  dsimp only
  split
  next hdirty =>
    split
    · exact hkept
    · refine hhomed.setLine rfl fun _ => hhomed _ ?_
      rw [hdirty]
      decide
  · exact hkept

theorem Home.flushSets (h : Home m) (is : List (Fin 16)) : Home (cacheFlushSets m is).2 := by
  induction is generalizing m with
  | nil => exact h
  | cons i is ih =>
    unfold cacheFlushSets
    dsimp only
    split
    · exact ih (h.flushSet i)
    · exact h.flushSet i

theorem Home.flushAll (h : Home m) : Home (cacheFlushAll m).2 := by
  unfold cacheFlushAll
  split
  · exact h
  · exact h.flushSets _

theorem Home.memSetRaw {w : Word18} (h : Home m) (hset : Vm.memSetRaw m a w = .ok m') :
    Home m' := by
  obtain ⟨hvm, -⟩ := memSetRaw_vm hset
  exact h.of_cache (by rw [hvm])

theorem Home.hostWrite (h : Home m) (a : ℕ) (w : Word18) : Home (hostWrite m a w).2 := by
  unfold Vm.hostWrite
  split
  · exact h
  next hset =>
    split
    · exact (h.memSetRaw hset).invalidate a
    · exact h.memSetRaw hset

end Home

section Steps

variable {m : Machine W}

theorem vmProceed_cache (m : Machine W) : (vmProceed m).2.vm.cache = m.vm.cache := by
  unfold vmProceed
  dsimp only
  split <;> rfl

theorem writeResult_cache (m : Machine W) (d : Fin 8) (f : Fault) (r : Except Err Word18) :
    (writeResult m d f r).2.vm.cache = m.vm.cache := by
  unfold writeResult
  split
  · exact vmProceed_cache _
  · rfl

theorem setInt32_cache (m : Machine W) (d : Fin 8) (v : ℤ) :
    (setInt32 m d v).vm.cache = m.vm.cache := by
  unfold setInt32
  split <;> rfl

theorem vmJump_cache (m : Machine W) (target : ℤ) :
    (vmJump m target).2.vm.cache = m.vm.cache := by
  unfold vmJump
  split <;> rfl

theorem execTcmp_cache (m : Machine W) (d a b : Fin 8) :
    (execTcmp m d a b).2.vm.cache = m.vm.cache := by
  unfold execTcmp
  split
  · rfl
  · exact vmProceed_cache _

theorem execBranch_cache (m : Machine W) (a : Fin 8) (sign imm : ℤ) :
    (execBranch m a sign imm).2.vm.cache = m.vm.cache := by
  unfold execBranch
  split
  · exact vmJump_cache m imm
  · exact vmProceed_cache m

theorem execTsend_cache (host : Host W) (m : Machine W) (d a : Fin 8) (imm : ℤ) :
    (execTsend host m d a imm).2.vm.cache = m.vm.cache := by
  unfold execTsend
  split
  · rfl
  split
  · rfl
  dsimp only
  split
  · exact vmProceed_cache _
  · rfl

theorem execTrecv_cache (host : Host W) (m : Machine W) (d : Fin 8) :
    (execTrecv host m d).2.vm.cache = m.vm.cache := by
  unfold execTrecv
  dsimp only
  split
  · exact vmProceed_cache _
  · rw [vmProceed_cache]
    split <;> rfl

theorem execTsys_cache (host : Host W) (m : Machine W) (d a : Fin 8) (imm : ℤ) :
    (execTsys host m d a imm).2.vm.cache = m.vm.cache := by
  unfold execTsys
  split
  · rfl
  · exact writeResult_cache _ _ _ _

theorem execTroute_cache (host : Host W) (m : Machine W) (d a b : Fin 8) (imm : ℤ) :
    (execTroute host m d a b imm).2.vm.cache = m.vm.cache := by
  unfold execTroute
  dsimp only
  split
  · split
    · rw [vmProceed_cache, setInt32_cache]
    · rw [vmProceed_cache, setInt32_cache]
  · rw [vmProceed_cache, setInt32_cache]

theorem execTbias_cache (host : Host W) (m : Machine W) (d a b : Fin 8) :
    (execTbias host m d a b).2.vm.cache = m.vm.cache := by
  unfold execTbias
  dsimp only
  split
  · rw [vmProceed_cache, setInt32_cache]
  · rw [vmProceed_cache, setInt32_cache]

theorem Home.tld (h : Home m) (d a : Fin 8) : Home (execTld m d a).2 := by
  unfold execTld
  split
  · exact h
  next addr _ =>
    have hload : Home (vmLoad m (u32 addr)).2 := by
      unfold vmLoad
      split
      · exact h.load _
      · exact h
    split
    next heq =>
      rw [heq] at hload
      exact hload
    next heq =>
      rw [heq] at hload
      exact hload.of_cache (vmProceed_cache _)

theorem Home.tst (h : Home m) (d a : Fin 8) : Home (execTst m d a).2 := by
  unfold execTst
  split
  · exact h
  next addr _ =>
    have hstore : Home (vmStore m (u32 addr) (m.vm.registers a)).2 := by
      unfold vmStore
      split
      · exact h.store _ _
      split
      · exact h
      next hset => exact h.memSetRaw hset
    dsimp only
    split
    · exact hstore.of_cache (vmProceed_cache _)
    · exact hstore

theorem Home.cacheOp {op : Machine W → ℕ → Err × Machine W} (h : Home m)
    (hop : ∀ b, Home (op m b).2) (a : Fin 8) : Home (execCacheOp op m a).2 := by
  unfold execCacheOp
  split
  · exact h
  next addr _ =>
    refine Home.of_cache ?_ (vmProceed_cache _)
    split
    · exact hop _
    · exact h

theorem Home.execute {host : Host W} (h : Home m) {i : Instruction} {r : Err × Machine W}
    (hr : Vm.execute host m i = some r) : Home r.2 := by
  obtain ⟨op, dst, srcA, srcB, imm⟩ := i
  cases op <;> simp only [Vm.execute] at hr
  case tnop | thalt =>
    cases hr
    exact h.of_cache (vmProceed_cache _)
  case unknown =>
    cases hr
    exact h
  case tjmp =>
    cases hr
    exact h.of_cache (vmJump_cache _ _)
  case tldi | trecv =>
    obtain ⟨_, hr⟩ := withReg_eq_some hr
    cases hr
    first
    | exact h.of_cache (writeResult_cache _ _ _ _)
    | exact h.of_cache (execTrecv_cache _ _ _)
  case tbrneg | tbrzero | tbrpos =>
    obtain ⟨_, hr⟩ := withReg_eq_some hr
    cases hr
    exact h.of_cache (execBranch_cache _ _ _ _)
  case tflush =>
    obtain ⟨_, hr⟩ := withReg_eq_some hr
    cases hr
    exact h.cacheOp h.flush _
  case tinv =>
    obtain ⟨_, hr⟩ := withReg_eq_some hr
    cases hr
    exact h.cacheOp h.flushInvalidate _
  case tmov | tsend | tsys | tld | tst | tsense =>
    obtain ⟨_, hr⟩ := withReg_eq_some hr
    obtain ⟨_, hr⟩ := withReg_eq_some hr
    cases hr
    first
    | exact h.tld _ _
    | exact h.tst _ _
    | exact h.of_cache (execTsend_cache _ _ _ _ _)
    | exact h.of_cache (execTsys_cache _ _ _ _ _)
    | exact h.of_cache (vmProceed_cache _)
  case tadd | tsub | tcmp | tsel | troute | tbias =>
    obtain ⟨_, hr⟩ := withReg_eq_some hr
    obtain ⟨_, hr⟩ := withReg_eq_some hr
    obtain ⟨_, hr⟩ := withReg_eq_some hr
    cases hr
    first
    | exact h.of_cache (writeResult_cache _ _ _ _)
    | exact h.of_cache (execTcmp_cache _ _ _ _)
    | exact h.of_cache (execTroute_cache _ _ _ _ _ _)
    | exact h.of_cache (execTbias_cache _ _ _ _ _)

theorem Home.step {host : Host W} (h : Home m) {r : Err × Machine W}
    (hr : vmStep host m = some r) : Home r.2 := by
  unfold vmStep at hr
  split at hr
  · cases hr
    exact h
  split at hr
  · cases hr
    exact h
  split at hr
  · cases hr
    exact h
  split at hr
  · cases hr
    exact h
  split at hr
  · cases hr
    exact h
  · exact Home.execute (m := m.advance) h hr

end Steps

/-- Something happens to the VM, with whatever result. -/
def Happens (host : Host W) (m : Machine W) (e : Event) (m' : Machine W) : Prop :=
  ∃ err, perform host m e = some (err, m')

theorem Home.happens {host : Host W} {m m' : Machine W} {e : Event} (h : Home m)
    (hstep : Happens host m e m') : Home m' := by
  obtain ⟨err, hperform⟩ := hstep
  cases e with
  | step => exact h.step hperform
  | hostWrite a w =>
    have hwrite := h.hostWrite a w
    rw [Option.some.inj hperform] at hwrite
    exact hwrite
  | flushAll =>
    have hflush := h.flushAll
    rw [Option.some.inj hperform] at hflush
    exact hflush
  | other registers ip =>
    cases Option.some.inj hperform
    exact h

end ReflexOS.Vm
