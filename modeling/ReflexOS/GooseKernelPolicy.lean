import ReflexOS.GooseDomains
import ReflexOS.GooseLearning
import ReflexOS.GooseLoom

set_option autoImplicit false

/-!
# The supervisor's stance on a field

Once a second the kernel asks the substrate which fields serve the declared purpose. A stance
has three values; the priority of a field's task is computed from it.
-/
namespace ReflexOS.Goose
open VmTernary

def maxHolons : ℕ := 8
def maxHolonFields : ℕ := 4
def pulseBasePriority : ℤ := 10
def pulsePurposeBoost : ℤ := 3
def pulseHebbianBoost : ℤ := 2
def pulsePainPenalty : ℤ := 2
def pulseMaxPriority : ℤ := 15

/-- `reflex_holon_t`; fields are named by their addresses. -/
structure Holon where
  name : CName
  domain : CName
  fields : List ℕ
  active : Bool

/-- The statics of the policy. -/
structure KernelPolicy where
  lastPurpose : CName
  holons : List Holon
  dispositions : List ℤ
  dispositionCell : Option ℕ

/-- What a tick finds. -/
structure PolicyView where
  purpose : CName
  supervised : List ℕ
  fields : ℕ → Field
  fabric : Fabric
  lock : ℕ → Bool

/-- What a tick leaves, and the priorities it asks for, task by task. -/
structure PolicyTurn where
  policy : KernelPolicy
  fabric : Fabric
  requests : List (CName × ℤ)

def kernelDispositionName : CName := ascii "sys.kernel.disposition"

def policyDisposition (purposeActive hasDomainRoute inAnyHolon inActiveHolon pained : Bool) : ℤ :=
  if purposeActive && inAnyHolon && !inActiveHolon then -1
  else if pained && !hasDomainRoute then -1
  else if purposeActive && hasDomainRoute then 1
  else 0

/-- By precedence. -/
def policyAggregate (engagedCount withheldCount : ℕ) : ℤ :=
  if 0 < engagedCount then 1 else if 0 < withheldCount then -1 else 0

/-- The projection of a stance onto the scheduler's integer. -/
def pulsePriority (disposition : ℤ) (purposeActive : Bool) (learnedRoutes : ℕ) : ℤ :=
  let priority := pulseBasePriority
  let priority :=
    if disposition = 1 then priority + pulsePurposeBoost
    else if decide (disposition = 0) && purposeActive then priority + 1
    else priority
  let priority :=
    if disposition ≠ -1 ∧ 0 < learnedRoutes then priority + pulseHebbianBoost else priority
  let priority := if disposition = -1 then priority - pulsePainPenalty else priority
  let priority := if priority < pulseBasePriority then pulseBasePriority else priority
  if pulseMaxPriority < priority then pulseMaxPriority else priority

/-- `p_%.13s`. -/
def pulseTaskName (name : CName) : CName := ascii "p_" ++ name.take 13

/-- The purpose as the policy keeps it, in a buffer of 16. -/
def noticePurpose (lastPurpose purpose : CName) : CName :=
  if purpose ≠ [] then
    if lastPurpose.take 15 ≠ purpose.take 15 then purpose.take 15 else lastPurpose
  else []

def Holon.update (purpose : CName) (h : Holon) : Holon :=
  { h with
    active := decide (h.domain = []) || decide (purpose ≠ []) && domainMatch purpose h.domain }

def nameOnDomain (reg : Registry) (purpose : CName) (coord : Tryte9) : Bool :=
  (gooniesResolveNameByCoord reg coord).any fun name => domainMatch name purpose

def hasDomainRoute (reg : Registry) (purpose : CName) (field : Field) : Bool :=
  field.routes.any fun r =>
    nameOnDomain reg purpose r.sourceCoord || nameOnDomain reg purpose r.sinkCoord

def learnedRoutes (field : Field) : ℕ := field.routes.countP fun r => r.learnedOrientation ≠ 0

def inAnyHolon (holons : List Holon) (fid : ℕ) : Bool := holons.any fun h => h.fields.contains fid

def inActiveHolon (holons : List Holon) (fid : ℕ) : Bool :=
  holons.any fun h => h.fields.contains fid && h.active

/-- The stance toward one field, once the purpose, the holons and the pain are known. -/
def fieldDisposition (v : PolicyView) (reg : Registry) (lastPurpose : CName)
    (holons : List Holon) (pained : Bool) (fid : ℕ) : ℤ :=
  policyDisposition (decide (v.purpose ≠ []))
    (decide (v.purpose ≠ []) && hasDomainRoute reg lastPurpose (v.fields fid))
    (inAnyHolon holons fid) (inActiveHolon holons fid) pained

def PolicyView.request (v : PolicyView) (disposition : ℤ) (fid : ℕ) : CName × ℤ :=
  (pulseTaskName (v.fields fid).name,
    pulsePriority disposition (decide (v.purpose ≠ [])) (learnedRoutes (v.fields fid)))

/-- `goose_kernel_policy_tick`. The first lookup is for the pain, the second for the cell the
aggregate is published in, which is looked for until it is found. -/
def kernelPolicyTick (atlas : Atlas) (v : PolicyView) (P : KernelPolicy) : PolicyTurn :=
  let lastPurpose := noticePurpose P.lastPurpose v.purpose
  let pain := resolveCell atlas (v.lock 0) v.fabric painName
  let pained := pain.1.any fun idx => decide ((pain.2.cells idx).state = -1)
  let holons := P.holons.map (Holon.update v.purpose)
  let stance := fieldDisposition v pain.2.registry lastPurpose holons pained
  let dispositions := v.supervised.map stance
  let found :=
    match P.dispositionCell with
    | some idx => (some idx, pain.2)
    | none => resolveCell atlas (v.lock 1) pain.2 kernelDispositionName
  let aggregate := policyAggregate (dispositions.countP fun s => 0 < s)
    (dispositions.countP fun s => s < 0)
  { policy := ⟨lastPurpose, holons, dispositions, found.1⟩
    fabric := found.1.elim found.2 fun idx => found.2.setState idx aggregate
    requests := v.supervised.map fun fid => v.request (stance fid) fid }

/-- A domain is cut to 15 characters, as the name is; a new holon is active. -/
def holonCreate (name : CName) (domain : Option CName) (holons : List Holon) :
    Err × List Holon :=
  if maxHolons ≤ holons.length then (Err.noMem, holons)
  else (Err.ok, holons ++ [⟨name.take 15, (domain.getD []).take 15, [], true⟩])

/-- The field joins the first holon of the name. -/
def holonAddField (name : Option CName) (field : Option ℕ) (holons : List Holon) :
    Err × List Holon :=
  match name, field with
  | some name, some fid =>
    match holons.findIdx? fun h => h.name = name with
    | none => (Err.notFound, holons)
    | some i =>
      match holons[i]? with
      | none => (Err.notFound, holons)
      | some h =>
        if maxHolonFields ≤ h.fields.length then (Err.noMem, holons)
        else (Err.ok, holons.set i { h with fields := h.fields ++ [fid] })
  | _, _ => (Err.invalidArg, holons)

section Stances

variable {purposeActive onDomain inAny inActive pained : Bool}

/-- Pain does not hold back what serves the purpose, nor does it serve a purpose. -/
theorem policyDisposition_engaged_iff :
    policyDisposition purposeActive onDomain inAny inActive pained = 1 ↔
      purposeActive = true ∧ onDomain = true ∧ (inAny = true → inActive = true) := by
  cases purposeActive <;> cases onDomain <;> cases inAny <;> cases inActive <;> cases pained <;>
    decide

theorem policyDisposition_withheld_iff :
    policyDisposition purposeActive onDomain inAny inActive pained = -1 ↔
      purposeActive = true ∧ inAny = true ∧ inActive = false ∨ pained = true ∧ onDomain = false := by
  cases purposeActive <;> cases onDomain <;> cases inAny <;> cases inActive <;> cases pained <;>
    decide

theorem pulsePriority_withheld (purposeActive : Bool) (learned : ℕ) :
    pulsePriority (-1) purposeActive learned = pulseBasePriority := by
  cases purposeActive <;> simp [pulsePriority, pulseBasePriority, pulsePainPenalty,
    pulseMaxPriority]

theorem pulsePriority_engaged (purposeActive : Bool) (learned : ℕ) :
    pulseBasePriority + pulsePurposeBoost ≤ pulsePriority 1 purposeActive learned := by
  by_cases hlearned : 0 < learned <;>
    simp [pulsePriority, pulseBasePriority, pulsePurposeBoost, pulseHebbianBoost,
      pulseMaxPriority, hlearned]

end Stances

section Ticks

variable {atlas : Atlas} {v : PolicyView} {P : KernelPolicy}

theorem mem_zip_map {α β : Type*} {f : α → β} {l : List α} {a : α} {b : β}
    (h : (a, b) ∈ l.zip (l.map f)) : a ∈ l ∧ b = f a := by
  induction l with
  | nil => cases h
  | cons x l ih =>
    rcases List.mem_cons.mp h with heq | h
    · obtain ⟨rfl, rfl⟩ := Prod.mk.inj heq
      exact ⟨List.mem_cons_self, rfl⟩
    · exact (ih h).imp_left (List.mem_cons_of_mem x)

/-- The stances are published field by field, and each asks for the priority it projects to. -/
theorem request_of_stance {fid : ℕ} {s : ℤ}
    (h : (fid, s) ∈ v.supervised.zip (kernelPolicyTick atlas v P).policy.dispositions) :
    v.request s fid ∈ (kernelPolicyTick atlas v P).requests := by
  obtain ⟨hfid, rfl⟩ := mem_zip_map h
  exact List.mem_map.mpr ⟨fid, hfid, rfl⟩

/-- Whatever asks for a priority is the task of a field. -/
theorem name_of_request {r : CName × ℤ} (h : r ∈ (kernelPolicyTick atlas v P).requests) :
    ∃ fid ∈ v.supervised, r.1 = pulseTaskName (v.fields fid).name := by
  obtain ⟨fid, hfid, rfl⟩ := List.mem_map.mp h
  exact ⟨fid, hfid, rfl⟩

end Ticks

end ReflexOS.Goose
