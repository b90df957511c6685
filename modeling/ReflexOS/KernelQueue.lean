import ReflexOS.Types

set_option autoImplicit false

/-!
# The kernel message queue

A ring of `length` items; `head` is where the next send goes, `tail` the oldest item.
-/
namespace ReflexOS.Kernel

variable {α : Type*}

structure KQueue (α : Type*) where
  storage : ℕ → α
  length : ℕ
  count : ℕ
  head : ℕ
  tail : ℕ

def kqueueTrySend (q : KQueue α) (item : α) : Option (KQueue α) :=
  if q.length ≤ q.count then none
  else some { q with
    storage := Function.update q.storage q.head item
    head := (q.head + 1) % q.length
    count := q.count + 1 }

def kqueueTryRecv (q : KQueue α) : Option (α × KQueue α) :=
  if q.count = 0 then none
  else some (q.storage q.tail,
    { q with tail := (q.tail + 1) % q.length, count := q.count - 1 })

def kqueueReset (q : KQueue α) : KQueue α := { q with count := 0, head := 0, tail := 0 }

/-- A blocking operation of a task. -/
inductive Request (α : Type*) where
  | send (item : α)
  | recv

def Request.isSend : Request α → Bool
  | .send _ => true
  | .recv => false

/-- One attempt; the queue after it when it succeeds. -/
def kqueueTry (q : KQueue α) : Request α → Option (KQueue α)
  | .send item => kqueueTrySend q item
  | .recv => (kqueueTryRecv q).map Prod.snd

/-- How many attempts of a kind would succeed in a row: room for sends, items for receives. -/
def KQueue.supply (q : KQueue α) (send : Bool) : ℕ := if send then q.length - q.count else q.count

section Try

variable {q q' : KQueue α} {req : Request α}

theorem kqueueTry_none (h : kqueueTry q req = none) : q.supply req.isSend = 0 := by
  cases req with
  | send item =>
    simp only [kqueueTry, kqueueTrySend, ite_eq_left_iff, reduceCtorEq, imp_false, not_not] at h
    simp only [Request.isSend, KQueue.supply, if_true]
    omega
  | recv =>
    simpa [kqueueTry, kqueueTryRecv, Request.isSend, KQueue.supply] using h

/-- A success uses up one of its kind and provides one of the other. -/
theorem kqueueTry_some (hq : q.count ≤ q.length) (h : kqueueTry q req = some q') :
    q'.count ≤ q'.length ∧ q'.supply req.isSend + 1 = q.supply req.isSend ∧
      q'.supply (!req.isSend) = q.supply (!req.isSend) + 1 := by
  cases req with
  | send item =>
    by_cases hc : q.length ≤ q.count
    · simp [kqueueTry, kqueueTrySend, hc] at h
    · rw [kqueueTry, kqueueTrySend, if_neg hc] at h
      cases h
      simp only [Request.isSend, KQueue.supply, Bool.not_true, Bool.false_eq_true, if_true,
        if_false, and_true]
      omega
  | recv =>
    obtain ⟨⟨item, next⟩, hrecv, rfl⟩ := Option.map_eq_some_iff.mp h
    by_cases hc : q.count = 0
    · simp [kqueueTryRecv, hc] at hrecv
    · rw [kqueueTryRecv, if_neg hc] at hrecv
      cases hrecv
      simp only [Request.isSend, KQueue.supply, Bool.not_false, Bool.false_eq_true, if_true,
        if_false]
      omega

end Try

end ReflexOS.Kernel
