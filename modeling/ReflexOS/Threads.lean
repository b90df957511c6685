import Mathlib.Logic.Function.Basic
import ReflexOS.Runs

set_option autoImplicit false

/-!
# Calls made of atomic operations

Threads make calls whose code is a program over atomic operations, and between two operations of
one thread the others take theirs. A call is proved correct on its own, against what the others
may do meanwhile.
-/
namespace Threads
open Runs

/-- Code over operations `O` with answers `R`, up to its result. -/
inductive Prog (O R A : Type) where
  | ret (a : A)
  | act (op : O) (next : R → Prog O R A)

namespace Prog
variable {O R A B : Type}

def bind : Prog O R A → (A → Prog O R B) → Prog O R B
  | .ret a, f => f a
  | .act op next, f => .act op fun r => (next r).bind f

instance : Monad (Prog O R) where
  pure := .ret
  bind := .bind

/-- One operation and its answer. -/
def op (o : O) : Prog O R R := .act o .ret

@[simp] theorem pure_eq (a : A) : (pure a : Prog O R A) = .ret a := rfl

@[simp] theorem ret_bind (a : A) (f : A → Prog O R B) : (ret a >>= f) = f a := rfl

@[simp] theorem act_bind (o : O) (next : R → Prog O R A) (f : A → Prog O R B) :
    (act o next >>= f) = act o fun r => next r >>= f := rfl

@[simp] theorem op_bind (o : O) (f : R → Prog O R B) : (op o >>= f) = act o f := rfl

end Prog

/-- A call in progress: the state when it was made, what its operations have answered, and the
code that is left. -/
structure Task (σ C O R A : Type) where
  call : C
  before : σ
  answers : List (O × R)
  left : Prog O R A

structure State (σ C O R A : Type) where
  world : σ
  tasks : ℕ → Option (Task σ C O R A)

/-- Calls with their code, and what they, their operations, their ends and everything else do to
the state. -/
structure System (σ C O R A : Type) where
  body : C → Prog O R A
  enter : ℕ → σ → C → σ → Prop
  exec : ℕ → σ → O → R → σ → Prop
  leave : ℕ → σ → C → A → σ → Prop
  other : σ → σ → Prop

inductive Label (C : Type) where
  | enter (t : ℕ) (c : C)
  | exec (t : ℕ)
  | leave (t : ℕ)
  | other

variable {σ C O R A : Type}

inductive System.Step (S : System σ C O R A) :
    State σ C O R A → Label C → State σ C O R A → Prop where
  | enter {M : State σ C O R A} {t : ℕ} {c : C} {s : σ} (idle : M.tasks t = none)
      (h : S.enter t M.world c s) :
      S.Step M (.enter t c) ⟨s, Function.update M.tasks t (some ⟨c, M.world, [], S.body c⟩)⟩
  | exec {M : State σ C O R A} {t : ℕ} {k : Task σ C O R A} {o : O} {next : R → Prog O R A} {r : R}
      {s : σ} (task : M.tasks t = some k) (left : k.left = .act o next)
      (h : S.exec t M.world o r s) :
      S.Step M (.exec t) ⟨s, Function.update M.tasks t
        (some ⟨k.call, k.before, k.answers ++ [(o, r)], next r⟩)⟩
  | leave {M : State σ C O R A} {t : ℕ} {k : Task σ C O R A} {a : A} {s : σ}
      (task : M.tasks t = some k) (left : k.left = .ret a) (h : S.leave t M.world k.call a s) :
      S.Step M (.leave t) ⟨s, Function.update M.tasks t none⟩
  | other {M : State σ C O R A} {s : σ} (h : S.other M.world s) :
      S.Step M .other ⟨s, M.tasks⟩

/-- The operation that a thread is about to take. -/
def State.About (M : State σ C O R A) (t : ℕ) (o : O) : Prop :=
  ∃ k next, M.tasks t = some k ∧ k.left = .act o next

/-- Every operation is taken where it meets `G`. -/
def Meets (G : σ → O → Prop) (M : State σ C O R A) : Label C → Prop
  | .exec t => ∀ o, M.About t o → G M.world o
  | _ => True

/-- What a system is proved with: an invariant, what the others may do to a thread, where an
operation may be taken, and what a result says. -/
structure Contract (σ C O R A : Type) where
  Inv : σ → Prop
  Rely : ℕ → σ → σ → Prop
  Safe : ℕ → σ → O → Prop
  Post : ℕ → C → σ → List (O × R) → A → σ → Prop

/-- The rest of a call goes well from a state on, whatever the others do. -/
def Contract.Ok (K : Contract σ C O R A) (S : System σ C O R A) (G : σ → O → Prop) (t : ℕ) (c : C)
    (b : σ) : List (O × R) → Prog O R A → σ → Prop
  | done, .ret a, s => ∀ s', K.Rely t s s' → K.Inv s' → K.Post t c b done a s'
  | done, .act o next, s => ∀ s', K.Rely t s s' → K.Inv s' → K.Safe t s' o ∧
      ∀ r s'', G s' o → S.exec t s' o r s'' → K.Inv s'' →
        K.Ok S G t c b (done ++ [(o, r)]) (next r) s''

/-- What the steps owe to each other. -/
structure Contract.Holds (K : Contract σ C O R A) (S : System σ C O R A) (G : σ → O → Prop) :
    Prop where
  refl : ∀ t s, K.Rely t s s
  trans : ∀ t s s' s'', K.Rely t s s' → K.Rely t s' s'' → K.Rely t s s''
  enter : ∀ t s c s', K.Inv s → S.enter t s c s' →
    K.Inv s' ∧ (∀ u ≠ t, K.Rely u s s') ∧ K.Ok S G t c s [] (S.body c) s'
  exec : ∀ t s o r s', K.Inv s → K.Safe t s o → G s o → S.exec t s o r s' →
    K.Inv s' ∧ ∀ u ≠ t, K.Rely u s s'
  leave : ∀ t s c b done a s', K.Inv s → K.Post t c b done a s → S.leave t s c a s' →
    K.Inv s' ∧ ∀ u ≠ t, K.Rely u s s'
  other : ∀ s s', K.Inv s → S.other s s' → K.Inv s' ∧ ∀ u, K.Rely u s s'

section Contract
variable {K : Contract σ C O R A} {S : System σ C O R A} {G : σ → O → Prop} {t : ℕ} {c : C}
  {b s s' : σ} {done : List (O × R)} {P : Prog O R A}

/-- Where the contract holds, a call that goes well still does after steps of the others. -/
theorem Contract.Holds.stable (h : K.Holds S G) (hok : K.Ok S G t c b done P s)
    (hrely : K.Rely t s s') : K.Ok S G t c b done P s' := by
  cases P with
  | ret a => exact fun u hu => hok u (h.trans t s s' u hrely hu)
  | act o next => exact fun u hu => hok u (h.trans t s s' u hrely hu)

/-- The invariant, and that every call in progress goes well. -/
def Contract.Good (K : Contract σ C O R A) (S : System σ C O R A) (G : σ → O → Prop)
    (M : State σ C O R A) : Prop :=
  K.Inv M.world ∧ ∀ t k, M.tasks t = some k → K.Ok S G t k.call k.before k.answers k.left M.world

/-- A step of thread `t` leaves the calls of the others alone. -/
theorem Contract.Good.update (h : K.Holds S G) {M : State σ C O R A} (hM : K.Good S G M)
    (hinv : K.Inv s) (hrely : ∀ u ≠ t, K.Rely u M.world s) {k : Option (Task σ C O R A)}
    (hk : ∀ j, k = some j → K.Ok S G t j.call j.before j.answers j.left s) :
    K.Good S G ⟨s, Function.update M.tasks t k⟩ := by
  refine ⟨hinv, fun u j hj => ?_⟩
  change Function.update M.tasks t k u = some j at hj
  by_cases hu : u = t
  · subst hu
    rw [Function.update_self] at hj
    exact hk j hj
  · rw [Function.update_of_ne hu] at hj
    exact h.stable (hM.2 u j hj) (hrely u hu)

theorem Contract.Good.step (h : K.Holds S G) {M N : State σ C O R A} {l : Label C}
    (hM : K.Good S G M) (hmeets : Meets G M l) (hstep : S.Step M l N) : K.Good S G N := by
  cases hstep with
  | enter idle henter =>
    obtain ⟨hinv, hrely, hok⟩ := h.enter _ _ _ _ hM.1 henter
    refine hM.update h hinv hrely fun j hj => ?_
    obtain rfl := Option.some.inj hj
    exact hok
  | @exec t k o next r s task left hexec =>
    have hok := hM.2 t k task
    rw [left] at hok
    obtain ⟨hsafe, hnext⟩ := hok _ (h.refl t _) hM.1
    have hG := hmeets o ⟨k, next, task, left⟩
    obtain ⟨hinv, hrely⟩ := h.exec t _ o r s hM.1 hsafe hG hexec
    refine hM.update h hinv hrely fun j hj => ?_
    obtain rfl := Option.some.inj hj
    exact hnext r s hG hexec hinv
  | @leave t k a s task left hleave =>
    have hok := hM.2 t k task
    rw [left] at hok
    have hpost := hok _ (h.refl t _) hM.1
    obtain ⟨hinv, hrely⟩ := h.leave t _ k.call k.before k.answers a s hM.1 hpost hleave
    exact hM.update h hinv hrely fun j hj => absurd hj (by simp)
  | other hother =>
    obtain ⟨hinv, hrely⟩ := h.other _ _ hM.1 hother
    exact ⟨hinv, fun u j hj => h.stable (hM.2 u j hj) (hrely u)⟩

/-- In every run whose operations meet `G` the contract is kept. -/
theorem Contract.Holds.run (h : K.Holds S G) {M N : State σ C O R A} {ls : List (Label C)}
    (hrun : Run (Guarded (Meets G) S.Step) M ls N) (hM : K.Good S G M) : K.Good S G N :=
  hrun.invariant (K.Good S G) (fun _ _ _ hM hstep => hM.step h hstep.1 hstep.2) hM

theorem Contract.Good.safe (h : K.Holds S G) {M : State σ C O R A} (hM : K.Good S G M) {o : O}
    (habout : M.About t o) : K.Safe t M.world o := by
  obtain ⟨k, next, task, left⟩ := habout
  have hok := hM.2 t k task
  rw [left] at hok
  exact (hok _ (h.refl t _) hM.1).1

theorem Contract.Good.post (h : K.Holds S G) {M : State σ C O R A} (hM : K.Good S G M)
    {k : Task σ C O R A} {a : A} (task : M.tasks t = some k) (left : k.left = .ret a) :
    K.Post t k.call k.before k.answers a M.world := by
  have hok := hM.2 t k task
  rw [left] at hok
  exact hok _ (h.refl t _) hM.1

end Contract

end Threads
