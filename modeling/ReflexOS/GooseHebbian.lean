import ReflexOS.GooseLoom
import ReflexOS.GooseLearning

set_option autoImplicit false

/-!
# Runs of learning passes

What the passes contribute to a route is kept in an account. The counter of the route is the
net of the account since the last commit, and a commit takes its sign.
-/
namespace ReflexOS.Goose
open VmTernary Runs

inductive Contribution where
  | coactivation (weight : ℤ)
  | decay
deriving DecidableEq

def towardZero (n : ℤ) : ℤ := if 0 < n then n - 1 else if n < 0 then n + 1 else n

def Contribution.addTo (n : ℤ) : Contribution → ℤ
  | .coactivation weight => n + weight
  | .decay => towardZero n

/-- The weighted co-activation that is left, with the decay among it. -/
def net (account : List Contribution) : ℤ := account.foldl Contribution.addTo 0

/-- The net has reached the threshold. -/
def Commits (account : List Contribution) : Prop :=
  hebbianCommitThreshold ≤ (net account).natAbs

instance (account : List Contribution) : Decidable (Commits account) :=
  inferInstanceAs (Decidable (_ ≤ _))

/-- The contributions since the last one that committed. -/
def sinceCommit (account : List Contribution) : List Contribution :=
  account.foldl (fun since c => if Commits (since ++ [c]) then [] else since ++ [c]) []

theorem net_concat (account : List Contribution) (c : Contribution) :
    net (account ++ [c]) = c.addTo (net account) := by
  unfold net
  rw [List.foldl_append]
  rfl

theorem sinceCommit_concat (account : List Contribution) (c : Contribution) :
    sinceCommit (account ++ [c]) =
      if Commits (sinceCommit account ++ [c]) then [] else sinceCommit account ++ [c] := by
  unfold sinceCommit
  rw [List.foldl_append]
  rfl

theorem sinceCommit_not (account : List Contribution) : ¬ Commits (sinceCommit account) := by
  induction account using List.reverseRecOn with
  | nil => decide
  | append_singleton account c ih =>
    rw [sinceCommit_concat]
    split
    · decide
    next h => exact h

/-- What a pass with these signals contributes to a route that it visits. -/
def passContribution (sig : Signals) (r : Route) : Option Contribution :=
  match r.cachedSource, r.cachedSink with
  | some src, some snk =>
    let s := (sig.fabric.cells src).state
    let k := (sig.fabric.cells snk).state
    if sig.rewarded then
      if s = 0 ∨ k = 0 then none
      else some (.coactivation ((if s = k then 1 else -1) * sig.purposeMultiplier))
    else if sig.pained then some .decay
    else none
  | _, _ => none

variable {W : Type*}

/-- The substrate, the fields registered for learning and the account of one route. -/
structure Taught (W : Type*) where
  substrate : Substrate W
  supervised : List ℕ
  account : List Contribution

def Taught.route (T : Taught W) (f i : ℕ) : Option Route := (T.substrate.fields f).routes[i]?

/-- What a pass contributes to route `i` of field `f`, if it visits it. -/
def Taught.contributes (T : Taught W) (f i : ℕ) (sig : Signals) (lock : Bool) :
    Option Contribution :=
  if lock && decide (f ∈ T.supervised) then (T.route f i).bind (passContribution sig) else none

inductive HebbianOp where
  | register (fid : ℕ)
  | learn (atlas : Atlas) (paging lock : Bool)
  | other

/-- Passes over the fields, registrations, and between them anything that leaves the counter
and the learned orientation of the route alone. -/
inductive HebbianStep (f i : ℕ) : Taught W → HebbianOp → Taught W → Prop where
  | register (T : Taught W) (fid : ℕ) :
      HebbianStep f i T (.register fid)
        { T with supervised := supervisorRegisterField T.supervised fid }
  | learn (T : Taught W) (atlas : Atlas) (paging lock : Bool) :
      HebbianStep f i T (.learn atlas paging lock)
        { T with
          substrate := learnSync atlas paging lock T.supervised T.substrate
          account := T.account ++
            (T.contributes f i (learnSignals atlas paging T.substrate.fabric) lock).toList }
  | other (T : Taught W) (S : Substrate W) (r r' : Route) (hr : T.route f i = some r)
      (hr' : (S.fields f).routes[i]? = some r') (hcounter : r'.hebbianCounter = r.hebbianCounter)
      (hlearned : r'.learnedOrientation = r.learnedOrientation) :
      HebbianStep f i T .other { T with substrate := S }

/-- A change of what is learned comes from two endpoints that fire under reward. -/
structure Coactive (sig : Signals) (r : Route) : Prop where
  rewarded : sig.rewarded = true
  source : ∃ src, r.cachedSource = some src ∧ (sig.fabric.cells src).state ≠ 0
  sink : ∃ snk, r.cachedSink = some snk ∧ (sig.fabric.cells snk).state ≠ 0

/-- Neither away from zero nor across it. -/
def Decayed (n m : ℤ) : Prop := (0 ≤ n → 0 ≤ m ∧ m ≤ n) ∧ (n ≤ 0 → n ≤ m ∧ m ≤ 0)

/-- What a pass with these signals may do to a route whose account went from `before` to
`after`. -/
structure PassSound (sig : Signals) (before after : List Contribution) (r r' : Route) : Prop where
  below : r'.hebbianCounter.natAbs < hebbianCommitThreshold
  coactive : r'.learnedOrientation ≠ r.learnedOrientation → Coactive sig r
  sign : r'.learnedOrientation ≠ r.learnedOrientation →
    ∃ c, after = before ++ [c] ∧ Commits (sinceCommit before ++ [c]) ∧
      r'.learnedOrientation = (net (sinceCommit before ++ [c])).sign
  commits : ∀ c, after = before ++ [c] → Commits (sinceCommit before ++ [c]) →
    r'.learnedOrientation = (net (sinceCommit before ++ [c])).sign ∧ r'.hebbianCounter = 0
  pained : sig.pained = true → sig.rewarded = false →
    r'.learnedOrientation = r.learnedOrientation ∧ Decayed r.hebbianCounter r'.hebbianCounter

/-- Every pass is sound for the route. -/
def LearnsSoundly (f i : ℕ) (T : Taught W) (op : HebbianOp) (T' : Taught W) : Prop :=
  match op with
  | .learn atlas paging _ => ∃ r r', T.route f i = some r ∧ T'.route f i = some r' ∧
      PassSound (learnSignals atlas paging T.substrate.fabric) T.account T'.account r r'
  | _ => True

/-- The counter is the net of the account since the last commit. -/
structure Accounted (f i : ℕ) (T : Taught W) : Prop where
  distinct : T.supervised.Nodup
  route : ∃ r, T.route f i = some r ∧ r.hebbianCounter = net (sinceCommit T.account)

/-- What one contribution does to a route. -/
def Route.credit (r : Route) (c : Contribution) : Route :=
  let next := c.addTo r.hebbianCounter
  if hebbianCommitThreshold ≤ next then { r with learnedOrientation := 1, hebbianCounter := 0 }
  else if next ≤ -hebbianCommitThreshold then
    { r with learnedOrientation := -1, hebbianCounter := 0 }
  else { r with hebbianCounter := next }

theorem learnSignals_multiplier (atlas : Atlas) (paging : Bool) (F : Fabric) :
    (learnSignals atlas paging F).purposeMultiplier = 1 ∨
      (learnSignals atlas paging F).purposeMultiplier = 2 := by
  unfold learnSignals
  dsimp only
  split
  · exact .inl rfl
  · dsimp only
    split
    · exact .inr rfl
    · exact .inl rfl

section Credit

variable {r : Route} (hbelow : r.hebbianCounter.natAbs < hebbianCommitThreshold)
include hbelow

/-- The clamp of the counter never acts. -/
theorem rewardRoute_credit {m s k : ℤ} (hm : m = 1 ∨ m = 2) (hs : s ≠ 0) (hk : k ≠ 0) :
    rewardRoute m s k r = r.credit (.coactivation ((if s = k then 1 else -1) * m)) := by
  unfold hebbianCommitThreshold at hbelow
  have hstep : -2 ≤ (if s = k then 1 else -1) * m ∧ (if s = k then 1 else -1) * m ≤ 2 := by
    split <;> omega
  unfold rewardRoute Route.credit Contribution.addTo
  rw [if_neg (by tauto)]
  generalize (if s = k then 1 else -1) * m = w at hstep
  dsimp only
  rw [if_neg (show ¬ hebbianCounterMax < r.hebbianCounter + w by
      unfold hebbianCounterMax hebbianCommitThreshold; omega),
    if_neg (show ¬ r.hebbianCounter + w < -hebbianCounterMax by
      unfold hebbianCounterMax hebbianCommitThreshold; omega)]

theorem decayRoute_credit : decayRoute r = r.credit .decay := by
  unfold hebbianCommitThreshold at hbelow
  unfold decayRoute Route.credit Contribution.addTo towardZero hebbianCommitThreshold
  by_cases hpos : 0 < r.hebbianCounter
  · rw [if_pos hpos, if_pos hpos]
    dsimp only
    rw [if_neg (by omega), if_neg (by omega)]
  · rw [if_neg hpos, if_neg hpos]
    by_cases hneg : r.hebbianCounter < 0
    · rw [if_pos hneg, if_pos hneg]
      dsimp only
      rw [if_neg (by omega), if_neg (by omega)]
    · rw [if_neg hneg, if_neg hneg]
      dsimp only
      rw [if_neg (by omega), if_neg (by omega)]

/-- A visit credits the route with what the pass contributes. -/
theorem learnRoute_credit {sig : Signals}
    (hm : sig.purposeMultiplier = 1 ∨ sig.purposeMultiplier = 2) :
    learnRoute sig r = (passContribution sig r).elim r r.credit := by
  unfold learnRoute passContribution
  cases r.cachedSource with
  | none => rfl
  | some src =>
    cases r.cachedSink with
    | none => rfl
    | some snk =>
      dsimp only
      split
      · split
        next hzero =>
          unfold rewardRoute
          rw [if_pos hzero]
          rfl
        next hzero =>
          rw [not_or] at hzero
          exact rewardRoute_credit hbelow hm hzero.1 hzero.2
      · split
        · exact decayRoute_credit hbelow
        · rfl

/-- The route after a contribution, in terms of the account. -/
structure Credited (account : List Contribution) (c : Contribution) (r r' : Route) : Prop where
  counter : r'.hebbianCounter = net (sinceCommit (account ++ [c]))
  commits : Commits (sinceCommit account ++ [c]) →
    r'.learnedOrientation = (net (sinceCommit account ++ [c])).sign ∧ r'.hebbianCounter = 0
  keeps : ¬ Commits (sinceCommit account ++ [c]) → r'.learnedOrientation = r.learnedOrientation

omit hbelow in
theorem credit_credited {account : List Contribution}
    (hcounter : r.hebbianCounter = net (sinceCommit account)) (c : Contribution) :
    Credited account c r (r.credit c) := by
  have hnext : net (sinceCommit account ++ [c]) = c.addTo r.hebbianCounter := by
    rw [net_concat, hcounter]
  have hcommits : Commits (sinceCommit account ++ [c]) ↔
      hebbianCommitThreshold ≤ (c.addTo r.hebbianCounter).natAbs := by rw [Commits, hnext]
  unfold hebbianCommitThreshold at hcommits
  unfold Route.credit
  generalize hn : c.addTo r.hebbianCounter = next at hnext hcommits
  dsimp only
  unfold hebbianCommitThreshold
  split
  next hup =>
    have hc : Commits (sinceCommit account ++ [c]) := hcommits.mpr (by omega)
    refine ⟨?_, fun _ => ⟨?_, rfl⟩, fun hnot => absurd hc hnot⟩
    · rw [sinceCommit_concat, if_pos hc]
      rfl
    · rw [hnext, Int.sign_eq_one_of_pos (by omega)]
  · split
    next hdown =>
      have hc : Commits (sinceCommit account ++ [c]) := hcommits.mpr (by omega)
      refine ⟨?_, fun _ => ⟨?_, rfl⟩, fun hnot => absurd hc hnot⟩
      · rw [sinceCommit_concat, if_pos hc]
        rfl
      · rw [hnext, Int.sign_eq_neg_one_of_neg (by omega)]
    next hup hdown =>
      have hc : ¬ Commits (sinceCommit account ++ [c]) := fun h => by
        have := hcommits.mp h
        omega
      refine ⟨?_, fun h => absurd h hc, fun _ => rfl⟩
      rw [sinceCommit_concat, if_neg hc, hnext]

end Credit

theorem decayed_refl (n : ℤ) : Decayed n n := ⟨fun h => ⟨h, le_refl n⟩, fun h => ⟨le_refl n, h⟩⟩

theorem decayed_towardZero (n : ℤ) : Decayed n (towardZero n) := by
  unfold Decayed towardZero
  split <;> [skip; split] <;> omega

section Pass

variable {f i : ℕ} {T : Taught W}

theorem passContribution_silent {sig : Signals} (r : Route) (hrew : sig.rewarded = false)
    (hpain : sig.pained = false) : passContribution sig r = none := by
  unfold passContribution
  rw [hrew, hpain]
  split <;> rfl

/-- What a pass does to the route. -/
theorem learnSync_route (hnd : T.supervised.Nodup) (atlas : Atlas) (paging lock : Bool)
    {r : Route} (hr : T.route f i = some r)
    (hbelow : r.hebbianCounter.natAbs < hebbianCommitThreshold) :
    ((learnSync atlas paging lock T.supervised T.substrate).fields f).routes[i]? =
      some ((T.contributes f i (learnSignals atlas paging T.substrate.fabric) lock).elim r
        r.credit) := by
  have hcredit := learnRoute_credit hbelow (learnSignals_multiplier atlas paging T.substrate.fabric)
  unfold Taught.route at hr
  unfold learnSync Taught.contributes Taught.route
  rw [hr, Option.bind_some]
  dsimp only
  generalize learnSignals atlas paging T.substrate.fabric = sig at hcredit
  split
  next hskip =>
    have hnone : (if (lock && decide (f ∈ T.supervised)) = true then passContribution sig r
        else none) = none := by
      split
      next hvisit =>
        rw [Bool.and_eq_true] at hvisit
        rw [hvisit.1] at hskip
        simp only [Bool.not_true, Bool.or_false, Bool.and_eq_true, Bool.not_eq_true'] at hskip
        exact passContribution_silent r hskip.1 hskip.2
      · rfl
    rw [hnone]
    exact hr
  next hrun =>
    have hlock : lock = true := by
      cases lock
      · simp at hrun
      · rfl
    have hfields : (learnFields sig T.supervised { T.substrate with fabric := sig.fabric }).fields f
        = if f ∈ T.supervised then learnField sig (T.substrate.fields f)
          else T.substrate.fields f := learnFields_fields sig T.supervised hnd _ f
    have hroute : ((learnFields sig T.supervised
        { T.substrate with fabric := sig.fabric }).fields f).routes[i]? =
        some ((if (lock && decide (f ∈ T.supervised)) = true then passContribution sig r
          else none).elim r r.credit) := by
      rw [hfields, hlock, Bool.true_and]
      by_cases hf : f ∈ T.supervised
      · rw [if_pos hf, if_pos (decide_eq_true hf), ← hcredit]
        unfold learnField
        rw [List.getElem?_map, hr]
        rfl
      · rw [if_neg hf, if_neg (by simpa using hf)]
        exact hr
    split
    · split
      · exact hroute
      · exact hroute
    · exact hroute

theorem Accounted.below (h : Accounted f i T) {r : Route} (hr : T.route f i = some r) :
    r.hebbianCounter = net (sinceCommit T.account) ∧
      r.hebbianCounter.natAbs < hebbianCommitThreshold := by
  obtain ⟨q, hq, hcounter⟩ := h.route
  rw [hr, Option.some.injEq] at hq
  subst hq
  have hnot := sinceCommit_not T.account
  unfold Commits at hnot
  rw [← hcounter] at hnot
  exact ⟨hcounter, by omega⟩

theorem contributes_some {sig : Signals} {lock : Bool} {r : Route} (hr : T.route f i = some r)
    {c : Contribution} (hc : T.contributes f i sig lock = some c) :
    passContribution sig r = some c := by
  unfold Taught.contributes at hc
  rw [hr, Option.bind_some] at hc
  split at hc
  · exact hc
  · cases hc

/-- A pass that contributes co-activation is rewarded and finds both endpoints firing. -/
theorem passContribution_coactive {sig : Signals} {r : Route} {c : Contribution}
    (hc : passContribution sig r = some c) : Coactive sig r ∨
      (c = .decay ∧ sig.rewarded = false) := by
  unfold passContribution at hc
  split at hc
  next src snk hsrc hsnk =>
    dsimp only at hc
    split at hc
    next hrew =>
      split at hc
      · cases hc
      next hzero =>
        rw [not_or] at hzero
        exact .inl ⟨hrew, ⟨src, hsrc, hzero.1⟩, ⟨snk, hsnk, hzero.2⟩⟩
    next hrew =>
      split at hc
      · cases hc
        exact .inr ⟨rfl, by simpa using hrew⟩
      · cases hc
  · cases hc

theorem decay_not_commits (account : List Contribution) :
    ¬ Commits (sinceCommit account ++ [.decay]) := by
  have hnot := sinceCommit_not account
  unfold Commits hebbianCommitThreshold at hnot ⊢
  rw [net_concat]
  unfold Contribution.addTo towardZero
  dsimp only
  split <;> [skip; split] <;> omega

theorem Accounted.learn (h : Accounted f i T) (atlas : Atlas) (paging lock : Bool) {T' : Taught W}
    (hstep : HebbianStep f i T (.learn atlas paging lock) T') :
    Accounted f i T' ∧ LearnsSoundly f i T (.learn atlas paging lock) T' := by
  cases hstep
  obtain ⟨r, hr, -⟩ := h.route
  obtain ⟨hcounter, hbelow⟩ := h.below hr
  have hroute := learnSync_route h.distinct atlas paging lock hr hbelow
  cases hc : T.contributes f i (learnSignals atlas paging T.substrate.fabric) lock with
  | none =>
    rw [hc] at hroute
    refine ⟨⟨h.distinct, r, hroute, ?_⟩, r, r, hr, hroute, ?_⟩
    · rwa [Option.toList_none, List.append_nil]
    · refine ⟨hbelow, fun hne => absurd rfl hne, fun hne => absurd rfl hne, ?_,
        fun _ _ => ⟨rfl, decayed_refl _⟩⟩
      intro c hcat
      rw [Option.toList_none] at hcat
      simp at hcat
  | some c =>
    rw [hc] at hroute
    have hcredit := credit_credited hcounter c
    have hsome := passContribution_coactive (contributes_some hr hc)
    have hacc : Accounted f i { T with
        substrate := learnSync atlas paging lock T.supervised T.substrate
        account := T.account ++ (some c).toList } :=
      ⟨h.distinct, _, hroute, hcredit.counter⟩
    have hchanged : (r.credit c).learnedOrientation ≠ r.learnedOrientation →
        Commits (sinceCommit T.account ++ [c]) := fun hne => by
      by_contra hnot
      exact hne (hcredit.keeps hnot)
    refine ⟨hacc, r, r.credit c, hr, hroute, ?_⟩
    refine ⟨(hacc.below hroute).2, fun hne => ?_, fun hne => ?_, ?_, ?_⟩
    · rcases hsome with hco | ⟨rfl, -⟩
      · exact hco
      · exact absurd (hchanged hne) (decay_not_commits _)
    · exact ⟨c, by rw [Option.toList_some], hchanged hne, (hcredit.commits (hchanged hne)).1⟩
    · intro c' hcat hcommit
      rw [Option.toList_some, List.append_cancel_left_eq, List.cons.injEq] at hcat
      rw [← hcat.1] at hcommit ⊢
      exact hcredit.commits hcommit
    · intro _ hrew
      rcases hsome with hco | ⟨rfl, -⟩
      · rw [hco.rewarded] at hrew
        cases hrew
      · refine ⟨hcredit.keeps (decay_not_commits _), ?_⟩
        rw [hcredit.counter, sinceCommit_concat, if_neg (decay_not_commits _), net_concat,
          ← hcounter]
        exact decayed_towardZero _

theorem supervisorRegisterField_nodup {supervised : List ℕ} (h : supervised.Nodup) (fid : ℕ) :
    (supervisorRegisterField supervised fid).Nodup := by
  unfold supervisorRegisterField
  split
  · exact h
  · split
    · exact h
    next hnot => exact List.nodup_append_comm.mp (List.nodup_cons.mpr ⟨hnot, h⟩)

theorem Accounted.step (h : Accounted f i T) {op : HebbianOp} {T' : Taught W}
    (hstep : HebbianStep f i T op T') : Accounted f i T' ∧ LearnsSoundly f i T op T' := by
  cases hstep with
  | register fid => exact ⟨⟨supervisorRegisterField_nodup h.distinct fid, h.route⟩, trivial⟩
  | learn atlas paging lock => exact h.learn atlas paging lock (.learn T atlas paging lock)
  | other S r r' hr hr' hcounter hlearned =>
    exact ⟨⟨h.distinct, r', hr', hcounter.trans (h.below hr).1⟩, trivial⟩

end Pass

/-- In every run from a zero counter, every pass learns soundly. -/
theorem hebbian_learning_sound {f i : ℕ} {T₀ T : Taught W} {ops : List HebbianOp} {r₀ : Route}
    (hdistinct : T₀.supervised.Nodup) (hroute : T₀.route f i = some r₀)
    (hzero : r₀.hebbianCounter = 0) (hnew : T₀.account = [])
    (hrun : Run (HebbianStep f i) T₀ ops T) :
    Always (HebbianStep f i) (LearnsSoundly f i) T₀ ops T := by
  have h : Accounted f i T₀ := ⟨hdistinct, r₀, hroute, by rw [hzero, hnew]; rfl⟩
  clear hdistinct hroute hzero hnew
  induction hrun with
  | nil T => exact .nil T
  | cons hstep _ ih =>
    obtain ⟨hT, hprop⟩ := h.step hstep
    exact .cons hstep hprop (ih hT)

/-- A field registered and passed over once, the reward standing at both ends of its route. -/
theorem hebbian_learning_sound_pass :
    let T : Taught Unit :=
      ⟨staleSubstrate (fun _ => ⟨[], [{ loopRoute (makeCoord 0 0 6) with
        cachedSource := some 2, cachedSink := some 2 }], [], 0⟩) rewardFabric, [], []⟩
    ∃ T', Run (HebbianStep 0 0) T [.register 0, .learn emptyAtlas true true] T' ∧
      Always (HebbianStep 0 0) (LearnsSoundly 0 0) T
        [.register 0, .learn emptyAtlas true true] T' := by
  intro T
  have hrun := Run.cons (.register T 0) (.single (.learn _ emptyAtlas true true) :
    Run (HebbianStep 0 0) { T with supervised := supervisorRegisterField T.supervised 0 }
      [.learn emptyAtlas true true] _)
  exact ⟨_, hrun, hebbian_learning_sound List.nodup_nil rfl rfl rfl hrun⟩

end ReflexOS.Goose
