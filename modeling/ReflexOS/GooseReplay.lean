import ReflexOS.GooseAtmosphere

set_option autoImplicit false

/-!
# Replayed arcs

The replay cache has one entry for a slot. A pair of sender and nonce is refused for as long
as its entry stands, and no longer.
-/
namespace ReflexOS.Goose
open VmTernary

variable {W : Type*}

structure InboundArc where
  calls : RecvCalls
  src : Mac
  data : List UInt8

/-- Sender and nonce. -/
abbrev ArcPair := Mac × UInt32

def replaySlot (pair : ArcPair) : ℕ := policyReplaySlot pair.2 pair.1 replayCacheSlots

section Definitions

variable (atlas : Atlas) (hmac : List UInt8 → List UInt8) (localMac : Mac)

/-- The pair of an arc that passes the checks before the replay check. -/
def presents (a : InboundArc) : Option ArcPair :=
  (acceptArc hmac localMac a.src a.data).map fun p => (a.src, p.nonce)

/-- The pair of an arc that is handled. -/
def admits (A : Atmosphere) (a : InboundArc) : Option ArcPair :=
  (presents hmac localMac a).filter fun pair =>
    !(replaySeenOrRecord A.replayCache pair.1 pair.2 a.calls.now).1

def recvArc (s : Tapestry W × Atmosphere) (a : InboundArc) : Tapestry W × Atmosphere :=
  atmosphereRecv atlas hmac a.calls localMac a.src a.data s.1 s.2

def recvArcs (s : Tapestry W × Atmosphere) (arcs : List InboundArc) : Tapestry W × Atmosphere :=
  arcs.foldl (recvArc atlas hmac localMac) s

/-- The pairs handled, in order. -/
def admitted (s : Tapestry W × Atmosphere) : List InboundArc → List ArcPair
  | [] => []
  | a :: rest => (admits hmac localMac s.2 a).toList ++ admitted (recvArc atlas hmac localMac s a) rest

end Definitions

section Cache

variable {cache : ℕ → ReplayEntry} {pair : ArcPair} {now : ℕ}

theorem replaySeen_iff : (replaySeenOrRecord cache pair.1 pair.2 now).1 = true ↔
    (cache (replaySlot pair)).lastUs ≠ 0 ∧
      (now + 2 ^ 64 - (cache (replaySlot pair)).lastUs) % 2 ^ 64 < replayWindowUs ∧
      ((cache (replaySlot pair)).mac, (cache (replaySlot pair)).nonce) = pair := by
  unfold replaySeenOrRecord replaySlot
  dsimp only
  split
  next h => exact iff_of_true rfl ⟨h.1, h.2.1, Prod.ext h.2.2.2 h.2.2.1⟩
  next h =>
    refine iff_of_false Bool.false_ne_true fun h' => h ⟨h'.1, h'.2.1, ?_⟩
    exact ⟨congrArg Prod.snd h'.2.2, congrArg Prod.fst h'.2.2⟩

theorem replaySeen_cache (pair : ArcPair)
    (hseen : (replaySeenOrRecord cache pair.1 pair.2 now).1 = true) :
    (replaySeenOrRecord cache pair.1 pair.2 now).2 = cache := by
  unfold replaySeenOrRecord at hseen ⊢
  dsimp only at hseen ⊢
  split at hseen
  next h => rw [if_pos h]
  next h => cases hseen

theorem replayNew_cache (pair : ArcPair)
    (hnew : (replaySeenOrRecord cache pair.1 pair.2 now).1 = false) :
    (replaySeenOrRecord cache pair.1 pair.2 now).2 =
      Function.update cache (replaySlot pair) ⟨pair.1, pair.2, now⟩ := by
  unfold replaySeenOrRecord at hnew ⊢
  dsimp only at hnew ⊢
  split at hnew
  next h => cases hnew
  next h =>
    rw [if_neg h]
    rfl

end Cache

section Recv

variable {atlas : Atlas} {hmac : List UInt8 → List UInt8} {localMac : Mac}
  {s : Tapestry W × Atmosphere} {a : InboundArc} {pair : ArcPair}

theorem handleArc_replayCache (calls : RecvCalls) (src : Mac) (p : ArcPacket) (T : Tapestry W)
    (A : Atmosphere) : (handleArc atlas hmac calls src p T A).2.replayCache = A.replayCache := by
  unfold handleArc
  dsimp only
  split_ifs <;> rfl

/-- Of the cache, an arc changes the entry of its slot if it is handled. -/
theorem recvArc_refused (h : admits hmac localMac s.2 a = none) :
    (recvArc atlas hmac localMac s a).2.replayCache = s.2.replayCache := by
  unfold recvArc
  cases hp : acceptArc hmac localMac a.src a.data with
  | none => rw [atmosphereRecv_dropped hp]
  | some p =>
    cases hseen : (replaySeenOrRecord s.2.replayCache a.src p.nonce a.calls.now).1 with
    | true =>
      rw [atmosphereRecv_replayed hp hseen]
      exact replaySeen_cache (a.src, p.nonce) hseen
    | false => simp [admits, presents, hp, hseen] at h

theorem recvArc_admitted (h : admits hmac localMac s.2 a = some pair) :
    (recvArc atlas hmac localMac s a).2.replayCache =
      Function.update s.2.replayCache (replaySlot pair) ⟨pair.1, pair.2, a.calls.now⟩ := by
  unfold recvArc
  obtain ⟨hpresents, hnew⟩ := Option.filter_eq_some_iff.mp h
  obtain ⟨p, hp, rfl⟩ := Option.map_eq_some_iff.mp hpresents
  have hnew : (replaySeenOrRecord s.2.replayCache a.src p.nonce a.calls.now).1 = false := by
    simpa using hnew
  rw [atmosphereRecv_new hp hnew, handleArc_replayCache]
  exact replayNew_cache (a.src, p.nonce) hnew

theorem admitted_cons (arcs : List InboundArc) : admitted atlas hmac localMac s (a :: arcs) =
    (admits hmac localMac s.2 a).toList ++
      admitted atlas hmac localMac (recvArc atlas hmac localMac s a) arcs := rfl

theorem slot_untouched {k : ℕ} {arcs : List InboundArc}
    (hk : ∀ q ∈ admitted atlas hmac localMac s arcs, replaySlot q ≠ k) :
    (recvArcs atlas hmac localMac s arcs).2.replayCache k = s.2.replayCache k := by
  induction arcs generalizing s with
  | nil => rfl
  | cons a arcs ih =>
    rw [admitted_cons] at hk
    have hrest := ih fun q hq => hk q (List.mem_append_right _ hq)
    change (recvArcs atlas hmac localMac (recvArc atlas hmac localMac s a) arcs).2.replayCache k = _
    rw [hrest]
    cases hadmits : admits hmac localMac s.2 a with
    | none => rw [recvArc_refused hadmits]
    | some q =>
      have hq := hk q (by rw [hadmits]; exact List.mem_append_left _ (List.mem_singleton.mpr rfl))
      rw [recvArc_admitted hadmits, Function.update_of_ne (Ne.symm hq)]

theorem slot_taken {k : ℕ} {arcs : List InboundArc}
    (hk : ∃ q ∈ admitted atlas hmac localMac s arcs, replaySlot q = k) :
    let e := (recvArcs atlas hmac localMac s arcs).2.replayCache k
    (e.mac, e.nonce) ∈ admitted atlas hmac localMac s arcs := by
  induction arcs generalizing s with
  | nil =>
    obtain ⟨q, hq, -⟩ := hk
    cases hq
  | cons a arcs ih =>
    rw [admitted_cons] at hk ⊢
    change let e := (recvArcs atlas hmac localMac (recvArc atlas hmac localMac s a) arcs).2.replayCache k
      (e.mac, e.nonce) ∈ _
    by_cases hrest : ∃ q ∈ admitted atlas hmac localMac (recvArc atlas hmac localMac s a) arcs,
        replaySlot q = k
    · exact List.mem_append_right _ (ih hrest)
    obtain ⟨q, hq, rfl⟩ := hk
    rcases List.mem_append.mp hq with hq | hq
    · have hadmits : admits hmac localMac s.2 a = some q := Option.mem_toList.mp hq
      have huntouched := slot_untouched fun r hr hrq => hrest ⟨r, hr, hrq⟩
      rw [huntouched, recvArc_admitted hadmits, Function.update_self]
      exact List.mem_append_left _ hq
    · exact absurd ⟨q, hq, rfl⟩ hrest

theorem presents_of_admitted {arcs : List InboundArc} {q : ArcPair}
    (hq : q ∈ admitted atlas hmac localMac s arcs) : ∃ b ∈ arcs, presents hmac localMac b = some q := by
  induction arcs generalizing s with
  | nil => cases hq
  | cons a arcs ih =>
    rcases List.mem_append.mp hq with hq | hq
    · exact ⟨a, List.mem_cons_self, (Option.filter_eq_some_iff.mp (Option.mem_toList.mp hq)).1⟩
    · obtain ⟨b, hb, hpresents⟩ := ih hq
      exact ⟨b, List.mem_cons_of_mem _ hb, hpresents⟩

theorem admits_of_presents (hpresents : presents hmac localMac a = some pair)
    (hnew : (replaySeenOrRecord s.2.replayCache pair.1 pair.2 a.calls.now).1 = false) :
    admits hmac localMac s.2 a = some pair := by
  rw [admits, hpresents, Option.filter_some, if_pos (by rw [hnew]; rfl)]

/-- After an arc is handled, a second one of its pair is refused within the window if and only
if no arc handled in between fell into its slot. -/
theorem replay_refused_iff {b : InboundArc} {arcs : List InboundArc}
    (hfirst : admits hmac localMac s.2 a = some pair) (htime : a.calls.now ≠ 0)
    (honce : pair ∉ admitted atlas hmac localMac (recvArc atlas hmac localMac s a) arcs)
    (hagain : presents hmac localMac b = some pair) (hle : a.calls.now ≤ b.calls.now)
    (hwindow : b.calls.now < a.calls.now + replayWindowUs) :
    admits hmac localMac (recvArcs atlas hmac localMac (recvArc atlas hmac localMac s a) arcs).2 b =
        none ↔
      ∀ q ∈ admitted atlas hmac localMac (recvArc atlas hmac localMac s a) arcs,
        replaySlot q ≠ replaySlot pair := by
  have hrefused : admits hmac localMac
      (recvArcs atlas hmac localMac (recvArc atlas hmac localMac s a) arcs).2 b = none ↔
        (replaySeenOrRecord (recvArcs atlas hmac localMac (recvArc atlas hmac localMac s a)
          arcs).2.replayCache pair.1 pair.2 b.calls.now).1 = true := by
    rw [admits, hagain, Option.filter_some]
    cases (replaySeenOrRecord _ pair.1 pair.2 b.calls.now).1 <;> simp
  rw [hrefused, replaySeen_iff]
  constructor
  · rintro ⟨-, -, hpair⟩ q hq hslot
    have htaken := slot_taken ⟨q, hq, hslot⟩
    dsimp only at htaken
    rw [hpair] at htaken
    exact honce htaken
  · intro hk
    rw [slot_untouched hk, recvArc_admitted hfirst, Function.update_self]
    refine ⟨htime, ?_, rfl⟩
    dsimp only
    have hwindow' : replayWindowUs = 5000000 := rfl
    omega

end Recv

/-- No arc is handled whose pair was handled within the window. -/
def ReplayGuarded (atlas : Atlas) (hmac : List UInt8 → List UInt8) (localMac : Mac)
    (s : Tapestry W × Atmosphere) : Prop :=
  ∀ a arcs b pair, admits hmac localMac s.2 a = some pair → presents hmac localMac b = some pair →
    a.calls.now ≤ b.calls.now → b.calls.now < a.calls.now + replayWindowUs →
    admits hmac localMac (recvArcs atlas hmac localMac s (a :: arcs)).2 b = none

/-- A board with an empty cache. -/
def quietBoard : Tapestry Unit × Atmosphere :=
  (⟨⟨blankFabric, fun _ => ⟨[], [], [], 0⟩, [], ()⟩, ⟨[], 0, 0, []⟩, [], 0⟩,
    ⟨emptyReplayCache, 0, 0, ⟨0, 0, 0, 0, 0, 0⟩⟩)

def replayMac : Mac := fun _ => 1

def replayPacket (nonce : UInt32) : ArcPacket :=
  ⟨gooseArcVersion, arcOpAdvertise, fun _ => 0, 0, 0, nonce, 0⟩

def replayArc (nonce : UInt32) (now : ℕ) : InboundArc :=
  ⟨⟨true, now, now⟩, replayMac, arcBytes (sealArc id (replayPacket nonce))⟩

theorem presents_replayArc (nonce : UInt32) (now : ℕ) :
    presents id (fun _ => 0) (replayArc nonce now) = some (replayMac, nonce) := by
  have hsrc : replayMac ≠ fun _ => 0 := fun h => absurd (congrFun h 0) (by decide)
  have haccept : acceptArc id (fun _ => 0) replayMac (arcBytes (sealArc id (replayPacket nonce))) =
      some (sealArc id (replayPacket nonce)) :=
    acceptArc_sealed id hsrc rfl (by decide : -1 ≤ i8 0 ∧ i8 0 ≤ 1)
  rw [presents]
  unfold replayArc
  dsimp only
  rw [haccept]
  rfl

theorem admits_first (nonce : UInt32) (now : ℕ) :
    admits id (fun _ => 0) quietBoard.2 (replayArc nonce now) = some (replayMac, nonce) := by
  apply admits_of_presents (presents_replayArc nonce now)
  rw [Bool.eq_false_iff]
  intro hseen
  exact (replaySeen_iff.mp hseen).1 rfl

/-- An arc in another slot does not make the cache forget. -/
theorem replay_refused_other :
    admits id (fun _ => 0) (recvArcs emptyAtlas id (fun _ => 0)
      (recvArc emptyAtlas id (fun _ => 0) quietBoard (replayArc 1 1)) [replayArc 2 2]).2
      (replayArc 1 3) = none := by
  have hother : ∀ q ∈ admitted emptyAtlas id (fun _ => 0)
      (recvArc emptyAtlas id (fun _ => 0) quietBoard (replayArc 1 1)) [replayArc 2 2],
      q = (replayMac, 2) := by
    intro q hq
    obtain ⟨b, hb, hpresents⟩ := presents_of_admitted hq
    rw [List.mem_singleton.mp hb, presents_replayArc] at hpresents
    exact (Option.some.inj hpresents).symm
  refine (replay_refused_iff (admits_first 1 1) (by decide) (fun hq => ?_)
    (presents_replayArc 1 3) (by decide) (by decide)).mpr fun q hq => ?_
  · exact absurd (congrArg Prod.snd (hother _ hq)) (by decide)
  · rw [hother q hq]
    decide +kernel

/-- An arc that finds another nonce in its slot. -/
theorem admits_of_nonce_ne {s : Tapestry Unit × Atmosphere} {nonce : UInt32} {now : ℕ}
    (hne : (s.2.replayCache (replaySlot (replayMac, nonce))).nonce ≠ nonce) :
    admits id (fun _ => 0) s.2 (replayArc nonce now) = some (replayMac, nonce) := by
  apply admits_of_presents (presents_replayArc nonce now)
  rw [Bool.eq_false_iff]
  intro hseen
  exact hne (congrArg Prod.snd (replaySeen_iff.mp hseen).2.2)

/-- The nonces 1 and 38 of one sender share a slot. -/
theorem replay_accepted_again : ¬ ReplayGuarded emptyAtlas id (fun _ => 0) quietBoard := by
  intro h
  have hslot : replaySlot (replayMac, 38) = replaySlot (replayMac, 1) := by decide +kernel
  have hfirst := @recvArc_admitted Unit emptyAtlas _ _ _ _ _ (admits_first 1 1)
  have hsecond : admits id (fun _ => 0) (recvArc emptyAtlas id (fun _ => 0) quietBoard
      (replayArc 1 1)).2 (replayArc 38 2) = some (replayMac, 38) := by
    apply admits_of_nonce_ne
    rw [hfirst, hslot, Function.update_self]
    exact (by decide : (1 : UInt32) ≠ 38)
  have hthird : admits id (fun _ => 0) (recvArcs emptyAtlas id (fun _ => 0) quietBoard
      [replayArc 1 1, replayArc 38 2]).2 (replayArc 1 3) = some (replayMac, 1) := by
    apply admits_of_nonce_ne
    change ((recvArc emptyAtlas id (fun _ => 0) (recvArc emptyAtlas id (fun _ => 0) quietBoard
      (replayArc 1 1)) (replayArc 38 2)).2.replayCache _).nonce ≠ 1
    rw [recvArc_admitted hsecond, ← hslot, Function.update_self]
    exact (by decide : (38 : UInt32) ≠ 1)
  have hrefused := h (replayArc 1 1) [replayArc 38 2] (replayArc 1 3) _ (admits_first 1 1)
    (presents_replayArc 1 3) (by decide) (by decide)
  rw [hthird] at hrefused
  cases hrefused

end ReflexOS.Goose
