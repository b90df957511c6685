import ReflexOS.GooseAutonomy
import ReflexOS.GooseAuditors
import ReflexOS.Separated

set_option autoImplicit false

/-!
# Two scanners for a domain

The weaver and the supervisor look for a domain among the labels of a name, each with its own
loop over the occurrences of the substring.
-/
namespace ReflexOS.Goose
open VmTernary Separated

def dot : UInt8 := 46

/-- The first occurrence from offset `p` on. -/
def strstr (name domain : CName) (p : ℕ) : Option ℕ :=
  (List.range' p (name.length + 1 - p)).find? fun q => domain.isPrefixOf (name.drop q)

/-- `right_ok`: the occurrence ends the name or a dot follows. -/
def rightOk (name domain : CName) (q : ℕ) : Bool :=
  match name[q + domain.length]? with
  | none => true
  | some c => decide (c = dot)

/-- The loop of both scanners from offset `p` on; `leftOk` is the test each of them makes. -/
def scanDomain (leftOk : ℕ → Bool) (name domain : CName) : ℕ → ℕ → Bool
  | 0, _ => false
  | fuel + 1, p =>
    match strstr name domain p with
    | none => false
    | some q =>
      if leftOk q && rightOk name domain q then true
      else scanDomain leftOk name domain fuel (q + 1)

/-- At the start of the name or behind a dot. -/
def supervisorLeft (name : CName) (q : ℕ) : Bool :=
  decide (q = 0) || decide (name[q - 1]? = some dot)

/-- Behind a dot. -/
def weaverLeft (name : CName) (q : ℕ) : Bool :=
  decide (0 < q) && decide (name[q - 1]? = some dot)

/-- Between the offset searched from and the occurrence found there is none. -/
theorem strstr_some {name domain : CName} {p q : ℕ} (h : strstr name domain p = some q) :
    domain.isPrefixOf (name.drop q) = true ∧ p ≤ q ∧ q ≤ name.length ∧
      ∃ before, List.range' p (name.length + 1 - p) =
        before ++ q :: List.range' (q + 1) (name.length + 1 - (q + 1)) ∧
        ∀ a ∈ before, domain.isPrefixOf (name.drop a) = false := by
  obtain ⟨hq, before, after, hsplit, hbefore⟩ := List.find?_eq_some_iff_append.mp h
  obtain ⟨k, hk, -, hrest⟩ := List.range'_eq_append_iff.mp hsplit
  obtain ⟨hstart, hpos, hafter⟩ := List.range'_eq_cons_iff.mp hrest.symm
  have hlen : name.length + 1 - p - k - 1 = name.length + 1 - (q + 1) := by omega
  refine ⟨hq, by omega, by omega, before, ?_, fun a ha => by simpa using hbefore a ha⟩
  rw [hsplit, hafter, hlen]

/-- The loop stops at the first occurrence that passes both tests. -/
theorem scanDomain_eq (leftOk : ℕ → Bool) (name domain : CName) {fuel p : ℕ}
    (hfuel : name.length + 1 - p ≤ fuel) :
    scanDomain leftOk name domain fuel p = (List.range' p (name.length + 1 - p)).any fun q =>
      domain.isPrefixOf (name.drop q) && leftOk q && rightOk name domain q := by
  induction fuel generalizing p with
  | zero =>
    rw [show name.length + 1 - p = 0 by omega]
    rfl
  | succ fuel ih =>
    unfold scanDomain
    cases hs : strstr name domain p with
    | none =>
      have hnone := List.find?_eq_none.mp hs
      refine (List.any_eq_false.mpr fun q hq => ?_).symm
      rw [Bool.eq_false_iff.mpr (hnone q hq)]
      simp
    | some q =>
      obtain ⟨hstarts, hpq, hlen, before, hsplit, hbefore⟩ := strstr_some hs
      have hskip : (before.any fun q =>
          domain.isPrefixOf (name.drop q) && leftOk q && rightOk name domain q) = false := by
        refine List.any_eq_false.mpr fun a ha => ?_
        rw [hbefore a ha]
        simp
      dsimp only
      rw [hsplit, List.any_append, hskip, Bool.false_or, List.any_cons, hstarts, Bool.true_and,
        ← ih (by omega)]
      cases leftOk q && rightOk name domain q <;> rfl

theorem domainMatch_eq (name domain : CName) : domainMatch name domain =
    scanDomain (supervisorLeft name) name domain (name.length + 1) 0 := by
  rw [scanDomain_eq _ _ _ (by omega), ← List.range_eq_range']
  rfl

theorem nameContainsDomain_eq (name domain : CName) : nameContainsDomain name domain =
    scanDomain (weaverLeft name) name domain (name.length + 1) 0 := by
  rw [scanDomain_eq _ _ _ (by omega), ← List.range_eq_range']
  rfl

section Boundaries

variable {name domain : CName}

/-- An occurrence whose end is tested. -/
theorem occurs_iff {q : ℕ} (hq : q ≤ name.length) :
    (domain.isPrefixOf (name.drop q) = true ∧ rightOk name domain q = true) ↔
      ∃ post, name = name.take q ++ (domain ++ post) ∧ Closes dot post := by
  have hright : ∀ post, name.drop q = domain ++ post →
      (rightOk name domain q = true ↔ Closes dot post) := by
    intro post hpost
    unfold rightOk Closes
    rw [← List.getElem?_drop, hpost, List.getElem?_append_right (le_refl _), Nat.sub_self]
    cases post with
    | nil => simp
    | cons c rest => simp
  constructor
  · rintro ⟨hstarts, hok⟩
    obtain ⟨post, hpost⟩ := List.isPrefixOf_iff_prefix.mp hstarts
    refine ⟨post, ?_, (hright post hpost.symm).mp hok⟩
    rw [hpost, List.take_append_drop]
  · rintro ⟨post, hname, hclose⟩
    have hpost : name.drop q = domain ++ post := by
      have := congrArg (List.drop q) hname
      rwa [List.drop_left' (by rw [List.length_take]; omega)] at this
    exact ⟨List.isPrefixOf_iff_prefix.mpr ⟨post, hpost.symm⟩, (hright post hpost).mpr hclose⟩

/-- The domain starts the name. -/
def LeadingRun (name domain : CName) : Prop := RunAfter dot [] domain name

/-- The domain comes behind other labels. -/
def LaterRun (name domain : CName) : Prop := ∃ before, before ≠ [] ∧ RunAfter dot before domain name

theorem occurs_first_iff : (domain.isPrefixOf (name.drop 0) = true ∧ rightOk name domain 0 = true) ↔
    LeadingRun name domain := by
  rw [occurs_iff (Nat.zero_le _), LeadingRun, runAfter_nil_iff]
  rfl

theorem occurs_later_iff : (∃ q ≤ name.length, domain.isPrefixOf (name.drop q) = true ∧
    weaverLeft name q = true ∧ rightOk name domain q = true) ↔ LaterRun name domain := by
  rw [LaterRun, exists_runAfter_iff]
  constructor
  · rintro ⟨q, hq, hstarts, hleft, hright⟩
    obtain ⟨post, hname, hclose⟩ := (occurs_iff hq).mp ⟨hstarts, hright⟩
    rw [weaverLeft, Bool.and_eq_true, decide_eq_true_eq, decide_eq_true_eq] at hleft
    obtain ⟨hpos, hdot⟩ := hleft
    have htake : name.take q = name.take (q - 1) ++ [dot] := by
      have hsucc : q - 1 + 1 = q := by omega
      rw [← hsucc, List.take_add_one, hsucc, hdot]
      rfl
    refine ⟨name.take (q - 1), post, ?_, hclose⟩
    rw [htake, List.append_assoc, List.singleton_append] at hname
    exact hname
  · rintro ⟨pre, post, rfl, hclose⟩
    refine ⟨pre.length + 1, by simp, ?_⟩
    have htake : (pre ++ dot :: (domain ++ post)).take (pre.length + 1) = pre ++ [dot] := by
      simp [List.take_append]
    obtain ⟨hstarts, hright⟩ := (@occurs_iff (pre ++ dot :: (domain ++ post)) domain
      (pre.length + 1) (by simp)).mpr
        ⟨post, by rw [htake, List.append_assoc, List.singleton_append], hclose⟩
    refine ⟨hstarts, ?_, hright⟩
    rw [weaverLeft, Bool.and_eq_true, decide_eq_true_eq, decide_eq_true_eq]
    exact ⟨by omega, by simp⟩

theorem nameContainsDomain_iff : nameContainsDomain name domain = true ↔ LaterRun name domain := by
  rw [← occurs_later_iff, nameContainsDomain_eq, scanDomain_eq _ _ _ (by omega), List.any_eq_true]
  simp only [List.mem_range'_1, Bool.and_eq_true, and_assoc, Nat.zero_le, true_and, Nat.zero_add,
    Nat.sub_zero, Nat.lt_succ_iff]

theorem domainMatch_iff :
    domainMatch name domain = true ↔ LeadingRun name domain ∨ LaterRun name domain := by
  have hleft : ∀ q, supervisorLeft name q = true ↔ q = 0 ∨ weaverLeft name q = true := by
    intro q
    unfold supervisorLeft weaverLeft
    simp only [Bool.or_eq_true, Bool.and_eq_true, decide_eq_true_eq]
    by_cases hq : q = 0
    · simp [hq]
    · simp [hq, Nat.pos_of_ne_zero hq]
  rw [← occurs_first_iff, ← occurs_later_iff, domainMatch_eq, scanDomain_eq _ _ _ (by omega),
    List.any_eq_true]
  simp only [List.mem_range'_1, Bool.and_eq_true, and_assoc, Nat.zero_le, true_and, Nat.zero_add,
    Nat.sub_zero, Nat.lt_succ_iff, hleft]
  constructor
  · rintro ⟨q, hq, hstarts, rfl | hw, hright⟩
    · exact .inl ⟨hstarts, hright⟩
    · exact .inr ⟨q, hq, hstarts, hw, hright⟩
  · rintro (⟨hstarts, hright⟩ | ⟨q, hq, hstarts, hw, hright⟩)
    · exact ⟨0, Nat.zero_le _, hstarts, .inl rfl, hright⟩
    · exact ⟨q, hq, hstarts, .inr hw, hright⟩

theorem exists_run_iff : (∃ before, RunAfter dot before domain name) ↔
    LeadingRun name domain ∨ LaterRun name domain := by
  constructor
  · rintro ⟨before, h⟩
    by_cases hb : before = []
    · subst hb
      exact .inl h
    · exact .inr ⟨before, hb, h⟩
  · rintro (h | ⟨before, -, h⟩)
    · exact ⟨[], h⟩
    · exact ⟨before, h⟩

end Boundaries

/-- Both scanners answer whether the domain is a run of labels of the name. -/
structure ScannersAgree (name domain : CName) : Prop where
  same : nameContainsDomain name domain = domainMatch name domain
  weaver : nameContainsDomain name domain = true ↔ ∃ before, RunAfter dot before domain name
  supervisor : domainMatch name domain = true ↔ ∃ before, RunAfter dot before domain name

/-- The scanners agree exactly on the domains that do not only start the name. -/
theorem scanners_agree_iff (name domain : CName) :
    ScannersAgree name domain ↔ (LeadingRun name domain → LaterRun name domain) := by
  constructor
  · intro h hlead
    exact nameContainsDomain_iff.mp (h.weaver.mpr (exists_run_iff.mpr (.inl hlead)))
  · intro h
    have hrun : (∃ before, RunAfter dot before domain name) ↔ LaterRun name domain :=
      exists_run_iff.trans ⟨fun hr => hr.elim h id, .inr⟩
    have hmatch : domainMatch name domain = true ↔ LaterRun name domain :=
      domainMatch_iff.trans (exists_run_iff.symm.trans hrun)
    refine ⟨?_, nameContainsDomain_iff.trans hrun.symm, hmatch.trans hrun.symm⟩
    rw [Bool.eq_iff_iff, nameContainsDomain_iff, hmatch]

/-- The weaver does not see the purpose that is the first label of a name. -/
theorem leading_domain_missed :
    domainMatch (ascii "agency.led.intent") (ascii "agency") = true ∧
      nameContainsDomain (ascii "agency.led.intent") (ascii "agency") = false ∧
      ¬ ScannersAgree (ascii "agency.led.intent") (ascii "agency") := by
  obtain ⟨hmatch, hmissed⟩ : domainMatch (ascii "agency.led.intent") (ascii "agency") = true ∧
      nameContainsDomain (ascii "agency.led.intent") (ascii "agency") = false := by
    decide +kernel
  refine ⟨hmatch, hmissed, fun h => ?_⟩
  have := h.same
  rw [hmatch, hmissed] at this
  cases this

end ReflexOS.Goose
