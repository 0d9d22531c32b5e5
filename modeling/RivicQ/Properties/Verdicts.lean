import RivicQ.Intelligence.Policies
import RivicQ.Intelligence.PQCClass
import RivicQ.Lib.Groups

namespace RivicQ.Properties.Verdicts

open RivicQ.Lib.GoStrings RivicQ.Lib.Joins
open RivicQ.Intelligence.Findings RivicQ.Intelligence.Policies RivicQ.Intelligence.FailOn

inductive Verdict where
  | allow
  | warn
  | block
  deriving DecidableEq

def Verdict.rank : Verdict → Nat
  | .allow => 0
  | .warn => 1
  | .block => 2

theorem rank_injective : Function.Injective Verdict.rank := by
  intro v w h
  cases v <;> cases w <;> first | rfl | exact absurd h (by decide)

instance : LinearOrder Verdict := LinearOrder.lift' Verdict.rank rank_injective

instance : OrderBot Verdict where
  bot := .allow
  bot_le v := Nat.zero_le v.rank

theorem bot_eq_allow : (⊥ : Verdict) = .allow := rfl

/-- What a policy's action asks for by itself. -/
def Verdict.of : Action → Verdict
  | .block => .block
  | .warn => .warn
  | .allow | .inform => .allow

def Verdict.action : Verdict → Action
  | .allow => .allow
  | .warn => .warn
  | .block => .block

abbrev Judged := List (Finding × Policy)

def weight (p : Policy) : Verdict := .of p.action

/-- The pairs whose policy takes an action. -/
def acting (a : Action) (judged : Judged) : Judged := judged.filter fun x => x.2.action = a

/-- A policy judges a finding that is not excluded and that it matches. -/
def judges (pl : Platform) (f : Finding) (p : Policy) : Bool :=
  !excludedPath pl f.location && p.matches f

variable {pl : Platform} {judged judged' : Judged} {f : Finding} {p : Policy} {a : Action}
  {fs gs : List Finding} {ps qs : List Policy} {policies : Option (List Policy)}

theorem acting_append : acting a (judged ++ judged') = acting a judged ++ acting a judged' :=
  List.filter_append _ _

theorem acting_self (h : p.action = a) : acting a [(f, p)] = [(f, p)] := by
  simp [acting, h]

theorem acting_other (h : p.action ≠ a) : acting a [(f, p)] = [] := by
  simp [acting, h]

/-- The gate as its hits determine it. -/
def gateOf (judged : Judged) : GateResult where
  passed := decide (worst weight judged ≠ .block)
  action := (worst weight judged).action
  blocked := (acting .block judged).length
  warned := (acting .warn judged).length
  hits := judged.map fun x => policyHit x.1 x.2
  reasons := (acting .block judged).map fun x => message x.1 x.2
  warnings := (acting .warn judged).map fun x => message x.1 x.2

theorem worst_concat : worst weight (judged ++ [(f, p)]) =
    max (worst weight judged) (Verdict.of p.action) := by
  rw [worst_append]
  congr 1
  exact Multiset.sup_singleton

theorem gateOf_nil : gateOf [] = { passed := true, action := .allow } := rfl

/-- One policy on one finding adds its hit and joins its verdict to the others. -/
theorem applyPolicy_gateOf : applyPolicy f (gateOf judged) p =
    if p.matches f then gateOf (judged ++ [(f, p)]) else gateOf judged := by
  by_cases hm : p.matches f = true
  · rw [if_pos hm]
    unfold applyPolicy gateOf
    simp only [hm, Bool.not_true, Bool.false_eq_true, if_false, worst_concat, acting_append]
    generalize worst weight judged = v
    cases ha : p.action <;>
      simp [acting_self, acting_other, ha, Verdict.of] <;> cases v <;> decide
  · rw [if_neg hm]
    simp [applyPolicy, hm]

/-- The gate as it is returned at the end. -/
def closed (gate : GateResult) : GateResult :=
  { gate with failed := !gate.passed, decision := gate.action.text }

theorem evaluate_eq : evaluate pl fs policies =
    closed (gateOf (matched (judges pl) fs (policies.getD (defaultPolicies pl)))) := by
  let ps := policies.getD (defaultPolicies pl)
  have hfold : fs.foldl (applyPolicies pl ps) (gateOf []) = gateOf (matched (judges pl) fs ps) :=
    foldl_matched (fun f p => Policy.matches p f) applyPolicy gateOf
      (fun f => excludedPath pl f.location)
      (fun _ _ _ => applyPolicy_gateOf) []
  unfold evaluate
  rw [← gateOf_nil]
  exact congrArg closed hfold

def Hits (a : Action) (gate : GateResult) : Prop := ∃ hit ∈ gate.hits, hit.action = a

/-- The gate says what the pairs that were judged say. -/
structure Reference (gate : GateResult) (judged : Judged) : Prop where
  hits : gate.hits = judged.map fun x => policyHit x.1 x.2
  block : gate.decision = "BLOCK" ↔ Hits .block gate
  warn : gate.decision = "WARN" ↔ ¬ Hits .block gate ∧ Hits .warn gate
  allow : gate.decision = "ALLOW" ↔ ¬ Hits .block gate ∧ ¬ Hits .warn gate
  action : gate.decision = gate.action.text
  passed : gate.passed = true ↔ ¬ Hits .block gate
  failed : gate.failed = !gate.passed
  blocked : gate.blocked = gate.hits.countP fun hit => hit.action = .block
  warned : gate.warned = gate.hits.countP fun hit => hit.action = .warn
  reasons : gate.reasons = (acting .block judged).map fun x => message x.1 x.2
  warnings : gate.warnings = (acting .warn judged).map fun x => message x.1 x.2

theorem worst_block : worst weight judged = .block ↔ ∃ x ∈ judged, x.2.action = .block := by
  constructor
  · intro h
    by_contra hnone
    push Not at hnone
    have hle : worst weight judged ≤ .warn := worst_le.mpr fun x hx => by
      have hx := hnone x hx
      unfold weight
      cases ha : x.2.action <;> first | exact absurd ha hx | decide
    exact absurd (h ▸ hle) (by decide)
  · rintro ⟨x, hx, hblock⟩
    have hle : weight x.2 ≤ worst weight judged := le_worst hx
    rw [weight, hblock] at hle
    revert hle
    generalize worst weight judged = v
    cases v <;> decide

theorem worst_allow : worst weight judged = .allow ↔
    (¬ ∃ x ∈ judged, x.2.action = .block) ∧ ¬ ∃ x ∈ judged, x.2.action = .warn := by
  have hof : ∀ a, Verdict.of a ≤ ⊥ ↔ a ≠ .block ∧ a ≠ .warn := by
    intro a
    cases a <;> decide
  rw [← bot_eq_allow, ← le_bot_iff, worst_le]
  simp only [weight, hof, not_exists, not_and]
  exact forall₂_and

theorem worst_warn : worst weight judged = .warn ↔
    (¬ ∃ x ∈ judged, x.2.action = .block) ∧ ∃ x ∈ judged, x.2.action = .warn := by
  have hallow : worst weight judged = .allow ↔ _ := worst_allow
  rw [← worst_block] at hallow ⊢
  revert hallow
  generalize worst weight judged = v
  cases v <;> simp

theorem text_block {v : Verdict} : v.action.text = "BLOCK" ↔ v = .block := by
  cases v <;> decide

theorem text_warn {v : Verdict} : v.action.text = "WARN" ↔ v = .warn := by
  cases v <;> decide

theorem text_allow {v : Verdict} : v.action.text = "ALLOW" ↔ v = .allow := by
  cases v <;> decide

theorem hits_iff : Hits a (closed (gateOf judged)) ↔ ∃ x ∈ judged, x.2.action = a := by
  simp only [Hits, closed, gateOf, List.mem_map, exists_exists_and_eq_and, policyHit]

theorem acting_length : (acting a judged).length =
    (judged.map fun x => policyHit x.1 x.2).countP fun hit => hit.action = a := by
  rw [List.countP_map, List.countP_eq_length_filter]
  rfl

theorem reference_gateOf : Reference (closed (gateOf judged)) judged where
  hits := rfl
  block := by
    rw [hits_iff, ← worst_block]
    exact text_block
  warn := by
    rw [hits_iff, hits_iff, ← worst_warn]
    exact text_warn
  allow := by
    rw [hits_iff, hits_iff, ← worst_allow]
    exact text_allow
  action := rfl
  passed := by
    rw [hits_iff, ← worst_block]
    exact decide_eq_true_iff
  failed := rfl
  blocked := acting_length
  warned := acting_length
  reasons := rfl
  warnings := rfl

/-- What the gate decided, as its decision spells it. -/
def decided (gate : GateResult) : Verdict :=
  if gate.decision = "BLOCK" then .block
  else if gate.decision = "WARN" then .warn
  else .allow

theorem decided_gateOf : decided (closed (gateOf judged)) = worst weight judged := by
  unfold decided
  change (if (worst weight judged).action.text = "BLOCK" then Verdict.block
    else if (worst weight judged).action.text = "WARN" then .warn else .allow) = _
  cases worst weight judged <;> rfl

theorem decided_evaluate : decided (evaluate pl fs policies) =
    worst weight (matched (judges pl) fs (policies.getD (defaultPolicies pl))) := by
  rw [evaluate_eq, decided_gateOf]

theorem decided_append : decided (evaluate pl (fs ++ gs) policies) =
    max (decided (evaluate pl fs policies)) (decided (evaluate pl gs policies)) := by
  simp only [decided_evaluate, matched_append, worst_append]

theorem decided_congr (hfs : ∀ f, f ∈ fs ↔ f ∈ gs) (hps : ∀ p, p ∈ ps ↔ p ∈ qs) :
    decided (evaluate pl fs (some ps)) = decided (evaluate pl gs (some qs)) := by
  simp only [decided_evaluate]
  refine worst_congr ?_
  rintro ⟨f, p⟩
  rw [mem_matched, mem_matched, hfs]
  simp only [Option.getD_some, hps]

theorem judged_iff : (∃ x ∈ matched (judges pl) fs ps, x.2.action = a) ↔
    ∃ f ∈ fs, excludedPath pl f.location = false ∧
      ∃ p ∈ ps, p.action = a ∧ p.matches f = true := by
  simp only [Prod.exists, mem_matched, judges, Bool.and_eq_true, Bool.not_eq_true']
  constructor
  · rintro ⟨f, p, ⟨hf, hp, hout, hm⟩, ha⟩
    exact ⟨f, hf, hout, p, hp, ha, hm⟩
  · rintro ⟨f, hf, hout, p, hp, ha, hm⟩
    exact ⟨f, p, ⟨hf, hp, hout, hm⟩, ha⟩

theorem blocks_iff : (evaluate pl fs (some ps)).decision = "BLOCK" ↔
    ∃ f ∈ fs, excludedPath pl f.location = false ∧
      ∃ p ∈ ps, p.action = .block ∧ p.matches f = true := by
  rw [evaluate_eq, reference_gateOf.block, hits_iff]
  exact judged_iff

theorem warns_iff : (evaluate pl fs (some ps)).decision = "WARN" ↔
    (evaluate pl fs (some ps)).decision ≠ "BLOCK" ∧
    ∃ f ∈ fs, excludedPath pl f.location = false ∧
      ∃ p ∈ ps, p.action = .warn ∧ p.matches f = true := by
  rw [evaluate_eq, reference_gateOf.warn, ne_eq, reference_gateOf.block, hits_iff (a := .warn)]
  exact and_congr_right fun _ => judged_iff

theorem text_congr {v w : Verdict} : v.action.text = w.action.text ↔
    (v.action.text = "BLOCK" ↔ w.action.text = "BLOCK") ∧
      (v.action.text = "WARN" ↔ w.action.text = "WARN") := by
  cases v <;> cases w <;> decide

/-- Two gates decide the same if they agree on blocking and on warning. -/
theorem decision_congr : (evaluate pl fs policies).decision = (evaluate pl gs policies).decision ↔
    ((evaluate pl fs policies).decision = "BLOCK" ↔ (evaluate pl gs policies).decision = "BLOCK") ∧
    ((evaluate pl fs policies).decision = "WARN" ↔
      (evaluate pl gs policies).decision = "WARN") := by
  rw [evaluate_eq, evaluate_eq]
  exact text_congr

theorem evaluate_some : evaluate pl fs policies =
    evaluate pl fs (some (policies.getD (defaultPolicies pl))) := rfl

/-- Failing under the one threshold implies failing under the other. -/
def Nested (cm : CaseMap) (quote : String → String) (rep : Report) (t t' : String) : Prop :=
  ∀ failOn failOn', parseFailOn cm quote failOn = .ok t → parseFailOn cm quote failOn' = .ok t' →
    shouldFailOn cm quote failOn (some rep) = true →
      shouldFailOn cm quote failOn' (some rep) = true

section Thresholds

variable {cm : CaseMap} {quote : String → String} {rep : Report}

theorem nested_block : Nested cm quote rep "block" "warn" := by
  intro failOn failOn' hblock hwarn h
  simp only [shouldFailOn, hblock] at h
  simp [shouldFailOn, hwarn, h]

theorem nested_critical : Nested cm quote rep "critical" "high" := by
  intro failOn failOn' hcritical hhigh h
  simp only [shouldFailOn, hcritical, decide_eq_true_eq] at h
  simp only [shouldFailOn, hhigh, decide_eq_true_eq]
  omega

theorem nested_high : Nested cm quote rep "high" "medium" := by
  intro failOn failOn' hhigh hmedium h
  simp only [shouldFailOn, hhigh, decide_eq_true_eq] at h
  simp only [shouldFailOn, hmedium, decide_eq_true_eq]
  omega

end Thresholds

/-- The gate is the join of findings with policies: its hits and its decision are those of
the pairs that match, decisions of two lists of findings join, and neither order matters.
Thresholds for its reports are nested. -/
theorem evaluate_joins :
    (∀ fs, Reference (evaluate pl fs policies)
      (matched (judges pl) fs (policies.getD (defaultPolicies pl)))) ∧
    (∀ fs gs, decided (evaluate pl (fs ++ gs) policies) =
      max (decided (evaluate pl fs policies)) (decided (evaluate pl gs policies))) ∧
    (∀ fs f gs, decided (evaluate pl (fs ++ gs) policies) ≤
      decided (evaluate pl (fs ++ f :: gs) policies)) ∧
    (∀ fs gs, fs.Perm gs →
      decided (evaluate pl fs policies) = decided (evaluate pl gs policies)) ∧
    (∀ fs ps qs, List.Perm ps qs →
      decided (evaluate pl fs (some ps)) = decided (evaluate pl fs (some qs))) ∧
    ∀ (cm : CaseMap) (quote : String → String) (rep : Report) (fs : List Finding),
      rep.gate = evaluate pl fs policies →
        Nested cm quote rep "block" "warn" ∧ Nested cm quote rep "critical" "high" ∧
        Nested cm quote rep "high" "medium" := by
  refine ⟨fun fs => ?_, fun fs gs => decided_append, fun fs f gs => ?_, fun fs gs hperm => ?_,
    fun fs ps qs hperm => ?_, fun _ _ _ _ _ => ⟨nested_block, nested_critical, nested_high⟩⟩
  · rw [evaluate_eq]
    exact reference_gateOf
  · rw [decided_append, List.append_cons, decided_append, decided_append]
    exact max_le_max_right _ (le_max_left _ _)
  · rw [evaluate_some]
    exact decided_congr (fun _ => hperm.mem_iff) fun _ => Iff.rfl
  · exact decided_congr (fun _ => Iff.rfl) fun _ => hperm.mem_iff

end RivicQ.Properties.Verdicts

namespace RivicQ.Properties.Legacy

open RivicQ.Lib.GoStrings RivicQ.Properties.Verdicts
open RivicQ.Intelligence.Findings RivicQ.Intelligence.Policies RivicQ.Intelligence.PQCClass

/-- The spellings by which the classifier places a finding in the legacy class. -/
def legacyMarkers : List String :=
  ["MD5", "RC4", "3DES", "DES-EDE", " TRIPLE DES", "TRIPLEDES", "SHA-1", "SHA1", "TLS 1.0",
    "TLS1.0", "TLS 1.1", "TLS1.1", "SSL 3.0", "SSL3.0"]

variable {pl : Platform} {cm : CaseMap} {f : Finding} {blob : String} {s t : List String}

theorem containsAny_append :
    containsAny blob (s ++ t) = (containsAny blob s || containsAny blob t) := List.any_append

theorem classRules_legacy {keyLength : Int} {attackClass : Quantum.QiskitProfile.AttackClass} :
    (classRules blob keyLength attackClass).1 = classPQCLegacy ↔
      containsAny blob legacyMarkers = true := by
  have hmarkers : legacyMarkers = ["MD5"] ++ (["RC4"] ++ (["3DES", "DES-EDE", " TRIPLE DES",
      "TRIPLEDES"] ++ (["SHA-1", "SHA1"] ++ ["TLS 1.0", "TLS1.0", "TLS 1.1", "TLS1.1", "SSL 3.0",
      "SSL3.0"]))) := rfl
  simp only [hmarkers, containsAny_append, Bool.or_eq_true]
  unfold classRules
  by_cases h1 : containsAny blob ["MD5"] = true
  · rw [if_pos h1]
    exact iff_of_true rfl (.inl h1)
  by_cases h2 : containsAny blob ["RC4"] = true
  · rw [if_neg h1, if_pos h2]
    exact iff_of_true rfl (.inr (.inl h2))
  by_cases h3 : containsAny blob ["3DES", "DES-EDE", " TRIPLE DES", "TRIPLEDES"] = true
  · rw [if_neg h1, if_neg h2, if_pos h3]
    exact iff_of_true rfl (.inr (.inr (.inl h3)))
  by_cases h4 : containsAny blob ["SHA-1", "SHA1"] = true
  · rw [if_neg h1, if_neg h2, if_neg h3, if_pos h4]
    exact iff_of_true rfl (.inr (.inr (.inr (.inl h4))))
  by_cases h5 : containsAny blob ["TLS 1.0", "TLS1.0", "TLS 1.1", "TLS1.1", "SSL 3.0",
      "SSL3.0"] = true
  · rw [if_neg h1, if_neg h2, if_neg h3, if_neg h4, if_pos h5]
    exact iff_of_true rfl (.inr (.inr (.inr (.inr h5))))
  rw [if_neg h1, if_neg h2, if_neg h3, if_neg h4, if_neg h5]
  refine iff_of_false ?_ fun h => ?_
  · split_ifs
    iterate 3 decide
    all_goals cases attackClass <;> decide
  · obtain h | h | h | h | h := h
    exacts [h1 h, h2 h, h3 h, h4 h, h5 h]

theorem classifyPQC_legacy (hcarried : f.pqcClass = "") :
    classifyPQC cm f = classPQCLegacy ↔
      containsAny (Finding.blob cm f) legacyMarkers = true := by
  unfold classifyPQC classifyPQCWithReason
  rw [if_neg (not_not.mpr hcarried)]
  exact classRules_legacy

/-- A spelling that the gate's policies know stands where they look for it. -/
def Spelled (pl : Platform) (f : Finding) : Prop :=
  containsAny (toUpper pl.cases (f.algorithm ++ " " ++ f.evidence ++ " " ++ f.location))
    ["MD5", "SHA-1", "SHA1"] = true ∨
  containsAny (toUpper pl.cases (f.algorithm ++ " " ++ f.evidence ++ " " ++ f.findingLabel))
    ["TLS 1.0", "TLS1.0", "TLS 1.1"] = true ∨
  containsAny (toUpper pl.cases (f.algorithm ++ " " ++ f.evidence)) ["3DES", "RC4"] = true

/-- Another blocking policy matches the finding. -/
def Otherwise (pl : Platform) (f : Finding) : Prop :=
  matchRSA pl f = true ∨ matchKEV f = true ∨ matchSecrets pl f = true

theorem blocking_iff : (∃ p ∈ defaultPolicies pl, p.action = .block ∧ p.matches f = true) ↔
    Spelled pl f ∨ Otherwise pl f := by
  have hhash : matchLegacyHash pl f = containsAny (toUpper pl.cases
      (f.algorithm ++ " " ++ f.evidence ++ " " ++ f.location)) ["MD5", "SHA-1", "SHA1"] := by
    simp [matchLegacyHash, containsAny, Bool.or_assoc]
  have htls : matchTLS pl f = containsAny (toUpper pl.cases
      (f.algorithm ++ " " ++ f.evidence ++ " " ++ f.findingLabel))
      ["TLS 1.0", "TLS1.0", "TLS 1.1"] := by
    simp [matchTLS, containsAny, Bool.or_assoc]
  have hciphers : matchCiphers pl f = containsAny (toUpper pl.cases
      (f.algorithm ++ " " ++ f.evidence)) ["3DES", "RC4"] := by
    simp [matchCiphers, containsAny]
  rw [Spelled, Otherwise, ← hhash, ← htls, ← hciphers]
  simp only [defaultPolicies, List.exists_mem_cons_iff, Policy.matches, Option.any_some,
    List.not_mem_nil]
  constructor
  · rintro (⟨_, h⟩ | ⟨_, h⟩ | ⟨_, h⟩ | ⟨_, h⟩ | ⟨_, h⟩ | ⟨h, _⟩ | ⟨_, h⟩ | ⟨h, _⟩ | ⟨_, h, _⟩)
    exacts [.inr (.inl h), .inl (.inl h), .inl (.inr (.inl h)), .inl (.inr (.inr h)),
      .inr (.inr (.inl h)), absurd h (by decide), .inr (.inr (.inr h)),
      absurd h (by decide), h.elim]
  · rintro ((h | h | h) | h | h | h)
    exacts [.inr (.inl ⟨trivial, h⟩), .inr (.inr (.inl ⟨trivial, h⟩)),
      .inr (.inr (.inr (.inl ⟨trivial, h⟩))), .inl ⟨trivial, h⟩,
      .inr (.inr (.inr (.inr (.inl ⟨trivial, h⟩)))),
      .inr (.inr (.inr (.inr (.inr (.inr (.inl ⟨trivial, h⟩))))))]

/-- Every gate that judges a list with the finding blocks it. -/
def Blocked (pl : Platform) (f : Finding) : Prop :=
  ∀ fs, f ∈ fs → (evaluate pl fs (some (defaultPolicies pl))).decision = "BLOCK"

theorem blocked_iff (hlocation : excludedPath pl f.location = false) :
    Blocked pl f ↔ Spelled pl f ∨ Otherwise pl f := by
  rw [← blocking_iff]
  constructor
  · intro h
    obtain ⟨f', hf', _, hblock⟩ := blocks_iff.mp (h [f] (List.mem_singleton_self f))
    rwa [← List.mem_singleton.mp hf']
  · intro h fs hf
    exact blocks_iff.mpr ⟨f, hf, hlocation, h⟩

/-- The classifier's legacy class is blocked by the gate, for a finding with no carried class
and a location that is not excluded, exactly if the legacy marker the classifier sees comes with
a spelling that the gate knows where it looks, or with another ground to block. -/
theorem legacy_agrees :
    (f.pqcClass = "" → excludedPath pl f.location = false →
      classifyPQC pl.cases f = classPQCLegacy → Blocked pl f) ↔
    (f.pqcClass = "" → excludedPath pl f.location = false →
      containsAny (Finding.blob pl.cases f) legacyMarkers = true →
        Spelled pl f ∨ Otherwise pl f) := by
  refine forall_congr' fun hcarried => forall_congr' fun hlocation => ?_
  rw [classifyPQC_legacy hcarried, blocked_iff hlocation]

def tripleDES : Finding where
  id := "rvq-1"
  algorithm := "TripleDES"
  location := "src/crypto/legacy.go"

/-- Triple DES under its full name is legacy and passes the gate. -/
theorem tripleDES_allowed : ¬ ∀ (pl : Platform) (f : Finding), f.pqcClass = "" →
    excludedPath pl f.location = false → classifyPQC pl.cases f = classPQCLegacy →
      Blocked pl f := by
  intro h
  have hallowed : (evaluate ⟨asciiCase, '/'⟩ [tripleDES]
      (some (defaultPolicies ⟨asciiCase, '/'⟩))).decision = "ALLOW" := by decide
  have hblocked := h ⟨asciiCase, '/'⟩ tripleDES rfl (by decide) (by decide) [tripleDES]
    (List.mem_singleton_self tripleDES)
  exact absurd (hallowed.symm.trans hblocked) (by decide)

end RivicQ.Properties.Legacy
