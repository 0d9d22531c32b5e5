import RivicQ.Intelligence.Policies
import RivicQ.Lib.Paths
import RivicQ.Shared.ArtifactDecisions

namespace RivicQ.Properties.Blocking

open RivicQ.Lib.GoStrings RivicQ.Lib.Marks RivicQ.Quantum.QiskitProfile
open RivicQ.Cryptoscan.Detect RivicQ.Intelligence.Findings RivicQ.Intelligence.Policies
open RivicQ.Shared.ArtifactDecisions

/-- The gate blocks a name, as that of a broken hash or cipher. -/
def GateBlocks (pl : Platform) (n : String) : Prop :=
  ∃ hit ∈ (evaluate pl [{ algorithm := n }] none).hits,
    hit.policyID ∈ ["crypto-legacy-hash", "crypto-3des-rc4"] ∧ hit.action = .block

instance (pl : Platform) (n : String) : Decidable (GateBlocks pl n) :=
  inferInstanceAs (Decidable (∃ hit ∈ (evaluate pl [{ algorithm := n }] none).hits, _ ∧ _))

/-- A text that the cases put in the Shor class or among the broken primitives. -/
def BlockingName (a : String) : Prop :=
  ¬ Marked pqcMarks a ∧ (ShorMarked a ∨
    ¬ Marked groverMarks a ∧ (Marked brokenMarks a ∨ Marked edwardsMarks a))

instance (a : String) : Decidable (BlockingName a) :=
  inferInstanceAs (Decidable (_ ∧ (_ ∨ _ ∧ (_ ∨ _))))

theorem status_blocks_iff {cm : CaseMap} {s : String} {k : Int} :
    statusDecision (pqcStatus (classify cm s k)) = .block ↔ BlockingName (normalized cm s) := by
  have hc := classified cm s k
  rw [statusDecision_eq_block_iff]
  unfold pqcStatus
  revert hc
  generalize (classify cm s k).attackClass = cls, (classify cm s k).qiskitFamily = family,
    (classify cm s k).quantumSafe = safe
  rintro (hunknown | h | ⟨hpqc, h⟩ | ⟨hpqc, hshor, h⟩ | ⟨hpqc, hshor, hgrover, h⟩ |
    ⟨hpqc, hshor, hgrover, hbroken, h⟩ | ⟨hpqc, hshor, hgrover, hbroken, h⟩)
  · have hnone : ¬ BlockingName (normalized cm s) := by
      obtain ha | ha := hunknown <;> rw [ha] <;> decide
    exact iff_of_false (by decide) hnone
  · exact iff_of_false (by decide) fun hb => hb.1 h
  · exact iff_of_true (by decide) ⟨hpqc, .inl h⟩
  · refine iff_of_false ?_ fun hb => hb.2.elim hshor fun hb => hb.1 h
    cases decide (k ≥ 256 ∨ Marked longMarks (normalized cm s)) <;> decide
  · exact iff_of_true (by decide) ⟨hpqc, .inr ⟨hgrover, .inl h⟩⟩
  · exact iff_of_true (by decide) ⟨hpqc, .inr ⟨hgrover, .inr h⟩⟩
  · exact iff_of_false (by decide) fun hb => hb.2.elim hshor fun hb => hb.2.elim hbroken h

/-- The two gates agree on a name of a broken hash or cipher if the classifier puts the name that
the catalogue has for it in the Shor class or among the broken primitives; and the decision is
always the greatest one on the elements. -/
theorem gates_agree_iff (pl : Platform) (n evidence : String) (_ : GateBlocks pl n) :
    ((∀ algs certs, algorithm pl.cases n evidence ∈ algs →
        (artifactDecisionFrom algs certs).decision = .block) ↔
      BlockingName (normalized pl.cases (catalogName pl.cases n))) ∧
    (∀ algs certs, (artifactDecisionFrom algs certs).decision =
      (algs.map (fun a => (artifactDecisionFrom [a] []).decision) ++
        certs.map fun c => (artifactDecisionFrom [] [c]).decision).foldr max .pass) ∧
    (∀ algs algs' certs certs', (∀ a, a ∈ algs ↔ a ∈ algs') → (∀ c, c ∈ certs ↔ c ∈ certs') →
      (artifactDecisionFrom algs certs).decision =
        (artifactDecisionFrom algs' certs').decision) := by
  refine ⟨?_, decision_eq_max, fun _ _ _ _ => decision_congr⟩
  rw [← status_blocks_iff (k := 0), ← (algorithm_status pl.cases n evidence).2]
  constructor
  · intro h
    rw [← decision_finding]
    exact h _ [] List.mem_cons_self
  · exact fun h algs certs ha => decision_eq_block_iff.mpr (.inl ⟨_, ha, h⟩)

def platform : Platform := ⟨asciiCase, '/'⟩

theorem gates_agree_iff_md5 :
    ((∀ algs certs, algorithm asciiCase "MD5" "" ∈ algs →
        (artifactDecisionFrom algs certs).decision = .block) ↔
      BlockingName (normalized asciiCase (catalogName asciiCase "MD5"))) ∧
    (∀ algs certs, (artifactDecisionFrom algs certs).decision =
      (algs.map (fun a => (artifactDecisionFrom [a] []).decision) ++
        certs.map fun c => (artifactDecisionFrom [] [c]).decision).foldr max .pass) ∧
    (∀ algs algs' certs certs', (∀ a, a ∈ algs ↔ a ∈ algs') → (∀ c, c ∈ certs ↔ c ∈ certs') →
      (artifactDecisionFrom algs certs).decision =
        (artifactDecisionFrom algs' certs').decision) :=
  gates_agree_iff platform "MD5" "" (by decide)

/-- SHA-1 is blocked by the gate of a repository, and only warned of in an artifact. -/
theorem sha1_not_blocked :
    ¬ ∀ (pl : Platform) (n evidence : String) (_ : GateBlocks pl n) (algs : List AlgorithmFinding)
      (certs : List String), algorithm pl.cases n evidence ∈ algs →
        (artifactDecisionFrom algs certs).decision = .block := by
  intro h
  have hsha := h platform "SHA-1" "" (by decide) [_] [] List.mem_cons_self
  rw [decision_finding, (algorithm_status platform.cases "SHA-1" "").2, status_blocks_iff] at hsha
  exact absurd hsha (by decide)

end RivicQ.Properties.Blocking

namespace RivicQ.Properties.Excludes

open RivicQ.Lib.GoStrings RivicQ.Lib.Paths
open RivicQ.Intelligence.Findings RivicQ.Intelligence.Policies

/-- The location as the excludes are matched against it. -/
def normal (pl : Platform) (loc : String) : String := toSlash pl (toLower pl.cases loc)

/-- Some complete segments of a path in a row are an exclude. -/
def Whole (ex path : String) : Prop := segments ex <:+: segments path

/-- A segment that is not the first of a path begins with an exclude. -/
def Begins (ex path : String) : Prop := '/' :: ex.toList <:+: path.toList

variable {pl : Platform} {loc ex path : String}

theorem slash_append : ("/" ++ ex).toList = '/' :: ex.toList := by
  rw [String.toList_append]
  rfl

theorem append_slash : (ex ++ "/").toList = ex.toList ++ ['/'] := by
  rw [String.toList_append]
  rfl

theorem whole_iff : Whole ex path ↔ path = ex ∨ ex.toList ++ ['/'] <+: path.toList ∨
    '/' :: ex.toList <:+ path.toList ∨ '/' :: (ex.toList ++ ['/']) <:+: path.toList := by
  rw [Whole, segments, segments, infix_splitOn_iff, bounded_infix_iff, String.toList_inj]

/-- An exclude stands at the front of a path, with more segments behind it. -/
def First (ex path : String) : Prop := ex.toList ++ ['/'] <+: path.toList

theorem begins_or_first (h : Whole ex path) : path = ex ∨ Begins ex path ∨ First ex path := by
  obtain heq | hfirst | hlast | hinside := whole_iff.mp h
  · exact .inl heq
  · exact .inr (.inr hfirst)
  · exact .inr (.inl hlast.isInfix)
  · exact .inr (.inl ((List.prefix_append ('/' :: ex.toList) ['/']).isInfix.trans hinside))

/-- The empty location has no segments for the excludes to stand in. -/
theorem loc_ne (h : Begins ex (normal pl loc) ∨ First ex (normal pl loc)) : loc ≠ "" := by
  rintro rfl
  have hnormal : normal pl "" = "" := by simp [normal, toSlash, toLower]
  rw [hnormal] at h
  obtain h | h := h
  · exact absurd (List.infix_nil.mp h) (List.cons_ne_nil _ _)
  · exact absurd (List.prefix_nil.mp h) (by simp)

/-- What the code excludes: an exclude begins a later segment, or is the first one of several. -/
theorem excludedPath_iff : excludedPath pl loc = true ↔
    ∃ ex ∈ defaultExcludes, Begins ex (normal pl loc) ∨ First ex (normal pl loc) := by
  unfold excludedPath
  split_ifs with hloc
  · refine iff_of_false (by simp) ?_
    rintro ⟨ex, _, h⟩
    exact loc_ne h hloc
  · simp only [List.any_eq_true, Bool.or_eq_true, contains, hasPrefix, decide_eq_true_eq,
      slash_append, append_slash]
    refine exists_congr fun ex => and_congr_right fun _ => ?_
    constructor
    · rintro ((hbounded | hbegins) | hfirst)
      · exact .inl ((List.prefix_append ('/' :: ex.toList) ['/']).isInfix.trans hbounded)
      · exact .inl hbegins
      · exact .inr hfirst
    · rintro (hbegins | hfirst)
      · exact .inl (.inr hbegins)
      · exact .inr hfirst

/-- No exclude stands in another one. -/
theorem excludes_apart : ∀ ex ∈ defaultExcludes, ∀ path ∈ defaultExcludes,
    ¬ '/' :: ex.toList <:+: path.toList ∧ ¬ ex.toList ++ ['/'] <+: path.toList := by
  decide

/-- A location is excluded as its whole segments say, exactly if it is not an exclude by
itself, and a later segment begins with an exclude only where one stands as a whole. -/
theorem segments_exact :
    (excludedPath pl loc = true ↔ ∃ ex ∈ defaultExcludes, Whole ex (normal pl loc)) ↔
      normal pl loc ∉ defaultExcludes ∧
        ((∃ ex ∈ defaultExcludes, Begins ex (normal pl loc)) →
          ∃ ex ∈ defaultExcludes, Whole ex (normal pl loc)) := by
  rw [excludedPath_iff]
  constructor
  · intro h
    constructor
    · intro hmem
      obtain ⟨ex, hex, hbegins | hfirst⟩ := h.mpr ⟨_, hmem, whole_iff.mpr (.inl rfl)⟩
      · exact (excludes_apart ex hex _ hmem).1 hbegins
      · exact (excludes_apart ex hex _ hmem).2 hfirst
    · rintro ⟨ex, hex, hbegins⟩
      exact h.mp ⟨ex, hex, .inl hbegins⟩
  · rintro ⟨halone, hwhole⟩
    constructor
    · rintro ⟨ex, hex, hbegins | hfirst⟩
      · exact hwhole ⟨ex, hex, hbegins⟩
      · exact ⟨ex, hex, whole_iff.mpr (.inr (.inl hfirst))⟩
    · rintro ⟨ex, hex, h⟩
      obtain heq | hout := begins_or_first h
      · exact absurd (heq ▸ hex) halone
      · exact ⟨ex, hex, hout⟩

def unix : Platform := ⟨asciiCase, '/'⟩

/-- A longer word that begins like an exclude is excluded with it. -/
theorem distribution_excluded : ¬ ∀ (pl : Platform) (loc : String),
    excludedPath pl loc = true ↔ ∃ ex ∈ defaultExcludes, Whole ex (normal pl loc) := by
  intro h
  have hexcluded : excludedPath unix "src/distribution/hash.go" = true := by decide
  have hnone : ∀ ex ∈ defaultExcludes, ¬ segments ex <:+: segments (normal unix
      "src/distribution/hash.go") := by
    decide
  obtain ⟨ex, hex, hwhole⟩ := (h unix "src/distribution/hash.go").mp hexcluded
  exact hnone ex hex hwhole

end RivicQ.Properties.Excludes
