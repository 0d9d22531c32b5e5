import RivicQ.Intelligence.Contents

namespace RivicQ.Properties.Caps

open RivicQ.Lib.GoStrings
open RivicQ.Intelligence.Findings RivicQ.Intelligence.Policies RivicQ.Intelligence.FailOn
open RivicQ.Intelligence.Contents RivicQ.Intelligence.Adapters

/-- A scanner on the path, with what its entries say about their findings. -/
structure Tool (E : Type) where
  name : String
  skipped : E → Bool
  finding : E → String → Finding
  location : E → String
  severity : E → Severity
  location_eq : ∀ e id, (finding e id).location = location e
  severity_eq : ∀ e id, normalizeSeverity (finding e id).severity = severity e

variable {E : Type} (pl : Platform)

namespace Tool

variable (t : Tool E) (entries : List E)

def run : List Finding := report pl t.name t.skipped t.finding [] entries

/-- The entries that are not skipped and whose location is not excluded. -/
def listed : List E := entries.filter fun e => !t.skipped e && !excludedPath pl (t.location e)

/-- The findings of some entries, however many there are. -/
def findings : List Finding :=
  (entries.zipIdx 1).map fun e => t.finding e.1 (numbered t.name e.2)

def severities (fs : List Finding) : List Severity := fs.map fun f => normalizeSeverity f.severity

theorem severities_findings : severities (t.findings entries) = entries.map t.severity := by
  rw [severities, findings, List.map_map]
  have hseverity : (fun f : Finding => normalizeSeverity f.severity) ∘
      (fun e : E × Nat => t.finding e.1 (numbered t.name e.2)) = t.severity ∘ Prod.fst := by
    funext e
    exact t.severity_eq e.1 _
  rw [hseverity, ← List.map_map, List.zipIdx_map_fst]

theorem report_cons (out : List Finding) (e : E) :
    report pl t.name t.skipped t.finding out (e :: entries) =
      report pl t.name t.skipped t.finding
        (if t.skipped e then out
        else appendExternal pl out (t.finding e (numbered t.name (out.length + 1)))) entries := rfl

/-- From some findings on, as many entries are kept as there is room for. -/
theorem severities_report (out : List Finding) :
    severities (report pl t.name t.skipped t.finding out entries) =
      severities out ++ ((t.listed pl entries).take (maxExternalFindings - out.length)).map
        t.severity := by
  induction entries generalizing out with
  | nil => simp [report, listed]
  | cons e entries ih =>
    rw [report_cons, ih]
    by_cases hskipped : t.skipped e = true
    · have hlisted : t.listed pl (e :: entries) = t.listed pl entries :=
        List.filter_cons_of_neg (by simp [hskipped])
      rw [if_pos hskipped, hlisted]
    · rw [if_neg hskipped, appendExternal, t.location_eq]
      by_cases hexcluded : excludedPath pl (t.location e) = true
      · have hlisted : t.listed pl (e :: entries) = t.listed pl entries :=
          List.filter_cons_of_neg (by simp [hexcluded])
        rw [if_pos hexcluded, hlisted]
      · have hlisted : t.listed pl (e :: entries) = e :: t.listed pl entries :=
          List.filter_cons_of_pos (by simp [hskipped, hexcluded])
        rw [if_neg hexcluded, hlisted]
        by_cases hfull : out.length ≥ maxExternalFindings
        · rw [if_pos hfull, Nat.sub_eq_zero_of_le hfull, List.take_zero, List.take_zero]
        · obtain ⟨room, hroom⟩ : ∃ room, maxExternalFindings - out.length = room + 1 :=
            Nat.exists_eq_succ_of_ne_zero (Nat.sub_ne_zero_of_lt (Nat.not_le.mp hfull))
          have hrest : maxExternalFindings - (out.length + 1) = room := by omega
          rw [if_neg hfull, hroom, List.length_append, List.length_singleton, hrest,
            List.take_succ_cons, List.map_cons, severities, List.map_append, List.map_singleton,
            t.severity_eq, List.append_assoc]
          rfl

theorem severities_run :
    severities (t.run pl entries) =
      ((t.listed pl entries).take maxExternalFindings).map t.severity :=
  t.severities_report pl entries []

end Tool

section Thresholds

/-- The thresholds that look at severities, with the least one that each is met by. -/
def thresholds : List (String × Severity) :=
  [("critical", .critical), ("high", .high), ("medium", .medium)]

variable {pl} {quote : String → String} {failOn word : String} {least : Severity} {rep : Report}

theorem countSeverity_pos {text : String} {s : Severity} (hs : normalizeSeverity text = s) :
    0 < countSeverity rep text ↔ ∃ x ∈ Tool.severities rep.findings, x = s := by
  rw [countSeverity, List.countP_pos_iff, hs]
  simp [Tool.severities]

theorem exists_mem_or {xs : List Severity} {p q r : Severity → Prop} (h : ∀ x, r x ↔ p x ∨ q x) :
    (∃ x ∈ xs, r x) ↔ (∃ x ∈ xs, p x) ∨ ∃ x ∈ xs, q x := by
  simp only [h, and_or_left, exists_or]

/-- A threshold is met by a finding that is severe enough. -/
theorem shouldFailOn_iff (rep : Report) (h : (word, least) ∈ thresholds)
    (hparse : parseFailOn pl.cases quote failOn = .ok word) :
    shouldFailOn pl.cases quote failOn (some rep) = true ↔
      ∃ x ∈ Tool.severities rep.findings, least.rank ≤ x.rank := by
  have hcritical := @countSeverity_pos rep "CRITICAL" .critical rfl
  have hhigh := @countSeverity_pos rep "HIGH" .high rfl
  have hmedium := @countSeverity_pos rep "MEDIUM" .medium rfl
  have hrank4 : ∀ x : Severity, Severity.critical.rank ≤ x.rank ↔ x = .critical := by
    intro x
    cases x <;> decide
  have hrank3 : ∀ x : Severity, Severity.high.rank ≤ x.rank ↔ x = .critical ∨ x = .high := by
    intro x
    cases x <;> decide
  have hrank2 : ∀ x : Severity,
      Severity.medium.rank ≤ x.rank ↔ (x = .critical ∨ x = .high) ∨ x = .medium := by
    intro x
    cases x <;> decide
  simp only [thresholds, List.mem_cons, Prod.mk.injEq, List.not_mem_nil, or_false] at h
  obtain ⟨rfl, rfl⟩ | ⟨rfl, rfl⟩ | ⟨rfl, rfl⟩ := h
  · simp only [shouldFailOn, hparse, decide_eq_true_eq, gt_iff_lt, hcritical, hrank4]
  · simp only [shouldFailOn, hparse, decide_eq_true_eq, gt_iff_lt, Nat.add_pos_iff_pos_or_pos,
      hcritical, hhigh, exists_mem_or hrank3]
  · simp only [shouldFailOn, hparse, decide_eq_true_eq, gt_iff_lt, Nat.add_pos_iff_pos_or_pos,
      hcritical, hhigh, hmedium, exists_mem_or hrank2, exists_mem_or fun _ => Iff.rfl]

/-- Lower case words stay as they are when they are read. -/
def Reads (pl : Platform) : Prop := ∀ t ∈ thresholds, toLower pl.cases t.1 = t.1

theorem parse_threshold (quote : String → String) (hreads : Reads pl)
    (h : (word, least) ∈ thresholds) :
    parseFailOn pl.cases quote word = .ok word := by
  have hlower : toLower pl.cases word = word := hreads _ h
  simp only [thresholds, List.mem_cons, Prod.mk.injEq, List.not_mem_nil, or_false] at h
  obtain ⟨rfl, rfl⟩ | ⟨rfl, rfl⟩ | ⟨rfl, rfl⟩ := h
  · have htrim : trimSpace "critical" = "critical" := by decide
    simp only [parseFailOn, htrim, hlower]
  · have htrim : trimSpace "high" = "high" := by decide
    simp only [parseFailOn, htrim, hlower]
  · have htrim : trimSpace "medium" = "medium" := by decide
    simp only [parseFailOn, htrim, hlower]

/-- Two lists of findings fail alike under the thresholds for severities. -/
def FailAlike (pl : Platform) (quote : String → String) (gate : GateResult)
    (fs fs' : List Finding) : Prop :=
  ∀ failOn, ∀ t ∈ thresholds, parseFailOn pl.cases quote failOn = .ok t.1 →
    shouldFailOn pl.cases quote failOn (some ⟨fs, gate⟩) =
      shouldFailOn pl.cases quote failOn (some ⟨fs', gate⟩)

variable {gate : GateResult} {fs fs' : List Finding} {xs ys : List Severity}

def Meets (least : Severity) (xs : List Severity) : Prop := ∃ x ∈ xs, least.rank ≤ x.rank

theorem failAlike_of_meets
    (h : ∀ t ∈ thresholds, Meets t.2 (Tool.severities fs) ↔ Meets t.2 (Tool.severities fs')) :
    FailAlike pl quote gate fs fs' := by
  rintro failOn ⟨word, least⟩ ht hparse
  rw [Bool.eq_iff_iff, shouldFailOn_iff ⟨fs, gate⟩ ht hparse,
    shouldFailOn_iff ⟨fs', gate⟩ ht hparse]
  exact h _ ht

theorem failAlike_iff (hreads : Reads pl) : FailAlike pl quote gate fs fs' ↔
    ∀ t ∈ thresholds, Meets t.2 (Tool.severities fs) ↔ Meets t.2 (Tool.severities fs') := by
  refine ⟨?_, failAlike_of_meets⟩
  rintro h ⟨word, least⟩ ht
  have hparse := parse_threshold quote hreads ht
  rw [Meets, Meets, ← shouldFailOn_iff ⟨fs, gate⟩ ht hparse,
    ← shouldFailOn_iff ⟨fs', gate⟩ ht hparse, h word _ ht hparse]

/-- The first of some severities meet the same thresholds as all of them if none that counts and
comes later is worse than each of the first. -/
theorem meets_take_iff (n : Nat) :
    (∀ t ∈ thresholds, Meets t.2 (xs.take n) ↔ Meets t.2 xs) ↔
      ∀ x ∈ xs.drop n, Severity.medium.rank ≤ x.rank → ∃ y ∈ xs.take n, x.rank ≤ y.rank := by
  have hthreshold : ∀ x : Severity, Severity.medium.rank ≤ x.rank →
      ∃ word, (word, x) ∈ thresholds := by
    intro x hx
    cases x with
    | info => exact absurd hx (by decide)
    | low => exact absurd hx (by decide)
    | medium => exact ⟨"medium", by decide⟩
    | high => exact ⟨"high", by decide⟩
    | critical => exact ⟨"critical", by decide⟩
  have hmedium : ∀ t ∈ thresholds, Severity.medium.rank ≤ t.2.rank := by decide
  constructor
  · intro h x hx hcounts
    obtain ⟨word, hword⟩ := hthreshold x hcounts
    exact (h _ hword).mpr ⟨x, List.mem_of_mem_drop hx, le_rfl⟩
  · intro h t ht
    constructor
    · rintro ⟨x, hx, hle⟩
      exact ⟨x, List.mem_of_mem_take hx, hle⟩
    · rintro ⟨x, hx, hle⟩
      rw [← List.take_append_drop n xs, List.mem_append] at hx
      obtain hx | hx := hx
      · exact ⟨x, hx, hle⟩
      · obtain ⟨y, hy, hworse⟩ := h x hx ((hmedium t ht).trans hle)
        exact ⟨y, hy, hle.trans hworse⟩

end Thresholds

section Tools

variable {pl} {quote : String → String} {gate : GateResult} {t : Tool E} {entries : List E}

/-- None of the entries that are left out is of medium severity or more and worse than each that
is kept. -/
def NothingWorse (severity : E → Severity) (listed : List E) : Prop :=
  ∀ e ∈ listed.drop maxExternalFindings, Severity.medium.rank ≤ (severity e).rank →
    ∃ kept ∈ listed.take maxExternalFindings, (severity e).rank ≤ (severity kept).rank

/-- The cap of an adapter that lists what the report identifies. -/
theorem Tool.failAlike_iff (hreads : Reads pl) (quote : String → String) (gate : GateResult)
    (t : Tool E) (entries : List E) :
    FailAlike pl quote gate (t.run pl entries) (t.findings (t.listed pl entries)) ↔
      NothingWorse t.severity (t.listed pl entries) := by
  rw [Caps.failAlike_iff hreads, severities_run, severities_findings, List.map_take,
    meets_take_iff, NothingWorse, ← List.map_drop, ← List.map_take, List.forall_mem_map]
  simp only [List.mem_map, exists_exists_and_eq_and]

theorem normalizeSeverity_severityText (s : Severity) : normalizeSeverity (severityText s) = s := by
  cases s <;> rfl

def trivy : Tool (String × TrivyVulnerability) where
  name := "trivy"
  skipped e := e.2.vulnerabilityID = ""
  finding e := trivyFinding e.1 e.2
  location := Prod.fst
  severity e := normalizeSeverity e.2.severity
  location_eq _ _ := rfl
  severity_eq e _ := normalizeSeverity_severityText (normalizeSeverity e.2.severity)

def grype (root : String) : Tool GrypeMatch where
  name := "grype"
  skipped m := m.id = ""
  finding := grypeFinding root
  location _ := root
  severity m := normalizeSeverity m.severity
  location_eq _ _ := rfl
  severity_eq m _ := normalizeSeverity_severityText (normalizeSeverity m.severity)

def gitleaks : Tool Leak where
  name := "gitleaks"
  skipped _ := false
  finding := gitleaksFinding
  location := Leak.file
  severity _ := .high
  location_eq _ _ := rfl
  severity_eq _ _ := rfl

def osv (root : String) : Tool (OSVPackage × OSVVulnerability) where
  name := "osv"
  skipped e := e.2.id = ""
  finding e := osvFinding root e.1 e.2
  location _ := root
  severity _ := .medium
  location_eq _ _ := rfl
  severity_eq _ _ := rfl

/-- The vulnerabilities of a report, with their targets. -/
def trivyEntries (results : List TrivyResult) : List (String × TrivyVulnerability) :=
  results.flatMap fun res => res.vulnerabilities.map fun v => (res.target, v)

def osvEntries (results : List OSVResult) : List (OSVPackage × OSVVulnerability) :=
  (results.flatMap OSVResult.packages).flatMap fun pkg => pkg.vulnerabilities.map fun v => (pkg, v)

theorem runTrivy_eq (results : List TrivyResult) :
    runTrivy pl results = trivy.run pl (trivyEntries results) := by
  rw [runTrivy, Tool.run, report, trivyEntries, List.foldl_flatMap]
  simp only [List.foldl_map]
  rfl

theorem runOSV_eq (root : String) (results : List OSVResult) :
    runOSV pl root results = (osv root).run pl (osvEntries results) := by
  rw [runOSV, Tool.run, report, osvEntries, List.foldl_flatMap, List.foldl_flatMap]
  simp only [List.foldl_map]
  rfl

/-- Where all entries are alike, the first tell as much as all. -/
theorem nothingWorse_of_const {severity : E → Severity} {s : Severity} (h : ∀ e, severity e = s)
    (listed : List E) : NothingWorse severity listed := by
  intro e he _
  cases listed with
  | nil => simp at he
  | cons first rest => exact ⟨first, List.mem_cons_self, by rw [h, h]⟩

/-- The leaks that name a rule, at locations that are not excluded. -/
def namedLeaks (pl : Platform) (leaks : List Leak) : List Leak :=
  (gitleaks.listed pl leaks).filter fun leak => leak.ruleID ≠ ""

theorem meets_const {least s : Severity} (listed : List E) :
    Meets least (listed.map fun _ => s) ↔ listed ≠ [] ∧ least.rank ≤ s.rank := by
  cases listed with
  | nil => simp [Meets]
  | cons first rest => simp [Meets]

/-- Leaks are all of one severity, so that they fail alike unless none of them names its rule. -/
theorem gitleaks_iff (hreads : Reads pl) (quote : String → String) (gate : GateResult)
    (leaks : List Leak) :
    FailAlike pl quote gate (runGitleaks pl leaks) (gitleaks.findings (namedLeaks pl leaks)) ↔
      (gitleaks.listed pl leaks ≠ [] → namedLeaks pl leaks ≠ []) := by
  have hrun : runGitleaks pl leaks = gitleaks.run pl leaks := rfl
  have hsub : namedLeaks pl leaks ≠ [] → gitleaks.listed pl leaks ≠ [] := by
    intro hnamed hnil
    rw [namedLeaks, hnil] at hnamed
    exact hnamed rfl
  have htake : (gitleaks.listed pl leaks).take maxExternalFindings ≠ [] ↔
      gitleaks.listed pl leaks ≠ [] := by
    rw [ne_eq, ne_eq, List.take_eq_nil_iff, or_iff_right (by decide)]
  rw [hrun, failAlike_iff hreads, gitleaks.severities_run, gitleaks.severities_findings]
  have hmeets : ∀ (least : Severity) (es : List Leak),
      Meets least (es.map gitleaks.severity) ↔ es ≠ [] ∧ least.rank ≤ Severity.high.rank :=
    fun least es => meets_const es
  simp only [hmeets, htake]
  constructor
  · intro h hlisted
    exact ((h ("high", .high) (by decide)).mp ⟨hlisted, le_rfl⟩).1
  · intro h t _
    exact and_congr_left fun _ => ⟨h, hsub⟩

/-- The cap hides no failure: for trivy and grype where what is left out is no worse than what is
kept, for gitleaks where a leak names its rule if there is any, and for osv-scanner always. -/
theorem caps_iff (hreads : Reads pl) (quote : String → String) (gate : GateResult) :
    (∀ results, FailAlike pl quote gate (runTrivy pl results)
        (trivy.findings (trivy.listed pl (trivyEntries results))) ↔
      NothingWorse trivy.severity (trivy.listed pl (trivyEntries results))) ∧
    (∀ root ms, FailAlike pl quote gate (runGrype pl root ms)
        ((grype root).findings ((grype root).listed pl ms)) ↔
      NothingWorse (grype root).severity ((grype root).listed pl ms)) ∧
    (∀ leaks, FailAlike pl quote gate (runGitleaks pl leaks)
        (gitleaks.findings (namedLeaks pl leaks)) ↔
      (gitleaks.listed pl leaks ≠ [] → namedLeaks pl leaks ≠ [])) ∧
    ∀ root results, FailAlike pl quote gate (runOSV pl root results)
      ((osv root).findings ((osv root).listed pl (osvEntries results))) := by
  refine ⟨fun results => ?_, fun root ms => ?_, gitleaks_iff hreads quote gate,
    fun root results => ?_⟩
  · rw [runTrivy_eq]
    exact trivy.failAlike_iff hreads quote gate (trivyEntries results)
  · exact (grype root).failAlike_iff hreads quote gate ms
  · rw [runOSV_eq]
    exact ((osv root).failAlike_iff hreads quote gate (osvEntries results)).mpr
      (nothingWorse_of_const (fun _ => rfl) _)

end Tools

section Flood

def unix : Platform := ⟨asciiCase, '/'⟩

def vulnerability (id severity : String) : TrivyVulnerability where
  vulnerabilityID := id
  pkgName := "openssl"
  installedVersion := "1.1.1"
  severity := severity
  title := ""

/-- Forty vulnerabilities of low severity, and a critical one. -/
def flood : List TrivyResult :=
  [⟨"go.sum", List.replicate 40 (vulnerability "CVE-2021-0001" "LOW") ++
    [vulnerability "CVE-2022-3602" "CRITICAL"]⟩]

def pass : GateResult := { passed := true, action := .allow }

theorem flood_hides_critical :
    shouldFailOn unix.cases id "critical" (some ⟨runTrivy unix flood, pass⟩) = false ∧
      shouldFailOn unix.cases id "critical"
        (some ⟨trivy.findings (trivy.listed unix (trivyEntries flood)), pass⟩) = true := by
  decide +kernel

theorem reads_unix : Reads unix := by
  rw [Reads]
  decide

/-- A critical vulnerability that is reported first. -/
def single : List TrivyResult := [⟨"go.sum", [vulnerability "CVE-2022-3602" "CRITICAL"]⟩]

theorem caps_single :
    shouldFailOn unix.cases id "critical" (some ⟨runTrivy unix single, pass⟩) =
      shouldFailOn unix.cases id "critical"
        (some ⟨trivy.findings (trivy.listed unix (trivyEntries single)), pass⟩) := by
  have hworse : NothingWorse trivy.severity (trivy.listed unix (trivyEntries single)) := by
    intro e he
    have hdrop : (trivy.listed unix (trivyEntries single)).drop maxExternalFindings = [] := rfl
    rw [hdrop] at he
    cases he
  have halike := ((caps_iff reads_unix id pass).1 single).mpr hworse
  have hmem : ("critical", Severity.critical) ∈ thresholds := by decide
  exact halike "critical" _ hmem (parse_threshold id reads_unix hmem)

end Flood

end RivicQ.Properties.Caps
