import RivicQ.Discovery.Components

namespace RivicQ.Properties.Completions

open RivicQ.Lib.Firsts RivicQ.Lib.HostPorts RivicQ.Discovery.Targets RivicQ.Discovery.Components

variable {scanID : String} {startedAt completedAt : Nat} {targets : List Target}
  {attempts order : List Attempt} {a : Attempt} {c d : CBOMComponent} {f : Finding}

/-- The findings of the scans that succeed. -/
def allFindings (attempts : List Attempt) : List Finding := attempts.flatMap fun a => (found a).1

/-- The components of the scans that succeed. -/
def allComponents (attempts : List Attempt) : List CBOMComponent :=
  attempts.flatMap fun a => (found a).2

theorem components_scanResult :
    (scanResult scanID startedAt completedAt targets attempts).components =
      firsts componentKey (allComponents attempts) :=
  congrArg (firsts componentKey) ((components_foldl attempts {}).trans (List.nil_append _))

theorem summary_scanResult :
    (scanResult scanID startedAt completedAt targets attempts).summary =
      computeSummary targets.length attempts.length (allFindings attempts)
        (firsts componentKey (allComponents attempts)) := by
  have hscanned : (attempts.foldl Shared.finish {}).scanned = attempts.length :=
    (scanned_foldl attempts {}).trans (Nat.zero_add _)
  have hfindings : (attempts.foldl Shared.finish {}).findings = allFindings attempts :=
    (findings_foldl attempts {}).trans (List.nil_append _)
  have hcomponents : (attempts.foldl Shared.finish {}).components = allComponents attempts :=
    (components_foldl attempts {}).trans (List.nil_append _)
  rw [← hscanned, ← hfindings, ← hcomponents]
  rfl

section Keys

theorem text_noBar (s : SeverityLevel) : '|' ∉ s.text.toList := by cases s <;> decide

theorem text_inj {s t : SeverityLevel} (h : s.text = t.text) : s = t := by
  cases s <;> cases t <;> first | rfl | exact absurd h (by decide)

/-- The last bar of a key is the one before its risk level. -/
theorem bar_inj {x y : String} {s t : SeverityLevel} (h : x ++ "|" ++ s.text = y ++ "|" ++ t.text) :
    x = y ∧ s = t := by
  have hcut : ∀ (z : String) (u : SeverityLevel),
      cutLast (z ++ "|" ++ u.text).toList '|' = some (z.toList, u.text.toList) := by
    intro z u
    have hbar : "|".toList = ['|'] := rfl
    rw [String.toList_append, String.toList_append, hbar, List.append_assoc,
      List.singleton_append, cutLast_append (text_noBar u)]
  have hparts := hcut x s
  rw [h, hcut y t] at hparts
  obtain ⟨hx, hs⟩ := Prod.mk.inj (Option.some.inj hparts)
  exact ⟨(String.toList_inj.mp hx).symm, (text_inj (String.toList_inj.mp hs)).symm⟩

theorem riskLevel_of_key (h : componentKey c = componentKey d) : c.riskLevel = d.riskLevel :=
  (bar_inj h).2

theorem componentKey_componentOf {g : Finding} (h : findingKey f = findingKey g) :
    componentKey (componentOf f) = componentKey (componentOf g) := by
  obtain ⟨halgorithm, hseverity⟩ := bar_inj h
  rw [componentKey, componentKey, componentOf, componentOf, halgorithm, hseverity]

/-- Each finding about an algorithm has a component under its key. -/
theorem exists_component {fs : List Finding} (hf : f ∈ fs) (halgorithm : f.algorithm ≠ "") :
    ∃ c ∈ componentsFromFindings fs, componentKey c = componentKey (componentOf f) := by
  have hmem : f ∈ fs.filter (·.algorithm ≠ "") :=
    List.mem_filter.mpr ⟨hf, decide_eq_true halgorithm⟩
  obtain ⟨g, hg, hkey⟩ := exists_first findingKey hmem
  exact ⟨componentOf g, List.mem_map_of_mem (mem_firsts.mpr hg), componentKey_componentOf hkey⟩

end Keys

section Orders

theorem allFindings_perm (h : order.Perm attempts) :
    (allFindings order).Perm (allFindings attempts) := h.flatMap_right _

theorem allComponents_perm (h : order.Perm attempts) :
    (allComponents order).Perm (allComponents attempts) := h.flatMap_right _

/-- What the key of a component decides is counted alike in all orders. -/
theorem countP_components (h : order.Perm attempts) {p : CBOMComponent → Bool}
    (hp : ∀ c ∈ allComponents attempts, ∀ d ∈ allComponents attempts,
      componentKey c = componentKey d → p c = p d) :
    (firsts componentKey (allComponents order)).countP p =
      (firsts componentKey (allComponents attempts)).countP p := by
  have hperm := allComponents_perm h
  have horder : firsts componentKey (allComponents order) ⊆ allComponents attempts :=
    fun c hc => hperm.subset (mem_firsts.mp hc).mem
  have hattempts : firsts componentKey (allComponents attempts) ⊆ allComponents attempts :=
    fun c hc => (mem_firsts.mp hc).mem
  exact countP_of_keys hp horder hattempts (keys_firsts_perm hperm)

/-- Components under one key agree on whether they are safe. -/
def SafetyAgrees (attempts : List Attempt) : Prop :=
  ∀ c ∈ allComponents attempts, ∀ d ∈ allComponents attempts, componentKey c = componentKey d →
    c.quantumSafe = d.quantumSafe ∧ c.pqcStatus = d.pqcStatus

/-- The counts of a summary, less the two that are about the safety of components. -/
def settled (s : ScanSummary) : ScanSummary := { s with quantumSafe := 0, pqcReady := 0 }

theorem settled_perm (h : order.Perm attempts) :
    settled (scanResult scanID startedAt completedAt targets order).summary =
      settled (scanResult scanID startedAt completedAt targets attempts).summary := by
  have hfindings := allFindings_perm h
  have hcomponents : (firsts componentKey (allComponents order)).length =
      (firsts componentKey (allComponents attempts)).length := by
    have hkeys := (@keys_firsts_perm _ _ _ componentKey _ _ (allComponents_perm h)).length_eq
    rwa [List.length_map, List.length_map] at hkeys
  have hrisk := countP_components h
    (p := fun c => decide (c.riskLevel = .critical ∨ c.riskLevel = .high))
    fun c _ d _ hkey => by rw [riskLevel_of_key hkey]
  simp only [summary_scanResult, computeSummary, settled, h.length_eq,
    hfindings.length_eq, hfindings.countP_eq, hcomponents, hrisk]

theorem summary_perm (h : order.Perm attempts) (hsafety : SafetyAgrees attempts) :
    (scanResult scanID startedAt completedAt targets order).summary =
      (scanResult scanID startedAt completedAt targets attempts).summary := by
  have hsettled := @settled_perm scanID startedAt completedAt targets _ _ h
  have hsafe := countP_components h (p := fun c => c.quantumSafe)
    fun c hc d hd hkey => (hsafety c hc d hd hkey).1
  have hready := countP_components h (p := fun c => decide (c.pqcStatus = "pqc_ready"))
    fun c hc d hd hkey => by rw [(hsafety c hc d hd hkey).2]
  simp only [settled, ScanSummary.mk.injEq, and_true] at hsettled
  simp only [summary_scanResult, computeSummary, ScanSummary.mk.injEq] at hsettled ⊢
  exact ⟨hsettled.1, hsettled.2.1, hsettled.2.2.1, hsettled.2.2.2.1, hsettled.2.2.2.2.1,
    hsettled.2.2.2.2.2.1, hsettled.2.2.2.2.2.2.1, hsettled.2.2.2.2.2.2.2.1,
    hsettled.2.2.2.2.2.2.2.2.1, hsettled.2.2.2.2.2.2.2.2.2.1, hsettled.2.2.2.2.2.2.2.2.2.2, hsafe,
    hready⟩

/-- The components of a network target are those of its findings. -/
theorem found_network {fs : List Finding} (ha : isNetwork a.target = true)
    (hfs : a.network = .ok fs) :
    found a = (fs, componentsFromFindings fs) := by
  refine found_eq ?_
  rw [scanTarget, if_pos ha, hfs]
  rfl

end Orders

section Race

def hostOf (label : String) : Target where
  id := label
  host := label
  port := 443
  protocol := "tls"
  label := label
  kind := "website"

/-- The finding about a short RSA key of a certificate. -/
def shortKey (label : String) (bits : Nat) : Finding where
  targetID := label
  targetLabel := label
  host := label
  port := 443
  protocol := "tls"
  findingType := "WEAK_KEY_RSA"
  title := "RSA Key Too Short (" ++ toString bits ++ " bits)"
  description := "RSA-" ++ toString bits ++ " key is cryptographically weak and can be factored with modern hardware. Minimum acceptable is RSA-2048."
  evidence := "Certificate public key: RSA-" ++ toString bits
  severity := .critical
  algorithm := "RSA"
  keyLength := bits
  remediation := "Replace certificate with RSA-3072 or higher (BSI recommends RSA-3072 for post-2022 use)."
  bsiRef := "BSI TR-02102-1, Section 3.5"
  doraRef := "DORA Art. 9(4)(b) – strong authentication"
  eidasRef := "eIDAS 2.0 Annex IV"
  quantumSafe := false

def weak (label : String) (bits : Nat) : Attempt where
  target := hostOf label
  network := .ok [shortKey label bits]
  inventory := .ok ([], [])

def race : List Attempt := [weak "a.example" 1024, weak "b.example" 512]

def outcomeOf (attempts : List Attempt) : ScanResult :=
  scanResult "r-1" 0 1 (race.map Attempt.target) attempts

end Race

end RivicQ.Properties.Completions
