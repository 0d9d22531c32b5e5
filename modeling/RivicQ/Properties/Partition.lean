import RivicQ.Lib.Casing
import RivicQ.Lib.Firsts
import RivicQ.Lib.Framing
import RivicQ.Lib.Groups
import RivicQ.Shared.ContentScan

namespace RivicQ.Properties.Partition

open RivicQ.Lib.GoStrings RivicQ.Lib.Bytes RivicQ.Lib.Casing RivicQ.Lib.Differences
open RivicQ.Lib.Groups RivicQ.Lib.Regexes RivicQ.Lib.Runes RivicQ.Lib.FilePaths
open RivicQ.Shared.GitHubScans RivicQ.Shared.ContentScan

/-- The findings of the first repository of a job. -/
def found {D : Type} (job : GHScanJob D) : List (GHFinding D) :=
  (job.results.head?.map GHScanResult.findings).getD []

/-- Every finding of two jobs is on one side of their comparison, which turns with them. -/
structure Partitions {D : Type} (rules : Rules D) (current previous : GHScanJob D) : Prop where
  left : (compareGHScans rules current previous).new.length +
    (compareGHScans rules current previous).unchanged.length = (found current).length
  right : (compareGHScans rules current previous).resolved.length +
    (compareGHScans rules current previous).unchanged.length = (found previous).length
  turned : (compareGHScans rules previous current).new =
      (compareGHScans rules current previous).resolved ∧
    (compareGHScans rules previous current).resolved = (compareGHScans rules current previous).new
  alone : (compareGHScans rules current current).new = [] ∧
    (compareGHScans rules current current).resolved = []

section Comparing

variable {D : Type} (rules : Rules D) (current previous : GHScanJob D)

def keys (job : GHScanJob D) : List String := (found job).map fun f => rules.findingKey f.detail

theorem keyed_eq (job : GHScanJob D) :
    keyed rules job = lasts ((found job).map fun f => (rules.findingKey f.detail, f)) := by
  unfold keyed found
  cases job.results.head? <;> rfl

theorem nodup_keyed (job : GHScanJob D) : ((keyed rules job).map Prod.fst).Nodup :=
  keyed_eq rules job ▸ nodup_lasts _

theorem length_keyed_iff (job : GHScanJob D) :
    (keyed rules job).length = (found job).length ↔ (keys rules job).Nodup := by
  have hlength : (found job).length =
      ((found job).map fun f => (rules.findingKey f.detail, f)).length := (List.length_map _).symm
  rw [keyed_eq, hlength, length_lasts_iff, List.map_map]
  rfl

/-- The two sides of a comparison count the findings with distinct keys. -/
theorem length_current : (compareGHScans rules current previous).new.length +
    (compareGHScans rules current previous).unchanged.length = (keyed rules current).length := by
  rw [compareGHScans, List.length_map, List.length_map]
  exact length_new_add _ _

theorem length_previous : (compareGHScans rules current previous).resolved.length +
    (compareGHScans rules current previous).unchanged.length = (keyed rules previous).length := by
  rw [compareGHScans, List.length_map, List.length_map]
  have hcomm := length_common_comm (nodup_keyed rules current) (nodup_keyed rules previous)
  unfold common at hcomm
  rw [hcomm]
  exact length_new_add _ _

theorem partitions_iff_nodup : Partitions rules current previous ↔
    (keys rules current).Nodup ∧ (keys rules previous).Nodup := by
  rw [← length_keyed_iff, ← length_keyed_iff, ← length_current rules current previous,
    ← length_previous rules current previous]
  constructor
  · intro h
    exact ⟨h.left, h.right⟩
  · rintro ⟨hcurrent, hprevious⟩
    have hself := congrArg (List.map Prod.snd) (filter_new_self (keyed rules current))
    exact ⟨hcurrent, hprevious, ⟨rfl, rfl⟩, hself, hself⟩

end Comparing

section Keys

variable (u : UnicodeCase) (unmarshal : Unmarshal)

/-- The rules that find something in a file, with the key length that they find. -/
inductive Hits (file : RepoFile) : String → Nat → Prop where
  | crypto {rule : CryptoRule} (hrule : rule ∈ cryptoRules)
      (hpath : isDocumentationPath u.toCaseMap file.path = false)
      (hfind : find rule.re (runes file.content) ≠ none) :
      Hits file rule.ruleID (extractKeyLength u.toCaseMap rule.algorithm file.content)
  | secret {rule : SecretRule} (hrule : rule ∈ secretRules) {m : Match Rune}
      (hfind : find rule.re (runes file.content) = some m)
      (hgenuine : isPlaceholderSecret u.toCaseMap m.text = false) : Hits file rule.ruleID 0
  | advisory (hbase : toLower u.toCaseMap (base file.path) = "package.json")
      {deps : AList fun _ : String => String} (hdeps : unmarshal file.content = some deps)
      {version : String} (hlodash : deps.lookup "lodash" = some version)
      (hversion : trimPrefix version "^" = "4.17.20") :
      Hits file "sca.advisory.cve-2021-23337" 0
  | root (hbase : toLower u.toCaseMap (base file.path) = "dockerfile")
      (hmark : includes file.content "USER root" = true) : Hits file "container.runs-as-root" 0
  | ssh (hbase : toLower u.toCaseMap (base file.path) = "dockerfile")
      (hmark : includes file.content "EXPOSE 22" = true) : Hits file "container.exposes-ssh" 0
  | cidr (hpath : isInfrastructure u.toCaseMap file.path = true)
      (hmark : includes file.content "0.0.0.0/0" = true) : Hits file "iac.open-cidr" 0
  | acl (hpath : isInfrastructure u.toCaseMap file.path = true)
      (hmark : includes file.content "public-read" = true) : Hits file "iac.public-read-acl" 0
  | spec (hpath : isSpecification u.toCaseMap file.path = true) : Hits file "api.spec-discovered" 0
  | schemes (hpath : isSpecification u.toCaseMap file.path = true)
      (hschemes : includes file.content "securitySchemes" = false)
      (hsecurity : includes file.content "security:" = false) :
      Hits file "api.missing-security-schemes" 0

/-- No rule finds the same in two files whose paths differ at most in their case. -/
def Apart (files : List RepoFile) : Prop :=
  files.Pairwise fun a b => toLower u.toCaseMap a.path = toLower u.toCaseMap b.path →
    ∀ id n, ¬ (Hits u unmarshal a id n ∧ Hits u unmarshal b id n)

/-- What tells the rule of a finding. -/
def row (f : Detail) : String × String × String × String :=
  (f.ruleID, f.findingType, f.algorithm, f.cve)

def advisoryRow : String × String × String × String :=
  ("sca.advisory.cve-2021-23337", "SCA", "lodash", "CVE-2021-23337")

def rows : List (String × String × String × String) :=
  cryptoRules.map (fun rule => (rule.ruleID, rule.findingType, rule.algorithm, "")) ++
    secretRules.map (fun rule => (rule.ruleID, "SECRET", rule.kind, "")) ++ [advisoryRow] ++
    [runsAsRoot, exposesSSH].map row ++ [openCIDR, publicReadACL].map row ++
    [specDiscovered, missingSecuritySchemes].map row

theorem nodup_rows : (rows.map Prod.fst).Nodup := by decide

theorem rows_plain : rows.all fun r => r.1.toList.all (fun c => c.toNat < 128 && c != '|') &&
    toLower asciiCase r.1 == r.1 := by decide

/-- What stands between the path and the key length. -/
def middle (f : Detail) : List Char :=
  '|' :: (toUpper u.toCaseMap f.findingType).toList ++ '|' ::
    (toUpper u.toCaseMap f.algorithm).toList ++ '|' :: (toUpper u.toCaseMap f.cve).toList

variable {u unmarshal} {file a b : RepoFile} {files : List RepoFile} {f g : Detail}

theorem toLower_ruleID (h : row f ∈ rows) :
    toLower u.toCaseMap f.ruleID = f.ruleID ∧ '|' ∉ f.ruleID.toList := by
  have hplain := List.all_eq_true.mp rows_plain (row f) h
  rw [Bool.and_eq_true, beq_iff_eq, List.all_eq_true] at hplain
  obtain ⟨hchars, hlower⟩ := hplain
  have hascii : Ascii f.ruleID := by
    intro c hc
    have h := hchars c hc
    rw [Bool.and_eq_true, decide_eq_true_eq] at h
    exact h.1
  refine ⟨(toLower_ascii u hascii).trans hlower, fun hbar => ?_⟩
  have h := hchars '|' hbar
  rw [Bool.and_eq_true] at h
  exact absurd h.2 (by decide)

theorem bar_notMem_toString (n : Nat) : '|' ∉ (toString n).toList := by
  rw [RivicQ.Lib.Numerals.toList_toString]
  intro hmem
  exact absurd (Nat.isDigit_of_mem_toDigits (by omega) (by omega) hmem) (by decide)

theorem toList_fingerprintText (f : Detail) : (fingerprintText u.toCaseMap f).toList =
    (toLower u.toCaseMap f.ruleID).toList ++ '|' :: ((toLower u.toCaseMap f.filePath).toList ++
      middle u f ++ '|' :: (toString f.keyLength).toList) := by
  have htext : fingerprintText u.toCaseMap f = toLower u.toCaseMap f.ruleID ++ "|" ++
      toLower u.toCaseMap f.filePath ++ "|" ++ toUpper u.toCaseMap f.findingType ++ "|" ++
      toUpper u.toCaseMap f.algorithm ++ "|" ++ toUpper u.toCaseMap f.cve ++ "|" ++
      toString f.keyLength := rfl
  have hbar : "|".toList = ['|'] := rfl
  rw [htext]
  simp only [String.toList_append, hbar, middle, List.append_assoc, List.cons_append,
    List.nil_append]

/-- The texts of two findings are one if a rule makes them of paths that differ at most in
their case, with one key length. -/
theorem fingerprintText_inj (hf : row f ∈ rows) (hg : row g ∈ rows) :
    fingerprintText u.toCaseMap f = fingerprintText u.toCaseMap g ↔
      f.ruleID = g.ruleID ∧ toLower u.toCaseMap f.filePath = toLower u.toCaseMap g.filePath ∧
        f.keyLength = g.keyLength := by
  have hsame : f.ruleID = g.ruleID → row f = row g := fun hid =>
    List.inj_on_of_nodup_map nodup_rows hf hg hid
  obtain ⟨hflower, hfbar⟩ := toLower_ruleID (u := u) hf
  obtain ⟨hglower, hgbar⟩ := toLower_ruleID (u := u) hg
  constructor
  · intro h
    replace h := congrArg String.toList h
    rw [toList_fingerprintText, toList_fingerprintText, hflower, hglower] at h
    obtain ⟨hid, hrest⟩ := RivicQ.Lib.Framing.append_cons_inj hfbar hgbar h
    replace hid := String.toList_injective hid
    have hrow := hsame hid
    simp only [row, Prod.mk.injEq] at hrow
    obtain ⟨-, htype, halgorithm, hcve⟩ := hrow
    have hmiddle : middle u f = middle u g := by
      rw [middle, htype, halgorithm, hcve, middle]
    obtain ⟨hpath, hlength⟩ := RivicQ.Lib.Framing.append_cons_inj_right
      (bar_notMem_toString f.keyLength) (bar_notMem_toString g.keyLength) hrest
    rw [hmiddle] at hpath
    exact ⟨hid, String.toList_injective (List.append_cancel_right hpath),
      RivicQ.Lib.Numerals.toString_inj.mp (String.toList_injective hlength)⟩
  · rintro ⟨hid, hpath, hlength⟩
    have hrow := hsame hid
    simp only [row, Prod.mk.injEq] at hrow
    obtain ⟨-, htype, halgorithm, hcve⟩ := hrow
    rw [fingerprintText, hid, hpath, htype, halgorithm, hcve, hlength, fingerprintText]

theorem lodash_of_lookup {name version cve : String}
    (h : knownAdvisories.lookup ("npm" ++ ":" ++ name ++ ":" ++ version) = some cve) :
    name = "lodash" ∧ version = "4.17.20" ∧ cve = "CVE-2021-23337" := by
  have hmem := RivicQ.Lib.Tables.mem_of_lookup h
  obtain ⟨hkey, hcve⟩ := Prod.mk.inj (List.mem_singleton.mp hmem)
  have hcolon : ":".toList = [':'] := rfl
  have hwhole : "npm:lodash:4.17.20".toList =
      ("npm".toList ++ [':']) ++ ("lodash".toList ++ ':' :: "4.17.20".toList) := by decide
  replace hkey := congrArg String.toList hkey
  rw [hwhole] at hkey
  simp only [String.toList_append, hcolon] at hkey
  rw [List.append_assoc, List.append_assoc, List.singleton_append] at hkey
  have hlist := List.append_cancel_left hkey
  -- there is only one colon to cut at
  have hcount := congrArg (List.count ':') hlist
  rw [List.count_append, List.count_cons_self] at hcount
  have hname : ':' ∉ name.toList := by
    rw [← List.count_eq_zero]
    have hone : List.count ':' ("lodash".toList ++ ':' :: "4.17.20".toList) = 1 := by decide
    omega
  obtain ⟨hn, hv⟩ := RivicQ.Lib.Framing.append_cons_inj hname (by decide) hlist
  exact ⟨String.toList_injective hn, String.toList_injective hv, hcve⟩

theorem scaAdvisory_dependency {path : String} {e : (_ : String) × String}
    (h : scaAdvisory u.toCaseMap path ⟨e.1, trimPrefix e.2 "^", "npm"⟩ = some f) :
    e.1 = "lodash" ∧ trimPrefix e.2 "^" = "4.17.20" ∧ row f = advisoryRow ∧ f.filePath = path ∧
      f.keyLength = 0 := by
  obtain ⟨cve, hlookup, hpath, hid, htype, halgorithm, hcve, hlength⟩ := scaAdvisory_eq_some h
  obtain ⟨hname, hversion, rfl⟩ := lodash_of_lookup hlookup
  have hlower : toLower u.toCaseMap "CVE-2021-23337" = "cve-2021-23337" :=
    toLower_ascii u (by decide)
  rw [hlower] at hid
  refine ⟨hname, hversion, ?_, hpath, hlength⟩
  rw [row, hid, htype, halgorithm, hcve]
  exact congrArg (fun name => ("sca.advisory.cve-2021-23337", "SCA", name, "CVE-2021-23337")) hname

theorem mem_manifest (h : f ∈ manifestFindings u.toCaseMap unmarshal file) :
    ∃ deps, unmarshal file.content = some deps ∧ ∃ e ∈ deps.entries,
      scaAdvisory u.toCaseMap file.path ⟨e.1, trimPrefix e.2 "^", "npm"⟩ = some f := by
  obtain ⟨-, c, hc, hf⟩ := mem_manifestFindings h
  unfold parseNPMDependencies at hc
  cases hdeps : unmarshal file.content with
  | none =>
    rw [hdeps] at hc
    cases hc
  | some deps =>
    rw [hdeps] at hc
    obtain ⟨e, he, rfl⟩ := List.mem_map.mp hc
    exact ⟨deps, rfl, e, he, hf⟩

/-- The names of the dependencies are distinct, so that at most one of them is known. -/
theorem manifest_sublist :
    ((manifestFindings u.toCaseMap unmarshal file).map row).Sublist [advisoryRow] := by
  have hrow : ∀ f ∈ manifestFindings u.toCaseMap unmarshal file, row f = advisoryRow := by
    intro f hf
    obtain ⟨deps, -, e, -, he⟩ := mem_manifest hf
    exact (scaAdvisory_dependency he).2.2.1
  have hnodup : ((manifestFindings u.toCaseMap unmarshal file).map Detail.algorithm).Nodup := by
    unfold manifestFindings parseNPMDependencies scaAdvisories
    split
    · cases unmarshal file.content with
      | none => exact .nil
      | some deps =>
        have hlabel : ∀ c f, scaAdvisory u.toCaseMap file.path c = some f →
            f.algorithm = c.name := by
          intro c f hf
          obtain ⟨-, -, -, -, -, halgorithm, -⟩ := scaAdvisory_eq_some hf
          exact halgorithm
        have hsub := map_filterMap_sublist hlabel
          (deps.entries.map fun e => ⟨e.1, trimPrefix e.2 "^", "npm"⟩)
        rw [List.map_map] at hsub
        exact hsub.nodup deps.nodupKeys
    · exact .nil
  generalize manifestFindings u.toCaseMap unmarshal file = fs at hrow hnodup
  match fs with
  | [] => exact (List.nil_sublist _)
  | [f] => exact hrow f List.mem_cons_self ▸ List.Sublist.refl _
  | f :: g :: fs =>
    have hf := hrow f List.mem_cons_self
    have hg := hrow g (List.mem_cons_of_mem _ List.mem_cons_self)
    have hsame : f.algorithm = g.algorithm := by
      have h := hf.trans hg.symm
      simp only [row, Prod.mk.injEq] at h
      exact h.2.2.1
    rw [List.map_cons, List.map_cons, hsame] at hnodup
    exact absurd List.mem_cons_self (List.nodup_cons.mp hnodup).1

theorem toList_map_sublist {o : Option Detail} {r : String × String × String × String}
    (h : ∀ f, o = some f → row f = r) : (o.toList.map row).Sublist [r] := by
  cases o with
  | none => exact List.nil_sublist _
  | some f => exact h f rfl ▸ List.Sublist.refl _

theorem marked_sublist (mark : String) (d : Detail) :
    ((marked file mark d).toList.map row).Sublist [row d] := by
  apply toList_map_sublist
  intro f hf
  obtain ⟨-, -, hid, htype, halgorithm, hcve, -⟩ := marked_eq_some hf
  rw [row, hid, htype, halgorithm, hcve, row]

theorem container_sublist : ((containerFindings u.toCaseMap file).map row).Sublist
    ([runsAsRoot, exposesSSH].map row) := by
  unfold containerFindings
  split
  · rw [List.map_append]
    exact (marked_sublist "USER root" runsAsRoot).append (marked_sublist "EXPOSE 22" exposesSSH)
  · exact List.nil_sublist _

theorem infrastructure_sublist : ((infrastructureFindings u.toCaseMap file).map row).Sublist
    ([openCIDR, publicReadACL].map row) := by
  unfold infrastructureFindings
  split
  · rw [List.map_append]
    exact (marked_sublist "0.0.0.0/0" openCIDR).append (marked_sublist "public-read" publicReadACL)
  · exact List.nil_sublist _

theorem specification_sublist : ((specificationFindings u.toCaseMap file).map row).Sublist
    ([specDiscovered, missingSecuritySchemes].map row) := by
  unfold specificationFindings
  split
  · split
    · exact List.Sublist.refl _
    · exact (List.nil_sublist [row missingSecuritySchemes]).cons_cons (row specDiscovered)
  · exact List.nil_sublist _

/-- Each rule finds at most one thing in a file, in the order of the rules. -/
theorem fileFindings_sublist :
    ((fileFindings u.toCaseMap unmarshal file).map row).Sublist rows := by
  have hcrypto : ((cryptoRules.filterMap (cryptoFinding u.toCaseMap file)).map row).Sublist
      (cryptoRules.map fun rule => (rule.ruleID, rule.findingType, rule.algorithm, "")) := by
    apply map_filterMap_sublist
    intro rule f hf
    obtain ⟨-, -, -, hid, htype, halgorithm, hcve, -⟩ := cryptoFinding_eq_some hf
    rw [row, hid, htype, halgorithm, hcve]
  have hsecret : ((secretRules.filterMap (secretFinding u.toCaseMap file)).map row).Sublist
      (secretRules.map fun rule => (rule.ruleID, "SECRET", rule.kind, "")) := by
    apply map_filterMap_sublist
    intro rule f hf
    obtain ⟨-, -, hid, htype, halgorithm, hcve, -⟩ := secretFinding_eq_some hf
    rw [row, hid, htype, halgorithm, hcve]
  unfold fileFindings rows
  rw [List.map_append, List.map_append, List.map_append, List.map_append, List.map_append]
  exact ((((hcrypto.append hsecret).append manifest_sublist).append container_sublist).append
    infrastructure_sublist).append specification_sublist

theorem row_mem (h : f ∈ fileFindings u.toCaseMap unmarshal file) : row f ∈ rows :=
  fileFindings_sublist.subset (List.mem_map_of_mem h)

theorem pairwise_file : (fileFindings u.toCaseMap unmarshal file).Pairwise fun f g =>
    fingerprintText u.toCaseMap f ≠ fingerprintText u.toCaseMap g := by
  have hids := (@fileFindings_sublist u unmarshal file).map Prod.fst
  have hnodup := hids.nodup nodup_rows
  rw [List.map_map, List.nodup_iff_pairwise_ne, List.pairwise_map] at hnodup
  refine hnodup.imp_of_mem fun hf hg hne htext => hne ?_
  exact ((fingerprintText_inj (row_mem hf) (row_mem hg)).mp htext).1

theorem hits_of_mem (h : f ∈ fileFindings u.toCaseMap unmarshal file) :
    f.filePath = file.path ∧ Hits u unmarshal file f.ruleID f.keyLength := by
  obtain ⟨rule, hrule, hf⟩ | ⟨rule, hrule, hf⟩ | hf | hf | hf | hf := mem_fileFindings.mp h
  · obtain ⟨hpath, hfind, hfile, hid, -, -, -, hlength⟩ := cryptoFinding_eq_some hf
    exact ⟨hfile, hid ▸ hlength ▸ .crypto hrule hpath hfind⟩
  · obtain ⟨⟨m, hm, hgenuine⟩, hfile, hid, -, -, -, hlength⟩ := secretFinding_eq_some hf
    exact ⟨hfile, hid ▸ hlength ▸ .secret hrule hm hgenuine⟩
  · obtain ⟨deps, hdeps, e, he, hf'⟩ := mem_manifest hf
    obtain ⟨hname, hversion, hrow, hfile, hlength⟩ := scaAdvisory_dependency hf'
    have hid : f.ruleID = "sca.advisory.cve-2021-23337" := congrArg Prod.fst hrow
    have hlodash : deps.lookup "lodash" = some e.2 := hname ▸ AList.mem_lookup_iff.mpr he
    exact ⟨hfile, hid ▸ hlength ▸
      .advisory (mem_manifestFindings hf).1 hdeps hlodash hversion⟩
  · obtain ⟨hbase, hf | hf⟩ := mem_containerFindings hf
    · obtain ⟨hmark, hfile, hid, -, -, -, hlength⟩ := marked_eq_some hf
      exact ⟨hfile, hid ▸ hlength ▸ .root hbase hmark⟩
    · obtain ⟨hmark, hfile, hid, -, -, -, hlength⟩ := marked_eq_some hf
      exact ⟨hfile, hid ▸ hlength ▸ .ssh hbase hmark⟩
  · obtain ⟨hpath, hf | hf⟩ := mem_infrastructureFindings hf
    · obtain ⟨hmark, hfile, hid, -, -, -, hlength⟩ := marked_eq_some hf
      exact ⟨hfile, hid ▸ hlength ▸ .cidr hpath hmark⟩
    · obtain ⟨hmark, hfile, hid, -, -, -, hlength⟩ := marked_eq_some hf
      exact ⟨hfile, hid ▸ hlength ▸ .acl hpath hmark⟩
  · obtain ⟨hpath, rfl | ⟨⟨hschemes, hsecurity⟩, rfl⟩⟩ := mem_specificationFindings hf
    · exact ⟨rfl, .spec hpath⟩
    · exact ⟨rfl, .schemes hpath hschemes hsecurity⟩

theorem exists_of_marked {mark : String} {d : Detail} {P : Detail → Prop}
    (h : includes file.content mark = true) (hP : ∀ f, marked file mark d = some f → P f) :
    ∃ f, P f ∧ f.ruleID = d.ruleID ∧ f.keyLength = d.keyLength := by
  obtain ⟨before, hbefore⟩ := Option.isSome_iff_exists.mp h
  have hf := congrArg (Option.map fun before =>
    { d with filePath := file.path, lineNumber := lineOf before }) hbefore
  exact ⟨_, hP _ hf, rfl, rfl⟩

theorem mem_of_hits {id : String} {n : Nat} (h : Hits u unmarshal file id n) :
    ∃ f ∈ fileFindings u.toCaseMap unmarshal file, f.ruleID = id ∧ f.keyLength = n := by
  simp only [mem_fileFindings]
  cases h with
  | @crypto rule hrule hpath hfind =>
    obtain ⟨m, hm⟩ := Option.ne_none_iff_exists'.mp hfind
    obtain ⟨f, hf⟩ : ∃ f, cryptoFinding u.toCaseMap file rule = some f := by
      apply Option.isSome_iff_exists.mp
      rw [cryptoFinding, hpath, if_neg Bool.false_ne_true, hm, Option.isSome_some]
    obtain ⟨-, -, -, hid, -, -, -, hlength⟩ := cryptoFinding_eq_some hf
    exact ⟨f, .inl ⟨rule, hrule, hf⟩, hid, hlength⟩
  | @secret rule hrule m hfind hgenuine =>
    obtain ⟨f, hf⟩ : ∃ f, secretFinding u.toCaseMap file rule = some f := by
      apply Option.isSome_iff_exists.mp
      have hnot := Bool.eq_false_iff.mp hgenuine
      rw [secretFinding, hfind]
      simp only [if_neg hnot, Option.isSome_some]
    obtain ⟨-, -, hid, -, -, -, hlength⟩ := secretFinding_eq_some hf
    exact ⟨f, .inr (.inl ⟨rule, hrule, hf⟩), hid, hlength⟩
  | @advisory hbase deps hdeps version hlodash hversion =>
    obtain ⟨f, hf⟩ : ∃ f, scaAdvisory u.toCaseMap file.path
        ⟨"lodash", trimPrefix version "^", "npm"⟩ = some f := by
      apply Option.isSome_iff_exists.mp
      rw [scaAdvisory, hversion, Option.isSome_map]
      decide
    have hmem : f ∈ manifestFindings u.toCaseMap unmarshal file := by
      rw [manifestFindings, if_pos hbase, scaAdvisories, parseNPMDependencies, hdeps]
      exact List.mem_filterMap.mpr ⟨_, List.mem_map.mpr ⟨⟨"lodash", version⟩,
        AList.mem_lookup_iff.mp hlodash, rfl⟩, hf⟩
    obtain ⟨-, -, hrow, -, hlength⟩ := scaAdvisory_dependency (e := ⟨"lodash", version⟩) hf
    exact ⟨f, .inr (.inr (.inl hmem)), congrArg Prod.fst hrow, hlength⟩
  | root hbase hmark =>
    refine exists_of_marked (d := runsAsRoot) hmark fun f hf => .inr (.inr (.inr (.inl ?_)))
    rw [containerFindings, if_pos hbase]
    exact List.mem_append_left _ (Option.mem_toList.mpr hf)
  | ssh hbase hmark =>
    refine exists_of_marked (d := exposesSSH) hmark fun f hf => .inr (.inr (.inr (.inl ?_)))
    rw [containerFindings, if_pos hbase]
    exact List.mem_append_right _ (Option.mem_toList.mpr hf)
  | cidr hpath hmark =>
    refine exists_of_marked (d := openCIDR) hmark fun f hf => .inr (.inr (.inr (.inr (.inl ?_))))
    rw [infrastructureFindings, if_pos hpath]
    exact List.mem_append_left _ (Option.mem_toList.mpr hf)
  | acl hpath hmark =>
    refine exists_of_marked (d := publicReadACL) hmark
      fun f hf => .inr (.inr (.inr (.inr (.inl ?_))))
    rw [infrastructureFindings, if_pos hpath]
    exact List.mem_append_right _ (Option.mem_toList.mpr hf)
  | spec hpath =>
    refine ⟨{ specDiscovered with filePath := file.path },
      .inr (.inr (.inr (.inr (.inr ?_)))), rfl, rfl⟩
    rw [specificationFindings, if_pos hpath]
    exact List.mem_cons_self
  | schemes hpath hschemes hsecurity =>
    refine ⟨{ missingSecuritySchemes with filePath := file.path },
      .inr (.inr (.inr (.inr (.inr ?_)))), rfl, rfl⟩
    rw [specificationFindings, if_pos hpath, hschemes, hsecurity]
    exact List.mem_cons_of_mem _ List.mem_cons_self

theorem apart_iff : Apart u unmarshal files ↔
    ((files.flatMap (fileFindings u.toCaseMap unmarshal)).map
      (fingerprintText u.toCaseMap)).Nodup := by
  rw [List.nodup_iff_pairwise_ne, List.pairwise_map, List.pairwise_flatMap]
  have hinside : ∀ file ∈ files, (fileFindings u.toCaseMap unmarshal file).Pairwise fun f g =>
      fingerprintText u.toCaseMap f ≠ fingerprintText u.toCaseMap g := fun _ _ => pairwise_file
  rw [and_iff_right hinside, Apart]
  apply List.Pairwise.iff
  intro a b
  constructor
  · intro h f hf g hg htext
    obtain ⟨hid, hpath, hlength⟩ := (fingerprintText_inj (row_mem hf) (row_mem hg)).mp htext
    obtain ⟨hfpath, hfhits⟩ := hits_of_mem hf
    obtain ⟨hgpath, hghits⟩ := hits_of_mem hg
    rw [hfpath, hgpath] at hpath
    exact h hpath _ _ ⟨hfhits, hid ▸ hlength ▸ hghits⟩
  · rintro h hpath id n ⟨ha, hb⟩
    obtain ⟨f, hf, hfid, hflength⟩ := mem_of_hits ha
    obtain ⟨g, hg, hgid, hglength⟩ := mem_of_hits hb
    apply h f hf g hg
    apply (fingerprintText_inj (row_mem hf) (row_mem hg)).mpr
    rw [(hits_of_mem hf).1, (hits_of_mem hg).1]
    exact ⟨hfid.trans hgid.symm, hpath, hflength.trans hglength.symm⟩

theorem findingKey_stamp {cm : CaseMap} {digest : Digest} (f : Detail) :
    findingKey cm digest (stamp cm digest f) = digest (fingerprintText cm f) := by
  unfold findingKey
  split <;> rfl

/-- The keys of the findings of a list of files are distinct if the files are apart. -/
theorem nodup_keys_iff {digest : Digest} (hdigest : Function.Injective digest)
    {loaded : List RepoFile} {id repo : String} {demo : Bool} {job : GHScanJob Detail}
    (hjob : job.results.head? = some (analyzeRepositoryFiles
      (contentRules u.toCaseMap unmarshal digest loaded) id repo files demo)) :
    (keys (contentRules u.toCaseMap unmarshal digest loaded) job).Nodup ↔
      Apart u unmarshal files := by
  have hkeys : keys (contentRules u.toCaseMap unmarshal digest loaded) job =
      (detect u.toCaseMap unmarshal digest files).map (findingKey u.toCaseMap digest) := by
    rw [keys, found, hjob, Option.map_some, Option.getD_some, analyzeRepositoryFiles, List.map_map]
    rfl
  have hperm := (List.mergeSort_perm ((files.flatMap (fileFindings u.toCaseMap unmarshal)).map
    (stamp u.toCaseMap digest)) fun a b => !precedes b a).map (findingKey u.toCaseMap digest)
  rw [hkeys, detect, sortFindings, hperm.nodup_iff, List.map_map, apart_iff]
  have hfun : findingKey u.toCaseMap digest ∘ stamp u.toCaseMap digest =
      digest ∘ fingerprintText u.toCaseMap := funext findingKey_stamp
  rw [hfun, ← List.map_map]
  exact List.nodup_map_iff hdigest

/-- The comparison of two scans partitions their findings exactly if in each of them no rule
finds the same in two files whose paths differ at most in their case. -/
theorem partitions_iff (u : UnicodeCase) (unmarshal : Unmarshal) {digest : Digest}
    (hdigest : Function.Injective digest) (loaded : List RepoFile)
    {id id' repo repo' : String} {files files' : List RepoFile} {demo demo' : Bool}
    {current previous : GHScanJob Detail}
    (hcurrent : current.results.head? = some (analyzeRepositoryFiles
      (contentRules u.toCaseMap unmarshal digest loaded) id repo files demo))
    (hprevious : previous.results.head? = some (analyzeRepositoryFiles
      (contentRules u.toCaseMap unmarshal digest loaded) id' repo' files' demo')) :
    Partitions (contentRules u.toCaseMap unmarshal digest loaded) current previous ↔
      Apart u unmarshal files ∧ Apart u unmarshal files' := by
  rw [partitions_iff_nodup, nodup_keys_iff hdigest hcurrent, nodup_keys_iff hdigest hprevious]

end Keys

def rulesOf : Rules Detail := contentRules asciiTables.toCaseMap (fun _ => none) id []

def jobOf (files : List RepoFile) : GHScanJob Detail where
  id := "scan"
  tenantID := "public"
  status := "completed"
  stage := "completed"
  results := [analyzeRepositoryFiles rulesOf "" "acme/app" files false]

def document (path : String) : RepoFile where
  path
  content := ascii "security: []"

theorem partitions_document :
    Partitions rulesOf (jobOf [document "docs/openapi.yaml"]) (jobOf []) :=
  (partitions_iff asciiTables (fun _ => none) Function.injective_id [] rfl rfl).mpr
    ⟨List.pairwise_singleton _ _, List.Pairwise.nil⟩

/-- Two files whose paths differ in their case. -/
def documents : List RepoFile := [document "docs/openapi.yaml", document "Docs/openapi.yaml"]

theorem documents_not_apart : ¬ Apart asciiTables (fun _ => none) documents := by
  intro h
  have hpair := (List.pairwise_cons.mp h).1 _ List.mem_cons_self
  exact hpair (by decide) "api.spec-discovered" 0 ⟨.spec (by decide), .spec (by decide)⟩

theorem documents_collide : (documents.map RepoFile.path).Nodup ∧
    ¬ Partitions rulesOf (jobOf documents) (jobOf []) := by
  refine ⟨by decide, fun h => ?_⟩
  have hkeys := ((partitions_iff_nodup rulesOf (jobOf documents) (jobOf [])).mp h).1
  exact documents_not_apart ((nodup_keys_iff Function.injective_id rfl).mp hkeys)

end RivicQ.Properties.Partition
