import Mathlib.Data.List.Dedup
import Mathlib.Data.Prod.Lex
import Mathlib.Data.String.Basic
import RivicQ.Lib.Framing
import RivicQ.Lib.Groups
import RivicQ.Lib.Firsts
import RivicQ.Shared.ContentScan

namespace RivicQ.Properties.FileOrders

open RivicQ.Lib.GoStrings RivicQ.Lib.Bytes RivicQ.Lib.Framing RivicQ.Lib.Groups RivicQ.Lib.Sortings
open RivicQ.Lib.Tables
open RivicQ.Shared.GitHubScans RivicQ.Shared.ContentScan

/-- The same maps are read, but gone through in another order. -/
def Reordered (unmarshal unmarshal' : Unmarshal) : Prop :=
  ∀ content, Option.Rel (fun t t' => t.entries.Perm t'.entries) (unmarshal content)
    (unmarshal' content)

/-- What findings are sorted by. -/
def sortKey (f : Detail) : String ×ₗ ℕ ×ₗ String ×ₗ String :=
  toLex (f.filePath, toLex (f.lineNumber, toLex (f.ruleID, f.algorithm)))

theorem precedes_iff {a b : Detail} : precedes a b = true ↔ sortKey a < sortKey b := by
  unfold precedes sortKey
  simp only [Prod.Lex.toLex_lt_toLex]
  split_ifs with hpath hline hrule <;> simp_all

theorem not_precedes {a b : Detail} : (!precedes b a) = true ↔ sortKey a ≤ sortKey b := by
  rw [Bool.not_eq_true', ← Bool.not_eq_true, precedes_iff, not_lt]

/-- Findings of different keys can be sorted in one way only. -/
theorem sortFindings_unique {fs fs' : List Detail} (hperm : fs.Perm fs')
    (hkey : ∀ a ∈ fs, ∀ b ∈ fs, sortKey a = sortKey b → a = b) :
    sortFindings fs = sortFindings fs' := by
  have hsorted : ∀ fs : List Detail, (sortFindings fs).Pairwise
      fun a b => sortKey a ≤ sortKey b := by
    intro fs
    refine (List.pairwise_mergeSort (fun a b c hab hbc => ?_) (fun a b => ?_) fs).imp
      fun {a b} => not_precedes.mp
    · exact not_precedes.mpr ((not_precedes.mp hab).trans (not_precedes.mp hbc))
    · rw [Bool.or_eq_true, not_precedes, not_precedes]
      exact le_total _ _
  have hmem : (sortFindings fs).Perm fs := List.mergeSort_perm _ _
  have hmem' : (sortFindings fs').Perm fs' := List.mergeSort_perm _ _
  refine List.Perm.eq_of_pairwise (fun a b ha hb hab hba => ?_) (hsorted fs) (hsorted fs')
    (hmem.trans (hperm.trans hmem'.symm))
  exact hkey a (hmem.subset ha) b (hperm.symm.subset (hmem'.subset hb)) (le_antisymm hab hba)

section Rules

variable {cm : CaseMap} {unmarshal unmarshal' : Unmarshal} {file : RepoFile} {f : Detail}

/-- The ids of the rules for the contents of containers, infrastructure and specifications. -/
def markIDs : List String :=
  [runsAsRoot.ruleID, exposesSSH.ruleID, openCIDR.ruleID, publicReadACL.ruleID,
    specDiscovered.ruleID, missingSecuritySchemes.ruleID]

theorem map_marked {mark : String} {d : Detail} :
    ((marked file mark d).toList.map Detail.ruleID).Sublist [d.ruleID] := by
  unfold marked
  cases index (ascii mark) file.content with
  | none => exact List.nil_sublist _
  | some before => exact List.Sublist.refl _

theorem map_marks : ((containerFindings cm file ++ infrastructureFindings cm file ++
    specificationFindings cm file).map Detail.ruleID).Sublist markIDs := by
  have hcontainer : ((containerFindings cm file).map Detail.ruleID).Sublist
      ([runsAsRoot.ruleID] ++ [exposesSSH.ruleID]) := by
    unfold containerFindings
    split
    · rw [List.map_append]
      exact map_marked.append map_marked
    · exact List.nil_sublist _
  have hinfrastructure : ((infrastructureFindings cm file).map Detail.ruleID).Sublist
      ([openCIDR.ruleID] ++ [publicReadACL.ruleID]) := by
    unfold infrastructureFindings
    split
    · rw [List.map_append]
      exact map_marked.append map_marked
    · exact List.nil_sublist _
  have hspecification : ((specificationFindings cm file).map Detail.ruleID).Sublist
      [specDiscovered.ruleID, missingSecuritySchemes.ruleID] := by
    unfold specificationFindings
    split
    · split
      · exact List.Sublist.refl _
      · exact (List.nil_sublist _).cons_cons _
    · exact List.nil_sublist _
  rw [List.map_append, List.map_append]
  exact (hcontainer.append hinfrastructure).append hspecification

/-- Of a map of dependencies one entry matches an advisory at most. -/
theorem name_of_advisory {name version cve : String}
    (h : knownAdvisories.lookup ("npm" ++ ":" ++ name ++ ":" ++ version) = some cve) :
    name = "lodash" ∧ cve = "CVE-2021-23337" := by
  obtain ⟨hkey, hcve⟩ := Prod.mk.inj (List.mem_singleton.mp (mem_of_lookup h))
  refine ⟨?_, hcve⟩
  replace hkey := congrArg String.toList hkey
  simp only [String.toList_append] at hkey
  have hsplit : name.toList ++ ':' :: version.toList =
      "lodash".toList ++ ':' :: "4.17.20".toList := by
    rw [List.append_assoc, List.append_assoc] at hkey
    exact @List.append_cancel_left _ "npm:".toList _ _ hkey
  have hcount := congrArg (List.count ':') hsplit
  rw [List.count_append, List.count_cons_self] at hcount
  have hname : ':' ∉ name.toList := by
    rw [← List.count_eq_zero]
    have hone : List.count ':' ("lodash".toList ++ ':' :: "4.17.20".toList) = 1 := by decide
    omega
  exact String.toList_inj.mp (append_cons_inj hname (by decide) hsplit).1

theorem manifest_advisory (h : f ∈ manifestFindings cm unmarshal file) :
    f.algorithm = "lodash" ∧ f.ruleID = "sca.advisory." ++ toLower cm "CVE-2021-23337" := by
  obtain ⟨-, c, hc, hf⟩ := mem_manifestFindings h
  obtain ⟨cve, hcve, -, hid, -, hname, -⟩ := scaAdvisory_eq_some hf
  unfold parseNPMDependencies at hc
  split at hc
  · cases hc
  · obtain ⟨e, -, rfl⟩ := List.mem_map.mp hc
    obtain ⟨hlodash, rfl⟩ := name_of_advisory hcve
    exact ⟨hname.trans hlodash, hid⟩

theorem nodup_manifest : ((manifestFindings cm unmarshal file).map Detail.algorithm).Nodup := by
  unfold manifestFindings scaAdvisories parseNPMDependencies
  split
  · split
    · exact List.nodup_nil
    · next deps _ =>
      have hlabel : ∀ c f, scaAdvisory cm file.path c = some f → f.algorithm = c.name := by
        intro c f hf
        obtain ⟨-, -, -, -, -, hname, -⟩ := scaAdvisory_eq_some hf
        exact hname
      refine (map_filterMap_sublist hlabel _).nodup ?_
      rw [List.map_map]
      exact deps.nodupKeys
  · exact List.nodup_nil

theorem sublist_singleton {A : Type} {a : A} {as : List A} (hnodup : as.Nodup)
    (h : ∀ b ∈ as, b = a) : as.Sublist [a] := by
  cases as with
  | nil => exact List.nil_sublist _
  | cons b bs =>
    obtain rfl := h b List.mem_cons_self
    cases bs with
    | nil => exact List.Sublist.refl _
    | cons c cs =>
      obtain rfl := h c (List.mem_cons_of_mem _ List.mem_cons_self)
      exact absurd List.mem_cons_self (List.nodup_cons.mp hnodup).1

theorem map_manifest : ((manifestFindings cm unmarshal file).map Detail.ruleID).Sublist
    ["sca.advisory." ++ toLower cm "CVE-2021-23337"] := by
  have hone : (manifestFindings cm unmarshal file).length ≤ 1 := by
    have hnames :
        ((manifestFindings cm unmarshal file).map Detail.algorithm).Sublist ["lodash"] := by
      refine sublist_singleton nodup_manifest fun name hname => ?_
      obtain ⟨f, hf, rfl⟩ := List.mem_map.mp hname
      exact (manifest_advisory hf).1
    simpa only [List.length_map, List.length_singleton] using hnames.length_le
  cases hfound : manifestFindings cm unmarshal file with
  | nil => exact List.nil_sublist _
  | cons f fs =>
    rw [hfound, List.length_cons] at hone
    obtain rfl := List.length_eq_zero_iff.mp (Nat.le_zero.mp (Nat.le_of_succ_le_succ hone))
    have hid := (manifest_advisory (hfound ▸ List.mem_singleton_self f)).2
    rw [List.map_singleton, hid]

theorem nodup_ids {id : String} :
    (cryptoRules.map CryptoRule.ruleID ++ secretRules.map SecretRule.ruleID ++
      (("sca.advisory." ++ id) :: markIDs)).Nodup := by
  rw [List.nodup_middle, List.nodup_cons]
  refine ⟨fun h => ?_, by decide⟩
  have hmarked : (cryptoRules.map CryptoRule.ruleID ++ secretRules.map SecretRule.ruleID ++
      markIDs).all fun id => !hasPrefix id "sca.advisory." := by decide
  have hfront := List.all_eq_true.mp hmarked _ h
  rw [Bool.not_eq_true', ← Bool.not_eq_true] at hfront
  exact hfront (by simp [hasPrefix])

/-- No rule makes two findings in one file. -/
theorem nodup_fileFindings : ((fileFindings cm unmarshal file).map Detail.ruleID).Nodup := by
  have hcrypto : ((cryptoRules.filterMap (cryptoFinding cm file)).map Detail.ruleID).Sublist
      (cryptoRules.map CryptoRule.ruleID) :=
    map_filterMap_sublist (fun rule f hf => (cryptoFinding_eq_some hf).2.2.2.1) _
  have hsecret : ((secretRules.filterMap (secretFinding cm file)).map Detail.ruleID).Sublist
      (secretRules.map SecretRule.ruleID) :=
    map_filterMap_sublist (fun rule f hf => (secretFinding_eq_some hf).2.2.1) _
  have hmanifest : ((manifestFindings cm unmarshal file).map Detail.ruleID).Sublist
      ["sca.advisory." ++ toLower cm "CVE-2021-23337"] := map_manifest
  have hmarks : ((containerFindings cm file ++ infrastructureFindings cm file ++
      specificationFindings cm file).map Detail.ruleID).Sublist markIDs := map_marks
  have hall := (hcrypto.append hsecret).append
    (hmanifest.append hmarks)
  have hnodup := hall.nodup nodup_ids
  simpa only [fileFindings, List.map_append, List.append_assoc] using hnodup

theorem filePath_of_mem (h : f ∈ fileFindings cm unmarshal file) : f.filePath = file.path := by
  obtain ⟨rule, -, hf⟩ | ⟨rule, -, hf⟩ | hf | ⟨d, -, hpath, -⟩ := fileFindings_cases h
  · exact (cryptoFinding_eq_some hf).2.2.1
  · exact (secretFinding_eq_some hf).2.1
  · obtain ⟨-, c, -, hc⟩ := mem_manifestFindings hf
    obtain ⟨cve, -, hpath, -⟩ := scaAdvisory_eq_some hc
    exact hpath
  · exact hpath

/-- The order of a map is that of the advisories, whatever it is. -/
theorem fileFindings_perm (h : Reordered unmarshal unmarshal') :
    (fileFindings cm unmarshal file).Perm (fileFindings cm unmarshal' file) := by
  have hcomponents : (parseNPMDependencies unmarshal file.content).Perm
      (parseNPMDependencies unmarshal' file.content) := by
    have hread := h file.content
    unfold parseNPMDependencies
    generalize unmarshal file.content = deps at hread
    generalize unmarshal' file.content = deps' at hread
    cases hread with
    | none => exact .refl _
    | some hentries => exact hentries.map _
  have hmanifest : (manifestFindings cm unmarshal file).Perm
      (manifestFindings cm unmarshal' file) := by
    unfold manifestFindings
    split
    · exact hcomponents.filterMap _
    · exact .refl _
  unfold fileFindings
  exact (((hmanifest.append_left _).append_right _).append_right _).append_right _

end Rules

variable {cm : CaseMap} {unmarshal unmarshal' : Unmarshal} {digest : Digest}
  {files files' : List RepoFile}

theorem sortKey_injective (hpaths : (files.map RepoFile.path).Nodup) :
    ∀ a ∈ (files.flatMap (fileFindings cm unmarshal)).map (stamp cm digest),
      ∀ b ∈ (files.flatMap (fileFindings cm unmarshal)).map (stamp cm digest),
        sortKey a = sortKey b → a = b := by
  intro a ha b hb hkey
  obtain ⟨f, hf, rfl⟩ := List.mem_map.mp ha
  obtain ⟨g, hg, rfl⟩ := List.mem_map.mp hb
  obtain ⟨file, hfile, hf⟩ := List.mem_flatMap.mp hf
  obtain ⟨file', hfile', hg⟩ := List.mem_flatMap.mp hg
  obtain ⟨hpath, hrest⟩ := Prod.mk.inj (toLex.injective hkey)
  obtain ⟨-, hrest⟩ := Prod.mk.inj (toLex.injective hrest)
  obtain ⟨hrule, -⟩ := Prod.mk.inj (toLex.injective hrest)
  have hfiles : f.filePath = g.filePath := hpath
  rw [filePath_of_mem hf, filePath_of_mem hg] at hfiles
  have hsame : file = file' := List.inj_on_of_nodup_map hpaths hfile hfile' hfiles
  subst hsame
  rw [List.inj_on_of_nodup_map nodup_fileFindings hf hg hrule]

theorem detect_perm (hfiles : files.Perm files') (hpaths : (files.map RepoFile.path).Nodup)
    (hmaps : Reordered unmarshal unmarshal') :
    detect cm unmarshal digest files = detect cm unmarshal' digest files' := by
  have hperm : (files.flatMap (fileFindings cm unmarshal)).Perm
      (files'.flatMap (fileFindings cm unmarshal')) :=
    (hfiles.flatMap_right _).trans
      (List.Perm.flatMap_left _ fun file _ => fileFindings_perm hmaps)
  exact sortFindings_unique (hperm.map _) (sortKey_injective hpaths)

theorem languages_perm (hfiles : files.Perm files') : languages cm files = languages cm files' := by
  have hperm : ((files.map fun file => languageOf cm file.path).filter (· ≠ "")).dedup.Perm
      ((files'.map fun file => languageOf cm file.path).filter (· ≠ "")).dedup :=
    ((hfiles.map _).filter _).dedup
  have hsorted : Sorting id _ (languages cm files) := sorting_mergeSort id _
  have hsorted' : Sorting id _ (languages cm files') := sorting_mergeSort id _
  exact hsorted.unique (hsorted'.of_perm hperm.symm) fun a _ b _ hab => hab

/-- An analysis is the same in whatever order its files come, and in whatever order the maps in them
are gone through. -/
theorem analysis_permutes (cm : CaseMap) (unmarshal unmarshal' : Unmarshal) (digest : Digest)
    (loaded : List RepoFile) (id id' repo : String) (demo : Bool) (files files' : List RepoFile)
    (hfiles : files.Perm files') (hpaths : (files.map RepoFile.path).Nodup)
    (hmaps : Reordered unmarshal unmarshal') :
    (analyze cm unmarshal digest loaded id repo files demo).result.findings =
        (analyze cm unmarshal' digest loaded id' repo files' demo).result.findings ∧
      (analyze cm unmarshal digest loaded id repo files demo).summary =
        (analyze cm unmarshal' digest loaded id' repo files' demo).summary ∧
      (analyze cm unmarshal digest loaded id repo files demo).languages =
        (analyze cm unmarshal' digest loaded id' repo files' demo).languages ∧
      (analyze cm unmarshal digest loaded id repo files demo).pqcReadiness =
        (analyze cm unmarshal' digest loaded id' repo files' demo).pqcReadiness ∧
      (analyze cm unmarshal digest loaded id repo files demo).result.fileCount =
        (analyze cm unmarshal' digest loaded id' repo files' demo).result.fileCount := by
  have hdetect : detect cm unmarshal digest files = detect cm unmarshal' digest files' :=
    detect_perm hfiles hpaths hmaps
  refine ⟨?_, ?_, languages_perm hfiles, ?_, hfiles.length_eq⟩
  · exact congrArg (List.map fun detail => (⟨detail, demo⟩ : GHFinding Detail)) hdetect
  · exact congrArg (summarizeFindings cm) hdetect
  · exact congrArg pqcReadiness hdetect

def manifest : RepoFile where
  path := "web/package.json"
  content := ascii "\x7b\"dependencies\":\x7b\"lodash\":\"4.17.20\",\"left-pad\":\"1.3.0\"\x7d\x7d"

def image : RepoFile where
  path := "Dockerfile"
  content := ascii "FROM scratch\nUSER root\n"

/-- The dependencies of the manifest, in one order or the other. -/
def dependencies (swapped : Bool) : Unmarshal := fun content =>
  if content = manifest.content then
    some (if swapped then AList.insert "left-pad" "1.3.0" (AList.singleton "lodash" "4.17.20")
      else AList.insert "lodash" "4.17.20" (AList.singleton "left-pad" "1.3.0"))
  else none

theorem reordered_dependencies : Reordered (dependencies false) (dependencies true) := by
  intro content
  unfold dependencies
  split
  · exact .some (by decide)
  · exact .none

def before : Analysis :=
  analyze asciiCase (dependencies false) id [] "1" "acme/app" [manifest, image] false

def after : Analysis :=
  analyze asciiCase (dependencies true) id [] "2" "acme/app" [image, manifest] false

theorem analysis_permutes_manifest :
    before.result.findings = after.result.findings ∧ before.summary = after.summary ∧
      before.languages = after.languages ∧ before.pqcReadiness = after.pqcReadiness ∧
      before.result.fileCount = after.result.fileCount :=
  analysis_permutes asciiCase _ _ id [] "1" "2" "acme/app" false [manifest, image]
    [image, manifest] (.swap _ _ _) (by decide) reordered_dependencies

end RivicQ.Properties.FileOrders
