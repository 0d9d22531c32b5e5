import RivicQ.Firmware.Compare
import RivicQ.Firmware.Iterations

namespace RivicQ.Properties.Orders

open RivicQ.Lib.Bytes RivicQ.Lib.Groups RivicQ.Lib.Sortings RivicQ.Certeng.Certificates
open RivicQ.Firmware.Archives RivicQ.Firmware.Formats RivicQ.Firmware.Reports
open RivicQ.Firmware.Analysis RivicQ.Firmware.Iterations

/-- Two reports have the same findings, element by element, and the same derived from them. -/
structure SameFindings (a b : Report) : Prop where
  libraries : a.libraries = b.libraries
  algorithms : a.algorithms = b.algorithms
  cryptoAPIs : a.cryptoAPIs = b.cryptoAPIs
  protocols : a.protocols = b.protocols
  rules : a.rules = b.rules
  certificates : a.certificates = b.certificates
  cbom : a.cbom = b.cbom
  graph : a.graph = b.graph

theorem sameFindings_refl (a : Report) : SameFindings a a := ⟨rfl, rfl, rfl, rfl, rfl, rfl, rfl, rfl⟩

/-- Any two runs of the analysis of an artifact, each with orders of iteration of its own, give
reports of the same findings. -/
def OrderFree (x : Setup) (name : String) (data : Bytes) : Prop :=
  ∀ result result', Analyzed x (x.limits.maxArchiveDepth + 1) name data result →
    Analyzed x (x.limits.maxArchiveDepth + 1) name data result' →
    ∃ rep rep', result = .ok rep ∧ result' = .ok rep' ∧ SameFindings rep rep'

/-- The certificates that an artifact is reported with, in some order. -/
def found (x : Setup) (name : String) (data : Bytes) : List CertificateFinding :=
  dedupeCerts (certificatesIn x (x.limits.maxArchiveDepth + 1) name data)

variable {x : Setup} {name : String} {data : Bytes}

theorem fingerprint_injective {c c' : CertificateFinding} {certificates : List CertificateFinding}
    (hc : c ∈ dedupeCerts certificates) (hc' : c' ∈ dedupeCerts certificates)
    (h : fingerprint c = fingerprint c') : c = c' :=
  key_injective (fun _ _ h => h.symm) (List.mem_mergeSort.mp hc) (List.mem_mergeSort.mp hc') h

/-- Two certificates of one subject come in both orders. -/
theorem subject_injective (h : OrderFree x name data) {c c' : CertificateFinding}
    (hc : c ∈ found x name data) (hc' : c' ∈ found x name data)
    (hsubject : c.metadata.subject = c'.metadata.subject) : c = c' := by
  obtain ⟨rep, -, -, -, hperm, hall⟩ :=
    analyzed_succ (analyzed_analyzeDepth x (x.limits.maxArchiveDepth + 1) name data)
  have hunique : ∀ out out', Sorting (fun c => c.metadata.subject) (dedupeCerts rep.certificates)
      out → Sorting (fun c => c.metadata.subject) (dedupeCerts rep.certificates) out' →
        out = out' := by
    intro out out' hout hout'
    obtain ⟨fin, fin', hfin, hfin', hsame⟩ := h _ _ (hall _ (finalized_of_sorting hout))
      (hall _ (finalized_of_sorting hout'))
    obtain rfl := Except.ok.inj hfin
    obtain rfl := Except.ok.inj hfin'
    exact hsame.certificates
  exact unique_iff.mp hunique c (hperm.symm.subset hc) c' (hperm.symm.subset hc') hsubject

/-- The findings of an artifact are free of the orders of iteration if no two certificates that are
found in it have one subject and different fingerprints. -/
theorem orderFree_iff (x : Setup) (name : String) (data : Bytes) : OrderFree x name data ↔
    ∀ c ∈ found x name data, ∀ c' ∈ found x name data,
      c.metadata.subject = c'.metadata.subject →
      c.metadata.fingerprintSHA256 = c'.metadata.fingerprintSHA256 := by
  constructor
  · intro h c hc c' hc' hsubject
    rw [subject_injective h hc hc' hsubject]
  · intro h result result' hrun hrun'
    obtain ⟨rep, fin, rfl, hfin, hperm, -⟩ := analyzed_succ hrun
    obtain ⟨rep', fin', rfl, hfin', hperm', -⟩ := analyzed_succ hrun'
    refine ⟨fin, fin', rfl, rfl, ?_⟩
    have hcertificates : fin.certificates = fin'.certificates :=
      (hfin.certificates.of_perm hperm).unique (hfin'.certificates.of_perm hperm')
        fun c hc c' hc' hsubject => fingerprint_injective hc hc' (h c hc c' hc' hsubject)
    have halike := alike_analyzed hrun hrun'
    cases halike with
    | ok halike =>
      rw [eq_of_alike hfin hfin' halike hcertificates]
      exact sameFindings_refl fin'

section Bundle

/-- A certificate with an Ed25519 key and a serial number, in DER. -/
def der (serial : UInt8) : Bytes :=
  [0x30, 0x66, 0x30, 0x5a, 0x02, 0x01, serial, 0x30, 0x05, 0x06, 0x03, 0x2b, 0x65, 0x70, 0x30, 0x00,
    0x30, 0x1e, 0x17, 0x0d, 0x32, 0x36, 0x30, 0x31, 0x30, 0x31, 0x30, 0x30, 0x30, 0x30, 0x30, 0x30,
    0x5a, 0x17, 0x0d, 0x33, 0x36, 0x30, 0x31, 0x30, 0x31, 0x30, 0x30, 0x30, 0x30, 0x30, 0x30, 0x5a,
    0x30, 0x00, 0x30, 0x2a, 0x30, 0x05, 0x06, 0x03, 0x2b, 0x65, 0x70, 0x03, 0x21, 0x00] ++
  List.replicate 32 0x00 ++ [0x30, 0x05, 0x06, 0x03, 0x2b, 0x65, 0x70, 0x03, 0x01, 0x00]

/-- The certificate of a serial number in PEM, where one letter tells the number. -/
def pem (letter : String) : Bytes :=
  ascii "-----BEGIN CERTIFICATE-----\nMGYwWgIBA" ++ ascii letter ++
    ascii "AFBgMrZXAwADAeFw0yNjAxMDEwMDAwMDBaFw0zNjAxMDEwMDAwMDBa\n" ++
    ascii "MAAwKjAFBgMrZXADIQAAAAAAAAAAAAAAAAAAAAAAAAAAAAAAAAAAAAAAAAAAADAF\n" ++
    ascii "BgMrZXADAQA=\n-----END CERTIFICATE-----\n"

/-- A file of two certificates of one subject. -/
def bundle : Bytes := pem "T" ++ pem "j"

/-- Decoders that know the file and the two certificates. -/
def decoders : Decoders where
  pemDecode data :=
    if data = bundle then some (⟨"CERTIFICATE", der 1⟩, pem "j")
    else if data = pem "T" then some (⟨"CERTIFICATE", der 1⟩, [])
    else if data = pem "j" then some (⟨"CERTIFICATE", der 2⟩, [])
    else none
  parseCertificate s :=
    if s = der 1 ∨ s = der 2 then
      some { raw := s, subject := "", issuer := "", notAfter := 2082758400000000000
             publicKeyAlgorithm := "Ed25519", publicKey := .ed25519
             signatureAlgorithm := "Ed25519" }
    else none
  sha256 data :=
    if data = der 1 then
      [0x77, 0x5f, 0x9d, 0xd1, 0xfe, 0x99, 0x8f, 0x28, 0x2a, 0xbb, 0xe1, 0xff, 0x8d, 0x0c, 0x1f,
        0xe6, 0x50, 0x05, 0xba, 0x25, 0xd4, 0x2e, 0x4e, 0x88, 0x42, 0x0c, 0x7e, 0x8a, 0x3f, 0x7a,
        0x91, 0x28]
    else if data = der 2 then
      [0x61, 0xfb, 0x3d, 0x7f, 0x9d, 0xa0, 0x3d, 0x91, 0x2d, 0xea, 0xaa, 0xde, 0x80, 0x34, 0x2a,
        0x37, 0xc7, 0xd9, 0x62, 0x1e, 0xbd, 0xe8, 0xcd, 0x3c, 0x9a, 0x84, 0xed, 0x99, 0x63, 0x0a,
        0xa7, 0x4e]
    else
      [0x63, 0xf0, 0x20, 0x28, 0x3f, 0x21, 0x97, 0x50, 0x78, 0x57, 0x6b, 0x9e, 0xe5, 0xdf, 0x0b,
        0x13, 0xbf, 0xd2, 0x17, 0x1a, 0x2c, 0x90, 0x00, 0xde, 0x68, 0xf6, 0xa3, 0xd7, 0x94, 0x94,
        0x37, 0xa7]

/-- The default limits and no rules. -/
def setup : Setup where
  cm := RivicQ.Lib.GoStrings.asciiCase
  decoders := decoders
  readers := { unzip := fun _ => .error "zip: not a valid zip file"
               untar := fun _ => ([], some "archive/tar: invalid tar header")
               gunzip := fun _ => .error "gzip: invalid header" }
  elf := fun _ => .error "bad magic number"
  profile := {}
  limits := { maxDecompressedBytes := 256 <<< 20, maxArchiveEntries := 2048, maxArchiveDepth := 4 }

/-- The finding of a certificate of the file by its fingerprint. -/
def finding (fingerprint : String) : CertificateFinding :=
  certificateFinding setup
    { subject := "", issuer := "", notAfter := 2082758400000000000
      publicKeyAlgorithm := "Ed25519", keySize := 256, signatureAlgorithm := "Ed25519"
      fingerprintSHA256 := fingerprint, selfSigned := true, source := "ca.pem" }

def first : String := "775f9dd1fe998f282abbe1ff8d0c1fe65005ba25d42e4e88420c7e8a3f7a9128"

def second : String := "61fb3d7f9da03d912deaaade80342a37c7d9621ebde8cd3c9a84ed99630aa74e"

theorem format_bundle : detectFormat setup.cm "ca.pem" bundle = .pem := by decide +kernel

theorem members_bundle : members setup (detectFormat setup.cm "ca.pem" bundle) "ca.pem" bundle =
    none := by
  rw [format_bundle]
  rfl

theorem extract_bundle : extractFromBytes setup.decoders bundle "ca.pem" =
    [(finding first).metadata, (finding second).metadata] := by decide +kernel

theorem certificates_bundle :
    (analyzeImage setup (newReport setup "ca.pem" bundle) "ca.pem" bundle).certificates =
      [finding first, finding second] := by
  simp only [analyzeImage, newReport, format_bundle, imageData, extract_bundle]
  rfl

/-- Both certificates of the file stay. -/
theorem found_bundle : (found setup "ca.pem" bundle).Perm [finding first, finding second] := by
  have hfound : found setup "ca.pem" bundle = dedupeCerts [finding first, finding second] := by
    rw [found, certificatesIn_image members_bundle, certificates_bundle]
  have hnodup : (dedupeCerts [finding first, finding second]).Nodup :=
    .of_map fingerprint (nodup_map_dedupeBy fun _ _ h => h.symm)
  have hdistinct : [finding first, finding second].Nodup :=
    .of_map fingerprint (by decide : [first, second].Nodup)
  rw [hfound]
  refine (List.perm_ext_iff_of_nodup hnodup hdistinct).mpr fun c => ⟨mem_dedupeBy_last, fun hc => ?_⟩
  rw [mem_dedupeCerts]
  simp only [List.mem_cons, List.not_mem_nil, or_false] at hc
  obtain rfl | rfl := hc <;> rfl

/-- Two certificates of one subject are listed in either order. -/
theorem bundle_not_orderFree :
    ¬ ∀ (x : Setup) (name : String) (data : Bytes), OrderFree x name data := by
  intro h
  have hsame := subject_injective (h setup "ca.pem" bundle)
    (found_bundle.mem_iff.mpr List.mem_cons_self)
    (found_bundle.mem_iff.mpr (List.mem_cons_of_mem _ List.mem_cons_self)) rfl
  have hfingerprint : first = second := congrArg fingerprint hsame
  exact absurd hfingerprint (by decide)

end Bundle

end RivicQ.Properties.Orders

namespace RivicQ.Properties.Comparisons

open RivicQ.Lib.Bytes RivicQ.Lib.GoStrings RivicQ.Lib.Sortings RivicQ.Quantum.QiskitProfile
open RivicQ.Cryptoscan.Detect RivicQ.Certeng.Certificates RivicQ.Firmware.Reports
open RivicQ.Firmware.Analysis RivicQ.Firmware.Iterations RivicQ.Firmware.Compare
open RivicQ.Properties.Orders

/-- A report that an analysis of some artifact gives. -/
def Reported (rep : Report) : Prop :=
  ∃ x name data, Analyzed x (x.limits.maxArchiveDepth + 1) name data (.ok rep)

/-- Two lists have the same elements. -/
def SameSet (a b : List String) : Prop := ∀ k, k ∈ a ↔ k ∈ b

/-- What is added is what only the second list has, and what is removed what only the first one
has. -/
structure Difference (c : Changes) (a b : List String) : Prop where
  added_nodup : c.added.Nodup
  removed_nodup : c.removed.Nodup
  mem_added : ∀ k, k ∈ c.added ↔ k ∈ b ∧ k ∉ a
  mem_removed : ∀ k, k ∈ c.removed ↔ k ∈ a ∧ k ∉ b

def swap (c : Changes) : Changes := ⟨c.removed, c.added⟩

def libraryNames (rep : Report) : List String := rep.libraries.map LibraryFinding.library

def algorithmNamesOf (rep : Report) : List String :=
  rep.algorithms.map AlgorithmFinding.algorithm

def apiNames (rep : Report) : List String := rep.cryptoAPIs.map APIFinding.api

def protocolNames (rep : Report) : List String := rep.protocols.map ProtocolFinding.protocol

/-- Two reports are equal as sets. -/
structure SameSets (a b : Report) : Prop where
  libraries : SameSet (libraryNames a) (libraryNames b)
  algorithms : SameSet (algorithmNamesOf a) (algorithmNamesOf b)
  cryptoAPIs : SameSet (apiNames a) (apiNames b)
  protocols : SameSet (protocolNames a) (protocolNames b)
  certificates : SameSet (fingerprints a) (fingerprints b)
  pqcStatus : SameSet (pqcSet a) (pqcSet b)

/-- The comparison of two reports tells the differences of their sets. -/
structure Faithful (a b : Report) : Prop where
  certificates : (compare a b).certificatesChanged = true ↔
    ¬ SameSet (fingerprints a) (fingerprints b)
  libraries : Difference (compare a b).libraries (libraryNames a) (libraryNames b)
  algorithms : Difference (compare a b).algorithms (algorithmNamesOf a) (algorithmNamesOf b)
  cryptoAPIs : Difference (compare a b).cryptoAPIs (apiNames a) (apiNames b)
  protocols : Difference (compare a b).protocols (protocolNames a) (protocolNames b)
  swapped : (compare b a).libraries = swap (compare a b).libraries ∧
    (compare b a).algorithms = swap (compare a b).algorithms ∧
    (compare b a).cryptoAPIs = swap (compare a b).cryptoAPIs ∧
    (compare b a).protocols = swap (compare a b).protocols
  unchanged : (compare a b).changed = false ↔ SameSets a b
  sameFile : ∀ x name data tenantID deviceLifetime id now,
    Analyzed x (x.limits.maxArchiveDepth + 1) name data (.ok a) →
    Analyzed (withOptions x tenantID deviceLifetime id now) (x.limits.maxArchiveDepth + 1) name data
      (.ok b) → (compare a b).changed = false

variable {cm cm' : CaseMap} {a b : Report}

theorem difference_diffSets (names names' : List String) :
    Difference (diffSets (setOf names) (setOf names')) names names' :=
  ⟨nodup_added, nodup_removed, fun _ => mem_added, fun _ => mem_removed⟩

theorem certificatesChanged_iff (h : Plain cm a) (h' : Plain cm' b) :
    (compare a b).certificatesChanged = false ↔ fingerprints a = fingerprints b := by
  rw [← certSet_eq_iff h h']
  exact decide_eq_false_iff_not.trans not_not

theorem riskChanged_iff : (compare a b).riskChanged = false ↔ highestRisk a = highestRisk b :=
  decide_eq_false_iff_not.trans not_not

theorem pqcStatusChanged_iff (h : Plain cm a) (h' : Plain cm' b) :
    (compare a b).pqcStatusChanged = false ↔ pqcSet a = pqcSet b := by
  rw [← join_eq_iff h h']
  exact decide_eq_false_iff_not.trans not_not

theorem highestRisk_congr (h : Plain cm a) (h' : Plain cm' b)
    (hlines : SameSet (pqcSet a) (pqcSet b)) : highestRisk a = highestRisk b := by
  rw [highestRisk_eq, highestRisk_eq, statusPairs_eq h h' hlines]

theorem pqcSet_congr (h : Plain cm a) (h' : Plain cm' b)
    (hlines : SameSet (pqcSet a) (pqcSet b)) : pqcSet a = pqcSet b := by
  rw [pqcSet_eq, pqcSet_eq, statusPairs_eq h h' hlines]

/-- Nothing has changed exactly if the reports are equal as sets, and list the same fingerprints in
the same order. -/
theorem changed_eq_false_iff (h : Plain cm a) (h' : Plain cm' b) :
    (compare a b).changed = false ↔ SameSets a b ∧ fingerprints a = fingerprints b := by
  have hchanged : (compare a b).changed = ((compare a b).libraries.any ||
      (compare a b).algorithms.any || (compare a b).cryptoAPIs.any ||
      (compare a b).protocols.any || (compare a b).certificatesChanged ||
      (compare a b).riskChanged || (compare a b).pqcStatusChanged) := rfl
  have hlibraries : (compare a b).libraries.any = false ↔
      SameSet (libraryNames a) (libraryNames b) := any_eq_false_iff
  have halgorithms : (compare a b).algorithms.any = false ↔
      SameSet (algorithmNamesOf a) (algorithmNamesOf b) := any_eq_false_iff
  have hapis : (compare a b).cryptoAPIs.any = false ↔
      SameSet (apiNames a) (apiNames b) := any_eq_false_iff
  have hprotocols : (compare a b).protocols.any = false ↔
      SameSet (protocolNames a) (protocolNames b) := any_eq_false_iff
  simp only [hchanged, Bool.or_eq_false_iff, hlibraries, halgorithms, hapis, hprotocols,
    certificatesChanged_iff h h', riskChanged_iff, pqcStatusChanged_iff h h']
  constructor
  · rintro ⟨⟨⟨⟨⟨⟨hlib, halg⟩, hapi⟩, hproto⟩, hcert⟩, -⟩, hpqc⟩
    exact ⟨⟨hlib, halg, hapi, hproto, fun k => by rw [hcert], fun k => by rw [hpqc]⟩, hcert⟩
  · rintro ⟨hsets, hcert⟩
    exact ⟨⟨⟨⟨⟨⟨hsets.libraries, hsets.algorithms⟩, hsets.cryptoAPIs⟩, hsets.protocols⟩, hcert⟩,
      highestRisk_congr h h' hsets.pqcStatus⟩, pqcSet_congr h h' hsets.pqcStatus⟩

/-- Reports of the same names by the same tables are equal as sets. -/
theorem sameSets_of_named (h : Plain cm a) (h' : Plain cm b) (hnamed : a.named = b.named) :
    SameSets a b := by
  have hsame : ∀ {names names' : List String},
      {n | n ∈ names} = {n | n ∈ names'} → SameSet names names' :=
    fun heq k => Set.ext_iff.mp heq k
  refine ⟨hsame (congrArg Named.libraries hnamed), hsame (congrArg Named.algorithms hnamed),
    hsame (congrArg Named.cryptoAPIs hnamed), hsame (congrArg Named.protocols hnamed),
    hsame (congrArg Named.certificates hnamed), ?_⟩
  -- The status of an algorithm is that of its name.
  have hlines : ∀ {a b : Report}, Plain cm a → Plain cm b →
      SameSet (algorithmNamesOf a) (algorithmNamesOf b) → ∀ l ∈ pqcSet a, l ∈ pqcSet b := by
    intro a b h h' halgorithms l hl
    obtain ⟨f, hf, rfl⟩ := List.mem_map.mp (mem_sortStrings.mp hl)
    obtain ⟨g, hg, hname⟩ := List.mem_map.mp
      ((halgorithms f.algorithm).mp (List.mem_map_of_mem hf))
    refine mem_sortStrings.mpr (List.mem_map.mpr ⟨g, hg, ?_⟩)
    rw [pqcLine, pqcLine, (h.algorithms f hf).status, (h'.algorithms g hg).status, hname]
  have halgorithms := hsame (congrArg Named.algorithms hnamed)
  exact fun l => ⟨hlines h h' halgorithms l, hlines h' h (fun k => (halgorithms k).symm) l⟩

/-- Two analyses of one file, with any options and at any time, give reports that are equal as
sets. -/
theorem sameSets_sameFile {x : Setup} {name tenantID deviceLifetime id : String} {data : Bytes}
    {now : Time} (h : Analyzed x (x.limits.maxArchiveDepth + 1) name data (.ok a))
    (h' : Analyzed (withOptions x tenantID deviceLifetime id now) (x.limits.maxArchiveDepth + 1)
      name data (.ok b)) : SameSets a b := by
  have hnamed := named_analyzed h
  have hnamed' := named_analyzed h'
  rw [namesIn_withOptions] at hnamed'
  cases hnamed with
  | ok hnamed =>
    cases hnamed' with
    | ok hnamed' =>
      exact sameSets_of_named (plain_report h) (plain_report h' :) (hnamed.trans hnamed'.symm)

theorem ordered_of_faithful (h : Plain cm a) (h' : Plain cm' b) (hfaithful : Faithful a b)
    (hsame : SameSet (fingerprints a) (fingerprints b)) : fingerprints a = fingerprints b := by
  refine (certificatesChanged_iff h h').mp (Bool.eq_false_iff.mpr fun hchanged => ?_)
  exact hfaithful.certificates.mp hchanged hsame

/-- The comparison tells the differences of two reports, unless they have the same fingerprints
in different orders. -/
theorem faithful_iff (a b : Report) (h : Reported a) (h' : Reported b) :
    Faithful a b ↔
      (SameSet (fingerprints a) (fingerprints b) → fingerprints a = fingerprints b) := by
  obtain ⟨x, name, data, h⟩ := h
  obtain ⟨x', name', data', h'⟩ := h'
  have hplain := plain_report h
  have hplain' := plain_report h'
  constructor
  · exact ordered_of_faithful hplain hplain'
  · intro horder
    refine ⟨?_, difference_diffSets _ _, difference_diffSets _ _, difference_diffSets _ _,
      difference_diffSets _ _, ⟨rfl, rfl, rfl, rfl⟩, ?_, ?_⟩
    · rw [← Bool.not_eq_false, certificatesChanged_iff hplain hplain', not_iff_not]
      exact ⟨fun heq k => by rw [heq], horder⟩
    · rw [changed_eq_false_iff hplain hplain']
      exact ⟨fun hboth => hboth.1, fun hsets => ⟨hsets, horder hsets.certificates⟩⟩
    · intro y artifact content tenantID deviceLifetime id now hy hy'
      have hsets := sameSets_sameFile hy hy'
      exact (changed_eq_false_iff (plain_report hy) (plain_report hy')).mpr
        ⟨hsets, horder hsets.certificates⟩

section Bundle

/-- The report of a file of two certificates, in some order of them. -/
def listing (certificates : List CertificateFinding) : Report :=
  withInventory
    { finalize setup (analyzeImage setup (newReport setup "ca.pem" bundle) "ca.pem" bundle) with
      certificates := certificates }

theorem sorting_bundle {certificates : List CertificateFinding}
    (h : certificates.Perm [finding first, finding second]) :
    Sorting (fun c => c.metadata.subject) [finding first, finding second] certificates := by
  have hsubject : ∀ c ∈ certificates, c.metadata.subject = "" := by
    intro c hc
    have hmem := h.subset hc
    simp only [List.mem_cons, List.not_mem_nil, or_false] at hmem
    obtain rfl | rfl := hmem <;> rfl
  refine ⟨h, List.pairwise_of_forall_mem_list fun c hc c' hc' => ?_⟩
  simpa only [hsubject c hc, hsubject c' hc'] using String.le_refl ""

theorem analyzed_listing {certificates : List CertificateFinding}
    (h : certificates.Perm [finding first, finding second]) :
    Analyzed setup (setup.limits.maxArchiveDepth + 1) "ca.pem" bundle
      (.ok (listing certificates)) := by
  have hfound := found_bundle.symm
  rw [found, certificatesIn_image members_bundle] at hfound
  have hfin : Finalized setup
      (analyzeImage setup (newReport setup "ca.pem" bundle) "ca.pem" bundle)
      (listing certificates) := finalized_of_sorting ((sorting_bundle h).of_perm hfound)
  rw [analyzed_image members_bundle]
  exact ⟨_, hfin, rfl⟩

theorem reported_listing {certificates : List CertificateFinding}
    (h : certificates.Perm [finding first, finding second]) : Reported (listing certificates) :=
  by
  have hrun := analyzed_listing h
  refine ⟨setup, "ca.pem", bundle, ?_⟩
  exact hrun

theorem faithful_iff_bundle :
    Faithful (listing [finding first, finding second]) (listing [finding second, finding first]) ↔
      (SameSet (fingerprints (listing [finding first, finding second]))
          (fingerprints (listing [finding second, finding first])) →
        fingerprints (listing [finding first, finding second]) =
          fingerprints (listing [finding second, finding first])) :=
  faithful_iff _ _ (reported_listing (.refl _)) (reported_listing (.swap _ _ _))

/-- Two analyses of one file differ in the order of its certificates, and are told to differ. -/
theorem bundle_not_faithful :
    ¬ ∀ (a b : Report) (_ : Reported a) (_ : Reported b), Faithful a b := by
  intro h
  have hrun := analyzed_listing (.refl [finding first, finding second])
  have hrun' := analyzed_listing (.swap (finding first) (finding second) [])
  have hsame : SameSet [first, second] [second, first] := fun k =>
    (List.Perm.swap second first []).mem_iff
  have hordered := ordered_of_faithful (plain_report hrun) (plain_report hrun')
    (h _ _ ⟨_, _, _, hrun⟩ ⟨_, _, _, hrun'⟩) hsame
  have hfirst : [first, second] = [second, first] := hordered
  exact absurd hfirst (by decide)

end Bundle

end RivicQ.Properties.Comparisons
