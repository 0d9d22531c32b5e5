import RivicQ.Firmware.IntelHex
import RivicQ.Firmware.Nesting

namespace RivicQ.Properties.Containers

open RivicQ.Lib.Bytes RivicQ.Lib.ByteText RivicQ.Cryptoscan.Detect RivicQ.Certeng.Certificates
open RivicQ.Firmware.Archives RivicQ.Firmware.Formats RivicQ.Firmware.Reports
open RivicQ.Firmware.Analysis
open RivicQ.Firmware.Nesting

theorem alike_self (x : Setup) (left : Nat) (name : String) (data : Bytes) :
    Alike x left name name data := by
  induction left generalizing name data with
  | zero => exact trivial
  | succ left ih => exact ⟨rfl, fun _ inner _ => ih _ _⟩

/-- If each layer is recognised by the name it is seen by, and the artifact is taken for the same
by its stored name as by its own, all that is named in the report of the artifact is named in that
of the outermost archive. -/
theorem container_transparent (x : Setup) (layers : List Layer) (outerName own stored : String)
    (outer artifact : Bytes) (h : Nests x stored artifact layers outerName outer)
    (hdepth : layers.length ≤ x.limits.maxArchiveDepth)
    (hfits : Fits x (x.limits.maxArchiveDepth + 1 - layers.length) stored artifact)
    (hrecognised : ∀ l ∈ layers, Recognised x l)
    (halike : Alike x (x.limits.maxArchiveDepth + 1) own stored artifact) :
    ∃ alone nested, analyzeBytes x own artifact = .ok alone ∧
      analyzeBytes x outerName outer = .ok nested ∧ Subsumed alone.named nested.named := by
  obtain ⟨alone, halone⟩ := exists_report x x.limits.maxArchiveDepth own artifact
  obtain ⟨here, hhere, hsub⟩ := subsumed_alike halike halone
  have hlevels : x.limits.maxArchiveDepth + 1 - layers.length + layers.length =
      x.limits.maxArchiveDepth + 1 := by omega
  have hstored := (analyzeDepth_fits hfits layers.length).symm
  rw [hlevels, hhere] at hstored
  obtain ⟨nested, hnested, hsub'⟩ := subsumed_nests h hrecognised hstored
  rw [hlevels] at hnested
  exact ⟨alone, nested, halone, hnested, subsumed_trans hsub hsub'⟩

/-- An Intel HEX file of the image `AES!`. -/
def hexFile : Bytes := ascii ":040000004145532102" ++ [0x0a] ++ (ascii ":00000001FF" ++ [0x0a] ++ [])

/-- A field of a tar header, filled up with zeros. -/
def field (s : Bytes) (width : Nat) : Bytes := s ++ List.replicate (width - s.length) 0x00

def tarHeader : Bytes :=
  field (ascii "fw.hex") 100 ++ field (ascii "0000644") 8 ++ field (ascii "0000000") 8 ++
  field (ascii "0000000") 8 ++ field (ascii "00000000040") 12 ++ field (ascii "00000000000") 12 ++
  field (ascii "010321") 7 ++ ascii " 0" ++ field [] 100 ++ field (ascii "ustar") 6 ++ ascii "00" ++
  field [] 64 ++ field (ascii "0000000") 8 ++ field (ascii "0000000") 8 ++ field [] 167

/-- A tar file of the Intel HEX file. -/
def tarFile : Bytes := tarHeader ++ field hexFile 1536

/-- The tar file in a gzip file, as one stored block. -/
def gzipFile : Bytes :=
  [0x1f, 0x8b, 0x08, 0x00, 0x00, 0x00, 0x00, 0x00, 0x00, 0xff, 0x01, 0x00, 0x08, 0xff, 0xf7] ++
  tarFile ++ [0xbf, 0x1e, 0x23, 0x64, 0x00, 0x08, 0x00, 0x00]

/-- The default limits, no rules, and readers that know a tar file and a gzip file of it. -/
def setup (tar gz : Bytes) : Setup where
  cm := RivicQ.Lib.GoStrings.asciiCase
  decoders := { pemDecode := fun _ => none, parseCertificate := fun _ => none
                sha256 := fun _ => [] }
  readers :=
    { unzip := fun _ => .error "zip: not a valid zip file"
      untar := fun data =>
        if data = tar then ([⟨"fw.hex", true, some hexFile⟩], none)
        else ([], some "archive/tar: invalid tar header")
      gunzip := fun data => if data = gz then .ok tar else .error "gzip: invalid header" }
  elf := fun _ => .error "bad magic number"
  profile := {}
  limits := { maxDecompressedBytes := 256 <<< 20, maxArchiveEntries := 2048, maxArchiveDepth := 4 }

variable (tar gz : Bytes)

theorem wraps_tar (outerName : String) : Wraps (setup tar gz) .tar outerName tar "fw.hex" hexFile :=
  .tar (f := ⟨"fw.hex", true, some hexFile⟩) (if_pos rfl) List.mem_cons_self (by decide) rfl rfl
    (Nat.le_of_ble_eq_true rfl) (Nat.le_of_ble_eq_true rfl)

theorem sizes_le : 64 <<< 20 ≤ 256 <<< 20 := by decide

theorem gunzip_gz : (setup tar gz).readers.gunzip gz = .ok tar := if_pos rfl

theorem wraps_gz (h : tar.length ≤ 64 <<< 20) (outerName : String) :
    Wraps (setup tar gz) .gzip outerName gz (childName outerName) tar :=
  .gzip (gunzip_gz tar gz) (h.trans sizes_le)

theorem detectFormat_hexFile : detectFormat (setup tar gz).cm "fw.hex" hexFile = .ihex := by
  change detectFormat RivicQ.Lib.GoStrings.asciiCase "fw.hex" hexFile = .ihex
  decide

theorem fits_hexFile (left : Nat) : Fits (setup tar gz) (left + 1) "fw.hex" hexFile := by
  intro ms hms
  rw [detectFormat_hexFile] at hms
  exact nomatch hms

theorem length_tarFile : tarFile.length ≤ 64 <<< 20 := by decide +kernel

theorem container_transparent_targz : ∃ alone nested,
    analyzeBytes (setup tarFile gzipFile) "fw.hex" hexFile = .ok alone ∧
    analyzeBytes (setup tarFile gzipFile) "fw.tar.gz" gzipFile = .ok nested ∧
    Subsumed alone.named nested.named := by
  have hchild : childName "fw.tar.gz" = "fw.tar" := by decide
  have hgz := wraps_gz tarFile gzipFile length_tarFile "fw.tar.gz"
  rw [hchild] at hgz
  have hnests : Nests (setup tarFile gzipFile) "fw.hex" hexFile
      [⟨.gzip, "fw.tar.gz", gzipFile⟩, ⟨.tar, "fw.tar", tarFile⟩] "fw.tar.gz" gzipFile :=
    .wrap hgz (.wrap (wraps_tar tarFile gzipFile "fw.tar") .artifact)
  have hgzip : detectFormat RivicQ.Lib.GoStrings.asciiCase "fw.tar.gz" gzipFile = .gzip := by
    decide +kernel
  have htar : detectFormat RivicQ.Lib.GoStrings.asciiCase "fw.tar" tarFile = .tar := by
    decide +kernel
  refine container_transparent _ _ "fw.tar.gz" "fw.hex" "fw.hex" _ _ hnests
    (Nat.le_of_ble_eq_true rfl) (fits_hexFile tarFile gzipFile 2) ?_ (alike_self _ _ _ _)
  exact List.forall_mem_cons.mpr ⟨hgzip, List.forall_mem_singleton.mpr htar⟩

section Unrecognised

theorem parseIntelHex_hexFile : parseIntelHex hexFile = ⟨ascii "AES!", 1, 0⟩ := by decide

theorem aes_hexFile {alone : Report}
    (h : analyzeBytes (setup tar gz) "fw.hex" hexFile = .ok alone) :
    "AES" ∈ alone.named.algorithms := by
  have hmembers : members (setup tar gz) (detectFormat (setup tar gz).cm "fw.hex" hexFile) "fw.hex"
      hexFile = none := by
    rw [detectFormat_hexFile]
    rfl
  have hformat : (newReport (setup tar gz) "fw.hex" hexFile).format = .ihex :=
    detectFormat_hexFile tar gz
  obtain rfl := Except.ok.inj ((analyzeDepth_image hmembers).symm.trans h)
  rw [named_analyzeImage (ascii "AES!") rfl]
  · refine .inl ((mem_detectAlgorithms _).mpr ?_)
    have haes : ∃ rule ∈ algorithmCatalog, rule.algorithm = "AES" ∧
        (newSurface RivicQ.Lib.GoStrings.asciiCase (extractStrings 4 200000 (ascii "AES!"))).allToken
          RivicQ.Lib.GoStrings.asciiCase rule.markers ≠ [] := by decide
    exact haes
  · rw [hformat]
    change extractStrings 4 200000 (parseIntelHex hexFile).image = _
    rw [parseIntelHex_hexFile]

/-- The tar file is taken for a binary image by a name without its extension. -/
theorem detectFormat_tarFile :
    detectFormat RivicQ.Lib.GoStrings.asciiCase "fw" tarFile = .bin := by decide +kernel

theorem strings_tarFile : extractStrings 4 200000 tarFile =
    ["fw.hex", "0000644", "0000000", "0000000", "00000000040", "00000000000", "010321", "ustar",
      "0000000", "0000000", ":040000004145532102", ":00000001FF"] := by decide +kernel

theorem aes_not_in_tarFile :
    "AES" ∉ (detectedNames (setup tarFile gzipFile) tarFile).algorithms := by
  intro h
  obtain ⟨rule, hrule, hname, hmarkers⟩ := (mem_detectAlgorithms _).mp h
  have hnone : ∀ rule ∈ algorithmCatalog, rule.algorithm = "AES" →
      (newSurface RivicQ.Lib.GoStrings.asciiCase (extractStrings 4 200000 tarFile)).allToken
        RivicQ.Lib.GoStrings.asciiCase rule.markers = [] := by
    rw [strings_tarFile]
    decide +kernel
  exact hmarkers (hnone rule hrule hname)

/-- A gzip file of what is taken for a binary image without certificates is reported with what is
detected in the image. -/
theorem report_tgz {nested : Report} (himage : detectFormat (setup tar gz).cm "fw" tar = .bin)
    (hgzip : detectFormat (setup tar gz).cm "fw.tgz" gz = .gzip) (hdash : 0x2d ∉ tar)
    (hlength : tar.length ≤ 64 <<< 20)
    (h : analyzeBytes (setup tar gz) "fw.tgz" gz = .ok nested) :
    Subsumed nested.named (detectedNames (setup tar gz) tar) := by
  have hchild : childName "fw.tgz" = "fw" := by decide
  have hformat : detectFormat (setup tar gz).cm "fw" tar ∈ [Format.bin, Format.unknown] := by
    rw [himage]
    exact List.mem_cons_self
  obtain ⟨child, hreport, hnamed⟩ := report_raw 3 "fw" hformat
  have hcertificates : extractFromBytes (setup tar gz).decoders tar "fw" = [] := by
    rw [extractFromBytes_pem_none rfl fun hin => hdash (hin.subset (by decide))]
    rfl
  have hall : tar.take maxImage = tar := List.take_of_length_le hlength
  rw [hall, hcertificates, imageNames_nil] at hnamed
  have htake : tar.take (setup tar gz).limits.maxDecompressedBytes = tar :=
    List.take_of_length_le (hlength.trans sizes_le)
  have hinner : analyzeDepth (setup tar gz) 4 (childName "fw.tgz")
      (tar.take (setup tar gz).limits.maxDecompressedBytes) = .ok child := by
    rw [htake, hchild]
    exact hreport
  have hnested := analyzeDepth_gzip hgzip (gunzip_gz tar gz) hinner
  obtain rfl := Except.ok.inj (hnested.symm.trans h)
  rw [← hnamed]
  have hempty : ({ newReport (setup tar gz) "fw.tgz" gz with warnings := [] } : Report).named =
      ⟨∅, ∅, ∅, ∅, ∅, ∅⟩ := named_newReport
  exact subsumed_only (finalized hinner) hempty rfl

end Unrecognised

/-- By the name that is left of `fw.tgz` the tar file in it is not recognised. -/
theorem tgz_not_transparent :
    ¬ ∀ (x : Setup) (layers : List Layer) (outerName own stored : String) (outer artifact : Bytes)
      (_ : Nests x stored artifact layers outerName outer)
      (_ : layers.length ≤ x.limits.maxArchiveDepth)
      (_ : Fits x (x.limits.maxArchiveDepth + 1 - layers.length) stored artifact),
      ∃ alone nested, analyzeBytes x own artifact = .ok alone ∧
        analyzeBytes x outerName outer = .ok nested ∧ Subsumed alone.named nested.named := by
  intro h
  have hchild : childName "fw.tgz" = "fw" := by decide
  have hgz := wraps_gz tarFile gzipFile length_tarFile "fw.tgz"
  rw [hchild] at hgz
  have hnests : Nests (setup tarFile gzipFile) "fw.hex" hexFile
      [⟨.gzip, "fw.tgz", gzipFile⟩, ⟨.tar, "fw", tarFile⟩] "fw.tgz" gzipFile :=
    .wrap hgz (.wrap (wraps_tar tarFile gzipFile "fw") .artifact)
  obtain ⟨alone, nested, halone, hnested, hsub⟩ := h _ _ "fw.tgz" "fw.hex" "fw.hex" _ _ hnests
    (Nat.le_of_ble_eq_true rfl) (fits_hexFile tarFile gzipFile 2)
  have hgzip : detectFormat RivicQ.Lib.GoStrings.asciiCase "fw.tgz" gzipFile = .gzip := by
    decide +kernel
  have hdash : 0x2d ∉ tarFile := by decide +kernel
  have hreport := report_tgz tarFile gzipFile detectFormat_tarFile hgzip hdash length_tarFile hnested
  have haes := hsub.algorithms (aes_hexFile tarFile gzipFile halone)
  exact aes_not_in_tarFile (hreport.algorithms haes)

end RivicQ.Properties.Containers
