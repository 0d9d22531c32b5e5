import RivicQ.Lib.Framing
import RivicQ.Properties.Dedup

namespace RivicQ.Properties.Identities

open RivicQ.Lib.GoStrings RivicQ.Lib.Bytes RivicQ.Lib.Numerals RivicQ.Lib.Framing RivicQ.Lib.Groups
open RivicQ.Lib.Summaries RivicQ.Intelligence.Findings RivicQ.Intelligence.Fingerprint

variable {cm : CaseMap} {f g : Finding} {s t : String}

section Bytes

theorem bytes_append (s t : String) : bytes (s ++ t) = bytes s ++ bytes t := by
  simp only [bytes, String.toUTF8, String.toByteArray_append, ByteArray.data_append,
    Array.toList_append]

theorem bytes_inj : bytes s = bytes t ↔ s = t := by
  refine ⟨fun h => ?_, congrArg bytes⟩
  exact String.toByteArray_inj.mp (ByteArray.ext (Array.toList_inj.mp h))

theorem bytes_bar : bytes "|" = [0x7c] := by decide

theorem bytes_eq_flatMap (s : String) : bytes s = s.toList.flatMap String.utf8EncodeChar := by
  rw [bytes, String.toUTF8, ← String.utf8Encode_toList, List.utf8Encode,
    List.toList_data_toByteArray]

theorem bytes_ascii (h : ∀ c ∈ s.toList, c.toNat < 128) : bytes s = ascii s := by
  have hchar : ∀ c ∈ s.toList, String.utf8EncodeChar c = [UInt8.ofNat c.toNat] := by
    intro c hc
    have hle : c.val ≤ 127 := Nat.lt_succ_iff.mp (h c hc)
    exact String.utf8EncodeChar_eq_singleton (Char.utf8Size_eq_one_iff.mpr hle)
  rw [bytes_eq_flatMap, List.flatMap_congr hchar, ascii, List.map_eq_flatMap]

/-- A numeral has no bars. -/
theorem bars_int (i : Int) : (bytes (toString i)).count 0x7c = 0 := by
  have hnat : ∀ n : Nat, (bytes (toString n)).count 0x7c = 0 := by
    intro n
    have hrange : ∀ c ∈ (toString n).toList, 48 ≤ c.toNat ∧ c.toNat ≤ 57 :=
      fun c hc => Char.isDigit_iff_toNat.mp (isDigit_of_mem hc)
    have hascii : ∀ c ∈ (toString n).toList, c.toNat < 128 := fun c hc => by
      have := hrange c hc
      omega
    rw [bytes_ascii hascii, List.count_eq_zero, ascii, List.mem_map]
    rintro ⟨c, hc, hbar⟩
    have hn := congrArg UInt8.toNat hbar
    have := hrange c hc
    rw [UInt8.toNat_ofNat'] at hn
    change c.toNat % 256 = 124 at hn
    omega
  cases i with
  | ofNat n => exact hnat n
  | negSucc n =>
    have hsign : bytes (toString (Int.negSucc n)) = bytes "-" ++ bytes (toString (n + 1)) :=
      bytes_append "-" _
    rw [hsign, List.count_append, hnat]
    decide

end Bytes

section Keys

/-- The texts of a finding that its key is joined of, before the evidence. -/
def texts (cm : CaseMap) (f : Finding) : List String := [
  toLower cm (trimSpace f.scanner), toLower cm (trimSpace f.ruleID),
  toUpper cm (trimSpace f.algorithm), toString f.keyLength, trimSpace f.location,
  toString f.line, toUpper cm (trimSpace f.cve), trimSpace f.component]

theorem bytes_intercalate (t : String) (ts : List String) :
    bytes ("|".intercalate (t :: ts)) ++ bytes "|" =
      (t :: ts).flatMap fun t => bytes t ++ [0x7c] := by
  induction ts generalizing t with
  | nil =>
    rw [List.flatMap_cons, List.flatMap_nil, List.append_nil, bytes_bar]
    rfl
  | cons u ts ih =>
    rw [String.intercalate_cons_cons, bytes_append, bytes_append, List.append_assoc, ih, bytes_bar]
    rfl

theorem fingerprintKey_eq : fingerprintKey cm f =
    ((texts cm f).flatMap fun t => bytes t ++ [0x7c]) ++ compactEvidence cm f.evidence := by
  rw [texts, ← bytes_intercalate]
  rfl

/-- The findings agree in all normalised fields but the evidence. -/
structure Agree (cm : CaseMap) (f g : Finding) : Prop where
  scanner : toLower cm (trimSpace f.scanner) = toLower cm (trimSpace g.scanner)
  ruleID : toLower cm (trimSpace f.ruleID) = toLower cm (trimSpace g.ruleID)
  algorithm : toUpper cm (trimSpace f.algorithm) = toUpper cm (trimSpace g.algorithm)
  keyLength : f.keyLength = g.keyLength
  location : trimSpace f.location = trimSpace g.location
  line : f.line = g.line
  cve : toUpper cm (trimSpace f.cve) = toUpper cm (trimSpace g.cve)
  component : trimSpace f.component = trimSpace g.component

/-- The evidence with its words in lower case, before it is cut. -/
def normalizedEvidence (cm : CaseMap) (s : String) : String :=
  " ".intercalate (fields (toLower cm s))

/-- How many bars there are in a text. -/
def bars (s : String) : Nat := (bytes s).count 0x7c

/-- The free texts have as many bars in the one finding as in the other. -/
structure SameBars (cm : CaseMap) (f g : Finding) : Prop where
  scanner : bars (toLower cm (trimSpace f.scanner)) = bars (toLower cm (trimSpace g.scanner))
  ruleID : bars (toLower cm (trimSpace f.ruleID)) = bars (toLower cm (trimSpace g.ruleID))
  algorithm : bars (toUpper cm (trimSpace f.algorithm)) = bars (toUpper cm (trimSpace g.algorithm))
  location : bars (trimSpace f.location) = bars (trimSpace g.location)
  cve : bars (toUpper cm (trimSpace f.cve)) = bars (toUpper cm (trimSpace g.cve))
  component : bars (trimSpace f.component) = bars (trimSpace g.component)

theorem key_separates (hbars : SameBars cm f g)
    (h : fingerprintKey cm f = fingerprintKey cm g) :
    Agree cm f g ∧ compactEvidence cm f.evidence = compactEvidence cm g.evidence := by
  have hnumeral : ∀ i j : Int,
      (bytes (toString i)).count 0x7c = (bytes (toString j)).count 0x7c :=
    fun i j => (bars_int i).trans (bars_int j).symm
  rw [fingerprintKey_eq, fingerprintKey_eq, ← List.flatMap_map bytes (fun b => b ++ [0x7c]),
    ← List.flatMap_map bytes (fun b => b ++ [0x7c])] at h
  have hcount : List.Forall₂ (fun s s' => s.count 0x7c = s'.count 0x7c)
      ((texts cm f).map bytes) ((texts cm g).map bytes) :=
    .cons hbars.scanner (.cons hbars.ruleID (.cons hbars.algorithm (.cons (hnumeral _ _)
      (.cons hbars.location (.cons (hnumeral _ _) (.cons hbars.cve (.cons hbars.component
        .nil)))))))
  obtain ⟨hparts, hevidence⟩ := framed_inj hcount h
  simp only [texts, List.map_cons, List.map_nil, List.cons.injEq, bytes_inj, and_true] at hparts
  obtain ⟨hscanner, hrule, halgorithm, hlength, hlocation, hline, hcve, hcomponent⟩ := hparts
  exact ⟨⟨hscanner, hrule, halgorithm, int_toString_inj.mp hlength, hlocation,
    int_toString_inj.mp hline, hcve, hcomponent⟩, hevidence⟩

end Keys

section Merging

variable {digest : List UInt8 → String} {now : Nat → Time} {fs : List Finding}

/-- The finding under the rule that it is given. -/
def ruled (cm : CaseMap) (f : Finding) : Finding := { f with ruleID := ruleIDFor cm f }

/-- The findings as they are keyed differ in a normalised field or in the evidence that counts. -/
def Apart (cm : CaseMap) (f g : Finding) : Prop :=
  SameBars cm (ruled cm f) (ruled cm g) ∧ ¬ (Agree cm (ruled cm f) (ruled cm g) ∧
    compactEvidence cm f.evidence = compactEvidence cm g.evidence)

theorem fingerprint_ne (hd : Function.Injective digest) (h : Apart cm f g) :
    digest (fingerprintKey cm (ruled cm f)) ≠ digest (fingerprintKey cm (ruled cm g)) :=
  fun heq => h.2 (key_separates h.1 (hd heq))

/-- Findings that differ stay by themselves. -/
theorem dedup_apart (hd : Function.Injective digest) (h : fs.Pairwise (Apart cm)) :
    dedupFindings cm digest now fs =
      fs.zipIdx.map fun x => finalizeFinding cm digest (now x.2) x.1 := by
  have hprints : (fs.zipIdx.map fun x => finalizeFinding cm digest (now x.2) x.1).map
      Finding.fingerprint = fs.map fun f => digest (fingerprintKey cm (ruled cm f)) := by
    have hfst := List.map_map (f := Prod.fst)
      (g := fun f => digest (fingerprintKey cm (ruled cm f))) (l := fs.zipIdx)
    rw [List.zipIdx_map_fst] at hfst
    rw [List.map_map, hfst]
    rfl
  have hnodup : ((fs.zipIdx.map fun x => finalizeFinding cm digest (now x.2) x.1).map
      Finding.fingerprint).Nodup := by
    rw [hprints]
    exact List.pairwise_map.mpr (h.imp (fingerprint_ne hd))
  have habsorbed : (group Finding.fingerprint mergeFinding
      ((fs.zipIdx.map fun x => finalizeFinding cm digest (now x.2) x.1) ++ [])).values = _ :=
    values_absorbed hnodup (List.forall_mem_nil _)
  rw [List.append_nil] at habsorbed
  unfold dedupFindings
  split_ifs with hfs
  · rw [hfs]
    rfl
  · exact habsorbed

end Merging

/-- Keys tell the findings apart by the normalised fields and the evidence that counts, where the
separators in the fields do not stand against it; nothing else is merged. -/
theorem identities_separate (cm : CaseMap) (digest : List UInt8 → String) (now : Nat → Time)
    (hdigest : Function.Injective digest) :
    (∀ f g, SameBars cm f g → fingerprintKey cm f = fingerprintKey cm g →
      Agree cm f g ∧ compactEvidence cm f.evidence = compactEvidence cm g.evidence) ∧
    ∀ fs : List Finding, fs.Pairwise (Apart cm) → dedupFindings cm digest now fs =
      fs.zipIdx.map fun x => finalizeFinding cm digest (now x.2) x.1 :=
  ⟨fun _ _ => key_separates, fun _ => dedup_apart hdigest⟩

def plainText : Finding := { ruleID := "crypto.md5", location := "a.go" }

def otherText : Finding := { ruleID := "crypto.md5", location := "b.go" }

theorem apart_texts : Apart asciiCase plainText otherText := by
  refine ⟨⟨rfl, rfl, rfl, by decide, rfl, rfl⟩, fun h => ?_⟩
  exact absurd h.1.location (by decide)

theorem identities_separate_two : Function.Injective Dedup.sampleDigest ∧
    dedupFindings asciiCase Dedup.sampleDigest (fun n => n + 1) [plainText, otherText] =
      [plainText, otherText].zipIdx.map fun x =>
        finalizeFinding asciiCase Dedup.sampleDigest (x.2 + 1) x.1 :=
  ⟨Dedup.sampleDigest_injective, (identities_separate asciiCase Dedup.sampleDigest
    (fun n => n + 1) Dedup.sampleDigest_injective).2 [plainText, otherText]
      (List.pairwise_pair.mpr apart_texts)⟩

section Cut

/-- A word of evidence. -/
def word (n : Nat) : String := String.ofList (List.replicate n 'a')

theorem normalizedEvidence_word (n : Nat) :
    normalizedEvidence asciiCase (word (n + 1)) = word (n + 1) := by
  have hlower : toLower asciiCase (word (n + 1)) = word (n + 1) := by
    rw [toLower, word, String.toList_ofList, List.map_replicate]
    rfl
  have hsplit : (List.replicate (n + 1) 'a').splitOnP isSpace = [List.replicate (n + 1) 'a'] := by
    refine List.splitOnP_eq_singleton fun c hc => ?_
    rw [List.eq_of_mem_replicate hc]
    decide
  have hfields : fields (word (n + 1)) = [word (n + 1)] := by
    rw [fields, word, String.toList_ofList, hsplit]
    rfl
  rw [normalizedEvidence, hlower, hfields]
  rfl

theorem compactEvidence_word {n : Nat} (hn : 160 ≤ n + 1) :
    compactEvidence asciiCase (word (n + 1)) = List.replicate 160 0x61 := by
  have hbytes : bytes (word (n + 1)) = List.replicate (n + 1) 0x61 := by
    rw [bytes_ascii, ascii, word, String.toList_ofList, List.map_replicate]
    · rfl
    · intro c hc
      rw [word, String.toList_ofList] at hc
      rw [List.eq_of_mem_replicate hc]
      decide
  have hcompact : compactEvidence asciiCase (word (n + 1)) =
      (bytes (normalizedEvidence asciiCase (word (n + 1)))).take 160 := rfl
  rw [hcompact, normalizedEvidence_word, hbytes, List.take_replicate, min_eq_left hn]

theorem key_of_evidence {e e' : String} (h : compactEvidence cm e = compactEvidence cm e') :
    fingerprintKey cm { evidence := e } = fingerprintKey cm { evidence := e' } := by
  have htexts : texts cm { evidence := e } = texts cm { evidence := e' } := by
    simp only [texts]
  rw [fingerprintKey_eq, fingerprintKey_eq, htexts]
  dsimp only
  rw [h]

/-- Evidence that differs behind its 160th byte has one key. -/
theorem cut_evidence_shared : ¬ ∀ (cm : CaseMap) (f g : Finding),
    fingerprintKey cm f = fingerprintKey cm g →
      Agree cm f g ∧ normalizedEvidence cm f.evidence = normalizedEvidence cm g.evidence := by
  intro h
  have hcompact : compactEvidence asciiCase (word 160) = compactEvidence asciiCase (word 161) :=
    (compactEvidence_word (by decide)).trans (compactEvidence_word (by decide)).symm
  have heq := (h asciiCase { evidence := word 160 } { evidence := word 161 }
    (key_of_evidence hcompact)).2
  rw [normalizedEvidence_word, normalizedEvidence_word, word, word, String.ofList_inj] at heq
  have hlength := congrArg List.length heq
  rw [List.length_replicate, List.length_replicate] at hlength
  exact absurd hlength (by decide)

end Cut

end RivicQ.Properties.Identities
