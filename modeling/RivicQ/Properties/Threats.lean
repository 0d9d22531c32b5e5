import Mathlib
import RivicQ.Enterprise.Threats
import RivicQ.Lib.Firsts
import RivicQ.Lib.Framing
import RivicQ.Quantum.QiskitProfile

namespace RivicQ.Properties.ThreatStats

open RivicQ.Lib.GoStrings RivicQ.Lib.Tables RivicQ.Lib.Firsts RivicQ.Lib.Numerals
open RivicQ.Quantum.QiskitProfile RivicQ.Enterprise.Threats

variable {assets : List CryptoAssetRow} {a : CryptoAssetRow} {k : String}

section Groups

/-- The keys of an inventory. -/
def keys (assets : List CryptoAssetRow) : List String := assets.map CryptoAssetRow.algorithmKey

/-- The assets of a key. -/
def under (k : String) (assets : List CryptoAssetRow) : List CryptoAssetRow :=
  assets.filter fun a => a.algorithmKey = k

def tallyOf (assets : List CryptoAssetRow) (k : String) : Tally :=
  (under k assets).foldl Tally.add (newTally k)

theorem under_concat_same :
    under a.algorithmKey (assets ++ [a]) = under a.algorithmKey assets ++ [a] := by
  simp [under]

theorem under_concat_other (h : k ≠ a.algorithmKey) :
    under k (assets ++ [a]) = under k assets := by
  simp [under, Ne.symm h]

theorem tallyOf_concat_same :
    tallyOf (assets ++ [a]) a.algorithmKey = (tallyOf assets a.algorithmKey).add a := by
  rw [tallyOf, under_concat_same, List.foldl_append]
  rfl

theorem tallyOf_concat_other (h : k ≠ a.algorithmKey) :
    tallyOf (assets ++ [a]) k = tallyOf assets k := by
  rw [tallyOf, under_concat_other h, tallyOf]

theorem tallyOf_new (h : k ∉ keys assets) : tallyOf assets k = newTally k := by
  have hnone : under k assets = [] := by
    refine List.filter_eq_nil_iff.mpr fun a ha hk => h ?_
    exact List.mem_map.mpr ⟨a, ha, of_decide_eq_true hk⟩
  rw [tallyOf, hnone]
  rfl

/-- The loop has met the keys in their order, and tallied the assets of each. -/
theorem groups_eq (assets : List CryptoAssetRow) :
    (assets.foldl Groups.add {}).order = firsts id (keys assets) ∧
      ∀ k, (assets.foldl Groups.add {}).byKey.lookup k =
        if k ∈ keys assets then some (tallyOf assets k) else none := by
  induction assets using List.reverseRecOn with
  | nil => exact ⟨rfl, fun k => rfl⟩
  | append_singleton assets a ih =>
    obtain ⟨horder, hlookup⟩ := ih
    have hkeys : keys (assets ++ [a]) = keys assets ++ [a.algorithmKey] := List.map_append
    rw [List.foldl_append, List.foldl_cons, List.foldl_nil, Groups.add, hlookup, hkeys]
    by_cases hmem : a.algorithmKey ∈ keys assets
    · rw [if_pos hmem]
      refine ⟨?_, fun k => ?_⟩
      · rw [firsts, firstsFrom_concat_old (.inr (by rwa [List.map_id]))]
        exact horder
      · change (AList.insert _ _ _).lookup k = _
        rw [lookup_insert_if, hlookup]
        by_cases hk : k = a.algorithmKey
        · subst hk
          rw [if_pos rfl, if_pos (List.mem_append_left _ hmem), tallyOf_concat_same]
        · rw [if_neg hk, tallyOf_concat_other hk]
          simp only [List.mem_append, List.mem_singleton, hk, or_false]
    · rw [if_neg hmem]
      refine ⟨?_, fun k => ?_⟩
      · rw [firsts, firstsFrom_concat_new List.not_mem_nil (by rwa [List.map_id])]
        exact congrArg (· ++ [a.algorithmKey]) horder
      · change (AList.insert _ _ _).lookup k = _
        rw [lookup_insert_if, hlookup]
        by_cases hk : k = a.algorithmKey
        · subst hk
          rw [if_pos rfl, if_pos (List.mem_append_right _ List.mem_cons_self), tallyOf_concat_same,
            tallyOf_new hmem]
        · rw [if_neg hk, tallyOf_concat_other hk]
          simp only [List.mem_append, List.mem_singleton, hk, or_false]

theorem mem_firsts_keys : k ∈ firsts id (keys assets) ↔ k ∈ keys assets := by
  have hmem : k ∈ (firsts id (keys assets)).map id ↔ k ∈ (keys assets).map id := mem_map_firsts
  simpa only [List.map_id] using hmem

theorem nodup_firsts_keys (assets : List CryptoAssetRow) : (firsts id (keys assets)).Nodup := by
  have hnodup : ((firstsFrom id [] (keys assets)).map id).Nodup := nodup_firstsFrom
  rwa [List.map_id] at hnodup

/-- There is one stat for each key, the one of its tally. -/
theorem aggregate_perm (assets : List CryptoAssetRow) : (aggregateByAlgorithm assets).Perm
    ((firsts id (keys assets)).map fun k => (tallyOf assets k).finish) := by
  obtain ⟨horder, hlookup⟩ := groups_eq assets
  have htallies : (firsts id (keys assets)).filterMap (assets.foldl Groups.add {}).byKey.lookup =
      (firsts id (keys assets)).map (tallyOf assets) := by
    rw [← List.filterMap_eq_map]
    refine List.filterMap_congr fun k hk => ?_
    rw [hlookup, if_pos (mem_firsts_keys.mp hk)]
    rfl
  refine (List.mergeSort_perm _ _).trans ?_
  rw [horder, htallies, List.map_map]
  exact List.Perm.refl _

theorem mem_aggregate {st : AlgorithmStat} : st ∈ aggregateByAlgorithm assets ↔
    ∃ k ∈ keys assets, (tallyOf assets k).finish = st := by
  rw [(aggregate_perm assets).mem_iff, List.mem_map]
  simp only [mem_firsts_keys]

end Groups

section Tallies

theorem foldl_add (st : Tally) (as : List CryptoAssetRow) :
    (as.foldl Tally.add st).algorithm = st.algorithm ∧
    (as.foldl Tally.add st).usage = st.usage + as.length ∧
    (as.foldl Tally.add st).quantumSafe = st.quantumSafe ∧
    (as.foldl Tally.add st).vulnerable = st.vulnerable := by
  induction as generalizing st with
  | nil => exact ⟨rfl, rfl, rfl, rfl⟩
  | cons a as ih =>
    obtain ⟨halgorithm, husage, hsafe, hvulnerable⟩ := ih (st.add a)
    refine ⟨halgorithm, husage.trans ?_, hsafe, hvulnerable⟩
    rw [List.length_cons]
    change st.usage + 1 + as.length = _
    omega

/-- The greatest score of some assets, or the one that was there before. -/
theorem isGreatest_foldl_add (st : Tally) (as : List CryptoAssetRow) :
    IsGreatest {v | v = st.vulnerability ∨ ∃ a ∈ as, a.vulnerability = v}
      (as.foldl Tally.add st).vulnerability := by
  induction as generalizing st with
  | nil =>
    refine ⟨.inl rfl, ?_⟩
    rintro v (rfl | ⟨a, ha, -⟩)
    · exact Int.le_refl _
    · cases ha
  | cons a as ih =>
    have hstep : st.vulnerability ≤ (st.add a).vulnerability ∧
        a.vulnerability ≤ (st.add a).vulnerability ∧
        ((st.add a).vulnerability = st.vulnerability ∨
          (st.add a).vulnerability = a.vulnerability) := by
      change _ ≤ (if _ then _ else _) ∧ _ ≤ (if _ then _ else _) ∧ ((if _ then _ else _) = _ ∨
        (if _ then _ else _) = _)
      split_ifs <;> omega
    obtain ⟨hmem, hupper⟩ := ih (st.add a)
    have hbound := hupper (.inl rfl)
    constructor
    · obtain hmem | ⟨b, hb, hmem⟩ := hmem
      · obtain h | h := hstep.2.2
        · exact .inl (hmem.trans h)
        · exact .inr ⟨a, List.mem_cons_self, (hmem.trans h).symm⟩
      · exact .inr ⟨b, List.mem_cons_of_mem a hb, hmem⟩
    · rintro v (rfl | ⟨b, hb, rfl⟩)
      · exact hstep.1.trans hbound
      · obtain rfl | hb := List.mem_cons.mp hb
        · exact hstep.2.1.trans hbound
        · exact hupper (.inr ⟨b, hb, rfl⟩)

theorem length_under (k : String) (assets : List CryptoAssetRow) :
    (under k assets).length = (keys assets).count k := by
  rw [under, keys, List.count_eq_length_filter, List.filter_map, List.length_map]
  refine congrArg List.length (List.filter_congr fun a _ => ?_)
  simp only [Function.comp_apply, Bool.beq_eq_decide_eq]

/-- Every asset is under one key. -/
theorem sum_under (assets : List CryptoAssetRow) :
    ((firsts id (keys assets)).map fun k => (under k assets).length).sum = assets.length := by
  have hperm : (firsts id (keys assets)).Perm (keys assets).dedup := by
    rw [List.perm_ext_iff_of_nodup (nodup_firsts_keys assets) (List.nodup_dedup _)]
    intro k
    rw [mem_firsts_keys, List.mem_dedup]
  have hlength : (keys assets).length = assets.length := List.length_map _
  rw [(hperm.map _).sum_eq, ← hlength, ← List.sum_map_count_dedup_eq_length]
  simp only [length_under]

theorem tallyOf_fields (assets : List CryptoAssetRow) (k : String) :
    (tallyOf assets k).algorithm = k ∧ (tallyOf assets k).usage = (under k assets).length ∧
    (tallyOf assets k).quantumSafe = (classifyAlgorithm k).2 ∧
    (tallyOf assets k).vulnerable = (classifyAlgorithm k).1 := by
  obtain ⟨halgorithm, husage, hsafe, hvulnerable⟩ := foldl_add (newTally k) (under k assets)
  exact ⟨halgorithm, husage.trans (Nat.zero_add _), hsafe, hvulnerable⟩

theorem sum_usage (assets : List CryptoAssetRow) :
    ((aggregateByAlgorithm assets).map fun st => st.usage).sum = assets.length := by
  rw [((aggregate_perm assets).map _).sum_eq, List.map_map, ← sum_under]
  refine congrArg List.sum (List.map_congr_left fun k _ => ?_)
  exact (tallyOf_fields assets k).2.1

/-- The scores of the assets of a key. -/
def scores (k : String) (assets : List CryptoAssetRow) : Set Int :=
  {v | ∃ a ∈ assets, a.algorithmKey = k ∧ a.vulnerability = v}

theorem mem_under {b : CryptoAssetRow} :
    b ∈ under k assets ↔ b ∈ assets ∧ b.algorithmKey = k := by
  rw [under, List.mem_filter, decide_eq_true_eq]

/-- A stat shows the greatest score of its assets if one of them is not negative, and only then. -/
theorem isGreatest_iff : IsGreatest (scores k assets) (tallyOf assets k).vulnerability ↔
    ∃ b ∈ assets, b.algorithmKey = k ∧ 0 ≤ b.vulnerability := by
  have hgreatest := isGreatest_foldl_add (newTally k) (under k assets)
  change IsGreatest {v | v = 0 ∨ ∃ a ∈ under k assets, a.vulnerability = v}
    (tallyOf assets k).vulnerability at hgreatest
  have hnonneg : 0 ≤ (tallyOf assets k).vulnerability := hgreatest.2 (.inl rfl)
  have hupper : ∀ b ∈ assets, b.algorithmKey = k →
      b.vulnerability ≤ (tallyOf assets k).vulnerability :=
    fun b hb hk => hgreatest.2 (.inr ⟨b, mem_under.mpr ⟨hb, hk⟩, rfl⟩)
  constructor
  · rintro ⟨⟨b, hb, hk, hscore⟩, -⟩
    exact ⟨b, hb, hk, hscore ▸ hnonneg⟩
  · rintro ⟨b, hb, hk, hscore⟩
    refine ⟨?_, ?_⟩
    · obtain hzero | ⟨c, hc, hscore⟩ := hgreatest.1
      · refine ⟨b, hb, hk, le_antisymm (hupper b hb hk) ?_⟩
        rwa [hzero]
      · obtain ⟨hc, hk⟩ := mem_under.mp hc
        exact ⟨c, hc, hk, hscore⟩
    · rintro v ⟨c, hc, hk, rfl⟩
      exact hupper c hc hk

end Tallies

section Tables

/-- The rows of a table that go on after a front, without it. -/
def suffixes (front : String) (table : List String) : List (List Char) :=
  table.filterMap fun t =>
    if front.toList <+: t.toList then some (t.toList.drop front.toList.length) else none

theorem append_mem_iff {front rest : String} {table : List String} :
    front ++ rest ∈ table ↔ rest.toList ∈ suffixes front table := by
  rw [suffixes, List.mem_filterMap]
  constructor
  · intro h
    refine ⟨front ++ rest, h, ?_⟩
    rw [String.toList_append, if_pos (List.prefix_append _ _), List.drop_left]
  · rintro ⟨t, ht, h⟩
    obtain ⟨⟨u, hu⟩, hrest⟩ := Option.ite_none_right_eq_some.mp h
    rw [← hu, List.drop_left, Option.some.injEq] at hrest
    have hwhole : front ++ rest = t := by
      rw [← String.toList_inj, String.toList_append, ← hrest, hu]
    rwa [hwhole]

def Sized (a : CryptoAssetRow) : Prop :=
  a.keySize > 0 ∧ a.algorithm ∈ ["RSA", "DSA", "DH", "ECDH"]

/-- An asset whose key is in the table of vulnerable algorithms. -/
def Listed (a : CryptoAssetRow) : Prop :=
  a.algorithm ∈ quantumVulnerableAlgorithms ∧ ¬ Sized a ∨
    a.algorithm = "RSA" ∧ a.keySize ∈ [1024, 2048, 3072, 4096]

theorem suffixes_rsa : suffixes "RSA-" quantumVulnerableAlgorithms =
    ["1024".toList, "2048".toList, "3072".toList, "4096".toList] := by decide

theorem suffixes_others : suffixes "DSA-" quantumVulnerableAlgorithms = [] ∧
    suffixes "DH-" quantumVulnerableAlgorithms = [] ∧
    suffixes "ECDH-" quantumVulnerableAlgorithms = [] := by decide

theorem size_mem_iff {n : Int} :
    (toString n).toList ∈ suffixes "RSA-" quantumVulnerableAlgorithms ↔
      n ∈ [1024, 2048, 3072, 4096] := by
  have hsize : ∀ m : Int, (toString n).toList = (toString m).toList ↔ n = m := fun m => by
    rw [String.toList_inj, int_toString_inj]
  rw [suffixes_rsa]
  simp only [List.mem_cons, List.not_mem_nil, or_false]
  rw [← hsize 1024, ← hsize 2048, ← hsize 3072, ← hsize 4096]
  exact Iff.rfl

theorem listed_iff : Listed a ↔ a.algorithmKey ∈ quantumVulnerableAlgorithms := by
  by_cases hsized : Sized a
  · have hkey : a.algorithmKey = a.algorithm ++ "-" ++ toString a.keySize := if_pos hsized
    have hlisted : Listed a ↔ a.algorithm = "RSA" ∧ a.keySize ∈ [1024, 2048, 3072, 4096] :=
      or_iff_right fun h => h.2 hsized
    rw [hkey, append_mem_iff, hlisted]
    obtain ⟨hdsa, hdh, hecdh⟩ := suffixes_others
    have hnames := hsized.2
    simp only [List.mem_cons, List.not_mem_nil, or_false] at hnames
    obtain h | h | h | h := hnames
    · rw [h]
      exact (and_iff_right rfl).trans size_mem_iff.symm
    · rw [h]
      exact iff_of_false (fun h => absurd h.1 (by decide)) (hdsa ▸ List.not_mem_nil)
    · rw [h]
      exact iff_of_false (fun h => absurd h.1 (by decide)) (hdh ▸ List.not_mem_nil)
    · rw [h]
      exact iff_of_false (fun h => absurd h.1 (by decide)) (hecdh ▸ List.not_mem_nil)
  · have hkey : a.algorithmKey = a.algorithm := if_neg hsized
    rw [hkey, Listed, and_iff_left hsized]
    refine or_iff_left ?_
    rintro ⟨hrsa, hsize⟩
    refine hsized ⟨?_, by rw [hrsa]; exact List.mem_cons_self⟩
    simp only [List.mem_cons, List.not_mem_nil, or_false] at hsize
    omega

theorem classifyAlgorithm_vulnerable (h : k ∈ quantumVulnerableAlgorithms) :
    classifyAlgorithm k = (true, false) := by
  have hapart : ∀ k ∈ quantumVulnerableAlgorithms, k ∉ quantumSafeAlgorithms := by decide
  rw [classifyAlgorithm, decide_eq_true h, decide_eq_false (hapart k h)]

end Tables

section Soundness

/-- The usages add up, the scores are maxima, and the assets that Shor's algorithm breaks are
reported. -/
structure Sound (cm : CaseMap) (assets : List CryptoAssetRow) (now : Time) : Prop where
  usage : ((aggregateByAlgorithm assets).map fun st => st.usage).sum = assets.length
  vulnerability : ∀ st ∈ aggregateByAlgorithm assets,
    IsGreatest (scores st.algorithm assets) st.vulnerability
  reported : ∀ a ∈ assets, (classify cm a.algorithm a.keySize).attackClass = .shor →
    ∃ st ∈ aggregateByAlgorithm assets, st.algorithm = a.algorithmKey ∧
      st.vulnerable = true ∧ st.quantumSafe = false ∧ threatOf assets now st ∈ detect assets now

theorem vulnerability_iff : (∀ st ∈ aggregateByAlgorithm assets,
    IsGreatest (scores st.algorithm assets) st.vulnerability) ↔
    ∀ a ∈ assets, ∃ b ∈ assets, b.algorithmKey = a.algorithmKey ∧ 0 ≤ b.vulnerability := by
  constructor
  · intro h a ha
    have hst := h _ (mem_aggregate.mpr ⟨a.algorithmKey, List.mem_map_of_mem ha, rfl⟩)
    obtain ⟨halgorithm, -⟩ := tallyOf_fields assets a.algorithmKey
    change IsGreatest (scores (tallyOf assets a.algorithmKey).algorithm assets)
      (tallyOf assets a.algorithmKey).vulnerability at hst
    rw [halgorithm] at hst
    exact isGreatest_iff.mp hst
  · intro h st hst
    obtain ⟨k, hk, rfl⟩ := mem_aggregate.mp hst
    obtain ⟨a, ha, rfl⟩ := List.mem_map.mp hk
    obtain ⟨halgorithm, -⟩ := tallyOf_fields assets a.algorithmKey
    change IsGreatest (scores (tallyOf assets a.algorithmKey).algorithm assets)
      (tallyOf assets a.algorithmKey).vulnerability
    rw [halgorithm]
    exact isGreatest_iff.mpr (h a ha)

/-- The stat of an asset is flagged, and then reported, if its key is listed, and only then. -/
theorem flagged_iff (now : Time) (ha : a ∈ assets) : (∃ st ∈ aggregateByAlgorithm assets,
    st.algorithm = a.algorithmKey ∧ st.vulnerable = true ∧ st.quantumSafe = false ∧
      threatOf assets now st ∈ detect assets now) ↔ Listed a := by
  rw [listed_iff]
  constructor
  · rintro ⟨st, hst, halgorithm, hvulnerable, -⟩
    obtain ⟨k, -, rfl⟩ := mem_aggregate.mp hst
    obtain ⟨hk, -, -, hflag⟩ := tallyOf_fields assets k
    have hkey : k = a.algorithmKey := hk.symm.trans halgorithm
    have hlisted : (classifyAlgorithm k).1 = true := hflag.symm.trans hvulnerable
    exact hkey ▸ of_decide_eq_true hlisted
  · intro hlisted
    obtain ⟨hk, -, hsafe, hflag⟩ := tallyOf_fields assets a.algorithmKey
    rw [classifyAlgorithm_vulnerable hlisted] at hsafe hflag
    have hst := mem_aggregate.mpr ⟨a.algorithmKey, List.mem_map_of_mem ha, rfl⟩
    refine ⟨_, hst, hk, hflag, hsafe, List.mem_map_of_mem (List.mem_filter.mpr ⟨hst, ?_⟩)⟩
    change (!((tallyOf assets a.algorithmKey).quantumSafe &&
      !(tallyOf assets a.algorithmKey).vulnerable)) = true
    rw [hsafe, hflag]
    rfl

/-- The aggregation is sound if every key has an asset whose score is not negative and every asset
that Shor's algorithm breaks has its key in the table, and only then. -/
theorem aggregation_sound_iff (cm : CaseMap) (assets : List CryptoAssetRow) (now : Time) :
    Sound cm assets now ↔
      (∀ a ∈ assets, ∃ b ∈ assets, b.algorithmKey = a.algorithmKey ∧ 0 ≤ b.vulnerability) ∧
      ∀ a ∈ assets, (classify cm a.algorithm a.keySize).attackClass = .shor → Listed a := by
  constructor
  · rintro ⟨-, hvulnerability, hreported⟩
    exact ⟨vulnerability_iff.mp hvulnerability,
      fun a ha hshor => (flagged_iff now ha).mp (hreported a ha hshor)⟩
  · rintro ⟨hscores, hlisted⟩
    exact ⟨sum_usage assets, vulnerability_iff.mpr hscores,
      fun a ha hshor => (flagged_iff now ha).mpr (hlisted a ha hshor)⟩

def agreement : CryptoAssetRow := ⟨"asset-1", "X25519", 256, "tls.go", 70, false⟩

/-- X25519 is taken for quantum safe. -/
theorem x25519_unreported :
    ¬ ∀ (cm : CaseMap) (assets : List CryptoAssetRow) (now : Time), Sound cm assets now := by
  intro h
  have hreported := (h asciiCase [agreement] 0).reported agreement List.mem_cons_self (by decide)
  exact absurd ((flagged_iff 0 List.mem_cons_self).mp hreported)
    (mt listed_iff.mp (by decide))

end Soundness

end RivicQ.Properties.ThreatStats

namespace RivicQ.Properties.ThreatEvents

open RivicQ.Lib.GoStrings RivicQ.Lib.Numerals RivicQ.Lib.Patterns RivicQ.Lib.Firsts
open RivicQ.Enterprise.Threats RivicQ.Properties.ThreatStats

section Identifiers

variable {c d : Char} {s : String} {events : List SecurityEvent} {tenantID source : String}

theorem literal_of_toNat (h : c.toNat ≠ 37 ∧ c.toNat ≠ 95 ∧ c.toNat ≠ 92) : Literal c :=
  ⟨fun hc => h.1 (congrArg Char.toNat hc), fun hc => h.2.1 (congrArg Char.toNat hc),
    fun hc => h.2.2 (congrArg Char.toNat hc)⟩

theorem literal_slugRune (h : slugRune c = some d) : Literal d := by
  unfold slugRune at h
  split_ifs at h with halnum hdash
  · have hrange : (97 ≤ c.toNat ∧ c.toNat ≤ 122) ∨ (65 ≤ c.toNat ∧ c.toNat ≤ 90) ∨
        (48 ≤ c.toNat ∧ c.toNat ≤ 57) := halnum
    rw [← Option.some.inj h]
    apply literal_of_toNat
    rw [toNat_toLower]
    split <;> omega
  · rw [← Option.some.inj h]
    decide

theorem literal_int (i : Int) : ∀ c ∈ (toString i).toList, Literal c := by
  have hdigits : ∀ (n : Nat), ∀ c ∈ (toString n).toList, Literal c := by
    intro n c hc
    have hdigit := isDigit_of_mem hc
    refine ⟨?_, ?_, ?_⟩ <;> rintro rfl <;> exact absurd hdigit (by decide)
  intro c hc
  cases i with
  | ofNat n => exact hdigits n c hc
  | negSucc n =>
    rw [toString_negSucc, String.toList_append, List.mem_append] at hc
    obtain hc | hc := hc
    · rw [List.mem_singleton.mp hc]
      decide
    · exact hdigits (n + 1) c hc

theorem literal_threatID (algorithm : String) (now : Time) :
    ∀ c ∈ (threatID algorithm now).toList, Literal c := by
  intro c hc
  unfold threatID slugify at hc
  simp only [String.toList_append, String.toList_ofList, List.mem_append, List.mem_filterMap] at hc
  obtain ((hc | ⟨b, -, hc⟩) | hc) | hc := hc
  · have hfront : ("threat-".toList.all fun c => decide (Literal c)) = true := by decide
    exact of_decide_eq_true (List.all_eq_true.mp hfront c hc)
  · exact literal_slugRune hc
  · rw [List.mem_singleton.mp hc]
    decide
  · exact literal_int _ c hc

theorem eventExists_iff (algorithm : String) (now : Time) :
    eventExistsForSource events tenantID source (threatID algorithm now) = true ↔
      ∃ e ∈ events, e.tenantID = tenantID ∧ e.source = source ∧
        (threatID algorithm now).toList <:+: e.metadata.toList := by
  rw [eventExistsForSource, decide_eq_true_eq, gt_iff_lt, List.countP_pos_iff]
  refine exists_congr fun e => and_congr_right fun _ => ?_
  rw [decide_eq_true_eq, like_infix (literal_threatID algorithm now)]

end Identifiers

section Runs

variable (text : ThreatDetection → String) (server : Server) (tenantID : String)
  (assets : List CryptoAssetRow)

def Severe (t : ThreatDetection) : Prop := t.severity = .critical ∨ t.severity = .high

instance (t : ThreatDetection) : Decidable (Severe t) := inferInstanceAs (Decidable (_ ∨ _))

/-- An event of the tenant has the threat's identifier in its metadata. -/
def Known (tenantID : String) (events : List SecurityEvent) (t : ThreatDetection) : Prop :=
  ∃ e ∈ events, e.tenantID = tenantID ∧ e.source = t.source ∧ t.id.toList <:+: e.metadata.toList

instance (events : List SecurityEvent) (t : ThreatDetection) :
    Decidable (Known tenantID events t) :=
  inferInstanceAs (Decidable (∃ e ∈ events, _))

/-- A threat that the loop comes to insert. -/
def Missing (events : List SecurityEvent) (t : ThreatDetection) : Prop :=
  Severe t ∧ server.lookup t.id = none ∧ ¬ Known tenantID events t

instance (events : List SecurityEvent) (t : ThreatDetection) :
    Decidable (Missing server tenantID events t) :=
  inferInstanceAs (Decidable (_ ∧ _ ∧ _))

/-- The stats whose threats a run inserts. -/
def news (now : Time) : List AlgorithmStat → List SecurityEvent → List AlgorithmStat
  | [], _ => []
  | st :: stats, events =>
    if Missing server tenantID events (threatOf assets now st) then
      if (server.insert (threatOf assets now st).id).isSome then []
      else st :: news now stats (events ++ [eventOf text tenantID (threatOf assets now st)])
    else news now stats events

variable {text server tenantID assets} {now : Time} {stats : List AlgorithmStat}
  {events : List SecurityEvent}

theorem persist_eq : (persistThreatEvents text server tenantID (stats.map (threatOf assets now))
    events).2 = events ++ (news text server tenantID assets now stats events).map
      fun st => eventOf text tenantID (threatOf assets now st) := by
  induction stats generalizing events with
  | nil => exact (List.append_nil events).symm
  | cons st stats ih =>
    have hexists :=
      @eventExists_iff events tenantID (threatOf assets now st).source st.algorithm now
    rw [List.map_cons, persistThreatEvents, news]
    by_cases hsevere : Severe (threatOf assets now st)
    · rw [if_neg (by unfold Severe at hsevere; tauto)]
      by_cases hskip : (server.lookup (threatOf assets now st).id).isSome ∨
          eventExistsForSource events tenantID (threatOf assets now st).source
            (threatOf assets now st).id
      · have hmissing : ¬ Missing server tenantID events (threatOf assets now st) := by
          rintro ⟨-, hlookup, hknown⟩
          obtain hsome | hthere := hskip
          · rw [hlookup] at hsome
            cases hsome
          · exact hknown (hexists.mp hthere)
        rw [if_pos hskip, if_neg hmissing, ih]
      · obtain ⟨hlookup, hnot⟩ := not_or.mp hskip
        have hmissing : Missing server tenantID events (threatOf assets now st) :=
          ⟨hsevere, Option.not_isSome_iff_eq_none.mp hlookup,
            fun hknown => hnot (hexists.mpr hknown)⟩
        rw [if_neg hskip, if_pos hmissing]
        cases hinsert : server.insert (threatOf assets now st).id with
        | some err => exact (List.append_nil events).symm
        | none =>
          rw [Option.isSome_none, if_neg Bool.false_ne_true, List.map_cons]
          exact ih.trans (List.append_cons _ _ _).symm
    · have hmissing : ¬ Missing server tenantID events (threatOf assets now st) :=
        fun hmissing => hsevere hmissing.1
      rw [if_pos (by unfold Severe at hsevere; tauto), if_neg hmissing, ih]

theorem news_sublist : (news text server tenantID assets now stats events).Sublist stats := by
  induction stats generalizing events with
  | nil => exact List.Sublist.refl _
  | cons st stats ih =>
    rw [news]
    split_ifs
    · exact List.nil_sublist _
    · exact ih.cons_cons st
    · exact ih.cons st

/-- Nothing is inserted if the first threat that the loop comes to insert is refused, and only
then. -/
theorem news_eq_nil_iff : news text server tenantID assets now stats events = [] ↔
    ∀ t, (stats.map (threatOf assets now)).find? (Missing server tenantID events ·) = some t →
      (server.insert t.id).isSome := by
  induction stats with
  | nil => exact iff_of_true rfl nofun
  | cons st stats ih =>
    rw [news, List.map_cons, List.find?_cons]
    by_cases hmissing : Missing server tenantID events (threatOf assets now st)
    · rw [if_pos hmissing, decide_eq_true hmissing]
      simp only [Option.some.injEq, forall_eq']
      by_cases hrefused : (server.insert (threatOf assets now st).id).isSome = true
      · rw [if_pos hrefused]
        exact iff_of_true rfl hrefused
      · rw [if_neg hrefused]
        exact iff_of_false (List.cons_ne_nil _ _) hrefused
    · rw [if_neg hmissing, decide_eq_false hmissing, ih]

end Runs

section Once

/-- A run: the server it meets, and its time. -/
abbrev Step := Server × Time

variable (text : ThreatDetection → String) (tenantID : String) (assets : List CryptoAssetRow)

/-- The stats that are reported. -/
def reported (assets : List CryptoAssetRow) : List AlgorithmStat :=
  (aggregateByAlgorithm assets).filter fun st => !(st.quantumSafe && !st.vulnerable)

def runOnce (step : Step) (events : List SecurityEvent) : List SecurityEvent :=
  (persistThreatEvents text step.1 tenantID (detect assets step.2) events).2

def runs (steps : List Step) (events : List SecurityEvent) : List SecurityEvent :=
  steps.foldl (fun events step => runOnce text tenantID assets step events) events

/-- The algorithms of the events, in the order in which the runs insert them. -/
def record : List Step → List SecurityEvent → List String
  | [], _ => []
  | step :: later, events =>
    (news text step.1 tenantID assets step.2 (reported assets) events).map (·.algorithm) ++
      record later (runOnce text tenantID assets step events)

/-- The runs record each algorithm once, and those after the first change nothing. -/
structure Once (events : List SecurityEvent) (first : Step) (later : List Step) : Prop where
  recorded : (record text tenantID assets (first :: later) events).Nodup
  settled : runs text tenantID assets (first :: later) events =
    runOnce text tenantID assets first events

/-- The first threat that a run comes to insert, if there is one, is refused. -/
def Quiet (step : Step) (events : List SecurityEvent) : Prop :=
  ∀ t, (detect assets step.2).find? (Missing step.1 tenantID events ·) = some t →
    (step.1.insert t.id).isSome

/-- Every step of some runs is quiet in the state it meets. -/
def Settled : List Step → List SecurityEvent → Prop
  | [], _ => True
  | step :: later, events =>
    Quiet tenantID assets step events ∧ Settled later (runOnce text tenantID assets step events)

variable {text tenantID assets} {events : List SecurityEvent} {step first : Step}
  {later : List Step}

theorem runOnce_eq : runOnce text tenantID assets step events = events ++
    (news text step.1 tenantID assets step.2 (reported assets) events).map
      fun st => eventOf text tenantID (threatOf assets step.2 st) := persist_eq

theorem runOnce_eq_self_iff :
    runOnce text tenantID assets step events = events ↔ Quiet tenantID assets step events := by
  rw [runOnce_eq, List.append_right_eq_self, List.map_eq_nil_iff]
  exact news_eq_nil_iff

theorem prefix_runs : events <+: runs text tenantID assets later events := by
  induction later generalizing events with
  | nil => exact List.prefix_refl _
  | cons step later ih =>
    have hstep : events <+: runOnce text tenantID assets step events :=
      runOnce_eq ▸ List.prefix_append _ _
    exact hstep.trans ih

/-- Some runs change nothing if every step is quiet, and only then. -/
theorem runs_eq_self_iff : runs text tenantID assets later events = events ↔
    Settled text tenantID assets later events := by
  induction later generalizing events with
  | nil => exact iff_of_true rfl trivial
  | cons step later ih =>
    rw [Settled, ← ih, ← runOnce_eq_self_iff]
    change runs text tenantID assets later (runOnce text tenantID assets step events) = events ↔ _
    constructor
    · intro h
      have hfront : events <+: runOnce text tenantID assets step events :=
        runOnce_eq ▸ List.prefix_append _ _
      have hback : runOnce text tenantID assets step events <+: events := by
        have hruns : runOnce text tenantID assets step events <+:
            runs text tenantID assets later (runOnce text tenantID assets step events) := prefix_runs
        rwa [h] at hruns
      have hsame := hfront.eq_of_length_le hback.length_le
      exact ⟨hsame.symm, hsame ▸ h⟩
    · rintro ⟨hstep, hlater⟩
      rw [hlater, hstep]

theorem record_settled (h : Settled text tenantID assets later events) :
    record text tenantID assets later events = [] := by
  induction later generalizing events with
  | nil => rfl
  | cons step later ih =>
    have hnews : news text step.1 tenantID assets step.2 (reported assets) events = [] :=
      news_eq_nil_iff.mpr h.1
    rw [record, hnews, List.map_nil, List.nil_append]
    exact ih h.2

/-- One run meets each algorithm once. -/
theorem nodup_algorithms (assets : List CryptoAssetRow) :
    ((aggregateByAlgorithm assets).map fun st => st.algorithm).Nodup := by
  rw [((aggregate_perm assets).map _).nodup_iff, List.map_map]
  have hsame : (firsts id (keys assets)).map
      ((fun st : AlgorithmStat => st.algorithm) ∘ fun k => (tallyOf assets k).finish) =
        firsts id (keys assets) := by
    exact (List.map_congr_left fun k _ => (tallyOf_fields assets k).1).trans (List.map_id _)
  rw [hsame]
  exact nodup_firsts_keys assets

theorem once_iff_settled : Once text tenantID assets events first later ↔
    Settled text tenantID assets later (runOnce text tenantID assets first events) := by
  rw [← runs_eq_self_iff]
  refine ⟨fun h => h.settled, fun h => ⟨?_, h⟩⟩
  rw [record, record_settled (runs_eq_self_iff.mp h), List.append_nil]
  have hnews : ((news text first.1 tenantID assets first.2 (reported assets) events).map
      (·.algorithm)).Sublist ((aggregateByAlgorithm assets).map (·.algorithm)) :=
    (news_sublist.trans List.filter_sublist).map _
  exact (nodup_algorithms assets).sublist hnews

end Once

section Seconds

/-- How the server shows the metadata of a threat, with the identifier as it is. -/
structure Rendering where
  text : ThreatDetection → String
  keeps : ∀ t, t.id.toList <:+: (text t).toList

variable {r : Rendering} {tenantID : String} {assets : List CryptoAssetRow}
  {events events' : List SecurityEvent} {stats : List AlgorithmStat} {now now' : Time}
  {t t' : ThreatDetection} {st : AlgorithmStat} {step first : Step} {later : List Step}

theorem Known.mono (h : Known tenantID events t) (hsub : events ⊆ events') :
    Known tenantID events' t := by
  obtain ⟨e, he, hknown⟩ := h
  exact ⟨e, hsub he, hknown⟩

theorem known_new (h : eventOf r.text tenantID t ∈ events) : Known tenantID events t :=
  ⟨_, h, rfl, rfl, r.keeps t⟩

/-- After a run, all that it looked for is known. -/
theorem known_news (hst : st ∈ stats) (hsevere : Severe (threatOf assets now st)) :
    Known tenantID (events ++ (news r.text Server.up tenantID assets now stats events).map
      fun st => eventOf r.text tenantID (threatOf assets now st)) (threatOf assets now st) := by
  induction stats generalizing events with
  | nil => cases hst
  | cons st' stats ih =>
    rw [news]
    by_cases hmissing : Missing Server.up tenantID events (threatOf assets now st')
    · have hup : ¬ (Server.up.insert (threatOf assets now st').id).isSome = true :=
        Bool.false_ne_true
      rw [if_pos hmissing, if_neg hup, List.map_cons, List.append_cons]
      obtain rfl | hst := List.mem_cons.mp hst
      · exact known_new (List.mem_append_left _ (List.mem_append_right _ List.mem_cons_self))
      · exact ih hst
    · rw [if_neg hmissing]
      obtain rfl | hst := List.mem_cons.mp hst
      · have hknown : Known tenantID events (threatOf assets now st) :=
          not_not.mp fun hknown => hmissing ⟨hsevere, rfl, hknown⟩
        exact hknown.mono (List.subset_append_left _ _)
      · exact ih hst

/-- The threats of one second have one identifier for each algorithm. -/
theorem known_second (h : unix now' = unix now)
    (hknown : Known tenantID events (threatOf assets now st)) :
    Known tenantID events (threatOf assets now' st) := by
  have hid : (threatOf assets now' st).id = (threatOf assets now st).id := by
    change threatID st.algorithm now' = threatID st.algorithm now
    rw [threatID, h, threatID]
  unfold Known
  rw [hid]
  exact hknown

theorem quiet_of_known
    (h : ∀ st ∈ reported assets, Severe (threatOf assets step.2 st) →
      Known tenantID events (threatOf assets step.2 st)) : Quiet tenantID assets step events := by
  intro t ht
  obtain ⟨st, hst, rfl⟩ := List.mem_map.mp (List.mem_of_find?_eq_some ht)
  have hmissing := List.find?_some ht
  obtain ⟨hsevere, -, hnew⟩ := of_decide_eq_true hmissing
  exact absurd (h st hst hsevere) hnew

theorem settled_of_quiet {text : ThreatDetection → String}
    (h : ∀ step ∈ later, Quiet tenantID assets step events) :
    Settled text tenantID assets later events := by
  induction later with
  | nil => trivial
  | cons step later ih =>
    obtain ⟨hstep, hlater⟩ := List.forall_mem_cons.mp h
    refine ⟨hstep, ?_⟩
    rw [runOnce_eq_self_iff.mpr hstep]
    exact ih hlater

/-- Runs in one second are settled by the first of them. -/
theorem settled_second (hfirst : first.1 = Server.up)
    (hlater : ∀ step ∈ later, unix step.2 = unix first.2) :
    Settled r.text tenantID assets later (runOnce r.text tenantID assets first events) := by
  refine settled_of_quiet fun step hstep => quiet_of_known fun st hst hsevere => ?_
  refine known_second (hlater step hstep) ?_
  rw [runOnce_eq, hfirst]
  exact known_news hst hsevere

/-- Threats are recorded once if every later run is quiet in the state it meets, and only then; as
are those of runs within one second. -/
theorem once_iff (r : Rendering) (tenantID : String) (assets : List CryptoAssetRow)
    (events : List SecurityEvent) (first : Step) (later : List Step) :
    (Once r.text tenantID assets events first later ↔
      Settled r.text tenantID assets later (runOnce r.text tenantID assets first events)) ∧
    (first.1 = Server.up → (∀ step ∈ later, unix step.2 = unix first.2) →
      Once r.text tenantID assets events first later) :=
  ⟨once_iff_settled, fun hfirst hlater => once_iff_settled.mpr (settled_second hfirst hlater)⟩

/-- A new threat that is the only one is inserted. -/
theorem runOnce_single (hreported : reported assets = [st])
    (hnew : Missing Server.up tenantID events (threatOf assets now st)) :
    runOnce r.text tenantID assets (Server.up, now) events =
      events ++ [eventOf r.text tenantID (threatOf assets now st)] := by
  have hup : ¬ (Server.up.insert (threatOf assets now st).id).isSome = true := Bool.false_ne_true
  rw [runOnce_eq, hreported, news, if_pos hnew, if_neg hup, news]
  rfl

theorem not_quiet_single (hreported : reported assets = [st])
    (hmissing : Missing Server.up tenantID events (threatOf assets now st)) :
    ¬ Quiet tenantID assets (Server.up, now) events := by
  intro hquiet
  have hdetect : detect assets now = [threatOf assets now st] :=
    congrArg (List.map (threatOf assets now)) hreported
  have hrefused := hquiet (threatOf assets now st)
  rw [hdetect, List.find?_cons, decide_eq_true hmissing] at hrefused
  exact Bool.false_ne_true (hrefused rfl)

/-- The metadata as `jsonb` shows it, for a time within the first ten seconds of the epoch and a
confidence of two digits. -/
def jsonb : Rendering where
  text t := "\x7b\"threat_id\": \"" ++ (t.id ++ ("\", \"confidence\": 0." ++ toString t.confidence ++
    ", \"generated_at\": \"1970-01-01T00:00:0" ++ toString (unix t.detectedAt) ++
    "Z\", \"recommendation\": \"" ++ t.recommendation ++ "\", \"affected_assets\": [\"" ++
    String.intercalate "\", \"" t.affectedAssets ++ "\"]\x7d"))
  keeps t := by
    rw [String.toList_append, String.toList_append]
    exact ⟨_, _, List.append_assoc _ _ _⟩

def server : CryptoAssetRow := ⟨"asset-1", "RSA", 2048, "tls.go", 90, false⟩

def serverStat : AlgorithmStat where
  algorithm := "RSA-2048"
  usage := 1
  vulnerability := 90
  quantumSafe := false
  vulnerable := true
  sampleLocation := "tls.go"
  riskLevel := .critical
  migration := "migrate"

theorem aggregate_server : aggregateByAlgorithm [server] = [serverStat] :=
  List.mergeSort_singleton _

/-- The threat of one second is not known in the next one. -/
theorem missing_server : Missing Server.up "tenant-1"
    [eventOf jsonb.text "tenant-1" (threatOf [server] 0 serverStat)]
    (threatOf [server] 1000000000 serverStat) := by
  refine ⟨.inl rfl, rfl, ?_⟩
  rintro ⟨e, he, -, -, hoccurs⟩
  rw [List.mem_singleton.mp he] at hoccurs
  revert hoccurs
  decide +kernel

theorem once_fails : ¬ ∀ (r : Rendering) (tenantID : String) (assets : List CryptoAssetRow)
    (events : List SecurityEvent) (first : Step) (later : List Step),
    first.1 = Server.up → (∀ step ∈ later, step.1 = Server.up) →
      Once r.text tenantID assets events first later := by
  intro h
  have hlater : ∀ step ∈ [(Server.up, (1000000000 : Time))], step.1 = Server.up := by
    intro step hstep
    rw [List.mem_singleton.mp hstep]
  have hsettled := once_iff_settled.mp
    (h jsonb "tenant-1" [server] [] (Server.up, 0) [(Server.up, 1000000000)] rfl hlater)
  have hreported : reported [server] = [serverStat] := by
    rw [reported, aggregate_server]
    rfl
  have hnew : Missing Server.up "tenant-1" [] (threatOf [server] 0 serverStat) :=
    ⟨.inl rfl, rfl, fun ⟨_, he, _⟩ => List.not_mem_nil he⟩
  have hfirst : runOnce jsonb.text "tenant-1" [server] (Server.up, 0) [] =
      [eventOf jsonb.text "tenant-1" (threatOf [server] 0 serverStat)] :=
    runOnce_single hreported hnew
  rw [hfirst] at hsettled
  exact not_quiet_single hreported missing_server hsettled.1

end Seconds

end RivicQ.Properties.ThreatEvents
