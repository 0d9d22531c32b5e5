import Mathlib
import RivicQ.Intelligence.Contents
import RivicQ.Intelligence.PQCClass
import RivicQ.Lib.Firsts
import RivicQ.Lib.Framing

namespace RivicQ.Properties.Urgency

open RivicQ.Lib.GoStrings RivicQ.Lib.Tables RivicQ.Lib.Casing RivicQ.Lib.Firsts RivicQ.Lib.Framing
open RivicQ.Intelligence.Findings RivicQ.Intelligence.Architecture RivicQ.Quantum.QiskitProfile

/-- The algorithm of a finding in upper case. -/
def upperName (cm : CaseMap) (f : Finding) : String := toUpper cm f.algorithm

/-- A finding of the Shor class with a short key. -/
def Weak (cm : CaseMap) (f : Finding) : Prop :=
  attack cm f = .shor ∧ 0 < f.keyLength ∧ f.keyLength < 2048

/-- Every weak finding has an entry that is to be dealt with now. -/
def Mitigated (cm : CaseMap) (fs : List Finding) : Prop :=
  ∀ f ∈ fs, Weak cm f → ∃ m ∈ pqcMitigations cm fs,
    toUpper cm m.algorithm = upperName cm f ∧ m.priority = "now"

/-- The names of some findings that have an attack class. -/
def listedNames (cm : CaseMap) (fs : List Finding) : Finset String :=
  ((fs.filter fun f => attack cm f ≠ .none).map (upperName cm)).toFinset

/-- The first finding of each weak one's name is weak too, and has fewer than 12 names with an
attack class before it. -/
def Leading (cm : CaseMap) (fs : List Finding) : Prop :=
  ∀ f ∈ fs, Weak cm f → ∃ before g after, fs = before ++ g :: after ∧
    (∀ e ∈ before, upperName cm e ≠ upperName cm f) ∧ upperName cm g = upperName cm f ∧
    Weak cm g ∧ (listedNames cm before).card < 12

def entry (cm : CaseMap) (f : Finding) : Option Mitigation := mitigation cm f (attack cm f)

/-- The findings with an algorithm. -/
def named (fs : List Finding) : List Finding := fs.filter fun f => f.algorithm ≠ ""

variable {cm : CaseMap} {u : UnicodeCase} {f g e : Finding} {fs before after : List Finding}
  {seen : Table Bool} {ks : List String} {out : List Mitigation} {m : Mitigation}

section Loop

theorem named_cons_neg (h : f.algorithm = "") : named (f :: fs) = named fs :=
  List.filter_cons_of_neg (by rw [h]; decide)

theorem named_cons (h : f.algorithm ≠ "") : named (f :: fs) = f :: named fs :=
  List.filter_cons_of_pos (decide_eq_true h)

theorem mitigationLoop_cons : mitigationLoop cm seen out (f :: fs) =
    if f.algorithm = "" then mitigationLoop cm seen out fs
    else if (seen.lookup (mitigationKey cm f)).getD false then mitigationLoop cm seen out fs
    else (entry cm f).elim (mitigationLoop cm (seen.insert (mitigationKey cm f) true) out fs)
      fun m => if (out ++ [m]).length ≥ 12 then out ++ [m]
        else mitigationLoop cm (seen.insert (mitigationKey cm f) true) (out ++ [m]) fs := rfl

/-- The loop lists the first finding of each key, as long as there is room. -/
theorem mitigationLoop_firsts (h : ∀ k, (seen.lookup k).getD false = true ↔ k ∈ ks)
    (hout : out.length < 12) : mitigationLoop cm seen out fs =
      out ++ ((firstsFrom (mitigationKey cm) ks (named fs)).filterMap (entry cm)).take
        (12 - out.length) := by
  induction fs generalizing seen ks out with
  | nil =>
    rw [named, List.filter_nil, firstsFrom, List.filterMap_nil, List.take_nil, List.append_nil]
    rfl
  | cons f fs ih =>
    rw [mitigationLoop_cons]
    by_cases hname : f.algorithm = ""
    · rw [if_pos hname, named_cons_neg hname]
      exact ih h hout
    rw [if_neg hname, named_cons hname, firstsFrom]
    by_cases hseen : mitigationKey cm f ∈ ks
    · rw [if_pos ((h _).mpr hseen), if_pos hseen]
      exact ih h hout
    rw [if_neg (mt (h _).mp hseen), if_neg hseen]
    have hinsert : ∀ k, ((seen.insert (mitigationKey cm f) true).lookup k).getD false = true ↔
        k ∈ mitigationKey cm f :: ks := by
      intro k
      rw [lookup_insert_if, List.mem_cons, ← h]
      split_ifs with hk
      · exact iff_of_true rfl (.inl hk)
      · exact (or_iff_right hk).symm
    cases hentry : entry cm f with
    | none =>
      rw [List.filterMap_cons_none hentry]
      exact ih hinsert hout
    | some m =>
      rw [List.filterMap_cons_some hentry, Option.elim_some]
      have hlength : (out ++ [m]).length = out.length + 1 := List.length_append
      obtain ⟨room, hroom⟩ : ∃ room, 12 - out.length = room + 1 :=
        Nat.exists_eq_succ_of_ne_zero (Nat.sub_ne_zero_of_lt hout)
      rw [hroom, List.take_succ_cons]
      split_ifs with hfull
      · have hzero : room = 0 := by omega
        rw [hzero, List.take_zero]
      · have hrest : 12 - (out ++ [m]).length = room := by omega
        rw [ih hinsert (Nat.not_le.mp hfull), hrest, List.append_assoc]
        rfl

theorem lookup_none (k : String) :
    ((∅ : Table Bool).lookup k).getD false = true ↔ k ∈ ([] : List String) := by
  rw [AList.lookup_empty]
  exact iff_of_false Bool.false_ne_true List.not_mem_nil

theorem pqcMitigations_eq : pqcMitigations cm fs =
    ((firsts (mitigationKey cm) (named fs)).filterMap (entry cm)).take 12 :=
  (mitigationLoop_firsts lookup_none (by decide)).trans (List.nil_append _)

end Loop

section Entries

theorem algorithm_mitigation {cls : AttackClass} (h : mitigation cm f cls = some m) :
    m.algorithm = f.algorithm := by
  cases cls with
  | shor =>
    obtain rfl := Option.some.inj h
    split_ifs <;> rfl
  | grover =>
    obtain rfl := Option.some.inj h
    rfl
  | pqc =>
    obtain rfl := Option.some.inj h
    rfl
  | none => exact nomatch h

theorem priority_mitigation : (mitigation cm f .shor).map Mitigation.priority =
    some (if f.keyLength > 0 ∧ f.keyLength < 2048 then "now" else "plan") := by
  rw [mitigation, Option.map_some, apply_ite Mitigation.priority, ite_self]

theorem priority_shor (hclass : attack cm f = .shor) (h : entry cm f = some m) :
    m.priority = "now" ↔ Weak cm f := by
  have hpriority : (mitigation cm f .shor).map Mitigation.priority = _ := priority_mitigation
  rw [entry, hclass] at h
  rw [h, Option.map_some, Option.some.injEq] at hpriority
  rw [hpriority, Weak, and_iff_right hclass]
  split_ifs with hweak
  · exact iff_of_true rfl hweak
  · exact iff_of_false (by decide) hweak

theorem attack_of_upperName (h : upperName u.toCaseMap f = upperName u.toCaseMap g) :
    attack u.toCaseMap f = attack u.toCaseMap g := by
  rw [attack, attack, attackClass_classify, attackClass_classify, normalized_of_toUpper h]

/-- The key tells the name. -/
theorem mitigationKey_iff : mitigationKey u.toCaseMap f = mitigationKey u.toCaseMap g ↔
    upperName u.toCaseMap f = upperName u.toCaseMap g := by
  constructor
  · intro h
    have hcolon : ∀ cls : AttackClass, ':' ∉ cls.text.toList := by
      intro cls
      cases cls <;> decide
    have hlist := congrArg String.toList h
    simp only [mitigationKey, String.toList_append] at hlist
    rw [List.append_assoc, List.append_assoc] at hlist
    exact String.toList_injective (append_cons_inj_right (hcolon _) (hcolon _) hlist).1
  · intro h
    have hupper : toUpper u.toCaseMap f.algorithm = toUpper u.toCaseMap g.algorithm := h
    rw [mitigationKey, mitigationKey, attack_of_upperName h, hupper]

theorem mem_listedNames {k : String} : k ∈ listedNames cm fs ↔
    ∃ f ∈ fs, attack cm f ≠ .none ∧ upperName cm f = k := by
  simp only [listedNames, List.mem_toFinset, List.mem_map, List.mem_filter, decide_eq_true_eq,
    and_assoc]

theorem attack_blank (h : f.algorithm = "") : attack cm f = .none := by
  rw [attack, h, attackClass_classify, normalized_empty]
  decide

theorem mem_named : f ∈ named fs ↔ f ∈ fs ∧ f.algorithm ≠ "" := by
  rw [named, List.mem_filter, decide_eq_true_eq]

theorem isSome_entry : (entry cm f).isSome = true ↔ attack cm f ≠ .none := by
  unfold entry
  cases attack cm f <;> simp [mitigation]

/-- There are as many entries as there are names with an attack class. -/
theorem length_entries : ((firsts (mitigationKey u.toCaseMap) (named fs)).filterMap
    (entry u.toCaseMap)).length = (listedNames u.toCaseMap fs).card := by
  have hnodup : (((firsts (mitigationKey u.toCaseMap) (named fs)).filter
      fun f => attack u.toCaseMap f ≠ .none).map (upperName u.toCaseMap)).Nodup := by
    have hkeys : ((firsts (mitigationKey u.toCaseMap) (named fs)).map
        (mitigationKey u.toCaseMap)).Nodup := nodup_firstsFrom
    refine List.pairwise_map.mpr ((List.pairwise_map.mp hkeys).filter _ |>.imp ?_)
    exact fun hne heq => hne (mitigationKey_iff.mpr heq)
  have hset : (((firsts (mitigationKey u.toCaseMap) (named fs)).filter
      fun f => attack u.toCaseMap f ≠ .none).map (upperName u.toCaseMap)).toFinset =
        listedNames u.toCaseMap fs := by
    ext k
    rw [mem_listedNames, List.mem_toFinset, List.mem_map]
    constructor
    · rintro ⟨f, hf, rfl⟩
      obtain ⟨hfirst, hclass⟩ := List.mem_filter.mp hf
      exact ⟨f, (mem_named.mp (mem_firsts.mp hfirst).mem).1, of_decide_eq_true hclass, rfl⟩
    · rintro ⟨f, hf, hclass, rfl⟩
      obtain ⟨g, hg, hkey⟩ := exists_first (mitigationKey u.toCaseMap)
        (mem_named.mpr ⟨hf, mt attack_blank hclass⟩)
      have hname := mitigationKey_iff.mp hkey
      refine ⟨g, List.mem_filter.mpr ⟨mem_firsts.mpr hg, decide_eq_true ?_⟩, hname⟩
      rwa [attack_of_upperName hname]
  rw [← hset, List.toFinset_card_of_nodup hnodup, List.length_map, ← List.countP_eq_length_filter,
    List.length_filterMap_eq_countP]
  exact List.countP_congr fun f _ => isSome_entry.trans decide_eq_true_iff.symm

theorem upperName_of_mem (h : m ∈ fs.filterMap (entry cm)) :
    ∃ e ∈ fs, toUpper cm m.algorithm = upperName cm e := by
  obtain ⟨e, he, hentry⟩ := List.mem_filterMap.mp h
  exact ⟨e, he, congrArg (toUpper cm) (algorithm_mitigation hentry)⟩

/-- The entry of a name's first finding stands behind those of the names before it, and no other
entry has its name. -/
theorem pqcMitigations_split (after : List Finding)
    (hbefore : ∀ e ∈ before, upperName u.toCaseMap e ≠ upperName u.toCaseMap g)
    (hclass : attack u.toCaseMap g ≠ .none) :
    ∃ earlier later m, entry u.toCaseMap g = some m ∧
      pqcMitigations u.toCaseMap (before ++ g :: after) = (earlier ++ m :: later).take 12 ∧
      earlier.length = (listedNames u.toCaseMap before).card ∧
      ∀ m' ∈ earlier ++ later, toUpper u.toCaseMap m'.algorithm ≠ upperName u.toCaseMap g := by
  obtain ⟨m, hm⟩ := Option.isSome_iff_exists.mp (isSome_entry.mpr hclass)
  have hnamed : named (before ++ g :: after) = named before ++ g :: named after := by
    rw [named, List.filter_append]
    exact congrArg _ (named_cons (mt attack_blank hclass))
  have hkeys : ∀ e ∈ named before, mitigationKey u.toCaseMap e ≠ mitigationKey u.toCaseMap g :=
    fun e he heq => hbefore e (mem_named.mp he).1 (mitigationKey_iff.mp heq)
  obtain ⟨rest, hrest, hne⟩ : ∃ rest, firstsFrom (mitigationKey u.toCaseMap) []
      (named before ++ g :: named after) = firsts (mitigationKey u.toCaseMap) (named before) ++
        g :: rest ∧ ∀ e ∈ rest, mitigationKey u.toCaseMap e ≠ mitigationKey u.toCaseMap g :=
    firstsFrom_split List.not_mem_nil hkeys
  refine ⟨_, rest.filterMap (entry u.toCaseMap), m, hm, ?_, length_entries, ?_⟩
  · rw [pqcMitigations_eq, hnamed, firsts, hrest, List.filterMap_append,
      List.filterMap_cons_some hm]
  · intro m' hm' heq
    rw [← List.filterMap_append] at hm'
    obtain ⟨e, he, hname⟩ := upperName_of_mem hm'
    have hkey := mitigationKey_iff.mpr (hname.symm.trans heq)
    obtain he | he := List.mem_append.mp he
    · exact hkeys e (mem_firsts.mp he).mem hkey
    · exact hne e he hkey

/-- A name is to be dealt with now exactly if its first finding is weak and still finds room. -/
theorem urgent_iff (hbefore : ∀ e ∈ before, upperName u.toCaseMap e ≠ upperName u.toCaseMap g)
    (hclass : attack u.toCaseMap g = .shor) :
    (∃ m ∈ pqcMitigations u.toCaseMap (before ++ g :: after),
      toUpper u.toCaseMap m.algorithm = upperName u.toCaseMap g ∧ m.priority = "now") ↔
        Weak u.toCaseMap g ∧ (listedNames u.toCaseMap before).card < 12 := by
  have hlisted : attack u.toCaseMap g ≠ .none := ne_of_eq_of_ne hclass (by decide)
  obtain ⟨earlier, later, m, hm, hsplit, hlength, hother⟩ :=
    pqcMitigations_split after hbefore hlisted
  rw [hsplit, ← hlength, ← priority_shor hclass hm]
  constructor
  · rintro ⟨m', hmem, hname, hnow⟩
    have heq : m' = m := by
      obtain hm' | hm' := List.mem_append.mp (List.mem_of_mem_take hmem)
      · exact absurd hname (hother m' (List.mem_append_left _ hm'))
      · refine (List.mem_cons.mp hm').resolve_right fun hlater => ?_
        exact hother m' (List.mem_append_right _ hlater) hname
    refine ⟨heq ▸ hnow, Nat.lt_of_not_le fun hfull => ?_⟩
    rw [List.take_append_of_le_length hfull] at hmem
    exact hother m' (List.mem_append_left _ (List.mem_of_mem_take hmem)) hname
  · rintro ⟨hnow, hroom⟩
    obtain ⟨room, hroom⟩ := Nat.exists_eq_add_of_lt hroom
    refine ⟨m, ?_, congrArg (toUpper u.toCaseMap) (algorithm_mitigation hm), hnow⟩
    rw [hroom, Nat.add_assoc, List.take_length_add_append, List.take_succ_cons]
    exact List.mem_append_right _ List.mem_cons_self

end Entries

/-- Every weak finding is mitigated exactly if the first finding of its name is as weak and comes
early enough. -/
theorem mitigated_iff (u : UnicodeCase) (fs : List Finding) :
    Mitigated u.toCaseMap fs ↔ Leading u.toCaseMap fs := by
  constructor
  · intro h f hf hweak
    obtain ⟨before, g, after, rfl, hname, hbefore⟩ :=
      exists_first_split (upperName u.toCaseMap) hf
    have hclass : attack u.toCaseMap g = .shor := (attack_of_upperName hname).trans hweak.1
    have hurgent := h f hf hweak
    rw [← hname] at hurgent hbefore
    obtain ⟨hg, hcard⟩ := (urgent_iff hbefore hclass).mp hurgent
    exact ⟨before, g, after, rfl, hname ▸ hbefore, hname, hg, hcard⟩
  · intro h f hf hweak
    obtain ⟨before, g, after, rfl, hbefore, hname, hg, hcard⟩ := h f hf hweak
    rw [← hname] at hbefore ⊢
    exact (urgent_iff hbefore hg.1).mpr ⟨hg, hcard⟩

def rsa4096 : Finding := { algorithm := "RSA", keyLength := 4096 }

def rsa1024 : Finding := { algorithm := "RSA", keyLength := 1024 }

/-- A short key is planned for later where a longer one of its algorithm comes first. -/
theorem short_key_planned : ¬ Mitigated asciiTables.toCaseMap [rsa4096, rsa1024] := by
  intro h
  have hclass : attack asciiTables.toCaseMap rsa4096 = .shor := by decide
  have hweak : Weak asciiTables.toCaseMap rsa1024 := ⟨by decide, by decide, by decide⟩
  have hurgent := h rsa1024 (.tail _ (.head _)) hweak
  have hiff := @urgent_iff asciiTables rsa4096 [] [rsa1024] (List.forall_mem_nil _) hclass
  have hlong : rsa4096.keyLength < 2048 := (hiff.mp hurgent).1.2.2
  exact absurd hlong (by decide)

end RivicQ.Properties.Urgency

namespace RivicQ.Properties.RiskScores

open RivicQ.Lib.GoStrings RivicQ.Lib.Casing
open RivicQ.Intelligence.Findings RivicQ.Intelligence.Contents RivicQ.Properties.Urgency

/-- A risk that is not rated lower than another. -/
def NotLower (r r' : RiskBreakdown) : Prop :=
  r.score ≤ r'.score ∧
    (0 < r.score → 0 < r'.score → severityRank r.level ≤ severityRank r'.level)

/-- A finding that differs from another only in what may make it worse. -/
structure Worse (f : Finding) (controls : List String) (g : Finding) (controls' : List String) :
    Prop where
  algorithm : g.algorithm = f.algorithm
  evidence : g.evidence = f.evidence
  location : g.location = f.location
  usage : g.usage = f.usage
  keyLength : g.keyLength = f.keyLength ∨ (0 < g.keyLength ∧ g.keyLength ≤ f.keyLength)
  kev : f.kev = true → g.kev = true
  cve : f.cve ≠ "" → g.cve ≠ ""
  quantumSafe : g.quantumSafe = true → f.quantumSafe = true
  controls : controls ≠ [] → controls' ≠ []

/-- The points of some contributors. -/
def points (fs : List Factor) : Int := (fs.map Factor.points).sum

variable {cm : CaseMap} {f g : Finding} {controls controls' : List String}

section Total

theorem score_eq :
    (scoreCrypto cm f controls).score = min (points (factors cm f controls)) 100 := by
  simp only [scoreCrypto, points]
  split_ifs <;> omega

theorem contributors_eq : (scoreCrypto cm f controls).contributors = factors cm f controls := by
  simp only [scoreCrypto]

/-- The level of a positive score depends on the score alone. -/
theorem rank_level {n : Int} (h : (scoreCrypto cm f controls).score = n) (hn : 0 < n) :
    severityRank (scoreCrypto cm f controls).level =
      if n ≥ 70 then 4 else if n ≥ 45 then 3 else if n ≥ 25 then 2 else 1 := by
  have hcritical : severityRank "CRITICAL" = 4 := rfl
  have hhigh : severityRank "HIGH" = 3 := rfl
  have hmedium : severityRank "MEDIUM" = 2 := rfl
  have hlow : severityRank "LOW" = 1 := rfl
  have hne : n ≠ 0 := ne_of_gt hn
  simp only [scoreCrypto] at h ⊢
  rw [h]
  split_ifs
  · exact hcritical
  · exact hhigh
  · exact hmedium
  · exact hlow

theorem notLower_of_points (h : points (factors cm f controls) ≤ points (factors cm g controls')) :
    NotLower (scoreCrypto cm f controls) (scoreCrypto cm g controls') := by
  have hscore : (scoreCrypto cm f controls).score ≤ (scoreCrypto cm g controls').score := by
    rw [score_eq, score_eq]
    exact min_le_min_right 100 h
  refine ⟨hscore, fun hpos hpos' => ?_⟩
  rw [rank_level rfl hpos, rank_level rfl hpos']
  split_ifs <;> omega

end Total

section Points

theorem points_append (fs gs : List Factor) : points (fs ++ gs) = points fs + points gs := by
  rw [points, List.map_append, List.sum_append]
  rfl

/-- A contribution whose condition is kept does not get lost. -/
theorem points_if_le {c d : Prop} [Decidable c] [Decidable d] (h : c → d) (label : String)
    {n : Int} (hn : 0 ≤ n) :
    points (if c then [⟨label, n⟩] else []) ≤ points (if d then [⟨label, n⟩] else []) := by
  by_cases hc : c
  · rw [if_pos hc, if_pos (h hc)]
  · rw [if_neg hc]
    split_ifs
    · exact hn.trans_eq (Int.add_zero n).symm
    · exact Int.le_refl 0

theorem points_if_nonneg {c : Prop} [Decidable c] (label : String) {n : Int} (hn : 0 ≤ n) :
    0 ≤ points (if c then [⟨label, n⟩] else []) := by
  split_ifs
  · exact hn.trans_eq (Int.add_zero n).symm
  · exact Int.le_refl 0

/-- A shorter key that is known to be one counts as least as much. -/
theorem points_algorithmFactor (algo : String)
    (h : g.keyLength = f.keyLength ∨ (0 < g.keyLength ∧ g.keyLength ≤ f.keyLength)) :
    points (algorithmFactor f algo) ≤ points (algorithmFactor g algo) := by
  obtain h | ⟨hpos, hle⟩ := h
  · rw [algorithmFactor, algorithmFactor, h]
  have hf : f.keyLength ≠ 0 := by omega
  have hg : g.keyLength ≠ 0 := ne_of_gt hpos
  have hshort : points [⟨"RSA key shorter than 2048 bits", 32⟩] = 32 := rfl
  have hclassic : points [⟨"RSA-2048 (classical, BSI sunset for new systems)", 16⟩] = 16 := rfl
  have hrsa : points [⟨"RSA (quantum-vulnerable primitive)", 12⟩] = 12 := rfl
  simp only [algorithmFactor, if_neg hf, if_neg hg, apply_ite points, hshort, hclassic, hrsa]
  split_ifs <;> omega

theorem points_algorithmFactor_nonneg (algo : String) : 0 ≤ points (algorithmFactor f algo) := by
  simp only [algorithmFactor]
  -- the length of an RSA key is a second case split
  generalize (if f.keyLength = 0 then (parseBits algo : Int) else f.keyLength) = bits
  split_ifs <;> decide

theorem points_usageFactor_nonneg : 0 ≤ points (usageFactor cm f) := by
  rw [usageFactor]
  split_ifs <;> decide

theorem points_factors_nonneg : 0 ≤ points (factors cm f controls) := by
  simp only [factors, points_append]
  refine Int.add_nonneg (Int.add_nonneg (Int.add_nonneg (Int.add_nonneg (Int.add_nonneg
    (Int.add_nonneg (points_algorithmFactor_nonneg _) points_usageFactor_nonneg) ?_) ?_) ?_) ?_) ?_
  all_goals exact points_if_nonneg _ (by decide)

/-- No contribution gets smaller. -/
theorem points_factors (h : Worse f controls g controls') :
    points (factors cm f controls) ≤ points (factors cm g controls') := by
  have hmigration : ∀ c : Bool, (!f.quantumSafe && c) = true → (!g.quantumSafe && c) = true := by
    intro c hc
    obtain ⟨hf, hc⟩ := Bool.and_eq_true_iff.mp hc
    refine Bool.and_eq_true_iff.mpr ⟨?_, hc⟩
    rw [Bool.not_eq_true'] at hf ⊢
    exact Bool.eq_false_iff.mpr (mt h.quantumSafe (Bool.eq_false_iff.mp hf))
  simp only [factors, points_append, h.algorithm, h.evidence, h.location, usageFactor, h.usage]
  refine Int.add_le_add (Int.add_le_add (Int.add_le_add (Int.add_le_add
    (Int.add_le_add_right (Int.add_le_add_right ?algorithm _) _) ?kev) ?cve) ?migration) ?controls
  case algorithm => exact points_algorithmFactor _ h.keyLength
  case kev => exact points_if_le h.kev _ (by decide)
  case cve => exact points_if_le h.cve _ (by decide)
  case migration => exact points_if_le (hmigration _) _ (by decide)
  case controls => exact points_if_le h.controls _ (by decide)

theorem notLower_of_worse (h : Worse f controls g controls') :
    NotLower (scoreCrypto cm f controls) (scoreCrypto cm g controls') :=
  notLower_of_points (points_factors h)

end Points

section Changes

theorem worse_refl : Worse f controls f controls :=
  ⟨rfl, rfl, rfl, rfl, .inl rfl, id, id, id, id⟩

theorem worse_kev : Worse f controls { f with kev := true } controls :=
  { worse_refl with kev := fun _ => rfl }

theorem worse_cve {c : String} (h : c ≠ "") : Worse f controls { f with cve := c } controls :=
  { worse_refl with cve := fun _ => h }

theorem worse_control (c : String) : Worse f controls f (controls ++ [c]) :=
  have hrefl : Worse f controls f controls := worse_refl
  { hrefl with controls := fun _ => List.concat_ne_nil c controls }

theorem worse_quantumSafe : Worse f controls { f with quantumSafe := false } controls :=
  { worse_refl with quantumSafe := fun h => absurd h Bool.false_ne_true }

theorem worse_keyLength {k : Int} (h : 0 < k) (hle : k ≤ f.keyLength) :
    Worse f controls { f with keyLength := k } controls :=
  { worse_refl with keyLength := .inr ⟨h, hle⟩ }

end Changes

/-- The score is a capped sum, and what makes a finding worse does not make it smaller. -/
theorem score_shape (cm : CaseMap) (f : Finding) (controls : List String) :
    (0 ≤ (scoreCrypto cm f controls).score ∧ (scoreCrypto cm f controls).score ≤ 100 ∧
      (scoreCrypto cm f controls).score =
        min ((scoreCrypto cm f controls).contributors.map Factor.points).sum 100) ∧
    NotLower (scoreCrypto cm f controls) (scoreCrypto cm { f with kev := true } controls) ∧
    (∀ c, c ≠ "" →
      NotLower (scoreCrypto cm f controls) (scoreCrypto cm { f with cve := c } controls)) ∧
    (∀ c, NotLower (scoreCrypto cm f controls) (scoreCrypto cm f (controls ++ [c]))) ∧
    NotLower (scoreCrypto cm f controls) (scoreCrypto cm { f with quantumSafe := false } controls) ∧
    ∀ k, 0 < k → k ≤ f.keyLength →
      NotLower (scoreCrypto cm f controls) (scoreCrypto cm { f with keyLength := k } controls) := by
  refine ⟨⟨?_, ?_, ?_⟩, notLower_of_worse worse_kev, fun c h => notLower_of_worse (worse_cve h),
    fun c => notLower_of_worse (worse_control c), notLower_of_worse worse_quantumSafe,
    fun k h hle => notLower_of_worse (worse_keyLength h hle)⟩
  · rw [score_eq]
    exact le_min points_factors_nonneg (by decide)
  · rw [score_eq]
    exact min_le_right _ _
  · rw [contributors_eq]
    exact score_eq

/-- A key length of zero is one that is not known. -/
theorem unknown_length_rated_lower : ¬ NotLower (scoreCrypto asciiTables.toCaseMap rsa1024 [])
    (scoreCrypto asciiTables.toCaseMap { rsa1024 with keyLength := 0 } []) := by
  have hshort : (scoreCrypto asciiTables.toCaseMap rsa1024 []).score = 40 := by decide
  have hunknown : (scoreCrypto asciiTables.toCaseMap { rsa1024 with keyLength := 0 } []).score =
      20 := by decide
  rw [NotLower, hshort, hunknown]
  exact fun h => absurd h.1 (by decide)

end RivicQ.Properties.RiskScores
