import RivicQ.Lib.ByteText
import RivicQ.Lib.Firsts

namespace RivicQ.Lib.QueryStrings

open RivicQ.Lib.Bytes RivicQ.Lib.ByteText RivicQ.Lib.Sortings

section Escaping

/-- What stands for itself in a component of a query. -/
def Unreserved (c : UInt8) : Prop :=
  (0x61 ≤ c ∧ c ≤ 0x7a) ∨ (0x41 ≤ c ∧ c ≤ 0x5a) ∨ (0x30 ≤ c ∧ c ≤ 0x39) ∨ c = 0x2d ∨ c = 0x5f ∨
    c = 0x2e ∨ c = 0x7e

instance (c : UInt8) : Decidable (Unreserved c) :=
  inferInstanceAs (Decidable (_ ∨ _ ∨ _ ∨ _ ∨ _ ∨ _ ∨ _))

def escapeByte (c : UInt8) : Bytes :=
  if Unreserved c then [c]
  else if c = 0x20 then [0x2b]
  else [0x25, upperDigit (c.toNat / 16), upperDigit (c.toNat % 16)]

/-- `url.QueryEscape`. -/
def queryEscape (s : Bytes) : Bytes := s.flatMap escapeByte

/-- `url.QueryUnescape`. -/
def queryUnescape : Bytes → Option Bytes
  | [] => some []
  | c :: rest =>
    if c = 0x25 then
      match rest with
      | h :: l :: rest =>
        match hexValue h, hexValue l with
        | some a, some b => (queryUnescape rest).map (UInt8.ofNat (16 * a + b) :: ·)
        | _, _ => none
      | _ => none
    else (queryUnescape rest).map ((if c = 0x2b then 0x20 else c) :: ·)

theorem queryUnescape_cons {c : UInt8} (h : c ≠ 0x25) (rest : Bytes) :
    queryUnescape (c :: rest) =
      (queryUnescape rest).map ((if c = 0x2b then 0x20 else c) :: ·) := by
  rcases rest with _ | ⟨d, _ | ⟨e, rest⟩⟩ <;> simp only [queryUnescape, h, if_false]

theorem queryUnescape_escapeByte (c : UInt8) (rest : Bytes) :
    queryUnescape (escapeByte c ++ rest) = (queryUnescape rest).map (c :: ·) := by
  unfold escapeByte
  split_ifs with hplain hspace
  · have hpercent : c ≠ 0x25 := by
      rintro rfl
      exact absurd hplain (by decide)
    have hplus : c ≠ 0x2b := by
      rintro rfl
      exact absurd hplain (by decide)
    rw [List.singleton_append, queryUnescape_cons hpercent, if_neg hplus]
  · rw [List.singleton_append, queryUnescape_cons (by decide), if_pos rfl, hspace]
  · have hhigh := hexValue_eq_some_iff.mpr (hexDigit_upperDigit (n := c.toNat / 16)
      (by have := c.toNat_lt; omega))
    have hlow := hexValue_eq_some_iff.mpr (hexDigit_upperDigit (n := c.toNat % 16) (by omega))
    have hbyte : UInt8.ofNat (16 * (c.toNat / 16) + c.toNat % 16) = c := by
      rw [Nat.div_add_mod, UInt8.ofNat_toNat]
    simp only [List.cons_append, List.nil_append, queryUnescape, if_true, hhigh, hlow, hbyte]

theorem queryUnescape_queryEscape (s : Bytes) : queryUnescape (queryEscape s) = some s := by
  induction s with
  | nil => rfl
  | cons c s ih =>
    rw [queryEscape, List.flatMap_cons, queryUnescape_escapeByte]
    exact (congrArg (Option.map (c :: ·)) ih).trans rfl

/-- What an escaped component is made of. -/
def Safe (c : UInt8) : Prop := Unreserved c ∨ c = 0x2b ∨ c = 0x25

theorem unreserved_upperDigit {n : Nat} (hn : n < 16) : Unreserved (upperDigit n) := by
  have hall : ∀ n < 16, Unreserved (upperDigit n) := by decide
  exact hall n hn

theorem safe_queryEscape {s : Bytes} {c : UInt8} (h : c ∈ queryEscape s) : Safe c := by
  obtain ⟨b, -, hc⟩ := List.mem_flatMap.mp h
  unfold escapeByte at hc
  split_ifs at hc with hplain hspace
  · exact .inl (List.mem_singleton.mp hc ▸ hplain)
  · exact .inr (.inl (List.mem_singleton.mp hc))
  · simp only [List.mem_cons, List.not_mem_nil, or_false] at hc
    have hlt := b.toNat_lt
    rcases hc with rfl | rfl | rfl
    · exact .inr (.inr rfl)
    · exact .inl (unreserved_upperDigit (by omega))
    · exact .inl (unreserved_upperDigit (by omega))

theorem not_safe {c : UInt8} (h : c = 0x26 ∨ c = 0x3b ∨ c = 0x3d) : ¬ Safe c := by
  rcases h with rfl | rfl | rfl <;> unfold Safe <;> decide

end Escaping

section Pairs

/-- A segment of a query: an empty one gives nothing, and a semicolon or a bad escape is an
error. -/
def parseSegment (seg : Bytes) : Option (Option (Bytes × Bytes)) :=
  if 0x3b ∈ seg then none
  else if seg = [] then some none
  else
    (queryUnescape (seg.takeWhile (· ≠ 0x3d))).bind fun key =>
      (queryUnescape ((seg.dropWhile (· ≠ 0x3d)).drop 1)).map fun value => some (key, value)

/-- The pairs of a query in their order, where all of it can be read. -/
def parsePairs (query : Bytes) : Option (List (Bytes × Bytes)) :=
  ((query.splitOn 0x26).mapM parseSegment).map fun pairs => pairs.filterMap id

def encodePair (p : Bytes × Bytes) : Bytes := queryEscape p.1 ++ 0x3d :: queryEscape p.2

def encodePairs (pairs : List (Bytes × Bytes)) : Bytes :=
  List.intercalate [0x26] (pairs.map encodePair)

theorem parseSegment_encodePair (p : Bytes × Bytes) :
    parseSegment (encodePair p) = some (some p) := by
  have hkey : ∀ c ∈ queryEscape p.1, decide (c ≠ 0x3d) = true := fun c hc =>
    decide_eq_true fun h => not_safe (.inr (.inr h)) (safe_queryEscape hc)
  have hsemicolon : (0x3b : UInt8) ∉ encodePair p := by
    simp only [encodePair, List.mem_append, List.mem_cons, not_or]
    refine ⟨fun h => ?_, by decide, fun h => ?_⟩
    · exact not_safe (.inr (.inl rfl)) (safe_queryEscape h)
    · exact not_safe (.inr (.inl rfl)) (safe_queryEscape h)
  have htake : (encodePair p).takeWhile (· ≠ 0x3d) = queryEscape p.1 := by
    rw [encodePair, List.takeWhile_append_of_pos hkey, List.takeWhile_cons_of_neg (by decide),
      List.append_nil]
  have hdrop : (encodePair p).dropWhile (· ≠ 0x3d) = 0x3d :: queryEscape p.2 := by
    rw [encodePair, List.dropWhile_append_of_pos hkey, List.dropWhile_cons_of_neg (by decide)]
  rw [parseSegment, if_neg hsemicolon, if_neg (by simp [encodePair]), htake, hdrop,
    List.drop_succ_cons, List.drop_zero, queryUnescape_queryEscape, queryUnescape_queryEscape]
  rfl

theorem amp_notMem_encodePair (p : Bytes × Bytes) : (0x26 : UInt8) ∉ encodePair p := by
  simp only [encodePair, List.mem_append, List.mem_cons, not_or]
  refine ⟨fun h => ?_, by decide, fun h => ?_⟩
  · exact not_safe (.inl rfl) (safe_queryEscape h)
  · exact not_safe (.inl rfl) (safe_queryEscape h)

theorem splitOn_encodePairs {pairs : List (Bytes × Bytes)} (h : pairs ≠ []) :
    (encodePairs pairs).splitOn 0x26 = pairs.map encodePair := by
  refine List.splitOn_intercalate 0x26 ?_ (by simpa using h)
  intro l hl
  obtain ⟨p, -, rfl⟩ := List.mem_map.mp hl
  exact amp_notMem_encodePair p

/-- What is written is read back, pair by pair. -/
theorem parsePairs_encodePairs (pairs : List (Bytes × Bytes)) :
    parsePairs (encodePairs pairs) = some pairs := by
  by_cases h : pairs = []
  · subst h
    rfl
  · have hread : (pairs.map encodePair).mapM parseSegment = some (pairs.map some) := by
      rw [List.mapM_map]
      clear h
      induction pairs with
      | nil => rfl
      | cons p pairs ih =>
        simp only [List.mapM_cons, parseSegment_encodePair, ih, Function.comp_apply]
        rfl
    rw [parsePairs, splitOn_encodePairs h, hread, Option.map_some, List.filterMap_map]
    exact congrArg some List.filterMap_some

/-- What a written query is made of. -/
theorem mem_encodePairs {pairs : List (Bytes × Bytes)} {c : UInt8} (h : c ∈ encodePairs pairs) :
    Safe c ∨ c = 0x3d ∨ c = 0x26 := by
  have hpair : ∀ {p : Bytes × Bytes}, c ∈ encodePair p → Safe c ∨ c = 0x3d ∨ c = 0x26 := by
    intro p hc
    rcases List.mem_append.mp hc with hc | hc
    · exact .inl (safe_queryEscape hc)
    · rcases List.mem_cons.mp hc with rfl | hc
      · exact .inr (.inl rfl)
      · exact .inl (safe_queryEscape hc)
  induction pairs with
  | nil => simp [encodePairs] at h
  | cons p pairs ih =>
    cases pairs with
    | nil => exact hpair (by simpa [encodePairs] using h)
    | cons p' pairs =>
      rw [encodePairs, List.map_cons, List.map_cons, List.intercalate_cons_cons] at h
      rcases List.mem_append.mp h with h | h
      · rcases List.mem_append.mp h with h | h
        · exact hpair h
        · exact .inr (.inr (List.mem_singleton.mp h))
      · exact ih h

theorem length_splitOn (s : Bytes) (c : UInt8) : (s.splitOn c).length = s.count c + 1 := by
  induction s with
  | nil => rfl
  | cons b s ih =>
    rw [List.splitOn_cons_eq_if_modifyHead, List.count_cons]
    split
    · rw [List.length_cons, ih]
    · rw [List.length_modifyHead, ih, Nat.add_zero]

theorem length_parsePairs {query : Bytes} {pairs : List (Bytes × Bytes)}
    (h : parsePairs query = some pairs) : pairs.length ≤ query.count 0x26 + 1 := by
  obtain ⟨read, hread, rfl⟩ := Option.map_eq_some_iff.mp h
  have hlength : read.length = (query.splitOn 0x26).length := by
    generalize query.splitOn 0x26 = segs at hread
    clear h
    induction segs generalizing read with
    | nil =>
      cases hread
      rfl
    | cons seg segs ih =>
      rw [List.mapM_cons] at hread
      obtain ⟨p, hp, hrest⟩ := Option.bind_eq_some_iff.mp hread
      obtain ⟨ps, hps, hread⟩ := Option.bind_eq_some_iff.mp hrest
      cases hread
      rw [List.length_cons, List.length_cons, ih ps hps]
  rw [← length_splitOn, ← hlength]
  exact List.length_filterMap_le ..

theorem count_encodePairs {pairs : List (Bytes × Bytes)} {n : Nat} (hn : 1 ≤ n)
    (h : pairs.length ≤ n) : (encodePairs pairs).count 0x26 + 1 ≤ n := by
  by_cases hnil : pairs = []
  · subst hnil
    exact hn
  · rw [← length_splitOn, splitOn_encodePairs hnil, List.length_map]
    exact h

end Pairs

section Values

/-- What stands in a query: the values of a key are those that stand with it, in their order. -/
abbrev Values := List (Bytes × Bytes)

/-- The order of Go strings is that of their bytes. -/
def text (s : Bytes) : String := String.ofList (s.map fun b => Char.ofNat b.toNat)

def Values.get (ps : Values) (k : Bytes) : List Bytes := (ps.filter (·.1 = k)).map Prod.snd

def Values.set (ps : Values) (k v : Bytes) : Values := ps.filter (·.1 ≠ k) ++ [(k, v)]

def Values.sorted (ps : Values) : Values := ps.mergeSort fun p q => text p.1 ≤ text q.1

/-- `Values.Encode`. -/
def Values.encode (ps : Values) : Bytes := encodePairs ps.sorted

variable {ps qs : Values} {j k v : Bytes}

theorem text_injective : Function.Injective text := fun _ _ h =>
  ofNat_injective.list_map (String.ofList_injective h)

theorem get_set : (ps.set k v).get j = if j = k then [v] else ps.get j := by
  unfold Values.set Values.get
  rw [List.filter_append, List.filter_filter]
  split_ifs with h
  · subst h
    have hnone : ps.filter (fun p => decide (p.1 = j) && decide (p.1 ≠ j)) = [] := by
      refine List.filter_eq_nil_iff.mpr fun p _ => ?_
      simp
    rw [hnone, List.filter_cons_of_pos (by simp)]
    rfl
  · have hsame : ps.filter (fun p => decide (p.1 = j) && decide (p.1 ≠ k)) =
        ps.filter (·.1 = j) := by
      refine List.filter_congr fun p _ => ?_
      by_cases hp : p.1 = j
      · simp [hp, h]
      · simp [hp]
    rw [hsame, List.filter_cons_of_neg (by simpa using Ne.symm h), List.filter_nil, List.append_nil]

theorem filter_eq_get : ps.filter (·.1 = k) = (ps.get k).map fun v => (k, v) := by
  rw [Values.get, List.map_map]
  refine (List.map_id _).symm.trans (List.map_congr_left fun p hp => ?_)
  rw [Function.comp_apply, ← of_decide_eq_true (List.mem_filter.mp hp).2]
  rfl

theorem get_ne_nil_iff : ps.get k ≠ [] ↔ k ∈ ps.map Prod.fst := by
  simp [Values.get, List.filter_eq_nil_iff]

theorem filter_sorted : ps.sorted.filter (·.1 = k) = ps.filter (·.1 = k) := by
  have h : ps.sorted.filter (fun p => text p.1 = text k) = ps.filter fun p => text p.1 = text k :=
    filter_mergeSort (text k)
  simp only [text_injective.eq_iff] at h
  exact h

theorem get_sorted : ps.sorted.get k = ps.get k := congrArg (List.map Prod.snd) filter_sorted

theorem pairwise_sorted (ps : Values) : ps.sorted.Pairwise fun p q => text p.1 ≤ text q.1 :=
  (sorting_mergeSort (fun p : Bytes × Bytes => text p.1) ps).sorted

/-- Sorted pairs are known by the values of each key. -/
theorem eq_of_get (hp : ps.Pairwise fun p q => text p.1 ≤ text q.1)
    (hq : qs.Pairwise fun p q => text p.1 ≤ text q.1) (h : ∀ k, ps.get k = qs.get k) : ps = qs := by
  induction ps generalizing qs with
  | nil =>
    cases qs with
    | nil => rfl
    | cons q qs =>
      have hget := h q.1
      simp [Values.get] at hget
  | cons p ps ih =>
    cases qs with
    | nil =>
      have hget := h p.1
      simp [Values.get] at hget
    | cons q qs =>
      obtain ⟨hpfirst, hps⟩ := List.pairwise_cons.mp hp
      obtain ⟨hqfirst, hqs⟩ := List.pairwise_cons.mp hq
      have hle : ∀ (a b : Bytes × Bytes) (as bs : Values), (∀ c ∈ bs, text b.1 ≤ text c.1) →
          Values.get (a :: as) a.1 = Values.get (b :: bs) a.1 → text b.1 ≤ text a.1 := by
        intro a b as bs hfirst hget
        have hmem : a.1 ∈ (b :: bs).map Prod.fst := by
          rw [← get_ne_nil_iff, ← hget, get_ne_nil_iff]
          exact List.mem_cons_self
        obtain ⟨c, hc, hkey⟩ := List.mem_map.mp hmem
        rcases List.mem_cons.mp hc with rfl | hc
        · simp only [hkey, String.le_refl]
        · rw [← hkey]
          exact hfirst c hc
      have hkey : p.1 = q.1 := text_injective (String.le_antisymm
        (hle q p qs ps hpfirst (h q.1).symm) (hle p q ps qs hqfirst (h p.1)))
      have hhead := h p.1
      rw [Values.get, List.filter_cons_of_pos (by simp), Values.get,
        List.filter_cons_of_pos (by simp [hkey]), List.map_cons, List.map_cons] at hhead
      have hpq : p = q := Prod.ext hkey (List.cons.inj hhead).1
      subst hpq
      refine congrArg (p :: ·) (ih hps hqs fun k => ?_)
      have hk := h k
      unfold Values.get at hk ⊢
      by_cases hpk : p.1 = k
      · rw [List.filter_cons_of_pos (by simpa using hpk),
          List.filter_cons_of_pos (by simpa using hpk), List.map_cons, List.map_cons] at hk
        exact (List.cons.inj hk).2
      · rwa [List.filter_cons_of_neg (by simpa using hpk),
          List.filter_cons_of_neg (by simpa using hpk)] at hk

/-- What is written depends on the values of each key only. -/
theorem encode_congr (h : ∀ k, ps.get k = qs.get k) : ps.encode = qs.encode := by
  refine congrArg encodePairs (eq_of_get (pairwise_sorted ps) (pairwise_sorted qs) fun k => ?_)
  rw [get_sorted, get_sorted, h]

/-- How many parameters a query may have. -/
structure Limit where
  within : Nat → Bool
  within_mono : ∀ {m n}, m ≤ n → within n = true → within m = true
  within_one : within 1 = true

/-- `url.ParseQuery`, where it gives no error. -/
def parseQuery (limit : Limit) (raw : Bytes) : Option Values :=
  if limit.within (raw.count 0x26 + 1) then parsePairs raw else none

theorem parseQuery_nil {limit : Limit} : parseQuery limit [] = some [] := by
  rw [parseQuery, List.count_nil, Nat.zero_add, if_pos limit.within_one]
  rfl

/-- What is written can be read, if something as long can. -/
theorem parseQuery_encode {limit : Limit} {raw : Bytes} (h : parseQuery limit raw = some qs)
    (hlength : ps.length ≤ qs.length) : parseQuery limit ps.encode = some ps.sorted := by
  rw [parseQuery, Option.ite_none_right_eq_some] at h
  obtain ⟨hwithin, hread⟩ := h
  have hshort : ps.sorted.length ≤ raw.count 0x26 + 1 := by
    rw [Values.sorted, List.length_mergeSort]
    exact hlength.trans (length_parsePairs hread)
  have hcount := count_encodePairs (Nat.le_add_left 1 _) hshort
  rw [parseQuery, Values.encode, if_pos (limit.within_mono hcount hwithin), parsePairs_encodePairs]

end Values

end RivicQ.Lib.QueryStrings
