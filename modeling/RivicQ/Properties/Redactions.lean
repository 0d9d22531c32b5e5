import RivicQ.Middleware.Audit

namespace RivicQ.Properties.Redactions

open RivicQ.Lib.Bytes RivicQ.Lib.ByteText RivicQ.Lib.GoStrings RivicQ.Lib.QueryStrings
open RivicQ.Middleware.Audit

variable {cm : CaseMap} {limit : Limit} {q q' : Values} {raw raw' : Bytes} {k : Bytes}

/-- What is left of a key, when the sensitive ones of some keys have been redacted. -/
theorem get_foldl_redact (keys : List Bytes) (q : Values) (k : Bytes) :
    (keys.foldl (fun q k => if sensitive cm k then q.set k redacted else q) q).get k =
      if sensitive cm k = true ∧ k ∈ keys then [redacted] else q.get k := by
  induction keys generalizing q with
  | nil => simp
  | cons j keys ih =>
    rw [List.foldl_cons, ih]
    by_cases hk : sensitive cm k = true ∧ k ∈ keys
    · rw [if_pos hk, if_pos ⟨hk.1, List.mem_cons_of_mem j hk.2⟩]
    · rw [if_neg hk]
      by_cases hj : sensitive cm j = true
      · rw [if_pos hj, get_set]
        by_cases hkj : k = j
        · subst hkj
          rw [if_pos rfl, if_pos ⟨hj, List.mem_cons_self⟩]
        · rw [if_neg hkj, if_neg fun h => hk ⟨h.1, (List.mem_cons.mp h.2).resolve_left hkj⟩]
      · rw [if_neg hj, if_neg]
        rintro ⟨hsensitive, hmem⟩
        rcases List.mem_cons.mp hmem with rfl | hmem
        · exact hj hsensitive
        · exact hk ⟨hsensitive, hmem⟩

theorem get_redact : (redact cm q).get k =
    if sensitive cm k = true ∧ k ∈ q.map Prod.fst then [redacted] else q.get k := by
  rw [redact, get_foldl_redact]
  simp only [List.mem_dedup]

/-- A redacted query is no longer. -/
theorem length_foldl_redact {keys : List Bytes} {q : Values} (h : ∀ k ∈ keys, k ∈ q.map Prod.fst) :
    (keys.foldl (fun q k => if sensitive cm k then q.set k redacted else q) q).length ≤
      q.length := by
  induction keys generalizing q with
  | nil => exact le_rfl
  | cons j keys ih =>
    obtain ⟨hj, hkeys⟩ := List.forall_mem_cons.mp h
    rw [List.foldl_cons]
    split
    · have hset : (q.set j redacted).length ≤ q.length := by
        have hlt : (q.filter (·.1 ≠ j)).length < q.length := by
          obtain ⟨p, hp, hkey⟩ := List.mem_map.mp hj
          exact List.length_filter_lt_length_iff_exists.mpr ⟨p, hp, by simpa using hkey⟩
        rw [Values.set, List.length_append, List.length_singleton]
        omega
      refine (ih fun k hk => ?_).trans hset
      rw [← get_ne_nil_iff, get_set]
      split
      · simp
      · exact get_ne_nil_iff.mpr (hkeys k hk)
    · exact ih hkeys

theorem length_redact : (redact cm q).length ≤ q.length :=
  length_foldl_redact fun _ hk => List.mem_dedup.mp hk

theorem encode_redact_nil : (redact cm []).encode = [] := by
  rw [redact, List.map_nil, List.dedup_nil, List.foldl_nil, Values.encode, Values.sorted,
    List.mergeSort_nil]
  rfl

/-- What is redacted is written from what was read, also where there is nothing. -/
theorem redactQuery_some (h : parseQuery limit raw = some q) :
    redactQuery cm limit raw = (redact cm q).encode := by
  by_cases hraw : raw = []
  · subst hraw
    rw [parseQuery_nil] at h
    cases h
    rw [redactQuery, if_pos rfl, encode_redact_nil]
  · rw [redactQuery, if_neg hraw, h]

theorem redactQuery_none (h : parseQuery limit raw = none) :
    redactQuery cm limit raw = ascii "[unparsable]" := by
  have hraw : raw ≠ [] := by
    rintro rfl
    rw [parseQuery_nil] at h
    cases h
  rw [redactQuery, if_neg hraw, h]

/-- Requests that differ in the values of sensitive parameters only leave one and the same trace
in the log and in the database. -/
theorem audit_hides (cm : CaseMap) (limit : Limit) (hasDB : Bool) (r : Request) (h : Handled)
    (raw' : Bytes) (q q' : Values) (hread : parseQuery limit r.rawQuery = some q)
    (hread' : parseQuery limit raw' = some q')
    (hkeys : ∀ k, k ∈ q.map Prod.fst ↔ k ∈ q'.map Prod.fst)
    (hvalues : ∀ k, sensitive cm k = false → q.get k = q'.get k) :
    audit cm limit hasDB r h = audit cm limit hasDB { r with rawQuery := raw' } h := by
  have hencode : (redact cm q).encode = (redact cm q').encode := by
    refine encode_congr fun k => ?_
    rw [get_redact, get_redact]
    cases hk : sensitive cm k with
    | false => simp [hvalues k hk]
    | true =>
      by_cases hmem : k ∈ q.map Prod.fst
      · rw [if_pos ⟨rfl, hmem⟩, if_pos ⟨rfl, (hkeys k).mp hmem⟩]
      · have hmem' := fun h' => hmem ((hkeys k).mpr h')
        rw [if_neg fun h => hmem h.2, if_neg fun h => hmem' h.2,
          not_not.mp (mt get_ne_nil_iff.mp hmem), not_not.mp (mt get_ne_nil_iff.mp hmem')]
  have hpath : loggedPath cm limit r = loggedPath cm limit { r with rawQuery := raw' } := by
    simp only [loggedPath, redactQuery_some hread, redactQuery_some hread', hencode]
  simp only [audit, hpath]

def standard : Limit where
  within n := n ≤ 10000
  within_mono h hn := decide_eq_true (h.trans (of_decide_eq_true hn))
  within_one := by decide

def reset : Request where
  path := ascii "/api/v1/reset"
  rawQuery := ascii "token=ab&page=2"
  method := ascii "GET"
  requestID := "r1"
  freshID := "r2"
  clientIP := "192.0.2.7"
  userAgent := ascii "curl/8.5.0"

def answered : Handled where
  status := 200
  size := 17
  latencyMs := 3
  tenantID := "t1"
  userID := "u1"

theorem audit_hides_token : audit asciiCase standard true reset answered =
    audit asciiCase standard true { reset with rawQuery := ascii "page=2&token=c&token=d" }
      answered := by
  refine audit_hides asciiCase standard true reset answered _
    [(ascii "token", ascii "ab"), (ascii "page", ascii "2")]
    [(ascii "page", ascii "2"), (ascii "token", ascii "c"), (ascii "token", ascii "d")]
    (by decide +kernel) (by decide +kernel) (fun k => ?_) (fun k hk => ?_)
  · simp only [List.map_cons, List.map_nil, List.mem_cons, List.not_mem_nil, or_false]
    tauto
  · have htoken : ascii "token" ≠ k := by
      rintro rfl
      exact absurd hk (by decide +kernel)
    simp [Values.get, List.filter_cons, htoken]

theorem graphic_encodePairs {pairs : List (Bytes × Bytes)} {c : UInt8}
    (h : c ∈ encodePairs pairs) : Graphic c ∧ c ≠ 0x5b := by
  have hall : ∀ n < 256, Safe (UInt8.ofNat n) ∨ UInt8.ofNat n = 0x3d ∨ UInt8.ofNat n = 0x26 →
      Graphic (UInt8.ofNat n) ∧ UInt8.ofNat n ≠ 0x5b := by
    unfold Safe
    decide +kernel
  have hc := hall c.toNat c.toNat_lt
  rw [UInt8.ofNat_toNat] at hc
  exact hc (mem_encodePairs h)

theorem parseQuery_unparsable :
    parseQuery limit (ascii "[unparsable]") = some [(ascii "[unparsable]", [])] := by
  have hcount : (ascii "[unparsable]").count 0x26 = 0 := by decide +kernel
  have hpairs : parsePairs (ascii "[unparsable]") = some [(ascii "[unparsable]", [])] := by
    decide +kernel
  rw [parseQuery, hcount, Nat.zero_add, if_pos limit.within_one, hpairs]

/-- Nothing that is redacted differs from what was there in more than the values of sensitive
parameters, and a second pass over it changes it only if it could not be read. -/
theorem redactQuery_reads (cm : CaseMap) (limit : Limit) (raw : Bytes) :
    (∀ c ∈ redactQuery cm limit raw, Graphic c) ∧
      (redactQuery cm limit (redactQuery cm limit raw) = redactQuery cm limit raw ↔
        (parseQuery limit raw).isSome = true) ∧
      ∀ q, parseQuery limit raw = some q → ∃ q',
        parseQuery limit (redactQuery cm limit raw) = some q' ∧ ∀ k, q'.get k =
          if sensitive cm k = true ∧ k ∈ q.map Prod.fst then [redacted] else q.get k := by
  cases hread : parseQuery limit raw with
  | none =>
    rw [redactQuery_none hread]
    refine ⟨by decide +kernel, iff_of_false (fun h => ?_) (by simp), fun q hq => ?_⟩
    · rw [redactQuery_some parseQuery_unparsable] at h
      have hbracket : 0x5b ∈ Values.encode (redact cm [(ascii "[unparsable]", [])]) := by
        rw [h]
        decide +kernel
      exact (graphic_encodePairs hbracket).2 rfl
    · cases hq
  | some q =>
    have hshort : (redact cm q).length ≤ q.length := length_redact
    have hagain := parseQuery_encode hread hshort
    rw [redactQuery_some hread, redactQuery_some hagain]
    refine ⟨fun c hc => (graphic_encodePairs hc).1, iff_of_true ?_ rfl, ?_⟩
    · refine encode_congr fun k => ?_
      rw [get_redact, get_sorted]
      split_ifs with h
      · obtain ⟨hsensitive, hmem⟩ := h
        rw [← get_ne_nil_iff, get_sorted, get_redact] at hmem
        rw [get_redact]
        split_ifs at hmem ⊢ with hk
        · rfl
        · exact absurd ⟨hsensitive, get_ne_nil_iff.mp hmem⟩ hk
      · rfl
    · rintro q' hq
      cases hq
      exact ⟨_, hagain, fun k => by rw [get_sorted, get_redact]⟩

end RivicQ.Properties.Redactions
