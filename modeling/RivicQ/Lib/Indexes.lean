import RivicQ.Lib.Tables

namespace RivicQ.Lib.Indexes

open RivicQ.Lib.Tables

variable {V : Type} (id key : V → String)

/-- Two tables that hold the same records, one under their ids and one under another key. -/
structure InStep (t s : Table V) : Prop where
  byID : ∀ {i v}, t.lookup i = some v → id v = i ∧ s.lookup (key v) = some v
  byKey : ∀ {k v}, s.lookup k = some v → key v = k ∧ t.lookup (id v) = some v

variable {id key} {s t : Table V} {v w old : V} {i j : String}

theorem inStep_empty : InStep id key ∅ ∅ := by
  constructor <;> intro k v h <;> simp at h

theorem unique_of_inStep (h : InStep id key t s) (hv : t.lookup i = some v)
    (hw : t.lookup j = some w) (hkey : key v = key w) : v = w := by
  have hv' := (h.byID hv).2
  rw [hkey, (h.byID hw).2] at hv'
  exact (Option.some.inj hv').symm

/-- A record with a new key keeps the tables in step exactly if its id is new too. -/
theorem inStep_insert_iff (h : InStep id key t s) (hnew : s.lookup (key v) = none) :
    InStep id key (t.insert (id v) v) (s.insert (key v) v) ↔ t.lookup (id v) = none := by
  constructor
  · intro h'
    cases hw : t.lookup (id v) with
    | none => rfl
    | some w =>
      obtain ⟨hid, hkey⟩ := h.byID hw
      have hne : key w ≠ key v := by
        intro he
        rw [he, hnew] at hkey
        cases hkey
      -- the record that is replaced stays behind under its own key
      have hstale : (s.insert (key v) v).lookup (key w) = some w := by
        rw [lookup_insert_if, if_neg hne, hkey]
      have hfound := (h'.byKey hstale).2
      rw [lookup_insert_if, if_pos hid] at hfound
      cases hfound
      exact absurd rfl hne
  · intro hfree
    constructor
    · intro i w hw
      rw [lookup_insert_if] at hw
      by_cases hi : i = id v
      · rw [if_pos hi] at hw
        cases hw
        exact ⟨hi.symm, by rw [lookup_insert_if, if_pos rfl]⟩
      · rw [if_neg hi] at hw
        obtain ⟨hid, hkey⟩ := h.byID hw
        refine ⟨hid, ?_⟩
        rw [lookup_insert_if, if_neg, hkey]
        intro he
        rw [he, hnew] at hkey
        cases hkey
    · intro k w hw
      rw [lookup_insert_if] at hw
      by_cases hk : k = key v
      · rw [if_pos hk] at hw
        cases hw
        exact ⟨hk.symm, by rw [lookup_insert_if, if_pos rfl]⟩
      · rw [if_neg hk] at hw
        obtain ⟨hkey, hid⟩ := h.byKey hw
        refine ⟨hkey, ?_⟩
        rw [lookup_insert_if, if_neg, hid]
        intro he
        rw [he, hfree] at hid
        cases hid

/-- The key table without the key of a record that is to be given another one. -/
def released (key : V → String) (old v : V) (s : Table V) : Table V :=
  if key old ≠ key v then s.erase (key old) else s

theorem lookup_replace (k : String) :
    ((released key old v s).insert (key v) v).lookup k =
      if k = key v then some v else if k = key old then none else s.lookup k := by
  rw [lookup_insert_if]
  by_cases hk : k = key v
  · rw [if_pos hk, if_pos hk]
  rw [if_neg hk, if_neg hk, released]
  by_cases hsame : key old ≠ key v
  · rw [if_pos hsame, lookup_erase_if]
  · rw [if_neg hsame, if_neg]
    intro he
    exact hk (he.trans (not_not.mp hsame))

/-- A stored record that is replaced keeps the tables in step exactly if no other record
has its new key. -/
theorem inStep_replace_iff (h : InStep id key t s) (hold : t.lookup (id v) = some old) :
    InStep id key (t.insert (id v) v) ((released key old v s).insert (key v) v) ↔
      ∀ i w, t.lookup i = some w → key w = key v → id w = id v := by
  constructor
  · intro h' i w hw hkey
    by_contra hne
    obtain ⟨hid, _⟩ := h.byID hw
    have hstays : (t.insert (id v) v).lookup i = some w := by
      rw [lookup_insert_if, if_neg fun hi => hne (hid.trans hi), hw]
    have hfound := (h'.byID hstays).2
    rw [lookup_replace, if_pos hkey] at hfound
    cases hfound
    exact hne rfl
  · intro hfree
    constructor
    · intro i w hw
      rw [lookup_insert_if] at hw
      by_cases hi : i = id v
      · rw [if_pos hi] at hw
        cases hw
        exact ⟨hi.symm, by rw [lookup_replace, if_pos rfl]⟩
      · rw [if_neg hi] at hw
        obtain ⟨hid, hkey⟩ := h.byID hw
        refine ⟨hid, ?_⟩
        rw [lookup_replace, if_neg, if_neg, hkey]
        · intro he
          have hsame := unique_of_inStep h hw hold he
          rw [← hid, hsame] at hi
          exact hi (h.byID hold).1
        · intro he
          exact hi (hid.symm.trans (hfree i w hw he))
    · intro k w hw
      rw [lookup_replace] at hw
      by_cases hk : k = key v
      · rw [if_pos hk] at hw
        cases hw
        exact ⟨hk.symm, by rw [lookup_insert_if, if_pos rfl]⟩
      rw [if_neg hk] at hw
      by_cases hk' : k = key old
      · rw [if_pos hk'] at hw
        cases hw
      rw [if_neg hk'] at hw
      obtain ⟨hkey, hid⟩ := h.byKey hw
      refine ⟨hkey, ?_⟩
      rw [lookup_insert_if, if_neg, hid]
      intro he
      rw [he, hold] at hid
      cases hid
      exact hk' hkey.symm

end RivicQ.Lib.Indexes
