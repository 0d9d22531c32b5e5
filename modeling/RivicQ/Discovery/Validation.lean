import RivicQ.Discovery.LocalPaths

namespace RivicQ.Discovery.Validation

open RivicQ.Lib.GoStrings RivicQ.Lib.HostPorts RivicQ.Lib.Programs
open RivicQ.Discovery.Network RivicQ.Discovery.Policies RivicQ.Discovery.LocalPaths

def isBracket (c : Char) : Bool := c = '[' || c = ']'

/-- `strings.Trim` with the two brackets as cutset. -/
def trimBrackets (s : String) : String :=
  String.ofList ((s.toList.dropWhile isBracket).rdropWhile isBracket)

variable (m : Machine) (p : TargetPolicy)

/-- The part of a URL that names host and port; any other text is left as it is. -/
def hostPart (raw : String) : String :=
  if contains raw "://" then
    match m.parseURL raw with
    | some u => if u.hostname ≠ "" then u.host else raw
    | none => raw
  else raw

def splitTrimmed (value : String) : String × Int :=
  match splitHostPort value with
  | some (h, p) => (trimBrackets h, (atoi p).1)
  | none => (trimBrackets value, 0)

def hostAndPort (raw : String) : String × Int := splitTrimmed (hostPart m raw)

def validateNetworkTarget (raw : String) : Prog (Except Err Unit) :=
  validateHostPort m.cases p raw (hostAndPort m raw).1 (hostAndPort m raw).2

def validateTarget (target : String) : Prog (Except Err Unit) :=
  let raw := trimSpace target
  if raw = "" then .pure (blocked .empty)
  else if len raw > 512 then .pure (blocked .tooLong)
  else if looksLikeLocalPath raw then .pure (validateLocalPath m p raw)
  else validateNetworkTarget m p raw

section Lookups

open RivicQ.Lib.Traces

variable {m p} {P : List (Event Net) → Event Net → Prop} {target : String}

theorem always_validateTarget (hP : Lasting P)
    (hlookup : ∀ host (answer : Answer), P [] ⟨.lookupIP host, answer⟩) :
    Always P (validateTarget m p target) := by
  dsimp only [validateTarget, validateNetworkTarget]
  split_ifs
  · exact always_pure
  · exact always_pure
  · exact always_pure
  · exact always_validateHostPort hP hlookup

end Lookups

section Brackets

variable {s port : String} {x z : List Char} {c : Char}

theorem not_isBracket_of_plain (h : Plain s) (hc : c ∈ s.toList) : isBracket c = false := by
  have hopen : c ≠ '[' := fun he => h.1 (he ▸ hc)
  have hclose : c ≠ ']' := fun he => h.2 (he ▸ hc)
  simp [isBracket, hopen, hclose]

theorem trimBrackets_plain (h : Plain s) : trimBrackets s = s := by
  have hdrop : s.toList.dropWhile isBracket = s.toList := by
    rw [List.dropWhile_eq_self_iff]
    intro hlen
    simp [not_isBracket_of_plain h (List.getElem_mem hlen)]
  have hrdrop : s.toList.rdropWhile isBracket = s.toList := by
    rw [List.rdropWhile_eq_self_iff]
    intro hne
    simp [not_isBracket_of_plain h (List.getLast_mem hne)]
  rw [trimBrackets, hdrop, hrdrop, String.ofList_toList]

theorem mem_dropWhile_bracket (hc : isBracket c = false) (h : c ∈ x) :
    c ∈ x.dropWhile isBracket := by
  rw [← List.takeWhile_append_dropWhile (p := isBracket) (l := x)] at h
  refine (List.mem_append.mp h).resolve_left fun htake => ?_
  rw [List.mem_takeWhile_imp htake] at hc
  cases hc

theorem mem_trimBrackets (hc : isBracket c = false) (h : c ∈ s.toList) :
    c ∈ (trimBrackets s).toList := by
  rw [trimBrackets, String.toList_ofList, List.rdropWhile, List.mem_reverse]
  exact mem_dropWhile_bracket hc (List.mem_reverse.mpr (mem_dropWhile_bracket hc h))

/-- Nothing is trimmed behind a colon and a port. -/
theorem trimBrackets_port (hport : Plain port) (h : s.toList = x ++ ':' :: port.toList) :
    (trimBrackets s).toList = x.dropWhile isBracket ++ ':' :: port.toList := by
  have hcolon : isBracket ':' = false := by decide
  have hdrop : (x ++ ':' :: port.toList).dropWhile isBracket =
      x.dropWhile isBracket ++ ':' :: port.toList := by
    rw [List.dropWhile_append, List.dropWhile_cons_of_neg (by simp [hcolon])]
    split_ifs with hnil
    · rw [List.isEmpty_iff.mp hnil, List.nil_append]
    · rfl
  rw [trimBrackets, String.toList_ofList, h, hdrop, List.rdropWhile_eq_self_iff]
  intro hne
  have hlast : (x.dropWhile isBracket ++ ':' :: port.toList).getLast hne ∈ ':' :: port.toList := by
    rw [List.getLast_append_of_ne_nil _ (List.cons_ne_nil _ _)]
    exact List.getLast_mem _
  obtain hlast | hlast := List.mem_cons.mp hlast
  · simp [hlast, hcolon]
  · rw [not_isBracket_of_plain hport hlast]
    simp

theorem head_trimBrackets (h : trimBrackets s = s) : s.toList.head? ≠ some '[' := by
  intro hhead
  obtain ⟨rest, hs⟩ := List.head?_eq_some_iff.mp hhead
  have htrim := congrArg String.toList h
  rw [trimBrackets, String.toList_ofList, hs, List.dropWhile_cons_of_pos (by decide)] at htrim
  have hlen := congrArg List.length htrim
  have hr := (List.rdropWhile_prefix isBracket (rest.dropWhile isBracket)).length_le
  have hd := List.length_dropWhile_le isBracket rest
  rw [List.length_cons] at hlen
  omega

/-- A text is no longer than its part behind the brackets at its front. -/
theorem prefix_ne_dropWhile (hz : z <+: x) : z ≠ x.dropWhile isBracket ++ ':' :: port.toList := by
  intro h
  obtain ⟨d, hd, hhead⟩ : ∃ d, isBracket d = false ∧ z.head? = some d := by
    have hnot := List.head?_dropWhile_not isBracket x
    cases hdrop : x.dropWhile isBracket with
    | nil => exact ⟨':', by decide, by rw [h, hdrop]; rfl⟩
    | cons d rest =>
      rw [hdrop] at hnot
      exact ⟨d, hnot, by rw [h, hdrop]; rfl⟩
  obtain ⟨rest, hx⟩ : ∃ rest, x = d :: rest := by
    obtain ⟨z', rfl⟩ := List.head?_eq_some_iff.mp hhead
    obtain ⟨tail, rfl⟩ := hz
    exact ⟨z' ++ tail, rfl⟩
  have hlen := hz.length_le
  rw [hx, List.dropWhile_cons_of_neg (by simp [hd])] at h
  rw [hx, h, List.length_append, List.length_cons (a := ':')] at hlen
  omega

end Brackets

end RivicQ.Discovery.Validation
