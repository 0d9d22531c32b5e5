import Mathlib.Algebra.GroupWithZero.Nat
import Mathlib.Algebra.Ring.Int.Defs
import RivicQ.Lib.GoStrings

namespace RivicQ.Lib.HostPorts

open RivicQ.Lib.GoStrings

/-- The text before and after the last occurrence of a separator. -/
def cutLast (s : List Char) (sep : Char) : Option (List Char × List Char) :=
  if sep ∈ s then
    some ((s.rdropWhile (· != sep)).dropLast, s.rtakeWhile (· != sep))
  else none

/-- Whether a number has a minus sign, and its digits. -/
def splitSign : List Char → Bool × List Char
  | '-' :: rest => (true, rest)
  | '+' :: rest => (false, rest)
  | digits => (false, digits)

/-- The decimal digits of a number with an optional sign, clamped to 64 bits;
the flag tells whether there was no error. -/
def atoi (s : String) : Int × Bool :=
  let (negative, digits) := splitSign s.toList
  if digits = [] ∨ ¬ digits.all Char.isDigit then (0, false)
  else
    let n := Nat.ofDigitChars 10 digits 0
    if negative then if n ≤ 2 ^ 63 then (-n, true) else (-2 ^ 63, false)
    else if n < 2 ^ 63 then (n, true) else (2 ^ 63 - 1, false)

def splitHostPort (hostport : String) : Option (String × String) :=
  let s := hostport.toList
  match cutLast s ':' with
  | none => none
  | some (front, port) =>
    if s.head? = some '[' then
      let inside := s.takeWhile (· != ']')
      if front ≠ inside ++ [']'] then none
      else if '[' ∈ s.tail ∨ ']' ∈ s.drop (inside.length + 1) then none
      else some (String.ofList inside.tail, String.ofList port)
    else if ':' ∈ front then none
    else if '[' ∈ s ∨ ']' ∈ s then none
    else some (String.ofList front, String.ofList port)

def joinHostPort (host port : String) : String :=
  if ':' ∈ host.toList then "[" ++ host ++ "]:" ++ port else host ++ ":" ++ port

/-- A text without the signs that delimit hosts and ports. -/
def Plain (s : String) : Prop := '[' ∉ s.toList ∧ ']' ∉ s.toList

variable {s a b : List Char} {sep : Char} {host port hostport : String}

theorem cutLast_append (hb : sep ∉ b) : cutLast (a ++ sep :: b) sep = some (a, b) := by
  have hmem : sep ∈ a ++ sep :: b := List.mem_append_right a List.mem_cons_self
  have hall : ∀ c ∈ b.reverse, (c != sep) = true := fun c hc =>
    bne_iff_ne.mpr fun h => hb (h ▸ List.mem_reverse.mp hc)
  have hreverse : a ++ sep :: b = (b.reverse ++ sep :: a.reverse).reverse := by simp
  have htake : (sep :: a.reverse).takeWhile (· != sep) = [] := by simp
  have hdrop : (sep :: a.reverse).dropWhile (· != sep) = sep :: a.reverse := by simp
  rw [cutLast, if_pos hmem, hreverse, List.rtakeWhile_reverse, List.rdropWhile_reverse,
    List.takeWhile_append_of_pos hall, List.dropWhile_append_of_pos hall, htake, hdrop]
  simp

theorem cutLast_eq (h : cutLast s sep = some (a, b)) : s = a ++ sep :: b ∧ sep ∉ b := by
  unfold cutLast at h
  by_cases hmem : sep ∈ s
  · rw [if_pos hmem] at h
    cases h
    have hne : s.rdropWhile (· != sep) ≠ [] := by
      intro hnil
      exact absurd (List.rdropWhile_eq_nil_iff.mp hnil sep hmem) (by simp)
    have hlast := List.rdropWhile_last_not (· != sep) s hne
    have hsep : (s.rdropWhile (· != sep)).getLast hne = sep := by simpa using hlast
    constructor
    · rw [← List.singleton_append, ← List.append_assoc]
      nth_rewrite 2 [← hsep]
      rw [List.dropLast_append_getLast, List.rdropWhile_append_rtakeWhile]
    · intro hb
      exact absurd (List.mem_rtakeWhile_imp hb) (by simp)
  · rw [if_neg hmem] at h
    cases h

/-- A text that can be split is a host, in brackets or without a colon, and a port. -/
theorem splitHostPort_cases (h : splitHostPort hostport = some (host, port)) :
    (hostport.toList = '[' :: (host.toList ++ ']' :: ':' :: port.toList) ∨
      hostport.toList = host.toList ++ ':' :: port.toList ∧ ':' ∉ host.toList) ∧
      Plain host ∧ Plain port ∧ ':' ∉ port.toList := by
  unfold splitHostPort at h
  generalize hostport.toList = s at h ⊢
  cases hcut : cutLast s ':' with
  | none =>
    simp only [hcut] at h
    cases h
  | some parts =>
    obtain ⟨front, rest⟩ := parts
    obtain ⟨hs, hcolon⟩ := cutLast_eq hcut
    simp only [hcut] at h
    by_cases hbracket : s.head? = some '['
    · obtain ⟨inside, hinside⟩ : ∃ inside, inside = s.takeWhile (· != ']') := ⟨_, rfl⟩
      rw [if_pos hbracket, ← hinside] at h
      by_cases hfront : front = inside ++ [']']
      · rw [if_neg (not_not.mpr hfront)] at h
        by_cases hclean : '[' ∈ s.tail ∨ ']' ∈ s.drop (inside.length + 1)
        · rw [if_pos hclean] at h
          cases h
        rw [if_neg hclean] at h
        obtain ⟨hopen, hclose⟩ := not_or.mp hclean
        cases h
        have hin : ']' ∉ inside := fun hmem =>
          absurd (List.mem_takeWhile_imp (hinside ▸ hmem)) (by simp)
        have hs' : s = inside ++ ']' :: ':' :: rest := by
          rw [hs, hfront, List.append_assoc]
          rfl
        obtain ⟨c, host, hc⟩ : ∃ c host, inside = c :: host := by
          cases hnil : inside with
          | nil =>
            rw [hs', hnil] at hbracket
            cases hbracket
          | cons c host => exact ⟨c, host, rfl⟩
        have hdrop : ((c :: host) ++ ']' :: ':' :: rest).drop ((c :: host).length + 1) =
            ':' :: rest := by
          rw [List.append_cons]
          exact List.drop_left' (by simp)
        have hhead : c = '[' := by
          rw [hs', hc] at hbracket
          exact Option.some.inj hbracket
        rw [hs', hc] at hopen hclose
        rw [hdrop] at hclose
        simp only [List.cons_append, List.tail_cons, List.mem_append, List.mem_cons,
          not_or] at hopen hclose
        obtain ⟨hhost, _, _, hport⟩ := hopen
        rw [hc] at hin
        simp only [Plain, String.toList_ofList, hc, List.tail_cons]
        refine ⟨Or.inl ?_, ⟨hhost, fun h => hin (List.mem_cons_of_mem c h)⟩, ⟨hport, hclose.2⟩,
          hcolon⟩
        rw [hs', hc, hhead]
        rfl
      · rw [if_pos hfront] at h
        cases h
    · rw [if_neg hbracket] at h
      by_cases hmany : ':' ∈ front
      · rw [if_pos hmany] at h
        cases h
      rw [if_neg hmany] at h
      by_cases hclean : '[' ∈ s ∨ ']' ∈ s
      · rw [if_pos hclean] at h
        cases h
      rw [if_neg hclean] at h
      cases h
      rw [hs] at hclean
      simp only [List.mem_append, List.mem_cons, not_or] at hclean
      obtain ⟨⟨hopen, _, hopen'⟩, hclose, _, hclose'⟩ := hclean
      simp only [Plain, String.toList_ofList]
      exact ⟨Or.inr ⟨hs, hmany⟩, ⟨hopen, hclose⟩, ⟨hopen', hclose'⟩, hcolon⟩

/-- A host and a port that a text was split into are free of brackets, and the port
has no colon. -/
theorem splitHostPort_plain (h : splitHostPort hostport = some (host, port)) :
    Plain host ∧ Plain port ∧ ':' ∉ port.toList := (splitHostPort_cases h).2

theorem splitHostPort_joinHostPort (hhost : Plain host) (hport : Plain port)
    (hcolon : ':' ∉ port.toList) :
    splitHostPort (joinHostPort host port) = some (host, port) := by
  obtain ⟨hopen, hclose⟩ := hhost
  obtain ⟨hopen', hclose'⟩ := hport
  unfold splitHostPort joinHostPort
  by_cases hmany : ':' ∈ host.toList
  · have htext : ("[" ++ host ++ "]:" ++ port).toList =
        ('[' :: host.toList ++ [']']) ++ ':' :: port.toList := by
      simp
    have hinside : (('[' :: host.toList ++ [']']) ++ ':' :: port.toList).takeWhile (· != ']') =
        '[' :: host.toList := by
      rw [List.append_assoc, List.takeWhile_append_of_pos]
      · simp
      · intro c hc
        rw [bne_iff_ne]
        rintro rfl
        simp_all
    have hdrop : (('[' :: host.toList ++ [']']) ++ ':' :: port.toList).drop
        (('[' :: host.toList).length + 1) = ':' :: port.toList := by
      exact List.drop_left' (by simp)
    simp only [if_pos hmany, htext, cutLast_append hcolon, hinside, hdrop]
    simp [hopen, hopen', hclose']
  · have htext : (host ++ ":" ++ port).toList = host.toList ++ ':' :: port.toList := by simp
    have hbracket : (host.toList ++ ':' :: port.toList).head? ≠ some '[' := by
      cases hl : host.toList with
      | nil => simp
      | cons c rest =>
        rw [hl] at hopen
        rintro ⟨⟩
        exact hopen List.mem_cons_self
    simp only [if_neg hmany, htext, cutLast_append hcolon, if_neg hbracket]
    simp [hopen, hclose, hopen', hclose']

/-- A host without a colon is split off. -/
theorem splitHostPort_append (hhost : Plain host) (hport : Plain port) (ha : ':' ∉ host.toList)
    (hb : ':' ∉ port.toList) (h : hostport.toList = host.toList ++ ':' :: port.toList) :
    splitHostPort hostport = some (host, port) := by
  have hjoin : joinHostPort host port = hostport := by
    apply String.toList_inj.mp
    simp [joinHostPort, ha, h]
  rw [← hjoin]
  exact splitHostPort_joinHostPort hhost hport hb

theorem mem_splitSign {cs : List Char} {c : Char} (h : c ∈ cs) :
    c ∈ (splitSign cs).2 ∨ c = '-' ∨ c = '+' := by
  unfold splitSign
  split
  · exact (List.mem_cons.mp h).elim (fun h => Or.inr (Or.inl h)) Or.inl
  · exact (List.mem_cons.mp h).elim (fun h => Or.inr (Or.inr h)) Or.inl
  · exact Or.inl h

/-- A number has digits and a sign only. -/
theorem atoi_chars {s : String} (h : (atoi s).2 = true) {c : Char} (hc : c ∈ s.toList) :
    c.isDigit = true ∨ c = '-' ∨ c = '+' := by
  refine (mem_splitSign hc).imp_left fun hmem => ?_
  by_contra hdigit
  have hbad : (splitSign s.toList).2 = [] ∨ ¬ (splitSign s.toList).2.all Char.isDigit = true :=
    Or.inr fun hall => hdigit (List.all_eq_true.mp hall c hmem)
  simp only [atoi, if_pos hbad] at h
  cases h

theorem atoi_plain {s : String} (h : (atoi s).2 = true) : Plain s ∧ ':' ∉ s.toList := by
  have hbad : ∀ c ∈ s.toList, c ≠ '[' ∧ c ≠ ']' ∧ c ≠ ':' := by
    intro c hc
    obtain hdigit | rfl | rfl := atoi_chars h hc
    · refine ⟨?_, ?_, ?_⟩ <;> rintro rfl <;> exact absurd hdigit (by decide)
    · decide
    · decide
  exact ⟨⟨fun hc => (hbad _ hc).1 rfl, fun hc => (hbad _ hc).2.1 rfl⟩, fun hc => (hbad _ hc).2.2 rfl⟩

end RivicQ.Lib.HostPorts

namespace RivicQ.Lib.URLs

open RivicQ.Lib.HostPorts

/-- What a parsed URL tells of its destination. -/
structure URL where
  scheme : String
  host : String

/-- Whether a text is empty or a colon with digits. -/
def validOptionalPort (port : List Char) : Bool :=
  match port with
  | [] => true
  | c :: digits => c == ':' && digits.all Char.isDigit

namespace URL

/-- The host without its port, where it has one of digits only. -/
def hostPort (u : URL) : List Char × List Char :=
  let (host, port) :=
    match cutLast u.host.toList ':' with
    | some (front, port) =>
      if validOptionalPort (':' :: port) then (front, port) else (u.host.toList, [])
    | none => (u.host.toList, [])
  if host.head? = some '[' ∧ host.getLast? = some ']' then (host.tail.dropLast, port)
  else (host, port)

def hostname (u : URL) : String := String.ofList u.hostPort.1

def port (u : URL) : String := String.ofList u.hostPort.2

variable {u : URL} {h p : String}

theorem cutLast_splitHostPort (hsplit : splitHostPort u.host = some (h, p)) :
    ∃ front, cutLast u.host.toList ':' = some (front, p.toList) ∧
      (front = '[' :: h.toList ++ [']'] ∨ front = h.toList) := by
  obtain ⟨htext | ⟨htext, _⟩, _, _, hcolon⟩ := splitHostPort_cases hsplit
  · refine ⟨'[' :: h.toList ++ [']'], ?_, Or.inl rfl⟩
    rw [htext, ← cutLast_append hcolon]
    simp
  · exact ⟨h.toList, by rw [htext, cutLast_append hcolon], Or.inr rfl⟩

/-- A URL's host that can be split is read the same way, if its port has digits only. -/
theorem hostPort_valid (hsplit : splitHostPort u.host = some (h, p))
    (hvalid : validOptionalPort (':' :: p.toList) = true) : u.hostname = h ∧ u.port = p := by
  obtain ⟨hhost, _, _⟩ := splitHostPort_plain hsplit
  obtain ⟨front, hcut, hfront⟩ := cutLast_splitHostPort hsplit
  have hpair : u.hostPort = (h.toList, p.toList) := by
    unfold hostPort
    simp only [hcut, if_pos hvalid]
    obtain rfl | rfl := hfront
    · have hlast : ('[' :: h.toList ++ [']']).getLast? = some ']' := List.getLast?_concat ..
      rw [if_pos ⟨rfl, hlast⟩]
      simp
    · have hhead : h.toList.head? ≠ some '[' := fun hhead =>
        hhost.1 (List.mem_of_mem_head? hhead)
      rw [if_neg fun hboth => hhead hboth.1]
  rw [hostname, port, hpair, String.ofList_toList, String.ofList_toList]
  exact ⟨rfl, rfl⟩

theorem hostPort_invalid (hsplit : splitHostPort u.host = some (h, p))
    (hvalid : validOptionalPort (':' :: p.toList) = false) : u.hostname = u.host := by
  obtain ⟨_, hport, _⟩ := splitHostPort_plain hsplit
  obtain ⟨front, hcut, _⟩ := cutLast_splitHostPort hsplit
  have htext : u.host.toList = front ++ ':' :: p.toList := (cutLast_eq hcut).1
  have hlast : u.host.toList.getLast? ≠ some ']' := by
    intro hlast
    rw [htext, List.getLast?_append_of_ne_nil _ (List.cons_ne_nil _ _)] at hlast
    obtain hcolon | hmem := List.mem_cons.mp (List.mem_of_getLast? hlast)
    · cases hcolon
    · exact hport.2 hmem
  unfold hostname hostPort
  simp only [hcut, hvalid, Bool.false_eq_true, if_false]
  rw [if_neg fun hboth => hlast hboth.2, String.ofList_toList]

/-- A port that is not empty stands behind the last colon, and the hostname before it. -/
theorem hostPort_of_port (h : u.port ≠ "") :
    ∃ front, u.host.toList = front ++ ':' :: u.port.toList ∧ u.port.toList.all Char.isDigit ∧
      (u.hostname.toList = front ∨ ∃ rest, front = '[' :: rest ∧ u.hostname.toList = rest.dropLast) := by
  have hsplit : ∃ front, u.host.toList = front ++ ':' :: u.hostPort.2 ∧
      u.hostPort.2.all Char.isDigit ∧
      (u.hostPort.1 = front ∨ ∃ rest, front = '[' :: rest ∧ u.hostPort.1 = rest.dropLast) := by
    have hport : u.hostPort.2 ≠ [] := fun hnil => h (by rw [port, hnil])
    revert hport
    unfold hostPort
    cases hcut : cutLast u.host.toList ':' with
    | none =>
      simp only
      split_ifs <;> exact fun hnil => absurd rfl hnil
    | some parts =>
      obtain ⟨front, digits⟩ := parts
      simp only
      cases hvalid : validOptionalPort (':' :: digits) with
      | false =>
        simp only [Bool.false_eq_true, if_false]
        split_ifs <;> exact fun hnil => absurd rfl hnil
      | true =>
        intro _
        have hdigits : digits.all Char.isDigit = true := by
          simpa [validOptionalPort] using hvalid
        simp only [if_true]
        split_ifs with hbracket
        · obtain ⟨rest, hrest⟩ := List.head?_eq_some_iff.mp hbracket.1
          exact ⟨front, (cutLast_eq hcut).1, hdigits, Or.inr ⟨rest, hrest, by rw [hrest]; rfl⟩⟩
        · exact ⟨front, (cutLast_eq hcut).1, hdigits, Or.inl rfl⟩
  simpa only [port, hostname, String.toList_ofList] using hsplit

end URL

end RivicQ.Lib.URLs
