import RivicQ.Lib.Bytes
import RivicQ.Lib.Regexes

namespace RivicQ.Lib.Runes

open RivicQ.Lib.Bytes RivicQ.Lib.Regexes RivicQ.Lib.Regexes.Regex

/-- A character of a string with the bytes it is read from. -/
structure Rune where
  char : Char
  bytes : Bytes

/-- For a first byte of more: its part of the code, how many follow, and the range of the
first that follows. -/
def lead (b : Nat) : Option (Nat × Nat × Nat × Nat) :=
  if 0xc2 ≤ b ∧ b ≤ 0xdf then some (b - 0xc0, 1, 0x80, 0xbf)
  else if b = 0xe0 then some (0, 2, 0xa0, 0xbf)
  else if b = 0xed then some (0xd, 2, 0x80, 0x9f)
  else if 0xe1 ≤ b ∧ b ≤ 0xef then some (b - 0xe0, 2, 0x80, 0xbf)
  else if b = 0xf0 then some (0, 3, 0x90, 0xbf)
  else if 0xf1 ≤ b ∧ b ≤ 0xf3 then some (b - 0xf0, 3, 0x80, 0xbf)
  else if b = 0xf4 then some (4, 3, 0x80, 0x8f)
  else none

def replacement : Char := Char.ofNat 0xfffd

/-- `utf8.DecodeRuneInString`: what is not UTF-8 is read byte by byte. -/
def decodeRune (b : UInt8) (rest : Bytes) : Rune :=
  if b.toNat < 0x80 then ⟨Char.ofNat b.toNat, [b]⟩
  else
    match lead b.toNat with
    | none => ⟨replacement, [b]⟩
    | some (high, n, lo, hi) =>
      match rest.take n with
      | [] => ⟨replacement, [b]⟩
      | c :: cs =>
        if lo ≤ c.toNat ∧ c.toNat ≤ hi ∧ cs.length + 1 = n ∧
            cs.all fun d => 0x80 ≤ d.toNat && d.toNat ≤ 0xbf then
          ⟨Char.ofNat ((c :: cs).foldl (fun v d => v * 64 + (d.toNat - 0x80)) high), b :: c :: cs⟩
        else ⟨replacement, [b]⟩

/-- The characters after some bytes that have been read already. -/
def decodeAfter : Nat → Bytes → List Rune
  | _, [] => []
  | n + 1, _ :: rest => decodeAfter n rest
  | 0, b :: rest =>
    let r := decodeRune b rest
    r :: decodeAfter (r.bytes.length - 1) rest

/-- The characters of a string of any bytes. -/
def runes (s : Bytes) : List Rune := decodeAfter 0 s

def chars (s : List Rune) : List Char := s.map Rune.char

def unread (s : List Rune) : Bytes := s.flatMap Rune.bytes

abbrev Pattern := Regex Rune

namespace Pattern

def sym (p : Char → Bool) : Pattern := .one fun r => p r.char

def lit (c : Char) : Pattern := sym (· == c)

/-- The characters that are one under `(?i)`: of those for an ASCII letter two are not ASCII. -/
def sameFold (c d : Char) : Bool :=
  c.toLower == d.toLower || c.toLower == 'k' && d.toNat == 0x212a ||
    c.toLower == 's' && d.toNat == 0x17f

def text (s : String) : Pattern := seqs (s.toList.map lit)

def foldText (s : String) : Pattern := seqs (s.toList.map fun c => sym (sameFold c))

def oneOf (s : String) : Pattern := sym s.toList.contains

def noneOf (s : String) : Pattern := sym fun c => !s.toList.contains c

/-- `\s`. -/
def blank : Pattern := oneOf "\t\n\x0c\r "

def isWord (c : Char) : Bool := c.isAlphanum || c == '_'

/-- `\b`. -/
def wordBoundary : Pattern := .look fun a b => (a.any (isWord ·.char)) != (b.any (isWord ·.char))

theorem ungrouped_text (s : String) : Ungrouped (text s) := by
  apply ungrouped_seqs
  intro r hr
  obtain ⟨c, -, rfl⟩ := List.mem_map.mp hr
  trivial

theorem ungrouped_foldText (s : String) : Ungrouped (foldText s) := by
  apply ungrouped_seqs
  intro r hr
  obtain ⟨c, -, rfl⟩ := List.mem_map.mp hr
  trivial

/-- A text matches itself only. -/
theorem chars_of_text {s : String} {prev : Option Rune} {rest : List Rune} {w : Way Rune}
    (hw : w ∈ ways (text s) prev rest) : chars w.text = s.toList := by
  unfold text at hw
  generalize s.toList = cs at hw
  induction cs generalizing prev rest w with
  | nil =>
    obtain rfl := List.mem_singleton.mp hw
    rfl
  | cons c cs ih =>
    obtain ⟨v, hv, _, _, x, hx, htext, -⟩ := mem_ways_seqs_cons hw
    have hfirst : chars v.text = [c] := by
      cases rest with
      | nil => cases hv
      | cons r rest =>
        unfold lit sym ways at hv
        split at hv
        · next hc =>
          obtain rfl := List.mem_singleton.mp hv
          rw [chars, List.map_cons, List.map_nil, beq_iff_eq.mp hc]
        · cases hv
    rw [htext, chars, List.map_append, ← chars, ← chars, hfirst, ih hx, List.singleton_append]

end Pattern

end RivicQ.Lib.Runes
