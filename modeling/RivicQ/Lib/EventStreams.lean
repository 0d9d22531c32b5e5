import Mathlib.Tactic.SplitIfs
import RivicQ.Lib.Framing
import RivicQ.Lib.Projections

namespace RivicQ.Lib.EventStreams

open RivicQ.Lib.Readers

/-- A server-sent event as its reader is told of it. -/
structure Event where
  name : List Char
  data : List Char
  deriving DecidableEq

/-- The lines that have ended, whichever way each of them ends. -/
def linesFrom (line : List Char) : List Char → List (List Char)
  | [] => []
  | '\n' :: rest => line :: linesFrom [] rest
  | '\r' :: '\n' :: rest => line :: linesFrom [] rest
  | '\r' :: rest => line :: linesFrom [] rest
  | c :: rest => linesFrom (line ++ [c]) rest

def lines (text : List Char) : List (List Char) := linesFrom [] text

/-- The fields of an event whose end has not been read yet. -/
structure Pending where
  name : List Char
  data : List (List Char)

def Pending.none : Pending := ⟨[], []⟩

/-- The name of a field and its value, without one space before it. -/
def field (line : List Char) : List Char × List Char :=
  let value := (line.dropWhile (· != ':')).tail
  (line.takeWhile (· != ':'), if value.head? = some ' ' then value.tail else value)

/-- An empty line ends an event; without a data field there is none. -/
def interpret (p : Pending) (line : List Char) : List Event × Pending :=
  if line = [] then
    if p.data = [] then ([], .none)
    else ([⟨if p.name = [] then "message".toList else p.name, ['\n'].intercalate p.data⟩], .none)
  else
    let (name, value) := field line
    if name = "event".toList then ([], { p with name := value })
    else if name = "data".toList then ([], { p with data := p.data ++ [value] })
    else ([], p)

/-- The events that a reader of the stream is told of. -/
def read (text : List Char) : List Event := outputs interpret .none (lines text)

/-- The text that an event is sent as. -/
def render (e : Event) : List Char :=
  "event".toList ++ ':' :: ' ' :: e.name ++ '\n' ::
    ("data".toList ++ ':' :: ' ' :: e.data ++ ['\n', '\n'])

/-- Text that stays on one line. -/
def OneLine (text : List Char) : Prop := ∀ c ∈ text, c ≠ '\n' ∧ c ≠ '\r'

instance (text : List Char) : Decidable (OneLine text) :=
  List.decidableBAll (fun c : Char => c ≠ '\n' ∧ c ≠ '\r') text

theorem oneLine_append {a b : List Char} : OneLine (a ++ b) ↔ OneLine a ∧ OneLine b :=
  List.forall_mem_append

theorem linesFrom_line {a : List Char} (ha : OneLine a) (line rest : List Char) :
    linesFrom line (a ++ '\n' :: rest) = (line ++ a) :: linesFrom [] rest := by
  induction a generalizing line with
  | nil => rw [List.nil_append, List.append_nil, linesFrom]
  | cons c a ih =>
    obtain ⟨⟨hn, hr⟩, ha⟩ := List.forall_mem_cons.mp ha
    rw [List.cons_append, linesFrom.eq_5 _ _ _ hn (fun _ h => absurd h hr) hr, ih ha,
      List.append_assoc, List.singleton_append]

theorem lines_line {a : List Char} (ha : OneLine a) (rest : List Char) :
    lines (a ++ '\n' :: rest) = a :: lines rest := linesFrom_line ha [] rest

/-- A rendered event is three lines. -/
theorem lines_render {e : Event} (hname : OneLine e.name) (hdata : OneLine e.data)
    (rest : List Char) :
    lines (render e ++ rest) =
      ("event".toList ++ ':' :: ' ' :: e.name) :: ("data".toList ++ ':' :: ' ' :: e.data) :: [] ::
        lines rest := by
  have hsplit : render e ++ rest = ("event".toList ++ ':' :: ' ' :: e.name) ++ '\n' ::
      (("data".toList ++ ':' :: ' ' :: e.data) ++ '\n' :: ([] ++ '\n' :: rest)) := by
    simp only [render, List.append_assoc, List.cons_append, List.nil_append]
  have hstart : ∀ name, OneLine name → ∀ value, OneLine value →
      OneLine (name ++ ':' :: ' ' :: value) := fun name h value h' =>
    oneLine_append.mpr ⟨h, List.forall_mem_cons.mpr ⟨by decide, List.forall_mem_cons.mpr
      ⟨by decide, h'⟩⟩⟩
  have hevent := hstart "event".toList (by decide +kernel) e.name hname
  have hfield := hstart "data".toList (by decide +kernel) e.data hdata
  rw [hsplit, lines_line hevent, lines_line hfield, lines_line (List.forall_mem_nil _)]

theorem field_append {name : List Char} (h : ':' ∉ name) (value : List Char) :
    field (name ++ ':' :: ' ' :: value) = (name, value) := by
  have hne : ∀ c ∈ name, (c != ':') = true := by
    intro c hc
    exact bne_iff_ne.mpr fun heq => h (heq ▸ hc)
  rw [field, List.takeWhile_append_of_pos hne, List.dropWhile_append_of_pos hne]
  simp

/-- Events of one-line names and data are read as they were sent. -/
theorem read_render {events : List Event}
    (h : ∀ e ∈ events, e.name ≠ [] ∧ OneLine e.name ∧ OneLine e.data) :
    read (events.flatMap render) = events := by
  induction events with
  | nil => rfl
  | cons e events ih =>
    obtain ⟨⟨hne, hname, hdata⟩, hrest⟩ := List.forall_mem_cons.mp h
    rw [read, List.flatMap_cons, lines_render hname hdata]
    have hevent : interpret .none ("event".toList ++ ':' :: ' ' :: e.name) =
        ([], ⟨e.name, []⟩) := by
      rw [interpret, if_neg (by simp), field_append (by decide)]
      rfl
    have hdata : interpret ⟨e.name, []⟩ ("data".toList ++ ':' :: ' ' :: e.data) =
        ([], ⟨e.name, [e.data]⟩) := by
      rw [interpret, if_neg (by simp), field_append (by decide)]
      rfl
    have hend : interpret ⟨e.name, [e.data]⟩ [] = ([e], .none) := by
      simp [interpret, hne, List.intercalate]
    simp only [outputs, hevent, hdata, hend, List.nil_append, List.singleton_append]
    exact congrArg _ (ih hrest)

end RivicQ.Lib.EventStreams

namespace RivicQ.Lib.JSONText

open RivicQ.Lib.Numerals RivicQ.Lib.EventStreams

def hexDigit (n : Nat) : Char := Char.ofNat (if n < 10 then 0x30 + n else 0x57 + n)

/-- The code of a character below `0x10000` as JSON escapes it. -/
def escaped (n : Nat) : List Char :=
  ['\\', 'u', hexDigit (n / 0x1000 % 16), hexDigit (n / 0x100 % 16), hexDigit (n / 16 % 16),
    hexDigit (n % 16)]

/-- A character inside a string that `json.Marshal` writes. -/
def char (c : Char) : List Char :=
  if c = '"' ∨ c = '\\' then ['\\', c]
  else if c = '\n' then ['\\', 'n']
  else if c = '\r' then ['\\', 'r']
  else if c = '\t' then ['\\', 't']
  else if c.toNat = 0x08 then ['\\', 'b']
  else if c.toNat = 0x0c then ['\\', 'f']
  else if c.toNat < 0x20 ∨ c = '<' ∨ c = '>' ∨ c = '&' ∨ c.toNat = 0x2028 ∨ c.toNat = 0x2029 then
    escaped c.toNat
  else [c]

def string (s : String) : String := "\"" ++ String.ofList (s.toList.flatMap char) ++ "\""

theorem hexDigit_bounds {n : Nat} (h : n < 16) : 0x30 ≤ (hexDigit n).toNat := by
  revert n
  decide

theorem oneLine_escaped (n : Nat) : OneLine (escaped n) := by
  have hdigit : ∀ m, hexDigit (m % 16) ≠ '\n' ∧ hexDigit (m % 16) ≠ '\r' := by
    intro m
    have hbound := hexDigit_bounds (Nat.mod_lt m (by decide : 0 < 16))
    constructor <;> intro heq <;> rw [heq] at hbound <;> exact absurd hbound (by decide)
  intro c hc
  simp only [escaped, List.mem_cons, List.not_mem_nil, or_false] at hc
  obtain rfl | rfl | rfl | rfl | rfl | rfl := hc
  · decide
  · decide
  all_goals exact hdigit _

theorem oneLine_char (c : Char) : OneLine (char c) := by
  unfold char
  split
  · rename_i hc
    obtain rfl | rfl := hc <;> decide +kernel
  · split_ifs with hn hr
    all_goals try decide +kernel
    · exact oneLine_escaped _
    · exact List.forall_mem_singleton.mpr ⟨hn, hr⟩

/-- No string brings a line to its end. -/
theorem oneLine_string (s : String) : OneLine (string s).toList := by
  simp only [string, String.toList_append, String.toList_ofList, oneLine_append]
  refine ⟨⟨by decide +kernel, fun c hc => ?_⟩, by decide +kernel⟩
  obtain ⟨d, _, hd⟩ := List.mem_flatMap.mp hc
  exact oneLine_char d c hd

theorem oneLine_toString (n : Nat) : OneLine (toString n).toList := by
  intro c hc
  have hdigit := isDigit_of_mem hc
  constructor <;> rintro rfl <;> exact absurd hdigit (by decide)

end RivicQ.Lib.JSONText
