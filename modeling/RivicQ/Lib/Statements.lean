import Mathlib.Data.List.Basic
import RivicQ.Lib.HostPorts

namespace RivicQ.Lib.Scanning

open RivicQ.Lib.HostPorts

/-- A column of a row as the driver hands it over; types of the server that the driver does
not know come as text. -/
inductive Value where
  | null
  | int (n : Int)
  | bool (b : Bool)
  | time (t : Int)
  | text (s : String)
  deriving DecidableEq

/-- A variable that a column is read into. -/
inductive Dest where
  | string
  | int
  | bool
  | bytes
  /-- A type with a `Scan` method of its own that takes a UUID or a null. -/
  | uuid
  /-- A pointer, which is nil for a null. -/
  | pointer (d : Dest)
  | time
  /-- A map, or a slice of anything but bytes. -/
  | composite
  deriving DecidableEq

/-- Whether `convertAssign` can store a column of one of these types in a variable. -/
def accepts : Dest → Value → Bool
  | .string, v => v ≠ .null
  | .int, .int _ => true
  | .int, .text s => (atoi s).2
  | .int, _ => false
  | .bool, .bool _ => true
  | .bool, .int n => n = 0 || n = 1
  | .bool, .text s =>
    ["1", "t", "T", "true", "TRUE", "True", "0", "f", "F", "false", "FALSE", "False"].contains s
  | .bool, _ => false
  | .bytes, _ => true
  | .uuid, .null => true
  | .uuid, .text _ => true
  | .uuid, _ => false
  | .pointer _, .null => true
  | .pointer d, v => accepts d v
  | .time, .time _ => true
  | .time, _ => false
  | .composite, _ => false

/-- Whether `Scan` reads a row without an error: a variable for each column, and each column
one that its variable can hold. -/
def scan (dests : List Dest) (row : List Value) : Bool :=
  dests.length = row.length && (dests.zip row).all fun x => accepts x.1 x.2

theorem scan_length {dests : List Dest} {row : List Value} (h : dests.length ≠ row.length) :
    scan dests row = false := by
  simp only [scan, h, decide_false, Bool.false_and]

/-- A variable of a composite type fails the row. -/
theorem scan_composite {dests : List Dest} (row : List Value) (h : .composite ∈ dests) :
    scan dests row = false := by
  by_cases hlength : dests.length = row.length
  · simp only [scan, hlength, decide_true, Bool.true_and, List.all_eq_false]
    obtain ⟨i, hi, hget⟩ := List.getElem_of_mem h
    have hrow : i < row.length := hlength ▸ hi
    refine ⟨(dests[i], row[i]), ?_, ?_⟩
    · exact List.mem_iff_getElem.mpr ⟨i, by rw [List.length_zip]; omega, by simp⟩
    · simp [hget, accepts]
  · exact scan_length hlength

/-- The columns that may be null. -/
def nullable {V : Type} (f : V → Value) : Option V → Value
  | none => .null
  | some v => f v

end RivicQ.Lib.Scanning

namespace RivicQ.Lib.Statements

section Types

/-- The types of columns. -/
inductive SqlType where
  | text
  | varchar (n : Nat)
  | uuid
  | jsonb
  deriving DecidableEq

def SqlType.name : SqlType → String
  | .text => "text"
  | .varchar _ => "character varying"
  | .uuid => "uuid"
  | .jsonb => "jsonb"

/-- The types of the string category. -/
def SqlType.isString : SqlType → Bool
  | .text | .varchar _ => true
  | .uuid | .jsonb => false

inductive Expr where
  | param (n : Nat)
  | literal (s : String)
  | column (name : String)
  | cast (e : Expr) (t : SqlType)
  | nullif (a b : Expr)
  | coalesce (a b : Expr)

/-- The type that two operands are brought to. That of a parameter or a literal is not known. -/
def common : Option SqlType → Option SqlType → Option SqlType
  | none, none => some .text
  | some t, none => some t
  | none, some t => some t
  | some s, some t =>
    if s = t then some s else if s.isString && t.isString then some .text else none

/-- Whether a cast that is written out may be made. -/
def castable (t : SqlType) : Option SqlType → Bool
  | none => true
  | some s => s = t || t.isString || s.isString

/-- Whether a column takes an expression without a cast. Any type is stored as a string, but a string
is stored as a string only. -/
def assignable (t : SqlType) : Option SqlType → Bool
  | none => true
  | some s => s = t || t.isString

/-- The columns of a table. -/
abbrev Columns := String → Option SqlType

/-- The type of an expression, if it has one that is known; an expression may be ill-typed. -/
def typeOf (columns : Columns) : Expr → Option (Option SqlType)
  | .param _ => some none
  | .literal _ => some none
  | .column name => (columns name).map some
  | .cast e t => (typeOf columns e).bind fun s => if castable t s then some (some t) else none
  | .nullif a b =>
    (typeOf columns a).bind fun s => (typeOf columns b).bind fun t => (common s t).map some
  | .coalesce a b =>
    (typeOf columns a).bind fun s => (typeOf columns b).bind fun t => (common s t).map some

end Types

section Values

inductive Json where
  | null
  | bool (b : Bool)
  | number (text : String)
  | string (s : String)
  | array (elements : List Json)
  | object (members : List (String × Json))

/-- The operator `?`: a text is a key of an object, an element of an array, or the value itself. -/
def Json.has : Json → String → Bool
  | .object members, key => members.any fun m => m.1 = key
  | .array elements, key => elements.any fun e => match e with
    | .string s => s = key
    | _ => false
  | .string s, key => s = key
  | _, _ => false

inductive Value where
  | text (s : String)
  | uuid (s : String)
  | jsonb (j : Json)

/-- How the server reads and shows what is not a string. -/
structure Codec where
  parseUUID : String → Option String
  parseJSON : String → Option Json
  showJSON : Json → String

variable (c : Codec)

def output : Value → String
  | .text s => s
  | .uuid s => s
  | .jsonb j => c.showJSON j

/-- The value of a type that a text stands for. -/
def input : SqlType → String → Option Value
  | .text, s => some (.text s)
  | .varchar n, s =>
    -- Blanks that do not fit are cut off.
    if ((s.toList.drop n).all fun b => b = ' ') then some (.text (String.ofList (s.toList.take n)))
    else none
  | .uuid, s => (c.parseUUID s).map .uuid
  | .jsonb, s => (c.parseJSON s).map .jsonb

def convert : SqlType → Value → Option Value
  | .uuid, .uuid s => some (.uuid s)
  | .jsonb, .jsonb j => some (.jsonb j)
  | t, v => input c t (output c v)

/-- `NULL` is converted to itself. -/
def convertNull (t : SqlType) : Option Value → Option (Option Value)
  | none => some none
  | some v => (convert c t v).map some

/-- Two values of one type are compared by their texts; `NULL` is equal to nothing. -/
def same : Option Value → Option Value → Bool
  | some v, some w => output c v = output c w
  | _, _ => false

/-- A row; the columns that have no value are `NULL`. -/
abbrev Row := String → Option Value

variable (columns : Columns) (params : Nat → String) (r : Row)

/-- The value of an expression in a row, unless a conversion fails. -/
def eval : Expr → Option (Option Value)
  | .param n => some (some (.text (params n)))
  | .literal s => some (some (.text s))
  | .column name => some (r name)
  | .cast e t => (eval e).bind (convertNull c t)
  | .nullif a b => do
    let t ← common (← typeOf columns a) (← typeOf columns b)
    let v ← convertNull c t (← eval a)
    let w ← convertNull c t (← eval b)
    return if same c v w then none else v
  | .coalesce a b => do
    let t ← common (← typeOf columns a) (← typeOf columns b)
    match ← convertNull c t (← eval a) with
    | some v => return some v
    | none => convertNull c t (← eval b)

end Values

section Updates

/-- An `UPDATE` with the columns it sets, and the columns that it compares in its `WHERE`. -/
structure Update where
  sets : List (String × Expr)
  conds : List (String × Expr)

variable (c : Codec) (columns : Columns) (params : Nat → String)

/-- What the server objects to in an assignment. -/
def checkSet (name : String) (e : Expr) : Except String Unit :=
  match columns name, typeOf columns e with
  | none, _ => .error ("column \"" ++ name ++ "\" does not exist")
  | some _, none => .error ("the expression for column \"" ++ name ++ "\" has no type")
  | some t, some s =>
    if assignable t s then .ok ()
    else .error ("column \"" ++ name ++ "\" is of type " ++ t.name ++ " but expression is of type " ++
      (s.map SqlType.name).getD "unknown")

def checkCond (name : String) (e : Expr) : Except String Unit :=
  match columns name, typeOf columns e with
  | some t, some s =>
    if (common (some t) s).isSome then .ok () else .error "operator does not exist"
  | _, _ => .error ("column \"" ++ name ++ "\" does not exist")

/-- The analysis of a statement, before any row is read. -/
def Update.analyze (u : Update) : Except String Unit := do
  u.sets.forM fun s => checkSet columns s.1 s.2
  u.conds.forM fun s => checkCond columns s.1 s.2

def holds (r : Row) (name : String) (e : Expr) : Option Bool := do
  let t ← columns name
  let v ← eval c columns params r e
  let w ← convertNull c t v
  return same c (r name) w

/-- The assignments, each read off the row as it was. -/
def assign (old : Row) : List (String × Expr) → Row → Option Row
  | [], r => some r
  | (name, e) :: sets, r => do
    let t ← columns name
    let v ← convertNull c t (← eval c columns params old e)
    assign old sets (Function.update r name v)

def Update.row (u : Update) (r : Row) : Option Row := do
  let holding ← u.conds.mapM fun s => holds c columns params r s.1 s.2
  if holding.all id then assign c columns params r u.sets r else return r

/-- The rows after a statement; one that fails changes none. -/
def Update.run (u : Update) (rows : List Row) : Except String (List Row) := do
  u.analyze columns
  match rows.mapM (u.row c columns params) with
  | none => .error "a value cannot be converted"
  | some rows => return rows

variable {c columns params} {u : Update} {rows : List Row} {r r' : Row} {name : String} {t : SqlType}
  {n : Nat} {err : String}

/-- A statement that the analysis objects to does nothing. -/
theorem run_error (h : u.analyze columns = .error err) :
    u.run c columns params rows = .error err := by
  rw [Update.run, h]
  rfl

theorem typeOf_column (hcolumn : columns name = some t) :
    typeOf columns (.column name) = some (some t) := by
  rw [typeOf, hcolumn]
  rfl

/-- What is kept unless a parameter is given is of type `text`. -/
theorem typeOf_coalesce_nullif {kept : Expr} (ht : typeOf columns kept = some (some t))
    (hstring : t.isString = true) :
    typeOf columns (.coalesce (.nullif (.param n) (.literal "")) kept) = some (some .text) := by
  rw [typeOf, ht]
  cases t with
  | text => rfl
  | varchar m => rfl
  | uuid => cases hstring
  | jsonb => cases hstring

theorem checkSet_of_types {e : Expr} {s : SqlType} (hcolumn : columns name = some t)
    (he : typeOf columns e = some (some s)) : checkSet columns name e =
      if assignable t (some s) then .ok ()
      else .error ("column \"" ++ name ++ "\" is of type " ++ t.name ++
        " but expression is of type " ++ s.name) := by
  rw [checkSet, hcolumn, he]
  rfl

/-- An empty parameter keeps a column, and any other one replaces it. -/
theorem eval_coalesce_nullif {kept : Expr} (ht : typeOf columns kept = some (some t))
    (hstring : t.isString = true) :
    eval c columns params r (.coalesce (.nullif (.param n) (.literal "")) kept) =
      if params n = "" then (eval c columns params r kept).bind (convertNull c .text)
      else some (some (.text (params n))) := by
  have htext : common (some .text) (some t) = some .text := by
    cases t <;> first | rfl | cases hstring
  have hempty : eval c columns params r (.nullif (.param n) (.literal "")) =
      some (if params n = "" then none else some (Value.text (params n))) := by
    change some (if decide (params n = "") = true then none else some (Value.text (params n))) = _
    simp only [decide_eq_true_eq]
  have htype : typeOf columns (.nullif (.param n) (.literal "")) = some (some .text) := rfl
  rw [eval, hempty, htype, ht]
  change (common (some .text) (some t)).bind _ = _
  rw [htext]
  by_cases hp : params n = ""
  · rw [if_pos hp, if_pos hp]
    rfl
  · rw [if_neg hp, if_neg hp]
    rfl

end Updates

end RivicQ.Lib.Statements
