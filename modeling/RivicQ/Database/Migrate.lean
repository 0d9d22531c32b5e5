import RivicQ.Lib.GoStrings
import RivicQ.Lib.Programs

namespace RivicQ.Database.Migrate

open RivicQ.Lib.GoStrings RivicQ.Lib.Programs

abbrev Time := Int

/-- A versioned, forward-only schema step. -/
structure Migration where
  id : String
  name : String
  statements : List String
  deriving DecidableEq

section Checksums

inductive Mode where
  | plain
  | lineComment
  | dollarQuote

/-- Go on with a text, by whether the last rune written stands for white space. -/
def normalizeFrom : Mode → Bool → List Char → List Char
  | _, _, [] => []
  | .lineComment, lastSpace, r :: rest =>
    if r = '\n' then ' ' :: normalizeFrom .plain true rest
    else normalizeFrom .lineComment lastSpace rest
  | .dollarQuote, lastSpace, '$' :: '$' :: rest =>
    '$' :: '$' :: normalizeFrom .plain lastSpace rest
  | .dollarQuote, lastSpace, r :: rest => r :: normalizeFrom .dollarQuote lastSpace rest
  | .plain, lastSpace, '-' :: '-' :: rest => normalizeFrom .lineComment lastSpace rest
  | .plain, lastSpace, '$' :: '$' :: rest =>
    '$' :: '$' :: normalizeFrom .dollarQuote lastSpace rest
  | .plain, lastSpace, r :: rest =>
    if r = '\n' ∨ r = '\r' ∨ r = '\t' ∨ r = ' ' then
      if lastSpace then normalizeFrom .plain true rest
      else ' ' :: normalizeFrom .plain true rest
    else r :: normalizeFrom .plain false rest

/-- The SQL without line comments, and with its white space collapsed outside dollar quotes. -/
def normalizeSQL (s : String) : String :=
  trimSpace (String.ofList (normalizeFrom .plain false s.toList))

def checksumMigration (sha256Hex : String → String) (m : Migration) : String :=
  sha256Hex (String.join (m.statements.map fun stmt => normalizeSQL stmt ++ "\x00"))

end Checksums

/-- A row of `schema_migrations`. -/
structure Row where
  id : String
  name : String
  checksum : String
  appliedAt : Time
  durationMs : Int

/-- The rows of `schema_migrations`, under their primary key. -/
structure Ledger where
  rows : List Row
  nodup : (rows.map Row.id).Nodup

def Ledger.empty : Ledger := ⟨[], List.nodup_nil⟩

/-- The ledger with one more row, unless its key is taken. -/
def Ledger.insert (l : Ledger) (r : Row) : Option Ledger :=
  if h : r.id ∈ l.rows.map Row.id then none
  else some ⟨l.rows ++ [r], by
    rw [List.map_append]
    exact List.nodup_append.mpr ⟨l.nodup, List.nodup_cons.mpr ⟨List.not_mem_nil, List.nodup_nil⟩, fun a ha b hb hab =>
      h (List.mem_singleton.mp hb ▸ hab ▸ ha)⟩⟩

/-- The migrated schema, and the ledger once it is created. -/
structure Contents (Schema : Type) where
  schema : Schema
  ledger : Option Ledger

/-- A connection: what is committed, and what its open transaction has made of that. -/
structure World (Schema : Type) where
  committed : Contents Schema
  pending : Option (Contents Schema)
  ticks : Nat

/-- The statements and calls that a run makes. -/
inductive Op where
  | createTable
  | query
  | scan
  | rowsErr
  | now
  | begin
  | exec (stmt : String)
  | insert (id name checksum : String) (durationMs : Int)
  | commit
  | rollback

abbrev Op.Reply : Op → Type
  | .scan => Except String (List (String × String))
  | .now => Time
  | .rollback => Unit
  | .createTable | .query | .rowsErr | .begin | .exec _ | .insert _ _ _ _ | .commit =>
    Except String Unit

abbrev Calls : Signature := ⟨Op, Op.Reply, fun _ => true⟩

/-- What becomes of a request: it is served, or refused, or served with the reply lost. -/
inductive Fault where
  | served
  | refused (err : String)
  | lost (err : String)

/-- What the database makes of a migration's statement. -/
abbrev Engine (Schema : Type) := String → Schema → Except String Schema

/-- The surroundings of one run. -/
structure Env where
  clock : Nat → Time
  fault : Nat → Fault

section Server

variable {Schema : Type} (engine : Engine Schema) (env : Env)

def noTransaction : String := "sql: transaction has already been committed or rolled back"

def noTable : String := "pq: relation \"schema_migrations\" does not exist"

def duplicateKey : String :=
  "pq: duplicate key value violates unique constraint \"schema_migrations_pkey\""

/-- Serve one request. A statement that fails ends the transaction. -/
def serve : (o : Op) → World Schema → o.Reply × World Schema
  | .createTable, w =>
    (.ok (), { w with committed := { w.committed with
      ledger := some (w.committed.ledger.getD Ledger.empty) } })
  | .query, w => (if w.committed.ledger.isSome then .ok () else .error noTable, w)
  | .scan, w =>
    (.ok (w.committed.ledger.elim [] fun l => l.rows.map fun r => (r.id, r.checksum)), w)
  | .rowsErr, w => (.ok (), w)
  | .now, w => (env.clock w.ticks, w)
  | .begin, w => (.ok (), { w with pending := some w.committed })
  | .exec stmt, w =>
    match w.pending with
    | none => (.error noTransaction, w)
    | some d =>
      match engine stmt d.schema with
      | .error err => (.error err, { w with pending := none })
      | .ok schema => (.ok (), { w with pending := some { d with schema } })
  | .insert id name checksum durationMs, w =>
    match w.pending with
    | none => (.error noTransaction, w)
    | some d =>
      match d.ledger with
      | none => (.error noTable, { w with pending := none })
      | some l =>
        match l.insert ⟨id, name, checksum, env.clock w.ticks, durationMs⟩ with
        | none => (.error duplicateKey, { w with pending := none })
        | some l => (.ok (), { w with pending := some { d with ledger := some l } })
  | .commit, w =>
    match w.pending with
    | none => (.error noTransaction, w)
    | some d => (.ok (), { w with committed := d, pending := none })
  | .rollback, w => ((), { w with pending := none })

/-- The reply to a request that is not heard of again. -/
def failed (err : String) (n : Nat) : (o : Op) → o.Reply
  | .scan => .error err
  | .now => env.clock n
  | .rollback => ()
  | .createTable | .query | .rowsErr | .begin | .exec _ | .insert _ _ _ _ | .commit => .error err

def handle : Handler Calls (World Schema) := fun o w =>
  match env.fault w.ticks with
  | .served => ((serve engine env o w).1, { (serve engine env o w).2 with ticks := w.ticks + 1 })
  | .refused err => (failed env err w.ticks o, { w with ticks := w.ticks + 1 })
  | .lost err =>
    (failed env err w.ticks o, { (serve engine env o w).2 with ticks := w.ticks + 1 })

end Server

section Runs

variable {α β : Type}

/-- A call: requests, then a value or an error. -/
abbrev Prog (α : Type) := Program Calls (Except String α)

def done (a : α) : Prog α := .pure (.ok a)

def fail (err : String) : Prog α := .pure (.error err)

def ask (o : Op) : Program Calls o.Reply := .request (o : Calls.Op) .pure

/-- Go on with the value; an error is returned with a text before it. -/
def wrapping (context : String) (p : Prog α) (k : α → Prog β) : Prog β :=
  p.bind fun r =>
    match r with
    | .error err => fail (context ++ err)
    | .ok a => k a

/-- Go on with the value; after an error the transaction is rolled back. -/
def rollingBack (context : String) (p : Prog α) (k : α → Prog β) : Prog β :=
  p.bind fun r =>
    match r with
    | .error err => (ask .rollback).bind fun _ => fail (context ++ err)
    | .ok a => k a

/-- The statements of a migration from a number on. -/
def execFrom (m : Migration) : Nat → List String → Prog Unit
  | _, [] => done ()
  | i, stmt :: stmts =>
    rollingBack ("migration " ++ m.id ++ " (" ++ m.name ++ ") statement " ++ toString (i + 1) ++
      " failed: ") (ask (.exec stmt)) fun _ => execFrom m (i + 1) stmts

def milliseconds (t : Time) : Int := t.tdiv 1000000

/-- Apply one migration and record it, in a transaction. -/
def applyMigration (m : Migration) (sum : String) : Prog Unit :=
  (ask .now).bind fun start =>
  wrapping ("migration " ++ m.id ++ ": begin failed: ") (ask .begin) fun _ =>
  wrapping "" (execFrom m 0 m.statements) fun _ =>
  (ask .now).bind fun t =>
  rollingBack ("migration " ++ m.id ++ ": recording failed: ")
    (ask (.insert m.id m.name sum (milliseconds (t - start)))) fun _ =>
  wrapping ("migration " ++ m.id ++ ": commit failed: ") (ask .commit) fun _ =>
  done ()

def lookup (applied : List (String × String)) (id : String) : Option String :=
  (applied.find? fun r => r.1 = id).map Prod.snd

variable (sha256Hex : String → String)

/-- The migrations one after the other, by what is recorded of them. -/
def applyFrom (applied : List (String × String)) : List Migration → Prog Unit
  | [] => done ()
  | m :: migrations =>
    let sum := checksumMigration sha256Hex m
    match lookup applied m.id with
    | some existing =>
      if existing ≠ sum then
        fail ("migration " ++ m.id ++ " (" ++ m.name ++
          ") was already applied with a different checksum; " ++
          "add a new migration instead of editing an applied one")
      else applyFrom applied migrations
    | none => wrapping "" (applyMigration m sum) fun _ => applyFrom applied migrations

/-- Run the migrations in order. -/
def applyMigrations (migrations : List Migration) : Prog Unit :=
  wrapping "cannot create schema_migrations: " (ask .createTable) fun _ =>
  wrapping "cannot read schema_migrations: " (ask .query) fun _ =>
  wrapping "cannot scan schema_migrations: " (ask .scan) fun applied =>
  wrapping "" (ask .rowsErr) fun _ =>
  applyFrom sha256Hex applied migrations

end Runs

end RivicQ.Database.Migrate
