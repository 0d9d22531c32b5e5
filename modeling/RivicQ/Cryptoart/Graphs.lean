import RivicQ.Certeng.Certificates
import RivicQ.Lib.GoStrings
import RivicQ.Lib.Tables

namespace RivicQ.Cryptoart.Graphs

open RivicQ.Lib.GoStrings RivicQ.Lib.Tables
open RivicQ.Certeng.Certificates (Time)

/-- A row of a cryptographic BOM. -/
structure BOMItem where
  type : String
  name : String
  keySize : Int := 0
  location : String
  quantumSafe : Bool
  pqcStatus : String
  riskLevel : String
  source : String
  evidence : String

/-- A row comes before another one of a greater type, or of its type and a greater name. -/
def BOMItem.before (a b : BOMItem) : Bool :=
  if a.type = b.type then decide (a.name ≤ b.name) else decide (a.type ≤ b.type)

inductive Kind where
  | algorithm | key | certificate | certChain | cryptoLib | cryptoAPI | protocol | identity | device
  | firmware | hardware | application | cloudService | network | pki | hsm | secureElem | sim
  deriving DecidableEq

/-- A cryptographic artifact; its confidence is in percent. -/
structure Object where
  id : String
  tenantID : String := ""
  type : Kind
  name : String
  version : String := ""
  source : String
  location : String := ""
  assetID : String := ""
  componentID : String := ""
  confidence : Nat
  evidence : List String := []
  risk : String := ""
  quantumRisk : String := ""
  pqcStatus : String := ""
  timestamp : Time
  labels : List (String × String) := []

inductive RelationType where
  | uses | implements | issuedBy | belongsTo | contains | connectsTo | serves | dependsOn
  deriving DecidableEq

def RelationType.text : RelationType → String
  | .uses => "uses"
  | .implements => "implements"
  | .issuedBy => "issued_by"
  | .belongsTo => "belongs_to"
  | .contains => "contains"
  | .connectsTo => "connects_to"
  | .serves => "serves"
  | .dependsOn => "depends_on"

structure Relation where
  source : String
  target : String
  type : RelationType
  evidence : String

/-- Objects and relations in the order they came in, where the objects are by their ids and the
relations by their keys. -/
structure Graph where
  objects : List Object := []
  relations : List Relation := []
  index : Table Nat := ∅
  edges : List String := []

/-- Insert or update an object by its id. -/
def Graph.add (g : Graph) (obj : Object) : Graph :=
  if trimSpace obj.id = "" then g
  else
    match g.index.lookup obj.id with
    | some i => { g with objects := g.objects.set i obj }
    | none =>
      { g with index := g.index.insert obj.id g.objects.length, objects := g.objects ++ [obj] }

def Graph.get (g : Graph) (id : String) : Option Object :=
  (g.index.lookup id).bind fun i => g.objects[i]?

/-- Add a directed edge if both ends exist and the edge is new. -/
def Graph.relate (g : Graph) (source target : String) (type : RelationType) (evidence : String) :
    Graph :=
  if source = "" ∨ target = "" ∨ source = target then g
  else if g.index.lookup source = none ∨ g.index.lookup target = none then g
  else
    let key := type.text ++ "\x00" ++ source ++ "\x00" ++ target
    if key ∈ g.edges then g
    else
      { g with edges := key :: g.edges
               relations := g.relations ++ [⟨source, target, type, evidence⟩] }

def Graph.relateAll (g : Graph) (relations : List Relation) : Graph :=
  relations.foldl (fun g r => g.relate r.source r.target r.type r.evidence) g

/-- Copy all objects and relations of another graph. -/
def Graph.merge (g other : Graph) : Graph :=
  (other.objects.foldl Graph.add g).relateAll other.relations

/-- What a view is narrowed to. -/
structure Filters where
  kinds : List Kind := []
  minRisk : String := ""
  quantumOnly : Bool := false
  pqcStatus : List String := []
  source : String := ""

def riskOrder (risk : String) : Nat :=
  match risk with
  | "LOW" => 1
  | "MEDIUM" => 2
  | "HIGH" => 3
  | "CRITICAL" => 4
  | _ => 0

section View

variable (cm : CaseMap)

/-- An object passes the filters. -/
def Filters.retains (f : Filters) (o : Object) : Bool :=
  let minRisk := if f.minRisk ≠ "" then riskOrder (toUpper cm f.minRisk) else 0
  if f.kinds ≠ [] ∧ o.type ∉ f.kinds then false
  else if f.source ≠ "" ∧ o.source ≠ f.source then false
  else if f.quantumOnly ∧ toUpper cm o.quantumRisk = "" then false
  else if minRisk > 0 ∧ riskOrder (toUpper cm o.risk) < minRisk then false
  else if f.pqcStatus ≠ [] ∧ o.pqcStatus ∉ f.pqcStatus then false
  else true

/-- The objects that pass the filters, with the relations between them. -/
def Graph.view (g : Graph) (f : Filters) : Graph :=
  ((g.objects.filter (f.retains cm)).foldl Graph.add {}).relateAll g.relations

end View

end RivicQ.Cryptoart.Graphs
