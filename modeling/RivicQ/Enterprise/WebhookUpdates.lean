import RivicQ.Lib.GoStrings
import RivicQ.Lib.Statements

namespace RivicQ.Enterprise.WebhookUpdates

open RivicQ.Lib.GoStrings RivicQ.Lib.Statements

section Table

/-- The columns of the table `webhooks`, as `RunEnterpriseMigrations` makes them. -/
def webhookColumns : Columns
  | "id" => some .uuid
  | "tenant_id" => some .uuid
  | "name" => some (.varchar 255)
  | "url" => some (.varchar 1024)
  | "secret" => some (.varchar 255)
  | "events" => some .jsonb
  | "status" => some (.varchar 20)
  | _ => none

/-- The statement of `UpdateWebhook`. -/
def updateStatement : Update where
  sets := [
    ("name", .coalesce (.nullif (.param 1) (.literal "")) (.column "name")),
    ("url", .coalesce (.nullif (.param 2) (.literal "")) (.column "url")),
    ("events", .coalesce (.nullif (.param 3) (.literal "")) (.cast (.column "events") .text))]
  conds := [("id", .param 4), ("tenant_id", .param 5)]

end Table

section Bodies

/-- What the body is decoded into; a list that no member of the body sets is nil. -/
structure UpdateBody where
  name : String := ""
  url : String := ""
  events : Option (List String) := none

def jsonKind : Json → String
  | .null => "null"
  | .bool _ => "bool"
  | .number _ => "number"
  | .string _ => "string"
  | .array _ => "array"
  | .object _ => "object"

def mismatch (value : Json) (field goType : String) : String :=
  "json: cannot unmarshal " ++ jsonKind value ++ " into Go struct field ." ++ field ++ " of type " ++
    goType

/-- A string of the body; `null` leaves what is there. -/
def decodeString (field : String) (old : String) : Json → Except String String
  | .null => .ok old
  | .string s => .ok s
  | value => .error (mismatch value field "string")

def decodeEvents : Json → Except String (Option (List String))
  | .null => .ok none
  | .array elements => (elements.mapM (decodeString "events" "")).map some
  | value => .error (mismatch value "events" "[]string")

variable (cm : CaseMap)

/-- A member sets the field whose name it has, in whatever case. -/
def decodeMember (req : UpdateBody) (m : String × Json) : Except String UpdateBody :=
  if equalFold cm m.1 "name" then (decodeString "name" req.name m.2).map ({ req with name := · })
  else if equalFold cm m.1 "url" then (decodeString "url" req.url m.2).map ({ req with url := · })
  else if equalFold cm m.1 "events" then (decodeEvents m.2).map ({ req with events := · })
  else .ok req

/-- The body of a request; one that is not JSON is an error already. -/
def bindBody : Except String Json → Except String UpdateBody
  | .error err => .error err
  | .ok .null => .ok {}
  | .ok (.object members) => members.foldlM (decodeMember cm) {}
  | .ok value => .error (mismatch value "" "struct")

/-- `json.Marshal` of the events, which says `null` for a nil list. -/
def marshalEvents (quote : String → String) : Option (List String) → String
  | none => "null"
  | some events => "[" ++ ",".intercalate (events.map quote) ++ "]"

end Bodies

section Handlers

/-- The status and the message of an answer. -/
abbrev Answer := Nat × String

/-- The server: whether it can be reached, its columns, and how it reads values. -/
structure EnterpriseDB where
  ready : Bool
  columns : Columns
  codec : Codec

variable (cm : CaseMap) (quote : String → String) (db : EnterpriseDB)

def params (req : UpdateBody) (id tenantID : String) : Nat → String
  | 1 => req.name
  | 2 => req.url
  | 3 => marshalEvents quote req.events
  | 4 => id
  | 5 => tenantID
  | _ => ""

def updateWebhook (tenantID id : String) (body : Except String Json) (rows : List Row) :
    Answer × List Row :=
  if !db.ready then ((503, "Enterprise database not available"), rows)
  else if tenantID = "" then ((403, "tenant context required"), rows)
  else
    match bindBody cm body with
    | .error err => ((400, err), rows)
    | .ok req =>
      match updateStatement.run db.codec db.columns (params quote req id tenantID) rows with
      | .error _ => ((500, "Failed to update webhook"), rows)
      | .ok rows => ((200, "Webhook updated"), rows)

/-- The condition of the query of `DispatchEvent`. -/
def selects (tenantID eventType : String) (r : Row) : Bool :=
  same db.codec (r "tenant_id") ((db.codec.parseUUID tenantID).map .uuid) &&
    same db.codec (r "status") (some (.text "active")) &&
    match (r "events").bind (convert db.codec .jsonb) with
    | some (.jsonb j) => j.has eventType
    | _ => false

/-- The rows that an event is delivered to. -/
def dispatchEvent (tenantID eventType : String) (rows : List Row) : List Row :=
  if !db.ready then [] else rows.filter (selects db tenantID eventType)

end Handlers

end RivicQ.Enterprise.WebhookUpdates
