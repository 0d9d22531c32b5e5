import RivicQ.Lib.Bytes
import RivicQ.Lib.FilePaths
import RivicQ.Lib.Projections
import RivicQ.Lib.Tables

namespace RivicQ.Quantum.Providers

open RivicQ.Lib.Tables

inductive EventType where
  | registered
  | initialized
  | degraded
  | closed
  | pluginLoaded
  deriving DecidableEq

structure Event where
  type : EventType
  provider : String
  message : String := ""

/-- Providers have numbers, in the order in which factories have made them. -/
abbrev Provider := Nat

/-- The registry, with the events nobody has read yet. -/
structure Registry (F : Type) where
  factories : Table F := ∅
  instances : Table Provider := ∅
  order : List String := []
  events : List Event := []

/-- The registry, the number of providers that factories have made, and those of them whose
`Close` has been called without an error. -/
structure World (F : Type) where
  registry : Registry F := {}
  made : Nat := 0
  closed : List Provider := []

variable {F C : Type}

/-- An event is dropped where 128 wait already. -/
def Registry.emit (type : EventType) (provider message : String) (r : Registry F) : Registry F :=
  if r.events.length < 128 then { r with events := r.events ++ [⟨type, provider, message⟩] } else r

def Registry.register (name : String) (f : F) (r : Registry F) : Registry F :=
  if name = "" then r
  else
    let order := if (r.factories.lookup name).isSome then r.order else r.order ++ [name]
    { r with order, factories := r.factories.insert name f }.emit .registered name ""

/-- What a call of a factory comes to: a provider, or none without an error. -/
inductive Made where
  | error (err : String)
  | none
  | provider

/-- The body of the loop of `Init`. -/
def initOne (configs : Table C) (make : F → Option C → Made) (w : World F) (name : String) :
    Option String × World F :=
  match w.registry.factories.lookup name with
  | none => (none, w)
  | some factory =>
    match make factory (configs.lookup name) with
    | .error err =>
      (some (name ++ ": " ++ err),
        { w with registry := w.registry.emit .degraded name err })
    | .none => (none, w)
    | .provider =>
      (none, { w with
        made := w.made + 1
        registry := { w.registry with
          instances := w.registry.instances.insert name w.made }.emit .initialized name "" })

def initAll (configs : Table C) (make : F → Option C → Made) (w : World F) :
    List String → List String × World F
  | [] => ([], w)
  | name :: names =>
    let (err, w) := initOne configs make w name
    let (errs, w) := initAll configs make w names
    (err.toList ++ errs, w)

/-- Instantiate every registered factory; a provider that fails is skipped. -/
def init (configs : Table C) (make : F → Option C → Made) (w : World F) :
    List String × World F :=
  initAll configs make w (w.registry.order.filter fun n => (w.registry.factories.lookup n).isSome)

/-- The body of the loop of `Close`. -/
def closeOne (result : Provider → Option String) (w : World F) (e : String × Provider) :
    Option String × World F :=
  match result e.2 with
  | some err => (some (e.1 ++ ": " ++ err), w)
  | none =>
    (none, { w with closed := e.2 :: w.closed, registry := w.registry.emit .closed e.1 "" })

def closeAll (result : Provider → Option String) (w : World F) :
    List (String × Provider) → List String × World F
  | [] => ([], w)
  | e :: es =>
    let (err, w) := closeOne result w e
    let (errs, w) := closeAll result w es
    (err.toList ++ errs, w)

/-- Close every live provider, in one order or another, and forget them all. -/
def close (result : Provider → Option String) (w : World F) : List String × World F :=
  let live := w.registry.instances.entries.map fun e => (e.1, e.2)
  let (errs, w) := closeAll result w live
  (errs, { w with registry := { w.registry with instances := ∅ } })

inductive Call (F C : Type) where
  | register (name : String) (factory : F)
  | init (configs : Table C) (make : F → Option C → Made)
  | close (result : Provider → Option String)

/-- A call, with the errors it returns. -/
def step (w : World F) : Call F C → List String × World F
  | .register name f => ([], { w with registry := w.registry.register name f })
  | .init configs make => init configs make w
  | .close result => close result w

end RivicQ.Quantum.Providers

namespace RivicQ.Quantum.Plugins

open RivicQ.Lib.GoStrings RivicQ.Lib.Tables RivicQ.Quantum.Providers

def pluginSchemaVersion : String := "1.0"

structure LifecycleHooks where
  onStart : String := ""
  onStop : String := ""
  onConfig : String := ""

structure PluginManifest where
  schemaVersion : String := ""
  id : String := ""
  name : String := ""
  version : String := ""
  kind : String := ""
  provider : String := ""
  entryPoint : String := ""
  capabilities : List String := []
  configSchema : List UInt8 := []
  rbacScopes : List String := []
  requires : List String := []
  hooks : LifecycleHooks := {}
  signature : String := ""

structure DirEntry where
  name : String
  isDir : Bool

/-- What the loader asks of the file system, of JSON and of ed25519, whose public keys are `K`. -/
structure Environment (K : Type) where
  readDir : String → Except String (List DirEntry)
  readFile : String → Except String (List UInt8)
  unmarshal : List UInt8 → Except String PluginManifest
  marshal : PluginManifest → Except String (List UInt8)
  verify : K → List UInt8 → List UInt8 → Bool

structure ManifestLoader (K : Type) where
  trustRoot : Option K
  requireSignature : Bool

variable {F K : Type} (cm : CaseMap) (env : Environment K) (l : ManifestLoader K)

def manifestPayload (m : PluginManifest) : Except String (List UInt8) :=
  env.marshal { m with signature := "" }

def errUnsigned : String := "plugin manifest is not signed"

def errInvalidSignature : String := "plugin manifest has an invalid signature"

def errSchemaMismatch : String := "unsupported plugin manifest schema version"

/-- What is wrong with the signature of a manifest, if something is. -/
def verify (m : PluginManifest) (pub : K) : Option String :=
  if m.signature = "" then some errUnsigned
  else
    match manifestPayload env m with
    | .error err => some ("verify plugin manifest: " ++ err)
    | .ok payload =>
      match RivicQ.Lib.Base64.decodeString m.signature with
      -- which byte is the illegal one is left out
      | none => some "verify plugin manifest: decode signature: illegal base64 data"
      | some sig => if env.verify pub payload sig then none else some errInvalidSignature

/-- What is wrong with a manifest, if something is. -/
def validate (m : PluginManifest) : Option String :=
  if m.schemaVersion ≠ pluginSchemaVersion then some errSchemaMismatch
  else if m.id = "" ∨ m.name = "" ∨ m.version = "" then
    some "id, name and version are required"
  else if m.signature = "" ∧ (l.trustRoot.isSome = true ∨ l.requireSignature = true) then
    some errUnsigned
  else if m.signature ≠ "" then l.trustRoot.bind (verify env m)
  else none

def loadFile (path : String) : Except String PluginManifest :=
  match env.readFile path with
  | .error err => .error ("load plugin manifest " ++ path ++ ": " ++ err)
  | .ok raw =>
    match env.unmarshal raw with
    | .error err => .error ("parse plugin manifest " ++ path ++ ": " ++ err)
    | .ok m =>
      match validate env l m with
      | some err => .error ("plugin manifest " ++ path ++ ": " ++ err)
      | none => .ok m

def isManifest (e : DirEntry) : Bool := !e.isDir && hasSuffix (toLower cm e.name) ".json"

/-- Register the entry point of a loaded manifest under its name, if the registry knows it. -/
def attach (m : PluginManifest) (reg : Registry F) : Registry F :=
  let reg := (reg.factories.lookup m.entryPoint).elim reg fun f => reg.register m.name f
  reg.emit .pluginLoaded m.name m.version

/-- The loop over the entries of a directory, with the manifests loaded so far. -/
def loadEntries (dir : String) (reg : Option (Registry F)) (loaded : List PluginManifest) :
    List DirEntry → Except String (List PluginManifest) × Option (Registry F)
  | [] => (.ok loaded, reg)
  | e :: es =>
    if isManifest cm e then
      match loadFile env l (RivicQ.Lib.FilePaths.join dir e.name) with
      | .error err => (.error err, reg)
      | .ok m => loadEntries dir (reg.map (attach m)) (loaded ++ [m]) es
    else loadEntries dir reg loaded es

/-- Load the manifests of a directory, and register them if there is a registry. -/
def load (dir : String) (reg : Option (Registry F)) :
    Except String (List PluginManifest) × Option (Registry F) :=
  match env.readDir dir with
  | .error err => (.error ("read plugin dir " ++ dir ++ ": " ++ err), reg)
  | .ok entries => loadEntries cm env l dir reg [] entries

end RivicQ.Quantum.Plugins
