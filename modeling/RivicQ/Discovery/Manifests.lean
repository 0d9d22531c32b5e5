import RivicQ.Discovery.Components
import RivicQ.Lib.Fields
import RivicQ.Lib.Firsts
import RivicQ.Lib.Markup
import RivicQ.Lib.Projections
import RivicQ.Lib.Tables

namespace RivicQ.Discovery.Manifests

open RivicQ.Lib.GoStrings RivicQ.Lib.Fields RivicQ.Lib.Firsts RivicQ.Lib.Readers RivicQ.Lib.Tables
open RivicQ.Lib.Markup

structure SBOMComponent where
  name : String
  version : String
  type : String
  license : String := ""
  purl : String := ""
  filePath : String := ""
  deriving DecidableEq

/-- What a line of a `go.mod` file gives, and whether the next one is in a block of
requirements. -/
def goModLine (inRequire : Bool) (line : String) : List SBOMComponent × Bool :=
  let trimmed := trimSpace line
  if trimmed = "require (" then ([], true)
  else if inRequire ∧ trimmed = ")" then ([], false)
  else
    let required :=
      if inRequire then
        match fields trimmed with
        | name :: version :: _ =>
          [{ name, version := trimSuffix version "// indirect", type := "library"
             purl := "pkg:golang/" ++ name ++ "@" ++ version }]
        | _ => []
      else []
    let language :=
      if hasPrefix trimmed "go " then
        [{ name := "go", version := trimPrefix trimmed "go ", type := "language" }]
      else []
    (required ++ language, inRequire)

def parseGoMod (data : String) : List SBOMComponent := outputs goModLine false (splitLines data)

/-- The name and the version of a library. -/
def SBOMComponent.library (c : SBOMComponent) : Option (String × String) :=
  if c.type = "library" then some (c.name, c.version) else none

/-- A decoded `package.json`. -/
structure PackageJSON where
  name : String := ""
  version : String := ""
  dependencies : Table String := ∅
  devDependencies : Table String := ∅

def npmPURL (name version : String) : String := "pkg:npm/" ++ name ++ "@" ++ version

def npmVersion (range : String) : String := trimPrefix (trimPrefix range "^") "~"

def npmComponent (name version : String) : SBOMComponent :=
  { name, version, type := "library", purl := npmPURL name version }

/-- What a map of names to version ranges gives, in the order that it is gone through. -/
def npmDependencies (dependencies : Table String) : List SBOMComponent :=
  dependencies.entries.map fun e => npmComponent e.1 (npmVersion e.2)

def parsePackageJSON (pkg : PackageJSON) : List SBOMComponent :=
  let components := npmDependencies pkg.dependencies ++ npmDependencies pkg.devDependencies
  if pkg.name ≠ "" then
    { name := pkg.name, version := pkg.version, type := "application" } :: components
  else components

/-- A decoded `package-lock.json`: versions by the paths of packages, and by their names. -/
structure PackageLock where
  packages : Table String := ∅
  dependencies : Table String := ∅

def SBOMComponent.key (c : SBOMComponent) : String := c.name ++ "@" ++ c.version

def parsePackageLockJSON (lock : PackageLock) : List SBOMComponent :=
  firsts SBOMComponent.key
    ((lock.packages.entries.filter (·.1 ≠ "")).map (fun e => npmComponent e.1 e.2) ++
      lock.dependencies.entries.map fun e => npmComponent e.1 e.2)

/-- `strings.Trim` with a cutset. -/
def trim (s : String) (cutset : List Char) : String :=
  String.ofList ((s.toList.dropWhile cutset.contains).rdropWhile cutset.contains)

/-- A line in quotes: what stands before the first at sign is a name, the first word behind it a
version. -/
def yarnLine (line : String) : Option SBOMComponent :=
  let trimmed := trimSpace line
  if hasPrefix trimmed "\"" then
    match cut trimmed '@' with
    | some (before, after) =>
      let name := trim before ['\"']
      let version := (fields (trim after ['\"', ':'])).headD ""
      if name ≠ "" then some { name, version, type := "library" } else none
    | none => none
  else none

def parseYarnLock (data : String) : List SBOMComponent := (splitLines data).filterMap yarnLine

def extractXML (content tag : String) : List String :=
  (between tag.toList content.toList).map String.ofList

def extractAttr (xml attr : String) : String :=
  match cutText (attr ++ "=\"").toList xml.toList with
  | none => ""
  | some (_, rest) =>
    match cutText ['\"'] rest with
    | none => ""
    | some (value, _) => String.ofList value

def mavenComponent (group name version : String) : SBOMComponent :=
  { name := group ++ ":" ++ name, version, type := "library"
    purl := "pkg:maven/" ++ group ++ "/" ++ name ++ "@" ++ version }

/-- The groups, names and versions that stand at one place in their lists; the first name is taken
for that of the project. -/
def parsePomXML (data : String) : List SBOMComponent :=
  let projectParts := extractXML data "artifactId"
  let versionParts := extractXML data "version"
  let groupParts := extractXML data "groupId"
  projectParts.zipIdx.tail.map fun e =>
    mavenComponent (groupParts.getD e.2 "") e.1 (versionParts.getD e.2 "")

def nugetComponent (name version : String) : SBOMComponent :=
  { name, version, type := "library", purl := "pkg:nuget/" ++ name ++ "@" ++ version }

def parseCSProj (data : String) : List SBOMComponent :=
  (extractXML data "PackageReference").filterMap fun ref =>
    let included := extractAttr ref "Include"
    let version := extractAttr ref "Version"
    if included ≠ "" then some (nugetComponent included version) else none

def cargoComponent (name version : String) : SBOMComponent :=
  { name, version, type := "library", purl := "pkg:cargo/" ++ name ++ "@" ++ version }

/-- The text of a line behind a field. -/
def cargoValue (l field : String) : String := trim (trimPrefix l field) ['\"', ' ']

/-- The name and the version that lines behind the header of a package give, up to a section that is
not a package. -/
def cargoFields (name version : String) : List String → String × String
  | [] => (name, version)
  | line :: lines =>
    let l := trimSpace line
    let name := if hasPrefix l "name = " then cargoValue l "name = " else name
    let version := if hasPrefix l "version = " then cargoValue l "version = " else version
    if hasPrefix l "[" && !hasPrefix l "[[" then (name, version)
    else cargoFields name version lines

def parseCargoLines : List String → List SBOMComponent
  | [] => []
  | line :: lines =>
    if hasPrefix (trimSpace line) "[[package]]" then
      -- the nine lines behind the header are looked through, whichever package they belong to
      let parts := cargoFields "" "" (lines.take 9)
      if parts.1 ≠ "" then cargoComponent parts.1 parts.2 :: parseCargoLines lines
      else parseCargoLines lines
    else parseCargoLines lines

def parseCargoLock (data : String) : List SBOMComponent := parseCargoLines (splitLines data)

/-- A file that dependencies are read from, as its parser finds it. -/
inductive DepFile where
  | goMod (data : String)
  | packageJSON (pkg : PackageJSON)
  | packageLock (lock : PackageLock)
  | yarnLock (data : String)
  | other (components : List SBOMComponent)

def parseDepFile : DepFile → List SBOMComponent
  | .goMod data => parseGoMod data
  | .packageJSON pkg => parsePackageJSON pkg
  | .packageLock lock => parsePackageLockJSON lock
  | .yarnLock data => parseYarnLock data
  | .other components => components

structure SBOMResult where
  components : List SBOMComponent
  format : String
  total : Nat

/-- The components of the files of a directory, in the order that they are met. -/
def scanDirectory (files : List DepFile) : SBOMResult :=
  let components := firsts SBOMComponent.key (files.flatMap parseDepFile)
  { components, format := "cyclonedx", total := components.length }

end RivicQ.Discovery.Manifests

namespace RivicQ.Discovery.CryptoLibraries

open RivicQ.Lib.GoStrings RivicQ.Lib.Firsts RivicQ.Discovery.Components
open RivicQ.Discovery.Manifests

/-- How a cryptographic library shows in the bill of materials. -/
structure CryptoLibraryProfile where
  algorithm : String
  quantumSafe : Bool
  riskLevel : SeverityLevel
  pqcStatus : String
  bsiRef : String

def cryptoLibraries : List (String × CryptoLibraryProfile) := [
  ("openssl", ⟨"OpenSSL (RSA/AES)", false, .high, "migration_required",
    "BSI TR-02102-1, Section 3.5"⟩),
  ("libssl", ⟨"OpenSSL (RSA/AES)", false, .high, "migration_required",
    "BSI TR-02102-1, Section 3.5"⟩),
  ("libcrypto", ⟨"OpenSSL (RSA/AES)", false, .high, "migration_required",
    "BSI TR-02102-1, Section 3.5"⟩),
  ("boringssl", ⟨"BoringSSL (AES-GCM)", true, .low, "safe",
    "BSI TR-02102-2, Section 3.3"⟩),
  ("liboqs", ⟨"ML-KEM / ML-DSA", true, .low, "pqc_ready",
    "BSI TR-02102-1, Section 4"⟩),
  ("pqcrypto", ⟨"ML-KEM / ML-DSA", true, .low, "pqc_ready",
    "BSI TR-02102-1, Section 4"⟩),
  ("mbedtls", ⟨"TLS (mbedTLS)", true, .low, "safe",
    "BSI TR-02102-2, Section 3.3"⟩),
  ("wolfssl", ⟨"TLS (wolfSSL)", true, .low, "safe",
    "BSI TR-02102-2, Section 3.3"⟩),
  ("gnutls", ⟨"TLS (GnuTLS)", true, .low, "safe",
    "BSI TR-02102-2, Section 3.3"⟩),
  ("nss", ⟨"TLS (NSS)", true, .low, "safe",
    "BSI TR-02102-2, Section 3.3"⟩),
  ("golang.org/x/crypto", ⟨"Go crypto", true, .low, "safe",
    "BSI TR-02102-1, Section 3"⟩),
  ("bcryptjs", ⟨"bcrypt", true, .low, "safe",
    "BSI TR-02102-1, Section 3.3"⟩),
  ("bcrypt", ⟨"bcrypt", true, .low, "safe",
    "BSI TR-02102-1, Section 3.3"⟩),
  ("argon2", ⟨"Argon2", true, .low, "safe",
    "BSI TR-02102-1, Section 3.3"⟩),
  ("scrypt", ⟨"scrypt", true, .low, "safe",
    "BSI TR-02102-1, Section 3.3"⟩),
  ("pbkdf2", ⟨"PBKDF2", true, .low, "safe",
    "BSI TR-02102-1, Section 3.3"⟩),
  ("crypto-js", ⟨"AES/SHA (crypto-js)", true, .low, "safe",
    "BSI TR-02102-1, Section 3"⟩),
  ("node-forge", ⟨"RSA/AES (node-forge)", false, .high, "migration_required",
    "BSI TR-02102-1, Section 3.5"⟩),
  ("jsencrypt", ⟨"RSA (jsencrypt)", false, .high, "migration_required",
    "BSI TR-02102-1, Section 3.5"⟩),
  ("jsonwebtoken", ⟨"HMAC/RSA (JWT)", false, .medium, "migration_required",
    "BSI TR-02102-1, Section 3.3"⟩),
  ("cryptography", ⟨"Python cryptography (RSA/AES)", false, .high, "migration_required",
    "BSI TR-02102-1, Section 3.5"⟩),
  ("pycryptodome", ⟨"PyCryptodome (RSA/AES)", false, .high, "migration_required",
    "BSI TR-02102-1, Section 3.5"⟩),
  ("pynacl", ⟨"NaCl (X25519/ChaCha)", true, .low, "safe",
    "BSI TR-02102-1, Section 3.6"⟩),
  ("passlib", ⟨"Password hashing (passlib)", true, .low, "safe",
    "BSI TR-02102-1, Section 3.3"⟩),
  ("org.bouncycastle", ⟨"Bouncy Castle (RSA/EC)", false, .high, "migration_required",
    "BSI TR-02102-1, Section 3.5"⟩),
  ("bcprov", ⟨"Bouncy Castle (RSA/EC)", false, .high, "migration_required",
    "BSI TR-02102-1, Section 3.5"⟩),
  ("spring-security-crypto", ⟨"Spring Security Crypto", false, .medium, "migration_required",
    "BSI TR-02102-1, Section 3"⟩),
  ("system.security.cryptography", ⟨".NET Crypto (RSA/AES)", false, .high, "migration_required",
    "BSI TR-02102-1, Section 3.5"⟩),
  ("libsodium", ⟨"libsodium (X25519/ChaCha)", true, .low, "safe",
    "BSI TR-02102-1, Section 3.6"⟩),
  ("sodium-native", ⟨"libsodium (X25519/ChaCha)", true, .low, "safe",
    "BSI TR-02102-1, Section 3.6"⟩)]

variable (cm : CaseMap)

/-- The part behind the last colon, if there is one. -/
def dropScope (s : String) : String := String.ofList (s.toList.rtakeWhile (· != ':'))

def normalizedCryptoName (name : String) : String :=
  let n := toLower cm (trimSpace name)
  if contains n "bouncycastle" then "org.bouncycastle"
  else if contains n "golang.org/x/crypto" then "golang.org/x/crypto"
  else if contains n "system.security.cryptography" then "system.security.cryptography"
  else dropScope n

/-- The profile of a library, by its normalised or else by its raw name. -/
def profileOf (name : String) : Option CryptoLibraryProfile :=
  (cryptoLibraries.lookup (normalizedCryptoName cm name)).or
    (cryptoLibraries.lookup (toLower cm (trimSpace name)))

def libraryComponent (c : SBOMComponent) (profile : CryptoLibraryProfile) : CBOMComponent where
  algorithm := profile.algorithm
  library := c.name
  version := c.version
  riskLevel := profile.riskLevel
  quantumSafe := profile.quantumSafe
  pqcStatus := profile.pqcStatus
  location := c.filePath
  bsiRef := profile.bsiRef

def libraryKey (c : CBOMComponent) : String := c.algorithm ++ "@" ++ c.version

/-- The known cryptographic libraries among the components, one for each algorithm and version. -/
def cbomComponentsFromSBOM (sbom : SBOMResult) : List CBOMComponent :=
  firsts libraryKey
    (sbom.components.filterMap fun c => (profileOf cm c.name).map (libraryComponent c))

end RivicQ.Discovery.CryptoLibraries
