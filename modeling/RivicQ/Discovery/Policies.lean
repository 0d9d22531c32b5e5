import RivicQ.Lib.AddressText
import RivicQ.Lib.Addresses
import RivicQ.Lib.HostPorts
import RivicQ.Lib.Traces

namespace RivicQ.Discovery.Network

open RivicQ.Lib.Programs RivicQ.Lib.Addresses

/-- Why a target or an address is refused, with what the message names. -/
inductive Refusal where
  | empty
  | tooLong
  | localPathDisabled
  | noLocalPathRoots
  | unresolvablePath
  | outsideRoots (raw : String)
  | noHost (raw : String)
  | hostNotAllowed (host : String)
  | metadata (endpoint : String)
  | internalName (host : String)
  | port (port : Int)
  | address (ip : IP)
  | resolves (host : String) (ip : Option IP)
  | unparsable (addr : String)
  | resolvesOnly (host : String) (blocked : List String)

/-- The errors of a scan. Only `targetBlocked` wraps `ErrTargetBlocked`. -/
inductive Err where
  | targetBlocked (refusal : Refusal)
  | noRoutableAddress (host : String)
  | failed (context : String) (message : String)
  | wrapped (context : String) (e : Err)

/-- The answer of a resolver; an address may be `nil`. -/
abbrev Answer := Except String (List (Option IP))

/-- An open connection. -/
structure Conn where
  handle : Nat

/-- Where a redirect leads: the host name of its URL, and the address the transport
makes of it. -/
structure Hop where
  hostname : String
  addr : String

/-- What a scan asks of the machine and the network. -/
inductive Request where
  | lookupIP (host : String)
  | lookupIPAddr (host : String)
  | dial (network addr : String)
  | tlsHandshake (conn : Conn)
  | sshClientConn (conn : Conn) (addr : String)
  | parseURL (url : String)
  | connections (hop : Hop)
  | roundTrip (hop : Hop) (conns : List Conn)

/-- The replies. A transport opens as many connections for a request as it likes,
and a response may redirect. -/
def Request.Reply : Request → Type
  | .lookupIP _ => Answer
  | .lookupIPAddr _ => Answer
  | .dial _ _ => Except String Conn
  | .tlsHandshake _ => Except String Unit
  | .sshClientConn _ _ => Except String Unit
  | .parseURL _ => Except String Hop
  | .connections _ => Nat
  | .roundTrip _ _ => Except String (Option Hop)

def Net : Signature where
  Op := Request
  Reply := Request.Reply
  yields _ := true

abbrev Prog := Program Net

end RivicQ.Discovery.Network

namespace RivicQ.Discovery.Policies

open RivicQ.Lib.GoStrings RivicQ.Lib.HostPorts RivicQ.Lib.Addresses RivicQ.Lib.Programs
open RivicQ.Lib.AddressText
open RivicQ.Discovery.Network

/-- The bounds on what a scan may reach. -/
structure TargetPolicy where
  allowLocalPaths : Bool
  localPathRoots : List String
  allowPrivateNetworks : Bool
  allowedHosts : List String

/-- Blocks that are no legitimate scan targets. -/
def reserved : List IPNet :=
  [{ ip := [100, 64, 0, 0], ones := 10 },
    { ip := [192, 0, 0, 0], ones := 24 },
    { ip := [192, 0, 2, 0], ones := 24 },
    { ip := [198, 18, 0, 0], ones := 15 },
    { ip := [198, 51, 100, 0], ones := 24 },
    { ip := [203, 0, 113, 0], ones := 24 },
    { ip := [240, 0, 0, 0], ones := 4 },
    { ip := List.replicate 16 0, ones := 128 },
    { ip := [0, 0x64, 0xff, 0x9b] ++ List.replicate 12 0, ones := 96 }]

/-- Whether an address is outside the globally routable public space. -/
def isBlockedIP : Option IP → Bool
  | none => true
  | some ip =>
    ip.isLoopback || ip.isUnspecified || ip.isLinkLocalUnicast || ip.isLinkLocalMulticast ||
      ip.isInterfaceLocalMulticast || ip.isMulticast || ip.isPrivate ||
      reserved.any (·.contains ip)

/-- The ports a caller may probe. -/
def isCommonScanPort (port : Int) : Bool :=
  [80, 443, 22, 2222, 8443, 4433, 4443, 9443, 8080, 8000, 5000, 9000, 8081, 8082].contains port

/-- Cloud metadata endpoints, blocked whatever they resolve to. -/
def metadataEndpoints : List String :=
  ["169.254.169.254", "metadata.google.internal", "metadata.goog", "instance-data.ec2.internal",
    "100.100.100.200"]

variable (cm : CaseMap) (p : TargetPolicy)

def blocked {α : Type} (r : Refusal) : Except Err α := .error (.targetBlocked r)

/-- Whether a host is on the exact-match list of the policy. -/
def allowedHost (host : String) : Bool := p.allowedHosts.any fun h => equalFold cm h host

/-- The checks on the answers for a host name. -/
def checkAnswer (host : String) : Answer → Except Err Unit
  | .error _ => .ok ()
  | .ok ips =>
    match ips.find? isBlockedIP with
    | some ip => blocked (.resolves host ip)
    | none => .ok ()

/-- The rules of `validateNetworkTarget` for the host and the port of a target. -/
def validateHostPort (raw host : String) (port : Int) : Prog (Except Err Unit) :=
  if host = "" then .pure (blocked (.noHost raw))
  else if p.allowedHosts ≠ [] then
    .pure (if allowedHost cm p host then .ok () else blocked (.hostNotAllowed host))
  else if p.allowPrivateNetworks then .pure (.ok ())
  else
    let lower := toLower cm host
    match metadataEndpoints.find? (lower = ·) with
    | some endpoint => .pure (blocked (.metadata endpoint))
    | none =>
      if hasSuffix lower ".internal" || hasSuffix lower ".local" then
        .pure (blocked (.internalName host))
      else if port ≠ 0 && !isCommonScanPort port then .pure (blocked (.port port))
      else
        match parseIP host with
        | some ip => .pure (if isBlockedIP (some ip) then blocked (.address ip) else .ok ())
        | none => .request (.lookupIP host) fun answer => .pure (checkAnswer host answer)

section Addresses

variable {ip : IP}

theorem isUnspecified_to16 : ip.to16.isUnspecified = ip.isUnspecified := by
  simp only [IP.isUnspecified, IP.equal, to16_to16]

theorem isInterfaceLocalMulticast_mapped (h : ip.bytes.length = 4) :
    ip.to16.isInterfaceLocalMulticast = ip.isInterfaceLocalMulticast := by
  have hbytes : ip.to16.bytes = v4InV6Prefix ++ ip.bytes := by rw [IP.to16, dif_pos h]
  have hzero : ip.to16.octet 0 = 0 := by
    rw [IP.octet, hbytes]
    rfl
  simp [IP.isInterfaceLocalMulticast, hzero, h]

/-- Both forms of an address are blocked alike. -/
theorem isBlockedIP_to16 : isBlockedIP (some ip.to16) = isBlockedIP (some ip) := by
  by_cases h : ip.bytes.length = 4
  · have h4 : ip.to4 = some ip.bytes := if_pos h
    simp only [isBlockedIP, IP.isLoopback, IP.isLinkLocalUnicast, IP.isLinkLocalMulticast,
      IP.isMulticast, IP.isPrivate, IPNet.contains, isUnspecified_to16,
      isInterfaceLocalMulticast_mapped h, to4_to16, h4, Option.getD_some]
  · rw [IP.to16, dif_neg h]

end Addresses

section Lookups

open RivicQ.Lib.Traces

variable {cm p} {P : List (Event Net) → Event Net → Prop} {raw host : String} {port : Int}

/-- A validation looks the host up, and does nothing else. -/
theorem always_validateHostPort (hP : Lasting P)
    (hlookup : ∀ host (answer : Answer), P [] ⟨.lookupIP host, answer⟩) :
    Always P (validateHostPort cm p raw host port) := by
  have hlooked : Always P
      (.request (.lookupIP host) fun answer => .pure (checkAnswer host answer)) :=
    always_request hP (hlookup host) fun _ => always_pure
  unfold validateHostPort
  dsimp only
  generalize metadataEndpoints.find? _ = endpoint
  generalize parseIP host = literal
  cases endpoint with
  | some endpoint => split_ifs <;> exact always_pure
  | none =>
    cases literal with
    | some ip => split_ifs <;> exact always_pure
    | none => split_ifs <;> first | exact always_pure | exact hlooked

end Lookups

end RivicQ.Discovery.Policies
