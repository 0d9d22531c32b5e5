import RivicQ.Lib.GoStrings

namespace RivicQ.Lib.Addresses

/-- An address of package `net`, in its form of four or of sixteen bytes. -/
structure IP where
  bytes : List UInt8
  length_bytes : bytes.length = 4 ∨ bytes.length = 16
  deriving DecidableEq

def v4InV6Prefix : List UInt8 := [0, 0, 0, 0, 0, 0, 0, 0, 0, 0, 0xff, 0xff]

namespace IP

variable (ip x : IP)

/-- The form of four bytes, of an address that has one. -/
def to4 : Option (List UInt8) :=
  if ip.bytes.length = 4 then some ip.bytes
  else if v4InV6Prefix <+: ip.bytes then some (ip.bytes.drop 12)
  else none

def to16 : IP :=
  if h : ip.bytes.length = 4 then
    { bytes := v4InV6Prefix ++ ip.bytes
      length_bytes := by
        right
        rw [List.length_append, h]
        rfl }
  else ip

def equal : Bool := ip.to16.bytes = x.to16.bytes

/-- A byte of the address, in the form it is held in. -/
def octet (i : Nat) : UInt8 := ip.bytes.getD i 0

def v4zero : IP := ⟨[0, 0, 0, 0], Or.inl rfl⟩

def v6unspecified : IP := ⟨List.replicate 16 0, Or.inr rfl⟩

def v6loopback : IP := ⟨List.replicate 15 0 ++ [1], Or.inr rfl⟩

def isUnspecified : Bool := ip.equal v4zero || ip.equal v6unspecified

def isLoopback : Bool :=
  match ip.to4 with
  | some b => b.getD 0 0 = 127
  | none => ip.equal v6loopback

def isPrivate : Bool :=
  match ip.to4 with
  | some b => b.getD 0 0 = 10 || (b.getD 0 0 = 172 && b.getD 1 0 &&& 0xf0 = 16) ||
      (b.getD 0 0 = 192 && b.getD 1 0 = 168)
  | none => ip.bytes.length = 16 && ip.octet 0 &&& 0xfe = 0xfc

def isMulticast : Bool :=
  match ip.to4 with
  | some b => b.getD 0 0 &&& 0xf0 = 0xe0
  | none => ip.bytes.length = 16 && ip.octet 0 = 0xff

def isInterfaceLocalMulticast : Bool :=
  ip.bytes.length = 16 && ip.octet 0 = 0xff && ip.octet 1 &&& 0x0f = 0x01

def isLinkLocalMulticast : Bool :=
  match ip.to4 with
  | some b => b.getD 0 0 = 224 && b.getD 1 0 = 0 && b.getD 2 0 = 0
  | none => ip.bytes.length = 16 && ip.octet 0 = 0xff && ip.octet 1 &&& 0x0f = 0x02

def isLinkLocalUnicast : Bool :=
  match ip.to4 with
  | some b => b.getD 0 0 = 169 && b.getD 1 0 = 254
  | none => ip.bytes.length = 16 && ip.octet 0 = 0xfe && ip.octet 1 &&& 0xc0 = 0x80

end IP

/-- A block of addresses, written as a prefix and its number of bits. -/
structure IPNet where
  ip : List UInt8
  ones : Nat

/-- `CIDRMask`, byte by byte. -/
def maskByte (ones i : Nat) : UInt8 :=
  if 8 * (i + 1) ≤ ones then 0xff
  else if ones ≤ 8 * i then 0
  else 0xff <<< UInt8.ofNat (8 - (ones - 8 * i))

def mask (ones : Nat) (bytes : List UInt8) : List UInt8 :=
  bytes.zipIdx.map fun p => p.1 &&& maskByte ones p.2

def IPNet.contains (n : IPNet) (ip : IP) : Bool :=
  let x := ip.to4.getD ip.bytes
  x.length = n.ip.length && mask n.ones n.ip = mask n.ones x

section Text

def isHexDigit (c : Char) : Bool :=
  ('0' ≤ c && c ≤ '9') || ('a' ≤ c && c ≤ 'f') || ('A' ≤ c && c ≤ 'F')

def hexValue (c : Char) : Nat :=
  if '0' ≤ c && c ≤ '9' then c.toNat - 48
  else if 'a' ≤ c && c ≤ 'f' then c.toNat - 87
  else c.toNat - 55

/-- The two bytes of a group of an address. -/
def groupBytes (g : Nat) : List UInt8 := [UInt8.ofNat (g / 256), UInt8.ofNat g]

/-- A decimal octet, without leading zeros. -/
def parseOctet (s : List Char) : Option UInt8 :=
  if s ≠ [] ∧ s.all Char.isDigit = true ∧ (s.head? = some '0' → s = ['0']) ∧
      Nat.ofDigitChars 10 s 0 ≤ 255 then
    some (UInt8.ofNat (Nat.ofDigitChars 10 s 0))
  else none

def parseIPv4Fields (s : List Char) : Option (List UInt8) :=
  match s.splitOn '.' with
  | [a, b, c, d] => do
    let a ← parseOctet a
    let b ← parseOctet b
    let c ← parseOctet c
    let d ← parseOctet d
    some [a, b, c, d]
  | _ => none

/-- The groups of an address, with the bytes read so far, where the ellipsis
stood among them, and the text that is left. The first argument counts the
groups there is still room for. -/
def parseFields : Nat → List Char → List UInt8 → Option Nat →
    Option (List UInt8 × Option Nat × List Char)
  | 0, s, ip, ellipsis => some (ip, ellipsis, s)
  | n + 1, s, ip, ellipsis =>
    let digits := s.takeWhile isHexDigit
    let group := digits.foldl (fun acc c => 16 * acc + hexValue c) 0
    if digits.length = 0 ∨ 4 < digits.length then none
    else
      match s.dropWhile isHexDigit with
      | '.' :: _ =>
        if (ellipsis = none ∧ ip.length ≠ 12) ∨ 16 < ip.length + 4 then none
        else (parseIPv4Fields s).map fun fields => (ip ++ fields, ellipsis, [])
      | [] => some (ip ++ groupBytes group, ellipsis, [])
      | [':'] => none
      | ':' :: ':' :: rest =>
        if ellipsis ≠ none then none
        else if rest = [] then some (ip ++ groupBytes group, some (ip.length + 2), [])
        else parseFields n rest (ip ++ groupBytes group) (some (ip.length + 2))
      | ':' :: rest => parseFields n rest (ip ++ groupBytes group) ellipsis
      | _ => none

/-- Sixteen bytes from those that were written, zeros standing for the ellipsis. -/
def expand (ip : List UInt8) (ellipsis : Option Nat) : Option (List UInt8) :=
  if ip.length < 16 then
    ellipsis.map fun e => ip.take e ++ List.replicate (16 - ip.length) 0 ++ ip.drop e
  else if ellipsis ≠ none then none
  else some ip

def parseIPv6 (s : List Char) : Option (List UInt8) :=
  if s = [':', ':'] then some (List.replicate 16 0)
  else
    let (s, ellipsis) := if [':', ':'] <+: s then (s.drop 2, some 0) else (s, none)
    match parseFields 8 s [] ellipsis with
    | some (ip, ellipsis, []) => expand ip ellipsis
    | _ => none

/-- Sixteen bytes from a text. A zone makes it no address. -/
def parseBytes (s : List Char) : Option (List UInt8) :=
  match s.find? fun c => c = '.' || c = ':' || c = '%' with
  | some '.' => (parseIPv4Fields s).map (v4InV6Prefix ++ ·)
  | some ':' => if '%' ∈ s then none else parseIPv6 s
  | _ => none

def parseIP (s : String) : Option IP :=
  match parseBytes s.toList with
  | some bytes => if h : bytes.length = 16 then some ⟨bytes, Or.inr h⟩ else none
  | none => none

/-- The groups of sixteen bits that an address is written in. -/
def groups : List UInt8 → List Nat
  | a :: b :: rest => (256 * a.toNat + b.toNat) :: groups rest
  | _ => []

/-- The first longest run of at least two zero groups, by its bounds. -/
def zeroRun (gs : List Nat) : Nat × Nat :=
  (List.range gs.length).foldl (fun best i =>
    let l := ((gs.drop i).takeWhile (· = 0)).length
    if 2 ≤ l ∧ best.2 - best.1 < l then (i, i + l) else best) (255, 255)

def hexText (gs : List Nat) : List Char := [':'].intercalate (gs.map (Nat.toDigits 16))

def text6 (gs : List Nat) : List Char :=
  let (zeroStart, zeroEnd) := zeroRun gs
  if zeroStart = 255 then hexText gs
  else hexText (gs.take zeroStart) ++ [':', ':'] ++ hexText (gs.drop zeroEnd)

def text4 (b : List UInt8) : List Char :=
  ['.'].intercalate (b.map fun x => Nat.toDigits 10 x.toNat)

/-- `String`, which writes an address that has four bytes as such. -/
def IP.string (ip : IP) : String :=
  match ip.to4 with
  | some b => String.ofList (text4 b)
  | none => String.ofList (text6 (groups ip.bytes))

end Text

end RivicQ.Lib.Addresses
