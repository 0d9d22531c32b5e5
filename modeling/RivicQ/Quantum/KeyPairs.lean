import RivicQ.Lib.ByteText
import RivicQ.Lib.Bytes

namespace RivicQ.Quantum.KeyPairs

open RivicQ.Lib.Bytes RivicQ.Lib.ByteText RivicQ.Lib.Slices

abbrev Time := Nat

structure HSMEntropyResult where
  resultHex : Bytes

/-- A client of an HSM, as its answers to requests for random bytes. -/
structure AWSHSMClient where
  generateHSMEntropy : Nat → Option HSMEntropyResult × Option String

/-- The client as it stands asks no HSM yet. -/
def awsHSMClient : AWSHSMClient := ⟨fun _ => (none, none)⟩

structure PQCService where
  hsmClient : Option AWSHSMClient

/-- What a call rests on: SHA-512, the system's random source, which fills a buffer or fails, the
time, and what lies behind the bytes in the array that the decoding of a text returns. -/
structure System where
  sum512 : Bytes → Bytes
  length_sum512 : ∀ m, (sum512 m).length = 64
  rand : (n : Nat) → Except String { b : Bytes // b.length = n }
  now : Time
  spare : Bytes → Bytes

structure PQCKeyPair where
  algorithm : Bytes
  publicKey : Bytes
  privateKey : Bytes
  keyID : Bytes
  generatedAt : Time
  hsmBacked : Bool
  fingerprint : Bytes

structure PQCSignature where
  algorithm : Bytes
  signature : Bytes
  messageHash : Bytes
  keyID : Bytes
  signedAt : Time
  verified : Bool

inductive SignError where
  | decodePrivateKey (err : HexError)

variable (sys : System) (svc : PQCService)

def softwareSeed : Except String Bytes := (sys.rand 64).map Subtype.val

/-- The bytes that a key pair is made from. -/
def seedEntropy (hsmSeed : Bool) : Except String Bytes :=
  match hsmSeed, svc.hsmClient with
  | true, some client =>
    match client.generateHSMEntropy 64 with
    | (some op, none) =>
      if op.resultHex.length < 128 then softwareSeed sys
      else .ok (decodeHex (op.resultHex.take 128)).1
    | _ => softwareSeed sys
  | _, _ => softwareSeed sys

/-- The blocks of the key material, the hash of all that has been written up to each. -/
def blocks (algo seed written : Bytes) : List Nat → Bytes
  | [] => []
  | i :: is =>
    let written := written ++ seed ++ (algo ++ ascii "-block-" ++ ascii (toString i))
    sys.sum512 written ++ blocks algo seed written is

def keyMaterial (algo seed : Bytes) : Bytes := blocks sys algo seed [] [0, 1, 2, 3]

def publicKey (algo seed : Bytes) : Bytes := (keyMaterial sys algo seed).take 128

def privateKey (algo seed : Bytes) : Bytes := (keyMaterial sys algo seed).drop 128

/-- The start of a hash that stands for a key. -/
def shortHash (material : Bytes) : Bytes := (sys.sum512 material).take 8

def keyPair (algo seed : Bytes) (hsmBacked : Bool) : PQCKeyPair where
  algorithm := algo
  publicKey := lowerHex (publicKey sys algo seed)
  privateKey := lowerHex (privateKey sys algo seed)
  keyID := lowerHex (shortHash sys (publicKey sys algo seed))
  generatedAt := sys.now
  hsmBacked
  fingerprint := lowerHex ((sys.sum512 (publicKey sys algo seed)).take 32)

def generateKeyPair (algo : Bytes) (hsmSeed : Bool) : Except String PQCKeyPair :=
  (seedEntropy sys svc hsmSeed).map fun seed =>
    keyPair sys algo seed (hsmSeed && svc.hsmClient.isSome)

/-- A signature with a decoded key, unless its first 32 bytes are out of reach. -/
def signWith (algo record : Bytes) (privateKey : Slice UInt8) : Option PQCSignature :=
  let msgHash := sys.sum512 record
  let (sigInput, privateKey) := privateKey.append msgHash
  (privateKey.upTo 32).map fun front => {
    algorithm := algo
    signature := lowerHex (sys.sum512 sigInput.elems)
    messageHash := lowerHex msgHash
    keyID := lowerHex (shortHash sys front.elems)
    signedAt := sys.now
    verified := false }

/-- A signature or an error, or none for a fault. -/
def signRecord (algo privateKeyHex record : Bytes) : Option (Except SignError PQCSignature) :=
  match decodeHex privateKeyHex with
  | (_, some err) => some (.error (.decodePrivateKey err))
  | (key, none) =>
    (signWith sys algo record (Slice.before key (sys.spare privateKeyHex))).map .ok

end RivicQ.Quantum.KeyPairs
