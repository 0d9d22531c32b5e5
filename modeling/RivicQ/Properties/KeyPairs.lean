import RivicQ.Quantum.KeyPairs

namespace RivicQ.Properties.KeyPairs

open RivicQ.Lib.Bytes RivicQ.Lib.ByteText RivicQ.Lib.Slices RivicQ.Quantum.KeyPairs

/-- A seed is the front of what the HSM spells. -/
def FromHSM (svc : PQCService) (hsmSeed : Bool) (seed : Bytes) : Prop :=
  hsmSeed = true ∧ ∃ client op bytes, svc.hsmClient = some client ∧
    client.generateHSMEntropy 64 = (some op, none) ∧ Spells op.resultHex bytes ∧ seed <+: bytes

/-- A key pair is made from 64 bytes of one source, and tells which one. -/
def Sourced (sys : System) (svc : PQCService) (algo : Bytes) (hsmSeed : Bool) : Prop :=
  ∀ kp, generateKeyPair sys svc algo hsmSeed = .ok kp →
    ∃ seed, seedEntropy sys svc hsmSeed = .ok seed ∧ seed.length = 64 ∧
      (FromHSM svc hsmSeed seed ∨ softwareSeed sys = .ok seed) ∧
      (kp.hsmBacked = true ↔ FromHSM svc hsmSeed seed)

/-- An answer of the HSM that is long enough. -/
def Usable (answer : Option HSMEntropyResult × Option String) (op : HSMEntropyResult) : Prop :=
  answer = (some op, none) ∧ 128 ≤ op.resultHex.length

/-- The HSM is left out, or it spells enough bytes, or it gives nothing to use and the system's
random source fails too. -/
def Undegraded (sys : System) (svc : PQCService) (hsmSeed : Bool) : Prop :=
  hsmSeed = true → ∀ client, svc.hsmClient = some client →
    (∃ op bytes, Usable (client.generateHSMEntropy 64) op ∧ Spells op.resultHex bytes) ∨
      (¬ ∃ op, Usable (client.generateHSMEntropy 64) op) ∧ ∀ seed, softwareSeed sys ≠ .ok seed

variable {sys : System} {svc : PQCService} {client : AWSHSMClient} {op : HSMEntropyResult}
  {algo seed : Bytes} {hsmSeed : Bool} {kp : PQCKeyPair}

section Seeds

theorem length_softwareSeed (h : softwareSeed sys = .ok seed) : seed.length = 64 := by
  unfold softwareSeed at h
  cases hrand : sys.rand 64 with
  | error err => exact absurd (hrand ▸ h) nofun
  | ok buffer =>
    rw [hrand] at h
    cases h
    exact buffer.2

theorem seedEntropy_software (h : hsmSeed = true → svc.hsmClient = none) :
    seedEntropy sys svc hsmSeed = softwareSeed sys := by
  cases hsmSeed with
  | false => rfl
  | true => simp only [seedEntropy, h rfl]

theorem seedEntropy_usable (hclient : svc.hsmClient = some client)
    (h : Usable (client.generateHSMEntropy 64) op) :
    seedEntropy sys svc true = .ok (decodeHex (op.resultHex.take 128)).1 := by
  simp only [seedEntropy, hclient, h.1, if_neg (Nat.not_lt.mpr h.2)]

theorem seedEntropy_unusable (hclient : svc.hsmClient = some client)
    (h : ¬ ∃ op, Usable (client.generateHSMEntropy 64) op) :
    seedEntropy sys svc true = softwareSeed sys := by
  simp only [seedEntropy, hclient]
  split
  · rename_i op hanswer
    exact if_pos (Nat.lt_of_not_le fun hlen => h ⟨op, hanswer, hlen⟩)
  · rfl

theorem generateKeyPair_eq_ok : generateKeyPair sys svc algo hsmSeed = .ok kp ↔
    ∃ seed, seedEntropy sys svc hsmSeed = .ok seed ∧
      keyPair sys algo seed (hsmSeed && svc.hsmClient.isSome) = kp := by
  rw [generateKeyPair]
  cases seedEntropy sys svc hsmSeed with
  | error err => exact iff_of_false nofun fun h => nomatch h.choose_spec.1
  | ok seed =>
    constructor
    · intro h
      exact ⟨seed, rfl, Except.ok.inj h⟩
    · rintro ⟨_, h, rfl⟩
      cases h
      rfl

/-- A source can be seen from the key pairs that are made from it. -/
theorem sourced_iff_seed : Sourced sys svc algo hsmSeed ↔
    ∀ seed, seedEntropy sys svc hsmSeed = .ok seed → seed.length = 64 ∧
      (FromHSM svc hsmSeed seed ∨ softwareSeed sys = .ok seed) ∧
      ((hsmSeed && svc.hsmClient.isSome) = true ↔ FromHSM svc hsmSeed seed) := by
  constructor
  · intro h seed hseed
    obtain ⟨seed', hseed', hsourced⟩ := h _ (generateKeyPair_eq_ok.mpr ⟨seed, hseed, rfl⟩)
    cases hseed.symm.trans hseed'
    exact hsourced
  · intro h kp hkp
    obtain ⟨seed, hseed, rfl⟩ := generateKeyPair_eq_ok.mp hkp
    exact ⟨seed, hseed, h seed hseed⟩

end Seeds

section Answers

theorem Usable.eq {op' : HSMEntropyResult} {answer : Option HSMEntropyResult × Option String}
    (h : Usable answer op) (h' : answer = (some op', none)) : op' = op :=
  Option.some.inj (congrArg Prod.fst (h'.symm.trans h.1))

theorem usable_of_fromHSM (h : FromHSM svc hsmSeed seed) (hlength : seed.length = 64)
    (hclient : svc.hsmClient = some client) :
    ∃ op bytes, Usable (client.generateHSMEntropy 64) op ∧ Spells op.resultHex bytes := by
  obtain ⟨-, client', op, bytes, hclient', hanswer, hspells, hprefix⟩ := h
  obtain rfl := Option.some.inj (hclient.symm.trans hclient')
  have hle := hprefix.length_le
  have hdigits := length_spells hspells
  exact ⟨op, bytes, ⟨hanswer, by omega⟩, hspells⟩

/-- Enough digits spell a seed from the HSM. -/
theorem fromHSM_of_spells {bytes : Bytes} (hclient : svc.hsmClient = some client)
    (h : Usable (client.generateHSMEntropy 64) op) (hspells : Spells op.resultHex bytes) :
    (decodeHex (op.resultHex.take 128)).1.length = 64 ∧
      FromHSM svc true (decodeHex (op.resultHex.take 128)).1 := by
  have hdigits := length_spells hspells
  have hlong : 64 ≤ bytes.length := by
    have hle := h.2
    omega
  rw [decodeHex_spells (spells_take hspells 64)]
  refine ⟨List.length_take_of_le hlong, rfl, client, op, bytes, hclient, h.1, hspells, ?_⟩
  exact List.take_prefix 64 bytes

theorem not_fromHSM (h : hsmSeed = true → svc.hsmClient = none) : ¬ FromHSM svc hsmSeed seed := by
  rintro ⟨hseed, client, op, bytes, hclient, -⟩
  exact nomatch (h hseed).symm.trans hclient

end Answers

/-- Key pairs tell the source of their seeds exactly if no answer of the HSM is put up with. -/
theorem sourced_iff (sys : System) (svc : PQCService) (algo : Bytes) (hsmSeed : Bool) :
    Sourced sys svc algo hsmSeed ↔ Undegraded sys svc hsmSeed := by
  rw [sourced_iff_seed]
  by_cases hasked : hsmSeed = true → svc.hsmClient = none
  · refine iff_of_true (fun seed hseed => ?_) fun hseed client hclient =>
      nomatch (hasked hseed).symm.trans hclient
    rw [seedEntropy_software hasked] at hseed
    refine ⟨length_softwareSeed hseed, .inr hseed, iff_of_false ?_ (not_fromHSM hasked)⟩
    intro hbacked
    obtain ⟨htrue, hsome⟩ := Bool.and_eq_true_iff.mp hbacked
    rw [hasked htrue] at hsome
    exact Bool.false_ne_true hsome
  obtain ⟨rfl, hsome⟩ := Classical.not_imp.mp hasked
  obtain ⟨client, hclient⟩ := Option.ne_none_iff_exists'.mp hsome
  have hbacked : (true && svc.hsmClient.isSome) = true := by rw [hclient]; rfl
  by_cases husable : ∃ op, Usable (client.generateHSMEntropy 64) op
  · obtain ⟨op, hop⟩ := husable
    rw [seedEntropy_usable hclient hop]
    constructor
    · intro h _ client' hclient'
      obtain rfl := Option.some.inj (hclient.symm.trans hclient')
      obtain ⟨hlength, -, hhsm⟩ := h _ rfl
      exact .inl (usable_of_fromHSM (hhsm.mp hbacked) hlength hclient)
    · intro h seed hseed
      obtain rfl := Except.ok.inj hseed
      obtain ⟨op', bytes, hop', hspells⟩ | ⟨hnone, -⟩ := h rfl client hclient
      · obtain rfl := hop.eq hop'.1
        obtain ⟨hlength, hhsm⟩ := fromHSM_of_spells hclient hop hspells
        exact ⟨hlength, .inl hhsm, iff_of_true hbacked hhsm⟩
      · exact absurd ⟨op, hop⟩ hnone
  · rw [seedEntropy_unusable hclient husable]
    constructor
    · intro h _ client' hclient'
      obtain rfl := Option.some.inj (hclient.symm.trans hclient')
      refine .inr ⟨husable, fun seed hseed => husable ?_⟩
      obtain ⟨hlength, -, hhsm⟩ := h seed hseed
      obtain ⟨op, -, hop, -⟩ := usable_of_fromHSM (hhsm.mp hbacked) hlength hclient
      exact ⟨op, hop⟩
    · intro h seed hseed
      obtain ⟨op, -, hop, -⟩ | ⟨-, hfails⟩ := h rfl client hclient
      · exact absurd ⟨op, hop⟩ husable
      · exact absurd hseed (hfails seed)

section Identifiers

/-- Signatures with the private key of a key pair name the key pair. -/
def Identified (sys : System) (svc : PQCService) (algo : Bytes) (hsmSeed : Bool) : Prop :=
  ∀ kp, generateKeyPair sys svc algo hsmSeed = .ok kp → ∀ algo' record,
    ∃ sig, signRecord sys algo' kp.privateKey record = some (.ok sig) ∧ sig.keyID = kp.keyID

/-- Signing with a key does not fault, and names the key whatever is signed. -/
def Steady (sys : System) (text : Bytes) : Prop :=
  (∀ algo record, signRecord sys algo text record ≠ none) ∧
    ∀ algo algo' record record' sig sig', signRecord sys algo text record = some (.ok sig) →
      signRecord sys algo' text record' = some (.ok sig') → sig.keyID = sig'.keyID

/-- The two parts of the key pairs that are made have the same short hash. -/
def Alike (sys : System) (svc : PQCService) (algo : Bytes) (hsmSeed : Bool) : Prop :=
  ∀ seed, seedEntropy sys svc hsmSeed = .ok seed →
    shortHash sys (publicKey sys algo seed) = shortHash sys ((privateKey sys algo seed).take 32)

/-- A text is no key, or it is one of 32 bytes or more, or there is enough room in its array for
32 bytes but not for the hash of a record too, unless the short hashes do not tell records apart. -/
def Reachable (sys : System) (text : Bytes) : Prop :=
  ∀ key, decodeHex text = (key, none) →
    32 ≤ key.length ∨ 32 ≤ key.length + (sys.spare text).length ∧
      ((sys.spare text).length < 64 ∨ ∀ record record',
        shortHash sys (key ++ (sys.sum512 record).take (32 - key.length)) =
          shortHash sys (key ++ (sys.sum512 record').take (32 - key.length)))

variable {algo' record text key spare : Bytes} {s : Slice UInt8} {sig : PQCSignature}

theorem length_blocks (is : List Nat) (written : Bytes) :
    (blocks sys algo seed written is).length = 64 * is.length := by
  induction is generalizing written with
  | nil => rfl
  | cons i is ih =>
    rw [blocks, List.length_append, sys.length_sum512, ih, List.length_cons]
    omega

theorem length_privateKey : (privateKey sys algo seed).length = 128 := by
  rw [privateKey, List.length_drop, keyMaterial, length_blocks]
  rfl

/-- The 32 bytes that a signature's key is named by. -/
def front (sys : System) (record : Bytes) (s : Slice UInt8) : Bytes :=
  (s.append (sys.sum512 record)).2.array.take 32

theorem signWith_eq_none_iff : signWith sys algo record s = none ↔ s.cap < 32 := by
  simp only [signWith, Option.map_eq_none_iff, upTo_eq_none_iff, cap_append]

theorem keyID_signWith (h : signWith sys algo record s = some sig) :
    sig.keyID = lowerHex (shortHash sys (front sys record s)) := by
  simp only [signWith, Option.map_eq_some_iff] at h
  obtain ⟨t, ht, rfl⟩ := h
  rw [elems_upTo ht, front]

theorem front_long (h : 32 ≤ key.length) :
    front sys record (Slice.before key spare) = key.take 32 := by
  have hlen : 32 ≤ (Slice.before key spare).len := h
  exact (take_append hlen).trans (List.take_append_of_le_length h)

/-- Without room for the hash of a record, the array is left alone. -/
theorem front_moved (h : spare.length < 64) :
    front sys record (Slice.before key spare) = (key ++ spare).take 32 := by
  have hroom : ¬ key.length + (sys.sum512 record).length ≤ (Slice.before key spare).cap := by
    rw [cap_before, sys.length_sum512]
    omega
  exact congrArg (List.take 32) (array_append.trans (if_neg hroom))

/-- With room for it, the hash of a record stands behind the key. -/
theorem front_room (hkey : key.length < 32) (h : 64 ≤ spare.length) :
    front sys record (Slice.before key spare) =
      key ++ (sys.sum512 record).take (32 - key.length) := by
  have hroom : key.length + (sys.sum512 record).length ≤ (Slice.before key spare).cap := by
    rw [cap_before, sys.length_sum512]
    omega
  have hhash : 32 - key.length ≤ (sys.sum512 record).length := by
    rw [sys.length_sum512]
    omega
  have harray := (array_append (s := Slice.before key spare)).trans (if_pos hroom)
  rw [front, harray, elems_before, List.append_assoc, List.take_append,
    List.take_of_length_le (Nat.le_of_lt hkey), List.take_append_of_le_length hhash]

theorem signRecord_key (h : decodeHex text = (key, none)) : signRecord sys algo text record =
    (signWith sys algo record (Slice.before key (sys.spare text))).map .ok := by
  rw [signRecord, h]

theorem signRecord_error {err : HexError} (h : decodeHex text = (key, some err)) :
    signRecord sys algo text record = some (.error (.decodePrivateKey err)) := by
  rw [signRecord, h]

theorem signRecord_eq_none_iff (h : decodeHex text = (key, none)) :
    signRecord sys algo text record = none ↔ key.length + (sys.spare text).length < 32 := by
  rw [signRecord_key h, Option.map_eq_none_iff, signWith_eq_none_iff, cap_before]

/-- A signature names its key by the front of the key's array. -/
theorem keyID_signRecord (h : decodeHex text = (key, none))
    (hsig : signRecord sys algo text record = some (.ok sig)) :
    sig.keyID =
      lowerHex (shortHash sys (front sys record (Slice.before key (sys.spare text)))) := by
  rw [signRecord_key h, Option.map_eq_some_iff] at hsig
  obtain ⟨_, hsig, hok⟩ := hsig
  cases hok
  exact keyID_signWith hsig

theorem exists_signRecord (h : decodeHex text = (key, none))
    (hcap : 32 ≤ key.length + (sys.spare text).length) (algo record : Bytes) :
    ∃ sig, signRecord sys algo text record = some (.ok sig) := by
  have hne : signRecord sys algo text record ≠ none :=
    mt (signRecord_eq_none_iff h).mp (Nat.not_lt.mpr hcap)
  obtain ⟨result, hresult⟩ := Option.ne_none_iff_exists'.mp hne
  rw [signRecord_key h, Option.map_eq_some_iff] at hresult
  obtain ⟨sig, hsig, -⟩ := hresult
  exact ⟨sig, by rw [signRecord_key h, hsig]; rfl⟩

theorem decodeHex_privateKey : decodeHex (lowerHex (privateKey sys algo seed)) =
    (privateKey sys algo seed, none) :=
  decodeHex_spells (spells_lowerHex _)

theorem keyID_privateKey
    (hsig : signRecord sys algo' (lowerHex (privateKey sys algo seed)) record = some (.ok sig)) :
    sig.keyID = lowerHex (shortHash sys ((privateKey sys algo seed).take 32)) := by
  have hlong : 32 ≤ (privateKey sys algo seed).length := by
    rw [length_privateKey]
    decide
  rw [keyID_signRecord decodeHex_privateKey hsig, front_long hlong]

theorem identified_iff : Identified sys svc algo hsmSeed ↔ Alike sys svc algo hsmSeed := by
  constructor
  · intro h seed hseed
    obtain ⟨sig, hsig, hid⟩ := h _ (generateKeyPair_eq_ok.mpr ⟨seed, hseed, rfl⟩) [] []
    exact lowerHex_injective (hid.symm.trans (keyID_privateKey hsig))
  · intro h kp hkp algo' record
    obtain ⟨seed, hseed, rfl⟩ := generateKeyPair_eq_ok.mp hkp
    have hcap : 32 ≤ (privateKey sys algo seed).length +
        (sys.spare (lowerHex (privateKey sys algo seed))).length := by
      rw [length_privateKey]
      omega
    obtain ⟨sig, hsig⟩ := exists_signRecord decodeHex_privateKey hcap algo' record
    exact ⟨sig, hsig, (keyID_privateKey hsig).trans (congrArg lowerHex (h seed hseed).symm)⟩

/-- A key names itself exactly if its front is the same for all records. -/
theorem steady_key (h : decodeHex text = (key, none)) : Steady sys text ↔
    32 ≤ key.length + (sys.spare text).length ∧ ∀ record record',
      shortHash sys (front sys record (Slice.before key (sys.spare text))) =
        shortHash sys (front sys record' (Slice.before key (sys.spare text))) := by
  constructor
  · rintro ⟨hne, hid⟩
    have hcap : 32 ≤ key.length + (sys.spare text).length :=
      Nat.le_of_not_lt fun hlt => hne [] [] ((signRecord_eq_none_iff h).mpr hlt)
    refine ⟨hcap, fun record record' => lowerHex_injective ?_⟩
    obtain ⟨sig, hsig⟩ := exists_signRecord h hcap [] record
    obtain ⟨sig', hsig'⟩ := exists_signRecord h hcap [] record'
    rw [← keyID_signRecord h hsig, ← keyID_signRecord h hsig']
    exact hid _ _ _ _ _ _ hsig hsig'
  · rintro ⟨hcap, hfront⟩
    constructor
    · exact fun algo record => mt (signRecord_eq_none_iff h).mp (Nat.not_lt.mpr hcap)
    · intro algo algo' record record' sig sig' hsig hsig'
      rw [keyID_signRecord h hsig, keyID_signRecord h hsig', hfront record record']

theorem steady_error {err : HexError} (h : decodeHex text = (key, some err)) :
    Steady sys text := by
  have herror : ∀ algo record, signRecord sys algo text record =
      some (.error (.decodePrivateKey err)) := fun _ _ => signRecord_error h
  constructor
  · exact fun algo record => ne_of_eq_of_ne (herror algo record) (Option.some_ne_none _)
  · intro algo algo' record record' sig sig' hsig
    exact nomatch (herror algo record).symm.trans hsig

theorem reachable_key (h : decodeHex text = (key, none)) : Reachable sys text ↔
    32 ≤ key.length ∨ 32 ≤ key.length + (sys.spare text).length ∧
      ((sys.spare text).length < 64 ∨ ∀ record record',
        shortHash sys (key ++ (sys.sum512 record).take (32 - key.length)) =
          shortHash sys (key ++ (sys.sum512 record').take (32 - key.length))) := by
  constructor
  · exact fun hreach => hreach key h
  · intro hreach key' hkey
    cases h.symm.trans hkey
    exact hreach

theorem steady_iff : Steady sys text ↔ Reachable sys text := by
  rcases hdecode : decodeHex text with ⟨key, _ | err⟩
  · rw [steady_key hdecode, reachable_key hdecode]
    by_cases hlong : 32 ≤ key.length
    · refine iff_of_true ⟨by omega, fun record record' => ?_⟩ (.inl hlong)
      rw [front_long hlong, front_long hlong]
    rw [or_iff_right hlong]
    refine and_congr_right fun _ => ?_
    by_cases hmoved : (sys.spare text).length < 64
    · refine iff_of_true (fun record record' => ?_) (.inl hmoved)
      rw [front_moved hmoved, front_moved hmoved]
    · have hfront : ∀ record, front sys record (Slice.before key (sys.spare text)) =
          key ++ (sys.sum512 record).take (32 - key.length) :=
        fun _ => front_room (Nat.lt_of_not_le hlong) (Nat.le_of_not_lt hmoved)
      rw [or_iff_right hmoved]
      refine forall_congr' fun record => forall_congr' fun record' => ?_
      rw [hfront, hfront]
  · exact iff_of_true (steady_error hdecode) fun key' hkey => nomatch hdecode.symm.trans hkey

end Identifiers

/-- When the names of keys can be relied on. -/
theorem names_iff (sys : System) (svc : PQCService) (algo text : Bytes) (hsmSeed : Bool) :
    (Identified sys svc algo hsmSeed ↔ Alike sys svc algo hsmSeed) ∧
      (Steady sys text ↔ Reachable sys text) :=
  ⟨identified_iff, steady_iff⟩

section Samples

def digest (left right : String) : Bytes := (decodeHex (ascii left ++ ascii right)).1.takeD 64 0

/-- The hashes that a key pair from 64 zeros needs, by the lengths of what is hashed. -/
def sampleHash : Nat → Bytes
  | 81 => digest "cf33fad1bcca551d6f971145b1e86681dc1e73fed442b9915af3782069b1f6d1"
      "62611569524fc61a947983015521f452bf30cde96e3f03e5d6d608c1583177f6"
  | 162 => digest "ffe82f298477f010ba06045050936e4c2c48e602a9c4e028b6ef3c4e65b6bd5e"
      "4c38b1b3510c532ad73f3d4a161196526e8e121f6e9827f96df3aec2370b3b7d"
  | 243 => digest "16bcb9afd5c930bdcfb0666db34cb1a57db0b98909d24b757e7718f5ade93901"
      "8f31771a8723203d7690fdcee5cdf65deeb70bf1b42e11cb8d10f546527d114b"
  | 324 => digest "7decb12e39093643992cc714c0c276a1ab2ea9025b2d248826956a225562d7d6"
      "1effb3bd6d27862eb9c38d342e3d7472f3ed5795b11fb4d4a166a6410811b2b4"
  | 128 => digest "55419fbc64c2a317c500faf9334e332a63902e59f13a2321c5fd00412d99c150"
      "155170ed041c6f057ba0541ec1244593b35c0e8b755ae42e33bc24c7c6159584"
  | 32 => digest "c3c0158fb3015747382c847c78e0217c4df263402cf3224089a1f197ab032dc6"
      "980ff01efb354d462b470bc4eeb2a7c498cb0cad3a75656cbb4bcd1fd4fb5c36"
  | _ => digest "cf83e1357eefb8bdf1542850d66d8007d620e4050b5715dc83f4a921d36ce9ce"
      "47d0d13c5d85f2b0ff8318d2877eec2f63b931bd47417a81a538327af927da3e"

theorem length_sampleHash (n : Nat) : (sampleHash n).length = 64 := by
  unfold sampleHash
  split <;> exact List.takeD_length _ _ _

/-- A random source of zeros. -/
def sample : System where
  sum512 m := sampleHash m.length
  length_sum512 m := length_sampleHash m.length
  rand n := .ok ⟨List.replicate n 0, List.length_replicate⟩
  now := 0
  spare _ := []

theorem shortHash_sample {m : Bytes} {n : Nat} (h : m.length = n) :
    shortHash sample m = (sampleHash n).take 8 := by
  subst h
  rfl

/-- A seed that does not come from the HSM is said to come from it. -/
theorem fallback_said_backed :
    ¬ Sourced sample ⟨some awsHSMClient⟩ (ascii "ML-DSA-65") true := by
  rw [sourced_iff_seed]
  intro h
  have hseed : seedEntropy sample ⟨some awsHSMClient⟩ true = .ok (List.replicate 64 0) := rfl
  obtain ⟨-, -, hbacked⟩ := h _ hseed
  obtain ⟨-, client, op, bytes, hclient, hanswer, -⟩ := hbacked.mp rfl
  obtain rfl := Option.some.inj hclient
  exact nomatch hanswer

/-- A signature has another name than its key pair, and a short key faults. -/
theorem short_key_faults : ¬ Identified sample ⟨none⟩ (ascii "ML-DSA-65") false ∧
    ¬ Steady sample (ascii "00") := by
  constructor
  · rw [identified_iff]
    intro h
    have halike := h (List.replicate 64 0) rfl
    have hpublic : (publicKey sample (ascii "ML-DSA-65") (List.replicate 64 0)).length = 128 := by
      rw [publicKey, List.length_take, keyMaterial, length_blocks]
      rfl
    have hprivate : ((privateKey sample (ascii "ML-DSA-65") (List.replicate 64 0)).take
        32).length = 32 := by
      rw [List.length_take, length_privateKey]
      rfl
    rw [shortHash_sample hpublic, shortHash_sample hprivate] at halike
    exact absurd halike (by decide)
  · rw [steady_iff]
    intro h
    obtain hlong | ⟨hcap, -⟩ := h [0] rfl
    · exact absurd hlong (by decide)
    · exact absurd hcap (by decide)

end Samples

end RivicQ.Properties.KeyPairs
