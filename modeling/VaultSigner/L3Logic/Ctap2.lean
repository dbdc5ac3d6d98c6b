import VaultSigner.Core.Region
import VaultSigner.L1Format.Kdf

/-!
# Keys and CTAP2 requests (`keys.rs`, `ctap2.rs`)

The handlers are generic in their backend: a record of programs that read
the credentials and sign. What a handler computes between two backend calls
is a function of its own (`prepareAssertion`, `finishAssertion`,
`registrationChecks`, `buildCredential`), in the source's order of checks.

`GetAssertionOutcome.response` is a ghost field: the response before its CBOR
encoding, from which `responseCbor` is built.

Results:
* `prepareAssertion_ok`, `finishAssertion_ok`: what a successful assertion
  was computed from.
-/
namespace VaultSigner.L3
open VaultSigner.Core VaultSigner.L1

/-! ## `keys.rs` -/

/-- mirrors vaultcore/src/keys.rs:34-38 (`GeneratedKeyPair`) -/
structure GeneratedKeyPair where
  keyType : KeyType
  privateKey : Bytes
  publicKey : Bytes

/-- mirrors vaultcore/src/keys.rs:40-64 (`generate`); `seed` is the OS call's
result, `scalar` what `P256SigningKey::generate` draws -/
def generate (C : Crates) (seed : Except String (Vector UInt8 32)) (scalar : Vector UInt8 32) :
    KeyType → VaultResult GeneratedKeyPair
  | .ed25519 => do
    let seed ← mapErr .keyGen seed
    return ⟨.ed25519, seed.toList, (C.ed25519PublicKey seed).toList⟩
  | .ecdsaP256 => .ok ⟨.ecdsaP256, scalar.toList, C.p256PublicKey scalar⟩

/-- mirrors vaultcore/src/keys.rs:70-86 (`sign`) -/
def keysSign (C : Crates) (keyType : KeyType) (privateKey message : Bytes) : VaultResult Bytes :=
  match keyType with
  | .ed25519 =>
    if h : privateKey.length = 32 then .ok (C.ed25519Sign ⟨privateKey.toArray, h⟩ message)
    else .error (.keyGen "ed25519 private key must be 32 bytes")
  | .ecdsaP256 =>
    match C.p256Sign privateKey message with
    | .ok signature => .ok signature
    | .error e => .error (.keyGen s!"invalid p256 private key: {e}")

/-! ## `ctap2.rs` -/

/-- The status codes of `ctap_types::ctap2::Error` the handlers return. -/
inductive Ctap2Error where
  | credentialExcluded
  | unsupportedAlgorithm
  | noCredentials
  | operationDenied
  | other
deriving DecidableEq

/-- The derived `Debug` text. -/
def Ctap2Error.debug : Ctap2Error → String
  | .credentialExcluded => "CredentialExcluded"
  | .unsupportedAlgorithm => "UnsupportedAlgorithm"
  | .noCredentials => "NoCredentials"
  | .operationDenied => "OperationDenied"
  | .other => "Other"

/-- mirrors vaultcore/src/ctap2.rs:62-68 (`CredentialCandidate`) -/
structure CredentialCandidate where
  keyId : Uuid
  credentialId : Bytes
  userHandle : Bytes
  discoverable : Bool
  signCount : UInt32

/-- mirrors vaultcore/src/ctap2.rs:73-82 (`Ctap2Backend`) -/
structure Ctap2Backend (E S : Type) where
  credentialsForRp : String → Prog E S Ctap2Error (List CredentialCandidate)
  sign : Uuid → Bytes → Prog E S Ctap2Error (Option Bytes)

/-- mirrors vaultcore/src/ctap2.rs:84-96 (`MakeCredentialOutcome`) -/
structure MakeCredentialOutcome where
  responseCbor : Bytes
  generatedKey : GeneratedKeyPair
  credentialId : Bytes
  rpId : String
  userHandle : Bytes
  discoverable : Bool

/-- mirrors vaultcore/src/ctap2.rs:239-245 (`GetAssertionOutcome`) -/
structure GetAssertionOutcome where
  responseCbor : Bytes
  keyId : Uuid
  newSignCount : UInt32
  /-- ghost: the response that `responseCbor` encodes -/
  response : GetAssertionResponse

def es256 : Int := -7
def edDsa : Int := -8

/-- mirrors vaultcore/src/ctap2.rs:98-104 -/
def keyTypeForAlg (alg : Int) : Option KeyType :=
  if alg = es256 then some .ecdsaP256 else if alg = edDsa then some .ed25519 else none

def userPresenceFlag : UInt8 := 0x01
def userVerifiedFlag : UInt8 := 0x04
def attestedCredentialDataFlag : UInt8 := 0x40

def aaguid : Vector UInt8 16 := Vector.replicate 16 0

section
variable (C : Crates)

/-- mirrors vaultcore/src/ctap2.rs:106-108 -/
def rpIdHash (rpId : String) : Bytes := (C.sha256 (utf8 rpId)).toList

/-- mirrors vaultcore/src/ctap2.rs:113-133 -/
def coseKeyBytes (keyType : KeyType) (publicKey : Bytes) : Except Ctap2Error Bytes :=
  let fits (b : Bytes) : Bool := b.length ≤ C.coseCoordinateLen
  let encode (k : CosePublicKey) : Except Ctap2Error Bytes :=
    match C.coseKey k with
    | none => .error .other
    | some b => .ok b
  match keyType with
  | .ed25519 => if fits publicKey then encode (.ed25519 publicKey) else .error .other
  | .ecdsaP256 =>
    if publicKey.length ≠ 65 ∨ publicKey.head? ≠ some 0x04 then .error .other
    else
      let x := (publicKey.drop 1).take 32
      let y := (publicKey.drop 33).take 32
      if fits x && fits y then encode (.p256 x y) else .error .other

/-- mirrors vaultcore/src/ctap2.rs:142-149: the status byte and the payload -/
def successResponseBytes (payload : Option Bytes) : Except Ctap2Error Bytes :=
  match payload with
  | none => .error .other
  | some p => .ok (0x00 :: p)

def flagsOf (base : UInt8) (userPresent userVerified : Bool) : UInt8 :=
  let f := if userPresent then base ||| userPresenceFlag else base
  if userVerified then f ||| userVerifiedFlag else f

def uvRequested (options : Option CtapOptions) : Bool := (options.bind CtapOptions.uv).getD false

/-! ### `authenticatorMakeCredential` -/

/-- The checks before anything is generated.
mirrors vaultcore/src/ctap2.rs:165-189 -/
def registrationChecks (request : MakeCredentialRequest) (userPresent userVerified : Bool)
    (existing : List CredentialCandidate) : Except Ctap2Error KeyType :=
  if (request.excludeList.getD []).any fun excluded =>
      existing.any fun c => c.credentialId = excluded then
    .error .credentialExcluded
  else if !userPresent then .error .operationDenied
  else if uvRequested request.options && !userVerified then .error .operationDenied
  else match request.pubKeyCredParams.head? with
  | none => .error .unsupportedAlgorithm
  | some alg =>
    match keyTypeForAlg alg with
    | none => .error .unsupportedAlgorithm
    | some keyType => .ok keyType

/-- What the handler draws from the operating system. -/
structure Drawn where
  seed : Except String (Vector UInt8 32)
  scalar : Vector UInt8 32
  credentialId : Uuid

/-- The generated key and the response around it.
mirrors vaultcore/src/ctap2.rs:191-237 -/
def buildCredential (request : MakeCredentialRequest) (userPresent userVerified : Bool)
    (keyType : KeyType) (drawn : Drawn) : Except Ctap2Error MakeCredentialOutcome :=
  match generate C drawn.seed drawn.scalar keyType with
  | .error _ => .error .other
  | .ok generated => do
    let credentialIdBytes := drawn.credentialId.asBytes
    let coseKey ← coseKeyBytes C keyType generated.publicKey
    let discoverable := (request.options.bind CtapOptions.rk).getD false
    let flags := flagsOf attestedCredentialDataFlag userPresent userVerified
    match C.authData ⟨rpIdHash C request.rpId, flags, 0,
        some ⟨aaguid, credentialIdBytes, coseKey⟩⟩ with
    | none => .error .other
    | some authData =>
      let responseCbor ← successResponseBytes (C.makeCredentialCbor authData)
      return ⟨responseCbor, generated, credentialIdBytes, request.rpId, request.userId,
        discoverable⟩

/-- mirrors vaultcore/src/ctap2.rs:158-237 (`handle_make_credential`) -/
def handleMakeCredential {E S : Type} (backend : Ctap2Backend E S)
    (draw : Prog E S Ctap2Error Drawn) (request : MakeCredentialRequest)
    (userPresent userVerified : Bool) : Prog E S Ctap2Error MakeCredentialOutcome := do
  let existing ← backend.credentialsForRp request.rpId
  let keyType ← Prog.ofExcept (registrationChecks request userPresent userVerified existing)
  let drawn ← draw
  Prog.ofExcept (buildCredential C request userPresent userVerified keyType drawn)

/-! ### `authenticatorGetAssertion` -/

/-- The first candidate that the request admits.
mirrors vaultcore/src/ctap2.rs:261-269 -/
def chooseCandidate (request : GetAssertionRequest) (candidates : List CredentialCandidate) :
    Option CredentialCandidate :=
  match request.allowList with
  | some allowList => (candidates.filter fun c => allowList.any fun a => a = c.credentialId).head?
  | none => (candidates.filter fun c => c.discoverable).head?

/-- From the candidates to the authenticator data to be signed.
mirrors vaultcore/src/ctap2.rs:261-301 -/
def prepareAssertion (request : GetAssertionRequest) (userPresent userVerified : Bool)
    (candidates : List CredentialCandidate) : Except Ctap2Error (CredentialCandidate × Bytes) :=
  match chooseCandidate request candidates with
  | none => .error .noCredentials
  | some chosen =>
    if !userPresent then .error .operationDenied
    else if uvRequested request.options && !userVerified then .error .operationDenied
    else match C.authData ⟨rpIdHash C request.rpId, flagsOf 0 userPresent userVerified,
        chosen.signCount + 1, none⟩ with
    | none => .error .other
    | some authData => .ok (chosen, authData)

/-- The user info of a discoverable-credential response. -/
def responseUser (request : GetAssertionRequest) (chosen : CredentialCandidate) : Option Bytes :=
  if request.allowList.isNone then some chosen.userHandle else none

/-- From the signature to the response.
mirrors vaultcore/src/ctap2.rs:302-333 -/
def finishAssertion (request : GetAssertionRequest) (chosen : CredentialCandidate)
    (authData : Bytes) : Option Bytes → Except Ctap2Error GetAssertionOutcome
  | none => .error .operationDenied
  | some signature =>
    if chosen.credentialId.length > C.maxCredentialIdLen then .error .other
    else if signature.length > C.maxSignatureLen then .error .other
    else if request.allowList.isNone && chosen.userHandle.length > C.maxUserIdLen then .error .other
    else do
      let response : GetAssertionResponse :=
        ⟨chosen.credentialId, authData, signature, responseUser request chosen⟩
      let responseCbor ← successResponseBytes (C.getAssertionCbor response)
      return ⟨responseCbor, chosen.keyId, chosen.signCount + 1, response⟩

/-- mirrors vaultcore/src/ctap2.rs:252-334 (`handle_get_assertion`) -/
def handleGetAssertion {E S : Type} (backend : Ctap2Backend E S) (request : GetAssertionRequest)
    (userPresent userVerified : Bool) : Prog E S Ctap2Error GetAssertionOutcome := do
  let candidates ← backend.credentialsForRp request.rpId
  let (chosen, authData) ←
    Prog.ofExcept (prepareAssertion C request userPresent userVerified candidates)
  let signature ← backend.sign chosen.keyId (authData ++ request.clientDataHash)
  Prog.ofExcept (finishAssertion C request chosen authData signature)

end

theorem chooseCandidate_mem {request : GetAssertionRequest} {cands : List CredentialCandidate}
    {c : CredentialCandidate} (h : chooseCandidate request cands = some c) : c ∈ cands := by
  unfold chooseCandidate at h
  split at h
  · exact (List.mem_filter.1 (List.mem_of_head? h)).1
  · exact (List.mem_filter.1 (List.mem_of_head? h)).1

theorem prepareAssertion_ok {C : Crates} {request : GetAssertionRequest} {up uv : Bool}
    {cands : List CredentialCandidate} {c : CredentialCandidate} {d : Bytes}
    (h : prepareAssertion C request up uv cands = .ok (c, d)) :
    chooseCandidate request cands = some c ∧
      C.authData ⟨rpIdHash C request.rpId, flagsOf 0 up uv, c.signCount + 1, none⟩ = some d := by
  unfold prepareAssertion at h
  split at h
  · cases h
  · rename_i c' hc
    split at h
    · cases h
    · split at h
      · cases h
      · split at h
        · cases h
        · rename_i hd
          cases h
          exact ⟨hc, hd⟩

theorem finishAssertion_ok {C : Crates} {request : GetAssertionRequest} {c : CredentialCandidate}
    {d : Bytes} {sig : Option Bytes} {o : GetAssertionOutcome}
    (h : finishAssertion C request c d sig = .ok o) :
    o.keyId = c.keyId ∧ o.newSignCount = c.signCount + 1 ∧
      o.response.credentialId = c.credentialId ∧ o.response.authData = d ∧
      sig = some o.response.signature := by
  cases sig with
  | none => cases h
  | some b =>
    unfold finishAssertion at h
    simp only at h
    split at h
    · cases h
    · split at h
      · cases h
      · split at h
        · cases h
        · simp only [bind_ok, pure, Except.pure, Except.ok.injEq] at h
          obtain ⟨r, -, rfl⟩ := h
          exact ⟨rfl, rfl, rfl, rfl, rfl⟩

/-- The count to be written back is the one in the signed authenticator data. -/
theorem handleGetAssertion_carries {E S : Type} (C : Crates) (backend : Ctap2Backend E S)
    (request : GetAssertionRequest) (up uv : Bool) :
    (handleGetAssertion C backend request up uv).Yields fun r => ∀ o, r = .ok o →
      C.authData ⟨rpIdHash C request.rpId, flagsOf 0 up uv, o.newSignCount, none⟩ =
        some o.response.authData := by
  have herror : ∀ x : Ctap2Error, ∀ o : GetAssertionOutcome, (Except.error x = Except.ok o) →
      C.authData ⟨rpIdHash C request.rpId, flagsOf 0 up uv, o.newSignCount, none⟩ =
        some o.response.authData := by
    intro x o h
    cases h
  unfold handleGetAssertion
  refine Prog.Yields.bind herror (fun cands => ?_) _
  cases hp : prepareAssertion C request up uv cands with
  | error x => exact herror x
  | ok p =>
    obtain ⟨c, d⟩ := p
    have hfinish : ∀ sig o, finishAssertion C request c d sig = .ok o →
        C.authData ⟨rpIdHash C request.rpId, flagsOf 0 up uv, o.newSignCount, none⟩ =
          some o.response.authData := by
      intro sig o ho
      obtain ⟨-, hn, -, hd, -⟩ := finishAssertion_ok ho
      rw [hn, hd]
      exact (prepareAssertion_ok hp).2
    show Prog.Yields _ ((backend.sign c.keyId (d ++ request.clientDataHash)).bind fun sig =>
      Prog.ofExcept (finishAssertion C request c d sig))
    exact Prog.Yields.bind herror hfinish _

end VaultSigner.L3
