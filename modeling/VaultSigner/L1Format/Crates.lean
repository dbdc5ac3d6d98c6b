import VaultSigner.L1Format.Records

/-!
# What the core calls from other crates

`vaultcore` leaves ciphers, key derivation, signatures, JSON, CBOR, zip,
base64 and the text form of a UUID to other crates. `Crates` has one function
for each such call, with the result type the call has there; everything else
in this development is a function of it. Nothing is assumed of these
functions except where a theorem names it: `Crates.CodecLaws` (what is written
reads back), `Crates.AeadLaws` (what was sealed opens again, under the same key
and associated data), or one of the idealisations of the cipher.

`Crates.AeadBinds` says that under one key a ciphertext opens with one
associated datum only; `Crates.AeadCommits` that it opens under one key only;
`Crates.AeadIdeal` says both. The tag of XChaCha20-Poly1305 keeps whoever lacks
the key from breaking the first, but with negligible probability. Key
commitment is an idealisation that XChaCha20-Poly1305 does not document.
-/
namespace VaultSigner.L1

/-- `chacha20poly1305::XNonce`. -/
abbrev Nonce := Vector UInt8 24

/-! ## Wire types of `serde_json` and `ctap-types` -/

/-- `serde_json::Value`. A number is kept as its text. -/
inductive Value where
  | null
  | bool (b : Bool)
  | number (text : String)
  | string (s : String)
  | array (items : List Value)
  | object (fields : List (String × Value))

/-- mirrors vaultcore/src/protocol.rs:73-78 (`RawRequest`) -/
structure RawRequest where
  method : String
  params : Value
  id : Value

/-- mirrors vaultcore/src/protocol.rs:81-86 (`SignParams`) -/
structure SignParams where
  keyId : String
  messageB64 : String
  algorithm : Option String

/-- The `rk` and `uv` members of a request's `options`. -/
structure CtapOptions where
  rk : Option Bool
  uv : Option Bool

/-- `make_credential::Request`, the fields the core reads. -/
structure MakeCredentialRequest where
  rpId : String
  userId : Bytes
  pubKeyCredParams : List Int
  excludeList : Option (List Bytes)
  options : Option CtapOptions

/-- `get_assertion::Request`, the fields the core reads. -/
structure GetAssertionRequest where
  rpId : String
  clientDataHash : Bytes
  allowList : Option (List Bytes)
  options : Option CtapOptions

/-- `ctap_types::ctap2::Request`. -/
inductive CtapRequest where
  | makeCredential (r : MakeCredentialRequest)
  | getAssertion (r : GetAssertionRequest)
  | other

/-- `cosey::PublicKey`. -/
inductive CosePublicKey where
  | ed25519 (x : Bytes)
  | p256 (x y : Bytes)

structure AttestedCredentialData where
  aaguid : Vector UInt8 16
  credentialId : Bytes
  credentialPublicKey : Bytes

structure AuthenticatorData where
  rpIdHash : Bytes
  flags : UInt8
  signCount : UInt32
  attestedCredentialData : Option AttestedCredentialData

structure GetAssertionResponse where
  credentialId : Bytes
  authData : Bytes
  signature : Bytes
  user : Option Bytes

/-! ## The calls -/

structure Crates where
  -- uuid, base64 (the STANDARD engine), time
  uuidToString : Uuid → String
  uuidParse : String → Except String Uuid
  base64Encode : Bytes → String
  base64Decode : String → Option Bytes
  rfc3339 : OffsetDateTime → Option String
  -- the text of `hex::FromHexError`
  hexError : String → String
  -- sha2, argon2, chacha20poly1305
  sha256 : Bytes → Vector UInt8 32
  argon2id : Bytes → KdfParams → Except String Key
  aeadEncrypt : Key → Nonce → Bytes → Bytes → Option Bytes
  aeadDecrypt : Key → Nonce → Bytes → Bytes → Option Bytes
  -- ed25519-dalek, p256
  ed25519PublicKey : Vector UInt8 32 → Vector UInt8 32
  ed25519Sign : Vector UInt8 32 → Bytes → Bytes
  p256PublicKey : Vector UInt8 32 → Bytes
  p256Sign : Bytes → Bytes → Except String Bytes
  -- serde_json; a failure is the text of `serde_json::Error`, and
  -- `serdeCustom` is that text for a message raised by a field's own decoder
  manifestToVecPretty : Manifest → Except String Bytes
  manifestFromSlice : Bytes → Except String Manifest
  plaintextToVec : MasterBlobPlaintext → Except String Bytes
  plaintextFromSlice : Bytes → Except String MasterBlobPlaintext
  keyBlobToVec : KeyBlobOf String → Except String Bytes
  keyBlobFromSlice : Bytes → Except String (KeyBlobOf String)
  headerToVecPretty : ContainerHeaderOf String → Except String Bytes
  headerFromSlice : Bytes → Except String (ContainerHeaderOf String)
  kdfParamsFromStr : String → Except String (KdfParamsOf String)
  serdeCustom : Bytes → String → String
  rawRequestFromSlice : Bytes → Except String RawRequest
  signParamsFromValue : Value → Except String SignParams
  valueToVec : Value → Bytes
  -- zip: an archive is its entries in order
  zipWrite : List (String × Bytes) → VaultResult Bytes
  zipRead : Bytes → VaultResult (List (String × Bytes))
  -- ctap-types, cosey, and the capacities of their fixed buffers
  ctapDeserialize : Bytes → Option CtapRequest
  coseKey : CosePublicKey → Option Bytes
  authData : AuthenticatorData → Option Bytes
  makeCredentialCbor : Bytes → Option Bytes
  getAssertionCbor : GetAssertionResponse → Option Bytes
  coseCoordinateLen : Nat
  maxCredentialIdLen : Nat
  maxSignatureLen : Nat
  maxUserIdLen : Nat

/-- What is written reads back. -/
structure Crates.CodecLaws (C : Crates) : Prop where
  uuid : ∀ u, C.uuidParse (C.uuidToString u) = .ok u
  base64 : ∀ b, C.base64Decode (C.base64Encode b) = some b
  manifest : ∀ m b, C.manifestToVecPretty m = .ok b → C.manifestFromSlice b = .ok m
  plaintext : ∀ p b, C.plaintextToVec p = .ok b → C.plaintextFromSlice b = .ok p
  keyBlob : ∀ k b, C.keyBlobToVec k = .ok b → C.keyBlobFromSlice b = .ok k
  header : ∀ h b, C.headerToVecPretty h = .ok b → C.headerFromSlice b = .ok h
  zip : ∀ es b, (es.map Prod.fst).Nodup → C.zipWrite es = .ok b → C.zipRead b = .ok es

/-- What was sealed opens again. -/
structure Crates.AeadLaws (C : Crates) : Prop where
  correct : ∀ k n a m c, C.aeadEncrypt k n a m = some c → C.aeadDecrypt k n a c = some m

/-- The idealised tag: under one key a ciphertext opens with one associated
datum only. -/
structure Crates.AeadBinds (C : Crates) : Prop where
  binds : ∀ k n a a' c m m', C.aeadDecrypt k n a c = some m →
    C.aeadDecrypt k n a' c = some m' → a' = a

/-- The idealised tag: a ciphertext opens under one key only. -/
structure Crates.AeadCommits (C : Crates) : Prop where
  commits : ∀ k k' n a c m m', C.aeadDecrypt k n a c = some m →
    C.aeadDecrypt k' n a c = some m' → k' = k

/-- The idealised cipher: a ciphertext opens under one key and one associated
datum only. -/
structure Crates.AeadIdeal (C : Crates) : Prop where
  opens : ∀ k k' n a a' c m m', C.aeadDecrypt k n a c = some m → C.aeadDecrypt k' n a' c = some m' →
    k' = k ∧ a' = a

theorem Crates.AeadIdeal.toCommits {C : Crates} (h : C.AeadIdeal) : C.AeadCommits :=
  ⟨fun k k' n a c m m' hd hd' => (h.opens k k' n a a c m m' hd hd').1⟩

theorem Crates.CodecLaws.uuidToString_inj {C : Crates} (h : C.CodecLaws) {u v : Uuid} :
    C.uuidToString u = C.uuidToString v ↔ u = v := by
  constructor
  · intro huv
    have hu := h.uuid u
    rw [huv, h.uuid v] at hu
    cases hu; rfl
  · rintro rfl; rfl

end VaultSigner.L1
