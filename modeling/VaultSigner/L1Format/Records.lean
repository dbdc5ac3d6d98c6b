import VaultSigner.Core.HashMap
import VaultSigner.L1Format.Bytes

/-!
# Records and errors (`manifest.rs`, `kdf.rs`, `keyblob.rs`, `container.rs`, `error.rs`)

The data a vault file holds. A record that carries KDF parameters is generic
in the type of the salt: `[u8; 16]` in memory, a hex string in JSON (the
`hex_salt` codec of `kdf.rs` goes between the two, see `Kdf.lean`).
-/
namespace VaultSigner.L1
open VaultSigner.Core

/-- mirrors vaultcore/src/error.rs:10-49 (`VaultError`). The cases that wrap a
foreign error keep the text it displays. -/
inductive VaultError where
  | io (msg : String)
  | archive (msg : String)
  | serde (msg : String)
  | kdf (msg : String)
  | encryptFailed
  | decryptFailed
  | integrityCheckFailed
  | unsupportedKeyType (name : String)
  | invalidManifest (msg : String)
  | keyGen (msg : String)
  | invalidHeader (msg : String)
  | lockedOut
  | keyNotFound (name : String)
deriving DecidableEq

/-- `VaultError`'s `Display`. -/
def VaultError.display : VaultError → String
  | .io m => s!"I/O error: {m}"
  | .archive m => s!"archive error: {m}"
  | .serde m => s!"serialization error: {m}"
  | .kdf m => s!"KDF error: {m}"
  | .encryptFailed => "AEAD encryption failed"
  | .decryptFailed => "AEAD decryption failed (wrong key or tampered ciphertext)"
  | .integrityCheckFailed => "blob integrity check failed (sha256 mismatch)"
  | .unsupportedKeyType t => s!"unsupported key_type: {t} (v1 accepts only ed25519, ecdsa-p256)"
  | .invalidManifest m => s!"manifest validation error: {m}"
  | .keyGen m => s!"key generation error: {m}"
  | .invalidHeader m => s!"container header error: {m}"
  | .lockedOut => "secret is locked out; retry after backoff elapses"
  | .keyNotFound k => s!"key not found: {k}"

/-- `vaultcore::Result`. -/
abbrev VaultResult := Except VaultError

/-! ## `kdf.rs` -/

abbrev Salt := Vector UInt8 16

/-- The derived key, `[u8; DERIVED_KEY_LEN]`. -/
abbrev Key := Vector UInt8 32

/-- mirrors vaultcore/src/kdf.rs:52-58 (`KdfParams`) -/
structure KdfParamsOf (σ : Type) where
  memoryKib : UInt32
  iterations : UInt32
  parallelism : UInt32
  salt : σ
deriving DecidableEq

abbrev KdfParams := KdfParamsOf Salt

/-! ## `manifest.rs` -/

/-- mirrors vaultcore/src/manifest.rs:19-22 (`KeyType`) -/
inductive KeyType where
  | ed25519
  | ecdsaP256
deriving DecidableEq

/-- mirrors vaultcore/src/manifest.rs:26-30 (`Purpose`) -/
inductive Purpose where
  | fido2
  | customSigning
  | both
deriving DecidableEq

/-- mirrors vaultcore/src/manifest.rs:33-35 -/
def Purpose.includesFido2 : Purpose → Bool
  | .fido2 | .both => true
  | .customSigning => false

/-- The derived `Debug` text. -/
def Purpose.debug : Purpose → String
  | .fido2 => "Fido2"
  | .customSigning => "CustomSigning"
  | .both => "Both"

/-- The derived `Debug` text. -/
def KeyType.debug : KeyType → String
  | .ed25519 => "Ed25519"
  | .ecdsaP256 => "EcdsaP256"

/-- `time::OffsetDateTime`, as nanoseconds from the Unix epoch: Rust compares
two of them as instants. -/
abbrev OffsetDateTime := Int

/-- mirrors vaultcore/src/manifest.rs:39-47 (`Fido2Info`) -/
structure Fido2Info where
  rpId : String
  credentialIdB64 : String
  userHandleB64 : String
  signCount : UInt32
  discoverable : Bool
deriving DecidableEq

/-- mirrors vaultcore/src/manifest.rs:50-81 (`KeyEntry`) -/
structure KeyEntry where
  keyId : Uuid
  label : String
  description : String
  resource : String
  keyType : KeyType
  purpose : Purpose
  fido2 : Option Fido2Info
  createdAt : OffsetDateTime
  lastUsedAt : Option OffsetDateTime
  tags : List String
  blobFile : String
  blobSha256 : String
  publicKeyHex : String
deriving DecidableEq

/-- mirrors vaultcore/src/manifest.rs:111-118 (`Manifest`) -/
structure Manifest where
  manifestVersion : UInt32
  vaultId : Uuid
  createdAt : OffsetDateTime
  keys : List KeyEntry
deriving DecidableEq

/-- The `key_id`s in manifest order. -/
def Manifest.keyIds (m : Manifest) : List Uuid := m.keys.map KeyEntry.keyId

/-! ## `keyblob.rs`, `master_blob.rs`, `container.rs` -/

/-- mirrors vaultcore/src/keyblob.rs:48-53 (`KeyBlob`) -/
structure KeyBlobOf (σ : Type) where
  kdfParams : KdfParamsOf σ
  aeadAlg : String
  ciphertext : Bytes
deriving DecidableEq

abbrev KeyBlob := KeyBlobOf Salt

/-- mirrors vaultcore/src/master_blob.rs:34-37 (`MasterBlobPlaintext`) -/
structure MasterBlobPlaintext where
  manifest : Manifest
  keyIndex : List Uuid
deriving DecidableEq

/-- mirrors vaultcore/src/container.rs:44-48 (`CompartmentHeader`) -/
structure CompartmentHeaderOf (σ : Type) where
  compartmentId : Uuid
  label : String
  kdfParamsMaster : KdfParamsOf σ
deriving DecidableEq

abbrev CompartmentHeader := CompartmentHeaderOf Salt

/-- mirrors vaultcore/src/container.rs:52-56 (`ContainerHeader`) -/
structure ContainerHeaderOf (σ : Type) where
  formatVersion : UInt32
  aeadAlg : String
  compartments : List (CompartmentHeaderOf σ)
deriving DecidableEq

abbrev ContainerHeader := ContainerHeaderOf Salt

/-- mirrors vaultcore/src/container.rs:79-86 (`Container`) -/
structure Container where
  header : ContainerHeader
  masterBlobs : HashMap Uuid Bytes
  keyBlobs : HashMap Uuid Bytes

end VaultSigner.L1
