import VaultSigner.L3Logic.Ctap2
import VaultSigner.L3Logic.Merge
import VaultSigner.L3Logic.Protocol
import VaultSigner.L4Vault.State

/-!
# The facade's operations (`vault.rs`)

Every operation, region by region. An operation that changes the container
first prepares (`prepareCreateKey`, ...), reading the state and the outside
but changing neither, then edits the state, and last encrypts and writes
(`persistLocked`, `writeContainer`): the edit stands when a later step fails,
as `?` leaves it in the source.
-/
namespace VaultSigner.L4
open VaultSigner.Core VaultSigner.L1 VaultSigner.L2.Throttle VaultSigner.L3
open VaultSigner.L2

section
variable (C : Crates)

/-! ## Lookups and small helpers -/

/-- mirrors vaultcore/src/vault.rs:986-988 -/
def parseUuid (s : String) : FacadeResult Uuid :=
  match C.uuidParse s with
  | .ok u => .ok u
  | .error _ => .error (.failed "invalid UUID")

/-- mirrors vaultcore/src/vault.rs:990-996 -/
def unlockedCompartment (s : VaultState) (c : Uuid) : FacadeResult UnlockedCompartment :=
  match s.unlocked.get c with
  | some u => .ok u
  | none => .error (.failed "compartment is not unlocked")

/-- mirrors vaultcore/src/vault.rs:998-1000 -/
def findKey (m : Manifest) (keyId : Uuid) : FacadeResult KeyEntry :=
  match m.keys.find? fun k => k.keyId = keyId with
  | some k => .ok k
  | none => .error (.failed "no such key")

/-- mirrors vaultcore/src/vault.rs:1002-1009 -/
def findKeyAnywhere (o : Orders) (s : VaultState) (keyId : Uuid) : Option (KeyType × Uuid) :=
  (s.unlocked.iter o.unlocked).findSome? fun p =>
    (p.2.manifest.keys.find? fun k => k.keyId = keyId).map fun k => (k.keyType, p.1)

/-- mirrors vaultcore/src/vault.rs:1011-1013 -/
def findCompartmentForKey (o : Orders) (s : VaultState) (keyId : Uuid) : Option Uuid :=
  (findKeyAnywhere o s keyId).map Prod.snd

/-- `unlocked.get_mut(&c)` and an assignment to its manifest. -/
def VaultState.setUnlocked (s : VaultState) (c : Uuid) (u : UnlockedCompartment) : VaultState :=
  { s with unlocked := s.unlocked.put c u }

def VaultState.setMasterBlob (s : VaultState) (c : Uuid) (b : Bytes) : VaultState :=
  { s with container := { s.container with masterBlobs := s.container.masterBlobs.put c b } }

def VaultState.setKeyBlob (s : VaultState) (k : Uuid) (b : Bytes) : VaultState :=
  { s with container := { s.container with keyBlobs := s.container.keyBlobs.put k b } }

def VaultState.removeKeyBlob (s : VaultState) (k : Uuid) : VaultState :=
  { s with container := { s.container with keyBlobs := s.container.keyBlobs.del k } }

def VaultState.pushHeader (s : VaultState) (h : CompartmentHeader) : VaultState :=
  { s with container := { s.container with
      header :=
        { s.container.header with compartments := s.container.header.compartments ++ [h] } } }

/-- `iter_mut().find(..)` and an assignment to what it finds. -/
def modifyFirst {α : Type} (p : α → Bool) (f : α → α) : List α → List α
  | [] => []
  | a :: l => if p a then f a :: l else a :: modifyFirst p f l

/-- An operation's result in place of the unit a last step returns. -/
def returning {α : Type} (r : FacadeResult Unit × Vault) (a : α) : FacadeResult α × Vault :=
  (r.1.map fun _ => a, r.2)

/-! ## Writing -/

/-- mirrors vaultcore/src/container.rs:168-171 (`write_atomic`): the bytes the
file holds afterwards, or an error that leaves it as it was -/
def writeAtomic (e : In) (c : Container) : VaultResult Bytes := do
  let bytes ← c.toArchive C e.orders
  e.io
  return bytes

/-- `state.container.write_atomic(&self.path)?` -/
def writeContainer (e : In) (v : Vault) : FacadeResult Unit × Vault :=
  match writeAtomic C e v.state.container with
  | .error x => (.error (.fromVault x), v)
  | .ok bytes => (.ok (), { v with disk := some bytes })

/-- mirrors vaultcore/src/vault.rs:976-983 (`persist_locked`) -/
def persistLocked (e : In) (v : Vault) (c : Uuid) : FacadeResult Unit × Vault :=
  match unlockedCompartment v.state c with
  | .error x => (.error x, v)
  | .ok u =>
    match encryptWithKey C c u.manifest u.masterKey (e.nonce 1) with
    | .error x => (.error (.fromVault x), v)
    | .ok blob => writeContainer C e (v.setState (v.state.setMasterBlob c blob))

/-! ## Views -/

/-- mirrors vaultcore/src/vault.rs:170-174 (`CompartmentInfo`) -/
structure CompartmentInfo where
  compartmentId : String
  label : String
  unlocked : Bool

/-- mirrors vaultcore/src/vault.rs:202-215 (`KeyInfo`) -/
structure KeyInfo where
  keyId : String
  compartmentId : String
  label : String
  description : String
  resource : String
  keyType : KeyType
  purpose : Purpose
  fido2 : Option Fido2Info
  createdAt : String
  lastUsedAt : Option String
  tags : List String
  publicKeyHex : String

/-- mirrors vaultcore/src/vault.rs:217-237 (`key_info_view`) -/
def keyInfoView (c : Uuid) (k : KeyEntry) : KeyInfo where
  keyId := C.uuidToString k.keyId
  compartmentId := C.uuidToString c
  label := k.label
  description := k.description
  resource := k.resource
  keyType := k.keyType
  purpose := k.purpose
  fido2 := k.fido2
  createdAt := (C.rfc3339 k.createdAt).getD ""
  lastUsedAt := k.lastUsedAt.bind C.rfc3339
  tags := k.tags
  publicKeyHex := k.publicKeyHex

/-! ## Creating and opening -/

/-- mirrors vaultcore/src/vault.rs:339-370 (`create`); `disk` is the file
before the call -/
def create (e : In) (disk : Option Bytes) (compartmentLabel masterPassphrase : String)
    (profile : DeviceProfile) : FacadeResult Unit × Vault :=
  let c := e.uuid 0
  let manifest := Manifest.new (e.uuid 1) e.utc
  let prepared : FacadeResult (KdfParams × Key × Bytes) := do
    let kdfParams ← facade (benchmark C profile e.salt e.elapsed)
    let masterKey ← facade (derive C (utf8 masterPassphrase) kdfParams)
    let blob ← facade (encryptWithKey C c manifest masterKey (e.nonce 1))
    return (kdfParams, masterKey, blob)
  let empty : Vault := ⟨⟨Container.new, ∅⟩, ∅, ThrottleTracker.new, disk, e.now, []⟩
  match prepared with
  | .error x => (.error x, empty)
  | .ok (kdfParams, masterKey, blob) =>
    writeContainer C e (empty.setState (((empty.state.pushHeader
      ⟨c, compartmentLabel, kdfParams⟩).setMasterBlob c blob).setUnlocked c ⟨manifest, masterKey⟩))

/-- mirrors vaultcore/src/vault.rs:375-384 (`open`) on the file's content -/
def openVault (e : In) (bytes : Bytes) : FacadeResult Vault := do
  let container ← facade (Container.fromBytes C e.orders bytes)
  return ⟨⟨container, ∅⟩, ∅, ThrottleTracker.new, some bytes, e.now, []⟩

/-! ## Locking and unlocking compartments -/

def throttleCheck (secret : SecretId) : Op Unit :=
  region fun e v => (facade (v.throttle.check secret e.now), v)

/-- What the state mutex covers in `unlock_compartment`: the lookup, the
derivation, the decryption and the record of its outcome. -/
def unlockRegion (id : Uuid) (passphrase : String) (e : In) (v : Vault) :
    FacadeResult Unit × Vault :=
  let secret := SecretId.compartment C id
  match v.state.container.header.compartments.find? fun c => c.compartmentId = id with
  | none => (.error (.failed "no such compartment"), v)
  | some header =>
    match v.state.container.masterBlobs.get id with
    | none => (.error (.failed "compartment has no master blob"), v)
    | some blob =>
      match derive C (utf8 passphrase) header.kdfParamsMaster with
      | .error x => (.error (.fromVault x), v)
      | .ok masterKey =>
        match decryptWithKey C id blob masterKey with
        | .ok plaintext =>
          (.ok (), (v.setThrottle (v.throttle.recordSuccess secret)).setState
            (v.state.setUnlocked id ⟨plaintext.manifest, masterKey⟩))
        | .error _ =>
          (.error (.failed "incorrect master passphrase"),
            v.setThrottle (v.throttle.recordFailure secret e.now))

/-- mirrors vaultcore/src/vault.rs:414-447 (`unlock_compartment`) -/
def unlockCompartment (compartmentId passphrase : String) : Op Unit :=
  match parseUuid C compartmentId with
  | .error x => .fail x
  | .ok id => do
    throttleCheck (SecretId.compartment C id)
    region (unlockRegion C id passphrase)

/-- mirrors vaultcore/src/vault.rs:453-457 (`lock_compartment`) -/
def lockCompartment (compartmentId : String) : Op Unit :=
  match C.uuidParse compartmentId with
  | .error _ => pure ()
  | .ok id =>
    region fun _ v => (.ok (), v.setState { v.state with unlocked := v.state.unlocked.del id })

/-- mirrors vaultcore/src/vault.rs:462-465 (`lock_all`) -/
def lockAll : Op Unit := do
  region fun _ v => (.ok (), v.setState { v.state with unlocked := ∅ })
  region fun _ v => (.ok (), (v.setRetention (Retention.wipeAll v.retention)).log .lockedAll)

/-! ## Adding a compartment -/

/-- What `add_compartment` computes before it takes the mutex. -/
def prepareAddCompartment (e : In) (masterPassphrase : String) (profile : DeviceProfile) :
    FacadeResult (KdfParams × UnlockedCompartment × Bytes) := do
  let kdfParams ← facade (benchmark C profile e.salt e.elapsed)
  let manifest := Manifest.new (e.uuid 1) e.utc
  let masterKey ← facade (derive C (utf8 masterPassphrase) kdfParams)
  let blob ← facade (encryptWithKey C (e.uuid 0) manifest masterKey (e.nonce 1))
  return (kdfParams, ⟨manifest, masterKey⟩, blob)

/-- A new compartment's header, blob and unlocked manifest. -/
def VaultState.addCompartment (s : VaultState) (h : CompartmentHeader) (blob : Bytes)
    (u : UnlockedCompartment) : VaultState :=
  ((s.pushHeader h).setMasterBlob h.compartmentId blob).setUnlocked h.compartmentId u

def addCompartmentRegion (label masterPassphrase : String) (profile : DeviceProfile) (e : In)
    (v : Vault) : FacadeResult CompartmentInfo × Vault :=
  match prepareAddCompartment C e masterPassphrase profile with
  | .error x => (.error x, v)
  | .ok (kdfParams, u, blob) =>
    returning (writeContainer C e (v.setState
      (v.state.addCompartment ⟨e.uuid 0, label, kdfParams⟩ blob u)))
      ⟨C.uuidToString (e.uuid 0), label, true⟩

/-- mirrors vaultcore/src/vault.rs:470-493 (`add_compartment`) -/
def addCompartment (label masterPassphrase : String) (profile : DeviceProfile) :
    Op CompartmentInfo :=
  region (addCompartmentRegion C label masterPassphrase profile)

/-! ## Creating, discarding and re-sealing a key -/

structure CreateKeyArgs where
  compartmentId : String
  keyType : KeyType
  purpose : Purpose
  label : String
  description : String
  resource : String
  tags : List String
  keyPassphrase : String
  fido2RpId : Option String
  fido2UserHandleB64 : Option String

/-- `KdfParams::new` at the floor, `keyblob::seal` and `to_bytes`. -/
def sealKey (e : In) (passphrase : String) (privateKey : Bytes) (keyId : Uuid) (keyType : KeyType)
    (label : String) : FacadeResult Bytes := do
  let kdfParams ← facade
    (KdfParamsOf.new floorMemoryKib floorIterations floorParallelism (e.salt 0))
  let blob ← facade
    (keyblobSeal C (utf8 passphrase) privateKey keyId keyType label kdfParams (e.nonce 0))
  facade (blob.toBytes C)

/-- The `fido2` block of a created key. -/
def createFido2 (e : In) (a : CreateKeyArgs) : FacadeResult (Option Fido2Info) :=
  if a.purpose.includesFido2 then
    match a.fido2RpId with
    | none => .error (.failed "fido2 purpose requires fido2_rp_id")
    | some rpId =>
      match a.fido2UserHandleB64 with
      | none => .error (.failed "fido2 purpose requires fido2_user_handle_b64")
      | some userHandleB64 =>
        .ok (some ⟨rpId, C.base64Encode (e.uuid 0).asBytes, userHandleB64, 0, true⟩)
  else if a.fido2RpId.isSome || a.fido2UserHandleB64.isSome then
    .error (.failed "fido2 fields supplied for a non-fido2 purpose")
  else .ok none

/-- What `create_key` computes before it takes the mutex. -/
def prepareCreateKey (e : In) (a : CreateKeyArgs) : FacadeResult (Uuid × KeyEntry × Bytes) := do
  let c ← parseUuid C a.compartmentId
  let fido2 ← createFido2 C e a
  let generated ← facade (generate C e.seed e.scalar a.keyType)
  let keyId := e.uuid 1
  let blobBytes ← sealKey C e a.keyPassphrase generated.privateKey keyId a.keyType a.label
  return (c, {
    keyId := keyId
    label := a.label
    description := a.description
    resource := a.resource
    keyType := a.keyType
    purpose := a.purpose
    fido2 := fido2
    createdAt := e.utc
    lastUsedAt := none
    tags := a.tags
    blobFile := keyBlobEntryName C keyId
    blobSha256 := blobSha256Hex C blobBytes
    publicKeyHex := hexEncode generated.publicKey }, blobBytes)

/-- The manifest with one more entry. -/
def UnlockedCompartment.push (u : UnlockedCompartment) (k : KeyEntry) : UnlockedCompartment :=
  { u with manifest := { u.manifest with keys := u.manifest.keys ++ [k] } }

/-- The locked section `create_key` and `handle_fido2_make_credential` share:
push the entry, validate, insert the blob, persist.
mirrors vaultcore/src/vault.rs:567-574, 792-799 -/
def storeKey (e : In) (v : Vault) (c : Uuid) (k : KeyEntry) (blobBytes : Bytes) :
    FacadeResult Unit × Vault :=
  match unlockedCompartment v.state c with
  | .error x => (.error x, v)
  | .ok u =>
    match (u.push k).manifest.validate C with
    | .error x => (.error (.fromVault x), v.setState (v.state.setUnlocked c (u.push k)))
    | .ok () =>
      persistLocked C e
        (v.setState ((v.state.setUnlocked c (u.push k)).setKeyBlob k.keyId blobBytes)) c

def createKeyRegion (a : CreateKeyArgs) (e : In) (v : Vault) : FacadeResult KeyInfo × Vault :=
  match prepareCreateKey C e a with
  | .error x => (.error x, v)
  | .ok (c, k, blobBytes) => returning (storeKey C e v c k blobBytes) (keyInfoView C c k)

/-- mirrors vaultcore/src/vault.rs:513-577 (`create_key`) -/
def createKey (a : CreateKeyArgs) : Op KeyInfo := region (createKeyRegion C a)

/-- The checks of `discard_key`. -/
def prepareDiscardKey (s : VaultState) (c keyId : Uuid) (confirmText : String) :
    FacadeResult UnlockedCompartment :=
  match unlockedCompartment s c with
  | .error x => .error x
  | .ok u =>
    match findKey u.manifest keyId with
    | .error x => .error x
    | .ok k =>
      if confirmText ≠ k.label ∧ confirmText ≠ k.resource then
        .error (.failed "confirmation text does not match the key's label or resource")
      else .ok u

/-- The manifest without a key (`retain`). -/
def UnlockedCompartment.remove (u : UnlockedCompartment) (keyId : Uuid) : UnlockedCompartment :=
  { u with manifest := { u.manifest with
      keys := u.manifest.keys.filter fun k => k.keyId ≠ keyId } }

/-- A successful discard is recorded where it takes effect. -/
def discardRegion (c keyId : Uuid) (confirmText : String) (e : In) (v : Vault) :
    FacadeResult Unit × Vault :=
  match prepareDiscardKey v.state c keyId confirmText with
  | .error x => (.error x, v)
  | .ok u =>
    match persistLocked C e
        (v.setState ((v.state.setUnlocked c (u.remove keyId)).removeKeyBlob keyId)) c with
    | (.error x, v) => (.error x, v)
    | (.ok (), v) => (.ok (), v.log (.discarded keyId))

/-- mirrors vaultcore/src/vault.rs:583-602 (`discard_key`) -/
def discardKey (compartmentId keyId confirmText : String) : Op Unit :=
  match parseUuid C compartmentId with
  | .error x => .fail x
  | .ok c =>
    match parseUuid C keyId with
    | .error x => .fail x
    | .ok k => do
      region (discardRegion C c k confirmText)
      region fun _ v => (.ok (), v.setRetention (Retention.wipe v.retention k))

/-- The key's type, label and blob bytes, as `change_key_passphrase` and
`decrypt_key` look them up. -/
def lookupBlob (s : VaultState) (c keyId : Uuid) : FacadeResult (KeyType × String × Bytes) :=
  match unlockedCompartment s c with
  | .error x => .error x
  | .ok u =>
    match findKey u.manifest keyId with
    | .error x => .error x
    | .ok k =>
      match s.container.keyBlobs.get keyId with
      | none => .error (.failed "no such key blob")
      | some b => .ok (k.keyType, k.label, b)

/-- The new digest in the key's entry (`iter_mut().find(..).unwrap()`). -/
def UnlockedCompartment.setDigest (u : UnlockedCompartment) (keyId : Uuid) (digest : String) :
    UnlockedCompartment :=
  { u with manifest := { u.manifest with
      keys := modifyFirst (fun k => k.keyId = keyId) (fun k => { k with blobSha256 := digest })
        u.manifest.keys } }

/-- From the opened private key to the end of `change_key_passphrase`. -/
def resealRegion (c keyId : Uuid) (keyType : KeyType) (label : String) (privateKey : Bytes)
    (newPassphrase : String) (e : In) (v : Vault) : FacadeResult Unit × Vault :=
  match sealKey C e newPassphrase privateKey keyId keyType label with
  | .error x => (.error x, v)
  | .ok newBlobBytes =>
    match unlockedCompartment v.state c with
    | .error x => (.error x, v)
    | .ok u =>
      persistLocked C e (v.setState ((v.state.setUnlocked c
        (u.setDigest keyId (blobSha256Hex C newBlobBytes))).setKeyBlob keyId newBlobBytes)) c

/-- What the state mutex covers in `change_key_passphrase`. -/
def changePassphraseRegion (c keyId : Uuid) (oldPassphrase newPassphrase : String) (e : In)
    (v : Vault) : FacadeResult Unit × Vault :=
  let secret := SecretId.key C keyId
  match lookupBlob v.state c keyId with
  | .error x => (.error x, v)
  | .ok (keyType, label, blobBytes) =>
    match KeyBlobOf.fromBytes C blobBytes with
    | .error x => (.error (.fromVault x), v)
    | .ok blob =>
      let result := keyblobOpen C blob (utf8 oldPassphrase) keyId keyType label
      let v := v.log (.opened keyId blobBytes (utf8 oldPassphrase) keyType label result v.state)
      match result with
      | .error _ =>
        (.error (.failed "incorrect passphrase"),
          v.setThrottle (v.throttle.recordFailure secret e.now))
      | .ok privateKey =>
        resealRegion C c keyId keyType label privateKey newPassphrase e
          (v.setThrottle (v.throttle.recordSuccess secret))

/-- mirrors vaultcore/src/vault.rs:607-651 (`change_key_passphrase`) -/
def changeKeyPassphrase (compartmentId keyId oldPassphrase newPassphrase : String) : Op Unit :=
  match parseUuid C compartmentId with
  | .error x => .fail x
  | .ok c =>
    match parseUuid C keyId with
    | .error x => .fail x
    | .ok k => do
      throttleCheck (SecretId.key C k)
      region (changePassphraseRegion C c k oldPassphrase newPassphrase)

/-! ## Opening a key blob and using the key -/

/-- `keyblob::open`, outside every mutex; the outcome is a value. -/
def openBlob {ε : Type} (keyId : Uuid) (keyType : KeyType) (label : String) (blobBytes : Bytes)
    (blob : KeyBlob) (passphrase : Bytes) : Prog In Vault ε (VaultResult Bytes) :=
  ask fun _ v =>
    let result := keyblobOpen C blob passphrase keyId keyType label
    (result, v.log (.opened keyId blobBytes passphrase keyType label result v.state))

def recordSuccess {ε : Type} (secret : SecretId) : Prog In Vault ε Unit :=
  ask fun _ v => ((), v.setThrottle (v.throttle.recordSuccess secret))

def recordFailure {ε : Type} (secret : SecretId) : Prog In Vault ε Unit :=
  ask fun e v => ((), v.setThrottle (v.throttle.recordFailure secret e.now))

/-- mirrors vaultcore/src/vault.rs:946-970 (`decrypt_key`) -/
def decryptKey (c keyId : Uuid) (passphrase : String) : Op Bytes := do
  throttleCheck (SecretId.key C keyId)
  let (keyType, label, blobBytes) ← region fun _ v => (lookupBlob v.state c keyId, v)
  let blob ← Prog.ofExcept (facade (KeyBlobOf.fromBytes C blobBytes))
  match ← openBlob C keyId keyType label blobBytes blob (utf8 passphrase) with
  | .ok k => do
    recordSuccess (SecretId.key C keyId)
    return k
  | .error _ => do
    recordFailure (SecretId.key C keyId)
    Prog.fail (.failed "incorrect passphrase")

/-- `self.retention.insert(..)`; its outcome is a value. -/
def cacheKey {ε : Type} (keyId : Uuid) (bytes : Bytes) (retentionSecs : UInt32) :
    Prog In Vault ε (VaultResult Unit) :=
  ask fun e v =>
    match Retention.insert v.retention keyId bytes retentionSecs e.now with
    | .error x => (.error x, v)
    | .ok r => (.ok (), (v.setRetention r).log (.cached keyId bytes retentionSecs e.now))

/-- `self.retention.use_key(.., |bytes| keys::sign(..))`; a signature made is
recorded with the bytes that made it. -/
def useKey {ε : Type} (keyId : Uuid) (keyType : KeyType) (message : Bytes) :
    Prog In Vault ε (Option (VaultResult Bytes)) :=
  ask fun e v =>
    let r := Retention.useKey v.retention keyId e.now fun bytes =>
      (bytes, keysSign C keyType bytes message)
    let v := v.setRetention r.2
    match r.1 with
    | none => (none, v)
    | some (bytes, .ok signature) =>
      (some (.ok signature), v.log (.signed keyId bytes e.now v.state))
    | some (_, .error x) => (some (.error x), v)

def containsKey {ε : Type} (keyId : Uuid) : Prog In Vault ε Bool :=
  ask fun e v => (Retention.contains v.retention keyId e.now, v)

/-- The platform's passphrase dialog. -/
def prompt {ε : Type} : Prog In Vault ε (Option String) := ask fun e v => (e.reply, v)

/-- mirrors vaultcore/src/vault.rs:658-663 (`reveal_raw_key_hex`) -/
def revealRawKeyHex (compartmentId keyId passphrase : String) : Op String :=
  match parseUuid C compartmentId with
  | .error x => .fail x
  | .ok c =>
    match parseUuid C keyId with
    | .error x => .fail x
    | .ok k => do
      let privateKey ← decryptKey C c k passphrase
      return hexEncode privateKey

/-- mirrors vaultcore/src/vault.rs:670-676 (`unlock_key`) -/
def unlockKey (compartmentId keyId passphrase : String) (retentionSecs : UInt32) : Op Unit :=
  match parseUuid C compartmentId with
  | .error x => .fail x
  | .ok c =>
    match parseUuid C keyId with
    | .error x => .fail x
    | .ok k => do
      let privateKey ← decryptKey C c k passphrase
      let r ← cacheKey k privateKey retentionSecs
      Prog.ofExcept (facade r)

/-- mirrors vaultcore/src/vault.rs:683-687 (`lock_key`) -/
def lockKey (keyId : String) : Op Unit :=
  match C.uuidParse keyId with
  | .error _ => pure ()
  | .ok k =>
    region fun _ v => (.ok (), (v.setRetention (Retention.wipe v.retention k)).log (.lockedKey k))

/-- `find_key_anywhere` under the state mutex. -/
def findKeyRegion {ε : Type} (keyId : Uuid) : Prog In Vault ε (Option (KeyType × Uuid)) :=
  ask fun e v => (findKeyAnywhere e.orders v.state keyId, v)

/-- mirrors vaultcore/src/vault.rs:693-703 (`sign`) -/
def sign (keyId : String) (message : Bytes) : Op Bytes :=
  match parseUuid C keyId with
  | .error x => .fail x
  | .ok k => do
    match ← findKeyRegion k with
    | none => Prog.fail (.failed "no such key")
    | some (keyType, _) =>
      match ← useKey C k keyType message with
      | none => Prog.fail (.failed "key is not unlocked")
      | some r => Prog.ofExcept (facade r)

/-! ## The local protocol -/

/-- The lookup of `VaultProtocolBackend::sign`. -/
def findForProtocol (o : Orders) (s : VaultState) (keyId : Uuid) :
    Option (KeyType × Bytes × Uuid) :=
  (findKeyAnywhere o s keyId).bind fun p =>
    match unlockedCompartment s p.2 with
    | .error _ => none
    | .ok u =>
      match findKey u.manifest keyId with
      | .error _ => none
      | .ok k => (hexDecode k.publicKeyHex).map fun pk => (p.1, pk, p.2)

/-- The signature of a key that is in the cache. -/
def protocolUse {ε : Type} (keyId : Uuid) (keyType : KeyType) (publicKey message : Bytes) :
    Prog In Vault ε Protocol.SignOutcome := do
  match ← useKey C keyId keyType message with
  | some (.ok signature) => return .signed signature publicKey
  | _ => return .userDeclined

/-- mirrors vaultcore/src/vault.rs:1072-1109 (`VaultProtocolBackend::sign`) -/
def protocolSign {ε : Type} (keyId : Uuid) (message : Bytes) :
    Prog In Vault ε Protocol.SignOutcome := do
  match ← ask fun e v => (findForProtocol e.orders v.state keyId, v) with
  | none => return .keyNotFound
  | some (keyType, publicKey, c) =>
    if ← containsKey keyId then protocolUse C keyId keyType publicKey message
    else match ← prompt with
    | none => return .userDeclined
    | some passphrase =>
      match ← (decryptKey C c keyId passphrase).attempt with
      | .error _ => return .passphraseIncorrect
      | .ok k =>
        match ← cacheKey keyId k Retention.defaultRetentionSecs with
        | .error _ => return .userDeclined
        | .ok () => protocolUse C keyId keyType publicKey message

/-- mirrors vaultcore/src/vault.rs:1059-1070 (`list_public_keys`) -/
def listPublicKeys (o : Orders) (s : VaultState) : List Protocol.PublicKeyInfo :=
  ((s.unlocked.values o.unlocked).flatMap fun u => u.manifest.keys).filterMap fun k =>
    (hexDecode k.publicKeyHex).map fun pk => ⟨k.keyId, k.label, pk, k.resource⟩

/-- mirrors vaultcore/src/vault.rs:1053-1110 (`VaultProtocolBackend`) -/
def protocolBackend : Protocol.SigningBackend In Vault FacadeError where
  listPublicKeys := ask fun e v => (listPublicKeys e.orders v.state, v)
  sign := fun _ keyId message => protocolSign C keyId message

def vaultThrottling : Protocol.Throttling In Vault FacadeError where
  check := fun secret => ask fun e v => (v.throttle.check secret e.now, v)
  recordSuccess := recordSuccess
  recordFailure := recordFailure

/-- mirrors vaultcore/src/vault.rs:718-726 (`handle_protocol_request`) -/
def handleProtocolRequest (callerIdentity : String) (rawJson : Bytes) : Op Bytes :=
  Protocol.handleRequest C (protocolBackend C) vaultThrottling callerIdentity rawJson

/-! ## CTAP2 -/

/-- One entry as a candidate for `rpId`. -/
def candidate (rpId : String) (k : KeyEntry) : Option CredentialCandidate := do
  let fido2 ← k.fido2
  if fido2.rpId ≠ rpId then none
  else
    let credentialId ← C.base64Decode fido2.credentialIdB64
    let userHandle ← C.base64Decode fido2.userHandleB64
    return ⟨k.keyId, credentialId, userHandle, fido2.discoverable, fido2.signCount⟩

/-- mirrors vaultcore/src/vault.rs:1123-1146 (`credentials_for_rp`) -/
def credentialsForRp (o : Orders) (s : VaultState) (rpId : String) : List CredentialCandidate :=
  ((s.unlocked.values o.unlocked).flatMap fun u => u.manifest.keys).filterMap (candidate C rpId)

/-- mirrors vaultcore/src/vault.rs:1148-1168 (`VaultCtap2Backend::sign`);
`prompts` is false when there is no prompter -/
def ctap2Sign (prompts : Bool) (keyId : Uuid) (message : Bytes) :
    Prog In Vault Ctap2Error (Option Bytes) := do
  match ← findKeyRegion keyId with
  | none => return none
  | some (keyType, c) =>
    let use : Prog In Vault Ctap2Error (Option Bytes) := do
      match ← useKey C keyId keyType message with
      | some (.ok signature) => return some signature
      | _ => return none
    if ← containsKey keyId then use
    else match ← (throttleCheck (SecretId.key C keyId)).attempt with
    | .error _ => return none
    | .ok () =>
      if !prompts then return none
      else match ← prompt with
      | none => return none
      | some passphrase =>
        match ← (decryptKey C c keyId passphrase).attempt with
        | .error _ => return none
        | .ok k =>
          match ← cacheKey keyId k Retention.defaultRetentionSecs with
          | .error _ => return none
          | .ok () => use

/-- mirrors vaultcore/src/vault.rs:1117-1169 (`VaultCtap2Backend`) -/
def ctap2Backend (prompts : Bool) : Ctap2Backend In Vault where
  credentialsForRp := fun rpId => ask fun e v => (credentialsForRp C e.orders v.state rpId, v)
  sign := ctap2Sign C prompts

/-- `map_err(|e| FacadeError::msg(format!("{e:?}")))` -/
def ctap2Failed (e : Ctap2Error) : FacadeError := .failed e.debug

/-- mirrors vaultcore/src/vault.rs:1020-1026 -/
def parseMakeCredential (bytes : Bytes) : FacadeResult MakeCredentialRequest :=
  match C.ctapDeserialize bytes with
  | some (.makeCredential r) => .ok r
  | some _ => .error (.failed "expected an authenticatorMakeCredential request")
  | none => .error (.failed "malformed CTAP2 request")

/-- mirrors vaultcore/src/vault.rs:1028-1034 -/
def parseGetAssertion (bytes : Bytes) : FacadeResult GetAssertionRequest :=
  match C.ctapDeserialize bytes with
  | some (.getAssertion r) => .ok r
  | some _ => .error (.failed "expected an authenticatorGetAssertion request")
  | none => .error (.failed "malformed CTAP2 request")

structure MakeCredentialArgs where
  compartmentId : String
  requestCbor : Bytes
  userPresent : Bool
  userVerified : Bool
  keyPassphrase : String
  label : String
  description : String
  resource : String

/-- What `handle_fido2_make_credential` computes between the handler and the
mutex. -/
def prepareMakeCredential (e : In) (a : MakeCredentialArgs) (outcome : MakeCredentialOutcome) :
    FacadeResult (KeyEntry × Bytes) := do
  let keyId := e.uuid 1
  let keyType := outcome.generatedKey.keyType
  let blobBytes ← sealKey C e a.keyPassphrase outcome.generatedKey.privateKey keyId keyType a.label
  return ({
    keyId := keyId
    label := a.label
    description := a.description
    resource := a.resource
    keyType := keyType
    purpose := .fido2
    fido2 := some ⟨outcome.rpId, C.base64Encode outcome.credentialId,
      C.base64Encode outcome.userHandle, 0, outcome.discoverable⟩
    createdAt := e.utc
    lastUsedAt := none
    tags := []
    blobFile := keyBlobEntryName C keyId
    blobSha256 := blobSha256Hex C blobBytes
    publicKeyHex := hexEncode outcome.generatedKey.publicKey }, blobBytes)

def makeCredentialRegion (c : Uuid) (a : MakeCredentialArgs) (outcome : MakeCredentialOutcome)
    (e : In) (v : Vault) : FacadeResult Bytes × Vault :=
  match prepareMakeCredential C e a outcome with
  | .error x => (.error x, v)
  | .ok (k, blobBytes) => returning (storeKey C e v c k blobBytes) outcome.responseCbor

/-- What the handler draws from the operating system. -/
def drawRegion : Prog In Vault Ctap2Error Drawn :=
  ask fun e v => (⟨e.seed, e.scalar, e.uuid 0⟩, v)

/-- mirrors vaultcore/src/vault.rs:742-802 (`handle_fido2_make_credential`) -/
def handleFido2MakeCredential (a : MakeCredentialArgs) : Op Bytes :=
  match parseUuid C a.compartmentId with
  | .error x => .fail x
  | .ok c =>
    match parseMakeCredential C a.requestCbor with
    | .error x => .fail x
    | .ok request => do
      let outcome ← (handleMakeCredential C (ctap2Backend C false) drawRegion request a.userPresent
        a.userVerified).mapError ctap2Failed
      region (makeCredentialRegion C c a outcome)

/-- The used key's entry after an assertion. -/
def KeyEntry.asserted (newSignCount : UInt32) (now : OffsetDateTime) (k : KeyEntry) : KeyEntry :=
  { k with
    fido2 := k.fido2.map fun f => { f with signCount := newSignCount }
    lastUsedAt := some now }

def UnlockedCompartment.asserted (u : UnlockedCompartment) (keyId : Uuid) (newSignCount : UInt32)
    (now : OffsetDateTime) : UnlockedCompartment :=
  { u with manifest := { u.manifest with
      keys := modifyFirst (fun k => k.keyId = keyId) (KeyEntry.asserted newSignCount now)
        u.manifest.keys } }

/-- The last region of `handle_fido2_get_assertion`: it looks the key up again,
and does nothing when no unlocked compartment has it. -/
def commitAssertion (outcome : GetAssertionOutcome) (e : In) (v : Vault) :
    FacadeResult GetAssertionOutcome × Vault :=
  match findCompartmentForKey e.orders v.state outcome.keyId with
  | none => (.ok outcome, v)
  | some c =>
    match unlockedCompartment v.state c with
    | .error x => (.error x, v)
    | .ok u =>
      returning (persistLocked C e (v.setState (v.state.setUnlocked c
        (u.asserted outcome.keyId outcome.newSignCount e.utc))) c) outcome

/-- mirrors vaultcore/src/vault.rs:809-834 (`handle_fido2_get_assertion`); the
caller gets the outcome's `responseCbor` -/
def handleFido2GetAssertion (requestCbor : Bytes) (userPresent userVerified : Bool) :
    Op GetAssertionOutcome :=
  match parseGetAssertion C requestCbor with
  | .error x => .fail x
  | .ok request => do
    let outcome ← (handleGetAssertion C (ctap2Backend C true) request userPresent
      userVerified).mapError ctap2Failed
    region (commitAssertion C outcome)

/-! ## Merges -/

/-- mirrors vaultcore/src/vault.rs:284-287 (`IncomingKeyBlob`) -/
structure IncomingKeyBlob where
  keyId : String
  blobBytes : Bytes

/-- mirrors vaultcore/src/vault.rs:241-246 (`DuplicateWarningInfo`) -/
structure DuplicateWarningInfo where
  incomingKeyId : String
  matchedLocalKeyId : String
  matchedInCompartment : String
  reason : String

/-- mirrors vaultcore/src/vault.rs:273-276 (`MergeOutcomeInfo`) -/
structure MergeOutcomeInfo where
  warnings : List DuplicateWarningInfo
  idRemap : List (String × String)

/-- mirrors vaultcore/src/vault.rs:248-262 -/
def duplicateWarningInfo (w : Merge.DuplicateWarning) : DuplicateWarningInfo where
  incomingKeyId := C.uuidToString w.incomingKeyId
  matchedLocalKeyId := C.uuidToString w.matchedLocalKeyId
  matchedInCompartment := C.uuidToString w.matchedInCompartment
  reason := match w.reason with
    | .keyId => "key_id"
    | .fido2Credential rpId credentialIdB64 => s!"fido2:{rpId}:{credentialIdB64}"

/-- mirrors vaultcore/src/vault.rs:1188-1193 (`apply_merge_result_metadata`) -/
def applyMergeResultMetadata (o : Orders) (r : Merge.MergeResult) : MergeOutcomeInfo where
  warnings := r.warnings.map (duplicateWarningInfo C)
  idRemap := (r.idRemap.iter o.remap).map fun p => (C.uuidToString p.1, C.uuidToString p.2)

/-- mirrors vaultcore/src/vault.rs:1172-1186 (`local_compartments`) -/
def localCompartments (s : VaultState) : List Merge.VaultCompartment :=
  s.container.header.compartments.filterMap fun h =>
    (s.unlocked.get h.compartmentId).map fun u => ⟨h.compartmentId, h.label, u.manifest⟩

/-- mirrors vaultcore/src/vault.rs:1195-1201 (`copy_incoming_blobs`) -/
def copyIncomingBlobs (idRemap : HashMap Uuid Uuid) :
    List IncomingKeyBlob → HashMap Uuid Bytes → HashMap Uuid Bytes
  | [], m => m
  | b :: rest, m =>
    match C.uuidParse b.keyId with
    | .error _ => copyIncomingBlobs idRemap rest m
    | .ok originalId =>
      copyIncomingBlobs idRemap rest (m.put ((idRemap.get originalId).getD originalId) b.blobBytes)

def VaultState.copyBlobs (s : VaultState) (idRemap : HashMap Uuid Uuid)
    (blobs : List IncomingKeyBlob) : VaultState :=
  { s with container := { s.container with
      keyBlobs := copyIncomingBlobs C idRemap blobs s.container.keyBlobs } }

/-- `for updated in &result.updated_compartments`, each into its unlocked
compartment if there is one. -/
def updateManifests : List Merge.VaultCompartment → HashMap Uuid UnlockedCompartment →
    HashMap Uuid UnlockedCompartment
  | [], m => m
  | c :: rest, m =>
    match m.get c.id with
    | some u => updateManifests rest (m.put c.id { u with manifest := c.manifest })
    | none => updateManifests rest m

/-- What option 1 computes before it changes anything. -/
def prepareMerge1 (e : In) (s : VaultState) (targetCompartmentId incomingManifestJson : String) :
    FacadeResult Merge.MergeResult := do
  let target ← parseUuid C targetCompartmentId
  let incoming ← facade (Manifest.fromJson C (utf8 incomingManifestJson))
  facade (Merge.mergeReencryptDiscardIncoming C e.uuid (localCompartments s) target incoming)

/-- The edit of `apply_merge_result`: manifests and key blobs. -/
def VaultState.merge1 (s : VaultState) (r : Merge.MergeResult) (blobs : List IncomingKeyBlob) :
    VaultState :=
  VaultState.copyBlobs C { s with unlocked := updateManifests r.updatedCompartments s.unlocked }
    r.idRemap blobs

/-- mirrors vaultcore/src/vault.rs:842-853, 1208-1223
(`merge_reencrypt_discard_incoming`, `apply_merge_result`) -/
def merge1Region (targetCompartmentId incomingManifestJson : String) (blobs : List IncomingKeyBlob)
    (e : In) (v : Vault) : FacadeResult MergeOutcomeInfo × Vault :=
  match prepareMerge1 C e v.state targetCompartmentId incomingManifestJson with
  | .error x => (.error x, v)
  | .ok r =>
    returning (writeContainer C e (v.setState (v.state.merge1 C r blobs)))
      (applyMergeResultMetadata C e.orders r)

def mergeReencryptDiscardIncoming (targetCompartmentId incomingManifestJson : String)
    (blobs : List IncomingKeyBlob) : Op MergeOutcomeInfo :=
  region (merge1Region C targetCompartmentId incomingManifestJson blobs)

/-- The merged manifest of a compartment. The `none` case is the source's
`expect`, which the merge rules out. -/
def mergedManifest (r : Merge.MergeResult) (c : Uuid) (expect : String) : FacadeResult Manifest :=
  match r.updatedCompartments.find? fun x => x.id = c with
  | some x => .ok x.manifest
  | none => .error (.failed expect)

/-- What option 2 computes before it changes anything. Its fresh `key_id`s are
the supply's from 2 on. -/
def prepareMerge2 (e : In) (s : VaultState)
    (incomingManifestJson newCompartmentLabel newMasterPassphrase : String)
    (profile : DeviceProfile) :
    FacadeResult (Merge.MergeResult × KdfParams × UnlockedCompartment × Bytes) := do
  let incoming ← facade (Manifest.fromJson C (utf8 incomingManifestJson))
  let r ← facade (Merge.mergeSideBySide C (fun i => e.uuid (i + 2)) (localCompartments s) incoming
    (e.uuid 0) newCompartmentLabel)
  let kdfParams ← facade (benchmark C profile e.salt e.elapsed)
  let masterKey ← facade (derive C (utf8 newMasterPassphrase) kdfParams)
  let manifest ← mergedManifest r (e.uuid 0)
    "merge_side_by_side always creates the requested new compartment"
  let blob ← facade (encryptWithKey C (e.uuid 0) manifest masterKey (e.nonce 1))
  return (r, kdfParams, ⟨manifest, masterKey⟩, blob)

/-- mirrors vaultcore/src/vault.rs:859-897 (`merge_side_by_side`) -/
def merge2Region (incomingManifestJson : String) (blobs : List IncomingKeyBlob)
    (newCompartmentLabel newMasterPassphrase : String) (profile : DeviceProfile) (e : In)
    (v : Vault) : FacadeResult MergeOutcomeInfo × Vault :=
  match prepareMerge2 C e v.state incomingManifestJson newCompartmentLabel newMasterPassphrase
    profile with
  | .error x => (.error x, v)
  | .ok (r, kdfParams, u, blob) =>
    returning (writeContainer C e (v.setState (VaultState.copyBlobs C
      (v.state.addCompartment ⟨e.uuid 0, newCompartmentLabel, kdfParams⟩ blob u) r.idRemap blobs)))
      (applyMergeResultMetadata C e.orders r)

def mergeSideBySide (incomingManifestJson : String) (blobs : List IncomingKeyBlob)
    (newCompartmentLabel newMasterPassphrase : String) (profile : DeviceProfile) :
    Op MergeOutcomeInfo :=
  region (merge2Region C incomingManifestJson blobs newCompartmentLabel newMasterPassphrase profile)

/-- What option 3 computes before it changes anything. -/
def prepareMerge3 (e : In) (s : VaultState) (targetCompartmentId incomingManifestJson
    incomingMasterPassphrase incomingKdfParamsJson confirmationPhrase : String) :
    FacadeResult (Uuid × Merge.MergeResult × KdfParams × UnlockedCompartment × Bytes) := do
  let target ← parseUuid C targetCompartmentId
  let incoming ← facade (Manifest.fromJson C (utf8 incomingManifestJson))
  let doc ← match C.kdfParamsFromStr incomingKdfParamsJson with
    | .ok d => .ok d
    | .error m => .error (.failed m)
  let kdfParams ← match saltFromHex C doc.salt with
    | .ok salt => .ok ⟨doc.memoryKib, doc.iterations, doc.parallelism, salt⟩
    | .error m => .error (.failed (C.serdeCustom (utf8 incomingKdfParamsJson) m))
  let r ← facade (Merge.mergeReplaceLocalWithIncoming C e.uuid (localCompartments s) target incoming
    confirmationPhrase)
  let manifest ← mergedManifest r target
    "merge_replace_local_with_incoming keeps the target compartment id"
  let masterKey ← facade (derive C (utf8 incomingMasterPassphrase) kdfParams)
  let blob ← facade (encryptWithKey C target manifest masterKey (e.nonce 1))
  return (target, r, kdfParams, ⟨manifest, masterKey⟩, blob)

/-- The target's new parameters, blob, manifest and key. -/
def VaultState.replaceMaster (s : VaultState) (c : Uuid) (kdfParams : KdfParams) (blob : Bytes)
    (u : UnlockedCompartment) : VaultState :=
  ((({ s with container := { s.container with header := { s.container.header with
      compartments := modifyFirst (fun h => h.compartmentId = c)
        (fun h => { h with kdfParamsMaster := kdfParams }) s.container.header.compartments } } } :
    VaultState)).setMasterBlob c blob).setUnlocked c u

/-- mirrors vaultcore/src/vault.rs:902-940 (`merge_replace_local_with_incoming`) -/
def merge3Region (targetCompartmentId incomingManifestJson : String) (blobs : List IncomingKeyBlob)
    (incomingMasterPassphrase incomingKdfParamsJson confirmationPhrase : String) (e : In)
    (v : Vault) : FacadeResult MergeOutcomeInfo × Vault :=
  match prepareMerge3 C e v.state targetCompartmentId incomingManifestJson incomingMasterPassphrase
      incomingKdfParamsJson confirmationPhrase with
  | .error x => (.error x, v)
  | .ok (target, r, kdfParams, u, blob) =>
    returning (writeContainer C e (v.setState (VaultState.copyBlobs C
      (v.state.replaceMaster target kdfParams blob u) r.idRemap blobs)))
      (applyMergeResultMetadata C e.orders r)

def mergeReplaceLocalWithIncoming (targetCompartmentId incomingManifestJson : String)
    (blobs : List IncomingKeyBlob)
    (incomingMasterPassphrase incomingKdfParamsJson confirmationPhrase : String) :
    Op MergeOutcomeInfo :=
  region (merge3Region C targetCompartmentId incomingManifestJson blobs incomingMasterPassphrase
    incomingKdfParamsJson confirmationPhrase)

/-! ## Queries -/

/-- The operations that only read. -/
inductive Query where
  | listCompartments
  | isCompartmentUnlocked (compartmentId : String)
  | listKeys (compartmentId : String)
  | isKeyUnlocked (keyId : String)
  | publicKeyOf (compartmentId keyId : String)
  | credentialCandidates (rpId : String)

inductive Answer where
  | compartments (l : List CompartmentInfo)
  | bool (b : Bool)
  | keys (l : List KeyInfo)
  | publicKey (b : Bytes)
  | candidates (l : List CredentialCandidate)

/-- mirrors vaultcore/src/vault.rs:390-411, 496-500, 678-681, 705-712, 732-735 -/
def answer (e : In) (v : Vault) : Query → FacadeResult Answer
  | .listCompartments => .ok (.compartments (v.state.container.header.compartments.map fun h =>
      ⟨C.uuidToString h.compartmentId, h.label, v.state.unlocked.has h.compartmentId⟩))
  | .isCompartmentUnlocked c =>
    match C.uuidParse c with
    | .error _ => .ok (.bool false)
    | .ok id => .ok (.bool (v.state.unlocked.has id))
  | .listKeys c => do
    let id ← parseUuid C c
    let u ← unlockedCompartment v.state id
    return .keys (u.manifest.keys.map (keyInfoView C id))
  | .isKeyUnlocked k =>
    match C.uuidParse k with
    | .error _ => .ok (.bool false)
    | .ok id => .ok (.bool (Retention.contains v.retention id e.now))
  | .publicKeyOf c k => do
    let id ← parseUuid C c
    let keyId ← parseUuid C k
    let u ← unlockedCompartment v.state id
    let entry ← findKey u.manifest keyId
    match hexDecode entry.publicKeyHex with
    | some b => .ok (.publicKey b)
    | none => .error (.failed (C.hexError entry.publicKeyHex))
  | .credentialCandidates rpId => .ok (.candidates (credentialsForRp C e.orders v.state rpId))

def query (q : Query) : Op Answer := region fun e v => (answer C e v q, v)

/-! ## Every call -/

/-- A call of the facade with its arguments. -/
inductive Call where
  | unlockCompartment (compartmentId passphrase : String)
  | lockCompartment (compartmentId : String)
  | lockAll
  | addCompartment (label masterPassphrase : String) (profile : DeviceProfile)
  | createKey (a : CreateKeyArgs)
  | discardKey (compartmentId keyId confirmText : String)
  | changeKeyPassphrase (compartmentId keyId oldPassphrase newPassphrase : String)
  | revealRawKeyHex (compartmentId keyId passphrase : String)
  | unlockKey (compartmentId keyId passphrase : String) (retentionSecs : UInt32)
  | lockKey (keyId : String)
  | sign (keyId : String) (message : Bytes)
  | handleProtocolRequest (callerIdentity : String) (rawJson : Bytes)
  | handleFido2MakeCredential (a : MakeCredentialArgs)
  | handleFido2GetAssertion (requestCbor : Bytes) (userPresent userVerified : Bool)
  | mergeReencryptDiscardIncoming (targetCompartmentId incomingManifestJson : String)
      (blobs : List IncomingKeyBlob)
  | mergeSideBySide (incomingManifestJson : String) (blobs : List IncomingKeyBlob)
      (newCompartmentLabel newMasterPassphrase : String) (profile : DeviceProfile)
  | mergeReplaceLocalWithIncoming (targetCompartmentId incomingManifestJson : String)
      (blobs : List IncomingKeyBlob)
      (incomingMasterPassphrase incomingKdfParamsJson confirmationPhrase : String)
  | query (q : Query)

inductive Reply where
  | unit
  | compartment (i : CompartmentInfo)
  | key (i : KeyInfo)
  | text (s : String)
  | bytes (b : Bytes)
  | assertion (o : GetAssertionOutcome)
  | merge (i : MergeOutcomeInfo)
  | answer (a : Answer)

/-- The reply of an operation. -/
def replying {α : Type} (p : Op α) (f : α → Reply) : Op Reply := p.bind fun a => .done (.ok (f a))

def Call.run : Call → Op Reply
  | .unlockCompartment c p => replying (L4.unlockCompartment C c p) fun _ => .unit
  | .lockCompartment c => replying (L4.lockCompartment C c) fun _ => .unit
  | .lockAll => replying L4.lockAll fun _ => .unit
  | .addCompartment l p d => replying (L4.addCompartment C l p d) .compartment
  | .createKey a => replying (L4.createKey C a) .key
  | .discardKey c k t => replying (L4.discardKey C c k t) fun _ => .unit
  | .changeKeyPassphrase c k o n => replying (L4.changeKeyPassphrase C c k o n) fun _ => .unit
  | .revealRawKeyHex c k p => replying (L4.revealRawKeyHex C c k p) .text
  | .unlockKey c k p r => replying (L4.unlockKey C c k p r) fun _ => .unit
  | .lockKey k => replying (L4.lockKey C k) fun _ => .unit
  | .sign k m => replying (L4.sign C k m) .bytes
  | .handleProtocolRequest i r => replying (L4.handleProtocolRequest C i r) .bytes
  | .handleFido2MakeCredential a => replying (L4.handleFido2MakeCredential C a) .bytes
  | .handleFido2GetAssertion r p u => replying (L4.handleFido2GetAssertion C r p u) .assertion
  | .mergeReencryptDiscardIncoming t j b =>
    replying (L4.mergeReencryptDiscardIncoming C t j b) .merge
  | .mergeSideBySide j b l p d => replying (L4.mergeSideBySide C j b l p d) .merge
  | .mergeReplaceLocalWithIncoming t j b p k c =>
    replying (L4.mergeReplaceLocalWithIncoming C t j b p k c) .merge
  | .query q => replying (L4.query C q) .answer

end

end VaultSigner.L4
