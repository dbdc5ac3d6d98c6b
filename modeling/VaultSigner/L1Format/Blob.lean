import Mathlib.Data.Finset.Card
import Mathlib.Data.List.Nodup
import VaultSigner.L1Format.Manifest

/-!
# Encrypted blobs (`aead.rs`, `keyblob.rs`, `master_blob.rs`)

A random nonce is an argument: the result of the `getrandom` call it comes
from.

Results:
* `aeadDecrypt_aeadEncrypt`, `aeadDecrypt_aad`: the wrapper round-trips, and
  under one key a buffer opens with one associated datum only.
* `keyblobOpen_ok`, `keyblobOpen_keyId`, `keyblobOpen_fingerprint`: what
  opening a key blob checks, and that a blob which opens for two metadata
  triples has one `key_id` and one fingerprint.
* `keyblobOpen_keyblobSeal`: a sealed key opens.
* `decryptWithKey_encryptWithKey`: a compartment's blob opens, under the key
  it was written with, to the manifest it was written from.
-/
namespace VaultSigner.L1

/-! ## `aead.rs` -/

def nonceLen : Nat := 24

/-- mirrors vaultcore/src/aead.rs:27-44 (`encrypt`): `nonce || ciphertext` -/
def aeadEncrypt (C : Crates) (key : Key) (plaintext aad : Bytes) (nonce : Except String Nonce) :
    VaultResult Bytes := do
  let n ← mapErr .kdf nonce
  match C.aeadEncrypt key n aad plaintext with
  | none => .error .encryptFailed
  | some c => .ok (n.toList ++ c)

/-- `split_at(NONCE_LEN)` on a buffer that is long enough. -/
def splitNonce (b : Bytes) : Option (Nonce × Bytes) :=
  if h : nonceLen ≤ b.length then
    some (⟨(b.take nonceLen).toArray, by simpa [nonceLen] using h⟩, b.drop nonceLen)
  else none

/-- mirrors vaultcore/src/aead.rs:49-60 (`decrypt`) -/
def aeadDecrypt (C : Crates) (key : Key) (nonceAndCiphertext aad : Bytes) : VaultResult Bytes :=
  match splitNonce nonceAndCiphertext with
  | none => .error .decryptFailed
  | some (n, c) =>
    match C.aeadDecrypt key n aad c with
    | none => .error .decryptFailed
    | some m => .ok m

theorem splitNonce_append (n : Nonce) (c : Bytes) : splitNonce (n.toList ++ c) = some (n, c) := by
  have hl : n.toList.length = nonceLen := by simp [nonceLen]
  unfold splitNonce
  rw [dif_pos (by simp [nonceLen])]
  simp only [← hl, List.take_left, List.drop_left]
  congr

/-- What is encrypted begins with its nonce. -/
theorem splitNonce_aeadEncrypt {C : Crates} {key : Key} {m aad b : Bytes}
    {nonce : Except String Nonce} (h : aeadEncrypt C key m aad nonce = .ok b) :
    ∃ n c, nonce = .ok n ∧ splitNonce b = some (n, c) := by
  unfold aeadEncrypt at h
  rw [bind_ok] at h
  obtain ⟨n, hn, h⟩ := h
  split at h
  · cases h
  · rename_i c _
    cases h
    exact ⟨n, c, mapErr_ok.1 hn, splitNonce_append n c⟩

theorem aeadDecrypt_ok {C : Crates} {key : Key} {b aad m : Bytes} :
    aeadDecrypt C key b aad = .ok m ↔
      ∃ n c, splitNonce b = some (n, c) ∧ C.aeadDecrypt key n aad c = some m := by
  unfold aeadDecrypt
  split
  · rename_i h; simp [h]
  · rename_i n c h
    split
    · rename_i h'
      simp only [h, Option.some.injEq, Prod.mk.injEq]
      constructor
      · intro hc; cases hc
      · rintro ⟨n', c', ⟨rfl, rfl⟩, hm⟩; rw [h'] at hm; cases hm
    · rename_i m' h'
      simp only [h, Option.some.injEq, Prod.mk.injEq, Except.ok.injEq]
      constructor
      · rintro rfl; exact ⟨n, c, ⟨rfl, rfl⟩, h'⟩
      · rintro ⟨n', c', ⟨rfl, rfl⟩, hm⟩; rw [h'] at hm; cases hm; rfl

theorem aeadDecrypt_aeadEncrypt {C : Crates} (h : C.AeadLaws) {key : Key} {m aad b : Bytes}
    {nonce : Except String Nonce} (he : aeadEncrypt C key m aad nonce = .ok b) :
    aeadDecrypt C key b aad = .ok m := by
  unfold aeadEncrypt at he
  rw [bind_ok] at he
  obtain ⟨n, -, he⟩ := he
  cases hc : C.aeadEncrypt key n aad m with
  | none => simp [hc] at he
  | some c =>
    simp only [hc, Except.ok.injEq] at he
    subst he
    exact aeadDecrypt_ok.2 ⟨n, c, splitNonce_append n c, h.correct _ _ _ _ _ hc⟩

theorem aeadDecrypt_aad {C : Crates} (h : C.AeadBinds) {key : Key} {b aad aad' m m' : Bytes}
    (h1 : aeadDecrypt C key b aad = .ok m) (h2 : aeadDecrypt C key b aad' = .ok m') :
    aad' = aad := by
  obtain ⟨n, c, hs, hd⟩ := aeadDecrypt_ok.1 h1
  obtain ⟨n', c', hs', hd'⟩ := aeadDecrypt_ok.1 h2
  rw [hs] at hs'
  cases hs'
  exact h.binds _ _ _ _ _ _ _ hd hd'

theorem aeadDecrypt_key {C : Crates} (h : C.AeadCommits) {key key' : Key} {b aad m m' : Bytes}
    (h1 : aeadDecrypt C key b aad = .ok m) (h2 : aeadDecrypt C key' b aad = .ok m') :
    key' = key ∧ m' = m := by
  obtain ⟨n, c, hs, hd⟩ := aeadDecrypt_ok.1 h1
  obtain ⟨n', c', hs', hd'⟩ := aeadDecrypt_ok.1 h2
  rw [hs] at hs'
  cases hs'
  have hk := h.commits _ _ _ _ _ _ _ hd hd'
  rw [hk, hd] at hd'
  exact ⟨hk, (Option.some.inj hd').symm⟩

theorem aeadDecrypt_ideal {C : Crates} (h : C.AeadIdeal) {key key' : Key} {b aad aad' m m' : Bytes}
    (h1 : aeadDecrypt C key b aad = .ok m) (h2 : aeadDecrypt C key' b aad' = .ok m') :
    key' = key ∧ aad' = aad ∧ m' = m := by
  obtain ⟨n, c, hs, hd⟩ := aeadDecrypt_ok.1 h1
  obtain ⟨n', c', hs', hd'⟩ := aeadDecrypt_ok.1 h2
  rw [hs] at hs'
  cases hs'
  obtain ⟨rfl, rfl⟩ := h.opens _ _ _ _ _ _ _ _ hd hd'
  rw [hd] at hd'
  exact ⟨rfl, rfl, (Option.some.inj hd').symm⟩

/-! ## `keyblob.rs` -/

def aeadAlg : String := "xchacha20poly1305"

def fingerprintLen : Nat := 32

/-- mirrors vaultcore/src/keyblob.rs:40-45 -/
def privateKeyLen : KeyType → Nat
  | .ed25519 => 32
  | .ecdsaP256 => 32

/-- mirrors vaultcore/src/keyblob.rs:73-78 -/
def keyTypeTag : KeyType → Bytes
  | .ed25519 => utf8 "ed25519"
  | .ecdsaP256 => utf8 "ecdsa-p256"

/-- mirrors vaultcore/src/keyblob.rs:65-71: the bytes hashed by
`key_metadata_fingerprint`. -/
def keyMetadata (keyId : Uuid) (keyType : KeyType) (label : String) : Bytes :=
  keyId.asBytes ++ keyTypeTag keyType ++ utf8 label

/-- mirrors vaultcore/src/keyblob.rs:65-71 (`key_metadata_fingerprint`) -/
def keyMetadataFingerprint (C : Crates) (keyId : Uuid) (keyType : KeyType) (label : String) :
    Bytes :=
  (C.sha256 (keyMetadata keyId keyType label)).toList

/-- mirrors vaultcore/src/keyblob.rs:92-118 (`seal`) -/
def keyblobSeal (C : Crates) (passphrase privateKey : Bytes) (keyId : Uuid) (keyType : KeyType)
    (label : String) (kdfParams : KdfParams) (nonce : Except String Nonce) : VaultResult KeyBlob :=
  let len := privateKey.length
  let expected := privateKeyLen keyType
  if len ≠ expected then
    .error (.keyGen
      s!"private key length {len} does not match expected {expected} for {keyType.debug}")
  else do
    let derived ← derive C passphrase kdfParams
    let ciphertext ← aeadEncrypt C derived
      (privateKey ++ keyMetadataFingerprint C keyId keyType label) keyId.asBytes nonce
    return ⟨kdfParams, aeadAlg, ciphertext⟩

/-- mirrors vaultcore/src/keyblob.rs:127-148 (`open`) -/
def keyblobOpen (C : Crates) (blob : KeyBlob) (passphrase : Bytes) (keyId : Uuid)
    (keyType : KeyType) (label : String) : VaultResult Bytes := do
  let derived ← derive C passphrase blob.kdfParams
  let plaintext ← aeadDecrypt C derived blob.ciphertext keyId.asBytes
  if plaintext.length ≠ privateKeyLen keyType + fingerprintLen then
    .error .integrityCheckFailed
  else if plaintext.drop (privateKeyLen keyType) ≠ keyMetadataFingerprint C keyId keyType label then
    .error .integrityCheckFailed
  else .ok (plaintext.take (privateKeyLen keyType))

/-- mirrors vaultcore/src/keyblob.rs:56-58 (`KeyBlob::to_bytes`) -/
def KeyBlobOf.toBytes (C : Crates) (b : KeyBlob) : VaultResult Bytes :=
  mapErr .serde (C.keyBlobToVec ⟨b.kdfParams.toDoc, b.aeadAlg, b.ciphertext⟩)

/-- mirrors vaultcore/src/keyblob.rs:60-62 (`KeyBlob::from_bytes`) -/
def KeyBlobOf.fromBytes (C : Crates) (bytes : Bytes) : VaultResult KeyBlob := do
  let d ← mapErr .serde (C.keyBlobFromSlice bytes)
  let kdfParams ← KdfParamsOf.ofDoc C bytes d.kdfParams
  return ⟨kdfParams, d.aeadAlg, d.ciphertext⟩

theorem KeyBlobOf.fromBytes_toBytes {C : Crates} (h : C.CodecLaws) {k : KeyBlob} {b : Bytes}
    (hb : k.toBytes C = .ok b) : KeyBlobOf.fromBytes C b = .ok k := by
  unfold KeyBlobOf.toBytes at hb
  rw [mapErr_ok] at hb
  unfold KeyBlobOf.fromBytes
  rw [h.keyBlob _ _ hb]
  simp [mapErr, bind, Except.bind, pure, Except.pure]

theorem keyblobOpen_ok {C : Crates} {blob : KeyBlob} {pw sk : Bytes} {id : Uuid} {ty : KeyType}
    {label : String} : keyblobOpen C blob pw id ty label = .ok sk ↔
      ∃ key, derive C pw blob.kdfParams = .ok key ∧ sk.length = 32 ∧
        aeadDecrypt C key blob.ciphertext id.asBytes =
          .ok (sk ++ keyMetadataFingerprint C id ty label) := by
  have hlen : ∀ ty, privateKeyLen ty = 32 := by intro ty; cases ty <;> rfl
  have hfp : (keyMetadataFingerprint C id ty label).length = 32 := by
    simp [keyMetadataFingerprint]
  unfold keyblobOpen
  simp only [bind_ok, hlen, fingerprintLen]
  constructor
  · rintro ⟨key, hk, m, hm, h⟩
    split at h
    · cases h
    · rename_i hl
      split at h
      · cases h
      · rename_i hd
        simp only [Except.ok.injEq] at h
        refine ⟨key, hk, ?_, ?_⟩
        · rw [← h, List.length_take]; omega
        · rw [hm, ← h, ← Decidable.not_not.1 hd, List.take_append_drop]
  · rintro ⟨key, hk, hl, hm⟩
    refine ⟨key, hk, _, hm, ?_⟩
    rw [if_neg (by simp [hl, hfp]), if_neg (by rw [← hl, List.drop_left]; simp), ← hl,
      List.take_left]

/-- A blob that opens for a key whose `key_id` has changed does not exist: the
`key_id` is the associated datum. -/
theorem keyblobOpen_keyId {C : Crates} (h : C.AeadBinds) {blob : KeyBlob} {pw sk sk' : Bytes}
    {id id' : Uuid} {ty ty' : KeyType} {label label' : String}
    (h1 : keyblobOpen C blob pw id ty label = .ok sk)
    (h2 : keyblobOpen C blob pw id' ty' label' = .ok sk') : id' = id := by
  obtain ⟨key, hk, -, hd⟩ := keyblobOpen_ok.1 h1
  obtain ⟨key', hk', -, hd'⟩ := keyblobOpen_ok.1 h2
  rw [hk] at hk'
  cases hk'
  exact Uuid.asBytes_inj.1 (aeadDecrypt_aad h hd hd')

/-- Under one passphrase and one `key_id`, two labels open a blob only if
their fingerprints agree. -/
theorem keyblobOpen_fingerprint {C : Crates} {blob : KeyBlob} {pw sk sk' : Bytes}
    {id : Uuid} {ty ty' : KeyType} {label label' : String}
    (h1 : keyblobOpen C blob pw id ty label = .ok sk)
    (h2 : keyblobOpen C blob pw id ty' label' = .ok sk') :
    sk' = sk ∧ C.sha256 (keyMetadata id ty' label') = C.sha256 (keyMetadata id ty label) := by
  obtain ⟨key, hk, hl, hd⟩ := keyblobOpen_ok.1 h1
  obtain ⟨key', hk', hl', hd'⟩ := keyblobOpen_ok.1 h2
  rw [hk] at hk'
  cases hk'
  rw [hd] at hd'
  simp only [Except.ok.injEq] at hd'
  obtain ⟨e1, e2⟩ := List.append_inj hd'.symm (by rw [hl, hl'])
  exact ⟨e1, Vector.toList_inj.1 e2⟩

/-- Under an ideal cipher two ways to open a blob have the same key, and give
the same. -/
theorem keyblobOpen_ideal {C : Crates} (h : C.AeadIdeal) {blob : KeyBlob} {pw pw' sk sk' : Bytes}
    {id id' : Uuid} {ty ty' : KeyType} {label label' : String}
    (h1 : keyblobOpen C blob pw id ty label = .ok sk)
    (h2 : keyblobOpen C blob pw' id' ty' label' = .ok sk') :
    sk' = sk ∧ id' = id ∧ C.sha256 (keyMetadata id' ty' label') =
    C.sha256 (keyMetadata id ty label) ∧
      ∃ key, derive C pw blob.kdfParams = .ok key ∧ derive C pw' blob.kdfParams = .ok key := by
  obtain ⟨key, hk, hl, hd⟩ := keyblobOpen_ok.1 h1
  obtain ⟨key', hk', hl', hd'⟩ := keyblobOpen_ok.1 h2
  obtain ⟨rfl, hid, hm⟩ := aeadDecrypt_ideal h hd hd'
  obtain ⟨rfl, hfp⟩ := List.append_inj hm (by rw [hl, hl'])
  exact ⟨rfl, Uuid.asBytes_inj.1 hid, Vector.toList_inj.1 hfp, key', hk, hk'⟩

theorem keyblobSeal_nonce {C : Crates} {pw sk : Bytes} {id : Uuid} {ty : KeyType} {label : String}
    {params : KdfParams} {nonce : Except String Nonce} {blob : KeyBlob}
    (h : keyblobSeal C pw sk id ty label params nonce = .ok blob) :
    ∃ n c, nonce = .ok n ∧ splitNonce blob.ciphertext = some (n, c) := by
  unfold keyblobSeal at h
  simp only at h
  split at h
  · cases h
  · simp only [bind_ok, pure, Except.pure, Except.ok.injEq] at h
    obtain ⟨key, -, ciphertext, hc, rfl⟩ := h
    exact splitNonce_aeadEncrypt hc

theorem keyblobOpen_keyblobSeal {C : Crates} (h : C.AeadLaws) {pw sk : Bytes} {id : Uuid}
    {ty : KeyType} {label : String} {params : KdfParams} {nonce : Except String Nonce}
    {blob : KeyBlob} (hs : keyblobSeal C pw sk id ty label params nonce = .ok blob) :
    keyblobOpen C blob pw id ty label = .ok sk ∧ blob.kdfParams = params := by
  have hlen : privateKeyLen ty = 32 := by cases ty <;> rfl
  unfold keyblobSeal at hs
  simp only at hs
  split at hs
  · cases hs
  · rename_i hl
    simp only [bind_ok, pure, Except.pure, Except.ok.injEq] at hs
    obtain ⟨key, hk, ct, hc, rfl⟩ := hs
    refine ⟨keyblobOpen_ok.2 ⟨key, hk, ?_, aeadDecrypt_aeadEncrypt h hc⟩, rfl⟩
    rw [hlen] at hl; exact Decidable.not_not.1 hl

/-- `KeyBlob::from_bytes` and `keyblob::open`, as the facade opens a stored blob. -/
def opens (C : Crates) (bytes passphrase : Bytes) (k : Uuid) (ty : KeyType) (label : String) :
    VaultResult Bytes := do
  let blob ← KeyBlobOf.fromBytes C bytes
  keyblobOpen C blob passphrase k ty label

theorem opens_ok {C : Crates} {bytes pw sk : Bytes} {k : Uuid} {ty : KeyType} {label : String} :
    opens C bytes pw k ty label = .ok sk ↔
      ∃ blob, KeyBlobOf.fromBytes C bytes = .ok blob ∧ keyblobOpen C blob pw k ty label = .ok sk :=
  bind_ok

/-! ## `master_blob.rs` -/

/-- mirrors vaultcore/src/master_blob.rs:42-45 (`MasterBlobPlaintext::new`) -/
def MasterBlobPlaintext.new (m : Manifest) : MasterBlobPlaintext := ⟨m, m.keyIds⟩

/-- mirrors vaultcore/src/master_blob.rs:47-60 (`MasterBlobPlaintext::validate`) -/
def MasterBlobPlaintext.validate (C : Crates) (p : MasterBlobPlaintext) : VaultResult Unit := do
  p.manifest.validate C
  if p.manifest.keyIds.toFinset ≠ p.keyIndex.toFinset then
    .error (.invalidManifest "key_index does not match the set of key_ids in manifest.keys")
  else if p.keyIndex.toFinset.card ≠ p.keyIndex.length then
    .error (.invalidManifest "key_index contains duplicate key_ids")
  else .ok ()

/-- mirrors vaultcore/src/master_blob.rs:62-65 (`to_json`) -/
def MasterBlobPlaintext.toJson (C : Crates) (p : MasterBlobPlaintext) : VaultResult Bytes := do
  p.validate C
  mapErr .serde (C.plaintextToVec p)

/-- mirrors vaultcore/src/master_blob.rs:67-71 (`from_json`) -/
def MasterBlobPlaintext.fromJson (C : Crates) (bytes : Bytes) :
    VaultResult MasterBlobPlaintext := do
  let p ← mapErr .serde (C.plaintextFromSlice bytes)
  p.validate C
  return p

/-- mirrors vaultcore/src/master_blob.rs:110-114 (`encrypt_with_key`) -/
def encryptWithKey (C : Crates) (compartmentId : Uuid) (m : Manifest) (key : Key)
    (nonce : Except String Nonce) : VaultResult Bytes := do
  let json ← (MasterBlobPlaintext.new m).toJson C
  aeadEncrypt C key json compartmentId.asBytes nonce

/-- mirrors vaultcore/src/master_blob.rs:118-125 (`decrypt_with_key`) -/
def decryptWithKey (C : Crates) (compartmentId : Uuid) (nonceAndCiphertext : Bytes) (key : Key) :
    VaultResult MasterBlobPlaintext := do
  let json ← aeadDecrypt C key nonceAndCiphertext compartmentId.asBytes
  MasterBlobPlaintext.fromJson C json

theorem MasterBlobPlaintext.validate_ok (C : Crates) (p : MasterBlobPlaintext) :
    p.validate C = .ok () ↔
      p.manifest.Valid ∧ p.keyIndex.Nodup ∧ p.manifest.keyIds.toFinset = p.keyIndex.toFinset := by
  unfold MasterBlobPlaintext.validate
  rw [bind_ok_unit, Manifest.validate_ok]
  refine and_congr_right fun _ => ?_
  constructor
  · intro h
    split at h
    · cases h
    · rename_i h1
      split at h
      · cases h
      · rename_i h2
        have hcard : (p.keyIndex : Multiset Uuid).toFinset.card =
            (p.keyIndex : Multiset Uuid).card :=
          Decidable.not_not.1 h2
        exact ⟨Multiset.coe_nodup.1 (Multiset.toFinset_card_eq_card_iff_nodup.1 hcard),
          Decidable.not_not.1 h1⟩
  · rintro ⟨h1, h2⟩
    rw [if_neg (fun hn => hn h2), if_neg (fun hn => hn (List.toFinset_card_of_nodup h1))]

theorem MasterBlobPlaintext.validate_new (C : Crates) (m : Manifest) :
    (MasterBlobPlaintext.new m).validate C = .ok () ↔ m.Valid := by
  rw [MasterBlobPlaintext.validate_ok]
  exact ⟨fun h => h.1, fun h => ⟨h, h.nodup, rfl⟩⟩

/-- Only valid manifests are written. -/
theorem encryptWithKey_nonce {C : Crates} {c : Uuid} {m : Manifest} {key : Key} {b : Bytes}
    {nonce : Except String Nonce} (h : encryptWithKey C c m key nonce = .ok b) :
    ∃ n x, nonce = .ok n ∧ splitNonce b = some (n, x) := by
  unfold encryptWithKey at h
  rw [bind_ok] at h
  obtain ⟨json, -, hb⟩ := h
  exact splitNonce_aeadEncrypt hb

theorem encryptWithKey_valid {C : Crates} {c : Uuid} {m : Manifest} {key : Key} {b : Bytes}
    {nonce : Except String Nonce} (h : encryptWithKey C c m key nonce = .ok b) : m.Valid := by
  unfold encryptWithKey at h
  rw [bind_ok] at h
  obtain ⟨json, hj, -⟩ := h
  unfold MasterBlobPlaintext.toJson at hj
  rw [bind_ok_unit] at hj
  exact (MasterBlobPlaintext.validate_new C m).1 hj.1

/-- Only valid manifests are read. -/
theorem decryptWithKey_valid {C : Crates} {c : Uuid} {b : Bytes} {key : Key}
    {p : MasterBlobPlaintext} (h : decryptWithKey C c b key = .ok p) : p.manifest.Valid := by
  unfold decryptWithKey at h
  rw [bind_ok] at h
  obtain ⟨json, -, hj⟩ := h
  unfold MasterBlobPlaintext.fromJson at hj
  simp only [bind_ok, pure, Except.pure, Except.ok.injEq] at hj
  obtain ⟨p', -, _, hv, rfl⟩ := hj
  exact ((MasterBlobPlaintext.validate_ok C p').1 hv).1

theorem decryptWithKey_encryptWithKey {C : Crates} (hc : C.CodecLaws) (ha : C.AeadLaws) {c : Uuid}
    {m : Manifest} {key : Key} {nonce : Except String Nonce} {b : Bytes}
    (h : encryptWithKey C c m key nonce = .ok b) :
    decryptWithKey C c b key = .ok (MasterBlobPlaintext.new m) := by
  have hm := encryptWithKey_valid h
  unfold encryptWithKey at h
  rw [bind_ok] at h
  obtain ⟨json, hj, he⟩ := h
  unfold MasterBlobPlaintext.toJson at hj
  rw [bind_ok_unit, mapErr_ok] at hj
  unfold decryptWithKey
  rw [aeadDecrypt_aeadEncrypt ha he]
  show MasterBlobPlaintext.fromJson C json = _
  unfold MasterBlobPlaintext.fromJson
  simp only [bind_ok, mapErr_ok, pure, Except.pure, Except.ok.injEq]
  exact ⟨_, hc.plaintext _ _ hj.2, (), (MasterBlobPlaintext.validate_new C m).2 hm, rfl⟩

/-- One key opens a compartment's blob. -/
theorem decryptWithKey_key {C : Crates} (hk : C.AeadCommits) {c : Uuid} {b : Bytes} {key key' : Key}
    {p p' : MasterBlobPlaintext} (h : decryptWithKey C c b key = .ok p)
    (h' : decryptWithKey C c b key' = .ok p') : key' = key := by
  unfold decryptWithKey at h h'
  rw [bind_ok] at h h'
  obtain ⟨json, hj, -⟩ := h
  obtain ⟨json', hj', -⟩ := h'
  exact (aeadDecrypt_key hk hj hj').1

/-- Whatever key opens a compartment's blob, it holds the same. -/
theorem decryptWithKey_unique {C : Crates} (hk : C.AeadCommits) {c : Uuid} {b : Bytes}
    {key key' : Key} {p p' : MasterBlobPlaintext} (h : decryptWithKey C c b key = .ok p)
    (h' : decryptWithKey C c b key' = .ok p') : p' = p := by
  obtain rfl := decryptWithKey_key hk h h'
  rw [h] at h'
  exact (Except.ok.inj h').symm

end VaultSigner.L1
