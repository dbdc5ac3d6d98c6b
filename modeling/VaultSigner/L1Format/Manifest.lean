import VaultSigner.L1Format.Kdf

/-!
# The manifest (`manifest.rs`)

Results:
* `KeyEntry.validate_ok`, `Manifest.validate_ok`: what the validator accepts,
  as propositions (`KeyEntry.Valid`, `Manifest.Valid`).
* `Manifest.fromJson_ok`: `from_json` accepts what the JSON reader reads and
  the validator accepts.
* `blobSha256Hex_wf`: a computed digest passes the validator's digest check.
-/
namespace VaultSigner.L1

def manifestVersion : UInt32 := 1

/-- mirrors vaultcore/src/manifest.rs:86-107 (`KeyEntry::validate`) -/
def KeyEntry.validate (C : Crates) (k : KeyEntry) : VaultResult Unit :=
  let has_fido2 := k.fido2.isSome
  if k.purpose.includesFido2 ≠ has_fido2 then
    .error (.invalidManifest
      s!"key {C.uuidToString k.keyId}: fido2 block presence ({has_fido2}) does not match purpose ({k.purpose.debug})")
  else if (utf8 k.blobSha256).length ≠ 64 ∨ (utf8 k.blobSha256).all isAsciiHexdigit = false then
    .error (.invalidManifest
      s!"key {C.uuidToString k.keyId}: blob_sha256 must be a 64-char hex digest")
  else if k.publicKeyHex ≠ "" ∧ (utf8 k.publicKeyHex).all isAsciiHexdigit = false then
    .error (.invalidManifest s!"key {C.uuidToString k.keyId}: public_key_hex must be hex-encoded")
  else .ok ()

/-- The loop over `self.keys`, with the `key_id`s seen so far. -/
def validateKeys (C : Crates) (seen : List Uuid) : List KeyEntry → VaultResult Unit
  | [] => .ok ()
  | k :: ks => do
    k.validate C
    if k.keyId ∈ seen then
      .error (.invalidManifest s!"duplicate key_id in manifest: {C.uuidToString k.keyId}")
    else validateKeys C (k.keyId :: seen) ks

/-- mirrors vaultcore/src/manifest.rs:133-151 (`Manifest::validate`) -/
def Manifest.validate (C : Crates) (m : Manifest) : VaultResult Unit :=
  if m.manifestVersion ≠ L1.manifestVersion then
    .error (.invalidManifest
      s!"unsupported manifest_version {m.manifestVersion} (expected {L1.manifestVersion})")
  else validateKeys C [] m.keys

/-- mirrors vaultcore/src/manifest.rs:121-128 (`Manifest::new`) -/
def Manifest.new (vaultId : Uuid) (now : OffsetDateTime) : Manifest :=
  ⟨L1.manifestVersion, vaultId, now, []⟩

/-- mirrors vaultcore/src/manifest.rs:153-156 (`Manifest::to_json`) -/
def Manifest.toJson (C : Crates) (m : Manifest) : VaultResult Bytes := do
  m.validate C
  mapErr .serde (C.manifestToVecPretty m)

/-- mirrors vaultcore/src/manifest.rs:158-162 (`Manifest::from_json`) -/
def Manifest.fromJson (C : Crates) (bytes : Bytes) : VaultResult Manifest := do
  let m ← mapErr .serde (C.manifestFromSlice bytes)
  m.validate C
  return m

/-- mirrors vaultcore/src/manifest.rs:168-171 (`blob_sha256_hex`) -/
def blobSha256Hex (C : Crates) (blobBytes : Bytes) : String :=
  hexEncode (C.sha256 blobBytes).toList

/-! ## What the validator accepts -/

structure KeyEntry.Valid (k : KeyEntry) : Prop where
  fido2 : k.fido2.isSome = k.purpose.includesFido2
  digest : (utf8 k.blobSha256).length = 64 ∧ (utf8 k.blobSha256).all isAsciiHexdigit = true
  publicKey : k.publicKeyHex = "" ∨ (utf8 k.publicKeyHex).all isAsciiHexdigit = true

structure Manifest.Valid (m : Manifest) : Prop where
  version : m.manifestVersion = L1.manifestVersion
  keys : ∀ k ∈ m.keys, k.Valid
  nodup : m.keyIds.Nodup

theorem KeyEntry.validate_ok (C : Crates) (k : KeyEntry) : k.validate C = .ok () ↔ k.Valid := by
  unfold KeyEntry.validate
  constructor
  · intro h
    simp only at h
    split at h
    · cases h
    · rename_i h1
      split at h
      · cases h
      · rename_i h2
        split at h
        · cases h
        · rename_i h3
          simp only [not_or, Decidable.not_not, Bool.not_eq_false] at h2
          refine ⟨(Decidable.not_not.1 h1).symm, h2, ?_⟩
          by_cases hp : k.publicKeyHex = ""
          · exact .inl hp
          · exact .inr (Bool.not_eq_false _ ▸ fun hf => h3 ⟨hp, hf⟩)
  · intro h
    simp only
    rw [if_neg (fun hne => hne h.fido2.symm), if_neg (by simp [h.digest]), if_neg]
    rintro ⟨hp, hf⟩
    rcases h.publicKey with he | ha
    · exact hp he
    · rw [ha] at hf; cases hf

theorem validateKeys_ok (C : Crates) : ∀ (ks : List KeyEntry) (seen : List Uuid),
    validateKeys C seen ks = .ok () ↔
      (∀ k ∈ ks, k.Valid) ∧ (ks.map KeyEntry.keyId).Nodup ∧ ∀ k ∈ ks, k.keyId ∉ seen := by
  intro ks
  induction ks with
  | nil => intro seen; simp [validateKeys]
  | cons k ks ih =>
    intro seen
    unfold validateKeys
    rw [bind_ok_unit, KeyEntry.validate_ok]
    split
    · rename_i hm
      simp [hm]
    · rename_i hm
      rw [ih]
      simp only [List.mem_cons, forall_eq_or_imp, List.map_cons, List.nodup_cons, List.mem_map,
        not_exists, not_and, not_or]
      constructor
      · rintro ⟨h1, h2, h3, h4⟩
        exact ⟨⟨h1, h2⟩, ⟨fun x hx he => (h4 x hx).1 he, h3⟩, hm, fun x hx => (h4 x hx).2⟩
      · rintro ⟨⟨h1, h2⟩, ⟨h3, h4⟩, -, h6⟩
        exact ⟨h1, h2, h4, fun x hx => ⟨h3 x hx, h6 x hx⟩⟩

theorem Manifest.validate_ok (C : Crates) (m : Manifest) : m.validate C = .ok () ↔ m.Valid := by
  unfold Manifest.validate
  split
  · rename_i hv
    constructor
    · intro h; cases h
    · intro h; exact absurd h.version hv
  · rename_i hv
    rw [validateKeys_ok]
    constructor
    · rintro ⟨h1, h2, -⟩; exact ⟨Decidable.not_not.1 hv, h1, h2⟩
    · intro h; exact ⟨h.keys, h.nodup, by simp⟩

theorem Manifest.fromJson_ok (C : Crates) (bytes : Bytes) (m : Manifest) :
    Manifest.fromJson C bytes = .ok m ↔ C.manifestFromSlice bytes = .ok m ∧ m.Valid := by
  unfold Manifest.fromJson
  simp only [bind_ok, mapErr_ok, pure, Except.pure, Except.ok.injEq]
  constructor
  · rintro ⟨m', h1, _, h2, rfl⟩; exact ⟨h1, (Manifest.validate_ok C m').1 h2⟩
  · rintro ⟨h1, h2⟩; exact ⟨m, h1, (), (Manifest.validate_ok C m).2 h2, rfl⟩

theorem Manifest.new_valid (vaultId : Uuid) (now : OffsetDateTime) :
    (Manifest.new vaultId now).Valid :=
  ⟨rfl, by simp [Manifest.new], by simp [Manifest.new, Manifest.keyIds]⟩

theorem blobSha256Hex_wf (C : Crates) (b : Bytes) : (utf8 (blobSha256Hex C b)).length = 64 ∧
    (utf8 (blobSha256Hex C b)).all isAsciiHexdigit = true := by
  obtain ⟨h1, h2⟩ := hexEncode_utf8 (C.sha256 b).toList
  refine ⟨?_, h2⟩
  rw [blobSha256Hex, h1]; simp

end VaultSigner.L1
