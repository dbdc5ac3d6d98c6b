import VaultSigner.L1Format.Container
import VaultSigner.L1Format.Serde
import VaultSigner.L1Format.Symbolic

/-!
# Reading back

The three formats of a vault file: the container's entries, the key blob, the
manifest in its master blob.

Results:
* `container_roundTrip`: the entries of a container give it back, in any order.
* `keyMetadata_inj`: what a key's fingerprint is taken of can be taken apart.
* `keyblob_opens_iff`: a key blob opens for what was sealed, and nothing else.
* `manifest_roundTrip`: a manifest comes back from JSON and from a master blob,
  and a master blob opens for one compartment and key.
-/
namespace VaultSigner.L1
open VaultSigner.Core

/-! ## The container -/

/-- Other versions are not read. -/
theorem parseEntries_version {C : Crates} {o : Orders} {entries : HashMap String Bytes} {b : Bytes}
    {doc : ContainerHeaderOf String} (hb : entries.get headerEntry = some b)
    (hd : C.headerFromSlice b = .ok doc) (hv : doc.formatVersion ≠ L1.formatVersion) :
    ∃ x, Container.parseEntries C o entries = .error x := by
  unfold Container.parseEntries
  rw [hb]
  simp only [hd, mapErr, bind, Except.bind]
  unfold ContainerHeaderOf.ofDoc
  cases compartmentsOfDoc C b doc.compartments with
  | error x => exact ⟨x, rfl⟩
  | ok cs =>
    simp only [bind, Except.bind, pure, Except.pure]
    rw [if_pos hv]
    exact ⟨_, rfl⟩

/-- **The container codec round-trips**, whatever the orders of writing and
reading; a container with another version is not read. -/
theorem container_roundTrip {C : Crates} (hC : C.CodecLaws) (c : Container) {header : Bytes}
    (hh : C.headerToVecPretty c.header.toDoc = .ok header) (o : Orders) :
    ∃ es, c.buildEntries C o = .ok es ∧ (es.map Prod.fst).Nodup ∧
      (c.header.formatVersion = L1.formatVersion →
        ∀ o', Container.parseEntries C o' (HashMap.ofList es ∅) = .ok c) ∧
      (c.header.formatVersion ≠ L1.formatVersion →
        ∀ o', ∃ x, Container.parseEntries C o' (HashMap.ofList es ∅) = .error x) := by
  have hes : ∃ es, c.buildEntries C o = .ok es := by
    unfold Container.buildEntries
    rw [hh]
    exact ⟨_, rfl⟩
  obtain ⟨es, hes⟩ := hes
  have hn := c.buildEntries_nodup hC hes
  refine ⟨es, hes, hn, fun hv => c.parseEntries_buildEntries hC hv hes, fun hv o' => ?_⟩
  obtain ⟨b, hb, hlist⟩ := c.buildEntries_ok hes
  have hget : (HashMap.ofList es ∅).get headerEntry = some b :=
    (HashMap.get_ofList hn _ _).2 (by rw [hlist]; exact List.mem_cons_self ..)
  exact parseEntries_version hget (hC.header _ _ hb) hv

/-- A container with a compartment, its master blob and a key. -/
theorem container_roundTrip_sample : ∃ (c : Container) (o : Orders) (es : List (String × Bytes)),
    c.masterBlobs.get (Uuid.rep 1) = some [7] ∧ c.keyBlobs.get (Uuid.rep 2) = some [8] ∧
    c.buildEntries Crates.symbolic o = .ok es ∧
    Container.parseEntries Crates.symbolic o (HashMap.ofList es ∅) = .ok c := by
  obtain ⟨o⟩ : Nonempty Orders := ⟨⟨.toList, .toList, .toList, .toList, .toList⟩⟩
  obtain ⟨es, hes, -, hok, -⟩ := container_roundTrip Crates.symbolic_codec
    ⟨⟨L1.formatVersion, L1.aeadAlg, [⟨Uuid.rep 1, "home", ⟨65536, 3, 1, Vector.replicate 16 5⟩⟩]⟩,
      (∅ : HashMap Uuid Bytes).put (Uuid.rep 1) [7], (∅ : HashMap Uuid Bytes).put (Uuid.rep 2) [8]⟩
        rfl o
  exact ⟨_, o, es, HashMap.get_put_self _ _ _, HashMap.get_put_self _ _ _, hes, hok rfl o⟩

/-! ## The key blob -/

/-- Two passphrases do not give the same key. -/
def Crates.KdfSeparates (C : Crates) (params : KdfParams) (pw pw' : Bytes) : Prop :=
  ∀ key, derive C pw params = .ok key → derive C pw' params = .ok key → pw' = pw

/-- Two texts do not have the same digest. -/
def Crates.ShaSeparates (C : Crates) (x y : Bytes) : Prop := C.sha256 y = C.sha256 x → y = x

/-- **The metadata of a key can be taken apart**, though it has no separators:
no type's tag is the beginning of another's. -/
theorem keyMetadata_inj {id id' : Uuid} {ty ty' : KeyType} {label label' : String} :
    keyMetadata id ty label = keyMetadata id' ty' label' ↔ id = id' ∧ ty = ty' ∧
    label = label' := by
  constructor
  · intro h
    unfold keyMetadata at h
    rw [List.append_assoc, List.append_assoc] at h
    obtain ⟨hid, h⟩ := List.append_inj h (by simp)
    have htag : ty = ty' := by
      have hfirst : ∀ (t : KeyType) (l : Bytes), (keyTypeTag t ++ l)[1]? = (keyTypeTag t)[1]? := by
        intro t l
        cases t <;> exact List.getElem?_append_left (by decide)
      have hsecond : (keyTypeTag ty)[1]? = (keyTypeTag ty')[1]? := by
        rw [← hfirst ty (utf8 label), h, hfirst]
      -- `ed25519` and `ecdsa-p256` differ in the second letter
      revert hsecond
      cases ty <;> cases ty' <;> decide
    subst htag
    exact ⟨Uuid.asBytes_inj.1 hid, rfl, utf8_inj.1 (List.append_cancel_left h)⟩
  · rintro ⟨rfl, rfl, rfl⟩
    rfl

/-- **A key blob opens exactly for what was sealed**: the same passphrase, key
id, type and label give the key back, and everything else is an error; also
after the blob was written and read. -/
theorem keyblob_opens_iff {C : Crates} (hC : C.CodecLaws) (hA : C.AeadLaws) (hI : C.AeadIdeal)
    {pw sk : Bytes} {id : Uuid} {ty : KeyType} {label : String} {params : KdfParams}
    {nonce : Except String Nonce} {blob : KeyBlob}
    (hs : keyblobSeal C pw sk id ty label params nonce = .ok blob) {pw' : Bytes} {id' : Uuid}
    {ty' : KeyType} {label' : String} (hkdf : C.KdfSeparates params pw pw')
    (hsha : C.ShaSeparates (keyMetadata id ty label) (keyMetadata id' ty' label')) :
    (keyblobOpen C blob pw' id' ty' label' = .ok sk ↔ pw' = pw ∧ id' = id ∧ ty' = ty ∧
      label' = label) ∧
    (∀ sk', keyblobOpen C blob pw' id' ty' label' = .ok sk' → sk' = sk) ∧
    ∀ bytes, blob.toBytes C = .ok bytes →
      opens C bytes pw' id' ty' label' = keyblobOpen C blob pw' id' ty' label' := by
  obtain ⟨hopen, hparams⟩ := keyblobOpen_keyblobSeal hA hs
  have hsame : ∀ {sk'}, keyblobOpen C blob pw' id' ty' label' = .ok sk' →
      (pw' = pw ∧ id' = id ∧ ty' = ty ∧ label' = label) ∧ sk' = sk := by
    intro sk' hopen'
    obtain ⟨hsk, hid, hfp, key, hk, hk'⟩ := keyblobOpen_ideal hI hopen hopen'
    rw [hparams] at hk hk'
    obtain ⟨-, rfl, rfl⟩ := keyMetadata_inj.1 (hsha hfp)
    exact ⟨⟨hkdf key hk hk', hid, rfl, rfl⟩, hsk⟩
  refine ⟨⟨fun h => (hsame h).1, ?_⟩, fun sk' h => (hsame h).2, fun bytes hb => ?_⟩
  · rintro ⟨rfl, rfl, rfl, rfl⟩
    exact hopen
  · unfold opens
    rw [KeyBlobOf.fromBytes_toBytes hC hb]
    rfl

/-- A sealed key does not open under another label. -/
theorem keyblob_opens_iff_sample : ∃ blob : KeyBlob,
    keyblobSeal Crates.symbolic [1] (List.replicate 32 7) (Uuid.rep 1) .ed25519 "mail"
      ⟨65536, 3, 1, Vector.replicate 16 5⟩ (.ok (Vector.replicate 24 0)) = .ok blob ∧
    keyblobOpen Crates.symbolic blob [1] (Uuid.rep 1) .ed25519 "mails" ≠
    .ok (List.replicate 32 7) := by
  obtain ⟨blob, hs⟩ : ∃ blob : KeyBlob,
      keyblobSeal Crates.symbolic [1] (List.replicate 32 7) (Uuid.rep 1) .ed25519 "mail"
        ⟨65536, 3, 1, Vector.replicate 16 5⟩ (.ok (Vector.replicate 24 0)) = .ok blob := ⟨_, rfl⟩
  refine ⟨blob, hs, fun hopen => ?_⟩
  -- the digest of the sample crates is the length
  have hsha : Crates.symbolic.ShaSeparates (keyMetadata (Uuid.rep 1) .ed25519 "mail")
      (keyMetadata (Uuid.rep 1) .ed25519 "mails") := by
    intro h
    have h0 := congrArg (fun v : Vector UInt8 32 => v[0]) h
    exact absurd h0 (by decide)
  obtain ⟨-, -, -, hlabel⟩ := (keyblob_opens_iff Crates.symbolic_codec Crates.symbolic_aead
    Crates.symbolic_ideal hs (fun _ _ _ => rfl) hsha).1.1 hopen
  exact absurd hlabel (by decide)

/-! ## The manifest -/

/-- An index without repetitions over the keys of a manifest is a permutation
of them. -/
theorem MasterBlobPlaintext.index_perm {C : Crates} {p : MasterBlobPlaintext}
    (h : p.validate C = .ok ()) :
    p.keyIndex.Perm (p.manifest.keys.map KeyEntry.keyId) ∧
    (p.manifest.keys.map KeyEntry.keyId).Nodup := by
  obtain ⟨hv, hn, hset⟩ := (MasterBlobPlaintext.validate_ok C p).1 h
  exact ⟨List.perm_of_nodup_nodup_toFinset_eq hn hv.nodup hset.symm, hv.nodup⟩

theorem MasterBlobPlaintext.fromJson_ok {C : Crates} {b : Bytes} {p : MasterBlobPlaintext} :
    MasterBlobPlaintext.fromJson C b = .ok p ↔ C.plaintextFromSlice b = .ok p ∧
    p.validate C = .ok () := by
  unfold MasterBlobPlaintext.fromJson
  simp only [bind_ok, mapErr_ok, pure, Except.pure, Except.ok.injEq]
  constructor
  · rintro ⟨p', h1, _, h2, rfl⟩
    exact ⟨h1, h2⟩
  · rintro ⟨h1, h2⟩
    exact ⟨p, h1, (), h2, rfl⟩

theorem decryptWithKey_ok {C : Crates} {c : Uuid} {b : Bytes} {key : Key}
    {p : MasterBlobPlaintext} :
    decryptWithKey C c b key = .ok p ↔
      ∃ json, aeadDecrypt C key b c.asBytes = .ok json ∧ C.plaintextFromSlice json = .ok p ∧
        p.validate C = .ok () := by
  unfold decryptWithKey
  rw [bind_ok]
  exact exists_congr fun json => and_congr_right fun _ => MasterBlobPlaintext.fromJson_ok

theorem encryptWithKey_ok {C : Crates} {c : Uuid} {m : Manifest} {key : Key} {b : Bytes}
    {nonce : Except String Nonce} :
    encryptWithKey C c m key nonce = .ok b ↔
      ∃ json, C.plaintextToVec (.new m) = .ok json ∧ m.Valid ∧
        aeadEncrypt C key json c.asBytes nonce = .ok b := by
  unfold encryptWithKey MasterBlobPlaintext.toJson
  rw [bind_ok]
  refine exists_congr fun json => ?_
  rw [bind_ok_unit, mapErr_ok, MasterBlobPlaintext.validate_new]
  tauto

/-- **The manifest and master-blob codecs round-trip and bind.** -/
theorem manifest_roundTrip {C : Crates} {J : Json} (hd : C.Derives J) (hj : J.RoundTrips)
    (hu : ∀ u, C.uuidParse (C.uuidToString u) = .ok u) (hA : C.AeadLaws) (hI : C.AeadIdeal) :
    (∀ m b, m.validate C = .ok () → C.manifestToVecPretty m = .ok b →
      m.toJson C = .ok b ∧ Manifest.fromJson C b = .ok m) ∧
    (∀ c m key nonce b, encryptWithKey C c m key nonce = .ok b →
      decryptWithKey C c b key = .ok ⟨m, m.keys.map KeyEntry.keyId⟩ ∧
      ∀ c' key', (c', key') ≠ (c, key) → ∃ x, decryptWithKey C c' b key' = .error x) ∧
    ∀ c b key p, decryptWithKey C c b key = .ok p →
      p.keyIndex.Perm (p.manifest.keys.map KeyEntry.keyId) ∧
      (p.manifest.keys.map KeyEntry.keyId).Nodup := by
  refine ⟨fun m b hv hb => ⟨?_, ?_⟩, fun c m key nonce b he => ?_, fun c b key p hp => ?_⟩
  · unfold Manifest.toJson
    rw [bind_ok_unit, mapErr_ok]
    exact ⟨hv, hb⟩
  · exact (Manifest.fromJson_ok C b m).2 ⟨hd.manifest hu hj hb, (Manifest.validate_ok C m).1 hv⟩
  · obtain ⟨json, hjson, hv, ha⟩ := encryptWithKey_ok.1 he
    have hopen : aeadDecrypt C key b c.asBytes = .ok json := aeadDecrypt_aeadEncrypt hA ha
    refine ⟨decryptWithKey_ok.2 ⟨json, hopen, hd.plaintext hu hj hjson,
      (MasterBlobPlaintext.validate_new C m).2 hv⟩, fun c' key' hne => ?_⟩
    cases hp : decryptWithKey C c' b key' with
    | error x => exact ⟨x, rfl⟩
    | ok p =>
      obtain ⟨json', hopen', -, -⟩ := decryptWithKey_ok.1 hp
      obtain ⟨rfl, haad, -⟩ := aeadDecrypt_ideal hI hopen hopen'
      exact absurd (by rw [Uuid.asBytes_inj.1 haad]) hne
  · obtain ⟨json, -, -, hv⟩ := decryptWithKey_ok.1 hp
    exact MasterBlobPlaintext.index_perm hv

/-! A value as a tree, for an instance in which the hypotheses hold. -/

inductive Code where
  | null
  | bool (b : Bool)
  | number (s : String)
  | string (s : String)
  | array (c : Code)
  | object (c : Code)
  | nil
  | cons (a b : Code)
  | field (s : String) (a b : Code)
deriving Countable

mutual

def Value.toCode : Value → Code
  | .null => .null
  | .bool b => .bool b
  | .number s => .number s
  | .string s => .string s
  | .array vs => .array (toCodes vs)
  | .object fs => .object (toFields fs)

def toCodes : List Value → Code
  | [] => .nil
  | v :: vs => .cons v.toCode (toCodes vs)

def toFields : List (String × Value) → Code
  | [] => .nil
  | (s, v) :: fs => .field s v.toCode (toFields fs)

end

mutual

def Code.toValue : Code → Value
  | .null => .null
  | .bool b => .bool b
  | .number s => .number s
  | .string s => .string s
  | .array c => .array c.toValues
  | .object c => .object c.toFields
  | .nil => .null
  | .cons _ _ => .null
  | .field _ _ _ => .null

def Code.toValues : Code → List Value
  | .cons a b => a.toValue :: b.toValues
  | _ => []

def Code.toFields : Code → List (String × Value)
  | .field s a b => (s, a.toValue) :: b.toFields
  | _ => []

end

mutual

theorem Value.toValue_toCode : ∀ v : Value, v.toCode.toValue = v
  | .null => rfl
  | .bool _ => rfl
  | .number _ => rfl
  | .string _ => rfl
  | .array vs => congrArg Value.array (toValues_toCodes vs)
  | .object fs => congrArg Value.object (toFields_toFields fs)

theorem toValues_toCodes : ∀ vs : List Value, (toCodes vs).toValues = vs
  | [] => rfl
  | v :: vs => by
    show v.toCode.toValue :: (toCodes vs).toValues = v :: vs
    rw [v.toValue_toCode, toValues_toCodes vs]

theorem toFields_toFields : ∀ fs : List (String × Value), (toFields fs).toFields = fs
  | [] => rfl
  | (s, v) :: fs => by
    show (s, v.toCode.toValue) :: (toFields fs).toFields = (s, v) :: fs
    rw [v.toValue_toCode, toFields_toFields fs]

end

instance : Countable Value :=
  (Function.LeftInverse.injective Value.toValue_toCode).countable

noncomputable def Json.symbolic : Json where
  toVec := code
  toVecPretty := code
  fromSlice := decode Value
  formatRfc3339 := fun t => .ok (hexEncode (code t))
  parseRfc3339 := fun s => (hexDecode s).bind (decode OffsetDateTime)

theorem Json.symbolic_roundTrips : Json.symbolic.RoundTrips where
  vec := decode_code
  vecPretty := decode_code
  rfc3339 := by
    intro t s h
    cases h
    show (hexDecode (hexEncode (code t))).bind (decode OffsetDateTime) = some t
    rw [hexDecode_hexEncode, Option.bind_some, decode_code]

/-- The symbolic crates, with the derived code for the manifest. -/
noncomputable def Crates.derived : Crates := { Crates.symbolic with
  manifestToVecPretty :=
    fun m => (m.toValue Crates.symbolic Json.symbolic).map Json.symbolic.toVecPretty
  manifestFromSlice := fun b =>
    match (Json.symbolic.fromSlice b).bind (Manifest.ofValue Crates.symbolic Json.symbolic) with
    | some m => .ok m
    | none => .error "expected struct Manifest"
  plaintextToVec := fun p => (p.toValue Crates.symbolic Json.symbolic).map Json.symbolic.toVec
  plaintextFromSlice := fun b =>
    match (Json.symbolic.fromSlice b).bind
      (MasterBlobPlaintext.ofValue Crates.symbolic Json.symbolic) with
    | some p => .ok p
    | none => .error "expected struct MasterBlobPlaintext" }

theorem Crates.derived_derives : Crates.derived.Derives Json.symbolic where
  manifestToVecPretty := fun _ => rfl
  manifestFromSlice := by
    intro b m
    rw [← Option.bind_eq_some_iff]
    show (match (Json.symbolic.fromSlice b).bind
      (Manifest.ofValue Crates.symbolic Json.symbolic) with
      | some m => .ok m | none => .error "expected struct Manifest") = Except.ok m ↔
        (Json.symbolic.fromSlice b).bind (Manifest.ofValue Crates.symbolic Json.symbolic) = some m
    cases (Json.symbolic.fromSlice b).bind (Manifest.ofValue Crates.symbolic Json.symbolic) <;> simp
  plaintextToVec := fun _ => rfl
  plaintextFromSlice := by
    intro b p
    rw [← Option.bind_eq_some_iff]
    show (match (Json.symbolic.fromSlice b).bind
      (MasterBlobPlaintext.ofValue Crates.symbolic Json.symbolic) with
      | some p => .ok p | none => .error "expected struct MasterBlobPlaintext") = Except.ok p ↔
        (Json.symbolic.fromSlice b).bind
          (MasterBlobPlaintext.ofValue Crates.symbolic Json.symbolic) = some p
    cases (Json.symbolic.fromSlice b).bind
      (MasterBlobPlaintext.ofValue Crates.symbolic Json.symbolic) <;> simp

/-- A compartment with a passkey and a signing key. -/
theorem manifest_roundTrip_sample : ∃ (m : Manifest) (key : Key) (b : Bytes),
    m = .sample [.sample (Uuid.rep 1) "mail" (some (.sample "example.org" "00" 3)),
      .sample (Uuid.rep 2) "git" none] ∧
    encryptWithKey Crates.derived (Uuid.rep 9) m key (.ok (Vector.replicate 24 0)) = .ok b ∧
    decryptWithKey Crates.derived (Uuid.rep 9) b key = .ok ⟨m, [Uuid.rep 1, Uuid.rep 2]⟩ ∧
    ∃ x, decryptWithKey Crates.derived (Uuid.rep 8) b key = .error x := by
  have hv : (Manifest.sample [.sample (Uuid.rep 1) "mail" (some (.sample "example.org" "00" 3)),
      .sample (Uuid.rep 2) "git" none]).Valid := by
    refine ⟨rfl, fun k hk => ?_, by decide⟩
    rcases List.mem_pair.1 hk with rfl | rfl <;> exact KeyEntry.sample_valid _ _ _
  have hu : ∀ u, Crates.derived.uuidParse (Crates.derived.uuidToString u) = .ok u := by
    intro u
    simp only [Crates.derived, Crates.symbolic]
    exact parseHyphenated_hyphenated u
  have hA : Crates.derived.AeadLaws := ⟨Crates.symbolic_aead.correct⟩
  have hI : Crates.derived.AeadIdeal := ⟨Crates.symbolic_ideal.opens⟩
  obtain ⟨b, he⟩ : ∃ b, encryptWithKey Crates.derived (Uuid.rep 9) _ (Vector.replicate 32 4)
      (.ok (Vector.replicate 24 0)) = .ok b := ⟨_, encryptWithKey_ok.2 ⟨_, rfl, hv, rfl⟩⟩
  obtain ⟨-, hopen, -⟩ :=
    manifest_roundTrip Crates.derived_derives Json.symbolic_roundTrips hu hA hI
  obtain ⟨hok, herr⟩ := hopen _ _ _ _ _ he
  exact ⟨_, _, b, rfl, he, hok, herr (Uuid.rep 8) _ fun h =>
    absurd (congrArg Prod.fst h) (by decide)⟩

end VaultSigner.L1
