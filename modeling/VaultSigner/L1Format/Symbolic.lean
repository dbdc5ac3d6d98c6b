import Mathlib
import VaultSigner.L1Format.Blob

/-!
# A symbolic instance of the foreign crates

`Crates.symbolic` is an instance in which every law a theorem may assume
holds, so no theorem of this development is vacuous. Every record is
countable, so it has a code in `Bytes` that decodes (`code`, `decode`): JSON,
zip and CBOR are such codes, and so is a ciphertext, the code of its key,
nonce, associated data and plaintext. A UUID has its usual hyphenated text.

Results:
* `decode_code`.
* `Crates.symbolic_codec`, `Crates.symbolic_aead`, `Crates.symbolic_binds`: the laws hold.
* `derive_symbolic`, `benchmark_symbolic`, `encryptWithKey_symbolic`: no operation fails
  that the core's own checks let through.
-/
namespace VaultSigner.L1

/-! ## Codes -/

instance countableChar : Countable Char :=
  Function.Injective.countable (f := Char.val) fun _ _ h => Char.ext h

instance countableString : Countable String :=
  Function.Injective.countable (f := String.toList) fun _ _ h => String.toList_inj.1 h

instance countableVector {n : Nat} : Countable (Vector UInt8 n) :=
  Function.Injective.countable (f := Vector.toList) fun _ _ h => Vector.toList_inj.1 h

deriving instance Countable for Uuid
deriving instance Countable for KeyType
deriving instance Countable for Purpose
deriving instance Countable for Fido2Info
deriving instance Countable for KeyEntry
deriving instance Countable for Manifest
deriving instance Countable for MasterBlobPlaintext
deriving instance Countable for KdfParamsOf
deriving instance Countable for KeyBlobOf
deriving instance Countable for CompartmentHeaderOf
deriving instance Countable for ContainerHeaderOf
deriving instance Countable for CtapOptions
deriving instance Countable for MakeCredentialRequest
deriving instance Countable for GetAssertionRequest
deriving instance Countable for CtapRequest
deriving instance Countable for CosePublicKey
deriving instance Countable for AttestedCredentialData
deriving instance Countable for AuthenticatorData
deriving instance Countable for GetAssertionResponse

/-- A code of `a` as bytes: `n` zeroes, for the number `n` of `a` in some
enumeration of its type. -/
noncomputable def code {α : Type} [Countable α] (a : α) : Bytes :=
  List.replicate ((exists_injective_nat α).choose a) 0

open Classical in
noncomputable def decode (α : Type) [Countable α] (b : Bytes) : Option α :=
  if h : ∃ a : α, code a = b then some h.choose else none

theorem code_inj {α : Type} [Countable α] {a a' : α} (h : code a = code a') : a = a' := by
  have hl := congrArg List.length h
  simp only [code, List.length_replicate] at hl
  exact (exists_injective_nat α).choose_spec hl

@[simp] theorem decode_code {α : Type} [Countable α] (a : α) : decode α (code a) = some a := by
  have h : ∃ a' : α, code a' = code a := ⟨a, rfl⟩
  unfold decode
  rw [dif_pos h]
  exact congrArg some (code_inj h.choose_spec)

noncomputable def decodeJson (α : Type) [Countable α] (b : Bytes) : Except String α :=
  match decode α b with
  | some a => .ok a
  | none => .error "expected value"

@[simp] theorem decodeJson_code {α : Type} [Countable α] (a : α) :
    decodeJson α (code a) = .ok a := by simp [decodeJson]

/-! ## UUID text -/

/-- The hyphenated text, 8-4-4-4-12. -/
def hyphenated (u : Uuid) : String :=
  let h := (hexEncode u.asBytes).toList
  String.ofList (h.take 8 ++ '-' :: ((h.drop 8).take 4 ++ '-' :: ((h.drop 12).take 4 ++
    '-' :: ((h.drop 16).take 4 ++ '-' :: h.drop 20))))

def parseHyphenated (s : String) : Except String Uuid :=
  match hexDecodeChars (s.toList.filter (· ≠ '-')) with
  | some b => if h : b.length = 16 then .ok ⟨⟨b.toArray, h⟩⟩ else .error "invalid length"
  | none => .error "invalid character"

theorem hexDigit_ne_hyphen (n : Nat) (h : n < 16) : hexDigit n ≠ '-' := by
  have := (by decide : ∀ i : Fin 16, hexDigit i.val ≠ '-')
  exact this ⟨n, h⟩

theorem parseHyphenated_hyphenated (u : Uuid) : parseHyphenated (hyphenated u) = .ok u := by
  have hne : ∀ c ∈ (hexEncode u.asBytes).toList, c ≠ '-' := by
    intro c hc
    simp only [hexEncode, String.toList_ofList, List.mem_flatMap, List.mem_cons,
      List.not_mem_nil, or_false] at hc
    obtain ⟨x, -, rfl | rfl⟩ := hc
    · exact hexDigit_ne_hyphen _ (by have := x.toNat_lt; omega)
    · exact hexDigit_ne_hyphen _ (by omega)
  have hf : ∀ l : List Char, (∀ c ∈ l, c ∈ (hexEncode u.asBytes).toList) →
      l.filter (· ≠ '-') = l := fun l hl =>
    List.filter_eq_self.2 fun c hc => by simpa using hne c (hl c hc)
  have hsplit : ((hyphenated u).toList.filter (· ≠ '-')) = (hexEncode u.asBytes).toList := by
    unfold hyphenated
    simp only [String.toList_ofList, List.filter_append, List.filter_cons]
    rw [hf _ fun c hc => List.mem_of_mem_take hc,
      hf _ fun c hc => List.mem_of_mem_drop (List.mem_of_mem_take hc),
      hf _ fun c hc => List.mem_of_mem_drop (List.mem_of_mem_take hc),
      hf _ fun c hc => List.mem_of_mem_drop (List.mem_of_mem_take hc),
      hf _ fun c hc => List.mem_of_mem_drop hc]
    simp only [ne_eq, not_true_eq_false, decide_false, Bool.false_eq_true, if_false]
    have hd : ∀ (l : List Char) (n : Nat), l.take n ++ l.drop n = l := fun l n =>
      List.take_append_drop n l
    have hdd : ∀ (l : List Char) (n m : Nat), (l.drop n).take m ++ l.drop (n + m) = l.drop n :=
      fun l n m => by rw [← List.drop_drop, hd]
    rw [hdd _ 16 4, hdd _ 12 4, hdd _ 8 4, hd]
  unfold parseHyphenated
  rw [hsplit, show hexDecodeChars (hexEncode u.asBytes).toList = some u.asBytes from
    hexDecode_hexEncode u.asBytes]
  simp only [Uuid.asBytes_length, dite_true]
  exact congrArg (fun v => Except.ok (Uuid.mk v))
    (Vector.toArray_inj.1 u.bytes.toArray.toArray_toList)

/-! ## The instance -/

/-- Thirty-two bytes of a byte string, padded with zeroes. -/
def pad32 (b : Bytes) : Vector UInt8 32 := Vector.ofFn fun i => b.getD i.val 0

noncomputable def Crates.symbolic : Crates where
  uuidToString := hyphenated
  uuidParse := parseHyphenated
  base64Encode := hexEncode
  base64Decode := hexDecode
  rfc3339 := fun _ => some "1970-01-01T00:00:00Z"
  hexError := fun _ => "Invalid character"
  sha256 := fun b => pad32 [UInt8.ofNat b.length]
  argon2id := fun pw p => .ok (pad32 (pw ++ p.salt.toList))
  aeadEncrypt := fun k n a m => some (code (k, n, a, m))
  aeadDecrypt := fun k n a c =>
    match decode (Key × Nonce × Bytes × Bytes) c with
    | some (k', n', a', m) => if k' = k ∧ n' = n ∧ a' = a then some m else none
    | none => none
  ed25519PublicKey := id
  ed25519Sign := fun seed m => UInt8.ofNat m.length :: seed.toList
  p256PublicKey := fun s => 4 :: (s.toList ++ s.toList)
  p256Sign := fun sk m => .ok (UInt8.ofNat m.length :: sk)
  manifestToVecPretty := fun m => .ok (code m)
  manifestFromSlice := decodeJson Manifest
  plaintextToVec := fun p => .ok (code p)
  plaintextFromSlice := decodeJson MasterBlobPlaintext
  keyBlobToVec := fun k => .ok (code k)
  keyBlobFromSlice := decodeJson (KeyBlobOf String)
  headerToVecPretty := fun h => .ok (code h)
  headerFromSlice := decodeJson (ContainerHeaderOf String)
  kdfParamsFromStr := fun s => decodeJson (KdfParamsOf String) (utf8 s)
  serdeCustom := fun _ m => m
  rawRequestFromSlice := fun b => .ok ⟨"vaultsigner.sign", .string (hexEncode b), .null⟩
  signParamsFromValue := fun v =>
    match v with
    | .string s => .ok ⟨s, "", none⟩
    | _ => .error "expected struct SignParams"
  valueToVec := fun _ => []
  zipWrite := fun es => .ok (code es)
  zipRead := fun b =>
    match decode (List (String × Bytes)) b with
    | some es => .ok es
    | none => .error (.archive "invalid Zip archive")
  ctapDeserialize := decode CtapRequest
  coseKey := fun k => some (code k)
  authData := fun d => some (code d)
  makeCredentialCbor := fun d => some d
  getAssertionCbor := fun r => some (code r)
  coseCoordinateLen := 32
  maxCredentialIdLen := 255
  maxSignatureLen := 255
  maxUserIdLen := 64

theorem decodeJson_of_code {α : Type} [Countable α] {a : α} {b : Bytes}
    (h : (Except.ok (code a) : Except String Bytes) = .ok b) : decodeJson α b = .ok a := by
  cases h; exact decodeJson_code a

theorem Crates.symbolic_codec : Crates.symbolic.CodecLaws where
  uuid := fun u => by simp only [Crates.symbolic]; exact parseHyphenated_hyphenated u
  base64 := fun b => by simp only [Crates.symbolic]; exact hexDecode_hexEncode b
  manifest := fun _ _ h => decodeJson_of_code h
  plaintext := fun _ _ h => decodeJson_of_code h
  keyBlob := fun _ _ h => decodeJson_of_code h
  header := fun _ _ h => decodeJson_of_code h
  zip := fun es b _ h => by
    have hb : code es = b := by simpa [Crates.symbolic] using h
    simp [Crates.symbolic, ← hb]

theorem Crates.symbolic_aead : Crates.symbolic.AeadLaws where
  correct := by rintro k n a m c h; cases h; simp [Crates.symbolic]

/-- Here a ciphertext opens under one key only, too. -/
theorem Crates.symbolic_committing {k k' : Key} {n : Nonce} {a a' c m m' : Bytes}
    (h : Crates.symbolic.aeadDecrypt k n a c = some m)
    (h' : Crates.symbolic.aeadDecrypt k' n a' c = some m') :
    k' = k ∧ a' = a := by
  simp only [Crates.symbolic] at h h'
  cases hd : decode (Key × Nonce × Bytes × Bytes) c with
  | none => simp [hd] at h
  | some q =>
    simp only [hd, Option.ite_none_right_eq_some] at h h'
    obtain ⟨⟨h1, -, h2⟩, -⟩ := h
    obtain ⟨⟨h3, -, h4⟩, -⟩ := h'
    exact ⟨h3.symm.trans h1, h4.symm.trans h2⟩

theorem Crates.symbolic_binds : Crates.symbolic.AeadBinds where
  binds := fun _ _ _ _ _ _ _ h h' => (Crates.symbolic_committing h h').2

theorem Crates.symbolic_commits : Crates.symbolic.AeadCommits where
  commits := fun _ _ _ _ _ _ _ h h' => (Crates.symbolic_committing h h').1

theorem Crates.symbolic_ideal : Crates.symbolic.AeadIdeal where
  opens := fun _ _ _ _ _ _ _ _ h h' => Crates.symbolic_committing h h'

/-! ## No crate fails -/

theorem derive_symbolic (pw : Bytes) (p : KdfParams) :
    derive Crates.symbolic pw p = .ok (pad32 (pw ++ p.salt.toList)) := by
  simp only [derive, Crates.symbolic, mapErr]

/-- The sample KDF tells passphrases by their first byte. -/
theorem derive_symbolic_head {a a' : UInt8} {pw pw' : Bytes} {p : KdfParams} {key : Key}
    (h : derive Crates.symbolic (a :: pw) p = .ok key)
    (h' : derive Crates.symbolic (a' :: pw') p = .ok key) :
    a = a' := by
  rw [derive_symbolic] at h h'
  have hkey := congrArg (fun k : Key => k[0]) (Except.ok.inj (h.trans h'.symm))
  simpa [pad32] using hkey

/-- A probe that is slow enough at once. -/
theorem benchmark_symbolic {salts : Nat → Except String Salt} {elapsed : UInt32 → Nat}
    (hs : ∀ i, ∃ s, salts i = .ok s) (he : ∀ i, benchmarkTargetMin ≤ elapsed i)
    (profile : DeviceProfile) : ∃ p, benchmark Crates.symbolic profile salts elapsed = .ok p := by
  obtain ⟨s0, h0⟩ := hs 0
  obtain ⟨s1, h1⟩ := hs 1
  have hloop : ∀ m par, benchmarkLoop Crates.symbolic m par s0 elapsed floorIterations =
      .ok floorIterations := by
    intro m par
    unfold benchmarkLoop
    simp only [Crates.symbolic, mapErr]
    rw [if_pos (.inl (he _))]
  unfold benchmark
  simp only [h0, h1, mapErr, hloop, bind, Except.bind, pure, Except.pure]
  exact ⟨_, rfl⟩

theorem encryptWithKey_symbolic {m : Manifest} (hm : m.Valid) (c : Uuid) (key : Key) {n : Nonce}
    {nonce : Except String Nonce} (hn : nonce = .ok n) :
    ∃ b, encryptWithKey Crates.symbolic c m key nonce = .ok b := by
  have hv := (MasterBlobPlaintext.validate_new Crates.symbolic m).2 hm
  subst hn
  unfold encryptWithKey MasterBlobPlaintext.toJson
  rw [hv]
  simp only [Crates.symbolic, mapErr, bind, Except.bind, aeadEncrypt]
  exact ⟨_, rfl⟩

/-- The text whose bytes are the code of `m`. -/
noncomputable def jsonText (m : Manifest) : String :=
  String.ofList (List.replicate (code m).length (Char.ofNat 0))

theorem utf8_zeroes {α : Type} [Countable α] (a : α) :
    utf8 (String.ofList (List.replicate (code a).length (Char.ofNat 0))) = code a := by
  have h0 : ∀ c ∈ List.replicate (code a).length (Char.ofNat 0), c.val.toNat < 128 := by
    intro c hc
    rw [(List.mem_replicate.1 hc).2]
    decide
  rw [utf8_ascii _ h0, List.map_replicate]
  simp only [code, List.length_replicate]
  rfl

theorem utf8_jsonText (m : Manifest) : utf8 (jsonText m) = code m := utf8_zeroes m

theorem fromJson_jsonText {m : Manifest} (hm : m.Valid) :
    Manifest.fromJson Crates.symbolic (utf8 (jsonText m)) = .ok m := by
  rw [Manifest.fromJson_ok, utf8_jsonText]
  exact ⟨by simp only [Crates.symbolic, decodeJson_code], hm⟩

/-! ## Sample records -/

/-- The UUID of sixteen equal bytes. -/
def Uuid.rep (b : UInt8) : Uuid := ⟨Vector.replicate 16 b⟩

theorem Uuid.rep_inj {a b : UInt8} : Uuid.rep a = Uuid.rep b ↔ a = b := by
  constructor
  · intro h
    have h0 := congrArg (fun u : Uuid => u.bytes[0]) h
    simpa [Uuid.rep] using h0
  · rintro rfl; rfl

def KeyEntry.sample (keyId : Uuid) (label : String) (fido2 : Option Fido2Info) : KeyEntry where
  keyId := keyId
  label := label
  description := ""
  resource := ""
  keyType := .ed25519
  purpose := if fido2.isSome then .fido2 else .customSigning
  fido2 := fido2
  createdAt := 0
  lastUsedAt := none
  tags := []
  blobFile := ""
  blobSha256 := hexEncode (List.replicate 32 0)
  publicKeyHex := ""

theorem KeyEntry.sample_valid (keyId : Uuid) (label : String) (fido2 : Option Fido2Info) :
    (KeyEntry.sample keyId label fido2).Valid where
  fido2 := by cases fido2 <;> rfl
  digest := hexEncode_utf8 (List.replicate 32 0)
  publicKey := .inl rfl

def Manifest.sample (keys : List KeyEntry) : Manifest := ⟨L1.manifestVersion, Uuid.rep 0, 0, keys⟩

/-- A passkey for `rp` with credential id `cred`. -/
def Fido2Info.sample (rp cred : String) (signCount : UInt32) : Fido2Info :=
  ⟨rp, cred, "", signCount, true⟩

end VaultSigner.L1
