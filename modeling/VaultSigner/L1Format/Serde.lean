import Mathlib
import VaultSigner.L1Format.Blob

/-!
# The JSON of a manifest (`manifest.rs`, `master_blob.rs`)

What the derived `Serialize` and `Deserialize` of the manifest types do, down
to `serde_json`'s values: renamed enumerations, an absent `fido2` block that is
skipped, fields that may be missing. `Json` is what lies below: the text of a
value, and of a timestamp.

Results:
* `KeyEntry.ofValue_toValue`, `Manifest.ofValue_toValue`: every field survives.
* `Crates.Derives.manifest`, `Crates.Derives.plaintext`: with the derived code,
  what is written reads back.
-/
namespace VaultSigner.L1

/-- The calls of `serde_json` and `time` below the derived code. -/
structure Json where
  toVec : Value → Bytes
  toVecPretty : Value → Bytes
  fromSlice : Bytes → Option Value
  formatRfc3339 : OffsetDateTime → Except String String
  parseRfc3339 : String → Option OffsetDateTime

/-- The text of a value, and of a timestamp, reads back. -/
structure Json.RoundTrips (J : Json) : Prop where
  vec : ∀ v, J.fromSlice (J.toVec v) = some v
  vecPretty : ∀ v, J.fromSlice (J.toVecPretty v) = some v
  rfc3339 : ∀ t s, J.formatRfc3339 t = .ok s → J.parseRfc3339 s = some t

/-! ## Values -/

def Value.ofU32 (n : UInt32) : Value := .number n.toNat.repr

def Value.asU32 : Value → Option UInt32
  | .number s =>
    let n := Nat.ofDigitChars 10 s.toList 0
    if s.toList ≠ [] ∧ s.toList.all Char.isDigit ∧ n < 2 ^ 32 then some (UInt32.ofNat n) else none
  | _ => none

def Value.asString : Value → Option String
  | .string s => some s
  | _ => none

def Value.asBool : Value → Option Bool
  | .bool b => some b
  | _ => none

def Value.asArray {α : Type} (f : Value → Option α) : Value → Option (List α)
  | .array vs => vs.mapM f
  | _ => none

/-- `Option<T>`: `null` is `None`. -/
def Value.asOption {α : Type} (f : Value → Option α) : Value → Option (Option α)
  | .null => some none
  | v => (f v).map some

/-- What a derived visitor reads of a struct: an object has its fields in any
order, each once, and others are skipped; an array has them in order. -/
def Value.fields (names : List String) : Value → Option (String → Option Value)
  | .object fs =>
    if names.all fun n => decide ((fs.filter fun f => f.1 = n).length ≤ 1) then some fun n =>
      fs.lookup n
    else none
  | .array vs => if vs.length ≤ names.length then some fun n => (names.zip vs).lookup n else none
  | _ => none

/-- `#[serde(default)]`. -/
def defaulted {α : Type} (d : α) (f : Value → Option α) : Option Value → Option α
  | none => some d
  | some v => f v

/-! ## The derived code -/

/-- mirrors vaultcore/src/manifest.rs:17-22: the names in kebab case -/
def KeyType.name : KeyType → String
  | .ed25519 => "ed25519"
  | .ecdsaP256 => "ecdsa-p256"

def KeyType.ofName (s : String) : Option KeyType :=
  if s = "ed25519" then some .ed25519 else if s = "ecdsa-p256" then some .ecdsaP256 else none

/-- mirrors vaultcore/src/manifest.rs:24-30 -/
def Purpose.name : Purpose → String
  | .fido2 => "fido2"
  | .customSigning => "custom-signing"
  | .both => "both"

def Purpose.ofName (s : String) : Option Purpose :=
  if s = "fido2" then some .fido2 else if s = "custom-signing" then some .customSigning
  else if s = "both" then some .both else none

/-- mirrors vaultcore/src/manifest.rs:38-47 -/
def Fido2Info.toValue (f : Fido2Info) : Value := .object [
  ("rp_id", .string f.rpId),
  ("credential_id_b64", .string f.credentialIdB64),
  ("user_handle_b64", .string f.userHandleB64),
  ("sign_count", .ofU32 f.signCount),
  ("discoverable", .bool f.discoverable)]

def Fido2Info.ofValue (v : Value) : Option Fido2Info := do
  let get ← v.fields ["rp_id", "credential_id_b64", "user_handle_b64", "sign_count", "discoverable"]
  let rpId ← (get "rp_id").bind Value.asString
  let credentialIdB64 ← (get "credential_id_b64").bind Value.asString
  let userHandleB64 ← (get "user_handle_b64").bind Value.asString
  let signCount ← (get "sign_count").bind Value.asU32
  let discoverable ← (get "discoverable").bind Value.asBool
  return ⟨rpId, credentialIdB64, userHandleB64, signCount, discoverable⟩

section
variable (C : Crates) (J : Json)

def uuidToValue (u : Uuid) : Value := .string (C.uuidToString u)

def uuidOfValue (v : Value) : Option Uuid := v.asString.bind fun s => (C.uuidParse s).toOption

/-- `time::serde::rfc3339`. -/
def timeOfValue (v : Value) : Option OffsetDateTime := v.asString.bind J.parseRfc3339

/-- `time::serde::rfc3339::option`. -/
def timeToValue : Option OffsetDateTime → Except String Value
  | none => .ok .null
  | some t => (J.formatRfc3339 t).map .string

/-- mirrors vaultcore/src/manifest.rs:49-81 -/
def KeyEntry.toValue (k : KeyEntry) : Except String Value := do
  let createdAt ← J.formatRfc3339 k.createdAt
  let lastUsedAt ← timeToValue J k.lastUsedAt
  return .object ([
    ("key_id", uuidToValue C k.keyId),
    ("label", .string k.label),
    ("description", .string k.description),
    ("resource", .string k.resource),
    ("key_type", .string k.keyType.name),
    ("purpose", .string k.purpose.name)] ++
    (k.fido2.map fun f => ("fido2", f.toValue)).toList ++ [
    ("created_at", .string createdAt),
    ("last_used_at", lastUsedAt),
    ("tags", .array (k.tags.map .string)),
    ("blob_file", .string k.blobFile),
    ("blob_sha256", .string k.blobSha256),
    ("public_key_hex", .string k.publicKeyHex)])

def KeyEntry.ofValue (v : Value) : Option KeyEntry := do
  let get ← v.fields ["key_id", "label", "description", "resource", "key_type", "purpose", "fido2",
    "created_at", "last_used_at", "tags", "blob_file", "blob_sha256", "public_key_hex"]
  let keyId ← (get "key_id").bind (uuidOfValue C)
  let label ← (get "label").bind Value.asString
  let description ← defaulted "" Value.asString (get "description")
  let resource ← defaulted "" Value.asString (get "resource")
  let keyType ← (get "key_type").bind fun v => v.asString.bind KeyType.ofName
  let purpose ← (get "purpose").bind fun v => v.asString.bind Purpose.ofName
  let fido2 ← defaulted none (Value.asOption Fido2Info.ofValue) (get "fido2")
  let createdAt ← (get "created_at").bind (timeOfValue J)
  let lastUsedAt ← defaulted none (Value.asOption (timeOfValue J)) (get "last_used_at")
  let tags ← defaulted [] (Value.asArray Value.asString) (get "tags")
  let blobFile ← (get "blob_file").bind Value.asString
  let blobSha256 ← (get "blob_sha256").bind Value.asString
  let publicKeyHex ← defaulted "" Value.asString (get "public_key_hex")
  return ⟨keyId, label, description, resource, keyType, purpose, fido2, createdAt, lastUsedAt, tags,
    blobFile, blobSha256, publicKeyHex⟩

/-- mirrors vaultcore/src/manifest.rs:110-118 -/
def Manifest.toValue (m : Manifest) : Except String Value := do
  let createdAt ← J.formatRfc3339 m.createdAt
  let keys ← m.keys.mapM (KeyEntry.toValue C J)
  return .object [
    ("manifest_version", .ofU32 m.manifestVersion),
    ("vault_id", uuidToValue C m.vaultId),
    ("created_at", .string createdAt),
    ("keys", .array keys)]

def Manifest.ofValue (v : Value) : Option Manifest := do
  let get ← v.fields ["manifest_version", "vault_id", "created_at", "keys"]
  let manifestVersion ← (get "manifest_version").bind Value.asU32
  let vaultId ← (get "vault_id").bind (uuidOfValue C)
  let createdAt ← (get "created_at").bind (timeOfValue J)
  let keys ← defaulted [] (Value.asArray (KeyEntry.ofValue C J)) (get "keys")
  return ⟨manifestVersion, vaultId, createdAt, keys⟩

/-- mirrors vaultcore/src/master_blob.rs:33-37 -/
def MasterBlobPlaintext.toValue (p : MasterBlobPlaintext) : Except String Value := do
  let manifest ← p.manifest.toValue C J
  return .object [("manifest", manifest), ("key_index", .array (p.keyIndex.map (uuidToValue C)))]

def MasterBlobPlaintext.ofValue (v : Value) : Option MasterBlobPlaintext := do
  let get ← v.fields ["manifest", "key_index"]
  let manifest ← (get "manifest").bind (Manifest.ofValue C J)
  let keyIndex ← (get "key_index").bind (Value.asArray (uuidOfValue C))
  return ⟨manifest, keyIndex⟩

end

/-- `serde_json` runs the derived code. -/
structure Crates.Derives (C : Crates) (J : Json) : Prop where
  manifestToVecPretty : ∀ m, C.manifestToVecPretty m = (m.toValue C J).map J.toVecPretty
  manifestFromSlice : ∀ b m, C.manifestFromSlice b = .ok m ↔
    ∃ v, J.fromSlice b = some v ∧ Manifest.ofValue C J v = some m
  plaintextToVec : ∀ p, C.plaintextToVec p = (p.toValue C J).map J.toVec
  plaintextFromSlice : ∀ b p, C.plaintextFromSlice b = .ok p ↔
    ∃ v, J.fromSlice b = some v ∧ MasterBlobPlaintext.ofValue C J v = some p

/-! ## The round trip -/

@[simp] theorem Value.asU32_ofU32 (n : UInt32) : (Value.ofU32 n).asU32 = some n := by
  simp only [Value.ofU32, Value.asU32, Nat.toList_repr, Nat.ofDigitChars_ten_toDigits]
  have hdigits : (Nat.toDigits 10 n.toNat).all Char.isDigit = true :=
    List.all_eq_true.2 fun c hc => Nat.isDigit_of_mem_toDigits (by omega) (by omega) hc
  rw [if_pos ⟨Nat.toDigits_ne_nil, hdigits, n.toNat_lt⟩, UInt32.ofNat_toNat]

@[simp] theorem KeyType.ofName_name (t : KeyType) : KeyType.ofName t.name = some t := by
  cases t <;> rfl

@[simp] theorem Purpose.ofName_name (p : Purpose) : Purpose.ofName p.name = some p := by
  cases p <;> rfl

/-- An object without a repeated field. -/
theorem Value.fields_object {fs : List (String × Value)} (names : List String)
    (h : (fs.map Prod.fst).Nodup) : (Value.object fs).fields names = some fun n => fs.lookup n := by
  have hone : ∀ n, (fs.filter fun f => f.1 = n).length ≤ 1 := by
    intro n
    have hcount := List.nodup_iff_count_le_one.1 h n
    rw [List.count_eq_countP, List.countP_map, List.countP_eq_length_filter] at hcount
    exact hcount
  exact if_pos (by simpa using fun n _ => hone n)

theorem lookup_field (m n : String) (v : Value) (fs : List (String × Value)) :
    ((n, v) :: fs).lookup m = if m = n then some v else fs.lookup m := by
  rw [List.lookup_cons]
  by_cases h : m = n
  · simp [h]
  · rw [beq_eq_false_iff_ne.2 h, if_neg h]

/-- A list of values, each of which reads back. -/
theorem mapM_some {α : Type} {f : Value → Option α} {g : α → Value} {l : List α}
    (h : ∀ a ∈ l, f (g a) = some a) : (l.map g).mapM f = some l := by
  induction l with
  | nil => rfl
  | cons a l ih =>
    rw [List.map_cons, List.mapM_cons, h a (List.mem_cons_self ..),
      ih fun x hx => h x (List.mem_cons_of_mem _ hx)]
    rfl

theorem mapM_toValue {α : Type} {f : Value → Option α} {g : α → Except String Value} :
    ∀ {l : List α} {vs : List Value}, (∀ a v, g a = .ok v → f v = some a) → l.mapM g = .ok vs →
      vs.mapM f = some l
  | [], vs, _, h => by cases h; rfl
  | a :: l, vs, hf, h => by
    rw [List.mapM_cons] at h
    simp only [bind, Except.bind] at h
    cases hg : g a with
    | error x => rw [hg] at h; cases h
    | ok v =>
      rw [hg] at h
      simp only at h
      cases hl : l.mapM g with
      | error x => rw [hl] at h; cases h
      | ok ws =>
        rw [hl] at h
        cases h
        rw [List.mapM_cons, hf a v hg, mapM_toValue hf hl]
        rfl

@[simp] theorem Fido2Info.ofValue_toValue (f : Fido2Info) :
    Fido2Info.ofValue f.toValue = some f := by
  unfold Fido2Info.ofValue Fido2Info.toValue
  rw [Value.fields_object _ (by simp)]
  simp only [lookup_field, String.reduceEq, if_true, if_false, Option.bind_eq_bind,
    Option.bind_some,
    Value.asString, Value.asBool, Value.asU32_ofU32]
  rfl

section
variable {C : Crates} {J : Json}

theorem uuidOfValue_uuidToValue (hu : ∀ u, C.uuidParse (C.uuidToString u) = .ok u) (u : Uuid) :
    uuidOfValue C (uuidToValue C u) = some u := by
  show (C.uuidParse (C.uuidToString u)).toOption = some u
  rw [hu]
  rfl

theorem timeOfValue_ok (hj : J.RoundTrips) {t : OffsetDateTime} {s : String}
    (h : J.formatRfc3339 t = .ok s) : timeOfValue J (.string s) = some t := hj.rfc3339 t s h

theorem timeToValue_ok (hj : J.RoundTrips) {t : Option OffsetDateTime} {v : Value}
    (h : timeToValue J t = .ok v) : v.asOption (timeOfValue J) = some t := by
  cases t with
  | none => cases h; rfl
  | some t =>
    change (J.formatRfc3339 t).map Value.string = .ok v at h
    cases hf : J.formatRfc3339 t with
    | error x => rw [hf] at h; cases h
    | ok s =>
      rw [hf] at h
      cases h
      show (timeOfValue J (.string s)).map some = _
      rw [timeOfValue_ok hj hf]
      rfl

theorem asOption_fido2 (f : Fido2Info) : f.toValue.asOption Fido2Info.ofValue = some (some f) := by
  show (Fido2Info.ofValue f.toValue).map some = _
  rw [Fido2Info.ofValue_toValue]
  rfl

theorem asArray_strings (l : List String) :
    (Value.array (l.map .string)).asArray Value.asString = some l := mapM_some fun _ _ => rfl

theorem bind_ok_string {α β : Type} {x : Except String α} {f : α → Except String β} {b : β} :
    (x >>= f) = .ok b ↔ ∃ a, x = .ok a ∧ f a = .ok b := by
  cases x <;> simp [bind, Except.bind]

/-- **Every field of an entry survives**, whether it has a `fido2` block or not. -/
theorem KeyEntry.ofValue_toValue (hu : ∀ u, C.uuidParse (C.uuidToString u) = .ok u)
    (hj : J.RoundTrips) {k : KeyEntry} {v : Value} (h : k.toValue C J = .ok v) :
    KeyEntry.ofValue C J v = some k := by
  unfold KeyEntry.toValue at h
  rw [bind_ok_string] at h
  obtain ⟨createdAt, hc, h⟩ := h
  rw [bind_ok_string] at h
  obtain ⟨lastUsedAt, hl, h⟩ := h
  cases h
  -- what the visitor reads of each field
  obtain ⟨get, hfields, hid, hlabel, hdescription, hresource, hty, hpurpose, hfido2, hcreated,
      hused, htags, hfile,
      hsha, hpk⟩ : ∃ get : String → Option Value, (Value.object ([("key_id", uuidToValue C k.keyId),
        ("label", .string k.label), ("description", .string k.description),
          ("resource", .string k.resource),
        ("key_type", .string k.keyType.name), ("purpose", .string k.purpose.name)] ++
        (k.fido2.map fun f => ("fido2", f.toValue)).toList ++ [("created_at", .string createdAt),
        ("last_used_at", lastUsedAt), ("tags", .array (k.tags.map .string)),
          ("blob_file", .string k.blobFile),
        ("blob_sha256", .string k.blobSha256), ("public_key_hex", .string k.publicKeyHex)])).fields
          ["key_id", "label", "description", "resource", "key_type", "purpose", "fido2",
            "created_at", "last_used_at", "tags", "blob_file", "blob_sha256", "public_key_hex"] =
              some get ∧
      get "key_id" = some (uuidToValue C k.keyId) ∧ get "label" = some (.string k.label) ∧
      get "description" = some (.string k.description) ∧
        get "resource" = some (.string k.resource) ∧
      get "key_type" = some (.string k.keyType.name) ∧
        get "purpose" = some (.string k.purpose.name) ∧
      get "fido2" = k.fido2.map Fido2Info.toValue ∧ get "created_at" = some (.string createdAt) ∧
      get "last_used_at" = some lastUsedAt ∧ get "tags" = some (.array (k.tags.map .string)) ∧
      get "blob_file" = some (.string k.blobFile) ∧
        get "blob_sha256" = some (.string k.blobSha256) ∧
      get "public_key_hex" = some (.string k.publicKeyHex) := by
    refine ⟨_, Value.fields_object _ ?_, ?_⟩
    · cases k.fido2 <;> simp
    · cases k.fido2 <;> simp [lookup_field]
  have hblock : defaulted none (Value.asOption Fido2Info.ofValue) (k.fido2.map Fido2Info.toValue) =
      some k.fido2 := by
    cases k.fido2 with
    | none => rfl
    | some f => exact asOption_fido2 f
  refine Option.bind_eq_some_iff.2 ⟨get, hfields, ?_⟩
  refine Option.bind_eq_some_iff.2
    ⟨k.keyId, by rw [hid]; exact uuidOfValue_uuidToValue hu k.keyId, ?_⟩
  refine Option.bind_eq_some_iff.2 ⟨k.label, by rw [hlabel]; rfl, ?_⟩
  refine Option.bind_eq_some_iff.2 ⟨k.description, by rw [hdescription]; rfl, ?_⟩
  refine Option.bind_eq_some_iff.2 ⟨k.resource, by rw [hresource]; rfl, ?_⟩
  refine Option.bind_eq_some_iff.2 ⟨k.keyType, by rw [hty]; exact KeyType.ofName_name k.keyType, ?_⟩
  refine Option.bind_eq_some_iff.2
    ⟨k.purpose, by rw [hpurpose]; exact Purpose.ofName_name k.purpose, ?_⟩
  refine Option.bind_eq_some_iff.2 ⟨k.fido2, by rw [hfido2]; exact hblock, ?_⟩
  refine Option.bind_eq_some_iff.2 ⟨k.createdAt, by rw [hcreated]; exact timeOfValue_ok hj hc, ?_⟩
  refine Option.bind_eq_some_iff.2 ⟨k.lastUsedAt, by rw [hused]; exact timeToValue_ok hj hl, ?_⟩
  refine Option.bind_eq_some_iff.2 ⟨k.tags, by rw [htags]; exact asArray_strings k.tags, ?_⟩
  refine Option.bind_eq_some_iff.2 ⟨k.blobFile, by rw [hfile]; rfl, ?_⟩
  refine Option.bind_eq_some_iff.2 ⟨k.blobSha256, by rw [hsha]; rfl, ?_⟩
  exact Option.bind_eq_some_iff.2 ⟨k.publicKeyHex, by rw [hpk]; rfl, rfl⟩

theorem Manifest.ofValue_toValue (hu : ∀ u, C.uuidParse (C.uuidToString u) = .ok u)
    (hj : J.RoundTrips) {m : Manifest} {v : Value} (h : m.toValue C J = .ok v) :
    Manifest.ofValue C J v = some m := by
  unfold Manifest.toValue at h
  rw [bind_ok_string] at h
  obtain ⟨createdAt, hc, h⟩ := h
  rw [bind_ok_string] at h
  obtain ⟨keys, hk, h⟩ := h
  cases h
  have hkeys : (Value.array keys).asArray (KeyEntry.ofValue C J) = some m.keys :=
    mapM_toValue (fun _ _ => KeyEntry.ofValue_toValue hu hj) hk
  unfold Manifest.ofValue
  rw [Value.fields_object _ (by simp)]
  simp only [lookup_field, String.reduceEq, if_true, if_false, Option.bind_eq_bind,
    Option.bind_some, defaulted,
    uuidOfValue_uuidToValue hu, Value.asU32_ofU32, timeOfValue_ok hj hc, hkeys]
  rfl

theorem MasterBlobPlaintext.ofValue_toValue (hu : ∀ u, C.uuidParse (C.uuidToString u) = .ok u)
    (hj : J.RoundTrips) {p : MasterBlobPlaintext} {v : Value} (h : p.toValue C J = .ok v) :
    MasterBlobPlaintext.ofValue C J v = some p := by
  unfold MasterBlobPlaintext.toValue at h
  rw [bind_ok_string] at h
  obtain ⟨manifest, hm, h⟩ := h
  cases h
  have hindex : (Value.array (p.keyIndex.map (uuidToValue C))).asArray (uuidOfValue C) =
      some p.keyIndex :=
    mapM_some fun u _ => uuidOfValue_uuidToValue hu u
  unfold MasterBlobPlaintext.ofValue
  rw [Value.fields_object _ (by simp)]
  simp only [lookup_field, String.reduceEq, if_true, if_false, Option.bind_eq_bind,
    Option.bind_some,
    Manifest.ofValue_toValue hu hj hm, hindex]
  rfl

theorem Crates.Derives.manifest (hd : C.Derives J)
    (hu : ∀ u, C.uuidParse (C.uuidToString u) = .ok u) (hj : J.RoundTrips) {m : Manifest}
    {b : Bytes} (h : C.manifestToVecPretty m = .ok b) :
    C.manifestFromSlice b = .ok m := by
  rw [hd.manifestToVecPretty] at h
  cases hv : m.toValue C J with
  | error x => rw [hv] at h; cases h
  | ok v =>
    rw [hv] at h
    cases h
    exact (hd.manifestFromSlice _ _).2 ⟨v, hj.vecPretty v, Manifest.ofValue_toValue hu hj hv⟩

theorem Crates.Derives.plaintext (hd : C.Derives J)
    (hu : ∀ u, C.uuidParse (C.uuidToString u) = .ok u) (hj : J.RoundTrips) {p : MasterBlobPlaintext}
    {b : Bytes} (h : C.plaintextToVec p = .ok b) :
    C.plaintextFromSlice b = .ok p := by
  rw [hd.plaintextToVec] at h
  cases hv : p.toValue C J with
  | error x => rw [hv] at h; cases h
  | ok v =>
    rw [hv] at h
    cases h
    exact (hd.plaintextFromSlice _ _).2 ⟨v, hj.vec v, MasterBlobPlaintext.ofValue_toValue hu hj hv⟩

end

end VaultSigner.L1
