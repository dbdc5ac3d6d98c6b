import VaultSigner.L4Vault.Request
import VaultSigner.L5Runs.Identity
import VaultSigner.L5Runs.Signing

/-!
# What is said of a key is true of the key (`sign` and the other uses)

A key is used while other calls run: imports, re-sealings, discards,
registrations. A use looks an entry up in one region, opens a blob in
another, reads the cache in a third; between them anything may have happened
to each of the three.

Results:
* `sign_upholds`, `handleGetAssertion_upholds`, ...: what a use returns under
  the key's id is by the key.
* `Call.upholds`: so it is for every call, and none makes anything else of the
  key.
-/
namespace VaultSigner.L5
open VaultSigner.Core VaultSigner.L1 VaultSigner.L3 VaultSigner.L4
open VaultSigner.L2

section
variable (C : Crates) (x₀ : KeyEntry) (sk : Bytes)

/-- The candidate has the credential of the key. -/
def IsCandidate (rpId : String) (d : CredentialCandidate) : Prop :=
  ∃ f, x₀.fido2 = some f ∧ f.rpId = rpId ∧ C.base64Decode f.credentialIdB64 = some d.credentialId ∧
    C.base64Decode f.userHandleB64 = some d.userHandle ∧ d.discoverable = f.discoverable

/-- The assertion is over the authenticator data of this request, and the
signature and the credential it names are the key's. -/
structure AssertsAs (request : GetAssertionRequest) (up uv : Bool) (o : GetAssertionOutcome) :
    Prop where
  authData : C.authData ⟨rpIdHash C request.rpId, flagsOf 0 up uv, o.newSignCount, none⟩ =
    some o.response.authData
  signature : keysSign C x₀.keyType sk (o.response.authData ++ request.clientDataHash) =
    .ok o.response.signature
  credential : ∃ f, x₀.fido2 = some f ∧ f.rpId = request.rpId ∧
    C.base64Decode f.credentialIdB64 = some o.response.credentialId

/-- What a reply says under the id of `x₀` is by the key `x₀` with the secret `sk`. -/
def Speaks : Call → Reply → Prop
  | .revealRawKeyHex _ k _, .text text => parseUuid C k = .ok x₀.keyId → text = hexEncode sk
  | .sign k m, .bytes sig => parseUuid C k = .ok x₀.keyId → keysSign C x₀.keyType sk m = .ok sig
  | .handleProtocolRequest _ raw, .bytes reply => ∀ m, SignRequest C raw x₀.keyId m →
      (∃ id code message, reply = Protocol.errorResponse C id code message) ∨
      ∃ id sig pk, reply = signatureReply C id sig pk ∧ keysSign C x₀.keyType sk m = .ok sig ∧
        hexDecode x₀.publicKeyHex = some pk
  | .handleFido2GetAssertion cbor up uv, .assertion o => o.keyId = x₀.keyId →
      ∃ request, parseGetAssertion C cbor = .ok request ∧ AssertsAs C x₀ sk request up uv o
  | .query _, .answer (.keys l) => ∀ i ∈ l, i.keyId = C.uuidToString x₀.keyId →
      i.publicKeyHex = x₀.publicKeyHex ∧ i.keyType = x₀.keyType ∧ i.label = x₀.label
  | .query (.publicKeyOf _ k), .answer (.publicKey pk) => parseUuid C k = .ok x₀.keyId →
      hexDecode x₀.publicKeyHex = some pk
  | .query (.credentialCandidates rpId), .answer (.candidates l) => ∀ d ∈ l, d.keyId = x₀.keyId →
      IsCandidate C x₀ rpId d
  | _, _ => True

end

/-- Nothing new in the cache. -/
def Shrinks (v v' : Vault) : Prop := ∀ k e, v'.retention.get k = some e → v.retention.get k = some e

section
variable {C : Crates} {A : Vault → In → Prop} {x₀ : KeyEntry} {sk : Bytes} {ε : Type}

/-! ## Regions that read -/

theorem Genuine.enter {v : Vault} (h : Genuine C x₀ sk v) (e : In) : Genuine C x₀ sk (v.enter e) :=
  h.quiet ⟨rfl, rfl⟩ fun x hx => h.cached x (Vault.get_enter_retention hx)

theorem upholds_ask {α : Type} {Q : α → Prop} {body : In → Vault → α × Vault}
    (h : ∀ e v, Genuine C x₀ sk v → Genuine C x₀ sk (body e v).2 ∧ Q (body e v).1) :
    (ask body : Prog In Vault ε α).Upholds A (Genuine C x₀ sk) Q := by
  refine Prog.upholds_atomic fun e v _ hv => ?_
  obtain ⟨h1, h2⟩ := h e (v.enter e) (hv.enter e)
  refine ⟨h1, fun a ha => ?_⟩
  cases ha
  exact h2

theorem upholds_region {α : Type} {Q : α → Prop} {body : In → Vault → FacadeResult α × Vault}
    (h : ∀ e v, Genuine C x₀ sk v → Genuine C x₀ sk (body e v).2 ∧ ∀ a,
      (body e v).1 = .ok a → Q a) :
    (region body).Upholds A (Genuine C x₀ sk) Q :=
  Prog.upholds_atomic fun e v _ hv => h e (v.enter e) (hv.enter e)

theorem throttleCheck_upholds (secret : L2.Throttle.SecretId) :
    (throttleCheck secret).Upholds A (Genuine C x₀ sk) fun _ => True :=
  upholds_region fun _ _ hv => ⟨hv, fun _ _ => trivial⟩

theorem recordSuccess_upholds (secret : L2.Throttle.SecretId) :
    (recordSuccess secret : Prog In Vault ε Unit).Upholds A (Genuine C x₀ sk) fun _ => True :=
  upholds_ask fun _ _ hv => ⟨hv.quiet ⟨rfl, rfl⟩ hv.cached, trivial⟩

theorem recordFailure_upholds (secret : L2.Throttle.SecretId) :
    (recordFailure secret : Prog In Vault ε Unit).Upholds A (Genuine C x₀ sk) fun _ => True :=
  upholds_ask fun _ _ hv => ⟨hv.quiet ⟨rfl, rfl⟩ hv.cached, trivial⟩

/-- An unlocked entry with the key's id is the key's. -/
theorem Genuine.entry {v : Vault} (h : Genuine C x₀ sk v) {c : Uuid} {u : UnlockedCompartment}
    {x : KeyEntry} (hu : v.state.unlocked.get c = some u) (hx : x ∈ u.manifest.keys) :
    SameAs x₀ x :=
  h.state.memory c u hu x hx

theorem Genuine.found {v : Vault} (h : Genuine C x₀ sk v) {o : Orders} {k : Uuid}
    {p : KeyType × Uuid} (hp : findKeyAnywhere o v.state k = some p) (hk : k = x₀.keyId) :
    p.1 = x₀.keyType := by
  obtain ⟨u, x, hu, hx, hty⟩ := findKeyAnywhere_some hp
  obtain ⟨hmem, hid⟩ := findKey_mem hx
  exact hty.trans (identity_fields (h.entry hu hmem (hid.trans hk))).1

theorem findKeyRegion_upholds (k : Uuid) :
    (findKeyRegion k : Prog In Vault ε _).Upholds A (Genuine C x₀ sk)
    fun f => ∀ p, f = some p → k = x₀.keyId → p.1 = x₀.keyType :=
  upholds_ask fun _ _ hv => ⟨hv, fun _ hp hk => hv.found hp hk⟩

/-! ## Opening and using the key -/

theorem decryptKey_upholds (c k : Uuid) (pw : String) :
    (decryptKey C c k pw).Upholds A (Genuine C x₀ sk)
    fun b => k = x₀.keyId → b = sk := by
  unfold decryptKey
  refine Prog.Upholds.bind (fun _ _ => ?_) (throttleCheck_upholds _)
  refine Prog.Upholds.bind (Q := fun p : KeyType × String × Bytes => k = x₀.keyId →
    p.1 = x₀.keyType ∧ p.2.1 = x₀.label ∧ OpensTo C x₀ sk p.2.2) (fun p hp => ?_) ?_
  · obtain ⟨ty, label, b⟩ := p
    refine Prog.Upholds.bind (Q := fun blob => KeyBlobOf.fromBytes C b = .ok blob)
      (fun blob hblob => ?_)
      (fun blob hb => facade_ok.1 hb)
    refine Prog.Upholds.bind (Q := fun r => ∀ sk', r = .ok sk' → k = x₀.keyId → sk' = sk)
      (fun r hr => ?_) ?_
    · cases r with
      | error x =>
        exact Prog.Upholds.bind (fun _ _ => Prog.upholds_fail _) (recordFailure_upholds _)
      | ok sk' =>
        exact Prog.Upholds.bind (fun _ _ => Prog.upholds_pure (hr sk' rfl))
          (recordSuccess_upholds _)
    · refine upholds_ask fun e v hv => ⟨hv.quiet ⟨rfl, rfl⟩ hv.cached, fun sk' hsk hk => ?_⟩
      obtain ⟨rfl, rfl, ho⟩ := hp hk
      exact ho _ sk' (by rw [← hk]; exact opens_ok.2 ⟨blob, hblob, hsk⟩)
  · refine upholds_region fun e v hv => ⟨hv, fun p hp hk => ?_⟩
    obtain ⟨ty, label, b⟩ := p
    obtain ⟨u, x, hu, hx, hb, hty, hlabel⟩ := lookupBlob_ok hp
    obtain ⟨hmem, hid⟩ := findKey_mem hx
    obtain ⟨h1, h2, -⟩ := identity_fields (hv.entry hu hmem (hid.trans hk))
    exact ⟨hty.trans h1, hlabel.trans h2, hv.state.container.blob b (hk ▸ hb)⟩

theorem cacheKey_upholds {k : Uuid} {b : Bytes} (hb : k = x₀.keyId → b = sk) (secs : UInt32) :
    (cacheKey k b secs : Prog In Vault ε _).Upholds A (Genuine C x₀ sk) fun _ => True := by
  refine upholds_ask fun e v hv => ⟨?_, trivial⟩
  cases hi : Retention.insert v.retention k b secs e.now with
  | error x => exact hv
  | ok r =>
    obtain ⟨-, rfl⟩ := Retention.insert_ok.1 hi
    refine hv.quiet ⟨rfl, rfl⟩ fun x hx => ?_
    simp only [Vault.log_retention, Vault.setRetention_retention, HashMap.get_put] at hx
    split at hx
    · rename_i hk
      cases hx
      exact hb hk.symm
    · exact hv.cached x hx

theorem useKey_upholds (k : Uuid) (ty : KeyType) (m : Bytes) :
    (useKey C k ty m : Prog In Vault ε _).Upholds A
    (Genuine C x₀ sk) fun r => ∀ sig, r = some (.ok sig) → k = x₀.keyId →
    keysSign C ty sk m = .ok sig := by
  refine upholds_ask fun e v hv => ?_
  have hdel : Genuine C x₀ sk (v.setRetention (v.retention.del k)) := by
    refine hv.quiet ⟨rfl, rfl⟩ fun x hx => ?_
    simp only [Vault.setRetention_retention, HashMap.get_del] at hx
    split at hx
    · cases hx
    · exact hv.cached x hx
  rcases Retention.useKey_cases v.retention k e.now fun bytes => (bytes, keysSign C ty bytes m) with
    ⟨-, hr⟩ | ⟨entry, -, -, hr⟩ | ⟨entry, hk, -, hr⟩
  · simp only [hr]
    exact ⟨hv, by simp⟩
  · simp only [hr]
    exact ⟨hdel, by simp⟩
  · have hafter :
        Genuine C x₀ sk
        (v.setRetention (if entry.singleUse then v.retention.del k else v.retention)) := by
      split
      · exact hdel
      · exact hv
    simp only [hr]
    cases hs : keysSign C ty entry.bytes m with
    | error x => exact ⟨hafter, by simp⟩
    | ok sig =>
      refine ⟨hafter.quiet ⟨rfl, rfl⟩ hafter.cached, fun sig' hsig hkid => ?_⟩
      cases hsig
      rw [← hv.cached entry (hkid ▸ hk)]
      exact hs

/-! ## The operations on keys -/

theorem revealRawKeyHex_upholds (c k pw : String) :
    (revealRawKeyHex C c k pw).Upholds A (Genuine C x₀ sk)
    fun text => parseUuid C k = .ok x₀.keyId → text = hexEncode sk := by
  unfold revealRawKeyHex
  cases parseUuid C c with
  | error x => exact Prog.upholds_fail x
  | ok c =>
    cases hk : parseUuid C k with
    | error x => exact Prog.upholds_fail x
    | ok k =>
      refine Prog.Upholds.bind (fun b hb => Prog.upholds_pure fun heq => ?_)
        (decryptKey_upholds c k pw)
      rw [hb (Except.ok.inj heq)]

theorem unlockKey_upholds (c k pw : String) (secs : UInt32) : (unlockKey C c k pw secs).Upholds A
    (Genuine C x₀ sk) fun _ => True := by
  unfold unlockKey
  cases parseUuid C c with
  | error x => exact Prog.upholds_fail x
  | ok c =>
    cases parseUuid C k with
    | error x => exact Prog.upholds_fail x
    | ok k =>
      refine Prog.Upholds.bind (fun b hb => ?_) (decryptKey_upholds c k pw)
      exact Prog.Upholds.bind (Q := fun _ => True) (fun r _ => Prog.upholds_done fun _ _ => trivial)
        (cacheKey_upholds hb secs)

theorem sign_upholds (k : String) (m : Bytes) : (sign C k m).Upholds A (Genuine C x₀ sk)
    fun sig => parseUuid C k = .ok x₀.keyId → keysSign C x₀.keyType sk m = .ok sig := by
  unfold sign
  cases hk : parseUuid C k with
  | error x => exact Prog.upholds_fail x
  | ok k =>
    refine Prog.Upholds.bind (fun f hf => ?_) (findKeyRegion_upholds k)
    cases f with
    | none => exact Prog.upholds_fail _
    | some p =>
      refine Prog.Upholds.bind (fun r hr => ?_) (useKey_upholds k p.1 m)
      cases r with
      | none => exact Prog.upholds_fail _
      | some r =>
        intro sig hsig heq
        have hid := Except.ok.inj heq
        rw [← hf p rfl hid]
        exact hr sig (by rw [facade_ok.1 hsig]) hid

/-! ## The local protocol -/

/-- A signature is the key's, next to the key's public key. -/
def SignedBy (C : Crates) (x₀ : KeyEntry) (sk : Bytes) (k : Uuid) (m : Bytes)
    (o : Protocol.SignOutcome) : Prop :=
  ∀ sig pk, o = .signed sig pk → k = x₀.keyId →
    keysSign C x₀.keyType sk m = .ok sig ∧ hexDecode x₀.publicKeyHex = some pk

theorem protocolUse_upholds {k : Uuid} {ty : KeyType} {pk : Bytes} (m : Bytes)
    (hty : k = x₀.keyId → ty = x₀.keyType)
    (hpk : k = x₀.keyId → hexDecode x₀.publicKeyHex = some pk) :
    (protocolUse C k ty pk m : Prog In Vault ε _).Upholds A (Genuine C x₀ sk)
    (SignedBy C x₀ sk k m) := by
  unfold protocolUse
  refine Prog.Upholds.bind (fun r hr => ?_) (useKey_upholds k ty m)
  split
  · rename_i sig
    refine Prog.upholds_pure fun sig' pk' heq hk => ?_
    cases heq
    rw [← hty hk]
    exact ⟨hr sig rfl hk, hpk hk⟩
  · refine Prog.upholds_pure fun sig' pk' heq => ?_
    cases heq

theorem Genuine.foundForProtocol {v : Vault} (h : Genuine C x₀ sk v) {o : Orders} {k c : Uuid}
    {ty : KeyType} {pk : Bytes} (hp : findForProtocol o v.state k = some (ty, pk, c))
    (hk : k = x₀.keyId) : ty = x₀.keyType ∧ hexDecode x₀.publicKeyHex = some pk := by
  unfold findForProtocol at hp
  obtain ⟨p, hp₁, hp₂⟩ := Option.bind_eq_some_iff.1 hp
  cases hu : unlockedCompartment v.state p.2 with
  | error x => rw [hu] at hp₂; cases hp₂
  | ok u =>
    rw [hu] at hp₂
    simp only at hp₂
    cases hx : findKey u.manifest k with
    | error x => rw [hx] at hp₂; cases hp₂
    | ok x =>
      rw [hx] at hp₂
      obtain ⟨pk', hpk, heq⟩ := Option.map_eq_some_iff.1 hp₂
      cases heq
      obtain ⟨hmem, hid⟩ := findKey_mem hx
      obtain ⟨-, -, hpublic⟩ :=
        identity_fields (h.entry (unlockedCompartment_ok.1 hu) hmem (hid.trans hk))
      exact ⟨h.found hp₁ hk, hpublic ▸ hpk⟩

theorem protocolSign_upholds (k : Uuid) (m : Bytes) :
    (protocolSign C k m : Prog In Vault ε _).Upholds A
    (Genuine C x₀ sk) (SignedBy C x₀ sk k m) := by
  have hno : ∀ o : Protocol.SignOutcome, (∀ sig pk, o ≠ .signed sig pk) →
      (Prog.done (.ok o) : Prog In Vault ε _).Upholds A (Genuine C x₀ sk) (SignedBy C x₀ sk k m) :=
    fun o hne => Prog.upholds_pure fun sig pk heq => absurd heq (hne sig pk)
  unfold protocolSign
  refine Prog.Upholds.bind (Q := fun f : Option (KeyType × Bytes × Uuid) => ∀ p, f = some p →
    k = x₀.keyId → p.1 = x₀.keyType ∧ hexDecode x₀.publicKeyHex = some p.2.1) (fun f hf => ?_)
    (upholds_ask fun _ _ hv => ⟨hv, fun _ hp hk => hv.foundForProtocol hp hk⟩)
  cases f with
  | none => exact hno _ (by simp)
  | some p =>
    obtain ⟨ty, pk, c⟩ := p
    have huse : (protocolUse C k ty pk m : Prog In Vault ε _).Upholds A (Genuine C x₀ sk)
        (SignedBy C x₀ sk k m) :=
      protocolUse_upholds m (fun hk => (hf _ rfl hk).1) fun hk => (hf _ rfl hk).2
    refine Prog.Upholds.bind (Q := fun _ => True) (fun b _ => ?_)
      (upholds_ask fun _ _ hv => ⟨hv, trivial⟩)
    cases b with
    | true => exact huse
    | false =>
      refine Prog.Upholds.bind (Q := fun _ => True) (fun reply _ => ?_)
        (upholds_ask fun _ _ hv => ⟨hv, trivial⟩)
      cases reply with
      | none => exact hno _ (by simp)
      | some pw =>
        refine Prog.Upholds.bind (fun r hr => ?_) (decryptKey_upholds c k pw).attempt
        cases r with
        | error x => exact hno _ (by simp)
        | ok b =>
          refine Prog.Upholds.bind (fun q _ => ?_) (cacheKey_upholds (hr b rfl) _)
          cases q with
          | error x => exact hno _ (by simp)
          | ok _ => exact huse

theorem handleProtocolRequest_upholds (caller : String) (raw : Bytes) :
    (handleProtocolRequest C caller raw).Upholds A (Genuine C x₀ sk)
      fun reply => Speaks C x₀ sk (.handleProtocolRequest caller raw) (.bytes reply) := by
  have hlist : (ask fun e v => (listPublicKeys e.orders v.state, v) : Op _).Upholds A
      (Genuine C x₀ sk)
      fun _ => True := upholds_ask fun _ _ hv => ⟨hv, trivial⟩
  have hcheck : ∀ secret, (ask fun e v => (v.throttle.check secret e.now, v) : Op _).Upholds A
      (Genuine C x₀ sk) fun _ => True := fun secret => upholds_ask fun _ _ hv => ⟨hv, trivial⟩
  have herror : ∀ id code message,
      (Prog.done (.ok (Protocol.errorResponse C id code message)) : Op Bytes).Upholds A
      (Genuine C x₀ sk) fun reply => Speaks C x₀ sk (.handleProtocolRequest caller raw)
        (.bytes reply) :=
    fun id code message => Prog.upholds_pure fun _ _ => .inl ⟨id, code, message, rfl⟩
  unfold handleProtocolRequest Protocol.handleRequest
  cases hq : C.rawRequestFromSlice raw with
  | error x => exact herror _ _ _
  | ok request =>
    simp only
    split
    · rename_i hmethod
      refine Prog.Upholds.bind (fun l _ => Prog.upholds_pure ?_) hlist
      -- a request for the list asks for no signature
      rintro m ⟨request', params, hq', hsign, -⟩
      rw [hq] at hq'
      cases hq'
      rw [hmethod] at hsign
      exact absurd hsign (by decide)
    · split
      · rename_i hmethod
        unfold Protocol.handleSign
        cases hp : C.signParamsFromValue request.params with
        | error x => exact herror _ _ _
        | ok params =>
          simp only
          cases hk : C.uuidParse params.keyId with
          | error x => exact herror _ _ _
          | ok k =>
            simp only
            cases hm : C.base64Decode params.messageB64 with
            | none => exact herror _ _ _
            | some m =>
              have hasks : SignRequest C raw k m := ⟨request, params, hq, hmethod, hp, hk, hm⟩
              refine Prog.Upholds.bind (fun r _ => ?_) (hcheck _)
              cases r with
              | error x => exact herror _ _ _
              | ok _ =>
                refine Prog.Upholds.bind (fun o ho => ?_) (protocolSign_upholds k m)
                cases o with
                | keyNotFound => exact herror _ _ _
                | userDeclined => exact herror _ _ _
                | passphraseIncorrect =>
                  exact Prog.Upholds.bind (fun _ _ => herror _ _ _) (recordFailure_upholds _)
                | signed sig pk =>
                  refine Prog.Upholds.bind
                    (fun _ _ => Prog.upholds_pure fun m' hm' => .inr ⟨_, sig, pk, rfl, ?_⟩)
                    (recordSuccess_upholds _)
                  obtain ⟨hid, rfl⟩ := hasks.unique hm'
                  exact ho sig pk rfl hid.symm
      · exact herror _ _ _

/-! ## Passkeys -/

theorem ctap2Use_upholds {k : Uuid} {ty : KeyType} (m : Bytes)
    (hty : k = x₀.keyId → ty = x₀.keyType) :
    (ctap2Use C k ty m).Upholds A (Genuine C x₀ sk)
      fun o => ∀ sig, o = some sig → k = x₀.keyId → keysSign C x₀.keyType sk m = .ok sig := by
  unfold ctap2Use
  refine Prog.Upholds.bind (fun r hr => ?_) (useKey_upholds k ty m)
  split
  · rename_i sig
    refine Prog.upholds_pure fun sig' heq hk => ?_
    cases heq
    rw [← hty hk]
    exact hr sig rfl hk
  · refine Prog.upholds_pure fun sig' heq => ?_
    cases heq

theorem ctap2Sign_upholds (prompts : Bool) (k : Uuid) (m : Bytes) :
    (ctap2Sign C prompts k m).Upholds A (Genuine C x₀ sk)
      fun o => ∀ sig, o = some sig → k = x₀.keyId → keysSign C x₀.keyType sk m = .ok sig := by
  have hno : (Prog.done (.ok none) : Prog In Vault Ctap2Error (Option Bytes)).Upholds A
      (Genuine C x₀ sk)
      fun o => ∀ sig, o = some sig → k = x₀.keyId → keysSign C x₀.keyType sk m = .ok sig :=
    Prog.upholds_pure fun sig heq => by cases heq
  unfold ctap2Sign
  refine Prog.Upholds.bind (fun f hf => ?_) (findKeyRegion_upholds k)
  cases f with
  | none => exact hno
  | some p =>
    obtain ⟨ty, c⟩ := p
    have huse : (ctap2Use C k ty m).Upholds A (Genuine C x₀ sk) fun o => ∀ sig, o = some sig →
        k = x₀.keyId →
        keysSign C x₀.keyType sk m = .ok sig := ctap2Use_upholds m (hf _ rfl)
    refine Prog.Upholds.bind (Q := fun _ => True) (fun b _ => ?_)
      (upholds_ask fun _ _ hv => ⟨hv, trivial⟩)
    cases b with
    | true => exact huse
    | false =>
      refine Prog.Upholds.bind (fun r _ => ?_) (throttleCheck_upholds _).attempt
      cases r with
      | error x => exact hno
      | ok _ =>
        cases prompts with
        | false => exact hno
        | true =>
          refine Prog.Upholds.bind (Q := fun _ => True) (fun reply _ => ?_)
            (upholds_ask fun _ _ hv => ⟨hv, trivial⟩)
          cases reply with
          | none => exact hno
          | some pw =>
            refine Prog.Upholds.bind (fun r hr => ?_) (decryptKey_upholds c k pw).attempt
            cases r with
            | error x => exact hno
            | ok b =>
              refine Prog.Upholds.bind (fun q _ => ?_) (cacheKey_upholds (hr b rfl) _)
              cases q with
              | error x => exact hno
              | ok _ => exact huse

theorem Genuine.candidates {v : Vault} (h : Genuine C x₀ sk v) {o : Orders} {rpId : String}
    {d : CredentialCandidate} (hd : d ∈ credentialsForRp C o v.state rpId)
    (hk : d.keyId = x₀.keyId) : IsCandidate C x₀ rpId d := by
  obtain ⟨c, u, x, hu, hx, hc⟩ := mem_credentialsForRp.1 hd
  obtain ⟨f, hf, hrp, hid, hhandle, hkey, hdisc, -⟩ := candidate_eq_some.1 hc
  have hsame := congrArg KeyEntry.fido2 (h.entry hu hx (hkey.symm.trans hk))
  obtain ⟨f₀, hf₀, heq⟩ := Option.map_eq_some_iff.1 (hsame.symm.trans (congrArg (Option.map _) hf))
  have hrp₀ := congrArg Fido2Info.rpId heq
  have hid₀ := congrArg Fido2Info.credentialIdB64 heq
  have hhandle₀ := congrArg Fido2Info.userHandleB64 heq
  have hdisc₀ := congrArg Fido2Info.discoverable heq
  exact ⟨f₀, hf₀, hrp₀.trans hrp, hid₀ ▸ hid, hhandle₀ ▸ hhandle, hdisc.trans hdisc₀.symm⟩

theorem handleGetAssertion_upholds (request : GetAssertionRequest) (up uv : Bool) :
    (handleGetAssertion C (ctap2Backend C true) request up uv).Upholds A (Genuine C x₀ sk)
      fun o => o.keyId = x₀.keyId → AssertsAs C x₀ sk request up uv o := by
  have hcands : (ask fun e v => (credentialsForRp C e.orders v.state request.rpId, v) :
      Prog In Vault Ctap2Error _).Upholds A (Genuine C x₀ sk)
      fun l => ∀ d ∈ l, d.keyId = x₀.keyId → IsCandidate C x₀ request.rpId d :=
    upholds_ask fun _ _ hv => ⟨hv, fun _ hd hk => hv.candidates hd hk⟩
  unfold handleGetAssertion
  refine Prog.Upholds.bind (fun cands hc => ?_) hcands
  refine Prog.Upholds.bind (Q := fun p : CredentialCandidate × Bytes =>
    (p.1.keyId = x₀.keyId → IsCandidate C x₀ request.rpId p.1) ∧
      C.authData ⟨rpIdHash C request.rpId, flagsOf 0 up uv, p.1.signCount + 1, none⟩ = some p.2)
    (fun p hp => ?_) (fun p hp => ?_)
  · obtain ⟨chosen, authData⟩ := p
    refine Prog.Upholds.bind (fun sig hsig => ?_) (ctap2Sign_upholds true chosen.keyId _)
    intro o ho hk
    obtain ⟨hid, hcount, hcred, hdata, hs⟩ := finishAssertion_ok ho
    have hchosen := hid.symm.trans hk
    obtain ⟨f, hf, hrp, hcredential, -⟩ := hp.1 hchosen
    exact ⟨by rw [hcount, hdata]; exact hp.2, by rw [hdata]; exact hsig _ hs hchosen, f, hf, hrp,
      by rw [hcred]; exact hcredential⟩
  · exact ⟨hc _ (chooseCandidate_mem (prepareAssertion_ok hp).1), (prepareAssertion_ok hp).2⟩

/-! ## Queries -/

theorem query_upholds (hC : C.CodecLaws) (q : Query) : (query C q).Upholds A (Genuine C x₀ sk)
    fun a => Speaks C x₀ sk (.query q) (.answer a) := by
  refine upholds_region fun e v hv => ⟨hv, fun a ha => ?_⟩
  cases q with
  | listCompartments => cases ha; trivial
  | isCompartmentUnlocked c =>
    simp only [answer] at ha
    split at ha <;> cases ha <;> trivial
  | isKeyUnlocked k =>
    simp only [answer] at ha
    split at ha <;> cases ha <;> trivial
  | listKeys c =>
    simp only [answer, bind_ok, pure, Except.pure, Except.ok.injEq] at ha
    obtain ⟨id, -, u, hu, rfl⟩ := ha
    intro i hi hk
    obtain ⟨x, hx, rfl⟩ := List.mem_map.1 hi
    have hid : x.keyId = x₀.keyId := hC.uuidToString_inj.1 hk
    obtain ⟨hty, hlabel, hpublic⟩ := identity_fields (hv.entry (unlockedCompartment_ok.1 hu) hx hid)
    exact ⟨hpublic, hty, hlabel⟩
  | publicKeyOf c k =>
    simp only [answer, bind_ok] at ha
    obtain ⟨id, -, keyId, hk, u, hu, x, hx, ha⟩ := ha
    split at ha
    · rename_i b hb
      cases ha
      intro heq
      rw [hk] at heq
      cases heq
      obtain ⟨hmem, hid⟩ := findKey_mem hx
      rw [← (identity_fields (hv.entry (unlockedCompartment_ok.1 hu) hmem hid)).2.2]
      exact hb
    · cases ha
  | credentialCandidates rpId =>
    cases ha
    exact fun d hd hk => hv.candidates hd hk

/-! ## The other calls -/

theorem silent_shrinks {α : Type} {p : Prog In Vault ε α} (h : p.Within A Silent) :
    p.Within A Shrinks :=
  h.mono fun _ _ hs => hs.retention

theorem mutate_shrinks {α : Type} {e : In} {v w : Vault} {q : FacadeResult (Edit α)}
    (h : w = (mutate C e (v.enter e) q).2) : Shrinks v w := by
  subst h
  exact (mutate_silent e v q).retention

theorem shrinks_of_enter {v w : Vault} {e : In} (h : w.retention = (v.enter e).retention) :
    Shrinks v w :=
  fun _ _ hx => Vault.get_enter_retention (h ▸ hx)

theorem wipe_shrinks {v : Vault} {e : In} (k : Uuid) :
    Shrinks v ((v.enter e).setRetention (Retention.wipe (v.enter e).retention k)) := by
  intro j x hx
  simp only [Vault.setRetention_retention, Retention.wipe, HashMap.get_del] at hx
  split at hx
  · cases hx
  · exact Vault.get_enter_retention hx

theorem lockKey_shrinks (k : String) : (lockKey C k).Within A Shrinks := by
  unfold lockKey
  cases C.uuidParse k with
  | error x => trivial
  | ok k => exact within_region.2 fun e v _ => wipe_shrinks k

theorem lockAll_shrinks : lockAll.Within A Shrinks := by
  unfold lockAll
  refine Prog.Within.bind (within_region.2 fun e v _ => (silent_enter v e).retention)
    fun _ => within_region.2 fun e v _ j x hx => ?_
  simp [Retention.wipeAll] at hx

theorem discardKey_shrinks (c k t : String) : (discardKey C c k t).Within A Shrinks := by
  unfold discardKey
  cases parseUuid C c with
  | error x => trivial
  | ok c =>
    cases parseUuid C k with
    | error x => trivial
    | ok k =>
      refine Prog.Within.bind (within_region.2 fun e v _ => ?_) fun _ =>
        within_region.2 fun e v _ => wipe_shrinks k
      unfold discardRegion
      cases prepareDiscardKey (v.enter e).state c k t with
      | error x => exact (silent_enter v e).retention
      | ok u =>
        obtain ⟨-, -, hr⟩ := persistLocked_frame (C := C) e (v.enter e)
          ((v.state.setUnlocked c (u.remove k)).removeKeyBlob k) c
        simp only [Vault.enter_state]
        generalize persistLocked C e ((v.enter e).setState
          ((v.state.setUnlocked c (u.remove k)).removeKeyBlob k)) c = q at hr ⊢
        obtain ⟨r, w⟩ := q
        cases r with
        | error x => exact shrinks_of_enter hr
        | ok a => exact shrinks_of_enter hr

theorem changePassphraseRegion_retention (c k : Uuid) (old new : String) (e : In) (v : Vault) :
    (changePassphraseRegion C c k old new e v).2.retention = v.retention := by
  unfold changePassphraseRegion
  cases lookupBlob v.state c k with
  | error x => rfl
  | ok p =>
    obtain ⟨ty, label, b⟩ := p
    simp only
    cases KeyBlobOf.fromBytes C b with
    | error x => rfl
    | ok blob =>
      simp only
      cases keyblobOpen C blob (utf8 old) k ty label with
      | error x => rfl
      | ok sk =>
        simp only [resealRegion]
        cases sealKey C e new sk k ty label with
        | error x => rfl
        | ok b' =>
          simp only
          cases unlockedCompartment _ c with
          | error x => rfl
          | ok u => exact (persistLocked_frame e (Vault.setThrottle _ _) _ c).2.2

theorem changeKeyPassphrase_shrinks (c k old new : String) :
    (changeKeyPassphrase C c k old new).Within A Shrinks := by
  unfold changeKeyPassphrase
  cases parseUuid C c with
  | error x => trivial
  | ok c =>
    cases parseUuid C k with
    | error x => trivial
    | ok k =>
      refine Prog.Within.bind (within_region.2 fun e v _ => (silent_enter v e).retention) fun _ =>
        ?_
      exact within_region.2 fun e v _ =>
        shrinks_of_enter (changePassphraseRegion_retention c k old new e (v.enter e))

/-! ## Every call -/

/-- An admissible input that does not draw the key's id. -/
def Draws (A : Vault → In → Prop) (k : Uuid) (v : Vault) (e : In) : Prop :=
  A v e ∧ ∀ i, e.uuid i ≠ k

/-- A call that caches nothing. -/
theorem steady_upholds (hC : C.CodecLaws) (ha : C.AeadLaws) (hk : C.AeadCommits)
    (hA : ∀ v e, A v e → e.uuid 0 ∉ headerIds v.state) {call : Call} (hf : Foreign C x₀.keyId call)
    (hs : (call.run C).Within (Draws A x₀.keyId) Shrinks) :
    (call.run C).Upholds (Draws A x₀.keyId) (Genuine C x₀ sk) fun _ => True := by
  refine Prog.Within.upholds (fun v v' hr hv => ?_) ((call.moves).and hs)
  obtain ⟨⟨e, he, hm⟩, hsub⟩ := hr
  exact Moves.genuine hC ha hk hm hf he.2 (hA v e he.1) (fun x hx => hv.cached x (hsub _ x hx)) hv

theorem getAssertion_upholds (hC : C.CodecLaws) (ha : C.AeadLaws) (hk : C.AeadCommits)
    (hA : ∀ v e, A v e → e.uuid 0 ∉ headerIds v.state) (cbor : Bytes) (up uv : Bool) :
    (handleFido2GetAssertion C cbor up uv).Upholds (Draws A x₀.keyId) (Genuine C x₀ sk)
      fun o => Speaks C x₀ sk (.handleFido2GetAssertion cbor up uv) (.assertion o) := by
  unfold handleFido2GetAssertion
  cases hp : parseGetAssertion C cbor with
  | error x => exact Prog.upholds_fail x
  | ok request =>
    refine Prog.Upholds.bind (fun o ho => ?_) (handleGetAssertion_upholds request up uv).mapError
    refine Prog.upholds_atomic fun e v he hv => ⟨?_, fun o' ho' hk' => ⟨request, hp, ?_⟩⟩
    · have hshrinks : Shrinks v (commitAssertion C o e (v.enter e)).2 :=
        mutate_shrinks (congrArg Prod.snd (commitAssertion_eq e (v.enter e) o))
      have hmoves : Moves C A _ e v _ := commitAssertion_moves o cbor up uv e v
      exact Moves.genuine hC ha hk hmoves (fun _ _ h => by cases h) he.2 (hA v e he.1)
        (fun x hx => hv.cached x (hshrinks _ x hx)) hv
    · rw [commitAssertion_eq] at ho'
      obtain ⟨d, hd, rfl, -⟩ := mutate_ok e _ ho'
      have hreply : d.reply = o := by
        unfold commitEdit at hd
        split at hd
        · cases hd
          rfl
        · split at hd
          · cases hd
          · cases hd
            rfl
      rw [hreply] at hk' ⊢
      exact ho hk'

/-- **No call** that brings nothing under the key's id makes anything else of
the key, and what it returns under the id is by the key. -/
theorem Call.upholds (hC : C.CodecLaws) (ha : C.AeadLaws) (hk : C.AeadCommits)
    (hA : ∀ v e, A v e → e.uuid 0 ∉ headerIds v.state) (call : Call)
    (hf : Foreign C x₀.keyId call) :
    (call.run C).Upholds (Draws A x₀.keyId) (Genuine C x₀ sk) (Speaks C x₀ sk call) := by
  have hreply : ∀ {α : Type} {p : Op α} {f : α → Reply} {Q : α → Prop},
      p.Upholds (Draws A x₀.keyId) (Genuine C x₀ sk) Q → (∀ a, Q a → Speaks C x₀ sk call (f a)) →
      (replying p f).Upholds (Draws A x₀.keyId) (Genuine C x₀ sk) (Speaks C x₀ sk call) :=
    fun hp hq => hp.bind fun a ha => Prog.upholds_pure (hq a ha)
  have hsteady : (∀ reply, Speaks C x₀ sk call reply) →
      (call.run C).Within (Draws A x₀.keyId) Shrinks →
      (call.run C).Upholds (Draws A x₀.keyId) (Genuine C x₀ sk) (Speaks C x₀ sk call) :=
    fun hq hs => (steady_upholds hC ha hk hA hf hs).mono fun reply _ => hq reply
  have hedit : ∀ {α : Type} {body : In → Vault → FacadeResult α × Vault} {f : α → Reply}
      {g : In → VaultState → FacadeResult (Edit α)},
        (∀ e w, body e w = mutate C e w (g e w.state)) →
      (replying (region body) f).Within (Draws A x₀.keyId) Shrinks :=
    fun hb =>
      Prog.Within.bind (within_region.2 fun e v _ => mutate_shrinks (congrArg Prod.snd (hb e _)))
      fun _ => trivial
  cases call with
  | unlockCompartment c p =>
    exact hsteady (fun _ => trivial)
      (replying_silent (unlockCompartment_silent c p) |> silent_shrinks)
  | lockCompartment c =>
    exact hsteady (fun _ => trivial) (replying_silent (lockCompartment_silent c) |> silent_shrinks)
  | lockAll => exact hsteady (fun _ => trivial) (lockAll_shrinks.bind fun _ => trivial)
  | addCompartment l p d =>
    exact hsteady (fun _ => trivial) (hedit fun e w => addCompartmentRegion_eq e w l p d)
  | createKey a => exact hsteady (fun _ => trivial) (hedit fun e w => createKeyRegion_eq e w a)
  | discardKey c k t =>
    exact hsteady (fun _ => trivial) ((discardKey_shrinks c k t).bind fun _ => trivial)
  | changeKeyPassphrase c k o n =>
    exact hsteady (fun _ => trivial) ((changeKeyPassphrase_shrinks c k o n).bind fun _ => trivial)
  | revealRawKeyHex c k p => exact hreply (revealRawKeyHex_upholds c k p) fun _ h => h
  | unlockKey c k p s => exact hreply (unlockKey_upholds c k p s) fun _ _ => trivial
  | lockKey k => exact hsteady (fun _ => trivial) ((lockKey_shrinks k).bind fun _ => trivial)
  | sign k m => exact hreply (sign_upholds k m) fun _ h => h
  | handleProtocolRequest i q => exact hreply (handleProtocolRequest_upholds i q) fun _ h => h
  | handleFido2MakeCredential a =>
    exact hsteady (fun _ => trivial) (replying_silent (makeCredential_silent a) |> silent_shrinks)
  | handleFido2GetAssertion q p u =>
    exact hreply (getAssertion_upholds hC ha hk hA q p u) fun _ h => h
  | mergeReencryptDiscardIncoming t j b =>
    exact hsteady (fun _ => trivial) (hedit fun e w => merge1Region_eq e w t j b)
  | mergeSideBySide j b l p d =>
    exact hsteady (fun _ => trivial) (hedit fun e w => merge2Region_eq e w j b l p d)
  | mergeReplaceLocalWithIncoming t j b p k c =>
    exact hsteady (fun _ => trivial) (hedit fun e w => merge3Region_eq e w t j b p k c)
  | query q => exact hreply (query_upholds hC q) fun _ h => h

end

end VaultSigner.L5
