import VaultSigner.L4Vault.Edits

/-!
# Runs

* `Run`: calls of the facade one after another, from a given vault, newest
  first; `Created` and `Opened` say where a vault's life begins.
* `Quiet`: a region that leaves the state and the file alone. Every region is
  quiet except those of `lock_compartment`, `lock_all`, the one that unlocks a
  compartment, and those that carry out an edit.

Results:
* `Call.effect`: what one call, run alone, does to the state and the file:
  nothing, an unlock, a lock, or an edit carried through (`Call.Edits`).
* `Run.invariant`: what every call keeps holds throughout a run.
-/
namespace VaultSigner.L4
open VaultSigner.Core VaultSigner.L1 VaultSigner.L2.Throttle VaultSigner.L3
open VaultSigner.L2

/-! ## Quiet regions -/

/-- The state and the file are as they were. -/
structure Quiet (v v' : Vault) : Prop where
  state : v'.state = v.state
  disk : v'.disk = v.disk

theorem Quiet.refl (v : Vault) : Quiet v v := ⟨rfl, rfl⟩

theorem Quiet.trans {u v w : Vault} (h : Quiet u v) (h' : Quiet v w) : Quiet u w :=
  ⟨h'.state.trans h.state, h'.disk.trans h.disk⟩

section
variable {A : Vault → In → Prop} {R : Vault → Vault → Prop} {ε α : Type}

theorem within_region {body : In → Vault → FacadeResult α × Vault} :
    (region body).Within A R ↔ ∀ e v, A v e → R v (body e (v.enter e)).2 :=
  Prog.within_atomic

theorem within_ask {body : In → Vault → α × Vault} :
    (ask body : Prog In Vault ε α).Within A R ↔ ∀ e v, A v e → R v (body e (v.enter e)).2 :=
  Prog.within_atomic

theorem Quiet.exec {p : Prog In Vault ε α} {v v' : Vault} {es : List In} {r : Except ε α}
    (hq : p.Within A Quiet) (h : Prog.Exec A p v es r v') : Quiet v v' :=
  Prog.Within.exec h hq (fun _ _ hq hv => hv.trans hq) (Quiet.refl v)

end

section
variable (C : Crates) {A : Vault → In → Prop} {ε : Type}

/-- A region that only reads. -/
theorem read_quiet {α : Type} (f : In → Vault → α) :
    (ask (fun e v => (f e v, v)) : Prog In Vault ε α).Within A Quiet :=
  within_ask.2 fun _ _ _ => ⟨rfl, rfl⟩

theorem throttleCheck_quiet (secret : SecretId) : (throttleCheck secret).Within A Quiet :=
  within_region.2 fun _ _ _ => ⟨rfl, rfl⟩

theorem openBlob_quiet (k : Uuid) (ty : KeyType) (label : String) (b : Bytes) (blob : KeyBlob)
    (pw : Bytes) : (openBlob C k ty label b blob pw : Prog In Vault ε _).Within A Quiet :=
  within_ask.2 fun _ _ _ => ⟨rfl, rfl⟩

theorem recordSuccess_quiet (secret : SecretId) :
    (recordSuccess secret : Prog In Vault ε _).Within A Quiet :=
  within_ask.2 fun _ _ _ => ⟨rfl, rfl⟩

theorem recordFailure_quiet (secret : SecretId) :
    (recordFailure secret : Prog In Vault ε _).Within A Quiet :=
  within_ask.2 fun _ _ _ => ⟨rfl, rfl⟩

theorem findKeyRegion_quiet (k : Uuid) : (findKeyRegion k : Prog In Vault ε _).Within A Quiet :=
  read_quiet fun e v => findKeyAnywhere e.orders v.state k

theorem containsKey_quiet (k : Uuid) : (containsKey k : Prog In Vault ε _).Within A Quiet :=
  read_quiet fun e v => Retention.contains v.retention k e.now

theorem prompt_quiet : (prompt : Prog In Vault ε _).Within A Quiet :=
  read_quiet fun e _ => e.reply

theorem credentialsForRp_quiet (prompts : Bool) (rpId : String) :
    ((ctap2Backend C prompts).credentialsForRp rpId).Within A Quiet :=
  read_quiet fun e v => credentialsForRp C e.orders v.state rpId

theorem cacheKey_quiet (k : Uuid) (b : Bytes) (secs : UInt32) :
    (cacheKey k b secs : Prog In Vault ε _).Within A Quiet := by
  refine within_ask.2 fun e v _ => ?_
  cases Retention.insert (v.enter e).retention k b secs e.now with
  | error x => exact ⟨rfl, rfl⟩
  | ok r => exact ⟨rfl, rfl⟩

theorem useKey_quiet (k : Uuid) (ty : KeyType) (m : Bytes) :
    (useKey C k ty m : Prog In Vault ε _).Within A Quiet := by
  refine within_ask.2 fun e v _ => ?_
  simp only
  cases (Retention.useKey (v.enter e).retention k e.now fun bytes =>
      (bytes, keysSign C ty bytes m)).1 with
  | none => exact ⟨rfl, rfl⟩
  | some p =>
    obtain ⟨b, r⟩ := p
    cases r with
    | error x => exact ⟨rfl, rfl⟩
    | ok s => exact ⟨rfl, rfl⟩

theorem decryptKey_quiet (c k : Uuid) (pw : String) : (decryptKey C c k pw).Within A Quiet := by
  unfold decryptKey
  refine (throttleCheck_quiet _).bind fun _ => ?_
  refine Prog.Within.bind (within_region.2 fun _ _ _ => ⟨rfl, rfl⟩) fun p => ?_
  obtain ⟨ty, label, bytes⟩ := p
  refine Prog.Within.bind (p := Prog.ofExcept _) trivial fun blob => ?_
  refine (openBlob_quiet C _ _ _ _ _ _).bind fun r => ?_
  cases r with
  | error x => exact (recordFailure_quiet _).bind fun _ => trivial
  | ok sk => exact (recordSuccess_quiet _).bind fun _ => trivial

theorem revealRawKeyHex_quiet (c k pw : String) : (revealRawKeyHex C c k pw).Within A Quiet := by
  unfold revealRawKeyHex
  cases parseUuid C c with
  | error x => trivial
  | ok c =>
    cases parseUuid C k with
    | error x => trivial
    | ok k => exact (decryptKey_quiet C c k pw).bind fun _ => trivial

theorem unlockKey_quiet (c k pw : String) (secs : UInt32) :
    (unlockKey C c k pw secs).Within A Quiet := by
  unfold unlockKey
  cases parseUuid C c with
  | error x => trivial
  | ok c =>
    cases parseUuid C k with
    | error x => trivial
    | ok k =>
      refine (decryptKey_quiet C c k pw).bind fun _ => ?_
      exact (cacheKey_quiet _ _ _).bind fun _ => trivial

theorem lockKey_quiet (k : String) : (lockKey C k).Within A Quiet := by
  unfold lockKey
  cases C.uuidParse k with
  | error x => trivial
  | ok k => exact within_region.2 fun _ _ _ => ⟨rfl, rfl⟩

theorem query_quiet (q : Query) : (query C q).Within A Quiet :=
  within_region.2 fun _ _ _ => ⟨rfl, rfl⟩

theorem sign_quiet (k : String) (m : Bytes) : (sign C k m).Within A Quiet := by
  unfold sign
  cases parseUuid C k with
  | error x => trivial
  | ok k =>
    refine (findKeyRegion_quiet k).bind fun f => ?_
    cases f with
    | none => trivial
    | some p =>
      refine (useKey_quiet C _ _ _).bind fun r => ?_
      cases r <;> trivial

theorem protocolUse_quiet (k : Uuid) (ty : KeyType) (pk m : Bytes) :
    (protocolUse C k ty pk m : Prog In Vault ε _).Within A Quiet := by
  unfold protocolUse
  refine (useKey_quiet C _ _ _).bind fun r => ?_
  cases r with
  | none => trivial
  | some q => cases q <;> trivial

theorem protocolSign_quiet (k : Uuid) (m : Bytes) :
    (protocolSign C k m : Prog In Vault ε _).Within A Quiet := by
  unfold protocolSign
  refine Prog.Within.bind (within_ask.2 fun _ _ _ => ⟨rfl, rfl⟩) fun f => ?_
  cases f with
  | none => trivial
  | some p =>
    obtain ⟨ty, pk, c⟩ := p
    refine (containsKey_quiet k).bind fun b => ?_
    cases b with
    | true => exact protocolUse_quiet C _ _ _ _
    | false =>
      refine prompt_quiet.bind fun reply => ?_
      cases reply with
      | none => trivial
      | some pw =>
        refine (decryptKey_quiet C _ _ _).attempt.bind fun r => ?_
        cases r with
        | error x => trivial
        | ok sk =>
          refine (cacheKey_quiet _ _ _).bind fun q => ?_
          cases q with
          | error x => trivial
          | ok _ => exact protocolUse_quiet C _ _ _ _

theorem replyToSign_quiet (secret : SecretId) (id : Value) (o : Protocol.SignOutcome) :
    (Protocol.replyToSign C vaultThrottling secret id o).Within A Quiet := by
  cases o with
  | signed sig pk => exact (recordSuccess_quiet _).bind fun _ => trivial
  | keyNotFound => trivial
  | userDeclined => trivial
  | passphraseIncorrect => exact (recordFailure_quiet _).bind fun _ => trivial

theorem handleProtocolRequest_quiet (caller : String) (raw : Bytes) :
    (handleProtocolRequest C caller raw).Within A Quiet := by
  unfold handleProtocolRequest Protocol.handleRequest
  cases C.rawRequestFromSlice raw with
  | error x => trivial
  | ok request =>
    simp only
    split
    · exact Prog.Within.bind (read_quiet fun e v => listPublicKeys e.orders v.state) fun _ =>
        trivial
    · split
      · unfold Protocol.handleSign
        cases C.signParamsFromValue request.params with
        | error x => trivial
        | ok params =>
          simp only
          cases C.uuidParse params.keyId with
          | error x => trivial
          | ok k =>
            simp only
            cases C.base64Decode params.messageB64 with
            | none => trivial
            | some m =>
              refine Prog.Within.bind (read_quiet fun e v =>
                v.throttle.check (SecretId.key C k) e.now) fun r => ?_
              cases r with
              | error x => trivial
              | ok _ =>
                exact (protocolSign_quiet C k m).bind fun o => replyToSign_quiet C _ _ o
      · trivial

/-- The last step of `ctap2Sign`, in both of its branches. -/
def ctap2Use (keyId : Uuid) (keyType : KeyType) (message : Bytes) :
    Prog In Vault Ctap2Error (Option Bytes) :=
  (useKey C keyId keyType message).bind fun
    | some (.ok signature) => .done (.ok (some signature))
    | _ => .done (.ok none)

theorem ctap2Use_quiet (k : Uuid) (ty : KeyType) (m : Bytes) :
    (ctap2Use C k ty m).Within A Quiet := by
  refine (useKey_quiet C _ _ _).bind fun r => ?_
  cases r with
  | none => trivial
  | some q => cases q <;> trivial

theorem ctap2Sign_quiet (prompts : Bool) (k : Uuid) (m : Bytes) :
    (ctap2Sign C prompts k m).Within A Quiet := by
  unfold ctap2Sign
  refine (findKeyRegion_quiet k).bind fun f => ?_
  cases f with
  | none => trivial
  | some p =>
    obtain ⟨ty, c⟩ := p
    refine (containsKey_quiet k).bind fun b => ?_
    cases b with
    | true => exact ctap2Use_quiet C k ty m
    | false =>
      refine (throttleCheck_quiet _).attempt.bind fun r => ?_
      cases r with
      | error x => trivial
      | ok _ =>
        cases prompts with
        | false => trivial
        | true =>
          refine prompt_quiet.bind fun reply => ?_
          cases reply with
          | none => trivial
          | some pw =>
            refine (decryptKey_quiet C _ _ _).attempt.bind fun r => ?_
            cases r with
            | error x => trivial
            | ok sk =>
              refine (cacheKey_quiet _ _ _).bind fun q => ?_
              cases q with
              | error x => trivial
              | ok _ => exact ctap2Use_quiet C k ty m

theorem handleMakeCredential_quiet (request : MakeCredentialRequest) (up uv : Bool) :
    (handleMakeCredential C (ctap2Backend C false) drawRegion request up uv).Within A Quiet := by
  unfold handleMakeCredential
  refine (credentialsForRp_quiet C _ _).bind fun _ => ?_
  refine Prog.Within.bind (p := Prog.ofExcept _) trivial fun _ => ?_
  refine Prog.Within.bind (read_quiet fun e _ => Drawn.mk e.seed e.scalar (e.uuid 0)) fun _ => ?_
  trivial

theorem handleGetAssertion_quiet (request : GetAssertionRequest) (up uv : Bool) :
    (handleGetAssertion C (ctap2Backend C true) request up uv).Within A Quiet := by
  unfold handleGetAssertion
  refine (credentialsForRp_quiet C _ _).bind fun _ => ?_
  refine Prog.Within.bind (p := Prog.ofExcept _) trivial fun _ => ?_
  refine (ctap2Sign_quiet C true _ _).bind fun _ => ?_
  trivial

end

/-! ## What one call does -/

section
variable (C : Crates) (A : Vault → In → Prop)

/-- `call`, run alone from `v` on the inputs `es`, gets as far as the edit `d`
(or as the error of the checks before it), in its region with input `e`. -/
inductive Call.Edits (v : Vault) :
    Call → List In → In → FacadeResult (Edit Reply) → Prop
  | addCompartment (label passphrase : String) (profile : DeviceProfile) (e : In) :
      Edits v (.addCompartment label passphrase profile) [e] e
        ((addCompartmentEdit C label passphrase profile e v.state).map (Edit.map .compartment))
  | createKey (a : CreateKeyArgs) (e : In) :
      Edits v (.createKey a) [e] e ((createKeyEdit C a e v.state).map (Edit.map .key))
  | discardKey {c k : String} (confirmText : String) {cid kid : Uuid} (e : In) (es : List In)
      (hc : parseUuid C c = .ok cid) (hk : parseUuid C k = .ok kid) :
      Edits v (.discardKey c k confirmText) (e :: es) e
        ((discardEdit cid kid confirmText v.state).map (Edit.map fun _ => .unit))
  | changeKeyPassphrase {c k : String} (old new : String) {cid kid : Uuid} (e₀ e : In)
      (hc : parseUuid C c = .ok cid) (hk : parseUuid C k = .ok kid) :
      Edits v (.changeKeyPassphrase c k old new) [e₀, e] e
        ((changePassphraseEdit C cid kid old new e v.state).map (Edit.map fun _ => .unit))
  | makeCredential (a : MakeCredentialArgs) {c : Uuid} {request : MakeCredentialRequest}
      {es : List In} {outcome : MakeCredentialOutcome} {w : Vault} (e : In)
      (hc : parseUuid C a.compartmentId = .ok c)
      (hr : parseMakeCredential C a.requestCbor = .ok request)
      (hx : Prog.Exec A (handleMakeCredential C (ctap2Backend C false) drawRegion request
        a.userPresent a.userVerified) v es (.ok outcome) w) :
      Edits v (.handleFido2MakeCredential a) (es ++ [e]) e
        ((makeCredentialEdit C c a outcome e v.state).map (Edit.map .bytes))
  | getAssertion {cbor : Bytes} {up uv : Bool} {request : GetAssertionRequest} {es : List In}
      {outcome : GetAssertionOutcome} {w : Vault} (e : In)
      (hr : parseGetAssertion C cbor = .ok request)
      (hx : Prog.Exec A (handleGetAssertion C (ctap2Backend C true) request up uv) v es
        (.ok outcome) w) :
      Edits v (.handleFido2GetAssertion cbor up uv) (es ++ [e]) e
        ((commitEdit outcome e v.state).map (Edit.map .assertion))
  | merge1 (target json : String) (blobs : List IncomingKeyBlob) (e : In) :
      Edits v (.mergeReencryptDiscardIncoming target json blobs) [e] e
        ((merge1Edit C target json blobs e v.state).map (Edit.map .merge))
  | merge2 (json : String) (blobs : List IncomingKeyBlob) (label passphrase : String)
      (profile : DeviceProfile) (e : In) :
      Edits v (.mergeSideBySide json blobs label passphrase profile) [e] e
        ((merge2Edit C json blobs label passphrase profile e v.state).map (Edit.map .merge))
  | merge3 (target json : String) (blobs : List IncomingKeyBlob)
      (passphrase kdfParamsJson phrase : String) (e : In) :
      Edits v (.mergeReplaceLocalWithIncoming target json blobs passphrase kdfParamsJson phrase)
        [e] e ((merge3Edit C target json blobs passphrase kdfParamsJson phrase e v.state).map
          (Edit.map .merge))

/-- What a call, run alone, does to the state and the file. -/
inductive Effect (v : Vault) (call : Call) (es : List In) (r : FacadeResult Reply) (v' : Vault) :
    Prop
  | quiet (h : Quiet v v')
  | unlocked (c : Uuid) (b : Bytes) (key : Key) (p : MasterBlobPlaintext)
      (hh : c ∈ headerIds v.state) (hb : v.state.container.masterBlobs.get c = some b)
      (hp : decryptWithKey C c b key = .ok p)
      (hs : v'.state = v.state.setUnlocked c ⟨p.manifest, key⟩) (hd : v'.disk = v.disk)
  | locked (hc : v'.state.container = v.state.container)
      (hu : ∀ c u, v'.state.unlocked.get c = some u → v.state.unlocked.get c = some u)
      (hd : v'.disk = v.disk)
  | edited (e : In) (d : FacadeResult (Edit Reply)) (hd : call.Edits C A v es e d)
      (ha : Agrees (r, v') (mutate C e v d))

/-- What a call that edits the container does, run alone: it stops before the
edit, leaving state and file alone, or it carries its edit out. -/
inductive Carried (v : Vault) (call : Call) (es : List In) (r : FacadeResult Reply) (v' : Vault) :
    Prop
  | stopped (x : FacadeError) (hr : r = .error x) (h : Quiet v v')
      (hn : ∀ e d, ¬ call.Edits C A v es e d)
  | edited (e : In) (d : FacadeResult (Edit Reply)) (hd : call.Edits C A v es e d)
      (ha : Agrees (r, v') (mutate C e v d))

end

section
variable {C : Crates} {A : Vault → In → Prop}

theorem exec_op {α : Type} {body : In → Vault → FacadeResult α × Vault} {v v' : Vault}
    {es : List In} {r : FacadeResult α} : Prog.Exec A (region body) v es r v' ↔
      ∃ e, es = [e] ∧ A v e ∧ r = (body e (v.enter e)).1 ∧ v' = (body e (v.enter e)).2 :=
  Prog.exec_atomic

theorem exec_replying {α : Type} {p : Op α} {f : α → Reply} {v v' : Vault} {es : List In}
    {r : FacadeResult Reply} : Prog.Exec A (replying p f) v es r v' ↔
      ∃ q, Prog.Exec A p v es q v' ∧ r = q.map f := by
  unfold replying
  rw [Prog.exec_bind]
  constructor
  · rintro (⟨x, rfl, h⟩ | ⟨a, w, es₁, es₂, rfl, h1, h2⟩)
    · exact ⟨_, h, rfl⟩
    · obtain ⟨rfl, rfl, rfl⟩ := Prog.exec_done.1 h2
      rw [List.append_nil]
      exact ⟨_, h1, rfl⟩
  · rintro ⟨q, h, rfl⟩
    cases q with
    | error x => exact .inl ⟨x, rfl, h⟩
    | ok a => exact .inr ⟨a, v', es, [], by simp, h, Prog.exec_done.2 ⟨rfl, rfl, rfl⟩⟩

/-- A call whose last region carries out an edit. -/
theorem carried_edited {α : Type} {v v' : Vault} {call : Call} {es : List In} {e : In}
    {f : α → Reply} {d : FacadeResult (Edit α)} {r : FacadeResult α}
    (he : call.Edits C A v es e (d.map (Edit.map f))) (h : Agrees (r, v') (mutate C e v d)) :
    Carried C A v call es (r.map f) v' := by
  refine .edited e _ he ?_
  rw [mutate_map]
  exact ⟨congrArg (Except.map f) h.result, h.state, h.disk⟩

theorem mutate_enter {α : Type} {v w : Vault} {e : In} {d : FacadeResult (Edit α)}
    (hq : Quiet v w) : Agrees (mutate C e (w.enter e) d) (mutate C e v d) :=
  mutate_agrees e (w.enter e) (w := v) hq.state hq.disk d

/-- The lookup of an unlock, if it succeeds: the blob and the key that opens it. -/
theorem unlockRegion_cases (id : Uuid) (pw : String) (e : In) (v : Vault) :
    (∃ x, (unlockRegion C id pw e v).1 = .error x) ∧ Quiet v (unlockRegion C id pw e v).2 ∨
    ∃ b key p, id ∈ headerIds v.state ∧ v.state.container.masterBlobs.get id = some b ∧
      decryptWithKey C id b key = .ok p ∧
      (unlockRegion C id pw e v).2.state = v.state.setUnlocked id ⟨p.manifest, key⟩ ∧
      (unlockRegion C id pw e v).2.disk = v.disk := by
  unfold unlockRegion
  simp only
  split
  · exact .inl ⟨⟨_, rfl⟩, rfl, rfl⟩
  · rename_i header hh
    have hid : id ∈ headerIds v.state := by
      have hm :=
        List.mem_map_of_mem (f := CompartmentHeaderOf.compartmentId) (List.mem_of_find?_eq_some hh)
      have he : header.compartmentId = id := by simpa using List.find?_some hh
      exact he ▸ hm
    split
    · exact .inl ⟨⟨_, rfl⟩, rfl, rfl⟩
    · rename_i b hb
      split
      · exact .inl ⟨⟨_, rfl⟩, rfl, rfl⟩
      · rename_i key hk
        split
        · rename_i p hp
          exact .inr ⟨b, key, p, hid, hb, hp, rfl, rfl⟩
        · exact .inl ⟨⟨_, rfl⟩, rfl, rfl⟩

/-- An unlock fails, and changes nothing, or finds what the blob holds. -/
theorem unlockCompartment_cases {c pw : String} {v v' : Vault} {es : List In}
    {r : FacadeResult Unit} (h : Prog.Exec A (unlockCompartment C c pw) v es r v') :
    (∃ x, r = .error x) ∧ Quiet v v' ∨
      ∃ id b key p, parseUuid C c = .ok id ∧ id ∈ headerIds v.state ∧
      v.state.container.masterBlobs.get id = some b ∧
        decryptWithKey C id b key = .ok p ∧ v'.state = v.state.setUnlocked id ⟨p.manifest, key⟩ ∧
        v'.disk = v.disk := by
  unfold unlockCompartment at h
  cases hp : parseUuid C c with
  | error x =>
    rw [hp] at h
    obtain ⟨-, rfl, rfl⟩ := Prog.exec_done.1 h
    exact .inl ⟨⟨x, rfl⟩, .refl _⟩
  | ok id =>
    rw [hp] at h
    rcases Prog.exec_bind.1 h with ⟨x, rfl, h1⟩ | ⟨a, w, es₁, es₂, -, h1, h2⟩
    · exact .inl ⟨⟨x, rfl⟩, Quiet.exec (throttleCheck_quiet _) h1⟩
    · have hq := Quiet.exec (throttleCheck_quiet _) h1
      obtain ⟨e, -, -, rfl, rfl⟩ := exec_op.1 h2
      rcases unlockRegion_cases (C := C) id pw e
        (w.enter e) with ⟨hx, hu⟩ | ⟨b, key, p, hh, hb, hk, hs, hd⟩
      · exact .inl ⟨hx, hq.trans ⟨hu.state, hu.disk⟩⟩
      · simp only [Vault.enter_state, Vault.enter_disk, hq.state, hq.disk] at hh hb hs hd
        exact .inr ⟨id, b, key, p, rfl, hh, hb, hk, hs, hd⟩

/-- A call that is quiet throughout. -/
theorem effect_quiet {α : Type} {p : Op α} {f : α → Reply} {v v' : Vault} {call : Call}
    {es : List In} {r : FacadeResult Reply} (hq : p.Within A Quiet)
    (h : Prog.Exec A (replying p f) v es r v') : Effect C A v call es r v' := by
  obtain ⟨q, hx, -⟩ := exec_replying.1 h
  exact .quiet (Quiet.exec hq hx)

theorem unlockCompartment_effect {c pw : String} {call : Call} {v v' : Vault} {es : List In}
    {r : FacadeResult Reply}
    (h : Prog.Exec A (replying (unlockCompartment C c pw) fun _ => .unit) v es r v') :
    Effect C A v call es r v' := by
  obtain ⟨q, hx, -⟩ := exec_replying.1 h
  rcases unlockCompartment_cases hx with ⟨-, hq⟩ | ⟨id, b, key, p, -, hh, hb, hk, hs, hd⟩
  · exact .quiet hq
  · exact .unlocked id b key p hh hb hk hs hd

theorem discardKey_carried {c k t : String} {v v' : Vault} {es : List In} {r : FacadeResult Reply}
    (h : Prog.Exec A (replying (discardKey C c k t) fun _ => .unit) v es r v') :
    Carried C A v (.discardKey c k t) es r v' := by
  obtain ⟨q, hx, rfl⟩ := exec_replying.1 h
  unfold discardKey at hx
  cases hc : parseUuid C c with
  | error x =>
    rw [hc] at hx
    obtain ⟨-, rfl, rfl⟩ := Prog.exec_done.1 hx
    refine .stopped x rfl (.refl _) fun e d he => ?_
    cases he
    simp_all
  | ok cid =>
    cases hk : parseUuid C k with
    | error x =>
      rw [hc, hk] at hx
      obtain ⟨-, rfl, rfl⟩ := Prog.exec_done.1 hx
      refine .stopped x rfl (.refl _) fun e d he => ?_
      cases he
      simp_all
    | ok kid =>
      rw [hc, hk] at hx
      have hag : ∀ e, Agrees (discardRegion C cid kid t e (v.enter e))
          (mutate C e v (discardEdit cid kid t v.state)) := by
        intro e
        obtain ⟨a1, a2, a3⟩ := discardRegion_agrees (C := C) e (v.enter e) cid kid t
        obtain ⟨b1, b2, b3⟩ := mutate_enter (C := C) (e := e) (.refl v)
          (d := discardEdit cid kid t v.state)
        exact ⟨a1.trans b1, a2.trans b2, a3.trans b3⟩
      rcases Prog.exec_bind.1 hx with ⟨x, rfl, h1⟩ | ⟨a, w, es₁, es₂, rfl, h1, h2⟩
      · obtain ⟨e, rfl, -, hr, rfl⟩ := exec_op.1 h1
        refine carried_edited (.discardKey t e [] hc hk) ⟨?_, (hag e).state, (hag e).disk⟩
        exact hr.trans (hag e).result
      · obtain ⟨e, rfl, -, hr, rfl⟩ := exec_op.1 h1
        obtain ⟨e', rfl, -, rfl, rfl⟩ := exec_op.1 h2
        refine carried_edited (.discardKey t e [e'] hc hk) ⟨?_, (hag e).state, (hag e).disk⟩
        exact hr.trans (hag e).result

theorem changeKeyPassphrase_carried {c k old new : String} {v v' : Vault} {es : List In}
    {r : FacadeResult Reply}
    (h : Prog.Exec A (replying (changeKeyPassphrase C c k old new) fun _ => .unit) v es r v') :
    Carried C A v (.changeKeyPassphrase c k old new) es r v' := by
  obtain ⟨q, hx, rfl⟩ := exec_replying.1 h
  unfold changeKeyPassphrase at hx
  cases hc : parseUuid C c with
  | error x =>
    rw [hc] at hx
    obtain ⟨-, rfl, rfl⟩ := Prog.exec_done.1 hx
    refine .stopped x rfl (.refl _) fun e d he => ?_
    cases he
    simp_all
  | ok cid =>
    cases hk : parseUuid C k with
    | error x =>
      rw [hc, hk] at hx
      obtain ⟨-, rfl, rfl⟩ := Prog.exec_done.1 hx
      refine .stopped x rfl (.refl _) fun e d he => ?_
      cases he
      simp_all
    | ok kid =>
      rw [hc, hk] at hx
      rcases Prog.exec_bind.1 hx with ⟨x, rfl, h1⟩ | ⟨a, w, es₁, es₂, rfl, h1, h2⟩
      · have hq := Quiet.exec (throttleCheck_quiet _) h1
        obtain ⟨e₀, rfl, -, -, -⟩ := exec_op.1 h1
        exact .stopped x rfl hq fun e d he => by cases he
      · have hq := Quiet.exec (throttleCheck_quiet _) h1
        obtain ⟨e₀, rfl, -, -, -⟩ := exec_op.1 h1
        obtain ⟨e, rfl, -, rfl, rfl⟩ := exec_op.1 h2
        obtain ⟨a1, a2, a3⟩ := changePassphraseRegion_agrees (C := C) e (w.enter e) cid kid old new
        rw [Vault.enter_state, hq.state] at a1 a2 a3
        obtain ⟨b1, b2, b3⟩ := mutate_enter (C := C) (e := e) hq
          (d := changePassphraseEdit C cid kid old new e v.state)
        exact carried_edited (.changeKeyPassphrase old new e₀ e hc hk)
          ⟨a1.trans b1, a2.trans b2, a3.trans b3⟩

theorem makeCredential_carried {a : MakeCredentialArgs} {v v' : Vault} {es : List In}
    {r : FacadeResult Reply}
    (h : Prog.Exec A (replying (handleFido2MakeCredential C a) .bytes) v es r v') :
    Carried C A v (.handleFido2MakeCredential a) es r v' := by
  obtain ⟨q, hx, rfl⟩ := exec_replying.1 h
  unfold handleFido2MakeCredential at hx
  cases hc : parseUuid C a.compartmentId with
  | error x =>
    rw [hc] at hx
    obtain ⟨-, rfl, rfl⟩ := Prog.exec_done.1 hx
    refine .stopped x rfl (.refl _) fun e d he => ?_
    cases he
    simp_all
  | ok c =>
    cases hp : parseMakeCredential C a.requestCbor with
    | error x =>
      rw [hc, hp] at hx
      obtain ⟨-, rfl, rfl⟩ := Prog.exec_done.1 hx
      refine .stopped x rfl (.refl _) fun e d he => ?_
      cases he
      simp_all
    | ok request =>
      rw [hc, hp] at hx
      have hquiet := (handleMakeCredential_quiet C (A := A) request a.userPresent
        a.userVerified).mapError (f := ctap2Failed)
      rcases Prog.exec_bind.1 hx with ⟨x, rfl, h1⟩ | ⟨o, w, es₁, es₂, rfl, h1, h2⟩
      · refine .stopped x rfl (Quiet.exec hquiet h1) fun e d he => ?_
        -- the handler would have returned, and the inputs say that it did not
        obtain ⟨q, hq, h1⟩ := Prog.exec_mapError.1 h1
        cases he with
        | makeCredential a e hc' hp' hx' =>
          rw [hp] at hp'
          cases hp'
          cases (hx'.unique h1).2.1
          cases hq
      · have hq := Quiet.exec hquiet h1
        obtain ⟨q, hq', h1⟩ := Prog.exec_mapError.1 h1
        cases q with
        | error x => cases hq'
        | ok o' =>
          cases hq'
          obtain ⟨e, rfl, -, rfl, rfl⟩ := exec_op.1 h2
          rw [makeCredentialRegion_eq, Vault.enter_state, hq.state]
          exact carried_edited (.makeCredential a e hc hp h1) (mutate_enter hq)

theorem getAssertion_carried {cbor : Bytes} {up uv : Bool} {v v' : Vault} {es : List In}
    {r : FacadeResult Reply}
    (h : Prog.Exec A (replying (handleFido2GetAssertion C cbor up uv) .assertion) v es r v') :
    Carried C A v (.handleFido2GetAssertion cbor up uv) es r v' := by
  obtain ⟨q, hx, rfl⟩ := exec_replying.1 h
  unfold handleFido2GetAssertion at hx
  cases hp : parseGetAssertion C cbor with
  | error x =>
    rw [hp] at hx
    obtain ⟨-, rfl, rfl⟩ := Prog.exec_done.1 hx
    refine .stopped x rfl (.refl _) fun e d he => ?_
    cases he
    simp_all
  | ok request =>
    rw [hp] at hx
    have hquiet := (handleGetAssertion_quiet C (A := A) request up uv).mapError (f := ctap2Failed)
    rcases Prog.exec_bind.1 hx with ⟨x, rfl, h1⟩ | ⟨o, w, es₁, es₂, rfl, h1, h2⟩
    · refine .stopped x rfl (Quiet.exec hquiet h1) fun e d he => ?_
      obtain ⟨q, hq, h1⟩ := Prog.exec_mapError.1 h1
      cases he with
      | getAssertion e hp' hx' =>
        rw [hp] at hp'
        cases hp'
        cases (hx'.unique h1).2.1
        cases hq
    · have hq := Quiet.exec hquiet h1
      obtain ⟨q, hq', h1⟩ := Prog.exec_mapError.1 h1
      cases q with
      | error x => cases hq'
      | ok o' =>
        cases hq'
        obtain ⟨e, rfl, -, rfl, rfl⟩ := exec_op.1 h2
        rw [commitAssertion_eq, Vault.enter_state, hq.state]
        exact carried_edited (.getAssertion e hp h1) (mutate_enter hq)

theorem lockCompartment_effect {c : String} {call : Call} {v v' : Vault} {es : List In}
    {r : FacadeResult Reply}
    (h : Prog.Exec A (replying (lockCompartment C c) fun _ => .unit) v es r v') :
    Effect C A v call es r v' := by
  obtain ⟨q, hx, -⟩ := exec_replying.1 h
  unfold lockCompartment at hx
  cases hp : C.uuidParse c with
  | error x =>
    rw [hp] at hx
    obtain ⟨-, -, rfl⟩ := Prog.exec_done.1 hx
    exact .quiet (.refl _)
  | ok id =>
    rw [hp] at hx
    obtain ⟨e, -, -, -, rfl⟩ := exec_op.1 hx
    refine .locked rfl (fun c u hu => ?_) rfl
    simp only [Vault.setState_state, Vault.enter_state, HashMap.get_del] at hu
    split at hu
    · cases hu
    · exact hu

theorem lockAll_effect {call : Call} {v v' : Vault} {es : List In} {r : FacadeResult Reply}
    (h : Prog.Exec A (replying lockAll fun _ => .unit) v es r v') :
    Effect C A v call es r v' := by
  obtain ⟨q, hx, -⟩ := exec_replying.1 h
  rcases Prog.exec_bind.1 hx with ⟨x, -, h1⟩ | ⟨a, w, es₁, es₂, -, h1, h2⟩
  · obtain ⟨e, -, -, hr, -⟩ := exec_op.1 h1
    cases hr
  · obtain ⟨e, -, -, -, rfl⟩ := exec_op.1 h1
    obtain ⟨e', -, -, -, rfl⟩ := exec_op.1 h2
    refine .locked rfl (fun c u hu => ?_) rfl
    simp at hu

/-- A call that is one region, and that region an edit. -/
theorem exec_region_cases {α : Type} {body : In → Vault → FacadeResult α × Vault} {f : α → Reply}
    {call : Call} {d : In → VaultState → FacadeResult (Edit α)} {v v' : Vault} {es : List In}
    {r : FacadeResult Reply} (hb : ∀ e w, body e w = mutate C e w (d e w.state))
    (he : ∀ e, call.Edits C A v [e] e ((d e v.state).map (Edit.map f)))
    (h : Prog.Exec A (replying (region body) f) v es r v') :
    ∃ e q, es = [e] ∧ call.Edits C A v [e] e q ∧ Agrees (r, v') (mutate C e v q) := by
  obtain ⟨q, hx, rfl⟩ := exec_replying.1 h
  obtain ⟨e, rfl, -, rfl, rfl⟩ := exec_op.1 hx
  refine ⟨e, _, rfl, he e, ?_⟩
  obtain ⟨h1, h2, h3⟩ := mutate_enter (C := C) (e := e) (.refl v) (d := d e v.state)
  rw [hb, Vault.enter_state, mutate_map]
  exact ⟨congrArg (Except.map f) h1, h2, h3⟩

theorem region_carried {α : Type} {body : In → Vault → FacadeResult α × Vault} {f : α → Reply}
    {call : Call} {d : In → VaultState → FacadeResult (Edit α)} {v v' : Vault} {es : List In}
    {r : FacadeResult Reply} (hb : ∀ e w, body e w = mutate C e w (d e w.state))
    (he : ∀ e, call.Edits C A v [e] e ((d e v.state).map (Edit.map f)))
    (h : Prog.Exec A (replying (region body) f) v es r v') : Carried C A v call es r v' := by
  obtain ⟨e, q, rfl, hq, ha⟩ := exec_region_cases hb he h
  exact .edited e q hq ha

/-- Such a call succeeds when its edit goes through. -/
theorem exec_region_edit {α : Type} {body : In → Vault → FacadeResult α × Vault} {f : α → Reply}
    {g : In → VaultState → FacadeResult (Edit α)} {v : Vault} {e : In} {d : Edit α}
    (hb : ∀ e w, body e w = mutate C e w (g e w.state)) (ha : A v e) (hd : g e v.state = .ok d)
    (hg : GoesThrough C e d.state d.tail) :
    ∃ v', Prog.Exec A (replying (region body) f) v [e] (.ok (f d.reply)) v' ∧
      v'.state = inMemory C e d.state d.tail ∧
      v' = { v.enter e with state := v'.state, disk := v'.disk } := by
  have hr : body e (v.enter e) = mutate C e (v.enter e) (.ok d) := by
    rw [hb, Vault.enter_state, hd]
  refine ⟨(mutate C e (v.enter e) (.ok d)).2, ?_, ?_, mutate_frame e _ _⟩
  · refine exec_replying.2 ⟨.ok d.reply, exec_op.2 ⟨e, rfl, ha, ?_, ?_⟩, rfl⟩
    · rw [hr]
      exact (mutate_goesThrough e _ hg).1.symm
    · rw [hr]
  · exact (mutate_goesThrough e _ hg).2.1

/-- The calls that edit the container. -/
def Call.EditsContainer : Call → Prop
  | .addCompartment .. | .createKey .. | .discardKey .. | .changeKeyPassphrase .. |
    .handleFido2MakeCredential .. | .handleFido2GetAssertion .. |
    .mergeReencryptDiscardIncoming .. |
    .mergeSideBySide .. | .mergeReplaceLocalWithIncoming .. => True
  | _ => False

/-- **One call that edits the container.** -/
theorem Call.carried {call : Call} (hm : call.EditsContainer) {v v' : Vault} {es : List In}
    {r : FacadeResult Reply} (h : Prog.Exec A (call.run C) v es r v') :
    Carried C A v call es r v' := by
  cases call with
  | addCompartment l p d =>
    exact region_carried (fun e w => addCompartmentRegion_eq e w l p d) (.addCompartment l p d) h
  | createKey a => exact region_carried (fun e w => createKeyRegion_eq e w a) (.createKey a) h
  | discardKey c k t => exact discardKey_carried h
  | changeKeyPassphrase c k o n => exact changeKeyPassphrase_carried h
  | handleFido2MakeCredential a => exact makeCredential_carried h
  | handleFido2GetAssertion q p u => exact getAssertion_carried h
  | mergeReencryptDiscardIncoming t j b =>
    exact region_carried (fun e w => merge1Region_eq e w t j b) (.merge1 t j b) h
  | mergeSideBySide j b l p d =>
    exact region_carried (fun e w => merge2Region_eq e w j b l p d) (.merge2 j b l p d) h
  | mergeReplaceLocalWithIncoming t j b p k c =>
    exact region_carried (fun e w => merge3Region_eq e w t j b p k c) (.merge3 t j b p k c) h
  | _ => exact absurd hm id

theorem Carried.effect {v v' : Vault} {call : Call} {es : List In} {r : FacadeResult Reply}
    (h : Carried C A v call es r v') : Effect C A v call es r v' := by
  cases h with
  | stopped x hr hq hn => exact .quiet hq
  | edited e d hd ha => exact .edited e d hd ha

/-- **One call.** What any call, run alone, does to the state and the file. -/
theorem Call.effect (call : Call) {v v' : Vault} {es : List In} {r : FacadeResult Reply}
    (h : Prog.Exec A (call.run C) v es r v') : Effect C A v call es r v' := by
  cases call with
  | unlockCompartment c p => exact unlockCompartment_effect h
  | lockCompartment c => exact lockCompartment_effect h
  | lockAll => exact lockAll_effect h
  | revealRawKeyHex c k p => exact effect_quiet (revealRawKeyHex_quiet C c k p) h
  | unlockKey c k p s => exact effect_quiet (unlockKey_quiet C c k p s) h
  | lockKey k => exact effect_quiet (lockKey_quiet C k) h
  | sign k m => exact effect_quiet (sign_quiet C k m) h
  | handleProtocolRequest i q => exact effect_quiet (handleProtocolRequest_quiet C i q) h
  | query q => exact effect_quiet (query_quiet C q) h
  | _ => exact (Call.carried (by trivial) h).effect

end

/-! ## The header -/

theorem headerIds_push (s : VaultState) (h : CompartmentHeader) :
    headerIds (s.pushHeader h) = headerIds s ++ [h.compartmentId] := by
  simp [headerIds, VaultState.pushHeader]

theorem map_modifyFirst {α β : Type} {p : α → Bool} {f : α → α} {g : α → β}
    (h : ∀ a, g (f a) = g a) : ∀ l : List α, (modifyFirst p f l).map g = l.map g := by
  intro l
  induction l with
  | nil => rfl
  | cons a l ih =>
    unfold modifyFirst
    split
    · simp [h]
    · simp [ih]

theorem filter_modifyFirst {α : Type} {p : α → Bool} {f : α → α} (hf : ∀ a, p (f a) = p a) :
    ∀ {l : List α} {a : α}, l.filter p = [a] → (modifyFirst p f l).filter p = [f a] := by
  intro l
  induction l with
  | nil => intro a h; cases h
  | cons x l ih =>
    intro a h
    unfold modifyFirst
    cases hx : p x with
    | true =>
      simp only [List.filter_cons, hx, if_true, List.cons.injEq] at h
      obtain ⟨rfl, hl⟩ := h
      simp [hf, hx, hl]
    | false =>
      simp only [List.filter_cons, hx, Bool.false_eq_true, if_false] at h
      simp only [Bool.false_eq_true, if_false, List.filter_cons, hx]
      exact ih h

theorem mem_modifyFirst {α : Type} {p : α → Bool} {f : α → α} {l : List α} {y : α}
    (h : y ∈ modifyFirst p f l) : y ∈ l ∨ ∃ x ∈ l, p x = true ∧ y = f x := by
  induction l with
  | nil => cases h
  | cons x l ih =>
    unfold modifyFirst at h
    cases hx : p x with
    | true =>
      simp only [hx, if_true] at h
      rcases List.mem_cons.1 h with rfl | h
      · exact .inr ⟨x, List.mem_cons_self, hx, rfl⟩
      · exact .inl (List.mem_cons_of_mem _ h)
    | false =>
      simp only [hx, Bool.false_eq_true, if_false] at h
      rcases List.mem_cons.1 h with rfl | h
      · exact .inl List.mem_cons_self
      · rcases ih h with h | ⟨z, hz, hp, rfl⟩
        · exact .inl (List.mem_cons_of_mem _ h)
        · exact .inr ⟨z, List.mem_cons_of_mem _ hz, hp, rfl⟩

theorem find?_modifyFirst {α : Type} {p : α → Bool} {f : α → α} {a : α} (ha : p (f a) = true) :
    ∀ {l : List α}, l.find? p = some a → (modifyFirst p f l).find? p = some (f a) := by
  intro l
  induction l with
  | nil => intro h; cases h
  | cons x l ih =>
    intro h
    unfold modifyFirst
    by_cases hx : p x = true
    · simp only [List.find?_cons, hx, Option.some.injEq] at h
      subst h
      simp only [hx, if_true, List.find?_cons, ha]
    · simp only [List.find?_cons, hx] at h
      simp only [hx, Bool.false_eq_true, if_false, List.find?_cons]
      exact ih h

theorem filter_modifyFirst_of_ne {α : Type} {p q : α → Bool} {f : α → α}
    (h : ∀ a, p a = true → q a = false ∧ q (f a) = false) :
    ∀ l : List α, (modifyFirst p f l).filter q = l.filter q := by
  intro l
  induction l with
  | nil => rfl
  | cons a l ih =>
    unfold modifyFirst
    split
    · rename_i ha
      simp [h a ha]
    · simp [List.filter_cons, ih]

theorem mem_of_find?_modifyFirst {α : Type} {p : α → Bool} (f : α → α) :
    ∀ {l : List α} {x : α}, l.find? p = some x → f x ∈ modifyFirst p f l := by
  intro l
  induction l with
  | nil => intro x h; cases h
  | cons a l ih =>
    intro x h
    unfold modifyFirst
    by_cases ha : p a = true
    · simp only [List.find?_cons, ha, Option.some.injEq] at h
      subst h
      simp [ha]
    · simp only [List.find?_cons, ha] at h
      simp only [ha, Bool.false_eq_true, if_false]
      exact List.mem_cons_of_mem _ (ih h)

theorem headerIds_replaceMaster (s : VaultState) (c : Uuid) (kdf : KdfParams) (b : Bytes)
    (u : UnlockedCompartment) : headerIds (s.replaceMaster c kdf b u) = headerIds s :=
  map_modifyFirst (f := fun h : CompartmentHeader => { h with kdfParamsMaster := kdf })
    (fun _ => rfl) s.container.header.compartments

section
variable {C : Crates} {A : Vault → In → Prop}

theorem storeEdit_header {α : Type} {s : VaultState} {c : Uuid} {k : KeyEntry} {b : Bytes} {a : α}
    {f : α → Reply} {d : Edit Reply} (h : (storeEdit C s c k b a).map (Edit.map f) = .ok d) :
    d.state.container.header = s.container.header := by
  unfold storeEdit at h
  split at h
  · cases h
  · split at h
    · cases h; rfl
    · cases h; rfl

/-- An edit keeps the format version, and the compartments' ids too unless it
adds one of its own. -/
theorem Call.Edits.header {v : Vault} {call : Call} {es : List In} {e : In}
    {q : FacadeResult (Edit Reply)} {d : Edit Reply} (he : call.Edits C A v es e q)
    (hq : q = .ok d) :
    d.state.container.header.formatVersion = v.state.container.header.formatVersion ∧
      (headerIds d.state = headerIds v.state ∨
        headerIds d.state = headerIds v.state ++ [e.uuid 0]) := by
  have hsame : d.state.container.header = v.state.container.header →
      d.state.container.header.formatVersion = v.state.container.header.formatVersion ∧
      (headerIds d.state = headerIds v.state ∨
        headerIds d.state = headerIds v.state ++ [e.uuid 0]) := by
    intro h
    exact ⟨by rw [h], .inl (by unfold headerIds; rw [h])⟩
  cases he with
  | addCompartment label passphrase profile e =>
    unfold addCompartmentEdit at hq
    split at hq
    · cases hq
    · cases hq
      exact ⟨rfl, .inr (headerIds_push _ _)⟩
  | createKey a e =>
    unfold createKeyEdit at hq
    split at hq
    · cases hq
    · exact hsame (storeEdit_header hq)
  | discardKey t e es hc hk =>
    unfold discardEdit at hq
    split at hq
    · cases hq
    · cases hq
      exact hsame rfl
  | changeKeyPassphrase old new e₀ e hc hk =>
    unfold changePassphraseEdit at hq
    split at hq
    · cases hq
    · split at hq
      · cases hq
      · split at hq
        · cases hq
        · unfold resealEdit at hq
          split at hq
          · cases hq
          · split at hq
            · cases hq
            · cases hq
              exact hsame rfl
  | makeCredential a e hc hr hx =>
    unfold makeCredentialEdit at hq
    split at hq
    · cases hq
    · exact hsame (storeEdit_header hq)
  | getAssertion e hr hx =>
    unfold commitEdit at hq
    split at hq
    · cases hq
      exact hsame rfl
    · split at hq
      · cases hq
      · cases hq
        exact hsame rfl
  | merge1 target json blobs e =>
    unfold merge1Edit at hq
    split at hq
    · cases hq
    · cases hq
      exact hsame rfl
  | merge2 json blobs label passphrase profile e =>
    unfold merge2Edit at hq
    split at hq
    · cases hq
    · cases hq
      exact ⟨rfl, .inr (headerIds_push _ _)⟩
  | merge3 target json blobs passphrase kdfJson phrase e =>
    unfold merge3Edit at hq
    split at hq
    · cases hq
    · rename_i t r kdf u blob hp
      cases hq
      exact ⟨rfl, .inl (headerIds_replaceMaster _ t kdf blob u)⟩

theorem Call.Edits.mem {A : Vault → In → Prop} {v : Vault} {call : Call} {es : List In} {e : In}
    {q : FacadeResult (Edit Reply)} (h : call.Edits C A v es e q) : e ∈ es := by
  cases h <;> simp

/-- The inputs decide which edit a call gets to. -/
theorem Call.Edits.unique {v : Vault} {call : Call} {es : List In} {e e' : In}
    {q q' : FacadeResult (Edit Reply)} (h : call.Edits C A v es e q)
    (h' : call.Edits C A v es e' q') : e' = e ∧ q' = q := by
  cases h with
  | discardKey t e es hc hk =>
    cases h' with
    | discardKey _ _ _ hc' hk' =>
      rw [hc] at hc'
      rw [hk] at hk'
      cases hc'
      cases hk'
      exact ⟨rfl, rfl⟩
  | changeKeyPassphrase old new e₀ e hc hk =>
    cases h' with
    | changeKeyPassphrase _ _ _ _ hc' hk' =>
      rw [hc] at hc'
      rw [hk] at hk'
      cases hc'
      cases hk'
      exact ⟨rfl, rfl⟩
  | @makeCredential a c request es outcome w e hc hr hx =>
    generalize hes : es ++ [e] = l at h'
    cases h' with
    | makeCredential _ e' hc' hr' hx' =>
      obtain ⟨rfl, he⟩ := List.append_inj' hes rfl
      cases he
      rw [hc] at hc'
      rw [hr] at hr'
      cases hc'
      cases hr'
      rw [← List.append_nil es] at hx'
      cases (hx.unique hx').2.1
      exact ⟨rfl, rfl⟩
  | @getAssertion cbor up uv request es outcome w e hr hx =>
    generalize hes : es ++ [e] = l at h'
    cases h' with
    | getAssertion e' hr' hx' =>
      obtain ⟨rfl, he⟩ := List.append_inj' hes rfl
      cases he
      rw [hr] at hr'
      cases hr'
      rw [← List.append_nil es] at hx'
      cases (hx.unique hx').2.1
      exact ⟨rfl, rfl⟩
  | _ => cases h'; exact ⟨rfl, rfl⟩

/-- Whatever a call does, and whether or not it succeeds, the version stays,
and so do the compartments' ids but for one drawn by the call. -/
theorem Effect.header {v v' : Vault} {call : Call} {es : List In} {r : FacadeResult Reply}
    (h : Effect C A v call es r v') :
    v'.state.container.header.formatVersion = v.state.container.header.formatVersion ∧
      (headerIds v'.state = headerIds v.state ∨
        ∃ e ∈ es, headerIds v'.state = headerIds v.state ++ [e.uuid 0]) := by
  cases h with
  | quiet hq => rw [hq.state]; exact ⟨rfl, .inl rfl⟩
  | unlocked c b key p hh hb hp hs hd => rw [hs]; exact ⟨rfl, .inl rfl⟩
  | locked hc hu hd => unfold headerIds; rw [hc]; exact ⟨rfl, .inl rfl⟩
  | edited e q he hag =>
    have hstate : v'.state = (mutate C e v q).2.state := hag.state
    cases q with
    | error x => rw [hstate]; exact ⟨rfl, .inl rfl⟩
    | ok d =>
      obtain ⟨hv, hids⟩ := Call.Edits.header he rfl
      have hh : v'.state.container.header = d.state.container.header := by
        rw [hstate, mutate_state, (inMemory_frame C e d.state d.tail).2.1]
      have hsame : headerIds v'.state = headerIds d.state := by unfold headerIds; rw [hh]
      refine ⟨by rw [hh]; exact hv, ?_⟩
      rw [hsame]
      rcases hids with hids | hids
      · exact .inl hids
      · exact .inr ⟨e, he.mem, hids⟩

theorem headerIds_nodup_step {v v' : Vault} {call : Call} {es : List In} {r : FacadeResult Reply}
    (hx : Prog.Exec A (call.run C) v es r v') (hf : ∀ e ∈ es, e.uuid 0 ∉ headerIds v.state)
    (h : (headerIds v.state).Nodup) : (headerIds v'.state).Nodup := by
  rcases (call.effect hx).header.2 with hids | ⟨e, he, hids⟩
  · rw [hids]; exact h
  · rw [hids, List.nodup_append]
    refine ⟨h, List.nodup_singleton _, fun x hx y hy hxy => ?_⟩
    rw [List.mem_singleton] at hy
    exact hf e he (hy ▸ hxy ▸ hx)

end

/-! ## Sequential runs -/

/-- One call of a run: the vault before it, the call with its inputs, its
result, and the vault after it. -/
structure Turn where
  before : Vault
  call : Call
  inputs : List In
  result : FacadeResult Reply
  after : Vault

/-- Calls one after another from `v₀`, newest first, and the vault they lead
to. -/
inductive Run (C : Crates) (A : Vault → In → Prop) (v₀ : Vault) : List Turn → Vault → Prop
  | nil : Run C A v₀ [] v₀
  | cons {l : List Turn} {v v' : Vault} {call : Call} {es : List In} {r : FacadeResult Reply}
      (hr : Run C A v₀ l v) (hx : Prog.Exec A (call.run C) v es r v') :
      Run C A v₀ (⟨v, call, es, r, v'⟩ :: l) v'

/-- `Vault::create` made this vault. -/
def Created (C : Crates) (v : Vault) : Prop :=
  ∃ e disk label passphrase profile, create C e disk label passphrase profile = (.ok (), v)

section
variable {C : Crates}

theorem create_ok {e : In} {disk : Option Bytes} {label passphrase : String}
    {profile : DeviceProfile} {v : Vault}
    (h : create C e disk label passphrase profile = (.ok (), v)) :
    ∃ kdf key blob bytes, benchmark C profile e.salt e.elapsed = .ok kdf ∧
      derive C (utf8 passphrase) kdf = .ok key ∧
      encryptWithKey C (e.uuid 0) (Manifest.new (e.uuid 1) e.utc) key (e.nonce 1) = .ok blob ∧
      v.state = (((⟨Container.new, ∅⟩ : VaultState).pushHeader ⟨e.uuid 0, label, kdf⟩).setMasterBlob
        (e.uuid 0) blob).setUnlocked (e.uuid 0) ⟨Manifest.new (e.uuid 1) e.utc, key⟩ ∧
      writeAtomic C e v.state.container = .ok bytes ∧ v.disk = some bytes := by
  unfold create at h
  simp only at h
  split at h
  · cases h
  · rename_i hp
    simp only [bind_ok, facade_ok, pure, Except.pure, Except.ok.injEq, Prod.mk.injEq] at hp
    obtain ⟨kdf, hbench, key, hd, blob, hb, rfl, rfl, rfl⟩ := hp
    rcases writeContainer_cases (C := C) e (Vault.setState ⟨⟨Container.new, ∅⟩, ∅,
      L2.Throttle.ThrottleTracker.new, disk, e.now, []⟩
        ((((⟨Container.new, ∅⟩ : VaultState).pushHeader
        ⟨e.uuid 0, label, kdf⟩).setMasterBlob (e.uuid 0) blob).setUnlocked (e.uuid 0)
        ⟨Manifest.new (e.uuid 1) e.utc, key⟩)) with ⟨x, hx, -⟩ | ⟨bytes, hw, hx⟩
    · rw [hx] at h; cases h
    · rw [hx] at h
      cases h
      exact ⟨kdf, key, blob, bytes, hbench, hd, hb, rfl, hw, rfl⟩

end

/-- Nothing is cached, nothing throttled, nothing on record. -/
structure Vault.Fresh (v : Vault) (now : Nat) : Prop where
  clock : v.clock = now
  retention : v.retention = ∅
  throttle : v.throttle = L2.Throttle.ThrottleTracker.new
  hist : v.hist = []

theorem create_fresh {C : Crates} (e : In) (disk : Option Bytes) (label pw : String)
    (profile : DeviceProfile) : (create C e disk label pw profile).2.Fresh e.now := by
  unfold create
  simp only
  split
  · exact ⟨rfl, rfl, rfl, rfl⟩
  · unfold writeContainer
    split <;> exact ⟨rfl, rfl, rfl, rfl⟩

/-- `Vault::open` made this vault. -/
def Opened (C : Crates) (v : Vault) : Prop := ∃ e bytes, openVault C e bytes = .ok v

theorem start_fresh {C : Crates} {v : Vault} (h : Created C v ∨ Opened C v) :
    ∃ now, v.Fresh now := by
  rcases h with ⟨e, disk, label, passphrase, profile, hc⟩ | ⟨e, bytes, ho⟩
  · have hf := create_fresh (C := C) e disk label passphrase profile
    rw [hc] at hf
    exact ⟨e.now, hf⟩
  · unfold openVault at ho
    simp only [bind_ok, facade_ok, pure, Except.pure, Except.ok.injEq] at ho
    obtain ⟨c, hc, rfl⟩ := ho
    exact ⟨e.now, rfl, rfl, rfl, rfl⟩

/-- The invariant rule for runs. -/
theorem Run.invariant {C : Crates} {A : Vault → In → Prop} {I : Vault → Prop} {v₀ v : Vault}
    {l : List Turn} (h : Run C A v₀ l v) (h0 : I v₀)
    (hs : ∀ call v es r v', I v → Prog.Exec A (Call.run C call) v es r v' → I v') : I v := by
  induction h with
  | nil => exact h0
  | cons _ hx ih => exact hs _ _ _ _ _ ih hx

theorem fromBytes_version {C : Crates} {o : Orders} {bytes : Bytes} {c : Container}
    (h : Container.fromBytes C o bytes = .ok c) : c.header.formatVersion = L1.formatVersion := by
  unfold Container.fromBytes at h
  rw [bind_ok] at h
  obtain ⟨es, -, h⟩ := h
  unfold Container.parseEntries at h
  split at h
  · cases h
  · simp only [bind_ok] at h
    obtain ⟨doc, -, header, -, h⟩ := h
    split at h
    · cases h
    · rename_i hv
      simp only [bind_ok, pure, Except.pure, Except.ok.injEq] at h
      obtain ⟨p, -, rfl⟩ := h
      exact Decidable.not_not.1 hv

/-- Every vault there is has the one format version. -/
theorem Run.version {C : Crates} {A : Vault → In → Prop} {v₀ v : Vault} {l : List Turn}
    (h₀ : Created C v₀ ∨ Opened C v₀) (h : Run C A v₀ l v) :
    v.state.container.header.formatVersion = L1.formatVersion := by
  refine h.invariant (I := fun v => v.state.container.header.formatVersion = L1.formatVersion) ?_
    fun call v es r v' hv hx => (call.effect hx).header.1.trans hv
  rcases h₀ with ⟨e, disk, label, passphrase, profile, hc⟩ | ⟨e, bytes, ho⟩
  · obtain ⟨kdf, key, blob, _, -, -, -, hs, -, -⟩ := create_ok hc
    rw [hs]; rfl
  · unfold openVault at ho
    simp only [bind_ok, facade_ok, pure, Except.pure, Except.ok.injEq] at ho
    obtain ⟨c, hc, rfl⟩ := ho
    exact fromBytes_version hc

/-- The compartment id a call may draw is not in the header yet. -/
def FreshCompartment (t : Turn) : Prop := ∀ e ∈ t.inputs, e.uuid 0 ∉ headerIds t.before.state

theorem created_headerIds {C : Crates} {v : Vault} (h : Created C v) :
    (headerIds v.state).Nodup := by
  obtain ⟨e, disk, label, passphrase, profile, h⟩ := h
  obtain ⟨kdf, key, blob, bytes, -, -, -, hs, -, -⟩ := create_ok h
  rw [hs]
  exact List.nodup_singleton _

end VaultSigner.L4
