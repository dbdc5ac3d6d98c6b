import VaultSigner.L5Runs.Counting
import VaultSigner.L5Runs.Genuine

/-!
# A key from its creation on (`create_key`, `handle_fido2_make_credential`)

A creation runs several regions, and the last one draws the key's id and puts
the entry, the blob and the file there. Until then nothing goes by the id; from
then on the key is the one that was generated, in this process and the next.

Results:
* `makesKey_endsBy`, `MakesKeyBy.genuine`: the last region of a creation, and
  what it leaves.
* `key_genuine`: whatever is returned under the key's id is by the key.
* `assertion_verifies`: an assertion verifies under the public key that the
  registration returned.
-/
namespace VaultSigner.L5
open VaultSigner.Core VaultSigner.L1 VaultSigner.L3 VaultSigner.L4
open VaultSigner.L2

section
variable {C : Crates} {A : Vault → In → Prop} {x₀ : KeyEntry} {sk : Bytes}

/-! ## The creation -/

def MakesKey : Call → Prop
  | .createKey _ | .handleFido2MakeCredential _ => True
  | _ => False

/-- The handler of a registration made `o`. -/
def Built (C : Crates) (a : MakeCredentialArgs) (o : MakeCredentialOutcome) : Prop :=
  ∃ request keyType drawn, parseMakeCredential C a.requestCbor = .ok request ∧
    buildCredential C request a.userPresent a.userVerified keyType drawn = .ok o

/-- The last region of a creation. -/
def MakesKeyBy (C : Crates) : Call → Op Reply → Prop
  | .createKey a, p => p = replying (region (createKeyRegion C a)) .key
  | .handleFido2MakeCredential a, p => ∃ c o, Built C a o ∧
      p = replying (region (makeCredentialRegion C c a o)) .bytes
  | _, _ => False

/-- What a creation made on the input `e` of its last region: the entry, the
key pair, and the reply. -/
inductive Made (C : Crates) (e : In) : Call → KeyEntry → GeneratedKeyPair → Reply → Prop
  | created {a : CreateKeyArgs} {c : Uuid} {x : KeyEntry} {b : Bytes} {g : GeneratedKeyPair}
      (hp : prepareCreateKey C e a = .ok (c, x, b))
        (hg : generate C e.seed e.scalar a.keyType = .ok g)
      (hs : sealKey C e a.keyPassphrase g.privateKey x.keyId x.keyType x.label = .ok b)
      (hpublic : x.publicKeyHex = hexEncode g.publicKey) (hty : x.keyType = a.keyType) :
      Made C e (.createKey a) x g (.key (keyInfoView C c x))
  | registered {a : MakeCredentialArgs} {o : MakeCredentialOutcome} {x : KeyEntry} {b : Bytes}
      (ho : Built C a o) (hp : prepareMakeCredential C e a o = .ok (x, b))
      (hs : sealKey C e a.keyPassphrase o.generatedKey.privateKey x.keyId x.keyType x.label = .ok b)
      (hpublic : x.publicKeyHex = hexEncode o.generatedKey.publicKey)
      (hty : x.keyType = o.generatedKey.keyType)
      (hf :
        x.fido2 = some ⟨o.rpId, C.base64Encode o.credentialId, C.base64Encode o.userHandle, 0,
        o.discoverable⟩) :
      Made C e (.handleFido2MakeCredential a) x o.generatedKey (.bytes o.responseCbor)

theorem replying_region {α : Type} (body : In → Vault → FacadeResult α × Vault) (f : α → Reply) :
    replying (region body) f = .region (fun e v => (body e (v.enter e)).2)
      fun e v => (Prog.done (body e (v.enter e)).1).bind fun a => .done (.ok (f a)) := rfl

theorem endsBy_region {α : Type} {T : Op Reply → Prop} {body : In → Vault → FacadeResult α × Vault}
    {f : α → Reply} (h : T (replying (region body) f)) : (replying (region body) f).EndsBy T := by
  refine .inl ⟨h, fun e v => ?_⟩
  show ∃ r, (Prog.done (body e (v.enter e)).1).bind _ = _
  cases (body e (v.enter e)).1 with
  | error x => exact ⟨_, rfl⟩
  | ok a => exact ⟨_, rfl⟩

theorem handleMakeCredential_built {a : MakeCredentialArgs} {request : MakeCredentialRequest}
    (hr : parseMakeCredential C a.requestCbor = .ok request) :
    ((handleMakeCredential C (ctap2Backend C false) drawRegion request a.userPresent
      a.userVerified).mapError
      ctap2Failed).Yields fun r => ∀ o, r = .ok o → Built C a o := by
  have herror : ∀ x : Ctap2Error, ∀ o,
      (Except.error x : Except Ctap2Error _).mapError ctap2Failed = .ok o →
      Built C a o := fun x o ho => by cases ho
  refine Prog.Yields.mapError ?_
  unfold handleMakeCredential
  refine Prog.Yields.bind herror (fun existing => ?_) _
  refine Prog.Yields.bind herror (fun keyType => ?_) _
  refine Prog.Yields.bind herror (fun drawn o ho => ?_) _
  cases hb : buildCredential C request a.userPresent a.userVerified keyType drawn with
  | error x => rw [hb] at ho; cases ho
  | ok o' =>
    rw [hb] at ho
    cases ho
    exact ⟨request, keyType, drawn, hr, hb⟩

/-- **A creation ends by the region that stores the key.** -/
theorem makesKey_endsBy {call : Call} (h : MakesKey call) :
    (call.run C).EndsBy (MakesKeyBy C call) := by
  cases call with
  | createKey a => exact endsBy_region (T := MakesKeyBy C (.createKey a)) rfl
  | handleFido2MakeCredential a =>
    show (replying (handleFido2MakeCredential C a) .bytes).EndsBy _
    unfold handleFido2MakeCredential
    cases parseUuid C a.compartmentId with
    | error x => exact ⟨x, rfl⟩
    | ok c =>
      cases hr : parseMakeCredential C a.requestCbor with
      | error x => exact ⟨x, rfl⟩
      | ok request =>
        show (Prog.bind (Prog.bind _ _) _).EndsBy _
        rw [Prog.bind_assoc]
        exact Prog.endsBy_bind (fun o ho => endsBy_region ⟨c, o, ho, rfl⟩)
          (handleMakeCredential_built hr)
  | _ => exact h.elim

theorem prepareCreateKey_made {e : In} {a : CreateKeyArgs} {c : Uuid} {x : KeyEntry} {b : Bytes}
    (h : prepareCreateKey C e a = .ok (c, x, b)) :
    ∃ g, Made C e (.createKey a) x g (.key (keyInfoView C c x)) ∧
      sealKey C e a.keyPassphrase g.privateKey x.keyId x.keyType x.label = .ok b := by
  have hp := h
  unfold prepareCreateKey at h
  simp only [bind_ok, facade_ok, pure, Except.pure, Except.ok.injEq] at h
  obtain ⟨c', -, fido2, -, g, hg, blob, hs, h⟩ := h
  cases h
  exact ⟨g, .created hp hg hs rfl rfl, hs⟩

theorem prepareMakeCredential_made {e : In} {a : MakeCredentialArgs} {o : MakeCredentialOutcome}
    {x : KeyEntry} {b : Bytes} (ho : Built C a o) (h : prepareMakeCredential C e a o = .ok (x, b)) :
    Made C e (.handleFido2MakeCredential a) x o.generatedKey (.bytes o.responseCbor) ∧
      sealKey C e a.keyPassphrase o.generatedKey.privateKey x.keyId x.keyType x.label = .ok b := by
  have hp := h
  unfold prepareMakeCredential at h
  simp only [bind_ok, pure, Except.pure, Except.ok.injEq] at h
  obtain ⟨blob, hs, h⟩ := h
  cases h
  exact ⟨.registered ho hp hs rfl rfl rfl, hs⟩

/-- Storing the key in the state is putting the key it is there. -/
theorem storeEdit_genuine {α : Type} (hC : C.CodecLaws) (ha : C.AeadLaws) (hk : C.AeadCommits)
    {e : In} {v : Vault} {c : Uuid} {x : KeyEntry} {b : Bytes} {reply a : α} {pw : String}
    (hr : (mutate C e (v.enter e) (storeEdit C v.state c x b reply)).1 = .ok a)
    (hs : sealKey C e pw sk x.keyId x.keyType x.label = .ok b) : a = reply ∧
      (Genuine C x sk v →
        Genuine C x sk (mutate C e (v.enter e) (storeEdit C v.state c x b reply)).2) := by
  have hshrinks : Shrinks v (mutate C e (v.enter e) (storeEdit C v.state c x b reply)).2 :=
    mutate_shrinks rfl
  obtain ⟨d, hd, rfl, hg, hstate, hdisk⟩ := mutate_ok e _ hr
  have hfile : written C e (v.enter e) d.state d.tail =
    written C e v d.state d.tail := by cases d.tail <;> rfl
  rw [hfile] at hdisk
  unfold storeEdit at hd
  cases hu : unlockedCompartment v.state c with
  | error x => rw [hu] at hd; cases hd
  | ok u =>
    rw [hu] at hd
    simp only at hd
    cases hvalid : (u.push x).manifest.validate C with
    | error y =>
      rw [hvalid] at hd
      cases hd
      exact hg.elim
    | ok _ =>
      rw [hvalid] at hd
      cases hd
      have hopens := opensTo_of_opens hk (opens_sealKey hC ha hs)
      refine ⟨rfl, fun hv =>
        hv.written (s := (v.state.setUnlocked c (u.push x)).setKeyBlob x.keyId b) hC ha hk
        ?_ rfl hg hstate hdisk fun y hy => hv.cached y (hshrinks _ y hy)⟩
      exact hv.state.stored (unlockedCompartment_ok.1 hu) (fun _ => rfl) fun _ => hopens

theorem replies_done {α : Type} {q : FacadeResult α} {f : α → Reply} {reply : Reply}
    (h : (Prog.done q : Op α).bind (fun a => .done (.ok (f a))) = .done (.ok reply)) :
    ∃ a, q = .ok a ∧ reply = f a := by
  cases q with
  | error x => cases h
  | ok a =>
    cases h
    exact ⟨a, rfl, rfl⟩

/-- **The region that stores the key.** -/
theorem MakesKeyBy.genuine (hC : C.CodecLaws) (ha : C.AeadLaws) (hk : C.AeadCommits) {call : Call}
    {e : In} {v : Vault} {u : In → Vault → Vault} {next : In → Vault → Op Reply} {reply : Reply}
    (h : MakesKeyBy C call (.region u next)) (hn : next e v = .done (.ok reply)) :
    ∃ x g, Made C e call x g reply ∧
    (Genuine C x g.privateKey v → Genuine C x g.privateKey (u e v)) := by
  cases call with
  | createKey a =>
    have h : Prog.region u next = replying (region (createKeyRegion C a)) .key := h
    rw [replying_region] at h
    cases h
    obtain ⟨i, hi, rfl⟩ := replies_done hn
    simp only [createKeyRegion_eq, createKeyEdit] at hi ⊢
    cases hp : prepareCreateKey C e a with
    | error x => rw [hp] at hi; cases hi
    | ok p =>
      obtain ⟨c, x, b⟩ := p
      simp only [hp] at hi ⊢
      obtain ⟨g, hmade, hs⟩ := prepareCreateKey_made hp
      obtain ⟨rfl, hstore⟩ := storeEdit_genuine hC ha hk hi hs
      exact ⟨x, g, hmade, hstore⟩
  | handleFido2MakeCredential a =>
    obtain ⟨c, o, ho, h⟩ := h
    rw [replying_region] at h
    cases h
    obtain ⟨i, hi, rfl⟩ := replies_done hn
    simp only [makeCredentialRegion_eq, makeCredentialEdit] at hi ⊢
    cases hp : prepareMakeCredential C e a o with
    | error x => rw [hp] at hi; cases hi
    | ok p =>
      obtain ⟨x, b⟩ := p
      simp only [hp] at hi ⊢
      obtain ⟨hmade, hs⟩ := prepareMakeCredential_made ho hp
      obtain ⟨rfl, hstore⟩ := storeEdit_genuine hC ha hk hi hs
      exact ⟨x, o.generatedKey, hmade, hstore⟩
  | _ => exact h.elim

theorem Made.keyId {e : In} {call : Call} {x : KeyEntry} {g : GeneratedKeyPair} {reply : Reply}
    (h : Made C e call x g reply) : x.keyId = e.uuid 1 := by
  cases h with
  | created hp => exact (prepareCreateKey_entry hp).1
  | registered ho hp => exact (prepareMakeCredential_entry hp).1

/-- The service goes on from a genuine key. -/
theorem service_upholds (hC : C.CodecLaws) (ha : C.AeadLaws) (hk : C.AeadCommits)
    (hA : ∀ v e, A v e → e.uuid 0 ∉ headerIds v.state)
    {c c' : Service Call In Vault FacadeError Reply}
    {l : List (Service.Label Call In Vault FacadeError Reply)}
    (h : ((service C A).resumed c).Run l c')
    (hl : ∀ a ∈ l, a.Among (Foreign C x₀.keyId) fun e => ∀ i, e.uuid i ≠ x₀.keyId)
    (hc : c.Upholds (Draws A x₀.keyId) (Genuine C x₀ sk) (Speaks C x₀ sk)) :
    c'.Upholds (Draws A x₀.keyId) (Genuine C x₀ sk) (Speaks C x₀ sk) ∧
      ∀ n call reply, .ended n call (.ok reply) ∈ l → Speaks C x₀ sk call reply := by
  refine Service.Run.upholds h (fun call hf => Call.upholds hC ha hk hA call hf) ?_ hl hc
  rintro v v' hv ⟨e, bytes, hb, ho⟩
  exact hv.restarts hb ho

/-- From its creation on the key is what was generated. -/
theorem created_upholds (hC : C.CodecLaws) (ha : C.AeadLaws) (hk : C.AeadCommits)
    (hA : ∀ v e, A v e → e.uuid 0 ∉ headerIds v.state)
    {l : List (Service.Label Call In Vault FacadeError Reply)}
    {c c' : Service Call In Vault FacadeError Reply} {n : Nat} {call : Call} {e : In}
    {reply : Reply} (h : (service C A).Run l c) (hcall : MakesKey call)
    (hs : (service C A).Step (.worked n call e (.done (.ok reply))) c c')
    (hl : ∀ a ∈ l, a.Among (Foreign C (e.uuid 1)) fun e' => ∀ i, e'.uuid i ≠ e.uuid 1) :
    ∃ x g, Made C e call x g reply ∧
      c'.Upholds (Draws A x.keyId) (Genuine C x g.privateKey) (Speaks C x g.privateKey) := by
  obtain ⟨u, next, hn, hT, hadm, hdone, rfl⟩ :=
    Service.Step.last hs hcall (Service.Run.endBy h fun call h => makesKey_endsBy h)
  obtain ⟨x, g, hmade, hstore⟩ := MakesKeyBy.genuine hC ha hk hT hdone
  rw [← hmade.keyId] at hl
  -- until then nothing went by the id
  obtain ⟨c₀, ⟨hcreated, hcalls⟩, hrun⟩ := h.fromStart
  have hbefore : c.Upholds (Draws A x.keyId) (Genuine C x g.privateKey) (Speaks C x g.privateKey) :=
    (service_upholds hC ha hk hA hrun hl
      ⟨created_genuine hC ha hk hcreated, fun m k p hp => by rw [hcalls m] at hp; cases hp⟩).1
  -- the last region of the creation
  have hspeaks : Speaks C x g.privateKey call reply := by cases hmade <;> trivial
  refine ⟨x, g, hmade, hstore hbefore.shared,
    Service.forall_setCall (fun k q hq => ?_) hbefore.calls⟩
  cases hq
  exact Prog.upholds_pure hspeaks

end

/-! ## A passkey in the sample vault -/

/-- The inputs of the other regions: other identifiers. -/
noncomputable def sampleLater : In := { sampleNext with uuid := fun _ => Uuid.rep 60 }

theorem sampleLater_still : sampleLater.Still 0 := ⟨rfl, rfl⟩

theorem sampleLater_works : sampleLater.Works :=
  ⟨fun _ => ⟨_, rfl⟩, fun _ => ⟨_, rfl⟩, fun _ => Nat.le_refl _, rfl⟩

/-- The clock goes on, and no compartment's id is drawn. -/
def DrawsNew (v : Vault) (e : In) : Prop := v.Admits e ∧ e.uuid 0 ∉ headerIds v.state

theorem Exec.drawsNew {α ε : Type} {p : Prog In Vault ε α} {v v' : Vault} {es : List In}
    {r : Except ε α} {Q : α → Prop} (h : Prog.Exec Vault.Admits p v es r v')
    (hp : p.Upholds Vault.Admits (fun w => headerIds w.state = [Uuid.rep 10]) Q)
    (hv : headerIds v.state = [Uuid.rep 10]) (hes : ∀ e ∈ es, e.uuid 0 ≠ Uuid.rep 10) :
    Prog.Exec DrawsNew p v es r v' := by
  refine Prog.Exec.mono (fun w e hw => ⟨hw.1, ?_⟩) (Prog.Exec.upheld h hp hv hes)
  rw [hw.2.1, List.mem_singleton]
  exact hw.2.2

/-- Neither an assertion nor a registration adds a compartment. -/
theorem Call.keepsIds {call : Call}
    (hw : ∀ v e s, ¬ Commit Crates.symbolic Vault.Admits v e call s .write) (ids : List Uuid) :
    (call.run Crates.symbolic).Upholds Vault.Admits (fun w => headerIds w.state = ids)
      fun _ => True :=
  Prog.Within.upholds (fun _ _ hm hi => by
    obtain ⟨e, -, hm⟩ := hm
    rw [Moves.headerIds hm (hw _ e)]
    exact hi) call.moves

/-- A registration for "rp" that asks for a discoverable credential. -/
def sampleSignUp : MakeCredentialRequest := ⟨"rp", [], [edDsa], none, some ⟨some true, none⟩⟩

noncomputable def sampleSignUpArgs : MakeCredentialArgs :=
  { sampleRegistration with requestCbor := code (CtapRequest.makeCredential sampleSignUp) }

def zeroSecret : Bytes := List.replicate 32 0

/-- Its response, before the key is stored. -/
theorem sampleSignUp_made : ∃ o, Prog.Exec Vault.Admits (handleMakeCredential Crates.symbolic
      (ctap2Backend Crates.symbolic false) drawRegion sampleSignUp true true) sampleVault
      [sampleLater, sampleLater] (.ok o) sampleVault ∧
    o.rpId = "rp" ∧ o.credentialId = (Uuid.rep 60).asBytes ∧ o.userHandle = [] ∧
    o.discoverable = true ∧
    o.generatedKey = ⟨.ed25519, zeroSecret, zeroSecret⟩ := by
  have hchecks : ∀ l, registrationChecks sampleSignUp true true l = .ok .ed25519 := by
    intro l
    simp [registrationChecks, sampleSignUp, uvRequested, keyTypeForAlg, edDsa, es256]
  obtain ⟨o, ho, hfields⟩ : ∃ o, buildCredential Crates.symbolic sampleSignUp true true .ed25519
      ⟨sampleLater.seed, sampleLater.scalar, sampleLater.uuid 0⟩ = .ok o ∧ o.rpId = "rp" ∧
      o.credentialId = (Uuid.rep 60).asBytes ∧ o.userHandle = [] ∧ o.discoverable = true ∧
      o.generatedKey = ⟨.ed25519, zeroSecret, zeroSecret⟩ := by
    unfold buildCredential
    simp only [generate, sampleLater, sampleNext, sampleIn, mapErr, coseKeyBytes,
      successResponseBytes,
      Crates.symbolic, bind, Except.bind, pure, Except.pure]
    exact ⟨_, rfl, rfl, rfl, rfl, rfl, rfl⟩
  refine ⟨o, ?_, hfields⟩
  unfold handleMakeCredential
  refine Prog.Exec.seq
    (a := credentialsForRp Crates.symbolic sampleLater.orders sampleVault.state "rp")
    (w := sampleVault) (exec_ask_still sampleLater_still sampleVault_clock
      (fun e v => (credentialsForRp Crates.symbolic e.orders v.state "rp", v)) rfl) ?_
  refine Prog.Exec.seq_done (hchecks _) ?_
  exact Prog.Exec.seq_last (a := ⟨sampleLater.seed, sampleLater.scalar, sampleLater.uuid 0⟩)
    (exec_ask_still sampleLater_still sampleVault_clock _ rfl) (by rw [ho]; rfl)

/-- The sample vault with the passkey. -/
structure HasPasskey (v : Vault) (x : KeyEntry) (b : Bytes) : Prop where
  state : SampleState v.state [x] ((∅ : HashMap Uuid Bytes).put (Uuid.rep 41) b)
  keyId : x.keyId = Uuid.rep 41
  keyType : x.keyType = .ed25519
  label : x.label = "passkey"
  candidate : candidate Crates.symbolic "rp" x =
    some ⟨Uuid.rep 41, (Uuid.rep 60).asBytes, [], true, 0⟩
  valid : x.Valid
  seals : opens Crates.symbolic b (utf8 "pw") (Uuid.rep 41) .ed25519 "passkey" = .ok zeroSecret
  clock : v.clock = 0
  throttle : v.throttle = Throttle.ThrottleTracker.new

theorem sampleManifest_single {x : KeyEntry} (h : x.Valid) : (sampleManifest [x]).Valid := by
  refine ⟨rfl, fun y hy => ?_, List.nodup_singleton _⟩
  rw [List.mem_singleton.1 hy]
  exact h

/-- The registration, up to its reply. -/
theorem sampleVault_signUp : ∃ cbor v x b, Prog.Exec Vault.Admits
      ((Call.handleFido2MakeCredential sampleSignUpArgs).run Crates.symbolic) sampleVault
      ([sampleLater, sampleLater] ++ [sampleNext]) (.ok (.bytes cbor)) v ∧ HasPasskey v x b := by
  obtain ⟨o, hmade, hrp, hid, hhandle, hdisc, hgen⟩ := sampleSignUp_made
  have hlen : zeroSecret.length = 32 := by simp [zeroSecret]
  obtain ⟨b, hb, hopen⟩ :=
    sealKey_symbolic sampleNext_works hlen "pw" (Uuid.rep 41) .ed25519 "passkey"
  obtain ⟨x, hx, hkid, hty, hlabel, hcand, hvalid⟩ : ∃ x,
      prepareMakeCredential Crates.symbolic sampleNext sampleSignUpArgs o = .ok (x, b) ∧
      x.keyId = Uuid.rep 41 ∧ x.keyType = .ed25519 ∧ x.label = "passkey" ∧
      L4.candidate Crates.symbolic "rp" x = some ⟨Uuid.rep 41, (Uuid.rep 60).asBytes, [], true, 0⟩ ∧
        x.Valid := by
    have hseal : sealKey Crates.symbolic sampleNext "pw" zeroSecret (sampleNext.uuid 1)
        .ed25519 "passkey" =
        .ok b := hb
    unfold prepareMakeCredential
    simp only [sampleSignUpArgs, sampleRegistration, hgen, hrp, hid, hhandle, hdisc, hseal, bind,
      Except.bind,
      pure, Except.pure]
    refine ⟨_, rfl, rfl, rfl, rfl, candidate_eq_some.2 ⟨_, rfl, rfl, ?_, ?_, rfl, rfl, rfl⟩, rfl,
      blobSha256Hex_wf _ b, .inr (hexEncode_utf8 _).2⟩
    · exact Crates.symbolic_codec.base64 _
    · exact Crates.symbolic_codec.base64 _
  obtain ⟨key, hun⟩ := sampleVault_state.unlocked
  have hget : sampleVault.state.unlocked.get (Uuid.rep 10) = some ⟨sampleManifest [], key⟩ := by
    rw [hun, HashMap.get_put_self]
  have hpush : (UnlockedCompartment.push ⟨sampleManifest [], key⟩ x).manifest.Valid :=
    sampleManifest_single hvalid
  obtain ⟨s, hs⟩ : ∃ s, s = (sampleVault.state.setUnlocked (Uuid.rep 10)
      (UnlockedCompartment.push ⟨sampleManifest [], key⟩ x)).setKeyBlob x.keyId b := ⟨_, rfl⟩
  have hstate : SampleState s [x] ((∅ : HashMap Uuid Bytes).put (Uuid.rep 41) b) := by
    have hput :=
      sampleVault_state.setUnlocked (u := UnlockedCompartment.push ⟨sampleManifest [], key⟩ x)
      (show _ = sampleManifest [x] from rfl)
    rw [hs]
    exact ⟨hput.header,
      hput.unlocked, by rw [hkid]; exact congrArg (HashMap.put · _ _) hput.keyBlobs⟩
  have hd : makeCredentialEdit Crates.symbolic (Uuid.rep 10) sampleSignUpArgs o sampleNext
      sampleVault.state =
      .ok ⟨s, .persist (Uuid.rep 10), o.responseCbor⟩ := by
    unfold makeCredentialEdit storeEdit
    rw [hx, unlockedCompartment_ok.2 hget]
    simp only [(Manifest.validate_ok Crates.symbolic _).2 hpush, hs]
  have hg : GoesThrough Crates.symbolic sampleNext s (.persist (Uuid.rep 10)) :=
    goesThrough_persist sampleNext_works (by rw [hs]; exact HashMap.get_put_self _ _ _) hpush
  obtain ⟨hr, hafter, -⟩ :=
    mutate_goesThrough (d := ⟨s, .persist (Uuid.rep 10), o.responseCbor⟩) sampleNext
    sampleVault hg
  have hframe := mutate_frame (C := Crates.symbolic) sampleNext sampleVault
    (.ok ⟨s, .persist (Uuid.rep 10), o.responseCbor⟩ : FacadeResult (Edit Bytes))
  obtain ⟨h1, h2, h3⟩ := inMemory_frame Crates.symbolic sampleNext s (.persist (Uuid.rep 10))
  refine ⟨o.responseCbor, (mutate Crates.symbolic sampleNext sampleVault
    (.ok ⟨s, .persist (Uuid.rep 10), o.responseCbor⟩)).2, x, b,
      exec_replying.2 ⟨.ok o.responseCbor, ?_, rfl⟩,
    ⟨?_, hkid, hty, hlabel, hcand, hvalid, hopen, ?_, ?_⟩⟩
  · unfold handleFido2MakeCredential
    have hparse : parseMakeCredential Crates.symbolic sampleSignUpArgs.requestCbor =
        .ok sampleSignUp := by
      simp only [parseMakeCredential, sampleSignUpArgs, Crates.symbolic, decode_code]
    have hcomp : parseUuid Crates.symbolic sampleSignUpArgs.compartmentId = .ok (Uuid.rep 10) :=
      uuidParse_symbolic _
    simp only [hcomp, hparse]
    refine Prog.Exec.seq (Prog.exec_mapError.2 ⟨.ok o, rfl, hmade⟩) ?_
    refine exec_region_still sampleNext_still sampleVault_clock _ ?_
    rw [makeCredentialRegion_eq, hd]
    exact Prod.ext hr rfl
  · rw [hafter]
    obtain ⟨key', hu⟩ := hstate.unlocked
    exact ⟨by rw [h2]; exact hstate.header, ⟨key', h1.trans hu⟩, h3.trans hstate.keyBlobs⟩
  · exact (congrArg Vault.clock hframe).trans sampleVault_clock
  · exact (congrArg Vault.throttle hframe).trans sampleVault_blank.throttle

section
variable {v : Vault} {x : KeyEntry} {b : Bytes}

theorem HasPasskey.get_unlocked (h : HasPasskey v x b) : ∃ key,
    v.state.unlocked = (∅ : HashMap Uuid UnlockedCompartment).put (Uuid.rep 10)
    ⟨sampleManifest [x], key⟩ ∧
      unlockedCompartment v.state (Uuid.rep 10) = .ok ⟨sampleManifest [x], key⟩ := by
  obtain ⟨key, hu⟩ := h.state.unlocked
  exact ⟨key, hu, unlockedCompartment_ok.2 (by rw [hu, HashMap.get_put_self])⟩

/-- Its passphrase unlocks it. -/
theorem HasPasskey.unlock (h : HasPasskey v x b) : ∃ w, Prog.Exec Vault.Admits
      ((Call.unlockKey (hyphenated (Uuid.rep 10)) (hyphenated (Uuid.rep 41)) "pw" 300).run
        Crates.symbolic) v
      [sampleLater, sampleLater, sampleLater, sampleLater, sampleLater] (.ok .unit) w ∧
      HasPasskey w x b ∧
    w.retention.get (Uuid.rep 41) = some ⟨zeroSecret, 300000000000, false⟩ := by
  obtain ⟨blob, hb, ho⟩ := opens_ok.1 h.seals
  obtain ⟨key, -, hget⟩ := h.get_unlocked
  have hcheck : v.throttle.check (Throttle.SecretId.key Crates.symbolic (Uuid.rep 41)) 0 =
      .ok () := by
    rw [h.throttle]
    rfl
  have hlook : lookupBlob v.state (Uuid.rep 10) (Uuid.rep 41) = .ok (.ed25519, "passkey", b) := by
    unfold lookupBlob
    simp [hget, findKey, sampleManifest, h.keyId, h.keyType, h.label, h.state.keyBlobs]
  obtain ⟨v', hx, hs, hclock, ht, hr⟩ :=
    unlockKey_exec sampleLater_still h.clock (uuidParse_symbolic _)
    (uuidParse_symbolic _) hcheck hlook hb ho 300 (by decide)
  refine ⟨v', hx,
    ⟨hs ▸ h.state, h.keyId, h.keyType, h.label, h.candidate, h.valid, h.seals, hclock, ?_⟩, ?_⟩
  · rw [ht, h.throttle]
    rfl
  · rw [hr]
    exact HashMap.get_put_self _ _ _

/-- ... and then it asserts. -/
theorem HasPasskey.assert (h : HasPasskey v x b)
    (hc : v.retention.get (Uuid.rep 41) = some ⟨zeroSecret, 300000000000, false⟩) : ∃ o w,
    Prog.Exec Vault.Admits (assertCall.run Crates.symbolic) v
      ([sampleLater, sampleLater, sampleLater, sampleLater] ++ [sampleLater])
      (.ok (.assertion o)) w ∧
    o.keyId = Uuid.rep 41 := by
  obtain ⟨key, hun, hget⟩ := h.get_unlocked
  obtain ⟨chosen, hchosen⟩ : ∃ d : CredentialCandidate,
      d = ⟨Uuid.rep 41, (Uuid.rep 60).asBytes, [], true, 0⟩ :=
    ⟨_, rfl⟩
  have hcand : credentialsForRp Crates.symbolic sampleLater.orders v.state "rp" = [chosen] := by
    rw [hchosen]
    simp [credentialsForRp, hun, HashMap.values, HashMap.iter_single, sampleManifest, h.candidate]
  have hfound : findKeyAnywhere sampleLater.orders v.state (Uuid.rep 41) =
      some (.ed25519, Uuid.rep 10) := by
    simp [findKeyAnywhere, hun, HashMap.iter_single, sampleManifest, h.keyId, h.keyType]
  obtain ⟨authData, hp⟩ : ∃ authData, prepareAssertion Crates.symbolic sampleRequest true true
      (credentialsForRp Crates.symbolic sampleLater.orders v.state "rp") =
        .ok (chosen, authData) := by
    rw [hcand, hchosen]
    exact ⟨_, rfl⟩
  obtain ⟨sig, hs, hl⟩ : ∃ sig, keysSign Crates.symbolic .ed25519 zeroSecret (authData ++ []) =
      .ok sig ∧
      sig.length ≤ 255 := by
    have hlen : zeroSecret.length = 32 := by simp [zeroSecret]
    refine ⟨Crates.symbolic.ed25519Sign ⟨⟨zeroSecret⟩, hlen⟩ (authData ++ []), ?_, ?_⟩
    · unfold keysSign
      simp [hlen]
    · simp [Crates.symbolic, hlen]
  obtain ⟨o, ho, hk⟩ : ∃ o, finishAssertion Crates.symbolic sampleRequest chosen authData
      (some sig) = .ok o ∧
      o.keyId = Uuid.rep 41 := by
    have hlen : ¬ sig.length > 255 := by omega
    have hid : ¬ (Uuid.rep 60).asBytes.length > 255 := by decide
    rw [hchosen]
    unfold finishAssertion
    simp only [Crates.symbolic, hlen, hid, if_false, sampleRequest, Option.isNone_none,
      Bool.true_and,
      List.length_nil, successResponseBytes, bind, Except.bind, pure, Except.pure]
    exact ⟨_, rfl, rfl⟩
  have hkey : chosen.keyId = Uuid.rep 41 := by rw [hchosen]
  obtain ⟨w, hw⟩ : ∃ w, w = v.used chosen.keyId ⟨zeroSecret, 300000000000, false⟩ 0 := ⟨_, rfl⟩
  have hx := handleGetAssertion_exec (C := Crates.symbolic) sampleLater_still h.clock hp
    (by rw [hkey]; exact hfound) (by rw [hkey]; exact hc) (.inr (by decide)) hs ho
  rw [← hw] at hx
  have hwstate : w.state = v.state := by rw [hw]; rfl
  -- the last region counts and writes
  have hd : commitEdit o sampleLater w.state = .ok ⟨v.state.setUnlocked (Uuid.rep 10)
      (UnlockedCompartment.asserted ⟨sampleManifest [x], key⟩ o.keyId o.newSignCount
        sampleLater.utc),
      .persist (Uuid.rep 10), o⟩ := by
    unfold commitEdit findCompartmentForKey
    rw [hk, hwstate, hfound]
    simp only [Option.map_some, hget]
  have hvalid : (UnlockedCompartment.asserted ⟨sampleManifest [x], key⟩ o.keyId o.newSignCount
      sampleLater.utc).manifest.Valid := asserted_valid _ _ _ (sampleManifest_single h.valid)
  have hg : GoesThrough Crates.symbolic sampleLater (v.state.setUnlocked (Uuid.rep 10)
      (UnlockedCompartment.asserted ⟨sampleManifest [x], key⟩ o.keyId o.newSignCount
        sampleLater.utc))
      (.persist (Uuid.rep 10)) :=
    goesThrough_persist sampleLater_works (HashMap.get_put_self _ _ _) hvalid
  obtain ⟨hr, -⟩ := mutate_goesThrough (d := ⟨_, .persist (Uuid.rep 10), o⟩) sampleLater w hg
  refine ⟨o, (commitAssertion Crates.symbolic o sampleLater w).2, ?_, hk⟩
  rw [assertCall_run]
  refine Prog.Exec.seq (Prog.exec_mapError.2 ⟨.ok o, rfl, hx⟩) ?_
  refine exec_replying.2
    ⟨.ok o, exec_region_still sampleLater_still (by rw [hw]; exact h.clock) _ ?_, rfl⟩
  rw [commitAssertion_eq, hd]
  exact Prod.ext hr rfl

end

/-- The calls of the passkey add no compartment. -/
def PasskeyCall : Call → Prop
  | .handleFido2MakeCredential _ | .unlockKey .. | .handleFido2GetAssertion .. => True
  | _ => False

theorem PasskeyCall.exec {call : Call} (hcall : PasskeyCall call) {v v' : Vault} {es : List In}
    {reply : Reply} (h : Prog.Exec Vault.Admits (call.run Crates.symbolic) v es (.ok reply) v')
    (hv : headerIds v.state = [Uuid.rep 10]) (hes : ∀ e ∈ es, e = sampleLater ∨ e = sampleNext) :
    Prog.Exec DrawsNew (call.run Crates.symbolic) v es (.ok reply) v' := by
  refine Exec.drawsNew h (Call.keepsIds (fun w e s hc => ?_) _) hv fun e he => ?_
  · cases hc with
    | alone hc => cases hc <;> exact hcall
  · rcases hes e he with rfl | rfl <;> simp [sampleLater, sampleNext, Uuid.rep_inj]

/-- Nothing in flight. -/
noncomputable def sampleService : Service Call In Vault FacadeError Reply :=
  ⟨sampleVault, fun _ => none⟩

/-- A run of the service in which a passkey is registered, unlocked and used. -/
theorem sampleService_run : ∃ l₁ l₂ c₁ c₂ c₃ cbor o,
    (service Crates.symbolic DrawsNew).Run l₁ c₁ ∧
    (service Crates.symbolic DrawsNew).Step
    (.worked 0 (.handleFido2MakeCredential sampleSignUpArgs) sampleNext
      (.done (.ok (.bytes cbor)))) c₁ c₂ ∧
    ((service Crates.symbolic DrawsNew).resumed c₂).Run l₂ c₃ ∧
    (∀ a ∈ l₁ ++ l₂, a.Among (Foreign Crates.symbolic (sampleNext.uuid 1))
      fun e => ∀ i, e.uuid i ≠ sampleNext.uuid 1) ∧
    .ended 2 assertCall (.ok (.assertion o)) ∈ l₂ ∧ o.keyId = sampleNext.uuid 1 := by
  obtain ⟨cbor, v, x, b, hx₁, hv⟩ := sampleVault_signUp
  obtain ⟨w, hx₂, hw, hcached⟩ := hv.unlock
  obtain ⟨o, w', hx₃, hk⟩ := hw.assert hcached
  have hforeign : ∀ call, PasskeyCall call → Foreign Crates.symbolic (sampleNext.uuid 1) call := by
    intro call hc json blobs hb
    cases call <;> first | exact hc.elim | cases hb
  have hlater : ∀ e : In, e = sampleLater → ∀ i, e.uuid i ≠ sampleNext.uuid 1 := by
    rintro e rfl i
    simp [sampleLater, sampleNext, Uuid.rep_inj]
  -- the registration, but for its last region
  obtain ⟨l, c, hrun, hlast, hl⟩ := service_worked (c := sampleService) (n := 0)
    (PasskeyCall.exec (show PasskeyCall (.handleFido2MakeCredential _) from trivial) hx₁
      sampleVault_state.headerIds (by simp)) rfl (hforeign _ trivial)
        (fun e he => hlater e (by simpa using he))
  -- then two calls, each alone
  have hfree : ∀ n, n ≠ 0 →
      (sampleService.setCall 0 (some (.handleFido2MakeCredential sampleSignUpArgs,
      .done (.ok (.bytes cbor))))).calls n = none :=
        fun n hn => Service.setCall_ne sampleService _ hn
  obtain ⟨l', hrun', -, hl'⟩ := service_exec (n := 1) (c := { (sampleService.setCall 0 (some
      (.handleFido2MakeCredential sampleSignUpArgs, .done (.ok (.bytes cbor))))) with shared := v })
    (PasskeyCall.exec (show PasskeyCall (.unlockKey ..) from trivial) hx₂ hv.state.headerIds
      (by simp))
    (hfree 1 (by decide)) (hforeign _ trivial) (fun e he => hlater e (by simpa using he))
  obtain ⟨l'', hrun'', hended, hl''⟩ := service_exec (n := 2) (c := { (sampleService.setCall 0 (some
      (.handleFido2MakeCredential sampleSignUpArgs, .done (.ok (.bytes cbor))))) with shared := w })
    (PasskeyCall.exec (show PasskeyCall assertCall from trivial) hx₃ hw.state.headerIds (by simp))
    (hfree 2 (by decide)) (hforeign _ trivial) (fun e he => hlater e (by simpa using he))
  have hbegin : (service Crates.symbolic DrawsNew).Run [] sampleService :=
    .start ⟨sampleVault_created, fun _ => rfl⟩
  refine ⟨_, _, c, _, _, cbor, o, hbegin.append hrun, hlast, hrun'.append hrun'', ?_,
    List.mem_append_left _ hended, hk⟩
  intro a ha
  simp only [List.mem_append, List.append_nil] at ha
  rcases ha with h | h | h
  · exact hl a h
  · exact hl'' a h
  · exact hl' a h

section
variable {C : Crates}

/-- **What is said of a key is true of the key.** A key is created, its calls
and others run in any order and any number of them at once, and the process
ends and starts again any number of times. As long as no id is drawn twice
and no import brings the key's, whatever is returned under the key's id is by
the pair that its creation generated. -/
theorem key_genuine (C : Crates) (hC : C.CodecLaws) (ha : C.AeadLaws) (hk : C.AeadCommits)
    {A : Vault → In → Prop} (hA : ∀ v e, A v e → e.uuid 0 ∉ headerIds v.state)
    {l₁ l₂ : List (Service.Label Call In Vault FacadeError Reply)}
    {c₁ c₂ c₃ : Service Call In Vault FacadeError Reply} {n : Nat} {call : Call} {e : In}
    {reply : Reply} (h₁ : (service C A).Run l₁ c₁) (hcall : MakesKey call)
    (hs : (service C A).Step (.worked n call e (.done (.ok reply))) c₁ c₂)
    (h₂ : ((service C A).resumed c₂).Run l₂ c₃)
    (hl : ∀ a ∈ l₁ ++ l₂, a.Among (Foreign C (e.uuid 1)) fun e' => ∀ i, e'.uuid i ≠ e.uuid 1) :
    ∃ x₀ g, Made C e call x₀ g reply ∧ x₀.keyId = e.uuid 1 ∧ Genuine C x₀ g.privateKey c₃.shared ∧
      ∀ n' call' reply', .ended n' call' (.ok reply') ∈ l₂ →
      Speaks C x₀ g.privateKey call' reply' := by
  obtain ⟨x, g, hmade, hup⟩ :=
    created_upholds hC ha hk hA h₁ hcall hs fun a h => hl a (List.mem_append_left _ h)
  have hid := hmade.keyId
  rw [← hid] at hl
  obtain ⟨hlater, hended⟩ :=
    service_upholds hC ha hk hA h₂ (fun a h => hl a (List.mem_append_right _ h)) hup
  exact ⟨x, g, hmade, hid, hlater.shared, hended⟩

/-- A registered passkey is used. -/
theorem key_genuine_sample : ∃ x₀ g cbor o, Made Crates.symbolic sampleNext
      (.handleFido2MakeCredential sampleSignUpArgs) x₀ g (.bytes cbor) ∧ x₀.keyId = Uuid.rep 41 ∧
    o.keyId = x₀.keyId ∧ Speaks Crates.symbolic x₀ g.privateKey assertCall (.assertion o) := by
  obtain ⟨l₁, l₂, c₁, c₂, c₃, cbor, o, h₁, hs, h₂, hl, hend, hk⟩ := sampleService_run
  obtain ⟨x₀, g, hmade, hid, -, hended⟩ := key_genuine Crates.symbolic Crates.symbolic_codec
    Crates.symbolic_aead Crates.symbolic_commits (fun _ _ h => h.2) h₁
    (show MakesKey (.handleFido2MakeCredential _) from trivial) hs h₂ hl
  exact ⟨x₀, g, cbor, o, hmade, hid, hk.trans hid.symm, hended 2 _ _ hend⟩

/-! ## The relying party -/

/-- The response to a registration: the relying party learns this credential
and this public key. -/
def Attests (C : Crates) (a : MakeCredentialArgs) (cbor : Bytes) (request : MakeCredentialRequest)
    (credentialId : Bytes) (g : GeneratedKeyPair) : Prop :=
  parseMakeCredential C a.requestCbor = .ok request ∧
  ∃ cose authData, coseKeyBytes C g.keyType g.publicKey = .ok cose ∧
    C.authData
      ⟨rpIdHash C request.rpId, flagsOf attestedCredentialDataFlag a.userPresent a.userVerified, 0,
      some ⟨aaguid, credentialId, cose⟩⟩ = some authData ∧
    successResponseBytes (C.makeCredentialCbor authData) = .ok cbor

theorem generate_keyType {seed : Except String (Vector UInt8 32)} {scalar : Vector UInt8 32}
    {ty : KeyType} {g : GeneratedKeyPair} (h : generate C seed scalar ty = .ok g) :
    g.keyType = ty := by
  cases ty with
  | ed25519 =>
    simp only [generate, bind_ok, pure, Except.pure, Except.ok.injEq] at h
    obtain ⟨s, -, rfl⟩ := h
    rfl
  | ecdsaP256 =>
    cases h
    rfl

/-- What a registration hands out. -/
theorem Built.attests {a : MakeCredentialArgs} {o : MakeCredentialOutcome} (h : Built C a o) :
    ∃ request,
    Attests C a o.responseCbor request o.credentialId o.generatedKey ∧ o.rpId = request.rpId ∧
      ∃ seed scalar, generate C seed scalar o.generatedKey.keyType = .ok o.generatedKey := by
  obtain ⟨request, ty, drawn, hr, hb⟩ := h
  unfold buildCredential at hb
  cases hg : generate C drawn.seed drawn.scalar ty with
  | error x => rw [hg] at hb; cases hb
  | ok g =>
    obtain rfl := generate_keyType hg
    rw [hg] at hb
    simp only [bind_ok] at hb
    obtain ⟨cose, hc, hb⟩ := hb
    split at hb
    · cases hb
    · rename_i authData hd
      simp only [bind_ok, pure, Except.pure, Except.ok.injEq] at hb
      obtain ⟨cbor, hs, rfl⟩ := hb
      exact ⟨request, ⟨hr, cose, authData, hc, hd, hs⟩, rfl, _, _, hg⟩

/-- **An assertion verifies.** The relying party has the credential and the
public key of the registration's response. No identifier is drawn twice, and
no import brings the key's. Then every later assertion by the key, whatever
ran or runs beside it, names that credential, is over the authenticator data of
the same relying party, and verifies under that key. -/
theorem assertion_verifies (C : Crates) (hC : C.CodecLaws) (ha : C.AeadLaws) (hk : C.AeadCommits)
    {A : Vault → In → Prop} (hA : ∀ v e, A v e → e.uuid 0 ∉ headerIds v.state)
    (Verifies : KeyType → Bytes → Bytes → Bytes → Prop)
    (hverify : ∀ seed scalar g m sig, generate C seed scalar g.keyType = .ok g →
      keysSign C g.keyType g.privateKey m = .ok sig → Verifies g.keyType g.publicKey m sig)
    {l₁ l₂ : List (Service.Label Call In Vault FacadeError Reply)}
    {c₁ c₂ c₃ : Service Call In Vault FacadeError Reply} {n : Nat} {a : MakeCredentialArgs} {e : In}
    {cbor : Bytes} (h₁ : (service C A).Run l₁ c₁)
    (hs :
      (service C A).Step (.worked n (.handleFido2MakeCredential a) e (.done (.ok (.bytes cbor))))
      c₁ c₂) (h₂ : ((service C A).resumed c₂).Run l₂ c₃)
    (hl : ∀ b ∈ l₁ ++ l₂, b.Among (Foreign C (e.uuid 1)) fun e' => ∀ i, e'.uuid i ≠ e.uuid 1) :
    ∃ request credentialId g, Attests C a cbor request credentialId g ∧
      ∀ n' q up uv o, .ended n' (.handleFido2GetAssertion q up uv) (.ok (.assertion o)) ∈ l₂ →
        o.keyId = e.uuid 1 → ∃ request', parseGetAssertion C q = .ok request' ∧
          request'.rpId = request.rpId ∧ o.response.credentialId = credentialId ∧
          C.authData ⟨rpIdHash C request.rpId, flagsOf 0 up uv, o.newSignCount, none⟩ =
          some o.response.authData ∧
          Verifies g.keyType g.publicKey (o.response.authData ++ request'.clientDataHash)
          o.response.signature := by
  obtain ⟨x, g, hmade, hup⟩ :=
    created_upholds hC ha hk hA h₁ (show MakesKey (.handleFido2MakeCredential a) from trivial)
      hs fun a h => hl a (List.mem_append_left _ h)
  have hid := hmade.keyId
  rw [← hid] at hl
  obtain ⟨-, hended⟩ :=
    service_upholds hC ha hk hA h₂ (fun a h => hl a (List.mem_append_right _ h)) hup
  cases hmade with
  | registered ho hp hseal hpublic hty hf =>
    obtain ⟨request, hattests, hrp, seed, scalar, hgen⟩ := ho.attests
    refine ⟨request, _, _, hattests, fun n' q up uv o hend hkey => ?_⟩
    obtain ⟨request', hparse, hby⟩ := hended n' _ _ hend (hkey.trans hid.symm)
    obtain ⟨f, hf', hrp', hcred⟩ := hby.credential
    rw [hf] at hf'
    cases hf'
    have hsame : request'.rpId = request.rpId := hrp'.symm.trans hrp
    have hdata := hby.authData
    have hsig := hby.signature
    rw [hsame] at hdata
    rw [hty] at hsig
    rw [hC.base64] at hcred
    exact ⟨request', hparse, hsame, (Option.some.inj hcred).symm, hdata,
      hverify _ _ _ _ _ hgen hsig⟩

/-- The signatures of the generated keys. -/
def Generated (C : Crates) (ty : KeyType) (pk m sig : Bytes) : Prop :=
  ∃ seed scalar g, generate C seed scalar g.keyType = .ok g ∧ g.keyType = ty ∧ g.publicKey = pk ∧
    keysSign C g.keyType g.privateKey m = .ok sig

/-- The assertion by the registered passkey. -/
theorem assertion_verifies_sample :
    ∃ (g : GeneratedKeyPair) (cbor : Bytes) (o : GetAssertionOutcome),
    (∃ request, Attests Crates.symbolic sampleSignUpArgs cbor request o.response.credentialId g) ∧
    ∃ m, Generated Crates.symbolic g.keyType g.publicKey (o.response.authData ++ m)
    o.response.signature := by
  obtain ⟨l₁, l₂, c₁, c₂, c₃, cbor, o, h₁, hs, h₂, hl, hend, hk⟩ := sampleService_run
  obtain ⟨request, credentialId, g, hattests, hverifies⟩ := assertion_verifies Crates.symbolic
    Crates.symbolic_codec Crates.symbolic_aead Crates.symbolic_commits (fun _ _ h => h.2)
    (Generated Crates.symbolic)
      (fun seed scalar g m sig hg hsig => ⟨seed, scalar, g, hg, rfl, rfl, hsig⟩)
    h₁ hs h₂ hl
  obtain ⟨request', -, -, rfl, -, hsig⟩ := hverifies 2 _ _ _ _ hend hk
  exact ⟨g, cbor, o, ⟨request, hattests⟩, _, hsig⟩

end

end VaultSigner.L5
