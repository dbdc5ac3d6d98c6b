import VaultSigner.L4Vault.Run

/-!
# What an edit can do, said once

`Change` lists the edits of the container by the state they leave, with what
the checks before them found; an invariant of the vault is one case analysis
on it.

Results:
* `Call.Edits.change`: every edit is one of the list.
* `Call.outcome`: what one call, run alone, does to the state and the file.
* `Call.listed`: what is unlocked stays listed in the header.
-/
namespace VaultSigner.L4
open VaultSigner.Core VaultSigner.L1 VaultSigner.L3
open VaultSigner.L3.Merge (MergeResult VaultCompartment extended renamedKeys remapKeys)

/-- The merged manifest of options 1 and 3: the target's with the renamed
entries behind its own. -/
structure Extends (C : Crates) (e : In) (s : VaultState) (t : Uuid) (incoming : Manifest)
    (r : MergeResult) (pre : List VaultCompartment) (y : VaultCompartment)
    (post : List VaultCompartment) : Prop where
  local_eq : localCompartments s = pre ++ y :: post
  id : y.id = t
  first : ∀ x ∈ pre, x.id ≠ t
  sound : incoming.Valid
  valid : (extended y (renamedKeys C e.uuid (localCompartments s) incoming)).manifest.Valid
  updated : r.updatedCompartments =
    pre ++ extended y (renamedKeys C e.uuid (localCompartments s) incoming) :: post
  remap : r.idRemap = remapKeys e.uuid (localCompartments s) incoming

section
variable (C : Crates) (A : Vault → In → Prop) (v : Vault) (e : In)

/-- The entry that a creation or a registration stores, with its compartment
and its blob. -/
inductive NewKey : Call → Uuid → KeyEntry → Bytes → Prop
  | created {a : CreateKeyArgs} {c : Uuid} {k : KeyEntry} {b : Bytes}
      (hp : prepareCreateKey C e a = .ok (c, k, b)) : NewKey (.createKey a) c k b
  | registered {a : MakeCredentialArgs} {c : Uuid} {request : MakeCredentialRequest} {es : List In}
      {outcome : MakeCredentialOutcome} {w : Vault} {k : KeyEntry} {b : Bytes}
      (hc : parseUuid C a.compartmentId = .ok c)
        (hr : parseMakeCredential C a.requestCbor = .ok request)
      (hx : Prog.Exec A (handleMakeCredential C (ctap2Backend C false) drawRegion request
        a.userPresent a.userVerified) v es (.ok outcome) w)
      (hp : prepareMakeCredential C e a outcome = .ok (k, b)) :
        NewKey (.handleFido2MakeCredential a) c k b

/-- What an edit makes of the state, and what follows it. -/
inductive Change : Call → VaultState → Tail → Prop
  | rejected {call : Call} {c : Uuid} {u : UnlockedCompartment} {k : KeyEntry} {b : Bytes}
      {x : VaultError}
      (hk : NewKey C A v e call c k b) (hu : v.state.unlocked.get c = some u)
      (hv : (u.push k).manifest.validate C = .error x) :
      Change call (v.state.setUnlocked c (u.push k)) (.fail (.fromVault x))
  | stored {call : Call} {c : Uuid} {u : UnlockedCompartment} {k : KeyEntry} {b : Bytes}
      (hk : NewKey C A v e call c k b) (hu : v.state.unlocked.get c = some u)
      (hv : (u.push k).manifest.Valid) :
      Change call ((v.state.setUnlocked c (u.push k)).setKeyBlob k.keyId b) (.persist c)
  | discarded {cid kid text : String} {c k : Uuid} {u : UnlockedCompartment} {x : KeyEntry}
      (hc : parseUuid C cid = .ok c) (hk : parseUuid C kid = .ok k)
      (hu : v.state.unlocked.get c = some u) (hx : findKey u.manifest k = .ok x)
      (ht : text = x.label ∨ text = x.resource) :
      Change (.discardKey cid kid text) ((v.state.setUnlocked c (u.remove k)).removeKeyBlob k)
        (.persist c)
  | resealed {cid kid old new : String} {c k : Uuid} {u : UnlockedCompartment} {x : KeyEntry}
      {b₀ b sk : Bytes}
      (hc : parseUuid C cid = .ok c) (hk : parseUuid C kid = .ok k)
      (hu : v.state.unlocked.get c = some u) (hx : findKey u.manifest k = .ok x)
      (hb : v.state.container.keyBlobs.get k = some b₀)
      (ho : opens C b₀ (utf8 old) k x.keyType x.label = .ok sk)
      (hs : sealKey C e new sk k x.keyType x.label = .ok b) :
      Change (.changeKeyPassphrase cid kid old new)
        ((v.state.setUnlocked c (u.setDigest k (blobSha256Hex C b))).setKeyBlob k b) (.persist c)
  | unrecorded {cbor : Bytes} {up uv : Bool} {o : GetAssertionOutcome}
      (hf : findCompartmentForKey e.orders v.state o.keyId = none) :
      Change (.handleFido2GetAssertion cbor up uv) v.state .skip
  | asserted {cbor : Bytes} {up uv : Bool} {request : GetAssertionRequest} {es : List In}
      {o : GetAssertionOutcome} {w : Vault} {c : Uuid} {u : UnlockedCompartment}
      (hr : parseGetAssertion C cbor = .ok request)
      (hx : Prog.Exec A (handleGetAssertion C (ctap2Backend C true) request up uv) v es (.ok o) w)
      (hf : findCompartmentForKey e.orders v.state o.keyId = some c)
      (hu : v.state.unlocked.get c = some u) :
      Change (.handleFido2GetAssertion cbor up uv)
        (v.state.setUnlocked c (u.asserted o.keyId o.newSignCount e.utc)) (.persist c)
  | added {label passphrase : String} {profile : DeviceProfile} {kdf : KdfParams}
      {u : UnlockedCompartment} {b : Bytes} (hm : u.manifest = Manifest.new (e.uuid 1) e.utc)
      (hd : derive C (utf8 passphrase) kdf = .ok u.masterKey)
      (hb : encryptWithKey C (e.uuid 0) u.manifest u.masterKey (e.nonce 1) = .ok b) :
      Change (.addCompartment label passphrase profile)
        (v.state.addCompartment ⟨e.uuid 0, label, kdf⟩ b u) .write
  | merged1 {target json : String} {blobs : List IncomingKeyBlob} {t : Uuid} {incoming : Manifest}
      {r : MergeResult} {pre : List VaultCompartment} {y : VaultCompartment}
        {post : List VaultCompartment}
      (ht : parseUuid C target = .ok t) (hi : Manifest.fromJson C (utf8 json) = .ok incoming)
      (hr : Extends C e v.state t incoming r pre y post) :
      Change (.mergeReencryptDiscardIncoming target json blobs) (v.state.merge1 C r blobs) .write
  | merged2 {json label passphrase : String} {blobs : List IncomingKeyBlob}
      {profile : DeviceProfile}
      {incoming : Manifest} {kdf : KdfParams} {u : UnlockedCompartment} {b : Bytes}
      (hi : Manifest.fromJson C (utf8 json) = .ok incoming)
      (hm : e.uuid 0 ∉ headerIds v.state → u.manifest = { incoming with
        keys := renamedKeys C (fun i => e.uuid (i + 2)) (localCompartments v.state) incoming })
      (hd : derive C (utf8 passphrase) kdf = .ok u.masterKey)
      (hb : encryptWithKey C (e.uuid 0) u.manifest u.masterKey (e.nonce 1) = .ok b) :
      Change (.mergeSideBySide json blobs label passphrase profile) (VaultState.copyBlobs C
        (v.state.addCompartment ⟨e.uuid 0, label, kdf⟩ b u)
        (remapKeys (fun i => e.uuid (i + 2)) (localCompartments v.state) incoming) blobs) .write
  | merged3 {target json passphrase kdfJson phrase : String} {blobs : List IncomingKeyBlob}
      {t : Uuid}
      {incoming : Manifest} {r : MergeResult} {pre : List VaultCompartment} {y : VaultCompartment}
      {post : List VaultCompartment} {kdf : KdfParams} {u : UnlockedCompartment} {b : Bytes}
      (ht : parseUuid C target = .ok t) (hi : Manifest.fromJson C (utf8 json) = .ok incoming)
      (hr : Extends C e v.state t incoming r pre y post)
      (hm :
        u.manifest =
        (extended y (renamedKeys C e.uuid (localCompartments v.state) incoming)).manifest)
      (hd : derive C (utf8 passphrase) kdf = .ok u.masterKey)
      (hb : encryptWithKey C t u.manifest u.masterKey (e.nonce 1) = .ok b) :
      Change (.mergeReplaceLocalWithIncoming target json blobs passphrase kdfJson phrase)
        (VaultState.copyBlobs C (v.state.replaceMaster t kdf b u) r.idRemap blobs) .write

end

section
variable {C : Crates} {A : Vault → In → Prop} {v : Vault} {e : In} {s : VaultState}

/-! ## The checks -/

theorem mergedManifest_ok {r : MergeResult} {c : Uuid} {text : String} {m : Manifest} {pre post}
    {y : VaultCompartment} (h : mergedManifest r c text = .ok m)
    (hr : r.updatedCompartments = pre ++ y :: post) (hy : y.id = c) (hpre : ∀ x ∈ pre, x.id ≠ c) :
    m = y.manifest := by
  have hfind : r.updatedCompartments.find? (fun x => x.id = c) = some y := by
    rw [hr, List.find?_append, List.find?_eq_none.2 fun x hx => by simpa using hpre x hx]
    simp [hy]
  unfold mergedManifest at h
  rw [hfind] at h
  exact (Except.ok.inj h).symm

theorem mergeReencrypt_extends {t : Uuid} {incoming : Manifest} {r : MergeResult}
    (hi : incoming.Valid)
    (h : Merge.mergeReencryptDiscardIncoming C e.uuid (localCompartments s) t incoming = .ok r) :
    ∃ pre y post, Extends C e s t incoming r pre y post := by
  obtain ⟨updated, hu, rfl⟩ := (Merge.mergeReencrypt_ok hi).1 h
  obtain ⟨pre, y, post, hl, hid, hpre, hv, rfl⟩ := Merge.extendTarget_ok.1 hu
  exact ⟨pre, y, post, hl, hid, hpre, hi, hv, rfl, rfl⟩

theorem mergeReplace_extends {t : Uuid} {incoming : Manifest} {r : MergeResult} {phrase : String}
    (hi : incoming.Valid)
    (h : Merge.mergeReplaceLocalWithIncoming C e.uuid (localCompartments s)
      t incoming phrase = .ok r) :
    ∃ pre y post, Extends C e s t incoming r pre y post := by
  obtain ⟨-, updated, hu, rfl⟩ := (Merge.mergeReplace_ok hi).1 h
  obtain ⟨pre, y, post, hl, hid, hpre, hv, rfl⟩ := Merge.extendTarget_ok.1 hu
  exact ⟨pre, y, post, hl, hid, hpre, hi, hv, rfl, rfl⟩

theorem prepareAddCompartment_ok {passphrase : String} {profile : DeviceProfile} {kdf : KdfParams}
    {u : UnlockedCompartment} {b : Bytes}
    (h : prepareAddCompartment C e passphrase profile = .ok (kdf, u, b)) :
    u.manifest = Manifest.new (e.uuid 1) e.utc ∧ derive C (utf8 passphrase) kdf = .ok u.masterKey ∧
      encryptWithKey C (e.uuid 0) u.manifest u.masterKey (e.nonce 1) = .ok b := by
  unfold prepareAddCompartment at h
  simp only [bind_ok, facade_ok, pure, Except.pure, Except.ok.injEq] at h
  obtain ⟨kdf', -, key, hk, b', hb, h⟩ := h
  cases h
  exact ⟨rfl, hk, hb⟩

theorem prepareMerge2_derive {json label passphrase : String} {profile : DeviceProfile}
    {r : MergeResult} {kdf : KdfParams} {u : UnlockedCompartment} {b : Bytes}
    (h : prepareMerge2 C e s json label passphrase profile = .ok (r, kdf, u, b)) :
    derive C (utf8 passphrase) kdf = .ok u.masterKey := by
  unfold prepareMerge2 at h
  simp only [bind_ok, facade_ok, pure, Except.pure, Except.ok.injEq] at h
  obtain ⟨incoming, -, r', -, kdf', -, key, hk, m, -, b', -, h⟩ := h
  cases h
  exact hk

theorem prepareMerge3_derive {target json passphrase kdfJson phrase : String} {t : Uuid}
    {r : MergeResult} {kdf : KdfParams} {u : UnlockedCompartment} {b : Bytes}
    (h : prepareMerge3 C e s target json passphrase kdfJson phrase = .ok (t, r, kdf, u, b)) :
    derive C (utf8 passphrase) kdf = .ok u.masterKey := by
  unfold prepareMerge3 at h
  simp only [bind_ok, facade_ok] at h
  obtain ⟨t', -, incoming, -, h⟩ := h
  split at h
  · simp only [bind_ok, Except.ok.injEq] at h
    obtain ⟨doc, -, h⟩ := h
    split at h
    · simp only [bind_ok, facade_ok, pure, Except.pure, Except.ok.injEq] at h
      obtain ⟨kdf', -, r', -, m, -, key, hk, b', -, h⟩ := h
      cases h
      exact hk
    · simp only [bind_ok] at h
      obtain ⟨kdf', h, -⟩ := h
      cases h
  · simp only [bind_ok] at h
    obtain ⟨doc, h, -⟩ := h
    cases h

theorem prepareDiscardKey_ok {c k : Uuid} {text : String} {u : UnlockedCompartment}
    (h : prepareDiscardKey s c k text = .ok u) : s.unlocked.get c = some u ∧
      ∃ x, findKey u.manifest k = .ok x ∧ (text = x.label ∨ text = x.resource) := by
  unfold prepareDiscardKey at h
  cases hu : unlockedCompartment s c with
  | error x => rw [hu] at h; cases h
  | ok w =>
    rw [hu] at h
    simp only at h
    cases hx : findKey w.manifest k with
    | error x => rw [hx] at h; cases h
    | ok x =>
      rw [hx] at h
      simp only at h
      split at h
      · cases h
      · rename_i ht
        cases h
        refine ⟨unlockedCompartment_ok.1 hu, x, hx, ?_⟩
        by_contra hne
        exact ht (not_or.1 hne)

theorem lookupBlob_ok {c k : Uuid} {ty : KeyType} {label : String} {b : Bytes}
    (h : lookupBlob s c k = .ok (ty, label, b)) : ∃ u x, s.unlocked.get c = some u ∧
      findKey u.manifest k = .ok x ∧ s.container.keyBlobs.get k = some b ∧ ty = x.keyType ∧
      label = x.label := by
  unfold lookupBlob at h
  cases hu : unlockedCompartment s c with
  | error x => rw [hu] at h; cases h
  | ok u =>
    rw [hu] at h
    simp only at h
    cases hx : findKey u.manifest k with
    | error x => rw [hx] at h; cases h
    | ok x =>
      rw [hx] at h
      simp only at h
      cases hb : s.container.keyBlobs.get k with
      | none => rw [hb] at h; cases h
      | some b' =>
        rw [hb] at h
        cases h
        exact ⟨u, x, unlockedCompartment_ok.1 hu, hx, rfl, rfl, rfl⟩

/-! ## Every edit is one of the list -/

theorem storeEdit_change {α : Type} {call : Call} {c : Uuid} {k : KeyEntry} {b : Bytes} {a : α}
    {d : Edit α} (hk : NewKey C A v e call c k b) (h : storeEdit C v.state c k b a = .ok d) :
    Change C A v e call d.state d.tail := by
  unfold storeEdit at h
  cases hu : unlockedCompartment v.state c with
  | error x => rw [hu] at h; cases h
  | ok u =>
    rw [hu] at h
    simp only at h
    cases hv : (u.push k).manifest.validate C with
    | error x =>
      rw [hv] at h
      cases h
      exact .rejected hk (unlockedCompartment_ok.1 hu) hv
    | ok _ =>
      rw [hv] at h
      cases h
      exact .stored hk (unlockedCompartment_ok.1 hu) ((Manifest.validate_ok C _).1 hv)

/-- **Every edit is one of the list.** -/
theorem Call.Edits.change {call : Call} {es : List In} {q : FacadeResult (Edit Reply)}
    {d : Edit Reply} (he : call.Edits C A v es e q) (hq : q = .ok d) :
    Change C A v e call d.state d.tail := by
  cases he with
  | addCompartment label passphrase profile e =>
    obtain ⟨d', hd, rfl⟩ := map_edit_ok hq
    unfold addCompartmentEdit at hd
    cases hp : prepareAddCompartment C e passphrase profile with
    | error x => rw [hp] at hd; cases hd
    | ok p =>
      rw [hp] at hd
      cases hd
      obtain ⟨hm, hk, hb⟩ := prepareAddCompartment_ok hp
      exact .added hm hk hb
  | createKey a e =>
    obtain ⟨d', hd, rfl⟩ := map_edit_ok hq
    unfold createKeyEdit at hd
    cases hp : prepareCreateKey C e a with
    | error x => rw [hp] at hd; cases hd
    | ok p =>
      rw [hp] at hd
      exact storeEdit_change (d := d') (.created hp) hd
  | discardKey text e es hc hk =>
    obtain ⟨d', hd, rfl⟩ := map_edit_ok hq
    unfold discardEdit at hd
    cases hp : prepareDiscardKey v.state _ _ text with
    | error x => rw [hp] at hd; cases hd
    | ok u =>
      rw [hp] at hd
      cases hd
      obtain ⟨hu, x, hx, ht⟩ := prepareDiscardKey_ok hp
      exact .discarded hc hk hu hx ht
  | changeKeyPassphrase old new e₀ e hc hk =>
    obtain ⟨d', hd, rfl⟩ := map_edit_ok hq
    rename_i cid kid
    unfold changePassphraseEdit at hd
    cases hl : lookupBlob v.state cid kid with
    | error x => rw [hl] at hd; cases hd
    | ok p =>
      obtain ⟨ty, label, b₀⟩ := p
      obtain ⟨u, x, hu, hx, hb, rfl, rfl⟩ := lookupBlob_ok hl
      rw [hl] at hd
      simp only at hd
      cases hf : KeyBlobOf.fromBytes C b₀ with
      | error x => rw [hf] at hd; cases hd
      | ok blob =>
        rw [hf] at hd
        simp only at hd
        cases ho : keyblobOpen C blob (utf8 old) kid x.keyType x.label with
        | error x => rw [ho] at hd; cases hd
        | ok sk =>
          rw [ho] at hd
          simp only [resealEdit] at hd
          cases hs : sealKey C e new sk kid x.keyType x.label with
          | error x => rw [hs] at hd; cases hd
          | ok b =>
            rw [hs, unlockedCompartment_ok.2 hu] at hd
            cases hd
            exact .resealed hc hk hu hx hb (opens_ok.2 ⟨blob, hf, ho⟩) hs
  | makeCredential a e hc hr hx =>
    obtain ⟨d', hd, rfl⟩ := map_edit_ok hq
    unfold makeCredentialEdit at hd
    split at hd
    · cases hd
    · rename_i k b hp
      exact storeEdit_change (d := d') (.registered hc hr hx hp) hd
  | getAssertion e hr hx =>
    obtain ⟨d', hd, rfl⟩ := map_edit_ok hq
    unfold commitEdit at hd
    split at hd
    · rename_i hf
      cases hd
      exact .unrecorded hf
    · rename_i c hf
      cases hu : unlockedCompartment v.state c with
      | error x => rw [hu] at hd; cases hd
      | ok u =>
        rw [hu] at hd
        cases hd
        exact .asserted hr hx hf (unlockedCompartment_ok.1 hu)
  | merge1 target json blobs e =>
    obtain ⟨d', hd, rfl⟩ := map_edit_ok hq
    unfold merge1Edit at hd
    cases hp : prepareMerge1 C e v.state target json with
    | error x => rw [hp] at hd; cases hd
    | ok r =>
      rw [hp] at hd
      cases hd
      obtain ⟨t, incoming, ht, hi, hr⟩ := prepareMerge1_ok hp
      obtain ⟨pre, y, post, hext⟩ := mergeReencrypt_extends ((Manifest.fromJson_ok C _ _).1 hi).2 hr
      exact .merged1 ht hi hext
  | merge2 json blobs label passphrase profile e =>
    obtain ⟨d', hd, rfl⟩ := map_edit_ok hq
    unfold merge2Edit at hd
    cases hp : prepareMerge2 C e v.state json label passphrase profile with
    | error x => rw [hp] at hd; cases hd
    | ok p =>
      obtain ⟨r, kdf, u, b⟩ := p
      rw [hp] at hd
      cases hd
      obtain ⟨incoming, hi, hr, hm, hb⟩ := prepareMerge2_ok hp
      obtain ⟨-, rfl⟩ := (Merge.mergeSideBySide_ok ((Manifest.fromJson_ok C _ _).1 hi).2).1 hr
      refine .merged2 hi (fun hfresh => ?_) (prepareMerge2_derive hp) hb
      exact mergedManifest_ok hm (show _ = localCompartments v.state ++ _ :: [] from rfl) rfl
        fun x hx he => hfresh (he ▸ mem_headerIds hx)
  | merge3 target json blobs passphrase kdfJson phrase e =>
    obtain ⟨d', hd, rfl⟩ := map_edit_ok hq
    unfold merge3Edit at hd
    cases hp : prepareMerge3 C e v.state target json passphrase kdfJson phrase with
    | error x => rw [hp] at hd; cases hd
    | ok p =>
      obtain ⟨t, r, kdf, u, b⟩ := p
      rw [hp] at hd
      cases hd
      obtain ⟨incoming, ht, hi, hr, hm, hb⟩ := prepareMerge3_ok hp
      obtain ⟨pre, y, post, hext⟩ := mergeReplace_extends ((Manifest.fromJson_ok C _ _).1 hi).2 hr
      exact .merged3 ht hi hext (mergedManifest_ok hm hext.updated hext.id hext.first)
        (prepareMerge3_derive hp) hb

/-! ## One call -/

/-- What a call, run alone, does to the state and the file; an edit stays in
memory when what follows it fails. -/
inductive Outcome (C : Crates) (A : Vault → In → Prop) (v : Vault) (call : Call) (es : List In)
    (r : FacadeResult Reply) (v' : Vault) : Prop
  | same (h : Quiet v v') (hr : call.EditsContainer → ∃ x, r = .error x)
  | unlocked (c : Uuid) (b : Bytes) (key : Key) (p : MasterBlobPlaintext)
      (hn : ¬ call.EditsContainer)
      (hh : c ∈ headerIds v.state) (hb : v.state.container.masterBlobs.get c = some b)
        (hp : decryptWithKey C c b key = .ok p)
      (hs : v'.state = v.state.setUnlocked c ⟨p.manifest, key⟩) (hd : v'.disk = v.disk)
  | locked (hn : ¬ call.EditsContainer) (hc : v'.state.container = v.state.container)
      (hu : ∀ c u, v'.state.unlocked.get c = some u → v.state.unlocked.get c = some u)
      (hd : v'.disk = v.disk)
  | done (e : In) (s : VaultState) (t : Tail) (a : Reply)
      (he : call.Edits C A v es e (.ok ⟨s, t, a⟩))
      (hc : Change C A v e call s t)
      (hg : GoesThrough C e s t) (hr : r = .ok a) (hs : v'.state = inMemory C e s t)
      (hd : v'.disk = written C e v s t)
  | undone (e : In) (s : VaultState) (t : Tail) (a : Reply)
      (he : call.Edits C A v es e (.ok ⟨s, t, a⟩))
      (hc : Change C A v e call s t)
      (hg : ¬ GoesThrough C e s t) (hr : ∃ x, r = .error x) (hs : v'.state = inMemory C e s t)
      (hd : v'.disk = v.disk)

/-- An edit that is carried out goes through or stays in memory. -/
theorem Call.Edits.outcome {call : Call} {v' : Vault} {es : List In} {r : FacadeResult Reply}
    {q : FacadeResult (Edit Reply)} (he : call.Edits C A v es e q)
    (hag : Agrees (r, v') (mutate C e v q)) :
    Outcome C A v call es r v' := by
  cases hr : (mutate C e v q).1 with
  | ok a =>
    obtain ⟨d, rfl, rfl, hg, hs, hdisk⟩ := mutate_ok e v hr
    exact .done e d.state d.tail d.reply he (he.change rfl) hg (hag.result.trans hr)
      (hag.state.trans hs) (hag.disk.trans hdisk)
  | error x =>
    have hx : r = .error x := hag.result.trans hr
    obtain ⟨hdisk, ⟨-, hs⟩ | ⟨d, rfl, hg, hs⟩⟩ := mutate_error e v hr
    · exact .same ⟨hag.state.trans hs, hag.disk.trans hdisk⟩ fun _ => ⟨x, hx⟩
    · exact .undone e d.state d.tail d.reply he (he.change rfl) hg ⟨x, hx⟩
        (hag.state.trans hs) (hag.disk.trans hdisk)

/-- **One call.** -/
theorem Call.outcome (call : Call) {v v' : Vault} {es : List In} {r : FacadeResult Reply}
    (h : Prog.Exec A (call.run C) v es r v') : Outcome C A v call es r v' := by
  by_cases hm : call.EditsContainer
  · cases Call.carried hm h with
    | stopped x hr hq hn => exact .same hq fun _ => ⟨x, hr⟩
    | edited e q he hag => exact he.outcome hag
  · cases call.effect h with
    | quiet hq => exact .same hq fun h => absurd h hm
    | unlocked c b key p hh hb hp hs hd => exact .unlocked c b key p hm hh hb hp hs hd
    | locked hc hu hd => exact .locked hm hc hu hd
    | edited e q he hag => exact he.outcome hag

/-! ## What is unlocked is in the header -/

def Listed (s : VaultState) : Prop := ∀ c u, s.unlocked.get c = some u → c ∈ headerIds s

theorem Listed.put {s s' : VaultState} {c : Uuid} {u : UnlockedCompartment} (h : Listed s)
    (hs : s'.unlocked = s.unlocked.put c u) (hc : c ∈ headerIds s')
    (hids : ∀ c ∈ headerIds s, c ∈ headerIds s') : Listed s' := by
  intro c' u' hu
  rw [hs, HashMap.get_put] at hu
  split at hu
  · rename_i heq
    exact heq ▸ hc
  · exact hids _ (h c' u' hu)

theorem Listed.added {h : CompartmentHeader} {b : Bytes} {u : UnlockedCompartment} (hs : Listed s) :
    Listed (s.addCompartment h b u) := by
  have hids : headerIds (s.addCompartment h b u) = headerIds s ++ [h.compartmentId] :=
    headerIds_push _ _
  refine hs.put rfl ?_ fun c hc => ?_
  · rw [hids]
    simp
  · rw [hids]
    exact List.mem_append_left _ hc

theorem Listed.replaced {c : Uuid} {kdf : KdfParams} {b : Bytes} {u : UnlockedCompartment}
    (hs : Listed s) (hc : c ∈ headerIds s) : Listed (s.replaceMaster c kdf b u) := by
  have hids := headerIds_replaceMaster s c kdf b u
  refine hs.put rfl ?_ fun c hc => ?_
  · rw [hids]
    exact hc
  · rw [hids]
    exact hc

theorem Extends.mem {t : Uuid} {incoming : Manifest} {r : MergeResult} {pre y post}
    (h : Extends C e s t incoming r pre y post) : y ∈ localCompartments s := by
  rw [h.local_eq]
  exact List.mem_append_right _ (List.mem_cons_self ..)

theorem Extends.target_mem {t : Uuid} {incoming : Manifest} {r : MergeResult} {pre y post}
    (h : Extends C e s t incoming r pre y post) : t ∈ headerIds s := by
  rw [← h.id]
  exact mem_headerIds h.mem

/-- A merged compartment is a local one or the extended target. -/
theorem Extends.mem_updated {t : Uuid} {incoming : Manifest} {r : MergeResult} {pre y post}
    (h : Extends C e s t incoming r pre y post) {z : VaultCompartment}
    (hz : z ∈ r.updatedCompartments) :
    z ∈ localCompartments s ∨
    z = extended y (renamedKeys C e.uuid (localCompartments s) incoming) := by
  have hmem : ∀ x ∈ pre ++ y :: post, x ∈ localCompartments s := fun x hx => h.local_eq ▸ hx
  rw [h.updated] at hz
  rcases List.mem_append.1 hz with hz | hz
  · exact .inl (hmem z (List.mem_append_left _ hz))
  · rcases List.mem_cons.1 hz with hz | hz
    · exact .inr hz
    · exact .inl (hmem z (List.mem_append_right _ (List.mem_cons_of_mem _ hz)))

theorem Change.listed {call : Call} {t : Tail} (hc : Change C A v e call s t) (h : Listed v.state) :
    Listed s := by
  have hedit : ∀ {c u u'} {s : VaultState}, v.state.unlocked.get c = some u →
      s.unlocked = v.state.unlocked.put c u' → s.container.header = v.state.container.header →
        Listed s := by
    intro c u u' s hu hs hh
    have hids : headerIds s = headerIds v.state := by
      unfold headerIds
      rw [hh]
    exact h.put hs (by rw [hids]; exact h c u hu) fun c hc => by rwa [hids]
  cases hc with
  | rejected hk hu hv => exact hedit hu rfl rfl
  | stored hk hu hv => exact hedit hu rfl rfl
  | discarded hc hk hu hx ht => exact hedit hu rfl rfl
  | resealed hc hk hu hx hb ho hs => exact hedit hu rfl rfl
  | unrecorded hf => exact h
  | asserted hr hx hf hu => exact hedit hu rfl rfl
  | added hm hd hb => exact h.added
  | merged1 ht hi hr =>
    intro c u hu
    obtain ⟨w, hw, -⟩ := get_updateManifests_cases hu
    exact h c w hw
  | merged2 hi hm hd hb => exact Listed.added h
  | merged3 ht hi hr hm hd hb => exact Listed.replaced h hr.target_mem

theorem Call.listed {call : Call} {v' : Vault} {es : List In} {r : FacadeResult Reply}
    (hx : Prog.Exec A (call.run C) v es r v') (h : Listed v.state) : Listed v'.state := by
  have hedit : ∀ {e s t}, Change C A v e call s t → v'.state = inMemory C e s t →
      Listed v'.state := by
    intro e s t hc hs c u hu
    obtain ⟨h1, h2, -⟩ := inMemory_frame C e s t
    rw [hs, h1] at hu
    rw [hs, headerIds, h2]
    exact hc.listed h c u hu
  cases call.outcome hx with
  | same hq hr => rw [hq.state]; exact h
  | unlocked c b key p hn hh hb hp hs hd => rw [hs]; exact h.put rfl hh fun _ => id
  | locked hn hc hu hd =>
    intro c u hcu
    rw [headerIds, hc]
    exact h c u (hu c u hcu)
  | done e s t a he hc hg hr hs hd => exact hedit hc hs
  | undone e s t a he hc hg hr hs hd => exact hedit hc hs

theorem start_listed (h : Created C v ∨ Opened C v) : Listed v.state := by
  rcases h with ⟨e, disk, label, passphrase, profile, hc⟩ | ⟨e, bytes, ho⟩
  · obtain ⟨kdf, key, blob, bytes, -, -, -, hs, -, -⟩ := create_ok hc
    intro c u hu
    rw [hs] at hu ⊢
    simp only [VaultState.setUnlocked, HashMap.get_put] at hu
    split at hu
    · rename_i heq
      subst heq
      exact List.mem_singleton_self _
    · cases hu
  · unfold openVault at ho
    simp only [bind_ok, facade_ok, pure, Except.pure, Except.ok.injEq] at ho
    obtain ⟨k, -, rfl⟩ := ho
    exact fun c u hu => by simp at hu

end

end VaultSigner.L4
