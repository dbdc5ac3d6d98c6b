import VaultSigner.L4Vault.Sample

/-!
# What a failed operation leaves behind

An operation edits the state before the steps that may still fail: the check
of the edited manifest, its encryption, and the write. `?` leaves the edit in
place, so after an error the state is the edited one, and the next operation
that writes the file writes it too.

Results:
* `Call.Edits.changes`: an edit that adds or removes something is never one
  that changes nothing, nor is one that brings a blob or an entry of its own.
* `error_unchanged_iff`: an operation that fails has changed nothing when it
  fails before its edit, and then only.
* `create_spares_iff`: when `create` leaves the file that is there.
-/
namespace VaultSigner.L5
open VaultSigner.Core VaultSigner.L1 VaultSigner.L3 VaultSigner.L4

/-- The operations that are to change nothing when they fail. -/
def Mutation : Call → Prop
  | .createKey .. | .discardKey .. | .changeKeyPassphrase .. | .addCompartment .. |
    .handleFido2MakeCredential .. | .mergeReencryptDiscardIncoming .. | .mergeSideBySide .. |
    .mergeReplaceLocalWithIncoming .. => True
  | _ => False

/-- The call fails before its edit: in a check, or in a step that it takes
before it changes anything. -/
def StoppedBefore (C : Crates) (A : Vault → In → Prop) (v : Vault) (es : List In) (call : Call) :
    Prop :=
  ∀ e d, ¬ call.Edits C A v es e (.ok d)

/-- No nonce that the call draws is one that a stored blob begins with. -/
structure FreshNonces (C : Crates) (v : Vault) (es : List In) : Prop where
  master : ∀ c b, v.state.container.masterBlobs.get c = some b → ∀ e ∈ es, ∀ i n x,
    e.nonce i = .ok n →
    splitNonce b ≠ some (n, x)
  key : ∀ k b blob, v.state.container.keyBlobs.get k = some b → KeyBlobOf.fromBytes C b = .ok blob →
    ∀ e ∈ es, ∀ i n x, e.nonce i = .ok n → splitNonce blob.ciphertext ≠ some (n, x)

/-- The edit shows, if it comes to it. An edit that adds or removes something
always does; the other three put new content in the place of old: a blob with
a nonce of its own, or a manifest with the entries of a non-empty one. -/
def EditShows (C : Crates) (v : Vault) (es : List In) : Call → Prop
  | .changeKeyPassphrase .. | .mergeReplaceLocalWithIncoming .. => FreshNonces C v es
  | .mergeReencryptDiscardIncoming _ json _ => (headerIds v.state).Nodup ∧
      ∀ m, Manifest.fromJson C (utf8 json) = .ok m → m.keys ≠ []
  | _ => True

theorem Mutation.editsContainer {call : Call} (h : Mutation call) : call.EditsContainer := by
  cases call with
  | createKey | discardKey | changeKeyPassphrase | addCompartment | handleFido2MakeCredential
  | mergeReencryptDiscardIncoming | mergeSideBySide | mergeReplaceLocalWithIncoming => trivial
  | _ => exact absurd h id

/-- As if the call had not been made: the container, the unlocked manifests
and keys and the file are what they were, and so whatever is edited and
written later comes out the same. -/
structure Unchanged (C : Crates) (v v' : Vault) : Prop where
  container : v'.state.container = v.state.container
  unlocked : v'.state.unlocked = v.state.unlocked
  disk : v'.disk = v.disk
  later : ∀ (e : In) (g : In → VaultState → FacadeResult (Edit Reply)),
    Agrees (mutate C e v' (g e v'.state)) (mutate C e v (g e v.state))

theorem unchanged_of_quiet {C : Crates} {v v' : Vault} (h : Quiet v v') : Unchanged C v v' where
  container := by rw [h.state]
  unlocked := by rw [h.state]
  disk := h.disk
  later := by
    intro e g
    rw [h.state]
    exact mutate_agrees e v' h.state h.disk _

theorem Unchanged.state {C : Crates} {v v' : Vault} (h : Unchanged C v v') :
    v'.state = v.state := by
  have hc := h.container
  have hu := h.unlocked
  cases hs : v'.state
  cases hs' : v.state
  simp_all

/-! ## Edits that always change something -/

section
variable {C : Crates} {A : Vault → In → Prop}

theorem storeEdit_changes {α : Type} {s : VaultState} {c : Uuid} {k : KeyEntry} {b : Bytes} {a : α}
    {f : α → Reply} {d : Edit Reply} (h : (storeEdit C s c k b a).map (Edit.map f) = .ok d) :
    d.state.unlocked ≠ s.unlocked := by
  unfold storeEdit at h
  split at h
  · cases h
  · rename_i u hu
    have hget := unlockedCompartment_ok.1 hu
    have hput : d.state.unlocked = s.unlocked.put c (u.push k) := by
      split at h
      · cases h; rfl
      · cases h; rfl
    intro hsame
    have hk := congrArg (fun m : HashMap Uuid UnlockedCompartment =>
      (m.get c).map fun u => u.manifest.keys.length) (hput.symm.trans hsame)
    simp [hget, UnlockedCompartment.push] at hk

theorem discardEdit_changes {s : VaultState} {c k : Uuid} {text : String} {d : Edit Unit}
    (h : discardEdit c k text s = .ok d) : d.state.unlocked ≠ s.unlocked := by
  unfold discardEdit at h
  split at h
  · cases h
  · rename_i u hp
    cases h
    unfold prepareDiscardKey at hp
    split at hp
    · cases hp
    · rename_i w hw
      have hget := unlockedCompartment_ok.1 hw
      split at hp
      · cases hp
      · rename_i x hx
        split at hp
        · cases hp
        · cases hp
          unfold findKey at hx
          split at hx
          · rename_i y hy
            have hmem := List.mem_of_find?_eq_some hy
            have hid : y.keyId = k := by simpa using List.find?_some hy
            intro hsame
            have hm := congrArg (fun m : HashMap Uuid UnlockedCompartment =>
              (m.get c).map fun u => u.manifest.keys) hsame
            simp only [VaultState.setUnlocked, VaultState.removeKeyBlob, HashMap.get_put_self, hget,
              UnlockedCompartment.remove, Option.map_some, Option.some.injEq] at hm
            rw [← hm] at hmem
            simp [hid] at hmem
          · cases hx

theorem changePassphraseEdit_changes (hC : C.CodecLaws) {v : Vault} {c k : Uuid} {old new : String}
    {e : In} {d : Edit Unit} (hf : FreshNonces C v [e])
    (h : changePassphraseEdit C c k old new e v.state = .ok d) :
    d.state.container.keyBlobs ≠ v.state.container.keyBlobs := by
  unfold changePassphraseEdit at h
  split at h
  · cases h
  · split at h
    · cases h
    · split at h
      · cases h
      · unfold resealEdit at h
        split at h
        · cases h
        · rename_i b hseal
          split at h
          · cases h
          · cases h
            unfold sealKey at hseal
            simp only [bind_ok, facade_ok] at hseal
            obtain ⟨params, -, blob, hb, hbytes⟩ := hseal
            obtain ⟨n, x, hn, hsplit⟩ := keyblobSeal_nonce hb
            intro hsame
            have hget : v.state.container.keyBlobs.get k = some b := by
              rw [← hsame]
              exact HashMap.get_put_self _ _ _
            exact hf.key k b blob hget (KeyBlobOf.fromBytes_toBytes hC hbytes) e List.mem_cons_self
              0 n x hn
              hsplit

theorem merge3Edit_changes {v : Vault} {target json : String} {blobs : List IncomingKeyBlob}
    {passphrase kdfJson phrase : String} {e : In} {d : Edit MergeOutcomeInfo}
    (hf : FreshNonces C v [e])
    (h : merge3Edit C target json blobs passphrase kdfJson phrase e v.state = .ok d) :
    d.state.container.masterBlobs ≠ v.state.container.masterBlobs ∧ d.tail = .write := by
  unfold merge3Edit at h
  split at h
  · cases h
  · rename_i t r kdf u b hp
    cases h
    obtain ⟨-, -, -, -, -, hb⟩ := prepareMerge3_ok hp
    obtain ⟨n, x, hn, hsplit⟩ := encryptWithKey_nonce hb
    refine ⟨fun hsame => ?_, rfl⟩
    have hget : v.state.container.masterBlobs.get t = some b := by
      rw [← hsame]
      exact HashMap.get_put_self _ _ _
    exact hf.master t b hget e List.mem_cons_self 1 n x hn hsplit

theorem merge1Edit_changes {s : VaultState} {target json : String} {blobs : List IncomingKeyBlob}
    {e : In} {d : Edit MergeOutcomeInfo} (hn : (headerIds s).Nodup)
    (hm : ∀ m, Manifest.fromJson C (utf8 json) = .ok m → m.keys ≠ [])
    (h : merge1Edit C target json blobs e s = .ok d) : d.state.unlocked ≠ s.unlocked := by
  unfold merge1Edit at h
  split at h
  · cases h
  · rename_i r hp
    cases h
    obtain ⟨-, m, -, hi, -⟩ := prepareMerge1_ok hp
    obtain ⟨c, u, keys, hu, hlen, hget⟩ := prepareMerge1_target hn hp hi
    intro hsame
    have hlen' := congrArg (fun m : HashMap Uuid UnlockedCompartment =>
      (m.get c).map fun u => u.manifest.keys.length) hsame
    simp only [VaultState.merge1, VaultState.copyBlobs, hget, hu, Option.map_some,
      List.length_append,
      Option.some.injEq, Nat.add_eq_left, hlen] at hlen'
    exact hm m hi (List.length_eq_zero_iff.1 hlen')

/-- An edit that shows changes the state, whatever was there before. -/
theorem Call.Edits.changes (hC : C.CodecLaws) {v : Vault} {call : Call} {es : List In} {e : In}
    {d : Edit Reply} (hm : Mutation call) (ho : EditShows C v es call)
    (h : call.Edits C A v es e (.ok d)) : inMemory C e d.state d.tail ≠ v.state := by
  have hunlocked : d.state.unlocked ≠ v.state.unlocked → inMemory C e d.state d.tail ≠ v.state := by
    intro hne hs
    apply hne
    rw [← (inMemory_frame C e d.state d.tail).1, hs]
  have hheader : (headerIds d.state).length ≠ (headerIds v.state).length →
      inMemory C e d.state d.tail ≠ v.state := by
    intro hne hs
    apply hne
    rw [← hs, headerIds, headerIds, (inMemory_frame C e d.state d.tail).2.1]
  have hkeyBlobs : d.state.container.keyBlobs ≠ v.state.container.keyBlobs →
      inMemory C e d.state d.tail ≠ v.state := by
    intro hne hs
    apply hne
    rw [← (inMemory_frame C e d.state d.tail).2.2, hs]
  have hmasterBlobs : d.state.container.masterBlobs ≠ v.state.container.masterBlobs ∧
      d.tail = .write →
      inMemory C e d.state d.tail ≠ v.state := by
    rintro ⟨hne, ht⟩ hs
    rw [ht] at hs
    exact hne (congrArg (fun s : VaultState => s.container.masterBlobs) hs)
  generalize hq : (Except.ok d : FacadeResult (Edit Reply)) = q at h
  cases h with
  | addCompartment label passphrase profile e =>
    apply hheader
    unfold addCompartmentEdit at hq
    split at hq
    · cases hq
    · cases hq
      simp [Edit.map, VaultState.addCompartment, VaultState.setUnlocked, VaultState.setMasterBlob,
        VaultState.pushHeader, headerIds]
  | createKey a e =>
    apply hunlocked
    unfold createKeyEdit at hq
    split at hq
    · cases hq
    · exact storeEdit_changes hq.symm
  | makeCredential a e hc hr hx =>
    apply hunlocked
    unfold makeCredentialEdit at hq
    split at hq
    · cases hq
    · exact storeEdit_changes hq.symm
  | discardKey t e es hc hk =>
    apply hunlocked
    obtain ⟨d', hd, rfl⟩ := map_edit_ok hq.symm
    exact discardEdit_changes hd
  | changeKeyPassphrase old new e₀ e hc hk =>
    apply hkeyBlobs
    obtain ⟨d', hd, rfl⟩ := map_edit_ok hq.symm
    exact changePassphraseEdit_changes hC ⟨fun c b hb e he => ho.master c b hb e (by simp_all),
      fun k b blob hb hblob e he => ho.key k b blob hb hblob e (by simp_all)⟩ hd
  | merge1 target json blobs e =>
    apply hunlocked
    obtain ⟨d', hd, rfl⟩ := map_edit_ok hq.symm
    exact merge1Edit_changes ho.1 ho.2 hd
  | merge2 json blobs label passphrase profile e =>
    apply hheader
    unfold merge2Edit at hq
    split at hq
    · cases hq
    · cases hq
      simp [Edit.map, VaultState.copyBlobs, VaultState.addCompartment, VaultState.setUnlocked,
        VaultState.setMasterBlob, VaultState.pushHeader, headerIds]
  | merge3 target json blobs passphrase kdfJson phrase e =>
    apply hmasterBlobs
    obtain ⟨d', hd, rfl⟩ := map_edit_ok hq.symm
    exact merge3Edit_changes ho hd
  | getAssertion => exact absurd hm id

end

/-- **When a failed operation has changed nothing.** An operation that fails
before its edit leaves everything as it was; one that fails after an edit that
shows does not. -/
theorem error_unchanged_iff (C : Crates) (hC : C.CodecLaws) {A : Vault → In → Prop} {v v' : Vault}
    {call : Call} {es : List In} {x : FacadeError} (hm : Mutation call)
    (hx : Prog.Exec A (call.run C) v es (.error x) v') :
    (StoppedBefore C A v es call → Unchanged C v v') ∧
    (EditShows C v es call → Unchanged C v v' → StoppedBefore C A v es call) := by
  cases call.carried hm.editsContainer hx with
  | stopped y hr hq hn => exact ⟨fun _ => unchanged_of_quiet hq, fun _ _ e d => hn e _⟩
  | edited e q he hag =>
    obtain ⟨hd, ⟨rfl, hs⟩ | ⟨d, rfl, hn, hs⟩⟩ := mutate_error e v hag.result.symm
    · refine ⟨fun _ => unchanged_of_quiet ⟨hag.state.trans hs, hag.disk.trans hd⟩,
        fun _ _ e' d' he' => ?_⟩
      cases (he.unique he').2
    · exact ⟨fun hno => absurd he (hno e d), fun ho h =>
        absurd ((hag.state.trans hs).symm.trans h.state)
        (Call.Edits.changes hC hm ho he)⟩

/-- A discard of the imported passkey, confirmed with the wrong text. -/
theorem error_unchanged_sample : ∃ t v b v', Run Crates.symbolic Vault.Admits sampleVault [t] v ∧
    t.call = importCall 5 b ∧ v.state.container.keyBlobs.get (Uuid.rep 1) = some b ∧
    Prog.Exec Vault.Admits
    ((Call.discardKey (hyphenated (Uuid.rep 10)) (hyphenated (Uuid.rep 1)) "key").run
      Crates.symbolic) v [sampleNext]
      (.error (.failed "confirmation text does not match the key's label or resource")) v' ∧
    Unchanged Crates.symbolic v v' := by
  obtain ⟨t, v, b, hrun, hv, -, hcall, -⟩ := samplePasskey_imported 5
  obtain ⟨key, hu⟩ := hv.state.unlocked
  have hget : unlockedCompartment v.state (Uuid.rep 10) =
      .ok ⟨sampleManifest [samplePasskey (Uuid.rep 1) 5 none], key⟩ := by
    rw [unlockedCompartment_ok, hu, HashMap.get_put_self]
  have hcheck : prepareDiscardKey v.state (Uuid.rep 10) (Uuid.rep 1) "key" =
      .error (.failed "confirmation text does not match the key's label or resource") := by
    unfold prepareDiscardKey
    simp [hget, findKey, sampleManifest, samplePasskey, KeyEntry.sample]
  have hregion : discardRegion Crates.symbolic (Uuid.rep 10) (Uuid.rep 1) "key" sampleNext v =
      (.error (.failed "confirmation text does not match the key's label or resource"), v) := by
    unfold discardRegion
    rw [hcheck]
  have hx :
      Prog.Exec Vault.Admits ((Call.discardKey (hyphenated (Uuid.rep 10)) (hyphenated (Uuid.rep 1))
      "key").run Crates.symbolic) v [sampleNext]
      (.error (.failed "confirmation text does not match the key's label or resource")) v := by
    refine exec_replying.2 ⟨.error _, ?_, rfl⟩
    unfold discardKey
    rw [uuidParse_symbolic, uuidParse_symbolic]
    exact Prog.exec_bind.2 (.inl ⟨_, rfl, exec_region_still sampleNext_still hv.clock _ hregion⟩)
  have hm : Mutation (.discardKey (hyphenated (Uuid.rep 10)) (hyphenated (Uuid.rep 1)) "key") :=
    trivial
  refine ⟨t, v, b, v, hrun, hcall, ?_, hx,
    (error_unchanged_iff Crates.symbolic Crates.symbolic_codec hm hx).1 ?_⟩
  · rw [hv.state.keyBlobs]
    exact HashMap.get_put_self _ _ _
  · intro e d he
    generalize hq : (Except.ok d : FacadeResult (Edit Reply)) = q at he
    cases he with
    | discardKey text e es hc hk =>
      rw [uuidParse_symbolic] at hc hk
      cases hc
      cases hk
      unfold discardEdit at hq
      rw [hcheck] at hq
      cases hq

/-! ## A write that fails -/

/-- The disk is full. -/
noncomputable def sampleFull : In :=
  { sampleNext with io := .error (.io "No space left on device") }

/-- **A key that was not created.** The write fails and `create_key` returns
the error; the key's entry and its blob stay in memory, and the next write
takes them to the file. -/
theorem create_fails_key_stays : ∃ v₀ l v call es x v', Created Crates.symbolic v₀ ∧
    Run Crates.symbolic Vault.Admits v₀ l v ∧ Mutation call ∧
    Prog.Exec Vault.Admits (call.run Crates.symbolic) v es (.error x) v' ∧
    ¬ Unchanged Crates.symbolic v v' := by
  obtain ⟨k, b, hp⟩ := sampleArgs_prepared (.error (.io "No space left on device"))
  obtain ⟨key, hu⟩ := sampleVault_state.unlocked
  have hget : unlockedCompartment sampleVault.state (Uuid.rep 10) =
      .ok ⟨sampleManifest [], key⟩ := by
    rw [unlockedCompartment_ok, hu, HashMap.get_put_self]
  obtain ⟨d, hd, ht⟩ : ∃ d, createKeyEdit Crates.symbolic sampleArgs sampleFull sampleVault.state =
      .ok d ∧ ((∃ x, d.tail = .fail x) ∨ d.tail = .persist (Uuid.rep 10)) := by
    unfold createKeyEdit storeEdit
    rw [show prepareCreateKey _ sampleFull _ = _ from hp]
    simp only [hget]
    split
    · exact ⟨_, rfl, .inl ⟨_, rfl⟩⟩
    · exact ⟨_, rfl, .inr rfl⟩
  have hn : ¬ GoesThrough Crates.symbolic sampleFull d.state d.tail := by
    rcases ht with ⟨x, ht⟩ | ht
    · rw [ht]
      exact id
    · rw [ht]
      rintro ⟨u, blob, bytes, -, -, hw⟩
      have hio := ((writeAtomic_ok _).1 hw).2
      simp [sampleFull] at hio
  have he : (Call.createKey sampleArgs).Edits Crates.symbolic Vault.Admits sampleVault [sampleFull]
      sampleFull (.ok (d.map .key)) := by
    have h := Call.Edits.createKey (C := Crates.symbolic) (A := Vault.Admits) (v := sampleVault)
      sampleArgs sampleFull
    rwa [hd] at h
  have hadm : sampleVault.Admits sampleFull :=
    ⟨by rw [sampleVault_clock]; exact Nat.zero_le _, by simp [sampleFull, sampleNext, sampleIn]⟩
  obtain ⟨v', q, hx⟩ : ∃ v' q,
      Prog.Exec Vault.Admits ((Call.createKey sampleArgs).run Crates.symbolic)
      sampleVault [sampleFull] q v' :=
    ⟨_, _, exec_replying.2 ⟨_, exec_op.2 ⟨sampleFull, rfl, hadm, rfl, rfl⟩, rfl⟩⟩
  have hm : Mutation (.createKey sampleArgs) := trivial
  cases Call.carried hm.editsContainer hx with
  | stopped x hr hq hno => exact absurd he (hno _ _)
  | edited e q' he' hag =>
    obtain ⟨rfl, rfl⟩ := he.unique he'
    cases hr : (mutate Crates.symbolic sampleFull sampleVault (.ok (d.map Reply.key))).1 with
    | ok a =>
      obtain ⟨d', hd', -, hg, -⟩ := mutate_ok _ _ hr
      cases hd'
      exact absurd hg hn
    | error x =>
      rcases (mutate_error _ _ hr).2 with ⟨hd', -⟩ | ⟨d', hd', -, hs⟩
      · cases hd'
      · cases hd'
        have hq : q = .error x := hag.result.trans hr
        subst hq
        refine ⟨_, _, _, _, _, x, v', sampleVault_created, .nil, hm, hx, fun hun => ?_⟩
        exact Call.Edits.changes Crates.symbolic_codec hm trivial he
          ((hag.state.trans hs).symm.trans hun.state)

/-! ## Creating a vault where there is one -/

section
variable (C : Crates) (e : In) (label passphrase : String) (profile : DeviceProfile)

/-- Nothing that `create` calls fails. -/
def CreateGoesThrough : Prop :=
  ∃ kdf key blob bytes, benchmark C profile e.salt e.elapsed = .ok kdf ∧
    derive C (utf8 passphrase) kdf = .ok key ∧
    encryptWithKey C (e.uuid 0) (Manifest.new (e.uuid 1) e.utc) key (e.nonce 1) = .ok blob ∧
    writeAtomic C e ((({ container := Container.new, unlocked := ∅ } : VaultState).pushHeader
      ⟨e.uuid 0, label, kdf⟩).setMasterBlob (e.uuid 0) blob).container = .ok bytes

variable {C} in
/-- `create` never reads the file: it succeeds unless something it calls
fails, and then the file is as it was. -/
theorem create_cases (disk : Option Bytes) :
    (CreateGoesThrough C e label passphrase profile ∧
      (create C e disk label passphrase profile).1 = .ok ()) ∨
    (¬ CreateGoesThrough C e label passphrase profile ∧
      (∃ x, (create C e disk label passphrase profile).1 = .error x) ∧
      (create C e disk label passphrase profile).2.disk = disk) := by
  unfold create CreateGoesThrough
  simp only
  split
  · rename_i x hp
    refine .inr ⟨?_, ⟨x, rfl⟩, rfl⟩
    rintro ⟨kdf, key, blob, bytes, hk, hd, hb, -⟩
    simp [hk, hd, hb, facade, bind, Except.bind, pure, Except.pure] at hp
  · rename_i kdf key blob hp
    simp only [bind_ok, facade_ok, pure, Except.pure, Except.ok.injEq, Prod.mk.injEq] at hp
    obtain ⟨kdf', hk, key', hd, blob', hb, rfl, rfl, rfl⟩ := hp
    generalize hv : Vault.setState _ _ = v
    have hc : v.state.container = ((({ container := Container.new, unlocked := ∅ } :
        VaultState).pushHeader ⟨e.uuid 0, label, kdf'⟩).setMasterBlob (e.uuid 0)
          blob').container := by
      rw [← hv]
      rfl
    have hdisk : v.disk = disk := by rw [← hv]; rfl
    rcases writeContainer_cases (C := C) e v with ⟨x, hx, hn⟩ | ⟨bytes, hw, hx⟩
    · refine .inr ⟨?_, ⟨x, congrArg Prod.fst hx⟩, by rw [hx]; exact hdisk⟩
      rintro ⟨kdf, key, blob, bytes, hk', hd', hb', hw⟩
      rw [hk] at hk'
      cases hk'
      rw [hd] at hd'
      cases hd'
      rw [hb] at hb'
      cases hb'
      rw [← hc] at hw
      exact hn bytes hw
    · refine .inl ⟨⟨kdf', key', blob', bytes, hk, hd, hb, ?_⟩, congrArg Prod.fst hx⟩
      rw [← hc]
      exact hw

/-- **When `create` spares the file.** It returns an error and leaves the file
as it is, whatever the file holds, exactly if something it calls fails. -/
theorem create_spares_iff (bytes : Bytes) :
    ((∃ x, (create C e (some bytes) label passphrase profile).1 = .error x) ∧
      (create C e (some bytes) label passphrase profile).2.disk = some bytes) ↔
    ¬ CreateGoesThrough C e label passphrase profile := by
  rcases create_cases (C := C) e label passphrase profile
    (some bytes) with ⟨hgo, hok⟩ | ⟨hno, hx, hd⟩
  · constructor
    · rintro ⟨⟨x, hx⟩, -⟩
      rw [hok] at hx
      cases hx
    · intro hno
      exact absurd hgo hno
  · exact ⟨fun _ => hno, fun _ => ⟨hx, hd⟩⟩

end

/-- **A vault that is gone.** The sample vault's file parses, and `create`
writes a new vault over it. -/
theorem create_over_vault :
    ∃ (e : In) (bytes : Bytes) (container : Container) (label passphrase : String)
    (profile : DeviceProfile), (∀ o, Container.fromBytes Crates.symbolic o bytes = .ok container) ∧
    (create Crates.symbolic e (some bytes) label passphrase profile).1 = .ok () := by
  obtain ⟨kdf, key, blob, bytes, -, -, -, hs, hw, -⟩ := create_ok sampleVault_create
  have hversion : sampleVault.state.container.header.formatVersion = L1.formatVersion := by
    rw [hs]
    rfl
  refine ⟨sampleIn, bytes, _, "main", "pw", .desktop, Container.fromBytes_toArchive
    Crates.symbolic_codec hversion (writeAtomic_ok _ |>.1 hw).1, ?_⟩
  rcases create_cases (C := Crates.symbolic) sampleIn "main" "pw" .desktop (some bytes) with
    ⟨-, hok⟩ | ⟨hno, -, -⟩
  · exact hok
  · rcases create_cases (C := Crates.symbolic) sampleIn "main" "pw" .desktop none with
      ⟨hgo, -⟩ | ⟨-, ⟨x, hx⟩, -⟩
    · exact absurd hgo hno
    · rw [sampleVault_create] at hx
      cases hx

end VaultSigner.L5
