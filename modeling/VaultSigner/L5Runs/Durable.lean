import VaultSigner.L5Runs.Validated

/-!
# What is in memory is on disk (`persist_locked`, `apply_merge_result`)

Three copies of a compartment's manifest exist: the one in memory, its
encryption in the container, and the container in the file. `Synced` says
that they agree. Every operation writes them in one of two ways: it encrypts
the manifest it edited again and writes the file, or it puts a fresh blob in
the container itself and writes the file. Merge option 1 does neither: it
edits the manifest and writes the file with the old blob.

Results:
* `Synced.resumes`: reopening the file, or locking and unlocking, shows the
  same keys.
* `Synced.step`: a successful call keeps the three copies in agreement, unless
  it is merge option 1 with something to import.
* `run_synced`: so does a run of successful calls.
-/
namespace VaultSigner.L5
open VaultSigner.Core VaultSigner.L1 VaultSigner.L3 VaultSigner.L4

section
variable (C : Crates)

/-- Every unlocked compartment's blob opens, under the cached key, to the
manifest in memory. -/
def Backed (s : VaultState) : Prop :=
  ∀ c u, s.unlocked.get c = some u → ∃ b p, s.container.masterBlobs.get c = some b ∧
    decryptWithKey C c b u.masterKey = .ok p ∧ p.manifest = u.manifest

/-- The file parses back to the container, and the container to what is in
memory. -/
structure Synced (v : Vault) : Prop where
  file : ∃ bytes, v.disk = some bytes ∧
    ∀ o, Container.fromBytes C o bytes = .ok v.state.container
  backed : Backed C v.state

/-- Whoever unlocks an unlocked compartment again, from the container in
memory or from the file, with a passphrase that derives the cached key, finds
the manifest that is in memory now. -/
def Resumes (v : Vault) : Prop :=
  ∀ (w : Vault), (w.state.container = v.state.container ∨
      ∃ e bytes, v.disk = some bytes ∧ openVault C e bytes = .ok w) →
    ∀ c u header passphrase e, v.state.unlocked.get c = some u →
      w.state.container.header.compartments.find? (fun h => h.compartmentId = c) = some header →
      derive C (utf8 passphrase) header.kdfParamsMaster = .ok u.masterKey →
      (unlockRegion C c passphrase e w).1 = .ok () ∧
      (unlockRegion C c passphrase e w).2.state.unlocked.get c = some u

/-- Merge option 1 has nothing to import. -/
def ImportsNothing : Call → Prop
  | .mergeReencryptDiscardIncoming _ json _ =>
    ∀ m, Manifest.fromJson C (utf8 json) = .ok m → m.keys = []
  | _ => True

end

section
variable {C : Crates}

theorem Synced.version {v : Vault} (h : Synced C v) (o : Orders) :
    v.state.container.header.formatVersion = L1.formatVersion := by
  obtain ⟨bytes, -, hb⟩ := h.file
  exact fromBytes_version (hb o)

/-- The two copies outside memory suffice to show the same keys again. -/
theorem Synced.resumes {v : Vault} (h : Synced C v) : Resumes C v := by
  intro w hw c u header passphrase e hu hh hd
  have hc : w.state.container = v.state.container := by
    rcases hw with hw | ⟨e', bytes, hb, ho⟩
    · exact hw
    · obtain ⟨bytes', hb', hp⟩ := h.file
      rw [hb] at hb'
      cases hb'
      unfold openVault at ho
      rw [bind_ok] at ho
      obtain ⟨c', hc', ho⟩ := ho
      rw [facade_ok, hp] at hc'
      cases hc'
      simp only [pure, Except.pure, Except.ok.injEq] at ho
      rw [← ho]
  obtain ⟨b, p, hb, hk, hm⟩ := h.backed c u hu
  rw [← hc] at hb
  unfold unlockRegion
  simp only [hh, hb, hd, hk]
  refine ⟨trivial, ?_⟩
  simp only [Vault.setState_state, VaultState.setUnlocked, HashMap.get_put_self, hm]

/-! ## One call -/

/-- What is written parses back. -/
theorem synced_written (hC : C.CodecLaws) {v : Vault} {e : In} {bytes : Bytes}
    (hv : v.state.container.header.formatVersion = L1.formatVersion)
    (hw : writeAtomic C e v.state.container = .ok bytes) (hd : v.disk = some bytes)
    (hb : Backed C v.state) : Synced C v where
  file := ⟨bytes, hd, fun o => Container.fromBytes_toArchive hC hv (writeAtomic_ok e |>.1 hw).1 o⟩
  backed := hb

/-- An edit of one compartment's manifest, with the blobs left to
`persist_locked`. -/
structure TouchesOnly (c : Uuid) (s s' : VaultState) : Prop where
  header : s'.container.header = s.container.header
  masterBlobs : s'.container.masterBlobs = s.container.masterBlobs
  unlocked : ∀ c' ≠ c, s'.unlocked.get c' = s.unlocked.get c'

/-- Encrypting the edited manifest again restores the agreement. -/
theorem TouchesOnly.backed (hC : C.CodecLaws) (ha : C.AeadLaws) {c : Uuid} {s s' : VaultState}
    (ht : TouchesOnly c s s') (h : Backed C s) {u : UnlockedCompartment} {blob : Bytes}
    {nonce : Except String Nonce} (hu : s'.unlocked.get c = some u)
    (hb : encryptWithKey C c u.manifest u.masterKey nonce = .ok blob) :
    Backed C (s'.setMasterBlob c blob) := by
  intro c' u' hu'
  simp only [VaultState.setMasterBlob] at hu' ⊢
  by_cases hc : c' = c
  · subst hc
    rw [hu] at hu'
    cases hu'
    exact ⟨blob, _, HashMap.get_put_self _ _ _, decryptWithKey_encryptWithKey hC ha hb, rfl⟩
  · rw [ht.unlocked c' hc] at hu'
    obtain ⟨b, p, h1, h2, h3⟩ := h c' u' hu'
    exact ⟨b, p, by rw [HashMap.get_put_ne _ _ hc, ht.masterBlobs, h1], h2, h3⟩

/-- A fresh compartment entry, blob beside manifest. -/
theorem backed_put (hC : C.CodecLaws) (ha : C.AeadLaws) {s s' : VaultState} {c : Uuid}
    {u : UnlockedCompartment} {blob : Bytes} {nonce : Except String Nonce} (h : Backed C s)
    (hb : encryptWithKey C c u.manifest u.masterKey nonce = .ok blob)
    (hm : s'.container.masterBlobs = s.container.masterBlobs.put c blob)
    (hu : s'.unlocked = s.unlocked.put c u) : Backed C s' := by
  intro c' u' hu'
  rw [hu, HashMap.get_put] at hu'
  split at hu'
  · rename_i hc
    cases hu'
    subst hc
    exact ⟨blob, _, by rw [hm, HashMap.get_put_self], decryptWithKey_encryptWithKey hC ha hb, rfl⟩
  · rename_i hc
    obtain ⟨b, p, h1, h2, h3⟩ := h c' u' hu'
    exact ⟨b, p, by rw [hm, HashMap.get_put_ne _ _ hc, h1], h2, h3⟩

/-- Option 1 with something to import leaves a manifest in memory that its
blob does not hold. -/
theorem merge1_not_backed {e : In} {s : VaultState} {target json : String} {r : Merge.MergeResult}
    {blobs : List IncomingKeyBlob} (hb : Backed C s) (hn : (headerIds s).Nodup)
    (h : prepareMerge1 C e s target json = .ok r) (hb' : Backed C (s.merge1 C r blobs)) :
    ∀ m, Manifest.fromJson C (utf8 json) = .ok m → m.keys = [] := by
  intro m hm
  obtain ⟨c, u, keys, hu, hlen, hget⟩ := prepareMerge1_target hn h hm
  obtain ⟨b, p, h1, h2, h3⟩ := hb _ _ hu
  obtain ⟨b', p', h1', h2', h3'⟩ := hb' _ _ hget
  simp only [VaultState.merge1, VaultState.copyBlobs] at h1' h2'
  rw [h1] at h1'
  cases h1'
  rw [h2] at h2'
  cases h2'
  have hkeys := congrArg Manifest.keys (h3'.symm.trans h3)
  rw [List.append_right_eq_self.1 hkeys] at hlen
  exact List.length_eq_zero_iff.1 hlen.symm

/-- Option 1 with nothing to import changes no manifest. -/
theorem merge1_unlocked {e : In} {s : VaultState} {target json : String} {r : Merge.MergeResult}
    (hn : ∀ m, Manifest.fromJson C (utf8 json) = .ok m → m.keys = [])
    (h : prepareMerge1 C e s target json = .ok r) :
    updateManifests r.updatedCompartments s.unlocked = s.unlocked := by
  obtain ⟨t, incoming, -, hi, hr⟩ := prepareMerge1_ok h
  have hv := ((Manifest.fromJson_ok C _ _).1 hi).2
  obtain ⟨updated, hu, rfl⟩ := (Merge.mergeReencrypt_ok hv).1 hr
  simp only [Merge.renamedKeys, hn _ hi, Merge.renamedList] at hu
  obtain ⟨pre, c, post, hl, -, -, -, rfl⟩ := Merge.extendTarget_ok.1 hu
  have hsame : Merge.extended c [] = c := by simp [Merge.extended]
  rw [hsame, ← hl]
  exact updateManifests_same _ _ fun x hx => mem_localCompartments hx

/-- What each edit touches. -/
theorem storeEdit_touches {α : Type} {s : VaultState} {c : Uuid} {k : KeyEntry} {b : Bytes} {a : α}
    {d : Edit α} (h : storeEdit C s c k b a = .ok d) :
    (∃ x, d.tail = .fail x) ∨ d.tail = .persist c ∧ TouchesOnly c s d.state := by
  unfold storeEdit at h
  split at h
  · cases h
  · split at h
    · cases h; exact .inl ⟨_, rfl⟩
    · cases h
      exact .inr ⟨rfl, rfl, rfl, fun c' hc => HashMap.get_put_ne _ _ hc⟩

/-- What an edit leaves for the step that follows it: nothing new, one
compartment to encrypt again, or a state whose blobs are in place. -/
inductive Leaves (C : Crates) (call : Call) (s : VaultState) (d : Edit Reply) : Prop
  | fail (x : FacadeError) (ht : d.tail = .fail x)
  | skip (ht : d.tail = .skip) (hs : d.state = s)
  | persist (c : Uuid) (ht : d.tail = .persist c) (h : TouchesOnly c s d.state)
  | write (ht : d.tail = .write)
      (hb : ImportsNothing C call → Backed C s → Backed C d.state)

theorem storeEdit_leaves {α : Type} {s : VaultState} {c : Uuid} {k : KeyEntry} {b : Bytes} {a : α}
    {f : α → Reply} {d : Edit Reply} {call : Call}
    (h : (storeEdit C s c k b a).map (Edit.map f) = .ok d) : Leaves C call s d := by
  cases hd : storeEdit C s c k b a with
  | error x => rw [hd] at h; cases h
  | ok d' =>
    rw [hd] at h
    cases h
    rcases storeEdit_touches hd with ⟨x, hx⟩ | ⟨ht, hs⟩
    · exact .fail x hx
    · exact .persist c ht hs

theorem Call.Edits.leaves (hC : C.CodecLaws) (ha : C.AeadLaws) {A : Vault → In → Prop} {v : Vault}
    {call : Call} {es : List In} {e : In} {q : FacadeResult (Edit Reply)} {d : Edit Reply}
    (he : call.Edits C A v es e q) (hq : q = .ok d) : Leaves C call v.state d := by
  cases he with
  | addCompartment label passphrase profile e =>
    unfold addCompartmentEdit at hq
    cases hp : prepareAddCompartment C e passphrase profile with
    | error x => rw [hp] at hq; cases hq
    | ok p =>
      rw [hp] at hq
      cases hq
      unfold prepareAddCompartment at hp
      simp only [bind_ok, facade_ok, pure, Except.pure, Except.ok.injEq] at hp
      obtain ⟨kdf, -, key, -, blob, hb, rfl⟩ := hp
      exact .write rfl fun _ h => backed_put hC ha h hb rfl rfl
  | createKey a e =>
    unfold createKeyEdit at hq
    cases hp : prepareCreateKey C e a with
    | error x => rw [hp] at hq; cases hq
    | ok p => rw [hp] at hq; exact storeEdit_leaves hq
  | discardKey t e es hc hk =>
    unfold discardEdit at hq
    split at hq
    · cases hq
    · cases hq
      exact .persist _ rfl ⟨rfl, rfl, fun c' hc => HashMap.get_put_ne _ _ hc⟩
  | changeKeyPassphrase old new e₀ e hc hk =>
    rename_i cid kid
    unfold changePassphraseEdit at hq
    split at hq
    · cases hq
    · split at hq
      · cases hq
      · split at hq
        · cases hq
        · unfold resealEdit at hq
          split at hq
          · cases hq
          · split at hq
            · cases hq
            · cases hq
              exact .persist _ rfl ⟨rfl, rfl, fun c' hc => HashMap.get_put_ne _ _ hc⟩
  | makeCredential a e hc hr hx =>
    unfold makeCredentialEdit at hq
    split at hq
    · cases hq
    · exact storeEdit_leaves hq
  | getAssertion e hr hx =>
    unfold commitEdit at hq
    split at hq
    · cases hq
      exact .skip rfl rfl
    · split at hq
      · cases hq
      · cases hq
        exact .persist _ rfl ⟨rfl, rfl, fun c' hc => HashMap.get_put_ne _ _ hc⟩
  | merge1 target json blobs e =>
    unfold merge1Edit at hq
    cases hp : prepareMerge1 C e v.state target json with
    | error x => rw [hp] at hq; cases hq
    | ok r =>
      rw [hp] at hq
      cases hq
      refine .write rfl fun hi h => ?_
      intro c u hu
      simp only [Edit.map, VaultState.merge1, VaultState.copyBlobs, merge1_unlocked hi hp] at hu
      exact h c u hu
  | merge2 json blobs label passphrase profile e =>
    unfold merge2Edit at hq
    cases hp : prepareMerge2 C e v.state json label passphrase profile with
    | error x => rw [hp] at hq; cases hq
    | ok p =>
      rw [hp] at hq
      cases hq
      obtain ⟨-, -, -, -, hb⟩ := prepareMerge2_ok hp
      exact .write rfl fun _ h => backed_put hC ha h hb rfl rfl
  | merge3 target json blobs passphrase kdfJson phrase e =>
    unfold merge3Edit at hq
    cases hp : prepareMerge3 C e v.state target json passphrase kdfJson phrase with
    | error x => rw [hp] at hq; cases hq
    | ok p =>
      rw [hp] at hq
      cases hq
      obtain ⟨-, -, -, -, -, hb⟩ := prepareMerge3_ok hp
      exact .write rfl fun _ h => backed_put hC ha h hb rfl rfl

/-- **One call.** A call that returns `Ok` keeps the three copies in
agreement, unless it is option 1 with something to import. -/
theorem Synced.step (hC : C.CodecLaws) (ha : C.AeadLaws) {A : Vault → In → Prop} {call : Call}
    {v v' : Vault} {es : List In} {a : Reply} (h : Synced C v) (hi : ImportsNothing C call)
    (hx : Prog.Exec A (call.run C) v es (.ok a) v') : Synced C v' := by
  cases call.effect hx with
  | quiet hq =>
    refine ⟨?_, ?_⟩
    · rw [hq.state, hq.disk]; exact h.file
    · rw [hq.state]; exact h.backed
  | unlocked c b key p hh hb hp hs hd =>
    refine ⟨?_, ?_⟩
    · rw [hd, hs]; exact h.file
    · rw [hs]
      intro c' u' hu'
      simp only [VaultState.setUnlocked, HashMap.get_put] at hu'
      split at hu'
      · rename_i hc
        cases hu'
        subst hc
        exact ⟨b, p, hb, hp, rfl⟩
      · exact h.backed c' u' hu'
  | locked hc hu hd =>
    refine ⟨?_, ?_⟩
    · rw [hd, hc]; exact h.file
    · intro c u hcu
      rw [hc]
      exact h.backed c u (hu c u hcu)
  | edited e d he hag =>
    have hok : (mutate C e v d).1 = .ok a := hag.result.symm
    obtain ⟨d', rfl, -, hg, hs, hd⟩ := mutate_ok e v hok
    rw [← hag.state] at hs
    rw [← hag.disk] at hd
    simp only at hs hd
    cases Call.Edits.leaves hC ha he rfl with
    | fail x ht => rw [ht] at hg; exact absurd hg id
    | skip ht hsk =>
      rw [ht] at hs hd
      simp only [inMemory, written, hsk] at hs hd
      exact ⟨by rw [hs, hd]; exact h.file, by rw [hs]; exact h.backed⟩
    | persist c ht hto =>
      rw [ht] at hs hd hg
      obtain ⟨u, blob, bytes, hu, hb, hw⟩ := hg
      simp only [inMemory, hu, hb] at hs
      simp only [written, inMemory, hu, hb, hw, Except.toOption] at hd
      refine synced_written hC (e := e) ?_ (by rw [hs]; exact hw) hd ?_
      · rw [hs]; exact (Call.Edits.header he rfl).1.trans (h.version e.orders)
      · rw [hs]; exact hto.backed hC ha h.backed hu hb
    | write ht hb =>
      rw [ht] at hs hd hg
      obtain ⟨bytes, hw⟩ := hg
      simp only [inMemory] at hs
      simp only [written, inMemory, hw, Except.toOption] at hd
      refine synced_written hC (e := e) ?_ (by rw [hs]; exact hw) hd ?_
      · rw [hs]; exact (Call.Edits.header he rfl).1.trans (h.version e.orders)
      · rw [hs]; exact hb hi h.backed

theorem created_synced (hC : C.CodecLaws) (ha : C.AeadLaws) {v : Vault} (h : Created C v) :
    Synced C v := by
  obtain ⟨e, disk, label, passphrase, profile, h⟩ := h
  obtain ⟨kdf, key, blob, bytes, -, -, hb, hs, hw, hd⟩ := create_ok h
  refine synced_written hC (e := e) (by rw [hs]; rfl) hw hd ?_
  rw [hs]
  refine backed_put (s := ⟨Container.new, ∅⟩) hC ha ?_ hb rfl rfl
  intro c u hu
  simp at hu

/-- Option 1 with something to import breaks the agreement. -/
theorem importsNothing_of_synced {A : Vault → In → Prop} {call : Call} {v v' : Vault}
    {es : List In} {a : Reply} (hn : (headerIds v.state).Nodup) (h : Synced C v) (h' : Synced C v')
    (hx : Prog.Exec A (call.run C) v es (.ok a) v') : ImportsNothing C call := by
  cases call with
  | mergeReencryptDiscardIncoming target json blobs =>
    obtain ⟨q, hx, hq⟩ := exec_replying.1 hx
    obtain ⟨e, -, -, rfl, rfl⟩ := exec_op.1 hx
    rw [merge1Region_eq, Vault.enter_state] at hq h'
    cases hr : (mutate C e (v.enter e) (merge1Edit C target json blobs e v.state)).1 with
    | error x => rw [hr] at hq; cases hq
    | ok i =>
      obtain ⟨d, hd, -, -, hs, -⟩ := mutate_ok e _ hr
      unfold merge1Edit at hd
      cases hp : prepareMerge1 C e v.state target json with
      | error x => rw [hp] at hd; cases hd
      | ok r =>
        rw [hp] at hd
        cases hd
        have hb := h'.backed
        rw [hs] at hb
        exact merge1_not_backed h.backed hn hp hb
  | _ => trivial

/-- **Nothing is left only in memory.** In a run of successful calls from a
created vault in which no merge under option 1 has anything to import, the
file parses back to the container, every unlocked compartment's blob opens to
the manifest in memory, and so whoever unlocks it again finds the same keys.
Conversely, if that holds after every call of the run, and every compartment
got an id of its own, then no merge under option 1 had anything to import. -/
theorem run_synced (C : Crates) (hC : C.CodecLaws) (ha : C.AeadLaws) {v₀ v : Vault} {l : List Turn}
    (h₀ : Created C v₀) (h : Run C Vault.Admits v₀ l v) (hok : ∀ t ∈ l, ∃ a, t.result = .ok a) :
    ((∀ t ∈ l, ImportsNothing C t.call) → Synced C v ∧ Resumes C v) ∧
    ((∀ t ∈ l, FreshCompartment t) → (∀ t ∈ l, Synced C t.after) →
      ∀ t ∈ l, ImportsNothing C t.call) := by
  have hfwd : (∀ t ∈ l, ImportsNothing C t.call) → Synced C v := by
    induction h with
    | nil => exact fun _ => created_synced hC ha h₀
    | cons hr hx ih =>
      intro hi
      have hprev := ih (fun t ht => hok t (List.mem_cons_of_mem _ ht))
        fun t ht => hi t (List.mem_cons_of_mem _ ht)
      obtain ⟨a, ha'⟩ := hok _ List.mem_cons_self
      simp only at ha'
      subst ha'
      exact hprev.step hC ha (hi _ List.mem_cons_self) hx
  refine ⟨fun hi => ⟨hfwd hi, (hfwd hi).resumes⟩, ?_⟩
  intro hf hs
  -- along the run: the header's ids stay distinct, and the vault before the next call is synced
  have key : (headerIds v.state).Nodup ∧ Synced C v ∧ ∀ t ∈ l, ImportsNothing C t.call := by
    clear hfwd
    induction h with
    | nil => exact ⟨created_headerIds h₀, created_synced hC ha h₀, by simp⟩
    | @cons l w w' call es r hr hx ih =>
      obtain ⟨hn, hw, hi⟩ := ih (fun t ht => hok t (List.mem_cons_of_mem _ ht))
        (fun t ht => hf t (List.mem_cons_of_mem _ ht)) fun t ht => hs t (List.mem_cons_of_mem _ ht)
      obtain ⟨a, ha'⟩ := hok _ List.mem_cons_self
      simp only at ha'
      subst ha'
      have hw' : Synced C w' := hs _ List.mem_cons_self
      refine ⟨headerIds_nodup_step hx (hf _ List.mem_cons_self) hn, hw', fun t ht => ?_⟩
      rcases List.mem_cons.1 ht with rfl | ht
      · exact importsNothing_of_synced hn hw hw' hx
      · exact hi t ht
  exact key.2.2

end

/-! ## A key and an import in the sample vault -/

/-- A key can be created in the sample vault, whatever has been imported into
it. -/
theorem SampleState.createKey {v : Vault} {keys : List KeyEntry} {b : HashMap Uuid Bytes}
    (h : SampleState v.state keys b) (hc : v.clock = 0) (hm : (sampleManifest keys).Valid)
    (hk : Uuid.rep 41 ∉ keys.map KeyEntry.keyId) : ∃ a x blob v', Prog.Exec Vault.Admits
      ((Call.createKey sampleArgs).run Crates.symbolic) v [sampleNext] (.ok a) v' ∧
      SampleState v'.state (keys ++ [x]) (b.put x.keyId blob) := by
  obtain ⟨x, blob, hp⟩ := sampleArgs_prepared sampleNext.io
  obtain ⟨key, hu⟩ := h.unlocked
  have hget : v.state.unlocked.get (Uuid.rep 10) = some ⟨sampleManifest keys, key⟩ := by
    rw [hu, HashMap.get_put_self]
  obtain ⟨hvalid, hid⟩ := NewKey.valid (A := Vault.Admits) (v := v) (.created hp)
  have hpush : (UnlockedCompartment.push ⟨sampleManifest keys, key⟩ x).manifest.Valid :=
    push_valid hm hvalid (by rw [hid]; exact hk)
  let pushed := (v.state.setUnlocked (Uuid.rep 10)
    (UnlockedCompartment.push ⟨sampleManifest keys, key⟩ x)).setKeyBlob x.keyId blob
  have hpushed : SampleState pushed (keys ++ [x]) (b.put x.keyId blob) := by
    have hset : SampleState (v.state.setUnlocked (Uuid.rep 10)
        (UnlockedCompartment.push ⟨sampleManifest keys, key⟩ x)) (keys ++ [x]) b :=
      h.setUnlocked rfl
    exact ⟨hset.header, hset.unlocked, by rw [← hset.keyBlobs]; rfl⟩
  have hd : createKeyEdit Crates.symbolic sampleArgs sampleNext v.state =
      .ok ⟨pushed, .persist (Uuid.rep 10), keyInfoView Crates.symbolic (Uuid.rep 10) x⟩ := by
    unfold createKeyEdit storeEdit
    rw [show prepareCreateKey _ sampleNext _ = _ from hp]
    simp only [unlockedCompartment_ok.2 hget, (Manifest.validate_ok Crates.symbolic _).2 hpush,
      pushed]
  obtain ⟨v', hx, hs, -⟩ :=
    exec_region_edit (f := Reply.key) (fun e w => createKeyRegion_eq e w sampleArgs)
    (admits_sampleNext hc) hd
      (goesThrough_persist sampleNext_works (HashMap.get_put_self _ _ _) hpush)
  refine ⟨_, x, blob, v', hx, ?_⟩
  obtain ⟨h1, h2, h3⟩ := inMemory_frame Crates.symbolic sampleNext pushed (.persist (Uuid.rep 10))
  rw [hs]
  exact ⟨by rw [h2]; exact hpushed.header, by rw [h1]; exact hpushed.unlocked,
    by rw [h3]; exact hpushed.keyBlobs⟩

/-- A key is created in the sample vault, whose compartment stays unlocked. -/
theorem run_synced_sample : ∃ a v u x, Prog.Exec Vault.Admits
      ((Call.createKey sampleArgs).run Crates.symbolic) sampleVault [sampleNext] (.ok a) v ∧
    v.state.unlocked.get (Uuid.rep 10) = some u ∧ u.manifest.keys = [x] ∧
    Synced Crates.symbolic v ∧ Resumes Crates.symbolic v := by
  obtain ⟨a, x, blob, v, hx, hs⟩ := SampleState.createKey sampleVault_state sampleVault_clock
    (Manifest.new_valid (Uuid.rep 11) 0) List.not_mem_nil
  obtain ⟨key, hu⟩ := hs.unlocked
  exact ⟨a, v, _, x, hx, by rw [hu, HashMap.get_put_self], rfl,
    (run_synced Crates.symbolic Crates.symbolic_codec Crates.symbolic_aead sampleVault_created
      (.cons .nil hx) (by simp)).1 (by simp [ImportsNothing])⟩

/-- **The import is in memory only.** After a first import under option 1 the
blob of the target, in memory and in the file, still holds the manifest from
before. -/
theorem merge1_only_in_memory : ∃ v₀ l v, Created Crates.symbolic v₀ ∧
    Run Crates.symbolic Vault.Admits v₀ l v ∧ (∀ t ∈ l, ∃ a, t.result = .ok a) ∧
    ¬ Synced Crates.symbolic v := by
  obtain ⟨r, hr, -⟩ := sampleVault_state.prepareMerge1 (e := sampleIn) sampleImport_valid
    (by rw [sampleRenamed_nil]; exact sampleManifest_valid sampleImport_valid)
  have hd : merge1Edit Crates.symbolic (hyphenated (Uuid.rep 10)) (jsonText sampleImport)
      [] sampleIn
      sampleVault.state = .ok ⟨sampleVault.state.merge1 Crates.symbolic r [], .write,
        applyMergeResultMetadata Crates.symbolic sampleIn.orders r⟩ := by
    unfold merge1Edit
    rw [hr]
  obtain ⟨v, hx, hs, -⟩ := exec_region_edit (f := Reply.merge)
    (fun e w => merge1Region_eq e w (hyphenated (Uuid.rep 10)) (jsonText sampleImport) [])
    sampleVault_admits hd (goesThrough_write sampleIn_works _)
  have hrun : Run Crates.symbolic Vault.Admits sampleVault [⟨sampleVault,
      .mergeReencryptDiscardIncoming (hyphenated (Uuid.rep 10)) (jsonText sampleImport) [],
      [sampleIn], _, v⟩] v := .cons .nil hx
  refine ⟨_, _, v, sampleVault_created, hrun, by simp, fun h => ?_⟩
  have hb := h.backed
  rw [hs] at hb
  have h0 := created_synced Crates.symbolic_codec Crates.symbolic_aead sampleVault_created
  have hkeys :=
    merge1_not_backed h0.backed (created_headerIds sampleVault_created) hr hb sampleImport
    (fromJson_jsonText sampleImport_valid)
  simp [sampleImport, Manifest.sample] at hkeys

end VaultSigner.L5
