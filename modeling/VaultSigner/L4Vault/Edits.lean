import VaultSigner.L4Vault.Facade

/-!
# Every change of the container is an edit and what follows it

The operations that change the container have one shape: checks that change
nothing, an edit of the state in memory, and then what makes the edit durable
(`Tail`): encrypting one compartment's manifest again and writing the file,
or only writing it. `Edit` is the outcome of the checks, `mutate` carries an
edit through, and each such region of `Facade.lean` is one of them.

Results:
* `prepareMerge1_ok`, ...: what the checks of a merge establish.
* `createKeyRegion_eq`, `merge1Region_eq`, ...: each region is its edit,
  carried through.
* `finish_cases`, `mutate_ok`, `mutate_error`: what the state and the file are
  after an edit that went through, and after one that did not.
-/
namespace VaultSigner.L4
open VaultSigner.Core VaultSigner.L1 VaultSigner.L2.Throttle VaultSigner.L3
open VaultSigner.L2

/-- What follows an edit. -/
inductive Tail where
  /-- nothing: there was nothing to write -/
  | skip
  /-- the edited manifest does not validate -/
  | fail (x : FacadeError)
  /-- `persist_locked` for a compartment -/
  | persist (c : Uuid)
  /-- `write_atomic` -/
  | write

/-- The state as an operation edits it, what follows, and its reply. -/
structure Edit (α : Type) where
  state : VaultState
  tail : Tail
  reply : α

section
variable (C : Crates)

def finish (e : In) (v : Vault) : Tail → FacadeResult Unit × Vault
  | .skip => (.ok (), v)
  | .fail x => (.error x, v)
  | .persist c => persistLocked C e v c
  | .write => writeContainer C e v

/-- The same edit with its reply in another form. -/
def Edit.map {α β : Type} (f : α → β) (d : Edit α) : Edit β := ⟨d.state, d.tail, f d.reply⟩

def mutate {α : Type} (e : In) (v : Vault) : FacadeResult (Edit α) → FacadeResult α × Vault
  | .error x => (.error x, v)
  | .ok d => returning (finish C e (v.setState d.state) d.tail) d.reply

/-! ## The edits -/

/-- The edit of `create_key` and of a registration. -/
def storeEdit {α : Type} (s : VaultState) (c : Uuid) (k : KeyEntry) (blobBytes : Bytes)
    (reply : α) : FacadeResult (Edit α) :=
  match unlockedCompartment s c with
  | .error x => .error x
  | .ok u =>
    match (u.push k).manifest.validate C with
    | .error x => .ok ⟨s.setUnlocked c (u.push k), .fail (.fromVault x), reply⟩
    | .ok () => .ok ⟨(s.setUnlocked c (u.push k)).setKeyBlob k.keyId blobBytes, .persist c, reply⟩

def createKeyEdit (a : CreateKeyArgs) (e : In) (s : VaultState) : FacadeResult (Edit KeyInfo) :=
  match prepareCreateKey C e a with
  | .error x => .error x
  | .ok (c, k, blobBytes) => storeEdit C s c k blobBytes (keyInfoView C c k)

def makeCredentialEdit (c : Uuid) (a : MakeCredentialArgs) (outcome : MakeCredentialOutcome)
    (e : In) (s : VaultState) : FacadeResult (Edit Bytes) :=
  match prepareMakeCredential C e a outcome with
  | .error x => .error x
  | .ok (k, blobBytes) => storeEdit C s c k blobBytes outcome.responseCbor

def discardEdit (c keyId : Uuid) (confirmText : String) (s : VaultState) :
    FacadeResult (Edit Unit) :=
  match prepareDiscardKey s c keyId confirmText with
  | .error x => .error x
  | .ok u => .ok ⟨(s.setUnlocked c (u.remove keyId)).removeKeyBlob keyId, .persist c, ()⟩

def resealEdit (c keyId : Uuid) (keyType : KeyType) (label : String) (privateKey : Bytes)
    (newPassphrase : String) (e : In) (s : VaultState) : FacadeResult (Edit Unit) :=
  match sealKey C e newPassphrase privateKey keyId keyType label with
  | .error x => .error x
  | .ok newBlobBytes =>
    match unlockedCompartment s c with
    | .error x => .error x
    | .ok u => .ok ⟨(s.setUnlocked c
        (u.setDigest keyId (blobSha256Hex C newBlobBytes))).setKeyBlob keyId newBlobBytes,
        .persist c, ()⟩

def changePassphraseEdit (c keyId : Uuid) (oldPassphrase newPassphrase : String) (e : In)
    (s : VaultState) : FacadeResult (Edit Unit) :=
  match lookupBlob s c keyId with
  | .error x => .error x
  | .ok (keyType, label, blobBytes) =>
    match KeyBlobOf.fromBytes C blobBytes with
    | .error x => .error (.fromVault x)
    | .ok blob =>
      match keyblobOpen C blob (utf8 oldPassphrase) keyId keyType label with
      | .error _ => .error (.failed "incorrect passphrase")
      | .ok privateKey => resealEdit C c keyId keyType label privateKey newPassphrase e s

def addCompartmentEdit (label masterPassphrase : String) (profile : DeviceProfile) (e : In)
    (s : VaultState) : FacadeResult (Edit CompartmentInfo) :=
  match prepareAddCompartment C e masterPassphrase profile with
  | .error x => .error x
  | .ok (kdfParams, u, blob) =>
    .ok ⟨s.addCompartment ⟨e.uuid 0, label, kdfParams⟩ blob u, .write,
      ⟨C.uuidToString (e.uuid 0), label, true⟩⟩

def commitEdit (outcome : GetAssertionOutcome) (e : In) (s : VaultState) :
    FacadeResult (Edit GetAssertionOutcome) :=
  match findCompartmentForKey e.orders s outcome.keyId with
  | none => .ok ⟨s, .skip, outcome⟩
  | some c =>
    match unlockedCompartment s c with
    | .error x => .error x
    | .ok u => .ok ⟨s.setUnlocked c (u.asserted outcome.keyId outcome.newSignCount e.utc),
        .persist c, outcome⟩

def merge1Edit (target json : String) (blobs : List IncomingKeyBlob) (e : In) (s : VaultState) :
    FacadeResult (Edit MergeOutcomeInfo) :=
  match prepareMerge1 C e s target json with
  | .error x => .error x
  | .ok r => .ok ⟨s.merge1 C r blobs, .write, applyMergeResultMetadata C e.orders r⟩

def merge2Edit (json : String) (blobs : List IncomingKeyBlob) (label passphrase : String)
    (profile : DeviceProfile) (e : In) (s : VaultState) : FacadeResult (Edit MergeOutcomeInfo) :=
  match prepareMerge2 C e s json label passphrase profile with
  | .error x => .error x
  | .ok (r, kdfParams, u, blob) => .ok ⟨VaultState.copyBlobs C
      (s.addCompartment ⟨e.uuid 0, label, kdfParams⟩ blob u) r.idRemap blobs, .write,
      applyMergeResultMetadata C e.orders r⟩

def merge3Edit (target json : String) (blobs : List IncomingKeyBlob)
    (passphrase kdfParamsJson phrase : String) (e : In) (s : VaultState) :
    FacadeResult (Edit MergeOutcomeInfo) :=
  match prepareMerge3 C e s target json passphrase kdfParamsJson phrase with
  | .error x => .error x
  | .ok (target, r, kdfParams, u, blob) => .ok ⟨VaultState.copyBlobs C
      (s.replaceMaster target kdfParams blob u) r.idRemap blobs, .write,
      applyMergeResultMetadata C e.orders r⟩

end

/-! ## What the checks establish -/

section
variable {C : Crates} {e : In} {s : VaultState}

theorem prepareMerge1_ok {target json : String} {r : Merge.MergeResult}
    (h : prepareMerge1 C e s target json = .ok r) : ∃ t incoming, parseUuid C target = .ok t ∧
      Manifest.fromJson C (utf8 json) = .ok incoming ∧
      Merge.mergeReencryptDiscardIncoming C e.uuid (localCompartments s) t incoming = .ok r := by
  unfold prepareMerge1 at h
  simp only [bind_ok, facade_ok] at h
  obtain ⟨t, ht, incoming, hi, hr⟩ := h
  exact ⟨t, incoming, ht, hi, hr⟩

theorem prepareMerge2_ok {json label passphrase : String} {profile : DeviceProfile}
    {r : Merge.MergeResult} {kdf : KdfParams} {u : UnlockedCompartment} {blob : Bytes}
    (h : prepareMerge2 C e s json label passphrase profile = .ok (r, kdf, u, blob)) :
    ∃ incoming, Manifest.fromJson C (utf8 json) = .ok incoming ∧
      Merge.mergeSideBySide C (fun i => e.uuid (i + 2)) (localCompartments s) incoming (e.uuid 0)
        label = .ok r ∧
      mergedManifest r (e.uuid 0)
        "merge_side_by_side always creates the requested new compartment" = .ok u.manifest ∧
      encryptWithKey C (e.uuid 0) u.manifest u.masterKey (e.nonce 1) = .ok blob := by
  unfold prepareMerge2 at h
  simp only [bind_ok, facade_ok, pure, Except.pure, Except.ok.injEq] at h
  obtain ⟨incoming, hi, r', hr, kdf', -, key, -, m, hm, blob', hb, h⟩ := h
  cases h
  exact ⟨incoming, hi, hr, hm, hb⟩

theorem prepareMerge3_ok {target json passphrase kdfJson phrase : String} {t : Uuid}
    {r : Merge.MergeResult} {kdf : KdfParams} {u : UnlockedCompartment} {blob : Bytes}
    (h : prepareMerge3 C e s target json passphrase kdfJson phrase = .ok (t, r, kdf, u, blob)) :
    ∃ incoming, parseUuid C target = .ok t ∧ Manifest.fromJson C (utf8 json) = .ok incoming ∧
      Merge.mergeReplaceLocalWithIncoming C e.uuid (localCompartments s) t incoming phrase = .ok r ∧
      mergedManifest r t
        "merge_replace_local_with_incoming keeps the target compartment id" = .ok u.manifest ∧
      encryptWithKey C t u.manifest u.masterKey (e.nonce 1) = .ok blob := by
  unfold prepareMerge3 at h
  simp only [bind_ok, facade_ok] at h
  obtain ⟨t', ht, incoming, hi, h⟩ := h
  split at h
  · simp only [bind_ok, Except.ok.injEq] at h
    obtain ⟨doc, -, h⟩ := h
    split at h
    · simp only [bind_ok, facade_ok, pure, Except.pure, Except.ok.injEq] at h
      obtain ⟨kdf', -, r', hr, m, hm, key, -, blob', hb, h⟩ := h
      cases h
      exact ⟨incoming, ht, hi, hr, hm, hb⟩
    · simp only [bind_ok] at h
      obtain ⟨kdf', h, -⟩ := h
      cases h
  · simp only [bind_ok] at h
    obtain ⟨doc, h, -⟩ := h
    cases h

end

theorem mergedManifest_mem {r : Merge.MergeResult} {c : Uuid} {text : String} {m : Manifest}
    (h : mergedManifest r c text = .ok m) :
    ∃ y ∈ r.updatedCompartments, y.id = c ∧ y.manifest = m := by
  unfold mergedManifest at h
  split at h
  · rename_i y hy
    cases h
    exact ⟨y, List.mem_of_find?_eq_some hy, by simpa using List.find?_some hy, rfl⟩
  · cases h

theorem map_edit_ok {α : Type} {f : α → Reply} {q : FacadeResult (Edit α)} {d : Edit Reply}
    (h : q.map (Edit.map f) = .ok d) : ∃ d', q = .ok d' ∧ d = d'.map f := by
  cases q with
  | error x => cases h
  | ok d' => exact ⟨d', rfl, (Except.ok.inj h).symm⟩

/-! ## Manifests in and out of a merge -/

/-- The compartments' ids, in the header's order. -/
def headerIds (s : VaultState) : List Uuid :=
  s.container.header.compartments.map CompartmentHeaderOf.compartmentId

theorem updateManifests_same : ∀ (l : List Merge.VaultCompartment)
    (m : HashMap Uuid UnlockedCompartment),
    (∀ x ∈ l, ∃ u, m.get x.id = some u ∧ u.manifest = x.manifest) → updateManifests l m = m := by
  intro l
  induction l with
  | nil => intro m _; rfl
  | cons x l ih =>
    intro m h
    obtain ⟨u, hu, hm⟩ := h x List.mem_cons_self
    have hput : m.put x.id { u with manifest := x.manifest } = m :=
      HashMap.put_of_get (by rw [hu, ← hm])
    rw [updateManifests, hu]
    simp only [hput]
    exact ih m fun y hy => h y (List.mem_cons_of_mem _ hy)

theorem get_updateManifests_of_not_mem (k : Uuid) : ∀ (l : List Merge.VaultCompartment)
    (m : HashMap Uuid UnlockedCompartment), (∀ x ∈ l, x.id ≠ k) →
    (updateManifests l m).get k = m.get k := by
  intro l
  induction l with
  | nil => intro m _; rfl
  | cons x l ih =>
    intro m h
    have hrest : ∀ y ∈ l, y.id ≠ k := fun y hy => h y (List.mem_cons_of_mem _ hy)
    unfold updateManifests
    cases m.get x.id with
    | none => exact ih m hrest
    | some u =>
      simp only
      rw [ih _ hrest, HashMap.get_put_ne _ _ (Ne.symm (h x List.mem_cons_self))]

/-- With pairwise distinct compartments each unlocked one gets its own
manifest. -/
theorem get_updateManifests : ∀ (l : List Merge.VaultCompartment)
    (m : HashMap Uuid UnlockedCompartment), (l.map Merge.VaultCompartment.id).Nodup →
    ∀ x ∈ l, ∀ u, m.get x.id = some u →
      (updateManifests l m).get x.id = some { u with manifest := x.manifest } := by
  intro l
  induction l with
  | nil => intro m _ x hx; cases hx
  | cons y l ih =>
    intro m hn x hx u hu
    simp only [List.map_cons, List.nodup_cons, List.mem_map, not_exists, not_and] at hn
    rcases List.mem_cons.1 hx with rfl | hx
    · rw [updateManifests, hu]
      simp only
      rw [get_updateManifests_of_not_mem _ _ _ fun z hz => hn.1 z hz, HashMap.get_put_self]
    · have hne : x.id ≠ y.id := fun h => hn.1 x hx h
      unfold updateManifests
      cases m.get y.id with
      | none => exact ih m hn.2 x hx u hu
      | some w =>
        simp only
        exact ih _ hn.2 x hx u (by rw [HashMap.get_put_ne _ _ hne, hu])

/-- What is unlocked afterwards was so before, with the same key and the same
or its updated manifest. -/
theorem get_updateManifests_cases {c : Uuid} {u' : UnlockedCompartment} :
    ∀ {l : List Merge.VaultCompartment}
    {m : HashMap Uuid UnlockedCompartment}, (updateManifests l m).get c = some u' →
      ∃ u, m.get c = some u ∧ u'.masterKey = u.masterKey ∧
        (u'.manifest = u.manifest ∨ ∃ y ∈ l, y.id = c ∧ u'.manifest = y.manifest) := by
  intro l
  induction l with
  | nil => intro m h; exact ⟨u', h, rfl, .inl rfl⟩
  | cons y l ih =>
    intro m h
    unfold updateManifests at h
    have hlift : ∀ {w : UnlockedCompartment}, (u'.manifest = w.manifest ∨
        ∃ z ∈ l, z.id = c ∧ u'.manifest = z.manifest) →
        u'.manifest = w.manifest ∨ ∃ z ∈ y :: l, z.id = c ∧ u'.manifest = z.manifest := by
      rintro w (h | ⟨z, hz, hm⟩)
      · exact .inl h
      · exact .inr ⟨z, List.mem_cons_of_mem _ hz, hm⟩
    cases hy : m.get y.id with
    | none =>
      rw [hy] at h
      obtain ⟨u, hu, hk, hm⟩ := ih h
      exact ⟨u, hu, hk, hlift hm⟩
    | some w =>
      rw [hy] at h
      obtain ⟨u, hu, hk, hm⟩ := ih h
      rw [HashMap.get_put] at hu
      split at hu
      · rename_i hc
        cases hu
        subst hc
        refine ⟨w, hy, hk, ?_⟩
        rcases hm with hm | ⟨z, hz, hid, hm⟩
        · exact .inr ⟨y, List.mem_cons_self, rfl, hm⟩
        · exact .inr ⟨z, List.mem_cons_of_mem _ hz, hid, hm⟩
      · exact ⟨u, hu, hk, hlift hm⟩

theorem mem_localCompartments {s : VaultState} {x : Merge.VaultCompartment}
    (h : x ∈ localCompartments s) :
    ∃ u, s.unlocked.get x.id = some u ∧ u.manifest = x.manifest := by
  simp only [localCompartments, List.mem_filterMap, Option.map_eq_some_iff] at h
  obtain ⟨header, -, u, hu, rfl⟩ := h
  exact ⟨u, hu, rfl⟩

theorem mem_headerIds {s : VaultState} {x : Merge.VaultCompartment} (h : x ∈ localCompartments s) :
    x.id ∈ headerIds s := by
  simp only [localCompartments, List.mem_filterMap, Option.map_eq_some_iff] at h
  obtain ⟨header, hm, u, -, rfl⟩ := h
  exact List.mem_map_of_mem hm

theorem localCompartments_nodup {s : VaultState} (h : (headerIds s).Nodup) :
    ((localCompartments s).map Merge.VaultCompartment.id).Nodup := by
  have hsub : ((localCompartments s).map Merge.VaultCompartment.id).Sublist (headerIds s) := by
    unfold localCompartments headerIds
    induction s.container.header.compartments with
    | nil => exact .slnil
    | cons x l ih =>
      rw [List.filterMap_cons]
      cases s.unlocked.get x.compartmentId with
      | none => exact ih.cons _
      | some u => exact ih.cons_cons _
  exact hsub.nodup h

/-- Option 1 appends to the target's manifest one entry for each that is
imported. -/
theorem prepareMerge1_target {C : Crates} {e : In} {s : VaultState} {target json : String}
    {r : Merge.MergeResult} {m : Manifest} (hn : (headerIds s).Nodup)
    (h : prepareMerge1 C e s target json = .ok r) (hm : Manifest.fromJson C (utf8 json) = .ok m) :
    ∃ c u keys, s.unlocked.get c = some u ∧ keys.length = m.keys.length ∧
      (updateManifests r.updatedCompartments s.unlocked).get c =
        some { u with manifest := { u.manifest with keys := u.manifest.keys ++ keys } } := by
  obtain ⟨t, incoming, -, hi, hr⟩ := prepareMerge1_ok h
  rw [hm] at hi
  cases hi
  obtain ⟨updated, hu, rfl⟩ := (Merge.mergeReencrypt_ok ((Manifest.fromJson_ok C _ _).1 hm).2).1 hr
  obtain ⟨pre, c, post, hl, -, -, -, rfl⟩ := Merge.extendTarget_ok.1 hu
  obtain ⟨u, hu, hum⟩ := mem_localCompartments (s := s) (x := c) (by rw [hl]; simp)
  have hids : ((pre ++ Merge.extended c (Merge.renamedKeys C e.uuid (localCompartments s) m) ::
      post).map Merge.VaultCompartment.id).Nodup := by
    have hloc := localCompartments_nodup hn
    rw [hl] at hloc
    simpa [Merge.extended] using hloc
  have hget := get_updateManifests _ s.unlocked hids
    (Merge.extended c (Merge.renamedKeys C e.uuid (localCompartments s) m)) (by simp) u hu
  refine ⟨c.id, u, _, hu, Merge.renamedList_length C (localCompartments s) e.uuid m.keys 0, ?_⟩
  rw [hum]
  exact hget

/-! ## Each region is its edit, carried through -/

section
variable {C : Crates} (e : In) (v : Vault)

/-- The same result, state and file: the two differ at most in throttle,
cache and history. -/
structure Agrees {α : Type} (r r' : FacadeResult α × Vault) : Prop where
  result : r.1 = r'.1
  state : r.2.state = r'.2.state
  disk : r.2.disk = r'.2.disk

theorem Agrees.refl {α : Type} (r : FacadeResult α × Vault) : Agrees r r := ⟨rfl, rfl, rfl⟩

theorem storeKey_eq {α : Type} (c : Uuid) (k : KeyEntry) (blobBytes : Bytes) (reply : α) :
    returning (storeKey C e v c k blobBytes) reply =
      mutate C e v (storeEdit C v.state c k blobBytes reply) := by
  unfold storeKey storeEdit
  cases hu : unlockedCompartment v.state c with
  | error x => rfl
  | ok u =>
    simp only
    cases hv : (u.push k).manifest.validate C with
    | error x => rfl
    | ok _ => rfl

theorem createKeyRegion_eq (a : CreateKeyArgs) :
    createKeyRegion C a e v = mutate C e v (createKeyEdit C a e v.state) := by
  unfold createKeyRegion createKeyEdit
  cases prepareCreateKey C e a with
  | error x => rfl
  | ok p => exact storeKey_eq e v p.1 p.2.1 p.2.2 _

theorem makeCredentialRegion_eq (c : Uuid) (a : MakeCredentialArgs)
    (outcome : MakeCredentialOutcome) : makeCredentialRegion C c a outcome e v =
      mutate C e v (makeCredentialEdit C c a outcome e v.state) := by
  unfold makeCredentialRegion makeCredentialEdit
  cases prepareMakeCredential C e a outcome with
  | error x => rfl
  | ok p => exact storeKey_eq e v c p.1 p.2 _

theorem addCompartmentRegion_eq (label passphrase : String) (profile : DeviceProfile) :
    addCompartmentRegion C label passphrase profile e v =
      mutate C e v (addCompartmentEdit C label passphrase profile e v.state) := by
  unfold addCompartmentRegion addCompartmentEdit
  cases prepareAddCompartment C e passphrase profile <;> rfl

theorem commitAssertion_eq (outcome : GetAssertionOutcome) :
    commitAssertion C outcome e v = mutate C e v (commitEdit outcome e v.state) := by
  unfold commitAssertion commitEdit
  cases findCompartmentForKey e.orders v.state outcome.keyId with
  | none => rfl
  | some c =>
    simp only
    cases unlockedCompartment v.state c <;> rfl

theorem merge1Region_eq (target json : String) (blobs : List IncomingKeyBlob) :
    merge1Region C target json blobs e v =
      mutate C e v (merge1Edit C target json blobs e v.state) := by
  unfold merge1Region merge1Edit
  cases prepareMerge1 C e v.state target json <;> rfl

theorem merge2Region_eq (json : String) (blobs : List IncomingKeyBlob) (label passphrase : String)
    (profile : DeviceProfile) : merge2Region C json blobs label passphrase profile e v =
      mutate C e v (merge2Edit C json blobs label passphrase profile e v.state) := by
  unfold merge2Region merge2Edit
  cases prepareMerge2 C e v.state json label passphrase profile <;> rfl

theorem merge3Region_eq (target json : String) (blobs : List IncomingKeyBlob)
    (passphrase kdfParamsJson phrase : String) :
    merge3Region C target json blobs passphrase kdfParamsJson phrase e v =
      mutate C e v (merge3Edit C target json blobs passphrase kdfParamsJson phrase e v.state) := by
  unfold merge3Region merge3Edit
  cases prepareMerge3 C e v.state target json passphrase kdfParamsJson phrase <;> rfl

theorem discardRegion_agrees (c keyId : Uuid) (confirmText : String) :
    Agrees (discardRegion C c keyId confirmText e v)
      (mutate C e v (discardEdit c keyId confirmText v.state)) := by
  unfold discardRegion discardEdit
  cases prepareDiscardKey v.state c keyId confirmText with
  | error x => exact .refl _
  | ok u =>
    simp only [mutate, finish, returning]
    rcases persistLocked C e
      (v.setState ((v.state.setUnlocked c (u.remove keyId)).removeKeyBlob keyId)) c with ⟨r, w⟩
    cases r with
    | error x => exact ⟨rfl, rfl, rfl⟩
    | ok a => exact ⟨rfl, rfl, rfl⟩

theorem persistLocked_agrees {w : Vault} (hs : v.state = w.state) (hd : v.disk = w.disk)
    (c : Uuid) : Agrees (persistLocked C e v c) (persistLocked C e w c) := by
  unfold persistLocked
  rw [hs]
  cases unlockedCompartment w.state c with
  | error x => exact ⟨rfl, hs, hd⟩
  | ok u =>
    simp only
    cases encryptWithKey C c u.manifest u.masterKey (e.nonce 1) with
    | error x => exact ⟨rfl, hs, hd⟩
    | ok blob =>
      simp only [writeContainer, Vault.setState_state]
      cases writeAtomic C e (w.state.setMasterBlob c blob).container with
      | error x => exact ⟨rfl, rfl, hd⟩
      | ok bytes => exact ⟨rfl, rfl, rfl⟩

theorem writeContainer_agrees {w : Vault} (hs : v.state = w.state) (hd : v.disk = w.disk) :
    Agrees (writeContainer C e v) (writeContainer C e w) := by
  unfold writeContainer
  rw [hs]
  cases writeAtomic C e w.state.container with
  | error x => exact ⟨rfl, hs, hd⟩
  | ok bytes => exact ⟨rfl, rfl, rfl⟩

/-- What an edit leads to depends on the state and the file alone. -/
theorem mutate_agrees {α : Type} {w : Vault} (hs : v.state = w.state) (hd : v.disk = w.disk)
    (d : FacadeResult (Edit α)) : Agrees (mutate C e v d) (mutate C e w d) := by
  cases d with
  | error x => exact ⟨rfl, hs, hd⟩
  | ok d =>
    have key : Agrees (finish C e (v.setState d.state) d.tail)
        (finish C e (w.setState d.state) d.tail) := by
      cases d.tail with
      | skip => exact ⟨rfl, rfl, hd⟩
      | fail x => exact ⟨rfl, rfl, hd⟩
      | persist c =>
        exact persistLocked_agrees e (v.setState d.state) (w := w.setState d.state) rfl hd c
      | write => exact writeContainer_agrees e (v.setState d.state) (w := w.setState d.state) rfl hd
    exact ⟨congrArg (Except.map fun _ => d.reply) key.result, key.state, key.disk⟩

theorem resealRegion_agrees {w : Vault} (hs : v.state = w.state) (hd : v.disk = w.disk)
    (c keyId : Uuid) (keyType : KeyType) (label : String) (privateKey : Bytes) (new : String) :
    Agrees (resealRegion C c keyId keyType label privateKey new e v)
      (mutate C e w (resealEdit C c keyId keyType label privateKey new e w.state)) := by
  unfold resealRegion resealEdit
  rw [hs]
  cases sealKey C e new privateKey keyId keyType label with
  | error x => exact ⟨rfl, hs, hd⟩
  | ok b =>
    simp only
    cases unlockedCompartment w.state c with
    | error x => exact ⟨rfl, hs, hd⟩
    | ok u =>
      simp only [mutate, finish, returning]
      obtain ⟨h1, h2, h3⟩ := persistLocked_agrees (C := C) e (v.setState ((w.state.setUnlocked c
        (u.setDigest keyId (blobSha256Hex C b))).setKeyBlob keyId b)) (w := w.setState
        ((w.state.setUnlocked c (u.setDigest keyId (blobSha256Hex C b))).setKeyBlob keyId b))
          rfl hd c
      refine ⟨h1.trans ?_, h2, h3⟩
      exact (congrFun Except.map_id _).symm

theorem changePassphraseRegion_agrees (c keyId : Uuid) (old new : String) :
    Agrees (changePassphraseRegion C c keyId old new e v)
      (mutate C e v (changePassphraseEdit C c keyId old new e v.state)) := by
  unfold changePassphraseRegion changePassphraseEdit
  simp only
  cases lookupBlob v.state c keyId with
  | error x => exact .refl _
  | ok p =>
    obtain ⟨keyType, label, blobBytes⟩ := p
    simp only
    cases KeyBlobOf.fromBytes C blobBytes with
    | error x => exact .refl _
    | ok blob =>
      simp only
      cases keyblobOpen C blob (utf8 old) keyId keyType label with
      | error x => exact ⟨rfl, rfl, rfl⟩
      | ok privateKey =>
        simp only
        apply resealRegion_agrees
        · rfl
        · rfl

theorem mutate_map {α β : Type} (f : α → β) (d : FacadeResult (Edit α)) :
    mutate C e v (d.map (Edit.map f)) = ((mutate C e v d).1.map f, (mutate C e v d).2) := by
  cases d with
  | error x => rfl
  | ok d =>
    simp only [mutate, returning, Except.map, Edit.map]
    cases (finish C e (v.setState d.state) d.tail).1 <;> rfl

/-! ## What carrying an edit through leaves -/

theorem writeAtomic_ok {c : Container} {bytes : Bytes} :
    writeAtomic C e c = .ok bytes ↔ c.toArchive C e.orders = .ok bytes ∧ e.io = .ok () := by
  unfold writeAtomic
  simp only [bind_ok, pure, Except.pure, Except.ok.injEq]
  constructor
  · rintro ⟨b, hb, ⟨⟩, hio, rfl⟩
    exact ⟨hb, hio⟩
  · rintro ⟨hb, hio⟩
    exact ⟨bytes, hb, (), hio, rfl⟩

/-- A write changes the file only, and only if it succeeds. -/
theorem writeContainer_cases :
    (∃ x, writeContainer C e v = (.error x, v) ∧ ∀ b, writeAtomic C e v.state.container ≠ .ok b) ∨
    (∃ bytes, writeAtomic C e v.state.container = .ok bytes ∧
      writeContainer C e v = (.ok (), { v with disk := some bytes })) := by
  unfold writeContainer
  cases h : writeAtomic C e v.state.container with
  | error x => exact .inl ⟨_, rfl, by simp⟩
  | ok bytes => exact .inr ⟨bytes, rfl, rfl⟩

end

section
variable (C : Crates)

/-- The state an edit leaves in memory: with the compartment's manifest
encrypted again, if that is what follows and it succeeds. -/
def inMemory (e : In) (s : VaultState) : Tail → VaultState
  | .persist c =>
    match s.unlocked.get c with
    | none => s
    | some u =>
      match encryptWithKey C c u.manifest u.masterKey (e.nonce 1) with
      | .error _ => s
      | .ok blob => s.setMasterBlob c blob
  | _ => s

/-- Nothing after the edit fails. -/
def GoesThrough (e : In) (s : VaultState) : Tail → Prop
  | .skip => True
  | .fail _ => False
  | .persist c => ∃ u blob bytes, s.unlocked.get c = some u ∧
      encryptWithKey C c u.manifest u.masterKey (e.nonce 1) = .ok blob ∧
      writeAtomic C e (s.setMasterBlob c blob).container = .ok bytes
  | .write => ∃ bytes, writeAtomic C e s.container = .ok bytes

/-- The file after an edit that went through. -/
def written (e : In) (v : Vault) (s : VaultState) : Tail → Option Bytes
  | .skip | .fail _ => v.disk
  | t => (writeAtomic C e (inMemory C e s t).container).toOption

end

/-- Encrypting again replaces one master blob and nothing else. -/
theorem inMemory_frame (C : Crates) (e : In) (s : VaultState) (t : Tail) :
    (inMemory C e s t).unlocked = s.unlocked ∧
      (inMemory C e s t).container.header = s.container.header ∧
      (inMemory C e s t).container.keyBlobs = s.container.keyBlobs := by
  cases t with
  | persist c =>
    simp only [inMemory]
    split
    · exact ⟨rfl, rfl, rfl⟩
    · split
      · exact ⟨rfl, rfl, rfl⟩
      · exact ⟨rfl, rfl, rfl⟩
  | _ => exact ⟨rfl, rfl, rfl⟩

/-- An edit that goes through: the file is as it was, or it holds the memory. -/
theorem written_cases {C : Crates} {e : In} {v : Vault} {s : VaultState} {t : Tail}
    (hg : GoesThrough C e s t) : (t = .skip ∧ written C e v s t = v.disk) ∨
    ∃ bytes, writeAtomic C e (inMemory C e s t).container = .ok bytes ∧
    written C e v s t = some bytes := by
  cases t with
  | skip => exact .inl ⟨rfl, rfl⟩
  | fail x => exact absurd hg id
  | persist c =>
    obtain ⟨u, blob, bytes, hu, hb, hw⟩ := hg
    refine .inr ⟨bytes, ?_, ?_⟩
    · simp only [inMemory, hu, hb]
      exact hw
    · simp only [written, inMemory, hu, hb, hw, Except.toOption]
  | write =>
    obtain ⟨bytes, hw⟩ := hg
    exact .inr ⟨bytes, hw, by simp only [written, inMemory, hw, Except.toOption]⟩

theorem inMemory_masterBlobs {C : Crates} {e : In} {s : VaultState} {c c' : Uuid} {b : Bytes}
    (h : (inMemory C e s (.persist c)).container.masterBlobs.get c' = some b) :
    c' = c ∨ s.container.masterBlobs.get c' = some b := by
  simp only [inMemory] at h
  split at h
  · exact .inr h
  · split at h
    · exact .inr h
    · simp only [VaultState.setMasterBlob, HashMap.get_put] at h
      split at h
      · exact .inl ‹_›
      · exact .inr h

theorem unlockedCompartment_ok {s : VaultState} {c : Uuid} {u : UnlockedCompartment} :
    unlockedCompartment s c = .ok u ↔ s.unlocked.get c = some u := by
  unfold unlockedCompartment
  cases s.unlocked.get c <;> simp

theorem unlockedCompartment_error {s : VaultState} {c : Uuid} {x : FacadeError}
    (h : unlockedCompartment s c = .error x) : s.unlocked.get c = none := by
  unfold unlockedCompartment at h
  cases hg : s.unlocked.get c with
  | none => rfl
  | some u => rw [hg] at h; cases h

section
variable {C : Crates} (e : In) (v : Vault)

/-- **What follows an edit** either goes through, and the file holds the
state in memory, or fails, and leaves the edited state and the old file. -/
theorem finish_cases (t : Tail) :
    (GoesThrough C e v.state t ∧ (finish C e v t).1 = .ok () ∧
      (finish C e v t).2 = { v.setState (inMemory C e v.state t) with
        disk := written C e v v.state t }) ∨
    (¬ GoesThrough C e v.state t ∧ (∃ x, (finish C e v t).1 = .error x) ∧
      (finish C e v t).2 = v.setState (inMemory C e v.state t)) := by
  cases t with
  | skip => exact .inl ⟨trivial, rfl, rfl⟩
  | fail x => exact .inr ⟨id, ⟨x, rfl⟩, rfl⟩
  | write =>
    rcases writeContainer_cases (C := C) e v with ⟨x, h, hn⟩ | ⟨bytes, hw, h⟩
    · refine .inr ⟨fun ⟨b, hb⟩ => hn b hb, ⟨x, congrArg Prod.fst h⟩, congrArg Prod.snd h⟩
    · refine .inl ⟨⟨bytes, hw⟩, congrArg Prod.fst h, (congrArg Prod.snd h).trans ?_⟩
      simp only [written, inMemory, hw]
      rfl
  | persist c =>
    simp only [finish, persistLocked, GoesThrough, written, inMemory]
    cases hu : unlockedCompartment v.state c with
    | error x =>
      have hg := unlockedCompartment_error hu
      refine .inr ⟨?_, ⟨x, rfl⟩, ?_⟩
      · rintro ⟨u, _, _, h, -⟩
        rw [hg] at h; cases h
      · simp only [hg]; rfl
    | ok u =>
      have hg := unlockedCompartment_ok.1 hu
      simp only [hg, Option.some.injEq]
      cases hb : encryptWithKey C c u.manifest u.masterKey (e.nonce 1) with
      | error x =>
        refine .inr ⟨?_, ⟨_, rfl⟩, rfl⟩
        rintro ⟨u', blob, _, rfl, h, -⟩
        rw [hb] at h; cases h
      | ok blob =>
        simp only
        rcases writeContainer_cases (C := C) e (v.setState (v.state.setMasterBlob c blob)) with
          ⟨x, h, hn⟩ | ⟨bytes, hw, h⟩
        · refine .inr ⟨?_, ⟨x, congrArg Prod.fst h⟩, congrArg Prod.snd h⟩
          rintro ⟨u', blob', bytes, rfl, h1, h2⟩
          rw [hb] at h1
          cases h1
          exact hn _ h2
        · refine .inl ⟨⟨u, blob, bytes, rfl, hb, hw⟩, congrArg Prod.fst h, ?_⟩
          rw [h]
          simp only [Vault.setState_state] at hw
          simp only [hw]
          rfl

theorem mutate_ok {α : Type} {d : FacadeResult (Edit α)} {a : α}
    (h : (mutate C e v d).1 = .ok a) : ∃ d', d = .ok d' ∧ a = d'.reply ∧
      GoesThrough C e d'.state d'.tail ∧
      (mutate C e v d).2.state = inMemory C e d'.state d'.tail ∧
      (mutate C e v d).2.disk = written C e v d'.state d'.tail := by
  cases d with
  | error x => cases h
  | ok d' =>
    rcases finish_cases (C := C) e (v.setState d'.state) d'.tail with ⟨hg, h1, h2⟩ | ⟨-, ⟨x, h1⟩, -⟩
    · simp only [mutate, returning, h1, Except.map, Except.ok.injEq] at h
      refine ⟨d', rfl, h.symm, hg, ?_, ?_⟩
      · simp only [mutate, returning, h2]; rfl
      · simp only [mutate, returning, h2]; cases d'.tail <;> rfl
    · simp only [mutate, returning, h1, Except.map] at h
      cases h

theorem mutate_error {α : Type} {d : FacadeResult (Edit α)} {x : FacadeError}
    (h : (mutate C e v d).1 = .error x) :
    (mutate C e v d).2.disk = v.disk ∧
      ((d = .error x ∧ (mutate C e v d).2.state = v.state) ∨
        ∃ d', d = .ok d' ∧ ¬ GoesThrough C e d'.state d'.tail ∧
          (mutate C e v d).2.state = inMemory C e d'.state d'.tail) := by
  cases d with
  | error y =>
    cases h
    exact ⟨rfl, .inl ⟨rfl, rfl⟩⟩
  | ok d' =>
    rcases finish_cases (C := C) e (v.setState d'.state) d'.tail with ⟨-, h1, -⟩ | ⟨hg, -, h2⟩
    · simp only [mutate, returning, h1, Except.map] at h
      cases h
    · refine ⟨?_, .inr ⟨d', rfl, hg, ?_⟩⟩
      · simp only [mutate, returning, h2]; rfl
      · simp only [mutate, returning, h2]; rfl

/-- Whether it goes through or not, an edit stays in memory. -/
theorem mutate_state {α : Type} (d : Edit α) :
    (mutate C e v (.ok d)).2.state = inMemory C e d.state d.tail := by
  cases hr : (mutate C e v (.ok d)).1 with
  | ok a =>
    obtain ⟨d', hd, -, -, hs, -⟩ := mutate_ok e v hr
    cases hd
    exact hs
  | error x =>
    rcases (mutate_error e v hr).2 with ⟨hd, -⟩ | ⟨d', hd, -, hs⟩
    · cases hd
    · cases hd
      exact hs

/-- An edit that goes through returns its reply. -/
theorem mutate_goesThrough {α : Type} {d : Edit α}
    (h : GoesThrough C e d.state d.tail) : (mutate C e v (.ok d)).1 = .ok d.reply ∧
      (mutate C e v (.ok d)).2.state = inMemory C e d.state d.tail ∧
      (mutate C e v (.ok d)).2.disk = written C e v d.state d.tail := by
  cases hr : (mutate C e v (.ok d)).1 with
  | ok a =>
    obtain ⟨d', hd, rfl, -, h2, h3⟩ := mutate_ok e v hr
    cases hd
    exact ⟨rfl, h2, h3⟩
  | error x =>
    rcases (mutate_error e v hr).2 with ⟨hd, -⟩ | ⟨d', hd, hn, -⟩
    · cases hd
    · cases hd
      exact absurd h hn

/-- Carrying an edit through touches the state and the file only. -/
theorem mutate_frame {α : Type} (d : FacadeResult (Edit α)) : (mutate C e v d).2 =
    { v with state := (mutate C e v d).2.state, disk := (mutate C e v d).2.disk } := by
  cases d with
  | error x => rfl
  | ok d =>
    simp only [mutate, returning]
    rcases finish_cases (C := C) e (v.setState d.state) d.tail with ⟨-, -, h⟩ | ⟨-, -, h⟩
    · rw [h]; rfl
    · rw [h]; rfl

theorem persistLocked_frame (s : VaultState) (c : Uuid) :
    (persistLocked C e (v.setState s) c).2.throttle = v.throttle ∧
    (persistLocked C e (v.setState s) c).2.hist = v.hist ∧
    (persistLocked C e (v.setState s) c).2.retention = v.retention := by
  have hf := mutate_frame (C := C) e v (.ok (⟨s, .persist c, ()⟩ : Edit Unit))
  simp only [mutate, finish, returning] at hf
  rw [hf]
  exact ⟨rfl, rfl, rfl⟩

end

end VaultSigner.L4
