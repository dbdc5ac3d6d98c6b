import VaultSigner.L5Runs.Durable
import VaultSigner.L5Runs.Imports

/-!
# Manifests and key blobs (`copy_incoming_blobs`, `discard_key`)

An entry and its blob live apart: the entry in a manifest, with the digest of
the blob, and the blob in the container under the entry's `key_id` alone. A
locked compartment's manifest is in its master blob.

Results:
* `Stored.persisted`: encrypting a compartment again stores what is unlocked.
* `Imports.stored`: a merge stores the renamed entries and nothing else.
* `Matched.step`: one call; `run_matched`: in which runs every entry has the
  blob its digest names.
-/
namespace VaultSigner.L5
open VaultSigner.Core VaultSigner.L1 VaultSigner.L3 VaultSigner.L4
open VaultSigner.L3.Merge (renamedKeys)

section
variable (C : Crates)

/-- `x` is in the manifest of the compartment `c`, unlocked or locked. -/
inductive Stored (s : VaultState) (c : Uuid) (x : KeyEntry) : Prop
  | unlocked {u : UnlockedCompartment} (hu : s.unlocked.get c = some u) (hx : x ∈ u.manifest.keys)
  | locked {b : Bytes} {key : Key} {p : MasterBlobPlaintext}
      (hb : s.container.masterBlobs.get c = some b) (hp : decryptWithKey C c b key = .ok p)
      (hx : x ∈ p.manifest.keys)

/-- The entry's blob is there and has the entry's digest. -/
def HasBlob (s : VaultState) (x : KeyEntry) : Prop :=
  ∃ b, s.container.keyBlobs.get x.keyId = some b ∧ blobSha256Hex C b = x.blobSha256

/-- ... of every entry, also of locked compartments. -/
def Matched (s : VaultState) : Prop := ∀ c x, Stored C s c x → HasBlob C s x

/-- What the import's list of blobs brings for an id; the last one counts. -/
def Import.supplied (i : Import) (k : Uuid) : Option Bytes :=
  (i.blobs.reverse.find? fun b => landing C i.result.idRemap b = some k).map
    IncomingKeyBlob.blobBytes

/-- Every incoming entry has a blob with its digest, in the list or, failing
that, in the container; and no blob of the list lands on an entry that was
there with another digest. -/
structure Import.Supplies (s : VaultState) (i : Import) : Prop where
  incoming : ∀ x ∈ renamedKeys C i.uuids (localCompartments s) i.incoming,
    ∃ b, (i.supplied C x.keyId).or (s.container.keyBlobs.get x.keyId) = some b ∧
      blobSha256Hex C b = x.blobSha256
  others : ∀ c x, Stored C s c x → ∀ b, i.supplied C x.keyId = some b →
    blobSha256Hex C b = x.blobSha256

/-- The call rewrites or removes the blob of the entry `k` of `c`. -/
inductive Rewrites : Call → Uuid → Uuid → Prop
  | discard {c k : String} (text : String) {cid kid : Uuid} (hc : parseUuid C c = .ok cid)
      (hk : parseUuid C k = .ok kid) : Rewrites (.discardKey c k text) cid kid
  | change {c k : String} (old new : String) {cid kid : Uuid} (hc : parseUuid C c = .ok cid)
      (hk : parseUuid C k = .ok kid) : Rewrites (.changeKeyPassphrase c k old new) cid kid

/-- What keeps entries and blobs together in one call: an accepted merge
supplies its blobs, and a blob that is rewritten or removed belongs to no
other compartment's entry. -/
structure KeepsTogether (t : Turn) : Prop where
  merges : ∀ e ∈ t.inputs, ∀ i, Imports C e t.before.state t.call i → i.Supplies C t.before.state
  shared : ∀ c k, Rewrites C t.call c k → ∀ c' x, Stored C t.before.state c' x →
    x.keyId = k → c' = c

/-- The `key_id` a call may draw is new. -/
def FreshKeyId (t : Turn) : Prop :=
  ∀ e ∈ t.inputs, ∀ c x, Stored C t.before.state c x → x.keyId ≠ e.uuid 1

end

section
variable {C : Crates} {e : In} {s : VaultState} {c c' : Uuid} {x : KeyEntry}

/-! ## What is stored after a write -/

/-- The master blob of a compartment put in place. -/
theorem Stored.locked_put (hC : C.CodecLaws) (ha : C.AeadLaws) (hk : C.AeadCommits) {m : Manifest}
    {key : Key} {nonce : Except String Nonce} {b b' : Bytes} {key' : Key} {p : MasterBlobPlaintext}
    (hb : encryptWithKey C c m key nonce = .ok b)
    (hg : (s.container.masterBlobs.put c b).get c' = some b')
    (hp : decryptWithKey C c' b' key' = .ok p) (hx : x ∈ p.manifest.keys) :
    c' = c ∧ x ∈ m.keys ∨ c' ≠ c ∧ Stored C s c' x := by
  by_cases hcc : c' = c
  · subst hcc
    rw [HashMap.get_put_self] at hg
    cases hg
    rw [decryptWithKey_unique hk (decryptWithKey_encryptWithKey hC ha hb) hp] at hx
    exact .inl ⟨rfl, hx⟩
  · rw [HashMap.get_put_ne _ _ hcc] at hg
    exact .inr ⟨hcc, .locked hg hp hx⟩

theorem Stored.persisted (hC : C.CodecLaws) (ha : C.AeadLaws) (hk : C.AeadCommits)
    (hg : GoesThrough C e s (.persist c)) (h : Stored C (inMemory C e s (.persist c)) c' x) :
    (c' = c ∧ ∃ u, s.unlocked.get c = some u ∧ u.manifest.Valid ∧ x ∈ u.manifest.keys) ∨
      c' ≠ c ∧ Stored C s c' x := by
  obtain ⟨u, blob, bytes, hu, hb, -⟩ := hg
  have hvalid := encryptWithKey_valid hb
  have hmem : inMemory C e s (.persist c) = s.setMasterBlob c blob := by simp [inMemory, hu, hb]
  rw [hmem] at h
  cases h with
  | unlocked hu' hx =>
    by_cases hcc : c' = c
    · subst hcc
      rw [show (s.setMasterBlob c' blob).unlocked = s.unlocked from rfl, hu] at hu'
      cases hu'
      exact .inl ⟨rfl, u, hu, hvalid, hx⟩
    · exact .inr ⟨hcc, .unlocked hu' hx⟩
  | locked hb' hp hx =>
    rcases Stored.locked_put hC ha hk hb hb' hp hx with ⟨hcc, hx⟩ | ⟨hcc, h⟩
    · exact .inl ⟨hcc, u, hu, hvalid, hx⟩
    · exact .inr ⟨hcc, h⟩

theorem HasBlob.congr {s' : VaultState} (h : s'.container.keyBlobs = s.container.keyBlobs) :
    HasBlob C s' x ↔ HasBlob C s x := by
  unfold HasBlob
  rw [h]

theorem hasBlob_setKeyBlob {k : Uuid} {b : Bytes} (hx : x.keyId ≠ k) :
    HasBlob C (s.setKeyBlob k b) x ↔ HasBlob C s x := by
  simp only [HasBlob, VaultState.setKeyBlob, HashMap.get_put_ne _ _ hx]

theorem hasBlob_removeKeyBlob {k : Uuid} (hx : x.keyId ≠ k) :
    HasBlob C (s.removeKeyBlob k) x ↔ HasBlob C s x := by
  simp only [HasBlob, VaultState.removeKeyBlob, HashMap.get_del_ne _ hx]

/-- An edit of one compartment, encrypted again: its own entries have their
blobs, and the others keep theirs. -/
theorem Matched.persist (hC : C.CodecLaws) (ha : C.AeadLaws) (hk : C.AeadCommits) {s' : VaultState}
    (ht : TouchesOnly c s s') (hg : GoesThrough C e s' (.persist c))
    (hown : ∀ u, s'.unlocked.get c = some u → u.manifest.Valid →
      ∀ x ∈ u.manifest.keys, HasBlob C s' x)
    (hother : ∀ c' x, c' ≠ c → Stored C s c' x → HasBlob C s' x) :
    Matched C (inMemory C e s' (.persist c)) := by
  intro c' x hx
  rw [HasBlob.congr (inMemory_frame C e s' (.persist c)).2.2]
  rcases hx.persisted hC ha hk hg with ⟨-, u, hu, hv, hx⟩ | ⟨hcc, hx⟩
  · exact hown u hu hv x hx
  · refine hother c' x hcc ?_
    cases hx with
    | unlocked hu hx => exact .unlocked (ht.unlocked c' hcc ▸ hu) hx
    | locked hb hp hx => exact .locked (ht.masterBlobs ▸ hb) hp hx

/-! ## The edits -/

/-- A new entry with its blob. -/
theorem Matched.store (hC : C.CodecLaws) (ha : C.AeadLaws) (hk : C.AeadCommits) {k : KeyEntry}
    {b : Bytes} {α : Type} {reply : α} {d : Edit α} (hd : storeEdit C s c k b reply = .ok d)
    (hg : GoesThrough C e d.state d.tail) (hb : k.blobSha256 = blobSha256Hex C b)
    (hf : ∀ c x, Stored C s c x → x.keyId ≠ k.keyId) (h : Matched C s) :
    Matched C (inMemory C e d.state d.tail) := by
  rcases storeEdit_touches hd with ⟨x, hx⟩ | ⟨ht, htouch⟩
  · rw [hx] at hg
    exact absurd hg id
  · rw [ht] at hg ⊢
    unfold storeEdit at hd
    cases hu : unlockedCompartment s c with
    | error x => rw [hu] at hd; cases hd
    | ok u =>
      rw [hu] at hd
      have hgu := unlockedCompartment_ok.1 hu
      cases hv : (u.push k).manifest.validate C with
      | error x =>
        simp only [hv, Except.ok.injEq] at hd
        subst hd
        cases ht
      | ok _ =>
        simp only [hv, Except.ok.injEq] at hd
        subst hd
        refine Matched.persist hC ha hk htouch hg (fun u' hu' _ x hx => ?_) fun c' x _ hx => ?_
        · simp only [VaultState.setKeyBlob, VaultState.setUnlocked, HashMap.get_put_self,
            Option.some.injEq] at hu'
          subst hu'
          rcases List.mem_append.1 hx with hx | hx
          · have hold : Stored C s c x := .unlocked hgu hx
            exact (hasBlob_setKeyBlob (hf c x hold)).2 (h c x hold)
          · rw [List.mem_singleton.1 hx]
            exact ⟨b, HashMap.get_put_self _ _ _, hb.symm⟩
        · exact (hasBlob_setKeyBlob (hf c' x hx)).2 (h c' x hx)

theorem Matched.discard (hC : C.CodecLaws) (ha : C.AeadLaws) (hk : C.AeadCommits) {k : Uuid}
    {text : String} {d : Edit Unit} (hd : discardEdit c k text s = .ok d)
    (hg : GoesThrough C e d.state d.tail) (hs : ∀ c' x, Stored C s c' x → x.keyId = k → c' = c)
    (h : Matched C s) : Matched C (inMemory C e d.state d.tail) := by
  unfold discardEdit at hd
  cases hp : prepareDiscardKey s c k text with
  | error x => rw [hp] at hd; cases hd
  | ok u =>
    rw [hp] at hd
    cases hd
    have hu : s.unlocked.get c = some u := by
      unfold prepareDiscardKey at hp
      split at hp
      · cases hp
      · rename_i u' hu'
        split at hp
        · cases hp
        · split at hp
          · cases hp
          · cases hp
            exact unlockedCompartment_ok.1 hu'
    have htouch : TouchesOnly c s ((s.setUnlocked c (u.remove k)).removeKeyBlob k) :=
      ⟨rfl, rfl, fun c' hc => HashMap.get_put_ne _ _ hc⟩
    refine Matched.persist hC ha hk htouch hg (fun u' hu' _ x hx => ?_) fun c' x hc hx => ?_
    · simp only [VaultState.removeKeyBlob, VaultState.setUnlocked, HashMap.get_put_self,
        Option.some.injEq] at hu'
      subst hu'
      obtain ⟨hx, hne⟩ := List.mem_filter.1 hx
      exact (hasBlob_removeKeyBlob (by simpa using hne)).2 (h c x (.unlocked hu hx))
    · exact (hasBlob_removeKeyBlob fun he => hc (hs c' x hx he)).2 (h c' x hx)

theorem Matched.reseal (hC : C.CodecLaws) (ha : C.AeadLaws) (hk : C.AeadCommits) {k : Uuid}
    {ty : KeyType} {label pw : String} {sk : Bytes} {d : Edit Unit}
    (hd : resealEdit C c k ty label sk pw e s = .ok d) (hg : GoesThrough C e d.state d.tail)
    (hs : ∀ c' x, Stored C s c' x → x.keyId = k → c' = c) (h : Matched C s) :
    Matched C (inMemory C e d.state d.tail) := by
  unfold resealEdit at hd
  cases hb : sealKey C e pw sk k ty label with
  | error x => rw [hb] at hd; cases hd
  | ok b =>
    rw [hb] at hd
    cases hu : unlockedCompartment s c with
    | error x => rw [hu] at hd; cases hd
    | ok u =>
      rw [hu] at hd
      cases hd
      have hgu := unlockedCompartment_ok.1 hu
      have htouch : TouchesOnly c s ((s.setUnlocked c
          (u.setDigest k (blobSha256Hex C b))).setKeyBlob k b) :=
        ⟨rfl, rfl, fun c' hc => HashMap.get_put_ne _ _ hc⟩
      refine Matched.persist hC ha hk htouch hg (fun u' hu' hv x hx => ?_) fun c' x hc hx => ?_
      · simp only [VaultState.setKeyBlob, VaultState.setUnlocked, HashMap.get_put_self,
          Option.some.injEq] at hu'
        subst hu'
        by_cases hxk : x.keyId = k
        · -- ids are distinct, so this is the entry that got the new digest
          have hfind : ∃ y, u.manifest.keys.find? (fun y => y.keyId = k) = some y := by
            refine Option.isSome_iff_exists.1 (List.find?_isSome.2 ?_)
            rcases mem_modifyFirst hx with hx | ⟨y, hy, hp, -⟩
            · exact ⟨x, hx, by simpa using hxk⟩
            · exact ⟨y, hy, hp⟩
          obtain ⟨y, hy⟩ := hfind
          have hyk : y.keyId = k := by simpa using List.find?_some hy
          have hmem := mem_of_find?_modifyFirst
            (fun y : KeyEntry => { y with blobSha256 := blobSha256Hex C b }) hy
          rw [List.inj_on_of_nodup_map hv.nodup hx hmem (hxk.trans hyk.symm)]
          exact ⟨b, by rw [← hyk]; exact HashMap.get_put_self _ _ _, rfl⟩
        · rcases mem_modifyFirst hx with hx | ⟨y, hy, hp, rfl⟩
          · exact (hasBlob_setKeyBlob hxk).2 (h c x (.unlocked hgu hx))
          · exact absurd (by simpa using hp) hxk
      · exact (hasBlob_setKeyBlob fun he => hc (hs c' x hx he)).2 (h c' x hx)

theorem Matched.commit (hC : C.CodecLaws) (ha : C.AeadLaws) (hk : C.AeadCommits)
    {o : GetAssertionOutcome} {d : Edit GetAssertionOutcome} (hd : commitEdit o e s = .ok d)
    (hg : GoesThrough C e d.state d.tail) (h : Matched C s) :
    Matched C (inMemory C e d.state d.tail) := by
  unfold commitEdit at hd
  split at hd
  · cases hd
    exact h
  · rename_i c _
    cases hu : unlockedCompartment s c with
    | error x => rw [hu] at hd; cases hd
    | ok u =>
      rw [hu] at hd
      cases hd
      have htouch : TouchesOnly c s (s.setUnlocked c (u.asserted o.keyId o.newSignCount e.utc)) :=
        ⟨rfl, rfl, fun c' hc => HashMap.get_put_ne _ _ hc⟩
      refine Matched.persist hC ha hk htouch hg (fun u' hu' _ x hx => ?_) fun c' x _ hx => h c' x hx
      simp only [VaultState.setUnlocked, HashMap.get_put_self, Option.some.injEq] at hu'
      subst hu'
      rcases mem_modifyFirst hx with hx | ⟨y, hy, -, rfl⟩
      · exact h c x (.unlocked (unlockedCompartment_ok.1 hu) hx)
      · exact h c y (.unlocked (unlockedCompartment_ok.1 hu) hy)

/-- A compartment put in place, unlocked and as its blob. -/
theorem Stored.of_put (hC : C.CodecLaws) (ha : C.AeadLaws) (hk : C.AeadCommits) {s' : VaultState}
    {u : UnlockedCompartment} {nonce : Except String Nonce} {b : Bytes}
    (hb : encryptWithKey C c u.manifest u.masterKey nonce = .ok b)
    (hm : s'.container.masterBlobs = s.container.masterBlobs.put c b)
    (hu : s'.unlocked = s.unlocked.put c u) (h : Stored C s' c' x) :
    (c' = c ∧ x ∈ u.manifest.keys) ∨ Stored C s c' x := by
  cases h with
  | unlocked hu' hx =>
    rw [hu, HashMap.get_put] at hu'
    split at hu'
    · cases hu'
      exact .inl ⟨by assumption, hx⟩
    · exact .inr (.unlocked hu' hx)
  | locked hb' hp hx =>
    rw [hm] at hb'
    rcases Stored.locked_put hC ha hk hb hb' hp hx with h | ⟨-, h⟩
    · exact .inl h
    · exact .inr h

/-- What a compartment holds after a merge it stored before, or it is the
merge's target and got a renamed entry. -/
theorem Imports.updated {call : Call} {i : Import} (hi : Imports C e s call i)
    {y : Merge.VaultCompartment} (hy : y ∈ i.result.updatedCompartments)
    (hx : x ∈ y.manifest.keys) :
    Stored C s y.id x ∨ y.id = i.target ∧
    x ∈ renamedKeys C i.uuids (localCompartments s) i.incoming := by
  have hlocal : ∀ z ∈ localCompartments s, x ∈ z.manifest.keys → Stored C s z.id x := by
    intro z hz hx
    obtain ⟨u, hu, hm⟩ := mem_localCompartments hz
    exact .unlocked hu (hm ▸ hx)
  have hextended : ∀ pre c post added, localCompartments s = pre ++ c :: post →
      y ∈ pre ++ Merge.extended c added :: post → Stored C s y.id x ∨ y.id = c.id ∧ x ∈ added := by
    intro pre c post added hl hy
    rcases List.mem_append.1 hy with hy | hy
    · exact .inl (hlocal y (by rw [hl]; simp [hy]) hx)
    · rcases List.mem_cons.1 hy with rfl | hy
      · rcases List.mem_append.1 hx with hx | hx
        · exact .inl (hlocal c (by rw [hl]; simp) hx)
        · exact .inr ⟨rfl, hx⟩
      · exact .inl (hlocal y (by rw [hl]; simp [hy]) hx)
  have hplaces := Merge.run_places hi.valid hi.run
  unfold Import.target
  cases ho : i.option with
  | reencrypt t =>
    rw [ho] at hplaces
    obtain ⟨pre, c, post, hl, rfl, hu⟩ := hplaces
    exact hextended pre c post _ hl (hu ▸ hy)
  | replace t phrase =>
    rw [ho] at hplaces
    obtain ⟨pre, c, post, hl, rfl, hu⟩ := hplaces
    exact hextended pre c post _ hl (hu ▸ hy)
  | sideBySide n label =>
    rw [ho] at hplaces
    have hu : i.result.updatedCompartments = localCompartments s ++
        [⟨n, label,
          { i.incoming with keys := renamedKeys C i.uuids (localCompartments s) i.incoming }⟩] :=
      hplaces
    rw [hu] at hy
    rcases List.mem_append.1 hy with hy | hy
    · exact .inl (hlocal y hy hx)
    · rw [List.mem_singleton.1 hy] at hx ⊢
      exact .inr ⟨rfl, hx⟩

/-- **What a merge stores.** -/
theorem Imports.stored (hC : C.CodecLaws) (ha : C.AeadLaws) (hk : C.AeadCommits) {call : Call}
    {i : Import} (hi : Imports C e s call i) (h : Stored C i.state c x) :
    Stored C s c x ∨ c = i.target ∧ x ∈ renamedKeys C i.uuids (localCompartments s) i.incoming := by
  have hupdated : ∀ y, y ∈ i.result.updatedCompartments → y.id = c → x ∈ y.manifest.keys → _ :=
    fun y hy hc hx => hc ▸ hi.updated (x := x) (y := y) hy hx
  cases hi with
  | reencrypt blobs ht hm hp =>
    cases h with
    | unlocked hu hx =>
      rcases get_updateManifests_cases hu with ⟨w, hw, -, hm | ⟨y, hy, hid, hym⟩⟩
      · exact .inl (.unlocked hw (hm ▸ hx))
      · exact hupdated y hy hid (hym ▸ hx)
    | locked hb hp hx => exact .inl (.locked hb hp hx)
  | sideBySide blobs hm hp =>
    obtain ⟨-, -, -, hman, henc⟩ := prepareMerge2_ok hp
    obtain ⟨y, hy, hid, hym⟩ := mergedManifest_mem hman
    have hput : _ ∨ Stored C s c x := h.of_put hC ha hk henc rfl rfl
    rcases hput with ⟨rfl, hx⟩ | h
    · exact hupdated y hy hid (hym ▸ hx)
    · exact .inl h
  | replace blobs hm hp =>
    obtain ⟨-, -, -, -, hman, henc⟩ := prepareMerge3_ok hp
    obtain ⟨y, hy, hid, hym⟩ := mergedManifest_mem hman
    have hput : _ ∨ Stored C s c x := h.of_put hC ha hk henc rfl rfl
    rcases hput with ⟨rfl, hx⟩ | h
    · exact hupdated y hy hid (hym ▸ hx)
    · exact .inl h

theorem Import.get_keyBlobs {call : Call} {i : Import} (hi : Imports C e s call i) (k : Uuid) :
    i.state.container.keyBlobs.get k = (i.supplied C k).or (s.container.keyBlobs.get k) := by
  rw [hi.keyBlobs, get_copyIncomingBlobs, Import.supplied]
  cases i.blobs.reverse.find? fun b => landing C i.result.idRemap b = some k <;> rfl

theorem Matched.merge (hC : C.CodecLaws) (ha : C.AeadLaws) (hk : C.AeadCommits) {call : Call}
    {i : Import} (hi : Imports C e s call i) (hsup : i.Supplies C s) (h : Matched C s) :
    Matched C i.state := by
  intro c x hx
  unfold HasBlob
  rw [Import.get_keyBlobs hi]
  rcases hi.stored hC ha hk hx with hx | ⟨-, hx⟩
  · obtain ⟨b, hb, hd⟩ := h c x hx
    cases hs : i.supplied C x.keyId with
    | none => exact ⟨b, hb, hd⟩
    | some b' => exact ⟨b', rfl, hsup.others c x hx b' hs⟩
  · exact hsup.incoming x hx

theorem Matched.addCompartment (hC : C.CodecLaws) (ha : C.AeadLaws) (hk : C.AeadCommits)
    {label pw : String} {profile : DeviceProfile} {d : Edit CompartmentInfo}
    (hd : addCompartmentEdit C label pw profile e s = .ok d) (h : Matched C s) :
    Matched C (inMemory C e d.state d.tail) := by
  unfold addCompartmentEdit at hd
  cases hp : prepareAddCompartment C e pw profile with
  | error x => rw [hp] at hd; cases hd
  | ok p =>
    rw [hp] at hd
    cases hd
    unfold prepareAddCompartment at hp
    simp only [bind_ok, facade_ok, pure, Except.pure, Except.ok.injEq] at hp
    obtain ⟨kdf, -, key, -, blob, hb, rfl⟩ := hp
    intro c x hx
    have hput : _ ∨ Stored C s c x := Stored.of_put hC ha hk hb rfl rfl hx
    rcases hput with ⟨-, hx⟩ | hx
    · cases hx
    · exact h c x hx

/-! ## One call -/

theorem prepareCreateKey_entry {a : CreateKeyArgs} {k : KeyEntry} {b : Bytes}
    (h : prepareCreateKey C e a = .ok (c, k, b)) :
    k.keyId = e.uuid 1 ∧ k.blobSha256 = blobSha256Hex C b := by
  unfold prepareCreateKey at h
  simp only [bind_ok, facade_ok, pure, Except.pure, Except.ok.injEq] at h
  obtain ⟨c', -, fido2, -, generated, -, blob, -, h⟩ := h
  cases h
  exact ⟨rfl, rfl⟩

theorem prepareMakeCredential_entry {a : MakeCredentialArgs} {o : MakeCredentialOutcome}
    {k : KeyEntry} {b : Bytes} (h : prepareMakeCredential C e a o = .ok (k, b)) :
    k.keyId = e.uuid 1 ∧ k.blobSha256 = blobSha256Hex C b := by
  unfold prepareMakeCredential at h
  simp only [bind_ok, pure, Except.pure, Except.ok.injEq] at h
  obtain ⟨blob, -, h⟩ := h
  cases h
  exact ⟨rfl, rfl⟩

/-- Every edit that goes through keeps entries and blobs together. -/
theorem Matched.edit (hC : C.CodecLaws) (ha : C.AeadLaws) (hk : C.AeadCommits)
    {A : Vault → In → Prop} {t : Turn} {q : FacadeResult (Edit Reply)} {d : Edit Reply}
    (he : t.call.Edits C A t.before t.inputs e q) (hq : q = .ok d)
    (hg : GoesThrough C e d.state d.tail) (hkeep : KeepsTogether C t) (hfresh : FreshKeyId C t)
    (h : Matched C t.before.state) : Matched C (inMemory C e d.state d.tail) := by
  have hf := hfresh e he.mem
  have hmerge : IsMerge t.call → Matched C (inMemory C e d.state d.tail) := by
    intro hm
    obtain ⟨ht, i, hi, hs⟩ := merge_edits hm (hq ▸ he)
    rw [ht, hs]
    exact h.merge hC ha hk hi (hkeep.merges e he.mem i hi)
  obtain ⟨v, call, es, r, v'⟩ := t
  simp only at he hf hmerge h
  cases he with
  | addCompartment label passphrase profile e =>
    obtain ⟨d', hd, rfl⟩ := map_edit_ok hq
    exact h.addCompartment hC ha hk hd
  | createKey a e =>
    obtain ⟨d', hd, rfl⟩ := map_edit_ok hq
    unfold createKeyEdit at hd
    split at hd
    · cases hd
    · rename_i hp
      obtain ⟨hid, hb⟩ := prepareCreateKey_entry hp
      exact Matched.store (d := d') hC ha hk hd hg hb (fun c x hx => hid ▸ hf c x hx) h
  | discardKey text e es hc hk' =>
    obtain ⟨d', hd, rfl⟩ := map_edit_ok hq
    exact h.discard hC ha hk hd hg (hkeep.shared _ _ (.discard text hc hk'))
  | changeKeyPassphrase old new e₀ e hc hk' =>
    obtain ⟨d', hd, rfl⟩ := map_edit_ok hq
    unfold changePassphraseEdit at hd
    split at hd
    · cases hd
    · split at hd
      · cases hd
      · split at hd
        · cases hd
        · exact h.reseal hC ha hk hd hg (hkeep.shared _ _ (.change old new hc hk'))
  | makeCredential a e hc hr hx =>
    obtain ⟨d', hd, rfl⟩ := map_edit_ok hq
    unfold makeCredentialEdit at hd
    split at hd
    · cases hd
    · rename_i hp
      obtain ⟨hid, hb⟩ := prepareMakeCredential_entry hp
      exact Matched.store (d := d') hC ha hk hd hg hb (fun c x hx => hid ▸ hf c x hx) h
  | getAssertion e hr hx =>
    obtain ⟨d', hd, rfl⟩ := map_edit_ok hq
    exact h.commit hC ha hk hd hg
  | merge1 target json blobs e => exact hmerge trivial
  | merge2 json blobs label passphrase profile e => exact hmerge trivial
  | merge3 target json blobs passphrase kdfJson phrase e => exact hmerge trivial

/-- **One call** that returns `Ok`. -/
theorem Matched.step (hC : C.CodecLaws) (ha : C.AeadLaws) (hk : C.AeadCommits)
    {A : Vault → In → Prop} {t : Turn}
    (hx : Prog.Exec A (t.call.run C) t.before t.inputs t.result t.after)
    (hok : ∃ a, t.result = .ok a) (hkeep : KeepsTogether C t) (hfresh : FreshKeyId C t)
    (h : Matched C t.before.state) : Matched C t.after.state := by
  cases t.call.effect hx with
  | quiet hq => rw [hq.state]; exact h
  | unlocked c b key p hh hb hp hs hd =>
    rw [hs]
    intro c' x hx
    refine h c' x ?_
    cases hx with
    | unlocked hu hx =>
      simp only [VaultState.setUnlocked, HashMap.get_put] at hu
      split at hu
      · rename_i hc
        cases hu
        subst hc
        exact .locked hb hp hx
      · exact .unlocked hu hx
    | locked hb' hp' hx => exact .locked hb' hp' hx
  | locked hc hu hd =>
    intro c x hx
    refine (HasBlob.congr (congrArg Container.keyBlobs hc)).2 (h c x ?_)
    cases hx with
    | unlocked hu' hx => exact .unlocked (hu c _ hu') hx
    | locked hb hp hx => exact .locked (hc ▸ hb) hp hx
  | edited e q he hag =>
    obtain ⟨a, hok⟩ := hok
    have hres : (mutate C e t.before q).1 = .ok a := hag.result.symm.trans hok
    obtain ⟨d, hd, -, hg, hs, -⟩ := mutate_ok e t.before hres
    rw [hag.state.trans hs]
    exact Matched.edit hC ha hk he hd hg hkeep hfresh h

end

/-! ## Runs -/

/-- A new vault stores nothing. -/
theorem created_stored {C : Crates} (hC : C.CodecLaws) (ha : C.AeadLaws) (hk : C.AeadCommits)
    {v : Vault} (h : Created C v) (c : Uuid) (x : KeyEntry) : ¬ Stored C v.state c x := by
  obtain ⟨e, disk, label, pw, profile, h⟩ := h
  obtain ⟨kdf, key, blob, bytes, -, -, hb, hs, -, -⟩ := create_ok h
  rw [hs]
  intro hx
  have hput : _ ∨ Stored C (⟨Container.new, ∅⟩ : VaultState) c x :=
    Stored.of_put hC ha hk hb rfl rfl hx
  rcases hput with ⟨-, hx⟩ | hx
  · cases hx
  · cases hx with
    | unlocked hu hx => simp at hu
    | locked hb hp hx => simp [Container.new] at hb

/-- **Entries and blobs stay together**: in a run of successful calls in which
accepted merges supply their blobs, and discards and passphrase changes hit no
other compartment's entry of that id, every entry of every unlocked manifest
has a blob, with the digest that the entry names. -/
theorem run_matched (C : Crates) (hC : C.CodecLaws) (ha : C.AeadLaws) (hk : C.AeadCommits)
    {A : Vault → In → Prop} {v₀ v : Vault} {l : List Turn} (h₀ : Created C v₀) (hr : Run C A v₀ l v)
    (hok : ∀ t ∈ l, ∃ a, t.result = .ok a) (hfresh : ∀ t ∈ l, FreshKeyId C t)
    (hkeep : ∀ t ∈ l, KeepsTogether C t) {c : Uuid} {u : UnlockedCompartment}
    (hu : v.state.unlocked.get c = some u) : ∀ x ∈ u.manifest.keys,
      ∃ b, v.state.container.keyBlobs.get x.keyId = some b ∧ blobSha256Hex C b = x.blobSha256 := by
  have hm : Matched C v.state := by
    clear hu
    induction hr with
    | nil => exact fun c x hx => absurd hx (created_stored hC ha hk h₀ c x)
    | @cons l v v' call es r hr hx ih =>
      have hbefore := ih (fun t ht => hok t (List.mem_cons_of_mem _ ht))
        (fun t ht => hfresh t (List.mem_cons_of_mem _ ht)) fun t ht =>
          hkeep t (List.mem_cons_of_mem _ ht)
      exact Matched.step hC ha hk (t := ⟨v, call, es, r, v'⟩) hx (hok _ List.mem_cons_self)
        (hkeep _ List.mem_cons_self) (hfresh _ List.mem_cons_self) hbefore
  exact fun x hx => hm c x (.unlocked hu hx)

/-- An import of one key with its blob. -/
theorem run_matched_sample :
    ∃ (v : Vault) (c : Uuid) (u : UnlockedCompartment) (x : KeyEntry) (b : Bytes),
    v.state.unlocked.get c = some u ∧ x ∈ u.manifest.keys ∧
      v.state.container.keyBlobs.get x.keyId = some b ∧ blobSha256Hex Crates.symbolic b =
      x.blobSha256 := by
  obtain ⟨a, v, hx, hs, -⟩ := sampleVault_import sampleImport_valid [⟨hyphenated (Uuid.rep 1), []⟩]
  obtain ⟨key, hu⟩ := hs.unlocked
  have hnone :=
    fun c x => created_stored Crates.symbolic_codec Crates.symbolic_aead Crates.symbolic_commits
    sampleVault_created c x
  have hkeep : KeepsTogether Crates.symbolic ⟨sampleVault, .mergeReencryptDiscardIncoming
      (hyphenated (Uuid.rep 10)) (jsonText sampleImport) [⟨hyphenated (Uuid.rep 1), []⟩],
        [sampleNext],
      .ok a, v⟩ := by
    refine ⟨fun e _ i hi => ⟨fun x hx => ?_, fun c x hst => absurd hst (hnone c x)⟩,
      fun c k hr => ?_⟩
    · have hremap := (Merge.run_ok hi.valid hi.run).2
      cases hi with
      | reencrypt blobs ht hm hp =>
        rw [fromJson_jsonText sampleImport_valid] at hm
        cases hm
        simp only [sampleVault_state.localCompartments] at hx hremap
        rw [show renamedKeys Crates.symbolic e.uuid (sampleLocal []) sampleImport = _ from
          sampleRenamed_nil e.uuid sampleImport] at hx
        simp only [sampleImport, Manifest.sample, List.mem_singleton] at hx
        subst hx
        have hun : ¬ Merge.KeyIdFlagged (sampleLocal [])
            (KeyEntry.sample (Uuid.rep 1) "imported" none) := by decide
        have hempty : Merge.remapKeys e.uuid (sampleLocal []) sampleImport = ∅ := by
          simp [Merge.remapKeys, Merge.remapOf, sampleImport, Manifest.sample, hun]
        rw [hempty] at hremap
        have hland : landing Crates.symbolic ∅ ⟨hyphenated (Uuid.rep 1), []⟩ =
            some (Uuid.rep 1) := by
          simp [landing, Crates.symbolic, parseHyphenated_hyphenated, Except.toOption]
        refine ⟨[], ?_, ?_⟩
        · have hid : (KeyEntry.sample (Uuid.rep 1) "imported" none).keyId = Uuid.rep 1 := rfl
          rw [hid]
          simp [Import.supplied, hremap, hland]
        · decide
    · cases hr
  have hrun := run_matched Crates.symbolic Crates.symbolic_codec Crates.symbolic_aead
    Crates.symbolic_commits sampleVault_created (.cons .nil hx)
    (fun t ht => ⟨a, by rw [List.mem_singleton.1 ht]⟩)
    (fun t ht e _ c x hst => by
      rw [List.mem_singleton.1 ht] at hst
      exact absurd hst (hnone c x))
    (fun t ht => List.mem_singleton.1 ht ▸ hkeep)
    (c := Uuid.rep 10) (u := ⟨sampleManifest sampleImport.keys, key⟩)
    (by rw [hu, HashMap.get_put_self])
  have hmem : KeyEntry.sample (Uuid.rep 1) "imported" none ∈ sampleImport.keys := List.mem_cons_self
  obtain ⟨b, hb, hd⟩ := hrun _ hmem
  exact ⟨v, _, _, _, b, by rw [hu, HashMap.get_put_self], hmem, hb, hd⟩

/-- **An entry without a blob**: the import of one key with an empty list. -/
theorem import_without_blob : ∃ (v₀ : Vault) (l : List Turn) (v : Vault) (c : Uuid)
    (u : UnlockedCompartment) (x : KeyEntry), Created Crates.symbolic v₀ ∧
    Run Crates.symbolic Vault.Admits v₀ l v ∧ (∀ t ∈ l, ∃ a, t.result = .ok a) ∧
    v.state.unlocked.get c = some u ∧ x ∈ u.manifest.keys ∧
    v.state.container.keyBlobs.get x.keyId = none := by
  obtain ⟨a, v, hx, hs, -⟩ := sampleVault_import sampleImport_valid []
  obtain ⟨key, hu⟩ := hs.unlocked
  refine ⟨sampleVault, _, v, Uuid.rep 10, _, KeyEntry.sample (Uuid.rep 1) "imported" none,
    sampleVault_created, .cons .nil hx,
      ?_, by rw [hu, HashMap.get_put_self], List.mem_cons_self, ?_⟩
  · intro t ht
    exact ⟨a, by rw [List.mem_singleton.1 ht]⟩
  · rw [hs.keyBlobs]
    exact HashMap.get_empty _

end VaultSigner.L5
