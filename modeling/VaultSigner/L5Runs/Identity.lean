import VaultSigner.L4Vault.Regions
import VaultSigner.L5Runs.Blobs
import VaultSigner.L5Runs.Imports
import VaultSigner.L5Runs.Registered
import VaultSigner.L5Runs.Resealed

/-!
# A key stays the key it was (`vault.rs`, region by region)

An entry is edited when its key is used or re-sealed, a blob is replaced when
it is re-sealed, manifests are encrypted, written, read back, merged and
renamed, and any number of calls do so at once. Whatever they do, an entry
that has the id of a key is that key's entry, the blob stored under the id
opens to that key's secret, and what is cached under the id is that secret.

Results:
* `Commit.genuine`: no edit changes that.
* `Moves.genuine`: neither does any region of any call, nor the file it
  leaves.
* `Genuine.restarts`: nor does the next process, which starts from the file.
-/
namespace VaultSigner.L5
open VaultSigner.Core VaultSigner.L1 VaultSigner.L3 VaultSigner.L4
open VaultSigner.L3.Merge (VaultCompartment extended renamedKeys remapKeys)

/-- What use and re-sealing leave alone in an entry. -/
def KeyEntry.identity (x : KeyEntry) : KeyEntry :=
  { x with
    fido2 := x.fido2.map fun f => { f with signCount := 0 }
    lastUsedAt := none
    blobSha256 := "" }

/-- If `x` has the id of `x₀`, it is `x₀`, used and re-sealed at most. -/
def SameAs (x₀ x : KeyEntry) : Prop :=
  x.keyId = x₀.keyId → KeyEntry.identity x = KeyEntry.identity x₀

def Each (Q : KeyEntry → Prop) (m : Manifest) : Prop := ∀ x ∈ m.keys, Q x

/-- The manifest and the blobs that a merge brings. -/
def brought : Call → Option (String × List IncomingKeyBlob)
  | .mergeReencryptDiscardIncoming _ json blobs => some (json, blobs)
  | .mergeSideBySide json blobs .. => some (json, blobs)
  | .mergeReplaceLocalWithIncoming _ json blobs .. => some (json, blobs)
  | _ => none

section
variable (C : Crates)

/-- The call brings nothing under the id `k`. -/
def Foreign (k : Uuid) (call : Call) : Prop :=
  ∀ json blobs, brought call = some (json, blobs) →
    (∀ m, Manifest.fromJson C (utf8 json) = .ok m → ∀ x ∈ m.keys, x.keyId ≠ k) ∧
    ∀ b ∈ blobs, C.uuidParse b.keyId ≠ .ok k

/-- Whatever passphrase opens the blob for `x₀`, it opens to `sk`. -/
def OpensTo (x₀ : KeyEntry) (sk b : Bytes) : Prop :=
  ∀ pw sk', opens C b pw x₀.keyId x₀.keyType x₀.label = .ok sk' → sk' = sk

structure GenuineContainer (x₀ : KeyEntry) (sk : Bytes) (m : Container) : Prop where
  entries : ∀ c, InBlob C c (Each (SameAs x₀)) m
  blob : ∀ b, m.keyBlobs.get x₀.keyId = some b → OpensTo C x₀ sk b

structure GenuineState (x₀ : KeyEntry) (sk : Bytes) (s : VaultState) : Prop where
  memory : ∀ c u, s.unlocked.get c = some u → Each (SameAs x₀) u.manifest
  container : GenuineContainer C x₀ sk s.container

/-- What goes by the id of `x₀`, in memory, in the file and in the cache, is
the key `x₀` with the secret `sk`. -/
structure Genuine (x₀ : KeyEntry) (sk : Bytes) (v : Vault) : Prop where
  state : GenuineState C x₀ sk v.state
  version : v.state.container.header.formatVersion = L1.formatVersion
  file : ∀ bytes o m, v.disk = some bytes → Container.fromBytes C o bytes = .ok m →
    GenuineContainer C x₀ sk m
  cached : ∀ e, v.retention.get x₀.keyId = some e → e.bytes = sk

end

/-! ## Manifests -/

section
variable {x₀ x : KeyEntry}

theorem sameAs_of_ne (h : x.keyId ≠ x₀.keyId) : SameAs x₀ x := fun heq => absurd heq h

theorem SameAs.congr {y : KeyEntry} (hk : y.keyId = x.keyId)
    (hi : KeyEntry.identity y = KeyEntry.identity x) (h : SameAs x₀ x) : SameAs x₀ y :=
  fun heq => hi.trans (h (hk.symm.trans heq))

theorem identity_asserted (n : UInt32) (now : OffsetDateTime) (x : KeyEntry) :
    KeyEntry.identity (KeyEntry.asserted n now x) = KeyEntry.identity x := by
  unfold KeyEntry.identity KeyEntry.asserted
  cases x.fido2 <;> rfl

theorem identity_digest (d : String) (x : KeyEntry) :
    KeyEntry.identity { x with blobSha256 := d } = KeyEntry.identity x := rfl

variable {Q : KeyEntry → Prop} {u : UnlockedCompartment}

theorem each_push (h : Each Q u.manifest) (hx : Q x) : Each Q (u.push x).manifest := by
  intro y hy
  rcases List.mem_append.1 hy with hy | hy
  · exact h y hy
  · rw [List.mem_singleton.1 hy]
    exact hx

theorem each_remove (k : Uuid) (h : Each Q u.manifest) : Each Q (u.remove k).manifest :=
  fun y hy => h y (List.mem_filter.1 hy).1

theorem each_extended {y : VaultCompartment} {keys : List KeyEntry} (h : Each Q y.manifest)
    (hk : ∀ x ∈ keys, Q x) : Each Q (extended y keys).manifest := by
  intro x hx
  rcases List.mem_append.1 hx with hx | hx
  · exact h x hx
  · exact hk x hx

/-- An entry edited in place. -/
theorem each_modify {m : Manifest} {p : KeyEntry → Bool} {f : KeyEntry → KeyEntry}
    (hf : ∀ x, Q x → Q (f x)) (h : Each Q m) :
    Each Q { m with keys := modifyFirst p f m.keys } := by
  intro x hx
  rcases mem_modifyFirst hx with hx | ⟨y, hy, -, rfl⟩
  · exact h x hx
  · exact hf y (h y hy)

theorem each_setDigest (k : Uuid) (d : String) (h : Each (SameAs x₀) u.manifest) :
    Each (SameAs x₀) (u.setDigest k d).manifest :=
  each_modify (fun x hx => hx.congr (x := x) rfl (identity_digest d x)) h

theorem each_asserted (k : Uuid) (n : UInt32) (now : OffsetDateTime)
    (h : Each (SameAs x₀) u.manifest) : Each (SameAs x₀) (u.asserted k n now).manifest :=
  each_modify (fun x hx => hx.congr (x := x) rfl (identity_asserted n now x)) h

end

/-! ## The key's blob -/

section
variable {C : Crates} {A : Vault → In → Prop} {v v' : Vault} {e : In} {s s' : VaultState}
  {x₀ : KeyEntry}
  {sk b : Bytes} {call : Call} {t : Tail}

/-- A blob that opens for the key opens to one secret. -/
theorem opensTo_of_opens (hk : C.AeadCommits) {pw : Bytes}
    (h : opens C b pw x₀.keyId x₀.keyType x₀.label = .ok sk) : OpensTo C x₀ sk b := by
  intro pw' sk' h'
  obtain ⟨blob, hb, ho⟩ := opens_ok.1 h
  obtain ⟨blob', hb', ho'⟩ := opens_ok.1 h'
  rw [hb] at hb'
  cases hb'
  obtain ⟨key, -, hl, hd⟩ := keyblobOpen_ok.1 ho
  obtain ⟨key', -, hl', hd'⟩ := keyblobOpen_ok.1 ho'
  obtain ⟨-, hm⟩ := aeadDecrypt_key hk hd hd'
  exact (List.append_inj hm (by rw [hl, hl'])).1

theorem identity_fields {x : KeyEntry} (h : KeyEntry.identity x = KeyEntry.identity x₀) :
    x.keyType = x₀.keyType ∧ x.label = x₀.label ∧ x.publicKeyHex = x₀.publicKeyHex := by
  have hty := congrArg KeyEntry.keyType h
  have hlabel := congrArg KeyEntry.label h
  have hpublic := congrArg KeyEntry.publicKeyHex h
  exact ⟨hty, hlabel, hpublic⟩

/-- A key of an import is not the key `x₀`, unless the import says so. -/
theorem sameAs_renamed {json : String} {blobs : List IncomingKeyBlob} {incoming : Manifest}
    {uuids : Nat → Uuid} (loc : List VaultCompartment) (hf : Foreign C x₀.keyId call)
    (hb : brought call = some (json, blobs)) (hi : Manifest.fromJson C (utf8 json) = .ok incoming)
    (hu : ∀ i, uuids i ≠ x₀.keyId) : ∀ x ∈ renamedKeys C uuids loc incoming, SameAs x₀ x := by
  intro x hx
  obtain ⟨y, hy, j, rfl⟩ := Merge.mem_renamedList hx
  refine sameAs_of_ne ?_
  rw [Merge.renamed_keyId]
  split
  · exact hu j
  · exact (hf json blobs hb).1 incoming hi y hy

/-- The copy of an import's blobs leaves the key's blob alone. -/
theorem get_copied_foreign {json : String} {blobs : List IncomingKeyBlob} {incoming : Manifest}
    {uuids : Nat → Uuid} (loc : List VaultCompartment) (hf : Foreign C x₀.keyId call)
    (hb : brought call = some (json, blobs)) (hi : Manifest.fromJson C (utf8 json) = .ok incoming)
    (hu : ∀ i, uuids i ≠ x₀.keyId) (m : HashMap Uuid Bytes) :
    (copyIncomingBlobs C (remapKeys uuids loc incoming) blobs m).get x₀.keyId = m.get x₀.keyId := by
  have hvalid := ((Manifest.fromJson_ok C _ _).1 hi).2
  rw [get_copyIncomingBlobs]
  have hnone : (blobs.reverse.find? fun b =>
      landing C (remapKeys uuids loc incoming) b = some x₀.keyId) = none := by
    rw [List.find?_eq_none]
    intro b hm
    simp only [decide_eq_true_eq]
    intro hl
    have hp := ((landing_iff hvalid (fun j _ => hu j) b).1 hl).1
    cases hq : C.uuidParse b.keyId with
    | error x => rw [hq] at hp; cases hp
    | ok id =>
      rw [hq] at hp
      cases hp
      exact (hf json blobs hb).2 b (List.mem_reverse.1 hm) hq
  rw [hnone]

/-! ## The state -/

/-- One compartment's manifest replaced in memory. -/
theorem GenuineState.put {c : Uuid} {u : UnlockedCompartment} (h : GenuineState C x₀ sk s)
    (hu : Each (SameAs x₀) u.manifest) (hs : s'.unlocked = s.unlocked.put c u)
    (hc : GenuineContainer C x₀ sk s'.container) : GenuineState C x₀ sk s' where
  memory := by
    intro c' w hw
    rw [hs, HashMap.get_put] at hw
    split at hw
    · cases hw
      exact hu
    · exact h.memory c' w hw
  container := hc

/-- The key blobs changed, but for the key's. -/
theorem GenuineContainer.keyBlobs {m m' : Container} (h : GenuineContainer C x₀ sk m)
    (hm : m'.masterBlobs = m.masterBlobs)
    (hb : ∀ b, m'.keyBlobs.get x₀.keyId = some b → OpensTo C x₀ sk b) :
    GenuineContainer C x₀ sk m' where
  entries := by
    intro c b key p hcb
    rw [hm] at hcb
    exact h.entries c b key p hcb
  blob := hb

theorem GenuineContainer.master (hC : C.CodecLaws) (ha : C.AeadLaws) (hk : C.AeadCommits)
    {m m' : Container} {u : UnlockedCompartment} {c : Uuid} {nonce : Except String Nonce}
    (h : GenuineContainer C x₀ sk m) (hb : encryptWithKey C c u.manifest u.masterKey nonce = .ok b)
    (hu : Each (SameAs x₀) u.manifest) (hm : m'.masterBlobs = m.masterBlobs.put c b)
    (hkb : m'.keyBlobs.get x₀.keyId = m.keyBlobs.get x₀.keyId) : GenuineContainer C x₀ sk m' where
  entries := fun c' => (h.entries c').put hC ha hk hb (fun _ => hu) hm
  blob := by
    rw [hkb]
    exact h.blob

theorem GenuineState.local (h : GenuineState C x₀ sk s) {y : VaultCompartment}
    (hy : y ∈ localCompartments s) : Each (SameAs x₀) y.manifest := by
  obtain ⟨u, hu, hm⟩ := mem_localCompartments hy
  rw [← hm]
  exact h.memory _ u hu

/-- A new key, under another id or as `x₀` itself. -/
theorem GenuineState.stored {c : Uuid} {u : UnlockedCompartment} {x : KeyEntry}
    (h : GenuineState C x₀ sk s) (hu : s.unlocked.get c = some u) (hx : SameAs x₀ x)
    (hb : x.keyId = x₀.keyId → OpensTo C x₀ sk b) :
    GenuineState C x₀ sk ((s.setUnlocked c (u.push x)).setKeyBlob x.keyId b) := by
  refine h.put (each_push (h.memory c u hu) hx) rfl (h.container.keyBlobs rfl fun b' hb' => ?_)
  change (s.container.keyBlobs.put x.keyId b).get x₀.keyId = some b' at hb'
  rw [HashMap.get_put] at hb'
  split at hb'
  · rename_i heq
    cases hb'
    exact hb heq.symm
  · exact h.container.blob b' hb'

theorem GenuineState.pushed {c : Uuid} {u : UnlockedCompartment} {x : KeyEntry}
    (h : GenuineState C x₀ sk s) (hu : s.unlocked.get c = some u) (hx : SameAs x₀ x) :
    GenuineState C x₀ sk (s.setUnlocked c (u.push x)) :=
  h.put (each_push (h.memory c u hu) hx) rfl h.container

theorem newKey_keyId {c : Uuid} {x : KeyEntry} (h : NewKey C A v e call c x b) :
    x.keyId = e.uuid 1 := by
  cases h with
  | created hp => exact (prepareCreateKey_entry hp).1
  | registered hc hr hx hp => exact (prepareMakeCredential_entry hp).1

/-- **One edit**, of a call run alone. -/
theorem Change.genuine (hC : C.CodecLaws) (ha : C.AeadLaws) (hk : C.AeadCommits)
    (hc : Change C A v e call s t) (hf : Foreign C x₀.keyId call) (hu : ∀ i, e.uuid i ≠ x₀.keyId)
    (hn : e.uuid 0 ∉ headerIds v.state) (h : GenuineState C x₀ sk v.state) :
    GenuineState C x₀ sk s := by
  cases hc with
  | rejected hnew hcu hv =>
    exact h.pushed hcu (sameAs_of_ne (newKey_keyId hnew ▸ hu 1))
  | stored hnew hcu hv =>
    have hne := newKey_keyId hnew ▸ hu 1
    exact h.stored hcu (sameAs_of_ne hne) fun heq => absurd heq hne
  | @discarded _ _ _ c k u x _ _ hcu hx ht =>
    refine h.put (each_remove k (h.memory c u hcu)) rfl (h.container.keyBlobs rfl fun b hb => ?_)
    change (v.state.container.keyBlobs.del k).get x₀.keyId = some b at hb
    rw [HashMap.get_del] at hb
    split at hb
    · cases hb
    · exact h.container.blob b hb
  | @resealed _ _ _ _ c k u x b₀ b sk' _ _ hcu hx hb ho hs =>
    refine h.put (each_setDigest k _ (h.memory c u hcu)) rfl
      (h.container.keyBlobs rfl fun b' hb' => ?_)
    change (v.state.container.keyBlobs.put k b).get x₀.keyId = some b' at hb'
    rw [HashMap.get_put] at hb'
    split at hb'
    · rename_i heq
      cases hb'
      subst heq
      -- what is sealed again is what the old blob opened to
      obtain ⟨hmem, hid⟩ := findKey_mem hx
      obtain ⟨hty, hlabel, -⟩ := identity_fields (h.memory c u hcu x hmem hid)
      rw [hty, hlabel] at ho hs
      obtain rfl := h.container.blob b₀ hb _ _ ho
      exact opensTo_of_opens hk (opens_sealKey hC ha hs)
    · exact h.container.blob b' hb'
  | unrecorded hf => exact h
  | asserted hr hx hfind hcu => exact h.put (each_asserted _ _ _ (h.memory _ _ hcu)) rfl h.container
  | added hm hd hb =>
    have hnew : ∀ u : UnlockedCompartment, u.manifest = Manifest.new (e.uuid 1) e.utc →
        Each (SameAs x₀) u.manifest := by
      intro u hm x hx
      rw [hm] at hx
      cases hx
    exact h.put (hnew _ hm) rfl (h.container.master hC ha hk hb (hnew _ hm) rfl rfl)
  | merged1 ht hi hr =>
    have hkeys := sameAs_renamed (localCompartments v.state) hf rfl hi hu
    refine ⟨fun c u hcu => ?_, h.container.keyBlobs rfl fun b hb => h.container.blob b ?_⟩
    · obtain ⟨w, hw, -, hm | ⟨y, hy, -, hm⟩⟩ := get_updateManifests_cases hcu
      · rw [hm]
        exact h.memory c w hw
      · rw [hm]
        rcases hr.mem_updated hy with hy | rfl
        · exact h.local hy
        · exact each_extended (h.local hr.mem) hkeys
    · rw [← get_copied_foreign (localCompartments v.state) hf rfl hi hu, ← hr.remap]
      exact hb
  | @merged2 _ _ _ _ _ _ _ u _ hi hm hd hb =>
    have hu2 : ∀ i, e.uuid (i + 2) ≠ x₀.keyId := fun i => hu (i + 2)
    have hkeys := sameAs_renamed (localCompartments v.state) hf rfl hi hu2
    have hnew : Each (SameAs x₀) u.manifest := fun x hx => hkeys x (by rw [hm hn] at hx; exact hx)
    exact h.put hnew rfl
      (h.container.master hC ha hk hb hnew rfl (get_copied_foreign _ hf rfl hi hu2 _))
  | @merged3 _ _ _ _ _ _ _ _ _ _ _ _ _ u _ ht hi hr hm hd hb =>
    have hkeys := sameAs_renamed (localCompartments v.state) hf rfl hi hu
    have hnew : Each (SameAs x₀) u.manifest := fun x hx =>
      each_extended (h.local hr.mem) hkeys x (by rw [hm] at hx; exact hx)
    refine h.put hnew rfl (h.container.master hC ha hk hb hnew rfl ?_)
    rw [hr.remap]
    exact get_copied_foreign _ hf rfl hi hu _

/-- **One edit**, whatever ran before its region. -/
theorem Commit.genuine (hC : C.CodecLaws) (ha : C.AeadLaws) (hk : C.AeadCommits)
    (hc : Commit C A v e call s t) (hf : Foreign C x₀.keyId call) (hu : ∀ i, e.uuid i ≠ x₀.keyId)
    (hn : e.uuid 0 ∉ headerIds v.state) (h : GenuineState C x₀ sk v.state) :
    GenuineState C x₀ sk s := by
  cases hc with
  | alone hc => exact Change.genuine hC ha hk hc hf hu hn h
  | rejected hp hcu hv =>
    exact h.pushed hcu (sameAs_of_ne ((prepareMakeCredential_entry hp).1 ▸ hu 1))
  | registered hp hcu hv =>
    have hne := (prepareMakeCredential_entry hp).1 ▸ hu 1
    exact h.stored hcu (sameAs_of_ne hne) fun heq => absurd heq hne
  | unrecorded => exact h
  | asserted hfind hcu => exact h.put (each_asserted _ _ _ (h.memory _ _ hcu)) rfl h.container

theorem GenuineState.inMemory (hC : C.CodecLaws) (ha : C.AeadLaws) (hk : C.AeadCommits)
    (h : GenuineState C x₀ sk s) (t : Tail) : GenuineState C x₀ sk (inMemory C e s t) := by
  cases t with
  | persist c =>
    simp only [L4.inMemory]
    split
    · exact h
    · rename_i u hu
      split
      · exact h
      · rename_i b hb
        exact ⟨h.memory, h.container.master hC ha hk hb (h.memory c u hu) rfl rfl⟩
  | _ => exact h

/-! ## Regions and restarts -/

/-- A region that leaves state and file alone, and caches nothing else. -/
theorem Genuine.quiet (h : Genuine C x₀ sk v) (hq : Quiet v v')
    (hr : ∀ e, v'.retention.get x₀.keyId = some e → e.bytes = sk) : Genuine C x₀ sk v' where
  state := by
    rw [hq.state]
    exact h.state
  version := by
    rw [hq.state]
    exact h.version
  file := by
    rw [hq.disk]
    exact h.file
  cached := hr

/-- The file has just been written from memory. -/
theorem GenuineState.filed (hC : C.CodecLaws) {bytes : Bytes} (hs : GenuineState C x₀ sk v.state)
    (hv : v.state.container.header.formatVersion = L1.formatVersion)
    (hw : writeAtomic C e v.state.container = .ok bytes) (hd : v.disk = some bytes)
    (hr : ∀ e, v.retention.get x₀.keyId = some e → e.bytes = sk) : Genuine C x₀ sk v := by
  refine ⟨hs, hv, fun bytes' o m hb ho => ?_, hr⟩
  rw [hd] at hb
  cases hb
  rw [Container.fromBytes_toArchive hC hv (writeAtomic_ok e |>.1 hw).1 o] at ho
  cases ho
  exact hs.container

/-- The state after an edit that went through, and the file it wrote. -/
theorem Genuine.written (hC : C.CodecLaws) (ha : C.AeadLaws) (hk : C.AeadCommits)
    (h : Genuine C x₀ sk v) (hs : GenuineState C x₀ sk s)
    (hv : s.container.header.formatVersion = v.state.container.header.formatVersion)
    (hg : GoesThrough C e s t) (hm : v'.state = inMemory C e s t) (hd : v'.disk = written C e v s t)
    (hr : ∀ e, v'.retention.get x₀.keyId = some e → e.bytes = sk) : Genuine C x₀ sk v' := by
  have hstate : GenuineState C x₀ sk v'.state := by
    rw [hm]
    exact hs.inMemory hC ha hk t
  have hversion : v'.state.container.header.formatVersion = L1.formatVersion := by
    rw [hm, (inMemory_frame C e s t).2.1]
    exact hv.trans h.version
  rcases written_cases (v := v) hg with ⟨-, hw⟩ | ⟨bytes, hbytes, hw⟩
  · exact ⟨hstate, hversion, fun bytes o m hb =>
      h.file bytes o m (hw.symm.trans (hd.symm.trans hb)), hr⟩
  · rw [← hm] at hbytes
    exact hstate.filed hC hversion hbytes (hd.trans hw) hr

theorem Commit.version (hc : Commit C A v e call s t) :
    s.container.header.formatVersion = v.state.container.header.formatVersion := by
  cases hc with
  | alone hc => cases hc <;> rfl
  | _ => rfl

/-- **One region** of a call that brings nothing under the key's id. -/
theorem Moves.genuine (hC : C.CodecLaws) (ha : C.AeadLaws) (hk : C.AeadCommits)
    (hm : Moves C A call e v v') (hf : Foreign C x₀.keyId call) (hu : ∀ i, e.uuid i ≠ x₀.keyId)
    (hn : e.uuid 0 ∉ headerIds v.state)
    (hr : ∀ e, v'.retention.get x₀.keyId = some e → e.bytes = sk) (h : Genuine C x₀ sk v) :
    Genuine C x₀ sk v' := by
  have hsame : GenuineState C x₀ sk v'.state →
      v'.state.container.header.formatVersion = v.state.container.header.formatVersion →
      v'.disk = v.disk → Genuine C x₀ sk v' := by
    intro hs hv hd
    refine ⟨hs, hv.trans h.version, ?_, hr⟩
    rw [hd]
    exact h.file
  cases hm with
  | quiet hq => exact h.quiet hq hr
  | unlocked c b key p hh hb hp hs hd =>
    refine hsame ?_ (by rw [hs]; rfl) hd
    rw [hs]
    exact h.state.put (h.state.container.entries c b key p hb hp) rfl h.state.container
  | locked hc hun hd =>
    refine hsame ⟨fun c u hcu => h.state.memory c u (hun c u hcu), ?_⟩ (by rw [hc]) hd
    rw [hc]
    exact h.state.container
  | done s t hc hg hs hd =>
    exact h.written hC ha hk (Commit.genuine hC ha hk hc hf hu hn h.state) (Commit.version hc)
      hg hs hd hr
  | undone s t hc hg hs hd =>
    refine hsame ?_ ?_ hd
    · rw [hs]
      exact (Commit.genuine hC ha hk hc hf hu hn h.state).inMemory hC ha hk t
    · rw [hs, (inMemory_frame C e s t).2.1]
      exact Commit.version hc

/-- Before a key is there nothing goes by its id. -/
theorem created_genuine (hC : C.CodecLaws) (ha : C.AeadLaws) (hk : C.AeadCommits)
    (h : Created C v) : Genuine C x₀ sk v := by
  obtain ⟨e, disk, label, passphrase, profile, hc⟩ := h
  obtain ⟨kdf, key, blob, bytes, -, -, hb, hs, hw, hd⟩ := create_ok hc
  have hempty : GenuineState C x₀ sk ⟨Container.new, ∅⟩ :=
    ⟨fun c u hu => by simp at hu, fun c b key p hb => by simp [Container.new] at hb,
      fun b hb => by simp [Container.new] at hb⟩
  have hnew : Each (SameAs x₀) (Manifest.new (e.uuid 1) e.utc) := fun x hx => by cases hx
  have hretention : v.retention = ∅ := by
    have hfresh := (create_fresh (C := C) e disk label passphrase profile).retention
    rwa [hc] at hfresh
  refine GenuineState.filed hC ?_ (by rw [hs]; rfl) hw hd fun x hx => by simp [hretention] at hx
  rw [hs]
  exact hempty.put (u := ⟨_, key⟩) hnew rfl
    (hempty.container.master (u := ⟨_, key⟩) hC ha hk hb hnew rfl rfl)

/-- The next process goes by the file alone. -/
theorem Genuine.restarts {bytes : Bytes} (hb : v.disk = some bytes)
    (ho : openVault C e bytes = .ok v') (h : Genuine C x₀ sk v) : Genuine C x₀ sk v' := by
  obtain ⟨m, hm, rfl⟩ := openVault_ok ho
  refine ⟨⟨fun c u hu => by simp at hu, h.file bytes e.orders m hb hm⟩, fromBytes_version hm,
    fun bytes' o m' hb' ho' => ?_, fun e he => by simp at he⟩
  cases hb'
  exact h.file bytes o m' hb ho'

end

end VaultSigner.L5
