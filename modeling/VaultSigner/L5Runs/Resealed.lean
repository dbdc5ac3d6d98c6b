import VaultSigner.L1Format.RoundTrip
import VaultSigner.L5Runs.Registered
import VaultSigner.L5Runs.Validated

/-!
# Changing a passphrase (`change_key_passphrase`)

The private key is opened with the old passphrase, sealed with the new one,
and put in the old blob's place; the entry gets the new blob's digest, and the
compartment's manifest and the file are written again. The blob is the only
copy of the key.

Results:
* `OpensBy.only`: a blob that opens with a passphrase opens with no other.
* `Rekeys.handled`: one change.
* `passphrase_changes`: a key is the same after any changes, under the last
  passphrase only.
-/
namespace VaultSigner.L5
open VaultSigner.Core VaultSigner.L1 VaultSigner.L3 VaultSigner.L4

/-- The KDF does not take `pw` for `p`. -/
def Tells (C : Crates) (p pw : Bytes) : Prop := ∀ params, C.KdfSeparates params p pw

/-- The call changes the passphrase of the key `k` of the compartment `c`. -/
def Rekeys (C : Crates) (c k : Uuid) (old new : String) (t : Turn) : Prop :=
  ∃ cid kid, t.call = .changeKeyPassphrase cid kid old new ∧ parseUuid C cid = .ok c ∧
    parseUuid C kid = .ok k

/-- The call changes the passphrase of some key, though not of one with the id
`k` in another compartment; or it leaves state and file alone. -/
def Changes (C : Crates) (c k : Uuid) (t : Turn) : Prop :=
  Quiet t.before t.after ∨ ∃ cid kid old new, t.call = .changeKeyPassphrase cid kid old new ∧
    (parseUuid C kid = .ok k → parseUuid C cid = .ok c)

section
variable (C : Crates) (A : Vault → In → Prop) (c : Uuid) (x : KeyEntry) (sk : Bytes)

/-- The compartment has the entry `x`, but for its digest, and the key's blob
opens with `p`. -/
def OpensBy (s : VaultState) (p : String) : Prop :=
  ∃ u digest b, s.unlocked.get c = some u ∧
    findKey u.manifest x.keyId = .ok { x with blobSha256 := digest } ∧
    s.container.keyBlobs.get x.keyId = some b ∧
      opens C b (utf8 p) x.keyId x.keyType x.label = .ok sk

/-- ... and with no other passphrase. -/
structure OpensOnly (b : Bytes) (p : String) : Prop where
  opened : opens C b (utf8 p) x.keyId x.keyType x.label = .ok sk
  only : ∀ pw sk', opens C b pw x.keyId x.keyType x.label = .ok sk' → sk' = sk ∧
    (Tells C (utf8 p) pw → pw = utf8 p)

/-- The blob is the entry's, and opens with `p` only. -/
def Resealed (s : VaultState) (p : String) : Prop :=
  ∃ u b, s.unlocked.get c = some u ∧
    findKey u.manifest x.keyId = .ok { x with blobSha256 := blobSha256Hex C b } ∧
    s.container.keyBlobs.get x.keyId = some b ∧ OpensOnly C x sk b p

/-- `w` is `v`, opened again: the manifest opens under the key it had, and
whoever unlocks the compartment finds the entry and its blob. -/
structure Reopens (p : String) (v w : Vault) : Prop where
  container : w.state.container = v.state.container
  master : ∃ u b m, v.state.unlocked.get c = some u ∧ w.state.container.masterBlobs.get c = some b ∧
    decryptWithKey C c b u.masterKey = .ok m ∧ m.manifest = u.manifest
  unlocked : ∀ cid passphrase es a w', parseUuid C cid = .ok c →
    Prog.Exec A ((Call.unlockCompartment cid passphrase).run C) w es (.ok a) w' →
      Resealed C c x sk w'.state p

/-- The file opens, and is what is in memory. -/
def Survives (v : Vault) (p : String) : Prop :=
  ∃ bytes, v.disk = some bytes ∧ ∀ e, ∃ w, openVault C e bytes = .ok w ∧ Reopens C A c x sk p v w

/-- One call, of a key whose passphrase is `q` before it and `q'` after it. -/
structure Handled (t : Turn) (q q' : String) : Prop where
  before : ∃ u digest b, t.before.state.unlocked.get c = some u ∧
    findKey u.manifest x.keyId = .ok { x with blobSha256 := digest } ∧
    t.before.state.container.keyBlobs.get x.keyId = some b ∧ OpensOnly C x sk b q
  after : OpensBy C c x sk t.after.state q'
  changed : ∀ old new a, Rekeys C c x.keyId old new t → t.result = .ok a →
    q' = new ∧ OpensBy C c x sk t.before.state old ∧ Resealed C c x sk t.after.state new ∧
      Survives C A c x sk t.after new
  wrong : ∀ old new, Rekeys C c x.keyId old new t → ¬ OpensBy C c x sk t.before.state old →
    q' = q ∧ (∃ e, t.result = .error e) ∧ t.after.state = t.before.state ∧
      t.after.disk = t.before.disk

/-- The passphrase of the key along a run (newest first). -/
inductive Passphrases (p : String) : List Turn → String → Prop
  | nil : Passphrases p [] p
  | cons {l : List Turn} {t : Turn} {q q' : String} (h : Passphrases p l q)
      (ht : Handled C A c x sk t q q') :
      Passphrases p (t :: l) q'

end

section
variable {C : Crates} {A : Vault → In → Prop} {c : Uuid} {x : KeyEntry} {sk : Bytes}
  {s : VaultState} {p : String}

/-- **A blob that opens with a passphrase opens with no other.** -/
theorem OpensOnly.of_opens (hI : C.AeadIdeal) {b : Bytes}
    (h : opens C b (utf8 p) x.keyId x.keyType x.label = .ok sk) :
    OpensOnly C x sk b p where
  opened := h
  only := by
    intro pw sk' h'
    obtain ⟨blob, hb, ho⟩ := opens_ok.1 h
    obtain ⟨blob', hb', ho'⟩ := opens_ok.1 h'
    rw [hb] at hb'
    cases hb'
    obtain ⟨hsk, -, -, key, hk, hk'⟩ := keyblobOpen_ideal hI ho ho'
    exact ⟨hsk, fun htells => htells _ key hk hk'⟩

theorem OpensBy.only (hI : C.AeadIdeal) (h : OpensBy C c x sk s p) :
    ∃ u digest b, s.unlocked.get c = some u ∧
    findKey u.manifest x.keyId = .ok { x with blobSha256 := digest } ∧
    s.container.keyBlobs.get x.keyId = some b ∧ OpensOnly C x sk b p := by
  obtain ⟨u, digest, b, hu, hx, hb, ho⟩ := h
  exact ⟨u, digest, b, hu, hx, hb, .of_opens hI ho⟩

theorem OpensBy.of_resealed (h : Resealed C c x sk s p) : OpensBy C c x sk s p := by
  obtain ⟨u, b, hu, hx, hb, ho⟩ := h
  exact ⟨u, _, b, hu, hx, hb, ho.opened⟩

/-- The sealed key opens. -/
theorem opens_sealKey (hC : C.CodecLaws) (ha : C.AeadLaws) {e : In} {pw : String} {k : Uuid}
    {ty : KeyType} {label : String} {b : Bytes} (h : sealKey C e pw sk k ty label = .ok b) :
    opens C b (utf8 pw) k ty label = .ok sk := by
  unfold sealKey at h
  simp only [bind_ok, facade_ok] at h
  obtain ⟨params, -, blob, hs, hb⟩ := h
  exact opens_ok.2 ⟨blob, KeyBlobOf.fromBytes_toBytes hC hb, (keyblobOpen_keyblobSeal ha hs).1⟩

/-! ## One change -/

/-- A change that gets as far as the edit opens the blob, and seals the key
again. -/
theorem OpensBy.edit (hC : C.CodecLaws) (ha : C.AeadLaws) (hI : C.AeadIdeal) {v : Vault} {e : In}
    {cid kid old new : String} {t : Tail} (h : OpensBy C c x sk v.state p)
    (hc : Change C A v e (.changeKeyPassphrase cid kid old new) s t)
    (hcid : parseUuid C cid = .ok c) (hkid : parseUuid C kid = .ok x.keyId) :
    t = .persist c ∧ OpensBy C c x sk v.state old ∧ Resealed C c x sk s new := by
  obtain ⟨u, digest, b₀, hu, hx, hb, ho⟩ := h
  cases hc with
  | rejected hk => cases hk
  | stored hk => cases hk
  | resealed hc' hk' hu' hx' hb' ho' hs =>
    rw [hcid] at hc'
    cases hc'
    rw [hkid] at hk'
    cases hk'
    rw [hu] at hu'
    cases hu'
    rw [hx] at hx'
    cases hx'
    rw [hb] at hb'
    cases hb'
    obtain ⟨rfl, -⟩ := (OpensOnly.of_opens hI ho).only _ _ ho'
    refine ⟨rfl, ⟨u, digest, b₀, hu, hx, hb, ho'⟩, _, _, HashMap.get_put_self _ _ _, ?_,
      HashMap.get_put_self _ _ _,
      .of_opens hI (opens_sealKey hC ha hs)⟩
    rw [findKey_ok] at hx ⊢
    exact (find?_modifyFirst (by simp) hx).trans rfl

theorem Resealed.congr {s' : VaultState} (h : Resealed C c x sk s p) (hu : s'.unlocked = s.unlocked)
    (hb : s'.container.keyBlobs = s.container.keyBlobs) : Resealed C c x sk s' p := by
  obtain ⟨u, b, hcu, hx, hkb, ho⟩ := h
  exact ⟨u, b, hu ▸ hcu, hx, hb ▸ hkb, ho⟩

/-- What was written is there when the file is opened again. -/
theorem Resealed.survives (hC : C.CodecLaws) (ha : C.AeadLaws) (hI : C.AeadIdeal) {v v' : Vault}
    {e : In} (h : Resealed C c x sk s p) (hg : GoesThrough C e s (.persist c))
    (hs : v'.state = inMemory C e s (.persist c)) (hd : v'.disk = written C e v s (.persist c))
    (hv : v'.state.container.header.formatVersion = L1.formatVersion) :
    Survives C A c x sk v' p := by
  obtain ⟨hunlocked, -, hblobs⟩ := inMemory_frame C e s (.persist c)
  rcases written_cases (v := v) hg with ⟨ht, -⟩ | ⟨bytes, hbytes, hw⟩
  · cases ht
  obtain ⟨u, blob, -, hu, hblob, -⟩ := hg
  obtain ⟨u', b, hu', hx, hb, ho⟩ := h
  rw [hu] at hu'
  cases hu'
  have hmaster : v'.state.container.masterBlobs.get c = some blob := by
    rw [hs]
    simp only [inMemory, hu, hblob]
    exact HashMap.get_put_self _ _ _
  have hopen := decryptWithKey_encryptWithKey hC ha hblob
  rw [← hs] at hbytes
  refine ⟨bytes, hd.trans hw, fun e' =>
    ⟨⟨⟨v'.state.container, ∅⟩, ∅, L2.Throttle.ThrottleTracker.new, some bytes,
    e'.now, []⟩, ?_, rfl, ⟨u, blob, _, ?_, hmaster, hopen, rfl⟩, ?_⟩⟩
  · unfold openVault
    rw [Container.fromBytes_toArchive hC hv (writeAtomic_ok e |>.1 hbytes).1]
    rfl
  · rw [hs, hunlocked]
    exact hu
  · intro cid passphrase es a w' hcid hexec
    obtain ⟨q, hq, hr⟩ := exec_replying.1 hexec
    rcases unlockCompartment_cases hq with ⟨⟨y, rfl⟩, -⟩ | ⟨c', b', key, m, hc', -, hb', hm, hw', -⟩
    · cases hr
    · rw [hcid] at hc'
      cases hc'
      rw [hmaster] at hb'
      cases hb'
      obtain rfl := decryptWithKey_unique hI.toCommits hopen hm
      rw [hw']
      refine ⟨_, b, HashMap.get_put_self _ _ _, hx, ?_, ho⟩
      show v'.state.container.keyBlobs.get x.keyId = some b
      rw [hs, hblobs]
      exact hb

/-- **One change.** -/
theorem Rekeys.handled (hC : C.CodecLaws) (ha : C.AeadLaws) (hI : C.AeadIdeal) {t : Turn}
    {old new : String} (h : Rekeys C c x.keyId old new t)
    (hx : Prog.Exec A (t.call.run C) t.before t.inputs t.result t.after)
    (hv : t.before.state.container.header.formatVersion = L1.formatVersion)
    (ho : OpensBy C c x sk t.before.state p) : ∃ q, Handled C A c x sk t p q := by
  obtain ⟨cid, kid, hcall, hcid, hkid⟩ := h
  have hsame : ∀ old' new', Rekeys C c x.keyId old' new' t → old' = old ∧ new' = new := by
    intro old' new' h'
    obtain ⟨cid', kid', hcall', -⟩ := h'
    rw [hcall] at hcall'
    cases hcall'
    exact ⟨rfl, rfl⟩
  have hbefore := ho.only hI
  have hversion : t.after.state.container.header.formatVersion = L1.formatVersion :=
    (Call.effect _ hx).header.1.trans hv
  have hedits : t.call.EditsContainer := by
    rw [hcall]
    trivial
  rw [hcall] at hx
  cases Call.outcome _ hx with
  | same hq hr =>
    obtain ⟨e, hr⟩ := hr (hcall ▸ hedits)
    refine ⟨p, hbefore, by rw [hq.state]; exact ho, fun _ _ a _ hok => ?_, fun _ _ _ _ =>
      ⟨rfl, ⟨e, hr⟩, hq.state, hq.disk⟩⟩
    rw [hr] at hok
    cases hok
  | unlocked c b key p hn => exact absurd (hcall ▸ hedits) hn
  | locked hn => exact absurd (hcall ▸ hedits) hn
  | done e s tail a he hc hg hr hs hd =>
    obtain ⟨rfl, hold, hnew⟩ := ho.edit hC ha hI hc hcid hkid
    obtain ⟨hunlocked, -, hblobs⟩ := inMemory_frame C e s (.persist c)
    have hafter : Resealed C c x sk t.after.state new := by
      rw [hs]
      exact hnew.congr hunlocked hblobs
    refine ⟨new, hbefore, .of_resealed hafter, fun old' new' _ h' _ => ?_,
      fun old' new' h' hno => ?_⟩
    · obtain ⟨rfl, rfl⟩ := hsame old' new' h'
      exact ⟨rfl, hold, hafter, hnew.survives hC ha hI hg hs hd hversion⟩
    · obtain ⟨rfl, -⟩ := hsame old' new' h'
      exact absurd hold hno
  | undone e s tail a he hc hg hr hs hd =>
    obtain ⟨rfl, hold, hnew⟩ := ho.edit hC ha hI hc hcid hkid
    obtain ⟨hunlocked, -, hblobs⟩ := inMemory_frame C e s (.persist c)
    obtain ⟨y, hr⟩ := hr
    refine ⟨new, hbefore, .of_resealed ?_, fun _ _ _ _ hok => ?_, fun old' new' h' hno => ?_⟩
    · rw [hs]
      exact hnew.congr hunlocked hblobs
    · rw [hr] at hok
      cases hok
    · obtain ⟨rfl, -⟩ := hsame old' new' h'
      exact absurd hold hno

/-- A change of another key. -/
theorem OpensBy.other {v : Vault} {e : In} {cid kid old new : String} {t : Tail}
    (h : OpensBy C c x sk v.state p)
    (hc : Change C A v e (.changeKeyPassphrase cid kid old new) s t)
    (hkid : parseUuid C kid ≠ .ok x.keyId) :
    OpensBy C c x sk (inMemory C e s t) p := by
  obtain ⟨hunlocked, -, hblobs⟩ := inMemory_frame C e s t
  obtain ⟨u, digest, b, hu, hx, hb, ho⟩ := h
  cases hc with
  | rejected hk => cases hk
  | stored hk => cases hk
  | @resealed _ _ _ _ c' k w _ _ b' _ hc' hk' hw hx' hb' ho' hs =>
    have hne : x.keyId ≠ k := by
      rintro rfl
      exact hkid hk'
    have hblob : ((v.state.setUnlocked c' (w.setDigest k (blobSha256Hex C b'))).setKeyBlob k
        b').container.keyBlobs.get x.keyId = some b := (HashMap.get_put_ne _ _ hne).trans hb
    by_cases heq : c = c'
    · subst heq
      obtain rfl : u = w := by simpa [hu] using hw
      refine ⟨u.setDigest k (blobSha256Hex C b'), digest,
        b, by rw [hunlocked]; exact HashMap.get_put_self _ _ _, ?_,
        hblobs ▸ hblob, ho⟩
      rw [findKey_ok] at hx ⊢
      refine Eq.trans ?_ hx
      simp only [UnlockedCompartment.setDigest, ← List.head?_filter]
      congr 1
      refine filter_modifyFirst_of_ne (fun y hy => ?_) _
      have hid : y.keyId = k := by simpa using hy
      have hne' : y.keyId ≠ x.keyId := fun h => hne (h.symm.trans hid)
      exact ⟨by simpa using hne', by simpa using hne'⟩
    · exact ⟨u, digest,
        b, by rw [hunlocked]; exact (HashMap.get_put_ne _ _ heq).trans hu, hx, hblobs ▸ hblob, ho⟩

/-- A call that is none of this key's changes. -/
theorem Handled.aside (hI : C.AeadIdeal) {t : Turn}
    (hno : ∀ old new, ¬ Rekeys C c x.keyId old new t) (hbefore : OpensBy C c x sk t.before.state p)
    (hafter : OpensBy C c x sk t.after.state p) :
    Handled C A c x sk t p p where
  before := hbefore.only hI
  after := hafter
  changed := fun old new _ h => absurd h (hno old new)
  wrong := fun old new h => absurd h (hno old new)

theorem Changes.handled (hC : C.CodecLaws) (ha : C.AeadLaws) (hI : C.AeadIdeal) {t : Turn}
    (h : Changes C c x.keyId t) (hx : Prog.Exec A (t.call.run C) t.before t.inputs t.result t.after)
    (hv : t.before.state.container.header.formatVersion = L1.formatVersion)
    (ho : OpensBy C c x sk t.before.state p) : ∃ q, Handled C A c x sk t p q := by
  by_cases hr : ∃ old new, Rekeys C c x.keyId old new t
  · obtain ⟨old, new, hr⟩ := hr
    exact hr.handled hC ha hI hx hv ho
  have hno : ∀ old new, ¬ Rekeys C c x.keyId old new t := fun old new h => hr ⟨old, new, h⟩
  refine ⟨p, .aside hI hno ho ?_⟩
  rcases h with hq | ⟨cid, kid, old, new, hcall, hids⟩
  · rw [hq.state]
    exact ho
  have hkid : parseUuid C kid ≠ .ok x.keyId := fun hk => hno old new ⟨cid, kid, hcall, hids hk, hk⟩
  rw [hcall] at hx
  cases Call.outcome _ hx with
  | same hq hr =>
    rw [hq.state]
    exact ho
  | unlocked c b key p hn => exact absurd trivial hn
  | locked hn => exact absurd trivial hn
  | done e s tail a he hc hg hr hs hd =>
    rw [hs]
    exact ho.other hc hkid
  | undone e s tail a he hc hg hr hs hd =>
    rw [hs]
    exact ho.other hc hkid

end

/-! ## A key of the sample vault -/

section
open VaultSigner.L2.Throttle
variable {v : Vault} {e : In} {k : Uuid} {label : String} {n : UInt32} {t : Option OffsetDateTime}
  {rest : List KeyEntry} {m : HashMap Uuid Bytes} {b : Bytes}

/-- A change of the sample vault's passphrases is its last region, if the
throttle admits it. -/
theorem rekey_exec {v' : Vault} {r : FacadeResult Unit} {old new : String} (he : e.Still 0)
    (hv : v.clock = 0) (ht : v.throttle = ThrottleTracker.new)
    (h : changePassphraseRegion Crates.symbolic (Uuid.rep 10) k old new e v = (r, v')) :
    Prog.Exec Vault.Admits
    ((Call.changeKeyPassphrase (hyphenated (Uuid.rep 10)) (hyphenated k) old new).run
      Crates.symbolic) v [e, e] (r.map fun _ => .unit) v' := by
  have hcheck : Prog.Exec Vault.Admits (throttleCheck (SecretId.key Crates.symbolic k)) v [e]
      (.ok ()) v := by
    refine exec_region_still he hv _ ?_
    rw [ht]
    rfl
  have hx :
    Prog.Exec Vault.Admits
    (changeKeyPassphrase Crates.symbolic (hyphenated (Uuid.rep 10)) (hyphenated k)
      old new) v ([e] ++ [e]) r v' := by
    unfold changeKeyPassphrase
    rw [uuidParse_symbolic, uuidParse_symbolic]
    exact hcheck.seq (exec_region_still he hv _ h)
  exact exec_replying.2 ⟨_, hx, rfl⟩

/-- Changing the first entry's passphrase. -/
theorem sample_rekey (h : FirstKey v k label n t rest m b) (he : e.Still 0) (hw : e.Works)
    (new : String) :
    ∃ v',
    Prog.Exec Vault.Admits
    ((Call.changeKeyPassphrase (hyphenated (Uuid.rep 10)) (hyphenated k) "pw" new).run
      Crates.symbolic) v [e, e] (.ok .unit) v' ∧ v'.clock = 0 ∧
      v'.throttle = ThrottleTracker.new := by
  obtain ⟨blob, hb, ho⟩ := opens_ok.1 h.seals
  obtain ⟨b', hseal, -⟩ := sealKey_symbolic hw sampleSecret_length new k .ed25519 label
  obtain ⟨key, hu⟩ := h.state.unlocked
  obtain ⟨u, hm⟩ : ∃ u : UnlockedCompartment,
      u = ⟨sampleManifest (labelledPasskey k label n t :: rest), key⟩ := ⟨_, rfl⟩
  have hget : v.state.unlocked.get (Uuid.rep 10) = some u := by rw [hu, HashMap.get_put_self, hm]
  obtain ⟨s, hs⟩ : ∃ s, s = (v.state.setUnlocked (Uuid.rep 10)
      (u.setDigest k (blobSha256Hex Crates.symbolic b'))).setKeyBlob k b' := ⟨_, rfl⟩
  have hg : GoesThrough Crates.symbolic e s (.persist (Uuid.rep 10)) := by
    refine goesThrough_persist hw (u := u.setDigest k (blobSha256Hex Crates.symbolic b')) ?_ ?_
    · rw [hs]
      exact HashMap.get_put_self _ _ _
    · exact setDigest_valid k b' (by rw [hm]; exact h.valid)
  obtain ⟨w, hpersist, -, hframe⟩ :=
    persistLocked_goesThrough (v := (v.log (.opened k b (utf8 "pw") .ed25519 label
    (.ok sampleSecret) v.state)).setThrottle
      (v.throttle.recordSuccess (SecretId.key Crates.symbolic k))) hg
  have hregion : changePassphraseRegion Crates.symbolic (Uuid.rep 10) k "pw" new e v =
      (.ok (), w) := by
    unfold changePassphraseRegion
    rw [h.state.firstBlob h.blob]
    simp only [hb, ho]
    unfold resealRegion
    rw [hseal]
    simp only [Vault.setThrottle_state, Vault.log_state, unlockedCompartment_ok.2 hget, ← hs]
    exact hpersist
  refine ⟨w, rekey_exec he h.clock h.throttle hregion, (congrArg Vault.clock hframe).trans h.clock,
    (congrArg Vault.throttle hframe).trans ?_⟩
  show v.throttle.recordSuccess _ = _
  rw [h.throttle]
  rfl

theorem sample_tells : Tells Crates.symbolic (utf8 "new") (utf8 "pw") := by
  intro params key hk hk'
  have hpw : utf8 "pw" = [112, 119] := by decide
  have hnew : utf8 "new" = [110, 101, 119] := by decide
  rw [hnew] at hk
  rw [hpw] at hk'
  exact absurd (derive_symbolic_head hk hk') (by decide)

theorem sample_opensBy (h : FirstKey v k label n t rest m b) :
    OpensBy Crates.symbolic (Uuid.rep 10) (labelledPasskey k label n t) sampleSecret v.state
    "pw" := by
  obtain ⟨key, hu⟩ := h.state.unlocked
  refine ⟨⟨sampleManifest (labelledPasskey k label n t :: rest), key⟩,
    (labelledPasskey k label n t).blobSha256, b,
    by rw [hu, HashMap.get_put_self], findKey_ok.2 ?_, ?_, h.seals⟩
  · simp [sampleManifest]
  · rw [h.state.keyBlobs]
    exact h.blob

end

/-! ## Any changes -/

/-- **Changing passphrases keeps the key.** In every state that can be
reached, and through any changes from there on: after one that succeeds the
blob opens with the new passphrase only, for the key that was there, and the
entry is as it was but for the blob's digest, also when the file is opened
again; one with a wrong passphrase fails and leaves state and file alone. -/
theorem passphrase_changes {C : Crates} {A : Vault → In → Prop} {c : Uuid} {x : KeyEntry}
    {sk : Bytes} {p : String} {v₀ v v' : Vault} {l₀ l : List Turn} (hC : C.CodecLaws)
    (ha : C.AeadLaws) (hI : C.AeadIdeal) (h₀ : Created C v₀ ∨ Opened C v₀)
    (h : Lifetime C A v₀ l₀ v) (hr : Run C A v l v') (hl : ∀ t ∈ l, Changes C c x.keyId t)
    (ho : OpensBy C c x sk v.state p) :
    ∃ q, Passphrases C A c x sk p l q ∧ OpensBy C c x sk v'.state q := by
  have hversion := (h.sound h₀).1
  induction hr with
  | nil => exact ⟨p, .nil, ho⟩
  | @cons l v₁ v₂ call es r hr hx ih =>
    obtain ⟨q, hq, hopen⟩ := ih fun t ht => hl t (List.mem_cons_of_mem _ ht)
    have hv : v₁.state.container.header.formatVersion = L1.formatVersion := (h.run hr).sound h₀ |>.1
    obtain ⟨q', hq'⟩ := (hl _ List.mem_cons_self).handled hC ha hI hx hv hopen
    exact ⟨q', hq.cons hq', hq'.after⟩

/-- An imported key gets a new passphrase, which the old one does not change
again. -/
theorem passphrase_changes_sample :
    ∃ v v₁ v₂ l es r, Lifetime Crates.symbolic Vault.Admits sampleVault l v ∧
    OpensBy Crates.symbolic (Uuid.rep 10) (samplePasskey (Uuid.rep 1) 5 none)
    sampleSecret v.state "pw" ∧
    Prog.Exec Vault.Admits
    ((Call.changeKeyPassphrase (hyphenated (Uuid.rep 10)) (hyphenated (Uuid.rep 1)) "pw"
      "new").run Crates.symbolic) v es (.ok .unit) v₁ ∧
    Resealed Crates.symbolic (Uuid.rep 10) (samplePasskey (Uuid.rep 1) 5 none)
    sampleSecret v₁.state "new" ∧
    Survives Crates.symbolic Vault.Admits (Uuid.rep 10) (samplePasskey (Uuid.rep 1) 5 none)
    sampleSecret v₁ "new" ∧
    Prog.Exec Vault.Admits
    ((Call.changeKeyPassphrase (hyphenated (Uuid.rep 10)) (hyphenated (Uuid.rep 1)) "pw"
      "newer").run Crates.symbolic) v₁ es r v₂ ∧
    (∃ e, r = .error e) ∧ v₂.state = v₁.state ∧ v₂.disk = v₁.disk := by
  obtain ⟨b, hb⟩ := sealsSample
  obtain ⟨a, v, h, hv, -⟩ := sampleVault_blank.import 5 hb
  have hopen := sample_opensBy hv.first
  obtain ⟨v₁, h₁, hclock, hthrottle⟩ :=
    sample_rekey hv.first sampleNext_still sampleNext_works "new"
  obtain ⟨r, v₂, hr⟩ : ∃ r v₂, changePassphraseRegion Crates.symbolic (Uuid.rep 10) (Uuid.rep 1)
    "pw" "newer"
    sampleNext v₁ = (r, v₂) := ⟨_, _, rfl⟩
  have h₂ := rekey_exec sampleNext_still hclock hthrottle hr
  have hrun := (Run.nil.cons h₁).cons h₂
  have hchanges : ∀ {old new : String} {v v' : Vault} {es : List In} {r : FacadeResult Reply},
      Changes Crates.symbolic (Uuid.rep 10) (Uuid.rep 1)
        ⟨v, .changeKeyPassphrase (hyphenated (Uuid.rep 10))
        (hyphenated (Uuid.rep 1)) old new, es, r, v'⟩ :=
    .inr ⟨_, _, _, _, rfl, fun _ => uuidParse_symbolic _⟩
  obtain ⟨q, hq, -⟩ :=
    passphrase_changes Crates.symbolic_codec Crates.symbolic_aead Crates.symbolic_ideal
    (.inl sampleVault_created) (.call .nil h) hrun
    (List.forall_mem_cons.2 ⟨hchanges, List.forall_mem_singleton.2 hchanges⟩) hopen
  obtain @⟨⟩ | ⟨hq, hlast⟩ := hq
  obtain @⟨⟩ | ⟨hq, hfirst⟩ := hq
  obtain @⟨⟩ | - := hq
  obtain ⟨rfl, -, hsealed, hsurvives⟩ := hfirst.changed "pw" "new" _
    ⟨_, _, rfl, uuidParse_symbolic _, uuidParse_symbolic _⟩ rfl
  have hno : ¬ OpensBy Crates.symbolic (Uuid.rep 10) (labelledPasskey (Uuid.rep 1) "passkey" 5 none)
      sampleSecret
      v₁.state "pw" := by
    intro hold
    obtain ⟨u, b, -, -, hb, hopens⟩ := hsealed
    obtain ⟨-, -, b', -, -, hb', hold⟩ := hold
    rw [hb] at hb'
    cases hb'
    exact absurd ((hopens.only _ _ hold).2 sample_tells) (by decide)
  obtain ⟨-, herror, hstate, hdisk⟩ := hlast.wrong "pw" "newer"
    ⟨_, _, rfl, uuidParse_symbolic _, uuidParse_symbolic _⟩ hno
  exact ⟨v, v₁, v₂, _, _, _, .call .nil h, hopen, h₁, hsealed, hsurvives, h₂, herror, hstate, hdisk⟩

end VaultSigner.L5
