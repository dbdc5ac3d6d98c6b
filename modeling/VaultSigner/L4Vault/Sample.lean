import VaultSigner.L1Format.Symbolic
import VaultSigner.L4Vault.Alone

/-!
# A sample vault

Under the symbolic crates an operation that the core's own checks let through
does not fail, as long as the operating system does its part (`In.Works`).
`sampleVault` is what `create` makes there, on the inputs `sampleIn`; the
concrete runs of the later modules start from it.
-/
namespace VaultSigner.L4
open VaultSigner.Core VaultSigner.L1 VaultSigner.L2 VaultSigner.L2.Throttle VaultSigner.L3

/-- Some order in which a map can be walked. -/
noncomputable def sampleOrder (K : Type) : IterOrder K := .toList

noncomputable def sampleOrders : Orders :=
  ⟨sampleOrder _, sampleOrder _, sampleOrder _, sampleOrder _, sampleOrder _⟩

/-- Random bytes, a probe that is slow enough at once, and a file system that
takes the write. -/
structure In.Works (e : In) : Prop where
  salt : ∀ i, ∃ s, e.salt i = .ok s
  nonce : ∀ i, ∃ n, e.nonce i = .ok n
  elapsed : ∀ i, benchmarkTargetMin ≤ e.elapsed i
  io : e.io = .ok ()

noncomputable def sampleIn : In where
  now := 0
  utc := 0
  sweptAt := none
  uuid := fun i => Uuid.rep (UInt8.ofNat (10 + i))
  salt := fun _ => .ok (Vector.replicate 16 0)
  nonce := fun _ => .ok (Vector.replicate 24 0)
  seed := .ok (Vector.replicate 32 0)
  scalar := Vector.replicate 32 0
  elapsed := fun _ => benchmarkTargetMin
  orders := sampleOrders
  io := .ok ()
  reply := none

theorem sampleIn_works : sampleIn.Works :=
  ⟨fun _ => ⟨_, rfl⟩, fun _ => ⟨_, rfl⟩, fun _ => Nat.le_refl _, rfl⟩

/-! ## Nothing foreign fails -/

theorem writeAtomic_symbolic {e : In} (he : e.io = .ok ()) (c : Container) :
    ∃ b, writeAtomic Crates.symbolic e c = .ok b := by
  have harchive : ∃ b, c.toArchive Crates.symbolic e.orders = .ok b := by
    unfold Container.toArchive Container.buildEntries
    simp only [Crates.symbolic, mapErr, bind, Except.bind, pure, Except.pure]
    exact ⟨_, rfl⟩
  obtain ⟨b, hb⟩ := harchive
  exact ⟨b, (writeAtomic_ok e).2 ⟨hb, he⟩⟩

theorem goesThrough_write {e : In} (he : e.Works) (s : VaultState) :
    GoesThrough Crates.symbolic e s .write :=
  writeAtomic_symbolic he.io s.container

theorem goesThrough_persist {e : In} (he : e.Works) {s : VaultState} {c : Uuid}
    {u : UnlockedCompartment} (hu : s.unlocked.get c = some u) (hm : u.manifest.Valid) :
    GoesThrough Crates.symbolic e s (.persist c) := by
  obtain ⟨n, hn⟩ := he.nonce 1
  obtain ⟨b, hb⟩ := encryptWithKey_symbolic hm c u.masterKey hn
  obtain ⟨bytes, hw⟩ := writeAtomic_symbolic he.io (s.setMasterBlob c b).container
  exact ⟨u, b, bytes, hu, hb, hw⟩

theorem uuidParse_symbolic (u : Uuid) : parseUuid Crates.symbolic (hyphenated u) = .ok u := by
  simp only [parseUuid, Crates.symbolic, parseHyphenated_hyphenated]

/-! ## The vault -/

noncomputable def sampleVault : Vault :=
  (create Crates.symbolic sampleIn none "main" "pw" .desktop).2

theorem sampleVault_create :
    create Crates.symbolic sampleIn none "main" "pw" .desktop = (.ok (), sampleVault) := by
  have hok : (create Crates.symbolic sampleIn none "main" "pw" .desktop).1 = .ok () := by
    obtain ⟨kdf, hk⟩ := benchmark_symbolic sampleIn_works.salt sampleIn_works.elapsed .desktop
    obtain ⟨blob, hb⟩ := encryptWithKey_symbolic (Manifest.new_valid (sampleIn.uuid 1) sampleIn.utc)
      (sampleIn.uuid 0) (pad32 (utf8 "pw" ++ kdf.salt.toList))
      (show sampleIn.nonce 1 = .ok (Vector.replicate 24 0) from rfl)
    unfold create
    simp only [hk, derive_symbolic, hb, facade, bind, Except.bind, pure, Except.pure]
    rcases writeContainer_cases (C := Crates.symbolic) sampleIn (Vault.setState ⟨⟨Container.new, ∅⟩,
      ∅, L2.Throttle.ThrottleTracker.new, none, sampleIn.now, []⟩
      ((((⟨Container.new, ∅⟩ : VaultState).pushHeader ⟨sampleIn.uuid 0, "main", kdf⟩).setMasterBlob
        (sampleIn.uuid 0) blob).setUnlocked (sampleIn.uuid 0)
        ⟨Manifest.new (sampleIn.uuid 1) sampleIn.utc, pad32 (utf8 "pw" ++ kdf.salt.toList)⟩))
      with ⟨x, -, hn⟩ | ⟨bytes, -, hx⟩
    · obtain ⟨b, hw⟩ := writeAtomic_symbolic sampleIn_works.io _
      exact absurd hw (hn b)
    · exact congrArg Prod.fst hx
  exact Prod.ext hok rfl

theorem sampleVault_created : Created Crates.symbolic sampleVault :=
  ⟨sampleIn, none, "main", "pw", .desktop, sampleVault_create⟩

theorem sampleVault_clock : sampleVault.clock = 0 := (create_fresh _ _ _ _ _).clock

theorem sampleVault_admits : sampleVault.Admits sampleIn where
  clock := by rw [sampleVault_clock]; exact Nat.zero_le _
  swept := by simp [sampleIn]

/-- The inputs of the calls after that: other identifiers. -/
noncomputable def sampleNext : In :=
  { sampleIn with uuid := fun i => Uuid.rep (UInt8.ofNat (40 + i)) }

theorem sampleNext_works : sampleNext.Works :=
  ⟨fun _ => ⟨_, rfl⟩, fun _ => ⟨_, rfl⟩, fun _ => Nat.le_refl _, rfl⟩

theorem admits_sampleNext {v : Vault} (h : v.clock = 0) : v.Admits sampleNext :=
  ⟨by rw [h]; exact Nat.zero_le _, by simp [sampleNext, sampleIn]⟩

/-! ## Importing into it -/

/-- The sample compartment's manifest, with the entries `keys`. -/
def sampleManifest (keys : List KeyEntry) : Manifest := ⟨L1.manifestVersion, Uuid.rep 11, 0, keys⟩

def sampleLocal (keys : List KeyEntry) : List Merge.VaultCompartment :=
  [⟨Uuid.rep 10, "main", sampleManifest keys⟩]

/-- `s` has the one compartment of the sample vault, unlocked, with the
entries `keys`, and the key blobs `b`. -/
structure SampleState (s : VaultState) (keys : List KeyEntry) (b : HashMap Uuid Bytes) : Prop where
  header : ∃ kdf, s.container.header.compartments = [⟨Uuid.rep 10, "main", kdf⟩]
  unlocked : ∃ key, s.unlocked =
    (∅ : HashMap Uuid UnlockedCompartment).put (Uuid.rep 10) ⟨sampleManifest keys, key⟩
  keyBlobs : s.container.keyBlobs = b

theorem sampleVault_state : SampleState sampleVault.state [] ∅ := by
  obtain ⟨kdf, key, blob, bytes, -, -, -, hs, -, -⟩ := create_ok sampleVault_create
  rw [hs]
  exact ⟨⟨kdf, rfl⟩, ⟨key, rfl⟩, rfl⟩

theorem SampleState.localCompartments {s : VaultState} {keys : List KeyEntry}
    {b : HashMap Uuid Bytes} (h : SampleState s keys b) :
    L4.localCompartments s = sampleLocal keys := by
  obtain ⟨kdf, hh⟩ := h.header
  obtain ⟨key, hu⟩ := h.unlocked
  simp [L4.localCompartments, hh, hu, sampleLocal]

theorem SampleState.headerIds {s : VaultState} {keys : List KeyEntry} {b : HashMap Uuid Bytes}
    (h : SampleState s keys b) : L4.headerIds s = [Uuid.rep 10] := by
  obtain ⟨kdf, hh⟩ := h.header
  simp [L4.headerIds, hh]

theorem SampleState.get_unlocked {s : VaultState} {keys : List KeyEntry} {b : HashMap Uuid Bytes}
    (h : SampleState s keys b) {c : Uuid} {u : UnlockedCompartment}
    (hu : s.unlocked.get c = some u) : c = Uuid.rep 10 ∧ u.manifest = sampleManifest keys := by
  obtain ⟨key, hs⟩ := h.unlocked
  rw [hs, HashMap.get_put] at hu
  split at hu
  · rename_i hc
    cases hu
    exact ⟨hc, rfl⟩
  · cases hu

/-- The incoming entries as the merge into the sample compartment renames
them. -/
noncomputable def sampleRenamed (uuids : Nat → Uuid) (keys : List KeyEntry) (incoming : Manifest) :
    List KeyEntry :=
  Merge.renamedKeys Crates.symbolic uuids (sampleLocal keys) incoming

theorem SampleState.prepareMerge1 {s : VaultState} {keys : List KeyEntry} {incoming : Manifest}
    {b : HashMap Uuid Bytes} {e : In} (h : SampleState s keys b) (hi : incoming.Valid)
    (hm : (sampleManifest (keys ++ sampleRenamed e.uuid keys incoming)).Valid) :
    ∃ r, L4.prepareMerge1 Crates.symbolic e s (hyphenated (Uuid.rep 10))
    (jsonText incoming) = .ok r ∧
      r.updatedCompartments = sampleLocal (keys ++ sampleRenamed e.uuid keys incoming) ∧
      r.idRemap = Merge.remapKeys e.uuid (sampleLocal keys) incoming := by
  have htarget : Merge.extendTarget Crates.symbolic (Uuid.rep 10)
      (Merge.renamedKeys Crates.symbolic e.uuid (sampleLocal keys) incoming) (sampleLocal keys) =
      .ok (sampleLocal (keys ++ sampleRenamed e.uuid keys incoming)) :=
    Merge.extendTarget_ok.2 ⟨[], _, [], rfl, rfl, by simp, hm, rfl⟩
  have hmerge := (Merge.mergeReencrypt_ok hi).2 ⟨_, htarget, rfl⟩
  unfold L4.prepareMerge1
  rw [uuidParse_symbolic, fromJson_jsonText hi, h.localCompartments]
  simp only [facade, bind, Except.bind]
  exact ⟨_, by rw [hmerge], rfl, rfl⟩

/-- An import under option 1 into the sample compartment, which goes through. -/
theorem SampleState.merge1 {v : Vault} {keys : List KeyEntry} {incoming : Manifest}
    {b : HashMap Uuid Bytes} {e : In} (h : SampleState v.state keys b) (ha : v.Admits e)
    (he : e.Works) (hi : incoming.Valid)
    (hm : (sampleManifest (keys ++ sampleRenamed e.uuid keys incoming)).Valid)
    (blobs : List IncomingKeyBlob) :
    ∃ a v', Prog.Exec Vault.Admits ((Call.mergeReencryptDiscardIncoming (hyphenated (Uuid.rep 10))
        (jsonText incoming) blobs).run Crates.symbolic) v [e] (.ok a) v' ∧
      SampleState v'.state (keys ++ sampleRenamed e.uuid keys incoming)
        (copyIncomingBlobs Crates.symbolic (Merge.remapKeys e.uuid (sampleLocal keys) incoming)
          blobs b) ∧
      v'.state.container.masterBlobs = v.state.container.masterBlobs ∧
      v' = { v.enter e with state := v'.state, disk := v'.disk } := by
  obtain ⟨r, hr, hup, hre⟩ := h.prepareMerge1 hi hm
  have hd : merge1Edit Crates.symbolic (hyphenated (Uuid.rep 10)) (jsonText incoming)
      blobs e v.state =
      .ok ⟨v.state.merge1 Crates.symbolic r blobs, .write,
        applyMergeResultMetadata Crates.symbolic e.orders r⟩ := by
    unfold merge1Edit
    rw [hr]
  obtain ⟨v', hx, hs, hv⟩ := exec_region_edit (f := Reply.merge)
    (fun e w => merge1Region_eq e w (hyphenated (Uuid.rep 10)) (jsonText incoming) blobs) ha hd
    (goesThrough_write he _)
  refine ⟨_, v', hx, ?_, by rw [hs]; rfl, hv⟩
  obtain ⟨key, hu⟩ := h.unlocked
  rw [hs]
  refine ⟨h.header, ⟨key, ?_⟩, ?_⟩
  · refine HashMap.ext_get fun k => ?_
    simp only [inMemory, VaultState.merge1, VaultState.copyBlobs, hup, sampleLocal,
      updateManifests, hu,
      HashMap.get_put_self]
    simp only [HashMap.get_put, HashMap.get_empty]
    split <;> rfl
  · simp only [inMemory, VaultState.merge1, VaultState.copyBlobs, hre, h.keyBlobs]

/-- Into an empty compartment the entries go as they are. -/
theorem sampleRenamed_nil (uuids : Nat → Uuid) (incoming : Manifest) :
    sampleRenamed uuids [] incoming = incoming.keys := by
  have key : ∀ (l : List KeyEntry) (i : Nat),
      Merge.renamedList Crates.symbolic (sampleLocal []) uuids i l = l := by
    intro l
    induction l with
    | nil => intro i; rfl
    | cons x l ih =>
      intro i
      have hx : Merge.renamed Crates.symbolic (sampleLocal []) (uuids i) x = x := by
        simp [Merge.renamed, Merge.firstMatch, Merge.entries, sampleLocal, sampleManifest]
      rw [Merge.renamedList, hx, ih (i + 1)]
  exact key incoming.keys 0

theorem sampleManifest_valid {m : Manifest} (h : m.Valid) : (sampleManifest m.keys).Valid :=
  ⟨rfl, h.keys, h.nodup⟩

/-- A manifest of one key. -/
def sampleImport : Manifest := Manifest.sample [KeyEntry.sample (Uuid.rep 1) "imported" none]

theorem sampleImport_valid : sampleImport.Valid := by
  refine ⟨rfl, ?_, by decide⟩
  intro k hk
  simp only [sampleImport, Manifest.sample, List.mem_cons, List.not_mem_nil, or_false] at hk
  subst hk
  exact KeyEntry.sample_valid _ _ _

/-- The sample vault after the import of `m` with these blobs. -/
theorem sampleVault_import {m : Manifest} (hm : m.Valid) (blobs : List IncomingKeyBlob) :
    ∃ a v, Prog.Exec Vault.Admits ((Call.mergeReencryptDiscardIncoming (hyphenated (Uuid.rep 10))
        (jsonText m) blobs).run Crates.symbolic) sampleVault [sampleNext] (.ok a) v ∧
      SampleState v.state m.keys (copyIncomingBlobs Crates.symbolic
        (Merge.remapKeys sampleNext.uuid (sampleLocal []) m) blobs ∅) ∧
      v.state.container.masterBlobs = sampleVault.state.container.masterBlobs ∧
      v = { sampleVault.enter sampleNext with state := v.state, disk := v.disk } := by
  have hv : (sampleManifest ([] ++ sampleRenamed sampleNext.uuid [] m)).Valid := by
    rw [sampleRenamed_nil]
    exact sampleManifest_valid hm
  obtain ⟨a, v, hx, hs, hb, hv⟩ := sampleVault_state.merge1 (admits_sampleNext sampleVault_clock)
    sampleNext_works hm hv blobs
  rw [sampleRenamed_nil] at hs
  exact ⟨a, v, hx, hs, hb, hv⟩

/-- A key sealed under the symbolic crates opens. -/
theorem sealKey_symbolic {e : In} (he : e.Works) {sk : Bytes} (hl : sk.length = 32) (pw : String)
    (k : Uuid) (ty : KeyType) (label : String) :
    ∃ b, sealKey Crates.symbolic e pw sk k ty label = .ok b ∧
      opens Crates.symbolic b (utf8 pw) k ty label = .ok sk := by
  obtain ⟨salt, hs⟩ := he.salt 0
  obtain ⟨n, hn⟩ := he.nonce 0
  have hlen : privateKeyLen ty = 32 := by cases ty <;> rfl
  have hseal : ∃ blob, keyblobSeal Crates.symbolic (utf8 pw) sk k ty label
      ⟨floorMemoryKib, floorIterations, floorParallelism, salt⟩ (e.nonce 0) = .ok blob := by
    unfold keyblobSeal
    rw [derive_symbolic, hn]
    simp only [hl, hlen, ne_eq, not_true_eq_false, if_false, aeadEncrypt, mapErr, Crates.symbolic,
      bind, Except.bind, pure, Except.pure]
    exact ⟨_, rfl⟩
  obtain ⟨blob, hb⟩ := hseal
  have hbytes : ∃ b, blob.toBytes Crates.symbolic = .ok b := by
    unfold KeyBlobOf.toBytes
    simp only [Crates.symbolic, mapErr]
    exact ⟨_, rfl⟩
  obtain ⟨b, hbytes⟩ := hbytes
  refine ⟨b, ?_, opens_ok.2 ⟨blob, KeyBlobOf.fromBytes_toBytes Crates.symbolic_codec hbytes,
    (keyblobOpen_keyblobSeal Crates.symbolic_aead hb).1⟩⟩
  unfold sealKey KdfParamsOf.new
  simp only [hs, mapErr, facade, bind, Except.bind, pure, Except.pure, hb, hbytes]

/-! ## A second compartment -/

def addCall : Call := .addCompartment "more" "second" .desktop

/-- Beside the sample compartment, there is room for another. -/
theorem exec_addCall {A : Vault → In → Prop} {v : Vault} (hA : A v sampleNext)
    (hids : headerIds v.state = [Uuid.rep 10]) : ∃ d v',
    addCompartmentEdit Crates.symbolic "more" "second" .desktop sampleNext v.state = .ok d ∧
    d.tail = .write ∧
    Prog.Exec A (addCall.run Crates.symbolic) v [sampleNext] (.ok (.compartment d.reply)) v' ∧
    v'.state = d.state ∧ headerIds d.state = [Uuid.rep 10, Uuid.rep 40] ∧
    v' = { v.enter sampleNext with state := v'.state, disk := v'.disk } := by
  obtain ⟨kdf, hk⟩ := benchmark_symbolic sampleNext_works.salt sampleNext_works.elapsed .desktop
  obtain ⟨b, hb⟩ := encryptWithKey_symbolic (Manifest.new_valid (sampleNext.uuid 1) sampleNext.utc)
    (sampleNext.uuid 0) (pad32 (utf8 "second" ++ kdf.salt.toList))
    (show sampleNext.nonce 1 = .ok (Vector.replicate 24 0) from rfl)
  obtain ⟨d, hd, htail, hpushed⟩ : ∃ d,
      addCompartmentEdit Crates.symbolic "more" "second" .desktop sampleNext
      v.state = .ok d ∧ d.tail = .write ∧ headerIds d.state = [Uuid.rep 10, Uuid.rep 40] := by
    unfold addCompartmentEdit prepareAddCompartment
    simp only [hk, derive_symbolic, hb, facade, bind, Except.bind, pure, Except.pure]
    refine ⟨_, rfl, rfl, ?_⟩
    rw [show headerIds (VaultState.addCompartment _ _ _ _) = _ from headerIds_push _ _, hids]
    rfl
  obtain ⟨v', hx, hs, hv⟩ := exec_region_edit (f := Reply.compartment)
    (fun e w => addCompartmentRegion_eq e w "more" "second" .desktop) hA hd
    (by rw [htail]; exact goesThrough_write sampleNext_works _)
  refine ⟨d, v', hd, htail, hx, ?_, hpushed, hv⟩
  rw [hs, htail]
  rfl

/-! ## Creating a key in it -/

def sampleArgs : CreateKeyArgs :=
  ⟨hyphenated (Uuid.rep 10), .ed25519, .customSigning, "key", "", "", [], "pw", none, none⟩

/-- Whatever becomes of the write. -/
theorem sampleArgs_prepared (io : VaultResult Unit) : ∃ k b,
    prepareCreateKey Crates.symbolic { sampleNext with io := io } sampleArgs =
    .ok (Uuid.rep 10, k, b) := by
  obtain ⟨b, hb, -⟩ := sealKey_symbolic sampleNext_works
    (show (List.replicate 32 (0 : UInt8)).length = 32 by simp) "pw" (sampleNext.uuid 1)
      .ed25519 "key"
  have hseal : sealKey Crates.symbolic { sampleNext with io := io } "pw" (List.replicate 32 0)
      (sampleNext.uuid 1) .ed25519 "key" = .ok b := hb
  have hgen : generate Crates.symbolic sampleNext.seed sampleNext.scalar .ed25519 =
      .ok ⟨.ed25519, List.replicate 32 0, List.replicate 32 0⟩ := rfl
  unfold prepareCreateKey
  simp only [sampleArgs, uuidParse_symbolic, createFido2, hgen, hseal, facade, bind,
    Except.bind, pure,
    Except.pure, Purpose.includesFido2]
  exact ⟨_, _, rfl⟩

theorem sampleNext_still : sampleNext.Still 0 := ⟨rfl, rfl⟩

/-! ## Passkeys -/

/-- A passkey of the relying party "rp". -/
def samplePasskey (k : Uuid) (signCount : UInt32) (lastUsedAt : Option OffsetDateTime) : KeyEntry :=
  { KeyEntry.sample k "passkey" (some (Fido2Info.sample "rp" "ab" signCount)) with lastUsedAt }

theorem samplePasskey_valid (k : Uuid) (n : UInt32) (t : Option OffsetDateTime) :
    (samplePasskey k n t).Valid :=
  let h := KeyEntry.sample_valid k "passkey" (some (Fido2Info.sample "rp" "ab" n))
  ⟨h.fido2, h.digest, h.publicKey⟩

theorem samplePasskeys_valid (k : Uuid) (n : UInt32) (t : Option OffsetDateTime) :
    (Manifest.sample [samplePasskey k n t]).Valid := by
  refine ⟨rfl, ?_, by simp [Manifest.sample, Manifest.keyIds]⟩
  intro x hx
  obtain rfl := List.mem_singleton.1 hx
  exact samplePasskey_valid k n t

/-- The same passkey under another label. -/
def labelledPasskey (k : Uuid) (label : String) (signCount : UInt32)
    (lastUsedAt : Option OffsetDateTime) :
    KeyEntry :=
  { samplePasskey k signCount lastUsedAt with label }

theorem labelledPasskey_valid (k : Uuid) (label : String) (n : UInt32) (t : Option OffsetDateTime) :
    (labelledPasskey k label n t).Valid :=
  let h := samplePasskey_valid k n t
  ⟨h.fido2, h.digest, h.publicKey⟩

def sampleSecret : Bytes := List.replicate 32 7

theorem sampleSecret_length : sampleSecret.length = 32 := by simp [sampleSecret]

/-- The passkey's blob. -/
def SealsSample (b : Bytes) : Prop :=
  opens Crates.symbolic b (utf8 "pw") (Uuid.rep 1) .ed25519 "passkey" = .ok sampleSecret

theorem sealsSample : ∃ b, SealsSample b := by
  obtain ⟨b, -, hb⟩ :=
    sealKey_symbolic sampleNext_works sampleSecret_length "pw" (Uuid.rep 1) .ed25519
    "passkey"
  exact ⟨b, hb⟩

/-- No other passphrase opens it. -/
theorem SealsSample.wrong {b : Bytes} (h : SealsSample b) : ∃ x,
    opens Crates.symbolic b (utf8 "no") (Uuid.rep 1) .ed25519 "passkey" = .error x := by
  cases ho : opens Crates.symbolic b (utf8 "no") (Uuid.rep 1) .ed25519 "passkey" with
  | error x => exact ⟨x, rfl⟩
  | ok sk =>
    obtain ⟨blob, hb, hp⟩ := opens_ok.1 h
    obtain ⟨blob', hb', hn⟩ := opens_ok.1 ho
    rw [hb] at hb'
    cases hb'
    obtain ⟨-, -, -, key, hk, hk'⟩ := keyblobOpen_ideal Crates.symbolic_ideal hp hn
    have hpw : utf8 "pw" = [112, 119] := by decide
    have hno : utf8 "no" = [110, 111] := by decide
    rw [hpw] at hk
    rw [hno] at hk'
    exact absurd (derive_symbolic_head hk hk') (by decide)

/-- No compartment but the sample one has a master blob. -/
def OnlyMain (s : VaultState) : Prop :=
  ∀ c b, s.container.masterBlobs.get c = some b → c = Uuid.rep 10

/-- The sample vault, with a passkey in it. -/
structure Imported (v : Vault) (n : UInt32) (t : Option OffsetDateTime) (b : Bytes) : Prop where
  only : OnlyMain v.state
  state : SampleState v.state [samplePasskey (Uuid.rep 1) n t]
    ((∅ : HashMap Uuid Bytes).put (Uuid.rep 1) b)
  seals : SealsSample b
  clock : v.clock = 0
  throttle : v.throttle = ThrottleTracker.new

/-- The passkey is cached. -/
structure Ready (v : Vault) (n : UInt32) (t : Option OffsetDateTime) (b : Bytes) : Prop extends
    Imported v n t b where
  retention : v.retention.get (Uuid.rep 1) = some ⟨sampleSecret, 300000000000, false⟩

/-- The sample vault, without a key. -/
structure Blank (v : Vault) : Prop where
  only : OnlyMain v.state
  state : SampleState v.state [] ∅
  clock : v.clock = 0
  throttle : v.throttle = ThrottleTracker.new

theorem sampleVault_blank : Blank sampleVault where
  only := by
    obtain ⟨kdf, key, blob, bytes, -, -, -, hs, -, -⟩ := create_ok sampleVault_create
    intro c b hb
    rw [hs] at hb
    simp only [VaultState.setUnlocked, VaultState.setMasterBlob, VaultState.pushHeader,
      HashMap.get_put] at hb
    split at hb
    · assumption
    · simp [Container.new] at hb
  state := sampleVault_state
  clock := sampleVault_clock
  throttle := (create_fresh _ _ _ _ _).throttle

/-- The call that imports the passkey. -/
noncomputable def importCall (n : UInt32) (b : Bytes) : Call :=
  .mergeReencryptDiscardIncoming (hyphenated (Uuid.rep 10))
    (jsonText (Manifest.sample [samplePasskey (Uuid.rep 1) n none])) [⟨hyphenated (Uuid.rep 1), b⟩]

theorem Blank.import {v : Vault} (h : Blank v) (n : UInt32) {b : Bytes} (hb : SealsSample b) :
    ∃ a v', Prog.Exec Vault.Admits ((importCall n b).run Crates.symbolic) v [sampleNext]
    (.ok a) v' ∧
      Imported v' n none b ∧ v'.retention = v.retention := by
  have hm := samplePasskeys_valid (Uuid.rep 1) n none
  have hall : (sampleManifest ([] ++ sampleRenamed sampleNext.uuid []
      (Manifest.sample [samplePasskey (Uuid.rep 1) n none]))).Valid := by
    rw [sampleRenamed_nil]
    exact sampleManifest_valid hm
  obtain ⟨a, v', hx, hs, hmaster, hv⟩ :=
    h.state.merge1 (admits_sampleNext h.clock) sampleNext_works hm
    hall [⟨hyphenated (Uuid.rep 1), b⟩]
  have honly : OnlyMain v'.state := by
    unfold OnlyMain
    rw [hmaster]
    exact h.only
  have hun : ¬ Merge.KeyIdFlagged (sampleLocal []) (samplePasskey (Uuid.rep 1) n none) := by
    simp [Merge.KeyIdFlagged, Merge.firstMatch, Merge.entries, sampleLocal, sampleManifest]
  rw [sampleRenamed_nil] at hs
  refine ⟨a, v', hx, ⟨honly, ⟨hs.header, hs.unlocked, ?_⟩, hb, by rw [hv]; rfl,
    by rw [hv]; exact h.throttle⟩, by rw [hv]; rfl⟩
  rw [hs.keyBlobs]
  simp [copyIncomingBlobs, Merge.remapKeys, Merge.remapOf, Manifest.sample, hun, Crates.symbolic,
    parseHyphenated_hyphenated]

/-! ### The first entry -/

section
variable {s : VaultState} {v : Vault} {e : In} {k : Uuid} {label : String} {n : UInt32}
  {t : Option OffsetDateTime} {keys rest : List KeyEntry} {m : HashMap Uuid Bytes} {b : Bytes}

/-- The sample vault's first entry is a passkey, whose blob opens. -/
structure FirstKey (v : Vault) (k : Uuid) (label : String) (n : UInt32) (t : Option OffsetDateTime)
    (rest : List KeyEntry) (m : HashMap Uuid Bytes) (b : Bytes) : Prop where
  only : OnlyMain v.state
  state : SampleState v.state (labelledPasskey k label n t :: rest) m
  valid : (sampleManifest (labelledPasskey k label n t :: rest)).Valid
  blob : m.get k = some b
  seals : opens Crates.symbolic b (utf8 "pw") k .ed25519 label = .ok sampleSecret
  clock : v.clock = 0
  throttle : v.throttle = ThrottleTracker.new

theorem Imported.first (h : Imported v n t b) :
    FirstKey v (Uuid.rep 1) "passkey" n t [] ((∅ : HashMap Uuid Bytes).put (Uuid.rep 1) b) b :=
  ⟨h.only, h.state, sampleManifest_valid (samplePasskeys_valid (Uuid.rep 1) n t),
    HashMap.get_put_self _ _ _,
    h.seals, h.clock, h.throttle⟩

theorem FirstKey.imported
    (h : FirstKey v (Uuid.rep 1) "passkey" n t [] ((∅ : HashMap Uuid Bytes).put (Uuid.rep 1) b) b) :
    Imported v n t b :=
  ⟨h.only, h.state, h.seals, h.clock, h.throttle⟩

theorem SampleState.firstBlob (h : SampleState s (labelledPasskey k label n t :: rest) m)
    (hb : m.get k = some b) : L4.lookupBlob s (Uuid.rep 10) k = .ok (.ed25519, label, b) := by
  obtain ⟨key, hu⟩ := h.unlocked
  have hget : L4.unlockedCompartment s (Uuid.rep 10) =
      .ok ⟨sampleManifest (labelledPasskey k label n t :: rest), key⟩ := by
    rw [unlockedCompartment_ok, hu, HashMap.get_put_self]
  unfold L4.lookupBlob
  simp [hget, findKey, sampleManifest, labelledPasskey, samplePasskey, KeyEntry.sample,
    h.keyBlobs, hb]

theorem SampleState.firstFound (h : SampleState s (labelledPasskey k label n t :: rest) m)
    (o : Orders) : L4.findKeyAnywhere o s k = some (.ed25519, Uuid.rep 10) := by
  obtain ⟨key, hu⟩ := h.unlocked
  simp [L4.findKeyAnywhere, hu, HashMap.iter_single, sampleManifest, labelledPasskey, samplePasskey,
    KeyEntry.sample]

theorem SampleState.lookupBlob (h : SampleState s [samplePasskey (Uuid.rep 1) n t] m)
    (hb : m.get (Uuid.rep 1) = some b) : L4.lookupBlob s (Uuid.rep 10) (Uuid.rep 1) =
      .ok (.ed25519, "passkey", b) :=
  have hfirst : SampleState s [labelledPasskey (Uuid.rep 1) "passkey" n t] m := h
  hfirst.firstBlob hb

theorem SampleState.findKeyAnywhere (h : SampleState s [samplePasskey (Uuid.rep 1) n t] m)
    (o : Orders) : L4.findKeyAnywhere o s (Uuid.rep 1) = some (.ed25519, Uuid.rep 10) :=
  have hfirst : SampleState s [labelledPasskey (Uuid.rep 1) "passkey" n t] m := h
  hfirst.firstFound o

/-- The compartment's entries in memory, edited. -/
theorem SampleState.setUnlocked {u : UnlockedCompartment} (h : SampleState s keys m)
    {keys' : List KeyEntry} (hu : u.manifest = sampleManifest keys') :
    SampleState (s.setUnlocked (Uuid.rep 10) u) keys' m where
  header := h.header
  unlocked := by
    obtain ⟨key, hs⟩ := h.unlocked
    refine ⟨u.masterKey, HashMap.ext_get fun k => ?_⟩
    rw [VaultState.setUnlocked, hs, ← hu]
    simp only [HashMap.get_put]
    split <;> rfl
  keyBlobs := h.keyBlobs

/-- ... and written. -/
theorem SampleState.persist (h : SampleState s keys m) (honly : OnlyMain s)
    (hv : (sampleManifest keys).Valid) (he : e.Works) :
    GoesThrough Crates.symbolic e s (.persist (Uuid.rep 10)) ∧
      SampleState (inMemory Crates.symbolic e s (.persist (Uuid.rep 10))) keys m ∧
      OnlyMain (inMemory Crates.symbolic e s (.persist (Uuid.rep 10))) := by
  obtain ⟨key, hu⟩ := h.unlocked
  obtain ⟨h1, h2, h3⟩ := inMemory_frame Crates.symbolic e s (.persist (Uuid.rep 10))
  refine ⟨goesThrough_persist he (by rw [hu]; exact HashMap.get_put_self _ _ _) hv,
    ⟨?_, ⟨key, h1.trans hu⟩, h3.trans h.keyBlobs⟩, fun c b hb => ?_⟩
  · rw [h2]
    exact h.header
  · rcases inMemory_masterBlobs hb with hc | hb
    · exact hc
    · exact honly c b hb

theorem FirstKey.unlockKey (h : FirstKey v k label n t rest m b) (he : e.Still 0) :
    ∃ v', Prog.Exec Vault.Admits
        ((Call.unlockKey (hyphenated (Uuid.rep 10)) (hyphenated k) "pw" 300).run Crates.symbolic) v
        [e, e, e, e, e] (.ok .unit) v' ∧
      FirstKey v' k label n t rest m b ∧
      v'.retention.get k = some ⟨sampleSecret, 300000000000, false⟩ := by
  obtain ⟨blob, hb, ho⟩ := opens_ok.1 h.seals
  have hcheck : v.throttle.check (SecretId.key Crates.symbolic k) 0 = .ok () := by
    rw [h.throttle]
    rfl
  obtain ⟨v', hx, hs, hclock, ht, hr⟩ :=
    unlockKey_exec he h.clock (uuidParse_symbolic _) (uuidParse_symbolic _)
    hcheck (h.state.firstBlob h.blob) hb ho 300 (by decide)
  refine ⟨v', hx, ⟨hs ▸ h.only, hs ▸ h.state, h.valid, h.blob, h.seals, hclock, ?_⟩, ?_⟩
  · rw [ht, h.throttle]
    rfl
  · rw [hr]
    exact HashMap.get_put_self _ _ _

end

/-- The call that caches the passkey for five minutes. -/
noncomputable def unlockKeyCall (pw : String) : Call :=
  .unlockKey (hyphenated (Uuid.rep 10)) (hyphenated (Uuid.rep 1)) pw 300

theorem Imported.unlockKey {v : Vault} {n : UInt32} {t : Option OffsetDateTime} {b : Bytes} {e : In}
    (h : Imported v n t b) (he : e.Still 0) : ∃ es v', Prog.Exec Vault.Admits
      ((unlockKeyCall "pw").run Crates.symbolic) v es (.ok .unit) v' ∧ Ready v' n t b := by
  obtain ⟨v', hx, hv, hr⟩ := h.first.unlockKey he
  exact ⟨_, v', hx, hv.imported, hr⟩

/-- The run that imports the passkey. -/
theorem samplePasskey_imported (n : UInt32) :
    ∃ t v b, Run Crates.symbolic Vault.Admits sampleVault [t] v ∧
    Imported v n none b ∧ v.retention.get (Uuid.rep 1) = none ∧ t.call = importCall n b ∧
    ∃ a, t.result = .ok a := by
  obtain ⟨b, hb⟩ := sealsSample
  obtain ⟨a, v, hx, hv, hr⟩ := sampleVault_blank.import n hb
  refine ⟨_, v, b, .cons .nil hx, hv, ?_, rfl, a, rfl⟩
  rw [hr, show sampleVault.retention = ∅ from (create_fresh _ _ _ _ _).retention]
  exact HashMap.get_empty _

/-- A run that leads to the cached passkey. -/
theorem samplePasskey_ready (n : UInt32) :
    ∃ l v b, Run Crates.symbolic Vault.Admits sampleVault l v ∧
    Ready v n none b ∧ l.map Turn.call = [unlockKeyCall "pw", importCall n b] ∧
    ∀ t ∈ l, ∃ a, t.result = .ok a := by
  obtain ⟨t, v, b, hrun, hv, -, hcall, ht⟩ := samplePasskey_imported n
  obtain ⟨es, v', hx', hv'⟩ := hv.unlockKey sampleNext_still
  exact ⟨_, v', b, .cons hrun hx', hv', by simp [hcall], by simpa using ht⟩

/-! ## Sign requests -/

theorem sampleSecret_signs (m : Bytes) :
    ∃ sig, keysSign Crates.symbolic .ed25519 sampleSecret m = .ok sig := by
  unfold keysSign
  simp [sampleSecret_length]

theorem SampleState.findForProtocol {s : VaultState} {n : UInt32} {t : Option OffsetDateTime}
    {m : HashMap Uuid Bytes} (h : SampleState s [samplePasskey (Uuid.rep 1) n t] m) (o : Orders) :
    L4.findForProtocol o s (Uuid.rep 1) = some (.ed25519, [], Uuid.rep 10) := by
  obtain ⟨key, hu⟩ := h.unlocked
  have hget : L4.unlockedCompartment s (Uuid.rep 10) =
      .ok ⟨sampleManifest [samplePasskey (Uuid.rep 1) n t], key⟩ := by
    rw [unlockedCompartment_ok, hu, HashMap.get_put_self]
  unfold L4.findForProtocol
  rw [h.findKeyAnywhere]
  simp [hget, findKey, sampleManifest, samplePasskey, KeyEntry.sample, hexDecode, hexDecodeChars]

/-- Under the symbolic crates a request is the `key_id` it names. -/
theorem sampleSignRequest : SignRequest Crates.symbolic (Uuid.rep 1).asBytes (Uuid.rep 1) [] := by
  refine ⟨_, ⟨hexEncode (Uuid.rep 1).asBytes, "", none⟩, rfl, rfl, rfl, ?_, rfl⟩
  decide

/-- A sign request by the cached passkey, whatever the throttle has counted. -/
theorem SampleState.served {v : Vault} {n : UInt32} {t : Option OffsetDateTime}
    {m : HashMap Uuid Bytes} (h : SampleState v.state [samplePasskey (Uuid.rep 1) n t] m)
    (hv : v.clock = 0)
    (ht : v.throttle.check (SecretId.key Crates.symbolic (Uuid.rep 1)) 0 = .ok ())
    (hk : v.retention.get (Uuid.rep 1) = some ⟨sampleSecret, 300000000000, false⟩)
    (caller : String) :
    ∃ sig id, keysSign Crates.symbolic .ed25519 sampleSecret [] = .ok sig ∧
      Prog.Walk Vault.Admits (handleProtocolRequest Crates.symbolic caller (Uuid.rep 1).asBytes)
        (servedMoves Crates.symbolic v v sampleNext (Uuid.rep 1)
          ⟨sampleSecret, 300000000000, false⟩)
        (.done (.ok (signatureReply Crates.symbolic id sig []))) := by
  obtain ⟨sig, hs⟩ := sampleSecret_signs []
  obtain ⟨id, hw⟩ :=
    served_walk sampleNext_still (Nat.le_of_eq hv) (enter_still sampleNext_still hv).symm
    sampleSignRequest caller ht
    (h.findForProtocol sampleNext.orders) hk (.inr (by decide)) hs
  exact ⟨sig, id, hs, hw⟩

end VaultSigner.L4
