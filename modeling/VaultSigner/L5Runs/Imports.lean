import VaultSigner.L3Logic.MergeIds
import VaultSigner.L4Vault.Sample

/-!
# What an import does to the key blobs (`copy_incoming_blobs`)

A merge decides about `key_id`s and labels in the manifests it sees, the
unlocked ones, and then copies the caller's blobs into the container as they
come, each to the id it is listed under or to the id that one was remapped
to. `Import` is an accepted merge: what it was computed from and the state it
edits.

Results:
* `get_copyIncomingBlobs`: what a `key_id` maps to after the copy.
* `import_keepsBlobs_iff`: when an import overwrites no stored blob.
* `import_opens_iff`: when an imported key still opens.
-/
namespace VaultSigner.L5
open VaultSigner.Core VaultSigner.L1 VaultSigner.L3 VaultSigner.L4
open VaultSigner.L3.Merge (MergeOption MergeResult KeyIdFlagged firstMatch renamed renamedKeys
  remapKeys importedLabel endsWith FreshFor)

/-! ## An accepted merge -/

structure Import where
  incoming : Manifest
  blobs : List IncomingKeyBlob
  /-- the supply of fresh `key_id`s -/
  uuids : Nat → Uuid
  option : MergeOption
  result : MergeResult
  state : VaultState

/-- The compartment that gets the incoming entries. -/
def Import.target (i : Import) : Uuid :=
  match i.option with
  | .reencrypt t => t
  | .sideBySide n _ => n
  | .replace t _ => t

/-- The call is a merge that its checks accept, and this is its import. -/
inductive Imports (C : Crates) (e : In) (s : VaultState) : Call → Import → Prop
  | reencrypt {target json : String} (blobs : List IncomingKeyBlob) {t : Uuid} {m : Manifest}
      {r : MergeResult} (ht : parseUuid C target = .ok t)
      (hm : Manifest.fromJson C (utf8 json) = .ok m)
        (hp : prepareMerge1 C e s target json = .ok r) :
      Imports C e s (.mergeReencryptDiscardIncoming target json blobs)
        ⟨m, blobs, e.uuid, .reencrypt t, r, s.merge1 C r blobs⟩
  | sideBySide {json label passphrase : String} {profile : DeviceProfile}
      (blobs : List IncomingKeyBlob) {m : Manifest} {r : MergeResult} {kdf : KdfParams}
      {u : UnlockedCompartment} {b : Bytes} (hm : Manifest.fromJson C (utf8 json) = .ok m)
      (hp : prepareMerge2 C e s json label passphrase profile = .ok (r, kdf, u, b)) :
      Imports C e s (.mergeSideBySide json blobs label passphrase profile)
        ⟨m, blobs, fun i => e.uuid (i + 2), .sideBySide (e.uuid 0) label, r, VaultState.copyBlobs C
          (s.addCompartment ⟨e.uuid 0, label, kdf⟩ b u) r.idRemap blobs⟩
  | replace {target json passphrase kdfJson phrase : String} (blobs : List IncomingKeyBlob)
      {t : Uuid} {m : Manifest} {r : MergeResult} {kdf : KdfParams} {u : UnlockedCompartment}
      {b : Bytes} (hm : Manifest.fromJson C (utf8 json) = .ok m)
      (hp : prepareMerge3 C e s target json passphrase kdfJson phrase = .ok (t, r, kdf, u, b)) :
      Imports C e s (.mergeReplaceLocalWithIncoming target json blobs passphrase kdfJson phrase)
        ⟨m, blobs, e.uuid, .replace t phrase, r, VaultState.copyBlobs C
          (s.replaceMaster t kdf b u) r.idRemap blobs⟩

def IsMerge : Call → Prop
  | .mergeReencryptDiscardIncoming .. | .mergeSideBySide .. | .mergeReplaceLocalWithIncoming .. =>
    True
  | _ => False

section
variable {C : Crates} {e : In} {s : VaultState} {call : Call} {i : Import}

theorem Imports.valid (h : Imports C e s call i) : i.incoming.Valid := by
  cases h with
  | reencrypt blobs ht hm hp => exact ((Manifest.fromJson_ok C _ _).1 hm).2
  | sideBySide blobs hm hp => exact ((Manifest.fromJson_ok C _ _).1 hm).2
  | replace blobs hm hp => exact ((Manifest.fromJson_ok C _ _).1 hm).2

/-- The merge ran on the unlocked compartments. -/
theorem Imports.run (h : Imports C e s call i) :
    i.option.run C i.uuids (localCompartments s) i.incoming = .ok i.result := by
  cases h with
  | reencrypt blobs ht hm hp =>
    obtain ⟨t, m, ht', hm', hr⟩ := prepareMerge1_ok hp
    rw [ht] at ht'
    rw [hm] at hm'
    cases ht'
    cases hm'
    exact hr
  | sideBySide blobs hm hp =>
    obtain ⟨m, hm', hr, -⟩ := prepareMerge2_ok hp
    rw [hm] at hm'
    cases hm'
    exact hr
  | replace blobs hm hp =>
    obtain ⟨m, -, hm', hr, -⟩ := prepareMerge3_ok hp
    rw [hm] at hm'
    cases hm'
    exact hr

theorem Imports.keyBlobs (h : Imports C e s call i) : i.state.container.keyBlobs =
    copyIncomingBlobs C i.result.idRemap i.blobs s.container.keyBlobs := by
  cases h <;> rfl

theorem Imports.unique {j : Import} (h : Imports C e s call i) (h' : Imports C e s call j) :
    j = i := by
  cases h with
  | reencrypt blobs ht hm hp =>
    cases h' with
    | reencrypt _ ht' hm' hp' =>
      rw [ht] at ht'; rw [hm] at hm'; rw [hp] at hp'
      cases ht'; cases hm'; cases hp'
      rfl
  | sideBySide blobs hm hp =>
    cases h' with
    | sideBySide _ hm' hp' =>
      rw [hm] at hm'; rw [hp] at hp'
      cases hm'; cases hp'
      rfl
  | replace blobs hm hp =>
    cases h' with
    | replace _ hm' hp' =>
      rw [hm] at hm'; rw [hp] at hp'
      cases hm'; cases hp'
      rfl

/-- The edit of a merge call is its import, if it has one. -/
theorem merge_edits {A : Vault → In → Prop} {v : Vault} {es : List In} {d : Edit Reply}
    (hm : IsMerge call) (h : call.Edits C A v es e (.ok d)) :
    d.tail = .write ∧ ∃ i, Imports C e v.state call i ∧ d.state = i.state := by
  generalize hq : (Except.ok d : FacadeResult (Edit Reply)) = q at h
  cases h with
  | merge1 target json blobs e =>
    unfold merge1Edit at hq
    split at hq
    · cases hq
    · rename_i r hp
      cases hq
      obtain ⟨t, m, ht, hm, -⟩ := prepareMerge1_ok hp
      exact ⟨rfl, _, .reencrypt blobs ht hm hp, rfl⟩
  | merge2 json blobs label passphrase profile e =>
    unfold merge2Edit at hq
    split at hq
    · cases hq
    · rename_i r kdf u b hp
      cases hq
      obtain ⟨m, hm, -⟩ := prepareMerge2_ok hp
      exact ⟨rfl, _, .sideBySide blobs hm hp, rfl⟩
  | merge3 target json blobs passphrase kdfJson phrase e =>
    unfold merge3Edit at hq
    split at hq
    · cases hq
    · rename_i t r kdf u b hp
      cases hq
      obtain ⟨m, -, hm, -⟩ := prepareMerge3_ok hp
      exact ⟨rfl, _, .replace blobs hm hp, rfl⟩
  | _ => exact absurd hm id

theorem merge_edits_error {A : Vault → In → Prop} {v : Vault} {es : List In} {x : FacadeError}
    (h : call.Edits C A v es e (.error x)) : ¬ Imports C e v.state call i := by
  generalize hq : (Except.error x : FacadeResult (Edit Reply)) = q at h
  intro hi
  cases h with
  | merge1 target json blobs e =>
    cases hi with
    | reencrypt _ ht hm hp =>
      unfold merge1Edit at hq
      rw [hp] at hq
      cases hq
  | merge2 json blobs label passphrase profile e =>
    cases hi with
    | sideBySide _ hm hp =>
      unfold merge2Edit at hq
      rw [hp] at hq
      cases hq
  | merge3 target json blobs passphrase kdfJson phrase e =>
    cases hi with
    | replace _ hm hp =>
      unfold merge3Edit at hq
      rw [hp] at hq
      cases hq
  | _ => cases hi

/-- **A merge, run.** It is rejected and changes nothing, or it edits the
state as its import says and writes the file, which may fail. -/
theorem merge_exec {A : Vault → In → Prop} {v v' : Vault} {es : List In} {r : FacadeResult Reply}
    (hm : IsMerge call) (hx : Prog.Exec A (call.run C) v es r v') : ∃ e, es = [e] ∧
      (((∃ x, r = .error x) ∧ Quiet v v' ∧ ∀ i, ¬ Imports C e v.state call i) ∨
      ∃ i, Imports C e v.state call i ∧ v'.state = i.state ∧
        ((∃ x, r = .error x ∧ v'.disk = v.disk) ∨
          ∃ a bytes, r = .ok a ∧ i.state.container.toArchive C e.orders = .ok bytes ∧
            v'.disk = some bytes)) := by
  have key : ∃ e q, es = [e] ∧ call.Edits C A v [e] e q ∧ Agrees (r, v') (mutate C e v q) := by
    cases call with
    | mergeReencryptDiscardIncoming t j b =>
      exact exec_region_cases (fun e w => merge1Region_eq e w t j b) (.merge1 t j b) hx
    | mergeSideBySide j b l p d =>
      exact exec_region_cases (fun e w => merge2Region_eq e w j b l p d) (.merge2 j b l p d) hx
    | mergeReplaceLocalWithIncoming t j b p k c =>
      exact exec_region_cases (fun e w => merge3Region_eq e w t j b p k c) (.merge3 t j b p k c) hx
    | _ => exact absurd hm id
  obtain ⟨e, q, rfl, hq, h1, h2, h3⟩ := key
  refine ⟨e, rfl, ?_⟩
  simp only at h1 h2 h3
  cases hr : (mutate C e v q).1 with
  | ok a =>
    obtain ⟨d, rfl, -, hg, hs, hd⟩ := mutate_ok e v hr
    obtain ⟨ht, i, hi, hst⟩ := merge_edits hm hq
    rw [ht] at hg hs hd
    obtain ⟨bytes, hw⟩ := hg
    simp only [inMemory, written, hw, Except.toOption] at hs hd
    refine .inr ⟨i, hi, h2.trans (hs.trans hst), .inr ⟨a, bytes, h1.trans hr, ?_, h3.trans hd⟩⟩
    rw [← hst]
    exact ((writeAtomic_ok e).1 hw).1
  | error x =>
    obtain ⟨hd, ⟨rfl, hs⟩ | ⟨d, rfl, hn, hs⟩⟩ := mutate_error e v hr
    · exact .inl ⟨⟨x, h1.trans hr⟩, ⟨h2.trans hs, h3.trans hd⟩, fun i => merge_edits_error hq⟩
    · obtain ⟨ht, i, hi, hst⟩ := merge_edits hm hq
      rw [ht] at hs
      exact .inr ⟨i, hi, h2.trans (hs.trans hst), .inl ⟨x, h1.trans hr, h3.trans hd⟩⟩

end

/-! ## Where the blobs land -/

section
variable (C : Crates)

/-- Where a supplied blob goes. -/
def landing (remap : HashMap Uuid Uuid) (b : IncomingKeyBlob) : Option Uuid :=
  (C.uuidParse b.keyId).toOption.map fun k => (remap.get k).getD k

/-- The last blob supplied for `k`. -/
def lastFor (blobs : List IncomingKeyBlob) (k : Uuid) : Option IncomingKeyBlob :=
  blobs.reverse.find? fun b => (C.uuidParse b.keyId).toOption = some k

theorem get_copyIncomingBlobs (remap : HashMap Uuid Uuid) (k : Uuid) :
    ∀ (blobs : List IncomingKeyBlob) (m : HashMap Uuid Bytes),
      (copyIncomingBlobs C remap blobs m).get k =
        match blobs.reverse.find? fun b => landing C remap b = some k with
        | some b => some b.blobBytes
        | none => m.get k := by
  intro blobs
  induction blobs with
  | nil => intro m; rfl
  | cons b rest ih =>
    intro m
    rw [List.reverse_cons, List.find?_append]
    unfold copyIncomingBlobs
    cases hp : C.uuidParse b.keyId with
    | error x =>
      have hb : landing C remap b = none := by simp [landing, hp, Except.toOption]
      simp only
      rw [ih]
      cases rest.reverse.find? fun b => landing C remap b = some k with
      | some b' => rfl
      | none => simp [hb]
    | ok id =>
      have hb : landing C remap b = some ((remap.get id).getD id) := by
        simp [landing, hp, Except.toOption]
      simp only
      rw [ih]
      cases rest.reverse.find? fun b => landing C remap b = some k with
      | some b' => rfl
      | none =>
        simp only [Option.none_or, List.find?_cons, hb, Option.some.injEq, List.find?_nil]
        rw [HashMap.get_put]
        by_cases hk : (remap.get id).getD id = k
        · simp [hk]
        · simp [hk, Ne.symm hk]

end

/-- Some incoming entry with this id gets a fresh one. -/
def Remapped (loc : List Merge.VaultCompartment) (incoming : Manifest) (k : Uuid) : Prop :=
  ∃ e ∈ incoming.keys, e.keyId = k ∧ KeyIdFlagged loc e

section
variable {C : Crates} {loc : List Merge.VaultCompartment} {uuids : Nat → Uuid} {incoming : Manifest}

/-- A blob lands on an id that no entry drew only by being listed under it. -/
theorem landing_iff (hi : incoming.Valid) {k : Uuid}
    (hf : ∀ j < incoming.keys.length, uuids j ≠ k) (b : IncomingKeyBlob) :
    landing C (remapKeys uuids loc incoming) b = some k ↔
      (C.uuidParse b.keyId).toOption = some k ∧ ¬ Remapped loc incoming k := by
  unfold landing
  cases hp : (C.uuidParse b.keyId).toOption with
  | none => simp
  | some id =>
    simp only [Option.map_some, Option.some.injEq]
    cases hr : (remapKeys uuids loc incoming).get id with
    | none =>
      simp only [Option.getD_none]
      constructor
      · rintro rfl
        refine ⟨rfl, ?_⟩
        rintro ⟨e, he, hk, hfl⟩
        obtain ⟨j, hj⟩ := List.mem_iff_getElem?.1 he
        have := (Merge.get_remapKeys hi id (uuids j)).2 ⟨j, e, hj, hk, hfl, rfl⟩
        rw [hr] at this
        cases this
      · rintro ⟨rfl, -⟩
        rfl
    | some k' =>
      obtain ⟨j, e, hj, hk, hfl, rfl⟩ := (Merge.get_remapKeys hi id k').1 hr
      simp only [Option.getD_some]
      constructor
      · intro h
        exact absurd h (hf j (List.getElem?_eq_some_iff.1 hj).1)
      · rintro ⟨rfl, hn⟩
        exact absurd ⟨e, List.mem_iff_getElem?.2 ⟨j, hj⟩, hk, hfl⟩ hn

/-- What an existing id maps to after the copy. -/
theorem get_copied (hi : incoming.Valid) {k : Uuid} (hf : ∀ j < incoming.keys.length, uuids j ≠ k)
    (blobs : List IncomingKeyBlob) (m : HashMap Uuid Bytes) :
    (Remapped loc incoming k →
      (copyIncomingBlobs C (remapKeys uuids loc incoming) blobs m).get k = m.get k) ∧
    (¬ Remapped loc incoming k →
      (copyIncomingBlobs C (remapKeys uuids loc incoming) blobs m).get k =
        match lastFor C blobs k with
        | some b => some b.blobBytes
        | none => m.get k) := by
  rw [get_copyIncomingBlobs]
  constructor
  · intro hr
    have hnone : (blobs.reverse.find? fun b =>
        landing C (remapKeys uuids loc incoming) b = some k) = none := by
      rw [List.find?_eq_none]
      intro b _
      simp only [decide_eq_true_eq]
      exact fun h => ((landing_iff hi hf b).1 h).2 hr
    rw [hnone]
  · intro hr
    have hsame : (fun b => decide (landing C (remapKeys uuids loc incoming) b = some k)) =
        fun b => decide ((C.uuidParse b.keyId).toOption = some k) := by
      funext b
      rw [decide_eq_decide, landing_iff hi hf b]
      exact and_iff_left hr
    simp only [hsame, lastFor]

end

/-! ## An import overwrites nothing -/

/-- Every key blob there was is still there, in memory and, if the call
succeeded, in the file it wrote. -/
structure KeepsBlobs (C : Crates) (v v' : Vault) (r : FacadeResult Reply) : Prop where
  memory : ∀ k x, v.state.container.keyBlobs.get k = some x →
    v'.state.container.keyBlobs.get k = some x
  file : ∀ a, r = .ok a → ∃ bytes, v'.disk = some bytes ∧
    ∀ o, ∃ c, Container.fromBytes C o bytes = .ok c ∧
      ∀ k x, v.state.container.keyBlobs.get k = some x → c.keyBlobs.get k = some x

/-- **When an import destroys no key.** A merge, called in any state there
is, keeps every stored key blob exactly when, for each of them, the last
incoming blob listed under its `key_id` (if there is one) has the same bytes
or goes elsewhere, the `key_id` being that of an incoming entry which the
unlocked manifests flag. -/
theorem import_keepsBlobs_iff (C : Crates) (hC : C.CodecLaws) {v₀ v v' : Vault} {l : List Turn}
    {call : Call} {e : In} {r : FacadeResult Reply} (h₀ : Created C v₀ ∨ Opened C v₀)
    (h : Run C Vault.Admits v₀ l v) (hm : IsMerge call)
    (hx : Prog.Exec Vault.Admits (call.run C) v [e] r v')
    (hfresh : ∀ i, Imports C e v.state call i → ∀ j < i.incoming.keys.length,
      v.state.container.keyBlobs.get (i.uuids j) = none) :
    KeepsBlobs C v v' r ↔ ∀ i, Imports C e v.state call i →
      ∀ k x, v.state.container.keyBlobs.get k = some x →
        Remapped (localCompartments v.state) i.incoming k ∨
          ∀ b, lastFor C i.blobs k = some b → b.blobBytes = x := by
  obtain ⟨e', he, hcases⟩ := merge_exec hm hx
  cases he
  rcases hcases with ⟨⟨x, rfl⟩, hq, hn⟩ | ⟨i, hi, hs, hd⟩
  · constructor
    · intro _ i hi
      exact absurd hi (hn i)
    · intro _
      exact ⟨fun k x hk => by rw [hq.state]; exact hk, by simp⟩
  · have hrun := Merge.run_ok hi.valid hi.run
    have hget : ∀ k x, v.state.container.keyBlobs.get k = some x →
        ((Remapped (localCompartments v.state) i.incoming k →
          v'.state.container.keyBlobs.get k = some x) ∧
        (¬ Remapped (localCompartments v.state) i.incoming k →
          v'.state.container.keyBlobs.get k = match lastFor C i.blobs k with
            | some b => some b.blobBytes
            | none => some x)) := by
      intro k x hk
      have hne : ∀ j < i.incoming.keys.length, i.uuids j ≠ k := by
        intro j hj hjk
        have := hfresh i hi j hj
        rw [hjk, hk] at this
        cases this
      rw [hs, hi.keyBlobs, hrun.2, ← hk]
      exact get_copied hi.valid hne i.blobs v.state.container.keyBlobs
    constructor
    · intro hk i' hi' k x hkx
      cases hi.unique hi'
      by_cases hr : Remapped (localCompartments v.state) i.incoming k
      · exact .inl hr
      · refine .inr fun b hb => ?_
        have h1 := (hget k x hkx).2 hr
        rw [hk.memory k x hkx, hb] at h1
        exact (Option.some.inj h1).symm
    · intro hc
      have hmem : ∀ k x, v.state.container.keyBlobs.get k = some x →
          v'.state.container.keyBlobs.get k = some x := by
        intro k x hkx
        by_cases hr : Remapped (localCompartments v.state) i.incoming k
        · exact (hget k x hkx).1 hr
        · rw [(hget k x hkx).2 hr]
          cases hl : lastFor C i.blobs k with
          | none => rfl
          | some b =>
            rcases hc i hi k x hkx with hr' | hb
            · exact absurd hr' hr
            · exact congrArg some (hb b hl)
      refine ⟨hmem, ?_⟩
      rintro a rfl
      rcases hd with ⟨x, hx', -⟩ | ⟨a', bytes, -, hw, hdisk⟩
      · cases hx'
      · refine ⟨bytes, hdisk, fun o => ⟨i.state.container, ?_, ?_⟩⟩
        · refine Container.fromBytes_toArchive hC ?_ hw o
          rw [← hs]
          exact (call.effect hx).header.1.trans (h.version h₀)
        · rw [← hs]
          exact hmem

/-- The sample vault with the key of `sampleImport` in it, sealed in `b`. -/
theorem sampleVault_imported (b : Bytes) : ∃ l v, Run Crates.symbolic Vault.Admits sampleVault l v ∧
    SampleState v.state sampleImport.keys ((∅ : HashMap Uuid Bytes).put (Uuid.rep 1) b) ∧
    v.clock = 0 := by
  obtain ⟨a, v, hx, hs, -, hv⟩ :=
    sampleVault_import sampleImport_valid [⟨hyphenated (Uuid.rep 1), b⟩]
  have hun : ¬ KeyIdFlagged (sampleLocal []) (KeyEntry.sample (Uuid.rep 1) "imported" none) := by
    decide
  refine ⟨_, v, .cons .nil hx, ⟨hs.header, hs.unlocked, ?_⟩, by rw [hv]; rfl⟩
  rw [hs.keyBlobs]
  simp [copyIncomingBlobs, remapKeys, Merge.remapOf, sampleImport, Manifest.sample, hun,
    Crates.symbolic, parseHyphenated_hyphenated]

/-- Imported twice, the key is flagged by itself, and goes in under a fresh id. -/
theorem sampleImport_flagged : KeyIdFlagged (sampleLocal sampleImport.keys)
    (KeyEntry.sample (Uuid.rep 1) "imported" none) := by decide

theorem sampleImport_twin :
    ∃ twin, sampleRenamed sampleNext.uuid sampleImport.keys sampleImport = [twin] ∧
    twin.keyId = Uuid.rep 40 ∧ (sampleManifest (sampleImport.keys ++
      sampleRenamed sampleNext.uuid sampleImport.keys sampleImport)).Valid := by
  obtain ⟨twin, hkeys, hid, hok⟩ : ∃ twin,
      sampleRenamed sampleNext.uuid sampleImport.keys sampleImport =
      [twin] ∧ twin.keyId = Uuid.rep 40 ∧ twin.Valid := by
    refine ⟨_, rfl, ?_, Merge.renamed_valid (KeyEntry.sample_valid _ _ _)⟩
    rw [Merge.renamed_keyId, if_pos sampleImport_flagged]
    rfl
  refine ⟨twin, hkeys, hid, ?_⟩
  rw [hkeys]
  refine ⟨rfl, ?_, ?_⟩
  · intro k hk
    rcases List.mem_append.1 hk with hk | hk
    · exact sampleImport_valid.keys k hk
    · rw [List.mem_singleton.1 hk]
      exact hok
  · simp [sampleManifest, Manifest.keyIds, sampleImport, Manifest.sample, KeyEntry.sample, hid,
      Uuid.rep_inj]

/-- ... and its blob under that id, beside the first. -/
theorem sampleImport_lands (b b' : Bytes) : copyIncomingBlobs Crates.symbolic
    (remapKeys sampleNext.uuid (sampleLocal sampleImport.keys) sampleImport)
    [⟨hyphenated (Uuid.rep 1), b'⟩] ((∅ : HashMap Uuid Bytes).put (Uuid.rep 1) b) =
    ((∅ : HashMap Uuid Bytes).put (Uuid.rep 1) b).put (Uuid.rep 40) b' := by
  have hremap : (remapKeys sampleNext.uuid (sampleLocal sampleImport.keys) sampleImport).get
      (Uuid.rep 1) = some (Uuid.rep 40) :=
    (Merge.get_remapKeys sampleImport_valid _ _).2 ⟨0, _, rfl, rfl, sampleImport_flagged, rfl⟩
  simp [copyIncomingBlobs, Crates.symbolic, parseHyphenated_hyphenated, hremap]

/-- A second import of the same key, with another blob. -/
theorem import_keepsBlobs_sample : ∃ l v a v', Run Crates.symbolic Vault.Admits sampleVault l v ∧
    v.state.container.keyBlobs.get (Uuid.rep 1) = some [1] ∧
    Prog.Exec Vault.Admits ((Call.mergeReencryptDiscardIncoming (hyphenated (Uuid.rep 10))
      (jsonText sampleImport) [⟨hyphenated (Uuid.rep 1), [2]⟩]).run Crates.symbolic) v [sampleNext]
      (.ok a) v' ∧
    v'.state.container.keyBlobs.get (Uuid.rep 40) = some [2] ∧
    KeepsBlobs Crates.symbolic v v' (.ok a) := by
  obtain ⟨l, v, hrun, hs, hclock⟩ := sampleVault_imported [1]
  obtain ⟨-, -, -, hvalid⟩ := sampleImport_twin
  obtain ⟨a, v', hx, hs', -⟩ := hs.merge1 (admits_sampleNext hclock) sampleNext_works
    sampleImport_valid hvalid [⟨hyphenated (Uuid.rep 1), [2]⟩]
  have hm : IsMerge (.mergeReencryptDiscardIncoming (hyphenated (Uuid.rep 10))
      (jsonText sampleImport) [⟨hyphenated (Uuid.rep 1), [2]⟩]) := trivial
  have hone : ∀ i, Imports Crates.symbolic sampleNext v.state (.mergeReencryptDiscardIncoming
      (hyphenated (Uuid.rep 10)) (jsonText sampleImport) [⟨hyphenated (Uuid.rep 1), [2]⟩]) i →
      i.incoming = sampleImport ∧ i.uuids = sampleNext.uuid := by
    intro i hi
    cases hi with
    | reencrypt blobs ht hm hp =>
      rw [fromJson_jsonText sampleImport_valid] at hm
      exact ⟨(Except.ok.inj hm).symm, rfl⟩
  refine ⟨l, v, a, v', hrun, ?_, hx, ?_,
    (import_keepsBlobs_iff Crates.symbolic Crates.symbolic_codec
    (.inl sampleVault_created) hrun hm hx fun i hi j hj => ?_).2 fun i hi k x hk => .inl ?_⟩
  · rw [hs.keyBlobs, HashMap.get_put_self]
  · rw [hs'.keyBlobs, sampleImport_lands, HashMap.get_put_self]
  · -- the fresh id is not taken
    rw [(hone i hi).1] at hj
    simp only [sampleImport, Manifest.sample, List.length_singleton] at hj
    obtain rfl : j = 0 := by omega
    rw [(hone i hi).2, hs.keyBlobs]
    exact HashMap.get_put_ne _ _ (by decide)
  · -- the one stored blob is that of the remapped entry
    rw [hs.keyBlobs, HashMap.get_put] at hk
    split at hk
    · rename_i hid
      rw [(hone i hi).1, hs.localCompartments, hid]
      exact ⟨_, List.mem_cons_self, rfl, sampleImport_flagged⟩
    · simp at hk

/-- **An import of nothing, with a blob listed under a local `key_id`.** The
incoming manifest has no entries, so nothing collides and nothing is
remapped; the local key's blob is gone. -/
theorem import_overwrites_blob : ∃ v₀ l v call e a v', Created Crates.symbolic v₀ ∧
    Run Crates.symbolic Vault.Admits v₀ l v ∧ IsMerge call ∧
    Prog.Exec Vault.Admits (call.run Crates.symbolic) v [e] (.ok a) v' ∧
    v.state.container.keyBlobs.get (Uuid.rep 1) = some [1] ∧
    v'.state.container.keyBlobs.get (Uuid.rep 1) = some [2] ∧
    ¬ KeepsBlobs Crates.symbolic v v' (.ok a) := by
  obtain ⟨l, v, hrun, hs, hclock⟩ := sampleVault_imported [1]
  have hempty : (Manifest.sample []).Valid := ⟨rfl, by simp [Manifest.sample], by decide⟩
  have hkeys : sampleRenamed sampleNext.uuid sampleImport.keys (Manifest.sample []) = [] := rfl
  obtain ⟨a, v', hx, hs', -⟩ := hs.merge1 (admits_sampleNext hclock) sampleNext_works hempty
    (by rw [hkeys, List.append_nil]; exact sampleManifest_valid sampleImport_valid)
    [⟨hyphenated (Uuid.rep 1), [2]⟩]
  have hbefore : v.state.container.keyBlobs.get (Uuid.rep 1) = some [1] := by
    rw [hs.keyBlobs, HashMap.get_put_self]
  have hafter : v'.state.container.keyBlobs.get (Uuid.rep 1) = some [2] := by
    rw [hs'.keyBlobs]
    simp [copyIncomingBlobs, remapKeys, Merge.remapOf, Manifest.sample, Crates.symbolic,
      parseHyphenated_hyphenated]
  have hm : IsMerge (.mergeReencryptDiscardIncoming (hyphenated (Uuid.rep 10))
      (jsonText (Manifest.sample [])) [⟨hyphenated (Uuid.rep 1), [2]⟩]) := trivial
  refine ⟨_, l, v, _, _, a, v', sampleVault_created, hrun, hm, hx, hbefore, hafter, fun h => ?_⟩
  have hkeep := h.memory _ _ hbefore
  rw [hafter] at hkeep
  cases hkeep

/-! ## An imported key opens -/

theorem importedLabel_eq (label : String) :
    importedLabel label = label ↔ endsWith label "(imported)" = true := by
  unfold importedLabel
  split
  · rename_i h; simp [h]
  · rename_i h
    constructor
    · intro he
      have hl := congrArg (fun s => s.toList.length) he
      simp at hl
    · intro he; exact absurd he h

section
variable {C : Crates} {loc : List Merge.VaultCompartment} {uuids : Nat → Uuid} {incoming : Manifest}

/-- The id an incoming entry's blob goes to is the entry's new id. -/
theorem landing_entry (hi : incoming.Valid) {j : Nat} {entry : KeyEntry}
    (hj : incoming.keys[j]? = some entry) :
    ((remapKeys uuids loc incoming).get entry.keyId).getD entry.keyId =
      (renamed C loc (uuids j) entry).keyId := by
  rw [Merge.renamed_keyId]
  by_cases hf : KeyIdFlagged loc entry
  · rw [if_pos hf, (Merge.get_remapKeys hi _ _).2 ⟨j, entry, hj, rfl, hf, rfl⟩]
    rfl
  · rw [if_neg hf]
    cases hr : (remapKeys uuids loc incoming).get entry.keyId with
    | none => rfl
    | some k' =>
      obtain ⟨j', e', hj', hk, hf', -⟩ := (Merge.get_remapKeys hi _ _).1 hr
      have hm : e' ∈ incoming.keys := List.mem_iff_getElem?.2 ⟨j', hj'⟩
      have hm' : entry ∈ incoming.keys := List.mem_iff_getElem?.2 ⟨j, hj⟩
      rw [List.inj_on_of_nodup_map hi.nodup hm hm' hk] at hf'
      exact absurd hf' hf

/-- With one blob for each entry, the blob of an entry is what its new id
maps to. -/
theorem get_copied_entry (hi : incoming.Valid)
    (hf : FreshFor uuids incoming.keys.length incoming.keyIds) {blobs : List IncomingKeyBlob}
    (hone : (blobs.map fun b => (C.uuidParse b.keyId).toOption).Perm (incoming.keyIds.map some))
    {j : Nat} {entry : KeyEntry} (hj : incoming.keys[j]? = some entry) {b : IncomingKeyBlob}
    (hb : b ∈ blobs) (hk : C.uuidParse b.keyId = .ok entry.keyId) (m : HashMap Uuid Bytes) :
    (copyIncomingBlobs C (remapKeys uuids loc incoming) blobs m).get
      (renamed C loc (uuids j) entry).keyId = some b.blobBytes := by
  have hnew : ∀ e ∈ incoming.keys, ∀ j < incoming.keys.length, uuids j ≠ e.keyId :=
    fun e he j hj hx => hf.new j hj (hx ▸ List.mem_map_of_mem he)
  have hnodup : ((renamedKeys C uuids loc incoming).map KeyEntry.keyId).Nodup :=
    Merge.renamedList_nodup hf.inj incoming.keys 0 (by omega) hnew hi.nodup
  have hland : landing C (remapKeys uuids loc incoming) b =
      some (renamed C loc (uuids j) entry).keyId := by
    simp only [landing, hk, Except.toOption, Option.map_some]
    rw [landing_entry hi hj]
  have honly : ∀ b' ∈ blobs, landing C (remapKeys uuids loc incoming) b' =
      some (renamed C loc (uuids j) entry).keyId → b' = b := by
    intro b' hb' hl
    have hin : (C.uuidParse b'.keyId).toOption ∈ incoming.keyIds.map some :=
      hone.mem_iff.1 (List.mem_map_of_mem (f := fun b => (C.uuidParse b.keyId).toOption) hb')
    obtain ⟨k', hk', hp⟩ := List.mem_map.1 hin
    obtain ⟨e', he', rfl⟩ := List.mem_map.1 hk'
    obtain ⟨j', hj'⟩ := List.mem_iff_getElem?.1 he'
    simp only [landing, ← hp, Option.map_some, Option.some.injEq] at hl
    rw [landing_entry (C := C) hi hj'] at hl
    -- the new ids are pairwise distinct, so the two entries are one
    have hpos : j' = j := by
      have h1 : ((renamedKeys C uuids loc incoming).map KeyEntry.keyId)[j']? =
          some (renamed C loc (uuids j') e').keyId := by
        simp [Merge.renamedList_getElem?, hj']
      have h2 : ((renamedKeys C uuids loc incoming).map KeyEntry.keyId)[j]? =
          some (renamed C loc (uuids j) entry).keyId := by
        simp [Merge.renamedList_getElem?, hj]
      rw [hl] at h1
      obtain ⟨l1, g1⟩ := List.getElem?_eq_some_iff.1 h1
      obtain ⟨l2, g2⟩ := List.getElem?_eq_some_iff.1 h2
      exact (hnodup.getElem_inj_iff).1 (g1.trans g2.symm)
    subst hpos
    rw [hj] at hj'
    cases hj'
    have hmap : (blobs.map fun b => (C.uuidParse b.keyId).toOption).Nodup :=
      hone.nodup_iff.2 (hi.nodup.map (Option.some_injective _))
    refine List.inj_on_of_nodup_map hmap hb' hb ?_
    rw [← hp, hk]
    rfl
  rw [get_copyIncomingBlobs]
  cases hfind : blobs.reverse.find? fun b' => landing C (remapKeys uuids loc incoming) b' =
      some (renamed C loc (uuids j) entry).keyId with
  | none =>
    rw [List.find?_eq_none] at hfind
    exact absurd hland (by simpa using hfind b (List.mem_reverse.2 hb))
  | some b' =>
    have hp := List.find?_some hfind
    have hm := List.mem_reverse.1 (List.mem_of_find?_eq_some hfind)
    rw [honly b' hm (by simpa using hp)]

/-- A renamed entry's blob opens exactly when neither its id nor its label
changed. -/
theorem opens_renamed_iff (ha : C.AeadBinds) {newId : Uuid} {entry : KeyEntry} {bytes pw sk : Bytes}
    (hnew : newId ≠ entry.keyId)
    (hsha : C.sha256 (keyMetadata entry.keyId entry.keyType (importedLabel entry.label)) =
      C.sha256 (keyMetadata entry.keyId entry.keyType entry.label) →
      importedLabel entry.label = entry.label)
    (h : opens C bytes pw entry.keyId entry.keyType entry.label = .ok sk) :
    opens C bytes pw (renamed C loc newId entry).keyId (renamed C loc newId entry).keyType
        (renamed C loc newId entry).label = .ok sk ↔
      firstMatch loc entry = none ∨
        (¬ KeyIdFlagged loc entry ∧ endsWith entry.label "(imported)" = true) := by
  obtain ⟨blob, hb, ho⟩ := opens_ok.1 h
  by_cases hn : firstMatch loc entry = none
  · have hr : renamed C loc newId entry = entry := by unfold renamed; rw [if_pos hn]
    rw [hr]
    exact ⟨fun _ => .inl hn, fun _ => h⟩
  · by_cases hf : KeyIdFlagged loc entry
    · have hid : (renamed C loc newId entry).keyId = newId := by
        rw [Merge.renamed_keyId, if_pos hf]
      constructor
      · intro h'
        obtain ⟨blob', hb', ho'⟩ := opens_ok.1 h'
        rw [hb] at hb'
        cases hb'
        rw [hid] at ho'
        exact absurd (keyblobOpen_keyId ha ho ho') hnew
      · rintro (hn' | ⟨hf', -⟩)
        · exact absurd hn' hn
        · exact absurd hf hf'
    · have hr : renamed C loc newId entry = { entry with label := importedLabel entry.label } := by
        unfold renamed; rw [if_neg hn, if_neg hf]
      rw [hr, ← importedLabel_eq]
      constructor
      · intro h'
        obtain ⟨blob', hb', ho'⟩ := opens_ok.1 h'
        rw [hb] at hb'
        cases hb'
        exact .inr ⟨hf, hsha (keyblobOpen_fingerprint ho ho').2⟩
      · rintro (hn' | ⟨-, hl⟩)
        · exact absurd hn' hn
        · simp only [hl]
          exact h

end

/-- The renamed entries are in a manifest in memory after the merge. -/
theorem Imports.in_memory {C : Crates} {e : In} {s : VaultState} {call : Call} {i : Import}
    (h : Imports C e s call i) (hn : (headerIds s).Nodup) (hf : e.uuid 0 ∉ headerIds s)
    {x : KeyEntry} (hx : x ∈ renamedKeys C i.uuids (localCompartments s) i.incoming) :
    ∃ c u, i.state.unlocked.get c = some u ∧ x ∈ u.manifest.keys := by
  have hv := h.valid
  have hrun := h.run
  cases h with
  | @reencrypt _ _ _ _ m _ ht hm hp =>
    simp only at hv hrun hx ⊢
    obtain ⟨updated, hu, rfl⟩ := (Merge.mergeReencrypt_ok hv).1 hrun
    obtain ⟨pre, c, post, hl, -, -, -, rfl⟩ := Merge.extendTarget_ok.1 hu
    obtain ⟨u, hcu, -⟩ := mem_localCompartments (s := s) (x := c) (by rw [hl]; simp)
    have hids := localCompartments_nodup hn
    rw [hl] at hids
    have hget := get_updateManifests
      (pre ++ Merge.extended c (renamedKeys C e.uuid (localCompartments s) m) :: post) s.unlocked
      (by simpa [Merge.extended] using hids) _ (List.mem_append_right _ List.mem_cons_self) u hcu
    exact ⟨_, _, hget, List.mem_append_right _ hx⟩
  | sideBySide blobs hm hp =>
    simp only at hv hrun hx ⊢
    obtain ⟨-, -, -, hman, -⟩ := prepareMerge2_ok hp
    obtain ⟨-, rfl⟩ := (Merge.mergeSideBySide_ok hv).1 hrun
    have hnone : (localCompartments s).find? (fun x => decide (x.id = e.uuid 0)) = none := by
      rw [List.find?_eq_none]
      intro y hy
      simp only [decide_eq_true_eq]
      exact fun hid => hf (hid ▸ mem_headerIds hy)
    unfold mergedManifest at hman
    rw [List.find?_append, hnone] at hman
    simp only [Option.none_or, List.find?_cons, decide_true, Except.ok.injEq] at hman
    refine ⟨e.uuid 0, _, HashMap.get_put_self _ _ _, ?_⟩
    rw [← hman]
    exact hx
  | @replace _ _ _ _ _ _ t m _ _ _ _ hm hp =>
    simp only at hv hrun hx ⊢
    obtain ⟨-, -, -, -, hman, -⟩ := prepareMerge3_ok hp
    obtain ⟨-, updated, hu, rfl⟩ := (Merge.mergeReplace_ok hv).1 hrun
    obtain ⟨pre, c, post, hl, hc, hpre, -, rfl⟩ := Merge.extendTarget_ok.1 hu
    have hnone : pre.find? (fun x => decide (x.id = t)) = none := by
      rw [List.find?_eq_none]
      intro y hy
      simpa using hpre y hy
    unfold mergedManifest at hman
    rw [List.find?_append, hnone] at hman
    simp only [Option.none_or, List.find?_cons, Merge.extended, hc, decide_true,
      Except.ok.injEq] at hman
    refine ⟨_, _, HashMap.get_put_self _ _ _, ?_⟩
    rw [← hman]
    exact List.mem_append_right _ hx

/-- **When an imported key stays usable.** After a merge that returns `Ok`,
supplied with exactly one blob for each entry, an entry whose blob opened
before is at the end of the destination, and opens there under the same
passphrase exactly when no unlocked local entry matches it, or the first that
does matches by credential alone and its label ends with "(imported)"
already: the renaming changes what the blob is bound to. -/
theorem import_opens_iff (C : Crates) (ha : C.AeadBinds) {A : Vault → In → Prop} {v v' : Vault}
    {call : Call} {e : In} {a : Reply} {i : Import} (hx : Prog.Exec A (call.run C) v [e] (.ok a) v')
    (hi : Imports C e v.state call i)
    (hone : (i.blobs.map fun b => (C.uuidParse b.keyId).toOption).Perm (i.incoming.keyIds.map some))
    (hfresh : FreshFor i.uuids i.incoming.keys.length i.incoming.keyIds) {j : Nat}
    {entry : KeyEntry} (hj : i.incoming.keys[j]? = some entry)
    (hsha : C.sha256 (keyMetadata entry.keyId entry.keyType (importedLabel entry.label)) =
      C.sha256 (keyMetadata entry.keyId entry.keyType entry.label) →
      importedLabel entry.label = entry.label) {b : IncomingKeyBlob} (hb : b ∈ i.blobs)
    (hk : C.uuidParse b.keyId = .ok entry.keyId) {pw sk : Bytes}
    (hopen : opens C b.blobBytes pw entry.keyId entry.keyType entry.label = .ok sk) :
    ∃ added entry', i.option.Places (localCompartments v.state) i.result.updatedCompartments
        i.incoming added ∧
      added[j]? = some entry' ∧ Merge.SameKey entry entry' ∧
      ((headerIds v.state).Nodup → e.uuid 0 ∉ headerIds v.state →
        ∃ c u, v'.state.unlocked.get c = some u ∧ entry' ∈ u.manifest.keys) ∧
      ((∃ bytes, v'.state.container.keyBlobs.get entry'.keyId = some bytes ∧
          opens C bytes pw entry'.keyId entry'.keyType entry'.label = .ok sk) ↔
        firstMatch (localCompartments v.state) entry = none ∨
          (¬ KeyIdFlagged (localCompartments v.state) entry ∧
            endsWith entry.label "(imported)" = true)) := by
  have hstate : v'.state = i.state := by
    have hm : IsMerge call := by cases hi <;> trivial
    obtain ⟨e', he, ⟨-, -, hn⟩ | ⟨i', hi', hs, -⟩⟩ := merge_exec hm hx
    · cases he
      exact absurd hi (hn i)
    · cases he
      cases hi.unique hi'
      exact hs
  have hentry : (renamedKeys C i.uuids (localCompartments v.state) i.incoming)[j]? =
      some (renamed C (localCompartments v.state) (i.uuids j) entry) := by
    rw [renamedKeys, Merge.renamedList_getElem?, hj]
    simp
  have hnew : i.uuids j ≠ entry.keyId := fun h =>
    hfresh.new j (List.getElem?_eq_some_iff.1 hj).1
      (h ▸ List.mem_map_of_mem (List.mem_iff_getElem?.2 ⟨j, hj⟩))
  refine ⟨_, _, Merge.run_places hi.valid hi.run, hentry, Merge.renamed_same _ _ _ _, ?_, ?_⟩
  · intro hn hf
    rw [hstate]
    exact hi.in_memory hn hf (List.mem_iff_getElem?.2 ⟨j, hentry⟩)
  · rw [hstate, hi.keyBlobs, (Merge.run_ok hi.valid hi.run).2,
      get_copied_entry hi.valid hfresh hone hj hb hk]
    rw [← opens_renamed_iff ha hnew hsha hopen]
    simp

/-- A sealed key for the entry of `sampleImport`. -/
theorem sampleImport_sealed : ∃ b, opens Crates.symbolic b (utf8 "pw") (Uuid.rep 1) .ed25519
    "imported" = .ok (List.replicate 32 7) := by
  obtain ⟨b, -, hb⟩ := sealKey_symbolic sampleNext_works
    (show (List.replicate 32 (7 : UInt8)).length = 32 by simp) "pw" (Uuid.rep 1) .ed25519 "imported"
  exact ⟨b, hb⟩

theorem sampleImport_one (b : Bytes) :
    ([⟨hyphenated (Uuid.rep 1), b⟩].map fun b : IncomingKeyBlob =>
    (Crates.symbolic.uuidParse b.keyId).toOption).Perm (sampleImport.keyIds.map some) := by
  simp [Crates.symbolic, parseHyphenated_hyphenated, Except.toOption, sampleImport, Manifest.sample,
    Manifest.keyIds, KeyEntry.sample]

theorem sampleNext_fresh :
    FreshFor sampleNext.uuid sampleImport.keys.length sampleImport.keyIds where
  inj := by
    intro i hi j hj _
    simp only [sampleImport, Manifest.sample, List.length_singleton] at hi hj
    omega
  new := by
    intro i hi
    simp only [sampleImport, Manifest.sample, List.length_singleton] at hi
    obtain rfl : i = 0 := by omega
    simp [sampleImport, Manifest.sample, Manifest.keyIds, KeyEntry.sample, sampleNext, Uuid.rep_inj]

theorem importedLabel_sha : Crates.symbolic.sha256 (keyMetadata (Uuid.rep 1) .ed25519
      (importedLabel "imported")) ≠
    Crates.symbolic.sha256 (keyMetadata (Uuid.rep 1) .ed25519 "imported") := by
  have h1 : (utf8 (importedLabel "imported")).length = 19 := by decide
  have h2 : (utf8 "imported").length = 8 := by decide
  have h3 : (keyTypeTag .ed25519).length = 7 := by decide
  intro h
  have h0 := congrArg (fun k : Key => k[0]) h
  simp only [Crates.symbolic, pad32, Vector.getElem_ofFn, List.getD_cons_zero, keyMetadata,
    List.length_append, Uuid.asBytes_length, h1, h2, h3] at h0
  exact absurd h0 (by decide)

/-- A first import, into the sample vault. -/
theorem import_opens_sample : ∃ (v' : Vault) (b : Bytes) (entry' : KeyEntry),
    (∃ c u, v'.state.unlocked.get c = some u ∧ entry' ∈ u.manifest.keys) ∧
    v'.state.container.keyBlobs.get entry'.keyId = some b ∧
      opens Crates.symbolic b (utf8 "pw") entry'.keyId entry'.keyType entry'.label =
        .ok (List.replicate 32 7) := by
  obtain ⟨b, hb⟩ := sampleImport_sealed
  obtain ⟨r, hr, -⟩ := sampleVault_state.prepareMerge1 (e := sampleNext) sampleImport_valid
    (by rw [sampleRenamed_nil]; exact sampleManifest_valid sampleImport_valid)
  obtain ⟨a, v', hx, -⟩ := sampleVault_import sampleImport_valid [⟨hyphenated (Uuid.rep 1), b⟩]
  have hunmatched : firstMatch (localCompartments sampleVault.state)
      (KeyEntry.sample (Uuid.rep 1) "imported" none) = none := by
    rw [sampleVault_state.localCompartments]
    decide
  have hsha :
      Crates.symbolic.sha256 (keyMetadata (Uuid.rep 1) .ed25519 (importedLabel "imported")) =
      Crates.symbolic.sha256 (keyMetadata (Uuid.rep 1) .ed25519 "imported") →
      importedLabel "imported" = "imported" := by
    exact fun h => absurd h importedLabel_sha
  have hi : Imports Crates.symbolic sampleNext sampleVault.state _ _ :=
    .reencrypt [⟨hyphenated (Uuid.rep 1), b⟩] (uuidParse_symbolic _)
      (fromJson_jsonText sampleImport_valid) hr
  have hj : sampleImport.keys[0]? = some (KeyEntry.sample (Uuid.rep 1) "imported" none) := rfl
  have hk : Crates.symbolic.uuidParse (hyphenated (Uuid.rep 1)) = .ok (Uuid.rep 1) := by
    simp only [Crates.symbolic, parseHyphenated_hyphenated]
  obtain ⟨-, entry', -, -, -, hmem, hopens⟩ := import_opens_iff Crates.symbolic
    Crates.symbolic_binds hx hi (sampleImport_one b) sampleNext_fresh hj hsha
      List.mem_cons_self hk hb
  obtain ⟨bytes, hget, ho⟩ := hopens.2 (.inl hunmatched)
  have hids := sampleVault_state.headerIds
  have hm := hmem (by simp [hids]) (by simp [hids, sampleNext, Uuid.rep_inj])
  exact ⟨v', bytes, entry', hm, hget, ho⟩

/-- **A second import of the same key.** Its `key_id` is taken now, so the
merged entry gets a fresh one, which its blob is not bound to. -/
theorem import_no_longer_opens : ∃ v₀ l v call e a v' i b added
    entry entry' sk,
    Created Crates.symbolic v₀ ∧ Run Crates.symbolic Vault.Admits v₀ l v ∧
    Prog.Exec Vault.Admits (call.run Crates.symbolic) v [e] (.ok a) v' ∧
    Imports Crates.symbolic e v.state call i ∧ i.blobs = [b] ∧ i.incoming.keys = [entry] ∧
    Crates.symbolic.uuidParse b.keyId = .ok entry.keyId ∧
    opens Crates.symbolic b.blobBytes (utf8 "pw") entry.keyId entry.keyType entry.label = .ok sk ∧
    i.option.Places (localCompartments v.state) i.result.updatedCompartments i.incoming added ∧
    added = [entry'] ∧
    ¬ ∃ bytes, v'.state.container.keyBlobs.get entry'.keyId = some bytes ∧
      opens Crates.symbolic bytes (utf8 "pw") entry'.keyId entry'.keyType entry'.label =
      .ok sk := by
  obtain ⟨b, hb⟩ := sampleImport_sealed
  obtain ⟨l, v, hrun, hs, hclock⟩ := sampleVault_imported b
  obtain ⟨twin, hkeys, hid, hvalid⟩ := sampleImport_twin
  obtain ⟨r, hr, -, hre⟩ := hs.prepareMerge1 (e := sampleNext) sampleImport_valid hvalid
  obtain ⟨a, v', hx, hs', -⟩ := hs.merge1 (admits_sampleNext hclock) sampleNext_works
    sampleImport_valid hvalid [⟨hyphenated (Uuid.rep 1), b⟩]
  have hi : Imports Crates.symbolic sampleNext v.state _ _ :=
    .reencrypt [⟨hyphenated (Uuid.rep 1), b⟩] (uuidParse_symbolic _)
      (fromJson_jsonText sampleImport_valid) hr
  have hplaces := Merge.run_places hi.valid hi.run
  have hk : Crates.symbolic.uuidParse (hyphenated (Uuid.rep 1)) = .ok (Uuid.rep 1) := by
    simp only [Crates.symbolic, parseHyphenated_hyphenated]
  refine ⟨sampleVault, l, v, _, _, a, v', _, _, _, KeyEntry.sample (Uuid.rep 1) "imported" none,
    twin, _,
    sampleVault_created, hrun, hx, hi, rfl, rfl, hk, hb, hplaces, ?_, ?_⟩
  · rw [hs.localCompartments]
    exact hkeys
  · rintro ⟨bytes, hget, ho⟩
    rw [hs'.keyBlobs, sampleImport_lands, hid, HashMap.get_put_self] at hget
    cases hget
    obtain ⟨blob, hb1, ho1⟩ := opens_ok.1 hb
    obtain ⟨blob', hb2, ho2⟩ := opens_ok.1 ho
    rw [hb1] at hb2
    cases hb2
    rw [hid] at ho2
    exact absurd (keyblobOpen_keyId Crates.symbolic_binds ho1 ho2) (by simp [Uuid.rep_inj])

end VaultSigner.L5
