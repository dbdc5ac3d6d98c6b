import VaultSigner.L4Vault.Changes
import VaultSigner.L4Vault.Sample

/-!
# Unlocked manifests are valid (`Manifest::validate`)

Some operations validate the manifest they edit, some only what they import or
decode, and one pattern validates after it has pushed the new entry onto the
live manifest.

Results:
* `NewKey.valid`: what is pushed is valid.
* `Change.valid`: an edit of valid manifests leaves valid manifests and is
  never rejected.
* `run_valid`: every unlocked manifest of every run is valid.
-/
namespace VaultSigner.L5
open VaultSigner.Core VaultSigner.L1 VaultSigner.L3 VaultSigner.L4

def AllValid (s : VaultState) : Prop := ∀ c u, s.unlocked.get c = some u → u.manifest.Valid

/-- The `key_id` a call may draw is in no unlocked manifest. -/
def FreshEntry (t : Turn) : Prop :=
  ∀ e ∈ t.inputs, ∀ c u, t.before.state.unlocked.get c = some u → e.uuid 1 ∉ u.manifest.keyIds

section
variable {C : Crates} {A : Vault → In → Prop} {v : Vault} {e : In}

/-! ## The new entry -/

theorem createFido2_isSome {a : CreateKeyArgs} {f : Option Fido2Info}
    (h : createFido2 C e a = .ok f) : f.isSome = a.purpose.includesFido2 := by
  unfold createFido2 at h
  cases hp : a.purpose.includesFido2 with
  | true =>
    rw [if_pos hp] at h
    split at h
    · cases h
    · split at h
      · cases h
      · cases h
        rfl
  | false =>
    rw [if_neg (by simp [hp])] at h
    split at h
    · cases h
    · cases h
      rfl

/-- A created or registered entry is valid, and has the drawn id. -/
theorem NewKey.valid {call : Call} {c : Uuid} {k : KeyEntry} {b : Bytes}
    (h : NewKey C A v e call c k b) : k.Valid ∧ k.keyId = e.uuid 1 := by
  cases h with
  | created hp =>
    unfold prepareCreateKey at hp
    simp only [bind_ok, facade_ok, pure, Except.pure, Except.ok.injEq] at hp
    obtain ⟨c', -, fido2, hf, generated, -, b', -, hp⟩ := hp
    cases hp
    exact ⟨⟨createFido2_isSome hf, blobSha256Hex_wf C b, .inr (hexEncode_utf8 _).2⟩, rfl⟩
  | registered hc hr hx hp =>
    unfold prepareMakeCredential at hp
    simp only [bind_ok, pure, Except.pure, Except.ok.injEq] at hp
    obtain ⟨b', -, hp⟩ := hp
    cases hp
    exact ⟨⟨rfl, blobSha256Hex_wf C b, .inr (hexEncode_utf8 _).2⟩, rfl⟩

/-! ## One manifest -/

theorem push_valid {u : UnlockedCompartment} {k : KeyEntry} (hu : u.manifest.Valid) (hk : k.Valid)
    (hf : k.keyId ∉ u.manifest.keyIds) : (u.push k).manifest.Valid where
  version := hu.version
  keys := by
    intro x hx
    rcases List.mem_append.1 hx with hx | hx
    · exact hu.keys x hx
    · rw [List.mem_singleton.1 hx]
      exact hk
  nodup := by
    have hids : (u.push k).manifest.keyIds = u.manifest.keyIds ++ [k.keyId] := by
      simp [Manifest.keyIds, UnlockedCompartment.push]
    rw [hids, List.nodup_append]
    refine ⟨hu.nodup, List.nodup_singleton _, fun x hx y hy hxy => hf ?_⟩
    rw [← List.mem_singleton.1 hy, ← hxy]
    exact hx

theorem remove_valid {u : UnlockedCompartment} (k : Uuid) (hu : u.manifest.Valid) :
    (u.remove k).manifest.Valid where
  version := hu.version
  keys := fun x hx => hu.keys x (List.mem_filter.1 hx).1
  nodup := hu.nodup.sublist (List.filter_sublist.map _)

/-- An entry edited in place, with its id. -/
theorem modifyFirst_valid {m : Manifest} {p : KeyEntry → Bool} {f : KeyEntry → KeyEntry}
    (hm : m.Valid) (hid : ∀ k, (f k).keyId = k.keyId) (hf : ∀ k, k.Valid → (f k).Valid) :
    ({ m with keys := modifyFirst p f m.keys } : Manifest).Valid where
  version := hm.version
  keys := by
    intro x hx
    rcases mem_modifyFirst hx with hx | ⟨y, hy, -, rfl⟩
    · exact hm.keys x hx
    · exact hf y (hm.keys y hy)
  nodup := by
    have hids : (modifyFirst p f m.keys).map KeyEntry.keyId = m.keyIds := map_modifyFirst hid m.keys
    show ((modifyFirst p f m.keys).map KeyEntry.keyId).Nodup
    rw [hids]
    exact hm.nodup

theorem setDigest_valid {u : UnlockedCompartment} (k : Uuid) (b : Bytes) (hu : u.manifest.Valid) :
    (u.setDigest k (blobSha256Hex C b)).manifest.Valid :=
  modifyFirst_valid hu (fun _ => rfl) fun _ hk => ⟨hk.fido2, blobSha256Hex_wf C b, hk.publicKey⟩

theorem asserted_valid {u : UnlockedCompartment} (k : Uuid) (n : UInt32) (now : OffsetDateTime)
    (hu : u.manifest.Valid) : (u.asserted k n now).manifest.Valid :=
  modifyFirst_valid hu (fun _ => rfl) fun _ hx =>
    ⟨Option.isSome_map.trans hx.fido2, hx.digest, hx.publicKey⟩

/-! ## One edit -/

theorem AllValid.put {s s' : VaultState} {c : Uuid} {u : UnlockedCompartment} (h : AllValid s)
    (hu : u.manifest.Valid) (hs : s'.unlocked = s.unlocked.put c u) : AllValid s' := by
  intro c' u' hu'
  rw [hs, HashMap.get_put] at hu'
  split at hu'
  · cases hu'
    exact hu
  · exact h c' u' hu'

theorem AllValid.local {s : VaultState} (h : AllValid s) {y : Merge.VaultCompartment}
    (hy : y ∈ localCompartments s) : y.manifest.Valid := by
  obtain ⟨u, hu, hm⟩ := mem_localCompartments hy
  exact hm ▸ h y.id u hu

/-- **One edit** of valid manifests leaves valid manifests, and the validation
after it does not fail. -/
theorem Change.valid {call : Call} {s : VaultState} {t : Tail} (hc : Change C A v e call s t)
    (hf : ∀ c u, v.state.unlocked.get c = some u → e.uuid 1 ∉ u.manifest.keyIds)
    (h : AllValid v.state) : AllValid s ∧ ∀ x, t ≠ .fail x := by
  have hpush : ∀ {call c k b u}, NewKey C A v e call c k b → v.state.unlocked.get c = some u →
      (u.push k).manifest.Valid := by
    intro call c k b u hk hu
    obtain ⟨hv, hid⟩ := NewKey.valid hk
    exact push_valid (h c u hu) hv (hid ▸ hf c u hu)
  cases hc with
  | rejected hk hu hv =>
    rw [(Manifest.validate_ok C _).2 (hpush hk hu)] at hv
    cases hv
  | stored hk hu hv => exact ⟨h.put hv rfl, by simp⟩
  | discarded hc hk hu hx ht => exact ⟨h.put (remove_valid _ (h _ _ hu)) rfl, by simp⟩
  | resealed hc hk hu hx hb ho hs => exact ⟨h.put (setDigest_valid _ _ (h _ _ hu)) rfl, by simp⟩
  | unrecorded hf => exact ⟨h, by simp⟩
  | asserted hr hx hf hu => exact ⟨h.put (asserted_valid _ _ _ (h _ _ hu)) rfl, by simp⟩
  | added hm hd hb => exact ⟨h.put (encryptWithKey_valid hb) rfl, by simp⟩
  | merged1 ht hi hr =>
    refine ⟨fun c u hu => ?_, by simp⟩
    rcases get_updateManifests_cases hu with ⟨w, hw, -, hm | ⟨y, hy, -, hm⟩⟩
    · exact hm ▸ h c w hw
    · rw [hm]
      rcases hr.mem_updated hy with hy | rfl
      · exact h.local hy
      · exact hr.valid
  | merged2 hi hm hd hb => exact ⟨h.put (encryptWithKey_valid hb) rfl, by simp⟩
  | merged3 ht hi hr hm hd hb => exact ⟨h.put (encryptWithKey_valid hb) rfl, by simp⟩

/-! ## Runs -/

theorem AllValid.step {call : Call} {v' : Vault} {es : List In} {r : FacadeResult Reply}
    (hx : Prog.Exec A (call.run C) v es r v') (hf : FreshEntry ⟨v, call, es, r, v'⟩)
    (h : AllValid v.state) : AllValid v'.state := by
  have hedit : ∀ {e s t}, e ∈ es → Change C A v e call s t → v'.state = inMemory C e s t →
      AllValid v'.state := by
    intro e s t he hc hs
    rw [hs]
    intro c u hu
    rw [(inMemory_frame C e s t).1] at hu
    exact (Change.valid hc (hf e he) h).1 c u hu
  cases call.outcome hx with
  | same hq hr => rw [hq.state]; exact h
  | unlocked c b key p hn hh hb hp hs hd => exact h.put (decryptWithKey_valid hp) (by rw [hs]; rfl)
  | locked hn hc hu hd => exact fun c u hcu => h c u (hu c u hcu)
  | done e s t a he hc hg hr hs hd => exact hedit he.mem hc hs
  | undone e s t a he hc hg hr hs hd => exact hedit he.mem hc hs

theorem start_valid (h : Created C v ∨ Opened C v) : AllValid v.state := by
  rcases h with ⟨e, disk, label, passphrase, profile, hc⟩ | ⟨e, bytes, ho⟩
  · obtain ⟨kdf, key, blob, _, -, -, hb, hs, -, -⟩ := create_ok hc
    have hempty : AllValid ⟨Container.new, ∅⟩ := fun c u hu => by simp at hu
    exact hempty.put (encryptWithKey_valid hb) (by rw [hs]; rfl)
  · unfold openVault at ho
    simp only [bind_ok, facade_ok, pure, Except.pure, Except.ok.injEq] at ho
    obtain ⟨k, -, rfl⟩ := ho
    exact fun c u hu => by simp at hu

theorem Run.valid {v₀ : Vault} {l : List Turn} (h₀ : Created C v₀ ∨ Opened C v₀)
    (h : Run C A v₀ l v) (hf : ∀ t ∈ l, FreshEntry t) :
    AllValid v.state ∧ ∀ t ∈ l, AllValid t.before.state := by
  induction h with
  | nil => exact ⟨start_valid h₀, by simp⟩
  | cons hr hx ih =>
    obtain ⟨hv, hall⟩ := ih fun t ht => hf t (List.mem_cons_of_mem _ ht)
    refine ⟨hv.step hx (hf _ List.mem_cons_self), fun t ht => ?_⟩
    rcases List.mem_cons.1 ht with rfl | ht
    · exact hv
    · exact hall t ht

/-- **Every unlocked manifest is valid**, after any calls from a created or an
opened vault, failed ones among them. So no call is rejected for the manifest
it has pushed an entry onto, and what it encrypts again is valid. -/
theorem run_valid {v₀ : Vault} {l : List Turn} (h₀ : Created C v₀ ∨ Opened C v₀)
    (h : Run C A v₀ l v) (hf : ∀ t ∈ l, FreshEntry t) :
    (∀ c u, v.state.unlocked.get c = some u → u.manifest.validate C = .ok ()) ∧
    ∀ t ∈ l, ∀ e d, t.call.Edits C A t.before t.inputs e (.ok d) → (∀ x, d.tail ≠ .fail x) ∧
      ∀ c, d.tail = .persist c → ∀ u, d.state.unlocked.get c = some u →
      u.manifest.validate C = .ok () := by
  obtain ⟨hv, hall⟩ := Run.valid h₀ h hf
  refine ⟨fun c u hu => (Manifest.validate_ok C _).2 (hv c u hu), fun t ht e d he => ?_⟩
  obtain ⟨hs, hfail⟩ := Change.valid (he.change rfl) (hf t ht e he.mem) (hall t ht)
  exact ⟨hfail, fun c _ u hu => (Manifest.validate_ok C _).2 (hs c u hu)⟩

end

/-- The sample vault after an import. -/
theorem run_valid_sample : ∃ (v : Vault) (u : UnlockedCompartment),
    v.state.unlocked.get (Uuid.rep 10) = some u ∧ u.manifest.keys = sampleImport.keys ∧
    u.manifest.validate Crates.symbolic = .ok () := by
  obtain ⟨a, v, hx, hs, -⟩ := sampleVault_import sampleImport_valid []
  obtain ⟨key, hu⟩ := hs.unlocked
  have hget : v.state.unlocked.get (Uuid.rep 10) =
      some ⟨sampleManifest sampleImport.keys, key⟩ := by
    rw [hu, HashMap.get_put_self]
  obtain ⟨hv, -⟩ := run_valid (.inl sampleVault_created) (.cons .nil hx) (by
    intro t ht e _ c u hu
    rw [List.mem_singleton.1 ht] at hu
    obtain ⟨-, hm⟩ := sampleVault_state.get_unlocked hu
    rw [hm]
    exact List.not_mem_nil)
  exact ⟨v, _, hget, rfl, hv _ _ hget⟩

end VaultSigner.L5
