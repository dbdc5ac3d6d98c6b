import VaultSigner.L1Format.Symbolic
import VaultSigner.L3Logic.Merge

/-!
# What a merge keeps (`merge.rs`)

`KeepsBoth` is what the three options promise together: every local entry
stays where it is, every incoming entry lands once in the destination, ids
stay unique, and the remap and the warnings tell exactly what collided.

Results:
* `merge_keepsBoth_iff`: an option succeeds and keeps both sides exactly when
  no `key_id` collision is shadowed, i.e. when every incoming entry whose
  `key_id` is taken is flagged by an entry that has that `key_id`.
* `shadowed_collision`: a concrete vault where a credential match comes first
  and hides the `key_id` match behind it.
-/
namespace VaultSigner.L3.Merge
open VaultSigner.Core VaultSigner.L1

/-- One of the three options, with the arguments it takes beside the local
compartments and the incoming manifest. -/
inductive MergeOption where
  | reencrypt (target : Uuid)
  | sideBySide (newId : Uuid) (newLabel : String)
  | replace (target : Uuid) (phrase : String)

def MergeOption.run (C : Crates) (uuids : Nat → Uuid) (loc : List VaultCompartment)
    (incoming : Manifest) : MergeOption → VaultResult MergeResult
  | .reencrypt target => mergeReencryptDiscardIncoming C uuids loc target incoming
  | .sideBySide newId newLabel => mergeSideBySide C uuids loc incoming newId newLabel
  | .replace target phrase => mergeReplaceLocalWithIncoming C uuids loc target incoming phrase

/-- An existing target, a new compartment's own id, the exact phrase. -/
def MergeOption.Admits (loc : List VaultCompartment) : MergeOption → Prop
  | .reencrypt target => target ∈ loc.map VaultCompartment.id
  | .sideBySide newId _ => newId ∉ loc.map VaultCompartment.id
  | .replace target phrase =>
    target ∈ loc.map VaultCompartment.id ∧ phrase = replaceConfirmationPhrase

def allKeyIds (loc : List VaultCompartment) : List Uuid := (entries loc).map fun p => p.2.keyId

/-- Equal but for `label`, `key_id` and `blob_file`. -/
def SameKey (e e' : KeyEntry) : Prop :=
  { e' with label := e.label, keyId := e.keyId, blobFile := e.blobFile } = e

def SameCredential (l e : KeyEntry) : Prop :=
  ∃ fl fe, l.fido2 = some fl ∧ e.fido2 = some fe ∧ fl.rpId = fe.rpId ∧
    fl.credentialIdB64 = fe.credentialIdB64

/-- `updated` is `loc`, unchanged and in order, with `added` at the end of
the destination. -/
def MergeOption.Places (loc updated : List VaultCompartment) (incoming : Manifest)
    (added : List KeyEntry) : MergeOption → Prop
  | .reencrypt target | .replace target _ => ∃ pre c post, loc = pre ++ c :: post ∧ c.id = target ∧
      updated = pre ++ extended c added :: post
  | .sideBySide newId newLabel =>
      updated = loc ++ [⟨newId, newLabel, { incoming with keys := added }⟩]

instance (loc : List VaultCompartment) : DecidablePred (MergeOption.Admits loc)
  | .reencrypt target => inferInstanceAs (Decidable (target ∈ loc.map VaultCompartment.id))
  | .sideBySide newId _ => inferInstanceAs (Decidable (newId ∉ loc.map VaultCompartment.id))
  | .replace target phrase => inferInstanceAs (Decidable
      (target ∈ loc.map VaultCompartment.id ∧ phrase = replaceConfirmationPhrase))

structure KeepsBoth (loc : List VaultCompartment) (incoming : Manifest) (o : MergeOption)
    (r : MergeResult) : Prop where
  distinct : (allKeyIds r.updatedCompartments).Nodup
  placed : ∃ added, o.Places loc r.updatedCompartments incoming added ∧
    List.Forall₂ (fun e e' => SameKey e e' ∧ (e'.keyId ≠ e.keyId ↔ e.keyId ∈ allKeyIds loc))
      incoming.keys added ∧
    ∀ k k', r.idRemap.get k = some k' ↔ k' ≠ k ∧
      ∃ (i : Nat) (e e' : KeyEntry), incoming.keys[i]? = some e ∧ added[i]? = some e' ∧
        e.keyId = k ∧ e'.keyId = k'
  warned : ∀ e ∈ incoming.keys, (∃ w ∈ r.warnings, w.incomingKeyId = e.keyId) ↔
    ∃ p ∈ entries loc, p.2.keyId = e.keyId ∨ SameCredential p.2 e

/-- The first `n` identifiers drawn are distinct and new. -/
structure FreshFor (uuids : Nat → Uuid) (n : Nat) (ids : List Uuid) : Prop where
  inj : ∀ i < n, ∀ j < n, uuids i = uuids j → i = j
  new : ∀ i < n, uuids i ∉ ids

/-! ## One entry -/

theorem duplicateReason_isSome {l e : KeyEntry} :
    (∃ r, duplicateReason l e = some r) ↔ l.keyId = e.keyId ∨ SameCredential l e := by
  unfold duplicateReason SameCredential
  split
  · rename_i h; simp [h]
  · rename_i h
    cases he : e.fido2 with
    | none => simp [h]
    | some fe =>
      cases hl : l.fido2 with
      | none => simp [h]
      | some fl =>
        simp only [h, false_or, Option.some.injEq]
        constructor
        · rintro ⟨r, hr⟩
          split at hr
          · rename_i hc; exact ⟨fl, fe, rfl, rfl, hc.1.symm, hc.2.symm⟩
          · cases hr
        · rintro ⟨fl', fe', rfl, rfl, h1, h2⟩
          exact ⟨_, if_pos ⟨h1.symm, h2.symm⟩⟩

theorem firstMatch_ne_none {loc : List VaultCompartment} {e : KeyEntry} : firstMatch loc e ≠ none ↔
    ∃ p ∈ entries loc, p.2.keyId = e.keyId ∨ SameCredential p.2 e := by
  rw [ne_eq, firstMatch_none]
  simp only [not_forall, exists_prop, ← duplicateReason_isSome]
  refine exists_congr fun p => and_congr_right fun _ => ?_
  cases duplicateReason p.2 e <;> simp

theorem keyIdFlagged_taken {loc : List VaultCompartment} {e : KeyEntry} (h : KeyIdFlagged loc e) :
    e.keyId ∈ allKeyIds loc := by
  obtain ⟨p, hp, hk⟩ := h
  exact List.mem_map.2 ⟨p, (firstMatch_some hp).1, hk⟩

theorem renamed_same (C : Crates) (loc : List VaultCompartment) (u : Uuid) (e : KeyEntry) :
    SameKey e (renamed C loc u e) := by
  unfold renamed SameKey
  split
  · rfl
  · split <;> rfl

theorem renamed_keyId (C : Crates) (loc : List VaultCompartment) (u : Uuid) (e : KeyEntry) :
    (renamed C loc u e).keyId = if KeyIdFlagged loc e then u else e.keyId := by
  unfold renamed
  split
  · rename_i h
    rw [if_neg]
    rintro ⟨p, hp, -⟩
    rw [h] at hp; cases hp
  · split <;> rfl

theorem renamed_valid {C : Crates} {loc : List VaultCompartment} {u : Uuid} {e : KeyEntry}
    (h : e.Valid) : (renamed C loc u e).Valid := by
  unfold renamed
  split
  · exact h
  · split <;> exact ⟨h.fido2, h.digest, h.publicKey⟩

/-! ## The whole list -/

section
variable {C : Crates} {loc : List VaultCompartment} {uuids : Nat → Uuid} {incoming : Manifest}

theorem renamedList_ids : ∀ (es : List KeyEntry) (i : Nat) (x : Uuid),
    x ∈ (renamedList C loc uuids i es).map KeyEntry.keyId →
      (∃ j, i ≤ j ∧ j < i + es.length ∧ x = uuids j) ∨
        ∃ e ∈ es, ¬ KeyIdFlagged loc e ∧ x = e.keyId := by
  intro es
  induction es with
  | nil => intro i x h; simp [renamedList] at h
  | cons e es ih =>
    intro i x h
    simp only [renamedList, List.map_cons, List.mem_cons, renamed_keyId] at h
    rcases h with rfl | h
    · split
      · exact .inl ⟨i, Nat.le_refl _, by simp, rfl⟩
      · rename_i hf; exact .inr ⟨e, List.mem_cons_self, hf, rfl⟩
    · rcases ih (i + 1) x h with ⟨j, hj, hlt, rfl⟩ | ⟨e', he', hf, rfl⟩
      · exact .inl ⟨j, by omega, by simp only [List.length_cons]; omega, rfl⟩
      · exact .inr ⟨e', List.mem_cons_of_mem _ he', hf, rfl⟩

theorem renamedList_nodup {n : Nat} (hinj : ∀ i < n, ∀ j < n, uuids i = uuids j → i = j) :
    ∀ (es : List KeyEntry) (i : Nat), i + es.length ≤ n →
      (∀ e ∈ es, ∀ j < n, uuids j ≠ e.keyId) → (es.map KeyEntry.keyId).Nodup →
      ((renamedList C loc uuids i es).map KeyEntry.keyId).Nodup := by
  intro es
  induction es with
  | nil => intro i _ _ _; simp [renamedList]
  | cons e es ih =>
    intro i hle hnew hn
    simp only [List.map_cons, List.nodup_cons] at hn
    simp only [List.length_cons] at hle
    simp only [renamedList, List.map_cons, List.nodup_cons, renamed_keyId]
    refine ⟨fun hm => ?_,
      ih (i + 1) (by omega) (fun x hx => hnew x (List.mem_cons_of_mem _ hx)) hn.2⟩
    rcases renamedList_ids es (i + 1) _ hm with ⟨j, hj, hlt, he⟩ | ⟨e', he', -, he⟩
    · split at he
      · have := hinj i (by omega) j (by omega) he; omega
      · exact hnew e List.mem_cons_self j (by omega) he.symm
    · split at he
      · exact hnew e' (List.mem_cons_of_mem _ he') i (by omega) he
      · exact hn.1 (List.mem_map.2 ⟨e', he', he.symm⟩)

/-- Every incoming entry whose `key_id` is taken is flagged as such. -/
def NoShadowing (loc : List VaultCompartment) (incoming : Manifest) : Prop :=
  ∀ e ∈ incoming.keys, e.keyId ∈ allKeyIds loc → KeyIdFlagged loc e

instance (loc : List VaultCompartment) (incoming : Manifest) :
    Decidable (NoShadowing loc incoming) :=
  inferInstanceAs (Decidable (∀ e ∈ incoming.keys, e.keyId ∈ allKeyIds loc → KeyIdFlagged loc e))

theorem renamedKeys_disjoint (hf : FreshFor uuids incoming.keys.length (allKeyIds loc))
    (hs : NoShadowing loc incoming) :
    ∀ x ∈ (renamedKeys C uuids loc incoming).map KeyEntry.keyId, x ∉ allKeyIds loc := by
  intro x hx hl
  rcases renamedList_ids incoming.keys 0 x hx with ⟨j, -, hj, rfl⟩ | ⟨e, he, hk, rfl⟩
  · exact hf.new j (by omega) hl
  · exact hk (hs e he hl)

theorem renamedKeys_forall₂
    (hnew : ∀ e ∈ incoming.keys, ∀ j < incoming.keys.length, uuids j ≠ e.keyId)
    (hs : NoShadowing loc incoming) :
    List.Forall₂ (fun e e' => SameKey e e' ∧ (e'.keyId ≠ e.keyId ↔ e.keyId ∈ allKeyIds loc))
      incoming.keys (renamedKeys C uuids loc incoming) := by
  have key : ∀ (es : List KeyEntry) (i : Nat), i + es.length ≤ incoming.keys.length →
      (∀ e ∈ es, e ∈ incoming.keys) →
      List.Forall₂ (fun e e' => SameKey e e' ∧ (e'.keyId ≠ e.keyId ↔ e.keyId ∈ allKeyIds loc))
        es (renamedList C loc uuids i es) := by
    intro es
    induction es with
    | nil => intro i _ _; exact .nil
    | cons e es ih =>
      intro i hle hm
      simp only [List.length_cons] at hle
      have he := hm e List.mem_cons_self
      refine .cons ⟨renamed_same _ _ _ _, ?_⟩
        (ih (i + 1) (by omega) fun x hx => hm x (List.mem_cons_of_mem _ hx))
      rw [renamed_keyId]
      split
      · rename_i hk
        exact ⟨fun _ => keyIdFlagged_taken hk, fun _ => hnew e he i (by omega)⟩
      · rename_i hk
        exact ⟨fun h => absurd rfl h, fun h => absurd (hs e he h) hk⟩
  exact key incoming.keys 0 (by omega) fun _ h => h

theorem remapKeys_iff (hi : incoming.Valid)
    (hnew : ∀ e ∈ incoming.keys, ∀ j < incoming.keys.length, uuids j ≠ e.keyId) (k k' : Uuid) :
    (remapKeys uuids loc incoming).get k = some k' ↔ k' ≠ k ∧
      ∃ (i : Nat) (e e' : KeyEntry), incoming.keys[i]? = some e ∧
        (renamedKeys C uuids loc incoming)[i]? = some e' ∧ e.keyId = k ∧ e'.keyId = k' := by
  rw [get_remapKeys hi]
  simp only [renamedKeys, renamedList_getElem?, Nat.zero_add]
  constructor
  · rintro ⟨j, e, he, rfl, hk, rfl⟩
    have hm : e ∈ incoming.keys := List.mem_iff_getElem?.2 ⟨j, he⟩
    refine ⟨hnew e hm j (List.getElem?_eq_some_iff.1 he).1, j, e, renamed C loc (uuids j) e,
      he, by rw [he]; rfl, rfl, ?_⟩
    rw [renamed_keyId, if_pos hk]
  · rintro ⟨hne, i, e, e', he, he', rfl, rfl⟩
    rw [he] at he'
    cases he'
    rw [renamed_keyId] at hne ⊢
    split at hne
    · rename_i hk
      exact ⟨i, e, he, rfl, hk, by rw [if_pos hk]⟩
    · exact absurd rfl hne

theorem findDuplicates_warned {e : KeyEntry} (hi : incoming.Valid) (he : e ∈ incoming.keys) :
    (∃ w ∈ findDuplicates loc incoming.keys, w.incomingKeyId = e.keyId) ↔
      ∃ p ∈ entries loc, p.2.keyId = e.keyId ∨ SameCredential p.2 e := by
  rw [← firstMatch_ne_none, ← (flagged_iff loc hi.nodup he).1]
  simp [List.any_eq_true]

/-! ## The compartment list -/

theorem allKeyIds_append (a b : List VaultCompartment) :
    allKeyIds (a ++ b) = allKeyIds a ++ allKeyIds b := by
  simp [allKeyIds, entries]

theorem allKeyIds_cons (c : VaultCompartment) (b : List VaultCompartment) :
    allKeyIds (c :: b) = c.manifest.keyIds ++ allKeyIds b := by
  simp [allKeyIds, entries, Manifest.keyIds, Function.comp_def]

/-- Appending entries in the middle adds their ids, up to order. -/
theorem allKeyIds_extended (pre : List VaultCompartment) (c : VaultCompartment)
    (post : List VaultCompartment) (es : List KeyEntry) :
    (allKeyIds (pre ++ extended c es :: post)).Perm
      (allKeyIds (pre ++ c :: post) ++ es.map KeyEntry.keyId) := by
  simp only [allKeyIds_append, allKeyIds_cons, extended, Manifest.keyIds, List.map_append,
    List.append_assoc]
  refine List.Perm.append_left _ (List.Perm.append_left _ ?_)
  exact List.perm_append_comm

theorem renamedKeys_valid (hi : incoming.Valid) :
    ∀ e ∈ renamedKeys C uuids loc incoming, e.Valid := by
  intro e he
  obtain ⟨e0, he0, j, rfl⟩ := mem_renamedList he
  exact renamed_valid (hi.keys e0 he0)

end

/-! ## The result -/

section
variable {C : Crates} {loc : List VaultCompartment} {uuids : Nat → Uuid} {incoming : Manifest}

/-- What an option returns is read off its `remap` and `warnings`. -/
theorem run_ok (hi : incoming.Valid) {o : MergeOption} {r : MergeResult}
    (h : o.run C uuids loc incoming = .ok r) :
    r.warnings = findDuplicates loc incoming.keys ∧ r.idRemap = remapKeys uuids loc incoming := by
  cases o with
  | reencrypt target =>
    obtain ⟨u, -, rfl⟩ := (mergeReencrypt_ok hi).1 h; exact ⟨rfl, rfl⟩
  | sideBySide newId newLabel =>
    obtain ⟨-, rfl⟩ := (mergeSideBySide_ok hi).1 h; exact ⟨rfl, rfl⟩
  | replace target phrase =>
    obtain ⟨-, u, -, rfl⟩ := (mergeReplace_ok hi).1 h; exact ⟨rfl, rfl⟩

/-- The renamed entries are at the end of the destination. -/
theorem run_places (hi : incoming.Valid) {o : MergeOption} {r : MergeResult}
    (h : o.run C uuids loc incoming = .ok r) :
    o.Places loc r.updatedCompartments incoming (renamedKeys C uuids loc incoming) := by
  cases o with
  | reencrypt target =>
    obtain ⟨u, hu, rfl⟩ := (mergeReencrypt_ok hi).1 h
    obtain ⟨pre, c, post, hl, hc, -, -, rfl⟩ := extendTarget_ok.1 hu
    exact ⟨pre, c, post, hl, hc, rfl⟩
  | sideBySide newId newLabel =>
    obtain ⟨-, rfl⟩ := (mergeSideBySide_ok hi).1 h
    rfl
  | replace target phrase =>
    obtain ⟨-, u, hu, rfl⟩ := (mergeReplace_ok hi).1 h
    obtain ⟨pre, c, post, hl, hc, -, -, rfl⟩ := extendTarget_ok.1 hu
    exact ⟨pre, c, post, hl, hc, rfl⟩

/-- A `key_id` collision that the flag does not report leaves the entry with
the taken id. -/
theorem noShadowing_of_keepsBoth (hi : incoming.Valid) {o : MergeOption} {r : MergeResult}
    (h : o.run C uuids loc incoming = .ok r) (hk : KeepsBoth loc incoming o r) :
    NoShadowing loc incoming := by
  intro e he ht
  obtain ⟨added, -, hall, hremap⟩ := hk.placed
  obtain ⟨j, hj⟩ := List.mem_iff_getElem?.1 he
  obtain ⟨hlen, hget⟩ := List.forall₂_iff_get.1 hall
  obtain ⟨hlt, hje⟩ := List.getElem?_eq_some_iff.1 hj
  have hj' : j < added.length := hlen ▸ hlt
  obtain ⟨-, hch⟩ := hget j hlt hj'
  simp only [List.get_eq_getElem, hje] at hch
  have hr : r.idRemap.get e.keyId = some (added[j]).keyId :=
    (hremap _ _).2 ⟨hch.2 ht, j, e, added[j], hj, List.getElem?_eq_getElem hj', rfl, rfl⟩
  rw [(run_ok hi h).2, get_remapKeys hi] at hr
  obtain ⟨j', e', he', hid, hf, -⟩ := hr
  have hm' : e' ∈ incoming.keys := List.mem_iff_getElem?.2 ⟨j', he'⟩
  rwa [List.inj_on_of_nodup_map hi.nodup hm' he hid] at hf

theorem freshFor_split
    (hf : FreshFor uuids incoming.keys.length (allKeyIds loc ++ incoming.keyIds)) :
    (∀ e ∈ incoming.keys, ∀ j < incoming.keys.length, uuids j ≠ e.keyId) ∧
      FreshFor uuids incoming.keys.length (allKeyIds loc) :=
  ⟨fun _ he j hj hx => hf.new j hj (List.mem_append_right _ (hx ▸ List.mem_map_of_mem he)),
    hf.inj, fun i hi hm => hf.new i hi (List.mem_append_left _ hm)⟩

theorem extendTarget_exists (hl : ∀ c ∈ loc, c.manifest.Valid) (hn : (allKeyIds loc).Nodup)
    (hi : incoming.Valid)
    (hf : FreshFor uuids incoming.keys.length (allKeyIds loc ++ incoming.keyIds))
    (hs : NoShadowing loc incoming) {target : Uuid} (ht : target ∈ loc.map VaultCompartment.id) :
    ∃ pre c post, loc = pre ++ c :: post ∧ c.id = target ∧
      extendTarget C target (renamedKeys C uuids loc incoming) loc =
        .ok (pre ++ extended c (renamedKeys C uuids loc incoming) :: post) ∧
      (allKeyIds (pre ++ extended c (renamedKeys C uuids loc incoming) :: post)).Nodup := by
  obtain ⟨c0, hc0, hid⟩ := List.mem_map.1 ht
  cases hfind : loc.find? (fun c => decide (c.id = target)) with
  | none =>
    rw [List.find?_eq_none] at hfind
    exact absurd hid (by simpa using hfind c0 hc0)
  | some c =>
    obtain ⟨hc, pre, post, hloc, hpre⟩ := List.find?_eq_some_iff_append.1 hfind
    have hc' : c.id = target := by simpa using hc
    obtain ⟨hnew, hf'⟩ := freshFor_split hf
    have hnodup :
        (allKeyIds (pre ++ extended c (renamedKeys C uuids loc incoming) :: post)).Nodup := by
      rw [(allKeyIds_extended pre c post _).nodup_iff, ← hloc, List.nodup_append]
      refine ⟨hn, renamedList_nodup hf.inj incoming.keys 0 (by omega) hnew hi.nodup, ?_⟩
      intro a ha b hb hab
      exact renamedKeys_disjoint hf' hs b hb (hab ▸ ha)
    have hvc : c.manifest.Valid := hl c (by rw [hloc]; simp)
    refine ⟨pre, c, post, hloc, hc', ?_, hnodup⟩
    rw [extendTarget_ok]
    refine ⟨pre, c, post, hloc, hc',
      fun x hx => by simpa using hpre x hx, ⟨hvc.version, ?_, ?_⟩, rfl⟩
    · intro k hk
      rcases List.mem_append.1 hk with hk | hk
      · exact hvc.keys k hk
      · exact renamedKeys_valid hi k hk
    · rw [allKeyIds_append, allKeyIds_cons] at hnodup
      exact (List.nodup_append.1 (List.nodup_append.1 hnodup).2.1).1

theorem keepsBoth_of_noShadowing (hl : ∀ c ∈ loc, c.manifest.Valid) (hn : (allKeyIds loc).Nodup)
    (hi : incoming.Valid)
    (hf : FreshFor uuids incoming.keys.length (allKeyIds loc ++ incoming.keyIds))
    (hs : NoShadowing loc incoming) {o : MergeOption} (ho : o.Admits loc) :
    ∃ r, o.run C uuids loc incoming = .ok r ∧ KeepsBoth loc incoming o r := by
  obtain ⟨hnew, hf'⟩ := freshFor_split hf
  have hall := renamedKeys_forall₂ (C := C) hnew hs
  have hremap : ∀ k k', (remapKeys uuids loc incoming).get k = some k' ↔ k' ≠ k ∧
      ∃ (i : Nat) (e e' : KeyEntry), incoming.keys[i]? = some e ∧
        (renamedKeys C uuids loc incoming)[i]? = some e' ∧ e.keyId = k ∧ e'.keyId = k' :=
    remapKeys_iff hi hnew
  cases o with
  | reencrypt target =>
    obtain ⟨pre, c, post, hloc, hc, he, hd⟩ := extendTarget_exists (C := C) hl hn hi hf hs ho
    exact ⟨_, (mergeReencrypt_ok hi).2 ⟨_, he, rfl⟩, hd,
      ⟨_, ⟨pre, c, post, hloc, hc, rfl⟩, hall, hremap⟩, fun e he => findDuplicates_warned hi he⟩
  | replace target phrase =>
    obtain ⟨pre, c, post, hloc, hc, he, hd⟩ := extendTarget_exists (C := C) hl hn hi hf hs ho.1
    exact ⟨_, (mergeReplace_ok hi).2 ⟨ho.2, _, he, rfl⟩, hd,
      ⟨_, ⟨pre, c, post, hloc, hc, rfl⟩, hall, hremap⟩, fun e he => findDuplicates_warned hi he⟩
  | sideBySide newId newLabel =>
    have hnd : ((renamedKeys C uuids loc incoming).map KeyEntry.keyId).Nodup :=
      renamedList_nodup hf.inj incoming.keys 0 (by omega) hnew hi.nodup
    refine ⟨_, (mergeSideBySide_ok hi).2 ⟨⟨hi.version, renamedKeys_valid hi, hnd⟩, rfl⟩, ?_,
      ⟨_, rfl, hall, hremap⟩, fun e he => findDuplicates_warned hi he⟩
    simp only [allKeyIds_append, allKeyIds_cons, Manifest.keyIds]
    rw [show allKeyIds [] = [] from rfl, List.append_nil, List.nodup_append]
    exact ⟨hn, hnd, fun a ha b hb hab => renamedKeys_disjoint hf' hs b hb (hab ▸ ha)⟩

/-- **When a merge keeps both sides.** For valid, pairwise distinct local
keys, a valid incoming manifest, new identifiers and admissible arguments,
each option returns `Ok` with both sides kept exactly when every incoming
entry whose `key_id` is taken is flagged by an entry that has its `key_id`:
the first local entry that matches it, by `key_id` or by credential, is one
of those. -/
theorem merge_keepsBoth_iff (C : Crates) (uuids : Nat → Uuid) (loc : List VaultCompartment)
    (incoming : Manifest) (o : MergeOption) (hl : ∀ c ∈ loc, c.manifest.Valid)
    (hn : (allKeyIds loc).Nodup) (hi : incoming.Valid)
    (hf : FreshFor uuids incoming.keys.length (allKeyIds loc ++ incoming.keyIds))
    (ho : o.Admits loc) :
    (∃ r, o.run C uuids loc incoming = .ok r ∧ KeepsBoth loc incoming o r) ↔
      ∀ e ∈ incoming.keys, e.keyId ∈ allKeyIds loc →
        ∃ p, firstMatch loc e = some p ∧ p.2.keyId = e.keyId := by
  constructor
  · rintro ⟨r, hr, hk⟩
    exact noShadowing_of_keepsBoth hi hr hk
  · intro hs
    exact keepsBoth_of_noShadowing hl hn hi hf hs ho

end

/-! ## The sample vault

One compartment holds a passkey and, after it, a second key. -/

def sampleLocal : List VaultCompartment :=
  [⟨Uuid.rep 10, "main", Manifest.sample
    [KeyEntry.sample (Uuid.rep 1) "passkey" (some (Fido2Info.sample "rp" "cred" 7)),
      KeyEntry.sample (Uuid.rep 2) "other" none]⟩]

/-- An incoming key with the second key's id and a credential of its own. -/
def sampleIncoming (cred : String) : Manifest :=
  Manifest.sample
    [KeyEntry.sample (Uuid.rep 2) "imported key" (some (Fido2Info.sample "rp" cred 3))]

theorem sampleLocal_valid : ∀ c ∈ sampleLocal, c.manifest.Valid := by
  intro c hc
  simp only [sampleLocal, List.mem_cons, List.not_mem_nil, or_false] at hc
  subst hc
  refine ⟨rfl, ?_, by decide⟩
  intro k hk
  simp only [Manifest.sample, List.mem_cons, List.not_mem_nil, or_false] at hk
  rcases hk with rfl | rfl <;> exact KeyEntry.sample_valid _ _ _

theorem sampleIncoming_valid (cred : String) : (sampleIncoming cred).Valid := by
  refine ⟨rfl, ?_, by simp [sampleIncoming, Manifest.sample, Manifest.keyIds]⟩
  intro k hk
  simp only [sampleIncoming, Manifest.sample, List.mem_cons, List.not_mem_nil, or_false] at hk
  subst hk; exact KeyEntry.sample_valid _ _ _

theorem sample_fresh (cred : String) :
    FreshFor (fun _ => Uuid.rep 20) (sampleIncoming cred).keys.length
    (allKeyIds sampleLocal ++ (sampleIncoming cred).keyIds) := by
  refine ⟨fun i hi j hj _ => ?_, fun _ _ => ?_⟩
  · simp only [sampleIncoming, Manifest.sample, List.length_cons, List.length_nil] at hi hj; omega
  · simp [allKeyIds, entries, sampleLocal, sampleIncoming, Manifest.sample, Manifest.keyIds,
      KeyEntry.sample, Uuid.rep_inj]

/-- The imported key has a new credential: its `key_id` collision is seen, and
both sides are kept. -/
theorem merge_keepsBoth_iff_sample :
    (∃ r, (MergeOption.sideBySide (Uuid.rep 11) "imported").run Crates.symbolic
      (fun _ => Uuid.rep 20) sampleLocal (sampleIncoming "cred2") = .ok r ∧
      KeepsBoth sampleLocal (sampleIncoming "cred2")
        (.sideBySide (Uuid.rep 11) "imported") r) :=
  (merge_keepsBoth_iff Crates.symbolic (fun _ => Uuid.rep 20) sampleLocal (sampleIncoming "cred2")
    (.sideBySide (Uuid.rep 11) "imported") sampleLocal_valid (by decide)
    (sampleIncoming_valid _) (sample_fresh _) (by decide)).2
    (show NoShadowing sampleLocal (sampleIncoming "cred2") by decide)

/-- **A hidden collision.** The imported key has the second key's `key_id` and
the first key's credential. The credential match comes first and ends the
search, so the import keeps a `key_id` that is taken. -/
theorem shadowed_collision :
    (∀ c ∈ sampleLocal, c.manifest.Valid) ∧ (allKeyIds sampleLocal).Nodup ∧
    (sampleIncoming "cred").Valid ∧
    FreshFor (fun _ => Uuid.rep 20) (sampleIncoming "cred").keys.length
      (allKeyIds sampleLocal ++ (sampleIncoming "cred").keyIds) ∧
    (MergeOption.sideBySide (Uuid.rep 11) "imported").Admits sampleLocal ∧
    ¬ ∃ r, (MergeOption.sideBySide (Uuid.rep 11) "imported").run Crates.symbolic
      (fun _ => Uuid.rep 20) sampleLocal (sampleIncoming "cred") = .ok r ∧
      KeepsBoth sampleLocal (sampleIncoming "cred")
        (.sideBySide (Uuid.rep 11) "imported") r := by
  refine ⟨sampleLocal_valid, by decide, sampleIncoming_valid _, sample_fresh _, by decide, ?_⟩
  rintro ⟨r, hr, hk⟩
  have hs := noShadowing_of_keepsBoth (sampleIncoming_valid _) hr hk
  exact absurd hs (by decide)

end VaultSigner.L3.Merge
