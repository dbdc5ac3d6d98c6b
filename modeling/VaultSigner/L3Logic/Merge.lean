import VaultSigner.L1Format.Container

/-!
# Three-way merge of an imported manifest (`merge.rs`)

Pure bookkeeping over plaintext manifests. `Uuid::new_v4` is a supply: the
`i`-th incoming entry, if it needs a fresh `key_id`, gets `uuids i`.

Results:
* `findInCompartments_eq`, `flagged_iff`: the triple loop with its early exit
  flags an incoming entry by the first local entry, in compartment order, that
  matches it.
* `renameIncoming_eq`: what the renaming pass makes of each entry, as a
  function of that first match alone.
* `extendTarget_ok`: what options 1 and 3 do to the compartment list.
-/
namespace VaultSigner.L3.Merge
open VaultSigner.Core VaultSigner.L1

/-- mirrors vaultcore/src/merge.rs:36-40 (`VaultCompartment`) -/
structure VaultCompartment where
  id : Uuid
  label : String
  manifest : Manifest
deriving DecidableEq

/-- mirrors vaultcore/src/merge.rs:43-46 (`DuplicateReason`) -/
inductive DuplicateReason where
  | keyId
  | fido2Credential (rpId credentialIdB64 : String)
deriving DecidableEq

/-- mirrors vaultcore/src/merge.rs:49-55 (`DuplicateWarning`) -/
structure DuplicateWarning where
  incomingKeyId : Uuid
  matchedLocalKeyId : Uuid
  matchedInCompartment : Uuid
  reason : DuplicateReason
deriving DecidableEq

/-- mirrors vaultcore/src/merge.rs:64-73 (`MergeResult`) -/
structure MergeResult where
  updatedCompartments : List VaultCompartment
  warnings : List DuplicateWarning
  idRemap : HashMap Uuid Uuid
  discardIncomingMasterKey : Bool
  discardLocalMasterKeyFor : Option Uuid

def replaceConfirmationPhrase : String := "REPLACE MY MASTER KEY"

/-- The two tests of the innermost loop of `find_duplicates`, in order. -/
def duplicateReason (localKey incomingKey : KeyEntry) : Option DuplicateReason :=
  if localKey.keyId = incomingKey.keyId then some .keyId
  else match incomingKey.fido2, localKey.fido2 with
  | some incomingFido2, some localFido2 =>
    if incomingFido2.rpId = localFido2.rpId ∧
        incomingFido2.credentialIdB64 = localFido2.credentialIdB64 then
      some (.fido2Credential localFido2.rpId localFido2.credentialIdB64)
    else none
  | _, _ => none

/-- `for local_key in &compartment.manifest.keys`, up to `break 'outer`. -/
def findInKeys (compartment : Uuid) (incomingKey : KeyEntry) :
    List KeyEntry → Option DuplicateWarning
  | [] => none
  | localKey :: rest =>
    match duplicateReason localKey incomingKey with
    | some reason => some ⟨incomingKey.keyId, localKey.keyId, compartment, reason⟩
    | none => findInKeys compartment incomingKey rest

/-- `'outer: for compartment in local`. -/
def findInCompartments (incomingKey : KeyEntry) : List VaultCompartment → Option DuplicateWarning
  | [] => none
  | c :: rest =>
    match findInKeys c.id incomingKey c.manifest.keys with
    | some w => some w
    | none => findInCompartments incomingKey rest

/-- mirrors vaultcore/src/merge.rs:77-111 (`find_duplicates`) -/
def findDuplicates (loc : List VaultCompartment) (incoming : List KeyEntry) :
    List DuplicateWarning :=
  incoming.filterMap fun incomingKey => findInCompartments incomingKey loc

/-- `str::ends_with`. -/
def endsWith (s suf : String) : Bool := suf.toList.isSuffixOf s.toList

/-- The "(imported)" suffix of a flagged entry's label. -/
def importedLabel (label : String) : String :=
  if endsWith label "(imported)" then label else label ++ " (imported)"

/-- The body of the loop of `rename_incoming_duplicates`; `newId` is what
`Uuid::new_v4` returns if this entry draws one. -/
def renameEntry (C : Crates) (warnings : List DuplicateWarning) (newId : Uuid) (key : KeyEntry) :
    KeyEntry :=
  if warnings.any (fun w => w.incomingKeyId = key.keyId) = false then key
  else if warnings.any (fun w => w.incomingKeyId = key.keyId ∧ w.reason = .keyId) then
    { key with
      label := importedLabel key.label
      keyId := newId
      blobFile := keyBlobEntryName C newId }
  else { key with label := importedLabel key.label }

/-- mirrors vaultcore/src/merge.rs:118-146 (`rename_incoming_duplicates`),
from the `i`-th entry on -/
def renameIncomingDuplicates (C : Crates) (uuids : Nat → Uuid) (warnings : List DuplicateWarning) :
    Nat → List KeyEntry → HashMap Uuid Uuid → List KeyEntry × HashMap Uuid Uuid
  | _, [], remap => ([], remap)
  | i, key :: rest, remap =>
    let key' := renameEntry C warnings (uuids i) key
    let remap' :=
      if warnings.any (fun w => w.incomingKeyId = key.keyId ∧ w.reason = .keyId) then
        remap.put key.keyId (uuids i)
      else remap
    let (renamed, remap'') := renameIncomingDuplicates C uuids warnings (i + 1) rest remap'
    (key' :: renamed, remap'')

/-- `find_compartment_mut`, then `manifest.keys.extend(..)` and
`manifest.validate()` on what it finds.
mirrors vaultcore/src/merge.rs:148-153, 170-171 -/
def extendTarget (C : Crates) (target : Uuid) (renamed : List KeyEntry) :
    List VaultCompartment → VaultResult (List VaultCompartment)
  | [] => .error (.invalidManifest s!"no local compartment with id {C.uuidToString target}")
  | c :: rest =>
    if c.id = target then do
      let m : Manifest := { c.manifest with keys := c.manifest.keys ++ renamed }
      m.validate C
      return { c with manifest := m } :: rest
    else do
      let rest ← extendTarget C target renamed rest
      return c :: rest

section
variable (C : Crates) (uuids : Nat → Uuid)

/-- mirrors vaultcore/src/merge.rs:161-180 (option 1) -/
def mergeReencryptDiscardIncoming (loc : List VaultCompartment) (targetCompartmentId : Uuid)
    (incoming : Manifest) : VaultResult MergeResult := do
  let warnings := findDuplicates loc incoming.keys
  let (renamed, idRemap) := renameIncomingDuplicates C uuids warnings 0 incoming.keys ∅
  let updated ← extendTarget C targetCompartmentId renamed loc
  return ⟨updated, warnings, idRemap, true, none⟩

/-- mirrors vaultcore/src/merge.rs:186-215 (option 2) -/
def mergeSideBySide (loc : List VaultCompartment) (incoming : Manifest) (newCompartmentId : Uuid)
    (newCompartmentLabel : String) : VaultResult MergeResult := do
  let warnings := findDuplicates loc incoming.keys
  let (renamed, idRemap) := renameIncomingDuplicates C uuids warnings 0 incoming.keys ∅
  let newManifest : Manifest := { incoming with keys := renamed }
  newManifest.validate C
  return ⟨loc ++ [⟨newCompartmentId, newCompartmentLabel, newManifest⟩], warnings, idRemap, false,
    none⟩

/-- mirrors vaultcore/src/merge.rs:227-253 (option 3) -/
def mergeReplaceLocalWithIncoming (loc : List VaultCompartment) (targetCompartmentId : Uuid)
    (incoming : Manifest) (confirmationPhrase : String) : VaultResult MergeResult :=
  if confirmationPhrase ≠ replaceConfirmationPhrase then
    .error (.invalidManifest "master-key replacement requires the exact confirmation phrase")
  else do
    let warnings := findDuplicates loc incoming.keys
    let (renamed, idRemap) := renameIncomingDuplicates C uuids warnings 0 incoming.keys ∅
    let updated ← extendTarget C targetCompartmentId renamed loc
    return ⟨updated, warnings, idRemap, false, some targetCompartmentId⟩

end

/-! ## The first match -/

/-- Every entry of every compartment, with its compartment, in the order in
which `find_duplicates` meets them. -/
def entries (loc : List VaultCompartment) : List (Uuid × KeyEntry) :=
  loc.flatMap fun c => c.manifest.keys.map fun k => (c.id, k)

/-- The local entry by which an incoming one is flagged. -/
def firstMatch (loc : List VaultCompartment) (e : KeyEntry) : Option (Uuid × KeyEntry) :=
  (entries loc).find? fun p => (duplicateReason p.2 e).isSome

/-- The flag is a `key_id` collision. -/
def KeyIdFlagged (loc : List VaultCompartment) (e : KeyEntry) : Prop :=
  ∃ p, firstMatch loc e = some p ∧ p.2.keyId = e.keyId

instance (loc : List VaultCompartment) (e : KeyEntry) : Decidable (KeyIdFlagged loc e) :=
  decidable_of_iff (((firstMatch loc e).any fun p => p.2.keyId = e.keyId) = true) (by
    unfold KeyIdFlagged
    cases firstMatch loc e <;> simp)

theorem findInKeys_eq (c : Uuid) (e : KeyEntry) : ∀ ks : List KeyEntry, findInKeys c e ks =
    ((ks.map fun k => (c, k)).find? fun p => (duplicateReason p.2 e).isSome).bind fun p =>
      (duplicateReason p.2 e).map fun r => ⟨e.keyId, p.2.keyId, p.1, r⟩ := by
  intro ks
  induction ks with
  | nil => rfl
  | cons k ks ih =>
    unfold findInKeys
    cases h : duplicateReason k e with
    | none => simp [h, ih]
    | some r => simp [h]

theorem findInCompartments_eq (e : KeyEntry) : ∀ loc : List VaultCompartment,
    findInCompartments e loc = (firstMatch loc e).bind fun p =>
      (duplicateReason p.2 e).map fun r => ⟨e.keyId, p.2.keyId, p.1, r⟩ := by
  intro loc
  induction loc with
  | nil => rfl
  | cons c rest ih =>
    unfold findInCompartments firstMatch entries
    rw [List.flatMap_cons, List.find?_append, findInKeys_eq]
    cases h : (c.manifest.keys.map fun k => (c.id, k)).find? fun p =>
      (duplicateReason p.2 e).isSome with
    | none => simpa [firstMatch, entries] using ih
    | some p =>
      have hp : (duplicateReason p.2 e).isSome = true := by simpa using List.find?_some h
      obtain ⟨r, hr⟩ := Option.isSome_iff_exists.1 hp
      simp [hr]

theorem firstMatch_some {loc : List VaultCompartment} {e : KeyEntry} {p : Uuid × KeyEntry}
    (h : firstMatch loc e = some p) : p ∈ entries loc ∧ ∃ r, duplicateReason p.2 e = some r := by
  refine ⟨List.mem_of_find?_eq_some h, Option.isSome_iff_exists.1 ?_⟩
  simpa using List.find?_some h

theorem firstMatch_none {loc : List VaultCompartment} {e : KeyEntry} :
    firstMatch loc e = none ↔ ∀ p ∈ entries loc, duplicateReason p.2 e = none := by
  simp [firstMatch, List.find?_eq_none]

theorem duplicateReason_keyId {l e : KeyEntry} :
    duplicateReason l e = some .keyId ↔ l.keyId = e.keyId := by
  unfold duplicateReason
  split
  · rename_i h; simp [h]
  · rename_i h
    split
    · split <;> simp [h]
    · simp [h]

/-- What the loops flag an incoming entry with, if anything. -/
theorem findInCompartments_cases (loc : List VaultCompartment) (e : KeyEntry) :
    (firstMatch loc e = none ∧ findInCompartments e loc = none) ∨
    ∃ p r, firstMatch loc e = some p ∧ duplicateReason p.2 e = some r ∧
      findInCompartments e loc = some ⟨e.keyId, p.2.keyId, p.1, r⟩ := by
  rw [findInCompartments_eq]
  cases h : firstMatch loc e with
  | none => exact .inl ⟨rfl, rfl⟩
  | some p =>
    obtain ⟨-, r, hr⟩ := firstMatch_some h
    exact .inr ⟨p, r, rfl, hr, by simp [hr]⟩

/-! ## The renaming pass -/

/-- What the renaming pass makes of an entry. -/
def renamed (C : Crates) (loc : List VaultCompartment) (newId : Uuid) (e : KeyEntry) : KeyEntry :=
  if firstMatch loc e = none then e
  else if KeyIdFlagged loc e then
    { e with
      label := importedLabel e.label
      keyId := newId
      blobFile := keyBlobEntryName C newId }
  else { e with label := importedLabel e.label }

theorem flagged_iff (loc : List VaultCompartment) {incoming : List KeyEntry}
    (hn : (incoming.map KeyEntry.keyId).Nodup) {e : KeyEntry} (he : e ∈ incoming) :
    ((findDuplicates loc incoming).any (fun w => w.incomingKeyId = e.keyId) = true ↔
      firstMatch loc e ≠ none) ∧
    ((findDuplicates loc incoming).any (fun w => w.incomingKeyId = e.keyId ∧ w.reason = .keyId) =
      true ↔ KeyIdFlagged loc e) := by
  have hid : ∀ e' ∈ incoming, ∀ w, findInCompartments e' loc = some w →
      w.incomingKeyId = e.keyId → e' = e := by
    intro e' he' w hw hk
    rcases findInCompartments_cases loc e' with ⟨-, h⟩ | ⟨p, r, -, -, h⟩
    · rw [h] at hw; cases hw
    · rw [h] at hw
      cases hw
      exact List.inj_on_of_nodup_map hn he' he hk
  simp only [findDuplicates, List.any_eq_true, List.mem_filterMap, decide_eq_true_eq]
  rcases findInCompartments_cases loc e with ⟨h1, h2⟩ | ⟨p, r, h1, hr, h2⟩
  · refine ⟨⟨?_, fun h => absurd h1 h⟩, ⟨?_, ?_⟩⟩
    · rintro ⟨w, ⟨e', he', hw⟩, hk⟩
      rw [hid e' he' w hw hk, h2] at hw; cases hw
    · rintro ⟨w, ⟨e', he', hw⟩, hk, -⟩
      rw [hid e' he' w hw hk, h2] at hw; cases hw
    · rintro ⟨p, hp, -⟩; rw [h1] at hp; cases hp
  · refine ⟨⟨fun _ => by rw [h1]; simp, fun _ => ⟨_, ⟨e, he, h2⟩, rfl⟩⟩, ⟨?_, ?_⟩⟩
    · rintro ⟨w, ⟨e', he', hw⟩, hk, hr'⟩
      rw [hid e' he' w hw hk, h2] at hw
      cases hw
      simp only at hr'
      exact ⟨p, h1, duplicateReason_keyId.1 (hr' ▸ hr)⟩
    · rintro ⟨p', hp', hk⟩
      rw [h1] at hp'
      cases hp'
      rw [duplicateReason_keyId.2 hk] at hr
      cases hr
      exact ⟨_, ⟨e, he, h2⟩, rfl, rfl⟩

theorem renameEntry_eq {C : Crates} {loc : List VaultCompartment} {incoming : List KeyEntry}
    (hn : (incoming.map KeyEntry.keyId).Nodup) {e : KeyEntry} (he : e ∈ incoming) (newId : Uuid) :
    renameEntry C (findDuplicates loc incoming) newId e = renamed C loc newId e := by
  obtain ⟨h1, h2⟩ := flagged_iff loc hn he
  unfold renameEntry renamed
  by_cases hf : firstMatch loc e = none
  · rw [if_pos (Bool.eq_false_iff.2 fun ht => (h1.1 ht) hf), if_pos hf]
  · rw [if_neg (by rw [h1.2 hf]; simp), if_neg hf]
    by_cases hk : KeyIdFlagged loc e
    · rw [if_pos (h2.2 hk), if_pos hk]
    · rw [if_neg (fun ht => hk (h2.1 ht)), if_neg hk]

/-- The renamed list from the `i`-th entry on. -/
def renamedList (C : Crates) (loc : List VaultCompartment) (uuids : Nat → Uuid) :
    Nat → List KeyEntry → List KeyEntry
  | _, [] => []
  | i, e :: es => renamed C loc (uuids i) e :: renamedList C loc uuids (i + 1) es

/-- The remap from the `i`-th entry on. -/
def remapOf (loc : List VaultCompartment) (uuids : Nat → Uuid) :
    Nat → List KeyEntry → HashMap Uuid Uuid → HashMap Uuid Uuid
  | _, [], m => m
  | i, e :: es, m =>
    remapOf loc uuids (i + 1) es (if KeyIdFlagged loc e then m.put e.keyId (uuids i) else m)

theorem renameIncoming_eq {C : Crates} {loc : List VaultCompartment} {uuids : Nat → Uuid}
    {incoming : List KeyEntry} (hn : (incoming.map KeyEntry.keyId).Nodup) :
    ∀ (es : List KeyEntry) (i : Nat) (m : HashMap Uuid Uuid), (∀ e ∈ es, e ∈ incoming) →
      renameIncomingDuplicates C uuids (findDuplicates loc incoming) i es m =
        (renamedList C loc uuids i es, remapOf loc uuids i es m) := by
  intro es
  induction es with
  | nil => intro i m _; rfl
  | cons e es ih =>
    intro i m hs
    have he : e ∈ incoming := hs e List.mem_cons_self
    unfold renameIncomingDuplicates
    simp only
    rw [ih _ _ fun x hx => hs x (List.mem_cons_of_mem _ hx), renameEntry_eq hn he]
    obtain ⟨-, h2⟩ := flagged_iff loc hn he
    simp only [renamedList, remapOf, Prod.mk.injEq, true_and]
    by_cases hk : KeyIdFlagged loc e
    · rw [if_pos (h2.2 hk), if_pos hk]
    · rw [if_neg (fun ht => hk (h2.1 ht)), if_neg hk]

theorem renamedList_getElem? (C : Crates) (loc : List VaultCompartment) (uuids : Nat → Uuid) :
    ∀ (es : List KeyEntry) (i j : Nat), (renamedList C loc uuids i es)[j]? =
      es[j]?.map fun e => renamed C loc (uuids (i + j)) e := by
  intro es
  induction es with
  | nil => intro i j; simp [renamedList]
  | cons e es ih =>
    intro i j
    cases j with
    | zero => simp [renamedList]
    | succ j =>
      simp only [renamedList, List.getElem?_cons_succ, ih]
      rw [show i + 1 + j = i + (j + 1) by omega]

theorem renamedList_length (C : Crates) (loc : List VaultCompartment) (uuids : Nat → Uuid) :
    ∀ (es : List KeyEntry) (i : Nat), (renamedList C loc uuids i es).length = es.length := by
  intro es
  induction es with
  | nil => intro i; rfl
  | cons e es ih => intro i; simp [renamedList, ih]

theorem mem_renamedList {C : Crates} {loc : List VaultCompartment} {uuids : Nat → Uuid}
    {es : List KeyEntry} {i : Nat} {e' : KeyEntry} (h : e' ∈ renamedList C loc uuids i es) :
    ∃ e ∈ es, ∃ j, e' = renamed C loc (uuids j) e := by
  obtain ⟨j, hj⟩ := List.mem_iff_getElem?.1 h
  rw [renamedList_getElem?] at hj
  obtain ⟨e, he, rfl⟩ := Option.map_eq_some_iff.1 hj
  exact ⟨e, List.mem_iff_getElem?.2 ⟨j, he⟩, i + j, rfl⟩

/-- The remap holds exactly the `key_id` collisions, each with the identifier
its entry drew. -/
theorem get_remapOf (loc : List VaultCompartment) (uuids : Nat → Uuid) (k k' : Uuid) :
    ∀ (es : List KeyEntry) (i : Nat) (m : HashMap Uuid Uuid), (es.map KeyEntry.keyId).Nodup →
      ((remapOf loc uuids i es m).get k = some k' ↔
        (∃ j e, es[j]? = some e ∧ e.keyId = k ∧ KeyIdFlagged loc e ∧ k' = uuids (i + j)) ∨
        (m.get k = some k' ∧ ∀ e ∈ es, e.keyId = k → ¬ KeyIdFlagged loc e)) := by
  intro es
  induction es with
  | nil => intro i m _; simp [remapOf]
  | cons e es ih =>
    intro i m hn
    simp only [List.map_cons, List.nodup_cons] at hn
    have hmem : ∀ x ∈ es, x.keyId ≠ e.keyId := fun x hx heq =>
      hn.1 (heq ▸ List.mem_map_of_mem hx)
    rw [remapOf, ih _ _ hn.2]
    constructor
    · rintro (⟨j, x, hx, hk, hf, rfl⟩ | ⟨hg, hall⟩)
      · exact .inl ⟨j + 1,
          x, by simpa using hx, hk, hf, by rw [show i + (j + 1) = i + 1 + j by omega]⟩
      · by_cases hf : KeyIdFlagged loc e
        · rw [if_pos hf, HashMap.get_put] at hg
          split at hg
          · rename_i hk
            cases hg
            exact .inl ⟨0, e, by simp, hk.symm, hf, by simp⟩
          · rename_i hk
            refine .inr ⟨hg, fun x hx hxk => ?_⟩
            rcases List.mem_cons.1 hx with rfl | hx
            · exact absurd hxk.symm hk
            · exact hall x hx hxk
        · rw [if_neg hf] at hg
          refine .inr ⟨hg, fun x hx hxk => ?_⟩
          rcases List.mem_cons.1 hx with rfl | hx
          · exact hf
          · exact hall x hx hxk
    · rintro (⟨j, x, hx, hk, hf, rfl⟩ | ⟨hg, hall⟩)
      · cases j with
        | zero =>
          simp only [List.getElem?_cons_zero, Option.some.injEq] at hx
          subst hx
          refine .inr ⟨?_, fun y hy hyk => absurd (hyk.trans hk.symm) (hmem y hy)⟩
          rw [if_pos hf, ← hk]; simp
        | succ j =>
          simp only [List.getElem?_cons_succ] at hx
          exact .inl ⟨j, x, hx, hk, hf, by rw [show i + 1 + j = i + (j + 1) by omega]⟩
      · refine .inr ⟨?_, fun x hx => hall x (List.mem_cons_of_mem _ hx)⟩
        split
        · rename_i hf
          rw [HashMap.get_put_ne _ _ fun hk => hall e List.mem_cons_self hk.symm hf]; exact hg
        · exact hg

/-! ## The compartment list -/

/-- A compartment with the renamed entries appended. -/
def extended (c : VaultCompartment) (es : List KeyEntry) : VaultCompartment :=
  { c with manifest := { c.manifest with keys := c.manifest.keys ++ es } }

theorem extendTarget_ok {C : Crates} {target : Uuid} {es : List KeyEntry} :
    ∀ {loc loc' : List VaultCompartment}, extendTarget C target es loc = .ok loc' ↔
      ∃ pre c post, loc = pre ++ c :: post ∧ c.id = target ∧ (∀ x ∈ pre, x.id ≠ target) ∧
        (extended c es).manifest.Valid ∧ loc' = pre ++ extended c es :: post := by
  intro loc
  induction loc with
  | nil => intro loc'; simp [extendTarget]
  | cons c rest ih =>
    intro loc'
    unfold extendTarget
    split
    · rename_i hc
      simp only [bind_ok_unit, Manifest.validate_ok, pure, Except.pure, Except.ok.injEq]
      constructor
      · rintro ⟨hv, rfl⟩; exact ⟨[], c, rest, rfl, hc, by simp, hv, rfl⟩
      · rintro ⟨pre, d, post, hl, hd, hpre, hv, rfl⟩
        cases pre with
        | nil =>
          simp only [List.nil_append, List.cons.injEq] at hl
          obtain ⟨rfl, rfl⟩ := hl
          exact ⟨hv, rfl⟩
        | cons x pre =>
          simp only [List.cons_append, List.cons.injEq] at hl
          exact absurd (hl.1 ▸ hc) (hpre x List.mem_cons_self)
    · rename_i hc
      simp only [bind_ok, ih, pure, Except.pure, Except.ok.injEq]
      constructor
      · rintro ⟨l, ⟨pre, d, post, rfl, hd, hpre, hv, rfl⟩, rfl⟩
        refine ⟨c :: pre, d, post, rfl, hd, ?_, hv, rfl⟩
        intro x hx
        rcases List.mem_cons.1 hx with rfl | hx
        · exact hc
        · exact hpre x hx
      · rintro ⟨pre, d, post, hl, hd, hpre, hv, rfl⟩
        cases pre with
        | nil =>
          simp only [List.nil_append, List.cons.injEq] at hl
          exact absurd (hl.1 ▸ hd) hc
        | cons x pre =>
          simp only [List.cons_append, List.cons.injEq] at hl
          obtain ⟨rfl, rfl⟩ := hl
          exact ⟨_,
            ⟨pre, d, post, rfl, hd, fun y hy => hpre y (List.mem_cons_of_mem _ hy), hv, rfl⟩,
            rfl⟩

/-! ## The three results -/

section
variable {C : Crates} {uuids : Nat → Uuid} {loc : List VaultCompartment} {incoming : Manifest}

/-- The renamed entries of a whole incoming manifest. -/
abbrev renamedKeys (C : Crates) (uuids : Nat → Uuid) (loc : List VaultCompartment)
    (incoming : Manifest) : List KeyEntry :=
  renamedList C loc uuids 0 incoming.keys

/-- The remap of a whole incoming manifest. -/
abbrev remapKeys (uuids : Nat → Uuid) (loc : List VaultCompartment) (incoming : Manifest) :
    HashMap Uuid Uuid :=
  remapOf loc uuids 0 incoming.keys ∅

theorem get_remapKeys (hi : incoming.Valid) (k k' : Uuid) :
    (remapKeys uuids loc incoming).get k = some k' ↔
      ∃ j e, incoming.keys[j]? = some e ∧ e.keyId = k ∧ KeyIdFlagged loc e ∧ k' = uuids j := by
  rw [get_remapOf loc uuids k k' incoming.keys 0 ∅ hi.nodup]
  simp

theorem mergeReencrypt_ok (hi : incoming.Valid) {target : Uuid} {r : MergeResult} :
    mergeReencryptDiscardIncoming C uuids loc target incoming = .ok r ↔
      ∃ updated, extendTarget C target (renamedKeys C uuids loc incoming) loc = .ok updated ∧
        r = ⟨updated, findDuplicates loc incoming.keys, remapKeys uuids loc incoming, true,
          none⟩ := by
  unfold mergeReencryptDiscardIncoming
  simp only [renameIncoming_eq hi.nodup incoming.keys 0 ∅ fun _ h => h, bind_ok, pure, Except.pure,
    Except.ok.injEq, eq_comm (b := r)]

theorem mergeSideBySide_ok (hi : incoming.Valid) {newId : Uuid} {newLabel : String}
    {r : MergeResult} :
    mergeSideBySide C uuids loc incoming newId newLabel = .ok r ↔
      ({ incoming with keys := renamedKeys C uuids loc incoming } : Manifest).Valid ∧
        r = ⟨loc ++ [⟨newId, newLabel, { incoming with keys := renamedKeys C uuids loc incoming }⟩],
          findDuplicates loc incoming.keys, remapKeys uuids loc incoming, false, none⟩ := by
  unfold mergeSideBySide
  simp only [renameIncoming_eq hi.nodup incoming.keys 0 ∅ fun _ h => h, bind_ok_unit,
    Manifest.validate_ok, pure, Except.pure, Except.ok.injEq, eq_comm (b := r)]

theorem mergeReplace_ok (hi : incoming.Valid) {target : Uuid} {phrase : String} {r : MergeResult} :
    mergeReplaceLocalWithIncoming C uuids loc target incoming phrase = .ok r ↔
      phrase = replaceConfirmationPhrase ∧
      ∃ updated, extendTarget C target (renamedKeys C uuids loc incoming) loc = .ok updated ∧
        r = ⟨updated, findDuplicates loc incoming.keys, remapKeys uuids loc incoming, false,
          some target⟩ := by
  unfold mergeReplaceLocalWithIncoming
  split
  · rename_i hp
    constructor
    · intro h; cases h
    · rintro ⟨h, -⟩; exact absurd h hp
  · rename_i hp
    simp only [renameIncoming_eq hi.nodup incoming.keys 0 ∅ fun _ h => h, bind_ok, pure,
      Except.pure, Except.ok.injEq, eq_comm (b := r), Decidable.not_not.1 hp, true_and]

end

end VaultSigner.L3.Merge
