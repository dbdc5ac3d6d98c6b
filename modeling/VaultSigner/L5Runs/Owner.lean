import VaultSigner.L4Vault.Changes
import VaultSigner.L4Vault.Sample

/-!
# The owner is never locked out (`persist_locked`, the merges)

A compartment opens when three values fit each other: the parameters in the
header, the key they derive from the passphrase, and the blob encrypted under
that key. `persist_locked` writes a blob under the cached key and looks at
neither of the other two; an operation on one compartment writes all of them
to the file.

Results:
* `Change.master`: an edit leaves header and blobs alone, or puts a
  compartment's parameters, key and blob in place together.
* `Owned.step`: one call keeps every compartment open to its passphrase.
* `run_owned`: so does a run from a created vault.
-/
namespace VaultSigner.L5
open VaultSigner.Core VaultSigner.L1 VaultSigner.L3 VaultSigner.L4
open VaultSigner.L3.Merge (VaultCompartment)

/-- The header's entries for a compartment. -/
def entries (k : Container) (c : Uuid) : List CompartmentHeader :=
  k.header.compartments.filter fun h => h.compartmentId = c

/-- `passphrase` unlocks the compartment: it has one header entry and a blob,
and the blob decrypts under the key that the entry's parameters derive. -/
def OpensWith (C : Crates) (k : Container) (c : Uuid) (passphrase : String) : Prop :=
  ∃ h b key p, entries k c = [h] ∧ k.masterBlobs.get c = some b ∧
    derive C (utf8 passphrase) h.kdfParamsMaster = .ok key ∧ decryptWithKey C c b key = .ok p

/-- The compartment whose passphrase a successful call sets, and the passphrase. -/
def gives (C : Crates) : Call → List In → Option (Uuid × String)
  | .addCompartment _ passphrase _, e :: _ => some (e.uuid 0, passphrase)
  | .mergeSideBySide _ _ _ passphrase _, e :: _ => some (e.uuid 0, passphrase)
  | .mergeReplaceLocalWithIncoming target _ _ passphrase _ _, _ =>
    (parseUuid C target).toOption.map fun c => (c, passphrase)
  | _, _ => none

def Turn.gives (C : Crates) (t : Turn) : Option (Uuid × String) :=
  match t.result with
  | .ok _ => L5.gives C t.call t.inputs
  | .error _ => none

/-- The compartments' passphrases after one more is given. -/
def given (P : Uuid → Option String) : Option (Uuid × String) → Uuid → Option String
  | none, c => P c
  | some (c', passphrase), c => if c = c' then some passphrase else P c

/-- The passphrase last given for a compartment, `first` by `create`. -/
def passphraseOf (C : Crates) (first : Uuid × String) : List Turn → Uuid → Option String
  | [] => given (fun _ => none) (some first)
  | t :: l => given (passphraseOf C first l) (Turn.gives C t)

/-- The file system takes the write of the call, if it gets to one that
nothing is encrypted for again. -/
def Writes (C : Crates) (A : Vault → In → Prop) (t : Turn) : Prop :=
  ∀ e d, t.call.Edits C A t.before t.inputs e (.ok d) → d.tail = .write →
    ∃ bytes, writeAtomic C e d.state.container = .ok bytes

/-! ## What an edit does to header and blobs -/

/-- The parameters, key and blob of one compartment, put in place together. -/
structure Puts (C : Crates) (passphrase : String) (c : Uuid) (s s' : VaultState) : Prop where
  fits : ∃ h b u, entries s'.container c = [h] ∧ derive C (utf8 passphrase) h.kdfParamsMaster =
    .ok u.masterKey ∧
    (∃ nonce, encryptWithKey C c u.manifest u.masterKey nonce = .ok b) ∧
    s'.container.masterBlobs = s.container.masterBlobs.put c b ∧ s'.unlocked = s.unlocked.put c u
  others : ∀ c' ≠ c, entries s'.container c' = entries s.container c'
  ids : ∀ c', c' ∈ headerIds s' ↔ c' = c ∨ c' ∈ headerIds s
  version : s'.container.header.formatVersion = s.container.header.formatVersion

/-- Header and blobs as they were; what is unlocked has the key it had. -/
structure Keeps (s s' : VaultState) : Prop where
  header : s'.container.header = s.container.header
  masterBlobs : s'.container.masterBlobs = s.container.masterBlobs
  keys : ∀ c u', s'.unlocked.get c = some u' → ∃ u, s.unlocked.get c = some u ∧
    u'.masterKey = u.masterKey

section
variable {C : Crates} {A : Vault → In → Prop} {v : Vault} {e : In} {s : VaultState}

theorem mem_headerIds_iff {k : Container} {c : Uuid} :
    c ∈ k.header.compartments.map CompartmentHeaderOf.compartmentId ↔ entries k c ≠ [] := by
  unfold entries
  rw [ne_eq, List.filter_eq_nil_iff]
  simp

theorem Keeps.refl (s : VaultState) : Keeps s s := ⟨rfl, rfl, fun _ u h => ⟨u, h, rfl⟩⟩

theorem Keeps.put {s' : VaultState} {c : Uuid} {u u' : UnlockedCompartment}
    (hu : s.unlocked.get c = some u) (hs : s'.unlocked = s.unlocked.put c u')
    (hk : u'.masterKey = u.masterKey) (hh : s'.container.header = s.container.header)
    (hm : s'.container.masterBlobs = s.container.masterBlobs) : Keeps s s' where
  header := hh
  masterBlobs := hm
  keys := by
    intro c' w hw
    rw [hs, HashMap.get_put] at hw
    split at hw
    · rename_i hc
      cases hw
      exact ⟨u, hc ▸ hu, hk⟩
    · exact ⟨w, hw, rfl⟩

/-- A new compartment. -/
theorem puts_addCompartment {label passphrase : String} {kdf : KdfParams} {b : Bytes}
    {u : UnlockedCompartment} {c : Uuid} {nonce : Except String Nonce} (hf : c ∉ headerIds s)
    (hd : derive C (utf8 passphrase) kdf = .ok u.masterKey)
    (hb : encryptWithKey C c u.manifest u.masterKey nonce = .ok b) :
    Puts C passphrase c s (s.addCompartment ⟨c, label, kdf⟩ b u) where
  fits := by
    have hnil : entries s.container c = [] := by
      by_contra hne
      exact hf (mem_headerIds_iff.2 hne)
    refine ⟨⟨c, label, kdf⟩, b, u, ?_, hd, ⟨nonce, hb⟩, rfl, rfl⟩
    show (s.container.header.compartments ++ [_]).filter _ = _
    rw [List.filter_append, show s.container.header.compartments.filter _ = [] from hnil]
    simp
  others := by
    intro c' hc
    show (s.container.header.compartments ++ [_]).filter _ = _
    rw [List.filter_append]
    simp [entries, Ne.symm hc]
  ids := by
    intro c'
    rw [show headerIds (s.addCompartment ⟨c, label, kdf⟩ b u) = headerIds s ++
      [c] from headerIds_push _ _,
      List.mem_append, List.mem_singleton]
    exact or_comm
  version := rfl

/-- New parameters for a compartment. -/
theorem puts_replaceMaster {passphrase : String} {kdf : KdfParams} {b : Bytes}
    {u : UnlockedCompartment} {c : Uuid} {nonce : Except String Nonce} (hc : c ∈ headerIds s)
    {h : CompartmentHeader} (hh : entries s.container c = [h])
    (hd : derive C (utf8 passphrase) kdf = .ok u.masterKey)
    (hb : encryptWithKey C c u.manifest u.masterKey nonce = .ok b) :
    Puts C passphrase c s (s.replaceMaster c kdf b u) where
  fits := by
    refine ⟨{ h with kdfParamsMaster := kdf }, b, u, ?_, hd, ⟨nonce, hb⟩, rfl, rfl⟩
    exact filter_modifyFirst (p := fun h : CompartmentHeader => decide (h.compartmentId = c))
      (f := fun h => { h with kdfParamsMaster := kdf }) (fun _ => rfl) hh
  others := by
    intro c' hne
    refine filter_modifyFirst_of_ne (fun a ha => ?_) _
    have hac : a.compartmentId = c := by simpa using ha
    simp [hac, Ne.symm hne]
  ids := by
    intro c'
    rw [headerIds_replaceMaster]
    constructor
    · exact .inr
    · rintro (rfl | h)
      · exact hc
      · exact h
  version := rfl

theorem Puts.congr {passphrase : String} {c : Uuid} {s s' t : VaultState}
    (h : Puts C passphrase c s s') (hh : t.container.header = s'.container.header)
    (hm : t.container.masterBlobs = s'.container.masterBlobs) (hu : t.unlocked = s'.unlocked) :
    Puts C passphrase c s t where
  fits := by
    unfold entries
    rw [hh, hm, hu]
    exact h.fits
  others := by
    unfold entries
    rw [hh]
    exact h.others
  ids := by
    unfold headerIds
    rw [hh]
    exact h.ids
  version := by
    rw [hh]
    exact h.version

/-- **One edit** keeps header and blobs, or puts one compartment's parameters,
key and blob in place and gives its passphrase. -/
theorem Change.master {call : Call} {t : Tail} (hc : Change C A v e call s t)
    (hf : e.uuid 0 ∉ headerIds v.state)
    (ho : ∀ c ∈ headerIds v.state, ∃ h, entries v.state.container c = [h]) :
    (gives C call [e] = none ∧ Keeps v.state s) ∨
    ∃ c passphrase, gives C call [e] = some (c, passphrase) ∧ t = .write ∧
      Puts C passphrase c v.state s := by
  have hnew : ∀ {call c k b}, NewKey C A v e call c k b → gives C call [e] = none := by
    intro call c k b hk
    cases hk <;> rfl
  cases hc with
  | rejected hk hu hv => exact .inl ⟨hnew hk, .put hu rfl rfl rfl rfl⟩
  | stored hk hu hv => exact .inl ⟨hnew hk, .put hu rfl rfl rfl rfl⟩
  | discarded hc hk hu hx ht => exact .inl ⟨rfl, .put hu rfl rfl rfl rfl⟩
  | resealed hc hk hu hx hb ho hs => exact .inl ⟨rfl, .put hu rfl rfl rfl rfl⟩
  | unrecorded hf => exact .inl ⟨rfl, .refl _⟩
  | asserted hr hx hf hu => exact .inl ⟨rfl, .put hu rfl rfl rfl rfl⟩
  | added hm hd hb => exact .inr ⟨_, _, rfl, rfl, puts_addCompartment hf hd hb⟩
  | merged1 ht hi hr => exact .inl ⟨rfl, rfl, rfl, fun c u' hu => by
      obtain ⟨u, hu, hk, -⟩ := get_updateManifests_cases hu
      exact ⟨u, hu, hk⟩⟩
  | merged2 hi hm hd hb =>
    exact .inr ⟨_, _, rfl, rfl, (puts_addCompartment hf hd hb).congr rfl rfl rfl⟩
  | @merged3 target _ passphrase _ _ _ t _ _ _ y _ _ _ _ ht hi hr hm hd hb =>
    have hin : t ∈ headerIds v.state := hr.target_mem
    obtain ⟨h, hh⟩ := ho t hin
    refine .inr ⟨t, passphrase, ?_, rfl, (puts_replaceMaster hin hh hd hb).congr rfl rfl rfl⟩
    simp [gives, ht, Except.toOption]

/-- Which passphrase a call gives is up to the input its edit has. -/
theorem edits_gives {call : Call} {es : List In} {q : FacadeResult (Edit Reply)}
    (h : call.Edits C A v es e q) : gives C call es = gives C call [e] := by
  cases h <;> rfl

theorem gives_eq_none {call : Call} {es : List In} (h : ¬ call.EditsContainer) :
    gives C call es = none := by
  cases call with
  | addCompartment | mergeSideBySide | mergeReplaceLocalWithIncoming => exact absurd trivial h
  | _ => rfl

/-! ## What stays open -/

theorem OpensWith.frame {k k' : Container} {c : Uuid} {passphrase : String}
    (he : entries k' c = entries k c) (hm : k'.masterBlobs.get c = k.masterBlobs.get c)
    (h : OpensWith C k c passphrase) : OpensWith C k' c passphrase := by
  obtain ⟨header, b, key, p, h1, h2, h3, h4⟩ := h
  exact ⟨header, b, key, p, he.trans h1, hm.trans h2, h3, h4⟩

/-- Every compartment opens with its passphrase, and the cached keys are the
ones their headers derive. -/
structure OwnedState (C : Crates) (P : Uuid → Option String) (s : VaultState) : Prop where
  opens : ∀ c ∈ headerIds s, ∃ pw, P c = some pw ∧ OpensWith C s.container c pw
  cached : ∀ c u, s.unlocked.get c = some u → ∃ h pw, entries s.container c = [h] ∧
    P c = some pw ∧ derive C (utf8 pw) h.kdfParamsMaster = .ok u.masterKey
  version : s.container.header.formatVersion = L1.formatVersion

/-- So it does in the file. -/
structure Owned (C : Crates) (P : Uuid → Option String) (v : Vault) : Prop where
  state : OwnedState C P v.state
  file : ∃ bytes k, v.disk = some bytes ∧ (∀ o, Container.fromBytes C o bytes = .ok k) ∧
    k.header = v.state.container.header ∧
    ∀ c ∈ headerIds v.state, ∃ pw, P c = some pw ∧ OpensWith C k c pw

variable {P : Uuid → Option String} {s' : VaultState}

theorem OwnedState.one (h : OwnedState C P s) :
    ∀ c ∈ headerIds s, ∃ h, entries s.container c = [h] := by
  intro c hc
  obtain ⟨pw, -, header, b, key, p, he, -⟩ := h.opens c hc
  exact ⟨header, he⟩

theorem OwnedState.keeps (hk : Keeps s s') (h : OwnedState C P s) : OwnedState C P s' := by
  have he : ∀ c, entries s'.container c = entries s.container c := by
    intro c
    unfold entries
    rw [hk.header]
  have hids : headerIds s' = headerIds s := by
    unfold headerIds
    rw [hk.header]
  refine ⟨fun c hc => ?_, fun c u hu => ?_, ?_⟩
  · rw [hids] at hc
    obtain ⟨pw, hp, ho⟩ := h.opens c hc
    exact ⟨pw, hp, ho.frame (he c) (by rw [hk.masterBlobs])⟩
  · obtain ⟨w, hw, hkey⟩ := hk.keys c u hu
    obtain ⟨header, pw, h1, h2, h3⟩ := h.cached c w hw
    exact ⟨header, pw, (he c).trans h1, h2, by rw [hkey]; exact h3⟩
  · rw [hk.header]
    exact h.version

theorem OwnedState.puts (hC : C.CodecLaws) (ha : C.AeadLaws) {pw : String} {c : Uuid}
    (hp : Puts C pw c s s') (h : OwnedState C P s) : OwnedState C (given P (some (c, pw))) s' := by
  obtain ⟨header, b, u, he, hd, ⟨nonce, hb⟩, hm, hu⟩ := hp.fits
  refine ⟨fun c' hc => ?_, fun c' u' hcu => ?_, hp.version.trans h.version⟩
  · unfold given
    by_cases heq : c' = c
    · subst heq
      exact ⟨pw, if_pos rfl, header, b, u.masterKey, _, he, by rw [hm, HashMap.get_put_self], hd,
        decryptWithKey_encryptWithKey hC ha hb⟩
    · rcases (hp.ids c').1 hc with hc | hc
      · exact absurd hc heq
      · obtain ⟨pw', h1, h2⟩ := h.opens c' hc
        exact ⟨pw', (if_neg heq).trans h1, h2.frame (hp.others c' heq)
          (by rw [hm, HashMap.get_put_ne _ _ heq])⟩
  · unfold given
    rw [hu, HashMap.get_put] at hcu
    split at hcu
    · rename_i heq
      cases hcu
      subst heq
      exact ⟨header, pw, he, if_pos rfl, hd⟩
    · rename_i heq
      obtain ⟨header', pw', h1, h2, h3⟩ := h.cached c' u' hcu
      exact ⟨header', pw', (hp.others c' heq).trans h1, (if_neg heq).trans h2, h3⟩

/-- Encrypting an unlocked compartment again: its cached key is the one its
header derives. -/
theorem OwnedState.inMemory (hC : C.CodecLaws) (ha : C.AeadLaws) (h : OwnedState C P s) (t : Tail) :
    OwnedState C P (inMemory C e s t) := by
  cases t with
  | persist c =>
    simp only [L4.inMemory]
    split
    · exact h
    · rename_i u hu
      split
      · exact h
      · rename_i blob hb
        obtain ⟨header, pw, he, hp, hd⟩ := h.cached c u hu
        refine ⟨fun c' hc => ?_, h.cached, h.version⟩
        by_cases heq : c' = c
        · subst heq
          exact ⟨pw, hp, header, blob, u.masterKey, _, he, HashMap.get_put_self _ _ _, hd,
            decryptWithKey_encryptWithKey hC ha hb⟩
        · obtain ⟨pw', h1, h2⟩ := h.opens c' hc
          exact ⟨pw', h1, OpensWith.frame (k := s.container) rfl (HashMap.get_put_ne _ _ heq) h2⟩
  | _ => exact h

/-- Unlocking caches the key that opens the blob, and one key does. -/
theorem OwnedState.unlocked (hk : C.AeadCommits) {c : Uuid} {b : Bytes} {key : Key}
    {p : MasterBlobPlaintext} (hh : c ∈ headerIds s) (hb : s.container.masterBlobs.get c = some b)
    (hp : decryptWithKey C c b key = .ok p) (h : OwnedState C P s) :
    OwnedState C P (s.setUnlocked c ⟨p.manifest, key⟩) := by
  refine ⟨h.opens, fun c' u hu => ?_, h.version⟩
  simp only [VaultState.setUnlocked, HashMap.get_put] at hu
  split at hu
  · rename_i hc
    cases hu
    subst hc
    obtain ⟨pw, h1, header, b', key', p', h2, h3, h4, h5⟩ := h.opens c' hh
    rw [hb] at h3
    cases h3
    obtain rfl := decryptWithKey_key hk hp h5
    exact ⟨header, pw, h2, h1, h4⟩
  · exact h.cached c' u hu

/-- A file that has just been written opens like the memory it is from. -/
theorem OwnedState.written (hC : C.CodecLaws) {v' : Vault} {bytes : Bytes}
    (h : OwnedState C P v'.state) (hw : writeAtomic C e v'.state.container = .ok bytes)
    (hd : v'.disk = some bytes) : Owned C P v' where
  state := h
  file := ⟨bytes, v'.state.container, hd,
    fun o => Container.fromBytes_toArchive hC h.version (writeAtomic_ok e |>.1 hw).1 o, rfl,
      h.opens⟩

theorem Owned.sameFile {v' : Vault} (h : Owned C P v) (hs : OwnedState C P v'.state)
    (hh : v'.state.container.header = v.state.container.header) (hd : v'.disk = v.disk) :
    Owned C P v' where
  state := hs
  file := by
    obtain ⟨bytes, k, h1, h2, h3, h4⟩ := h.file
    refine ⟨bytes, k, hd.trans h1, h2, h3.trans hh.symm, ?_⟩
    unfold headerIds
    rw [hh]
    exact h4

/-- **One call** keeps every compartment open to its passphrase, in memory and
in the file. -/
theorem Owned.step (hC : C.CodecLaws) (ha : C.AeadLaws) (hk : C.AeadCommits) {call : Call}
    {v' : Vault} {es : List In} {r : FacadeResult Reply} (hx : Prog.Exec A (call.run C) v es r v')
    (hf : FreshCompartment ⟨v, call, es, r, v'⟩) (hw : Writes C A ⟨v, call, es, r, v'⟩)
    (h : Owned C P v) : Owned C (given P (Turn.gives C ⟨v, call, es, r, v'⟩)) v' := by
  have hnone : (call.EditsContainer → ∃ x, r = .error x) → Turn.gives C ⟨v, call, es, r, v'⟩ =
      none := by
    intro hr
    cases r with
    | error x => rfl
    | ok a =>
      refine gives_eq_none fun hm => ?_
      obtain ⟨x, hx⟩ := hr hm
      cases hx
  cases call.outcome hx with
  | same hq hr =>
    rw [hnone hr]
    exact h.sameFile (by rw [hq.state]; exact h.state) (by rw [hq.state]) hq.disk
  | unlocked c b key p hn hh hb hp hs hd =>
    rw [hnone fun hm => absurd hm hn]
    refine h.sameFile ?_ (by rw [hs]; rfl) hd
    rw [hs]
    exact h.state.unlocked hk hh hb hp
  | locked hn hc hu hd =>
    rw [hnone fun hm => absurd hm hn]
    refine h.sameFile ?_ (by rw [hc]) hd
    exact h.state.keeps ⟨by rw [hc], by rw [hc], fun c u hcu => ⟨u, hu c u hcu, rfl⟩⟩
  | done e s t a he hc hg hr hs hd =>
    subst hr
    have hgives : Turn.gives C ⟨v, call, es, .ok a, v'⟩ = gives C call [e] := edits_gives he
    have hstate : OwnedState C (given P (gives C call [e])) v'.state := by
      rw [hs]
      rcases Change.master hc (hf e he.mem) h.state.one with ⟨hn, hkeep⟩ | ⟨c, pw, hgv, -, hput⟩
      · rw [hn]
        exact (h.state.keeps hkeep).inMemory hC ha t
      · rw [hgv]
        exact (h.state.puts hC ha hput).inMemory hC ha t
    rw [hgives]
    rcases written_cases (v := v) hg with ⟨rfl, hdisk⟩ | ⟨bytes, hbytes, hdisk⟩
    · rcases Change.master hc (hf e he.mem) h.state.one with ⟨hn, hkeep⟩ | ⟨c, pw, -, ht, -⟩
      · rw [hn] at hstate ⊢
        exact h.sameFile hstate (by rw [hs]; exact hkeep.header) (hd.trans hdisk)
      · cases ht
    · rw [← hs] at hbytes
      exact hstate.written hC hbytes (hd.trans hdisk)
  | undone e s t a he hc hg hr hs hd =>
    obtain ⟨x, rfl⟩ := hr
    rcases Change.master hc (hf e he.mem) h.state.one with ⟨-, hkeep⟩ | ⟨c, pw, -, rfl, -⟩
    · have hstate : OwnedState C P v'.state := by
        rw [hs]
        exact (h.state.keeps hkeep).inMemory hC ha t
      refine h.sameFile hstate ?_ hd
      rw [hs, (inMemory_frame C e s t).2.1]
      exact hkeep.header
    · exact absurd (hw e _ he rfl) hg

/-! ## Runs -/

theorem created_owned (hC : C.CodecLaws) (ha : C.AeadLaws) {disk : Option Bytes} {label pw : String}
    {profile : DeviceProfile} (h : create C e disk label pw profile = (.ok (), v)) :
    Owned C (passphraseOf C (e.uuid 0, pw) []) v := by
  obtain ⟨kdf, key, blob, bytes, -, hd, hb, hs, hw, hdisk⟩ := create_ok h
  have hempty : OwnedState C (fun _ => none) ⟨Container.new, ∅⟩ :=
    ⟨fun c hc => by simp [headerIds, Container.new, ContainerHeaderOf.new] at hc,
      fun c u hu => by simp at hu, rfl⟩
  have hput : Puts C pw (e.uuid 0) ⟨Container.new, ∅⟩ v.state := by
    rw [hs]
    exact puts_addCompartment (s := ⟨Container.new, ∅⟩) (u := ⟨Manifest.new (e.uuid 1) e.utc, key⟩)
      (by simp [headerIds, Container.new, ContainerHeaderOf.new]) hd hb
  exact (hempty.puts hC ha hput).written hC hw hdisk

/-- **The owner is never locked out.** After any calls from a created vault
in which every compartment got an id of its own and every write of a new
compartment or of merged manifests went through, each compartment of the
header has one header entry and a master blob, and the passphrase last given
for it opens it, in memory and in the file. -/
theorem run_owned (C : Crates) (hC : C.CodecLaws) (ha : C.AeadLaws) (hk : C.AeadCommits) {e : In}
    {disk : Option Bytes} {label pw : String} {profile : DeviceProfile} {v₀ v : Vault}
    {l : List Turn} (h₀ : create C e disk label pw profile = (.ok (), v₀)) (h : Run C A v₀ l v)
    (hf : ∀ t ∈ l, FreshCompartment t) (hw : ∀ t ∈ l, Writes C A t) :
    ∃ bytes, v.disk = some bytes ∧ ∀ c ∈ headerIds v.state, ∃ p,
      passphraseOf C (e.uuid 0, pw) l c = some p ∧ OpensWith C v.state.container c p ∧
      ∀ o, ∃ k, Container.fromBytes C o bytes = .ok k ∧ OpensWith C k c p := by
  have hown : Owned C (passphraseOf C (e.uuid 0, pw) l) v := by
    induction h with
    | nil => exact created_owned hC ha h₀
    | cons hr hx ih =>
      have hprev := ih (fun t ht => hf t (List.mem_cons_of_mem _ ht))
        fun t ht => hw t (List.mem_cons_of_mem _ ht)
      exact hprev.step hC ha hk hx (hf _ List.mem_cons_self) (hw _ List.mem_cons_self)
  obtain ⟨bytes, k, h1, h2, h3, h4⟩ := hown.file
  refine ⟨bytes, h1, fun c hc => ?_⟩
  obtain ⟨p, hp, ho⟩ := hown.state.opens c hc
  obtain ⟨p', hp', ho'⟩ := h4 c hc
  rw [hp] at hp'
  cases hp'
  exact ⟨p, hp, ho, fun o => ⟨k, h2 o, ho'⟩⟩

end

/-- A second compartment in the sample vault: each opens with its own
passphrase, in the file too. -/
theorem run_owned_sample :
    ∃ (v : Vault) (bytes : Bytes), headerIds v.state = [Uuid.rep 10, Uuid.rep 40] ∧
    v.disk = some bytes ∧ ∀ o, ∃ k, Container.fromBytes Crates.symbolic o bytes = .ok k ∧
      OpensWith Crates.symbolic k (Uuid.rep 10) "pw" ∧
      OpensWith Crates.symbolic k (Uuid.rep 40) "second" := by
  obtain ⟨d, v, -, -, hx, hs, hids, -⟩ := exec_addCall (admits_sampleNext sampleVault_clock)
    sampleVault_state.headerIds
  have hv : headerIds v.state = [Uuid.rep 10, Uuid.rep 40] := by
    rw [hs]
    exact hids
  have hrun : Run Crates.symbolic Vault.Admits sampleVault [⟨sampleVault,
      .addCompartment "more" "second" .desktop, [sampleNext], _, v⟩] v := .cons .nil hx
  obtain ⟨bytes, hdisk, ho⟩ := run_owned Crates.symbolic Crates.symbolic_codec Crates.symbolic_aead
    Crates.symbolic_commits sampleVault_create hrun
    (by
      intro t ht e he
      obtain rfl := List.mem_singleton.1 ht
      obtain rfl := List.mem_singleton.1 he
      rw [sampleVault_state.headerIds]
      simp [sampleNext, Uuid.rep_inj])
    (by
      intro t ht e d he _
      obtain rfl := List.mem_singleton.1 ht
      obtain rfl := List.mem_singleton.1 he.mem
      exact writeAtomic_symbolic sampleNext_works.io _)
  obtain ⟨p, hp, -, h1⟩ := ho (Uuid.rep 10) (by simp [hv])
  obtain ⟨q, hq, -, h2⟩ := ho (Uuid.rep 40) (by simp [hv])
  have hne : Uuid.rep 10 ≠ Uuid.rep 40 := by simp [Uuid.rep_inj]
  have hp' : p = "pw" := by
    simpa [passphraseOf, given, Turn.gives, gives, sampleNext, sampleIn, hne] using hp.symm
  have hq' : q = "second" := by
    simpa [passphraseOf, given, Turn.gives, gives, sampleNext, sampleIn] using hq.symm
  subst hp' hq'
  refine ⟨v, bytes, hv, hdisk, fun o => ?_⟩
  obtain ⟨k, hk, ho1⟩ := h1 o
  obtain ⟨k', hk', ho2⟩ := h2 o
  rw [hk] at hk'
  cases hk'
  exact ⟨k, hk, ho1, ho2⟩

end VaultSigner.L5
