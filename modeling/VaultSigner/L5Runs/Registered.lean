import VaultSigner.L4Vault.Changes
import VaultSigner.L4Vault.Lookups
import VaultSigner.L4Vault.Sample
import VaultSigner.L5Runs.Durable

/-!
# A registered passkey is never forgotten (`handle_fido2_make_credential`)

A registration puts an entry in the manifest of one compartment, which from
then on is in three places: in memory while the compartment is unlocked, in
the compartment's blob, and in the blob that the file holds. Any of them may
be behind another, and each of them is what the next unlock or the next `open`
may go by.

Results:
* `Change.holds`: no edit breaks a stable property of a compartment's
  manifests, in memory or in its blob.
* `Held.step`, `Held.lifetime`: so it stays through calls and reopenings.
* `passkey_remembered`: as long as it is not discarded a registered passkey
  excludes a second registration, and is among the candidates of an assertion.
-/
namespace VaultSigner.L5
open VaultSigner.Core VaultSigner.L1 VaultSigner.L3 VaultSigner.L4
open VaultSigner.L3.Merge (VaultCompartment extended)

/-- Calls one after another, newest first, with the vault dropped and opened
again from its file anywhere between them. -/
inductive Lifetime (C : Crates) (A : Vault → In → Prop) (v₀ : Vault) : List Turn → Vault → Prop
  | nil : Lifetime C A v₀ [] v₀
  | call {l : List Turn} {v v' : Vault} {call : Call} {es : List In} {r : FacadeResult Reply}
      (h : Lifetime C A v₀ l v) (hx : Prog.Exec A (call.run C) v es r v') :
      Lifetime C A v₀ (⟨v, call, es, r, v'⟩ :: l) v'
  | reopen {l : List Turn} {v v' : Vault} {e : In} {bytes : Bytes}
      (h : Lifetime C A v₀ l v) (hb : v.disk = some bytes) (ho : openVault C e bytes = .ok v') :
      Lifetime C A v₀ l v'

/-- The registration stored the key `k`, with this credential id for this
relying party, in compartment `c`. -/
inductive Registered (C : Crates) (A : Vault → In → Prop) (t : Turn) (c k : Uuid) (rpId : String)
    (credentialId : Bytes) : Prop
  | intro (a : MakeCredentialArgs) (request : MakeCredentialRequest) (es : List In)
      (outcome : MakeCredentialOutcome) (w : Vault) (e : In) (reply : Reply)
      (call : t.call = .handleFido2MakeCredential a)
        (compartment : parseUuid C a.compartmentId = .ok c)
      (parsed : parseMakeCredential C a.requestCbor = .ok request)
      (made : Prog.Exec A (handleMakeCredential C (ctap2Backend C false) drawRegion request
        a.userPresent a.userVerified) t.before es (.ok outcome) w)
      (inputs : t.inputs = es ++ [e]) (result : t.result = .ok reply) (keyId : e.uuid 1 = k)
      (rp : outcome.rpId = rpId) (id : outcome.credentialId = credentialId)

/-- The call discards the key `k` of compartment `c`: it gets past the checks
of `discard_key`. -/
def Discards (C : Crates) (A : Vault → In → Prop) (t : Turn) (c k : Uuid) : Prop :=
  ∃ cid kid text e d, t.call = .discardKey cid kid text ∧ parseUuid C cid = .ok c ∧
    parseUuid C kid = .ok k ∧ t.call.Edits C A t.before t.inputs e (.ok d)

/-! ## Stable properties of a manifest -/

/-- No edit of the manifest breaks `P`, but for the removal of `k`. -/
structure Stable (C : Crates) (k : Uuid) (P : Manifest → Prop) : Prop where
  pushed : ∀ u x, P u.manifest → P (UnlockedCompartment.push u x).manifest
  removed : ∀ u k', k' ≠ k → P u.manifest → P (UnlockedCompartment.remove u k').manifest
  digest : ∀ u k' d, P u.manifest → P (UnlockedCompartment.setDigest u k' d).manifest
  asserted : ∀ u k' n now, P u.manifest → P (UnlockedCompartment.asserted u k' n now).manifest
  extended : ∀ y keys, P y.manifest → P (Merge.extended y keys).manifest

/-- The compartment's blob, if it opens, opens to a manifest with `P`. -/
def InBlob (C : Crates) (c : Uuid) (P : Manifest → Prop) (k : Container) : Prop :=
  ∀ b key p, k.masterBlobs.get c = some b → decryptWithKey C c b key = .ok p → P p.manifest

/-- `P` of what is unlocked, and of what the blob holds. -/
structure Holds (C : Crates) (c : Uuid) (P : Manifest → Prop) (s : VaultState) : Prop where
  memory : ∀ u, s.unlocked.get c = some u → P u.manifest
  blob : InBlob C c P s.container

/-- So in the file, whoever opens it. -/
structure Held (C : Crates) (c : Uuid) (P : Manifest → Prop) (v : Vault) : Prop where
  state : Holds C c P v.state
  listed : c ∈ headerIds v.state
  version : v.state.container.header.formatVersion = L1.formatVersion
  file : ∀ bytes o k, v.disk = some bytes → Container.fromBytes C o bytes = .ok k →
    c ∈ k.header.compartments.map CompartmentHeaderOf.compartmentId ∧ InBlob C c P k

section
variable {C : Crates} {A : Vault → In → Prop} {v : Vault} {e : In} {s s' : VaultState} {c k : Uuid}
  {P : Manifest → Prop}

/-- What is encrypted from a manifest with `P` opens to one. -/
theorem InBlob.put (hC : C.CodecLaws) (ha : C.AeadLaws) (hk : C.AeadCommits) {m m' : Container}
    {b : Bytes} {u : UnlockedCompartment} {nonce : Except String Nonce} {c' : Uuid}
    (h : InBlob C c P m) (hb : encryptWithKey C c' u.manifest u.masterKey nonce = .ok b)
    (hu : c' = c → P u.manifest) (hm : m'.masterBlobs = m.masterBlobs.put c' b) :
    InBlob C c P m' := by
  intro b' key p hb' hp
  rw [hm, HashMap.get_put] at hb'
  split at hb'
  · rename_i hc
    subst hc
    cases hb'
    rw [decryptWithKey_unique hk (decryptWithKey_encryptWithKey hC ha hb) hp]
    exact hu rfl
  · exact h b' key p hb' hp

theorem Holds.put (h : Holds C c P s) {c' : Uuid} {u : UnlockedCompartment}
    (hu : c' = c → P u.manifest) (hs : s'.unlocked = s.unlocked.put c' u)
    (hb : InBlob C c P s'.container) : Holds C c P s' where
  memory := by
    intro w hw
    rw [hs, HashMap.get_put] at hw
    split at hw
    · rename_i hc
      cases hw
      exact hu hc.symm
    · exact h.memory w hw
  blob := hb

theorem Holds.local (h : Holds C c P s) {y : VaultCompartment} (hy : y ∈ localCompartments s)
    (hc : y.id = c) : P y.manifest := by
  obtain ⟨u, hu, hm⟩ := mem_localCompartments hy
  rw [← hm]
  exact h.memory u (hc ▸ hu)

/-- **One edit** keeps a stable property of the compartment `c`. -/
theorem Change.holds (hC : C.CodecLaws) (ha : C.AeadLaws) (hk : C.AeadCommits) (hP : Stable C k P)
    {call : Call} {t : Tail} (hc : Change C A v e call s t) (hf : e.uuid 0 ≠ c)
    (hd : ∀ cid kid text, call = .discardKey cid kid text → parseUuid C cid = .ok c →
      parseUuid C kid ≠ .ok k) (h : Holds C c P v.state) : Holds C c P s := by
  cases hc with
  | rejected hk hu hv => exact h.put (fun hc => hP.pushed _ _ (h.memory _ (hc ▸ hu))) rfl h.blob
  | stored hk hu hv => exact h.put (fun hc => hP.pushed _ _ (h.memory _ (hc ▸ hu))) rfl h.blob
  | discarded hc hk hu hx ht =>
    refine h.put (fun heq => ?_) rfl h.blob
    subst heq
    refine hP.removed _ _ (fun heq => ?_) (h.memory _ hu)
    exact hd _ _ _ rfl hc (heq ▸ hk)
  | resealed hc hk hu hx hb ho hs =>
    exact h.put (fun hc => hP.digest _ _ _ (h.memory _ (hc ▸ hu))) rfl h.blob
  | unrecorded hf => exact h
  | asserted hr hx hf hu =>
    exact h.put (fun hc => hP.asserted _ _ _ _ (h.memory _ (hc ▸ hu))) rfl h.blob
  | added hm hd hb =>
    exact h.put (fun hc => absurd hc hf) rfl (h.blob.put hC ha hk hb (absurd · hf) rfl)
  | merged1 ht hi hr =>
    refine ⟨fun u hu => ?_, h.blob⟩
    obtain ⟨w, hw, -, hm | ⟨y, hy, hyc, hm⟩⟩ := get_updateManifests_cases hu
    · rw [hm]
      exact h.memory w hw
    · rw [hm]
      rcases hr.mem_updated hy with hy | rfl
      · exact h.local hy hyc
      · exact hP.extended _ _ (h.local hr.mem hyc)
  | merged2 hi hm hd hb =>
    exact h.put (fun hc => absurd hc hf) rfl (h.blob.put hC ha hk hb (absurd · hf) rfl)
  | @merged3 _ _ _ _ _ _ t _ _ _ _ _ _ u b ht hi hr hm hd hb =>
    have hu : t = c → P u.manifest := by
      intro hc
      rw [hm]
      exact hP.extended _ _ (h.local hr.mem (hr.id.trans hc))
    exact h.put hu rfl (h.blob.put hC ha hk hb hu rfl)

/-- Encrypting a compartment again writes what is in memory. -/
theorem Holds.inMemory (hC : C.CodecLaws) (ha : C.AeadLaws) (hk : C.AeadCommits) (h : Holds C c P s)
    (t : Tail) : Holds C c P (inMemory C e s t) := by
  cases t with
  | persist c' =>
    simp only [L4.inMemory]
    split
    · exact h
    · rename_i u hu
      split
      · exact h
      · rename_i b hb
        exact ⟨h.memory, h.blob.put hC ha hk hb (fun hc => h.memory u (hc ▸ hu)) rfl⟩
  | _ => exact h

/-! ## Calls and reopenings -/

/-- The file as it was, under a header that still lists the compartment. -/
theorem Held.sameFile {v' : Vault} (h : Held C c P v) (hs : Holds C c P v'.state)
    (hl : c ∈ headerIds v'.state) (hv : v'.state.container.header.formatVersion = L1.formatVersion)
    (hd : v'.disk = v.disk) : Held C c P v' :=
  ⟨hs, hl, hv, fun bytes o k hb ho => h.file bytes o k (hd ▸ hb) ho⟩

/-- The file has just been written from memory. -/
theorem Held.written (hC : C.CodecLaws) {v' : Vault} {bytes : Bytes} (hs : Holds C c P v'.state)
    (hl : c ∈ headerIds v'.state) (hv : v'.state.container.header.formatVersion = L1.formatVersion)
    (hw : writeAtomic C e v'.state.container = .ok bytes) (hd : v'.disk = some bytes) :
    Held C c P v' := by
  refine ⟨hs, hl, hv, fun bytes' o k hb ho => ?_⟩
  rw [hd] at hb
  cases hb
  rw [Container.fromBytes_toArchive hC hv (writeAtomic_ok e |>.1 hw).1 o] at ho
  cases ho
  exact ⟨hl, hs.blob⟩

/-- **One call** that does not discard `k` keeps a stable property. -/
theorem Held.step (hC : C.CodecLaws) (ha : C.AeadLaws) (hk : C.AeadCommits) (hP : Stable C k P)
    {call : Call} {v' : Vault} {es : List In} {r : FacadeResult Reply}
    (hx : Prog.Exec A (call.run C) v es r v') (hf : FreshCompartment ⟨v, call, es, r, v'⟩)
    (hd : ¬ Discards C A ⟨v, call, es, r, v'⟩ c k) (h : Held C c P v) : Held C c P v' := by
  obtain ⟨hversion, hids⟩ := (call.effect hx).header
  have hv := hversion.trans h.version
  have hl : c ∈ headerIds v'.state := by
    rcases hids with hids | ⟨e, he, hids⟩
    · rw [hids]
      exact h.listed
    · rw [hids]
      exact List.mem_append_left _ h.listed
  have hedit : ∀ {e s t a}, call.Edits C A v es e (.ok ⟨s, t, a⟩) → Change C A v e call s t →
      v'.state = inMemory C e s t → Holds C c P v'.state := by
    intro e s t a he hc hs
    rw [hs]
    refine (Change.holds hC ha hk hP hc ?_ ?_ h.state).inMemory hC ha hk t
    · intro heq
      exact hf e he.mem (heq ▸ h.listed)
    · rintro cid kid text rfl hcid hkid
      exact hd ⟨cid, kid, text, e, _, rfl, hcid, hkid, he⟩
  cases call.outcome hx with
  | same hq hr => exact h.sameFile (by rw [hq.state]; exact h.state) hl hv hq.disk
  | unlocked c' b key p hn hh hb hp hs hd =>
    refine h.sameFile ?_ hl hv hd
    rw [hs]
    refine h.state.put (fun hc => ?_) rfl h.state.blob
    subst hc
    exact h.state.blob b key p hb hp
  | locked hn hc hu hd =>
    exact h.sameFile ⟨fun u hcu => h.state.memory u (hu c u hcu), by rw [hc]; exact h.state.blob⟩
      hl hv hd
  | done e s t a he hc hg hr hs hdisk =>
    have hstate := hedit he hc hs
    rcases written_cases (v := v) hg with ⟨-, hw⟩ | ⟨bytes, hbytes, hw⟩
    · exact h.sameFile hstate hl hv (hdisk.trans hw)
    · rw [← hs] at hbytes
      exact .written hC hstate hl hv hbytes (hdisk.trans hw)
  | undone e s t a he hc hg hr hs hdisk => exact h.sameFile (hedit he hc hs) hl hv hdisk

/-- Reopening goes by the file alone. -/
theorem Held.reopen {v' : Vault} {bytes : Bytes} (hb : v.disk = some bytes)
    (ho : openVault C e bytes = .ok v') (h : Held C c P v) : Held C c P v' := by
  unfold openVault at ho
  simp only [bind_ok, facade_ok, pure, Except.pure, Except.ok.injEq] at ho
  obtain ⟨m, hm, rfl⟩ := ho
  obtain ⟨hl, hblob⟩ := h.file bytes e.orders m hb hm
  refine ⟨⟨fun u hu => by simp at hu, hblob⟩, hl, fromBytes_version hm,
    fun bytes' o k hb' ho' => ?_⟩
  cases hb'
  exact h.file bytes o k hb ho'

theorem Held.lifetime (hC : C.CodecLaws) (ha : C.AeadLaws) (hk : C.AeadCommits) (hP : Stable C k P)
    {v₀ : Vault} {l : List Turn} (h : Lifetime C A v₀ l v) (hf : ∀ t ∈ l, FreshCompartment t)
    (hd : ∀ t ∈ l, ¬ Discards C A t c k) (h₀ : Held C c P v₀) : Held C c P v := by
  induction h with
  | nil => exact h₀
  | call hr hx ih =>
    have hprev := ih (fun t ht => hf t (List.mem_cons_of_mem _ ht)) fun t ht =>
      hd t (List.mem_cons_of_mem _ ht)
    exact hprev.step hC ha hk hP hx (hf _ List.mem_cons_self) (hd _ List.mem_cons_self)
  | reopen hr hb ho ih => exact (ih hf hd).reopen hb ho

theorem Lifetime.run {v₀ v' : Vault} {l₀ l : List Turn} (h : Lifetime C A v₀ l₀ v)
    (hr : Run C A v l v') : Lifetime C A v₀ (l ++ l₀) v' := by
  induction hr with
  | nil => exact h
  | cons hr hx ih => exact ih.call hx

/-- The version and the listing of what is unlocked hold in every lifetime. -/
theorem Lifetime.sound {v₀ : Vault} {l : List Turn} (h : Lifetime C A v₀ l v)
    (h₀ : Created C v₀ ∨ Opened C v₀) :
    v.state.container.header.formatVersion = L1.formatVersion ∧ Listed v.state := by
  induction h with
  | nil => exact ⟨Run.version (A := A) h₀ .nil, start_listed h₀⟩
  | call hr hx ih => exact ⟨(Call.effect _ hx).header.1.trans ih.1, Call.listed hx ih.2⟩
  | reopen hr hb ho ih =>
    exact ⟨Run.version (A := A) (.inr ⟨_, _, ho⟩) .nil, start_listed (.inr ⟨_, _, ho⟩)⟩

/-! ## The entry of a passkey -/

/-- `m` has an entry with this `key_id` that is a candidate for the relying
party, with this credential id. -/
def Stores (C : Crates) (k : Uuid) (rpId : String) (credentialId : Bytes) (m : Manifest) : Prop :=
  ∃ x ∈ m.keys, ∃ d, candidate C rpId x = some d ∧ d.keyId = k ∧ d.credentialId = credentialId

theorem mem_modifyFirst_of_mem {α : Type} {p : α → Bool} {f : α → α} {x : α} :
    ∀ {l : List α}, x ∈ l → x ∈ modifyFirst p f l ∨ f x ∈ modifyFirst p f l := by
  intro l
  induction l with
  | nil => intro h; cases h
  | cons a l ih =>
    intro h
    unfold modifyFirst
    split
    · rcases List.mem_cons.1 h with rfl | h
      · exact .inr List.mem_cons_self
      · exact .inl (List.mem_cons_of_mem _ h)
    · rcases List.mem_cons.1 h with rfl | h
      · exact .inl List.mem_cons_self
      · rcases ih h with h | h
        · exact .inl (List.mem_cons_of_mem _ h)
        · exact .inr (List.mem_cons_of_mem _ h)

variable {rpId : String} {credentialId : Bytes}

/-- An entry edited in place stays a candidate. -/
theorem Stores.modify {m : Manifest} {p : KeyEntry → Bool} {f : KeyEntry → KeyEntry}
    (hf : ∀ x d, candidate C rpId x = some d → ∃ d', candidate C rpId (f x) = some d' ∧
      d'.keyId = d.keyId ∧ d'.credentialId = d.credentialId)
    (h : Stores C k rpId credentialId m) :
    Stores C k rpId credentialId { m with keys := modifyFirst p f m.keys } := by
  obtain ⟨x, hx, d, hd, hk, hid⟩ := h
  rcases mem_modifyFirst_of_mem (p := p) (f := f) hx with hx | hx
  · exact ⟨x, hx, d, hd, hk, hid⟩
  · obtain ⟨d', hd', hk', hid'⟩ := hf x d hd
    exact ⟨f x, hx, d', hd', hk'.trans hk, hid'.trans hid⟩

theorem stores_stable : Stable C k (Stores C k rpId credentialId) where
  pushed := by
    rintro u y ⟨x, hx, hd⟩
    exact ⟨x, List.mem_append_left _ hx, hd⟩
  removed := by
    rintro u k' hne ⟨x, hx, d, hd, hk, hid⟩
    obtain ⟨f, -, -, -, hkx, -⟩ := candidate_some hd
    refine ⟨x, List.mem_filter.2 ⟨hx, ?_⟩, d, hd, hk, hid⟩
    simp only [decide_eq_true_eq]
    intro heq
    exact hne (heq.symm.trans (hkx.symm.trans hk))
  digest := by
    intro u k' b h
    exact h.modify fun x d hd => ⟨d, hd, rfl, rfl⟩
  asserted := by
    intro u k' n now h
    refine h.modify fun x d hd => ?_
    obtain ⟨f, hf, hrp, hid, hh, hk, hdisc, -⟩ := candidate_eq_some.1 hd
    refine ⟨{ d with signCount := n },
      candidate_eq_some.2 ⟨{ f with signCount := n }, ?_, hrp, hid, hh, hk,
      hdisc, rfl⟩, rfl, rfl⟩
    simp [KeyEntry.asserted, hf]
  extended := by
    rintro y keys ⟨x, hx, hd⟩
    exact ⟨x, List.mem_append_left _ hx, hd⟩

theorem prepareMakeCredential_candidate (hC : C.CodecLaws) {a : MakeCredentialArgs}
    {o : MakeCredentialOutcome} {x : KeyEntry} {b : Bytes}
    (h : prepareMakeCredential C e a o = .ok (x, b)) :
    ∃ d, candidate C o.rpId x = some d ∧ d.keyId = e.uuid 1 ∧ d.credentialId = o.credentialId := by
  unfold prepareMakeCredential at h
  simp only [bind_ok, pure, Except.pure, Except.ok.injEq] at h
  obtain ⟨b', -, h⟩ := h
  cases h
  exact ⟨⟨e.uuid 1, o.credentialId, o.userHandle, o.discoverable, 0⟩,
    candidate_eq_some.2 ⟨_, rfl, rfl, hC.base64 _, hC.base64 _, rfl, rfl, rfl⟩, rfl, rfl⟩

/-- A registration leaves its entry in memory, in the blob and in the file. -/
theorem Registered.held (hC : C.CodecLaws) (ha : C.AeadLaws) (hk : C.AeadCommits) {t : Turn}
    (h : Registered C A t c k rpId credentialId)
    (hx : Prog.Exec A (t.call.run C) t.before t.inputs t.result t.after)
    (hv : t.before.state.container.header.formatVersion = L1.formatVersion)
    (hl : Listed t.before.state) : Held C c (Stores C k rpId credentialId) t.after := by
  obtain ⟨v, call, es, r, v'⟩ := t
  obtain ⟨a, request, es₁, o, w, e, reply, rfl, hc, hr, hmade, rfl, rfl, rfl, rfl, rfl⟩ := h
  simp only at hx hc hr hmade hv hl ⊢
  have hedits := Call.Edits.makeCredential (C := C) (A := A) a e hc hr hmade
  cases Call.outcome _ hx with
  | same hq hr =>
    obtain ⟨x, hx⟩ := hr trivial
    cases hx
  | unlocked c b key p hn => exact absurd trivial hn
  | locked hn => exact absurd trivial hn
  | undone e s t a he hc hg hr =>
    obtain ⟨x, hx⟩ := hr
    cases hx
  | done e' s t a' he hch hg hr hs hd =>
    obtain ⟨rfl, hq⟩ := hedits.unique he
    obtain ⟨d, hd', hdd⟩ := map_edit_ok hq.symm
    unfold makeCredentialEdit at hd'
    split at hd'
    · cases hd'
    · rename_i x b hp
      unfold storeEdit at hd'
      cases hu : unlockedCompartment v.state c with
      | error y => rw [hu] at hd'; cases hd'
      | ok u =>
        have hget := unlockedCompartment_ok.1 hu
        rw [hu] at hd'
        simp only at hd'
        split at hd'
        · cases hd'
          cases hdd
          exact absurd hg id
        · cases hd'
          cases hdd
          obtain ⟨u', blob, bytes, hu', hb, hw⟩ := hg
          have hput : ((v.state.setUnlocked c (u.push x)).setKeyBlob x.keyId b).unlocked.get c =
              some (u.push x) := HashMap.get_put_self _ _ _
          rw [hput] at hu'
          cases hu'
          have hstores : Stores C (e'.uuid 1) o.rpId o.credentialId (u.push x).manifest :=
            ⟨x, by simp [UnlockedCompartment.push], prepareMakeCredential_candidate hC hp⟩
          have hs' :
              v'.state = (((v.state.setUnlocked c (u.push x)).setKeyBlob x.keyId b).setMasterBlob
              c blob) := by
            rw [hs]
            simp only [L4.inMemory, hput, hb]
          have hdisk : v'.disk = some bytes := by
            rw [hd]
            simp only [L4.written, L4.inMemory, hput, hb, hw, Except.toOption]
          refine .written (e := e') hC ⟨fun u' hu' => ?_, ?_⟩ ?_ ?_ (by rw [hs']; exact hw) hdisk
          · rw [hs'] at hu'
            have hsame : some u' = some (u.push x) := hu'.symm.trans hput
            cases hsame
            exact hstores
          · intro b' key p hb' hp'
            rw [hs'] at hb'
            simp only [VaultState.setMasterBlob, HashMap.get_put_self, Option.some.injEq] at hb'
            subst hb'
            rw [decryptWithKey_unique hk (decryptWithKey_encryptWithKey hC ha hb) hp']
            exact hstores
          · rw [hs']
            exact hl c u hget
          · rw [hs']
            exact hv

/-! ## What the backend is told -/

/-- The passkey is among the candidates of its relying party, in whatever order
the compartments are walked. -/
theorem Stores.candidate_mem {u : UnlockedCompartment} (hu : s.unlocked.get c = some u)
    (h : Stores C k rpId credentialId u.manifest) (o : Orders) :
    ∃ d ∈ credentialsForRp C o s rpId, d.keyId = k ∧ d.credentialId = credentialId := by
  obtain ⟨x, hx, d, hd, hk, hid⟩ := h
  exact ⟨d, mem_credentialsForRp.2 ⟨c, u, x, hu, hx, hd⟩, hk, hid⟩

theorem registrationChecks_excluded {request : MakeCredentialRequest} {up uv : Bool}
    {existing : List CredentialCandidate} {excluded : List Bytes} {d : CredentialCandidate}
    (hl : request.excludeList = some excluded) (hd : d ∈ existing)
    (hm : d.credentialId ∈ excluded) :
    registrationChecks request up uv existing = .error .credentialExcluded := by
  unfold registrationChecks
  rw [if_pos]
  rw [hl, Option.getD_some, List.any_eq_true]
  refine ⟨d.credentialId, hm, List.any_eq_true.2 ⟨d, hd, by simp⟩⟩

/-- The exclude list is looked at first, with what the vault holds then. -/
theorem handleMakeCredential_excluded {request : MakeCredentialRequest} {up uv : Bool} {w : Vault}
    {es : List In} {r : Except Ctap2Error MakeCredentialOutcome} {excluded : List Bytes}
    (hl : request.excludeList = some excluded)
    (hd : ∀ o, ∃ d ∈ credentialsForRp C o v.state request.rpId, d.credentialId ∈ excluded)
    (h : Prog.Exec A (handleMakeCredential C (ctap2Backend C false) drawRegion request up uv)
      v es r w) :
    r = .error .credentialExcluded := by
  unfold handleMakeCredential at h
  obtain ⟨e, es', -, -, h⟩ := Prog.exec_region.1 h
  obtain ⟨d, hd, hm⟩ := hd e.orders
  have hr : registrationChecks request up uv (credentialsForRp C e.orders v.state request.rpId) =
      .error .credentialExcluded := registrationChecks_excluded hl hd hm
  simp only [Vault.enter_state] at h
  change Prog.Exec A ((Prog.ofExcept (registrationChecks request up uv
    (credentialsForRp C e.orders v.state request.rpId))).bind _) _ _ _ _ at h
  rw [hr] at h
  exact (Prog.exec_done.1 h).2.1

theorem chooseCandidate_isSome {request : GetAssertionRequest}
    {candidates : List CredentialCandidate} {allowed : List Bytes} {d : CredentialCandidate}
    (hl : request.allowList = some allowed)
    (hd : d ∈ candidates.filter fun d => allowed.any fun a => a = d.credentialId) :
    (chooseCandidate request candidates).isSome := by
  unfold chooseCandidate
  simp only [hl]
  rw [List.isSome_head?]
  exact List.ne_nil_of_mem hd

/-- **A registered passkey is never forgotten.** After a successful
registration, whatever calls follow, failed ones among them, and however often
the vault is opened again from its file in between: as long as the key is not
discarded and its compartment is unlocked, the exclude list is honoured, and
an assertion that allows the credential has it among its candidates. -/
theorem passkey_remembered (C : Crates) (hC : C.CodecLaws) (ha : C.AeadLaws) (hk : C.AeadCommits)
    {v₀ : Vault} {t : Turn} {l₀ l : List Turn} (h₀ : Created C v₀ ∨ Opened C v₀)
    (hl₀ : Lifetime C A v₀ l₀ t.before)
    (hx : Prog.Exec A (t.call.run C) t.before t.inputs t.result t.after)
    (hr : Registered C A t c k rpId credentialId) (hl : Lifetime C A t.after l v)
    (hf : ∀ t ∈ l, FreshCompartment t) (hd : ∀ t ∈ l, ¬ Discards C A t c k)
    {u : UnlockedCompartment} (hu : v.state.unlocked.get c = some u) :
    (∀ request up uv excluded es r w, request.rpId = rpId → request.excludeList = some excluded →
      credentialId ∈ excluded →
      Prog.Exec A (handleMakeCredential C (ctap2Backend C false) drawRegion
        request up uv) v es r w → r = .error .credentialExcluded) ∧
    ∀ (request : GetAssertionRequest) allowed, request.rpId = rpId →
    request.allowList = some allowed →
      credentialId ∈ allowed → ∀ o,
        (∃ d ∈ (credentialsForRp C o v.state request.rpId).filter fun d => allowed.any fun a =>
          a = d.credentialId,
          d.keyId = k ∧ d.credentialId = credentialId) ∧
        (chooseCandidate request (credentialsForRp C o v.state request.rpId)).isSome := by
  obtain ⟨hv, hlisted⟩ := hl₀.sound h₀
  have hheld := (hr.held hC ha hk hx hv hlisted).lifetime hC ha hk stores_stable hl hf hd
  have hstores := hheld.state.memory u hu
  refine ⟨?_, ?_⟩
  · rintro request up uv excluded es r w rfl hexc hmem hrun
    refine handleMakeCredential_excluded hexc (fun o => ?_) hrun
    obtain ⟨d, hd, -, rfl⟩ := hstores.candidate_mem hu o
    exact ⟨d, hd, hmem⟩
  · rintro request allowed rfl hallow hmem o
    obtain ⟨d, hd, hk, hid⟩ := hstores.candidate_mem hu o
    have hmatch : d ∈ (credentialsForRp C o v.state request.rpId).filter
        fun d => allowed.any fun a => a = d.credentialId :=
      List.mem_filter.2 ⟨hd, List.any_eq_true.2 ⟨credentialId, hmem, by simp [hid]⟩⟩
    exact ⟨⟨d, hmatch, hk, hid⟩, chooseCandidate_isSome hallow hmatch⟩

end

/-! ## A passkey in the sample vault -/

def sampleNewRequest : MakeCredentialRequest := ⟨"rp", [], [edDsa], none, none⟩

noncomputable def sampleRegistration : MakeCredentialArgs :=
  ⟨hyphenated (Uuid.rep 10), code (CtapRequest.makeCredential sampleNewRequest), true, true, "pw",
    "passkey",
    "", ""⟩

theorem sampleNewRequest_made : ∃ o, Prog.Exec Vault.Admits (handleMakeCredential Crates.symbolic
      (ctap2Backend Crates.symbolic false) drawRegion sampleNewRequest true true) sampleVault
      [sampleNext, sampleNext] (.ok o) sampleVault ∧
    o.rpId = "rp" ∧ o.credentialId = (Uuid.rep 40).asBytes ∧ o.generatedKey.privateKey.length =
    32 := by
  have hchecks : ∀ l, registrationChecks sampleNewRequest true true l = .ok .ed25519 := by
    intro l
    simp [registrationChecks, sampleNewRequest, uvRequested, keyTypeForAlg, edDsa, es256]
  obtain ⟨o, ho, hrp, hid, hlen⟩ : ∃ o,
      buildCredential Crates.symbolic sampleNewRequest true true .ed25519
      ⟨sampleNext.seed, sampleNext.scalar, sampleNext.uuid 0⟩ = .ok o ∧ o.rpId = "rp" ∧
      o.credentialId = (Uuid.rep 40).asBytes ∧ o.generatedKey.privateKey.length = 32 := by
    unfold buildCredential
    simp only [generate, sampleNext, sampleIn, mapErr, coseKeyBytes, successResponseBytes,
      Crates.symbolic,
      bind, Except.bind, pure, Except.pure]
    exact ⟨_, rfl, rfl, rfl, by simp⟩
  refine ⟨o, ?_, hrp, hid, hlen⟩
  unfold handleMakeCredential
  refine Prog.Exec.seq
    (a := credentialsForRp Crates.symbolic sampleNext.orders sampleVault.state "rp")
    (w := sampleVault) (exec_ask_still sampleNext_still sampleVault_clock
      (fun e v => (credentialsForRp Crates.symbolic e.orders v.state "rp", v)) rfl) ?_
  refine Prog.Exec.seq_done (hchecks _) ?_
  refine Prog.Exec.seq_last (a := ⟨sampleNext.seed, sampleNext.scalar, sampleNext.uuid 0⟩)
    (exec_ask_still sampleNext_still sampleVault_clock _ rfl) (by rw [ho]; rfl)

/-- Its edit: the header and the cached key stay. -/
theorem sampleRegistration_edit {o : MakeCredentialOutcome}
    (hlen : o.generatedKey.privateKey.length = 32) :
    ∃ d u w, makeCredentialEdit Crates.symbolic (Uuid.rep 10) sampleRegistration o sampleNext
        sampleVault.state = .ok d ∧ GoesThrough Crates.symbolic sampleNext d.state d.tail ∧
      d.state.container.header = sampleVault.state.container.header ∧
      d.state.unlocked.get (Uuid.rep 10) = some u ∧
      sampleVault.state.unlocked.get (Uuid.rep 10) = some w ∧ u.masterKey = w.masterKey := by
  obtain ⟨key, hun⟩ := sampleVault_state.unlocked
  have hget : sampleVault.state.unlocked.get (Uuid.rep 10) = some ⟨sampleManifest [], key⟩ := by
    rw [hun, HashMap.get_put_self]
  obtain ⟨b, hb, -⟩ := sealKey_symbolic sampleNext_works hlen "pw" (sampleNext.uuid 1)
    o.generatedKey.keyType "passkey"
  obtain ⟨x, hx, hvalid⟩ : ∃ x,
      prepareMakeCredential Crates.symbolic sampleNext sampleRegistration o =
      .ok (x, b) ∧ x.Valid := by
    unfold prepareMakeCredential
    simp only [sampleRegistration, hb, bind, Except.bind, pure, Except.pure]
    exact ⟨_, rfl, rfl, blobSha256Hex_wf _ b, .inr (hexEncode_utf8 _).2⟩
  have hpush : (UnlockedCompartment.push ⟨sampleManifest [], key⟩ x).manifest.Valid := by
    refine ⟨rfl, fun y hy => ?_, List.nodup_singleton _⟩
    rw [List.mem_singleton.1 hy]
    exact hvalid
  have hput : ((sampleVault.state.setUnlocked (Uuid.rep 10) (UnlockedCompartment.push
      ⟨sampleManifest [], key⟩ x)).setKeyBlob x.keyId b).unlocked.get (Uuid.rep 10) =
      some (UnlockedCompartment.push ⟨sampleManifest [], key⟩ x) := HashMap.get_put_self _ _ _
  refine ⟨⟨_, .persist (Uuid.rep 10), o.responseCbor⟩, _, _, ?_,
    goesThrough_persist sampleNext_works hput hpush, rfl, hput, hget, rfl⟩
  unfold makeCredentialEdit storeEdit
  rw [hx, unlockedCompartment_ok.2 hget]
  simp only [(Manifest.validate_ok Crates.symbolic _).2 hpush]
  rfl

/-- The registration succeeds. -/
theorem sampleVault_register : ∃ reply v u w, Prog.Exec Vault.Admits
      ((Call.handleFido2MakeCredential sampleRegistration).run Crates.symbolic) sampleVault
      [sampleNext, sampleNext, sampleNext] (.ok reply) v ∧
    Registered Crates.symbolic Vault.Admits
    ⟨sampleVault, .handleFido2MakeCredential sampleRegistration,
      [sampleNext, sampleNext, sampleNext], .ok reply, v⟩ (Uuid.rep 10) (Uuid.rep 41) "rp"
      (Uuid.rep 40).asBytes ∧
    v.state.container.header = sampleVault.state.container.header ∧
    v.state.unlocked.get (Uuid.rep 10) = some u ∧
    sampleVault.state.unlocked.get (Uuid.rep 10) = some w ∧ u.masterKey = w.masterKey := by
  obtain ⟨o, hmade, hrp, hid, hlen⟩ := sampleNewRequest_made
  obtain ⟨d, u, w, hd, hg, hh, hu, hw, hk⟩ := sampleRegistration_edit hlen
  have hparse : parseMakeCredential Crates.symbolic sampleRegistration.requestCbor =
      .ok sampleNewRequest := by
    simp only [parseMakeCredential, sampleRegistration, Crates.symbolic, decode_code]
  have hcomp : parseUuid Crates.symbolic sampleRegistration.compartmentId = .ok (Uuid.rep 10) :=
    uuidParse_symbolic _
  obtain ⟨hr, hs, -⟩ := mutate_goesThrough sampleNext sampleVault hg
  obtain ⟨h1, h2, -⟩ := inMemory_frame Crates.symbolic sampleNext d.state d.tail
  refine ⟨_, (mutate Crates.symbolic sampleNext sampleVault (.ok d)).2, u, w,
    exec_replying.2 ⟨.ok d.reply, ?_, rfl⟩, ?_, ?_, ?_, hw, hk⟩
  · unfold handleFido2MakeCredential
    simp only [hcomp, hparse]
    show Prog.Exec _ _ _ ([sampleNext, sampleNext] ++ [sampleNext]) _ _
    refine Prog.Exec.seq (Prog.exec_mapError.2 ⟨.ok o, rfl, hmade⟩) ?_
    refine exec_region_still sampleNext_still sampleVault_clock _ ?_
    rw [makeCredentialRegion_eq, hd]
    exact Prod.ext hr rfl
  · exact .intro sampleRegistration sampleNewRequest [sampleNext, sampleNext]
      o sampleVault sampleNext _ rfl
      hcomp hparse hmade rfl rfl rfl hrp hid
  · rw [hs, h2]
    exact hh
  · rw [hs, h1]
    exact hu

/-- Its file opens again, and the passphrase unlocks the compartment. -/
theorem sampleVault_reopen {v : Vault} {u w : UnlockedCompartment} (h : Synced Crates.symbolic v)
    (hh : v.state.container.header = sampleVault.state.container.header)
    (hu : v.state.unlocked.get (Uuid.rep 10) = some u)
    (hw : sampleVault.state.unlocked.get (Uuid.rep 10) = some w) (hk : u.masterKey = w.masterKey) :
    ∃ e bytes v₁ v₂, v.disk = some bytes ∧ openVault Crates.symbolic e bytes = .ok v₁ ∧
      v₁.state.container.header = v.state.container.header ∧
      Prog.Exec Vault.Admits
      ((Call.unlockCompartment (hyphenated (Uuid.rep 10)) "pw").run Crates.symbolic) v₁
        [sampleNext, sampleNext] (.ok .unit) v₂ ∧ v₂.state.unlocked.get (Uuid.rep 10) = some u := by
  obtain ⟨bytes, hdisk, hb⟩ := h.file
  obtain ⟨kdf, key, blob, -, -, hd, -, hs, -, -⟩ := create_ok sampleVault_create
  obtain ⟨v₁, hv₁⟩ : ∃ v₁ : Vault, v₁ = ⟨⟨v.state.container, ∅⟩, ∅, L2.Throttle.ThrottleTracker.new,
      some bytes, 0, []⟩ := ⟨_, rfl⟩
  have ho : openVault Crates.symbolic sampleNext bytes = .ok v₁ := by
    unfold openVault
    simp only [hb, facade, bind, Except.bind, pure, Except.pure]
    rw [hv₁]
    rfl
  have hkey : derive Crates.symbolic (utf8 "pw") kdf = .ok u.masterKey := by
    rw [hs] at hw
    have hsame : some w = some _ := hw.symm.trans (HashMap.get_put_self _ _ _)
    cases hsame
    rw [hk]
    exact hd
  have hfind : v₁.state.container.header.compartments.find?
      (fun h => h.compartmentId = Uuid.rep 10) =
      some ⟨Uuid.rep 10, "main", kdf⟩ := by
    rw [hv₁]
    show v.state.container.header.compartments.find? _ = _
    rw [hh, hs]
    rfl
  have hcheck : v₁.throttle.check (L2.Throttle.SecretId.compartment Crates.symbolic (Uuid.rep 10))
      sampleNext.now = .ok () := by
    rw [hv₁]
    simp [L2.Throttle.ThrottleTracker.new, L2.Throttle.ThrottleTracker.withParams,
      L2.Throttle.ThrottleTracker.check]
  obtain ⟨hok, hget⟩ :=
    h.resumes v₁ (.inl (by rw [hv₁])) (Uuid.rep 10) u _ "pw" sampleNext hu hfind hkey
  refine ⟨sampleNext, bytes, v₁, _, hdisk, ho, by rw [hv₁], exec_replying.2 ⟨.ok (), ?_, rfl⟩, hget⟩
  have hclock : v₁.clock = 0 := by rw [hv₁]
  unfold unlockCompartment
  simp only [uuidParse_symbolic]
  refine Prog.Exec.seq (w := v₁) (a := ())
    (exec_region_still sampleNext_still hclock _ (by rw [hcheck]; rfl)) ?_
  exact exec_region_still sampleNext_still hclock _ (Prod.ext hok rfl)

/-- The passkey of the sample vault, registered, after the vault was opened
again and unlocked: no second registration. -/
theorem passkey_remembered_sample : ∃ v : Vault, ∀ es r w, Prog.Exec Vault.Admits
    (handleMakeCredential Crates.symbolic (ctap2Backend Crates.symbolic false) drawRegion
      ⟨"rp", [], [edDsa], some [(Uuid.rep 40).asBytes], none⟩ true true) v es r w →
    r = .error .credentialExcluded := by
  obtain ⟨reply, v, u, w, hx, hr, hh, hu, hw, hk⟩ := sampleVault_register
  have hsynced : Synced Crates.symbolic v :=
    (created_synced Crates.symbolic_codec Crates.symbolic_aead sampleVault_created).step
      Crates.symbolic_codec Crates.symbolic_aead
      (show ImportsNothing Crates.symbolic
        (.handleFido2MakeCredential sampleRegistration) from trivial) hx
  obtain ⟨e, bytes, v₁, v₂, hdisk, ho, hh₁, hx₂, hu₂⟩ := sampleVault_reopen hsynced hh hu hw hk
  obtain ⟨hexcl, -⟩ := passkey_remembered Crates.symbolic Crates.symbolic_codec Crates.symbolic_aead
    Crates.symbolic_commits (.inl sampleVault_created) .nil hx hr
    (.call (.reopen .nil hdisk ho) hx₂) (by
      intro t ht e he
      obtain rfl := List.mem_singleton.1 ht
      have hin : e = sampleNext := by simpa using he
      subst hin
      have hids : headerIds v₁.state = headerIds sampleVault.state := by
        unfold headerIds
        rw [hh₁, hh]
      simp only [hids, sampleVault_state.headerIds, List.mem_singleton]
      simp [sampleNext, Uuid.rep_inj])
    (by
      rintro t ht ⟨cid, kid, text, e, d, hcall, -⟩
      rw [List.mem_singleton.1 ht] at hcall
      cases hcall) hu₂
  exact ⟨v₂, fun es r w => hexcl _ _ _ _ es r w rfl rfl (List.mem_singleton_self _)⟩

end VaultSigner.L5
