import VaultSigner.L5Runs.Blobs
import VaultSigner.L5Runs.SingleKey

/-!
# Where entries come from

Two calls make entries, the merges bring them, and the others store what was
stored: the same ids and passkeys, with one count that is one higher.

Results:
* `Call.keeps`, `Call.adds`: what one call stores that was not stored before.
* `Run.origin`: every stored entry was brought or made.
* `Run.bounded`: how high a count can be.
-/
namespace VaultSigner.L5
open VaultSigner.Core VaultSigner.L1 VaultSigner.L3 VaultSigner.L4
open VaultSigner.L3.Merge (renamedKeys)

/-- The calls that make an entry. -/
def Creates : Call → Prop
  | .createKey _ | .handleFido2MakeCredential _ => True
  | _ => False

/-- The call that counts. -/
def Asks : Call → Prop
  | .handleFido2GetAssertion .. => True
  | _ => False

/-- The same `rp_id` and credential id. -/
def SamePasskey (x y : KeyEntry) : Prop :=
  x.fido2.map (fun f => (f.rpId, f.credentialIdB64)) = y.fido2.map fun f =>
    (f.rpId, f.credentialIdB64)

section
variable (C : Crates)

/-- An accepted merge stores the entry `y` in the compartment `c`. -/
def Brings (t : Turn) (c : Uuid) (y : KeyEntry) : Prop :=
  ∃ e ∈ t.inputs, ∃ i, Imports C e t.before.state t.call i ∧ c = i.target ∧
    y ∈ renamedKeys C i.uuids (localCompartments t.before.state) i.incoming

/-- What is stored was stored, up to a new digest. -/
def KeptStored (s s' : VaultState) : Prop :=
  ∀ c x, Stored C s' c x → ∃ y, Stored C s c y ∧ x.keyId = y.keyId ∧ x.fido2 = y.fido2

/-- What is stored after a call and was not before, up to a new digest or a
new count. -/
inductive Adds (A : Vault → In → Prop) (v : Vault) (call : Call) (es : List In) (s : VaultState) :
    Prop
  | nothing (h : ∀ c x, Stored C s c x → ∃ y, Stored C v.state c y ∧ x.keyId = y.keyId ∧
      x.fido2 = y.fido2)
  | count (rpId : String) (o : GetAssertionOutcome) (c₀ : Uuid) (u : UnlockedCompartment)
      (ho : AssertedBy C rpId v.state o) (hu : v.state.unlocked.get c₀ = some u)
      (h : ∀ c x, Stored C s c x → Stored C v.state c x ∨ c = c₀ ∧ ∃ y ∈ u.manifest.keys,
        y.keyId = o.keyId ∧
        x.keyId = y.keyId ∧ x.fido2 = y.fido2.map fun f => { f with signCount := o.newSignCount })
  | entry (hc : Creates call) (c₀ : Uuid) (k : KeyEntry) (hid : ∃ e ∈ es, k.keyId = e.uuid 1)
      (hf : ∀ f, k.fido2 = some f → f.signCount = 0 ∧
        ∃ e ∈ es, f.credentialIdB64 = C.base64Encode (e.uuid 0).asBytes)
      (h : ∀ c x, Stored C s c x → Stored C v.state c x ∨ c = c₀ ∧ x = k)
  | imports (e : In) (he : e ∈ es) (i : Import) (hi : Imports C e v.state call i)
      (h : ∀ c x, Stored C s c x → Stored C v.state c x ∨ c = i.target ∧
        x ∈ renamedKeys C i.uuids (localCompartments v.state) i.incoming)

end

section
variable {C : Crates} {A : Vault → In → Prop} {v : Vault} {e : In} {s : VaultState} {c : Uuid}
  {x : KeyEntry}

/-- Encrypting again stores nothing new. -/
theorem stored_inMemory (hC : C.CodecLaws) (ha : C.AeadLaws) (hk : C.AeadCommits) {t : Tail}
    (h : Stored C (inMemory C e s t) c x) : Stored C s c x := by
  cases t with
  | persist c₀ =>
    simp only [inMemory] at h
    cases hu : s.unlocked.get c₀ with
    | none =>
      rw [hu] at h
      exact h
    | some u =>
      rw [hu] at h
      simp only at h
      cases hb : encryptWithKey C c₀ u.manifest u.masterKey (e.nonce 1) with
      | error x =>
        rw [hb] at h
        exact h
      | ok b =>
        rw [hb] at h
        cases h with
        | unlocked hu' hx => exact .unlocked hu' hx
        | locked hb' hp hx =>
          rcases Stored.locked_put hC ha hk hb hb' hp hx with ⟨rfl, hx⟩ | ⟨-, h⟩
          · exact .unlocked hu hx
          · exact h
  | _ => exact h

/-- One compartment's manifest edited in memory. -/
theorem Stored.of_unlocked {s' : VaultState} {c₀ : Uuid} {u' : UnlockedCompartment}
    (h : Stored C s' c x) (hu : s'.unlocked = s.unlocked.put c₀ u')
    (hm : s'.container.masterBlobs = s.container.masterBlobs) :
    c = c₀ ∧ x ∈ u'.manifest.keys ∨ Stored C s c x := by
  cases h with
  | unlocked hget hx =>
    rw [hu, HashMap.get_put] at hget
    split at hget
    · rename_i hc
      cases hget
      exact .inl ⟨hc, hx⟩
    · exact .inr (.unlocked hget hx)
  | locked hb hp hx => exact .inr (.locked (hm ▸ hb) hp hx)

/-! ## New entries -/

theorem storeEdit_state {α : Type} {k : KeyEntry} {b : Bytes} {a : α} {d : Edit α}
    (h : storeEdit C s c k b a = .ok d) : ∃ u, s.unlocked.get c = some u ∧
      d.state.unlocked = s.unlocked.put c (u.push k) ∧
      d.state.container.masterBlobs = s.container.masterBlobs := by
  unfold storeEdit at h
  cases hu : unlockedCompartment s c with
  | error x => rw [hu] at h; cases h
  | ok u =>
    rw [hu] at h
    simp only at h
    cases hv : (u.push k).manifest.validate C with
    | error x =>
      rw [hv] at h
      cases h
      exact ⟨u, unlockedCompartment_ok.1 hu, rfl, rfl⟩
    | ok _ =>
      rw [hv] at h
      cases h
      exact ⟨u, unlockedCompartment_ok.1 hu, rfl, rfl⟩

theorem storeEdit_adds {α : Type} {call : Call} {es : List In} {k : KeyEntry} {b : Bytes} {a : α}
    {d : Edit α} (h : storeEdit C v.state c k b a = .ok d) (hc : Creates call)
    (hid : ∃ e ∈ es, k.keyId = e.uuid 1)
    (hf : ∀ f, k.fido2 = some f → f.signCount = 0 ∧ ∃ e ∈ es,
      f.credentialIdB64 = C.base64Encode (e.uuid 0).asBytes) :
    Adds C A v call es d.state := by
  obtain ⟨u, hu, hput, hm⟩ := storeEdit_state h
  refine .entry hc c k hid hf fun c' x hx => ?_
  rcases hx.of_unlocked hput hm with ⟨rfl, hx⟩ | hx
  · rcases List.mem_append.1 hx with hx | hx
    · exact .inl (.unlocked hu hx)
    · exact .inr ⟨rfl, List.mem_singleton.1 hx⟩
  · exact .inl hx

theorem createFido2_credential {a : CreateKeyArgs} {f : Option Fido2Info}
    (h : createFido2 C e a = .ok f) :
    ∀ f', f = some f' → f'.signCount = 0 ∧
    f'.credentialIdB64 = C.base64Encode (e.uuid 0).asBytes := by
  unfold createFido2 at h
  rintro f' rfl
  split at h
  · split at h
    · cases h
    · split at h
      · cases h
      · cases h
        exact ⟨rfl, rfl⟩
  · split at h
    · cases h
    · cases h

theorem prepareCreateKey_credential {a : CreateKeyArgs} {k : KeyEntry} {b : Bytes}
    (h : prepareCreateKey C e a = .ok (c, k, b)) :
    ∀ f, k.fido2 = some f → f.signCount = 0 ∧
    f.credentialIdB64 = C.base64Encode (e.uuid 0).asBytes := by
  unfold prepareCreateKey at h
  simp only [bind_ok, facade_ok, pure, Except.pure, Except.ok.injEq] at h
  obtain ⟨c', -, fido2, hf, generated, -, blob, -, h⟩ := h
  cases h
  exact createFido2_credential hf

/-- The credential id of a registration is drawn by its handler. -/
theorem handleMakeCredential_drawn {request : MakeCredentialRequest} {up uv : Bool} {es : List In}
    {o : MakeCredentialOutcome} {w : Vault}
    (hx : Prog.Exec A (handleMakeCredential C (ctap2Backend C false) drawRegion request up uv)
      v es (.ok o) w) : ∃ e ∈ es, o.credentialId = (e.uuid 0).asBytes := by
  unfold handleMakeCredential at hx
  rcases Prog.exec_bind.1 hx with ⟨x, hr, -⟩ | ⟨existing, v₁, es₁, es₂, rfl, -, hx⟩
  · cases hr
  rcases Prog.exec_bind.1 hx with ⟨x, hr, -⟩ | ⟨keyType, v₂, es₃, es₄, rfl, -, hx⟩
  · cases hr
  rcases Prog.exec_bind.1 hx with ⟨x, hr, -⟩ | ⟨drawn, v₃, es₅, es₆, rfl, hd, hb⟩
  · cases hr
  obtain ⟨e, rfl, -, hdrawn, -⟩ := Prog.exec_atomic.1 hd
  obtain ⟨-, hb, -⟩ := Prog.exec_done.1 hb
  cases hdrawn
  refine ⟨e, by simp, ?_⟩
  replace hb := hb.symm
  unfold buildCredential at hb
  split at hb
  · cases hb
  · simp only [bind_ok] at hb
    obtain ⟨coseKey, -, hb⟩ := hb
    split at hb
    · cases hb
    · simp only [bind_ok, pure, Except.pure, Except.ok.injEq] at hb
      obtain ⟨response, -, rfl⟩ := hb
      rfl

theorem prepareMakeCredential_credential {a : MakeCredentialArgs} {o : MakeCredentialOutcome}
    {k : KeyEntry} {b : Bytes} (h : prepareMakeCredential C e a o = .ok (k, b)) :
    ∀ f, k.fido2 = some f → f.signCount = 0 ∧
    f.credentialIdB64 = C.base64Encode o.credentialId := by
  unfold prepareMakeCredential at h
  simp only [bind_ok, pure, Except.pure, Except.ok.injEq] at h
  obtain ⟨blob, -, h⟩ := h
  cases h
  rintro f ⟨⟩
  exact ⟨rfl, rfl⟩

/-! ## One edit -/

theorem commitEdit_adds {call : Call} {es : List In} {rpId : String} {o : GetAssertionOutcome}
    {d : Edit GetAssertionOutcome} (ho : AssertedBy C rpId v.state o)
    (h : commitEdit o e v.state = .ok d) :
    Adds C A v call es d.state := by
  cases hfind : findCompartmentForKey e.orders v.state o.keyId with
  | none =>
    unfold commitEdit at h
    rw [hfind] at h
    cases h
    exact .nothing fun c x hx => ⟨x, hx, rfl, rfl⟩
  | some c₀ =>
    obtain ⟨u, hu, rfl⟩ := commitEdit_ok h hfind
    refine .count rpId o c₀ u ho hu fun c x hx => ?_
    have hput : c = c₀ ∧ x ∈ (u.asserted o.keyId o.newSignCount e.utc).manifest.keys ∨
        Stored C v.state c x :=
      hx.of_unlocked rfl rfl
    rcases hput with ⟨rfl, hmem⟩ | hx
    · rcases mem_modifyFirst hmem with hmem | ⟨y, hy, hk, rfl⟩
      · exact .inl (.unlocked hu hmem)
      · exact .inr ⟨rfl, y, hy, by simpa using hk, rfl, rfl⟩
    · exact .inl hx

/-- A manifest edited so that every entry keeps its id and its passkey. -/
theorem KeptStored.edited {s' : VaultState} {c₀ : Uuid} {u u' : UnlockedCompartment}
    (hu : s.unlocked.get c₀ = some u) (hput : s'.unlocked = s.unlocked.put c₀ u')
    (hm : s'.container.masterBlobs = s.container.masterBlobs)
    (h : ∀ x ∈ u'.manifest.keys, ∃ y ∈ u.manifest.keys, x.keyId = y.keyId ∧ x.fido2 = y.fido2) :
    KeptStored C s s' := by
  intro c x hx
  rcases hx.of_unlocked hput hm with ⟨rfl, hx⟩ | hx
  · obtain ⟨y, hy, hxy⟩ := h x hx
    exact ⟨y, .unlocked hu hy, hxy⟩
  · exact ⟨x, hx, rfl, rfl⟩

/-- **An edit that neither makes, brings nor counts** keeps what is stored. -/
theorem Call.Edits.keeps (hC : C.CodecLaws) (ha : C.AeadLaws) (hk : C.AeadCommits) {call : Call}
    {es : List In} {d : Edit Reply} (he : call.Edits C A v es e (.ok d)) (hcreates : ¬ Creates call)
    (hmerges : ¬ IsMerge call) (hasks : ¬ Asks call) : KeptStored C v.state d.state := by
  have hchange := he.change rfl
  obtain ⟨s, t, a⟩ := d
  generalize (Except.ok ⟨s, t, a⟩ : FacadeResult (Edit Reply)) = q at he
  cases he with
  | addCompartment label passphrase profile e =>
    cases hchange with
    | rejected hk hu hv => cases hk
    | stored hk hu hv => cases hk
    | added hm hd hb =>
      intro c x hx
      have hput : _ ∨ Stored C v.state c x := Stored.of_put hC ha hk hb rfl rfl hx
      rcases hput with ⟨-, hx⟩ | hx
      · rw [hm] at hx
        cases hx
      · exact ⟨x, hx, rfl, rfl⟩
  | discardKey text e es hc hk =>
    cases hchange with
    | rejected hk hu hv => cases hk
    | stored hk hu hv => cases hk
    | discarded hc hk hu hx ht =>
      exact KeptStored.edited hu rfl rfl fun x hx => ⟨x, (List.mem_filter.1 hx).1, rfl, rfl⟩
  | changeKeyPassphrase old new e₀ e hc hk =>
    cases hchange with
    | rejected hk hu hv => cases hk
    | stored hk hu hv => cases hk
    | resealed hc hk hu hx hb ho hs =>
      refine KeptStored.edited hu rfl rfl fun x hx => ?_
      rcases mem_modifyFirst hx with hx | ⟨y, hy, -, rfl⟩
      · exact ⟨x, hx, rfl, rfl⟩
      · exact ⟨y, hy, rfl, rfl⟩
  | createKey | makeCredential => exact absurd trivial hcreates
  | getAssertion => exact absurd trivial hasks
  | merge1 | merge2 | merge3 => exact absurd trivial hmerges

/-- **What an edit stores.** -/
theorem Call.Edits.adds (hC : C.CodecLaws) (ha : C.AeadLaws) (hk : C.AeadCommits) {call : Call}
    {es : List In} {d : Edit Reply} (he : call.Edits C A v es e (.ok d)) :
    Adds C A v call es d.state := by
  have hmerge : IsMerge call → Adds C A v call es d.state := by
    intro hm
    obtain ⟨-, i, hi, hs⟩ := merge_edits hm he
    rw [hs]
    exact .imports e he.mem i hi fun c x hx => hi.stored hC ha hk hx
  have hkeeps := Call.Edits.keeps hC ha hk he
  obtain ⟨s, t, a⟩ := d
  generalize hq : (Except.ok ⟨s, t, a⟩ : FacadeResult (Edit Reply)) = q at he
  cases he with
  | createKey a e =>
    obtain ⟨d', hd, hmap⟩ := map_edit_ok hq.symm
    cases hmap
    unfold createKeyEdit at hd
    cases hp : prepareCreateKey C e a with
    | error x => rw [hp] at hd; cases hd
    | ok p =>
      rw [hp] at hd
      refine storeEdit_adds (d := d') hd trivial ⟨e, by simp, (prepareCreateKey_entry hp).1⟩
        fun f hf => ?_
      obtain ⟨hn, hcred⟩ := prepareCreateKey_credential hp f hf
      exact ⟨hn, e, by simp, hcred⟩
  | makeCredential a e hc hr hx =>
    obtain ⟨d', hd, hmap⟩ := map_edit_ok hq.symm
    cases hmap
    unfold makeCredentialEdit at hd
    cases hp : prepareMakeCredential C e a _ with
    | error x => rw [hp] at hd; cases hd
    | ok p =>
      rw [hp] at hd
      obtain ⟨e', he', hid⟩ := handleMakeCredential_drawn hx
      refine storeEdit_adds (d := d') hd trivial ⟨e, by simp, (prepareMakeCredential_entry hp).1⟩
        fun f hf => ?_
      obtain ⟨hn, hcred⟩ := prepareMakeCredential_credential hp f hf
      exact ⟨hn, e', by simp [he'], hcred.trans (congrArg _ hid)⟩
  | getAssertion e hr hx =>
    obtain ⟨d', hd, hmap⟩ := map_edit_ok hq.symm
    cases hmap
    exact commitEdit_adds (handleGetAssertion_by hx) hd
  | addCompartment | discardKey | changeKeyPassphrase => exact .nothing (hkeeps id id id)
  | merge1 | merge2 | merge3 => exact hmerge trivial

/-! ## One call -/

theorem Adds.mono {s' : VaultState} {call : Call} {es : List In} (h : Adds C A v call es s)
    (hs : ∀ c x, Stored C s' c x → Stored C s c x) : Adds C A v call es s' := by
  cases h with
  | nothing h => exact .nothing fun c x hx => h c x (hs c x hx)
  | count rpId o c₀ u ho hu h => exact .count rpId o c₀ u ho hu fun c x hx => h c x (hs c x hx)
  | entry hc c₀ k hid hf h => exact .entry hc c₀ k hid hf fun c x hx => h c x (hs c x hx)
  | imports e he i hi h => exact .imports e he i hi fun c x hx => h c x (hs c x hx)

/-- A call keeps what is stored, or makes an edit. -/
theorem Call.stored (hC : C.CodecLaws) (ha : C.AeadLaws) (hk : C.AeadCommits) {call : Call}
    {es : List In} {r : FacadeResult Reply} {v' : Vault} (hx : Prog.Exec A (call.run C) v es r v') :
    KeptStored C v.state v'.state ∨
      ∃ e d, call.Edits C A v es e (.ok d) ∧ ∀ c x, Stored C v'.state c x →
      Stored C d.state c x := by
  cases call.outcome hx with
  | same hq hr =>
    rw [hq.state]
    exact .inl fun c x hx => ⟨x, hx, rfl, rfl⟩
  | unlocked c b key p hn hh hb hp hs hd =>
    rw [hs]
    refine .inl fun c' x hx => ⟨x, ?_, rfl, rfl⟩
    have hput : c' = c ∧ x ∈ p.manifest.keys ∨ Stored C v.state c' x := hx.of_unlocked rfl rfl
    rcases hput with ⟨rfl, hmem⟩ | hx
    · exact .locked hb hp hmem
    · exact hx
  | locked hn hc hu hd =>
    refine .inl fun c x hx => ⟨x, ?_, rfl, rfl⟩
    cases hx with
    | unlocked hcu hx => exact .unlocked (hu c _ hcu) hx
    | locked hb hp hx => exact .locked (hc ▸ hb) hp hx
  | done e s t a he hc hg hr hs hd =>
    rw [hs]
    exact .inr ⟨e, _, he, fun c x => stored_inMemory hC ha hk⟩
  | undone e s t a he hc hg hr hs hd =>
    rw [hs]
    exact .inr ⟨e, _, he, fun c x => stored_inMemory hC ha hk⟩

/-- **What a call stores.** -/
theorem Call.adds (hC : C.CodecLaws) (ha : C.AeadLaws) (hk : C.AeadCommits) {call : Call}
    {es : List In} {r : FacadeResult Reply} {v' : Vault} (hx : Prog.Exec A (call.run C) v es r v') :
    Adds C A v call es v'.state := by
  rcases Call.stored hC ha hk hx with h | ⟨e, d, he, hs⟩
  · exact .nothing h
  · exact (Call.Edits.adds hC ha hk he).mono hs

/-- **A call that neither makes, brings nor counts** keeps what is stored. -/
theorem Call.keeps (hC : C.CodecLaws) (ha : C.AeadLaws) (hk : C.AeadCommits) {call : Call}
    {es : List In} {r : FacadeResult Reply} {v' : Vault} (hx : Prog.Exec A (call.run C) v es r v')
    (hcreates : ¬ Creates call) (hmerges : ¬ IsMerge call) (hasks : ¬ Asks call) :
    KeptStored C v.state v'.state := by
  rcases Call.stored hC ha hk hx with h | ⟨e, d, he, hs⟩
  · exact h
  · exact fun c x hx => Call.Edits.keeps hC ha hk he hcreates hmerges hasks c x (hs c x hx)

/-! ## Along a run -/

theorem SamePasskey.trans {y z : KeyEntry} (h : SamePasskey x y) (h' : SamePasskey y z) :
    SamePasskey x z :=
  Eq.trans h h'

/-- **Where a stored entry comes from**: a merge brought it, or a call made it. -/
theorem Run.origin (hC : C.CodecLaws) (ha : C.AeadLaws) (hk : C.AeadCommits) {v₀ : Vault}
    {l : List Turn} (h₀ : Created C v₀) (h : Run C A v₀ l v) (hx : Stored C v.state c x) :
    ∃ t ∈ l, Creates t.call ∨ ∃ c y, Brings C t c y ∧ x.keyId = y.keyId ∧ SamePasskey x y := by
  induction h generalizing c x with
  | nil => exact absurd hx (created_stored hC ha hk h₀ c x)
  | @cons l v v' call es r hr hexec ih =>
    have hold : ∀ {c y}, Stored C v.state c y → x.keyId = y.keyId → SamePasskey x y →
        ∃ t ∈ ⟨v, call, es, r, v'⟩ :: l, Creates t.call ∨
          ∃ c y, Brings C t c y ∧ x.keyId = y.keyId ∧ SamePasskey x y := by
      intro c y hy hid hsame
      obtain ⟨t, ht, hc | ⟨c', z, hz, hyz, hyz'⟩⟩ := ih hy
      · exact ⟨t, List.mem_cons_of_mem _ ht, .inl hc⟩
      · exact ⟨t, List.mem_cons_of_mem _ ht, .inr ⟨c', z, hz, hid.trans hyz, hsame.trans hyz'⟩⟩
    cases Call.adds hC ha hk hexec with
    | nothing h =>
      obtain ⟨y, hy, hid, hf⟩ := h c x hx
      exact hold hy hid (by rw [SamePasskey, hf])
    | count rpId o c₀ u ho hu h =>
      rcases h c x hx with hx | ⟨rfl, y, hy, -, hid, hf⟩
      · exact hold hx rfl rfl
      · exact hold (.unlocked hu hy) hid (by rw [SamePasskey, hf, Option.map_map]; rfl)
    | entry hc => exact ⟨_, List.mem_cons_self, .inl hc⟩
    | imports e he i hi h =>
      rcases h c x hx with hx | ⟨-, hmem⟩
      · exact hold hx rfl rfl
      · exact ⟨_, List.mem_cons_self, .inr ⟨i.target, x, ⟨e, he, i, hi, rfl, hmem⟩, rfl, rfl⟩⟩

/-- A count is at most what a merge brought and one for each call. -/
theorem Run.bounded (hC : C.CodecLaws) (ha : C.AeadLaws) (hk : C.AeadCommits) {v₀ : Vault}
    {l : List Turn} {n : Nat} (h₀ : Created C v₀) (h : Run C A v₀ l v)
    (hn : ∀ t ∈ l, ∀ c y f, Brings C t c y → y.fido2 = some f → f.signCount.toNat ≤ n)
    {f : Fido2Info} (hx : Stored C v.state c x) (hf : x.fido2 = some f) :
    f.signCount.toNat ≤ n + l.length := by
  induction h generalizing c x f with
  | nil => exact absurd hx (created_stored hC ha hk h₀ c x)
  | @cons l v v' call es r hr hexec ih =>
    have hold : ∀ {c x f}, Stored C v.state c x → x.fido2 = some f →
        f.signCount.toNat ≤ n + l.length :=
      fun hx hf => ih (fun t ht => hn t (List.mem_cons_of_mem _ ht)) hx hf
    rw [List.length_cons]
    cases Call.adds hC ha hk hexec with
    | nothing h =>
      obtain ⟨y, hy, -, hxy⟩ := h c x hx
      have := hold hy (hxy ▸ hf)
      omega
    | count rpId o c₀ u ho hu h =>
      rcases h c x hx with hx | ⟨rfl, y, hy, -, -, hxy⟩
      · have := hold hx hf
        omega
      · obtain ⟨c₁, w, x₀, f₀, hw, hx₀, -, hf₀, -, -, hcount⟩ := ho.entry
        have hle := hold (.unlocked hw hx₀) hf₀
        obtain ⟨g, -, rfl⟩ := Option.map_eq_some_iff.1 (hxy ▸ hf)
        show o.newSignCount.toNat ≤ _
        rw [hcount, UInt32.toNat_add, UInt32.toNat_one]
        omega
    | entry hc c₀ k hid hkf h =>
      rcases h c x hx with hx | ⟨-, rfl⟩
      · have := hold hx hf
        omega
      · rw [(hkf f hf).1]
        exact Nat.zero_le _
    | imports e he i hi h =>
      rcases h c x hx with hx | ⟨-, hmem⟩
      · have := hold hx hf
        omega
      · have := hn _ List.mem_cons_self i.target x f ⟨e, he, i, hi, rfl, hmem⟩ hf
        omega

/-- The run up to a turn. -/
theorem Run.of_mem {v₀ : Vault} {l : List Turn} {t : Turn} (h : Run C A v₀ l v) (ht : t ∈ l) :
    ∃ l', Run C A v₀ l' t.before ∧ Prog.Exec A (t.call.run C) t.before t.inputs t.result t.after ∧
      (t :: l') <:+ l := by
  induction h with
  | nil => cases ht
  | cons hr hx ih =>
    rcases List.mem_cons.1 ht with rfl | ht
    · exact ⟨_, hr, hx, List.suffix_refl _⟩
    · obtain ⟨l', hl', hx, hs⟩ := ih ht
      exact ⟨l', hl', hx, hs.trans (List.suffix_cons _ _)⟩

end

end VaultSigner.L5
