import VaultSigner.L4Vault.Lookups
import VaultSigner.L4Vault.Sample

/-!
# Where a sign count lives

A passkey's count is in its manifest entry in memory, and in the copy of the
manifest that the file holds. An assertion reads the count in its first region
(`credentials_for_rp`) and writes one more in its last (`commitAssertion`);
what is between, the signature, is quiet.

Results:
* `commit_cases`: what the last region does when it succeeds: nothing, if no
  unlocked compartment has the key, or the new count is in memory and in the
  file.
* `begin_pending`: after its first region, an assertion can only be on its way
  to a commit of one more than it read.
* `passkey_asserts`: an assertion by a cached passkey of the sample vault.
-/
namespace VaultSigner.L5
open VaultSigner.Core VaultSigner.L1 VaultSigner.L3 VaultSigner.L4

/-- `m` has exactly one entry with this `key_id`, and its count is `n`. -/
def Counts (m : Manifest) (k : Uuid) (n : UInt32) : Prop :=
  ∃ entry f, m.keys.filter (fun x => x.keyId = k) = [entry] ∧ entry.fido2 = some f ∧ f.signCount = n

/-- Of the unlocked compartments only `c` has `k`, once, with count `n`. -/
structure StoredOnce (s : VaultState) (k c : Uuid) (n : UInt32) : Prop where
  here : ∃ u, s.unlocked.get c = some u ∧ Counts u.manifest k n
  elsewhere : ∀ c' u, s.unlocked.get c' = some u → ∀ x ∈ u.manifest.keys, x.keyId = k → c' = c

/-- What the file holds for the unlocked compartment `c`: it parses, and the
compartment's blob opens, under the cached key, to a manifest with `P`. -/
def OnDisk (C : Crates) (v : Vault) (c : Uuid) (P : Manifest → Prop) : Prop :=
  ∃ bytes container u b p, v.disk = some bytes ∧
    (∀ o, Container.fromBytes C o bytes = .ok container) ∧ v.state.unlocked.get c = some u ∧
    container.masterBlobs.get c = some b ∧ decryptWithKey C c b u.masterKey = .ok p ∧ P p.manifest

theorem OnDisk.mono {C : Crates} {v : Vault} {c : Uuid} {P Q : Manifest → Prop} (h : OnDisk C v c P)
    (hpq : ∀ m, P m → Q m) : OnDisk C v c Q := by
  obtain ⟨bytes, container, u, b, p, h1, h2, h3, h4, h5, h6⟩ := h
  exact ⟨bytes, container, u, b, p, h1, h2, h3, h4, h5, hpq _ h6⟩

/-! ## The edit of an assertion -/

theorem asserted_keyId (n : UInt32) (now : OffsetDateTime) (k : KeyEntry) :
    (KeyEntry.asserted n now k).keyId = k.keyId := rfl

theorem Counts.asserted {u : UnlockedCompartment} {k : Uuid} {n : UInt32}
    (h : Counts u.manifest k n) (n' : UInt32) (now : OffsetDateTime) :
    Counts (u.asserted k n' now).manifest k n' := by
  obtain ⟨entry, f, hl, hf, -⟩ := h
  refine ⟨KeyEntry.asserted n' now entry, { f with signCount := n' }, ?_, ?_, rfl⟩
  · exact filter_modifyFirst (fun x => by rw [asserted_keyId]) hl
  · simp [KeyEntry.asserted, hf]

section
variable {C : Crates}

theorem StoredOnce.find {s : VaultState} {k c : Uuid} {n : UInt32} (h : StoredOnce s k c n)
    (o : Orders) : findCompartmentForKey o s k = some c := by
  obtain ⟨u, hu, entry, f, hl, -, -⟩ := h.here
  have hmem : entry ∈ u.manifest.keys ∧ entry.keyId = k := by
    have hm : entry ∈ u.manifest.keys.filter fun x =>
      x.keyId = k := by rw [hl]; exact List.mem_singleton_self _
    simpa using hm
  cases hf : findCompartmentForKey o s k with
  | none =>
    unfold findCompartmentForKey findKeyAnywhere at hf
    rw [Option.map_eq_none_iff, List.findSome?_eq_none_iff] at hf
    have hno := hf (c, u) ((HashMap.mem_iter _ _ _ _).2 hu)
    rw [Option.map_eq_none_iff, List.find?_eq_none] at hno
    exact absurd hmem.2 (by simpa using hno entry hmem.1)
  | some c' =>
    obtain ⟨u', x, hu', hx⟩ := findCompartmentForKey_some hf
    have hid : x.keyId = k := by simpa using List.find?_some hx
    rw [h.elsewhere c' u' hu' x (List.mem_of_find?_eq_some hx) hid]

/-- The assertion handed out is the one that was made. -/
theorem commitEdit_reply {o : GetAssertionOutcome} {e : In} {s : VaultState}
    {d : Edit GetAssertionOutcome} (h : commitEdit o e s = .ok d) : d.reply = o := by
  unfold commitEdit at h
  split at h
  · cases h
    rfl
  · split at h
    · cases h
    · cases h
      rfl

/-- The last region has put the new count into compartment `c`: into the
manifest in memory, its blob, and the file. -/
structure Committed (C : Crates) (o : GetAssertionOutcome) (e : In) (v v' : Vault) (c : Uuid)
    (u : UnlockedCompartment) : Prop where
  found : findCompartmentForKey e.orders v.state o.keyId = some c
  before : v.state.unlocked.get c = some u
  unlocked : v'.state.unlocked = v.state.unlocked.put c (u.asserted o.keyId o.newSignCount e.utc)
  blob : ∃ b p, v'.state.container.masterBlobs = v.state.container.masterBlobs.put c b ∧
    decryptWithKey C c b u.masterKey = .ok p ∧
    p.manifest = (u.asserted o.keyId o.newSignCount e.utc).manifest
  file : ∃ bytes, v'.disk = some bytes ∧ ∀ o, Container.fromBytes C o bytes = .ok v'.state.container

theorem Committed.onDisk {o : GetAssertionOutcome} {e : In} {v v' : Vault} {c : Uuid}
    {u : UnlockedCompartment} (h : Committed C o e v v' c u) :
    OnDisk C v' c (· = (u.asserted o.keyId o.newSignCount e.utc).manifest) := by
  obtain ⟨b, p, hb, hp, hm⟩ := h.blob
  obtain ⟨bytes, hd, hf⟩ := h.file
  refine ⟨bytes, _, u.asserted o.keyId o.newSignCount e.utc, b, p, hd, hf, ?_, ?_, hp, hm⟩
  · rw [h.unlocked, HashMap.get_put_self]
  · rw [hb, HashMap.get_put_self]

/-- **The last region of an assertion**, when it succeeds. -/
theorem commit_cases (hC : C.CodecLaws) (ha : C.AeadLaws) {o o' : GetAssertionOutcome} {e : In}
    {v : Vault} (hv : v.state.container.header.formatVersion = L1.formatVersion)
    (h : (commitAssertion C o e v).1 = .ok o') : o' = o ∧
    (commitAssertion C o e v).2.state.container.header = v.state.container.header ∧
    ((findCompartmentForKey e.orders v.state o.keyId = none ∧ Quiet v (commitAssertion C o e v).2) ∨
      ∃ c u, Committed C o e v (commitAssertion C o e v).2 c u) := by
  rw [commitAssertion_eq] at h ⊢
  obtain ⟨d, hd, rfl, hg, hs, hdisk⟩ := mutate_ok e v h
  unfold commitEdit at hd
  cases hf : findCompartmentForKey e.orders v.state o.keyId with
  | none =>
    rw [hf] at hd
    cases hd
    exact ⟨rfl, congrArg (fun s => s.container.header) hs, .inl ⟨rfl, hs, hdisk⟩⟩
  | some c =>
    rw [hf] at hd
    simp only at hd
    cases hu : unlockedCompartment v.state c with
    | error x => rw [hu] at hd; cases hd
    | ok u =>
      rw [hu] at hd
      cases hd
      obtain ⟨u', blob, bytes, hu', hb, hw⟩ := hg
      simp only [VaultState.setUnlocked, HashMap.get_put_self, Option.some.injEq] at hu'
      subst hu'
      have hmem : inMemory C e (v.state.setUnlocked c (u.asserted o.keyId o.newSignCount e.utc))
          (.persist c) = (v.state.setUnlocked c
            (u.asserted o.keyId o.newSignCount e.utc)).setMasterBlob c blob := by
        simp only [inMemory, VaultState.setUnlocked, HashMap.get_put_self, hb]
      simp only [hmem] at hs
      refine ⟨rfl, by rw [hs]; rfl, .inr ⟨c, u, hf, unlockedCompartment_ok.1 hu, by rw [hs]; rfl,
        ⟨blob, _, by rw [hs]; rfl, decryptWithKey_encryptWithKey hC ha hb, rfl⟩, bytes, ?_, ?_⟩⟩
      · rw [hdisk]
        simp only [written, hmem, hw, Except.toOption]
      · rw [hs]
        exact Container.fromBytes_toArchive hC hv (writeAtomic_ok e |>.1 hw).1

/-! ## An assertion in flight -/

/-- `o` asserts by an entry in `s`, with one more than its count. -/
structure AssertedBy (C : Crates) (rpId : String) (s : VaultState) (o : GetAssertionOutcome) :
    Prop where
  entry : ∃ c u x f, s.unlocked.get c = some u ∧ x ∈ u.manifest.keys ∧ x.keyId = o.keyId ∧
    x.fido2 = some f ∧ f.rpId = rpId ∧
    C.base64Decode f.credentialIdB64 = some o.response.credentialId ∧
    o.newSignCount = f.signCount + 1

theorem assertedBy_of_chosen {request : GetAssertionRequest} {up uv : Bool} {o : Orders}
    {s : VaultState} {chosen : CredentialCandidate} {d : Bytes} {sig : Option Bytes}
    {out : GetAssertionOutcome}
    (hp : prepareAssertion C request up uv (credentialsForRp C o s request.rpId) = .ok (chosen, d))
    (hf : finishAssertion C request chosen d sig = .ok out) : AssertedBy C request.rpId s out := by
  obtain ⟨id, u, x, hu, hx, hc⟩ :=
    mem_credentialsForRp.1 (chooseCandidate_mem (prepareAssertion_ok hp).1)
  obtain ⟨f, hf', hrp, hid, hk, hn⟩ := candidate_some hc
  obtain ⟨ho, hn', hid', -, -⟩ := finishAssertion_ok hf
  refine ⟨id, u, x, f, hu, hx, ?_, hf', hrp, ?_, ?_⟩
  · rw [ho, hk]
  · rw [hid', hid]
  · rw [hn', hn]

/-- What is left of an assertion after its first region: quiet regions, and
last the commit of an outcome with `P`, unless it fails before. -/
def Pending (C : Crates) (A : Vault → In → Prop) (P : GetAssertionOutcome → Prop) :
    Op GetAssertionOutcome → Prop
  | .done r => ∃ x, r = .error x
  | .region u n => (∃ o, P o ∧ Prog.region u n = region (commitAssertion C o)) ∨
      ∀ e v, A v e → Quiet v (u e v) ∧ Pending C A P (n e v)

theorem pending_bind {A : Vault → In → Prop} {P : GetAssertionOutcome → Prop} :
    ∀ {p : Op GetAssertionOutcome}, p.Within A Quiet → p.Yields (fun r => ∀ o, r = .ok o → P o) →
      Pending C A P (p.bind fun o => region (commitAssertion C o))
  | .done (.ok o), _, hy => Or.inl ⟨o, hy o rfl, rfl⟩
  | .done (.error x), _, _ => ⟨x, rfl⟩
  | .region _ _, hw, hy => Or.inr fun e v ha => ⟨(hw e v ha).1, pending_bind (hw e v ha).2 (hy e v)⟩

/-- **How an assertion begins**: with a look at the candidates, unless the
request does not parse. -/
theorem begin_pending (A : Vault → In → Prop) (cbor : Bytes) (up uv : Bool) :
    (∃ x, handleFido2GetAssertion C cbor up uv = .done (.error x)) ∨
    ∃ request u n, parseGetAssertion C cbor = .ok request ∧
      handleFido2GetAssertion C cbor up uv = .region u n ∧
      ∀ e v, A v e → Quiet v (u e v) ∧ Pending C A (AssertedBy C request.rpId v.state) (n e v) := by
  unfold handleFido2GetAssertion
  cases parseGetAssertion C cbor with
  | error x => exact .inl ⟨x, rfl⟩
  | ok request =>
    refine .inr ⟨request, _, _, rfl, rfl, fun e v _ => ⟨⟨rfl, rfl⟩, ?_⟩⟩
    show Pending C A _ ((((Prog.ofExcept (prepareAssertion C request up uv
      (credentialsForRp C e.orders v.state request.rpId))).bind fun p =>
        (ctap2Sign C true p.1.keyId (p.2 ++ request.clientDataHash)).bind fun sig =>
          Prog.ofExcept (finishAssertion C request p.1 p.2 sig)).mapError ctap2Failed).bind
            fun o => region (commitAssertion C o))
    cases hp : prepareAssertion C request up uv
      (credentialsForRp C e.orders v.state request.rpId) with
    | error x => exact ⟨_, rfl⟩
    | ok p =>
      obtain ⟨chosen, d⟩ := p
      refine pending_bind (p := ((ctap2Sign C true chosen.keyId (d ++ request.clientDataHash)).bind
        fun sig => Prog.ofExcept (finishAssertion C request chosen d sig)).mapError ctap2Failed)
        ?_ ?_
      · refine ((ctap2Sign_quiet C true _ _).bind fun sig => ?_).mapError
        trivial
      · refine Prog.Yields.mapError
          (Prog.Yields.bind (fun x o ho => by cases ho) (fun sig o ho => ?_) _)
        cases hf : finishAssertion C request chosen d sig with
        | error x => rw [hf] at ho; cases ho
        | ok out =>
          rw [hf] at ho
          cases ho
          exact assertedBy_of_chosen hp hf

end

/-! ## Assertions by the sample vault's passkey -/

/-- A request for any credential of "rp". -/
def sampleRequest : GetAssertionRequest := ⟨"rp", [], none, none⟩

noncomputable def sampleCbor : Bytes := code (CtapRequest.getAssertion sampleRequest)

theorem parse_sampleCbor : parseGetAssertion Crates.symbolic sampleCbor = .ok sampleRequest := by
  simp only [parseGetAssertion, Crates.symbolic, sampleCbor, decode_code]

theorem candidate_labelledPasskey (k : Uuid) (label : String) (n : UInt32)
    (t : Option OffsetDateTime) :
    candidate Crates.symbolic "rp" (labelledPasskey k label n t) =
    some ⟨k, [0xab], [], true, n⟩ := by
  have hid : hexDecode "ab" = some [0xab] := by decide
  have hempty : hexDecode "" = some [] := by decide
  simp [candidate, labelledPasskey, samplePasskey, KeyEntry.sample, Fido2Info.sample,
    Crates.symbolic, hid,
    hempty]

/-- A passkey that is chosen can be asserted. -/
theorem assertion_symbolic {cands : List CredentialCandidate} {k : Uuid} {n : UInt32}
    (h : chooseCandidate sampleRequest cands = some ⟨k, [0xab], [], true, n⟩) :
    ∃ authData, prepareAssertion Crates.symbolic sampleRequest true true cands =
        .ok (⟨k, [0xab], [], true, n⟩, authData) ∧
      ∀ sig, sig.length ≤ 255 → ∃ o, finishAssertion Crates.symbolic sampleRequest
          ⟨k, [0xab], [], true, n⟩ authData (some sig) = .ok o ∧
        o.keyId = k ∧ o.newSignCount = n + 1 ∧ o.response.credentialId = [0xab] := by
  unfold prepareAssertion
  rw [h]
  simp only [Crates.symbolic, Bool.not_true, Bool.false_eq_true, if_false, Bool.and_false]
  refine ⟨_, rfl, fun sig hs => ?_⟩
  unfold finishAssertion
  have hlen : ¬ sig.length > 255 := by omega
  simp only [hlen, if_false, sampleRequest, Option.isNone_none, Bool.true_and,
    List.length_singleton,
    List.length_nil, successResponseBytes, bind, Except.bind, pure, Except.pure]
  exact ⟨_, rfl, rfl, rfl, rfl⟩

section
variable {v : Vault} {e : In} {k : Uuid} {label : String} {n : UInt32} {t : Option OffsetDateTime}
  {rest : List KeyEntry} {m : HashMap Uuid Bytes} {b : Bytes}

theorem firstCandidate {s : VaultState} (h : SampleState s (labelledPasskey k label n t :: rest) m)
    (o : Orders) :
    ∃ cands, L4.credentialsForRp Crates.symbolic o s "rp" = ⟨k, [0xab], [], true, n⟩ :: cands := by
  obtain ⟨key, hu⟩ := h.unlocked
  simp [L4.credentialsForRp, hu, HashMap.values, HashMap.iter_single, sampleManifest,
    candidate_labelledPasskey]

theorem passkey_counted (h : FirstKey v k label n t rest m b) (n' : UInt32)
    (t' : Option OffsetDateTime) :
    (sampleManifest (labelledPasskey k label n' t' :: rest)).Valid where
  version := rfl
  keys := by
    intro x hx
    rcases List.mem_cons.1 hx with rfl | hx
    · exact labelledPasskey_valid k label n' t'
    · exact h.valid.keys x (List.mem_cons_of_mem _ hx)
  nodup := h.valid.nodup

/-- An assertion by the cached passkey, up to its last region. -/
theorem passkey_assert (h : FirstKey v k label n t rest m b)
    (hc : v.retention.get k = some ⟨sampleSecret, 300000000000, false⟩) (he : e.Still 0) :
    ∃ o v',
    Prog.Exec Vault.Admits (handleGetAssertion Crates.symbolic (ctap2Backend Crates.symbolic true)
        sampleRequest true true) v [e, e, e, e] (.ok o) v' ∧ o.keyId = k ∧ o.newSignCount = n + 1 ∧
      o.response.credentialId = [0xab] ∧ FirstKey v' k label n t rest m b ∧
      v'.retention = v.retention := by
  obtain ⟨cands, hcands⟩ := firstCandidate h.state e.orders
  have hchoose :
      chooseCandidate sampleRequest (credentialsForRp Crates.symbolic e.orders v.state "rp") =
      some ⟨k, [0xab], [], true, n⟩ := by
    rw [hcands]
    rfl
  obtain ⟨authData, hp, hfin⟩ := assertion_symbolic hchoose
  have hsign : ∃ sig, keysSign Crates.symbolic .ed25519 sampleSecret (authData ++ []) = .ok sig ∧
      sig.length ≤ 255 := by
    refine ⟨Crates.symbolic.ed25519Sign ⟨⟨sampleSecret⟩, sampleSecret_length⟩ (authData ++ []), ?_,
      ?_⟩
    · unfold keysSign
      simp [sampleSecret_length]
    · simp [Crates.symbolic, sampleSecret_length]
  obtain ⟨sig, hs, hl⟩ := hsign
  obtain ⟨o, ho, hk, hn, hcred⟩ := hfin sig hl
  refine ⟨o, _, handleGetAssertion_exec he h.clock hp (h.state.firstFound e.orders) hc
    (.inr (by decide)) hs ho, hk, hn, hcred, ⟨h.only, h.state, h.valid, h.blob, h.seals, h.clock,
    h.throttle⟩, rfl⟩

/-- The last region of an assertion by the passkey. -/
theorem passkey_commit (h : FirstKey v k label n t rest m b) (he : e.Works)
    {o : GetAssertionOutcome} (hk : o.keyId = k) :
    ∃ v', commitAssertion Crates.symbolic o e v = (.ok o, v') ∧
      FirstKey v' k label o.newSignCount (some e.utc) rest m b ∧ v'.retention = v.retention := by
  obtain ⟨key, hu⟩ := h.state.unlocked
  have hfind : findCompartmentForKey e.orders v.state o.keyId = some (Uuid.rep 10) := by
    rw [hk, findCompartmentForKey, h.state.firstFound]
    rfl
  have hget : unlockedCompartment v.state (Uuid.rep 10) =
      .ok ⟨sampleManifest (labelledPasskey k label n t :: rest), key⟩ := by
    rw [unlockedCompartment_ok, hu, HashMap.get_put_self]
  obtain ⟨u, hm⟩ : ∃ u : UnlockedCompartment, u =
      ⟨sampleManifest (labelledPasskey k label o.newSignCount (some e.utc) :: rest), key⟩ :=
        ⟨_, rfl⟩
  have hd :
      commitEdit o e v.state =
      .ok ⟨v.state.setUnlocked (Uuid.rep 10) u, .persist (Uuid.rep 10), o⟩ := by
    unfold commitEdit
    rw [hfind]
    simp only [hget]
    rw [hk, hm]
    simp [UnlockedCompartment.asserted, modifyFirst, sampleManifest, labelledPasskey, samplePasskey,
      KeyEntry.sample, KeyEntry.asserted, Fido2Info.sample]
  obtain ⟨hg, hs, honly⟩ := (h.state.setUnlocked (u := u) (by rw [hm])).persist h.only
    (passkey_counted h o.newSignCount (some e.utc)) he
  obtain ⟨hr, hstate, -⟩ := mutate_goesThrough e v
    (d := ⟨v.state.setUnlocked (Uuid.rep 10) u, .persist (Uuid.rep 10), o⟩) hg
  have hframe := mutate_frame (C := Crates.symbolic) e v
    (.ok ⟨v.state.setUnlocked (Uuid.rep 10) u, .persist (Uuid.rep 10), o⟩ :
      FacadeResult (Edit GetAssertionOutcome))
  rw [commitAssertion_eq, hd]
  refine ⟨_, Prod.ext hr rfl, ⟨?_, ?_, passkey_counted h _ _, h.blob, h.seals, ?_, ?_⟩, ?_⟩
  · rw [hstate]
    exact honly
  · rw [hstate]
    exact hs
  · exact (congrArg Vault.clock hframe).trans h.clock
  · exact (congrArg Vault.throttle hframe).trans h.throttle
  · exact (congrArg Vault.retention hframe).trans rfl

end

theorem ready_assert {v : Vault} {n : UInt32} {t : Option OffsetDateTime} {b : Bytes} {e : In}
    (h : Ready v n t b) (he : e.Still 0) : ∃ o v', Prog.Exec Vault.Admits (handleGetAssertion
        Crates.symbolic (ctap2Backend Crates.symbolic true) sampleRequest true true) v [e, e, e, e]
        (.ok o) v' ∧ o.keyId = Uuid.rep 1 ∧ o.newSignCount = n + 1 ∧
      o.response.credentialId = [0xab] ∧ Ready v' n t b := by
  obtain ⟨o, v', hx, hk, hn, hc, hv, hr⟩ := passkey_assert h.toImported.first h.retention he
  exact ⟨o, v', hx, hk, hn, hc, hv.imported, hr ▸ h.retention⟩

theorem ready_commit {v : Vault} {n : UInt32} {t : Option OffsetDateTime} {b : Bytes} {e : In}
    (h : Ready v n t b) (he : e.Works) {o : GetAssertionOutcome} (hk : o.keyId = Uuid.rep 1) :
    ∃ v', commitAssertion Crates.symbolic o e v = (.ok o, v') ∧
      Ready v' o.newSignCount (some e.utc) b := by
  obtain ⟨v', hx, hv, hr⟩ := passkey_commit h.toImported.first he hk
  exact ⟨v', hx, hv.imported, hr ▸ h.retention⟩

/-- The call that asserts by the passkey. -/
noncomputable def assertCall : Call := .handleFido2GetAssertion sampleCbor true true

theorem assertCall_run : assertCall.run Crates.symbolic = ((handleGetAssertion Crates.symbolic
    (ctap2Backend Crates.symbolic true) sampleRequest true true).mapError ctap2Failed).bind
      fun o => replying (region (commitAssertion Crates.symbolic o)) .assertion := by
  show replying (handleFido2GetAssertion Crates.symbolic sampleCbor true true) Reply.assertion = _
  unfold handleFido2GetAssertion
  simp only [parse_sampleCbor]
  exact Prog.bind_assoc _ _ _

/-- An assertion by the cached passkey, up to the vault in which it commits. -/
theorem passkey_assertCall {v : Vault} {k : Uuid} {label : String} {n : UInt32}
    {t : Option OffsetDateTime} {rest : List KeyEntry} {m : HashMap Uuid Bytes} {b : Bytes}
    (h : FirstKey v k label n t rest m b)
    (hc : v.retention.get k = some ⟨sampleSecret, 300000000000, false⟩) : ∃ o w,
      Prog.Exec Vault.Admits (assertCall.run Crates.symbolic) v
        [sampleNext, sampleNext, sampleNext, sampleNext, sampleNext] (.ok (.assertion o))
        (commitAssertion Crates.symbolic o sampleNext w).2 ∧
      o.keyId = k ∧ o.newSignCount = n + 1 ∧ o.response.credentialId = [0xab] ∧
      FirstKey w k label n t rest m b ∧ w.retention = v.retention ∧ Quiet v w := by
  obtain ⟨o, w, hx, hk, hn, hcred, hw, hr⟩ := passkey_assert h hc sampleNext_still
  obtain ⟨v', hcommit, -⟩ := passkey_commit hw sampleNext_works hk
  refine ⟨o, w, ?_, hk, hn, hcred, hw, hr,
    Quiet.exec (handleGetAssertion_quiet Crates.symbolic _ _ _) hx⟩
  rw [assertCall_run, hcommit]
  have hlast :
    Prog.Exec Vault.Admits (replying (region (commitAssertion Crates.symbolic o)) Reply.assertion) w
      [sampleNext] (.ok (.assertion o)) v' :=
    exec_replying.2 ⟨.ok o, exec_region_still sampleNext_still hw.clock _ hcommit, rfl⟩
  exact (Prog.exec_mapError.2 ⟨.ok o, rfl, hx⟩).seq hlast

/-- ... and the whole call. -/
theorem passkey_asserts {v : Vault} {k : Uuid} {label : String} {n : UInt32}
    {t : Option OffsetDateTime} {rest : List KeyEntry} {m : HashMap Uuid Bytes} {b : Bytes}
    (h : FirstKey v k label n t rest m b)
    (hc : v.retention.get k = some ⟨sampleSecret, 300000000000, false⟩) : ∃ o v',
      Prog.Exec Vault.Admits (assertCall.run Crates.symbolic) v
        [sampleNext, sampleNext, sampleNext, sampleNext, sampleNext] (.ok (.assertion o)) v' ∧
      o.keyId = k ∧ o.newSignCount = n + 1 ∧ o.response.credentialId = [0xab] ∧
      FirstKey v' k label (n + 1) (some sampleNext.utc) rest m b ∧
      v'.retention.get k = some ⟨sampleSecret, 300000000000, false⟩ := by
  obtain ⟨o, w, hx, hk, hn, hcred, hw, hr, -⟩ := passkey_assertCall h hc
  obtain ⟨v', hcommit, hv', hr'⟩ := passkey_commit hw sampleNext_works hk
  rw [hcommit] at hx
  exact ⟨o, v', hx, hk, hn, hcred, hn ▸ hv', by rw [hr', hr]; exact hc⟩

theorem ready_assertCall {v : Vault} {n : UInt32} {t : Option OffsetDateTime} {b : Bytes}
    (h : Ready v n t b) : ∃ es o w, Prog.Exec Vault.Admits (assertCall.run Crates.symbolic) v es
        (.ok (.assertion o)) (commitAssertion Crates.symbolic o sampleNext w).2 ∧
      o.keyId = Uuid.rep 1 ∧ o.newSignCount = n + 1 ∧ o.response.credentialId = [0xab] ∧
      Ready w n t b ∧ Quiet v w := by
  obtain ⟨o, w, hx, hk, hn, hcred, hw, hr, hq⟩ := passkey_assertCall h.toImported.first h.retention
  exact ⟨_, o, w, hx, hk, hn, hcred, ⟨hw.imported, hr ▸ h.retention⟩, hq⟩

end VaultSigner.L5
