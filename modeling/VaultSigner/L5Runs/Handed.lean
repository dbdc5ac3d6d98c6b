import VaultSigner.L5Runs.Counting
import VaultSigner.L5Runs.Wiped

/-!
# What is handed out is on disk

Between the signature and its last region an assertion holds no lock, and any
other call may come in. The last region looks the key up again: if it finds
the key's entry in an unlocked compartment, it writes the new count to the
file; if it finds none, it writes nothing and hands the assertion out all the
same.

Results:
* `call_version`: every region of every call keeps the format version.
* `assertion_walk`: an assertion begins with a look at the candidates, and is
  handed out by its commit.
* `assertion_counted`: when the file holds the count of an assertion at the
  moment it is handed out.
-/
namespace VaultSigner.L5
open VaultSigner.Core VaultSigner.L1 VaultSigner.L3 VaultSigner.L4

/-! ## The format version, region by region -/

def SameVersion (v v' : Vault) : Prop :=
  v'.state.container.header.formatVersion = v.state.container.header.formatVersion

theorem SameVersion.of_state {v v' : Vault} (h : v'.state = v.state) : SameVersion v v' := by
  unfold SameVersion
  rw [h]

section
variable {C : Crates} {A : Vault → In → Prop}

theorem quiet_version {α ε : Type} {p : Prog In Vault ε α} (h : p.Within A Quiet) :
    p.Within A SameVersion :=
  h.mono fun _ _ hq => SameVersion.of_state hq.state

theorem mutate_version {α : Type} {e : In} {v : Vault} {q : FacadeResult (Edit α)}
    (h : ∀ d, q = .ok d → d.state.container.header.formatVersion =
      v.state.container.header.formatVersion) : SameVersion v (mutate C e (v.enter e) q).2 := by
  have key : ∀ d, q = .ok d → (mutate C e (v.enter e) q).2.state = inMemory C e d.state d.tail →
      SameVersion v (mutate C e (v.enter e) q).2 := by
    intro d hd hs
    unfold SameVersion
    rw [hs, (inMemory_frame C e d.state d.tail).2.1]
    exact h d hd
  cases hr : (mutate C e (v.enter e) q).1 with
  | ok a =>
    obtain ⟨d, hd, -, -, hs, -⟩ := mutate_ok e _ hr
    exact key d hd hs
  | error x =>
    rcases (mutate_error e _ hr).2 with ⟨-, hs⟩ | ⟨d, hd, -, hs⟩
    · exact SameVersion.of_state hs
    · exact key d hd hs

theorem edits_version {α : Type} {v : Vault} {call : Call} {es : List In} {e : In}
    {q : FacadeResult (Edit α)} {f : α → Reply} (h : call.Edits C A v es e (q.map (Edit.map f)))
    (d : Edit α) (hq : q = .ok d) : d.state.container.header.formatVersion =
      v.state.container.header.formatVersion := by
  subst hq
  exact (h.header rfl).1

/-- A call that is one region, and that region an edit. -/
theorem region_version {α : Type} {body : In → Vault → FacadeResult α × Vault} {f : α → Reply}
    {call : Call} {g : In → VaultState → FacadeResult (Edit α)}
    (hb : ∀ e w, body e w = mutate C e w (g e w.state))
    (he : ∀ e v, call.Edits C A v [e] e ((g e v.state).map (Edit.map f))) :
    (replying (region body) f).Within A SameVersion := by
  refine Prog.Within.bind (within_region.2 fun e v _ => ?_) fun _ => trivial
  rw [hb]
  exact mutate_version (edits_version (he e v))

theorem makeCredential_version (a : MakeCredentialArgs) :
    (handleFido2MakeCredential C a).Within A SameVersion := by
  unfold handleFido2MakeCredential
  cases parseUuid C a.compartmentId with
  | error x => trivial
  | ok c =>
    cases parseMakeCredential C a.requestCbor with
    | error x => trivial
    | ok request =>
      refine Prog.Within.bind (quiet_version (handleMakeCredential_quiet C _ _ _)).mapError
        fun outcome => within_region.2 fun e v _ => ?_
      rw [makeCredentialRegion_eq]
      refine mutate_version fun d hd => ?_
      unfold makeCredentialEdit at hd
      split at hd
      · cases hd
      · rename_i k b hp
        have hmap : (storeEdit C v.state c k b outcome.responseCbor).map (Edit.map Reply.bytes) =
            .ok (d.map Reply.bytes) := congrArg (Except.map (Edit.map Reply.bytes)) hd
        exact congrArg _ (storeEdit_header hmap)

theorem commitEdit_version {o : GetAssertionOutcome} {e : In} {s : VaultState}
    {d : Edit GetAssertionOutcome} (h : commitEdit o e s = .ok d) :
    d.state.container.header.formatVersion = s.container.header.formatVersion := by
  unfold commitEdit at h
  split at h
  · cases h
    rfl
  · split at h
    · cases h
    · cases h
      rfl

theorem getAssertion_version (cbor : Bytes) (up uv : Bool) :
    (handleFido2GetAssertion C cbor up uv).Within A SameVersion := by
  unfold handleFido2GetAssertion
  cases parseGetAssertion C cbor with
  | error x => trivial
  | ok request =>
    refine Prog.Within.bind (quiet_version (handleGetAssertion_quiet C _ _ _)).mapError
      fun outcome => within_region.2 fun e v _ => ?_
    rw [commitAssertion_eq]
    exact mutate_version fun d hd => commitEdit_version hd

theorem unlockCompartment_version (c pw : String) :
    (unlockCompartment C c pw).Within A SameVersion := by
  unfold unlockCompartment
  cases parseUuid C c with
  | error x => trivial
  | ok id =>
    refine (quiet_version (throttleCheck_quiet _)).bind fun _ => within_region.2 fun e v _ => ?_
    rcases unlockRegion_cases (C := C) id pw e
      (v.enter e) with ⟨-, hq⟩ | ⟨b, key, p, -, -, -, hs, -⟩
    · exact SameVersion.of_state hq.state
    · unfold SameVersion
      rw [hs]
      rfl

theorem lockCompartment_version (c : String) : (lockCompartment C c).Within A SameVersion := by
  unfold lockCompartment
  cases C.uuidParse c with
  | error x => trivial
  | ok id => exact within_region.2 fun e v _ => rfl

theorem lockAll_version : lockAll.Within A SameVersion := by
  unfold lockAll
  exact Prog.Within.bind (within_region.2 fun _ _ _ => rfl) fun _ =>
    within_region.2 fun _ _ _ => rfl

theorem discardKey_version (c k t : String) : (discardKey C c k t).Within A SameVersion := by
  unfold discardKey
  cases hc : parseUuid C c with
  | error x => trivial
  | ok cid =>
    cases hk : parseUuid C k with
    | error x => trivial
    | ok kid =>
      refine Prog.Within.bind (within_region.2 fun e v _ => ?_) fun _ =>
        within_region.2 fun _ _ _ => rfl
      have hedit := edits_version (Call.Edits.discardKey (A := A) (v := v) t e [] hc hk)
      have hstate := (discardRegion_agrees (C := C) e (v.enter e) cid kid t).state
      unfold SameVersion
      rw [hstate]
      exact mutate_version hedit

theorem changeKeyPassphrase_version (c k old new : String) :
    (changeKeyPassphrase C c k old new).Within A SameVersion := by
  unfold changeKeyPassphrase
  cases hc : parseUuid C c with
  | error x => trivial
  | ok cid =>
    cases hk : parseUuid C k with
    | error x => trivial
    | ok kid =>
      refine (quiet_version (throttleCheck_quiet _)).bind fun _ => within_region.2 fun e v _ => ?_
      have hedit :=
        edits_version (Call.Edits.changeKeyPassphrase (A := A) (v := v) old new e e hc hk)
      have hstate := (changePassphraseRegion_agrees (C := C) e (v.enter e) cid kid old new).state
      unfold SameVersion
      rw [hstate]
      exact mutate_version hedit

/-- **Every region of every call** keeps the format version. -/
theorem call_version (call : Call) : (call.run C).Within A SameVersion := by
  cases call with
  | unlockCompartment c p => exact (unlockCompartment_version c p).bind fun _ => trivial
  | lockCompartment c => exact (lockCompartment_version c).bind fun _ => trivial
  | lockAll => exact lockAll_version.bind fun _ => trivial
  | addCompartment l p d =>
    exact region_version (fun e w => addCompartmentRegion_eq e w l p d) fun e v =>
      .addCompartment l p d e
  | createKey a =>
    exact region_version (fun e w => createKeyRegion_eq e w a) fun e v => .createKey a e
  | discardKey c k t => exact (discardKey_version c k t).bind fun _ => trivial
  | changeKeyPassphrase c k o n => exact (changeKeyPassphrase_version c k o n).bind fun _ => trivial
  | revealRawKeyHex c k p =>
    exact (quiet_version (revealRawKeyHex_quiet C c k p)).bind fun _ => trivial
  | unlockKey c k p s => exact (quiet_version (unlockKey_quiet C c k p s)).bind fun _ => trivial
  | lockKey k => exact (quiet_version (lockKey_quiet C k)).bind fun _ => trivial
  | sign k m => exact (quiet_version (sign_quiet C k m)).bind fun _ => trivial
  | handleProtocolRequest i q =>
    exact (quiet_version (handleProtocolRequest_quiet C i q)).bind fun _ => trivial
  | handleFido2MakeCredential a => exact (makeCredential_version a).bind fun _ => trivial
  | handleFido2GetAssertion q p u => exact (getAssertion_version q p u).bind fun _ => trivial
  | mergeReencryptDiscardIncoming t j b =>
    exact region_version (fun e w => merge1Region_eq e w t j b) fun e v => .merge1 t j b e
  | mergeSideBySide j b l p d =>
    exact region_version (fun e w => merge2Region_eq e w j b l p d) fun e v => .merge2 j b l p d e
  | mergeReplaceLocalWithIncoming t j b p k c =>
    exact region_version (fun e w => merge3Region_eq e w t j b p k c) fun e v =>
      .merge3 t j b p k c e
  | query q => exact (quiet_version (query_quiet C q)).bind fun _ => trivial

/-! ## How an assertion ends -/

/-- The entry that `o` asserts by is in compartment `c`. -/
def AssertedIn (C : Crates) (rpId : String) (s : VaultState) (c : Uuid) (o : GetAssertionOutcome) :
    Prop :=
  ∃ u x f, s.unlocked.get c = some u ∧ x ∈ u.manifest.keys ∧ x.keyId = o.keyId ∧ x.fido2 = some f ∧
    f.rpId = rpId ∧ C.base64Decode f.credentialIdB64 = some o.response.credentialId ∧
    o.newSignCount = f.signCount + 1

/-- `m` is the last region of the assertion `o`. -/
structure Commits (C : Crates) (o : GetAssertionOutcome) (m : Region) : Prop where
  after : m.after = (commitAssertion C o m.input (m.before.enter m.input)).2
  result : (commitAssertion C o m.input (m.before.enter m.input)).1 = .ok o

theorem commit_result {o o' : GetAssertionOutcome} {e : In} {v : Vault}
    (h : (commitAssertion C o e v).1 = .ok o') : o' = o := by
  rw [commitAssertion_eq] at h
  obtain ⟨d, hd, rfl, -⟩ := mutate_ok e v h
  exact commitEdit_reply hd

theorem Pending.walk {P : GetAssertionOutcome → Prop} :
    ∀ {q : Op GetAssertionOutcome} {w : List Region}
    {o : GetAssertionOutcome}, Pending C A P q → Prog.Walk A q w (.done (.ok o)) →
      ∃ w' m, w = w' ++ [m] ∧ P o ∧ Commits C o m
  | .done r, w, o, hq, h => by
    obtain ⟨x, rfl⟩ := hq
    cases h
  | .region u n, w, o, hq, h => by
    rcases hq with ⟨o', hP, ho⟩ | hq
    · rw [ho] at h
      obtain ⟨m, rfl, -, hm, hr⟩ := walk_op.1 h
      obtain rfl := commit_result hr.symm
      exact ⟨[], m, rfl, hP, hm, hr.symm⟩
    · obtain ⟨m, w, rfl, hadm, -, h⟩ := Prog.walk_region.1 h
      obtain ⟨w', m', rfl, hP, hm⟩ := Pending.walk (hq m.input m.before hadm).2 h
      exact ⟨m :: w', m', rfl, hP, hm⟩

/-- **The moves of an assertion that is handed out**: a look at the candidates
first, the commit last. -/
theorem assertion_walk {cbor : Bytes} {up uv : Bool} {w : List Region} {o : GetAssertionOutcome}
    (h : Prog.Walk A ((Call.handleFido2GetAssertion cbor up uv).run C) w
      (.done (.ok (.assertion o)))) :
    ∃ request look w' m, parseGetAssertion C cbor = .ok request ∧ w = look :: (w' ++ [m]) ∧
      (∃ c, AssertedIn C request.rpId look.before.state c o) ∧ Commits C o m := by
  obtain ⟨q, hq, h⟩ := walk_replying.1 h
  obtain rfl : q = .ok o := by
    cases q with
    | error x => cases hq
    | ok o' => cases hq; rfl
  rcases begin_pending (C := C) A cbor up uv with ⟨x, hx⟩ | ⟨request, u, n, hp, hx, hbegin⟩
  · rw [hx] at h
    cases h
  · rw [hx] at h
    obtain ⟨look, w, rfl, hadm, -, h⟩ := Prog.walk_region.1 h
    obtain ⟨w', m, rfl, hby, hm⟩ := (hbegin look.input look.before hadm).2.walk h
    exact ⟨request, look, w', m, hp, rfl, hby.entry, hm⟩

/-! ## What the file holds then -/

/-- The lookup of the last region finds `k` in compartment `c`, as the passkey
it is. -/
def StillThere (o : Orders) (s : VaultState) (c k : Uuid) : Prop :=
  findCompartmentForKey o s k = some c ∧ ∃ u x f, s.unlocked.get c = some u ∧
    u.manifest.keys.find? (fun x => x.keyId = k) = some x ∧ x.fido2 = some f

/-- Among the moves `t` is the one with which a `discard_key` discards `k`. -/
def DiscardsIn (calls : List Call) (t : List (Nat × Region)) (k : Uuid) : Prop :=
  ∃ j m c s text, (j, m) ∈ t ∧ calls[j]? = some (.discardKey c s text) ∧
    m.after.hist = .discarded k :: m.before.hist

/-- The file parses, and the master blob of `c` opens under `key` to a manifest
with an entry for `k` that counts at least `n`. -/
def Recorded (C : Crates) (v : Vault) (c : Uuid) (key : Key) (k : Uuid) (n : UInt32) : Prop :=
  ∃ bytes container b p x f, v.disk = some bytes ∧
    (∀ o, Container.fromBytes C o bytes = .ok container) ∧ container.masterBlobs.get c = some b ∧
    decryptWithKey C c b key = .ok p ∧ x ∈ p.manifest.keys ∧ x.keyId = k ∧ x.fido2 = some f ∧
    n ≤ f.signCount

/-- ... and `key` is the master key of `c`. -/
def Counted (C : Crates) (v : Vault) (c k : Uuid) (n : UInt32) : Prop :=
  ∃ u, v.state.unlocked.get c = some u ∧ Recorded C v c u.masterKey k n

theorem Committed.counted {o : GetAssertionOutcome} {e : In} {v v' : Vault} {c : Uuid}
    {u : UnlockedCompartment} (h : Committed C o e v v' c u) {x : KeyEntry} {f : Fido2Info}
    (hx : u.manifest.keys.find? (fun x => x.keyId = o.keyId) = some x) (hf : x.fido2 = some f) :
    Counted C v' c o.keyId o.newSignCount := by
  obtain ⟨bytes, container, w, b, p, hd, hfile, hw, hb, hp, hm⟩ := h.onDisk
  have hid : x.keyId = o.keyId := by simpa using List.find?_some hx
  refine ⟨w, hw, bytes, container, b, p, KeyEntry.asserted o.newSignCount e.utc x,
    { f with signCount := o.newSignCount }, hd, hfile, hb, hp, ?_, hid, ?_, UInt32.le_refl _⟩
  · rw [hm]
    exact mem_of_find?_modifyFirst _ hx
  · simp [KeyEntry.asserted, hf]

/-- **The last region**, if it finds the key where it was. -/
theorem Commits.counted (hC : C.CodecLaws) (ha : C.AeadLaws) {o : GetAssertionOutcome} {m : Region}
    {c : Uuid} (h : Commits C o m)
    (hv : m.before.state.container.header.formatVersion = L1.formatVersion)
    (hthere : StillThere m.input.orders m.before.state c o.keyId) :
    Counted C m.after c o.keyId o.newSignCount := by
  obtain ⟨hfind, u, x, f, hu, hx, hf⟩ := hthere
  obtain ⟨-, -, hcases⟩ := commit_cases hC ha (v := m.before.enter m.input) hv h.result
  rw [h.after]
  rcases hcases with ⟨hnone, -⟩ | ⟨c', u', hcommit⟩
  · rw [Vault.enter_state, hfind] at hnone
    cases hnone
  · have hfound := hcommit.found
    rw [Vault.enter_state, hfind] at hfound
    cases hfound
    have hbefore := hcommit.before
    rw [Vault.enter_state, hu] at hbefore
    cases hbefore
    exact hcommit.counted hx hf

/-- **What is handed out is on disk.** Let any calls interleave in any way from
a reachable vault, and let one of them be an assertion that is handed out. It
was by an entry that its first region found in a compartment `c`. If its last
region finds the key in `c` again, as a passkey, then the file as that region
leaves it holds the new count, in the master blob of `c`; unless, in between,
the key was discarded. -/
theorem assertion_counted (C : Crates) (hC : C.CodecLaws) (ha : C.AeadLaws) {A : Vault → In → Prop}
    {v₀ v : Vault} {l : List Turn} (h₀ : Created C v₀ ∨ Opened C v₀) (h : Run C A v₀ l v)
    {calls : List Call} {i : Nat} {cbor : Bytes} {up uv : Bool}
    (hi : calls[i]? = some (.handleFido2GetAssertion cbor up uv)) {t : List (Nat × Region)}
    {p : Pool In Vault FacadeError Reply} {o : GetAssertionOutcome}
    (ht : Pool.Trace A (started C v calls) t p)
    (ho : p.calls[i]? = some (.done (.ok (.assertion o)))) :
    ∃ a look b commit d request, t = a ++ (i, look) :: (b ++ (i, commit) :: d) ∧
      own i a = [] ∧ own i d = [] ∧ parseGetAssertion C cbor = .ok request ∧
      (∃ c, AssertedIn C request.rpId look.before.state c o) ∧
      ∀ c, AssertedIn C request.rpId look.before.state c o →
        StillThere commit.input.orders commit.before.state c o.keyId ∨ DiscardsIn calls b o.keyId →
        Counted C commit.after c o.keyId o.newSignCount ∨ DiscardsIn calls b o.keyId := by
  obtain ⟨q, hq, hw⟩ := ht.walk (started_call hi)
  rw [ho] at hq
  cases hq
  obtain ⟨request, look, w, commit, hp, hown, hin, hcommit⟩ := assertion_walk hw
  obtain ⟨a, t', rfl, hown_a, hown'⟩ := own_split (w := []) hown
  obtain ⟨b, d, rfl, -, hown_d⟩ := own_split hown'
  refine ⟨a, look, b, commit, d, request, rfl, hown_a, hown_d, hp, hin, fun c _ hcond => ?_⟩
  rcases hcond with hthere | hdiscard
  · have hversion :=
      ht.invariant (I := fun w => w.state.container.header.formatVersion = L1.formatVersion)
      (fun j q hq => ?_) (h.version h₀) (i, commit) (by simp)
    · exact .inl (hcommit.counted hC ha hversion.1 hthere)
    · obtain ⟨call, -, rfl⟩ : ∃ call, calls[j]? = some call ∧ call.run C = q := by
        simpa [started, List.getElem?_map, Option.map_eq_some_iff] using hq
      exact (call_version call).mono fun _ _ hsame hI => hsame.trans hI
  · exact .inr hdiscard

end

/-! ## An assertion by the sample passkey, and a call beside it -/

/-- The file holds the compartment of the sample vault with manifest `m`, and
no other. -/
structure Filed (v : Vault) (m : Manifest) : Prop where
  file : ∃ bytes container b key p, v.disk = some bytes ∧
    (∀ o, Container.fromBytes Crates.symbolic o bytes = .ok container) ∧
    (∀ c b', container.masterBlobs.get c = some b' → c = Uuid.rep 10 ∧ b' = b) ∧
    decryptWithKey Crates.symbolic (Uuid.rep 10) b key = .ok p ∧ p.manifest = m

theorem Filed.not_recorded {v : Vault} {m : Manifest} (h : Filed v m) {n : UInt32}
    (hn : ∀ x ∈ m.keys, ∀ f, x.fido2 = some f → f.signCount < n) (c : Uuid) (key : Key) (k : Uuid) :
    ¬ Recorded Crates.symbolic v c key k n := by
  rintro ⟨bytes, container, b, p, x, f, hd, hf, hb, hp, hx, -, hxf, hle⟩
  obtain ⟨bytes', container', b', key', p', hd', hf', honly, hp', rfl⟩ := h.file
  rw [hd] at hd'
  cases hd'
  have hsame := (hf sampleOrders).symm.trans (hf' sampleOrders)
  cases hsame
  obtain ⟨rfl, rfl⟩ := honly c b hb
  have hpp := decryptWithKey_unique Crates.symbolic_commits hp hp'
  rw [hpp] at hn
  have hlt := hn x hx f hxf
  rw [UInt32.lt_iff_toNat_lt] at hlt
  rw [UInt32.le_iff_toNat_le] at hle
  omega

/-- After its last region the file is as it says. -/
theorem ready_filed {v : Vault} {n : UInt32} {t : Option OffsetDateTime} {b : Bytes}
    (h : Ready v n t b) (hv : v.state.container.header.formatVersion = L1.formatVersion)
    {o : GetAssertionOutcome} (hk : o.keyId = Uuid.rep 1) :
    Filed (commitAssertion Crates.symbolic o sampleNext v).2
      (sampleManifest [samplePasskey (Uuid.rep 1) o.newSignCount (some sampleNext.utc)]) := by
  obtain ⟨v', hx, -⟩ := ready_commit h sampleNext_works hk
  have hres : (commitAssertion Crates.symbolic o sampleNext v).1 = .ok o := congrArg Prod.fst hx
  obtain ⟨-, -, hcases⟩ := commit_cases Crates.symbolic_codec Crates.symbolic_aead hv hres
  have hfind : findCompartmentForKey sampleNext.orders v.state o.keyId = some (Uuid.rep 10) := by
    rw [hk, findCompartmentForKey, h.state.findKeyAnywhere]
    rfl
  rcases hcases with ⟨hnone, -⟩ | ⟨c, u, hcommit⟩
  · rw [hfind] at hnone
    cases hnone
  have hfound := hcommit.found
  rw [hfind] at hfound
  cases hfound
  obtain ⟨key, hunlocked⟩ := h.state.unlocked
  have hbefore := hcommit.before
  rw [hunlocked, HashMap.get_put_self] at hbefore
  cases hbefore
  obtain ⟨blob, p, hb, hp, hm⟩ := hcommit.blob
  obtain ⟨bytes, hd, hfile⟩ := hcommit.file
  refine ⟨bytes, _, blob, _, p, hd, hfile, fun c b' hb' => ?_, hp, ?_⟩
  · rw [hb, HashMap.get_put] at hb'
    split at hb'
    · rename_i hc
      cases hb'
      exact ⟨hc, rfl⟩
    · have hc := h.only c b' hb'
      contradiction
  · rw [hm, hk]
    rfl

/-- An assertion by the passkey with the whole of another call before its last
region. -/
theorem assertion_beside {v v₁ v₂ v₃ : Vault} {w w' : List Region} {other : Call}
    {o : GetAssertionOutcome} {q : Op Reply}
    (hw :
      Prog.Walk Vault.Admits
      (handleGetAssertion Crates.symbolic (ctap2Backend Crates.symbolic true)
      sampleRequest true true) w (.done (.ok o))) (hc : Chain v w v₁)
    (hw' : Prog.Walk Vault.Admits (other.run Crates.symbolic) w' q) (hc' : Chain v₁ w' v₂)
    (hclock : v₂.clock = 0)
    (hcommit : commitAssertion Crates.symbolic o sampleNext v₂ = (.ok o, v₃))
    {t : List (Nat × Region)}
    (ht : t = w.map (fun m => (0, m)) ++ w'.map (fun m => (1, m)) ++ [(0, ⟨v₂, sampleNext, v₃⟩)]) :
    own 0 t = w ++ [⟨v₂, sampleNext, v₃⟩] ∧ ∃ p,
      Pool.Trace Vault.Admits (started Crates.symbolic v [assertCall, other]) t p ∧
      p.calls[0]? = some (.done (.ok (.assertion o))) := by
  have hlast :
      Prog.Walk Vault.Admits (replying (region (commitAssertion Crates.symbolic o)) Reply.assertion)
      [⟨v₂, sampleNext, v₃⟩] (.done (.ok (.assertion o))) :=
    walk_replying.2
      ⟨.ok o, rfl, Prog.exec_move (exec_region_still sampleNext_still hclock _ hcommit)⟩
  have hassert : Prog.Walk Vault.Admits (assertCall.run Crates.symbolic)
      (w ++ [⟨v₂, sampleNext, v₃⟩])
      (.done (.ok (.assertion o))) := by
    rw [assertCall_run]
    exact (Prog.walk_mapError.2 ⟨.ok o, rfl, hw⟩).seq hlast
  have hown₀ : own 0 t = w ++ [⟨v₂, sampleNext, v₃⟩] := by
    rw [ht, own_append, own_append, own_map_self, own_map_ne (by decide), own_cons_self, own_nil,
      List.append_nil]
  have hown₁ : own 1 t = w' := by
    rw [ht, own_append, own_append, own_map_self, own_map_ne (by decide), own_cons_ne (by decide),
      own_nil,
      List.append_nil, List.nil_append]
  have hchain : Chain v (t.map Prod.snd) v₃ := by
    simp only [ht, List.map_append, List.map_map, Function.comp_def, List.map_id', List.map_cons,
      List.map_nil]
    exact chain_append.2 ⟨v₂, chain_append.2 ⟨v₁, hc, hc'⟩, rfl, rfl⟩
  have hlt : ∀ x ∈ t, x.1 < 2 := by
    rw [ht]
    simp only [List.mem_append, List.mem_map, List.mem_singleton]
    rintro x ((⟨m, -, rfl⟩ | ⟨m, -, rfl⟩) | rfl)
    · exact Nat.zero_lt_two
    · exact Nat.one_lt_two
    · exact Nat.zero_lt_two
  obtain ⟨p, hp, -, hdone, -⟩ := started_two hchain hlt (hown₀.symm ▸ hassert) (hown₁.symm ▸ hw')
  exact ⟨hown₀, p, hp, hdone⟩

/-- The moves of an assertion by the passkey before its last region. -/
theorem ready_assert_moves {v : Vault} {n : UInt32} {t : Option OffsetDateTime} {b : Bytes}
    (h : Ready v n t b) : ∃ o look w v', Prog.Walk Vault.Admits (handleGetAssertion Crates.symbolic
        (ctap2Backend Crates.symbolic true) sampleRequest true true) (look :: w) (.done (.ok o)) ∧
      look.before = v ∧ Chain v (look :: w) v' ∧ o.keyId = Uuid.rep 1 ∧ o.newSignCount = n + 1 ∧
      Ready v' n t b ∧ v'.disk = v.disk := by
  obtain ⟨o, v', hx, hk, hn, -, hv'⟩ := ready_assert h sampleNext_still
  obtain ⟨w, hw, hc, hi⟩ := Prog.exec_walk hx
  cases w with
  | nil => cases hi
  | cons look w =>
    exact ⟨o, look, w, v', hw, hc.1, hc, hk, hn, hv',
      (Quiet.exec (handleGetAssertion_quiet Crates.symbolic _ _ _) hx).disk⟩

/-- The first and the last move of a call. -/
theorem own_ends {i : Nat} {a b d : List (Nat × Region)} {first last m n : Region} {w : List Region}
    (ha : own i a = []) (hd : own i d = [])
    (h : own i (a ++ (i, first) :: (b ++ (i, last) :: d)) = (m :: w) ++ [n]) :
    first = m ∧ last = n := by
  rw [own_append, ha, List.nil_append, own_cons_self, own_append, own_cons_self, hd,
    List.cons_append, List.cons.injEq] at h
  exact ⟨h.1, (List.append_inj' h.2 rfl).2 |> List.singleton_inj.1⟩

/-- The sample vault has one compartment only. -/
theorem asserted_main {s : VaultState} {keys : List KeyEntry} {m : HashMap Uuid Bytes}
    (h : SampleState s keys m) {rpId : String} {c : Uuid} {o : GetAssertionOutcome}
    (hin : AssertedIn Crates.symbolic rpId s c o) : c = Uuid.rep 10 := by
  obtain ⟨key, hu⟩ := h.unlocked
  obtain ⟨u, x, f, hc, -⟩ := hin
  rw [hu, HashMap.get_put] at hc
  split at hc
  · assumption
  · simp at hc

/-- An assertion with count 5 before it, and a `lock_key` before its last region. -/
theorem assertion_counted_sample : ∃ (v : Vault) (t : List (Nat × Region))
    (p : Pool In Vault FacadeError Reply) (o : GetAssertionOutcome) (commit : Region),
    Pool.Trace Vault.Admits
      (started Crates.symbolic v [assertCall, .lockKey (hyphenated (Uuid.rep 1))]) t p ∧
    p.calls[0]? = some (.done (.ok (.assertion o))) ∧ o.newSignCount = 6 ∧ (0, commit) ∈ t ∧
    Counted Crates.symbolic commit.after (Uuid.rep 10) (Uuid.rep 1) 6 := by
  obtain ⟨l, v, b, hrun, hv, -⟩ := samplePasskey_ready 5
  obtain ⟨o, look, w, v₁, hw, hlook, hc, hk, hn, hv₁, -⟩ := ready_assert_moves hv
  obtain ⟨v₂, hv₂⟩ : ∃ v₂, v₂ = (v₁.setRetention (L2.Retention.wipe v₁.retention (Uuid.rep 1))).log
    (.lockedKey (Uuid.rep 1)) := ⟨_, rfl⟩
  have hfirst : FirstKey v₂ (Uuid.rep 1) "passkey" 5 none []
      ((∅ : HashMap Uuid Bytes).put (Uuid.rep 1) b) b := by
    obtain ⟨honly, hstate, hvalid, hblob, hseals, hclock, hthrottle⟩ := hv₁.toImported.first
    rw [hv₂]
    exact ⟨honly, hstate, hvalid, hblob, hseals, hclock, hthrottle⟩
  have hlock : Prog.Walk Vault.Admits ((Call.lockKey (hyphenated (Uuid.rep 1))).run Crates.symbolic)
      [⟨v₁, sampleNext, v₂⟩] (.done (.ok .unit)) := by
    refine walk_replying.2 ⟨.ok (), rfl, ?_⟩
    have hparse : Crates.symbolic.uuidParse (hyphenated (Uuid.rep 1)) = .ok (Uuid.rep 1) :=
      Crates.symbolic_codec.uuid _
    unfold lockKey
    rw [hparse, hv₂]
    exact Prog.exec_move (exec_region_still sampleNext_still hv₁.clock _ rfl)
  obtain ⟨v₃, hcommit, -⟩ := passkey_commit hfirst sampleNext_works hk
  obtain ⟨hown, p, ht, hp⟩ := assertion_beside hw hc hlock ⟨rfl, rfl⟩ hfirst.clock hcommit rfl
  obtain ⟨a, look', b', commit, d, request, hsplit, ha, hd, -, ⟨c, hin⟩, hcounted⟩ :=
    assertion_counted Crates.symbolic Crates.symbolic_codec Crates.symbolic_aead
      (.inl sampleVault_created) hrun (i := 0) rfl ht hp
  rw [hsplit] at hown
  obtain ⟨rfl, rfl⟩ := own_ends ha hd hown
  obtain rfl : c = Uuid.rep 10 := asserted_main (hlook.symm ▸ hv.state) hin
  have hthere : StillThere sampleNext.orders v₂.state (Uuid.rep 10) o.keyId := by
    obtain ⟨key', hu'⟩ := hfirst.state.unlocked
    refine ⟨?_, ⟨sampleManifest [samplePasskey (Uuid.rep 1) 5 none], key'⟩,
      samplePasskey (Uuid.rep 1) 5 none, Fido2Info.sample "rp" "ab" 5, ?_, ?_, rfl⟩
    · rw [hk, findCompartmentForKey, hfirst.state.firstFound]
      rfl
    · rw [hu', HashMap.get_put_self]
      rfl
    · simp [hk, sampleManifest, samplePasskey, KeyEntry.sample]
  rcases hcounted _ hin (.inl hthere) with h | ⟨j, m, c, s, text, -, hcall, -⟩
  · rw [hk, hn] at h
    exact ⟨v, _, p, o, _, ht, hp, hn, by rw [hsplit]; simp, h⟩
  · rcases j with _ | _ | j <;> cases hcall

/-- **An assertion that is not counted.** The passkey is at 6, on disk too,
when the vault is locked between an assertion's signature and its last
region: it goes out with count 7. -/
theorem assertion_not_counted : ∃ (v₀ : Vault) (l : List Turn) (v : Vault) (x : Bytes)
    (t : List (Nat × Region)) (p : Pool In Vault FacadeError Reply) (look commit : Region)
    (w : List Region) (o : GetAssertionOutcome),
    Created Crates.symbolic v₀ ∧ Run Crates.symbolic Vault.Admits v₀ l v ∧
    l.map Turn.call = [assertCall, unlockKeyCall "pw", importCall 5 x] ∧
    (∀ t ∈ l, ∃ a, t.result = .ok a) ∧
    Pool.Trace Vault.Admits (started Crates.symbolic v [assertCall, .lockAll]) t p ∧
    p.calls[0]? = some (.done (.ok (.assertion o))) ∧ own 0 t = look :: (w ++ [commit]) ∧
    AssertedIn Crates.symbolic "rp" look.before.state (Uuid.rep 10) o ∧
    ¬ DiscardsIn [assertCall, .lockAll] t o.keyId ∧
    ∀ c key, ¬ Recorded Crates.symbolic commit.after c key o.keyId o.newSignCount := by
  obtain ⟨l, v, b, hrun, hv, hcalls, hok⟩ := samplePasskey_ready 5
  -- a first assertion, so that the file holds the passkey
  obtain ⟨es, o₁, w₁, hx, hk₁, hn₁, -, hw₁, hq⟩ := ready_assertCall hv
  have hversion : w₁.state.container.header.formatVersion = L1.formatVersion := by
    rw [hq.state]
    exact hrun.version (.inl sampleVault_created)
  have hfiled := ready_filed hw₁ hversion hk₁
  obtain ⟨v₁, hcommit₁, hv₁⟩ := ready_commit hw₁ sampleNext_works hk₁
  simp only [hcommit₁] at hx hfiled
  -- the second one, with the lock before its last region
  obtain ⟨o, look, w, v₂, hw, hlook, hc, hk, hn, hv₂, hdisk⟩ := ready_assert_moves hv₁
  obtain ⟨v₃, hv₃⟩ : ∃ v₃, v₃ = v₂.setState { v₂.state with unlocked := ∅ } := ⟨_, rfl⟩
  obtain ⟨v₄, hv₄⟩ : ∃ v₄,
      v₄ = (v₃.setRetention (L2.Retention.wipeAll v₃.retention)).log .lockedAll :=
    ⟨_, rfl⟩
  have hclock₃ : v₃.clock = 0 := by rw [hv₃]; exact hv₂.clock
  have hclock₄ : v₄.clock = 0 := by rw [hv₄]; exact hclock₃
  have hlocked : v₄.state.unlocked = ∅ := by rw [hv₄, hv₃]; rfl
  have hsilent : commitAssertion Crates.symbolic o sampleNext v₄ = (.ok o, v₄) := by
    have hfind : findCompartmentForKey sampleNext.orders v₄.state o.keyId = none := by
      cases hf : findCompartmentForKey sampleNext.orders v₄.state o.keyId with
      | none => rfl
      | some c =>
        obtain ⟨u, x, hu, -⟩ := findCompartmentForKey_some hf
        simp [hlocked] at hu
    unfold commitAssertion
    rw [hfind]
  have hlock := lockAll_moves sampleNext_still hv₂.clock hclock₃ Crates.symbolic
  have hchain : Chain v₂ (lockAllMoves v₂ v₃ sampleNext) v₄ := ⟨rfl, hv₃, hv₄⟩
  obtain ⟨hown, p, ht, hp⟩ := assertion_beside hw hc hlock hchain hclock₄ hsilent rfl
  refine ⟨sampleVault, _, v₁, b, _, p, look, ⟨v₄, sampleNext, v₄⟩, w, o, sampleVault_created,
    .cons hrun hx, ?_, ?_, ht, hp, hown, ?_, ?_, fun c key => ?_⟩
  · rw [List.map_cons, hcalls]
  · intro t ht
    rcases List.mem_cons.1 ht with rfl | ht
    · exact ⟨_, rfl⟩
    · exact hok t ht
  · obtain ⟨q, hq, hwalk⟩ := ht.walk (started_call (i := 0) rfl)
    rw [hp] at hq
    cases hq
    obtain ⟨request, look', w', m', hparse, hw', ⟨c, hin⟩, -⟩ := assertion_walk hwalk
    rw [parse_sampleCbor] at hparse
    cases hparse
    obtain ⟨rfl, -⟩ := List.cons.inj (hown.symm.trans hw')
    exact asserted_main (hlook.symm ▸ hv₁.state) hin ▸ hin
  · rintro ⟨j, m, c, s, text, -, hcall, -⟩
    rcases j with _ | _ | j <;> cases hcall
  · obtain ⟨hfile⟩ := hfiled
    have hdisk₄ : v₄.disk = v₁.disk := by
      rw [hv₄, hv₃]
      exact hdisk
    rw [← hdisk₄] at hfile
    refine Filed.not_recorded (m := _) ⟨hfile⟩ ?_ c key _
    intro x hx f hf
    obtain rfl := List.mem_singleton.1 hx
    cases hf
    rw [hn, hn₁]
    decide

end VaultSigner.L5
