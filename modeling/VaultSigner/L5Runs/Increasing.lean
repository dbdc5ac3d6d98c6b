import VaultSigner.L5Runs.Counting
import VaultSigner.L5Runs.Entries

/-!
# Sign counts go up (`handle_get_assertion`, `rename_incoming_duplicates`)

A relying party sees a passkey as an `rp_id` and a credential id; the vault
counts by entry. A merge keeps both copies of a passkey that the vault has
already, each with a count of its own, and takes the counts of an import as
they are.

Results:
* `Asserts.counted`: one assertion.
* `Ahead.keeps`, `Ahead.asserted`: no entry falls behind a count that was given
  out for it.
* `counts_increase`: along a run, by entry and by credential.
-/
namespace VaultSigner.L5
open VaultSigner.Core VaultSigner.L1 VaultSigner.L3 VaultSigner.L4
open VaultSigner.L3.Merge (renamedKeys)

/-- An assertion, as the relying party sees it, and the entry that answered. -/
structure Assertion where
  rpId : String
  credentialId : Bytes
  keyId : Uuid
  count : UInt32

/-- What to count by. -/
inductive Scope where
  | key (k : Uuid)
  | credential (rpId : String) (credentialId : Bytes)

def Scope.Answer : Scope → Assertion → Prop
  | key k, a => a.keyId = k
  | credential rpId credentialId, a => a.rpId = rpId ∧ a.credentialId = credentialId

section
variable (C : Crates)

def Scope.Entry : Scope → KeyEntry → Prop
  | key k, x => x.keyId = k
  | credential rpId credentialId, x => ∃ f, x.fido2 = some f ∧ f.rpId = rpId ∧
      C.base64Decode f.credentialIdB64 = some credentialId

/-- The call asserted, with this count in the signed authenticator data. -/
structure Asserts (t : Turn) (a : Assertion) : Prop where
  made : ∃ cbor up uv request o, t.call = .handleFido2GetAssertion cbor up uv ∧
    parseGetAssertion C cbor = .ok request ∧ t.result = .ok (.assertion o) ∧
    C.authData ⟨rpIdHash C request.rpId, flagsOf 0 up uv, o.newSignCount, none⟩ =
      some o.response.authData ∧
    a = ⟨request.rpId, o.response.credentialId, o.keyId, o.newSignCount⟩

/-- Of two assertions in the scope the later one has the higher count (runs are
newest first). -/
def Increasing (S : Scope) (l : List Turn) : Prop :=
  l.Pairwise fun t t₁ => ∀ a a₁, Asserts C t a → Asserts C t₁ a₁ → S.Answer a → S.Answer a₁ →
    a₁.count < a.count

/-- Merges leave one entry in the scope, and bring none that is behind. -/
structure KeptApart (S : Scope) (l : List Turn) : Prop where
  stored : ∀ t ∈ l, ∀ c y, Brings C t c y → S.Entry C y → ∀ c' x, Stored C t.before.state c' x →
    S.Entry C x →
    c' = c ∧ x.keyId = y.keyId
  brought : ∀ t ∈ l, ∀ c c' y y', Brings C t c y → Brings C t c' y' → S.Entry C y → S.Entry C y' →
    y'.keyId = y.keyId
  ahead : l.Pairwise fun t t₁ => ∀ c y f a, Brings C t c y → S.Entry C y → y.fido2 = some f →
    Asserts C t₁ a → S.Answer a → a.count ≤ f.signCount

/-- What the calls draw is nobody's: not stored when they draw it, and not
asserted before. -/
structure FreshDraws (l : List Turn) : Prop where
  stored : ∀ t ∈ l, ∀ e ∈ t.inputs, ∀ c x, Stored C t.before.state c x →
    x.keyId ≠ e.uuid 1 ∧ ∀ rpId, ¬ (Scope.credential rpId (e.uuid 0).asBytes).Entry C x
  asserted : l.Pairwise fun t t₁ => ∀ e ∈ t.inputs, ∀ a, Asserts C t₁ a →
    a.keyId ≠ e.uuid 1 ∧ a.credentialId ≠ (e.uuid 0).asBytes

/-- Every stored count is below the largest. -/
def BelowMax (s : VaultState) : Prop :=
  ∀ c x f, Stored C s c x → x.fido2 = some f → f.signCount.toNat < 2 ^ 32 - 1

/-- One entry in the scope at most. -/
def One (S : Scope) (s : VaultState) : Prop :=
  ∀ c c' x x', Stored C s c x → Stored C s c' x' → S.Entry C x → S.Entry C x' → c' = c ∧
    x'.keyId = x.keyId

/-- No entry in the scope is behind a count that was given out. -/
def Ahead (S : Scope) (l : List Turn) (s : VaultState) : Prop :=
  ∀ t ∈ l, ∀ a, Asserts C t a → S.Answer a → ∀ c x f, Stored C s c x → S.Entry C x →
    x.fido2 = some f →
    a.count ≤ f.signCount

end

section
variable {C : Crates} {A : Vault → In → Prop} {v : Vault} {e : In} {s : VaultState} {c : Uuid}
  {x : KeyEntry}

/-! ## Scopes -/

theorem Scope.entry_congr {S : Scope} {y : KeyEntry} (hid : x.keyId = y.keyId)
    (hf : SamePasskey x y) : S.Entry C x ↔ S.Entry C y := by
  cases S with
  | key k => simp only [Entry, hid]
  | credential rpId credentialId =>
    have hhalf : ∀ {x y : KeyEntry}, SamePasskey x y → Entry C (.credential rpId credentialId) x →
        Entry C (.credential rpId credentialId) y := by
      rintro x y hf ⟨f, hx, hrp, hcid⟩
      rw [SamePasskey, hx] at hf
      obtain ⟨g, hy, hg⟩ := Option.map_eq_some_iff.1 hf.symm
      simp only [Prod.mk.injEq] at hg
      exact ⟨g, hy, hg.1.trans hrp, hg.2 ▸ hcid⟩
    exact ⟨hhalf hf, hhalf hf.symm⟩

/-- The scopes of a new entry are drawn by its call. -/
theorem Scope.drawn (hC : C.CodecLaws) {S : Scope} {es : List In}
    (hid : ∃ e ∈ es, x.keyId = e.uuid 1)
    (hf : ∀ f, x.fido2 = some f → f.signCount = 0 ∧ ∃ e ∈ es,
      f.credentialIdB64 = C.base64Encode (e.uuid 0).asBytes) (h : S.Entry C x) :
    ∃ e ∈ es, S = .key (e.uuid 1) ∨ ∃ rpId, S = .credential rpId (e.uuid 0).asBytes := by
  cases S with
  | key k =>
    obtain ⟨e, he, hid⟩ := hid
    refine ⟨e, he, .inl ?_⟩
    rw [← hid, show x.keyId = k from h]
  | credential rpId credentialId =>
    obtain ⟨f, hx, -, hcid⟩ := h
    obtain ⟨-, e, he, hf⟩ := hf f hx
    rw [hf, hC.base64] at hcid
    cases hcid
    exact ⟨e, he, .inr ⟨rpId, rfl⟩⟩

section
variable {S : Scope} {l : List Turn} {t : Turn}

theorem FreshDraws.tail (h : FreshDraws C (t :: l)) : FreshDraws C l :=
  ⟨fun t' ht => h.stored t' (List.mem_cons_of_mem _ ht), (List.pairwise_cons.1 h.asserted).2⟩

theorem KeptApart.tail (h : KeptApart C S (t :: l)) : KeptApart C S l :=
  ⟨fun t' ht => h.stored t' (List.mem_cons_of_mem _ ht), fun t' ht =>
    h.brought t' (List.mem_cons_of_mem _ ht),
    (List.pairwise_cons.1 h.ahead).2⟩

/-- Nothing stored is in the scope of a new entry. -/
theorem FreshDraws.entry (h : FreshDraws C (t :: l)) {e : In} (he : e ∈ t.inputs)
    (hS : S = .key (e.uuid 1) ∨ ∃ rpId, S = .credential rpId (e.uuid 0).asBytes)
    (hx : Stored C t.before.state c x) : ¬ S.Entry C x := by
  obtain ⟨hid, hcred⟩ := h.stored t List.mem_cons_self e he c x hx
  rcases hS with rfl | ⟨rpId, rfl⟩
  · exact hid
  · exact hcred rpId

/-- ... and no assertion. -/
theorem FreshDraws.answer (h : FreshDraws C (t :: l)) {e : In} (he : e ∈ t.inputs)
    (hS : S = .key (e.uuid 1) ∨ ∃ rpId, S = .credential rpId (e.uuid 0).asBytes) {t₁ : Turn}
    (ht : t₁ ∈ l) {a : Assertion} (ha : Asserts C t₁ a) : ¬ S.Answer a := by
  obtain ⟨hid, hcid⟩ := (List.pairwise_cons.1 h.asserted).1 t₁ ht e he a ha
  rcases hS with rfl | ⟨rpId, rfl⟩
  · exact hid
  · exact fun h => hcid h.2

theorem One.of_same {s' : VaultState} (hone : One C S s)
    (h : ∀ c x, Stored C s' c x → ∃ y, Stored C s c y ∧ x.keyId = y.keyId ∧
      (S.Entry C x ↔ S.Entry C y)) : One C S s' := by
  intro c c' x x' hx hx' hS hS'
  obtain ⟨y, hy, hid, hiff⟩ := h c x hx
  obtain ⟨y', hy', hid', hiff'⟩ := h c' x' hx'
  obtain ⟨hc, hk⟩ := hone c c' y y' hy hy' (hiff.1 hS) (hiff'.1 hS')
  exact ⟨hc, by rw [hid, hid', hk]⟩

/-- **One entry in the scope**, also after a call. -/
theorem One.step (hC : C.CodecLaws) (h : Adds C A t.before t.call t.inputs t.after.state)
    (hf : FreshDraws C (t :: l)) (hkept : KeptApart C S (t :: l)) (hone : One C S t.before.state) :
    One C S t.after.state := by
  cases h with
  | nothing h =>
    refine hone.of_same fun c x hx => ?_
    obtain ⟨y, hy, hid, hfido⟩ := h c x hx
    exact ⟨y, hy, hid, Scope.entry_congr hid (by rw [SamePasskey, hfido])⟩
  | count rpId o c₀ u ho hu h =>
    refine hone.of_same fun c x hx => ?_
    rcases h c x hx with hx | ⟨rfl, y, hy, -, hid, hfido⟩
    · exact ⟨x, hx, rfl, Iff.rfl⟩
    · exact ⟨y, .unlocked hu hy, hid,
        Scope.entry_congr hid (by rw [SamePasskey, hfido, Option.map_map]; rfl)⟩
  | entry hc c₀ k hid hfido h =>
    intro c c' x x' hx hx' hS hS'
    rcases h c x hx with hx | ⟨rfl, rfl⟩
    · rcases h c' x' hx' with hx' | ⟨rfl, rfl⟩
      · exact hone c c' x x' hx hx' hS hS'
      · obtain ⟨e, he, hdrawn⟩ := Scope.drawn hC hid hfido hS'
        exact absurd hS (hf.entry he hdrawn hx)
    · rcases h c' x' hx' with hx' | ⟨rfl, rfl⟩
      · obtain ⟨e, he, hdrawn⟩ := Scope.drawn hC hid hfido hS
        exact absurd hS' (hf.entry he hdrawn hx')
      · exact ⟨rfl, rfl⟩
  | imports e he i hi h =>
    have hbrings : ∀ y, y ∈ renamedKeys C i.uuids (localCompartments t.before.state) i.incoming →
        Brings C t i.target y := fun y hy => ⟨e, he, i, hi, rfl, hy⟩
    intro c c' x x' hx hx' hS hS'
    rcases h c x hx with hx | ⟨rfl, hmem⟩
    · rcases h c' x' hx' with hx' | ⟨rfl, hmem'⟩
      · exact hone c c' x x' hx hx' hS hS'
      · obtain ⟨hc, hid⟩ := hkept.stored t List.mem_cons_self _ x' (hbrings x' hmem') hS' c x hx hS
        exact ⟨hc.symm, hid.symm⟩
    · rcases h c' x' hx' with hx' | ⟨rfl, hmem'⟩
      · exact hkept.stored t List.mem_cons_self _ x (hbrings x hmem) hS c' x' hx' hS'
      · exact ⟨rfl, hkept.brought t List.mem_cons_self _ _ x x' (hbrings x hmem)
          (hbrings x' hmem') hS hS'⟩

/-! ## Assertions -/

/-- A key that one compartment has: its count goes up by one there. -/
theorem commitEdit_one {rpId : String} {o : GetAssertionOutcome} {d : Edit GetAssertionOutcome}
    (ho : AssertedBy C rpId s o) (hone : One C (.key o.keyId) s) (h : commitEdit o e s = .ok d) :
    ∃ c u x f, s.unlocked.get c = some u ∧ x ∈ u.manifest.keys ∧ x.keyId = o.keyId ∧
    x.fido2 = some f ∧
      o.newSignCount = f.signCount + 1 ∧
      d = ⟨s.setUnlocked c (u.asserted o.keyId o.newSignCount e.utc), .persist c, o⟩ := by
  obtain ⟨c, u, x, f, hu, hx, hk, hf, -, -, hn⟩ := ho.entry
  have hfind : findCompartmentForKey e.orders s o.keyId = some c := by
    cases hfind : findKeyAnywhere e.orders s o.keyId with
    | none => exact absurd hk (findKeyAnywhere_none hfind hu hx)
    | some p =>
      obtain ⟨w, y, hw, hy, -⟩ := findKeyAnywhere_some hfind
      obtain ⟨hmem, hyk⟩ := findKey_mem hy
      have hc := (hone p.2 c y x (.unlocked hw hmem) (.unlocked hu hx) hyk hk).1
      simp [findCompartmentForKey, hfind, hc]
  obtain ⟨u', hu', hd⟩ := commitEdit_ok h hfind
  obtain rfl : u' = u := by simpa [hu] using hu'.symm
  exact ⟨c, u', x, f, hu, hx, hk, hf, hn, hd⟩

/-- A manifest that was written with a new count has no id twice. -/
theorem asserted_nodup {u : UnlockedCompartment} {k : Uuid} {n : UInt32} {t : OffsetDateTime}
    (hg : GoesThrough C e (s.setUnlocked c (u.asserted k n t)) (.persist c)) :
    (u.manifest.keys.map KeyEntry.keyId).Nodup := by
  obtain ⟨w, blob, bytes, hw, hb, -⟩ := hg
  obtain rfl : u.asserted k n t = w := by
    simpa [VaultState.setUnlocked, HashMap.get_put_self] using hw
  have hids : (u.asserted k n t).manifest.keys.map KeyEntry.keyId =
      u.manifest.keys.map KeyEntry.keyId :=
    map_modifyFirst (asserted_keyId n t) u.manifest.keys
  rw [← hids]
  exact (encryptWithKey_valid hb).nodup

/-- The new count of the entry that answered, as it is written. -/
theorem commitEdit_counted (hC : C.CodecLaws) (ha : C.AeadLaws) (hk : C.AeadCommits) {rpId : String}
    {o : GetAssertionOutcome} {d : Edit GetAssertionOutcome} (ho : AssertedBy C rpId s o)
    (hone : One C (.key o.keyId) s) (h : commitEdit o e s = .ok d)
    (hg : GoesThrough C e d.state d.tail) {f : Fido2Info}
    (hx : Stored C (inMemory C e d.state d.tail) c x) (hf : x.fido2 = some f) :
    x.keyId = o.keyId ∧ f.signCount = o.newSignCount ∨ x.keyId ≠ o.keyId ∧ Stored C s c x := by
  obtain ⟨c₀, u, x₀, -, hu, hx₀, hk₀, -, -, rfl⟩ := commitEdit_one ho hone h
  rcases hx.persisted hC ha hk hg with ⟨rfl, w, hw, -, hmem⟩ | ⟨hc, hx⟩
  · obtain rfl : u.asserted o.keyId o.newSignCount e.utc = w := by
      simpa [VaultState.setUnlocked, HashMap.get_put_self] using hw
    simp only [UnlockedCompartment.asserted, modifyFirst_eq_map (asserted_nodup hg)] at hmem
    obtain ⟨y, hy, rfl⟩ := List.mem_map.1 hmem
    by_cases hyk : y.keyId = o.keyId
    · rw [if_pos hyk] at hf ⊢
      obtain ⟨g, -, rfl⟩ := Option.map_eq_some_iff.1 hf
      exact .inl ⟨hyk, rfl⟩
    · rw [if_neg hyk]
      exact .inr ⟨hyk, .unlocked hu hy⟩
  · have hold : c = c₀ ∧ x ∈ (u.asserted o.keyId o.newSignCount e.utc).manifest.keys ∨
        Stored C s c x :=
      hx.of_unlocked rfl rfl
    have hx : Stored C s c x := hold.resolve_left fun h => hc h.1
    refine .inr ⟨fun hxk => hc ?_, hx⟩
    exact (hone c₀ c x₀ x (.unlocked hu hx₀) hx hk₀ hxk).1

/-- A get-assertion call that succeeds. -/
theorem getAssertion_done {cbor : Bytes} {up uv : Bool} {es : List In} {a : Reply} {v' : Vault}
    (hx : Prog.Exec A ((Call.handleFido2GetAssertion cbor up uv).run C) v es (.ok a) v') :
    ∃ request o, parseGetAssertion C cbor = .ok request ∧ a = .assertion o ∧
      C.authData ⟨rpIdHash C request.rpId, flagsOf 0 up uv, o.newSignCount, none⟩ =
      some o.response.authData ∧
      AssertedBy C request.rpId v.state o ∧ ∃ e d, commitEdit o e v.state = .ok d ∧
        GoesThrough C e d.state d.tail ∧ v'.state = inMemory C e d.state d.tail := by
  cases Call.outcome _ hx with
  | same hq hr =>
    obtain ⟨x, hr⟩ := hr trivial
    cases hr
  | unlocked c b key p hn => exact absurd trivial hn
  | locked hn => exact absurd trivial hn
  | undone e s t a he hc hg hr =>
    obtain ⟨x, hr⟩ := hr
    cases hr
  | done e s t a he hc hg hr hs hd =>
    cases hr
    generalize hq : (Except.ok ⟨s, t, a⟩ : FacadeResult (Edit Reply)) = q at he
    cases he with
    | getAssertion e hp hx' =>
      obtain ⟨d, hd', hmap⟩ := map_edit_ok hq.symm
      have hreply := commitEdit_reply hd'
      cases hmap
      have hdata := (handleGetAssertion_carries C _ _ up uv).exec hx' _ rfl
      exact ⟨_, _, hp, congrArg Reply.assertion hreply, hdata, handleGetAssertion_by hx', e, d,
        hd', hg, hs⟩

/-- ... has made an assertion. -/
theorem Asserts.of_ok {cbor : Bytes} {up uv : Bool} {es : List In} {a : Reply} {v' : Vault}
    (hx : Prog.Exec A ((Call.handleFido2GetAssertion cbor up uv).run C) v es (.ok a) v') :
    ∃ request o, parseGetAssertion C cbor = .ok request ∧ a = .assertion o ∧
      Asserts C ⟨v, .handleFido2GetAssertion cbor up uv, es, .ok a, v'⟩
        ⟨request.rpId, o.response.credentialId, o.keyId, o.newSignCount⟩ := by
  obtain ⟨request, o, hp, rfl, hdata, -⟩ := getAssertion_done hx
  exact ⟨request, o, hp, rfl, ⟨cbor, up, uv, request, o, rfl, hp, rfl, hdata, rfl⟩⟩

/-- The entry that answered. -/
theorem Asserts.by_entry {a : Assertion} (h : Asserts C t a)
    (hx : Prog.Exec A (t.call.run C) t.before t.inputs t.result t.after) :
    ∃ c x f, Stored C t.before.state c x ∧ x.keyId = a.keyId ∧ x.fido2 = some f ∧ f.rpId = a.rpId ∧
      C.base64Decode f.credentialIdB64 = some a.credentialId ∧ a.count = f.signCount + 1 := by
  obtain ⟨cbor, up, uv, request, o, hcall, hp, hr, -, rfl⟩ := h.made
  rw [hcall, hr] at hx
  obtain ⟨request', o', hp', ho, -, hby, -⟩ := getAssertion_done hx
  rw [hp] at hp'
  cases hp'
  cases ho
  obtain ⟨c, u, x, f, hu, hmem, hid, hf, hrp, hcid, hn⟩ := hby.entry
  exact ⟨c, x, f, .unlocked hu hmem, hid, hf, hrp, hcid, hn⟩

/-- **One assertion.** After the call every stored entry with the `key_id` that
answered has the new count. -/
theorem Asserts.counted (hC : C.CodecLaws) (ha : C.AeadLaws) (hk : C.AeadCommits) {a : Assertion}
    (h : Asserts C t a) (hx : Prog.Exec A (t.call.run C) t.before t.inputs t.result t.after)
    (hone : One C (.key a.keyId) t.before.state) {f : Fido2Info} (hs : Stored C t.after.state c x)
    (hf : x.fido2 = some f) :
    x.keyId = a.keyId ∧ f.signCount = a.count ∨ x.keyId ≠ a.keyId ∧
    Stored C t.before.state c x := by
  obtain ⟨cbor, up, uv, request, o, hcall, hp, hr, -, rfl⟩ := h.made
  rw [hcall, hr] at hx
  obtain ⟨request', o', hp', ho, -, hby, e, d, hd, hg, hstate⟩ := getAssertion_done hx
  rw [hp] at hp'
  cases hp'
  cases ho
  rw [hstate] at hs
  exact commitEdit_counted hC ha hk hby hone hd hg hs hf

/-! ## One call, along a run -/

/-- What the entries of a scope have as `key_id`. -/
def Scope.Ids : Scope → Uuid → Prop
  | key k, k' => k' = k
  | credential _ _, _ => True

theorem Scope.Entry.ids (h : S.Entry C x) : S.Ids x.keyId := by
  cases S with
  | key k => exact h
  | credential rpId credentialId => trivial

theorem Asserts.entry {a : Assertion} {f : Fido2Info} (h : S.Answer a) (hid : x.keyId = a.keyId)
    (hf : x.fido2 = some f) (hrp : f.rpId = a.rpId)
    (hcid : C.base64Decode f.credentialIdB64 = some a.credentialId) : S.Entry C x := by
  cases S with
  | key k => exact hid.trans h
  | credential rpId credentialId => exact ⟨f, hf, hrp.trans h.1, hcid.trans (congrArg some h.2)⟩

/-- **What was given out stays behind**, over a call. -/
theorem Ahead.keeps (hC : C.CodecLaws) (h : Adds C A t.before t.call t.inputs t.after.state)
    (hf : FreshDraws C (t :: l)) (hkept : KeptApart C S (t :: l)) (hv : AllValid t.before.state)
    (hids : ∀ k, S.Ids k → One C (.key k) t.before.state) (hmax : BelowMax C t.before.state)
    (hahead : Ahead C S l t.before.state) : Ahead C S l t.after.state := by
  intro t₁ ht a has hSa c x f hx hS hfido
  cases h with
  | nothing h =>
    obtain ⟨y, hy, hid, hxy⟩ := h c x hx
    exact hahead t₁ ht a has hSa c y f hy ((Scope.entry_congr hid (by rw [SamePasskey, hxy])).1 hS)
      (hxy ▸ hfido)
  | count rpId o c₀ u ho hu h =>
    rcases h c x hx with hx | ⟨rfl, y, hy, hyk, hid, hxy⟩
    · exact hahead t₁ ht a has hSa c x f hx hS hfido
    · have hSy : S.Entry C y :=
        (Scope.entry_congr hid (by rw [SamePasskey, hxy, Option.map_map]; rfl)).1 hS
      obtain ⟨c₁, w, x₀, f₀, hw, hx₀, hk₀, hf₀, -, -, hn⟩ := ho.entry
      have hone := hids y.keyId hSy.ids
      obtain rfl : c₁ = c :=
        (hone c c₁ y x₀ (.unlocked hu hy) (.unlocked hw hx₀) rfl (hk₀.trans hyk.symm)).1
      obtain rfl : w = u := by simpa [hu] using hw.symm
      obtain rfl : x₀ = y := List.inj_on_of_nodup_map (hv _ _ hu).nodup hx₀ hy (hk₀.trans hyk.symm)
      rw [hf₀] at hxy
      obtain rfl : { f₀ with signCount := o.newSignCount } = f := by simpa [hxy] using hfido
      have hle := hahead t₁ ht a has hSa _ x₀ f₀ (.unlocked hu hy) hSy hf₀
      have hlt := hmax _ x₀ f₀ (.unlocked hu hy) hf₀
      show a.count ≤ o.newSignCount
      rw [hn]
      rw [UInt32.le_iff_toNat_le] at hle ⊢
      rw [UInt32.toNat_add]
      simp only [UInt32.toNat_one]
      omega
  | entry hc c₀ k hid hkf h =>
    rcases h c x hx with hx | ⟨rfl, rfl⟩
    · exact hahead t₁ ht a has hSa c x f hx hS hfido
    · obtain ⟨e, he, hdrawn⟩ := Scope.drawn hC hid hkf hS
      exact absurd hSa (hf.answer he hdrawn ht has)
  | imports e he i hi h =>
    rcases h c x hx with hx | ⟨rfl, hmem⟩
    · exact hahead t₁ ht a has hSa c x f hx hS hfido
    · exact (List.pairwise_cons.1 hkept.ahead).1 t₁ ht i.target x f a ⟨e, he, i, hi, rfl, hmem⟩
        hS hfido has hSa

/-- **One assertion**: above every count given out before, and none of the
scope is behind it afterwards. -/
theorem Ahead.asserted (hC : C.CodecLaws) (ha : C.AeadLaws) (hk : C.AeadCommits) {a : Assertion}
    (h : Asserts C t a) (hS : S.Answer a)
    (hx : Prog.Exec A (t.call.run C) t.before t.inputs t.result t.after)
    (hone : One C S t.before.state) (hids : ∀ k, S.Ids k → One C (.key k) t.before.state)
    (hmax : BelowMax C t.before.state) (hahead : Ahead C S l t.before.state) :
    (∀ t₁ ∈ l, ∀ a₁, Asserts C t₁ a₁ → S.Answer a₁ → a₁.count < a.count) ∧
    ∀ c x f, Stored C t.after.state c x → S.Entry C x → x.fido2 = some f →
    a.count ≤ f.signCount := by
  have hanswer : S.Ids a.keyId := by
    cases S with
    | key k => exact hS
    | credential rpId credentialId => trivial
  obtain ⟨c₀, x₀, f₀, hx₀, hid₀, hf₀, hrp, hcid, hn⟩ := h.by_entry hx
  have hentry : S.Entry C x₀ := Asserts.entry hS hid₀ hf₀ hrp hcid
  refine ⟨fun t₁ ht a₁ h₁ hS₁ => ?_, fun c x f hafter hSx hf => ?_⟩
  · have hle := hahead t₁ ht a₁ h₁ hS₁ c₀ x₀ f₀ hx₀ hentry hf₀
    have hlt := hmax c₀ x₀ f₀ hx₀ hf₀
    rw [hn, UInt32.lt_iff_toNat_lt, UInt32.toNat_add, UInt32.toNat_one]
    rw [UInt32.le_iff_toNat_le] at hle
    omega
  · rcases h.counted hC ha hk hx (hids _ hanswer) hafter hf with ⟨-, hcount⟩ | ⟨hne, hx⟩
    · exact hcount ▸ UInt32.le_refl _
    · exact absurd ((hone c₀ c x₀ x hx₀ hx hentry hSx).2.trans hid₀) hne

theorem Run.one (hC : C.CodecLaws) (ha : C.AeadLaws) (hk : C.AeadCommits) {v₀ : Vault}
    (h₀ : Created C v₀) (h : Run C A v₀ l v) (hf : FreshDraws C l) (hkept : KeptApart C S l) :
    One C S v.state := by
  induction h with
  | nil => exact fun c c' x x' hx => absurd hx (created_stored hC ha hk h₀ c x)
  | @cons l v v' call es r hr hx ih =>
    exact One.step (t := ⟨v, call, es, r, v'⟩) hC (Call.adds hC ha hk hx) hf hkept
      (ih hf.tail hkept.tail)

/-- **Along a run** the counts of a scope go up. -/
theorem Run.increasing (hC : C.CodecLaws) (ha : C.AeadLaws) (hk : C.AeadCommits) {v₀ : Vault}
    (h₀ : Created C v₀) (h : Run C A v₀ l v) (hf : FreshDraws C l)
    (hmax : ∀ t ∈ l, BelowMax C t.before.state) (hids : ∀ k, S.Ids k → KeptApart C (.key k) l)
    (hkept : KeptApart C S l) : Ahead C S l v.state ∧ Increasing C S l := by
  induction h with
  | nil => exact ⟨fun t ht => by simp at ht, List.Pairwise.nil⟩
  | @cons l v v' call es r hr hx ih =>
    obtain ⟨hahead, hinc⟩ :=
      ih hf.tail (fun t ht => hmax t (List.mem_cons_of_mem _ ht)) (fun k hk => (hids k hk).tail)
      hkept.tail
    have hv : AllValid v.state := by
      refine (Run.valid (.inl h₀) hr fun t ht e he c u hu hmem => ?_).1
      obtain ⟨x, hx, hxe⟩ := List.mem_map.1 hmem
      exact (hf.tail.stored t ht e he c x (.unlocked hu hx)).1 hxe
    have hkeys : ∀ k, S.Ids k → One C (.key k) v.state :=
      fun k hS => Run.one hC ha hk h₀ hr hf.tail (hids k hS).tail
    have hnew := fun a (has : Asserts C ⟨v, call, es, r, v'⟩ a) hSa =>
      Ahead.asserted hC ha hk has hSa hx
      (Run.one hC ha hk h₀ hr hf.tail hkept.tail) hkeys (hmax _ List.mem_cons_self) hahead
    refine ⟨fun t ht a has hSa => ?_,
      List.pairwise_cons.2 ⟨fun t ht a a₁ has has₁ hSa hSa₁ => ?_, hinc⟩⟩
    · rcases List.mem_cons.1 ht with rfl | ht
      · exact (hnew a has hSa).2
      · exact hahead.keeps hC (Call.adds hC ha hk hx) hf hkept hv hkeys (hmax _ List.mem_cons_self)
          t ht a has hSa
    · exact (hnew a has hSa).1 t ht a₁ has₁ hSa₁

end

end

/-! ## Runs of the sample vault -/

/-- Discarding the first entry. -/
theorem passkey_discard {v : Vault} {e : In} {k : Uuid} {label : String} {n : UInt32}
    {t : Option OffsetDateTime} {rest : List KeyEntry} {m : HashMap Uuid Bytes} {b : Bytes}
    (h : FirstKey v k label n t rest m b) (he : e.Still 0) (hw : e.Works) :
    ∃ v',
    Prog.Exec Vault.Admits ((Call.discardKey (hyphenated (Uuid.rep 10)) (hyphenated k) label).run
        Crates.symbolic) v [e, e] (.ok .unit) v' ∧ OnlyMain v'.state ∧
        SampleState v'.state rest (m.del k) ∧
      v'.clock = 0 ∧ v'.throttle = L2.Throttle.ThrottleTracker.new := by
  obtain ⟨key, hu⟩ := h.state.unlocked
  obtain ⟨u, hm⟩ : ∃ u : UnlockedCompartment,
      u = ⟨sampleManifest (labelledPasskey k label n t :: rest), key⟩ := ⟨_, rfl⟩
  have hget : unlockedCompartment v.state (Uuid.rep 10) = .ok u := by
    rw [unlockedCompartment_ok, hu, HashMap.get_put_self, hm]
  have hp : prepareDiscardKey v.state (Uuid.rep 10) k label = .ok u := by
    unfold prepareDiscardKey
    simp [hget, hm, findKey, sampleManifest, labelledPasskey, samplePasskey, KeyEntry.sample]
  have hrest : (u.remove k).manifest = sampleManifest rest := by
    have hnodup := h.valid.nodup
    simp only [Manifest.keyIds, sampleManifest, List.map_cons, List.nodup_cons] at hnodup
    have hkeep : ∀ x ∈ rest, decide (x.keyId ≠ k) = true := by
      intro x hx
      exact decide_eq_true fun hk => hnodup.1 (List.mem_map.2 ⟨x, hx, hk⟩)
    rw [hm, UnlockedCompartment.remove]
    simp only [sampleManifest, Manifest.mk.injEq, true_and]
    rw [List.filter_cons_of_neg (by simp [labelledPasskey, samplePasskey, KeyEntry.sample]),
      List.filter_eq_self.2 hkeep]
  have hv : (sampleManifest rest).Valid :=
    ⟨rfl, fun x hx => h.valid.keys x (List.mem_cons_of_mem _ hx),
      (List.nodup_cons.1 h.valid.nodup).2⟩
  obtain ⟨s, hs⟩ : ∃ s, s = (v.state.setUnlocked (Uuid.rep 10) (u.remove k)).removeKeyBlob k :=
    ⟨_, rfl⟩
  have hstate : SampleState s rest (m.del k) := by
    have hset := h.state.setUnlocked (u := u.remove k) hrest
    rw [hs]
    exact ⟨hset.header, hset.unlocked, congrArg (HashMap.del · k) hset.keyBlobs⟩
  obtain ⟨hg, hsample, honly⟩ := hstate.persist (by rw [hs]; exact h.only) hv hw
  obtain ⟨w, hpersist, hws, hframe⟩ := persistLocked_goesThrough (v := v) hg
  have hclock : w.clock = 0 := (congrArg Vault.clock hframe).trans h.clock
  have hregion : discardRegion Crates.symbolic (Uuid.rep 10) k label e v =
      (.ok (), w.log (.discarded k)) := by
    unfold discardRegion
    rw [hp]
    simp only [← hs, hpersist]
  have hx :
    Prog.Exec Vault.Admits
    (discardKey Crates.symbolic (hyphenated (Uuid.rep 10)) (hyphenated k) label)
      v ([e] ++ [e]) (.ok ())
        ((w.log (.discarded k)).setRetention (L2.Retention.wipe w.retention k)) := by
    unfold discardKey
    rw [uuidParse_symbolic, uuidParse_symbolic]
    exact (exec_region_still he h.clock _ hregion).seq
      (exec_region_still he (v := w.log (.discarded k)) hclock _ rfl)
  have hw' : w.state = inMemory Crates.symbolic e s (.persist (Uuid.rep 10)) := hws
  refine ⟨_, exec_replying.2 ⟨_, hx, rfl⟩, ?_, ?_, hclock,
    (congrArg Vault.throttle hframe).trans h.throttle⟩
  · exact hw' ▸ honly
  · exact hw' ▸ hsample

/-- Flagged for its credential, it keeps its id, and its label too. -/
theorem sampleRenamed_second (uuids : Nat → Uuid) (n₁ n₂ : UInt32) :
    sampleRenamed uuids [samplePasskey (Uuid.rep 1) n₁ none]
      (Manifest.sample [labelledPasskey (Uuid.rep 2) "passkey (imported)" n₂ none]) =
      [labelledPasskey (Uuid.rep 2) "passkey (imported)" n₂ none] ∧
    Merge.remapKeys uuids (sampleLocal [samplePasskey (Uuid.rep 1) n₁ none])
      (Manifest.sample [labelledPasskey (Uuid.rep 2) "passkey (imported)" n₂ none]) = ∅ := by
  have hne : Uuid.rep 1 ≠ Uuid.rep 2 := by decide
  have hlabel : Merge.importedLabel "passkey (imported)" = "passkey (imported)" := by decide
  have hmatch : Merge.firstMatch (sampleLocal [samplePasskey (Uuid.rep 1) n₁ none])
      (labelledPasskey (Uuid.rep 2) "passkey (imported)" n₂ none) =
      some (Uuid.rep 10, samplePasskey (Uuid.rep 1) n₁ none) := by
    simp [Merge.firstMatch, Merge.entries, sampleLocal, sampleManifest, Merge.duplicateReason,
      labelledPasskey,
      samplePasskey, KeyEntry.sample, Fido2Info.sample, hne]
  have hun : ¬ Merge.KeyIdFlagged (sampleLocal [samplePasskey (Uuid.rep 1) n₁ none])
      (labelledPasskey (Uuid.rep 2) "passkey (imported)" n₂ none) := by
    rintro ⟨p, hp, hid⟩
    rw [hmatch] at hp
    cases hp
    exact hne hid
  constructor
  · have hrenamed : Merge.renamed Crates.symbolic (sampleLocal [samplePasskey (Uuid.rep 1) n₁ none])
        (uuids 0)
        (labelledPasskey (Uuid.rep 2) "passkey (imported)" n₂ none) =
        { labelledPasskey (Uuid.rep 2) "passkey (imported)" n₂ none with
          label := Merge.importedLabel "passkey (imported)" } := by
      unfold Merge.renamed
      rw [hmatch, if_neg (by simp), if_neg hun]
      rfl
    rw [hlabel] at hrenamed
    exact congrArg (· :: []) hrenamed
  · simp [Merge.remapKeys, Merge.remapOf, Manifest.sample, hun]

/-- The import of a second passkey with the same credential. -/
theorem second_import {v : Vault} {n₁ : UInt32} {b₁ : Bytes} (h : Imported v n₁ none b₁)
    (n₂ : UInt32) (b₂ : Bytes) :
    ∃ a v' m, Prog.Exec Vault.Admits ((Call.mergeReencryptDiscardIncoming (hyphenated (Uuid.rep 10))
        (jsonText (Manifest.sample [labelledPasskey (Uuid.rep 2) "passkey (imported)" n₂ none]))
        [⟨hyphenated (Uuid.rep 2), b₂⟩]).run Crates.symbolic) v [sampleNext] (.ok a) v' ∧
      FirstKey v' (Uuid.rep 1) "passkey" n₁ none
      [labelledPasskey (Uuid.rep 2) "passkey (imported)" n₂ none] m b₁ ∧
      m.get (Uuid.rep 2) = some b₂ := by
  have hne : Uuid.rep 1 ≠ Uuid.rep 2 := by decide
  obtain ⟨hrenamed, hremap⟩ := sampleRenamed_second sampleNext.uuid n₁ n₂
  have hkey := labelledPasskey_valid (Uuid.rep 2) "passkey (imported)" n₂ none
  have hm : (Manifest.sample [labelledPasskey (Uuid.rep 2) "passkey (imported)" n₂ none]).Valid :=
    ⟨rfl, fun x hx => List.mem_singleton.1 hx ▸ hkey, List.nodup_singleton _⟩
  have hall : (sampleManifest ([samplePasskey (Uuid.rep 1) n₁ none] ++
      [labelledPasskey (Uuid.rep 2) "passkey (imported)" n₂ none])).Valid := by
    refine ⟨rfl, fun x hx => ?_, ?_⟩
    · rcases List.mem_cons.1 hx with rfl | hx
      · exact samplePasskey_valid _ _ _
      · exact List.mem_singleton.1 hx ▸ hkey
    · simp [Manifest.keyIds, sampleManifest, labelledPasskey, samplePasskey, KeyEntry.sample, hne]
  obtain ⟨a, v', hx, hs, hmaster, hv⟩ :=
    h.state.merge1 (admits_sampleNext h.clock) sampleNext_works hm
    (by rw [hrenamed]; exact hall) [⟨hyphenated (Uuid.rep 2), b₂⟩]
  rw [hrenamed, hremap] at hs
  have hblobs : copyIncomingBlobs Crates.symbolic ∅ [⟨hyphenated (Uuid.rep 2), b₂⟩]
      ((∅ : HashMap Uuid Bytes).put (Uuid.rep 1) b₁) =
      ((∅ : HashMap Uuid Bytes).put (Uuid.rep 1) b₁).put (Uuid.rep 2) b₂ := by
    simp [copyIncomingBlobs, Crates.symbolic, parseHyphenated_hyphenated]
  rw [hblobs] at hs
  refine ⟨a, v', _, hx, ⟨?_, hs, hall, ?_, h.seals, ?_, ?_⟩, HashMap.get_put_self _ _ _⟩
  · unfold OnlyMain
    rw [hmaster]
    exact h.only
  · rw [HashMap.get_put_ne _ _ hne, HashMap.get_put_self]
  · rw [hv]
    rfl
  · rw [hv]
    exact h.throttle

section
variable {A : Vault → In → Prop} {v : Vault} {l : List Turn} {t : Turn} {c : Uuid} {y : KeyEntry}

theorem Brings.isMerge {C : Crates} (h : Brings C t c y) : IsMerge t.call := by
  obtain ⟨e, -, i, hi, -⟩ := h
  generalize t.call = call at hi
  cases hi <;> trivial

/-- What a merge under option 1 brings. -/
theorem Brings.renamed {target : String} {m : Manifest} {blobs : List IncomingKeyBlob}
    (h : Brings Crates.symbolic t c y) (hm : m.Valid)
    (hc : t.call = .mergeReencryptDiscardIncoming target (jsonText m) blobs) :
    ∃ uuids, y ∈ renamedKeys Crates.symbolic uuids (localCompartments t.before.state) m := by
  obtain ⟨e, -, i, hi, -, hy⟩ := h
  rw [hc] at hi
  cases hi with
  | reencrypt blobs ht hj hp =>
    rw [fromJson_jsonText hm] at hj
    cases hj
    exact ⟨_, hy⟩

theorem Brings.fido2 {target : String} {m : Manifest} {blobs : List IncomingKeyBlob}
    (h : Brings Crates.symbolic t c y) (hm : m.Valid)
    (hc : t.call = .mergeReencryptDiscardIncoming target (jsonText m) blobs) :
    ∃ x ∈ m.keys, y.fido2 = x.fido2 := by
  obtain ⟨uuids, hy⟩ := h.renamed hm hc
  obtain ⟨x, hx, i, rfl⟩ := Merge.mem_renamedList hy
  refine ⟨x, hx, ?_⟩
  unfold Merge.renamed
  split
  · rfl
  · split <;> rfl

/-- No count of a sample run is near the largest. -/
theorem sample_belowMax (h : Run Crates.symbolic A sampleVault l v) {n : Nat}
    (hl : n + l.length < 2 ^ 32 - 1)
    (hn : ∀ t ∈ l, ∀ c y f, Brings Crates.symbolic t c y → y.fido2 = some f →
      f.signCount.toNat ≤ n) :
    (∀ t ∈ l, BelowMax Crates.symbolic t.before.state) ∧ BelowMax Crates.symbolic v.state := by
  refine ⟨fun t ht c x f hx hf => ?_, fun c x f hx hf => ?_⟩
  · obtain ⟨l', hl', -, hs⟩ := Run.of_mem h ht
    have hle := Run.bounded Crates.symbolic_codec Crates.symbolic_aead Crates.symbolic_commits
      sampleVault_created hl' (fun t ht => hn t (hs.subset (List.mem_cons_of_mem _ ht))) hx hf
    have hlen := hs.length_le
    rw [List.length_cons] at hlen
    omega
  · have hle := Run.bounded Crates.symbolic_codec Crates.symbolic_aead Crates.symbolic_commits
      sampleVault_created h hn hx hf
    omega

/-- An assertion of a sample run. -/
theorem sample_asserts {v' : Vault} {es : List In} {o : GetAssertionOutcome}
    (hx : Prog.Exec A (assertCall.run Crates.symbolic) v es (.ok (.assertion o)) v') :
    Asserts Crates.symbolic ⟨v, assertCall, es, .ok (.assertion o), v'⟩
      ⟨"rp", o.response.credentialId, o.keyId, o.newSignCount⟩ := by
  obtain ⟨request, o', hp, ho, has⟩ := Asserts.of_ok hx
  rw [parse_sampleCbor] at hp
  cases hp
  cases ho
  exact has

theorem sampleImport_low {n : UInt32} {x : KeyEntry} {f : Fido2Info}
    (hx : x.fido2 = some (Fido2Info.sample "rp" "ab" n)) {target : String}
    {blobs : List IncomingKeyBlob} (hm : (Manifest.sample [x]).Valid)
    (hc : t.call = .mergeReencryptDiscardIncoming target (jsonText (Manifest.sample [x])) blobs)
    (h : Brings Crates.symbolic t c y) (hf : y.fido2 = some f) : f.signCount = n := by
  obtain ⟨z, hz, hyz⟩ := h.fido2 hm hc
  obtain rfl := List.mem_singleton.1 hz
  rw [hf, hx] at hyz
  cases hyz
  rfl

/-- The import brings the passkey. -/
theorem sampleImport_brings {n : UInt32} {b : Bytes} (ht : t.before = sampleVault)
    (hc : t.call = importCall n b) (h : Brings Crates.symbolic t c y) :
    y = samplePasskey (Uuid.rep 1) n none := by
  obtain ⟨uuids, hy⟩ := h.renamed (samplePasskeys_valid (Uuid.rep 1) n none) hc
  rw [ht, sampleVault_state.localCompartments] at hy
  rw [show renamedKeys Crates.symbolic uuids (sampleLocal []) _ =
    _ from sampleRenamed_nil uuids _] at hy
  exact List.mem_singleton.1 hy

/-- The stored entries of a run that imports one passkey. -/
theorem sampleOnly_stored (h : Run Crates.symbolic A sampleVault l v)
    (hcalls : ∀ t ∈ l, ¬ Creates t.call) {x : KeyEntry}
    (hb : ∀ t ∈ l, ∀ c y, Brings Crates.symbolic t c y → y = x) {z : KeyEntry}
    (hz : Stored Crates.symbolic v.state c z) : z.keyId = x.keyId ∧ SamePasskey z x := by
  obtain ⟨t, ht, hc | ⟨c', y, hy, hid, hsame⟩⟩ :=
    Run.origin Crates.symbolic_codec Crates.symbolic_aead
    Crates.symbolic_commits sampleVault_created h hz
  · exact absurd hc (hcalls t ht)
  · rw [← hb t ht c' y hy]
    exact ⟨hid, hsame⟩

/-- Its calls draw what nobody has. -/
theorem sampleOnly_fresh {n : UInt32} (h : Run Crates.symbolic A sampleVault l v)
    (hcalls : ∀ t ∈ l, ¬ Creates t.call) (hin : ∀ t ∈ l, ∀ e ∈ t.inputs, e = sampleNext)
    (hb : ∀ t ∈ l, ∀ c y, Brings Crates.symbolic t c y → y = samplePasskey (Uuid.rep 1) n none) :
    FreshDraws Crates.symbolic l := by
  have hid : Uuid.rep 1 ≠ sampleNext.uuid 1 := by decide
  have hcred : [0xab] ≠ (sampleNext.uuid 0).asBytes := by decide
  have hdecode : Crates.symbolic.base64Decode "ab" = some [0xab] := by decide
  have hstored : ∀ t ∈ l, ∀ c z, Stored Crates.symbolic t.before.state c z → z.keyId = Uuid.rep 1 ∧
      ∀ f, z.fido2 = some f → f.credentialIdB64 = "ab" := by
    intro t ht c z hz
    obtain ⟨l', hl', -, hs⟩ := Run.of_mem h ht
    have hsub : ∀ {t'}, t' ∈ l' → t' ∈ l := fun ht => hs.subset (List.mem_cons_of_mem _ ht)
    obtain ⟨hk, hsame⟩ :=
      sampleOnly_stored hl' (fun t ht => hcalls t (hsub ht)) (fun t ht => hb t (hsub ht)) hz
    refine ⟨hk, fun f hf => ?_⟩
    rw [SamePasskey, hf] at hsame
    exact (Prod.mk.inj (Option.some.inj hsame)).2
  refine ⟨fun t ht e he c z hz => ?_, List.pairwise_iff_forall_sublist.2 fun {t t₁} hs e he a has =>
    ?_⟩
  · obtain ⟨hk, hf⟩ := hstored t ht c z hz
    rw [hin t ht e he]
    refine ⟨hk ▸ hid, ?_⟩
    rintro rpId ⟨f, hzf, -, hc⟩
    rw [hf f hzf, hdecode] at hc
    exact hcred (Option.some.inj hc)
  · have ht₁ : t₁ ∈ l := hs.subset (by simp)
    obtain ⟨-, -, hx, -⟩ := Run.of_mem h ht₁
    obtain ⟨c, z, f, hz, hzid, hzf, -, hcid, -⟩ := has.by_entry hx
    obtain ⟨hk, hf⟩ := hstored t₁ ht₁ c z hz
    rw [hf f hzf, hdecode] at hcid
    rw [hin t (hs.subset (by simp)) e he, ← hzid, hk, ← Option.some.inj hcid]
    exact ⟨hid, hcred⟩

/-- A first import keeps apart what it brings. -/
theorem KeptApart.first {C : Crates} {x : KeyEntry} (hno : ∀ t ∈ l, ¬ IsMerge t.call)
    (hnone : ∀ c z, ¬ Stored C t.before.state c z) (hb : ∀ c y, Brings C t c y → y = x)
    (S : Scope) :
    KeptApart C S (l ++ [t]) where
  stored := by
    intro t₁ ht c y hy _ c' z hz
    rcases List.mem_append.1 ht with ht | ht
    · exact absurd hy.isMerge (hno t₁ ht)
    · rw [List.mem_singleton.1 ht] at hz
      exact absurd hz (hnone c' z)
  brought := by
    intro t₁ ht c c' y y' hy hy'
    rcases List.mem_append.1 ht with ht | ht
    · exact absurd hy.isMerge (hno t₁ ht)
    · rw [List.mem_singleton.1 ht] at hy hy'
      rw [hb c y hy, hb c' y' hy']
      exact fun _ _ => rfl
  ahead := by
    refine List.pairwise_append.2 ⟨?_, List.pairwise_singleton _ _, ?_⟩
    · exact List.pairwise_iff_forall_sublist.2 fun hs c y f a hy =>
        absurd hy.isMerge (hno _ (hs.subset (by simp)))
    · intro t₁ ht _ _ c y f a hy
      exact absurd hy.isMerge (hno t₁ ht)

/-- A run that imports one passkey and then makes and merges none. -/
theorem sampleOnly_conditions {n : UInt32} (h : Run Crates.symbolic A sampleVault (l ++ [t]) v)
    (hcalls : ∀ t' ∈ l ++ [t], ¬ Creates t'.call ∧ ∀ e ∈ t'.inputs, e = sampleNext)
    (hno : ∀ t' ∈ l, ¬ IsMerge t'.call) (ht : t.before = sampleVault)
    (hb : ∀ c y, Brings Crates.symbolic t c y → y = samplePasskey (Uuid.rep 1) n none)
    (hn : n.toNat + (l ++ [t]).length < 2 ^ 32 - 1) : FreshDraws Crates.symbolic (l ++ [t]) ∧
      (∀ t' ∈ l ++ [t], BelowMax Crates.symbolic t'.before.state) ∧ ∀ S,
      KeptApart Crates.symbolic S (l ++ [t]) := by
  have hbrings : ∀ t' ∈ l ++ [t], ∀ c y, Brings Crates.symbolic t' c y →
      y = samplePasskey (Uuid.rep 1) n none := by
    intro t' ht' c y hy
    rcases List.mem_append.1 ht' with ht' | ht'
    · exact absurd hy.isMerge (hno t' ht')
    · exact hb c y (List.mem_singleton.1 ht' ▸ hy)
  refine ⟨sampleOnly_fresh h (fun t' ht' => (hcalls t' ht').1) (fun t' ht' => (hcalls t' ht').2)
    hbrings,
    (sample_belowMax h hn fun t' ht' c y f hy hf => ?_).1, KeptApart.first hno (fun c z => ?_) hb⟩
  · rw [hbrings t' ht' c y hy] at hf
    cases hf
    exact Nat.le_refl _
  · rw [ht]
    exact created_stored Crates.symbolic_codec Crates.symbolic_aead Crates.symbolic_commits
      sampleVault_created c z

/-- **The counts an entry gives out increase**, also of one of two that share
a passkey; and those of a credential do when no merge adds a second copy or
brings back an older one. -/
theorem counts_increase {C : Crates} {A : Vault → In → Prop} (hC : C.CodecLaws) (ha : C.AeadLaws)
    (hk : C.AeadCommits) {v₀ v : Vault} {l : List Turn} (h₀ : Created C v₀) (h : Run C A v₀ l v)
    (hf : FreshDraws C l) (hmax : ∀ t ∈ l, BelowMax C t.before.state) :
    (∀ k, KeptApart C (.key k) l → Increasing C (.key k) l) ∧
    ((∀ k, KeptApart C (.key k) l) → ∀ rpId credentialId,
      KeptApart C (.credential rpId credentialId) l →
      Increasing C (.credential rpId credentialId) l) := by
  refine ⟨fun k hkept => ?_, fun hkeys rpId credentialId hkept => ?_⟩
  · have hids : ∀ k', (Scope.key k).Ids k' → KeptApart C (.key k') l := by
      rintro _ rfl
      exact hkept
    exact (Run.increasing hC ha hk h₀ h hf hmax hids hkept).2
  · exact (Run.increasing hC ha hk h₀ h hf hmax (fun k _ => hkeys k) hkept).2

/-- An imported passkey asserts twice. -/
theorem counts_increase_sample : ∃ v₀ v l t t₁ a a₁, Created Crates.symbolic v₀ ∧
    Run Crates.symbolic Vault.Admits v₀ (t :: t₁ :: l) v ∧
    Asserts Crates.symbolic t a ∧ Asserts Crates.symbolic t₁ a₁ ∧ a₁.count = 6 ∧ a.count = 7 ∧
    Increasing Crates.symbolic (.key (Uuid.rep 1)) (t :: t₁ :: l) ∧
    Increasing Crates.symbolic (.credential "rp" [0xab]) (t :: t₁ :: l) := by
  obtain ⟨b, hb⟩ := sealsSample
  obtain ⟨a₁, v₁, h₁, hv₁, -⟩ := sampleVault_blank.import 5 hb
  obtain ⟨v₂, h₂, hv₂, hc₂⟩ := hv₁.first.unlockKey sampleNext_still
  obtain ⟨o₁, v₃, h₃, hk₁, hn₁, hcred₁, hv₃, hc₃⟩ := passkey_asserts hv₂ hc₂
  obtain ⟨o₂, v₄, h₄, hk₂, hn₂, hcred₂, -⟩ := passkey_asserts hv₃ hc₃
  have hrun :=
    ((((Run.nil (C := Crates.symbolic) (A := Vault.Admits)).cons h₁).cons h₂).cons h₃).cons h₄
  obtain ⟨hfresh, hmax, hkept⟩ := sampleOnly_conditions (l := [_, _, _]) hrun
    (by simp [Creates, assertCall, importCall]) (by simp [IsMerge, assertCall]) rfl
    (fun c y => sampleImport_brings rfl rfl) (by simp)
  obtain ⟨hkey, hcred⟩ :=
    counts_increase Crates.symbolic_codec Crates.symbolic_aead Crates.symbolic_commits
    sampleVault_created hrun hfresh hmax
  exact ⟨sampleVault, v₄, _, _, _, _, _, sampleVault_created, hrun, sample_asserts h₄,
    sample_asserts h₃, hn₁,
    by rw [hn₂]; rfl, hkey _ (hkept _), hcred (fun k => hkept _) _ _ (hkept _)⟩

theorem not_increasing {C : Crates} {S : Scope} {t₁ : Turn} {a a₁ : Assertion} (has : Asserts C t a)
    (has₁ : Asserts C t₁ a₁) (ht : t₁ ∈ l) (hS : S.Answer a) (hS₁ : S.Answer a₁)
    (hn : a₁.count = a.count) : ¬ Increasing C S (t :: l) := by
  intro h
  have hlt := (List.pairwise_cons.1 h).1 t₁ ht a a₁ has has₁ hS hS₁
  rw [hn] at hlt
  exact UInt32.lt_irrefl _ hlt

/-- Two copies of a passkey give out the same count. -/
theorem copies_repeat : ∃ l v, Run Crates.symbolic Vault.Admits sampleVault l v ∧
    (∀ t ∈ l, BelowMax Crates.symbolic t.before.state) ∧ BelowMax Crates.symbolic v.state ∧
    (∃ t ∈ l, ¬ One Crates.symbolic (.credential "rp" [0xab]) t.before.state) ∧
    ¬ Increasing Crates.symbolic (.credential "rp" [0xab]) l := by
  obtain ⟨b₂, -, hb₂⟩ :=
    sealKey_symbolic sampleNext_works sampleSecret_length "pw" (Uuid.rep 2) .ed25519
    "passkey (imported)"
  obtain ⟨b₁, hb₁⟩ := sealsSample
  have hkey := labelledPasskey_valid (Uuid.rep 2) "passkey (imported)" 5 none
  have hm₂ : (Manifest.sample [labelledPasskey (Uuid.rep 2) "passkey (imported)" 5 none]).Valid :=
    ⟨rfl, fun x hx => List.mem_singleton.1 hx ▸ hkey, List.nodup_singleton _⟩
  obtain ⟨a₁, v₁, h₁, hv₁, -⟩ := sampleVault_blank.import 5 hb₁
  obtain ⟨a₂, v₂, m, h₂, hv₂, hm⟩ := second_import hv₁ 5 b₂
  obtain ⟨v₃, h₃, hv₃, hc₃⟩ := hv₂.unlockKey sampleNext_still
  obtain ⟨o₁, v₄, h₄, hk₁, hn₁, hcred₁, hv₄, -⟩ := passkey_asserts hv₃ hc₃
  obtain ⟨v₅, h₅, honly, hs₅, hclock, hthrottle⟩ :=
    passkey_discard hv₄ sampleNext_still sampleNext_works
  have hv₅ : FirstKey v₅ (Uuid.rep 2) "passkey (imported)" 5 none [] (m.del (Uuid.rep 1)) b₂ :=
    ⟨honly, hs₅,
      ⟨rfl, hm₂.keys, hm₂.nodup⟩, by rw [HashMap.get_del_ne _ (by decide),
      hm], hb₂, hclock, hthrottle⟩
  obtain ⟨v₆, h₆, hv₆, hc₆⟩ := hv₅.unlockKey sampleNext_still
  obtain ⟨o₂, v₇, h₇, hk₂, hn₂, hcred₂, -⟩ := passkey_asserts hv₆ hc₆
  have hrun :=
    (((((((Run.nil (C := Crates.symbolic) (A := Vault.Admits)).cons h₁).cons h₂).cons h₃).cons
    h₄).cons h₅).cons h₆).cons h₇
  obtain ⟨hbefore, hafter⟩ := sample_belowMax hrun (n := 5) (by simp) fun t ht c y f hb hf => by
    simp only [List.mem_cons, List.not_mem_nil, or_false] at ht
    rcases ht with rfl | rfl | rfl | rfl | rfl | rfl | rfl
    · exact absurd hb.isMerge id
    · exact absurd hb.isMerge id
    · exact absurd hb.isMerge id
    · exact absurd hb.isMerge id
    · exact absurd hb.isMerge id
    · rw [sampleImport_low rfl hm₂ rfl hb hf]
      decide
    · rw [sampleImport_low rfl (samplePasskeys_valid (Uuid.rep 1) 5 none) rfl hb hf]
      decide
  refine ⟨_, v₇, hrun, hbefore, hafter,
    ⟨_, .tail _ (.tail _ (.tail _ (.tail _ (.head _)))), fun hone => ?_⟩, ?_⟩
  · obtain ⟨key, hu⟩ := hv₂.state.unlocked
    have hget : v₂.state.unlocked.get (Uuid.rep 10) = some ⟨sampleManifest
        [labelledPasskey (Uuid.rep 1) "passkey" 5 none,
          labelledPasskey (Uuid.rep 2) "passkey (imported)" 5 none],
        key⟩ := by
      rw [hu, HashMap.get_put_self]
    have hdecode : Crates.symbolic.base64Decode "ab" = some [0xab] := by decide
    have hid := (hone _ _ (labelledPasskey (Uuid.rep 1) "passkey" 5 none)
      (labelledPasskey (Uuid.rep 2) "passkey (imported)" 5 none)
        (.unlocked hget (by simp [sampleManifest]))
      (.unlocked hget (by simp [sampleManifest])) ⟨_, rfl, rfl, hdecode⟩ ⟨_, rfl, rfl, hdecode⟩).2
    exact absurd hid (by decide)
  · exact not_increasing (sample_asserts h₇) (sample_asserts h₄) (.tail _ (.tail _ (.head _)))
      ⟨rfl, hcred₂⟩
      ⟨rfl, hcred₁⟩ (hn₁.trans hn₂.symm)

/-- A passkey that is discarded and imported again gives out the same count. -/
theorem reimport_repeats : ∃ l v, Run Crates.symbolic Vault.Admits sampleVault l v ∧
    (∀ t ∈ l, BelowMax Crates.symbolic t.before.state) ∧ BelowMax Crates.symbolic v.state ∧
    ¬ Increasing Crates.symbolic (.key (Uuid.rep 1)) l ∧
    ¬ Increasing Crates.symbolic (.credential "rp" [0xab]) l := by
  obtain ⟨b, hb⟩ := sealsSample
  obtain ⟨a₁, v₁, h₁, hv₁, -⟩ := sampleVault_blank.import 5 hb
  obtain ⟨v₂, h₂, hv₂, hc₂⟩ := hv₁.first.unlockKey sampleNext_still
  obtain ⟨o₁, v₃, h₃, hk₁, hn₁, hcred₁, hv₃, -⟩ := passkey_asserts hv₂ hc₂
  obtain ⟨v₄, h₄, honly, hs₄, hclock, hthrottle⟩ :=
    passkey_discard hv₃ sampleNext_still sampleNext_works
  have hempty : ((∅ : HashMap Uuid Bytes).put (Uuid.rep 1) b).del (Uuid.rep 1) = ∅ := by
    refine HashMap.ext_get fun k => ?_
    by_cases hk : k = Uuid.rep 1
    · rw [hk, HashMap.get_del_self, HashMap.get_empty]
    · rw [HashMap.get_del_ne _ hk, HashMap.get_put_ne _ _ hk]
  rw [hempty] at hs₄
  have hv₄ : Blank v₄ := ⟨honly, hs₄, hclock, hthrottle⟩
  obtain ⟨a₅, v₅, h₅, hv₅, -⟩ := hv₄.import 5 hb
  obtain ⟨v₆, h₆, hv₆, hc₆⟩ := hv₅.first.unlockKey sampleNext_still
  obtain ⟨o₂, v₇, h₇, hk₂, hn₂, hcred₂, -⟩ := passkey_asserts hv₆ hc₆
  have hrun :=
    (((((((Run.nil (C := Crates.symbolic) (A := Vault.Admits)).cons h₁).cons h₂).cons h₃).cons
    h₄).cons h₅).cons h₆).cons h₇
  have hlow := samplePasskeys_valid (Uuid.rep 1) 5 none
  obtain ⟨hbefore, hafter⟩ := sample_belowMax hrun (n := 5) (by simp) fun t ht c y f hb hf => by
    simp only [List.mem_cons, List.not_mem_nil, or_false] at ht
    rcases ht with rfl | rfl | rfl | rfl | rfl | rfl | rfl
    · exact absurd hb.isMerge id
    · exact absurd hb.isMerge id
    · rw [sampleImport_low rfl hlow rfl hb hf]
      decide
    · exact absurd hb.isMerge id
    · exact absurd hb.isMerge id
    · exact absurd hb.isMerge id
    · rw [sampleImport_low rfl hlow rfl hb hf]
      decide
  have has₁ := sample_asserts (v := v₂) h₃
  have has₂ := sample_asserts (v := v₆) h₇
  have hn : o₁.newSignCount = o₂.newSignCount := hn₁.trans hn₂.symm
  refine ⟨_, v₇, hrun, hbefore, hafter, not_increasing has₂ has₁ ?_ hk₂ hk₁ hn,
    not_increasing has₂ has₁ ?_ ⟨rfl, hcred₂⟩ ⟨rfl, hcred₁⟩ hn⟩
  · exact .tail _ (.tail _ (.tail _ (.head _)))
  · exact .tail _ (.tail _ (.tail _ (.head _)))

/-- **Counts that are given out twice**: by two copies of a passkey, and by one
that was discarded and is imported again. -/
theorem counts_repeat : ∃ v₀, Created Crates.symbolic v₀ ∧
    (∃ l v, Run Crates.symbolic Vault.Admits v₀ l v ∧
      (∀ t ∈ l, BelowMax Crates.symbolic t.before.state) ∧
      BelowMax Crates.symbolic v.state ∧
      (∃ t ∈ l, ¬ One Crates.symbolic (.credential "rp" [0xab]) t.before.state) ∧
      ¬ Increasing Crates.symbolic (.credential "rp" [0xab]) l) ∧
    ∃ l v, Run Crates.symbolic Vault.Admits v₀ l v ∧
    (∀ t ∈ l, BelowMax Crates.symbolic t.before.state) ∧
      BelowMax Crates.symbolic v.state ∧ ¬ Increasing Crates.symbolic (.key (Uuid.rep 1)) l ∧
      ¬ Increasing Crates.symbolic (.credential "rp" [0xab]) l :=
  ⟨sampleVault, sampleVault_created, copies_repeat, reimport_repeats⟩

end

end VaultSigner.L5
