import VaultSigner.L5Runs.Increasing

/-!
# Sign counts at the limit (`handle_get_assertion`)

`new_sign_count` is `chosen.sign_count.wrapping_add(1)`, and a manifest that is
accepted has any `u32` for a count. The count of a key is the one it came with
and one more for each assertion, modulo `2 ^ 32`.

Results:
* `Sole.asserted`: one assertion.
* `Series.counts`: the count after a series.
* `count_grows_iff`: a series never goes back exactly as long as it stays
  below `2 ^ 32`.
* `count_wraps`: the largest count is followed by 0.
-/
namespace VaultSigner.L5
open VaultSigner.Core VaultSigner.L1 VaultSigner.L3 VaultSigner.L4

section
variable (C : Crates)

/-- The entry of `k` has the count `n`, in every copy. -/
structure CountIs (k : Uuid) (s : VaultState) (n : UInt32) : Prop where
  stored : ∃ c x f, Stored C s c x ∧ x.keyId = k ∧ x.fido2 = some f
  all : ∀ c x f, Stored C s c x → x.keyId = k → x.fido2 = some f → f.signCount = n

/-- An assertion by `k` reports and stores more than was stored. -/
def Grows (k : Uuid) (t : Turn) : Prop :=
  ∀ a, Asserts C t a → a.keyId = k → ∀ n, CountIs C k t.before.state n →
    n < a.count ∧ ∃ n', CountIs C k t.after.state n' ∧ n < n'

/-- The call is none of `k`'s assertions, and brings no entry. -/
inductive Aside (k : Uuid) (t : Turn) : Prop
  | keeps (hcreates : ¬ Creates t.call) (hmerges : ¬ IsMerge t.call) (hasks : ¬ Asks t.call)
  | other (a : Assertion) (h : Asserts C t a) (hk : a.keyId ≠ k)

/-- A series of `n` assertions by `k`, with other calls in between (newest
first). -/
inductive Series (k : Uuid) : Nat → List Turn → Prop
  | nil : Series k 0 []
  | asserted {n : Nat} {l : List Turn} {t : Turn} (h : Series k n l) (a : Assertion)
      (ha : Asserts C t a)
      (hk : a.keyId = k) : Series k (n + 1) (t :: l)
  | aside {n : Nat} {l : List Turn} {t : Turn} (h : Series k n l) (ht : Aside C k t) :
      Series k n (t :: l)

/-- Every copy of `k` is the entry that the manifest `m` of the compartment `c`
has for it. -/
def OnlyIn (k : Uuid) (s : VaultState) (c : Uuid) (m : Manifest) : Prop :=
  ∀ c' x, Stored C s c' x → x.keyId = k → c' = c ∧ x ∈ m.keys

end

section
variable {C : Crates} {A : Vault → In → Prop} {k c : Uuid} {s : VaultState} {t : Turn}
  {l : List Turn}

theorem CountIs.eq {n n' : UInt32} (h : CountIs C k s n) (h' : CountIs C k s n') : n = n' := by
  obtain ⟨c, x, f, hx, hid, hf⟩ := h.stored
  exact (h.all c x f hx hid hf).symm.trans (h'.all c x f hx hid hf)

/-- `k` has one entry at most, and the count `n` if it has one. -/
structure Sole (C : Crates) (k : Uuid) (n : UInt32) (s : VaultState) : Prop where
  one : One C (.key k) s
  all : ∀ c x f, Stored C s c x → x.keyId = k → x.fido2 = some f → f.signCount = n

theorem OnlyIn.sole {m : Manifest} {x : KeyEntry} {f : Fido2Info} (h : OnlyIn C x.keyId s c m)
    (hids : (m.keys.map KeyEntry.keyId).Nodup) (hx : x ∈ m.keys) (hf : x.fido2 = some f) :
    Sole C x.keyId f.signCount s where
  one := by
    intro c₁ c₂ x₁ x₂ h₁ h₂ hk₁ hk₂
    exact ⟨(h c₂ x₂ h₂ hk₂).1.trans (h c₁ x₁ h₁ hk₁).1.symm, hk₂.trans hk₁.symm⟩
  all := by
    intro c' y g hy hid hg
    obtain rfl : y = x := List.inj_on_of_nodup_map hids (h c' y hy hid).2 hx hid
    rw [hf] at hg
    cases hg
    rfl

/-! ## One call -/

/-- What is stored after the call was stored before, or is not of `k`. -/
theorem Sole.mono {s' : VaultState} {n : UInt32} (h : Sole C k n s)
    (hs : ∀ c x, Stored C s' c x → x.keyId = k → ∃ y, Stored C s c y ∧ y.keyId = k ∧
      x.fido2 = y.fido2) :
    Sole C k n s' where
  one := by
    intro c₁ c₂ x₁ x₂ h₁ h₂ hk₁ hk₂
    obtain ⟨y₁, hy₁, hid₁, -⟩ := hs c₁ x₁ h₁ hk₁
    obtain ⟨y₂, hy₂, hid₂, -⟩ := hs c₂ x₂ h₂ hk₂
    exact ⟨(h.one c₁ c₂ y₁ y₂ hy₁ hy₂ hid₁ hid₂).1, hk₂.trans hk₁.symm⟩
  all := by
    intro c x f hx hid hf
    obtain ⟨y, hy, hyk, hxy⟩ := hs c x hx hid
    exact h.all c y f hy hyk (hxy ▸ hf)

/-- An assertion stores what was stored, but for the key that asserted. -/
theorem Asserts.adds {a : Assertion} (h : Asserts C t a) (hC : C.CodecLaws) (ha : C.AeadLaws)
    (hk : C.AeadCommits) (hx : Prog.Exec A (t.call.run C) t.before t.inputs t.result t.after)
    {x : KeyEntry} (hs : Stored C t.after.state c x) :
    Stored C t.before.state c x ∨ x.keyId = a.keyId ∧
      ∃ y, Stored C t.before.state c y ∧ y.keyId = a.keyId ∧
        x.fido2 = y.fido2.map fun f => { f with signCount := a.count } := by
  obtain ⟨cbor, up, uv, request, o, hcall, hp, hr, -, rfl⟩ := h.made
  rw [hcall, hr] at hx
  obtain ⟨request', o', hp', ho, -, hby, e, d, hd, hg, hstate⟩ := getAssertion_done hx
  cases ho
  rw [hstate] at hs
  replace hs := stored_inMemory hC ha hk hs
  cases hfind : findCompartmentForKey e.orders t.before.state o.keyId with
  | none =>
    unfold commitEdit at hd
    rw [hfind] at hd
    cases hd
    exact .inl hs
  | some c₀ =>
    obtain ⟨u, hu, rfl⟩ := commitEdit_ok hd hfind
    have hput : c = c₀ ∧ x ∈ (u.asserted o.keyId o.newSignCount e.utc).manifest.keys ∨
        Stored C t.before.state c x := hs.of_unlocked rfl rfl
    rcases hput with ⟨rfl, hmem⟩ | hs
    · rcases mem_modifyFirst hmem with hmem | ⟨y, hy, hyk, rfl⟩
      · exact .inl (.unlocked hu hmem)
      · have hid : y.keyId = o.keyId := by simpa using hyk
        exact .inr ⟨hid, y, .unlocked hu hy, hid, rfl⟩
    · exact .inl hs

theorem Aside.sole (h : Aside C k t) (hC : C.CodecLaws) (ha : C.AeadLaws) (hk : C.AeadCommits)
    (hx : Prog.Exec A (t.call.run C) t.before t.inputs t.result t.after) {n : UInt32}
    (hn : Sole C k n t.before.state) : Sole C k n t.after.state := by
  refine hn.mono fun c x hs hid => ?_
  cases h with
  | keeps hcreates hmerges hasks =>
    obtain ⟨y, hy, hxy, hf⟩ := Call.keeps hC ha hk hx hcreates hmerges hasks c x hs
    exact ⟨y, hy, hxy.symm.trans hid, hf⟩
  | other a has hne =>
    rcases has.adds hC ha hk hx hs with hs | ⟨hxa, -⟩
    · exact ⟨x, hs, hid, rfl⟩
    · exact absurd (hxa.symm.trans hid) hne

/-- The entry that asserted is stored, with the count it gave out. -/
theorem Asserts.stored {a : Assertion} (h : Asserts C t a)
    (hx : Prog.Exec A (t.call.run C) t.before t.inputs t.result t.after)
    (hone : One C (.key a.keyId) t.before.state) :
    ∃ c x f, Stored C t.after.state c x ∧ x.keyId = a.keyId ∧ x.fido2 = some f := by
  obtain ⟨cbor, up, uv, request, o, hcall, hp, hr, -, rfl⟩ := h.made
  rw [hcall, hr] at hx
  obtain ⟨request', o', hp', ho, -, hby, e, d, hd, hg, hstate⟩ := getAssertion_done hx
  cases ho
  obtain ⟨c, u, x, f, hu, hmem, hid, hf, -, rfl⟩ := commitEdit_one hby hone hd
  have hget : t.after.state.unlocked.get c = some (u.asserted o.keyId o.newSignCount e.utc) := by
    rw [hstate, (inMemory_frame C e _ _).1]
    exact HashMap.get_put_self _ _ _
  refine ⟨c, KeyEntry.asserted o.newSignCount e.utc x, { f with signCount := o.newSignCount },
    .unlocked hget ?_, hid,
    by rw [KeyEntry.asserted, hf]; rfl⟩
  simp only [UnlockedCompartment.asserted, modifyFirst_eq_map (asserted_nodup hg)]
  exact List.mem_map.2 ⟨x, hmem, by rw [if_pos hid]⟩

/-- **One assertion**: the count goes up by one, modulo `2 ^ 32`. -/
theorem Sole.asserted {a : Assertion} {n : UInt32} (hn : Sole C k n t.before.state)
    (hC : C.CodecLaws) (ha : C.AeadLaws) (hk : C.AeadCommits) (h : Asserts C t a)
    (hid : a.keyId = k) (hx : Prog.Exec A (t.call.run C) t.before t.inputs t.result t.after) :
    a.count = n + 1 ∧ CountIs C k t.before.state n ∧ CountIs C k t.after.state (n + 1) ∧
      Sole C k (n + 1) t.after.state := by
  subst hid
  obtain ⟨c, x, f, hs, hxa, hf, -, -, hcount⟩ := h.by_entry hx
  rw [hn.all c x f hs hxa hf] at hcount
  have hall : ∀ c x f, Stored C t.after.state c x → x.keyId = a.keyId → x.fido2 = some f →
      f.signCount = n + 1 := by
    intro c x f hs hid hf
    rcases h.counted hC ha hk hx hn.one hs hf with ⟨-, hfn⟩ | ⟨hne, -⟩
    · exact hfn.trans hcount
    · exact absurd hid hne
  refine ⟨hcount, ⟨⟨c, x, f, hs, hxa, hf⟩, hn.all⟩, ⟨h.stored hx hn.one, hall⟩, ⟨?_, hall⟩⟩
  refine hn.one.of_same fun c x hs => ?_
  rcases h.adds hC ha hk hx hs with hs | ⟨hxa, y, hy, hya, -⟩
  · exact ⟨x, hs, rfl, Iff.rfl⟩
  · exact ⟨y, hy, hxa.trans hya.symm, iff_of_true hxa hya⟩

theorem Asserts.unique {a a' : Assertion} (h : Asserts C t a) (h' : Asserts C t a') : a = a' := by
  obtain ⟨cbor, up, uv, request, o, hcall, hp, hr, -, rfl⟩ := h.made
  obtain ⟨cbor', up', uv', request', o', hcall', hp', hr', -, rfl⟩ := h'.made
  rw [hcall] at hcall'
  cases hcall'
  rw [hp] at hp'
  rw [hr] at hr'
  cases hp'
  cases hr'
  rfl

theorem Aside.grows (h : Aside C k t) : Grows C k t := by
  intro a has hid
  cases h with
  | keeps hcreates hmerges hasks =>
    obtain ⟨cbor, up, uv, request, o, hcall, -⟩ := has.made
    rw [hcall] at hasks
    exact absurd trivial hasks
  | other a' has' hne => exact absurd (has'.unique has ▸ hid) hne

theorem Sole.grows_iff {a : Assertion} {n : UInt32} (hn : Sole C k n t.before.state)
    (hC : C.CodecLaws) (ha : C.AeadLaws) (hk : C.AeadCommits) (h : Asserts C t a)
    (hid : a.keyId = k) (hx : Prog.Exec A (t.call.run C) t.before t.inputs t.result t.after) :
    Grows C k t ↔ n < n + 1 := by
  obtain ⟨hcount, hbefore, hafter, -⟩ := hn.asserted hC ha hk h hid hx
  refine ⟨fun hgrows => hcount ▸ (hgrows a h hid n hbefore).1, fun hlt a' h' _ n' hn' => ?_⟩
  obtain rfl := h.unique h'
  obtain rfl := hbefore.eq hn'
  exact ⟨hcount ▸ hlt, n + 1, hafter, hlt⟩

/-! ## A series -/

theorem lt_succ_iff {n : UInt32} : n < n + 1 ↔ n.toNat + 1 < 2 ^ 32 := by
  have hlt := n.toNat_lt
  rw [UInt32.lt_iff_toNat_lt, UInt32.toNat_add, UInt32.toNat_one]
  omega

/-- **The count after a series**, modulo `2 ^ 32`. -/
theorem Series.counts {v₀ v : Vault} {n : Nat} {m : UInt32} (hs : Series C k n l) (hC : C.CodecLaws)
    (ha : C.AeadLaws) (hk : C.AeadCommits) (h : Run C A v₀ l v) (hm : Sole C k m v₀.state) :
    Sole C k (m + UInt32.ofNat n) v.state := by
  induction hs generalizing v with
  | nil =>
    cases h
    simpa using hm
  | asserted hs a has hid ih =>
    cases h with
    | cons hr hx =>
      have hstep := ((ih hr).asserted hC ha hk has hid hx).2.2.2
      rwa [UInt32.add_assoc, ← UInt32.ofNat_one, ← UInt32.ofNat_add] at hstep
  | aside hs ht ih =>
    cases h with
    | cons hr hx => exact ht.sole hC ha hk hx (ih hr)

theorem Series.grows_iff {v₀ v : Vault} {n : Nat} {m : UInt32} (hs : Series C k n l)
    (hC : C.CodecLaws) (ha : C.AeadLaws) (hk : C.AeadCommits) (h : Run C A v₀ l v)
    (hm : Sole C k m v₀.state) : (∀ t ∈ l, Grows C k t) ↔ m.toNat + n < 2 ^ 32 := by
  induction hs generalizing v with
  | nil => exact ⟨fun _ => m.toNat_lt, fun _ t ht => absurd ht (List.not_mem_nil)⟩
  | @asserted n l t hs a has hid ih =>
    cases h with
    | cons hr hx =>
      have hstep := (hs.counts hC ha hk hr hm).grows_iff hC ha hk has hid hx
      rw [List.forall_mem_cons, hstep, ih hr, lt_succ_iff, UInt32.toNat_add, UInt32.toNat_ofNat']
      omega
  | aside hs ht ih =>
    cases h with
    | cons hr hx => rw [List.forall_mem_cons, ih hr, and_iff_right ht.grows]

end

/-! ## The sample vault's passkey -/

theorem sampleImport_onlyIn {n : UInt32} {b : Bytes} {a : Reply} {v : Vault}
    (hx : Prog.Exec Vault.Admits ((importCall n b).run Crates.symbolic) sampleVault [sampleNext]
      (.ok a) v) :
    ∃ c, OnlyIn Crates.symbolic (Uuid.rep 1) v.state c
    (Manifest.sample [samplePasskey (Uuid.rep 1) n none]) := by
  have hnone :=
    created_stored Crates.symbolic_codec Crates.symbolic_aead Crates.symbolic_commits
    sampleVault_created
  cases Call.adds Crates.symbolic_codec Crates.symbolic_aead Crates.symbolic_commits hx with
  | nothing h =>
    refine ⟨Uuid.rep 10, fun c x hs => ?_⟩
    obtain ⟨y, hy, -⟩ := h c x hs
    exact absurd hy (hnone c y)
  | count rpId o c₀ u ho hu h =>
    obtain ⟨c, w, x, f, hw, hmem, -⟩ := ho.entry
    exact absurd (.unlocked hw hmem) (hnone c x)
  | entry hc => exact absurd hc id
  | imports e he i hi h =>
    refine ⟨i.target, fun c x hs _ => ?_⟩
    obtain ⟨rfl, hmem⟩ := (h c x hs).resolve_left (hnone c x)
    have hbrings : Brings Crates.symbolic ⟨sampleVault, importCall n b, [sampleNext], .ok a, v⟩
        i.target x :=
      ⟨e, he, i, hi, rfl, hmem⟩
    obtain rfl := sampleImport_brings rfl rfl hbrings
    exact ⟨rfl, List.mem_singleton_self _⟩

/-- An imported passkey is cached and asserts. -/
theorem sampleSeries (n : UInt32) :
    ∃ c v₀ v l₀ t l, Run Crates.symbolic Vault.Admits sampleVault l₀ v₀ ∧
    OnlyIn Crates.symbolic (Uuid.rep 1) v₀.state c
    (Manifest.sample [samplePasskey (Uuid.rep 1) n none]) ∧
    Run Crates.symbolic Vault.Admits v₀ (t :: l) v ∧
    Series Crates.symbolic (Uuid.rep 1) 1 (t :: l) ∧
    ∃ a, Asserts Crates.symbolic t a ∧ a.keyId = Uuid.rep 1 ∧ a.count = n + 1 ∧
      CountIs Crates.symbolic (Uuid.rep 1) t.before.state n ∧
      CountIs Crates.symbolic (Uuid.rep 1) t.after.state (n + 1) := by
  obtain ⟨b, hb⟩ := sealsSample
  obtain ⟨a, v₀, h₀, hv₀, -⟩ := sampleVault_blank.import n hb
  obtain ⟨v₁, h₁, hv₁, hc₁⟩ := hv₀.first.unlockKey sampleNext_still
  obtain ⟨o, v₂, h₂, hid, -⟩ := passkey_asserts hv₁ hc₁
  obtain ⟨c, honly⟩ := sampleImport_onlyIn h₀
  have has := sample_asserts h₂
  have hsole : Sole Crates.symbolic (Uuid.rep 1) n v₀.state :=
    honly.sole (samplePasskeys_valid (Uuid.rep 1) n none).nodup (List.mem_singleton_self _) rfl
  have haside : ∀ es, Aside Crates.symbolic (Uuid.rep 1) ⟨v₀, .unlockKey (hyphenated (Uuid.rep 10))
      (hyphenated (Uuid.rep 1)) "pw" 300, es, .ok .unit, v₁⟩ := fun es => .keeps id id id
  have hn :=
    (haside _).sole Crates.symbolic_codec Crates.symbolic_aead Crates.symbolic_commits h₁ hsole
  obtain ⟨hcount, hbefore, hafter, -⟩ := hn.asserted Crates.symbolic_codec Crates.symbolic_aead
    Crates.symbolic_commits has hid h₂
  exact ⟨c, v₀, v₂, _, _, _, Run.nil.cons h₀, honly, (Run.nil.cons h₁).cons h₂,
    (Series.nil.aside (haside _)).asserted _ has hid, _, has, hid,
    hcount, hbefore, hafter⟩

/-- **Sign counts grow as long as there is room**: a series of assertions by a
key whose count a manifest brought reports and stores a higher count each time,
exactly if the count it came with and the assertions stay below `2 ^ 32`. -/
theorem count_grows_iff {C : Crates} {A : Vault → In → Prop} {c : Uuid} {l : List Turn}
    {v₀ v : Vault} {n : Nat} {json : Bytes} {m : Manifest} {x : KeyEntry} {f : Fido2Info}
    (hC : C.CodecLaws) (ha : C.AeadLaws) (hk : C.AeadCommits)
    (hm : Manifest.fromJson C json = .ok m) (hx : x ∈ m.keys) (hf : x.fido2 = some f)
    (honly : OnlyIn C x.keyId v₀.state c m) (h : Run C A v₀ l v) (hs : Series C x.keyId n l) :
    (∀ t ∈ l, Grows C x.keyId t) ↔ f.signCount.toNat + n < 2 ^ 32 :=
  hs.grows_iff hC ha hk h (honly.sole ((Manifest.fromJson_ok C _ _).1 hm).2.nodup hx hf)

/-- A passkey that came with a count of 5. -/
theorem count_grows_iff_sample : ∃ c v₀ v t l, Run Crates.symbolic Vault.Admits v₀ (t :: l) v ∧
    OnlyIn Crates.symbolic (Uuid.rep 1) v₀.state c
    (Manifest.sample [samplePasskey (Uuid.rep 1) 5 none]) ∧
    Series Crates.symbolic (Uuid.rep 1) 1 (t :: l) ∧
    (∃ a, Asserts Crates.symbolic t a ∧ a.count = 6) ∧
    ∀ t' ∈ t :: l, Grows Crates.symbolic (Uuid.rep 1) t' := by
  obtain ⟨c, v₀, v, -, t, l, -, honly, hrun, hs, a, has, -, hcount, -⟩ := sampleSeries 5
  exact ⟨c, v₀, v, t, l, hrun, honly, hs, ⟨a, has, hcount⟩,
    (count_grows_iff Crates.symbolic_codec Crates.symbolic_aead Crates.symbolic_commits
      (fromJson_jsonText (samplePasskeys_valid (Uuid.rep 1) 5 none)) (List.mem_singleton_self _)
        rfl honly hrun hs).2
      (by decide)⟩

/-- **The largest count is followed by 0**: in a manifest that is accepted, the
passkey has the count `2 ^ 32 - 1`. -/
theorem count_wraps : ∃ json m x f c l₀ v₀ l v, Created Crates.symbolic sampleVault ∧
    Run Crates.symbolic Vault.Admits sampleVault l₀ v₀ ∧
    Manifest.fromJson Crates.symbolic json = .ok m ∧
    x ∈ m.keys ∧ x.fido2 = some f ∧ f.signCount = 4294967295 ∧
    OnlyIn Crates.symbolic x.keyId v₀.state c m ∧
    Run Crates.symbolic Vault.Admits v₀ l v ∧ Series Crates.symbolic x.keyId 1 l ∧
    (∃ t ∈ l, ∃ a, Asserts Crates.symbolic t a ∧ a.keyId = x.keyId ∧
      CountIs Crates.symbolic x.keyId t.before.state 4294967295 ∧ a.count = 0 ∧
      CountIs Crates.symbolic x.keyId t.after.state 0) ∧ ¬ ∀ t ∈ l,
      Grows Crates.symbolic x.keyId t := by
  obtain ⟨c, v₀, v, l₀, t, l, hrun₀, honly, hrun, hs, a, has, hid, hcount, hbefore, hafter⟩ :=
    sampleSeries 4294967295
  have hzero : (4294967295 : UInt32) + 1 = 0 := by decide
  rw [hzero] at hcount hafter
  refine ⟨_, _, samplePasskey (Uuid.rep 1) 4294967295 none, _, c, l₀, v₀, t :: l, v,
    sampleVault_created, hrun₀,
    fromJson_jsonText (samplePasskeys_valid (Uuid.rep 1) 4294967295 none),
      List.mem_singleton_self _, rfl, rfl, honly,
    hrun, hs, ⟨t, List.mem_cons_self, a, has, hid, hbefore, hcount, hafter⟩, fun hgrows => ?_⟩
  have hlt := (hgrows t List.mem_cons_self a has hid _ hbefore).1
  rw [hcount] at hlt
  exact absurd hlt (by decide)

end VaultSigner.L5
