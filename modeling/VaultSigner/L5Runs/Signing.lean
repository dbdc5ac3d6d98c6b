import VaultSigner.L4Vault.Changes
import VaultSigner.L4Vault.Lookups
import VaultSigner.L4Vault.Sample

/-!
# Where a signature comes from

Three operations sign, and all three through the retention cache; three places
fill the cache, each with what `keyblob::open` returned just before. The
invariant (`Grounded`) says this of every cached key in terms of the history:
its caching is on record, right after the verification it came from, and
nothing since has revoked it or, if it is single-use, used it.

Results:
* `Call.grounded`: every call keeps the invariant, whatever the other state.
* `signature_authorized`: every signature of a run, by whichever operation, is
  of a key in an unlocked compartment, made with the bytes that a correct
  passphrase opened, while they were retained.
-/
namespace VaultSigner.L5
open VaultSigner.Core VaultSigner.L1 VaultSigner.L2.Retention VaultSigner.L3 VaultSigner.L4

/-! ## What the history says -/

/-- The event takes `k` out of the cache. -/
def Revokes (k : Uuid) : Event → Prop
  | .lockedKey j | .discarded j => j = k
  | .lockedAll => True
  | _ => False

def Signs (k : Uuid) : Event → Prop
  | .signed j .. => j = k
  | _ => False

/-- `k`'s entry is in an unlocked compartment. -/
def EntryUnlocked (s : VaultState) (k : Uuid) : Prop :=
  ∃ c u entry, s.unlocked.get c = some u ∧ entry ∈ u.manifest.keys ∧ entry.keyId = k

section
variable (C : Crates)

/-- The newest event is a successful `keyblob::open` of `k`'s stored blob, and
`bytes` is what it returned. -/
def JustOpened (k : Uuid) (bytes : Bytes) (h : List Event) : Prop :=
  ∃ blobBytes passphrase ty label s before,
    h = .opened k blobBytes passphrase ty label (.ok bytes) s :: before ∧
    s.container.keyBlobs.get k = some blobBytes ∧
    opens C blobBytes passphrase k ty label = .ok bytes

/-- `k` was cached with these bytes for `secs` seconds at `t₀`, from a correct
passphrase, and none of the events since has revoked it, or used it up. -/
structure Vouched (k : Uuid) (bytes : Bytes) (secs : UInt32) (t₀ : Nat) (h : List Event) :
    Prop where
  record : ∃ since before, h = since ++ .cached k bytes secs t₀ :: before ∧
    JustOpened C k bytes before ∧ (∀ ev ∈ since, ¬ Revokes k ev) ∧
    (secs = 0 → ∀ ev ∈ since, ¬ Signs k ev)

/-- A signature by `k` with `bytes` at time `t` in state `s` was due, by the
history before it. -/
structure Authorized (k : Uuid) (bytes : Bytes) (t : Nat) (s : VaultState) (older : List Event) :
    Prop where
  unlocked : EntryUnlocked s k
  retained : ∃ secs t₀, Vouched C k bytes secs t₀ older ∧ (secs = 0 ∨ t < t₀ + fromSecs secs)

/-- Every cached key and every signature is accounted for. -/
structure Grounded (r : RetentionCache) (h : List Event) : Prop where
  cached : ∀ k e, r.get k = some e → ∃ secs t₀, Vouched C k e.bytes secs t₀ h ∧
    e.expiresAt = t₀ + fromSecs secs ∧ e.singleUse = (secs == 0)
  signed : ∀ newer k bytes t s older, h = newer ++ .signed k bytes t s :: older →
    Authorized C k bytes t s older

end

section
variable {C : Crates}

theorem Vouched.log {k : Uuid} {b : Bytes} {secs : UInt32} {t₀ : Nat} {h : List Event} {ev : Event}
    (hv : Vouched C k b secs t₀ h) (hr : ¬ Revokes k ev) (hs : secs = 0 → ¬ Signs k ev) :
    Vouched C k b secs t₀ (ev :: h) := by
  obtain ⟨since, before, rfl, ho, hrev, hsig⟩ := hv.record
  refine ⟨ev :: since, before, rfl, ho, ?_, ?_⟩
  · intro x hx
    rcases List.mem_cons.1 hx with rfl | hx
    · exact hr
    · exact hrev x hx
  · intro h0 x hx
    rcases List.mem_cons.1 hx with rfl | hx
    · exact hs h0
    · exact hsig h0 x hx

theorem Grounded.sub {r r' : RetentionCache} {h : List Event} (hg : Grounded C r h)
    (hsub : ∀ k e, r'.get k = some e → r.get k = some e) : Grounded C r' h where
  cached := fun k e hk => hg.cached k e (hsub k e hk)
  signed := hg.signed

/-- One more event, and a cache that holds no more than before: what is still
in it must be neither revoked nor used up by the event. -/
theorem Grounded.log {r r' : RetentionCache} {h : List Event} {ev : Event} (hg : Grounded C r h)
    (hsub : ∀ k e, r'.get k = some e → r.get k = some e ∧ ¬ Revokes k ev ∧
      (e.singleUse = true → ¬ Signs k ev))
    (hauth : ∀ k b t s, ev = .signed k b t s → Authorized C k b t s h) :
    Grounded C r' (ev :: h) where
  cached := by
    intro k e hk
    obtain ⟨hget, hrev, hsig⟩ := hsub k e hk
    obtain ⟨secs, t₀, hv, hexp, hsingle⟩ := hg.cached k e hget
    refine ⟨secs, t₀, hv.log hrev fun h0 => hsig ?_, hexp, hsingle⟩
    rw [hsingle, h0]
    rfl
  signed := by
    intro newer k b t s older heq
    cases newer with
    | nil =>
      simp only [List.nil_append, List.cons.injEq] at heq
      obtain ⟨rfl, rfl⟩ := heq
      exact hauth k b t s rfl
    | cons x newer =>
      simp only [List.cons_append, List.cons.injEq] at heq
      exact hg.signed newer k b t s older heq.2

/-- Caching what was just opened. -/
theorem Grounded.insert {r : RetentionCache} {h : List Event} {k : Uuid} {b : Bytes} {secs : UInt32}
    {now : Nat} (hg : Grounded C r h) (ho : JustOpened C k b h) :
    Grounded C (r.put k ⟨b, now + fromSecs secs, secs == 0⟩) (.cached k b secs now :: h) where
  cached := by
    intro j e hj
    rw [HashMap.get_put] at hj
    split at hj
    · rename_i hjk
      cases hj
      subst hjk
      exact ⟨secs, now, ⟨[], h, rfl, ho, by simp, by simp⟩, rfl, rfl⟩
    · obtain ⟨secs', t₀, hv, hexp, hsingle⟩ := hg.cached j e hj
      exact ⟨secs', t₀, hv.log id fun _ => id, hexp, hsingle⟩
  signed := by
    intro newer j b' t s older heq
    cases newer with
    | nil => cases heq
    | cons x newer =>
      simp only [List.cons_append, List.cons.injEq] at heq
      exact hg.signed newer j b' t s older heq.2

/-- Using a live entry. -/
theorem Grounded.use {r : RetentionCache} {h : List Event} {k : Uuid} {e : CachedKey} {now : Nat}
    {s : VaultState} (hg : Grounded C r h) (hu : EntryUnlocked s k) (hk : r.get k = some e)
    (hl : e.Live now) :
    Grounded C (if e.singleUse then r.del k else r) (.signed k e.bytes now s :: h) := by
  refine hg.log ?_ ?_
  · intro j e' hj
    cases hs : e.singleUse with
    | true =>
      simp only [hs, if_true, HashMap.get_del] at hj
      split at hj
      · cases hj
      · rename_i hne
        exact ⟨hj, id, fun _ => fun hsig => hne hsig.symm⟩
    | false =>
      simp only [hs, Bool.false_eq_true, if_false] at hj
      refine ⟨hj, id, fun hsingle hsig => ?_⟩
      obtain rfl : k = j := hsig
      rw [hk] at hj
      cases hj
      rw [hs] at hsingle
      cases hsingle
  · intro j b t s' heq
    cases heq
    obtain ⟨secs, t₀, hv, hexp, hsingle⟩ := hg.cached k e hk
    refine ⟨hu, secs, t₀, hv, ?_⟩
    rcases hl with hl | hl
    · rw [hsingle] at hl
      exact .inl (by simpa using hl)
    · exact .inr (hexp ▸ hl)

end

/-! ## The cache's operations -/

section
variable {C : Crates} {A : Vault → In → Prop} {ε : Type}

/-- The invariant of a vault. -/
def Safe (C : Crates) (v : Vault) : Prop := Grounded C v.retention v.hist

theorem Safe.enter {v : Vault} (h : Safe C v) (e : In) : Safe C (v.enter e) :=
  Grounded.sub h fun _ _ hk => Vault.get_enter_retention hk

/-- A verification changes nothing about what is cached. -/
theorem Safe.opened {v : Vault} (h : Safe C v) (k : Uuid) (b pw : Bytes) (ty : KeyType)
    (label : String) (r : VaultResult Bytes) (s : VaultState) :
    Safe C (v.log (.opened k b pw ty label r s)) := by
  refine Grounded.log h (fun k e hk => ⟨hk, id, fun _ => id⟩) ?_
  intro _ _ _ _ heq
  cases heq

/-- No event, and nothing new in the cache. -/
structure Silent (v v' : Vault) : Prop where
  hist : v'.hist = v.hist
  retention : ∀ k e, v'.retention.get k = some e → v.retention.get k = some e

theorem Safe.silent {v v' : Vault} (h : Silent v v') (hs : Safe C v) : Safe C v' := by
  unfold Safe
  rw [h.hist]
  exact Grounded.sub hs h.retention

theorem silent_enter (v : Vault) (e : In) : Silent v (v.enter e) :=
  ⟨rfl, fun _ _ hk => Vault.get_enter_retention hk⟩

theorem silent_of_enter {v w : Vault} {e : In} (hh : w.hist = v.hist)
    (hr : w.retention = (v.enter e).retention) : Silent v w :=
  ⟨hh, fun _ _ hk => Vault.get_enter_retention (hr ▸ hk)⟩

/-- What a step of a signing operation keeps, in a vault that started as `v`. -/
structure Kept (C : Crates) (v v' : Vault) : Prop where
  safe : Safe C v'
  state : v'.state = v.state
  hist : v.hist <:+ v'.hist

theorem Kept.refl {v : Vault} (h : Safe C v) : Kept C v v := ⟨h, rfl, List.suffix_refl _⟩

theorem Kept.enter {v v' : Vault} (h : Kept C v v') (e : In) : Kept C v (v'.enter e) :=
  ⟨h.safe.enter e, h.state, h.hist⟩

theorem Kept.throttle {v v' : Vault} (h : Kept C v v') (t : L2.Throttle.ThrottleTracker) :
    Kept C v (v'.setThrottle t) := ⟨h.safe, h.state, h.hist⟩

/-- `sig` is a signature of `m` by `k`, recorded since `v`, and was due. -/
def Obtained (C : Crates) (k : Uuid) (m sig : Bytes) (v v' : Vault) : Prop :=
  ∃ bytes ty t s older, keysSign C ty bytes m = .ok sig ∧ Authorized C k bytes t s older ∧
    v.hist <:+ older ∧ .signed k bytes t s :: older <:+ v'.hist

theorem openBlob_kept {v w : Vault} (h : Kept C v w) {k : Uuid} (ty : KeyType) (label : String)
    {b : Bytes} {blob : KeyBlob} (hb : KeyBlobOf.fromBytes C b = .ok blob)
    (hk : w.state.container.keyBlobs.get k = some b) (pw : Bytes) :
    (openBlob C k ty label b blob pw : Prog In Vault ε _).wlp A (Prog.Post (Kept C v) fun r w' =>
      ∀ sk, r = .ok sk → JustOpened C k sk w'.hist) w := by
  intro e _
  have h' := h.enter e
  refine ⟨⟨h'.safe.opened _ _ _ _ _ _ _, h'.state, h'.hist.trans (List.suffix_cons _ _)⟩, ?_⟩
  intro r hr sk hsk
  cases hr
  refine ⟨b, pw, ty, label, w.state, w.hist, ?_, hk, opens_ok.2 ⟨blob, hb, hsk⟩⟩
  rw [← hsk]
  rfl

/-- After `decrypt_key` has returned `b`, the newest event is the opening. -/
theorem decryptKey_kept {v w : Vault} (h : Kept C v w) (c k : Uuid) (pw : String) :
    (decryptKey C c k pw).wlp A (Prog.Post (Kept C v) fun b w' => JustOpened C k b w'.hist) w := by
  unfold decryptKey
  refine Prog.wlp_seq (R := fun _ _ => True) (fun e _ => ⟨h.enter e, fun _ _ => trivial⟩) ?_
  intro _ w₁ h₁ _
  refine Prog.wlp_seq (R := fun p w' => w'.state.container.keyBlobs.get k = some p.2.2)
    (fun e _ => ⟨h₁.enter e, fun p hp => ?_⟩) ?_
  · obtain ⟨u, x, -, -, hb, -⟩ := lookupBlob_ok hp
    exact hb
  intro p w₂ h₂ hb
  obtain ⟨ty, label, b⟩ := p
  refine Prog.wlp_seq (R := fun blob w' => KeyBlobOf.fromBytes C b = .ok blob ∧ w' = w₂)
    (Prog.post_done h₂ fun blob hf => ⟨facade_ok.1 hf, rfl⟩) ?_
  intro blob w₃ h₃ hblob
  obtain ⟨hblob, rfl⟩ := hblob
  refine Prog.wlp_seq (openBlob_kept h₃ ty label hblob hb _) ?_
  intro r w₄ h₄ ho
  cases r with
  | error x => exact fun e _ => ⟨(h₄.enter e).throttle _, fun b hb => by cases hb⟩
  | ok sk =>
    refine fun e _ => ⟨(h₄.enter e).throttle _, fun b hb => ?_⟩
    cases hb
    exact ho sk rfl

theorem cacheKey_kept {v w : Vault} (h : Kept C v w) {k : Uuid} {b : Bytes}
    (ho : JustOpened C k b w.hist) (secs : UInt32) :
    (cacheKey k b secs : Prog In Vault ε _).wlp A (Prog.Post (Kept C v) fun _ _ => True) w := by
  refine fun e _ => ⟨?_, fun _ _ => trivial⟩
  have h' := h.enter e
  simp only
  cases hi : insert (w.enter e).retention k b secs e.now with
  | error x => exact h'
  | ok r =>
    obtain ⟨-, rfl⟩ := insert_ok.1 hi
    exact ⟨Grounded.insert h'.safe ho, h'.state, h'.hist.trans (List.suffix_cons _ _)⟩

/-- A use of `k`, whose entry is unlocked, records the signature it makes. -/
theorem useKey_kept {v w : Vault} (h : Kept C v w) {k : Uuid} (hu : EntryUnlocked v.state k)
    (ty : KeyType) (m : Bytes) :
    (useKey C k ty m : Prog In Vault ε _).wlp A (Prog.Post (Kept C v) fun r w' =>
      ∀ sig, r = some (.ok sig) → Obtained C k m sig v w') w := by
  intro e _
  have h' := h.enter e
  simp only
  rcases useKey_cases (w.enter e).retention k e.now fun bytes => (bytes, keysSign C ty bytes m) with
    ⟨-, hr⟩ | ⟨entry, -, -, hr⟩ | ⟨entry, hk, hl, hr⟩
  · rw [hr]
    exact ⟨h', by simp⟩
  · rw [hr]
    refine ⟨⟨Grounded.sub h'.safe fun j x hj => ?_, h'.state, h'.hist⟩, by simp⟩
    simp only [Vault.setRetention_retention, HashMap.get_del] at hj
    split at hj
    · cases hj
    · exact hj
  · rw [hr]
    simp only
    have hstate : EntryUnlocked (w.enter e).state k := by rw [h'.state]; exact hu
    cases hs : keysSign C ty entry.bytes m with
    | error x =>
      refine ⟨⟨Grounded.sub h'.safe fun j x hj => ?_, h'.state, h'.hist⟩, by simp⟩
      simp only [Vault.setRetention_retention] at hj
      split at hj
      · rw [HashMap.get_del] at hj
        split at hj
        · cases hj
        · exact hj
      · exact hj
    | ok sig =>
      have hused := Grounded.use h'.safe hstate hk hl
      refine ⟨⟨hused, h'.state, h'.hist.trans (List.suffix_cons _ _)⟩, ?_⟩
      intro r hr sig' hsig
      cases hr
      cases hsig
      exact ⟨entry.bytes, ty, e.now, _, _, hs, hused.signed [] _ _ _ _ _ rfl, h'.hist,
        List.suffix_refl _⟩

/-! ## Finding the key -/

theorem entryUnlocked_of_find {o : Orders} {s : VaultState} {k : Uuid} {p : KeyType × Uuid}
    (h : findKeyAnywhere o s k = some p) : EntryUnlocked s k := by
  obtain ⟨u, x, hu, hx, -⟩ := findKeyAnywhere_some h
  exact ⟨p.2, u, x, hu, (findKey_mem hx).1, (findKey_mem hx).2⟩

theorem entryUnlocked_of_protocol {o : Orders} {s : VaultState} {k : Uuid}
    {p : KeyType × Bytes × Uuid} (h : findForProtocol o s k = some p) : EntryUnlocked s k := by
  unfold findForProtocol at h
  obtain ⟨q, hq, -⟩ := Option.bind_eq_some_iff.1 h
  exact entryUnlocked_of_find hq

theorem findKeyRegion_kept {v w : Vault} (h : Kept C v w) (k : Uuid) :
    (findKeyRegion k : Prog In Vault ε _).wlp A (Prog.Post (Kept C v) fun f _ =>
      ∀ p, f = some p → EntryUnlocked v.state k) w := by
  intro e _
  refine ⟨h.enter e, fun f hf p hp => ?_⟩
  rw [← h.state]
  rw [hp] at hf
  exact entryUnlocked_of_find (Except.ok.inj hf)

/-! ## The signing operations -/

theorem sign_kept {v : Vault} (h : Safe C v) (ks : String) (m : Bytes) :
    (sign C ks m).wlp A (Prog.Post (Kept C v) fun sig v' =>
      ∃ k, parseUuid C ks = .ok k ∧ Obtained C k m sig v v') v := by
  unfold sign
  cases hp : parseUuid C ks with
  | error x => exact Prog.post_done (.refl h) (by simp)
  | ok k =>
    refine Prog.wlp_seq (findKeyRegion_kept (.refl h) k) ?_
    intro f w hw hf
    cases f with
    | none => exact Prog.post_done hw (by simp)
    | some p =>
      refine Prog.wlp_seq (useKey_kept hw (hf p rfl) p.1 m) ?_
      intro q w' hw' hq
      cases q with
      | none => exact Prog.post_done hw' (by simp)
      | some r =>
        refine Prog.post_done hw' fun sig hsig => ⟨k, rfl, hq sig ?_⟩
        rw [facade_ok.1 hsig]

theorem protocolUse_kept {v w : Vault} (h : Kept C v w) {k : Uuid} (hu : EntryUnlocked v.state k)
    (ty : KeyType) (pk m : Bytes) :
    (protocolUse C k ty pk m : Prog In Vault ε _).wlp A (Prog.Post (Kept C v) fun o w' =>
      ∀ sig pk', o = .signed sig pk' → Obtained C k m sig v w') w := by
  unfold protocolUse
  refine Prog.wlp_seq (useKey_kept h hu ty m) ?_
  intro q w' hw' hq
  split
  · rename_i sig
    refine Prog.post_done hw' fun o ho sig' pk' heq => ?_
    cases ho
    cases heq
    exact hq sig rfl
  · refine Prog.post_done hw' fun o ho sig' pk' heq => ?_
    cases ho
    cases heq

theorem protocolSign_kept {v w : Vault} (h : Kept C v w) (k : Uuid) (m : Bytes) :
    (protocolSign C k m : Prog In Vault ε _).wlp A (Prog.Post (Kept C v) fun o w' =>
      ∀ sig pk, o = .signed sig pk → Obtained C k m sig v w') w := by
  have hno : ∀ (w' : Vault) (o : Protocol.SignOutcome), Kept C v w' →
      (∀ sig pk, o ≠ .signed sig pk) →
      (Prog.done (.ok o) : Prog In Vault ε _).wlp A (Prog.Post (Kept C v) fun o w' =>
        ∀ sig pk, o = .signed sig pk → Obtained C k m sig v w') w' := by
    intro w' o hw' hne
    refine Prog.post_done hw' fun o' ho sig pk heq => ?_
    cases ho
    exact absurd heq (hne sig pk)
  unfold protocolSign
  refine Prog.wlp_seq (R := fun f _ => ∀ p, f = some p → EntryUnlocked v.state k) ?_ ?_
  · intro e _
    refine ⟨h.enter e, fun f hf p hp => ?_⟩
    rw [← h.state]
    rw [hp] at hf
    exact entryUnlocked_of_protocol (Except.ok.inj hf)
  intro f w₁ h₁ hf
  cases f with
  | none => exact hno _ _ h₁ (by simp)
  | some p =>
    obtain ⟨ty, pk, c⟩ := p
    have hu := hf _ rfl
    refine Prog.wlp_seq (R := fun _ _ => True) (fun e _ => ⟨h₁.enter e, fun _ _ => trivial⟩) ?_
    intro b w₂ h₂ _
    cases b with
    | true => exact protocolUse_kept h₂ hu ty pk m
    | false =>
      refine Prog.wlp_seq (R := fun _ _ => True) (fun e _ => ⟨h₂.enter e, fun _ _ => trivial⟩) ?_
      intro reply w₃ h₃ _
      cases reply with
      | none => exact hno _ _ h₃ (by simp)
      | some pw =>
        refine Prog.wlp_seq (Prog.post_attempt (decryptKey_kept h₃ c k pw)) ?_
        intro r w₄ h₄ ho
        cases r with
        | error x => exact hno _ _ h₄ (by simp)
        | ok sk =>
          refine Prog.wlp_seq (cacheKey_kept h₄ (ho sk rfl) _) ?_
          intro q w₅ h₅ _
          cases q with
          | error x => exact hno _ _ h₅ (by simp)
          | ok _ => exact protocolUse_kept h₅ hu ty pk m

theorem unsigned_kept {v w : Vault} (k : Uuid) (m : Bytes) (h : Kept C v w) :
    (Prog.done (.ok none) : Prog In Vault Ctap2Error (Option Bytes)).wlp A (Prog.Post (Kept C v)
      fun o w' => ∀ sig, o = some sig → Obtained C k m sig v w') w := by
  refine Prog.post_done h fun o ho sig heq => ?_
  cases ho
  cases heq

theorem ctap2Use_kept {v w : Vault} {k : Uuid} (h : Kept C v w) (hu : EntryUnlocked v.state k)
    {ty : KeyType} (m : Bytes) :
    (ctap2Use C k ty m).wlp A (Prog.Post (Kept C v) fun o w' =>
      ∀ sig, o = some sig → Obtained C k m sig v w') w := by
  unfold ctap2Use
  refine Prog.wlp_seq (useKey_kept h hu ty m) ?_
  intro q w' hw' hq
  split
  · rename_i sig
    refine Prog.post_done hw' fun o ho sig' heq => ?_
    cases ho
    cases heq
    exact hq sig rfl
  · exact unsigned_kept k m hw'

theorem ctap2Sign_kept {v w : Vault} (h : Kept C v w) (prompts : Bool) (k : Uuid) (m : Bytes) :
    (ctap2Sign C prompts k m).wlp A (Prog.Post (Kept C v) fun o w' =>
      ∀ sig, o = some sig → Obtained C k m sig v w') w := by
  unfold ctap2Sign
  refine Prog.wlp_seq (findKeyRegion_kept h k) ?_
  intro f w₁ h₁ hf
  cases f with
  | none => exact unsigned_kept k m h₁
  | some p =>
    obtain ⟨ty, c⟩ := p
    have hu := hf _ rfl
    refine Prog.wlp_seq (R := fun _ _ => True) (fun e _ => ⟨h₁.enter e, fun _ _ => trivial⟩) ?_
    intro b w₂ h₂ _
    cases b with
    | true => exact ctap2Use_kept h₂ hu m
    | false =>
      refine Prog.wlp_seq (R := fun _ _ => True) (fun e _ => ⟨h₂.enter e, fun _ _ => trivial⟩) ?_
      intro r w₃ h₃ _
      cases r with
      | error x => exact unsigned_kept k m h₃
      | ok _ =>
        cases prompts with
        | false => exact unsigned_kept k m h₃
        | true =>
          refine Prog.wlp_seq (R := fun _ _ => True)
            (fun e _ => ⟨h₃.enter e, fun _ _ => trivial⟩) ?_
          intro reply w₄ h₄ _
          cases reply with
          | none => exact unsigned_kept k m h₄
          | some pw =>
            refine Prog.wlp_seq (Prog.post_attempt (decryptKey_kept h₄ c k pw)) ?_
            intro r w₅ h₅ ho
            cases r with
            | error x => exact unsigned_kept k m h₅
            | ok sk =>
              refine Prog.wlp_seq (cacheKey_kept h₅ (ho sk rfl) _) ?_
              intro q w₆ h₆ _
              cases q with
              | error x => exact unsigned_kept k m h₆
              | ok _ => exact ctap2Use_kept h₆ hu m

theorem handleGetAssertion_kept {v : Vault} (h : Safe C v) (request : GetAssertionRequest)
    (up uv : Bool) : (handleGetAssertion C (ctap2Backend C true) request up uv).wlp A
      (Prog.Post (Kept C v) fun o v' => ∃ m, Obtained C o.keyId m o.response.signature v v') v := by
  unfold handleGetAssertion
  refine Prog.wlp_seq (R := fun _ _ => True)
    (fun e _ => ⟨(Kept.refl h).enter e, fun _ _ => trivial⟩) ?_
  intro cands w₁ h₁ _
  refine Prog.wlp_seq (R := fun _ _ => True) (Prog.post_done h₁ fun _ _ => trivial) ?_
  intro chosen w₂ h₂ _
  refine Prog.wlp_seq (ctap2Sign_kept h₂ true _ _) ?_
  intro sig w₃ h₃ hsig
  refine Prog.post_done h₃ fun o ho => ?_
  obtain ⟨hk, -, -, -, hs⟩ := finishAssertion_ok ho
  rw [hk]
  exact ⟨_, hsig _ hs⟩

/-- The replies of the local protocol: a signature only if one was obtained. -/
inductive ProtocolReply (C : Crates) (got : Uuid → Bytes → Bytes → Prop) : Bytes → Prop
  | error (id : Value) (code message : String) :
      ProtocolReply C got (Protocol.errorResponse C id code message)
  | keys (id l : Value) : ProtocolReply C got (Protocol.resultResponse C id (.object [("keys", l)]))
  | signed (id : Value) (k : Uuid) (m sig pk : Bytes) (h : got k m sig) :
      ProtocolReply C got (Protocol.resultResponse C id (.object
        [("signature_b64", .string (C.base64Encode sig)),
          ("public_key_b64", .string (C.base64Encode pk))]))

theorem replyToSign_kept {v w : Vault} (h : Kept C v w) (secret : L2.Throttle.SecretId) (id : Value)
    {k : Uuid} {m : Bytes} {o : Protocol.SignOutcome}
    (ho : ∀ sig pk, o = .signed sig pk → Obtained C k m sig v w) :
    (Protocol.replyToSign C vaultThrottling secret id o).wlp A (Prog.Post (Kept C v) fun reply w' =>
      ProtocolReply C (fun k m sig => Obtained C k m sig v w') reply) w := by
  cases o with
  | signed sig pk =>
    intro e _
    refine ⟨(h.enter e).throttle _, fun reply hr => ?_⟩
    cases hr
    exact .signed id k m sig pk (ho sig pk rfl)
  | keyNotFound =>
    refine Prog.post_done h fun reply hr => ?_
    cases hr
    exact .error id _ _
  | userDeclined =>
    refine Prog.post_done h fun reply hr => ?_
    cases hr
    exact .error id _ _
  | passphraseIncorrect =>
    intro e _
    refine ⟨(h.enter e).throttle _, fun reply hr => ?_⟩
    cases hr
    exact .error id _ _

theorem handleProtocolRequest_kept {v : Vault} (h : Safe C v) (caller : String) (raw : Bytes) :
    (handleProtocolRequest C caller raw).wlp A (Prog.Post (Kept C v) fun reply v' =>
      ProtocolReply C (fun k m sig => Obtained C k m sig v v') reply) v := by
  have herror : ∀ (w : Vault) (id : Value) (code message : String), Kept C v w →
      (Prog.done (.ok (Protocol.errorResponse C id code message)) : Op Bytes).wlp A
        (Prog.Post (Kept C v) fun reply v' =>
          ProtocolReply C (fun k m sig => Obtained C k m sig v v') reply) w := by
    intro w id code message hw
    refine Prog.post_done hw fun reply hr => ?_
    cases hr
    exact .error id code message
  unfold handleProtocolRequest Protocol.handleRequest
  cases C.rawRequestFromSlice raw with
  | error x => exact herror _ _ _ _ (.refl h)
  | ok request =>
    simp only
    split
    · refine Prog.wlp_seq (R := fun _ _ => True)
        (fun e _ => ⟨(Kept.refl h).enter e, fun _ _ => trivial⟩) ?_
      intro l w hw _
      refine Prog.post_done hw fun reply hr => ?_
      cases hr
      exact .keys _ _
    · split
      · unfold Protocol.handleSign
        cases C.signParamsFromValue request.params with
        | error x => exact herror _ _ _ _ (.refl h)
        | ok params =>
          simp only
          cases C.uuidParse params.keyId with
          | error x => exact herror _ _ _ _ (.refl h)
          | ok k =>
            simp only
            cases C.base64Decode params.messageB64 with
            | none => exact herror _ _ _ _ (.refl h)
            | some m =>
              refine Prog.wlp_seq (R := fun _ _ => True)
                (fun e _ => ⟨(Kept.refl h).enter e, fun _ _ => trivial⟩) ?_
              intro r w hw _
              cases r with
              | error x => exact herror _ _ _ _ hw
              | ok _ =>
                refine Prog.wlp_seq (protocolSign_kept hw k m) ?_
                intro o w' hw' ho
                exact replyToSign_kept hw' _ _ ho
      · exact herror _ _ _ _ (.refl h)

end

/-! ## The other calls -/

section
variable {C : Crates} {A : Vault → In → Prop}

theorem mutate_silent {α : Type} (e : In) (v : Vault) (d : FacadeResult (Edit α)) :
    Silent v (mutate C e (v.enter e) d).2 := by
  refine silent_of_enter (e := e) ?_ ?_
  · rw [mutate_frame]
    rfl
  · rw [mutate_frame]

theorem persistLocked_safe {v : Vault} (h : Safe C v) (e : In) (s : VaultState) (c : Uuid) :
    Safe C (persistLocked C e (v.setState s) c).2 := by
  have hf := mutate_frame (C := C) e v (.ok (⟨s, .persist c, ()⟩ : Edit Unit))
  simp only [mutate, finish, returning] at hf
  rw [hf]
  exact h

/-- A call whose regions log nothing and put nothing into the cache. -/
theorem safe_of_within {α ε : Type} {p : Prog In Vault ε α} (hp : p.Within A Silent) {v v' : Vault}
    {es : List In} {r : Except ε α} (hx : Prog.Exec A p v es r v') (h : Safe C v) : Safe C v' :=
  Prog.Within.exec hx hp (fun _ _ hs => Safe.silent hs) h

theorem replying_silent {α : Type} {p : Op α} {f : α → Reply} (h : p.Within A Silent) :
    (replying p f).Within A Silent := h.bind fun _ => trivial

theorem unlockCompartment_silent (c pw : String) : (unlockCompartment C c pw).Within A Silent := by
  unfold unlockCompartment
  cases parseUuid C c with
  | error x => trivial
  | ok id =>
    refine Prog.Within.bind (within_region.2 fun e v _ => silent_enter v e) fun _ => ?_
    refine within_region.2 fun e v _ => ?_
    unfold unlockRegion
    simp only
    split
    · exact silent_enter v e
    · split
      · exact silent_enter v e
      · split
        · exact silent_enter v e
        · split
          · exact silent_of_enter (e := e) rfl rfl
          · exact silent_of_enter (e := e) rfl rfl

theorem lockCompartment_silent (c : String) : (lockCompartment C c).Within A Silent := by
  unfold lockCompartment
  cases C.uuidParse c with
  | error x => trivial
  | ok id => exact within_region.2 fun e v _ => silent_of_enter (e := e) rfl rfl

theorem makeCredential_silent (a : MakeCredentialArgs) :
    (handleFido2MakeCredential C a).Within A Silent := by
  unfold handleFido2MakeCredential
  cases parseUuid C a.compartmentId with
  | error x => trivial
  | ok c =>
    cases parseMakeCredential C a.requestCbor with
    | error x => trivial
    | ok request =>
      refine Prog.Within.bind ?_ fun outcome => ?_
      · refine Prog.Within.mapError ?_
        unfold handleMakeCredential
        refine Prog.Within.bind (p := (ctap2Backend C false).credentialsForRp request.rpId)
          (fun e v _ => ⟨silent_enter v e, trivial⟩) fun _ => ?_
        refine Prog.Within.bind (p := Prog.ofExcept _) trivial fun _ => ?_
        exact Prog.Within.bind (within_ask.2 fun e v _ => silent_enter v e) fun _ => trivial
      · refine within_region.2 fun e v _ => ?_
        rw [makeCredentialRegion_eq]
        exact mutate_silent e v _

theorem wlp_safe {α ε : Type} {p : Prog In Vault ε α} {v : Vault}
    (h : p.wlp A (Prog.Post (Safe C) fun _ _ => True) v) : p.wlp A (fun _ v' => Safe C v') v :=
  Prog.wlp_mono (fun _ _ hw => hw.1) h

theorem wlp_kept {α ε : Type} {p : Prog In Vault ε α} {v : Vault}
    (h : p.wlp A (Prog.Post (Kept C v) fun _ _ => True) v) : p.wlp A (fun _ v' => Safe C v') v :=
  Prog.wlp_mono (fun _ _ hw => hw.1.safe) h

theorem lockKey_safe {v : Vault} (h : Safe C v) (k : String) :
    (lockKey C k).wlp A (fun _ v' => Safe C v') v := by
  unfold lockKey
  cases C.uuidParse k with
  | error x => exact h
  | ok k =>
    intro e _
    refine Grounded.log (h.enter e) (fun j x hj => ?_) fun _ _ _ _ heq => by cases heq
    simp only [Vault.log_retention, Vault.setRetention_retention, wipe, HashMap.get_del] at hj
    split at hj
    · cases hj
    · rename_i hne
      exact ⟨hj, fun hr => hne hr.symm, fun _ => id⟩

theorem lockAll_safe {v : Vault} (h : Safe C v) : lockAll.wlp A (fun _ v' => Safe C v') v := by
  refine fun e _ e' _ => ?_
  refine Grounded.log (r := (v.enter e).retention) (h.enter e) (fun j x hj => ?_)
    fun _ _ _ _ heq => by cases heq
  simp [wipeAll] at hj

/-- Between the two regions of a discard the key is still cached. -/
theorem discardKey_safe {v : Vault} (h : Safe C v) (c k t : String) :
    (discardKey C c k t).wlp A (fun _ v' => Safe C v') v := by
  unfold discardKey
  cases parseUuid C c with
  | error x => exact h
  | ok c =>
    cases parseUuid C k with
    | error x => exact h
    | ok k =>
      intro e _
      simp only [discardRegion]
      cases prepareDiscardKey (v.enter e).state c k t with
      | error x => exact h.enter e
      | ok u =>
        have hw := persistLocked_safe (h.enter e) e
          ((v.state.setUnlocked c (u.remove k)).removeKeyBlob k) c
        simp only [Vault.enter_state]
        generalize persistLocked C e ((v.enter e).setState
          ((v.state.setUnlocked c (u.remove k)).removeKeyBlob k)) c = q at hw ⊢
        obtain ⟨r, w⟩ := q
        cases r with
        | error x => exact hw
        | ok a =>
          intro e' _
          refine Grounded.log hw (fun j x hj => ?_) fun _ _ _ _ heq => by cases heq
          simp only [Vault.setRetention_retention, wipe, HashMap.get_del] at hj
          split at hj
          · cases hj
          · rename_i hne
            exact ⟨Vault.get_enter_retention (v := w.log _) hj, fun hr => hne hr.symm, fun _ => id⟩

theorem changeKeyPassphrase_safe {v : Vault} (h : Safe C v) (c k old new : String) :
    (changeKeyPassphrase C c k old new).wlp A (fun _ v' => Safe C v') v := by
  unfold changeKeyPassphrase
  cases parseUuid C c with
  | error x => exact h
  | ok c =>
    cases parseUuid C k with
    | error x => exact h
    | ok k =>
      refine wlp_safe
        (Prog.wlp_seq (R := fun _ _ => True) (fun e _ => ⟨h.enter e, fun _ _ => trivial⟩) ?_)
      refine fun _ w hw _ e _ => ⟨?_, fun _ _ => trivial⟩
      have hw := hw.enter e
      simp only [changePassphraseRegion]
      cases lookupBlob (w.enter e).state c k with
      | error x => exact hw
      | ok p =>
        obtain ⟨ty, label, b⟩ := p
        simp only
        cases KeyBlobOf.fromBytes C b with
        | error x => exact hw
        | ok blob =>
          simp only
          have ho := hw.opened k b (utf8 old) ty label (keyblobOpen C blob (utf8 old) k ty label)
            (w.enter e).state
          cases hr : keyblobOpen C blob (utf8 old) k ty label with
          | error x => rw [hr] at ho; exact ho
          | ok sk =>
            rw [hr] at ho
            simp only [resealRegion]
            cases sealKey C e new sk k ty label with
            | error x => exact ho
            | ok newBlob =>
              simp only
              cases unlockedCompartment _ c with
              | error x => exact ho
              | ok u => exact persistLocked_safe (v := Vault.setThrottle _ _) ho e _ c

theorem revealRawKeyHex_safe {v : Vault} (h : Safe C v) (c k pw : String) :
    (revealRawKeyHex C c k pw).wlp A (fun _ v' => Safe C v') v := by
  unfold revealRawKeyHex
  cases parseUuid C c with
  | error x => exact h
  | ok c =>
    cases parseUuid C k with
    | error x => exact h
    | ok k =>
      refine wlp_kept (Prog.wlp_seq (decryptKey_kept (.refl h) c k pw) ?_)
      exact fun _ w hw _ => Prog.post_done hw fun _ _ => trivial

theorem unlockKey_safe {v : Vault} (h : Safe C v) (c k pw : String) (secs : UInt32) :
    (unlockKey C c k pw secs).wlp A (fun _ v' => Safe C v') v := by
  unfold unlockKey
  cases parseUuid C c with
  | error x => exact h
  | ok c =>
    cases parseUuid C k with
    | error x => exact h
    | ok k =>
      refine wlp_kept (Prog.wlp_seq (decryptKey_kept (.refl h) c k pw) ?_)
      intro sk w hw ho
      refine Prog.wlp_seq (cacheKey_kept hw ho secs) ?_
      exact fun _ w' hw' _ => Prog.post_done hw' fun _ _ => trivial

theorem commitAssertion_safe {w : Vault} (h : Safe C w) (o : GetAssertionOutcome) (e : In) :
    Safe C (commitAssertion C o e (w.enter e)).2 ∧
      (commitAssertion C o e (w.enter e)).2.hist = w.hist ∧
      ∀ o', (commitAssertion C o e (w.enter e)).1 = .ok o' → o' = o := by
  rw [commitAssertion_eq]
  have hm := mutate_silent (C := C) e w (commitEdit o e (w.enter e).state)
  refine ⟨Safe.silent hm h, hm.hist, fun o' ho => ?_⟩
  obtain ⟨d, hd, rfl, -⟩ := mutate_ok e _ ho
  unfold commitEdit at hd
  split at hd
  · cases hd; rfl
  · split at hd
    · cases hd
    · cases hd; rfl

theorem getAssertion_safe {v : Vault} (h : Safe C v) (cbor : Bytes) (up uv : Bool) :
    (handleFido2GetAssertion C cbor up uv).wlp A (Prog.Post (Safe C) fun o v' =>
      ∃ m, Obtained C o.keyId m o.response.signature v v') v := by
  unfold handleFido2GetAssertion
  cases parseGetAssertion C cbor with
  | error x => exact Prog.post_done h (by simp)
  | ok request =>
    refine Prog.wlp_seq (R := fun o w => ∃ m, Obtained C o.keyId m o.response.signature v w) ?_ ?_
    · refine Prog.wlp_mono (fun r w hw => ⟨hw.1.safe, hw.2⟩)
        (Prog.post_mapError (handleGetAssertion_kept h request up uv))
    intro o w hw ho e _
    obtain ⟨hsafe, hhist, hres⟩ := commitAssertion_safe hw o e
    refine ⟨hsafe, fun o' ho' => ?_⟩
    obtain rfl := hres o' ho'
    obtain ⟨m, bytes, ty, t, s, older, hs, hauth, h1, h2⟩ := ho
    exact ⟨m, bytes, ty, t, s, older, hs, hauth, h1, by rw [hhist]; exact h2⟩

/-- **One call.** Whatever it is, it keeps every cached key and every signature
accounted for. -/
theorem Call.grounded (call : Call) {v v' : Vault} {es : List In} {r : FacadeResult Reply}
    (hx : Prog.Exec A (call.run C) v es r v') (h : Safe C v) : Safe C v' := by
  have hsilent : ∀ {α : Type} {p : Op α} {f : α → Reply} {r : FacadeResult Reply},
      p.Within A Silent →
      Prog.Exec A (replying p f) v es r v' → Safe C v' := fun hp hx =>
    safe_of_within (replying_silent hp) hx h
  have hwlp : ∀ {α : Type} {p : Op α} {f : α → Reply} {r : FacadeResult Reply},
      p.wlp A (fun _ v' => Safe C v') v → Prog.Exec A (replying p f) v es r v' → Safe C v' := by
    intro α p f r hp hx
    obtain ⟨q, hx, -⟩ := exec_replying.1 hx
    exact Prog.wlp_exec hx hp
  cases call with
  | unlockCompartment c p => exact hsilent (unlockCompartment_silent c p) hx
  | lockCompartment c => exact hsilent (lockCompartment_silent c) hx
  | lockAll => exact hwlp (lockAll_safe h) hx
  | addCompartment l p d =>
    refine hsilent (within_region.2 fun e v _ => ?_) hx
    rw [addCompartmentRegion_eq]
    exact mutate_silent e v _
  | createKey a =>
    refine hsilent (within_region.2 fun e v _ => ?_) hx
    rw [createKeyRegion_eq]
    exact mutate_silent e v _
  | discardKey c k t => exact hwlp (discardKey_safe h c k t) hx
  | changeKeyPassphrase c k o n => exact hwlp (changeKeyPassphrase_safe h c k o n) hx
  | revealRawKeyHex c k p => exact hwlp (revealRawKeyHex_safe h c k p) hx
  | unlockKey c k p s => exact hwlp (unlockKey_safe h c k p s) hx
  | lockKey k => exact hwlp (lockKey_safe h k) hx
  | sign k m => exact hwlp (Prog.wlp_mono (fun r w hw => hw.1.safe) (sign_kept h k m)) hx
  | handleProtocolRequest i q =>
    exact hwlp (Prog.wlp_mono (fun r w hw => hw.1.safe) (handleProtocolRequest_kept h i q)) hx
  | handleFido2MakeCredential a => exact hsilent (makeCredential_silent a) hx
  | handleFido2GetAssertion q p u =>
    exact hwlp (Prog.wlp_mono (fun r w hw => hw.1) (getAssertion_safe h q p u)) hx
  | mergeReencryptDiscardIncoming t j b =>
    refine hsilent (within_region.2 fun e v _ => ?_) hx
    rw [merge1Region_eq]
    exact mutate_silent e v _
  | mergeSideBySide j b l p d =>
    refine hsilent (within_region.2 fun e v _ => ?_) hx
    rw [merge2Region_eq]
    exact mutate_silent e v _
  | mergeReplaceLocalWithIncoming t j b p k c =>
    refine hsilent (within_region.2 fun e v _ => ?_) hx
    rw [merge3Region_eq]
    exact mutate_silent e v _
  | query q => exact hsilent (within_region.2 fun e v _ => silent_enter v e) hx

/-- Every signature that the next call hands out was due. -/
structure HandsOut (C : Crates) (A : Vault → In → Prop) (v : Vault) : Prop where
  sign : ∀ ks m es sig v', Prog.Exec A (L4.sign C ks m) v es (.ok sig) v' →
    ∃ k, parseUuid C ks = .ok k ∧ Obtained C k m sig v v'
  protocol : ∀ caller raw es reply v',
    Prog.Exec A (handleProtocolRequest C caller raw) v es (.ok reply) v' →
      ProtocolReply C (fun k m sig => Obtained C k m sig v v') reply
  assertion : ∀ cbor up uv es o v',
    Prog.Exec A (handleFido2GetAssertion C cbor up uv) v es (.ok o) v' →
      ∃ m, Obtained C o.keyId m o.response.signature v v'

theorem Safe.handsOut {v : Vault} (h : Safe C v) : HandsOut C A v where
  sign := fun ks m _ sig _ hx => (Prog.wlp_exec hx (sign_kept h ks m)).2 sig rfl
  protocol := fun caller raw _ reply _ hx =>
    (Prog.wlp_exec hx (handleProtocolRequest_kept h caller raw)).2 reply rfl
  assertion := fun cbor up uv _ o _ hx =>
    (Prog.wlp_exec hx (getAssertion_safe h cbor up uv)).2 o rfl

theorem grounded_empty : Grounded C ∅ [] where
  cached := by
    intro k e hk
    simp at hk
  signed := by
    intro newer k b t s older heq
    simp at heq

/-- **A master-key unlock alone never signs.** In every run from a created or
an opened vault, each signature was made by a key whose entry was in a
compartment unlocked at that moment, with the bytes that opening its blob
with a correct passphrase had returned, when that had been cached, and neither
revoked nor used up or expired since; and no signature is handed out that is
not one of these. -/
theorem signature_authorized (C : Crates) {A : Vault → In → Prop} {v₀ v : Vault} {l : List Turn}
    (h₀ : Created C v₀ ∨ Opened C v₀) (h : Run C A v₀ l v) :
    (∀ newer k bytes t s older, v.hist = newer ++ .signed k bytes t s :: older →
      Authorized C k bytes t s older) ∧ HandsOut C A v := by
  have hstart : Safe C v₀ := by
    obtain ⟨now, hf⟩ := start_fresh h₀
    unfold Safe
    rw [hf.retention, hf.hist]
    exact grounded_empty
  have hsafe : Safe C v := h.invariant hstart fun call v es r v' hv hx =>
    Call.grounded call hx hv
  exact ⟨hsafe.signed, hsafe.handsOut⟩

end

/-- An import, an unlock of the key, and a signature. -/
theorem signature_authorized_sample :
    ∃ l v s older, Run Crates.symbolic Vault.Admits sampleVault l v ∧
    v.hist = .signed (Uuid.rep 1) sampleSecret 0 s :: older ∧
    Authorized Crates.symbolic (Uuid.rep 1) sampleSecret 0 s older := by
  obtain ⟨l, v, b, hrun, hv, -⟩ := samplePasskey_ready 0
  obtain ⟨sig, hs⟩ : ∃ sig, keysSign Crates.symbolic .ed25519 sampleSecret [1] = .ok sig := by
    unfold keysSign
    simp [sampleSecret_length]
  have hx : Prog.Exec Vault.Admits (L4.sign Crates.symbolic (hyphenated (Uuid.rep 1)) [1]) v
      [sampleNext, sampleNext] (.ok sig) (v.log (.signed (Uuid.rep 1) sampleSecret 0 v.state)) := by
    unfold L4.sign
    rw [uuidParse_symbolic]
    refine Prog.Exec.seq (a := some (.ed25519, Uuid.rep 10)) (w := v)
      (exec_ask_still sampleNext_still hv.clock _ ?_) ?_
    · rw [hv.state.findKeyAnywhere]
    · exact (useKey_exec sampleNext_still hv.clock hv.retention (.inr (by decide)) hs).seq_last rfl
  have hrun' : Run Crates.symbolic Vault.Admits sampleVault _ _ :=
    Run.cons hrun (show Prog.Exec Vault.Admits
      ((Call.sign (hyphenated (Uuid.rep 1)) [1]).run Crates.symbolic) _ _ _ _ from exec_replying.2
        ⟨_, hx, rfl⟩)
  exact ⟨_, _, _, _, hrun', rfl,
    (signature_authorized Crates.symbolic (.inl sampleVault_created) hrun').1 [] _ _ _ _ _ rfl⟩

end VaultSigner.L5
