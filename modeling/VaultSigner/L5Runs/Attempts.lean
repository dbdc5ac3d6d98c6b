import VaultSigner.L4Vault.Request
import VaultSigner.L4Vault.Run

/-!
# An attempt at a key's passphrase

Every operation that takes the passphrase of a key goes the same way: the
throttle is checked, the blob is looked up and opened, the outcome is
recorded, and the key, if it is open now, is cached. `Phase` says how far a
call has come, and `Attempt` what its next region does there, whatever other
calls did in between. No operation does anything else to the throttle, to the
history of verifications or to the cache, but the protocol handler, which
records the outcome again, and `unlock_compartment` (`Kind`).

Results:
* `call_follows`: every call goes through these phases, and ends with nothing
  left to record.
-/
namespace VaultSigner.L5
open VaultSigner.Core VaultSigner.L1 VaultSigner.L2.Throttle VaultSigner.L3 VaultSigner.L4
open VaultSigner.L2

/-! ## Regions -/

/-- A verification or a caching. -/
def Tries : Event → Prop
  | .opened .. | .cached .. => True
  | _ => False

/-- Nothing is verified, recorded or cached. -/
structure Idles (v v' : Vault) : Prop where
  throttle : v'.throttle = v.throttle
  hist : v'.hist = v.hist ∨ ∃ ev, v'.hist = ev :: v.hist ∧ ¬ Tries ev
  retention : ∀ k e, v'.retention.get k = some e → v.retention.get k = some e

/-- The region verifies a passphrase of `k`, with this result. -/
def OpensAs (m : Region) (k : Uuid) (r : VaultResult Bytes) : Prop :=
  ∃ b pw ty label s, m.after.hist = .opened k b pw ty label r s :: m.before.hist

/-- The results of the verifications of `k`, newest first. -/
def verifications (k : Uuid) (h : List Event) : List (VaultResult Bytes) :=
  h.filterMap fun ev => match ev with
    | .opened j _ _ _ _ r _ => if j = k then some r else none
    | _ => none

/-- Nothing new is cached. -/
def Fewer (m : Region) : Prop :=
  ∀ k e, m.after.retention.get k = some e → m.before.retention.get k = some e

/-! ## Phases -/

/-- How far a call has come with a passphrase. -/
inductive Phase where
  /-- none has been tried -/
  | fresh
  /-- the throttle let `k` pass in the region `check`, `n` regions ago -/
  | cleared (k : Uuid) (check : Region) (n : Nat)
  /-- `keyblob::open` has returned, and its outcome is not recorded yet -/
  | opened (k : Uuid) (result : VaultResult Bytes)
  /-- the key is open, and not cached yet -/
  | holding (k : Uuid) (bytes : Bytes)
  | over

namespace Phase

/-- One more region has run. -/
def idle : Phase → Phase
  | cleared k check n => cleared k check (n + 1)
  | x => x

/-- Nothing is left to record. -/
def Settled : Phase → Prop
  | opened .. => False
  | _ => True

def Untried : Phase → Prop
  | fresh | cleared .. => True
  | _ => False

/-- The outcome is recorded. -/
def Tried : Phase → Prop
  | holding .. | .over => True
  | _ => False

/-- After the outcome is recorded. -/
def known (k : Uuid) : VaultResult Bytes → Phase
  | .ok sk => holding k sk
  | .error _ => .over

theorem Untried.settled {x : Phase} (h : x.Untried) : x.Settled := by
  cases x <;> trivial

theorem Untried.idle {x : Phase} (h : x.Untried) : x.idle.Untried := by
  cases x <;> trivial

theorem Settled.idle {x : Phase} (h : x.Settled) : x.idle.Settled := by
  cases x <;> trivial

theorem Tried.idle {x : Phase} (h : x.Tried) : x.idle.Tried := by
  cases x <;> trivial

theorem Tried.not_untried {x : Phase} (h : x.Tried) : ¬ x.Untried := by
  cases x <;> first | exact id | cases h

theorem known_tried (k : Uuid) (r : VaultResult Bytes) : (known k r).Tried := by cases r <;> trivial

end Phase

/-- The operations that do more to the throttle than the others. -/
inductive Kind where
  | plain
  | unlock
  | protocol

/-- What the next region of a call does, by how far it has come. -/
inductive Attempt (C : Crates) (kind : Kind) : Phase → Region → Phase → Prop
  | idle {x : Phase} {m : Region} (hx : x.Settled) (h : Idles m.before m.after) :
      Attempt C kind x m x.idle
  | check {x : Phase} {m : Region} {k : Uuid} (hx : x.Untried) (h : Idles m.before m.after)
      (hc : m.before.throttle.check (SecretId.key C k) m.input.now = .ok ()) :
      Attempt C kind x m (.cleared k m 0)
  | opens {k : Uuid} {check m : Region} {r : VaultResult Bytes} (h : OpensAs m k r)
      (throttle : m.after.throttle = m.before.throttle) (retention : Fewer m) :
      Attempt C kind (.cleared k check 1) m (.opened k r)
  | records {k : Uuid} {m : Region} {r : VaultResult Bytes} (hist : m.after.hist = m.before.hist)
      (throttle : m.after.throttle =
        recorded m.before.throttle (SecretId.key C k) m.input.now r.isOk) (retention : Fewer m) :
      Attempt C kind (.opened k r) m (.known k r)
  | caches {k : Uuid} {sk : Bytes} {m : Region} (secs : UInt32)
      (hist : m.after.hist = .cached k sk secs m.input.now :: m.before.hist)
      (throttle : m.after.throttle = m.before.throttle)
      (entry : ∃ e, m.after.retention.get k = some e ∧ e.bytes = sk)
      (retention : ∀ j e, j ≠ k → m.after.retention.get j = some e →
        m.before.retention.get j = some e) :
      Attempt C kind (.holding k sk) m .over
  | reseals {k : Uuid} {check m : Region} {r : VaultResult Bytes} (h : OpensAs m k r)
      (throttle : m.after.throttle =
        recorded m.before.throttle (SecretId.key C k) m.input.now r.isOk) (retention : Fewer m) :
      Attempt C kind (.cleared k check 0) m .over
  | unlocks {x : Phase} {m : Region} {id : Uuid} {ok : Bool} (hk : kind = .unlock) (hx : x.Untried)
      (hist : m.after.hist = m.before.hist)
      (throttle : m.after.throttle =
        recorded m.before.throttle (SecretId.compartment C id) m.input.now ok)
          (retention : Fewer m) :
      Attempt C kind x m .over
  | again {x : Phase} {m : Region} {k : Uuid} {ok : Bool} (hk : kind = .protocol) (hx : x.Settled)
      (hist : m.after.hist = m.before.hist)
      (throttle : m.after.throttle = recorded m.before.throttle (SecretId.key C k) m.input.now ok)
      (retention : Fewer m) : Attempt C kind x m .over

/-! ## Regions that only read -/

section
variable {C : Crates} {kind : Kind} {A : Vault → In → Prop} {ε α : Type}

theorem idles_enter (v : Vault) (e : In) : Idles v (v.enter e) :=
  ⟨rfl, .inl rfl, fun _ _ hk => Vault.get_enter_retention hk⟩

theorem fewer_of_enter {v w : Vault} {e : In} (h : w.retention = (v.enter e).retention) :
    Fewer ⟨v, e, w⟩ := fun _ _ hk => Vault.get_enter_retention (h ▸ hk)

theorem idles_of_enter {v w : Vault} {e : In} (ht : w.throttle = v.throttle) (hh : w.hist = v.hist)
    (hr : w.retention = (v.enter e).retention) : Idles v w :=
  ⟨ht, .inl hh, fewer_of_enter hr⟩

/-- A call that never tries a passphrase. -/
theorem follows_idle : ∀ {p : Prog In Vault ε α} {x : Phase}, x.Settled → p.Within A Idles →
    p.Follows A (Attempt C kind) (fun y _ => y.Settled) x
  | .done _, _, hx, _ => hx
  | .region _ _, _, hx, hp => fun v e ha =>
    ⟨_, .idle hx (hp e v ha).1, follows_idle hx.idle (hp e v ha).2⟩

/-- One region that reads. -/
theorem follows_read {x : Phase} (hx : x.Settled) (f : In → Vault → α)
    {Q : Phase → Except ε α → Prop} (hq : ∀ a, Q x.idle (.ok a)) :
    (ask (fun e v => (f e v, v)) : Prog In Vault ε α).Follows A (Attempt C kind) Q x :=
  Prog.follows_atomic.2 fun v e _ => ⟨_, .idle hx (idles_enter v e), hq _⟩

theorem throttleCheck_follows {x : Phase} (hx : x.Untried) (k : Uuid) :
    (throttleCheck (SecretId.key C k)).Follows A (Attempt C kind) (fun y r => match r with
      | .ok _ => ∃ m, y = .cleared k m 0
      | .error _ => y.Untried) x := by
  refine Prog.follows_atomic.2 fun v e _ => ?_
  simp only [Vault.enter_throttle]
  cases hc : v.throttle.check (SecretId.key C k) e.now with
  | ok u => exact ⟨_, .check hx (idles_enter v e) hc, _, rfl⟩
  | error y => exact ⟨_, .idle hx.settled (idles_enter v e), hx.idle⟩

/-! ## The parts of an attempt -/

theorem openBlob_follows {k : Uuid} {check : Region} (ty : KeyType) (label : String) (b : Bytes)
    (blob : KeyBlob) (pw : Bytes) :
    (openBlob C k ty label b blob pw : Prog In Vault ε _).Follows A (Attempt C kind)
      (fun y r => ∃ result, r = .ok result ∧ y = .opened k result) (.cleared k check 1) :=
  Prog.follows_atomic.2 fun _ _ _ =>
    ⟨_, .opens ⟨b, pw, ty, label, _, rfl⟩ rfl (fewer_of_enter rfl), _, rfl, rfl⟩

theorem decryptKey_follows {x : Phase} (hx : x.Untried) (c k : Uuid) (pw : String) :
    (decryptKey C c k pw).Follows A (Attempt C kind) (fun y r => match r with
      | .ok sk => y = .holding k sk
      | .error _ => y.Settled) x := by
  have hlater : ∀ {m : Region} {n : Nat} {γ : Type} {q : FacadeResult γ},
      (Prog.done q : Op γ).Follows A (Attempt C kind) (fun y _ => y = .cleared k m n)
        (.cleared k m n) :=
    fun {_ _ _ _} => rfl
  unfold decryptKey
  refine Prog.Follows.bind ?_ (fun _ _ hy => Phase.Untried.settled hy) (throttleCheck_follows hx k)
  rintro _ y ⟨m, rfl⟩
  refine Prog.Follows.bind (Q := fun y _ => y = .cleared k m 1) ?_
    (fun _ _ hy => by rw [hy]; trivial)
    (Prog.follows_atomic.2 fun v e _ => ⟨_, .idle trivial (idles_enter v e), rfl⟩)
  rintro ⟨ty, label, b⟩ _ rfl
  refine Prog.Follows.bind ?_ (fun _ _ hy => by rw [hy]; trivial) hlater
  rintro blob _ rfl
  refine Prog.Follows.bind ?_ ?_ (openBlob_follows ty label b blob (utf8 pw))
  · rintro a y ⟨result, hr, rfl⟩
    obtain rfl : a = result := Except.ok.inj hr
    cases a with
    | ok sk => exact fun v e _ => ⟨_, .records rfl rfl (fewer_of_enter rfl), rfl⟩
    | error z => exact fun v e _ => ⟨_, .records rfl rfl (fewer_of_enter rfl), trivial⟩
  · rintro z y ⟨result, hr, -⟩
    cases hr

theorem cacheKey_follows (k : Uuid) (sk : Bytes) (secs : UInt32) :
    (cacheKey k sk secs : Prog In Vault ε _).Follows A (Attempt C kind) (fun y _ => y.Settled)
      (.holding k sk) := by
  refine Prog.follows_atomic.2 fun v e _ => ?_
  simp only
  cases hi : Retention.insert (v.enter e).retention k sk secs e.now with
  | error x => exact ⟨_, .idle trivial (idles_enter v e), trivial⟩
  | ok r =>
    obtain ⟨-, rfl⟩ := Retention.insert_ok.1 hi
    refine ⟨.over, .caches secs rfl rfl ⟨_, HashMap.get_put_self _ _ _, rfl⟩ fun j entry hj hk =>
      ?_, trivial⟩
    simp only [Vault.log_retention, Vault.setRetention_retention, HashMap.get_put, if_neg hj] at hk
    exact Vault.get_enter_retention hk

theorem useKey_idles (k : Uuid) (ty : KeyType) (m : Bytes) :
    (useKey C k ty m : Prog In Vault ε _).Within A Idles := by
  refine within_ask.2 fun e v _ => ?_
  have hsub : ∀ j entry, (Retention.useKey (v.enter e).retention k e.now
      fun bytes => (bytes, keysSign C ty bytes m)).2.get j = some entry →
        v.retention.get j = some entry :=
    fun _ _ hj => Vault.get_enter_retention (Retention.get_useKey hj)
  simp only
  split
  · exact ⟨rfl, .inl rfl, hsub⟩
  · exact ⟨rfl, .inr ⟨_, rfl, id⟩, hsub⟩
  · exact ⟨rfl, .inl rfl, hsub⟩

theorem useKey_follows {x : Phase} (hx : x.Settled) (k : Uuid) (ty : KeyType) (m : Bytes) :
    (useKey C k ty m : Prog In Vault ε _).Follows A (Attempt C kind) (fun y _ => y.Settled) x :=
  follows_idle hx (useKey_idles k ty m)

theorem findKeyRegion_follows {x : Phase} (hx : x.Untried) (k : Uuid) :
    (findKeyRegion k : Prog In Vault ε _).Follows A (Attempt C kind) (fun y _ => y.Untried) x :=
  follows_read hx.settled (fun e v => findKeyAnywhere e.orders v.state k) fun _ => hx.idle

theorem containsKey_follows {x : Phase} (hx : x.Untried) (k : Uuid) :
    (containsKey k : Prog In Vault ε _).Follows A (Attempt C kind) (fun y _ => y.Untried) x :=
  follows_read hx.settled (fun e v => Retention.contains v.retention k e.now) fun _ => hx.idle

theorem prompt_follows {x : Phase} (hx : x.Untried) :
    (prompt : Prog In Vault ε _).Follows A (Attempt C kind) (fun y _ => y.Untried) x :=
  follows_read hx.settled (fun e _ => e.reply) fun _ => hx.idle

/-- Sequencing, when the first part leaves nothing to record. -/
theorem settled_bind {β : Type} {p : Prog In Vault ε α} {f : α → Prog In Vault ε β} {x : Phase}
    (hp : p.Follows A (Attempt C kind) (fun y _ => y.Settled) x)
    (hf : ∀ a y, Phase.Settled y → (f a).Follows A (Attempt C kind) (fun y _ => y.Settled) y) :
    (p.bind f).Follows A (Attempt C kind) (fun y _ => y.Settled) x :=
  Prog.Follows.bind (fun a y hy => hf a y hy) (fun _ _ hy => hy) hp

/-- Sequencing, when the first part tries no passphrase. -/
theorem untried_bind {β : Type} {p : Prog In Vault ε α} {f : α → Prog In Vault ε β} {x : Phase}
    (hp : p.Follows A (Attempt C kind) (fun y _ => y.Untried) x)
    (hf : ∀ a y, Phase.Untried y → (f a).Follows A (Attempt C kind) (fun y _ => y.Settled) y) :
    (p.bind f).Follows A (Attempt C kind) (fun y _ => y.Settled) x :=
  Prog.Follows.bind (fun a y hy => hf a y hy) (fun _ _ hy => hy.settled) hp

/-- A passphrase that the caller gave. -/
theorem decrypt_bind {β : Type} {x : Phase} (hx : x.Untried) {c k : Uuid} {pw : String}
    {f : Bytes → Op β}
    (hf : ∀ sk, (f sk).Follows A (Attempt C kind) (fun y _ => y.Settled) (.holding k sk)) :
    ((decryptKey C c k pw).bind f).Follows A (Attempt C kind) (fun y _ => y.Settled) x := by
  refine Prog.Follows.bind (fun sk y hy => ?_) ?_ (decryptKey_follows hx c k pw)
  · obtain rfl : y = .holding k sk := hy
    exact hf sk
  · exact fun _ _ hy => hy

/-- A passphrase that the user was asked for: a refused one is a value. -/
theorem prompted_follows {x : Phase} (hx : x.Untried) (c k : Uuid) (pw : String)
    {f : FacadeResult Bytes → Prog In Vault ε α}
    (hok : ∀ sk, (f (.ok sk)).Follows A (Attempt C kind) (fun y _ => y.Settled) (.holding k sk))
    (herror : ∀ z y, Phase.Settled y → (f (.error z)).Follows A (Attempt C kind)
      (fun y _ => y.Settled) y) :
    ((decryptKey C c k pw).attempt.bind f).Follows A (Attempt C kind) (fun y _ => y.Settled) x := by
  refine Prog.Follows.attempt_bind (fun r y hy => ?_) (decryptKey_follows hx c k pw)
  cases r with
  | ok sk =>
    obtain rfl : y = .holding k sk := hy
    exact hok sk
  | error z => exact herror z y hy

/-! ## The signing operations -/

theorem protocolUse_follows {x : Phase} (hx : x.Settled) (k : Uuid) (ty : KeyType) (pk m : Bytes) :
    (protocolUse C k ty pk m : Prog In Vault ε _).Follows A (Attempt C kind)
    (fun y _ => y.Settled) x := by
  unfold protocolUse
  refine settled_bind (useKey_follows hx k ty m) fun q y hy => ?_
  split
  · exact hy
  · exact hy

theorem protocolSign_follows {x : Phase} (hx : x.Untried) (k : Uuid) (m : Bytes) :
    (protocolSign C k m : Prog In Vault ε _).Follows A (Attempt C kind)
    (fun y _ => y.Settled) x := by
  unfold protocolSign
  refine untried_bind (follows_read hx.settled
    (fun e v => findForProtocol e.orders v.state k) fun _ => hx.idle) fun f y hy => ?_
  cases f with
  | none => exact hy.settled
  | some p =>
    obtain ⟨ty, pk, c⟩ := p
    refine untried_bind (containsKey_follows hy k) fun b y hy => ?_
    cases b with
    | true => exact protocolUse_follows hy.settled k ty pk m
    | false =>
      refine untried_bind (prompt_follows hy) fun reply y hy => ?_
      cases reply with
      | none => exact hy.settled
      | some pw =>
        refine prompted_follows hy c k pw (fun sk => ?_) fun z y hy => hy
        refine settled_bind (cacheKey_follows k sk _) fun q y hy => ?_
        cases q with
        | error z => exact hy
        | ok _ => exact protocolUse_follows hy k ty pk m

theorem handleProtocolRequest_follows (caller : String) (raw : Bytes) :
    (handleProtocolRequest C caller raw).Follows A (Attempt C .protocol) (fun y _ => y.Settled)
    .fresh := by
  have hfresh : Phase.fresh.Untried := trivial
  by_cases hreq : ∃ k message, SignRequest C raw k message
  · obtain ⟨k, message, hreq⟩ := hreq
    obtain ⟨id, heq⟩ := request_of_sign hreq caller
    rw [heq]
    refine untried_bind (follows_read hfresh.settled
      (fun e v => v.throttle.check (SecretId.key C k) e.now) fun _ => hfresh) fun checked y hy => ?_
    cases checked with
    | error z => exact hy.settled
    | ok _ =>
      refine settled_bind (protocolSign_follows hy k message) fun o y hy => ?_
      cases o with
      | signed sig pk =>
        exact fun v e _ => ⟨.over, .again rfl hy rfl
          (show _ = recorded v.throttle (SecretId.key C k) e.now true from rfl)
            (fewer_of_enter rfl), trivial⟩
      | keyNotFound => exact hy
      | userDeclined => exact hy
      | passphraseIncorrect =>
        exact fun v e _ => ⟨.over, .again rfl hy rfl
          (show _ = recorded v.throttle (SecretId.key C k) e.now false from rfl)
            (fewer_of_enter rfl), trivial⟩
  · have hnot : ∀ k m, ¬ SignRequest C raw k m := fun k m ha => hreq ⟨k, m, ha⟩
    rcases request_of_other hnot caller with ⟨q, heq⟩ | ⟨reply, heq⟩
    · rw [heq]
      exact hfresh.settled
    · rw [heq]
      exact untried_bind (follows_read hfresh.settled
        (fun e v => listPublicKeys e.orders v.state) fun _ => hfresh) fun _ _ hy => hy.settled

theorem ctap2Use_follows {y : Phase} (hy : y.Settled) (k : Uuid) (ty : KeyType) (m : Bytes) :
    (ctap2Use C k ty m).Follows A (Attempt C kind) (fun y _ => y.Settled) y := by
  unfold ctap2Use
  refine settled_bind (useKey_follows hy k ty m) fun q y hy => ?_
  split
  · exact hy
  · exact hy

theorem ctap2Sign_follows {x : Phase} (hx : x.Untried) (prompts : Bool) (k : Uuid) (m : Bytes) :
    (ctap2Sign C prompts k m).Follows A (Attempt C kind) (fun y _ => y.Settled) x := by
  unfold ctap2Sign
  refine untried_bind (findKeyRegion_follows hx k) fun f y hy => ?_
  cases f with
  | none => exact hy.settled
  | some p =>
    obtain ⟨ty, c⟩ := p
    refine untried_bind (containsKey_follows hy k) fun b y hy => ?_
    cases b with
    | true => exact ctap2Use_follows hy.settled k ty m
    | false =>
      refine Prog.Follows.attempt_bind (fun r y hy => ?_) (throttleCheck_follows hy k)
      cases r with
      | error z => exact Phase.Untried.settled hy
      | ok _ =>
        obtain ⟨check, rfl⟩ := hy
        cases prompts with
        | false => trivial
        | true =>
          have hcleared : (Phase.cleared k check 0).Untried := trivial
          refine untried_bind (prompt_follows hcleared) fun reply y hy => ?_
          cases reply with
          | none => exact hy.settled
          | some pw =>
            refine prompted_follows hy c k pw (fun sk => ?_) fun z y hy => hy
            refine settled_bind (cacheKey_follows k sk _) fun q y hy => ?_
            cases q with
            | error z => exact hy
            | ok _ => exact ctap2Use_follows hy k ty m

/-! ## The other operations -/

theorem unlockCompartment_follows (c pw : String) :
    (unlockCompartment C c pw).Follows A (Attempt C .unlock) (fun y _ => y.Settled) .fresh := by
  unfold unlockCompartment
  cases parseUuid C c with
  | error x => trivial
  | ok id =>
    refine untried_bind (p := throttleCheck (SecretId.compartment C id)) ?_ fun _ y hy => ?_
    · exact fun v e _ => ⟨_, .idle trivial (idles_enter v e), trivial⟩
    · refine fun v e _ => ?_
      unfold unlockRegion
      simp only
      split
      · exact ⟨_, .idle hy.settled (idles_enter v e), hy.idle.settled⟩
      · split
        · exact ⟨_, .idle hy.settled (idles_enter v e), hy.idle.settled⟩
        · split
          · exact ⟨_, .idle hy.settled (idles_enter v e), hy.idle.settled⟩
          · split
            · exact ⟨.over,
                .unlocks rfl hy rfl (show _ = recorded v.throttle (SecretId.compartment C id)
                e.now true from rfl) (fewer_of_enter rfl), trivial⟩
            · exact ⟨.over,
                .unlocks rfl hy rfl (show _ = recorded v.throttle (SecretId.compartment C id)
                e.now false from rfl) (fewer_of_enter rfl), trivial⟩

theorem resealRegion_frame (e : In) (v : Vault) (c k : Uuid) (ty : KeyType) (label new : String)
    (sk : Bytes) : (resealRegion C c k ty label sk new e v).2.throttle = v.throttle ∧
    (resealRegion C c k ty label sk new e v).2.hist = v.hist ∧
    (resealRegion C c k ty label sk new e v).2.retention = v.retention := by
  unfold resealRegion
  cases sealKey C e new sk k ty label with
  | error x => exact ⟨rfl, rfl, rfl⟩
  | ok b =>
    simp only
    cases unlockedCompartment v.state c with
    | error x => exact ⟨rfl, rfl, rfl⟩
    | ok u => exact persistLocked_frame e v _ c

theorem changeKeyPassphrase_follows (c k old new : String) :
    (changeKeyPassphrase C c k old new).Follows A (Attempt C kind) (fun y _ => y.Settled)
    .fresh := by
  unfold changeKeyPassphrase
  cases parseUuid C c with
  | error x => trivial
  | ok c =>
    cases parseUuid C k with
    | error x => trivial
    | ok k =>
      refine Prog.Follows.bind ?_ (fun _ _ hy => Phase.Untried.settled hy)
        (throttleCheck_follows (x := .fresh) trivial k)
      rintro _ y ⟨check, rfl⟩ v e -
      simp only [changePassphraseRegion]
      cases lookupBlob (v.enter e).state c k with
      | error x => exact ⟨_, .idle trivial (idles_enter v e), trivial⟩
      | ok p =>
        obtain ⟨ty, label, b⟩ := p
        simp only
        cases KeyBlobOf.fromBytes C b with
        | error x => exact ⟨_, .idle trivial (idles_enter v e), trivial⟩
        | ok blob =>
          simp only
          cases keyblobOpen C blob (utf8 old) k ty label with
          | error x =>
            exact ⟨.over, .reseals ⟨b, utf8 old, ty, label, _, rfl⟩ rfl (fewer_of_enter rfl),
              trivial⟩
          | ok sk =>
            obtain ⟨ht, hh, hr⟩ :=
              resealRegion_frame (C := C) e (((v.enter e).log (.opened k b (utf8 old)
              ty label (.ok sk) (v.enter e).state)).setThrottle ((v.enter e).throttle.recordSuccess
              (SecretId.key C k))) c k ty label new sk
            exact ⟨.over, .reseals (r := .ok sk) ⟨b, utf8 old, ty, label, _, hh⟩ ht
              (fewer_of_enter hr), trivial⟩

theorem revealRawKeyHex_follows (c k pw : String) :
    (revealRawKeyHex C c k pw).Follows A (Attempt C kind) (fun y _ => y.Settled) .fresh := by
  unfold revealRawKeyHex
  cases parseUuid C c with
  | error x => trivial
  | ok c =>
    cases parseUuid C k with
    | error x => trivial
    | ok k => exact decrypt_bind (x := .fresh) trivial fun _ => trivial

theorem unlockKey_follows (c k pw : String) (secs : UInt32) :
    (unlockKey C c k pw secs).Follows A (Attempt C kind) (fun y _ => y.Settled) .fresh := by
  unfold unlockKey
  cases parseUuid C c with
  | error x => trivial
  | ok c =>
    cases parseUuid C k with
    | error x => trivial
    | ok k =>
      refine decrypt_bind (x := .fresh) trivial fun sk => ?_
      exact settled_bind (cacheKey_follows k sk secs) fun _ _ hy => hy

theorem mutate_idles {β : Type} (e : In) (v : Vault) (d : FacadeResult (Edit β)) :
    Idles v (mutate C e (v.enter e) d).2 := by
  have hf := mutate_frame (C := C) e (v.enter e) d
  rw [hf]
  exact idles_of_enter rfl rfl rfl

theorem getAssertion_follows (cbor : Bytes) (up uv : Bool) :
    (handleFido2GetAssertion C cbor up uv).Follows A (Attempt C kind) (fun y _ => y.Settled)
    .fresh := by
  unfold handleFido2GetAssertion
  cases parseGetAssertion C cbor with
  | error x => trivial
  | ok request =>
    have hfresh : Phase.fresh.Untried := trivial
    refine settled_bind (Prog.Follows.mapError ?_) fun o y hy => ?_
    · unfold handleGetAssertion
      refine untried_bind (follows_read hfresh.settled
        (fun e v => credentialsForRp C e.orders v.state request.rpId) fun _ => hfresh)
          fun cands y hy => ?_
      refine untried_bind (p := Prog.ofExcept _) hy fun chosen y hy => ?_
      exact settled_bind (ctap2Sign_follows hy true _ _) fun _ _ hy => hy
    · refine fun v e _ => ⟨_, .idle hy ?_, hy.idle⟩
      show Idles v (commitAssertion C o e (v.enter e)).2
      rw [commitAssertion_eq]
      exact mutate_idles e v _

/-! ## The calls that try no passphrase -/

theorem replying_idles {β : Type} {p : Op β} {f : β → Reply} (h : p.Within A Idles) :
    (replying p f).Within A Idles := h.bind fun _ => trivial

theorem lockCompartment_idles (c : String) : (lockCompartment C c).Within A Idles := by
  unfold lockCompartment
  cases C.uuidParse c with
  | error x => trivial
  | ok id => exact within_region.2 fun e v _ => idles_of_enter (e := e) rfl rfl rfl

/-- A region that logs a revocation and takes keys out of the cache. -/
theorem idles_revoke {v w : Vault} (ev : Event) (hev : ¬ Tries ev) (ht : w.throttle = v.throttle)
    (hh : w.hist = ev :: v.hist)
    (hr : ∀ k e, w.retention.get k = some e → v.retention.get k = some e) : Idles v w :=
  ⟨ht, .inr ⟨ev, hh, hev⟩, hr⟩

theorem lockAll_idles : lockAll.Within A Idles := by
  refine Prog.Within.bind (within_region.2 fun e v _ => idles_of_enter (e := e) rfl rfl rfl)
    fun _ => ?_
  refine within_region.2 fun e v _ => idles_revoke .lockedAll id rfl rfl fun k entry hk => ?_
  simp [Retention.wipeAll] at hk

theorem get_wipe {r : Retention.RetentionCache} {k j : Uuid} {entry : Retention.CachedKey}
    (h : (Retention.wipe r k).get j = some entry) : r.get j = some entry := by
  rw [Retention.wipe, HashMap.get_del] at h
  split at h
  · cases h
  · exact h

theorem lockKey_idles (k : String) : (lockKey C k).Within A Idles := by
  unfold lockKey
  cases C.uuidParse k with
  | error x => trivial
  | ok k =>
    exact within_region.2 fun e v _ => idles_revoke (.lockedKey k) id rfl rfl fun j entry hj =>
      Vault.get_enter_retention (get_wipe hj)

theorem discardKey_idles (c k t : String) : (discardKey C c k t).Within A Idles := by
  unfold discardKey
  cases parseUuid C c with
  | error x => trivial
  | ok c =>
    cases parseUuid C k with
    | error x => trivial
    | ok k =>
      refine Prog.Within.bind (within_region.2 fun e v _ => ?_) fun _ => ?_
      · unfold discardRegion
        cases prepareDiscardKey (v.enter e).state c k t with
        | error x => exact idles_enter v e
        | ok u =>
          obtain ⟨ht, hh, hr⟩ := persistLocked_frame (C := C) e (v.enter e)
            (((v.enter e).state.setUnlocked c (u.remove k)).removeKeyBlob k) c
          simp only
          generalize persistLocked C e _ c = q at ht hh hr ⊢
          obtain ⟨r, w⟩ := q
          cases r with
          | error x => exact idles_of_enter ht hh hr
          | ok _ => exact idles_revoke (.discarded k) id ht (congrArg _ hh) (fewer_of_enter hr)
      · refine within_region.2 fun e v _ => ⟨rfl, .inl rfl, fun j entry hj => ?_⟩
        exact Vault.get_enter_retention (get_wipe hj)

theorem sign_idles (k : String) (m : Bytes) : (sign C k m).Within A Idles := by
  unfold sign
  cases parseUuid C k with
  | error x => trivial
  | ok k =>
    refine Prog.Within.bind (within_ask.2 fun e v _ => idles_enter v e) fun f => ?_
    cases f with
    | none => trivial
    | some p =>
      refine Prog.Within.bind (useKey_idles k p.1 m) fun r => ?_
      cases r <;> trivial

theorem makeCredential_idles (a : MakeCredentialArgs) :
    (handleFido2MakeCredential C a).Within A Idles := by
  unfold handleFido2MakeCredential
  cases parseUuid C a.compartmentId with
  | error x => trivial
  | ok c =>
    cases parseMakeCredential C a.requestCbor with
    | error x => trivial
    | ok request =>
      refine Prog.Within.bind ?_ fun outcome => ?_
      · refine Prog.Within.mapError ?_
        unfold handleMakeCredential
        refine Prog.Within.bind (p := (ctap2Backend C false).credentialsForRp request.rpId)
          (fun e v _ => ⟨idles_enter v e, trivial⟩) fun _ => ?_
        refine Prog.Within.bind (p := Prog.ofExcept _) trivial fun _ => ?_
        exact Prog.Within.bind (within_ask.2 fun e v _ => idles_enter v e) fun _ => trivial
      · refine within_region.2 fun e v _ => ?_
        rw [makeCredentialRegion_eq]
        exact mutate_idles e v _

end

/-! ## Every call -/

def kindOf : Call → Kind
  | .unlockCompartment .. => .unlock
  | .handleProtocolRequest .. => .protocol
  | _ => .plain

/-- **Every call goes through the phases of an attempt.** -/
theorem call_follows (C : Crates) (A : Vault → In → Prop) (call : Call) :
    (call.run C).Follows A (Attempt C (kindOf call)) (fun y _ => y.Settled) .fresh := by
  have hreply : ∀ {α : Type} {p : Op α} {f : α → Reply} {kind : Kind},
      p.Follows A (Attempt C kind) (fun y _ => y.Settled) .fresh →
      (replying p f).Follows A (Attempt C kind) (fun y _ => y.Settled) .fresh :=
    fun hp => settled_bind hp fun _ _ hy => hy
  have hidle : ∀ {α : Type} {p : Op α} {f : α → Reply}, p.Within A Idles →
      (replying p f).Follows A (Attempt C .plain) (fun y _ => y.Settled) .fresh :=
    fun hp => follows_idle trivial (replying_idles hp)
  cases call with
  | unlockCompartment c p => exact hreply (unlockCompartment_follows c p)
  | lockCompartment c => exact hidle (lockCompartment_idles c)
  | lockAll => exact hidle lockAll_idles
  | addCompartment l p d =>
    refine hidle (within_region.2 fun e v _ => ?_)
    rw [addCompartmentRegion_eq]
    exact mutate_idles e v _
  | createKey a =>
    refine hidle (within_region.2 fun e v _ => ?_)
    rw [createKeyRegion_eq]
    exact mutate_idles e v _
  | discardKey c k t => exact hidle (discardKey_idles c k t)
  | changeKeyPassphrase c k o n => exact hreply (changeKeyPassphrase_follows c k o n)
  | revealRawKeyHex c k p => exact hreply (revealRawKeyHex_follows c k p)
  | unlockKey c k p s => exact hreply (unlockKey_follows c k p s)
  | lockKey k => exact hidle (lockKey_idles k)
  | sign k m => exact hidle (sign_idles k m)
  | handleProtocolRequest i q => exact hreply (handleProtocolRequest_follows i q)
  | handleFido2MakeCredential a => exact hidle (makeCredential_idles a)
  | handleFido2GetAssertion q p u => exact hreply (getAssertion_follows q p u)
  | mergeReencryptDiscardIncoming t j b =>
    refine hidle (within_region.2 fun e v _ => ?_)
    rw [merge1Region_eq]
    exact mutate_idles e v _
  | mergeSideBySide j b l p d =>
    refine hidle (within_region.2 fun e v _ => ?_)
    rw [merge2Region_eq]
    exact mutate_idles e v _
  | mergeReplaceLocalWithIncoming t j b p k c =>
    refine hidle (within_region.2 fun e v _ => ?_)
    rw [merge3Region_eq]
    exact mutate_idles e v _
  | query q => exact hidle (within_region.2 fun e v _ => idles_enter v e)

/-! ## The whole of an attempt -/

/-- The throttle stays, and nothing is verified. -/
structure Untouched (m : Region) : Prop where
  throttle : m.after.throttle = m.before.throttle
  verifications : ∀ k, verifications k m.after.hist = verifications k m.before.hist

/-- A call that is neither of the two others tries one passphrase at most, and
records its outcome once. -/
inductive Shape (C : Crates) : List Region → Prop
  | untried {w : List Region} (h : ∀ m ∈ w, Untouched m) : Shape C w
  | tried {a b : List Region} {m₁ m₂ : Region} {k : Uuid} {r : VaultResult Bytes}
      (ha : ∀ m ∈ a, Untouched m) (opens : OpensAs m₁ k r)
      (keeps : m₁.after.throttle = m₁.before.throttle) (hist : m₂.after.hist = m₂.before.hist)
      (record : m₂.after.throttle =
        recorded m₂.before.throttle (SecretId.key C k) m₂.input.now r.isOk)
      (hb : ∀ m ∈ b, Untouched m) : Shape C (a ++ m₁ :: m₂ :: b)
  | resealed {a b : List Region} {m : Region} {k : Uuid} {r : VaultResult Bytes}
      (ha : ∀ m ∈ a, Untouched m) (opens : OpensAs m k r)
      (record : m.after.throttle = recorded m.before.throttle (SecretId.key C k) m.input.now r.isOk)
      (hb : ∀ m ∈ b, Untouched m) : Shape C (a ++ m :: b)

section
variable {C : Crates} {x y : Phase} {w : List Region} {m : Region}

theorem not_opensAs_of_hist (h : m.after.hist = m.before.hist) (k : Uuid) (r : VaultResult Bytes) :
    ¬ OpensAs m k r := by
  rintro ⟨b, pw, ty, label, s, ho⟩
  rw [h] at ho
  exact absurd (congrArg List.length ho) (by simp)

theorem verifications_opens {k : Uuid} {r : VaultResult Bytes} (h : OpensAs m k r) (j : Uuid) :
    verifications j m.after.hist =
      if k = j then r :: verifications j m.before.hist else verifications j m.before.hist := by
  obtain ⟨b, pw, ty, label, s, ho⟩ := h
  rw [ho]
  by_cases hj : k = j <;> simp [verifications, hj]

theorem Untouched.unopened (h : Untouched m) (k : Uuid) (r : VaultResult Bytes) :
    ¬ OpensAs m k r := by
  intro ho
  have hlen := congrArg List.length (h.verifications k)
  rw [verifications_opens ho, if_pos rfl] at hlen
  simp at hlen

theorem Idles.untouched (h : Idles m.before m.after) : Untouched m := by
  refine ⟨h.throttle, fun k => ?_⟩
  rcases h.hist with hh | ⟨ev, hh, hev⟩
  · rw [hh]
  · rw [hh]
    cases ev with
    | opened => exact absurd trivial hev
    | _ => rfl

theorem Shape.cons (h : Shape C w) (hm : Untouched m) : Shape C (m :: w) := by
  have hcons : ∀ {a : List Region}, (∀ m ∈ a, Untouched m) → ∀ x ∈ m :: a, Untouched x := by
    intro a ha x hx
    rcases List.mem_cons.1 hx with rfl | hx
    · exact hm
    · exact ha x hx
  cases h with
  | untried h => exact .untried (hcons h)
  | tried ha opens keeps hist record hb =>
    exact .tried (a := m :: _) (hcons ha) opens keeps hist record hb
  | resealed ha opens record hb => exact .resealed (a := m :: _) (hcons ha) opens record hb

/-- After the record nothing happens to the throttle. -/
theorem along_tried (h : Prog.Along (Attempt C .plain) x w y) :
    x.Tried → ∀ m ∈ w, Untouched m := by
  induction h with
  | nil x => simp
  | @cons x z y m w h _ ih =>
    intro hx
    have hstep : Untouched m ∧ z.Tried := by
      cases h with
      | idle hs h => exact ⟨h.untouched, hx.idle⟩
      | check hu => exact absurd hu hx.not_untried
      | opens => cases hx
      | records => cases hx
      | caches secs hist throttle =>
        refine ⟨⟨throttle, fun k => ?_⟩, trivial⟩
        rw [hist]
        rfl
      | reseals => cases hx
      | unlocks hk => cases hk
      | again hk => cases hk
    intro m' hm'
    rcases List.mem_cons.1 hm' with rfl | hm'
    · exact hstep.1
    · exact ih hstep.2 m' hm'

/-- **One attempt, recorded once.** -/
theorem along_shape (h : Prog.Along (Attempt C .plain) x w y) :
    x.Untried → y.Settled → Shape C w := by
  induction h with
  | nil x => exact fun _ _ => .untried (by simp)
  | @cons x z y m w h hw ih =>
    intro hx hy
    cases h with
    | idle hs h => exact (ih hx.idle hy).cons h.untouched
    | check hu h hc => exact (ih trivial hy).cons h.untouched
    | @opens k check _ r ho throttle retention =>
      cases hw with
      | nil => cases hy
      | @cons _ z' _ m' w h' hw =>
        cases h' with
        | idle hs => cases hs
        | check hu => cases hu
        | records hist record retention' =>
          exact .tried (a := []) (by simp) ho throttle hist record
            (along_tried hw (Phase.known_tried k r))
        | unlocks hk => cases hk
        | again hk => cases hk
    | records => cases hx
    | caches => cases hx
    | reseals ho record retention =>
      exact .resealed (a := []) (by simp) ho record (along_tried hw trivial)
    | unlocks hk => cases hk
    | again hk => cases hk

end

end VaultSigner.L5
