import VaultSigner.Core.Trace
import VaultSigner.L4Vault.Facade

/-!
# How a protocol request is served

The moves of `handle_protocol_request`, whatever other calls do between them.
`Decrypts`, `Uses` and `Serves` are the complete walks of `decrypt_key`, of a
use of the cache, and of the backend's `sign`: one constructor for each way
through the code, with what each region finds and leaves.

Results:
* `decryptKey_walk`, `protocolSign_walk`: every complete walk is one of these.
* `Decrypts.ok`, `Decrypts.error`: when `decrypt_key` succeeds.
* `later_chain`: what regions that only read leave of the vault.
* `request_walk`: the complete walks of a request.
-/
namespace VaultSigner.L4
open VaultSigner.Core VaultSigner.L1 VaultSigner.L2.Throttle VaultSigner.L3
open VaultSigner.L2

abbrev Region := Move In Vault

/-- The region reads, and changes nothing. -/
def Looks (m : Region) : Prop := m.after = m.before.enter m.input

section
variable {A : Vault → In → Prop} {ε α : Type} {w : List Region}

theorem walk_ask {body : In → Vault → α × Vault} {r : Except ε α} :
    Prog.Walk A (ask body) w (.done r) ↔ ∃ m, w = [m] ∧ A m.before m.input ∧
      m.after = (body m.input (m.before.enter m.input)).2 ∧
      r = .ok (body m.input (m.before.enter m.input)).1 := Prog.walk_atomic

theorem walk_op {body : In → Vault → FacadeResult α × Vault} {r : FacadeResult α} :
    Prog.Walk A (region body) w (.done r) ↔ ∃ m, w = [m] ∧ A m.before m.input ∧
      m.after = (body m.input (m.before.enter m.input)).2 ∧
      r = (body m.input (m.before.enter m.input)).1 := Prog.walk_atomic

theorem walk_replying {p : Op α} {f : α → Reply} {r : FacadeResult Reply} :
    Prog.Walk A (replying p f) w (.done r) ↔ ∃ q, r = q.map f ∧ Prog.Walk A p w (.done q) := by
  unfold replying
  rw [Prog.walk_bind]
  constructor
  · rintro (⟨x, rfl, h⟩ | ⟨a, w₁, w₂, rfl, h, h'⟩)
    · exact ⟨.error x, rfl, h⟩
    · obtain ⟨rfl, rfl⟩ := Prog.walk_done.1 h'
      exact ⟨.ok a, rfl, by rwa [List.append_nil]⟩
  · rintro ⟨q, rfl, h⟩
    cases q with
    | error x => exact .inl ⟨x, rfl, h⟩
    | ok a => exact .inr ⟨a, w, [], (List.append_nil w).symm, h, .nil _⟩

/-- A sequence whose first part is one region that cannot fail. -/
theorem walk_ask_bind {β : Type} {body : In → Vault → α × Vault} {f : α → Prog In Vault ε β}
    {r : Except ε β} : Prog.Walk A ((ask body).bind f) w (.done r) ↔
      ∃ m w', w = m :: w' ∧ A m.before m.input ∧
        m.after = (body m.input (m.before.enter m.input)).2 ∧
        Prog.Walk A (f (body m.input (m.before.enter m.input)).1) w' (.done r) :=
  Prog.walk_region

/-- A sequence whose first part is one region. -/
theorem walk_region_bind {β : Type} {body : In → Vault → FacadeResult α × Vault} {f : α → Op β}
    {r : FacadeResult β} : Prog.Walk A ((region body).bind f) w (.done r) ↔
      ∃ m w', w = m :: w' ∧ A m.before m.input ∧
        m.after = (body m.input (m.before.enter m.input)).2 ∧
        Prog.Walk A ((Prog.done (body m.input (m.before.enter m.input)).1).bind f) w' (.done r) :=
  Prog.walk_region

/-- A cached key that a use at the time of the region may take, and that the
sweeper had to leave. -/
theorem get_enter_live {v : Vault} {e : In} (ha : v.Admits e) {k : Uuid} {c : Retention.CachedKey} :
    ((v.enter e).retention.get k = some c ∧ c.Live e.now) ↔
      (v.retention.get k = some c ∧ c.Live e.now) := by
  constructor
  · rintro ⟨h, hl⟩; exact ⟨Vault.get_enter_retention h, hl⟩
  · rintro ⟨h, hl⟩
    refine ⟨?_, hl⟩
    unfold Vault.enter
    cases hs : e.sweptAt with
    | none => simpa [hs] using h
    | some t =>
      refine (Retention.get_sweepExpired _ _ _ _).2 ⟨h, hl.imp id fun hlt => ?_⟩
      exact Nat.lt_of_le_of_lt (ha.swept t hs).2 hlt

theorem contains_enter {v : Vault} {e : In} (ha : v.Admits e) (k : Uuid) :
    Retention.contains (v.enter e).retention k e.now = Retention.contains v.retention k e.now := by
  rw [Bool.eq_iff_iff, Retention.contains_iff, Retention.contains_iff]
  exact exists_congr fun c => get_enter_live ha

end

/-- Regions that only read lead from `v` to `x`: the clock has moved on, and
what has expired may be gone. -/
structure Later (v x : Vault) : Prop where
  state : x.state = v.state
  throttle : x.throttle = v.throttle
  hist : x.hist = v.hist
  retention : ∀ k c, x.retention.get k = some c → v.retention.get k = some c
  live : ∀ k c t, x.clock ≤ t → c.Live t → v.retention.get k = some c → x.retention.get k = some c
  clock : v.clock ≤ x.clock

theorem Later.refl (v : Vault) : Later v v :=
  ⟨rfl, rfl, rfl, fun _ _ h => h, fun _ _ _ _ _ h => h, Nat.le_refl _⟩

theorem Later.trans {v x y : Vault} (h : Later v x) (h' : Later x y) : Later v y where
  state := h'.state.trans h.state
  throttle := h'.throttle.trans h.throttle
  hist := h'.hist.trans h.hist
  retention := fun k c hk => h.retention k c (h'.retention k c hk)
  live := fun k c t ht hc hk => h'.live k c t ht hc (h.live k c t (Nat.le_trans h'.clock ht) hc hk)
  clock := Nat.le_trans h.clock h'.clock

theorem Later.enter {v : Vault} {e : In} (ha : v.Admits e) : Later v (v.enter e) where
  state := rfl
  throttle := rfl
  hist := rfl
  retention := fun _ _ => Vault.get_enter_retention
  live :=
    fun _ _ _ ht hc hk => ((get_enter_live ha).2 ⟨hk, hc.imp id fun h => Nat.lt_of_le_of_lt ht h⟩).1
  clock := ha.clock

theorem later_chain {x : Vault} :
    ∀ {w : List Region} {v : Vault}, Chain v w x → (∀ m ∈ w, Looks m) →
    (∀ m ∈ w, m.before.Admits m.input) → Later v x
  | [], v, h, _, _ => h ▸ .refl v
  | m :: _, _, ⟨hm, h⟩, hw, ha => by
    have hl := later_chain h (fun x hx => hw x (List.mem_cons_of_mem _ hx))
      fun x hx => ha x (List.mem_cons_of_mem _ hx)
    have hlook : m.after = m.before.enter m.input := hw m (by simp)
    subst hm
    rw [hlook] at hl
    exact (Later.enter (ha m (by simp))).trans hl

/-- What is live then was so before. -/
theorem Later.get_live {v x : Vault} (h : Later v x) {k : Uuid} {c : Retention.CachedKey} {t : Nat}
    (ht : x.clock ≤ t) :
    (x.retention.get k = some c ∧ c.Live t) ↔ (v.retention.get k = some c ∧ c.Live t) :=
  ⟨fun ⟨hk, hc⟩ => ⟨h.retention k c hk, hc⟩, fun ⟨hk, hc⟩ => ⟨h.live k c t ht hc hk, hc⟩⟩

theorem Later.contains {v x : Vault} (h : Later v x) (k : Uuid) {t : Nat} (ht : x.clock ≤ t) :
    Retention.contains x.retention k t = Retention.contains v.retention k t := by
  rw [Bool.eq_iff_iff, Retention.contains_iff, Retention.contains_iff]
  exact exists_congr fun c => h.get_live ht

/-- The throttle after a passphrase was tried: `record_success` if it was right,
`record_failure` if not. -/
def recorded (t : ThrottleTracker) (s : SecretId) (now : Nat) : Bool → ThrottleTracker
  | true => t.recordSuccess s
  | false => t.recordFailure s now

section
variable (C : Crates)

/-- What a passphrase makes of the blob that the vault holds for a key. -/
def openStored (s : VaultState) (c k : Uuid) (pw : String) : FacadeResult Bytes :=
  match lookupBlob s c k with
  | .error x => .error x
  | .ok (ty, label, b) => facade (opens C b (utf8 pw) k ty label)

/-! ## `decrypt_key` -/

/-- The complete walks of `decrypt_key`: locked out; stopped before the
passphrase was tried; or with the passphrase tried and the outcome recorded. -/
inductive Decrypts (c k : Uuid) (pw : String) : List Region → FacadeResult Bytes → Prop
  | lockedOut {m : Region} {x : VaultError} (look : Looks m)
      (check : m.before.throttle.check (SecretId.key C k) m.input.now = .error x) :
      Decrypts c k pw [m] (.error (.fromVault x))
  | unopened {m₁ m₂ : Region} {x : FacadeError} (look₁ : Looks m₁)
      (check : m₁.before.throttle.check (SecretId.key C k) m₁.input.now = .ok ()) (look₂ : Looks m₂)
      (stored : openStored C m₂.before.state c k pw = .error x) :
      Decrypts c k pw [m₁, m₂] (.error x)
  | opened {m₁ m₂ m₃ m₄ : Region} {ty : KeyType} {label : String} {b : Bytes}
      {result : VaultResult Bytes} (look₁ : Looks m₁)
      (check : m₁.before.throttle.check (SecretId.key C k) m₁.input.now = .ok ()) (look₂ : Looks m₂)
      (lookup : lookupBlob m₂.before.state c k = .ok (ty, label, b))
      (stored : opens C b (utf8 pw) k ty label = result)
      (opening : m₃.after = (m₃.before.enter m₃.input).log
        (.opened k b (utf8 pw) ty label result m₃.before.state))
      (record : m₄.after = (m₄.before.enter m₄.input).setThrottle
        (recorded m₄.before.throttle (SecretId.key C k) m₄.input.now result.isOk)) :
      Decrypts c k pw [m₁, m₂, m₃, m₄] (result.mapError fun _ => .failed "incorrect passphrase")

variable {C} {A : Vault → In → Prop} {c k : Uuid} {pw : String} {w : List Region}

theorem opens_parsed {b p : Bytes} {ty : KeyType} {label : String} {blob : KeyBlob}
    (h : KeyBlobOf.fromBytes C b = .ok blob) :
    opens C b p k ty label = keyblobOpen C blob p k ty label := by
  unfold opens
  rw [h]
  rfl

theorem decryptKey_walk {r : FacadeResult Bytes}
    (h : Prog.Walk A (decryptKey C c k pw) w (.done r)) :
    Decrypts C c k pw w r := by
  unfold decryptKey throttleCheck at h
  obtain ⟨m₁, w₁, rfl, -, hm₁, h⟩ := walk_region_bind.1 h
  simp only at hm₁ h
  cases hc : m₁.before.throttle.check (SecretId.key C k) m₁.input.now with
  | error x =>
    rw [Vault.enter_throttle, hc] at h
    obtain ⟨rfl, rfl⟩ := Prog.walk_done.1 h
    exact .lockedOut hm₁ hc
  | ok _ =>
    rw [Vault.enter_throttle, hc] at h
    simp only [facade, Prog.done_ok_bind, Prog.bind_eq] at h
    obtain ⟨m₂, w₂, rfl, -, hm₂, h⟩ := walk_region_bind.1 h
    simp only at hm₂ h
    rw [Vault.enter_state] at h
    cases hl : lookupBlob m₂.before.state c k with
    | error x =>
      rw [hl] at h
      obtain ⟨rfl, rfl⟩ := Prog.walk_done.1 h
      exact .unopened hm₁ hc hm₂ (by unfold openStored; rw [hl])
    | ok p =>
      obtain ⟨ty, label, b⟩ := p
      rw [hl] at h
      cases hb : KeyBlobOf.fromBytes C b with
      | error x =>
        simp only [Prog.done_ok_bind, Prog.ofExcept, hb] at h
        obtain ⟨rfl, rfl⟩ := Prog.walk_done.1 h
        refine .unopened hm₁ hc hm₂ ?_
        unfold openStored
        rw [hl]
        simp only [opens, hb]
        rfl
      | ok blob =>
        simp only [Prog.done_ok_bind, Prog.ofExcept, hb] at h
        obtain ⟨m₃, w₃, rfl, -, hm₃, h⟩ := walk_ask_bind.1 h
        have ho : opens C b (utf8 pw) k ty label = keyblobOpen C blob (utf8 pw) k ty label :=
          opens_parsed hb
        simp only at hm₃ h
        generalize keyblobOpen C blob (utf8 pw) k ty label = result at ho hm₃ h
        cases result with
        | ok sk =>
          obtain ⟨m₄, w₄, rfl, -, hm₄, h⟩ := walk_ask_bind.1 h
          obtain ⟨rfl, rfl⟩ := Prog.walk_done.1 h
          have hd := Decrypts.opened hm₁ hc hm₂ hl ho hm₃ hm₄
          exact hd
        | error x =>
          obtain ⟨m₄, w₄, rfl, -, hm₄, h⟩ := walk_ask_bind.1 h
          obtain ⟨rfl, rfl⟩ := Prog.walk_done.1 h
          have hd := Decrypts.opened hm₁ hc hm₂ hl ho hm₃ hm₄
          exact hd

/-- `decrypt_key` gives the key only to a passphrase that opens what is stored,
at a time when the key is not locked out. -/
theorem Decrypts.ok {sk : Bytes} (h : Decrypts C c k pw w (.ok sk)) : ∃ m₁ m₂ m₃ m₄,
    w = [m₁, m₂, m₃, m₄] ∧
    m₁.before.throttle.check (SecretId.key C k) m₁.input.now = .ok () ∧
    openStored C m₂.before.state c k pw = .ok sk := by
  generalize hr : (Except.ok sk : FacadeResult Bytes) = r at h
  cases h with
  | lockedOut => cases hr
  | unopened => cases hr
  | @opened m₁ m₂ m₃ m₄ ty label b result look₁ check look₂ lookup stored opening record =>
    cases result with
    | error x => cases hr
    | ok sk' =>
      cases hr
      refine ⟨m₁, m₂, m₃, m₄, rfl, check, ?_⟩
      unfold openStored
      simp only [lookup, stored]
      rfl

/-- And to any other, or at any other time, it does not. -/
theorem Decrypts.error {x : FacadeError} (h : Decrypts C c k pw w (.error x)) : ∃ m₁ w',
    w = m₁ :: w' ∧
    (m₁.before.throttle.check (SecretId.key C k) m₁.input.now ≠ .ok () ∨
      ∃ m₂ w'', w' = m₂ :: w'' ∧ ∀ sk, openStored C m₂.before.state c k pw ≠ .ok sk) := by
  generalize hr : (Except.error x : FacadeResult Bytes) = r at h
  cases h with
  | lockedOut look check => exact ⟨_, _, rfl, .inl (by rw [check]; simp)⟩
  | unopened look₁ check look₂ stored =>
    exact ⟨_, _, rfl, .inr ⟨_, _, rfl, by rw [stored]; simp⟩⟩
  | @opened m₁ m₂ m₃ m₄ ty label b result look₁ check look₂ lookup stored opening record =>
    cases result with
    | ok sk => cases hr
    | error y =>
      refine ⟨_, _, rfl, .inr ⟨_, _, rfl, fun sk hs => ?_⟩⟩
      unfold openStored at hs
      simp only [lookup, stored, facade] at hs
      cases hs

end

/-! ## The backend's `sign` -/

section
variable (C : Crates) (k : Uuid) (message : Bytes)

/-- The outcomes of a use of the cache: a signature by a key that is live
there, or nothing. -/
inductive Uses (ty : KeyType) (publicKey : Bytes) (m : Region) : Protocol.SignOutcome → Prop
  | signed {entry : Retention.CachedKey} {sig : Bytes}
      (cached : (m.before.enter m.input).retention.get k = some entry)
        (live : entry.Live m.input.now)
      (makes : keysSign C ty entry.bytes message = .ok sig)
      (throttle : m.after.throttle = m.before.throttle)
      (hist : m.after.hist = .signed k entry.bytes m.input.now m.before.state :: m.before.hist) :
      Uses ty publicKey m (.signed sig publicKey)
  | nothing (none : ∀ entry, (m.before.enter m.input).retention.get k = some entry →
        entry.Live m.input.now → ∀ sig, keysSign C ty entry.bytes message ≠ .ok sig)
      (throttle : m.after.throttle = m.before.throttle) (hist : m.after.hist = m.before.hist) :
      Uses ty publicKey m .userDeclined

/-- The complete walks of `VaultProtocolBackend::sign`. -/
inductive Serves : List Region → Protocol.SignOutcome → Prop
  | unknown {m₁ : Region} (look₁ : Looks m₁)
      (find : findForProtocol m₁.input.orders m₁.before.state k = none) : Serves [m₁] .keyNotFound
  | cached {m₁ m₂ m₃ : Region} {ty : KeyType} {publicKey : Bytes} {c : Uuid}
      {o : Protocol.SignOutcome} (look₁ : Looks m₁)
      (find : findForProtocol m₁.input.orders m₁.before.state k = some (ty, publicKey, c))
      (look₂ : Looks m₂)
      (held : Retention.contains (m₂.before.enter m₂.input).retention k m₂.input.now = true)
      (use : Uses C k message ty publicKey m₃ o) : Serves [m₁, m₂, m₃] o
  | declined {m₁ m₂ m₃ : Region} {p : KeyType × Bytes × Uuid} (look₁ : Looks m₁)
      (find : findForProtocol m₁.input.orders m₁.before.state k = some p) (look₂ : Looks m₂)
      (held : Retention.contains (m₂.before.enter m₂.input).retention k m₂.input.now = false)
      (look₃ : Looks m₃) (reply : m₃.input.reply = none) : Serves [m₁, m₂, m₃] .userDeclined
  | refused {m₁ m₂ m₃ : Region} {w : List Region} {ty : KeyType} {publicKey : Bytes} {c : Uuid}
      {pw : String} {x : FacadeError} (look₁ : Looks m₁)
      (find : findForProtocol m₁.input.orders m₁.before.state k = some (ty, publicKey, c))
      (look₂ : Looks m₂)
      (held : Retention.contains (m₂.before.enter m₂.input).retention k m₂.input.now = false)
      (look₃ : Looks m₃) (reply : m₃.input.reply = some pw)
        (decrypt : Decrypts C c k pw w (.error x)) :
      Serves (m₁ :: m₂ :: m₃ :: w) .passphraseIncorrect
  | accepted {m₁ m₂ m₃ m₄ m₅ : Region} {w : List Region} {ty : KeyType} {publicKey : Bytes}
      {c : Uuid} {pw : String} {sk : Bytes} {o : Protocol.SignOutcome} (look₁ : Looks m₁)
      (find : findForProtocol m₁.input.orders m₁.before.state k = some (ty, publicKey, c))
      (look₂ : Looks m₂)
      (held : Retention.contains (m₂.before.enter m₂.input).retention k m₂.input.now = false)
      (look₃ : Looks m₃) (reply : m₃.input.reply = some pw) (decrypt : Decrypts C c k pw w (.ok sk))
      (throttle : m₄.after.throttle = m₄.before.throttle)
      (hist : m₄.after.hist =
        .cached k sk Retention.defaultRetentionSecs m₄.input.now :: m₄.before.hist)
      (retention : m₄.after.retention = (m₄.before.enter m₄.input).retention.put k
        ⟨sk, m₄.input.now + Retention.fromSecs Retention.defaultRetentionSecs, false⟩)
      (use : Uses C k message ty publicKey m₅ o) : Serves (m₁ :: m₂ :: m₃ :: (w ++ [m₄, m₅])) o

variable {C k message} {A : Vault → In → Prop} {ε : Type} {w : List Region}

theorem protocolUse_walk {ty : KeyType} {publicKey : Bytes} {r : Except ε Protocol.SignOutcome}
    (h : Prog.Walk A (protocolUse C k ty publicKey message) w (.done r)) :
    ∃ m o, w = [m] ∧ r = .ok o ∧ A m.before m.input ∧ Uses C k message ty publicKey m o := by
  unfold protocolUse useKey at h
  obtain ⟨m, w', rfl, ha, hm, h⟩ := walk_ask_bind.1 h
  simp only at hm h
  rcases Retention.useKey_cases (m.before.enter m.input).retention k m.input.now
      (fun bytes => (bytes, keysSign C ty bytes message)) with
    ⟨hk, hu⟩ | ⟨entry, hk, hl, hu⟩ | ⟨entry, hk, hl, hu⟩
  · rw [hu] at hm h
    obtain ⟨rfl, rfl⟩ := Prog.walk_done.1 h
    refine ⟨m, _, rfl, rfl, ha, .nothing ?_ (by rw [hm]; rfl) (by rw [hm]; rfl)⟩
    intro entry he
    rw [hk] at he
    cases he
  · rw [hu] at hm h
    obtain ⟨rfl, rfl⟩ := Prog.walk_done.1 h
    refine ⟨m, _, rfl, rfl, ha, .nothing ?_ (by rw [hm]; rfl) (by rw [hm]; rfl)⟩
    intro entry' he hlive
    rw [hk] at he
    cases he
    exact absurd hlive hl
  · rw [hu] at hm h
    simp only at hm h
    cases hs : keysSign C ty entry.bytes message with
    | ok sig =>
      rw [hs] at hm h
      obtain ⟨rfl, rfl⟩ := Prog.walk_done.1 h
      exact ⟨m, _, rfl, rfl, ha, .signed hk hl hs (by rw [hm]; rfl) (by rw [hm]; rfl)⟩
    | error x =>
      rw [hs] at hm h
      obtain ⟨rfl, rfl⟩ := Prog.walk_done.1 h
      refine ⟨m, _, rfl, rfl, ha, .nothing ?_ (by rw [hm]; rfl) (by rw [hm]; rfl)⟩
      intro entry' he _ sig hsig
      rw [hk] at he
      cases he
      rw [hs] at hsig
      cases hsig

/-- A key is cached for the default time without fail. -/
theorem cacheDefault_walk {sk : Bytes} {r : Except ε (VaultResult Unit)}
    (h : Prog.Walk A (cacheKey k sk Retention.defaultRetentionSecs) w (.done r)) : ∃ m,
      w = [m] ∧ r = .ok (.ok ()) ∧ m.after.throttle = m.before.throttle ∧
      m.after.hist = .cached k sk Retention.defaultRetentionSecs m.input.now :: m.before.hist ∧
      m.after.retention = (m.before.enter m.input).retention.put k
        ⟨sk, m.input.now + Retention.fromSecs Retention.defaultRetentionSecs, false⟩ := by
  obtain ⟨m, rfl, -, hm, hr⟩ := walk_ask.1 h
  have hi : Retention.insert (m.before.enter m.input).retention k sk Retention.defaultRetentionSecs
      m.input.now = .ok _ := Retention.insert_ok.2 ⟨by decide, rfl⟩
  simp only [hi] at hm hr
  exact ⟨m, rfl, hr, by rw [hm]; rfl, by rw [hm]; rfl, by rw [hm]; rfl⟩

theorem protocolSign_walk {r : Except ε Protocol.SignOutcome}
    (h : Prog.Walk A (protocolSign C k message) w (.done r)) :
    ∃ o, r = .ok o ∧ Serves C k message w o := by
  unfold protocolSign at h
  obtain ⟨m₁, w₁, rfl, -, hm₁, h⟩ := walk_ask_bind.1 h
  simp only at hm₁ h
  rw [Vault.enter_state] at h
  cases hf : findForProtocol m₁.input.orders m₁.before.state k with
  | none =>
    rw [hf] at h
    obtain ⟨rfl, rfl⟩ := Prog.walk_done.1 h
    exact ⟨_, rfl, .unknown hm₁ hf⟩
  | some p =>
    obtain ⟨ty, publicKey, c⟩ := p
    rw [hf] at h
    obtain ⟨m₂, w₂, rfl, -, hm₂, h⟩ := walk_ask_bind.1 h
    simp only at hm₂ h
    cases hc : Retention.contains (m₂.before.enter m₂.input).retention k m₂.input.now with
    | true =>
      rw [hc] at h
      obtain ⟨m₃, o, rfl, rfl, -, hu⟩ := protocolUse_walk h
      exact ⟨o, rfl, .cached hm₁ hf hm₂ hc hu⟩
    | false =>
      rw [hc] at h
      obtain ⟨m₃, w₃, rfl, -, hm₃, h⟩ := walk_ask_bind.1 h
      simp only at hm₃ h
      cases hp : m₃.input.reply with
      | none =>
        rw [hp] at h
        obtain ⟨rfl, rfl⟩ := Prog.walk_done.1 h
        exact ⟨_, rfl, .declined hm₁ hf hm₂ hc hm₃ hp⟩
      | some pw =>
        rw [hp] at h
        simp only [Prog.bind_eq] at h
        obtain ⟨x, -, hx⟩ | ⟨q, w₄, w₅, rfl, hd, h⟩ := Prog.walk_bind.1 h
        · obtain ⟨q, hq, -⟩ := Prog.walk_attempt.1 hx
          cases hq
        · obtain ⟨q', hq, hd⟩ := Prog.walk_attempt.1 hd
          cases hq
          have hdec := decryptKey_walk hd
          cases q with
          | error x =>
            obtain ⟨rfl, rfl⟩ := Prog.walk_done.1 h
            rw [List.append_nil]
            exact ⟨_, rfl, .refused hm₁ hf hm₂ hc hm₃ hp hdec⟩
          | ok sk =>
            simp only at h
            obtain ⟨x, -, hx⟩ | ⟨q, w₆, w₇, rfl, hk, h⟩ := Prog.walk_bind.1 h
            · obtain ⟨m, -, hr, -⟩ := cacheDefault_walk hx
              cases hr
            · obtain ⟨m₄, rfl, hr, ht, hh, hret⟩ := cacheDefault_walk hk
              cases hr
              obtain ⟨m₅, o, rfl, rfl, -, hu⟩ := protocolUse_walk h
              exact ⟨o, rfl, .accepted hm₁ hf hm₂ hc hm₃ hp hdec ht hh hret hu⟩

end

/-! ## A request -/

section
variable (C : Crates)

/-- `raw` asks for a signature of `message` by `k`. -/
def SignRequest (raw : Bytes) (k : Uuid) (message : Bytes) : Prop :=
  ∃ request params, C.rawRequestFromSlice raw = .ok request ∧ request.method = "vaultsigner.sign" ∧
    C.signParamsFromValue request.params = .ok params ∧ C.uuidParse params.keyId = .ok k ∧
    C.base64Decode params.messageB64 = some message

/-- The reply with a signature. -/
def signatureReply (id : Value) (sig publicKey : Bytes) : Bytes :=
  Protocol.resultResponse C id (.object [("signature_b64", .string (C.base64Encode sig)),
    ("public_key_b64", .string (C.base64Encode publicKey))])

/-- The last region of a sign request, if its outcome is recorded. -/
inductive Replies (k : Uuid) : Protocol.SignOutcome → List Region → Bytes → Prop
  | signed {sig publicKey : Bytes} {m : Region} (id : Value)
      (record : m.after = (m.before.enter m.input).setThrottle
        (recorded m.before.throttle (SecretId.key C k) m.input.now true)) :
      Replies k (.signed sig publicKey) [m] (signatureReply C id sig publicKey)
  | incorrect {m : Region} {reply : Bytes}
      (record : m.after = (m.before.enter m.input).setThrottle
        (recorded m.before.throttle (SecretId.key C k) m.input.now false)) :
      Replies k .passphraseIncorrect [m] reply
  | keyNotFound {reply : Bytes} : Replies k .keyNotFound [] reply
  | userDeclined {reply : Bytes} : Replies k .userDeclined [] reply

/-- The complete walks of a request, by what it asks for. -/
inductive Handles (A : Vault → In → Prop) (raw : Bytes) : List Region → FacadeResult Bytes → Prop
  | other {w : List Region} {r : FacadeResult Bytes} (not : ∀ k m, ¬ SignRequest C raw k m)
      (looks : ∀ m ∈ w, Looks m) : Handles A raw w r
  | lockedOut {k : Uuid} {message : Bytes} {m₀ : Region} {x : VaultError} {r : FacadeResult Bytes}
      (asks : SignRequest C raw k message) (look₀ : Looks m₀)
      (check : m₀.before.throttle.check (SecretId.key C k) m₀.input.now = .error x) :
      Handles A raw [m₀] r
  | served {k : Uuid} {message : Bytes} {m₀ : Region} {w w' : List Region}
      {o : Protocol.SignOutcome}
      {reply : Bytes} (asks : SignRequest C raw k message) (look₀ : Looks m₀)
      (check : m₀.before.throttle.check (SecretId.key C k) m₀.input.now = .ok ())
      (walk : Prog.Walk A (protocolSign C k message : Op Protocol.SignOutcome) w (.done (.ok o)))
      (replies : Replies C k o w' reply) : Handles A raw (m₀ :: (w ++ w')) (.ok reply)

variable {C} {A : Vault → In → Prop} {w : List Region}

theorem SignRequest.unique {raw m m' : Bytes} {k k' : Uuid} (h : SignRequest C raw k m)
    (h' : SignRequest C raw k' m') : k' = k ∧ m' = m := by
  obtain ⟨q, p, hq, -, hp, hk, hm⟩ := h
  obtain ⟨q', p', hq', -, hp', hk', hm'⟩ := h'
  rw [hq] at hq'; cases hq'
  rw [hp] at hp'; cases hp'
  rw [hk] at hk'; cases hk'
  rw [hm] at hm'; cases hm'
  exact ⟨rfl, rfl⟩

theorem replyToSign_walk {k : Uuid} {id : Value} {o : Protocol.SignOutcome} {r : FacadeResult Bytes}
    (h : Prog.Walk A (Protocol.replyToSign C vaultThrottling (SecretId.key C k) id o) w (.done r)) :
    ∃ reply, r = .ok reply ∧ Replies C k o w reply := by
  unfold Protocol.replyToSign vaultThrottling recordSuccess recordFailure at h
  cases o with
  | signed sig publicKey =>
    simp only [Prog.bind_eq] at h
    obtain ⟨m, w', rfl, -, hm, h⟩ := walk_ask_bind.1 h
    obtain ⟨rfl, rfl⟩ := Prog.walk_done.1 h
    exact ⟨_, rfl, .signed id hm⟩
  | keyNotFound =>
    obtain ⟨rfl, rfl⟩ := Prog.walk_done.1 h
    exact ⟨_, rfl, .keyNotFound⟩
  | userDeclined =>
    obtain ⟨rfl, rfl⟩ := Prog.walk_done.1 h
    exact ⟨_, rfl, .userDeclined⟩
  | passphraseIncorrect =>
    simp only [Prog.bind_eq] at h
    obtain ⟨m, w', rfl, -, hm, h⟩ := walk_ask_bind.1 h
    obtain ⟨rfl, rfl⟩ := Prog.walk_done.1 h
    exact ⟨_, rfl, .incorrect hm⟩

/-- A sign request, once it has been taken apart. -/
theorem request_of_sign {raw message : Bytes} {k : Uuid} (h : SignRequest C raw k message)
    (caller : String) : ∃ id, handleProtocolRequest C caller raw =
      (ask fun e v => (v.throttle.check (SecretId.key C k) e.now, v)).bind fun checked =>
        match checked with
        | .error _ => .done (.ok (Protocol.errorResponse C id "key_locked_retry_later"
            "too many recent failed attempts for this key"))
        | .ok () => (protocolSign C k message).bind
            (Protocol.replyToSign C vaultThrottling (SecretId.key C k) id) := by
  obtain ⟨request, params, hq, hmeth, hp, hk, hm⟩ := h
  refine ⟨request.id, ?_⟩
  unfold handleProtocolRequest Protocol.handleRequest
  simp only [hq, hmeth, Protocol.handleSign, hp, hk, hm, protocolBackend, vaultThrottling,
    String.reduceEq, if_false, if_true]
  rfl

/-- A request that does not ask for a signature is refused, or reads the keys. -/
theorem request_of_other {raw : Bytes} (not : ∀ k m, ¬ SignRequest C raw k m) (caller : String) :
    (∃ r, handleProtocolRequest C caller raw = .done r) ∨
    ∃ reply : List Protocol.PublicKeyInfo → Bytes, handleProtocolRequest C caller raw =
      (ask fun e v => (listPublicKeys e.orders v.state, v)).bind fun l =>
      .done (.ok (reply l)) := by
  unfold handleProtocolRequest Protocol.handleRequest
  cases hq : C.rawRequestFromSlice raw with
  | error x => exact .inl ⟨_, rfl⟩
  | ok request =>
    simp only
    split
    · exact .inr ⟨_, rfl⟩
    · split
      · rename_i hsign
        unfold Protocol.handleSign
        cases hp : C.signParamsFromValue request.params with
        | error x => exact .inl ⟨_, rfl⟩
        | ok params =>
          simp only
          cases hk : C.uuidParse params.keyId with
          | error x => exact .inl ⟨_, rfl⟩
          | ok k =>
            simp only
            cases hm : C.base64Decode params.messageB64 with
            | none => exact .inl ⟨_, rfl⟩
            | some message => exact absurd ⟨request, params, hq, hsign, hp, hk, hm⟩ (not k message)
      · exact .inl ⟨_, rfl⟩

theorem request_walk {caller : String} {raw : Bytes} {r : FacadeResult Bytes}
    (h : Prog.Walk A (handleProtocolRequest C caller raw) w (.done r)) : Handles C A raw w r := by
  by_cases hreq : ∃ k message, SignRequest C raw k message
  · obtain ⟨k, message, hreq⟩ := hreq
    obtain ⟨id, heq⟩ := request_of_sign hreq caller
    rw [heq] at h
    obtain ⟨m₀, w', rfl, -, hm₀, h⟩ := walk_ask_bind.1 h
    simp only at hm₀ h
    rw [Vault.enter_throttle] at h
    cases hc : m₀.before.throttle.check (SecretId.key C k) m₀.input.now with
    | error x =>
      rw [hc] at h
      obtain ⟨rfl, rfl⟩ := Prog.walk_done.1 h
      exact .lockedOut hreq hm₀ hc
    | ok _ =>
      rw [hc] at h
      obtain ⟨x, -, hx⟩ | ⟨o, w₁, w₂, rfl, hs, h⟩ := Prog.walk_bind.1 h
      · obtain ⟨o, ho, -⟩ := protocolSign_walk hx
        cases ho
      · obtain ⟨reply, rfl, hrep⟩ := replyToSign_walk h
        exact .served hreq hm₀ hc hs hrep
  · have hnot : ∀ k m, ¬ SignRequest C raw k m := fun k m ha => hreq ⟨k, m, ha⟩
    refine .other hnot ?_
    rcases request_of_other hnot caller with ⟨q, heq⟩ | ⟨reply, heq⟩
    · rw [heq] at h
      obtain ⟨rfl, -⟩ := Prog.walk_done.1 h
      simp
    · rw [heq] at h
      obtain ⟨m, w', rfl, -, hm, h⟩ := walk_ask_bind.1 h
      obtain ⟨rfl, -⟩ := Prog.walk_done.1 h
      intro x hx
      obtain rfl := List.mem_singleton.1 hx
      exact hm

end

end VaultSigner.L4
