import VaultSigner.L4Vault.Sample
import VaultSigner.L5Runs.Attempts

/-!
# Wrong passphrases, counted

A call counts a wrong passphrase by one `record_failure` on its secret.
`raised` is how often the regions of a call do that, whatever other calls do in
between, and `Verifies` when one of them verified a passphrase at all.

Results:
* `counted_once_iff`: a call counts one failure for a wrong passphrase and none
  otherwise, unless it is a sign request of the local protocol whose prompt did
  not yield the key: there the handler counts once more.
-/
namespace VaultSigner.L5
open VaultSigner.Core VaultSigner.L1 VaultSigner.L2.Throttle VaultSigner.L3 VaultSigner.L4
open VaultSigner.L2

/-- The region raises the failure count of `s` by one. -/
def raises (s : SecretId) (m : Region) : Bool :=
  match m.after.throttle.states.get s with
  | some st => st.consecutiveFailures == m.before.throttle.failures s + 1
  | none => false

/-- By how much the regions of a call raise it. -/
def raised (s : SecretId) (w : List Region) : Nat := w.countP (raises s)

/-- What a master passphrase makes of the compartment's stored blob; `none`
when nothing is there to verify it against. -/
def masterVerdict (C : Crates) (s : VaultState) (id : Uuid) (pw : String) : Option Bool := do
  let header ← s.container.header.compartments.find? fun c => c.compartmentId = id
  let blob ← s.container.masterBlobs.get id
  let key ← (derive C (utf8 pw) header.kdfParamsMaster).toOption
  return (decryptWithKey C id blob key).isOk

/-- The region `m` of the call, after its regions `w`, verifies a passphrase
against the secret: the blob of a key is opened, or the second region of
`unlock_compartment` decrypts the master blob. `ok` is whether it was right. -/
inductive Verifies (C : Crates) (call : Call) (w : List Region) (m : Region) :
    SecretId → Bool → Prop
  | key {k : Uuid} {r : VaultResult Bytes} (h : OpensAs m k r) :
      Verifies C call w m (SecretId.key C k) r.isOk
  | master {c pw : String} {id : Uuid} {ok : Bool} (hcall : call = .unlockCompartment c pw)
      (hid : parseUuid C c = .ok id) (hw : w.length = 1)
      (hv : masterVerdict C m.before.state id pw = some ok) :
      Verifies C call w m (SecretId.compartment C id) ok

/-- One of the regions verifies a passphrase, and it is wrong. -/
def FoundWrong (C : Crates) (call : Call) (w : List Region) (s : SecretId) : Prop :=
  ∃ a m b, w = a ++ m :: b ∧ Verifies C call a m s false

/-- A failure is counted once if a passphrase was found wrong, and else not. -/
structure CountedOnce (C : Crates) (call : Call) (w : List Region) : Prop where
  wrong : ∀ s, FoundWrong C call w s → raised s w = 1
  otherwise : ∀ s, ¬ FoundWrong C call w s → raised s w = 0

/-- A sign request of the local protocol whose key is not in the cache, and
whose prompt is answered with a passphrase that does not yield the key: the
key is locked out by then, or what is stored for it does not open. -/
inductive PromptRefused (C : Crates) : Call → List Region → Prop
  | mk {caller pw : String} {raw message publicKey : Bytes} {k c : Uuid} {ty : KeyType}
      {m₀ m₁ m₂ m₃ m₄ : Region} {w : List Region} (asks : SignRequest C raw k message)
      (check : m₀.before.throttle.check (SecretId.key C k) m₀.input.now = .ok ())
      (find : findForProtocol m₁.input.orders m₁.before.state k = some (ty, publicKey, c))
      (held : Retention.contains m₂.before.retention k m₂.input.now = false)
      (reply : m₃.input.reply = some pw)
      (refused : m₄.before.throttle.check (SecretId.key C k) m₄.input.now ≠ .ok () ∨
        ∃ m₅ w', w = m₅ :: w' ∧ ∀ sk, openStored C m₅.before.state c k pw ≠ .ok sk) :
      PromptRefused C (.handleProtocolRequest caller raw) (m₀ :: m₁ :: m₂ :: m₃ :: m₄ :: w)

/-! ## What a region counts -/

section
variable {C : Crates} {call : Call} {m : Region} {w a b : List Region} {s : SecretId} {k : Uuid}

/-- An entry that stays is not raised. -/
theorem raises_same (h : m.after.throttle.states.get s = m.before.throttle.states.get s) :
    raises s m = false := by
  unfold raises
  rw [h]
  cases hst : m.before.throttle.states.get s with
  | none => rfl
  | some st => simp [ThrottleTracker.failures, hst]

theorem raises_keeps (h : m.after.throttle = m.before.throttle) : raises s m = false :=
  raises_same (by rw [h])

theorem raises_recorded {s' : SecretId} {ok : Bool}
    (h : m.after.throttle = recorded m.before.throttle s' m.input.now ok) :
    raises s m = (decide (s = s') && !ok) := by
  by_cases hs : s = s'
  · subst hs
    unfold raises
    rw [h]
    cases ok with
    | true => simp [recorded, ThrottleTracker.get_recordSuccess_self]
    | false => simp [recorded, ThrottleTracker.get_recordFailure_self]
  · rw [raises_same]
    · simp [hs]
    · rw [h]
      cases ok with
      | true => exact ThrottleTracker.get_recordSuccess_ne _ hs
      | false => exact ThrottleTracker.get_recordFailure_ne _ _ hs

@[simp] theorem raised_nil : raised s [] = 0 := rfl

@[simp] theorem raised_append : raised s (a ++ b) = raised s a + raised s b := List.countP_append

@[simp] theorem raised_cons : raised s (m :: w) = (raises s m).toNat + raised s w := by
  unfold raised
  rw [List.countP_cons, Nat.add_comm]
  cases raises s m <;> rfl

theorem raised_untouched (h : ∀ m ∈ w, Untouched m) : raised s w = 0 := by
  unfold raised
  rw [List.countP_eq_zero]
  intro m hm
  rw [raises_keeps (h m hm).throttle]
  simp

/-- The key's blob is opened once at most. -/
theorem OpensAs.unique {k' : Uuid} {r r' : VaultResult Bytes} (h : OpensAs m k r)
    (h' : OpensAs m k' r') : k' = k ∧ r' = r := by
  obtain ⟨b, pw, ty, label, st, h⟩ := h
  obtain ⟨b', pw', ty', label', st', h'⟩ := h'
  rw [h] at h'
  cases (List.cons.inj h').1
  exact ⟨rfl, rfl⟩

/-- A key's blob is opened with a passphrase that is wrong for it. -/
def OpenedWrong (C : Crates) (w : List Region) (s : SecretId) : Prop :=
  ∃ m ∈ w, ∃ k r, OpensAs m k r ∧ r.isOk = false ∧ s = SecretId.key C k

/-- Only `unlock_compartment` verifies anything else. -/
theorem foundWrong_iff (hcall : kindOf call ≠ .unlock) :
    FoundWrong C call w s ↔ OpenedWrong C w s := by
  constructor
  · rintro ⟨a, m, b, rfl, hv⟩
    generalize hok : false = ok at hv
    cases hv with
    | @key k r h => exact ⟨m, by simp, k, r, h, hok.symm, rfl⟩
    | master hc => exact absurd (by rw [hc]; rfl) hcall
  · rintro ⟨m, hm, k, r, ho, hr, rfl⟩
    obtain ⟨a, b, rfl⟩ := List.append_of_mem hm
    exact ⟨a, m, b, rfl, hr ▸ .key ho⟩

theorem not_openedWrong (h : ∀ m ∈ w, Untouched m) : ¬ OpenedWrong C w s := by
  rintro ⟨m, hm, k, r, ho, -⟩
  exact (h m hm).unopened k r ho

theorem openedWrong_mid {r : VaultResult Bytes} (ha : ∀ m ∈ a, ∀ k r, ¬ OpensAs m k r)
    (ho : OpensAs m k r) (hb : ∀ m ∈ b, ∀ k r, ¬ OpensAs m k r) :
    OpenedWrong C (a ++ m :: b) s ↔ s = SecretId.key C k ∧ r.isOk = false := by
  constructor
  · rintro ⟨m', hm, k', r', ho', hr, rfl⟩
    rcases List.mem_append.1 hm with hm | hm
    · exact absurd ho' (ha m' hm k' r')
    · rcases List.mem_cons.1 hm with rfl | hm
      · obtain ⟨rfl, rfl⟩ := ho.unique ho'
        exact ⟨rfl, hr⟩
      · exact absurd ho' (hb m' hm k' r')
  · rintro ⟨rfl, hr⟩
    exact ⟨m, by simp, k, r, ho, hr, rfl⟩

/-- One attempt: one failure if the passphrase was wrong, and else none. -/
theorem Shape.raised (h : Shape C w) (s : SecretId) :
    (OpenedWrong C w s → raised s w = 1) ∧ (¬ OpenedWrong C w s → raised s w = 0) := by
  have hunopened : ∀ {l : List Region}, (∀ m ∈ l, Untouched m) → ∀ m ∈ l, ∀ k r, ¬ OpensAs m k r :=
    fun hl m hm => (hl m hm).unopened
  cases h with
  | untried h => exact ⟨fun hw => absurd hw (not_openedWrong h), fun _ => raised_untouched h⟩
  | @tried a b m₁ m₂ k r ha opens keeps hist record hb =>
    have hwrong : OpenedWrong C (a ++ m₁ :: m₂ :: b) s ↔ s = SecretId.key C k ∧ r.isOk = false := by
      refine openedWrong_mid (hunopened ha) opens fun m hm => ?_
      rcases List.mem_cons.1 hm with rfl | hm
      · exact not_opensAs_of_hist hist
      · exact hunopened hb m hm
    have hcount : raised s (a ++ m₁ :: m₂ :: b) =
        (decide (s = SecretId.key C k) && !r.isOk).toNat := by
      simp [raised_untouched ha, raised_untouched hb, raises_keeps keeps, raises_recorded record]
    rw [hwrong, hcount]
    by_cases hs : s = SecretId.key C k <;> cases r.isOk <;> simp [hs]
  | @resealed a b m k r ha opens record hb =>
    have hwrong : OpenedWrong C (a ++ m :: b) s ↔ s = SecretId.key C k ∧ r.isOk = false :=
      openedWrong_mid (hunopened ha) opens (hunopened hb)
    have hcount : raised s (a ++ m :: b) = (decide (s = SecretId.key C k) && !r.isOk).toNat := by
      simp [raised_untouched ha, raised_untouched hb, raises_recorded record]
    rw [hwrong, hcount]
    by_cases hs : s = SecretId.key C k <;> cases r.isOk <;> simp [hs]

/-! ## Unlocking a compartment -/

theorem unlockRegion_counts (id : Uuid) (pw : String) (e : In) (v : Vault) :
    (unlockRegion C id pw e v).2.hist = v.hist ∧ (unlockRegion C id pw e v).2.throttle =
      match masterVerdict C v.state id pw with
      | none => v.throttle
      | some ok => recorded v.throttle (SecretId.compartment C id) e.now ok := by
  unfold unlockRegion masterVerdict
  simp only
  cases v.state.container.header.compartments.find? fun c => c.compartmentId = id with
  | none => exact ⟨rfl, rfl⟩
  | some header =>
    simp only
    cases v.state.container.masterBlobs.get id with
    | none => exact ⟨rfl, rfl⟩
    | some blob =>
      simp only
      cases hk : derive C (utf8 pw) header.kdfParamsMaster with
      | error x => exact ⟨rfl, by simp [hk, Except.toOption]⟩
      | ok key =>
        simp only
        cases hd : decryptWithKey C id blob key with
        | ok p =>
          exact ⟨rfl, by simp [hk, hd, recorded, Except.toOption, Except.isOk, Except.toBool]⟩
        | error x =>
          exact ⟨rfl, by simp [hk, hd, recorded, Except.toOption, Except.isOk, Except.toBool]⟩

/-- The complete walks of `unlock_compartment`. -/
inductive Unlocks (C : Crates) (c pw : String) : List Region → Prop
  | unparsed {x : FacadeError} (hid : parseUuid C c = .error x) : Unlocks C c pw []
  | lockedOut {m : Region} (look : Looks m) : Unlocks C c pw [m]
  | tried {id : Uuid} {m₁ m₂ : Region} (hid : parseUuid C c = .ok id) (look : Looks m₁)
      (hist : m₂.after.hist = m₂.before.hist)
      (throttle : m₂.after.throttle = match masterVerdict C m₂.before.state id pw with
        | none => m₂.before.throttle
        | some ok => recorded m₂.before.throttle (SecretId.compartment C id) m₂.input.now ok) :
      Unlocks C c pw [m₁, m₂]

theorem unlockCompartment_walk {A : Vault → In → Prop} {c pw : String} {r : FacadeResult Unit}
    (h : Prog.Walk A (unlockCompartment C c pw) w (.done r)) : Unlocks C c pw w := by
  unfold unlockCompartment at h
  cases hid : parseUuid C c with
  | error x =>
    rw [hid] at h
    obtain ⟨rfl, -⟩ := Prog.walk_done.1 h
    exact .unparsed hid
  | ok id =>
    rw [hid] at h
    obtain ⟨m₁, w', rfl, -, hm₁, h⟩ := walk_region_bind.1 h
    simp only [Vault.enter_throttle] at hm₁ h
    cases hc : m₁.before.throttle.check (SecretId.compartment C id) m₁.input.now with
    | error x =>
      rw [hc] at h
      obtain ⟨rfl, -⟩ := Prog.walk_done.1 h
      exact .lockedOut hm₁
    | ok _ =>
      rw [hc] at h
      obtain ⟨m₂, rfl, -, hm₂, -⟩ := walk_op.1 h
      obtain ⟨hh, ht⟩ := unlockRegion_counts (C := C) id pw m₂.input (m₂.before.enter m₂.input)
      exact .tried hid hm₁ (hm₂ ▸ hh) (hm₂ ▸ ht)

theorem untouched_of_looks (h : Looks m) : Untouched m := by
  have hidle : Idles m.before m.after := by
    rw [show m.after = _ from h]
    exact idles_enter m.before m.input
  exact hidle.untouched

theorem not_foundWrong (hw : ∀ m ∈ w, Untouched m) (hlen : w.length < 2) :
    ¬ FoundWrong C call w s := by
  rintro ⟨a, m, b, rfl, hv⟩
  generalize false = ok at hv
  cases hv with
  | key ho => exact (hw m (by simp)).unopened _ _ ho
  | master _ _ ha => simp [ha] at hlen

/-- What `unlock_compartment` finds wrong, it finds in its second region. -/
theorem foundWrong_unlock {c pw : String} {id : Uuid} {m₁ m₂ : Region}
    (hid : parseUuid C c = .ok id) (look : Looks m₁) (hist : m₂.after.hist = m₂.before.hist) :
    FoundWrong C (.unlockCompartment c pw) [m₁, m₂] s ↔
      s = SecretId.compartment C id ∧ masterVerdict C m₂.before.state id pw = some false := by
  constructor
  · rintro ⟨a, m, b, hw, hv⟩
    generalize hok : false = ok at hv
    cases hv with
    | @key k r ho =>
      have hm : m ∈ [m₁, m₂] := by rw [hw]; simp
      rcases List.mem_cons.1 hm with rfl | hm
      · exact absurd ho ((untouched_of_looks look).unopened k r)
      · obtain rfl := List.mem_singleton.1 hm
        exact absurd ho (not_opensAs_of_hist hist k r)
    | master hcall hid' hlen hv =>
      cases hcall
      obtain rfl := Except.ok.inj (hid.symm.trans hid')
      obtain ⟨x, rfl⟩ := List.length_eq_one_iff.1 hlen
      cases hw
      exact ⟨rfl, hok ▸ hv⟩
  · rintro ⟨rfl, hv⟩
    exact ⟨[m₁], m₂, [], rfl, .master rfl hid rfl hv⟩

/-- What a call counts besides sign requests, it counts once. -/
theorem Unlocks.counted {c pw : String} (h : Unlocks C c pw w) :
    CountedOnce C (.unlockCompartment c pw) w := by
  have hnone : ∀ {w : List Region}, (∀ m ∈ w, Untouched m) → w.length < 2 →
      CountedOnce C (.unlockCompartment c pw) w :=
    fun hw hlen => ⟨fun s hs => absurd hs (not_foundWrong hw hlen), fun s _ => raised_untouched hw⟩
  cases h with
  | unparsed hid => exact hnone (by simp) (by simp)
  | lockedOut look => exact hnone (by simpa using untouched_of_looks look) (by simp)
  | @tried id m₁ m₂ hid look hist throttle =>
    have hraised : ∀ s, raised s [m₁, m₂] =
        (decide (s = SecretId.compartment C id ∧
          masterVerdict C m₂.before.state id pw = some false)).toNat := by
      intro s
      have h₁ : raises s m₁ = false := raises_keeps (untouched_of_looks look).throttle
      cases hv : masterVerdict C m₂.before.state id pw with
      | none =>
        rw [hv] at throttle
        simp [h₁, raises_keeps throttle]
      | some ok =>
        rw [hv] at throttle
        simp only [raised_cons, h₁, raises_recorded throttle]
        cases ok <;> simp
    refine ⟨fun s hs => ?_, fun s hs => ?_⟩
    · rw [hraised, decide_eq_true ((foundWrong_unlock hid look hist).1 hs)]
      rfl
    · rw [hraised, decide_eq_false fun hw => hs ((foundWrong_unlock hid look hist).2 hw)]
      rfl

/-! ## Sign requests -/

variable {caller : String} {raw message : Bytes} {o : Protocol.SignOutcome} {w' : List Region}
  {m₀ : Region}

/-- The backend reports a wrong passphrase when the prompt did not yield the key. -/
theorem serves_incorrect_iff (hs : Serves C k message w o) (ha : ∀ m ∈ w, m.before.Admits m.input)
    (asks : SignRequest C raw k message)
    (check : m₀.before.throttle.check (SecretId.key C k) m₀.input.now = .ok ()) :
    o = .passphraseIncorrect ↔ PromptRefused C (.handleProtocolRequest caller raw)
    (m₀ :: (w ++ w')) := by
  constructor
  · rintro rfl
    cases hs with
    | cached _ _ _ _ use => cases use
    | @refused m₁ m₂ m₃ w ty publicKey c pw x look₁ find look₂ held look₃ reply decrypt =>
      rw [contains_enter (ha m₂ (by simp))] at held
      obtain ⟨m₄, w₄, rfl, hm₄⟩ := decrypt.error
      refine .mk asks check find held reply (hm₄.imp id ?_)
      rintro ⟨m₅, w₅, rfl, hno⟩
      exact ⟨m₅, w₅ ++ w', rfl, hno⟩
    | accepted _ _ _ _ _ _ _ _ _ _ use => cases use
  · intro hp
    generalize hW : m₀ :: (w ++ w') = W at hp
    cases hp with
    | @mk _ pw _ message' publicKey k' c ty n₀ n₁ n₂ n₃ n₄ l asks' check' find held reply refused =>
      obtain ⟨rfl, -⟩ := SignRequest.unique asks asks'
      cases hs with
      | unknown look₁ find' =>
        simp only [List.cons_append, List.cons.injEq] at hW
        obtain ⟨-, rfl, -⟩ := hW
        rw [find] at find'
        cases find'
      | cached look₁ find' look₂ held' use =>
        simp only [List.cons_append, List.cons.injEq] at hW
        obtain ⟨-, rfl, rfl, -⟩ := hW
        rw [contains_enter (ha _ (by simp)), held] at held'
        cases held'
      | declined look₁ find' look₂ held' look₃ reply' =>
        simp only [List.cons_append, List.cons.injEq] at hW
        obtain ⟨-, rfl, rfl, rfl, -⟩ := hW
        rw [reply] at reply'
        cases reply'
      | refused => rfl
      | accepted look₁ find' look₂ held' look₃ reply' decrypt throttle hist use =>
        obtain ⟨d₁, d₂, d₃, d₄, rfl, hcheck, hopen⟩ := decrypt.ok
        simp only [List.cons_append, List.cons.injEq] at hW
        obtain ⟨-, rfl, rfl, rfl, rfl, rfl⟩ := hW
        rw [find] at find'
        cases find'
        rw [reply] at reply'
        cases reply'
        rcases refused with hno | ⟨m₅, l', hl, hno⟩
        · exact absurd hcheck hno
        · cases hl
          exact absurd hopen (hno _)

theorem promptRefused_sign {call : Call} (h : PromptRefused C call w) :
    kindOf call = .protocol := by
  cases h
  rfl

/-- The last region of a sign request counts a failure by itself. -/
theorem replies_raised_incorrect {reply : Bytes} (h : Replies C k .passphraseIncorrect w' reply)
    (s : SecretId) : raised s w' = (decide (s = SecretId.key C k)).toNat := by
  cases h with
  | @incorrect m _ record =>
    have hm : m.after.throttle = recorded m.before.throttle (SecretId.key C k)
        m.input.now false := by
      rw [record]; rfl
    simp [raises_recorded hm]

theorem replies_raised {reply : Bytes} (h : Replies C k o w' reply)
    (ho : o ≠ .passphraseIncorrect) (s : SecretId) : raised s w' = 0 := by
  cases h with
  | @signed sig publicKey m id record =>
    have hm : m.after.throttle = recorded m.before.throttle (SecretId.key C k)
        m.input.now true := by
      rw [record]; rfl
    simp [raises_recorded hm]
  | incorrect => exact absurd rfl ho
  | keyNotFound => rfl
  | userDeclined => rfl

theorem replies_unopened {reply : Bytes} (h : Replies C k o w' reply) :
    ∀ m ∈ w', ∀ k r, ¬ OpensAs m k r := by
  cases h with
  | signed id record =>
    intro m hm
    obtain rfl := List.mem_singleton.1 hm
    exact not_opensAs_of_hist (by rw [record]; rfl)
  | incorrect record =>
    intro m hm
    obtain rfl := List.mem_singleton.1 hm
    exact not_opensAs_of_hist (by rw [record]; rfl)
  | keyNotFound => simp
  | userDeclined => simp

/-- A sign request counts a failure of its own where the prompt did not yield
the key. -/
theorem handles_counted {r : FacadeResult Bytes} (h : Handles C Vault.Admits raw w r) :
    CountedOnce C (.handleProtocolRequest caller raw) w ↔
      ¬ PromptRefused C (.handleProtocolRequest caller raw) w := by
  have hkind : kindOf (.handleProtocolRequest caller raw) ≠ .unlock := by simp [kindOf]
  have hquiet : ∀ {w : List Region}, (∀ m ∈ w, Looks m) →
      CountedOnce C (.handleProtocolRequest caller raw) w := by
    intro w hw
    have hun : ∀ m ∈ w, Untouched m := fun m hm => untouched_of_looks (hw m hm)
    refine ⟨fun s hs => ?_, fun s _ => raised_untouched hun⟩
    exact absurd ((foundWrong_iff hkind).1 hs) (not_openedWrong hun)
  cases h with
  | other not looks =>
    refine ⟨fun _ hp => ?_, fun _ => hquiet looks⟩
    cases hp with
    | mk asks => exact not _ _ asks
  | lockedOut asks look₀ check =>
    refine ⟨fun _ hp => ?_, fun _ => hquiet (by simpa using look₀)⟩
    cases hp
  | @served k message m₀ w w' o reply asks look₀ check walk replies =>
    obtain ⟨o', ho, hserves⟩ := protocolSign_walk walk
    obtain rfl := Except.ok.inj ho
    have hshape : Shape C w := by
      have hfresh : Phase.fresh.Untried := trivial
      have hf : (protocolSign C k message : Op Protocol.SignOutcome).Follows Vault.Admits
          (Attempt C .plain) (fun y _ => y.Settled) .fresh := protocolSign_follows hfresh k message
      obtain ⟨y, hw, hy⟩ := Prog.Follows.walk walk hf
      exact along_shape hw trivial hy
    have hwrong : ∀ s, FoundWrong C (.handleProtocolRequest caller raw) (m₀ :: (w ++ w')) s ↔
        OpenedWrong C w s := by
      intro s
      rw [foundWrong_iff hkind]
      constructor
      · rintro ⟨m, hm, k', r, ho, hr⟩
        rcases List.mem_cons.1 hm with rfl | hm
        · exact absurd ho ((untouched_of_looks look₀).unopened k' r)
        · rcases List.mem_append.1 hm with hm | hm
          · exact ⟨m, hm, k', r, ho, hr⟩
          · exact absurd ho (replies_unopened replies m hm k' r)
      · rintro ⟨m, hm, h⟩
        exact ⟨m, by simp [hm], h⟩
    have hsum : ∀ s, raised s (m₀ :: (w ++ w')) = raised s w + raised s w' := by
      intro s
      simp [raises_keeps (untouched_of_looks look₀).throttle]
    rw [← serves_incorrect_iff hserves walk.admits asks check]
    constructor
    · rintro hc rfl
      have hcount := hsum (SecretId.key C k)
      rw [replies_raised_incorrect replies] at hcount
      by_cases hs : OpenedWrong C w (SecretId.key C k)
      · rw [hc.wrong _ ((hwrong _).2 hs), (hshape.raised _).1 hs] at hcount
        simp at hcount
      · rw [hc.otherwise _ fun h => hs ((hwrong _).1 h), (hshape.raised _).2 hs] at hcount
        simp at hcount
    · intro ho
      refine ⟨fun s hs => ?_, fun s hs => ?_⟩
      · rw [hsum, replies_raised replies ho, (hshape.raised s).1 ((hwrong s).1 hs)]
      · rw [hsum, replies_raised replies ho, (hshape.raised s).2 fun h => hs ((hwrong s).2 h)]

theorem opensAs_event {ev : Event} {r : VaultResult Bytes} (h : m.after.hist = ev :: m.before.hist)
    (ho : OpensAs m k r) : ∃ b pw ty label st, ev = .opened k b pw ty label r st := by
  obtain ⟨b, pw, ty, label, st, ho⟩ := ho
  rw [h] at ho
  exact ⟨b, pw, ty, label, st, (List.cons.inj ho).1⟩

theorem uses_unopened {ty : KeyType} {publicKey : Bytes} (h : Uses C k message ty publicKey m o)
    (j : Uuid) (r : VaultResult Bytes) : ¬ OpensAs m j r := by
  intro ho
  cases h with
  | signed cached live makes throttle hist =>
    obtain ⟨b, pw, ty, label, st, hev⟩ := opensAs_event hist ho
    cases hev
  | nothing none throttle hist => exact not_opensAs_of_hist hist j r ho

/-- The blob is opened with a wrong passphrase only where the outcome says so. -/
theorem serves_openedWrong (h : Serves C k message w o) (hs : OpenedWrong C w s) :
    o = .passphraseIncorrect := by
  obtain ⟨m, hm, j, r, ho, hr, -⟩ := hs
  have hlook : ∀ {m : Region}, Looks m → ¬ OpensAs m j r :=
    fun hl => (untouched_of_looks hl).unopened j r
  cases h with
  | unknown look₁ =>
    obtain rfl := List.mem_singleton.1 hm
    exact absurd ho (hlook look₁)
  | cached look₁ find look₂ held use =>
    simp only [List.mem_cons, List.not_mem_nil, or_false] at hm
    rcases hm with rfl | rfl | rfl
    · exact absurd ho (hlook look₁)
    · exact absurd ho (hlook look₂)
    · exact absurd ho (uses_unopened use j r)
  | declined look₁ find look₂ held look₃ =>
    simp only [List.mem_cons, List.not_mem_nil, or_false] at hm
    rcases hm with rfl | rfl | rfl
    · exact absurd ho (hlook look₁)
    · exact absurd ho (hlook look₂)
    · exact absurd ho (hlook look₃)
  | refused => rfl
  | @accepted m₁ m₂ m₃ m₄ m₅ w ty publicKey c pw sk o look₁ find look₂ held look₃ reply decrypt
      throttle hist retention use =>
    have hdec : m ∉ w := by
      intro hm
      generalize hq : (Except.ok sk : FacadeResult Bytes) = q at decrypt
      cases decrypt with
      | lockedOut => cases hq
      | unopened => cases hq
      | @opened d₁ d₂ d₃ d₄ ty label b result look₁ check look₂ lookup stored opening record =>
        simp only [List.mem_cons, List.not_mem_nil, or_false] at hm
        rcases hm with rfl | rfl | rfl | rfl
        · exact hlook look₁ ho
        · exact hlook look₂ ho
        · obtain ⟨-, rfl⟩ := ho.unique ⟨b, utf8 pw, ty, label, _, by rw [opening]; rfl⟩
          cases result with
          | ok sk' => cases hr
          | error x => cases hq
        · exact not_opensAs_of_hist (by rw [record]; rfl) j r ho
    simp only [List.mem_cons, List.mem_append, List.not_mem_nil, or_false] at hm
    rcases hm with rfl | rfl | rfl | hm | rfl | rfl
    · exact absurd ho (hlook look₁)
    · exact absurd ho (hlook look₂)
    · exact absurd ho (hlook look₃)
    · exact absurd hm hdec
    · obtain ⟨b, pw, ty, label, st, hev⟩ := opensAs_event hist ho
      cases hev
    · exact absurd ho (uses_unopened use j r)

/-- A wrong passphrase that a sign request finds is one that its prompt was
answered with. -/
theorem handles_refused {r : FacadeResult Bytes} (h : Handles C Vault.Admits raw w r)
    (hs : FoundWrong C (.handleProtocolRequest caller raw) w s) :
    PromptRefused C (.handleProtocolRequest caller raw) w := by
  have hkind : kindOf (.handleProtocolRequest caller raw) ≠ .unlock := by simp [kindOf]
  rw [foundWrong_iff hkind] at hs
  cases h with
  | other not looks => exact absurd hs (not_openedWrong fun m hm => untouched_of_looks (looks m hm))
  | lockedOut asks look₀ check =>
    exact absurd hs (not_openedWrong (by simpa using untouched_of_looks look₀))
  | @served k message m₀ w w' o reply asks look₀ check walk replies =>
    obtain ⟨o', ho, hserves⟩ := protocolSign_walk walk
    obtain rfl := Except.ok.inj ho
    rw [← serves_incorrect_iff hserves walk.admits asks check]
    obtain ⟨m, hm, j, r, ho, hr⟩ := hs
    refine serves_openedWrong (s := s) hserves ⟨m, ?_, j, r, ho, hr⟩
    rcases List.mem_cons.1 hm with rfl | hm
    · exact absurd ho ((untouched_of_looks look₀).unopened j r)
    · rcases List.mem_append.1 hm with hm | hm
      · exact hm
      · exact absurd ho (replies_unopened replies m hm j r)

/-! ## The first lockout -/

theorem chain_untouched {v' : Vault} : ∀ {w : List Region} {v : Vault}, Chain v w v' →
    (∀ m ∈ w, Untouched m) → v'.throttle = v.throttle
  | [], _, h, _ => congrArg Vault.throttle h
  | m :: _, _, ⟨hm, h⟩, hw => by
    rw [chain_untouched h fun x hx => hw x (List.mem_cons_of_mem _ hx),
      (hw m (by simp)).throttle, hm]

/-- A wrong passphrase leaves the throttle with one failure more. -/
theorem Shape.throttle_of_wrong {v v' : Vault} (h : Shape C w) (hc : Chain v w v')
    (hs : OpenedWrong C w s) : ∃ now, v'.throttle = v.throttle.recordFailure s now := by
  have hunopened : ∀ {l : List Region}, (∀ m ∈ l, Untouched m) → ∀ m ∈ l, ∀ k r, ¬ OpensAs m k r :=
    fun hl m hm => (hl m hm).unopened
  cases h with
  | untried h => exact absurd hs (not_openedWrong h)
  | @tried a b m₁ m₂ k r ha opens keeps hist record hb =>
    obtain ⟨rfl, hr⟩ := (openedWrong_mid (C := C) (s := s) (hunopened ha) opens fun m hm => by
      rcases List.mem_cons.1 hm with rfl | hm
      · exact not_opensAs_of_hist hist
      · exact hunopened hb m hm).1 hs
    obtain ⟨x, hca, rfl, hm₂, hcb⟩ := chain_append.1 hc
    refine ⟨m₂.input.now, ?_⟩
    rw [chain_untouched hcb hb, record, hm₂, keeps, chain_untouched hca ha, hr]
    rfl
  | @resealed a b m k r ha opens record hb =>
    obtain ⟨rfl, hr⟩ := (openedWrong_mid (C := C) (s := s) (hunopened ha) opens (hunopened hb)).1 hs
    obtain ⟨x, hca, rfl, hcb⟩ := chain_append.1 hc
    refine ⟨m.input.now, ?_⟩
    rw [chain_untouched hcb hb, record, chain_untouched hca ha, hr]
    rfl

theorem call_shape {A : Vault → In → Prop} {r : FacadeResult Reply}
    (h : Prog.Walk A (call.run C) w (.done r)) (hcall : kindOf call = .plain) : Shape C w := by
  have hf := call_follows C A call
  rw [hcall] at hf
  obtain ⟨y, hw, hy⟩ := Prog.Follows.walk h hf
  exact along_shape hw trivial hy

/-- Run alone, a call that finds a passphrase wrong leaves one failure more. -/
theorem wrong_throttle {r : FacadeResult Reply} {v v' : Vault}
    (h : Prog.Walk Vault.Admits (call.run C) w (.done r)) (hc : Chain v w v')
    (hs : FoundWrong C call w s) (hno : ¬ PromptRefused C call w) :
    ∃ now, v'.throttle = v.throttle.recordFailure s now := by
  cases hkind : kindOf call with
  | plain =>
    exact (call_shape h hkind).throttle_of_wrong hc ((foundWrong_iff (by simp [hkind])).1 hs)
  | protocol =>
    cases call with
    | handleProtocolRequest caller raw =>
      obtain ⟨q, -, hq⟩ := walk_replying.1 h
      exact absurd (handles_refused (request_walk hq) hs) hno
    | _ => cases hkind
  | unlock =>
    cases call with
    | unlockCompartment c pw =>
      obtain ⟨q, -, hq⟩ := walk_replying.1 h
      cases unlockCompartment_walk hq with
      | unparsed => exact absurd hs (not_foundWrong (by simp) (by simp))
      | lockedOut look =>
        exact absurd hs (not_foundWrong (by simpa using untouched_of_looks look) (by simp))
      | @tried id m₁ m₂ hid look hist throttle =>
        obtain ⟨rfl, hv⟩ := (foundWrong_unlock hid look hist).1 hs
        obtain ⟨rfl, hm₂, rfl⟩ := hc
        refine ⟨m₂.input.now, ?_⟩
        rw [throttle, hv, hm₂, (untouched_of_looks look).throttle]
        rfl
    | _ => cases hkind

end

/-- `n` wrong passphrases, entered one after the other through whatever calls. -/
inductive WrongEntries (C : Crates) (s : SecretId) : Vault → Nat → Vault → Prop
  | nil (v : Vault) : WrongEntries C s v 0 v
  | cons {call : Call} {w : List Region} {r : FacadeResult Reply} {v v₁ v₂ : Vault} {n : Nat}
      (walk : Prog.Walk Vault.Admits (call.run C) w (.done r)) (chain : Chain v w v₁)
      (wrong : FoundWrong C call w s) (yields : ¬ PromptRefused C call w)
      (rest : WrongEntries C s v₁ n v₂) : WrongEntries C s v (n + 1) v₂

theorem WrongEntries.counts {C : Crates} {s : SecretId} {v v' : Vault} {n m : Nat}
    (h : WrongEntries C s v n v') : v.throttle.Counts s m →
      v'.throttle.Counts s (m + n) ∧ v'.throttle.failureThreshold =
      v.throttle.failureThreshold := by
  induction h generalizing m with
  | nil v => exact fun hm => ⟨hm, rfl⟩
  | @cons call w r v v₁ v₂ n walk chain wrong yields rest ih =>
    intro hm
    obtain ⟨now, ht⟩ := wrong_throttle walk chain wrong yields
    have hm₁ : v₁.throttle.Counts s (m + 1) := by
      rw [ht]
      exact hm.recordFailure now
    obtain ⟨hn, hth⟩ := ih hm₁
    rw [ht] at hth
    exact ⟨by rwa [show m + (n + 1) = m + 1 + n by omega], hth⟩

/-- **A wrong passphrase counts once.** A call counts one failure for a
passphrase that it found wrong, and none otherwise, exactly when it is not a
sign request whose prompt did not yield the key; and wrong passphrases entered
through such calls lock the secret from the threshold on. -/
theorem counted_once_iff (C : Crates) :
    (∀ {call : Call} {w : List Region} {r : FacadeResult Reply},
      Prog.Walk Vault.Admits (call.run C) w (.done r) →
        (CountedOnce C call w ↔ ¬ PromptRefused C call w)) ∧
    ∀ {s : SecretId} {v v' : Vault} {n : Nat}, WrongEntries C s v n v' →
      v.throttle.states.get s = none → 0 < n →
        (((v'.throttle.states.get s).bind State.lockedUntil).isSome ↔
          v.throttle.failureThreshold.toNat ≤ n) := by
  constructor
  · intro call w r h
    cases hkind : kindOf call with
    | plain =>
      refine iff_of_true ⟨fun s hs => ?_, fun s hs => ?_⟩ fun hp => ?_
      · exact ((call_shape h hkind).raised s).1 ((foundWrong_iff (by simp [hkind])).1 hs)
      · exact ((call_shape h hkind).raised s).2 fun hw =>
          hs ((foundWrong_iff (by simp [hkind])).2 hw)
      · rw [promptRefused_sign hp] at hkind
        cases hkind
    | unlock =>
      refine iff_of_true ?_ fun hp => by rw [promptRefused_sign hp] at hkind; cases hkind
      cases call with
      | unlockCompartment c pw =>
        obtain ⟨q, -, hq⟩ := walk_replying.1 h
        exact (unlockCompartment_walk hq).counted
      | _ => cases hkind
    | protocol =>
      cases call with
      | handleProtocolRequest caller raw =>
        obtain ⟨q, -, hq⟩ := walk_replying.1 h
        exact handles_counted (request_walk hq)
      | _ => cases hkind
  · intro s v v' n h hfresh hpos
    obtain ⟨hn, hth⟩ := h.counts (.zero hfresh)
    rw [Nat.zero_add] at hn
    rw [hn.locks hpos, hth]

/-- The imported passkey and the wrong passphrase. -/
theorem imported_wrong {v : Vault} {n : UInt32} {t : Option OffsetDateTime} {b : Bytes}
    (h : Imported v n t b) : ∃ blob x, KeyBlobOf.fromBytes Crates.symbolic b = .ok blob ∧
      keyblobOpen Crates.symbolic blob (utf8 "no") (Uuid.rep 1) .ed25519 "passkey" = .error x ∧
      v.throttle.check (SecretId.key Crates.symbolic (Uuid.rep 1)) 0 = .ok () ∧
      lookupBlob v.state (Uuid.rep 10) (Uuid.rep 1) = .ok (.ed25519, "passkey", b) := by
  obtain ⟨blob, hb, -⟩ := opens_ok.1 h.seals
  obtain ⟨x, hx⟩ := h.seals.wrong
  rw [opens_parsed hb] at hx
  refine ⟨blob, x, hb, hx, ?_, h.state.lookupBlob (HashMap.get_put_self _ _ _)⟩
  rw [h.throttle]
  rfl

/-- A wrong passphrase given to `unlock_key`: one failure, and no lockout. -/
theorem counted_once_sample : ∃ (v v' : Vault) (w : List Region) (r : FacadeResult Reply),
    Prog.Walk Vault.Admits ((unlockKeyCall "no").run Crates.symbolic) w (.done r) ∧
    CountedOnce Crates.symbolic (unlockKeyCall "no") w ∧
    WrongEntries Crates.symbolic (SecretId.key Crates.symbolic (Uuid.rep 1)) v 1 v' ∧
    (((v'.throttle.states.get (SecretId.key Crates.symbolic (Uuid.rep 1))).bind
      State.lockedUntil).isSome ↔
      v.throttle.failureThreshold.toNat ≤ 1) := by
  obtain ⟨t, v, b, -, hv, -⟩ := samplePasskey_imported 0
  obtain ⟨blob, x, hb, hx, ht, hl⟩ := imported_wrong hv
  obtain ⟨opened, hopened⟩ : ∃ opened, opened = v.log (.opened (Uuid.rep 1) b (utf8 "no") .ed25519
    "passkey" (.error x) v.state) := ⟨_, rfl⟩
  have hclock : opened.clock = 0 := by rw [hopened]; exact hv.clock
  have hmoves := decryptKey_moves sampleNext_still (Nat.le_of_eq hv.clock)
    (enter_still sampleNext_still hv.clock).symm hv.clock hv.clock hclock ht hl hb hx
  obtain ⟨w, hw⟩ : ∃ w, w = triedMoves Crates.symbolic v v v v opened sampleNext (Uuid.rep 1) b "no"
    .ed25519 "passkey" (.error x) := ⟨_, rfl⟩
  rw [← hw] at hmoves
  have hwalk : Prog.Walk Vault.Admits ((unlockKeyCall "no").run Crates.symbolic) w
      (.done (.error (.failed "incorrect passphrase"))) := by
    refine walk_replying.2 ⟨.error (.failed "incorrect passphrase"), rfl, ?_⟩
    unfold unlockKey
    rw [uuidParse_symbolic, uuidParse_symbolic]
    exact Prog.walk_bind.2 (.inl ⟨_, rfl, hmoves⟩)
  have hno : ¬ PromptRefused Crates.symbolic (unlockKeyCall "no") w :=
    fun hp => by cases promptRefused_sign hp
  have hwrong : FoundWrong Crates.symbolic (unlockKeyCall "no") w
      (SecretId.key Crates.symbolic (Uuid.rep 1)) := by
    rw [foundWrong_iff (by simp [kindOf, unlockKeyCall]), hw]
    refine ⟨⟨v, sampleNext,
      v.log (.opened (Uuid.rep 1) b (utf8 "no") .ed25519 "passkey" (.error x) v.state)⟩,
      ?_, Uuid.rep 1, .error x, ⟨b, _, _, _, _, rfl⟩, rfl, rfl⟩
    simp [triedMoves]
  obtain ⟨v', hc⟩ : ∃ v', Chain v w v' := ⟨_, by rw [hw, hopened]; exact ⟨rfl, rfl, rfl, rfl, rfl⟩⟩
  have hentries : WrongEntries Crates.symbolic (SecretId.key Crates.symbolic (Uuid.rep 1)) v 1 v' :=
    .cons hwalk hc hwrong hno (.nil v')
  refine ⟨v, v', w, _, hwalk, ((counted_once_iff Crates.symbolic).1 hwalk).2 hno, hentries, ?_⟩
  refine (counted_once_iff Crates.symbolic).2 hentries ?_ Nat.one_pos
  rw [hv.throttle]
  exact HashMap.get_empty _

/-- One wrong passphrase, given to the prompt of a sign request: two failures. -/
theorem prompted_counted_twice :
    ∃ (t : Turn) (v v' : Vault) (w : List Region) (r : FacadeResult Reply),
    Run Crates.symbolic Vault.Admits sampleVault [t] v ∧
    Prog.Walk Vault.Admits
    ((Call.handleProtocolRequest "app" (Uuid.rep 1).asBytes).run Crates.symbolic) w
      (.done r) ∧ Chain v w v' ∧
    FoundWrong Crates.symbolic (.handleProtocolRequest "app" (Uuid.rep 1).asBytes) w
      (SecretId.key Crates.symbolic (Uuid.rep 1)) ∧
    v.throttle.failures (SecretId.key Crates.symbolic (Uuid.rep 1)) = 0 ∧
    v'.throttle.failures (SecretId.key Crates.symbolic (Uuid.rep 1)) = 2 ∧
    ¬ CountedOnce Crates.symbolic (.handleProtocolRequest "app" (Uuid.rep 1).asBytes) w := by
  obtain ⟨t, v, b, hrun, hv, hk, -⟩ := samplePasskey_imported 0
  obtain ⟨blob, x, hb, hx, ht, hl⟩ := imported_wrong hv
  obtain ⟨e, he⟩ : ∃ e : In, e = { sampleNext with reply := some "no" } := ⟨_, rfl⟩
  have hstill : e.Still 0 := by
    rw [he]
    exact ⟨rfl, rfl⟩
  obtain ⟨id, hw⟩ := refused_walk hstill (Nat.le_of_eq hv.clock) (enter_still hstill hv.clock).symm
    sampleSignRequest "app" ht (hv.state.findForProtocol e.orders) (by rw [Retention.contains, hk])
    (by rw [he]) hl hb hx
  obtain ⟨w, hrw⟩ : ∃ w, w = refusedMoves Crates.symbolic v v e (Uuid.rep 1)
      b "no" .ed25519 "passkey" x :=
    ⟨_, rfl⟩
  rw [← hrw] at hw
  have hwrong : FoundWrong Crates.symbolic (.handleProtocolRequest "app" (Uuid.rep 1).asBytes) w
      (SecretId.key Crates.symbolic (Uuid.rep 1)) := by
    rw [foundWrong_iff (by simp [kindOf]), hrw]
    refine ⟨⟨v, e,
      v.log (.opened (Uuid.rep 1) b (utf8 "no") .ed25519 "passkey" (.error x) v.state)⟩,
      ?_, Uuid.rep 1, .error x, ⟨b, _, _, _, _, rfl⟩, rfl, rfl⟩
    simp [refusedMoves, triedMoves]
  obtain ⟨v', hc, hv'⟩ : ∃ v', Chain v w v' ∧ v'.throttle = (v.throttle.recordFailure
      (SecretId.key Crates.symbolic (Uuid.rep 1)) 0).recordFailure
      (SecretId.key Crates.symbolic (Uuid.rep 1)) 0 :=
    ⟨_, by rw [hrw]; exact ⟨rfl, rfl, rfl, rfl, rfl, rfl, rfl, rfl, rfl, rfl⟩, by rw [he]; rfl⟩
  have h0 : v.throttle.failures (SecretId.key Crates.symbolic (Uuid.rep 1)) = 0 := by
    rw [hv.throttle]
    rfl
  have hrefused := handles_refused (request_walk hw) hwrong
  refine ⟨t, v, v', w, _, hrun, walk_replying.2 ⟨_, rfl, hw⟩, hc, hwrong, h0, ?_, fun hcount =>
    (handles_counted (request_walk hw)).1 hcount hrefused⟩
  rw [hv', ThrottleTracker.failures_recordFailure, if_pos rfl,
    ThrottleTracker.failures_recordFailure, if_pos rfl, h0]
  rfl

end VaultSigner.L5
