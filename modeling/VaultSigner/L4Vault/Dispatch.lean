import VaultSigner.L3Logic.Ceremony
import VaultSigner.L4Vault.Sample

/-!
# How a request is dispatched

`handle_request` with any backend, and any throttle that keeps a
`ThrottleTracker`. The dispatcher is seen through the calls it makes: what it
asks the backend for, what it checks and what it records.

* `Exits`: every way out of the dispatcher, with its calls and its reply.
* `FailsClosed`: what they have in common.

Results:
* `handleRequest_exits`: a request takes one of these exits.
* `request_fails_closed`: so every request has a reply of the right form, at
  most one signature is asked for, and the throttle is changed by its outcome
  alone.
* `vaultTracked`, `handleProtocolRequest_exits`, `vaultAssertion_exits`,
  `vaultRegistration_exits`: the vault's own backends.
-/
namespace VaultSigner.L4
open VaultSigner.Core VaultSigner.L1 VaultSigner.L2.Throttle VaultSigner.L3 VaultSigner.L3.Protocol

/-- A throttle that keeps a `ThrottleTracker` in the state: each of its three
programs is one region, which reads the clock. -/
structure Tracked (E S ε : Type) extends Throttling E S ε where
  tracker : S → ThrottleTracker
  clock : E → Nat
  check_walk :
    ∀ {A : S → E → Prop} {s : SecretId} {w : List (Move E S)} {r : Except ε (VaultResult Unit)},
    Prog.Walk A (check s) w (.done r) → ∃ m, w = [m] ∧
      r = .ok ((tracker m.before).check s (clock m.input)) ∧ tracker m.after = tracker m.before
  success_walk : ∀ {A : S → E → Prop} {s : SecretId} {w : List (Move E S)} {r : Except ε Unit},
    Prog.Walk A (recordSuccess s) w (.done r) → ∃ m, w = [m] ∧ r = .ok () ∧
      tracker m.after = (tracker m.before).recordSuccess s
  failure_walk : ∀ {A : S → E → Prop} {s : SecretId} {w : List (Move E S)} {r : Except ε Unit},
    Prog.Walk A (recordFailure s) w (.done r) → ∃ m, w = [m] ∧ r = .ok () ∧
      tracker m.after = (tracker m.before).recordFailure s (clock m.input)

/-- A call of the dispatcher, with its answer. -/
inductive Asked where
  | listed (keys : List PublicKeyInfo)
  | signed (callerIdentity : String) (keyId : Uuid) (message : Bytes) (outcome : SignOutcome)
  | checked (secret : SecretId) (result : VaultResult Unit)
  | succeeded (secret : SecretId)
  | failed (secret : SecretId)

def Asked.isSign : Asked → Bool
  | .signed .. => true
  | _ => false

def Asked.isRecord : Asked → Bool
  | .succeeded _ => true
  | .failed _ => true
  | _ => false

/-- The moves that a call makes: those of the backend's program, or the one
region of the throttle, with what it does to the tracker. -/
def Asked.Does {E S ε : Type} (A : S → E → Prop) (backend : SigningBackend E S ε)
    (throttle : Tracked E S ε) : Asked → List (Move E S) → Prop
  | .listed keys, w => Prog.Walk A backend.listPublicKeys w (.done (.ok keys))
  | .signed caller k message outcome, w =>
    Prog.Walk A (backend.sign caller k message) w (.done (.ok outcome))
  | .checked s result, w => ∃ m, w = [m] ∧
    result = (throttle.tracker m.before).check s (throttle.clock m.input) ∧
    throttle.tracker m.after = throttle.tracker m.before
  | .succeeded s, w => ∃ m, w = [m] ∧
    throttle.tracker m.after = (throttle.tracker m.before).recordSuccess s
  | .failed s, w => ∃ m, w = [m] ∧
    throttle.tracker m.after = (throttle.tracker m.before).recordFailure s (throttle.clock m.input)

section
variable (C : Crates)

/-- The `id` of the reply. -/
def replyId (raw : Bytes) : Value :=
  match C.rawRequestFromSlice raw with
  | .ok request => request.id
  | .error _ => .null

/-- `raw` asks for the list of keys. -/
def ListRequest (raw : Bytes) : Prop :=
  ∃ request, C.rawRequestFromSlice raw = .ok request ∧
    request.method = "vaultsigner.list_public_keys"

/-- The second member of an error response. -/
def failure (code message : String) : String × Value :=
  ("error", .object [("code", .string code), ("message", .string message)])

/-- The second member of the reply to an outcome. -/
def answerTo : SignOutcome → String × Value
  | .signed signature publicKey =>
    ("result", .object [("signature_b64", .string (C.base64Encode signature)),
      ("public_key_b64", .string (C.base64Encode publicKey))])
  | .keyNotFound => failure "key_not_found" "no such key"
  | .userDeclined => failure "user_declined" "user declined the signing request"
  | .passphraseIncorrect => failure "passphrase_incorrect" "incorrect passphrase"

/-- What is recorded of an outcome. -/
def recordsOf (secret : SecretId) : SignOutcome → List Asked
  | .signed .. => [.succeeded secret]
  | .passphraseIncorrect => [.failed secret]
  | _ => []

/-- The ways out of the dispatcher: the calls made, and the second member of
the reply. -/
inductive Exits (caller : String) (raw : Bytes) : List Asked → String × Value → Prop
  | refused {code message : String} (notList : ¬ ListRequest C raw)
      (notSign : ∀ k m, ¬ SignRequest C raw k m) : Exits caller raw [] (failure code message)
  | listed {keys : List PublicKeyInfo} {result : Value} (asks : ListRequest C raw) :
      Exits caller raw [.listed keys] ("result", result)
  | lockedOut {k : Uuid} {m : Bytes} {x : VaultError} (asks : SignRequest C raw k m) :
      Exits caller raw [.checked (SecretId.key C k) (.error x)]
        (failure "key_locked_retry_later" "too many recent failed attempts for this key")
  | answered {k : Uuid} {m : Bytes} (outcome : SignOutcome) (asks : SignRequest C raw k m) :
      Exits caller raw (.checked (SecretId.key C k) (.ok ()) :: .signed caller k m outcome ::
        recordsOf (SecretId.key C k) outcome) (answerTo C outcome)

/-- What every exit has in common. -/
structure FailsClosed (caller : String) (raw : Bytes) (calls : List Asked) (body : String × Value) :
    Prop where
  /-- the reply is a result or an error -/
  reply : body.1 = "result" ∨ body.1 = "error"
  /-- one signature is asked for, at most -/
  once : (calls.filter Asked.isSign).length ≤ 1
  /-- and only as the request asks for it, with the key not locked out -/
  only : ∀ before after caller' k m outcome,
    calls = before ++ .signed caller' k m outcome :: after →
    caller' = caller ∧ SignRequest C raw k m ∧ before = [.checked (SecretId.key C k) (.ok ())]
  /-- there is a result for a list of keys, or a signature -/
  result_iff : body.1 = "result" ↔ ListRequest C raw ∨
    ∃ k m signature publicKey, .signed caller k m (.signed signature publicKey) ∈ calls
  /-- one outcome is recorded, at most -/
  recordOnce : (calls.filter Asked.isRecord).length ≤ 1
  /-- a success for a signature, under the secret of its key -/
  success_iff : ∀ s, .succeeded s ∈ calls ↔ ∃ k m signature publicKey, s = SecretId.key C k ∧
    .signed caller k m (.signed signature publicKey) ∈ calls
  /-- a failure for a wrong passphrase, under the secret of its key -/
  failure_iff : ∀ s, .failed s ∈ calls ↔ ∃ k m, s = SecretId.key C k ∧
    .signed caller k m .passphraseIncorrect ∈ calls

variable {C} {E S ε : Type} {A : S → E → Prop} {backend : SigningBackend E S ε}
  {throttle : Tracked E S ε} {caller : String} {raw : Bytes} {w : List (Move E S)}
    {r : Except ε Bytes}

/-! ## The calls of a request -/

theorem replyToSign_calls {secret : SecretId} {id : Value} {outcome : SignOutcome}
    (h : Prog.Walk A (replyToSign C throttle.toThrottling secret id outcome) w (.done r)) :
    r = .ok (C.valueToVec (.object [("id", id), answerTo C outcome])) ∧
      Performs (Asked.Does A backend throttle) (recordsOf secret outcome) w := by
  unfold replyToSign at h
  cases outcome with
  | signed signature publicKey =>
    rcases Prog.walk_bind.1 h with ⟨x, -, hx⟩ | ⟨u, w₁, w₂, rfl, hu, hreply⟩
    · obtain ⟨m, -, hr, -⟩ := throttle.success_walk hx
      cases hr
    · obtain ⟨m, rfl, -, hm⟩ := throttle.success_walk hu
      obtain ⟨rfl, rfl⟩ := Prog.walk_done.1 hreply
      exact ⟨rfl, .one ⟨m, rfl, hm⟩⟩
  | keyNotFound =>
    obtain ⟨rfl, rfl⟩ := Prog.walk_done.1 h
    exact ⟨rfl, .nil⟩
  | userDeclined =>
    obtain ⟨rfl, rfl⟩ := Prog.walk_done.1 h
    exact ⟨rfl, .nil⟩
  | passphraseIncorrect =>
    rcases Prog.walk_bind.1 h with ⟨x, -, hx⟩ | ⟨u, w₁, w₂, rfl, hu, hreply⟩
    · obtain ⟨m, -, hr, -⟩ := throttle.failure_walk hx
      cases hr
    · obtain ⟨m, rfl, -, hm⟩ := throttle.failure_walk hu
      obtain ⟨rfl, rfl⟩ := Prog.walk_done.1 hreply
      exact ⟨rfl, .one ⟨m, rfl, hm⟩⟩

/-- A request whose parameters decode: the check, the backend, the record. -/
theorem checkedSign_calls {k : Uuid} {message : Bytes} {id : Value}
    (hsign : ∀ caller k m, (backend.sign caller k m).Answers) (asks : SignRequest C raw k message)
    (h : Prog.Walk A ((throttle.check (SecretId.key C k)).bind fun checked =>
      match checked with
      | .error _ => .done (.ok (errorResponse C id "key_locked_retry_later"
          "too many recent failed attempts for this key"))
      | .ok () => (backend.sign caller k message).bind
          (replyToSign C throttle.toThrottling (SecretId.key C k) id)) w (.done r)) :
    ∃ calls body, r = .ok (C.valueToVec (.object [("id", id), body])) ∧
      Performs (Asked.Does A backend throttle) calls w ∧ Exits C caller raw calls body := by
  rcases Prog.walk_bind.1 h with ⟨x, -, hx⟩ | ⟨checked, w₁, w₂, rfl, hc, hrest⟩
  · obtain ⟨m, -, hr, -⟩ := throttle.check_walk hx
    cases hr
  · obtain ⟨m, rfl, hr, hm⟩ := throttle.check_walk hc
    have hcheck : Asked.Does A backend throttle (.checked (SecretId.key C k) checked) [m] :=
      ⟨m, rfl, Except.ok.inj hr, hm⟩
    cases checked with
    | error x =>
      obtain ⟨rfl, rfl⟩ := Prog.walk_done.1 hrest
      exact ⟨_, _, rfl, .cons hcheck .nil, .lockedOut asks⟩
    | ok _ =>
      obtain ⟨outcome, w₃, w₄, rfl, hs, hreply⟩ := (hsign caller k message).walk_bind hrest
      obtain ⟨rfl, hrecord⟩ := replyToSign_calls hreply
      have hcall : Asked.Does A backend throttle (.signed caller k message outcome) w₃ := hs
      exact ⟨_, _, rfl, .cons hcheck (.cons hcall hrecord), .answered outcome asks⟩

/-- **Every request takes one of the exits.** -/
theorem handleRequest_exits (hlist : backend.listPublicKeys.Answers)
    (hsign : ∀ caller k m, (backend.sign caller k m).Answers)
    (h : Prog.Walk A (handleRequest C backend throttle.toThrottling caller raw) w (.done r)) :
    ∃ calls body, r = .ok (C.valueToVec (.object [("id", replyId C raw), body])) ∧
      Performs (Asked.Does A backend throttle) calls w ∧ Exits C caller raw calls body := by
  unfold handleRequest at h
  cases hq : C.rawRequestFromSlice raw with
  | error e =>
    have hid : replyId C raw = .null := by simp [replyId, hq]
    have hlist' : ¬ ListRequest C raw := fun ⟨q, hq', _⟩ => by rw [hq] at hq'; cases hq'
    have hsign' : ∀ k m, ¬ SignRequest C raw k m := fun k m ⟨q, p, hq', _⟩ => by
      rw [hq] at hq'
      cases hq'
    simp only [hq] at h
    obtain ⟨rfl, rfl⟩ := Prog.walk_done.1 h
    rw [hid]
    exact ⟨_, _, rfl, .nil, .refused hlist' hsign'⟩
  | ok request =>
    have hid : replyId C raw = request.id := by simp [replyId, hq]
    rw [hid]
    simp only [hq] at h
    split at h
    · rename_i hmethod
      obtain ⟨keys, w₁, w₂, rfl, hk, hreply⟩ := hlist.walk_bind h
      obtain ⟨rfl, rfl⟩ := Prog.walk_done.1 hreply
      have hcall : Asked.Does A backend throttle (.listed keys) w₁ := hk
      exact ⟨_, _, rfl, .cons hcall .nil, .listed ⟨request, hq, hmethod⟩⟩
    · rename_i hnotList
      have hlist' : ¬ ListRequest C raw := fun ⟨q, hq', hm⟩ => by
        rw [hq] at hq'
        cases hq'
        exact hnotList hm
      split at h
      · rename_i hmethod
        unfold handleSign at h
        -- what does not decode is not a request to sign
        have hsign' : ∀ k m, SignRequest C raw k m → ∃ params,
            C.signParamsFromValue request.params = .ok params ∧ C.uuidParse params.keyId = .ok k ∧
              C.base64Decode params.messageB64 = some m := by
          intro k m asks
          obtain ⟨q, params, hq', -, hp⟩ := asks
          rw [hq] at hq'
          cases hq'
          exact ⟨params, hp⟩
        cases hp : C.signParamsFromValue request.params with
        | error e =>
          simp only [hp] at h
          obtain ⟨rfl, rfl⟩ := Prog.walk_done.1 h
          refine ⟨_, _, rfl, .nil, .refused hlist' fun k m asks => ?_⟩
          obtain ⟨params, hp', -⟩ := hsign' k m asks
          rw [hp] at hp'
          cases hp'
        | ok params =>
          simp only [hp] at h
          cases hk : C.uuidParse params.keyId with
          | error e =>
            simp only [hk] at h
            obtain ⟨rfl, rfl⟩ := Prog.walk_done.1 h
            refine ⟨_, _, rfl, .nil, .refused hlist' fun k m asks => ?_⟩
            obtain ⟨params', hp', hk', -⟩ := hsign' k m asks
            rw [hp] at hp'
            cases hp'
            rw [hk] at hk'
            cases hk'
          | ok k =>
            simp only [hk] at h
            cases hm : C.base64Decode params.messageB64 with
            | none =>
              simp only [hm] at h
              obtain ⟨rfl, rfl⟩ := Prog.walk_done.1 h
              refine ⟨_, _, rfl, .nil, .refused hlist' fun k' m asks => ?_⟩
              obtain ⟨params', hp', -, hm'⟩ := hsign' k' m asks
              rw [hp] at hp'
              cases hp'
              rw [hm] at hm'
              cases hm'
            | some message =>
              simp only [hm] at h
              exact checkedSign_calls hsign ⟨request, params, hq, hmethod, hp, hk, hm⟩ h
      · rename_i hmethod
        obtain ⟨rfl, rfl⟩ := Prog.walk_done.1 h
        refine ⟨_, _, rfl, .nil, .refused hlist' fun k m asks => ?_⟩
        obtain ⟨q, params, hq', hm, -⟩ := asks
        rw [hq] at hq'
        cases hq'
        exact hmethod hm

/-! ## What the exits have in common -/

theorem SignRequest.notList {k : Uuid} {m : Bytes} (h : SignRequest C raw k m) :
    ¬ ListRequest C raw := by
  intro hlist
  obtain ⟨q, -, hq, hsign, -⟩ := h
  obtain ⟨q', hq', hmethod⟩ := hlist
  rw [hq] at hq'
  cases hq'
  rw [hsign] at hmethod
  exact absurd hmethod (by decide)

theorem mem_recordsOf {secret s : SecretId} {outcome : SignOutcome} :
    (.succeeded s ∈ recordsOf secret outcome ↔ s = secret ∧ ∃ sig pk, outcome = .signed sig pk) ∧
    (.failed s ∈ recordsOf secret outcome ↔ s = secret ∧ outcome = .passphraseIncorrect) := by
  cases outcome <;> simp [recordsOf]

theorem answerTo_result (outcome : SignOutcome) :
    (answerTo C outcome).1 = "result" ↔ ∃ sig pk, outcome = .signed sig pk := by
  cases outcome <;> simp [answerTo, failure]

theorem not_sign_mem_recordsOf {secret : SecretId} {outcome o : SignOutcome} {caller' : String}
    {k : Uuid} {m : Bytes} : .signed caller' k m o ∉ recordsOf secret outcome := by
  cases outcome <;> simp [recordsOf]

theorem filter_recordsOf (secret : SecretId) (outcome : SignOutcome) :
    (recordsOf secret outcome).filter Asked.isSign = [] ∧
      ((recordsOf secret outcome).filter Asked.isRecord).length ≤ 1 := by
  cases outcome <;> simp [recordsOf, List.filter_cons, Asked.isSign, Asked.isRecord]

/-- A request that was answered asked the backend once, after the check. -/
theorem answered_failsClosed {k : Uuid} {m : Bytes} (outcome : SignOutcome)
    (asks : SignRequest C raw k m) :
    FailsClosed C caller raw (.checked (SecretId.key C k) (.ok ()) :: .signed caller k m outcome ::
      recordsOf (SecretId.key C k) outcome) (answerTo C outcome) := by
  obtain ⟨hnosign, hrecord⟩ := filter_recordsOf (SecretId.key C k) outcome
  have hmem : ∀ k' m' o, .signed caller k' m' o ∈ Asked.checked (SecretId.key C k) (.ok ()) ::
      .signed caller k m outcome :: recordsOf (SecretId.key C k) outcome ↔
        k' = k ∧ m' = m ∧ o = outcome := by
    intro k' m' o
    simp [not_sign_mem_recordsOf]
  refine ⟨?_, ?_, fun before after caller' k' m' o hl => ?_, ?_, ?_, fun s => ?_, fun s => ?_⟩
  · cases outcome <;> simp [answerTo, failure]
  · simp [List.filter_cons, Asked.isSign, hnosign]
  · cases before with
    | nil => cases hl
    | cons x before =>
      simp only [List.cons_append, List.cons.injEq] at hl
      obtain ⟨rfl, hl⟩ := hl
      cases before with
      | nil =>
        simp only [List.nil_append, List.cons.injEq, Asked.signed.injEq] at hl
        obtain ⟨⟨rfl, rfl, rfl, rfl⟩, rfl⟩ := hl
        exact ⟨rfl, asks, rfl⟩
      | cons y before =>
        simp only [List.cons_append, List.cons.injEq] at hl
        have hin : .signed caller' k' m' o ∈ recordsOf (SecretId.key C k) outcome := by
          rw [hl.2]
          simp
        exact absurd hin not_sign_mem_recordsOf
  · rw [answerTo_result]
    refine ⟨fun h => ?_, fun h => ?_⟩
    · obtain ⟨sig, pk, rfl⟩ := h
      exact .inr ⟨k, m, sig, pk, (hmem ..).2 ⟨rfl, rfl, rfl⟩⟩
    · rcases h with h | ⟨k', m', sig, pk, h⟩
      · exact absurd h asks.notList
      · exact ⟨sig, pk, ((hmem ..).1 h).2.2.symm⟩
  · simpa [List.filter_cons, Asked.isRecord] using hrecord
  · have hs : .succeeded s ∈ Asked.checked (SecretId.key C k) (.ok ()) ::
        .signed caller k m outcome ::
        recordsOf (SecretId.key C k) outcome ↔
          .succeeded s ∈ recordsOf (SecretId.key C k) outcome := by
      simp
    rw [hs, mem_recordsOf.1]
    refine ⟨fun h => ?_, fun h => ?_⟩
    · obtain ⟨rfl, sig, pk, rfl⟩ := h
      exact ⟨k, m, sig, pk, rfl, (hmem ..).2 ⟨rfl, rfl, rfl⟩⟩
    · obtain ⟨k', m', sig, pk, rfl, h⟩ := h
      obtain ⟨rfl, rfl, rfl⟩ := (hmem ..).1 h
      exact ⟨rfl, sig, pk, rfl⟩
  · have hf : .failed s ∈ Asked.checked (SecretId.key C k) (.ok ()) :: .signed caller k m outcome ::
        recordsOf (SecretId.key C k) outcome ↔
          .failed s ∈ recordsOf (SecretId.key C k) outcome := by
      simp
    rw [hf, mem_recordsOf.2]
    refine ⟨fun h => ?_, fun h => ?_⟩
    · obtain ⟨rfl, rfl⟩ := h
      exact ⟨k, m, rfl, (hmem ..).2 ⟨rfl, rfl, rfl⟩⟩
    · obtain ⟨k', m', rfl, h⟩ := h
      obtain ⟨rfl, rfl, rfl⟩ := (hmem ..).1 h
      exact ⟨rfl, rfl⟩

/-- An exit that asks the backend for no signature. -/
theorem silent_failsClosed {calls : List Asked} {body : String × Value}
    (hreply : body.1 = "result" ∨ body.1 = "error") (hlist : body.1 = "result" ↔ ListRequest C raw)
    (hcalls : ∀ x ∈ calls, x.isSign = false ∧ x.isRecord = false) :
    FailsClosed C caller raw calls body := by
  have hnone : ∀ x, (x.isSign = true ∨ x.isRecord = true) → x ∉ calls := by
    intro x hx hm
    have hboth := hcalls x hm
    rcases hx with hx | hx
    · rw [hboth.1] at hx; cases hx
    · rw [hboth.2] at hx; cases hx
  have hsign : ∀ caller' k m o, Asked.signed caller' k m o ∉ calls :=
    fun _ _ _ _ => hnone _ (.inl rfl)
  have hempty : ∀ p : Asked → Bool, (∀ x ∈ calls, p x = false) → (calls.filter p).length ≤ 1 := by
    intro p hp
    have hnil : calls.filter p = [] := List.filter_eq_nil_iff.2 fun x hx => by simp [hp x hx]
    simp [hnil]
  refine ⟨hreply, hempty _ fun x hx => (hcalls x hx).1, fun before after caller' k m o hl => ?_, ?_,
    hempty _ fun x hx => (hcalls x hx).2, fun s => ?_, fun s => ?_⟩
  · exact absurd (by rw [hl]; simp) (hsign caller' k m o)
  · simp [hlist, hsign]
  · simp [hsign, hnone (.succeeded s) (.inr rfl)]
  · simp [hsign, hnone (.failed s) (.inr rfl)]

theorem Exits.failsClosed {calls : List Asked} {body : String × Value}
    (h : Exits C caller raw calls body) : FailsClosed C caller raw calls body := by
  cases h with
  | refused notList notSign =>
    exact silent_failsClosed (.inr rfl) (by simp [failure, notList]) (by simp)
  | listed asks =>
    exact silent_failsClosed (.inl rfl) (by simp [asks]) (by simp [Asked.isSign, Asked.isRecord])
  | lockedOut asks =>
    exact silent_failsClosed (.inr rfl) (by simp [failure, asks.notList])
      (by simp [Asked.isSign, Asked.isRecord])
  | answered outcome asks => exact answered_failsClosed outcome asks

/-- **The dispatcher fails closed.** Whatever the bytes, the backend and the
throttle: there is a reply with the request's `id` and either a result or an
error; the moves of the request are those of its calls; a signature is asked
for at most once, as the request says, when its key is not locked out; and the
only records are those of the outcome, under the secret of that key. -/
theorem request_fails_closed (hlist : backend.listPublicKeys.Answers)
    (hsign : ∀ caller k m, (backend.sign caller k m).Answers)
    (h : Prog.Walk A (handleRequest C backend throttle.toThrottling caller raw) w (.done r)) :
    ∃ calls body, r = .ok (C.valueToVec (.object [("id", replyId C raw), body])) ∧
      Performs (Asked.Does A backend throttle) calls w ∧ FailsClosed C caller raw calls body := by
  obtain ⟨calls, body, hr, hperforms, hexit⟩ := handleRequest_exits hlist hsign h
  exact ⟨calls, body, hr, hperforms, hexit.failsClosed⟩

end

/-! ## The vault's own backend -/

/-- The vault's throttle. -/
def vaultTracked : Tracked In Vault FacadeError where
  toThrottling := vaultThrottling
  tracker := Vault.throttle
  clock := In.now
  check_walk := by
    intro A s w r h
    change Prog.Walk A (ask fun e v => (v.throttle.check s e.now, v)) w (.done r) at h
    obtain ⟨m, rfl, -, hm, hr⟩ := walk_ask.1 h
    refine ⟨m, rfl, ?_, ?_⟩
    · rw [hr, Vault.enter_throttle]
    · rw [hm, Vault.enter_throttle]
  success_walk := by
    intro A s w r h
    change Prog.Walk A (ask fun _ v => ((), v.setThrottle (v.throttle.recordSuccess s))) w
      (.done r) at h
    obtain ⟨m, rfl, -, hm, hr⟩ := walk_ask.1 h
    exact ⟨m, rfl, hr, by rw [hm]; rfl⟩
  failure_walk := by
    intro A s w r h
    change Prog.Walk A (ask fun e v =>
      ((), v.setThrottle (v.throttle.recordFailure s e.now))) w (.done r) at h
    obtain ⟨m, rfl, -, hm, hr⟩ := walk_ask.1 h
    exact ⟨m, rfl, hr, by rw [hm]; rfl⟩

theorem answers_ask {ε α : Type} (body : In → Vault → α × Vault) :
    (ask body : Prog In Vault ε α).Answers := by
  intro A w r h
  obtain ⟨m, -, -, -, hr⟩ := walk_ask.1 h
  exact ⟨_, hr⟩

theorem protocolBackend_answers (C : Crates) : (protocolBackend C).listPublicKeys.Answers ∧
    ∀ caller k m, ((protocolBackend C).sign caller k m).Answers := by
  refine ⟨answers_ask fun e v => (listPublicKeys e.orders v.state, v), fun caller k m A w r h => ?_⟩
  obtain ⟨o, hr, -⟩ := protocolSign_walk h
  exact ⟨o, hr⟩

/-- A request to the vault, by its exit. -/
theorem handleProtocolRequest_exits {C : Crates} {A : Vault → In → Prop} {caller : String}
    {raw : Bytes} {w : List Region} {r : FacadeResult Bytes}
    (h : Prog.Walk A (handleProtocolRequest C caller raw) w (.done r)) :
    ∃ calls body, r = .ok (C.valueToVec (.object [("id", replyId C raw), body])) ∧
      Performs (Asked.Does A (protocolBackend C) vaultTracked) calls w ∧
      Exits C caller raw calls body :=
  handleRequest_exits (protocolBackend_answers C).1 (protocolBackend_answers C).2 h

/-- A request for a cached key is served, and so recorded as a success. -/
theorem request_fails_closed_served : ∃ w r, Prog.Walk Vault.Admits
      (handleProtocolRequest Crates.symbolic "app" (Uuid.rep 1).asBytes) w (.done r) ∧
    ∃ calls body, r = .ok (Crates.symbolic.valueToVec
        (.object [("id", replyId Crates.symbolic (Uuid.rep 1).asBytes), body])) ∧
      Performs (Asked.Does Vault.Admits (protocolBackend Crates.symbolic) vaultTracked) calls w ∧
      FailsClosed Crates.symbolic "app" (Uuid.rep 1).asBytes calls body := by
  obtain ⟨l, v, b, -, hv, -⟩ := samplePasskey_ready 0
  have ht : v.throttle.check (SecretId.key Crates.symbolic (Uuid.rep 1)) 0 = .ok () := by
    rw [hv.throttle]
    rfl
  obtain ⟨sig, id, -, hw⟩ := hv.state.served hv.clock ht hv.retention "app"
  exact ⟨_, _, hw, request_fails_closed (protocolBackend_answers _).1
    (protocolBackend_answers _).2 hw⟩

/-! ## The ceremonies -/

theorem ctap2Use_answers (C : Crates) (k : Uuid) (ty : KeyType) (m : Bytes) :
    (ctap2Use C k ty m).Answers := by
  refine (answers_ask _).bind fun r => ?_
  split
  · exact Prog.answers_done _
  · exact Prog.answers_done _

theorem ctap2Sign_answers (C : Crates) (prompts : Bool) (k : Uuid) (m : Bytes) :
    (ctap2Sign C prompts k m).Answers := by
  unfold ctap2Sign
  refine (answers_ask _).bind fun found => ?_
  cases found with
  | none => exact Prog.answers_done _
  | some p =>
    refine (answers_ask _).bind fun held => ?_
    cases held with
    | true => exact ctap2Use_answers C k p.1 m
    | false =>
      refine (Prog.answers_attempt _).bind fun checked => ?_
      cases checked with
      | error x => exact Prog.answers_done _
      | ok _ =>
        cases prompts with
        | false => exact Prog.answers_done _
        | true =>
          refine (answers_ask _).bind fun reply => ?_
          cases reply with
          | none => exact Prog.answers_done _
          | some pw =>
            refine (Prog.answers_attempt _).bind fun key => ?_
            cases key with
            | error x => exact Prog.answers_done _
            | ok sk =>
              refine (answers_ask _).bind fun cached => ?_
              cases cached with
              | error x => exact Prog.answers_done _
              | ok _ => exact ctap2Use_answers C k p.1 m

/-- An assertion by the vault, by its exit. -/
theorem vaultAssertion_exits {C : Crates} {A : Vault → In → Prop} {prompts up uv : Bool}
    {request : GetAssertionRequest} {w : List Region} {r : Except Ctap2Error GetAssertionOutcome}
    (h : Prog.Walk A (handleGetAssertion C (ctap2Backend C prompts) request up uv) w (.done r)) :
    ∃ cands signs, Performs (Ctap2Call.Does A (ctap2Backend C prompts))
        (.candidates request.rpId cands :: signs) w ∧
      AssertionExits C request up uv cands signs r :=
  handleGetAssertion_exits
    (fun rpId => answers_ask fun e v => (credentialsForRp C e.orders v.state rpId, v))
    (ctap2Sign_answers C prompts) h

/-- A registration at the vault, by its exit; the random source works. -/
theorem vaultRegistration_exits {C : Crates} {A : Vault → In → Prop} {prompts up uv : Bool}
    (hC : Serialises C) (hseed : ∀ v e, A v e → ∃ seed, e.seed = .ok seed)
    {request : MakeCredentialRequest} (hfiltered : Filtered request) {w : List Region}
    {r : Except Ctap2Error MakeCredentialOutcome}
    (h : Prog.Walk A (handleMakeCredential C (ctap2Backend C prompts) drawRegion request up uv) w
      (.done r)) :
    ∃ existing w₁ w₂, w = w₁ ++ w₂ ∧
      Prog.Walk A ((ctap2Backend C prompts).credentialsForRp request.rpId) w₁
      (.done (.ok existing)) ∧
      RegistrationExits C A drawRegion request up uv existing w₂ r := by
  refine handleMakeCredential_exits hC
    (fun rpId => answers_ask fun e v => (credentialsForRp C e.orders v.state rpId, v))
    (answers_ask _) (fun w drawn hw => ?_) hfiltered h
  obtain ⟨m, -, hm, -, hr⟩ := walk_ask.1 hw
  cases hr
  exact hseed m.before m.input hm

end VaultSigner.L4
