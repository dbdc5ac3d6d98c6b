import VaultSigner.Core.Calls
import VaultSigner.L1Format.Symbolic
import VaultSigner.L3Logic.Ctap2

/-!
# What the CTAP2 handlers ask for, and what they answer

`handle_get_assertion` and `handle_make_credential` with any backend. The
gates are the same in both: a user is present, and verified if the request
wants that. An assertion is made with the first candidate that the request
admits; a registration is refused if a candidate is on the exclude list.

Results:
* `handleGetAssertion_exits`, `handleMakeCredential_exits`: every way out of
  the two handlers, with the calls made.
* `getAssertion_signs_only`: what is signed, and what the response carries.
* `makeCredential_admits`: which registrations succeed, and what they return.
-/
namespace VaultSigner.L3
open VaultSigner.Core VaultSigner.L1

/-- A call on the backend, with its answer. -/
inductive Ctap2Call where
  | candidates (rpId : String) (found : List CredentialCandidate)
  | signed (keyId : Uuid) (message : Bytes) (signature : Option Bytes)

/-- The moves that a call makes. -/
def Ctap2Call.Does {E S : Type} (A : S → E → Prop) (backend : Ctap2Backend E S) :
    Ctap2Call → List (Move E S) → Prop
  | .candidates rpId found, w => Prog.Walk A (backend.credentialsForRp rpId) w (.done (.ok found))
  | .signed k message signature, w => Prog.Walk A (backend.sign k message) w (.done (.ok signature))

/-- A user is present, and verified if the request asks for verification. -/
def Gates (options : Option CtapOptions) (up uv : Bool) : Prop :=
  up = true ∧ (uvRequested options = true → uv = true)

/-- The flags of a user who is present, and verified or not. -/
def presentFlags (uv : Bool) : UInt8 := userPresenceFlag ||| if uv then userVerifiedFlag else 0

theorem flagsOf_present (base : UInt8) (uv : Bool) :
    flagsOf base true uv = base ||| presentFlags uv := by
  cases uv
  · simp [flagsOf, presentFlags]
  · simp [flagsOf, presentFlags, UInt8.or_assoc]

/-! ## Assertions -/

/-- The request may be answered with this candidate. -/
def Admits (request : GetAssertionRequest) (c : CredentialCandidate) : Prop :=
  match request.allowList with
  | some allowList => c.credentialId ∈ allowList
  | none => c.discoverable = true

/-- The first such candidate, in the backend's order. -/
def FirstAdmitted (request : GetAssertionRequest) (cands : List CredentialCandidate)
    (c : CredentialCandidate) : Prop :=
  ∃ before after, cands = before ++ c :: after ∧ Admits request c ∧ ∀ x ∈ before, ¬ Admits request x

theorem chooseCandidate_eq (request : GetAssertionRequest) (cands : List CredentialCandidate) :
    ∃ p : CredentialCandidate → Bool, (∀ c, p c = true ↔ Admits request c) ∧
      chooseCandidate request cands = cands.find? p := by
  unfold chooseCandidate Admits
  cases request.allowList with
  | some allowList =>
    refine ⟨fun c => allowList.any fun a => a = c.credentialId, fun c => ?_, List.head?_filter⟩
    simp
  | none => exact ⟨fun c => c.discoverable, fun c => Iff.rfl, List.head?_filter⟩

theorem chooseCandidate_some {request : GetAssertionRequest} {cands : List CredentialCandidate}
    {c : CredentialCandidate} :
    chooseCandidate request cands = some c ↔ FirstAdmitted request cands c := by
  obtain ⟨p, hp, hchoose⟩ := chooseCandidate_eq request cands
  rw [hchoose, List.find?_eq_some_iff_append, hp]
  refine ⟨fun h => ?_, fun h => ?_⟩
  · obtain ⟨hc, before, after, hl, hbefore⟩ := h
    refine ⟨before, after, hl, hc, fun x hx hadmits => ?_⟩
    have hnot := hbefore x hx
    rw [(hp x).2 hadmits] at hnot
    cases hnot
  · obtain ⟨before, after, hl, hc, hbefore⟩ := h
    refine ⟨hc, before, after, hl, fun x hx => ?_⟩
    have hnot : ¬ p x = true := fun h => hbefore x hx ((hp x).1 h)
    simp [hnot]

theorem chooseCandidate_none {request : GetAssertionRequest} {cands : List CredentialCandidate} :
    chooseCandidate request cands = none ↔ ∀ c ∈ cands, ¬ Admits request c := by
  obtain ⟨p, hp, hchoose⟩ := chooseCandidate_eq request cands
  rw [hchoose, List.find?_eq_none]
  simp only [hp]

section
variable (C : Crates)

/-- `data` is the serialised authenticator data of an assertion. -/
def AssertionData (request : GetAssertionRequest) (uv : Bool) (count : UInt32) (data : Bytes) :
    Prop :=
  C.authData ⟨rpIdHash C request.rpId, presentFlags uv, count, none⟩ = some data

/-- The response to an assertion by the candidate `c`. -/
def assertionResponse (request : GetAssertionRequest) (c : CredentialCandidate) (data sig : Bytes) :
    GetAssertionResponse :=
  ⟨c.credentialId, data, sig, if request.allowList.isNone then some c.userHandle else none⟩

/-- The ways out of `handle_get_assertion`, with the calls made once the
candidates are known. -/
inductive AssertionExits (request : GetAssertionRequest) (up uv : Bool)
    (cands : List CredentialCandidate) :
    List Ctap2Call → Except Ctap2Error GetAssertionOutcome → Prop
  | noCredentials (hnone : ∀ c ∈ cands, ¬ Admits request c) :
      AssertionExits request up uv cands [] (.error .noCredentials)
  | denied {c : CredentialCandidate} (first : FirstAdmitted request cands c)
      (gates : ¬ Gates request.options up uv) :
      AssertionExits request up uv cands [] (.error .operationDenied)
  | unserialised {c : CredentialCandidate} (first : FirstAdmitted request cands c)
      (gates : Gates request.options up uv) : AssertionExits request up uv cands [] (.error .other)
  | unanswered {c : CredentialCandidate} {data : Bytes} {sig : Option Bytes} {x : Ctap2Error}
      (first : FirstAdmitted request cands c) (gates : Gates request.options up uv)
      (hdata : AssertionData C request uv (c.signCount + 1) data) :
      AssertionExits request up uv cands [.signed c.keyId (data ++ request.clientDataHash) sig]
        (.error x)
  | asserted {c : CredentialCandidate} {data sig payload : Bytes}
      (first : FirstAdmitted request cands c) (gates : Gates request.options up uv)
      (hdata : AssertionData C request uv (c.signCount + 1) data)
      (hcbor : C.getAssertionCbor (assertionResponse request c data sig) = some payload) :
      AssertionExits request up uv cands
        [.signed c.keyId (data ++ request.clientDataHash) (some sig)]
        (.ok ⟨0x00 :: payload, c.keyId, c.signCount + 1, assertionResponse request c data sig⟩)

/-- What every such exit keeps to. -/
structure SignsOnly (request : GetAssertionRequest) (up uv : Bool)
    (cands : List CredentialCandidate) (signs : List Ctap2Call)
    (r : Except Ctap2Error GetAssertionOutcome) : Prop where
  /-- one signature, at most -/
  once : signs = [] ∨ ∃ k message sig, signs = [.signed k message sig]
  /-- with the gates passed, by the first candidate, over the data and the hash -/
  only : ∀ k message sig, .signed k message sig ∈ signs → Gates request.options up uv ∧
    ∃ c data, FirstAdmitted request cands c ∧ k = c.keyId ∧
      AssertionData C request uv (c.signCount + 1) data ∧ message = data ++ request.clientDataHash
  noCredentials : (∀ c ∈ cands, ¬ Admits request c) → r = .error .noCredentials ∧ signs = []
  denied : (∃ c ∈ cands, Admits request c) → ¬ Gates request.options up uv →
    r = .error .operationDenied ∧ signs = []
  /-- the response carries what was signed -/
  response : ∀ o, r = .ok o → ∃ c data sig payload, FirstAdmitted request cands c ∧
    signs = [.signed c.keyId (data ++ request.clientDataHash) (some sig)] ∧
    AssertionData C request uv o.newSignCount data ∧ o.newSignCount = c.signCount + 1 ∧
    o.keyId = c.keyId ∧ o.response = assertionResponse request c data sig ∧
    C.getAssertionCbor o.response = some payload ∧ o.responseCbor = 0x00 :: payload

end

variable {C : Crates} {E S : Type} {A : S → E → Prop} {backend : Ctap2Backend E S}
  {up uv : Bool} {w : List (Move E S)}

section
variable {request : GetAssertionRequest} {cands : List CredentialCandidate}

/-- The gates, as the source tests them. -/
theorem gates_iff {options : Option CtapOptions} :
    Gates options up uv ↔ (!up) = false ∧ (uvRequested options && !uv) = false := by
  unfold Gates
  cases up <;> cases uv <;> simp

theorem prepareAssertion_cases : (prepareAssertion C request up uv cands = .error .noCredentials ∧
      ∀ c ∈ cands, ¬ Admits request c) ∨
    ∃ c, FirstAdmitted request cands c ∧
      ((prepareAssertion C request up uv cands = .error .operationDenied ∧
        ¬ Gates request.options up uv) ∨
        Gates request.options up uv ∧ (prepareAssertion C request up uv cands = .error .other ∨
          ∃ data, prepareAssertion C request up uv cands = .ok (c, data) ∧
            AssertionData C request uv (c.signCount + 1) data)) := by
  unfold prepareAssertion
  cases hc : chooseCandidate request cands with
  | none => exact .inl ⟨rfl, chooseCandidate_none.1 hc⟩
  | some c =>
    refine .inr ⟨c, chooseCandidate_some.1 hc, ?_⟩
    simp only [gates_iff]
    cases hup : !up with
    | true => simp
    | false =>
      cases hverified : uvRequested request.options && !uv with
      | true => simp
      | false =>
        have hpresent : up = true := by simpa using hup
        subst hpresent
        refine .inr ⟨⟨rfl, rfl⟩, ?_⟩
        have hflags : flagsOf 0 true uv = presentFlags uv := by simp [flagsOf_present]
        simp only [hflags, AssertionData, Bool.false_eq_true, if_false]
        cases C.authData ⟨rpIdHash C request.rpId, presentFlags uv, c.signCount + 1, none⟩ with
        | none => exact .inl rfl
        | some data => exact .inr ⟨data, rfl, rfl⟩

theorem finishAssertion_cases (c : CredentialCandidate) (data : Bytes) (sig : Option Bytes) :
    (∃ x, finishAssertion C request c data sig = .error x) ∨
    ∃ s payload, sig = some s ∧
      C.getAssertionCbor (assertionResponse request c data s) = some payload ∧
      finishAssertion C request c data sig =
        .ok ⟨0x00 :: payload, c.keyId, c.signCount + 1, assertionResponse request c data s⟩ := by
  cases sig with
  | none => exact .inl ⟨_, rfl⟩
  | some s =>
    unfold finishAssertion
    simp only
    split
    · exact .inl ⟨_, rfl⟩
    · split
      · exact .inl ⟨_, rfl⟩
      · split
        · exact .inl ⟨_, rfl⟩
        · have hresponse :
              (⟨c.credentialId, data, s, responseUser request c⟩ : GetAssertionResponse) =
              assertionResponse request c data s := rfl
          simp only [hresponse]
          cases hp : C.getAssertionCbor (assertionResponse request c data s) with
          | none => exact .inl ⟨.other, rfl⟩
          | some payload => exact .inr ⟨s, payload, rfl, hp, rfl⟩

/-- **Every assertion takes one of the exits.** -/
theorem handleGetAssertion_exits (hcands : ∀ rpId, (backend.credentialsForRp rpId).Answers)
    (hsign : ∀ k message, (backend.sign k message).Answers)
    {r : Except Ctap2Error GetAssertionOutcome}
    (h : Prog.Walk A (handleGetAssertion C backend request up uv) w (.done r)) :
    ∃ cands signs, Performs (Ctap2Call.Does A backend) (.candidates request.rpId cands :: signs) w ∧
      AssertionExits C request up uv cands signs r := by
  unfold handleGetAssertion at h
  obtain ⟨cands, w₁, w₂, rfl, hc, hrest⟩ := (hcands request.rpId).walk_bind h
  have hfound : Ctap2Call.Does A backend (.candidates request.rpId cands) w₁ := hc
  have hdone : ∀ {x : Ctap2Error}, prepareAssertion C request up uv cands = .error x →
      r = .error x ∧ w₂ = [] := by
    intro x hx
    simp only [hx] at hrest
    obtain ⟨rfl, rfl⟩ := Prog.walk_done.1 hrest
    exact ⟨rfl, rfl⟩
  rcases prepareAssertion_cases
    (C := C) with ⟨hx, hnone⟩ | ⟨c, hfirst, ⟨hx, hgates⟩ | ⟨hgates, hx | ⟨data, hx, hdata⟩⟩⟩
  · obtain ⟨rfl, rfl⟩ := hdone hx
    exact ⟨cands, [], .cons hfound .nil, .noCredentials hnone⟩
  · obtain ⟨rfl, rfl⟩ := hdone hx
    exact ⟨cands, [], .cons hfound .nil, .denied hfirst hgates⟩
  · obtain ⟨rfl, rfl⟩ := hdone hx
    exact ⟨cands, [], .cons hfound .nil, .unserialised hfirst hgates⟩
  · simp only [hx] at hrest
    obtain ⟨sig, w₃, w₄, rfl, hs, hfinish⟩ :=
      (hsign c.keyId (data ++ request.clientDataHash)).walk_bind hrest
    have hsigned : Ctap2Call.Does A backend
        (.signed c.keyId (data ++ request.clientDataHash) sig) w₃ := hs
    obtain ⟨rfl, rfl⟩ := Prog.walk_done.1 hfinish
    refine ⟨cands, _, .cons hfound (.cons hsigned .nil), ?_⟩
    rcases finishAssertion_cases c data sig with ⟨x, hx⟩ | ⟨s, payload, rfl, hcbor, hok⟩
    · rw [hx]
      exact .unanswered hfirst hgates hdata
    · rw [hok]
      exact .asserted hfirst hgates hdata hcbor

theorem FirstAdmitted.exists {c : CredentialCandidate} (h : FirstAdmitted request cands c) :
    ∃ c ∈ cands, Admits request c := by
  obtain ⟨before, after, rfl, hc, -⟩ := h
  exact ⟨c, by simp, hc⟩

/-- What holds when nothing was signed. -/
theorem SignsOnly.unsigned {x : Ctap2Error}
    (hnone : (∀ c ∈ cands, ¬ Admits request c) → x = .noCredentials)
    (hdenied : (∃ c ∈ cands, Admits request c) → ¬ Gates request.options up uv →
      x = .operationDenied) :
    SignsOnly C request up uv cands [] (.error x) where
  once := .inl rfl
  only := by simp
  noCredentials := fun h => ⟨congrArg Except.error (hnone h), rfl⟩
  denied := fun h hg => ⟨congrArg Except.error (hdenied h hg), rfl⟩
  response := by simp

/-- What holds when the first admitted candidate signed. -/
theorem SignsOnly.signed {c : CredentialCandidate} {data : Bytes} {sig : Option Bytes}
    {r : Except Ctap2Error GetAssertionOutcome} (hfirst : FirstAdmitted request cands c)
    (hgates : Gates request.options up uv)
    (hdata : AssertionData C request uv (c.signCount + 1) data)
    (hr : ∀ o, r = .ok o → ∃ s payload, sig = some s ∧ o.newSignCount = c.signCount + 1 ∧
      o.keyId = c.keyId ∧ o.response = assertionResponse request c data s ∧
      C.getAssertionCbor o.response = some payload ∧ o.responseCbor = 0x00 :: payload) :
    SignsOnly C request up uv cands [.signed c.keyId (data ++ request.clientDataHash) sig] r where
  once := .inr ⟨_, _, _, rfl⟩
  only := by
    intro k message sig' hmem
    obtain ⟨rfl, rfl, -⟩ := by simpa using hmem
    exact ⟨hgates, c, data, hfirst, rfl, hdata, rfl⟩
  noCredentials := fun hnone => by
    obtain ⟨c', hc', hadmits⟩ := hfirst.exists
    exact absurd hadmits (hnone c' hc')
  denied := fun _ hnot => absurd hgates hnot
  response := by
    intro o ho
    obtain ⟨s, payload, rfl, hcount, hkey, hresponse, hcbor, hbytes⟩ := hr o ho
    exact ⟨c, data, s, payload, hfirst, rfl, by rw [hcount]; exact hdata, hcount, hkey, hresponse,
      hcbor, hbytes⟩

theorem AssertionExits.signsOnly {signs : List Ctap2Call}
    {r : Except Ctap2Error GetAssertionOutcome} (h : AssertionExits C request up uv cands signs r) :
    SignsOnly C request up uv cands signs r := by
  have hsome : ∀ {c}, FirstAdmitted request cands c → ¬ ∀ c ∈ cands, ¬ Admits request c := by
    intro c hfirst hnone
    obtain ⟨c', hc', hadmits⟩ := hfirst.exists
    exact hnone c' hc' hadmits
  cases h with
  | noCredentials hnone =>
    refine SignsOnly.unsigned (fun _ => rfl) fun hadmits => ?_
    obtain ⟨c, hc, hadmits⟩ := hadmits
    exact absurd hadmits (hnone c hc)
  | denied first gates => exact SignsOnly.unsigned (fun h => absurd h (hsome first)) fun _ _ => rfl
  | unserialised first gates =>
    exact SignsOnly.unsigned (fun h => absurd h (hsome first)) fun _ h => absurd gates h
  | unanswered first gates hdata => exact SignsOnly.signed first gates hdata (by simp)
  | asserted first gates hdata hcbor =>
    refine SignsOnly.signed first gates hdata fun o ho => ?_
    cases ho
    exact ⟨_, _, rfl, rfl, rfl, rfl, hcbor, rfl⟩

/-- **An assertion signs only what it should**: at most once, with the gates
passed, by the first candidate that the request admits, over the authenticator
data and the client data hash; and the response carries just that. -/
theorem getAssertion_signs_only (hcands : ∀ rpId, (backend.credentialsForRp rpId).Answers)
    (hsign : ∀ k message, (backend.sign k message).Answers)
    {r : Except Ctap2Error GetAssertionOutcome}
    (h : Prog.Walk A (handleGetAssertion C backend request up uv) w (.done r)) :
    ∃ cands signs, Performs (Ctap2Call.Does A backend) (.candidates request.rpId cands :: signs) w ∧
      SignsOnly C request up uv cands signs r := by
  obtain ⟨cands, signs, hperforms, hexit⟩ := handleGetAssertion_exits hcands hsign h
  exact ⟨cands, signs, hperforms, hexit.signsOnly⟩

end

/-- A backend with one passkey, which always signs. -/
def oneCredential : Ctap2Backend Unit Unit where
  credentialsForRp := fun _ => .done (.ok [⟨Uuid.rep 1, [0xab], [0x01], true, 7⟩])
  sign := fun _ _ => .done (.ok (some [0x30]))

theorem oneCredential_answers : (∀ rpId, (oneCredential.credentialsForRp rpId).Answers) ∧
    ∀ k message, (oneCredential.sign k message).Answers :=
  ⟨fun _ => Prog.answers_done _, fun _ _ => Prog.answers_done _⟩

/-- An assertion without an allow list. -/
theorem getAssertion_signs_only_sample : ∃ o, handleGetAssertion Crates.symbolic oneCredential
      ⟨"rp", [0x02], none, none⟩ true false = .done (.ok o) ∧
    ∃ cands signs, Performs (Ctap2Call.Does (fun _ _ => True) oneCredential)
        (.candidates "rp" cands :: signs) [] ∧
      SignsOnly Crates.symbolic ⟨"rp", [0x02], none, none⟩ true false cands signs (.ok o) := by
  obtain ⟨o, ho⟩ : ∃ o, handleGetAssertion Crates.symbolic oneCredential
      ⟨"rp", [0x02], none, none⟩ true false = .done (.ok o) := ⟨_, rfl⟩
  have hw : Prog.Walk (fun _ _ => True) (handleGetAssertion Crates.symbolic oneCredential
      ⟨"rp", [0x02], none, none⟩ true false) [] (.done (.ok o)) := by
    rw [ho]
    exact .nil _
  exact ⟨o, ho, getAssertion_signs_only oneCredential_answers.1 oneCredential_answers.2 hw⟩

/-! ## Registrations -/

/-- A credential on the exclude list is one of the candidates. -/
def Excluded (request : MakeCredentialRequest) (existing : List CredentialCandidate) : Prop :=
  ∃ x ∈ request.excludeList.getD [], ∃ c ∈ existing, c.credentialId = x

/-- The registration may go ahead. -/
def Permitted (request : MakeCredentialRequest) (up uv : Bool)
    (existing : List CredentialCandidate) :
    Prop :=
  ¬ Excluded request existing ∧ Gates request.options up uv ∧ request.pubKeyCredParams ≠ []

/-- What `ctap-types` leaves in the list of algorithms. -/
def Filtered (request : MakeCredentialRequest) : Prop :=
  ∀ alg ∈ request.pubKeyCredParams, alg = es256 ∨ alg = edDsa

/-- `cose` is the COSE form of the public key. -/
def EncodesKey (C : Crates) (key : GeneratedKeyPair) (cose : Bytes) : Prop :=
  match key.keyType with
  | .ed25519 => C.coseKey (.ed25519 key.publicKey) = some cose
  | .ecdsaP256 => ∃ x y, key.publicKey = 0x04 :: (x ++ y) ∧ x.length = 32 ∧ y.length = 32 ∧
    C.coseKey (.p256 x y) = some cose

/-- Coordinates of 32 bytes, as the generated keys have them. -/
def Sized : CosePublicKey → Prop
  | .ed25519 x => x.length = 32
  | .p256 x y => x.length = 32 ∧ y.length = 32

/-- What a registration serialises fits: a P-256 point is `0x04 || x || y`, and
keys and authenticator data of the sizes at hand have their CBOR form. -/
structure Serialises (C : Crates) : Prop where
  point : ∀ scalar, ∃ x y, C.p256PublicKey scalar = 0x04 :: (x ++ y) ∧ x.length = 32 ∧ y.length = 32
  coordinate : 32 ≤ C.coseCoordinateLen
  coseKey : ∀ k, Sized k → ∃ cose, C.coseKey k = some cose
  authData : ∀ rpId flags credentialId k cose, credentialId.length = 16 → Sized k →
    C.coseKey k = some cose →
    ∃ data, C.authData ⟨rpIdHash C rpId, flags, 0, some ⟨aaguid, credentialId, cose⟩⟩ = some data
  cbor : ∀ d data, C.authData d = some data → ∃ payload, C.makeCredentialCbor data = some payload

/-- What a registration with the drawn values returns. -/
def RegisteredAs (C : Crates) (request : MakeCredentialRequest) (uv : Bool) (drawn : Drawn)
    (o : MakeCredentialOutcome) : Prop :=
  ∃ alg rest cose data payload, request.pubKeyCredParams = alg :: rest ∧
    keyTypeForAlg alg = some o.generatedKey.keyType ∧
    generate C drawn.seed drawn.scalar o.generatedKey.keyType = .ok o.generatedKey ∧
    EncodesKey C o.generatedKey cose ∧
    C.authData ⟨rpIdHash C request.rpId, attestedCredentialDataFlag ||| presentFlags uv, 0,
      some ⟨aaguid, o.credentialId, cose⟩⟩ = some data ∧
    C.makeCredentialCbor data = some payload ∧ o.responseCbor = 0x00 :: payload ∧
    o.credentialId = drawn.credentialId.asBytes ∧ o.rpId = request.rpId ∧
    o.userHandle = request.userId ∧
      o.discoverable = (request.options.bind CtapOptions.rk).getD false

section
variable {request : MakeCredentialRequest} {existing : List CredentialCandidate}

theorem excluded_iff :
    Excluded request existing ↔ ((request.excludeList.getD []).any fun excluded =>
    existing.any fun c => c.credentialId = excluded) = true := by
  simp [Excluded]

theorem keyTypeForAlg_filtered {alg : Int} (h : alg = es256 ∨ alg = edDsa) :
    ∃ keyType, keyTypeForAlg alg = some keyType := by
  rcases h with rfl | rfl
  · exact ⟨_, rfl⟩
  · exact ⟨_, rfl⟩

/-- The checks, in their order. -/
theorem registrationChecks_cases (hfiltered : Filtered request) :
    (Excluded request existing ∧ registrationChecks request up uv existing =
      .error .credentialExcluded) ∨
    ¬ Excluded request existing ∧
      ((¬ Gates request.options up uv ∧
          registrationChecks request up uv existing = .error .operationDenied) ∨
        Gates request.options up uv ∧
          ((request.pubKeyCredParams = [] ∧
              registrationChecks request up uv existing = .error .unsupportedAlgorithm) ∨
            ∃ alg rest keyType, request.pubKeyCredParams = alg :: rest ∧
              keyTypeForAlg alg = some keyType ∧
              registrationChecks request up uv existing = .ok keyType)) := by
  unfold registrationChecks
  by_cases hx : Excluded request existing
  · exact .inl ⟨hx, by rw [if_pos (excluded_iff.1 hx)]⟩
  · refine .inr ⟨hx, ?_⟩
    rw [if_neg fun h => hx (excluded_iff.2 h)]
    simp only [gates_iff]
    cases hup : !up with
    | true => simp
    | false =>
      cases hverified : uvRequested request.options && !uv with
      | true => simp
      | false =>
        refine .inr ⟨⟨rfl, rfl⟩, ?_⟩
        simp only [Bool.false_eq_true, if_false]
        cases hl : request.pubKeyCredParams with
        | nil => exact .inl ⟨rfl, rfl⟩
        | cons alg rest =>
          have halg : alg ∈ request.pubKeyCredParams := by
            rw [hl]
            exact List.mem_cons_self
          obtain ⟨keyType, hk⟩ := keyTypeForAlg_filtered (hfiltered alg halg)
          refine .inr ⟨alg, rest, keyType, rfl, hk, ?_⟩
          simp only [List.head?_cons, hk]

/-- A generated key has a COSE form. -/
theorem generate_encodes (hC : Serialises C) {drawn : Drawn} {seed : Vector UInt8 32}
    (hseed : drawn.seed = .ok seed) (keyType : KeyType) : ∃ key k cose,
      generate C drawn.seed drawn.scalar keyType = .ok key ∧ key.keyType = keyType ∧ Sized k ∧
      C.coseKey k = some cose ∧ coseKeyBytes C keyType key.publicKey = .ok cose ∧
      EncodesKey C key cose := by
  cases keyType with
  | ed25519 =>
    have hlen : (C.ed25519PublicKey seed).toList.length = 32 := by simp
    obtain ⟨cose, hcose⟩ := hC.coseKey (.ed25519 (C.ed25519PublicKey seed).toList) hlen
    refine ⟨⟨.ed25519, seed.toList, (C.ed25519PublicKey seed).toList⟩, .ed25519 _, cose, ?_,
      rfl, hlen,
      hcose, ?_, hcose⟩
    · simp [generate, hseed, mapErr, bind, Except.bind, pure, Except.pure]
    · simp only [coseKeyBytes, hlen, hC.coordinate, decide_true, if_true, hcose]
  | ecdsaP256 =>
    obtain ⟨x, y, hpoint, hx, hy⟩ := hC.point drawn.scalar
    obtain ⟨cose, hcose⟩ := hC.coseKey (.p256 x y) ⟨hx, hy⟩
    refine ⟨⟨.ecdsaP256, drawn.scalar.toList, C.p256PublicKey drawn.scalar⟩, .p256 x y, cose,
      rfl, rfl,
      ⟨hx, hy⟩, hcose, ?_, ⟨x, y, hpoint, hx, hy, hcose⟩⟩
    have hlen : (0x04 :: (x ++ y)).length = 65 := by simp [hx, hy]
    have htx : ((0x04 :: (x ++ y)).drop 1).take 32 = x := by
      rw [List.drop_succ_cons, List.drop_zero, ← hx, List.take_left]
    have hty : ((0x04 :: (x ++ y)).drop 33).take 32 = y := by
      have hdrop : (x ++ y).drop 32 = y := by rw [← hx, List.drop_left]
      rw [List.drop_succ_cons, hdrop, List.take_of_length_le (Nat.le_of_eq hy)]
    simp only [coseKeyBytes, hpoint, hlen, htx, hty, hx, hy, hC.coordinate]
    simp [hcose]

theorem buildCredential_ok (hC : Serialises C) {drawn : Drawn} {seed : Vector UInt8 32}
    (hseed : drawn.seed = .ok seed) {alg : Int} {rest : List Int} {keyType : KeyType}
    (hl : request.pubKeyCredParams = alg :: rest) (halg : keyTypeForAlg alg = some keyType) :
    ∃ o, buildCredential C request true uv keyType drawn = .ok o ∧
    RegisteredAs C request uv drawn o := by
  obtain ⟨key, k, cose, hgen, rfl, hsized, hcose, hbytes, hencodes⟩ :=
    generate_encodes hC hseed keyType
  obtain ⟨data, hdata⟩ := hC.authData request.rpId (attestedCredentialDataFlag ||| presentFlags uv)
    drawn.credentialId.asBytes k cose (Uuid.asBytes_length _) hsized hcose
  obtain ⟨payload, hpayload⟩ := hC.cbor _ data hdata
  refine ⟨⟨0x00 :: payload, key, drawn.credentialId.asBytes, request.rpId, request.userId,
    (request.options.bind CtapOptions.rk).getD false⟩, ?_, ?_⟩
  · unfold buildCredential
    simp only [hgen, hbytes, bind, Except.bind, flagsOf_present, hdata, successResponseBytes,
      hpayload,
      pure, Except.pure]
  · exact ⟨alg, rest, cose, data, payload, hl, halg, hgen, hencodes, hdata, hpayload, rfl, rfl, rfl,
      rfl, rfl⟩

/-- The ways out of `handle_make_credential`. -/
inductive RegistrationExits (C : Crates) (A : S → E → Prop) (draw : Prog E S Ctap2Error Drawn)
    (request : MakeCredentialRequest) (up uv : Bool) (existing : List CredentialCandidate) :
    List (Move E S) → Except Ctap2Error MakeCredentialOutcome → Prop
  | excluded (hx : Excluded request existing) :
      RegistrationExits C A draw request up uv existing [] (.error .credentialExcluded)
  | denied (hx : ¬ Excluded request existing) (gates : ¬ Gates request.options up uv) :
      RegistrationExits C A draw request up uv existing [] (.error .operationDenied)
  | unsupported (hx : ¬ Excluded request existing) (gates : Gates request.options up uv)
      (algs : request.pubKeyCredParams = []) :
      RegistrationExits C A draw request up uv existing [] (.error .unsupportedAlgorithm)
  | registered {drawn : Drawn} {w : List (Move E S)} {o : MakeCredentialOutcome}
      (permitted : Permitted request up uv existing) (walk : Prog.Walk A draw w (.done (.ok drawn)))
      (outcome : RegisteredAs C request uv drawn o) :
      RegistrationExits C A draw request up uv existing w (.ok o)

/-- **Every registration takes one of the exits.** -/
theorem handleMakeCredential_exits (hC : Serialises C)
    (hcands : ∀ rpId, (backend.credentialsForRp rpId).Answers) {draw : Prog E S Ctap2Error Drawn}
    (hdraw : draw.Answers)
    (hseed : ∀ w drawn, Prog.Walk A draw w (.done (.ok drawn)) → ∃ seed, drawn.seed = .ok seed)
    (hfiltered : Filtered request) {r : Except Ctap2Error MakeCredentialOutcome}
    (h : Prog.Walk A (handleMakeCredential C backend draw request up uv) w (.done r)) :
    ∃ existing w₁ w₂, w = w₁ ++ w₂ ∧
      Prog.Walk A (backend.credentialsForRp request.rpId) w₁ (.done (.ok existing)) ∧
      RegistrationExits C A draw request up uv existing w₂ r := by
  unfold handleMakeCredential at h
  obtain ⟨existing, w₁, w₂, rfl, hc, hrest⟩ := (hcands request.rpId).walk_bind h
  refine ⟨existing, w₁, w₂, rfl, hc, ?_⟩
  have hdone : ∀ {x : Ctap2Error}, registrationChecks request up uv existing = .error x →
      r = .error x ∧ w₂ = [] := by
    intro x hx
    simp only [hx] at hrest
    obtain ⟨rfl, rfl⟩ := Prog.walk_done.1 hrest
    exact ⟨rfl, rfl⟩
  rcases registrationChecks_cases hfiltered with
    ⟨hx, he⟩ | ⟨hx, ⟨hg, he⟩ | ⟨hg, ⟨hl, he⟩ | ⟨alg, rest, keyType, hl, halg, he⟩⟩⟩
  · obtain ⟨rfl, rfl⟩ := hdone he
    exact .excluded hx
  · obtain ⟨rfl, rfl⟩ := hdone he
    exact .denied hx hg
  · obtain ⟨rfl, rfl⟩ := hdone he
    exact .unsupported hx hg hl
  · simp only [he] at hrest
    obtain ⟨drawn, w₃, w₄, rfl, hd, hbuild⟩ := hdraw.walk_bind hrest
    obtain ⟨seed, hs⟩ := hseed w₃ drawn hd
    have hup : up = true := hg.1
    subst hup
    obtain ⟨o, ho, hregistered⟩ := buildCredential_ok hC hs hl halg
    rw [ho] at hbuild
    obtain ⟨rfl, rfl⟩ := Prog.walk_done.1 hbuild
    rw [List.append_nil]
    exact .registered ⟨hx, hg, by rw [hl]; simp⟩ hd hregistered

/-- **Which registrations succeed.** With keys generated and responses
serialised, exactly the permitted ones; each returns what it tells the relying
party, and every other one the error of the first check that it fails, with
nothing drawn. -/
theorem makeCredential_admits (hC : Serialises C)
    (hcands : ∀ rpId, (backend.credentialsForRp rpId).Answers) {draw : Prog E S Ctap2Error Drawn}
    (hdraw : draw.Answers)
    (hseed : ∀ w drawn, Prog.Walk A draw w (.done (.ok drawn)) → ∃ seed, drawn.seed = .ok seed)
    (hfiltered : Filtered request) {r : Except Ctap2Error MakeCredentialOutcome}
    (h : Prog.Walk A (handleMakeCredential C backend draw request up uv) w (.done r)) :
    ∃ existing w₁ w₂, w = w₁ ++ w₂ ∧
      Prog.Walk A (backend.credentialsForRp request.rpId) w₁ (.done (.ok existing)) ∧
      ((∃ o, r = .ok o) ↔ Permitted request up uv existing) ∧
      (∀ o, r = .ok o → ∃ drawn, Prog.Walk A draw w₂ (.done (.ok drawn)) ∧
        RegisteredAs C request uv drawn o) ∧
      (Excluded request existing → r = .error .credentialExcluded) ∧
      (¬ Excluded request existing → ¬ Gates request.options up uv → r = .error .operationDenied) ∧
      (¬ Excluded request existing → Gates request.options up uv → request.pubKeyCredParams = [] →
        r = .error .unsupportedAlgorithm) ∧
      (¬ Permitted request up uv existing → w₂ = []) := by
  obtain ⟨existing, w₁, w₂, hw, hc, hexit⟩ :=
    handleMakeCredential_exits hC hcands hdraw hseed hfiltered h
  refine ⟨existing, w₁, w₂, hw, hc, ?_⟩
  cases hexit with
  | excluded hx => simp [Permitted, hx]
  | denied hx gates => simp [Permitted, hx, gates]
  | unsupported hx gates algs => simp [Permitted, hx, gates, algs]
  | registered permitted walk outcome =>
    obtain ⟨hx, gates, algs⟩ := permitted
    refine ⟨⟨fun _ => ⟨hx, gates, algs⟩, fun _ => ⟨_, rfl⟩⟩, fun o ho => ?_, fun h => absurd h hx,
      fun _ h => absurd gates h, fun _ _ h => absurd h algs, fun h => absurd ⟨hx, gates, algs⟩ h⟩
    cases ho
    exact ⟨_, walk, outcome⟩

end

theorem symbolic_serialises : Serialises Crates.symbolic where
  point := fun scalar => ⟨scalar.toList, scalar.toList, rfl, by simp, by simp⟩
  coordinate := Nat.le_refl _
  coseKey := fun _ _ => ⟨_, rfl⟩
  authData := fun _ _ _ _ _ _ _ _ => ⟨_, rfl⟩
  cbor := fun _ _ _ => ⟨_, rfl⟩

/-- A registration of a P-256 key, with another credential excluded. -/
theorem makeCredential_admits_sample : ∃ o, handleMakeCredential Crates.symbolic oneCredential
      (.done (.ok ⟨.ok (pad32 []), pad32 [], Uuid.rep 2⟩))
      ⟨"rp", [0x01], [es256, edDsa], some [[0xcd]], none⟩ true false = .done (.ok o) ∧
    ∃ drawn, RegisteredAs Crates.symbolic ⟨"rp", [0x01], [es256, edDsa], some [[0xcd]], none⟩
    false drawn o := by
  obtain ⟨o, ho⟩ : ∃ o, handleMakeCredential Crates.symbolic oneCredential
      (.done (.ok ⟨.ok (pad32 []), pad32 [], Uuid.rep 2⟩))
      ⟨"rp", [0x01], [es256, edDsa], some [[0xcd]], none⟩ true false = .done (.ok o) := ⟨_, rfl⟩
  have hw : Prog.Walk (fun _ _ => True) (handleMakeCredential Crates.symbolic oneCredential
      (.done (.ok ⟨.ok (pad32 []), pad32 [], Uuid.rep 2⟩))
      ⟨"rp", [0x01], [es256, edDsa], some [[0xcd]], none⟩ true false) [] (.done (.ok o)) := by
    rw [ho]
    exact .nil _
  have hseed : ∀ (w : List (Move Unit Unit)) (drawn : Drawn), Prog.Walk (fun _ _ => True)
      (.done (.ok ⟨.ok (pad32 []), pad32 [], Uuid.rep 2⟩) : Prog Unit Unit Ctap2Error Drawn) w
        (.done (.ok drawn)) → ∃ seed, drawn.seed = .ok seed := by
    intro w drawn h
    obtain ⟨-, hd⟩ := Prog.walk_done.1 h
    cases hd
    exact ⟨_, rfl⟩
  obtain ⟨existing, w₁, w₂, -, -, -, hreturn, -⟩ := makeCredential_admits symbolic_serialises
    oneCredential_answers.1 (Prog.answers_done _) hseed
    (fun alg h => by simpa using h) hw
  obtain ⟨drawn, -, hregistered⟩ := hreturn o rfl
  exact ⟨o, ho, drawn, hregistered⟩

end VaultSigner.L3
