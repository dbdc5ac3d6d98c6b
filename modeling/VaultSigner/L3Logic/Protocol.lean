import VaultSigner.Core.Region
import VaultSigner.L2Cache.Throttle

/-!
# The local signing protocol (`protocol.rs`)

`handleRequest` is generic in the backend and in the throttle: both are
records of programs, so that one request is a program over whatever state
they work on. A request always gets a reply, never an error.
-/
namespace VaultSigner.L3.Protocol
open VaultSigner.Core VaultSigner.L1 VaultSigner.L2.Throttle

/-- mirrors vaultcore/src/protocol.rs:39-44 (`SignOutcome`) -/
inductive SignOutcome where
  | signed (signature publicKey : Bytes)
  | keyNotFound
  | userDeclined
  | passphraseIncorrect

/-- mirrors vaultcore/src/protocol.rs:47-52 (`PublicKeyInfo`) -/
structure PublicKeyInfo where
  keyId : Uuid
  label : String
  publicKey : Bytes
  resource : String

/-- mirrors vaultcore/src/protocol.rs:60-70 (`SigningBackend`) -/
structure SigningBackend (E S ε : Type) where
  listPublicKeys : Prog E S ε (List PublicKeyInfo)
  sign : String → Uuid → Bytes → Prog E S ε SignOutcome

/-- `&ThrottleTracker`, as the handler uses it. -/
structure Throttling (E S ε : Type) where
  check : SecretId → Prog E S ε (VaultResult Unit)
  recordSuccess : SecretId → Prog E S ε Unit
  recordFailure : SecretId → Prog E S ε Unit

section
variable (C : Crates)

/-- mirrors vaultcore/src/protocol.rs:88-95 (`error_response`) -/
def errorResponse (id : Value) (code message : String) : Bytes :=
  C.valueToVec (.object [("id", id),
    ("error", .object [("code", .string code), ("message", .string message)])])

/-- mirrors vaultcore/src/protocol.rs:97-100 (`result_response`) -/
def resultResponse (id result : Value) : Bytes :=
  C.valueToVec (.object [("id", id), ("result", result)])

variable {E S ε : Type} (backend : SigningBackend E S ε) (throttle : Throttling E S ε)

/-- What `handle_sign` makes of the backend's outcome.
mirrors vaultcore/src/protocol.rs:160-177 -/
def replyToSign (secret : SecretId) (id : Value) : SignOutcome → Prog E S ε Bytes
  | .signed signature publicKey => do
    throttle.recordSuccess secret
    return resultResponse C id (.object [("signature_b64", .string (C.base64Encode signature)),
      ("public_key_b64", .string (C.base64Encode publicKey))])
  | .keyNotFound => return errorResponse C id "key_not_found" "no such key"
  | .userDeclined => return errorResponse C id "user_declined" "user declined the signing request"
  | .passphraseIncorrect => do
    throttle.recordFailure secret
    return errorResponse C id "passphrase_incorrect" "incorrect passphrase"

/-- mirrors vaultcore/src/protocol.rs:139-177 (`handle_sign`) -/
def handleSign (callerIdentity : String) (id params : Value) : Prog E S ε Bytes :=
  match C.signParamsFromValue params with
  | .error e => return errorResponse C id "invalid_params" e
  | .ok params =>
    match C.uuidParse params.keyId with
    | .error _ => return errorResponse C id "invalid_params" "key_id is not a valid UUID"
    | .ok keyId =>
      match C.base64Decode params.messageB64 with
      | none => return errorResponse C id "invalid_params" "message_b64 is not valid base64"
      | some message => do
        let secret := SecretId.key C keyId
        match ← throttle.check secret with
        | .error _ =>
          return errorResponse C id "key_locked_retry_later"
            "too many recent failed attempts for this key"
        | .ok () =>
          let outcome ← backend.sign callerIdentity keyId message
          replyToSign C throttle secret id outcome

/-- mirrors vaultcore/src/protocol.rs:107-137 (`handle_request`) -/
def handleRequest (callerIdentity : String) (rawJson : Bytes) : Prog E S ε Bytes :=
  match C.rawRequestFromSlice rawJson with
  | .error e => return errorResponse C .null "parse_error" e
  | .ok request =>
    if request.method = "vaultsigner.list_public_keys" then do
      let keys ← backend.listPublicKeys
      return resultResponse C request.id (.object [("keys", .array (keys.map fun k => .object
        [("key_id", .string (C.uuidToString k.keyId)), ("label", .string k.label),
          ("public_key_b64", .string (C.base64Encode k.publicKey)),
          ("resource", .string k.resource)]))])
    else if request.method = "vaultsigner.sign" then
      handleSign C backend throttle callerIdentity request.id request.params
    else return errorResponse C request.id "method_not_found" s!"unknown method: {request.method}"

end

end VaultSigner.L3.Protocol
