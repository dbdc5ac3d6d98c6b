import VaultSigner.Core.Region
import VaultSigner.L1Format.Container
import VaultSigner.L2Cache.Retention
import VaultSigner.L2Cache.Throttle

/-!
# The vault's shared state (`vault.rs`)

`Vault` is the object every platform binds to: the state under the state
mutex, the retention cache and the throttle (each under a mutex of its own),
and the file at `path`. An operation is an `Op`: a program of regions, one
for each time it takes a mutex, asks the user, or reads from the operating
system between two of those (`Core/Region.lean`). Each region gets an `In`:
the clock, what the operating system hands out, and how the foreign calls of
the region go.

Ghost state, read by no operation:
* `clock`: the time of the last region;
* `hist`: newest first, every passphrase verification, caching, signature,
  lock and discard so far.

The sweeper thread of the retention cache may run between any two regions:
`In.sweptAt` says that it did, and when.

The throttle is the tracker that its mutex guards. The clock stands before the
last `DEFAULT_MAX_DELAY` of an `Instant`, so the mutex is not poisoned
(`Guarded.recordFailure_new`).
-/
namespace VaultSigner.L4
open VaultSigner.Core VaultSigner.L1 VaultSigner.L2.Retention VaultSigner.L2.Throttle

/-- mirrors vaultcore/src/vault.rs:77-80 (`FacadeError`) -/
inductive FacadeError where
  | failed (msg : String)
deriving DecidableEq

abbrev FacadeResult := Except FacadeError

/-- mirrors vaultcore/src/vault.rs:82-86 -/
def FacadeError.fromVault (e : VaultError) : FacadeError := .failed e.display

/-- `?` on an internal result. -/
def facade {α : Type} : VaultResult α → FacadeResult α
  | .ok a => .ok a
  | .error e => .error (.fromVault e)

@[simp] theorem facade_ok {α : Type} {x : VaultResult α} {a : α} :
    facade x = .ok a ↔ x = .ok a := by
  cases x <;> simp [facade]

/-- mirrors vaultcore/src/vault.rs:308-311 (`UnlockedCompartment`) -/
structure UnlockedCompartment where
  manifest : Manifest
  masterKey : Key

/-- mirrors vaultcore/src/vault.rs:313-316 (`VaultState`) -/
structure VaultState where
  container : Container
  unlocked : HashMap Uuid UnlockedCompartment

/-- What the ghost history records. -/
inductive Event where
  /-- `keyblob::open` on `key_id`'s stored blob, with its result -/
  | opened (keyId : Uuid) (blobBytes passphrase : Bytes) (keyType : KeyType) (label : String)
      (result : VaultResult Bytes) (state : VaultState)
  | cached (keyId : Uuid) (bytes : Bytes) (retentionSecs : UInt32) (now : Nat)
  | signed (keyId : Uuid) (bytes : Bytes) (now : Nat) (state : VaultState)
  | lockedKey (keyId : Uuid)
  | lockedAll
  | discarded (keyId : Uuid)

/-- mirrors vaultcore/src/vault.rs:323-328 (`Vault`), with the content of the
file at `path` -/
structure Vault where
  state : VaultState
  retention : RetentionCache
  throttle : ThrottleTracker
  disk : Option Bytes
  /-- ghost: the time of the last region -/
  clock : Nat
  /-- ghost: newest first -/
  hist : List Event

/-- What a region reads from outside. `salt`, `nonce` and `uuid` are supplies:
each call of `getrandom` or `Uuid::new_v4` in the region has an index of its
own. `io` is how the file system takes a write: an error leaves the file as
it was. -/
structure In where
  now : Nat
  utc : OffsetDateTime
  sweptAt : Option Nat
  uuid : Nat → Uuid
  salt : Nat → Except String Salt
  nonce : Nat → Except String Nonce
  seed : Except String (Vector UInt8 32)
  scalar : Vector UInt8 32
  elapsed : UInt32 → Nat
  orders : Orders
  io : VaultResult Unit
  reply : Option String

abbrev Op := Prog In Vault FacadeError

/-- The clock does not run backwards, and the sweeper ran in between. -/
structure Vault.Admits (v : Vault) (e : In) : Prop where
  clock : v.clock ≤ e.now
  swept : ∀ t, e.sweptAt = some t → v.clock ≤ t ∧ t ≤ e.now

namespace Vault

/-- Start of a region: the sweeper may have run, the clock has moved on. -/
def enter (v : Vault) (e : In) : Vault :=
  { v with
    retention := match e.sweptAt with
      | none => v.retention
      | some t => sweepExpired v.retention t
    clock := e.now }

def log (v : Vault) (ev : Event) : Vault := { v with hist := ev :: v.hist }

def setState (v : Vault) (s : VaultState) : Vault := { v with state := s }

def setThrottle (v : Vault) (t : ThrottleTracker) : Vault := { v with throttle := t }

def setRetention (v : Vault) (r : RetentionCache) : Vault := { v with retention := r }

section
variable (v : Vault) (e : In) (ev : Event) (s : VaultState) (t : ThrottleTracker)
  (r : RetentionCache)

@[simp] theorem enter_state : (v.enter e).state = v.state := rfl
@[simp] theorem enter_disk : (v.enter e).disk = v.disk := rfl
@[simp] theorem enter_throttle : (v.enter e).throttle = v.throttle := rfl
@[simp] theorem enter_hist : (v.enter e).hist = v.hist := rfl
@[simp] theorem enter_clock : (v.enter e).clock = e.now := rfl
@[simp] theorem log_state : (v.log ev).state = v.state := rfl
@[simp] theorem log_disk : (v.log ev).disk = v.disk := rfl
@[simp] theorem log_throttle : (v.log ev).throttle = v.throttle := rfl
@[simp] theorem log_retention : (v.log ev).retention = v.retention := rfl
@[simp] theorem log_clock : (v.log ev).clock = v.clock := rfl
@[simp] theorem log_hist : (v.log ev).hist = ev :: v.hist := rfl
@[simp] theorem setState_state : (v.setState s).state = s := rfl
@[simp] theorem setState_disk : (v.setState s).disk = v.disk := rfl
@[simp] theorem setState_throttle : (v.setState s).throttle = v.throttle := rfl
@[simp] theorem setState_retention : (v.setState s).retention = v.retention := rfl
@[simp] theorem setState_clock : (v.setState s).clock = v.clock := rfl
@[simp] theorem setState_hist : (v.setState s).hist = v.hist := rfl
@[simp] theorem setThrottle_state : (v.setThrottle t).state = v.state := rfl
@[simp] theorem setThrottle_disk : (v.setThrottle t).disk = v.disk := rfl
@[simp] theorem setThrottle_throttle : (v.setThrottle t).throttle = t := rfl
@[simp] theorem setThrottle_retention : (v.setThrottle t).retention = v.retention := rfl
@[simp] theorem setThrottle_clock : (v.setThrottle t).clock = v.clock := rfl
@[simp] theorem setThrottle_hist : (v.setThrottle t).hist = v.hist := rfl
@[simp] theorem setRetention_state : (v.setRetention r).state = v.state := rfl
@[simp] theorem setRetention_disk : (v.setRetention r).disk = v.disk := rfl
@[simp] theorem setRetention_throttle : (v.setRetention r).throttle = v.throttle := rfl
@[simp] theorem setRetention_retention : (v.setRetention r).retention = r := rfl
@[simp] theorem setRetention_clock : (v.setRetention r).clock = v.clock := rfl
@[simp] theorem setRetention_hist : (v.setRetention r).hist = v.hist := rfl

end

/-- The sweeper only removes entries. -/
theorem get_enter_retention {v : Vault} {e : In} {k : Uuid} {c : CachedKey}
    (h : (v.enter e).retention.get k = some c) : v.retention.get k = some c := by
  unfold enter at h
  cases hs : e.sweptAt with
  | none => simpa [hs] using h
  | some t =>
    simp only [hs] at h
    exact ((get_sweepExpired _ _ _ _).1 h).1

end Vault

/-- One region of an operation. -/
def region {α : Type} (body : In → Vault → FacadeResult α × Vault) : Op α :=
  Prog.atomic fun e v => body e (v.enter e)

/-- One region that cannot fail, in an operation with errors of any type. -/
def ask {ε α : Type} (body : In → Vault → α × Vault) : Prog In Vault ε α :=
  Prog.atomic fun e v => (.ok (body e (v.enter e)).1, (body e (v.enter e)).2)

@[simp] theorem wlp_region {α : Type} (A : Vault → In → Prop)
    (body : In → Vault → FacadeResult α × Vault) (Q : FacadeResult α → Vault → Prop) (v : Vault) :
    (region body).wlp A Q v ↔
      ∀ e, A v e → Q (body e (v.enter e)).1 (body e (v.enter e)).2 := Iff.rfl

@[simp] theorem wlp_ask {ε α : Type} (A : Vault → In → Prop) (body : In → Vault → α × Vault)
    (Q : Except ε α → Vault → Prop) (v : Vault) :
    (ask body : Prog In Vault ε α).wlp A Q v ↔
      ∀ e, A v e → Q (.ok (body e (v.enter e)).1) (body e (v.enter e)).2 := Iff.rfl

end VaultSigner.L4
