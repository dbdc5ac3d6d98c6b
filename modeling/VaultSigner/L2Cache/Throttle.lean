import VaultSigner.L1Format.Crates

/-!
# Passphrase throttling (`throttle.rs`)

One failure count and lockout time for each `SecretId`. Durations are
nanoseconds; `durationMax` is where `Duration::checked_mul` overflows. The
failure count is a `u32` that wraps, as in a release build.

An `Instant` has a last value, which depends on the platform (`latest`).
`Instant::now() + delay` panics past it, while `record_failure` holds the
mutex around the states; from then on every call of the tracker panics.
`Guarded` is the tracker with that; `ThrottleTracker` is what the mutex guards.

Results:
* `failures_recordFailure`, `failures_recordSuccess`: the count of every
  secret after a record.
* `Counts.recordFailure`: failures in a row lock from the threshold on.
* `SecretId.key_inj`, `SecretId.key_ne_compartment`: no two secrets share a
  counter.
* `Guarded.recordFailure_new`: with the vault's own parameters a failure does
  not panic until `DEFAULT_MAX_DELAY` before the last instant.
-/
namespace VaultSigner.L2.Throttle
open VaultSigner.Core VaultSigner.L1

def defaultFailureThreshold : UInt32 := 5
def defaultBaseDelay : Nat := 1000000000
def defaultMaxDelay : Nat := 300000000000

/-- `Duration::MAX`. -/
def durationMax : Nat := (2 ^ 64 - 1) * 1000000000 + 999999999

/-- mirrors vaultcore/src/throttle.rs:38 (`SecretId`) -/
structure SecretId where
  text : String
deriving DecidableEq

/-- mirrors vaultcore/src/throttle.rs:41-43 -/
def SecretId.key (C : Crates) (keyId : Uuid) : SecretId := ⟨"key:" ++ C.uuidToString keyId⟩

/-- mirrors vaultcore/src/throttle.rs:45-47 -/
def SecretId.compartment (C : Crates) (c : Uuid) : SecretId :=
  ⟨"compartment:" ++ C.uuidToString c⟩

/-- mirrors vaultcore/src/throttle.rs:49-51 -/
def SecretId.transferPassword (C : Crates) (packetId : Uuid) : SecretId :=
  ⟨"transfer:" ++ C.uuidToString packetId⟩

/-- mirrors vaultcore/src/throttle.rs:61-64 (`State`) -/
structure State where
  consecutiveFailures : UInt32
  lockedUntil : Option Nat
deriving DecidableEq

/-- mirrors vaultcore/src/throttle.rs:66-71 (`ThrottleTracker`) -/
structure ThrottleTracker where
  failureThreshold : UInt32
  baseDelay : Nat
  maxDelay : Nat
  states : HashMap SecretId State

/-- mirrors vaultcore/src/throttle.rs:78-85 (`with_params`) -/
def ThrottleTracker.withParams (failureThreshold : UInt32) (baseDelay maxDelay : Nat) :
    ThrottleTracker :=
  ⟨failureThreshold, baseDelay, maxDelay, ∅⟩

/-- mirrors vaultcore/src/throttle.rs:74-76 (`new`) -/
def ThrottleTracker.new : ThrottleTracker :=
  .withParams defaultFailureThreshold defaultBaseDelay defaultMaxDelay

namespace ThrottleTracker

/-- mirrors vaultcore/src/throttle.rs:91-101 (`check`) -/
def check (t : ThrottleTracker) (s : SecretId) (now : Nat) : VaultResult Unit :=
  match t.states.get s with
  | some st =>
    match st.lockedUntil with
    | some lockedUntil => if now < lockedUntil then .error .lockedOut else .ok ()
    | none => .ok ()
  | none => .ok ()

/-- `Duration::checked_mul`. -/
def checkedMul (d : Nat) (n : UInt32) : Option Nat :=
  if d * n.toNat ≤ durationMax then some (d * n.toNat) else none

/-- The backoff after `excess` failures past the threshold. -/
def delay (t : ThrottleTracker) (excess : UInt32) : Nat :=
  min ((checkedMul t.baseDelay (1 <<< min excess 30)).getD t.maxDelay) t.maxDelay

/-- What `record_failure` leaves, unless it panics (`Guarded.recordFailure`).
mirrors vaultcore/src/throttle.rs:106-119 (`record_failure`) -/
def recordFailure (t : ThrottleTracker) (s : SecretId) (now : Nat) : ThrottleTracker :=
  let st := (t.states.get s).getD ⟨0, none⟩
  let n := st.consecutiveFailures + 1
  let lockedUntil :=
    if n ≥ t.failureThreshold then some (now + t.delay (n - t.failureThreshold))
    else st.lockedUntil
  { t with states := t.states.put s ⟨n, lockedUntil⟩ }

/-- mirrors vaultcore/src/throttle.rs:124-127 (`record_success`) -/
def recordSuccess (t : ThrottleTracker) (s : SecretId) : ThrottleTracker :=
  { t with states := t.states.del s }

/-- mirrors vaultcore/src/throttle.rs:130-140 (`remaining_lockout`) -/
def remainingLockout (t : ThrottleTracker) (s : SecretId) (now : Nat) : Option Nat := do
  let state ← t.states.get s
  let lockedUntil ← state.lockedUntil
  if lockedUntil > now then some (lockedUntil - now) else none

/-- `consecutive_failures` of a secret, 0 when there is no entry. -/
def failures (t : ThrottleTracker) (s : SecretId) : UInt32 :=
  ((t.states.get s).map State.consecutiveFailures).getD 0

/-- A failure of `s` now imposes no lockout, or one that ends at an instant of
the platform. -/
def Imposes (t : ThrottleTracker) (latest : Nat) (s : SecretId) (now : Nat) : Prop :=
  t.failures s + 1 ≥ t.failureThreshold →
    now + t.delay (t.failures s + 1 - t.failureThreshold) ≤ latest

instance (t : ThrottleTracker) (latest : Nat) (s : SecretId) (now : Nat) :
    Decidable (t.Imposes latest s now) := inferInstanceAs (Decidable (_ → _))

theorem failures_recordFailure (t : ThrottleTracker) (s s' : SecretId) (now : Nat) :
    (t.recordFailure s now).failures s' =
      if s' = s then t.failures s + 1 else t.failures s' := by
  unfold failures recordFailure
  rw [HashMap.get_put]
  split
  · cases h : t.states.get s <;> simp
  · rfl

theorem failures_recordSuccess (t : ThrottleTracker) (s s' : SecretId) :
    (t.recordSuccess s).failures s' = if s' = s then 0 else t.failures s' := by
  unfold failures recordSuccess
  rw [HashMap.get_del]
  split <;> simp

/-- The entry that a failure leaves. -/
theorem get_recordFailure_self (t : ThrottleTracker) (s : SecretId) (now : Nat) :
    (t.recordFailure s now).states.get s = some ⟨t.failures s + 1,
      if t.failures s + 1 ≥ t.failureThreshold then
        some (now + t.delay (t.failures s + 1 - t.failureThreshold))
      else (t.states.get s).bind State.lockedUntil⟩ := by
  unfold recordFailure failures
  rw [HashMap.get_put_self]
  cases t.states.get s <;> rfl

theorem get_recordFailure_ne (t : ThrottleTracker) {s s' : SecretId} (now : Nat) (h : s' ≠ s) :
    (t.recordFailure s now).states.get s' = t.states.get s' := HashMap.get_put_ne _ _ h

theorem get_recordSuccess_self (t : ThrottleTracker) (s : SecretId) :
    (t.recordSuccess s).states.get s = none := HashMap.get_del_self _ _

theorem get_recordSuccess_ne (t : ThrottleTracker) {s s' : SecretId} (h : s' ≠ s) :
    (t.recordSuccess s).states.get s' = t.states.get s' := HashMap.get_del_ne _ h

/-- `locked_until` of a secret. -/
def lockedUntil (t : ThrottleTracker) (s : SecretId) : Option Nat :=
  (t.states.get s).bind State.lockedUntil

theorem check_ok {t : ThrottleTracker} {s : SecretId} {now : Nat} :
    t.check s now = .ok () ↔ ∀ u, t.lockedUntil s = some u → u ≤ now := by
  unfold check lockedUntil
  cases t.states.get s with
  | none => simp
  | some st =>
    cases hl : st.lockedUntil with
    | none => simp [hl]
    | some u =>
      by_cases hu : now < u
      · simp [hl, hu]
      · simpa [hl, hu] using Nat.le_of_not_lt hu

theorem lockedUntil_recordFailure_self (t : ThrottleTracker) (s : SecretId) (now : Nat) :
    (t.recordFailure s now).lockedUntil s =
      if t.failures s + 1 ≥ t.failureThreshold then
        some (now + t.delay (t.failures s + 1 - t.failureThreshold))
      else t.lockedUntil s := by
  unfold lockedUntil
  rw [get_recordFailure_self]
  rfl

/-- `n` failures since there was no entry; the entry locks from the threshold on. -/
structure Counts (t : ThrottleTracker) (s : SecretId) (n : Nat) : Prop where
  failures : t.failures s = UInt32.ofNat n
  fresh : n = 0 → t.states.get s = none
  locks : 0 < n → (((t.states.get s).bind State.lockedUntil).isSome ↔ t.failureThreshold.toNat ≤ n)

theorem Counts.zero {t : ThrottleTracker} {s : SecretId} (h : t.states.get s = none) :
    t.Counts s 0 :=
  ⟨by simp [ThrottleTracker.failures, h], fun _ => h, fun h => absurd h (Nat.lt_irrefl 0)⟩

theorem Counts.recordFailure {t : ThrottleTracker} {s : SecretId} {n : Nat} (h : t.Counts s n)
    (now : Nat) : (t.recordFailure s now).Counts s (n + 1) := by
  have hcount : t.failures s + 1 = UInt32.ofNat (n + 1) := by
    rw [h.failures, UInt32.ofNat_add]
    rfl
  refine ⟨?_, fun h0 => absurd h0 (Nat.succ_ne_zero n), fun _ => ?_⟩
  · rw [failures_recordFailure, if_pos rfl, hcount]
  · rw [get_recordFailure_self, hcount]
    show Option.isSome (if UInt32.ofNat (n + 1) ≥ t.failureThreshold then _ else _) ↔
      t.failureThreshold.toNat ≤ n + 1
    have hth := t.failureThreshold.toNat_lt
    have hn : (UInt32.ofNat (n + 1)).toNat = (n + 1) % 2 ^ 32 := UInt32.toNat_ofNat' ..
    by_cases hge : t.failureThreshold ≤ UInt32.ofNat (n + 1)
    · have hle := UInt32.le_iff_toNat_le.1 hge
      rw [hn] at hle
      have hmod := Nat.mod_le (n + 1) (2 ^ 32)
      simp only [ge_iff_le, hge, if_true, Option.isSome_some, true_iff]
      omega
    · -- the entry's lock stays, also where the count wraps
      rw [if_neg hge]
      rw [UInt32.le_iff_toNat_le, hn] at hge
      show ((t.states.get s).bind State.lockedUntil).isSome ↔ _
      rcases Nat.eq_zero_or_pos n with rfl | hpos
      · rw [h.fresh rfl]
        simp only [Option.bind_none, Option.isSome_none, Bool.false_eq_true, false_iff]
        omega
      · rw [h.locks hpos]
        omega

theorem delay_le (t : ThrottleTracker) (excess : UInt32) : t.delay excess ≤ t.maxDelay :=
  Nat.min_le_right _ _

end ThrottleTracker

/-! ## Behind the mutex -/

/-- The tracker behind its mutex; `none` once the mutex is poisoned. -/
def Guarded : Type := Option ThrottleTracker

namespace Guarded

/-- A call of the tracker: `lock().unwrap()` panics on a poisoned mutex. -/
def read {α : Type} (f : ThrottleTracker → α) : Guarded → Option α
  | none => none
  | some t => some (f t)

/-- `check`; `none` is a panic. -/
def check (g : Guarded) (s : SecretId) (now : Nat) : Option (VaultResult Unit) :=
  g.read (·.check s now)

/-- `remaining_lockout`; `none` is a panic. -/
def remainingLockout (g : Guarded) (s : SecretId) (now : Nat) : Option (Option Nat) :=
  g.read (·.remainingLockout s now)

/-- `record_failure`. If the end of the lockout is past the last instant, it
panics and poisons the mutex.
mirrors vaultcore/src/throttle.rs:106-119 (`record_failure`) -/
def recordFailure (latest : Nat) (s : SecretId) (now : Nat) : Guarded → Guarded
  | none => none
  | some t => if t.Imposes latest s now then some (t.recordFailure s now) else none

/-- `record_success`. -/
def recordSuccess (s : SecretId) : Guarded → Guarded
  | none => none
  | some t => some (t.recordSuccess s)

theorem check_some (t : ThrottleTracker) (s : SecretId) (now : Nat) :
    check (some t) s now = some (t.check s now) := rfl

theorem remainingLockout_some (t : ThrottleTracker) (s : SecretId) (now : Nat) :
    remainingLockout (some t) s now = some (t.remainingLockout s now) := rfl

/-- **The vault's own tracker** imposes `DEFAULT_MAX_DELAY` at most, so its
failures do not panic before the last `DEFAULT_MAX_DELAY` of the clock. -/
theorem recordFailure_new {latest now : Nat} (h : now + defaultMaxDelay ≤ latest)
    {t : ThrottleTracker} (ht : t.maxDelay = ThrottleTracker.new.maxDelay) (s : SecretId) :
    recordFailure latest s now (some t) = some (t.recordFailure s now) := by
  have hle : ∀ excess, t.delay excess ≤ defaultMaxDelay := fun excess =>
    Nat.le_trans (t.delay_le excess) (Nat.le_of_eq ht)
  refine if_pos fun _ => Nat.le_trans (Nat.add_le_add_left (hle _) now) h

end Guarded

theorem SecretId.key_inj {C : Crates} (h : C.CodecLaws) {j k : Uuid} :
    SecretId.key C j = SecretId.key C k ↔ j = k := by
  simp [SecretId.key, h.uuidToString_inj]

theorem SecretId.key_ne_compartment (C : Crates) (k c : Uuid) :
    SecretId.key C k ≠ SecretId.compartment C c := by
  intro h
  have := congrArg (fun s => s.text.toList) h
  simp [SecretId.key, SecretId.compartment] at this

end VaultSigner.L2.Throttle
