import VaultSigner.L1Format.Records

/-!
# The retention cache (`retention.rs`)

Decrypted private keys by `key_id`, each with an expiry time. A time is a
number of nanoseconds on the monotonic clock; every operation gets the time
it reads. Zeroizing is left out. `sweepExpired` is what the sweeper thread does
each time it wakes; its own life cycle is in `Sweeper`.

Results: one lemma for each operation, saying what the cache holds after it
(`insert_ok`, `useKey_cases`, `contains_iff`, `get_sweepExpired`).
-/
namespace VaultSigner.L2.Retention
open VaultSigner.Core VaultSigner.L1

def maxRetentionSecs : UInt32 := 300
def defaultRetentionSecs : UInt32 := 30

/-- `Duration::from_secs`, in nanoseconds. -/
def fromSecs (secs : UInt32) : Nat := secs.toNat * 1000000000

/-- mirrors vaultcore/src/retention.rs:42-49 -/
def validateRetentionSecs (secs : UInt32) : VaultResult Unit :=
  if secs > maxRetentionSecs then
    .error (.invalidManifest
      s!"retention timer {secs}s exceeds the mandatory {maxRetentionSecs}s cap (spec §4.5)")
  else .ok ()

/-- mirrors vaultcore/src/retention.rs:51-57 (`CachedKey`) -/
structure CachedKey where
  bytes : Bytes
  expiresAt : Nat
  singleUse : Bool
deriving DecidableEq

/-- mirrors vaultcore/src/retention.rs:59-71 (`RetentionCache`) -/
abbrev RetentionCache := HashMap Uuid CachedKey

/-- mirrors vaultcore/src/retention.rs:111-121 (`insert_raw`) -/
def insertRaw (r : RetentionCache) (keyId : Uuid) (bytes : Bytes) (ttl : Nat) (singleUse : Bool)
    (now : Nat) : RetentionCache :=
  r.put keyId ⟨bytes, now + ttl, singleUse⟩

/-- mirrors vaultcore/src/retention.rs:105-109 (`insert`) -/
def insert (r : RetentionCache) (keyId : Uuid) (bytes : Bytes) (retentionSecs : UInt32)
    (now : Nat) :
    VaultResult RetentionCache := do
  validateRetentionSecs retentionSecs
  return insertRaw r keyId bytes (fromSecs retentionSecs) (retentionSecs == 0) now

/-- mirrors vaultcore/src/retention.rs:128-146 (`use_key`) -/
def useKey {α : Type} (r : RetentionCache) (keyId : Uuid) (now : Nat) (f : Bytes → α) :
    Option α × RetentionCache :=
  match r.get keyId with
  | none => (none, r)
  | some entry =>
    if !entry.singleUse && entry.expiresAt ≤ now then (none, r.del keyId)
    else if entry.singleUse then (some (f entry.bytes), r.del keyId)
    else (some (f entry.bytes), r)

/-- mirrors vaultcore/src/retention.rs:148-153 (`contains`) -/
def contains (r : RetentionCache) (keyId : Uuid) (now : Nat) : Bool :=
  match r.get keyId with
  | none => false
  | some e => e.singleUse || e.expiresAt > now

/-- mirrors vaultcore/src/retention.rs:156-158 (`wipe`) -/
def wipe (r : RetentionCache) (keyId : Uuid) : RetentionCache := r.del keyId

/-- mirrors vaultcore/src/retention.rs:163-165 (`wipe_all`) -/
def wipeAll (_ : RetentionCache) : RetentionCache := ∅

/-- mirrors vaultcore/src/retention.rs:177-186 (`sweep_expired`) -/
def sweepExpired (r : RetentionCache) (now : Nat) : RetentionCache :=
  r.retain fun _ e => e.singleUse || e.expiresAt > now

/-! ## What each operation leaves -/

/-- An entry that a use at time `now` may still take: single-use, or not
expired. -/
def CachedKey.Live (e : CachedKey) (now : Nat) : Prop := e.singleUse = true ∨ now < e.expiresAt

theorem insert_ok {r r' : RetentionCache} {k : Uuid} {b : Bytes} {secs : UInt32} {now : Nat} :
    insert r k b secs now = .ok r' ↔ secs ≤ maxRetentionSecs ∧
      r' = r.put k ⟨b, now + fromSecs secs, secs == 0⟩ := by
  unfold insert validateRetentionSecs
  split
  · rename_i h
    simp only [bind, Except.bind]
    constructor
    · intro hc; cases hc
    · rintro ⟨hle, -⟩; exact absurd h (UInt32.not_lt.2 hle)
  · rename_i h
    simp only [bind, Except.bind, pure, Except.pure, Except.ok.injEq, insertRaw]
    constructor
    · rintro rfl; exact ⟨UInt32.not_lt.1 h, rfl⟩
    · rintro ⟨-, rfl⟩; rfl

/-- A use hands out the bytes of a live entry, and then drops it if it is
single-use; otherwise it hands out nothing, and drops an expired entry. -/
theorem useKey_cases {α : Type} (r : RetentionCache) (k : Uuid) (now : Nat) (f : Bytes → α) :
    (r.get k = none ∧ useKey r k now f = (none, r)) ∨
    (∃ e, r.get k = some e ∧ ¬ e.Live now ∧ useKey r k now f = (none, r.del k)) ∨
    (∃ e, r.get k = some e ∧ e.Live now ∧
      useKey r k now f = (some (f e.bytes), if e.singleUse then r.del k else r)) := by
  unfold useKey
  cases h : r.get k with
  | none => exact .inl ⟨rfl, rfl⟩
  | some e =>
    refine .inr ?_
    cases hs : e.singleUse with
    | true =>
      refine .inr ⟨e, rfl, .inl hs, ?_⟩
      simp [hs]
    | false =>
      by_cases hx : e.expiresAt ≤ now
      · refine .inl ⟨e, rfl, ?_, ?_⟩
        · rintro (h1 | h1)
          · rw [hs] at h1; cases h1
          · omega
        · simp [hs, hx]
      · refine .inr ⟨e, rfl, .inr (by omega), ?_⟩
        simp [hs, hx]

theorem contains_iff (r : RetentionCache) (k : Uuid) (now : Nat) :
    contains r k now = true ↔ ∃ e, r.get k = some e ∧ e.Live now := by
  unfold contains CachedKey.Live
  cases h : r.get k with
  | none => simp
  | some e => simp

theorem get_sweepExpired (r : RetentionCache) (k : Uuid) (now : Nat) (e : CachedKey) :
    (sweepExpired r now).get k = some e ↔ r.get k = some e ∧ e.Live now := by
  unfold sweepExpired CachedKey.Live
  rw [HashMap.get_retain]
  simp

/-- Whatever a use leaves was there before. -/
theorem get_useKey {α : Type} {r : RetentionCache} {k k' : Uuid} {now : Nat} {f : Bytes → α}
    {e : CachedKey} (h : (useKey r k now f).2.get k' = some e) : r.get k' = some e := by
  have hdel : (r.del k).get k' = some e → r.get k' = some e := by
    intro hd
    rw [HashMap.get_del] at hd
    split at hd
    · cases hd
    · exact hd
  rcases useKey_cases r k now f with ⟨-, he⟩ | ⟨e', -, -, he⟩ | ⟨e', -, -, he⟩
  · rw [he] at h; exact h
  · rw [he] at h; exact hdel h
  · rw [he] at h
    simp only at h
    split at h
    · exact hdel h
    · exact h

end VaultSigner.L2.Retention
