import VaultSigner.L2Cache.Retention

/-!
# How long a key stays in the retention cache

A history of the cache is the list of its operations, newest first, each with
the time it read. The sweeper wakes every 50 ms (`SWEEP_INTERVAL`,
vaultcore/src/retention.rs:40) and drops what has expired, but never a
single-use entry: that one leaves with its use, a wipe, or a new insert of the
same key.

Results:
* `get_after`: what is in the cache is what the last insert of the key put
  there.
* `get_after_singleUse`: which single-use entries are in the cache.
* `residency_bounded_iff`: when every sweep leaves only entries younger than
  `maxRetentionSecs`.
-/
namespace VaultSigner.L2.Retention
open VaultSigner.Core VaultSigner.L1

inductive CacheOp where
  | insert (keyId : Uuid) (bytes : Bytes) (retentionSecs : UInt32)
  | useKey (keyId : Uuid)
  | contains (keyId : Uuid)
  | wipe (keyId : Uuid)
  | wipeAll
  | sweepExpired
deriving DecidableEq

/-- What an operation leaves in the cache; an insert that is refused leaves
it alone, and so does a lookup. -/
def CacheOp.apply (r : RetentionCache) (now : Nat) : CacheOp → RetentionCache
  | .insert k b secs =>
    match Retention.insert r k b secs now with
    | .ok r' => r'
    | .error _ => r
  | .useKey k => (Retention.useKey r k now id).2
  | .contains _ => r
  | .wipe k => Retention.wipe r k
  | .wipeAll => Retention.wipeAll r
  | .sweepExpired => Retention.sweepExpired r now

structure CacheStep where
  now : Nat
  op : CacheOp
deriving DecidableEq

/-- The cache after the steps `l`, newest first. -/
def after : List CacheStep → RetentionCache
  | [] => ∅
  | x :: l => x.op.apply (after l) x.now

/-- Bytes, retention and time of the last insert of `k` that was accepted. -/
def lastInsert (k : Uuid) : List CacheStep → Option (Bytes × UInt32 × Nat)
  | [] => none
  | ⟨now, .insert k' b secs⟩ :: l =>
    if k' = k ∧ secs ≤ maxRetentionSecs then some (b, secs, now) else lastInsert k l
  | _ :: l => lastInsert k l

/-- The operation takes whatever single-use entry `k` has. -/
def CacheOp.Takes (k : Uuid) : CacheOp → Prop
  | .insert k' _ secs => k' = k ∧ secs ≤ maxRetentionSecs
  | .useKey k' => k' = k
  | .wipe k' => k' = k
  | .wipeAll => True
  | _ => False

/-- The operation ends what an insert of `k` allowed: a wipe or a newer insert,
and for a single use the use itself. -/
def CacheOp.Ends (k : Uuid) (singleUse : Bool) : CacheOp → Prop
  | .insert k' _ secs => k' = k ∧ secs ≤ maxRetentionSecs
  | .useKey k' => k' = k ∧ singleUse = true
  | .wipe k' => k' = k
  | .wipeAll => True
  | _ => False

/-- `k` was inserted for a single use at time `t₀`, and nothing has taken it
since. -/
def LeftUnused (l : List CacheStep) (k : Uuid) (b : Bytes) (t₀ : Nat) : Prop :=
  ∃ l₂ l₁, l = l₂ ++ ⟨t₀, .insert k b 0⟩ :: l₁ ∧ ∀ x ∈ l₂, ¬ x.op.Takes k

/-! ## One step -/

/-- An entry is new, put there by an insert, or it was there before. -/
theorem get_apply {r : RetentionCache} {now : Nat} {op : CacheOp} {k : Uuid} {e : CachedKey}
    (h : (op.apply r now).get k = some e) :
    (∃ b secs, op = .insert k b secs ∧ secs ≤ maxRetentionSecs ∧
      e = ⟨b, now + fromSecs secs, secs == 0⟩) ∨
    (r.get k = some e ∧ ∀ b secs, op = .insert k b secs → ¬ secs ≤ maxRetentionSecs) := by
  cases op with
  | insert k' b secs =>
    simp only [CacheOp.apply] at h
    cases hi : insert r k' b secs now with
    | error x =>
      simp only [hi] at h
      refine .inr ⟨h, fun b' secs' heq hle => ?_⟩
      cases heq
      rw [insert_ok.2 ⟨hle, rfl⟩] at hi
      cases hi
    | ok r' =>
      obtain ⟨hle, rfl⟩ := insert_ok.1 hi
      simp only [hi, HashMap.get_put] at h
      by_cases hk : k = k'
      · subst hk
        simp only [if_true, Option.some.injEq] at h
        exact .inl ⟨b, secs, rfl, hle, h.symm⟩
      · simp only [hk, if_false] at h
        refine .inr ⟨h, fun b' secs' heq => ?_⟩
        cases heq
        exact absurd rfl hk
  | useKey k' => exact .inr ⟨get_useKey h, by simp⟩
  | contains k' => exact .inr ⟨h, by simp⟩
  | wipe k' =>
    simp only [CacheOp.apply, wipe, HashMap.get_del] at h
    split at h
    · cases h
    · exact .inr ⟨h, by simp⟩
  | wipeAll => simp [CacheOp.apply, wipeAll] at h
  | sweepExpired => exact .inr ⟨((get_sweepExpired _ _ _ _).1 h).1, by simp⟩

theorem CacheOp.ends_true {k : Uuid} {op : CacheOp} : op.Ends k true ↔ op.Takes k := by
  cases op <;> simp [Ends, Takes]

/-- What was live before the call is still there unless the call ends it. -/
theorem get_apply_of_not_ends {r : RetentionCache} {now : Nat} {op : CacheOp} {k : Uuid}
    {e : CachedKey} (hlive : e.Live now) (hr : r.get k = some e) (hends : ¬ op.Ends k e.singleUse) :
    (op.apply r now).get k = some e := by
  cases op with
  | insert k' b secs =>
    simp only [CacheOp.apply]
    cases hi : insert r k' b secs now with
    | error x => exact hr
    | ok r' =>
      obtain ⟨hle, rfl⟩ := insert_ok.1 hi
      have hk : k ≠ k' := fun hk => hends ⟨hk.symm, hle⟩
      simp only [HashMap.get_put_ne _ _ hk]
      exact hr
  | useKey k' =>
    simp only [CacheOp.apply]
    by_cases hk : k = k'
    · subst hk
      have hmany : e.singleUse ≠ true := fun hs => hends ⟨rfl, hs⟩
      rcases useKey_cases r k now id with ⟨hn, -⟩ | ⟨e', he', hdead, -⟩ | ⟨e', he', -, hu⟩
      · rw [hn] at hr
        cases hr
      · rw [hr] at he'
        cases he'
        exact absurd hlive hdead
      · rw [hr] at he'
        cases he'
        simp only [hu, hmany, Bool.false_eq_true, if_false]
        exact hr
    · rcases useKey_cases r k' now id with ⟨-, hu⟩ | ⟨e', -, -, hu⟩ | ⟨e', -, -, hu⟩
      · simp only [hu]
        exact hr
      · simp only [hu, HashMap.get_del_ne _ hk]
        exact hr
      · simp only [hu]
        split
        · simp only [HashMap.get_del_ne _ hk]
          exact hr
        · exact hr
  | contains k' => exact hr
  | wipe k' =>
    have hk : k ≠ k' := fun hk => hends hk.symm
    simp only [CacheOp.apply, wipe, HashMap.get_del_ne _ hk]
    exact hr
  | wipeAll => exact absurd trivial hends
  | sweepExpired => exact (get_sweepExpired _ _ _ _).2 ⟨hr, hlive⟩

/-- **One step, for an entry that is live.** It is in the cache after the call
if the call put it there, or if it was there and the call does not end it. -/
theorem get_apply_live {r : RetentionCache} {now : Nat} {op : CacheOp} {k : Uuid} {e : CachedKey}
    (hlive : e.Live now) : (op.apply r now).get k = some e ↔
      (∃ b secs, op = .insert k b secs ∧ secs ≤ maxRetentionSecs ∧
        e = ⟨b, now + fromSecs secs, secs == 0⟩) ∨
      (r.get k = some e ∧ ¬ op.Ends k e.singleUse) := by
  refine ⟨fun h => ?_, fun h => ?_⟩
  · rcases get_apply h with hnew | ⟨hr, hnew⟩
    · exact .inl hnew
    · refine .inr ⟨hr, fun ht => ?_⟩
      cases op with
      | insert k' b secs =>
        obtain ⟨rfl, hle⟩ := ht
        exact hnew b secs rfl hle
      | useKey k' =>
        obtain ⟨rfl, hs⟩ := ht
        rcases useKey_cases r k' now id with ⟨hn, -⟩ | ⟨e', he', hdead, -⟩ | ⟨e', he', -, hu⟩
        · rw [hn] at hr
          cases hr
        · rw [hr] at he'
          cases he'
          exact hdead (.inl hs)
        · rw [hr] at he'
          cases he'
          simp [CacheOp.apply, hu, hs] at h
      | contains k' => exact ht
      | wipe k' =>
        subst ht
        simp [CacheOp.apply, wipe] at h
      | wipeAll => simp [CacheOp.apply, wipeAll] at h
      | sweepExpired => exact ht
  · rcases h with ⟨b, secs, rfl, hle, rfl⟩ | ⟨hr, hends⟩
    · simp only [CacheOp.apply, insert_ok.2 ⟨hle, rfl⟩, HashMap.get_put_self]
    · exact get_apply_of_not_ends hlive hr hends

/-- A single-use entry stays unless the operation takes it. -/
theorem get_apply_singleUse {r : RetentionCache} {now : Nat} {op : CacheOp} {k : Uuid}
    {e : CachedKey} (hs : e.singleUse = true) : (op.apply r now).get k = some e ↔
      op = .insert k e.bytes 0 ∧ e.expiresAt = now ∨ (r.get k = some e ∧ ¬ op.Takes k) := by
  rw [get_apply_live (.inl hs), hs, CacheOp.ends_true]
  refine or_congr_left ⟨fun h => ?_, fun h => ?_⟩
  · obtain ⟨b, secs, rfl, -, rfl⟩ := h
    have hzero : secs = 0 := by simpa using hs
    subst hzero
    exact ⟨rfl, by simp [fromSecs]⟩
  · obtain ⟨rfl, hx⟩ := h
    refine ⟨e.bytes, 0, rfl, by decide, ?_⟩
    cases e
    simp_all [fromSecs]

/-! ## A whole history -/

theorem lastInsert_cons {k : Uuid} {now : Nat} {op : CacheOp} {l : List CacheStep}
    (h : ∀ b secs, op = .insert k b secs → ¬ secs ≤ maxRetentionSecs) :
    lastInsert k (⟨now, op⟩ :: l) = lastInsert k l := by
  cases op with
  | insert k' b secs =>
    have hn : ¬ (k' = k ∧ secs ≤ maxRetentionSecs) := by
      rintro ⟨rfl, hle⟩
      exact h b secs rfl hle
    simp only [lastInsert, hn, if_false]
  | _ => rfl

/-- **What is in the cache** is what the key's last insert put there. -/
theorem get_after {k : Uuid} {e : CachedKey} : ∀ {l : List CacheStep}, (after l).get k = some e →
    ∃ b secs t₀, lastInsert k l = some (b, secs, t₀) ∧ secs ≤ maxRetentionSecs ∧
      e = ⟨b, t₀ + fromSecs secs, secs == 0⟩ := by
  intro l
  induction l with
  | nil => intro h; simp [after] at h
  | cons x l ih =>
    intro h
    obtain ⟨now, op⟩ := x
    rcases get_apply h with ⟨b, secs, rfl, hle, rfl⟩ | ⟨hr, hnew⟩
    · exact ⟨b, secs, now, by simp [lastInsert, hle], hle, rfl⟩
    · obtain ⟨b, secs, t₀, hl, hle, he⟩ := ih hr
      exact ⟨b, secs, t₀, (lastInsert_cons hnew).trans hl, hle, he⟩

theorem leftUnused_cons {x : CacheStep} {l : List CacheStep} {k : Uuid} {b : Bytes} {t₀ : Nat} :
    LeftUnused (x :: l) k b t₀ ↔ x = ⟨t₀, .insert k b 0⟩ ∨
    (LeftUnused l k b t₀ ∧ ¬ x.op.Takes k) := by
  constructor
  · rintro ⟨l₂, l₁, hl, hn⟩
    cases l₂ with
    | nil =>
      simp only [List.nil_append, List.cons.injEq] at hl
      exact .inl hl.1
    | cons y l₂ =>
      simp only [List.cons_append, List.cons.injEq] at hl
      obtain ⟨rfl, rfl⟩ := hl
      exact .inr ⟨⟨l₂, l₁, rfl, fun z hz => hn z (List.mem_cons_of_mem _ hz)⟩,
        hn x List.mem_cons_self⟩
  · rintro (rfl | ⟨⟨l₂, l₁, rfl, hn⟩, hx⟩)
    · exact ⟨[], l, rfl, by simp⟩
    · refine ⟨x :: l₂, l₁, rfl, fun z hz => ?_⟩
      rcases List.mem_cons.1 hz with rfl | hz
      · exact hx
      · exact hn z hz

/-- **Which single-use entries are in the cache**: those that nothing took. -/
theorem get_after_singleUse {k : Uuid} {b : Bytes} {t₀ : Nat} : ∀ {l : List CacheStep},
    (after l).get k = some ⟨b, t₀, true⟩ ↔ LeftUnused l k b t₀ := by
  intro l
  induction l with
  | nil => simp [after, LeftUnused]
  | cons x l ih =>
    obtain ⟨now, op⟩ := x
    rw [leftUnused_cons, ← ih]
    have hstep : (op.apply (after l) now).get k = some ⟨b, t₀, true⟩ ↔
        op = .insert k b 0 ∧ t₀ = now ∨ ((after l).get k = some ⟨b, t₀, true⟩ ∧ ¬ op.Takes k) :=
      get_apply_singleUse rfl
    simp only [after, hstep, CacheStep.mk.injEq]
    constructor
    · rintro (⟨h1, h2⟩ | h)
      · exact .inl ⟨h2.symm, h1⟩
      · exact .inr h
    · rintro (⟨h1, h2⟩ | h)
      · exact .inl ⟨h2, h1.symm⟩
      · exact .inr h

/-! ## Residency -/

/-- Every entry was inserted less than `maxRetentionSecs` before `t`, and less
than its own retention if that is not zero. -/
def Bounded (l : List CacheStep) (t : Nat) : Prop :=
  ∀ k e, (after l).get k = some e → ∃ b secs t₀, lastInsert k l = some (b, secs, t₀) ∧
    t < t₀ + fromSecs maxRetentionSecs ∧ (secs ≠ 0 → t < t₀ + fromSecs secs)

/-- After each of its sweeps the cache is bounded. -/
def SweptClean (l : List CacheStep) : Prop :=
  ∀ l₂ l₁ t, l = l₂ ++ ⟨t, .sweepExpired⟩ :: l₁ → Bounded (⟨t, .sweepExpired⟩ :: l₁) t

/-- No single-use entry is `maxRetentionSecs` old, still unused, at a sweep. -/
def UsedInTime (l : List CacheStep) : Prop :=
  ∀ l₂ l₁ t, l = l₂ ++ ⟨t, .sweepExpired⟩ :: l₁ →
    ∀ k b t₀, LeftUnused l₁ k b t₀ → t < t₀ + fromSecs maxRetentionSecs

theorem fromSecs_le {s s' : UInt32} (h : s ≤ s') : fromSecs s ≤ fromSecs s' := by
  unfold fromSecs
  rw [UInt32.le_iff_toNat_le] at h
  omega

/-- One sweep. -/
theorem bounded_sweep_iff (l : List CacheStep) (t : Nat) : Bounded (⟨t, .sweepExpired⟩ :: l) t ↔
    ∀ k b t₀, LeftUnused l k b t₀ → t < t₀ + fromSecs maxRetentionSecs := by
  constructor
  · intro h k b t₀ hu
    have hget : (after (⟨t, .sweepExpired⟩ :: l)).get k = some ⟨b, t₀, true⟩ :=
      get_after_singleUse.2 (leftUnused_cons.2 (.inr ⟨hu, id⟩))
    obtain ⟨b', secs, t₁, hl, hmax, -⟩ := h k _ hget
    obtain ⟨b'', secs', t₂, hl', -, he⟩ := get_after hget
    rw [hl] at hl'
    cases hl'
    simp only [CachedKey.mk.injEq] at he
    obtain ⟨-, ht, hs⟩ := he
    have hzero : secs = 0 := by simpa using hs.symm
    subst hzero
    simp only [fromSecs, UInt32.toNat_zero, Nat.zero_mul, Nat.add_zero] at ht
    omega
  · intro h k e hget
    obtain ⟨b, secs, t₀, hl, hle, rfl⟩ := get_after hget
    have hlive := ((get_sweepExpired (after l) k t _).1 hget)
    refine ⟨b, secs, t₀, hl, ?_⟩
    by_cases hs : secs = 0
    · subst hs
      refine ⟨h k b t₀ (get_after_singleUse.1 ?_), fun hne => absurd rfl hne⟩
      simpa [fromSecs] using hlive.1
    · have hlt : t < t₀ + fromSecs secs := by
        rcases hlive.2 with h1 | h1
        · simp [hs] at h1
        · exact h1
      exact ⟨Nat.lt_of_lt_of_le hlt (Nat.add_le_add_left (fromSecs_le hle) t₀), fun _ => hlt⟩

/-- No time runs backwards. -/
def Monotone (l : List CacheStep) : Prop := l.Pairwise fun x y => y.now ≤ x.now

/-- What is in the cache was inserted in `l₂`, or it was there already. -/
theorem get_after_append {k : Uuid} {e : CachedKey} {l₁ : List CacheStep} :
    ∀ {l₂ : List CacheStep}, (after (l₂ ++ l₁)).get k = some e →
      (∃ b secs x, x ∈ l₂ ∧ lastInsert k (l₂ ++ l₁) = some (b, secs, x.now)) ∨
      ((after l₁).get k = some e ∧ lastInsert k (l₂ ++ l₁) = lastInsert k l₁) := by
  intro l₂
  induction l₂ with
  | nil => intro h; exact .inr ⟨h, rfl⟩
  | cons x l₂ ih =>
    intro h
    obtain ⟨now, op⟩ := x
    rcases get_apply h with ⟨b, secs, rfl, hle, rfl⟩ | ⟨hr, hnew⟩
    · exact .inl ⟨b, secs, _, List.mem_cons_self, by simp [lastInsert, hle]⟩
    · rw [List.cons_append, lastInsert_cons hnew]
      rcases ih hr with ⟨b, secs, x, hx, hl⟩ | hl
      · exact .inl ⟨b, secs, x, List.mem_cons_of_mem _ hx, hl⟩
      · exact .inr hl

/-- **How long a key stays.** Every sweep leaves only entries younger than 300
seconds (and than their own retention) exactly if no single-use entry is left
unused that long; and then, as long as the last sweep was no more than
`interval` ago, every entry is younger than 300 seconds and one interval. -/
theorem residency_bounded_iff (l : List CacheStep) : (SweptClean l ↔ UsedInTime l) ∧
    (UsedInTime l → Monotone l → ∀ l₂ l₁ t, l = l₂ ++ ⟨t, .sweepExpired⟩ :: l₁ →
      ∀ now interval, now ≤ t + interval → ∀ k e, (after l).get k = some e →
        ∃ b secs t₀, lastInsert k l = some (b, secs, t₀) ∧
          now < t₀ + fromSecs maxRetentionSecs + interval) := by
  refine ⟨?_, fun hused hmono l₂ l₁ t hl now interval hnow k e he => ?_⟩
  · constructor
    · intro h l₂ l₁ t hl
      exact (bounded_sweep_iff l₁ t).1 (h l₂ l₁ t hl)
    · intro h l₂ l₁ t hl
      exact (bounded_sweep_iff l₁ t).2 (h l₂ l₁ t hl)
  · have hpos : 0 < fromSecs maxRetentionSecs := by decide
    have hbounded := (bounded_sweep_iff l₁ t).2 (hused l₂ l₁ t hl)
    subst hl
    rcases get_after_append he with ⟨b, secs, x, hx, hlast⟩ | ⟨hold, hlast⟩
    · have hle : t ≤ x.now := (List.pairwise_append.1 hmono).2.2 x hx _ List.mem_cons_self
      exact ⟨b, secs, x.now, hlast, by omega⟩
    · obtain ⟨b, secs, t₀, hl, hlt, -⟩ := hbounded k e hold
      exact ⟨b, secs, t₀, hlast.trans hl, by omega⟩

/-- **A key that stays.** Cached for a single use and never used, it is still
there after the sweep an hour later. -/
theorem unused_key_stays : ∃ l, Monotone l ∧ ¬ SweptClean l := by
  have hleft : LeftUnused [⟨0, .insert ⟨Vector.replicate 16 1⟩ [7] 0⟩] ⟨Vector.replicate 16 1⟩
      [7] 0 :=
    ⟨[], [], rfl, by simp⟩
  refine ⟨[⟨fromSecs 3600, .sweepExpired⟩, ⟨0, .insert ⟨Vector.replicate 16 1⟩ [7] 0⟩], ?_,
    fun h => ?_⟩
  · simp [Monotone]
  · have hlt := (bounded_sweep_iff _ _).1 (h [] _ _ rfl) _ _ _ hleft
    revert hlt
    decide

end VaultSigner.L2.Retention
