import VaultSigner.L1Format.Symbolic
import VaultSigner.L2Cache.Throttle

/-!
# The throttle and its history

What `check` answers is a function of the calls so far: of how often a secret
has failed since its last success, and when last. `backoff` is that function
as spec §5.5 has it; `run` is the tracker, and `Guarded.run` the tracker behind
its mutex, which a lockout that ends past the last `Instant` poisons.

Results:
* `delay_eq`: the tracker's delay is the backoff.
* `run_get`: a secret's entry, from the history of that secret.
* `guarded_run`: behind the mutex it is the same tracker, as long as every
  lockout ends at an instant of the platform (`Lasting`).
* `throttle_equals_history_iff`: and exactly then every call answers what the
  history says.
-/
namespace VaultSigner.L2.Throttle
open VaultSigner.Core VaultSigner.L1

/-! ## The backoff -/

/-- The delay of the failure `excess` past the threshold: doubled each time, up to
`max`; a product that does not fit a `Duration` counts as `max`. -/
def backoff (base max excess : Nat) : Nat :=
  if base * 2 ^ min excess 30 ≤ durationMax then min (base * 2 ^ min excess 30) max else max

theorem backoff_le (base max excess : Nat) : backoff base max excess ≤ max := by
  unfold backoff
  split
  · exact Nat.min_le_right _ _
  · exact Nat.le_refl max

theorem backoff_mono (base max : Nat) {m n : Nat} (h : m ≤ n) :
    backoff base max m ≤ backoff base max n := by
  have hpow : base * 2 ^ min m 30 ≤ base * 2 ^ min n 30 :=
    Nat.mul_le_mul_left _ (Nat.pow_le_pow_right (by omega) (by omega))
  by_cases hn : base * 2 ^ min n 30 ≤ durationMax
  · unfold backoff
    rw [if_pos hn, if_pos (Nat.le_trans hpow hn)]
    omega
  · have hmax : backoff base max n = max := by
      unfold backoff
      rw [if_neg hn]
    rw [hmax]
    exact backoff_le base max m

/-- The tracker shifts a `u32`, and multiplies a `Duration` by it. -/
theorem delay_eq (t : ThrottleTracker) (excess : UInt32) :
    t.delay excess = backoff t.baseDelay t.maxDelay excess.toNat := by
  have hmin : (min excess 30).toNat = min excess.toNat 30 := by
    show (if excess ≤ 30 then excess else 30).toNat = _
    split
    · rename_i hle
      exact (Nat.min_eq_left (UInt32.le_iff_toNat_le.1 hle)).symm
    · rename_i hlt
      have hle := UInt32.lt_iff_toNat_lt.1 (UInt32.not_le.1 hlt)
      exact (Nat.min_eq_right (Nat.le_of_lt hle)).symm
  have hshift : ((1 : UInt32) <<< min excess 30).toNat = 2 ^ min excess.toNat 30 := by
    have h30 : min excess.toNat 30 ≤ 30 := Nat.min_le_right _ _
    have hpow : 2 ^ min excess.toNat 30 ≤ 2 ^ 30 := Nat.pow_le_pow_right (by omega) h30
    rw [UInt32.toNat_shiftLeft, hmin, Nat.mod_eq_of_lt (a := min excess.toNat 30) (by omega)]
    show 1 <<< _ % 2 ^ 32 = _
    rw [Nat.one_shiftLeft, Nat.mod_eq_of_lt (by omega)]
  unfold ThrottleTracker.delay ThrottleTracker.checkedMul backoff
  rw [hshift]
  split <;> simp

/-! ## The history -/

/-- A call of the tracker, and its time. -/
inductive Op where
  | failure (s : SecretId) (now : Nat)
  | success (s : SecretId) (now : Nat)
  | check (s : SecretId) (now : Nat)

def Op.secret : Op → SecretId
  | failure s _ | success s _ | check s _ => s

def Op.time : Op → Nat
  | failure _ now | success _ now | check _ now => now

def Op.apply (t : ThrottleTracker) : Op → ThrottleTracker
  | failure s now => t.recordFailure s now
  | success s _ => t.recordSuccess s
  | check _ _ => t

/-- The tracker after the calls of `h`, newest first. -/
def run (t : ThrottleTracker) : List Op → ThrottleTracker
  | [] => t
  | op :: h => op.apply (run t h)

/-- The same behind the mutex. -/
def Op.guarded (latest : Nat) : Op → Guarded → Guarded
  | failure s now => .recordFailure latest s now
  | success s _ => .recordSuccess s
  | check _ _ => id

/-- The tracker behind its mutex after the calls of `h`, newest first. -/
def Guarded.run (latest : Nat) (g : Guarded) : List Op → Guarded
  | [] => g
  | op :: h => op.guarded latest (Guarded.run latest g h)

/-- A tracker `with_params` and the calls of `h`. -/
def Guarded.after (latest : Nat) (th : UInt32) (base max : Nat) (h : List Op) : Guarded :=
  .run latest (some (.withParams th base max)) h

/-- The failures of `s` since its last success. -/
def failuresSince (s : SecretId) : List Op → Nat
  | [] => 0
  | .failure s' _ :: h => if s' = s then failuresSince s h + 1 else failuresSince s h
  | .success s' _ :: h => if s' = s then 0 else failuresSince s h
  | .check _ _ :: h => failuresSince s h

/-- The time of the last of them. -/
def lastFailure (s : SecretId) : List Op → Option Nat
  | [] => none
  | .failure s' now :: h => if s' = s then some now else lastFailure s h
  | .success s' _ :: h => if s' = s then none else lastFailure s h
  | .check _ _ :: h => lastFailure s h

/-- No count reaches `2 ^ 32`. -/
def CountsFit (h : List Op) : Prop := ∀ h', h' <:+ h → ∀ s, failuresSince s h' < 2 ^ 32

/-- Every lockout that a failure of `h` imposed ends at an instant of the platform. -/
def Lasting (latest : Nat) (th : UInt32) (base max : Nat) (h : List Op) : Prop :=
  ∀ s now h', .failure s now :: h' <:+ h → th.toNat ≤ failuresSince s h' + 1 →
    now + backoff base max (failuresSince s h' + 1 - th.toNat) ≤ latest

/-- When a secret is let pass again. -/
def opensAt (th : UInt32) (base max : Nat) (s : SecretId) (h : List Op) : Option Nat :=
  if th.toNat ≤ failuresSince s h then
    (lastFailure s h).map fun last => last + backoff base max (failuresSince s h - th.toNat)
  else none

/-- A secret's entry: there is one as soon as it has failed. -/
def entryOf (th : UInt32) (base max : Nat) (s : SecretId) (h : List Op) : Option State :=
  if failuresSince s h = 0 then none
  else some ⟨UInt32.ofNat (failuresSince s h), opensAt th base max s h⟩

section
variable {th : UInt32} {base max : Nat} {s : SecretId} {h : List Op}

theorem CountsFit.tail {op : Op} (hc : CountsFit (op :: h)) : CountsFit h :=
  fun h' hs => hc h' (hs.trans (List.suffix_cons op h))

theorem CountsFit.self (hc : CountsFit h) (s : SecretId) : failuresSince s h < 2 ^ 32 :=
  hc h (List.suffix_refl h) s

theorem run_params (t : ThrottleTracker) :
    ∀ h : List Op, (run t h).failureThreshold = t.failureThreshold ∧
    (run t h).baseDelay = t.baseDelay ∧ (run t h).maxDelay = t.maxDelay
  | [] => ⟨rfl, rfl, rfl⟩
  | op :: h => by
    have ih := run_params t h
    cases op <;> exact ih

/-- **A secret's entry is its history.** -/
theorem run_get (hth : 1 ≤ th) : ∀ h : List Op, CountsFit h → ∀ s,
    (run (.withParams th base max) h).states.get s = entryOf th base max s h
  | [], _, s => by simp [run, ThrottleTracker.withParams, entryOf, failuresSince]
  | op :: h, hc, s => by
    have ih := run_get hth h hc.tail
    cases op with
    | check s' now => exact ih s
    | success s' now =>
      by_cases hs : s' = s
      · subst hs
        simp [run, Op.apply, ThrottleTracker.get_recordSuccess_self, entryOf, failuresSince]
      · refine (ThrottleTracker.get_recordSuccess_ne _ (Ne.symm hs)).trans ((ih s).trans ?_)
        simp [entryOf, opensAt, failuresSince, lastFailure, hs]
    | failure s' now =>
      by_cases hs : s' = s
      · subst hs
        have hn := hc.self s'
        simp only [failuresSince, if_true] at hn
        have hfailures : (run (.withParams th base max) h).failures s' = UInt32.ofNat
            (failuresSince s' h) := by
          unfold ThrottleTracker.failures
          rw [ih s', entryOf]
          split
          · rename_i hzero
            simp [hzero]
          · rfl
        have hcount : UInt32.ofNat (failuresSince s' h) + 1 = UInt32.ofNat
            (failuresSince s' h + 1) := by
          rw [UInt32.ofNat_add]
          rfl
        have hnext : (UInt32.ofNat (failuresSince s' h + 1)).toNat = failuresSince s' h + 1 :=
          UInt32.toNat_ofNat_of_lt' hn
        obtain ⟨hthreshold, hbase, hmax⟩ := run_params (.withParams th base max) h
        refine (ThrottleTracker.get_recordFailure_self _ _ _).trans ?_
        rw [hfailures, hthreshold, delay_eq, hbase, hmax]
        simp only [ThrottleTracker.withParams, entryOf, opensAt, failuresSince, lastFailure,
          if_true,
          Nat.succ_ne_zero, if_false, hcount, Option.map_some]
        by_cases hle : th.toNat ≤ failuresSince s' h + 1
        · have hge : UInt32.ofNat (failuresSince s' h + 1) ≥ th := by
            rw [ge_iff_le, UInt32.le_iff_toNat_le, hnext]
            exact hle
          rw [if_pos hge, if_pos hle, UInt32.toNat_sub_of_le _ _ hge, hnext]
        · have hlt : ¬ UInt32.ofNat (failuresSince s' h + 1) ≥ th := by
            rw [ge_iff_le, UInt32.le_iff_toNat_le, hnext]
            exact hle
          -- below the threshold nothing was locked before
          have hbefore : ((run ⟨th, base, max, ∅⟩ h).states.get s').bind State.lockedUntil =
              none := by
            rw [show run ⟨th, base, max, ∅⟩ h = run (.withParams th base max) h from rfl, ih s',
              entryOf]
            split
            · rfl
            · exact if_neg (by omega)
          rw [if_neg hlt, if_neg hle, hbefore]
      · refine (ThrottleTracker.get_recordFailure_ne _ _ (Ne.symm hs)).trans ((ih s).trans ?_)
        simp [entryOf, opensAt, failuresSince, lastFailure, hs]

theorem run_lockedUntil (hth : 1 ≤ th) (hc : CountsFit h) (s : SecretId) :
    (run (.withParams th base max) h).lockedUntil s = opensAt th base max s h := by
  unfold ThrottleTracker.lockedUntil
  rw [run_get hth h hc s, entryOf]
  split
  · rename_i hzero
    have hpos := UInt32.le_iff_toNat_le.1 hth
    have hpos' : 1 ≤ th.toNat := hpos
    rw [opensAt, if_neg (by omega)]
    rfl
  · rfl

/-- A secret that is not let pass yet. -/
theorem check_error {t : ThrottleTracker} {now : Nat} :
    t.check s now = .error .lockedOut ↔ ∃ u, t.lockedUntil s = some u ∧ now < u := by
  unfold ThrottleTracker.check ThrottleTracker.lockedUntil
  cases t.states.get s with
  | none => simp
  | some st =>
    cases hl : st.lockedUntil with
    | none => simp [hl]
    | some u => by_cases hu : now < u <;> simp [hl, hu]

theorem remainingLockout_eq (t : ThrottleTracker) (s : SecretId) (now : Nat) :
    t.remainingLockout s now = (t.lockedUntil s).bind fun u =>
    if now < u then some (u - now) else none := by
  unfold ThrottleTracker.remainingLockout ThrottleTracker.lockedUntil
  cases t.states.get s with
  | none => rfl
  | some st => rfl

/-- A call makes the same of equal entries. -/
theorem apply_congr {t t' : ThrottleTracker} (op : Op)
    (hth : t.failureThreshold = t'.failureThreshold) (hbase : t.baseDelay = t'.baseDelay)
    (hmax : t.maxDelay = t'.maxDelay) (hget : t.states.get s = t'.states.get s) :
    (op.apply t).states.get s = (op.apply t').states.get s := by
  cases op with
  | check s' now => exact hget
  | success s' now =>
    by_cases hs : s = s'
    · subst hs
      simp only [Op.apply, ThrottleTracker.get_recordSuccess_self]
    · simp only [Op.apply, ThrottleTracker.get_recordSuccess_ne _ hs, hget]
  | failure s' now =>
    by_cases hs : s = s'
    · subst hs
      simp only [Op.apply, ThrottleTracker.get_recordFailure_self, ThrottleTracker.failures,
        delay_eq, hth, hbase, hmax, hget]
    · simp only [Op.apply, ThrottleTracker.get_recordFailure_ne _ _ hs, hget]

/-- What happens to other secrets does not matter. -/
theorem run_filter (t : ThrottleTracker) (s : SecretId) : ∀ h : List Op,
    (run t (h.filter fun op => op.secret = s)).states.get s = (run t h).states.get s
  | [] => rfl
  | op :: h => by
    have ih := run_filter t s h
    by_cases hs : op.secret = s
    · rw [List.filter_cons_of_pos (by simpa using hs)]
      obtain ⟨h1, h2, h3⟩ := run_params t (h.filter fun op => op.secret = s)
      obtain ⟨h4, h5, h6⟩ := run_params t h
      exact apply_congr op (h1.trans h4.symm) (h2.trans h5.symm) (h3.trans h6.symm) ih
    · rw [List.filter_cons_of_neg (by simpa using hs), ih]
      cases op with
      | failure s' now => exact (ThrottleTracker.get_recordFailure_ne _ _ (Ne.symm hs)).symm
      | success s' now => exact (ThrottleTracker.get_recordSuccess_ne _ (Ne.symm hs)).symm
      | check s' now => rfl

theorem lastFailure_le {now : Nat} : ∀ {h : List Op} {last : Nat}, (∀ op ∈ h, op.time ≤ now) →
    lastFailure s h = some last → last ≤ now
  | [], _, _, hl => by cases hl
  | op :: h, last, ht, hl => by
    have ih : lastFailure s h = some last → last ≤ now :=
      lastFailure_le fun op ho => ht op (List.mem_cons_of_mem _ ho)
    have hop := ht op (List.mem_cons_self ..)
    cases op with
    | failure s' now' =>
      by_cases hs : s' = s
      · simp only [lastFailure, hs, if_true, Option.some.injEq] at hl
        exact hl ▸ hop
      · simp only [lastFailure, hs, if_false] at hl
        exact ih hl
    | success s' now' =>
      by_cases hs : s' = s
      · simp [lastFailure, hs] at hl
      · simp only [lastFailure, hs, if_false] at hl
        exact ih hl
    | check s' now' => exact ih hl

/-- A further failure moves the end of a lockout on. -/
theorem opensAt_failure {now u : Nat} (ht : ∀ op ∈ h, op.time ≤ now)
    (hu : opensAt th base max s h = some u) :
    ∃ u', opensAt th base max s (.failure s now :: h) = some u' ∧ u ≤ u' := by
  unfold opensAt at hu
  split at hu
  · rename_i hle
    obtain ⟨last, hlast, rfl⟩ := Option.map_eq_some_iff.1 hu
    refine ⟨now + backoff base max (failuresSince s h + 1 - th.toNat), ?_, ?_⟩
    · simp only [opensAt, failuresSince, lastFailure, if_true, Option.map_some]
      rw [if_pos (by omega)]
    · have hmono := backoff_mono base max (m := failuresSince s h - th.toNat)
        (n := failuresSince s h + 1 - th.toNat) (by omega)
      have := lastFailure_le ht hlast
      omega
  · cases hu

end

/-- The text forms of the three kinds of secrets differ. -/
theorem SecretId.kinds_apart {C : Crates} (hu : ∀ u, C.uuidParse (C.uuidToString u) = .ok u)
    (a b : Uuid) :
    (SecretId.key C a = SecretId.key C b ↔ a = b) ∧
    (SecretId.compartment C a = SecretId.compartment C b ↔ a = b) ∧
    (SecretId.transferPassword C a = SecretId.transferPassword C b ↔ a = b) ∧
    SecretId.key C a ≠ SecretId.compartment C b ∧ SecretId.key C a ≠ SecretId.transferPassword C b ∧
    SecretId.compartment C a ≠ SecretId.transferPassword C b := by
  have hinj : C.uuidToString a = C.uuidToString b ↔ a = b := by
    refine ⟨fun he => ?_, fun he => he ▸ rfl⟩
    have ha := hu a
    rw [he, hu b] at ha
    exact (Except.ok.inj ha).symm
  have hlead : ∀ {p q x y : String}, p.toList.take 1 ≠ q.toList.take 1 → p.toList ≠ [] →
      q.toList ≠ [] →
      (SecretId.mk (p ++ x)) ≠ SecretId.mk (q ++ y) := by
    intro p q x y hne hp hq he
    have hl := congrArg (fun i => i.text.toList.take 1) he
    simp only [String.toList_append] at hl
    rw [List.take_append_of_le_length (by cases h : p.toList <;> simp_all),
      List.take_append_of_le_length (by cases h : q.toList <;> simp_all)] at hl
    exact hne hl
  refine ⟨?_, ?_, ?_, ?_, ?_, ?_⟩
  · simp [SecretId.key, hinj]
  · simp [SecretId.compartment, hinj]
  · simp [SecretId.transferPassword, hinj]
  · exact hlead (by decide) (by decide) (by decide)
  · exact hlead (by decide) (by decide) (by decide)
  · exact hlead (by decide) (by decide) (by decide)

/-! ## Behind the mutex -/

section
variable {th : UInt32} {base max latest : Nat} {s : SecretId} {h : List Op}

/-- The count of a secret, from its history. -/
theorem run_failures (hth : 1 ≤ th) (hc : CountsFit h) (s : SecretId) :
    (run (.withParams th base max) h).failures s = UInt32.ofNat (failuresSince s h) := by
  unfold ThrottleTracker.failures
  rw [run_get hth h hc s, entryOf]
  split
  · rename_i hzero
    simp [hzero]
  · rfl

/-- When a failure does not panic, from the history. -/
theorem run_imposes (hth : 1 ≤ th) {now : Nat} (hc : CountsFit (.failure s now :: h)) :
    (run (.withParams th base max) h).Imposes latest s now ↔
      (th.toNat ≤ failuresSince s h + 1 →
        now + backoff base max (failuresSince s h + 1 - th.toNat) ≤ latest) := by
  have hn := hc.self s
  simp only [failuresSince, if_true] at hn
  have hnext : (UInt32.ofNat (failuresSince s h) + 1).toNat = failuresSince s h + 1 := by
    rw [show UInt32.ofNat (failuresSince s h) + 1 = UInt32.ofNat (failuresSince s h + 1) by
      rw [UInt32.ofNat_add]; rfl]
    exact UInt32.toNat_ofNat_of_lt' hn
  obtain ⟨hthreshold, hbase, hmax⟩ := run_params (.withParams th base max) h
  unfold ThrottleTracker.Imposes
  rw [run_failures hth hc.tail, hthreshold, delay_eq, hbase, hmax]
  simp only [ThrottleTracker.withParams, ge_iff_le, UInt32.le_iff_toNat_le, hnext]
  refine forall_congr' fun hle => ?_
  rw [UInt32.toNat_sub_of_le _ _ (UInt32.le_iff_toNat_le.2 (by rw [hnext]; exact hle)), hnext]

theorem Lasting.tail {op : Op} (hl : Lasting latest th base max (op :: h)) :
    Lasting latest th base max h :=
  fun s now h' hs => hl s now h' (hs.trans (List.suffix_cons op h))

/-- **The mutex is not poisoned** exactly as long as every lockout ends at an
instant of the platform, and then it guards the tracker. -/
theorem guarded_run (hth : 1 ≤ th) : ∀ h : List Op, CountsFit h →
    (Lasting latest th base max h →
      Guarded.after latest th base max h = some (run (.withParams th base max) h)) ∧
    (Guarded.after latest th base max h ≠ none → Lasting latest th base max h)
  | [], _ =>
    ⟨fun _ => rfl, fun _ s now h' hs => absurd (List.suffix_nil.1 hs) (List.cons_ne_nil _ _)⟩
  | op :: h, hc => by
    have ih := guarded_run hth h hc.tail
    refine ⟨fun hl => ?_, fun hne => ?_⟩
    · have hrun := ih.1 hl.tail
      cases op with
      | check s now => exact hrun
      | success s now => exact congrArg (Guarded.recordSuccess s) hrun
      | failure s now =>
        refine (congrArg (Guarded.recordFailure latest s now) hrun).trans (if_pos ?_)
        exact (run_imposes hth hc).2 (hl s now h (List.suffix_refl _))
    · have hbefore : Guarded.after latest th base max h ≠ none := by
        intro hnone
        apply hne
        show op.guarded latest (Guarded.after latest th base max h) = none
        rw [hnone]
        cases op <;> rfl
      have hlasting := ih.2 hbefore
      intro s now h' hs
      rcases List.suffix_cons_iff.1 hs with heq | hs
      · -- the newest call: it did not panic
        obtain ⟨rfl, rfl⟩ := List.cons.inj heq
        refine (run_imposes hth hc).1 ?_
        by_contra hno
        apply hne
        exact (congrArg (Guarded.recordFailure latest s now) (ih.1 hlasting)).trans (if_neg hno)
      · exact hlasting s now h' hs

/-- With the vault's own parameters the mutex is never poisoned. -/
theorem guarded_run_new {h : List Op} (ht : ∀ op ∈ h, op.time + defaultMaxDelay ≤ latest) :
    Guarded.run latest (some .new) h = some (run .new h) := by
  induction h with
  | nil => rfl
  | cons op h ih =>
    have hrun := ih fun op' ho => ht op' (List.mem_cons_of_mem _ ho)
    cases op with
    | check s now => exact hrun
    | success s now => exact congrArg (Guarded.recordSuccess s) hrun
    | failure s now =>
      refine (congrArg (Guarded.recordFailure latest s now) hrun).trans ?_
      exact Guarded.recordFailure_new (ht _ List.mem_cons_self) (run_params .new h).2.2 s

end

/-- The tracker behind its mutex answers from the history: no call panics;
`check` refuses a secret exactly while the backoff of its last failure runs,
from the threshold on; the backoff grows with the failures up to the maximum;
a further failure does not shorten a lockout; `remaining_lockout` says what
`check` does; and no secret depends on another. -/
structure EqualsHistory (C : Crates) (latest : Nat) (th : UInt32) (base max : Nat) (h : List Op) :
    Prop where
  returns : ∀ s now, (Guarded.after latest th base max h).check s now ≠ none
  check : ∀ s now, (Guarded.after latest th base max h).check s now = some (.error .lockedOut) ↔
    ∃ last, lastFailure s h = some last ∧ th.toNat ≤ failuresSince s h ∧
      now < last + backoff base max (failuresSince s h - th.toNat)
  delays : ∀ m n, m ≤ n → backoff base max m ≤ backoff base max n ∧ backoff base max n ≤ max
  lengthens : ∀ s now h' t d, h = .failure s now :: h' →
    (Guarded.after latest th base max h').remainingLockout s t = some (some d) →
      ∃ d', (Guarded.after latest th base max h).remainingLockout s t = some (some d') ∧ d ≤ d'
  remaining : ∀ s now d, (Guarded.after latest th base max h).remainingLockout s now =
    some (some d) →
    0 < d ∧ ∀ t, (Guarded.after latest th base max h).check s t = some (.error .lockedOut) ↔
      t < now + d
  free : ∀ s now, (Guarded.after latest th base max h).remainingLockout s now = some none ↔
    (Guarded.after latest th base max h).check s now = some (.ok ())
  apart : ∀ s now, (Guarded.after latest th base max h).check s now =
    (Guarded.after latest th base max (h.filter fun op => op.secret = s)).check s now
  secrets : ∀ a b, (SecretId.key C a = SecretId.key C b ↔ a = b) ∧
    (SecretId.compartment C a = SecretId.compartment C b ↔ a = b) ∧
    (SecretId.transferPassword C a = SecretId.transferPassword C b ↔ a = b) ∧
    SecretId.key C a ≠ SecretId.compartment C b ∧ SecretId.key C a ≠ SecretId.transferPassword C b ∧
    SecretId.compartment C a ≠ SecretId.transferPassword C b

section
variable {th : UInt32} {base max latest : Nat} {s : SecretId} {h : List Op}

/-- What a mutex guards that is not poisoned. -/
theorem guarded_some {t₀ t : ThrottleTracker} : ∀ {h : List Op},
    Guarded.run latest (some t₀) h = some t → t = run t₀ h
  | [], hg => (Option.some.inj hg).symm
  | op :: h, hg => by
    have hstep : op.guarded latest (Guarded.run latest (some t₀) h) = some t := hg
    cases hb : Guarded.run latest (some t₀) h with
    | none =>
      rw [hb] at hstep
      cases op <;> cases hstep
    | some t' =>
      rw [hb] at hstep
      have ht := guarded_some hb
      subst ht
      cases op with
      | check s now => exact (Option.some.inj hstep).symm
      | success s now => exact (Option.some.inj hstep).symm
      | failure s now =>
        by_cases himp : (run t₀ h).Imposes latest s now
        · exact (Option.some.inj ((if_pos himp).symm.trans hstep)).symm
        · exact absurd ((if_neg himp).symm.trans hstep) (by simp)

/-- The calls before one that did not panic did not either. -/
theorem guarded_cons {t₀ t : ThrottleTracker} {op : Op}
    (hg : Guarded.run latest (some t₀) (op :: h) = some t) :
    Guarded.run latest (some t₀) h = some (run t₀ h) ∧
      ∀ s now, op = .failure s now → (run t₀ h).Imposes latest s now := by
  have hstep : op.guarded latest (Guarded.run latest (some t₀) h) = some t := hg
  cases hb : Guarded.run latest (some t₀) h with
  | none =>
    rw [hb] at hstep
    cases op <;> cases hstep
  | some t' =>
    rw [hb] at hstep
    refine ⟨congrArg some (guarded_some hb), ?_⟩
    rintro s now rfl
    rw [← guarded_some hb]
    by_contra hno
    exact absurd ((if_neg hno).symm.trans hstep) (by simp)

/-- A mutex that other secrets have not poisoned. -/
theorem guarded_filter (t₀ : ThrottleTracker) (s : SecretId) : ∀ {h : List Op},
    Guarded.run latest (some t₀) h = some (run t₀ h) →
      Guarded.run latest (some t₀) (h.filter fun op => op.secret = s) =
        some (run t₀ (h.filter fun op => op.secret = s))
  | [], hg => hg
  | op :: h, hg => by
    obtain ⟨hbefore, himposes⟩ := guarded_cons hg
    have ih := guarded_filter t₀ s hbefore
    by_cases hs : op.secret = s
    · rw [List.filter_cons_of_pos (by simpa using hs)]
      refine (congrArg (op.guarded latest) ih).trans ?_
      cases op with
      | check s' now => rfl
      | success s' now => rfl
      | failure s' now =>
        obtain rfl : s' = s := hs
        refine if_pos ?_
        have hcalls := himposes s' now rfl
        obtain ⟨h1, h2, h3⟩ := run_params t₀ (h.filter fun op => op.secret = s')
        obtain ⟨h4, h5, h6⟩ := run_params t₀ h
        unfold ThrottleTracker.Imposes ThrottleTracker.failures at hcalls ⊢
        rw [run_filter, delay_eq, h1, h2, h3]
        rwa [delay_eq, h4, h5, h6] at hcalls
    · rw [List.filter_cons_of_neg (by simpa using hs)]
      exact ih

/-- The tracker answers from its history, where nothing panics. -/
theorem run_history {C : Crates} (hu : ∀ u, C.uuidParse (C.uuidToString u) = .ok u) (hth : 1 ≤ th)
    (htimes : h.Pairwise fun op op' => op'.time ≤ op.time) (hc : CountsFit h)
    (hl : Lasting latest th base max h) : EqualsHistory C latest th base max h := by
  have hlocked : ∀ s, (run (.withParams th base max) h).lockedUntil s = opensAt th base max s h :=
    run_lockedUntil hth hc
  have hrun : Guarded.after latest th base max h = some (run (.withParams th base max) h) :=
    (guarded_run hth h hc).1 hl
  have hcheck : ∀ s now, (Guarded.after latest th base max h).check s now =
      some ((run (.withParams th base max) h).check s now) := fun s now => by
    rw [hrun, Guarded.check_some]
  have hremaining : ∀ s now, (Guarded.after latest th base max h).remainingLockout s now =
      some ((run (.withParams th base max) h).remainingLockout s now) := fun s now => by
    rw [hrun, Guarded.remainingLockout_some]
  constructor
  case returns =>
    intro s now
    rw [hcheck]
    exact Option.some_ne_none _
  case check =>
    intro s now
    rw [hcheck, Option.some.injEq, check_error, hlocked, opensAt]
    by_cases hle : th.toNat ≤ failuresSince s h
    · simp only [hle, if_true, true_and, Option.map_eq_some_iff]
      constructor
      · rintro ⟨u, ⟨last, hlast, rfl⟩, hlt⟩
        exact ⟨last, hlast, hlt⟩
      · rintro ⟨last, hlast, hlt⟩
        exact ⟨_, ⟨last, hlast, rfl⟩, hlt⟩
    · simp [hle]
  case delays => exact fun m n hmn => ⟨backoff_mono base max hmn, backoff_le base max n⟩
  case lengthens =>
    rintro s now h' t d rfl hd
    obtain ⟨hlate, -⟩ := List.pairwise_cons.1 htimes
    have hbefore : Guarded.after latest th base max h' = some (run (.withParams th base max) h') :=
      (guarded_run hth h' hc.tail).1 hl.tail
    rw [hbefore, Guarded.remainingLockout_some] at hd
    have hd' := Option.some.inj hd
    rw [remainingLockout_eq, run_lockedUntil hth hc.tail] at hd'
    obtain ⟨u, hu, hd'⟩ := Option.bind_eq_some_iff.1 hd'
    obtain ⟨u', hu', hle⟩ : ∃ u', opensAt th base max s (.failure s now :: h') = some u' ∧ u ≤ u' :=
      opensAt_failure hlate hu
    simp only [Option.ite_none_right_eq_some, Option.some.injEq] at hd'
    refine ⟨u' - t, ?_, by omega⟩
    rw [hremaining, remainingLockout_eq, hlocked, hu', Option.bind_some, if_pos (by omega)]
  case remaining =>
    intro s now d hd
    rw [hremaining] at hd
    have hd' := Option.some.inj hd
    rw [remainingLockout_eq] at hd'
    obtain ⟨u, hu, hd'⟩ := Option.bind_eq_some_iff.1 hd'
    simp only [Option.ite_none_right_eq_some, Option.some.injEq] at hd'
    refine ⟨by omega, fun t => ?_⟩
    rw [hcheck, Option.some.injEq, check_error, hu]
    simp only [Option.some.injEq, exists_eq_left']
    omega
  case free =>
    intro s now
    rw [hcheck, hremaining, Option.some.injEq, Option.some.injEq, remainingLockout_eq,
      ThrottleTracker.check_ok]
    cases (run (.withParams th base max) h).lockedUntil s with
    | none => simp
    | some u => simp
  case apart =>
    intro s now
    have hfilter : Guarded.after latest th base max (h.filter fun op => op.secret = s) = some _ :=
      guarded_filter _ s hrun
    rw [hcheck, hfilter, Guarded.check_some]
    unfold ThrottleTracker.check
    rw [run_filter]
  case secrets => exact SecretId.kinds_apart hu

/-- **The throttle equals its history** exactly as long as every lockout that
it imposed ends at an instant of the platform. After any calls, at times that
do not go back and with fewer than `2 ^ 32` failures of a secret since its last
success, it then answers what the history says; past that instant a failure
poisons the mutex, and no call returns any more. -/
theorem throttle_equals_history_iff {C : Crates} (hu : ∀ u, C.uuidParse (C.uuidToString u) = .ok u)
    (hth : 1 ≤ th) (htimes : h.Pairwise fun op op' => op'.time ≤ op.time) (hc : CountsFit h) :
    EqualsHistory C latest th base max h ↔ Lasting latest th base max h := by
  refine ⟨fun heq => (guarded_run hth h hc).2 fun hnone => ?_, run_history hu hth htimes hc⟩
  refine heq.returns ⟨""⟩ 0 ?_
  rw [hnone]
  rfl

end

theorem failuresSince_le (s : SecretId) : ∀ h : List Op, failuresSince s h ≤ h.length
  | [] => Nat.le_refl 0
  | op :: h => by
    have ih := failuresSince_le s h
    cases op with
    | failure s' now =>
      simp only [failuresSince, List.length_cons]
      split <;> omega
    | success s' now =>
      simp only [failuresSince, List.length_cons]
      split <;> omega
    | check s' now => exact Nat.le_succ_of_le ih

theorem countsFit_of_length {h : List Op} (hl : h.length < 2 ^ 32) : CountsFit h := fun h' hs s =>
  Nat.lt_of_le_of_lt ((failuresSince_le s h').trans hs.length_le) hl

/-- The last `Instant` on 64-bit Linux: the seconds are an `i64`. -/
def lastInstant : Nat := (2 ^ 63 - 1) * 1000000000 + 999999999

/-- Three failures of one secret with a threshold of two, one of another: the
delay has doubled. -/
theorem throttle_equals_history_sample :
    EqualsHistory Crates.symbolic lastInstant 2 1000000000 300000000000
      [.failure ⟨"key:a"⟩ 7, .failure ⟨"key:b"⟩ 6, .failure ⟨"key:a"⟩ 5, .failure ⟨"key:a"⟩ 3] ∧
    (Guarded.after lastInstant 2 1000000000 300000000000
      [.failure ⟨"key:a"⟩ 7, .failure ⟨"key:b"⟩ 6,
      .failure ⟨"key:a"⟩ 5, .failure ⟨"key:a"⟩ 3]).check ⟨"key:a"⟩ 2000000006 =
      some (.error .lockedOut) := by
  have hall : EqualsHistory Crates.symbolic lastInstant 2 1000000000 300000000000
      [.failure ⟨"key:a"⟩ 7, .failure ⟨"key:b"⟩ 6, .failure ⟨"key:a"⟩ 5, .failure ⟨"key:a"⟩ 3] := by
    refine (throttle_equals_history_iff Crates.symbolic_codec.uuid (by decide) (by simp [Op.time])
      (countsFit_of_length (by simp))).2 ?lasting
    intro s now h' hs _
    have hnow : now ≤ 7 := by
      have hmem := hs.subset List.mem_cons_self
      simp only [List.mem_cons, Op.failure.injEq, List.not_mem_nil, or_false] at hmem
      omega
    have hdelay := backoff_le 1000000000 300000000000 (failuresSince s h' + 1 - (2 : UInt32).toNat)
    unfold lastInstant
    omega
  refine ⟨hall, (hall.check _ _).2 ⟨7, by simp [lastFailure], by simp [failuresSince], ?_⟩⟩
  simp only [failuresSince]
  decide

/-- **A tracker that is gone.** `with_params` with the longest `Duration` there
is, and one failure: the lockout that is due would end past the last
`Instant`, `record_failure` panics, and no call returns from then on. -/
theorem long_lockout_panics : ∃ h : List Op, (1 : UInt32) ≤ 1 ∧
    (h.Pairwise fun op op' => op'.time ≤ op.time) ∧ CountsFit h ∧
    (∃ last, lastFailure ⟨"key:a"⟩ h = some last ∧ (1 : UInt32).toNat ≤ failuresSince ⟨"key:a"⟩ h ∧
      1 < last + backoff durationMax durationMax (failuresSince ⟨"key:a"⟩ h - (1 : UInt32).toNat)) ∧
    (∀ s now, (Guarded.after lastInstant 1 durationMax durationMax h).check s now = none) ∧
    ¬ EqualsHistory Crates.symbolic lastInstant 1 durationMax durationMax h := by
  have hpoisoned : Guarded.after lastInstant 1 durationMax durationMax [.failure ⟨"key:a"⟩ 0] =
      none := by
    by_contra hne
    have hlasting := (guarded_run (by decide) _ (countsFit_of_length (by simp))).2 hne
    have hle := hlasting ⟨"key:a"⟩ 0 [] (List.suffix_refl _) (by decide)
    revert hle
    decide
  refine ⟨[.failure ⟨"key:a"⟩
    0], by decide, List.pairwise_singleton _ _, countsFit_of_length (by simp),
    ⟨0, by simp [lastFailure], by simp [failuresSince], by simp only [failuresSince]; decide⟩,
      fun s now => ?_,
    fun heq => heq.returns ⟨"key:a"⟩ 0 ?_⟩
  · rw [hpoisoned]
    rfl
  · rw [hpoisoned]
    rfl

end VaultSigner.L2.Throttle
