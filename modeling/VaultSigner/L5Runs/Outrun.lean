import VaultSigner.L5Runs.Throttled
import VaultSigner.L5Runs.Wiped

/-!
# Verifications that outrun a lockout

A call asks the throttle in one region, verifies in a later one, and records
the outcome in a third. Calls that have been let pass may therefore verify
after another one has locked the secret, and wrong passphrases that are not
recorded yet do not count.

Results:
* `move_effect`: what one move of an interleaving does to a secret's entry.
* `wrongs_bounded`: while a secret is not locked, the wrong passphrases since
  the last clearing are on record or about to be.
* `lockouts_hold`: without such races no passphrase is verified during a
  lockout, nor more than the threshold before the first one has elapsed.
-/
namespace VaultSigner.L5
open VaultSigner.Core VaultSigner.L1 VaultSigner.L2.Throttle VaultSigner.L3 VaultSigner.L4
open VaultSigner.L2

/-- The failures on record for `s` are taken off. -/
def Clears (s : SecretId) (m : Region) : Prop :=
  m.before.throttle.states.get s ≠ none ∧ m.after.throttle.states.get s = none

/-- The region locks `s` until `u`. -/
def Locks (s : SecretId) (m : Region) (u : Nat) : Prop :=
  m.before.throttle.lockedUntil s ≠ some u ∧ m.after.throttle.lockedUntil s = some u

/-- Call `j` has found a passphrase for `s` wrong, and has not recorded it yet. -/
def Awaits (C : Crates) (s : SecretId) (a : List (Nat × Region)) (j : Nat) : Prop :=
  ∃ w m k x, own j a = w ++ [m] ∧ OpensAs m k (.error x) ∧ s = SecretId.key C k ∧
    m.after.throttle = m.before.throttle

section
variable (C : Crates) (calls : List Call) (s : SecretId)

/-- Call `i` verifies a passphrase for `s` in its region `m`, after the moves `a`. -/
def VerifiesAt (a : List (Nat × Region)) (i : Nat) (m : Region) (ok : Bool) : Prop :=
  ∃ call, calls[i]? = some call ∧ Verifies C call (own i a) m s ok

open Classical in
/-- How many passphrases for `s` the moves `t`, after the moves `a`, find wrong
without a clearing, `n` to begin with. -/
noncomputable def wrongsFrom : Nat → List (Nat × Region) → List (Nat × Region) → Nat
  | n, _, [] => n
  | n, a, (i, m) :: t => wrongsFrom (if Clears s m then 0
      else if VerifiesAt C calls s a i m false then n + 1 else n) (a ++ [(i, m)]) t

/-- The wrong passphrases for `s` since the failures on record were last cleared. -/
noncomputable def wrongs (t : List (Nat × Region)) : Nat := wrongsFrom C calls s 0 [] t

/-- At every verification for `s` the lockout that there is has elapsed, and
there is one if the wrong passphrases reach the threshold. -/
def LockoutsHold (t : List (Nat × Region)) : Prop :=
  ∀ a i m b ok, t = a ++ (i, m) :: b → VerifiesAt C calls s a i m ok →
    (∀ u, m.before.throttle.lockedUntil s = some u → u ≤ m.input.now) ∧
    (m.before.throttle.failureThreshold.toNat ≤ wrongs C calls s a →
      ∃ u, m.before.throttle.lockedUntil s = some u ∧ u ≤ m.input.now)

/-- A call is let pass, and by the time it verifies another one has locked the
secret; or it verifies when the failures that calls are about to record would
have locked it. -/
inductive Raced (t : List (Nat × Region)) : Prop
  | stale {a₁ a₂ b : List (Nat × Region)} {i j u : Nat} {c x m : Region} {ok : Bool}
      (split : t = a₁ ++ (i, c) :: a₂ ++ (i, m) :: b)
      (check : c.before.throttle.check s c.input.now = .ok ()) (near : (own i a₂).length ≤ 1)
      (verifies : VerifiesAt C calls s (a₁ ++ (i, c) :: a₂) i m ok) (mem : (j, x) ∈ a₂)
      (locks : Locks s x u) (running : m.input.now < u) : Raced t
  | unrecorded {a b : List (Nat × Region)} {i : Nat} {m : Region} {ok : Bool} {js : List Nat}
      (split : t = a ++ (i, m) :: b) (verifies : VerifiesAt C calls s a i m ok)
      (unlocked : m.before.throttle.lockedUntil s = none) (nodup : js.Nodup)
      (awaits : ∀ j ∈ js, Awaits C s a j)
      (many : m.before.throttle.failureThreshold.toNat ≤
        (m.before.throttle.failures s).toNat + js.length) : Raced t

end

section
variable {C : Crates} {calls : List Call} {s : SecretId} {v : Vault} {a b t : List (Nat × Region)}
  {i : Nat} {m : Region} {p : Pool In Vault FacadeError Reply}

theorem wrongsFrom_snoc (n : Nat) (a t : List (Nat × Region)) (i : Nat) (m : Region) :
    wrongsFrom C calls s n a (t ++ [(i, m)]) = open Classical in
      if Clears s m then 0
      else if VerifiesAt C calls s (a ++ t) i m false then wrongsFrom C calls s n a t + 1
      else wrongsFrom C calls s n a t := by
  induction t generalizing n a with
  | nil => rw [List.nil_append, List.append_nil, wrongsFrom, wrongsFrom, wrongsFrom]
  | cons x t ih =>
    obtain ⟨j, m'⟩ := x
    rw [List.cons_append, wrongsFrom, ih, wrongsFrom, List.append_cons a (j, m') t]

theorem wrongs_clears (h : Clears s m) : wrongs C calls s (t ++ [(i, m)]) = 0 := by
  unfold wrongs
  rw [wrongsFrom_snoc, if_pos h]

theorem wrongs_verifies (h : VerifiesAt C calls s t i m false) :
    wrongs C calls s (t ++ [(i, m)]) ≤ wrongs C calls s t + 1 := by
  unfold wrongs
  rw [wrongsFrom_snoc]
  split
  · omega
  · rw [if_pos (by simpa using h)]

theorem wrongs_other (h : ¬ VerifiesAt C calls s t i m false) :
    wrongs C calls s (t ++ [(i, m)]) ≤ wrongs C calls s t := by
  unfold wrongs
  rw [wrongsFrom_snoc]
  split
  · omega
  · rw [if_neg (by simpa using h)]

theorem wrongs_grows (h : ¬ Clears s m) :
    wrongs C calls s t ≤ wrongs C calls s (t ++ [(i, m)]) := by
  unfold wrongs
  rw [wrongsFrom_snoc, if_neg h]
  split <;> omega

theorem wrongs_wrong (hc : ¬ Clears s m) (h : VerifiesAt C calls s t i m false) :
    wrongs C calls s (t ++ [(i, m)]) = wrongs C calls s t + 1 := by
  unfold wrongs
  rw [wrongsFrom_snoc, if_neg hc, if_pos (by simpa using h)]

/-! ## One call -/

/-- A call that has been let pass, some regions ago. -/
theorem along_cleared {kind : Kind} {k : Uuid} {c : Region} : ∀ {w : List Region} {n : Nat},
    Prog.Along (Attempt C kind) .fresh w (.cleared k c n) →
      ∃ w₁ w₂, w = w₁ ++ c :: w₂ ∧ w₂.length = n ∧
        c.before.throttle.check (SecretId.key C k) c.input.now = .ok () ∧
        c.after.throttle = c.before.throttle := by
  intro w
  induction w using List.reverseRecOn with
  | nil => intro n h; cases h
  | append_singleton w m ih =>
    intro n h
    obtain ⟨x, hx, h⟩ := h.split
    generalize hz : Phase.cleared k c n = z at h
    cases h with
    | cons hm hnil =>
      cases hnil
      cases hm with
      | idle hs hidle =>
        cases x with
        | cleared k' c' n' =>
          cases hz
          obtain ⟨w₁, w₂, rfl, hlen, hc⟩ := ih hx
          exact ⟨w₁, w₂ ++ [m], by simp, by simp [hlen], hc⟩
        | _ => cases hz
      | check hu hidle hc =>
        cases hz
        exact ⟨w, [], rfl, rfl, hc, hidle.throttle⟩
      | @records k' _ r =>
        cases r <;> cases hz
      | _ => cases hz

/-- After an opening that recorded nothing, the outcome is to be recorded. -/
theorem along_opened {kind : Kind} {k : Uuid} {z : VaultError} {w : List Region} {x : Phase}
    (h : Prog.Along (Attempt C kind) .fresh (w ++ [m]) x) (ho : OpensAs m k (.error z))
    (ht : m.after.throttle = m.before.throttle) : x = .opened k (.error z) := by
  obtain ⟨y, -, h⟩ := h.split
  cases h with
  | cons hm hnil =>
    cases hnil
    have hsame : m.after.hist = m.before.hist → False := fun hh => not_opensAs_of_hist hh _ _ ho
    cases hm with
    | idle hs hidle => exact absurd ho (hidle.untouched.unopened _ _)
    | check hu hidle => exact absurd ho (hidle.untouched.unopened _ _)
    | opens hopens =>
      obtain ⟨rfl, rfl⟩ := ho.unique hopens
      rfl
    | records hist => exact (hsame hist).elim
    | caches secs hist => exact absurd ⟨_, _, hist⟩ (ho.not_caches (k := _))
    | @reseals j _ _ _ hopens record =>
      obtain ⟨rfl, rfl⟩ := ho.unique hopens
      -- a failure that is recorded changes the count
      have hcount := ThrottleTracker.failures_recordFailure m.before.throttle (SecretId.key C j)
        (SecretId.key C j) m.input.now
      rw [show m.before.throttle.recordFailure _ _ = m.after.throttle from record.symm, ht,
        if_pos rfl] at hcount
      simp at hcount
    | unlocks hk hx hist => exact (hsame hist).elim
    | again hk hx hist => exact (hsame hist).elim

theorem awaits_opened {kind : Kind} {j : Nat} {x : Phase} (h : Awaits C s a j)
    (hx : Prog.Along (Attempt C kind) .fresh (own j a) x) :
    ∃ k z, x = .opened k (.error z) ∧ s = SecretId.key C k := by
  obtain ⟨w, m, k, z, hown, ho, hs, ht⟩ := h
  rw [hown] at hx
  exact ⟨k, z, along_opened hx ho ht, hs⟩

theorem Awaits.keeps {j : Nat} (h : Awaits C s a j) (hij : i ≠ j) :
    Awaits C s (a ++ [(i, m)]) j := by
  obtain ⟨w, n, k, z, hown, ho⟩ := h
  exact ⟨w, n, k, z, by rw [own_append, own_cons_ne hij, own_nil, List.append_nil, hown], ho⟩

/-- The two regions of `unlock_compartment`. -/
theorem unlock_second {A : Vault → In → Prop} {c pw : String} {id : Uuid} {w w' : List Region}
    {q : Op Reply} (hid : parseUuid C c = .ok id) (hlen : w.length = 1)
    (h : Prog.Walk A ((Call.unlockCompartment c pw).run C) (w ++ m :: w') q) :
    ∃ m₁, w = [m₁] ∧ Looks m₁ ∧
      m₁.before.throttle.check (SecretId.compartment C id) m₁.input.now = .ok () ∧
      m.after.throttle = match masterVerdict C m.before.state id pw with
        | none => m.before.throttle
        | some ok => recorded m.before.throttle (SecretId.compartment C id) m.input.now ok := by
  obtain ⟨m₁, rfl⟩ := List.length_eq_one_iff.1 hlen
  simp only [Call.run, replying, unlockCompartment, hid] at h
  cases h with
  | @cons _ _ v e _ _ ha h =>
    simp only [Vault.enter_throttle] at h
    refine ⟨_, rfl, rfl, ?_⟩
    cases hc : v.throttle.check (SecretId.compartment C id) e.now with
    | error x =>
      rw [hc] at h
      cases h
    | ok _ =>
      rw [hc] at h
      cases h with
      | @cons _ _ v₂ e₂ _ _ ha₂ h =>
        exact ⟨rfl, (unlockRegion_counts (C := C) id pw e₂ (v₂.enter e₂)).2⟩

/-! ## One move of an interleaving -/

/-- What a move does to the entry of `s`: nothing, unless a passphrase is found
wrong that is to be recorded; a failure is recorded; or the entry goes. -/
inductive Effect (C : Crates) (calls : List Call) (s : SecretId) (a : List (Nat × Region)) (i : Nat)
    (m : Region) : Prop
  | kept (entry : m.after.throttle.states.get s = m.before.throttle.states.get s)
      (settled : ¬ Awaits C s a i)
      (wrong : VerifiesAt C calls s a i m false → Awaits C s (a ++ [(i, m)]) i)
  | failed (record : m.after.throttle = m.before.throttle.recordFailure s m.input.now)
      (once : Awaits C s a i → ¬ VerifiesAt C calls s a i m false)
  | cleared (record : m.after.throttle.states.get s = none) (settled : ¬ Awaits C s a i)
      (right : ¬ VerifiesAt C calls s a i m false)

theorem trace_unlock {c pw : String} {id : Uuid}
    (h : Pool.Trace Vault.Admits (started C v calls) (a ++ (i, m) :: b) p)
    (hcall : calls[i]? = some (.unlockCompartment c pw)) (hid : parseUuid C c = .ok id)
    (hlen : (own i a).length = 1) :
    ∃ m₁, own i a = [m₁] ∧ Looks m₁ ∧
      m₁.before.throttle.check (SecretId.compartment C id) m₁.input.now = .ok () ∧
      m.after.throttle = match masterVerdict C m.before.state id pw with
        | none => m.before.throttle
        | some ok => recorded m.before.throttle (SecretId.compartment C id) m.input.now ok := by
  obtain ⟨q, -, hw⟩ := h.walk (started_call hcall)
  rw [own_append, own_cons_self] at hw
  exact unlock_second hid hlen hw

/-- A record leaves the entries of the other secrets. -/
theorem get_recorded {t : ThrottleTracker} {s' : SecretId} {now : Nat} {ok : Bool} (h : s ≠ s') :
    (recorded t s' now ok).states.get s = t.states.get s := by
  cases ok with
  | true => exact ThrottleTracker.get_recordSuccess_ne _ h
  | false => exact ThrottleTracker.get_recordFailure_ne _ _ h

/-- A record by a call that awaits none for `s`. -/
theorem effect_recorded {s' : SecretId} {ok : Bool} (settled : ¬ Awaits C s a i)
    (record : m.after.throttle = recorded m.before.throttle s' m.input.now ok)
    (agrees : VerifiesAt C calls s a i m false → s = s' ∧ ok = false) : Effect C calls s a i m := by
  by_cases hs : s = s'
  · subst hs
    cases ok with
    | true =>
      refine .cleared ?_ settled fun hv => by cases (agrees hv).2
      rw [record]
      exact ThrottleTracker.get_recordSuccess_self _ _
    | false => exact .failed record fun h => absurd h settled
  · refine .kept ?_ settled fun hv => absurd (agrees hv).1 hs
    rw [record]
    exact get_recorded hs

/-- **What one move does.** -/
theorem move_effect (h : Pool.Trace Vault.Admits (started C v calls) (a ++ (i, m) :: b) p) :
    Effect C calls s a i m := by
  obtain ⟨call, x, y, hcall, hx, hm⟩ := trace_attempt h
  have hsettled : x.Settled → ¬ Awaits C s a i := by
    rintro hs haw
    obtain ⟨k, z, rfl, -⟩ := awaits_opened haw hx
    exact hs
  -- what a call finds wrong, it finds in a master blob or in the blob of a key
  by_cases hmaster : ∃ c pw id, call = .unlockCompartment c pw ∧ parseUuid C c = .ok id ∧
      (own i a).length = 1 ∧ masterVerdict C m.before.state id pw = some false ∧
        s = SecretId.compartment C id
  · obtain ⟨c, pw, id, rfl, hid, hlen, hverdict, rfl⟩ := hmaster
    obtain ⟨m₁, hown, hlook, -, hrecord⟩ := trace_unlock h hcall hid hlen
    rw [hverdict] at hrecord
    refine .failed hrecord fun haw => ?_
    obtain ⟨w, m', k, z, hown', ho, -⟩ := haw
    obtain ⟨-, hlast⟩ :=
      List.append_inj' (show [] ++ [m₁] = w ++ [m'] from hown.symm.trans hown') rfl
    cases hlast
    exact absurd ho ((untouched_of_looks hlook).unopened k _)
  · have hwrong : VerifiesAt C calls s a i m false → ∃ k z, OpensAs m k (.error z) ∧
        s = SecretId.key C k := by
      rintro ⟨call', hcall', hv⟩
      obtain rfl := Option.some.inj (hcall.symm.trans hcall')
      generalize hok : false = ok at hv
      cases hv with
      | @key k r ho =>
        cases r with
        | ok sk => cases hok
        | error z => exact ⟨k, z, ho, rfl⟩
      | master hc hid hlen hverdict =>
        subst hok
        exact absurd ⟨_, _, _, hc, hid, hlen, hverdict, rfl⟩ hmaster
    have hquiet : (∀ k r, ¬ OpensAs m k r) → ¬ VerifiesAt C calls s a i m false := by
      intro hno hv
      obtain ⟨k, z, ho, -⟩ := hwrong hv
      exact hno k _ ho
    have hidle : x.Settled → Idles m.before m.after → Effect C calls s a i m := fun hs hi =>
      .kept (by rw [hi.throttle]) (hsettled hs) fun hv => absurd hv (hquiet hi.untouched.unopened)
    cases hm with
    | idle hs hi => exact hidle hs hi
    | check hu hi => exact hidle hu.settled hi
    | @opens k _ _ r ho throttle =>
      refine .kept (by rw [throttle]) (hsettled trivial) fun hv => ?_
      obtain ⟨j, z, ho', hs⟩ := hwrong hv
      exact ⟨own i a, m, j, z, by rw [own_append, own_cons_self, own_nil], ho', hs, throttle⟩
    | @records k _ r hist record =>
      by_cases hs : s = SecretId.key C k
      · subst hs
        cases r with
        | error z => exact .failed record fun _ => hquiet (not_opensAs_of_hist hist)
        | ok sk =>
          refine .cleared ?_ (fun haw => ?_) (hquiet (not_opensAs_of_hist hist))
          · rw [record]
            exact ThrottleTracker.get_recordSuccess_self _ _
          · obtain ⟨j, z, hj, -⟩ := awaits_opened haw hx
            cases hj
      · refine .kept (by rw [record, get_recorded hs]) (fun haw => ?_)
          fun hv => absurd hv (hquiet (not_opensAs_of_hist hist))
        obtain ⟨j, z, hj, hsj⟩ := awaits_opened haw hx
        cases hj
        exact hs hsj
    | caches secs hist throttle =>
      refine .kept (by rw [throttle]) (hsettled trivial) fun hv => ?_
      obtain ⟨k, z, ho, -⟩ := hwrong hv
      exact absurd ⟨_, _, hist⟩ ho.not_caches
    | @reseals k _ _ r ho record =>
      refine effect_recorded (hsettled trivial) record fun hv => ?_
      obtain ⟨j, z, ho', rfl⟩ := hwrong hv
      obtain ⟨rfl, rfl⟩ := ho.unique ho'
      exact ⟨rfl, rfl⟩
    | unlocks hk hu hist record =>
      exact effect_recorded (hsettled hu.settled) record fun hv =>
        absurd hv (hquiet (not_opensAs_of_hist hist))
    | again hk hs hist record =>
      exact effect_recorded (hsettled hs) record fun hv =>
        absurd hv (hquiet (not_opensAs_of_hist hist))

theorem move_threshold (h : Pool.Trace Vault.Admits (started C v calls) (a ++ (i, m) :: b) p) :
    m.after.throttle.failureThreshold = m.before.throttle.failureThreshold := by
  obtain ⟨call, x, y, -, -, hm⟩ := trace_attempt h
  have hrecord : ∀ {s : SecretId} {ok : Bool},
      m.after.throttle = recorded m.before.throttle s m.input.now ok →
      m.after.throttle.failureThreshold = m.before.throttle.failureThreshold := by
    intro s ok ht
    rw [ht]
    cases ok <;> rfl
  cases hm with
  | idle hs hi => rw [hi.throttle]
  | check hu hi => rw [hi.throttle]
  | opens ho throttle => rw [throttle]
  | caches secs hist throttle => rw [throttle]
  | records hist record => exact hrecord record
  | reseals ho record => exact hrecord record
  | unlocks hk hu hist record => exact hrecord record
  | again hk hs hist record => exact hrecord record

/-! ## While a secret is not locked -/

/-- Where there is no lockout, fewer failures are on record than would lock. -/
structure Unlocked (s : SecretId) (v : Vault) : Prop where
  positive : 0 < v.throttle.failureThreshold
  below : v.throttle.lockedUntil s = none → v.throttle.failures s < v.throttle.failureThreshold

/-- The wrong passphrases since the last clearing are on record, or a call each
is about to record them. -/
structure Bounded (C : Crates) (calls : List Call) (s : SecretId) (a : List (Nat × Region))
    (v : Vault) :
    Prop where
  unlocked : Unlocked s v
  count : v.throttle.lockedUntil s = none → ∃ js : List Nat, js.Nodup ∧ (∀ j ∈ js, Awaits C s a j) ∧
    wrongs C calls s a ≤ (v.throttle.failures s).toNat + js.length

theorem lockedUntil_of_get {t t' : ThrottleTracker} (h : t'.states.get s = t.states.get s) :
    t'.lockedUntil s = t.lockedUntil s ∧ t'.failures s = t.failures s := by
  unfold ThrottleTracker.lockedUntil ThrottleTracker.failures
  rw [h]
  exact ⟨rfl, rfl⟩

/-- A failure that does not lock. -/
theorem unlocked_recordFailure {t : ThrottleTracker} {now : Nat}
    (h : (t.recordFailure s now).lockedUntil s = none) :
    t.lockedUntil s = none ∧ t.failures s + 1 < t.failureThreshold := by
  rw [ThrottleTracker.lockedUntil_recordFailure_self] at h
  split at h
  · cases h
  · rename_i hlt
    exact ⟨h, UInt32.not_le.1 hlt⟩

theorem toNat_succ_of_lt {n k : UInt32} (h : n < k) : (n + 1).toNat = n.toNat + 1 := by
  have hn := UInt32.lt_iff_toNat_lt.1 h
  have hk := k.toNat_lt
  rw [UInt32.toNat_add]
  exact Nat.mod_eq_of_lt (by simpa using (by omega : n.toNat + 1 < 2 ^ 32))

/-- A failure is recorded by a call that awaited it, or by another one. -/
theorem Bounded.failed (ha : Bounded C calls s a m.before)
    (record : m.after.throttle = m.before.throttle.recordFailure s m.input.now)
    (once : Awaits C s a i → ¬ VerifiesAt C calls s a i m false)
    (hunlocked : m.after.throttle.lockedUntil s = none) : ∃ js : List Nat, js.Nodup ∧
      (∀ j ∈ js, Awaits C s (a ++ [(i, m)]) j) ∧
      wrongs C calls s (a ++ [(i, m)]) ≤ (m.after.throttle.failures s).toNat + js.length := by
  rw [record] at hunlocked
  obtain ⟨hbefore, -⟩ := unlocked_recordFailure hunlocked
  obtain ⟨js, hnodup, hjs, hle⟩ := ha.count hbefore
  have hcount : (m.after.throttle.failures s).toNat = (m.before.throttle.failures s).toNat + 1 := by
    rw [record, ThrottleTracker.failures_recordFailure, if_pos rfl]
    exact toNat_succ_of_lt (ha.unlocked.below hbefore)
  refine ⟨js.erase i, hnodup.erase i, fun j hj => ?_, ?_⟩
  · obtain ⟨hne, hj⟩ := hnodup.mem_erase_iff.1 hj
    exact (hjs j hj).keeps (Ne.symm hne)
  · rw [hcount, List.length_erase]
    by_cases hi : i ∈ js
    · have hother := wrongs_other (m := m) (once (hjs i hi))
      have hpos := List.length_pos_of_mem hi
      rw [if_pos hi]
      omega
    · rw [if_neg hi]
      by_cases hv : VerifiesAt C calls s a i m false
      · have := wrongs_verifies hv
        omega
      · have := wrongs_other hv
        omega

/-- **One move keeps the bound.** -/
theorem Bounded.step (h : Pool.Trace Vault.Admits (started C v calls) (a ++ (i, m) :: b) p)
    (ha : Bounded C calls s a m.before) : Bounded C calls s (a ++ [(i, m)]) m.after := by
  have hthreshold := move_threshold h
  have hpos : 0 < m.after.throttle.failureThreshold := hthreshold ▸ ha.unlocked.positive
  have hkeeps : ∀ {js : List Nat}, (∀ j ∈ js, Awaits C s a j) → ¬ Awaits C s a i →
      ∀ j ∈ js, i ≠ j ∧ Awaits C s (a ++ [(i, m)]) j := by
    intro js hjs hi j hj
    have hij : i ≠ j := by
      rintro rfl
      exact hi (hjs i hj)
    exact ⟨hij, (hjs j hj).keeps hij⟩
  cases move_effect (s := s) h with
  | kept entry settled wrong =>
    obtain ⟨hlock, hfailures⟩ := lockedUntil_of_get entry
    refine ⟨⟨hpos, fun hnone => ?_⟩, fun hnone => ?_⟩
    · rw [hfailures, hthreshold]
      exact ha.unlocked.below (hlock ▸ hnone)
    · obtain ⟨js, hnodup, hjs, hle⟩ := ha.count (hlock ▸ hnone)
      have hjs' := hkeeps hjs settled
      rw [hfailures]
      by_cases hv : VerifiesAt C calls s a i m false
      · refine ⟨i :: js, List.nodup_cons.2 ⟨fun hi => (hjs' i hi).1 rfl, hnodup⟩,
          fun j hj => ?_, ?_⟩
        · rcases List.mem_cons.1 hj with rfl | hj
          · exact wrong hv
          · exact (hjs' j hj).2
        · have := wrongs_verifies hv
          rw [List.length_cons]
          omega
      · exact ⟨js, hnodup, fun j hj => (hjs' j hj).2, Nat.le_trans (wrongs_other hv) hle⟩
  | failed record once =>
    refine ⟨⟨hpos, fun hnone => ?_⟩, ha.failed record once⟩
    rw [record] at hnone ⊢
    rw [ThrottleTracker.failures_recordFailure, if_pos rfl]
    exact (unlocked_recordFailure hnone).2
  | cleared record settled right =>
    have hfailures : m.after.throttle.failures s = 0 := by
      unfold ThrottleTracker.failures
      rw [record]
      rfl
    by_cases hbefore : m.before.throttle.states.get s = none
    · obtain ⟨hlock, hsame⟩ := lockedUntil_of_get (record.trans hbefore.symm)
      refine ⟨⟨hpos, fun hnone => ?_⟩, fun hnone => ?_⟩
      · rw [hsame, hthreshold]
        exact ha.unlocked.below (hlock ▸ hnone)
      · obtain ⟨js, hnodup, hjs, hle⟩ := ha.count (hlock ▸ hnone)
        rw [hsame]
        exact ⟨js, hnodup, fun j hj => (hkeeps hjs settled j hj).2,
          Nat.le_trans (wrongs_other right) hle⟩
    · refine ⟨⟨hpos, fun _ => by rwa [hfailures]⟩, fun _ => ⟨[], List.nodup_nil, by simp, ?_⟩⟩
      rw [wrongs_clears ⟨hbefore, record⟩]
      exact Nat.zero_le _

theorem wrongs_bounded (hv : Unlocked s v) : ∀ {t : List (Nat × Region)}
    {p : Pool In Vault FacadeError Reply}, Pool.Trace Vault.Admits (started C v calls) t p →
      Bounded C calls s t p.shared := by
  intro t
  induction t using List.reverseRecOn with
  | nil =>
    intro p h
    cases h
    exact ⟨hv, fun _ => ⟨[], List.nodup_nil, by simp, Nat.zero_le _⟩⟩
  | append_singleton t x ih =>
    obtain ⟨i, m⟩ := x
    intro p h
    obtain ⟨q, hq, hlast⟩ := h.split
    have hbefore : m.before = q.shared := hlast.chain.1
    rw [h.last]
    exact Bounded.step h (hbefore ▸ ih hq)

/-- In every state that calls lead to, one after the other. -/
theorem run_unlocked {v₀ v : Vault} {l : List Turn} (h0 : Created C v₀ ∨ Opened C v₀)
    (h : Run C Vault.Admits v₀ l v) (s : SecretId) : Unlocked s v := by
  refine h.invariant (I := Unlocked s) ?_ fun call v es r v' hv hx => ?_
  · obtain ⟨now, hf⟩ := start_fresh h0
    have hthrottle :
        Unlocked s ⟨v₀.state, v₀.retention, ThrottleTracker.new, v₀.disk, v₀.clock, v₀.hist⟩ :=
      ⟨by show (0 : UInt32) < 5; decide, fun _ => by show (0 : UInt32) < 5; decide⟩
    rwa [← hf.throttle] at hthrottle
  · obtain ⟨w, hw, hc, -⟩ := Prog.exec_walk hx
    have hmap : (w.map fun m => ((0 : Nat), m)).map Prod.snd = w := by simp [Function.comp_def]
    have hown : own 0 (w.map fun m => ((0 : Nat), m)) = w := own_map_self 0 w
    obtain ⟨p, hp, hshared⟩ : ∃ p, Pool.Trace Vault.Admits (started C _ [call])
        (w.map fun m => ((0 : Nat), m)) p ∧ p.shared = _ := started_trace (hmap.symm ▸ hc) (by simp)
      fun i c hi => by
        cases i with
        | zero => cases hi; exact ⟨_, hown.symm ▸ hw⟩
        | succ i => cases hi
    exact hshared ▸ (wrongs_bounded hv hp).unlocked

/-! ## Verifications -/

/-- A call is let pass within two regions before it verifies. -/
theorem verified_checked {ok : Bool}
    (h : Pool.Trace Vault.Admits (started C v calls) (a ++ (i, m) :: b) p)
    (hv : VerifiesAt C calls s a i m ok) :
    ∃ a₁ c a₂, a = a₁ ++ (i, c) :: a₂ ∧ (own i a₂).length ≤ 1 ∧
      c.before.throttle.check s c.input.now = .ok () ∧ c.after.throttle = c.before.throttle := by
  obtain ⟨call, hcall, hv⟩ := hv
  cases hv with
  | @key k r ho =>
    obtain ⟨call', x, y, -, hx, hm⟩ := trace_attempt h
    have hcleared : ∃ c n, x = .cleared k c n ∧ n ≤ 1 := by
      have hsame : m.after.hist = m.before.hist → False := fun hh => not_opensAs_of_hist hh _ _ ho
      cases hm with
      | idle hs hi => exact absurd ho (hi.untouched.unopened _ _)
      | check hu hi => exact absurd ho (hi.untouched.unopened _ _)
      | opens ho' =>
        obtain ⟨rfl, -⟩ := ho.unique ho'
        exact ⟨_, _, rfl, Nat.le_refl 1⟩
      | records hist => exact (hsame hist).elim
      | caches secs hist => exact absurd ⟨_, _, hist⟩ (ho.not_caches (k := _))
      | reseals ho' =>
        obtain ⟨rfl, -⟩ := ho.unique ho'
        exact ⟨_, _, rfl, Nat.zero_le 1⟩
      | unlocks hk hu hist => exact (hsame hist).elim
      | again hk hs hist => exact (hsame hist).elim
    obtain ⟨c, n, rfl, hn⟩ := hcleared
    obtain ⟨w₁, w₂, hown, hlen, hcheck, hthrottle⟩ := along_cleared hx
    obtain ⟨a₁, a₂, rfl, -, hown₂⟩ := own_split hown
    exact ⟨a₁, c, a₂, rfl, by rw [hown₂, hlen]; exact hn, hcheck, hthrottle⟩
  | master hc hid hlen hverdict =>
    subst hc
    obtain ⟨c, hown, hlook, hcheck, -⟩ := trace_unlock h hcall hid hlen
    obtain ⟨a₁, a₂, rfl, -, hown₂⟩ := own_split (show own _ _ = [] ++ c :: [] from hown)
    exact ⟨a₁, c, a₂,
      rfl, by rw [hown₂]; exact Nat.zero_le 1, hcheck, (untouched_of_looks hlook).throttle⟩

/-- A lockout was there before, or a move has set it. -/
theorem chain_locks {u : Nat} {x' : Vault} (hu : x'.throttle.lockedUntil s = some u) :
    ∀ {t : List (Nat × Region)} {x : Vault}, Chain x (t.map Prod.snd) x' →
      x.throttle.lockedUntil s = some u ∨ ∃ y ∈ t, Locks s y.2 u
  | [], _, hc => .inl (by rw [← show x' = _ from hc]; exact hu)
  | (i, m) :: t, x, ⟨hm, hc⟩ => by
    rcases chain_locks hu hc with hafter | ⟨y, hy, hlocks⟩
    · by_cases hbefore : m.before.throttle.lockedUntil s = some u
      · exact .inl (hm ▸ hbefore)
      · exact .inr ⟨(i, m), List.mem_cons_self .., hbefore, hafter⟩
    · exact .inr ⟨y, List.mem_cons_of_mem _ hy, hlocks⟩

end

/-- **Lockouts cannot be outrun.** In an interleaving of calls, from any state
that earlier calls have led to, no passphrase for a secret is verified before
its `locked_until`, and at most `failure_threshold` wrong ones before the first
backoff has elapsed, if no call verifies after another one has locked the
secret since it was let pass, nor while failures that are not recorded yet
would have locked it. -/
theorem lockouts_hold {C : Crates} {v₀ v : Vault} {l : List Turn} (h0 : Created C v₀ ∨ Opened C v₀)
    (hr : Run C Vault.Admits v₀ l v) {calls : List Call} {t : List (Nat × Region)}
    {p : Pool In Vault FacadeError Reply} (h : Pool.Trace Vault.Admits (started C v calls) t p)
    (hclock : t.Pairwise fun x y => x.2.input.now ≤ y.2.input.now) {s : SecretId}
    (hno : ¬ Raced C calls s t) : LockoutsHold C calls s t := by
  rintro a i m b ok rfl hv
  have helapsed : ∀ u, m.before.throttle.lockedUntil s = some u → u ≤ m.input.now := by
    intro u hu
    obtain ⟨a₁, c, a₂, rfl, hnear, hcheck, hthrottle⟩ := verified_checked h hv
    by_contra hrunning
    obtain ⟨q, hq, hrest⟩ := h.split
    obtain ⟨q₁, hq₁, hq₂⟩ := hq.split
    have hchain : Chain c.after (a₂.map Prod.snd) q.shared := hq₂.chain.2
    rw [← show m.before = q.shared from hrest.chain.1] at hchain
    rcases chain_locks hu hchain with hafter | ⟨⟨j, x⟩, hx, hlocks⟩
    · -- the lockout that the check let pass
      rw [hthrottle] at hafter
      have hle := ThrottleTracker.check_ok.1 hcheck u hafter
      have hnow : c.input.now ≤ m.input.now := by
        rw [List.append_assoc] at hclock
        have hlater := (List.pairwise_append.1 hclock).2.1
        exact (List.pairwise_cons.1 hlater).1 (i, m) (by simp)
      omega
    · exact hno (.stale rfl hcheck hnear hv hx hlocks (Nat.lt_of_not_le hrunning))
  refine ⟨helapsed, fun hmany => ?_⟩
  cases hlock : m.before.throttle.lockedUntil s with
  | some u => exact ⟨u, rfl, helapsed u hlock⟩
  | none =>
    obtain ⟨q, hq, hrest⟩ := h.split
    have hbounded := wrongs_bounded (run_unlocked h0 hr s) hq
    rw [← show m.before = q.shared from hrest.chain.1] at hbounded
    obtain ⟨js, hnodup, hjs, hle⟩ := hbounded.count hlock
    exact absurd (.unrecorded rfl hv hlock hnodup hjs (Nat.le_trans hmany hle)) hno

/-! ## Schedules that do not race -/

/-- What lockouts depend on in a move: the call, whether it verifies, the
lockout before and after it, and the time. -/
structure Mark where
  call : Nat
  verifies : Bool
  before : Option Nat
  after : Option Nat
  now : Nat
deriving DecidableEq

def mark (s : SecretId) (y : Nat × Region) : Mark :=
  ⟨y.1, decide (y.2.before.hist.length < y.2.after.hist.length), y.2.before.throttle.lockedUntil s,
    y.2.after.throttle.lockedUntil s, y.2.input.now⟩

theorem mark_opens {s : SecretId} {i : Nat} {m : Region} {id : Uuid} {r : VaultResult Bytes}
    (h : OpensAs m id r) : (mark s (i, m)).verifies = true := by
  obtain ⟨b, pw, ty, label, st, hh⟩ := h
  simp [mark, hh]

/-- A move that verifies comes after the lockouts that are set before it. -/
def Mark.Elapsed (x y : Mark) : Prop :=
  y.verifies = true → x.before ≠ x.after → x.after.all (fun u => decide (u ≤ y.now)) = true

instance (x y : Mark) : Decidable (x.Elapsed y) := by unfold Mark.Elapsed; infer_instance

/-- A verification is followed by the record of the same call. -/
def Mark.Recorded (x y : Mark) : Prop := x.verifies = true → y.call = x.call ∧ y.verifies = false

instance (x y : Mark) : Decidable (x.Recorded y) := by unfold Mark.Recorded; infer_instance

/-- Calls with passphrases for keys that record each verification at once, and
verify when the lockouts have elapsed. -/
theorem not_raced {C : Crates} {v : Vault} {calls : List Call} {t : List (Nat × Region)}
    {p : Pool In Vault FacadeError Reply} {s : SecretId} (hv : Unlocked s v)
    (h : Pool.Trace Vault.Admits (started C v calls) t p)
    (hcalls : ∀ c pw, Call.unlockCompartment c pw ∉ calls)
    (helapsed : (t.map (mark s)).Pairwise Mark.Elapsed)
    (hrecorded : (t.map (mark s)).IsChain Mark.Recorded) : ¬ Raced C calls s t := by
  have hverifies : ∀ {a i m ok}, VerifiesAt C calls s a i m ok →
      (mark s (i, m)).verifies = true := by
    rintro a i m ok ⟨call, hcall, hver⟩
    cases hver with
    | key ho => exact mark_opens ho
    | master hc => exact absurd (List.mem_iff_getElem?.2 ⟨i, hc ▸ hcall⟩) (hcalls _ _)
  rintro (@⟨a₁, a₂, b, i, j, u, c, x, m, ok, split, check, near, verifies, mem, locks, running⟩ |
    @⟨a, b, i, m, ok, js, split, verifies, unlocked, nodup, awaits, many⟩)
  · rw [split, List.pairwise_map, List.pairwise_append] at helapsed
    have hle :=
      helapsed.2.2 (j, x) (by simp [mem]) (i, m) (List.mem_cons_self ..) (hverifies verifies)
      (fun hsame => locks.1 (hsame.trans locks.2))
    rw [show (mark s (j, x)).after = some u from locks.2] at hle
    exact absurd running (Nat.not_lt.2 (of_decide_eq_true hle))
  · have hnone : js = [] := by
      refine List.eq_nil_iff_forall_not_mem.2 fun j hj => ?_
      obtain ⟨w, m', k, y, hown, ho, -⟩ := awaits j hj
      obtain ⟨a₁, a₂, rfl, -, hown₂⟩ := own_split hown
      rw [split, List.append_assoc, List.cons_append, List.isChain_map] at hrecorded
      cases a₂ with
      | nil =>
        have hnext := ((List.isChain_append_cons_cons.1 hrecorded).2.1 (mark_opens ho)).2
        rw [hverifies verifies] at hnext
        cases hnext
      | cons z a₂ =>
        obtain ⟨l, n⟩ := z
        have hnext : l = j := ((List.isChain_append_cons_cons.1 hrecorded).2.1 (mark_opens ho)).1
        rw [hnext, own_cons_self] at hown₂
        cases hown₂
    rw [hnone, List.length_nil, Nat.add_zero] at many
    obtain ⟨q, hq, hrest⟩ := (split ▸ h).split
    have hbelow := (wrongs_bounded hv hq).unlocked.below
    rw [← show m.before = q.shared from hrest.chain.1] at hbelow
    exact absurd (UInt32.lt_iff_toNat_lt.1 (hbelow unlocked)) (Nat.not_lt.2 many)

/-! ## Six calls at once -/

/-- The wrong passphrase for the imported passkey, found wrong. -/
def mistype (b : Bytes) (x : VaultError) (v : Vault) : Vault :=
  v.log (.opened (Uuid.rep 1) b (utf8 "no") .ed25519 "passkey" (.error x) v.state)

/-- The vault after `n` calls that found it wrong and recorded that. -/
noncomputable def mistypedTimes (b : Bytes) (x : VaultError) (v : Vault) : Nat → Vault
  | 0 => v
  | n + 1 => (mistype b x (mistypedTimes b x v n)).setThrottle
      ((mistypedTimes b x v n).throttle.recordFailure (SecretId.key Crates.symbolic (Uuid.rep 1)) 0)

/-- Call `i` verifies, and records. -/
noncomputable def roundMoves (b : Bytes) (x : VaultError) (v : Vault) (i : Nat) :
    List (Nat × Region) :=
  [(i, ⟨mistypedTimes b x v i, sampleNext, mistype b x (mistypedTimes b x v i)⟩),
    (i, ⟨mistype b x (mistypedTimes b x v i), sampleNext, mistypedTimes b x v (i + 1)⟩)]

/-- Six calls are let pass; five of them verify and record, then the sixth verifies. -/
noncomputable def outrunMoves (b : Bytes) (x : VaultError) (v : Vault) : List (Nat × Region) :=
  [0, 1, 2, 3, 4, 5].flatMap (fun i => [(i, ⟨v, sampleNext, v⟩), (i, ⟨v, sampleNext, v⟩)]) ++
    [0, 1, 2, 3, 4].flatMap (roundMoves b x v) ++
    [(5, ⟨mistypedTimes b x v 5, sampleNext, mistype b x (mistypedTimes b x v 5)⟩)]

section
variable {v : Vault} {n : UInt32} {t : Option OffsetDateTime} {b : Bytes} {x : VaultError}

theorem mistypedTimes_clock (b : Bytes) (x : VaultError) (v : Vault) :
    ∀ n, (mistypedTimes b x v n).clock = v.clock
  | 0 => rfl
  | n + 1 => mistypedTimes_clock b x v n

theorem mistypedTimes_failures (hv : v.throttle = ThrottleTracker.new) : ∀ n,
    (mistypedTimes b x v n).throttle.failures (SecretId.key Crates.symbolic (Uuid.rep 1)) =
    UInt32.ofNat n
  | 0 => by
    show v.throttle.failures _ = _
    rw [hv]
    rfl
  | n + 1 => by
    refine (ThrottleTracker.failures_recordFailure _ _ _ _).trans ?_
    rw [if_pos rfl, mistypedTimes_failures hv n, UInt32.ofNat_add]
    rfl

theorem mistypedTimes_throttle (hv : v.throttle = ThrottleTracker.new) : ∀ n, ∃ states,
    (mistypedTimes b x v n).throttle = ⟨5, 1000000000, 300000000000, states⟩
  | 0 => ⟨∅, hv⟩
  | n + 1 => by
    obtain ⟨states, h⟩ := mistypedTimes_throttle hv n
    exact ⟨_, by rw [mistypedTimes, Vault.setThrottle_throttle, h]; rfl⟩

theorem mistypedTimes_lockedUntil (hv : v.throttle = ThrottleTracker.new) : ∀ n, n < 5 →
    (mistypedTimes b x v n).throttle.lockedUntil (SecretId.key Crates.symbolic (Uuid.rep 1)) = none
  | 0, _ => by
    show v.throttle.lockedUntil _ = none
    rw [hv]
    rfl
  | n + 1, hn => by
    obtain ⟨states, h⟩ := mistypedTimes_throttle (b := b) (x := x) hv n
    have hfailures := mistypedTimes_failures (b := b) (x := x) hv n
    have hbelow : ¬ UInt32.ofNat n + 1 ≥ 5 := by
      have hlt : n < 4 := by omega
      interval_cases n <;> decide
    rw [mistypedTimes, Vault.setThrottle_throttle, ThrottleTracker.lockedUntil_recordFailure_self,
      hfailures,
      show (mistypedTimes b x v n).throttle.failureThreshold = 5 by rw [h], if_neg hbelow]
    exact mistypedTimes_lockedUntil hv n (by omega)

/-- The fifth record locks the key for a second. -/
theorem mistyped_locked (hv : v.throttle = ThrottleTracker.new) :
    (mistypedTimes b x v 5).throttle.lockedUntil (SecretId.key Crates.symbolic (Uuid.rep 1)) =
      some 1000000000 := by
  obtain ⟨states, h⟩ := mistypedTimes_throttle (b := b) (x := x) hv 4
  have hfailures := mistypedTimes_failures (b := b) (x := x) hv 4
  rw [mistypedTimes, Vault.setThrottle_throttle, ThrottleTracker.lockedUntil_recordFailure_self,
    hfailures, h,
    if_pos (show UInt32.ofNat 4 + 1 ≥ 5 by decide)]
  show some (0 + min ((ThrottleTracker.checkedMul 1000000000
    (1 <<< min (UInt32.ofNat 4 + 1 - 5) 30)).getD 300000000000) 300000000000) = some 1000000000
  decide

theorem mistypedTimes_state (b : Bytes) (x : VaultError) (v : Vault) :
    ∀ n, (mistypedTimes b x v n).state = v.state
  | 0 => rfl
  | n + 1 => mistypedTimes_state b x v n

/-- A call with the wrong passphrase makes the moves of `decrypt_key`. -/
theorem wrong_walk (h : Imported v n t b) {blob : KeyBlob}
    (hb : KeyBlobOf.fromBytes Crates.symbolic b = .ok blob)
    (hx : keyblobOpen Crates.symbolic blob (utf8 "no") (Uuid.rep 1) .ed25519 "passkey" = .error x)
    {v₀ v₁ v₂ v₃ v₄ : Vault} {e : In} {now : Nat} (he : e.Still now) (h₀ : v₀.clock ≤ now)
    (henter : v₁ = v₀.enter e) (h₂ : v₂.clock = now) (hstate : v₂.state = v.state)
    (h₃ : v₃.clock = now) (h₄ : v₄.clock = now)
    (ht : v₁.throttle.check (SecretId.key Crates.symbolic (Uuid.rep 1)) now = .ok ()) :
    Prog.Walk Vault.Admits ((unlockKeyCall "no").run Crates.symbolic)
      (triedMoves Crates.symbolic v₀ v₁ v₂ v₃ v₄ e (Uuid.rep 1) b "no" .ed25519 "passkey"
        (.error x))
      (.done (.error (.failed "incorrect passphrase"))) := by
  obtain ⟨-, -, -, -, -, hl⟩ := imported_wrong h
  have hmoves := decryptKey_moves he h₀ henter h₂ h₃ h₄ ht (hstate.symm ▸ hl) hb hx
  refine walk_replying.2 ⟨.error (.failed "incorrect passphrase"), rfl, ?_⟩
  unfold unlockKey
  rw [uuidParse_symbolic, uuidParse_symbolic]
  exact Prog.walk_bind.2 (.inl ⟨_, rfl, hmoves⟩)

/-- Each of the calls that are let pass at once. -/
theorem mistyped_walk (h : Imported v n t b) {blob : KeyBlob}
    (hb : KeyBlobOf.fromBytes Crates.symbolic b = .ok blob)
    (hx : keyblobOpen Crates.symbolic blob (utf8 "no") (Uuid.rep 1) .ed25519 "passkey" = .error x)
    (i : Nat) :
    Prog.Walk Vault.Admits ((unlockKeyCall "no").run Crates.symbolic)
      (triedMoves Crates.symbolic v v v (mistypedTimes b x v i)
        (mistype b x (mistypedTimes b x v i)) sampleNext
        (Uuid.rep 1) b "no" .ed25519 "passkey" (.error x))
        (.done (.error (.failed "incorrect passphrase"))) := by
  obtain ⟨-, -, -, -, ht, -⟩ := imported_wrong h
  have hclock := (mistypedTimes_clock b x v i).trans h.clock
  exact wrong_walk h hb hx sampleNext_still (Nat.le_of_eq h.clock)
    (enter_still sampleNext_still h.clock).symm
    h.clock rfl hclock (show (mistype b x (mistypedTimes b x v i)).clock = 0 from hclock) ht

/-- Six calls with a wrong passphrase, the first five of which end. -/
theorem mistyped_trace (h : Imported v n t b) {blob : KeyBlob}
    (hb : KeyBlobOf.fromBytes Crates.symbolic b = .ok blob)
    (hx : keyblobOpen Crates.symbolic blob (utf8 "no") (Uuid.rep 1) .ed25519 "passkey" = .error x)
    {l : List (Nat × Region)} {s' : Vault} (hc : Chain v (l.map Prod.snd) s')
    (hlt : ∀ y ∈ l, y.1 < 6)
    (hrounds : ∀ i < 5, own i l = triedMoves Crates.symbolic v v v (mistypedTimes b x v i)
      (mistype b x (mistypedTimes b x v i)) sampleNext (Uuid.rep 1) b "no" .ed25519 "passkey"
      (.error x))
    (hlast : ∃ q, Prog.Walk Vault.Admits ((unlockKeyCall "no").run Crates.symbolic) (own 5 l) q) :
    ∃ p, Pool.Trace Vault.Admits (started Crates.symbolic v (List.replicate 6 (unlockKeyCall "no")))
    l p := by
  have hsix : ∀ y ∈ l, y.1 < (List.replicate 6 (unlockKeyCall "no")).length := by
    simpa only [List.length_replicate] using hlt
  obtain ⟨p, hp, -⟩ := started_trace hc hsix fun i call hi => by
    obtain ⟨hlt, hget⟩ := List.getElem?_eq_some_iff.1 hi
    rw [List.getElem_replicate] at hget
    rw [List.length_replicate] at hlt
    subst hget
    by_cases hi : i < 5
    · exact ⟨_, (hrounds i hi).symm ▸ mistyped_walk h hb hx i⟩
    · obtain rfl : i = 5 := by omega
      exact hlast
  exact ⟨p, hp⟩

theorem outrun_trace (h : Imported v n t b) {blob : KeyBlob}
    (hb : KeyBlobOf.fromBytes Crates.symbolic b = .ok blob)
    (hx : keyblobOpen Crates.symbolic blob (utf8 "no") (Uuid.rep 1) .ed25519 "passkey" = .error x) :
    ∃ p, Pool.Trace Vault.Admits (started Crates.symbolic v (List.replicate 6 (unlockKeyCall "no")))
      (outrunMoves b x v) p := by
  have hchain : Chain v ((outrunMoves b x v).map Prod.snd)
      (mistype b x (mistypedTimes b x v 5)) := by
    refine ⟨rfl, rfl, rfl, rfl, rfl, rfl, rfl, rfl, rfl, rfl, rfl, rfl, ?_⟩
    exact ⟨rfl, rfl, rfl, rfl, rfl, rfl, rfl, rfl, rfl, rfl, rfl, rfl⟩
  refine mistyped_trace h hb hx hchain (by simp [outrunMoves, roundMoves]) (fun i hi => ?_) ?_
  · interval_cases i <;> rfl
  · obtain ⟨q, hq, -⟩ := Prog.Walk.split
      (show Prog.Walk _ _ (own 5 (outrunMoves b x v) ++ [_]) _ from mistyped_walk h hb hx 5)
    exact ⟨q, hq⟩

end

/-! ## Five calls that lock the key, and one that waits -/

/-- A second later, when the first lockout has elapsed. -/
noncomputable def sampleElapsed : In := { sampleNext with now := 1000000000 }

theorem sampleElapsed_still : sampleElapsed.Still 1000000000 := ⟨rfl, rfl⟩

/-- Five calls are let pass, verify and record; a second later the sixth is let
pass and verifies. -/
noncomputable def heldMoves (b : Bytes) (x : VaultError) (v w : Vault) : List (Nat × Region) :=
  [0, 1, 2, 3, 4].flatMap (fun i => [(i, ⟨v, sampleNext, v⟩), (i, ⟨v, sampleNext, v⟩)]) ++
    [0, 1, 2, 3, 4].flatMap (roundMoves b x v) ++
    [(5, ⟨mistypedTimes b x v 5, sampleElapsed, w⟩), (5, ⟨w, sampleElapsed, w⟩)]

/-- The marks of `heldMoves`, and the sixth verification. -/
def heldMarks : List Mark :=
  [0, 1, 2, 3, 4].flatMap (fun i => [⟨i, false, none, none, 0⟩, ⟨i, false, none, none, 0⟩]) ++
    [0, 1, 2, 3, 4].flatMap (fun i => [⟨i, true, none, none, 0⟩,
      ⟨i, false, none, if i = 4 then some 1000000000 else none, 0⟩]) ++
    [⟨5, false, some 1000000000, some 1000000000, 1000000000⟩,
      ⟨5, false, some 1000000000, some 1000000000, 1000000000⟩,
      ⟨5, true, some 1000000000, some 1000000000, 1000000000⟩]

theorem heldMarks_elapsed : heldMarks.Pairwise Mark.Elapsed := by decide

theorem heldMarks_recorded : heldMarks.IsChain Mark.Recorded := by decide

section
variable {v w : Vault} {n : UInt32} {t : Option OffsetDateTime} {b : Bytes} {x : VaultError}

/-- The marks of one round, the fifth of which locks. -/
theorem round_marks (hv : v.throttle = ThrottleTracker.new) {i : Nat} (hi : i < 5) :
    (roundMoves b x v i).map (mark (SecretId.key Crates.symbolic (Uuid.rep 1))) =
      [⟨i, true, none, none, 0⟩, ⟨i, false, none, if i = 4 then some 1000000000 else none, 0⟩] := by
  have hbefore := mistypedTimes_lockedUntil (b := b) (x := x) hv i hi
  have hafter : (mistypedTimes b x v (i + 1)).throttle.lockedUntil
      (SecretId.key Crates.symbolic (Uuid.rep 1)) = if i = 4 then some 1000000000 else none := by
    split
    · subst i
      exact mistyped_locked hv
    · exact mistypedTimes_lockedUntil hv _ (by omega)
  have hopened : (mistype b x (mistypedTimes b x v i)).hist.length =
      (mistypedTimes b x v i).hist.length + 1 := rfl
  have hrecorded : (mistypedTimes b x v (i + 1)).hist.length =
      (mistype b x (mistypedTimes b x v i)).hist.length := rfl
  have hsame : (mistype b x (mistypedTimes b x v i)).throttle = (mistypedTimes b x v i).throttle :=
    rfl
  simp [roundMoves, mark, hbefore, hafter, hopened, hrecorded, hsame, sampleNext_still.now]

/-- A second after the fifth record the vault is entered again. -/
theorem held_marks (hv : v.throttle = ThrottleTracker.new)
    (hw : w = (mistypedTimes b x v 5).enter sampleElapsed) :
    (heldMoves b x v w ++ [(5, (⟨w, sampleElapsed, mistype b x w⟩ : Region))]).map
      (mark (SecretId.key Crates.symbolic (Uuid.rep 1))) = heldMarks := by
  have hv' : v.throttle.lockedUntil (SecretId.key Crates.symbolic (Uuid.rep 1)) = none :=
    mistypedTimes_lockedUntil (b := b) (x := x) hv 0 (by decide)
  have hlocked : w.throttle.lockedUntil (SecretId.key Crates.symbolic (Uuid.rep 1)) =
      some 1000000000 := by
    rw [hw, Vault.enter_throttle]
    exact mistyped_locked hv
  have hentered : (mistypedTimes b x v 5).hist = w.hist := by rw [hw, Vault.enter_hist]
  have hopened : (mistype b x w).hist.length = w.hist.length + 1 := rfl
  have hsame : (mistype b x w).throttle = w.throttle := rfl
  have hrounds : ([0, 1, 2, 3, 4].flatMap (roundMoves b x v)).map
      (mark (SecretId.key Crates.symbolic (Uuid.rep 1))) = [0, 1, 2, 3, 4].flatMap fun i =>
        [⟨i, true, none, none, 0⟩,
          ⟨i, false, none, if i = 4 then some 1000000000 else none, 0⟩] := by
    rw [List.map_flatMap]
    exact List.flatMap_congr fun i hi => round_marks hv (by simp at hi; omega)
  unfold heldMoves
  rw [List.map_append, List.map_append, List.map_append, hrounds]
  simp [mark, heldMarks, hv', mistyped_locked hv, hlocked, hentered, hopened, hsame,
    sampleNext_still.now,
    sampleElapsed_still.now]

/-- The sixth call, which is let pass then. -/
theorem late_walk (h : Imported v n t b) {blob : KeyBlob}
    (hb : KeyBlobOf.fromBytes Crates.symbolic b = .ok blob)
    (hx : keyblobOpen Crates.symbolic blob (utf8 "no") (Uuid.rep 1) .ed25519 "passkey" = .error x)
    (hw : w = (mistypedTimes b x v 5).enter sampleElapsed) :
    Prog.Walk Vault.Admits ((unlockKeyCall "no").run Crates.symbolic)
      (triedMoves Crates.symbolic (mistypedTimes b x v 5) w w w (mistype b x w) sampleElapsed
        (Uuid.rep 1) b
        "no" .ed25519 "passkey" (.error x)) (.done (.error (.failed "incorrect passphrase"))) := by
  have hclock : w.clock = 1000000000 := by rw [hw]; rfl
  have hstate : w.state = v.state := by rw [hw, Vault.enter_state, mistypedTimes_state]
  have h₀ : (mistypedTimes b x v 5).clock ≤ 1000000000 := by
    rw [mistypedTimes_clock, h.clock]
    exact Nat.zero_le _
  refine wrong_walk h hb hx sampleElapsed_still h₀ hw hclock hstate hclock hclock ?_
  refine ThrottleTracker.check_ok.2 fun u hu => ?_
  rw [hw, Vault.enter_throttle, mistyped_locked h.throttle] at hu
  cases hu
  exact Nat.le_refl _

end

section
variable {v w : Vault} {n : UInt32} {t : Option OffsetDateTime} {b : Bytes} {x : VaultError}

theorem held_trace (h : Imported v n t b) {blob : KeyBlob}
    (hb : KeyBlobOf.fromBytes Crates.symbolic b = .ok blob)
    (hx : keyblobOpen Crates.symbolic blob (utf8 "no") (Uuid.rep 1) .ed25519 "passkey" = .error x)
    (hw : w = (mistypedTimes b x v 5).enter sampleElapsed) :
    ∃ p, Pool.Trace Vault.Admits (started Crates.symbolic v (List.replicate 6 (unlockKeyCall "no")))
      (heldMoves b x v w ++ [(5, (⟨w, sampleElapsed, mistype b x w⟩ : Region))]) p := by
  have hchain : Chain v ((heldMoves b x v w ++
      [(5, (⟨w, sampleElapsed, mistype b x w⟩ : Region))]).map Prod.snd) (mistype b x w) := by
    refine ⟨rfl, rfl, rfl, rfl, rfl, rfl, rfl, rfl, rfl, rfl, ?_⟩
    exact ⟨rfl, rfl, rfl, rfl, rfl, rfl, rfl, rfl, rfl, rfl, rfl, rfl, rfl, rfl⟩
  refine mistyped_trace h hb hx hchain (by simp [heldMoves, roundMoves]) (fun i hi => ?_) ?_
  · interval_cases i <;> rfl
  · obtain ⟨q, hq, -⟩ := Prog.Walk.split
      (show Prog.Walk _ _ (own 5 (heldMoves b x v w ++
        [(5, (⟨w, sampleElapsed, mistype b x w⟩ : Region))]) ++ [_]) _ from late_walk h hb hx hw)
    exact ⟨q, hq⟩

/-- Each round adds to the wrong passphrases since the last clearing. -/
theorem wrongs_rounds (b : Bytes) (x : VaultError) (v : Vault) :
    ∀ (l : List Nat) (a : List (Nat × Region)),
    (∀ i ∈ l, i < 6) →
    wrongs Crates.symbolic (List.replicate 6 (unlockKeyCall "no"))
      (SecretId.key Crates.symbolic (Uuid.rep 1)) a + l.length ≤
    wrongs Crates.symbolic (List.replicate 6 (unlockKeyCall "no"))
      (SecretId.key Crates.symbolic (Uuid.rep 1)) (a ++ l.flatMap (roundMoves b x v))
  | [], a, _ => by simp
  | i :: l, a, hl => by
    have hcall : (List.replicate 6 (unlockKeyCall "no"))[i]? = some (unlockKeyCall "no") := by
      rw [List.getElem?_replicate, if_pos (hl i List.mem_cons_self)]
    have hver : VerifiesAt Crates.symbolic (List.replicate 6 (unlockKeyCall "no"))
        (SecretId.key Crates.symbolic (Uuid.rep 1)) a i
        ⟨mistypedTimes b x v i, sampleNext, mistype b x (mistypedTimes b x v i)⟩ false :=
      ⟨_, hcall, .key (r := .error x) ⟨b, _, _, _, _, rfl⟩⟩
    have hstay : ¬ Clears (SecretId.key Crates.symbolic (Uuid.rep 1))
        ⟨mistypedTimes b x v i, sampleNext, mistype b x (mistypedTimes b x v i)⟩ :=
          fun hc => hc.1 hc.2
    have hkept : ¬ Clears (SecretId.key Crates.symbolic (Uuid.rep 1))
        ⟨mistype b x (mistypedTimes b x v i), sampleNext, mistypedTimes b x v (i + 1)⟩ := by
      rintro ⟨-, hc⟩
      have hget := ThrottleTracker.get_recordFailure_self (mistypedTimes b x v i).throttle
        (SecretId.key Crates.symbolic (Uuid.rep 1)) 0
      rw [mistypedTimes, Vault.setThrottle_throttle, hget] at hc
      cases hc
    have hround : wrongs Crates.symbolic (List.replicate 6 (unlockKeyCall "no"))
        (SecretId.key Crates.symbolic (Uuid.rep 1)) a + 1 ≤
        wrongs Crates.symbolic (List.replicate 6 (unlockKeyCall "no"))
          (SecretId.key Crates.symbolic (Uuid.rep 1)) (a ++ roundMoves b x v i) := by
      rw [roundMoves, List.append_cons, ← wrongs_wrong hstay hver]
      exact wrongs_grows hkept
    have hrest := wrongs_rounds b x v l (a ++ roundMoves b x v i) fun j hj =>
      hl j (List.mem_cons_of_mem _ hj)
    rw [List.flatMap_cons, ← List.append_assoc, List.length_cons]
    omega

end

/-- The key is locked for a second, and then the sixth call verifies: five wrong
passphrases later, and when the lockout has elapsed. -/
theorem lockouts_hold_sample : ∃ (l : List Turn) (v : Vault) (a : List (Nat × Region)) (m : Region)
    (p : Pool In Vault FacadeError Reply), Run Crates.symbolic Vault.Admits sampleVault l v ∧
    Pool.Trace Vault.Admits (started Crates.symbolic v (List.replicate 6 (unlockKeyCall "no")))
      (a ++ [(5, m)]) p ∧
    VerifiesAt Crates.symbolic (List.replicate 6 (unlockKeyCall "no"))
      (SecretId.key Crates.symbolic (Uuid.rep 1)) a 5 m false ∧
    m.before.throttle.lockedUntil (SecretId.key Crates.symbolic (Uuid.rep 1)) = some 1000000000 ∧
    m.before.throttle.failureThreshold.toNat ≤ wrongs Crates.symbolic
      (List.replicate 6 (unlockKeyCall "no")) (SecretId.key Crates.symbolic (Uuid.rep 1)) a ∧
    LockoutsHold Crates.symbolic (List.replicate 6 (unlockKeyCall "no"))
      (SecretId.key Crates.symbolic (Uuid.rep 1)) (a ++ [(5, m)]) := by
  obtain ⟨tn, v, b, hrun, hv, -⟩ := samplePasskey_imported 0
  obtain ⟨blob, x, hb, hx, -⟩ := imported_wrong hv
  obtain ⟨w, hw⟩ : ∃ w, w = (mistypedTimes b x v 5).enter sampleElapsed := ⟨_, rfl⟩
  obtain ⟨p, hp⟩ := held_trace hv hb hx hw
  have hmarks := held_marks (b := b) (x := x) hv.throttle hw
  have hlocked : w.throttle.lockedUntil (SecretId.key Crates.symbolic (Uuid.rep 1)) =
      some 1000000000 := by
    rw [hw, Vault.enter_throttle]
    exact mistyped_locked hv.throttle
  obtain ⟨states, hthrottle⟩ := mistypedTimes_throttle (b := b) (x := x) hv.throttle 5
  have hfive : 5 ≤ wrongs Crates.symbolic (List.replicate 6 (unlockKeyCall "no"))
      (SecretId.key Crates.symbolic (Uuid.rep 1)) (heldMoves b x v w) := by
    have hrounds := wrongs_rounds b x v [0, 1, 2, 3, 4] ([0, 1, 2, 3, 4].flatMap fun i =>
      [(i, ⟨v, sampleNext, v⟩), (i, ⟨v, sampleNext, v⟩)]) (by decide)
    rw [List.length_cons, List.length_cons] at hrounds
    refine Nat.le_trans (Nat.le_trans (Nat.le_add_left _ _) hrounds) (Nat.le_trans (wrongs_grows
      (i := 5) (m := ⟨mistypedTimes b x v 5, sampleElapsed, w⟩) ?_) ?_)
    · rw [hw]
      exact fun hc => hc.1 hc.2
    · rw [heldMoves, List.append_cons]
      exact wrongs_grows fun hc => hc.1 hc.2
  refine ⟨[tn], v, heldMoves b x v w, ⟨w, sampleElapsed, mistype b x w⟩, p, hrun, hp,
    ⟨unlockKeyCall "no", rfl, .key (r := .error x) ⟨b, _, _, _, _, rfl⟩⟩, hlocked, ?_,
    lockouts_hold (.inl sampleVault_created) hrun hp ?_ (not_raced
      (run_unlocked (.inl sampleVault_created) hrun _) hp (by simp [unlockKeyCall]) ?_ ?_)⟩
  · rw [hw, Vault.enter_throttle, hthrottle]
    rw [hw] at hfive
    exact hfive
  · have hnow : (heldMarks.map Mark.now).Pairwise (· ≤ ·) := by decide
    rw [← hmarks, List.map_map, List.pairwise_map] at hnow
    exact hnow
  · rw [hmarks]
    exact heldMarks_elapsed
  · rw [hmarks]
    exact heldMarks_recorded


/-- Six calls with a wrong passphrase: the sixth verifies while the key is
locked. -/
theorem sixth_outruns_lockout : ∃ (tn : Turn) (v : Vault) (t : List (Nat × Region))
    (p : Pool In Vault FacadeError Reply), Run Crates.symbolic Vault.Admits sampleVault [tn] v ∧
    Pool.Trace Vault.Admits (started Crates.symbolic v (List.replicate 6 (unlockKeyCall "no")))
    t p ∧
    (t.Pairwise fun x y => x.2.input.now ≤ y.2.input.now) ∧
    ¬ LockoutsHold Crates.symbolic (List.replicate 6 (unlockKeyCall "no"))
      (SecretId.key Crates.symbolic (Uuid.rep 1)) t := by
  obtain ⟨tn, v, b, hrun, hv, -⟩ := samplePasskey_imported 0
  obtain ⟨blob, x, hb, hx, -⟩ := imported_wrong hv
  obtain ⟨p, hp⟩ := outrun_trace hv hb hx
  have hu := mistyped_locked (b := b) (x := x) hv.throttle
  have hinput : ∀ y ∈ outrunMoves b x v, y.2.input = sampleNext := by simp [outrunMoves, roundMoves]
  refine ⟨tn, v, outrunMoves b x v, p, hrun, hp, ?_, fun hhold => ?_⟩
  · refine List.pairwise_iff_forall_sublist.2 fun {y z} hyz => ?_
    rw [hinput y (hyz.subset (by simp)), hinput z (hyz.subset (by simp))]
  · have hle := (hhold _ 5 _ [] false rfl ⟨unlockKeyCall "no", rfl, .key (r := .error x)
      ⟨b, _, _, _, _, rfl⟩⟩).1 _ hu
    rw [sampleNext_still.now] at hle
    exact absurd hle (by decide)

end VaultSigner.L5
