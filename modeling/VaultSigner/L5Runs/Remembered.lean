import VaultSigner.L5Runs.Throttled

/-!
# Wrong passphrases, remembered

`Judged` is what one call, run alone, makes of a key: nothing; a passphrase
found right or wrong; or a failure charged without a verification. From there
the failures on record cover the wrong passphrases since the last right one,
and nothing but a right passphrase takes them off. A sign request that the
cache answers is the exception (`Forgiven`): the handler records a success for
it, though no passphrase was given.

Results:
* `call_judged`: every call but a forgiven one judges every key.
* `failures_cover_wrong`: in a run without forgiven calls the count covers the
  wrong passphrases, and a call without a verification neither lowers it nor
  lifts a lockout.
-/
namespace VaultSigner.L5
open VaultSigner.Core VaultSigner.L1 VaultSigner.L2.Throttle VaultSigner.L3 VaultSigner.L4
open VaultSigner.L2

/-- The wrong passphrases for `k` since the last right one. -/
def wrongSince (k : Uuid) (h : List Event) : Nat :=
  ((verifications k h).takeWhile fun r => !r.isOk).length

/-- What a call, run alone from `v` to `v'`, makes of the key `k`. -/
inductive Judged (C : Crates) (k : Uuid) (v v' : Vault) : Prop
  | kept (verified : verifications k v'.hist = verifications k v.hist)
      (entry : v'.throttle.states.get (SecretId.key C k) = v.throttle.states.get (SecretId.key C k))
  | right {sk : Bytes} (verified : verifications k v'.hist = .ok sk :: verifications k v.hist)
  | wrong {x : VaultError} {n : Nat}
      (verified : verifications k v'.hist = .error x :: verifications k v.hist)
      (pos : 0 < n) (le : n ≤ 2) (failures : v'.throttle.failures (SecretId.key C k) =
        v.throttle.failures (SecretId.key C k) + UInt32.ofNat n)
  | charged {now : Nat} (verified : verifications k v'.hist = verifications k v.hist)
      (late : ∀ u, (v.throttle.states.get (SecretId.key C k)).bind State.lockedUntil = some u →
        u ≤ now)
      (entry : v'.throttle.states.get (SecretId.key C k) =
        (v.throttle.recordFailure (SecretId.key C k) now).states.get (SecretId.key C k))

/-- A sign request answered by the cache, for a key with failures on record. -/
inductive Forgiven (C : Crates) (v : Vault) : Call → List In → Prop
  | mk {caller : String} {raw message publicKey sig : Bytes} {k c : Uuid} {ty : KeyType}
      {entry : Retention.CachedKey} {e₀ e₁ e₂ e₃ : In} {es : List In}
        (asks : SignRequest C raw k message)
      (check : v.throttle.check (SecretId.key C k) e₀.now = .ok ())
      (find : findForProtocol e₁.orders v.state k = some (ty, publicKey, c))
      (cached : v.retention.get k = some entry) (live : entry.Live e₃.now)
      (makes : keysSign C ty entry.bytes message = .ok sig)
      (failed : v.throttle.states.get (SecretId.key C k) ≠ none) :
      Forgiven C v (.handleProtocolRequest caller raw) (e₀ :: e₁ :: e₂ :: e₃ :: es)

/-- No count of failures is about to wrap: a call records two at most. -/
def Countable (C : Crates) (v : Vault) : Prop :=
  ∀ k, (v.throttle.failures (SecretId.key C k)).toNat + 2 < 2 ^ 32

/-- The failures on record cover the wrong passphrases. -/
def Covered (C : Crates) (v : Vault) : Prop :=
  ∀ k, wrongSince k v.hist ≤ (v.throttle.failures (SecretId.key C k)).toNat

/-! ## What a call makes of a key -/

section
variable {C : Crates} {v v' : Vault} {w : List Region} {k : Uuid}

theorem chain_verifications {v' : Vault} : ∀ {w : List Region} {v : Vault}, Chain v w v' →
    (∀ m ∈ w, Untouched m) → verifications k v'.hist = verifications k v.hist
  | [], _, h, _ => congrArg (fun v => verifications k v.hist) h
  | m :: _, _, ⟨hm, h⟩, hw => by
    rw [chain_verifications h fun x hx => hw x (List.mem_cons_of_mem _ hx),
      (hw m (by simp)).verifications, hm]

theorem judged_untouched (hc : Chain v w v') (hw : ∀ m ∈ w, Untouched m) : Judged C k v v' :=
  .kept (chain_verifications hc hw) (by rw [chain_untouched hc hw])

/-- A passphrase tried, and its outcome recorded. -/
theorem judged_recorded (hC : C.CodecLaws) {j : Uuid} {r : VaultResult Bytes} (now : Nat)
    (hv : ∀ k, verifications k v'.hist =
      if j = k then r :: verifications k v.hist else verifications k v.hist)
    (ht : v'.throttle = recorded v.throttle (SecretId.key C j) now r.isOk) : Judged C k v v' := by
  have hvk := hv k
  by_cases hj : j = k
  · subst hj
    rw [if_pos rfl] at hvk
    cases r with
    | ok sk => exact .right hvk
    | error x =>
      refine .wrong (n := 1) hvk Nat.one_pos (by omega) ?_
      rw [ht]
      exact (ThrottleTracker.failures_recordFailure _ _ _ _).trans (if_pos rfl)
  · rw [if_neg hj] at hvk
    refine .kept hvk ?_
    have hne : SecretId.key C k ≠ SecretId.key C j := fun h => hj ((SecretId.key_inj hC).1 h).symm
    rw [ht]
    cases r with
    | ok sk => exact ThrottleTracker.get_recordSuccess_ne _ hne
    | error x => exact ThrottleTracker.get_recordFailure_ne _ _ hne

theorem Shape.judged (hC : C.CodecLaws) (h : Shape C w) (hc : Chain v w v') : Judged C k v v' := by
  cases h with
  | untried h => exact judged_untouched hc h
  | @tried a b m₁ m₂ j r ha opens keeps hist record hb =>
    obtain ⟨x, hca, rfl, hm₂, hcb⟩ := chain_append.1 hc
    refine judged_recorded hC (j := j) (r := r) m₂.input.now (fun k => ?_) ?_
    · rw [chain_verifications hcb hb, hist, hm₂, verifications_opens opens,
        chain_verifications hca ha]
    · rw [chain_untouched hcb hb, record, hm₂, keeps, chain_untouched hca ha]
  | @resealed a b m j r ha opens record hb =>
    obtain ⟨x, hca, rfl, hcb⟩ := chain_append.1 hc
    refine judged_recorded hC (j := j) (r := r) m.input.now (fun k => ?_) ?_
    · rw [chain_verifications hcb hb, verifications_opens opens, chain_verifications hca ha]
    · rw [chain_untouched hcb hb, record, chain_untouched hca ha]

/-- Compartments have counters of their own. -/
theorem Unlocks.judged {c pw : String} (h : Unlocks C c pw w) (hc : Chain v w v') :
    Judged C k v v' := by
  cases h with
  | unparsed => exact judged_untouched hc (by simp)
  | lockedOut look => exact judged_untouched hc (by simpa using untouched_of_looks look)
  | @tried id m₁ m₂ hid look hist throttle =>
    obtain ⟨rfl, hm₂, rfl⟩ := hc
    have hlook := untouched_of_looks look
    refine .kept ?_ ?_
    · rw [hist, hm₂, hlook.verifications]
    · have hne := SecretId.key_ne_compartment C k id
      rw [throttle, hm₂, ← hlook.throttle]
      cases masterVerdict C m₁.after.state id pw with
      | none => rfl
      | some ok =>
        cases ok with
        | true => exact ThrottleTracker.get_recordSuccess_ne _ hne
        | false => exact ThrottleTracker.get_recordFailure_ne _ _ hne

/-! ## Sign requests -/

/-- `decrypt_key` alone: nothing happens, or a passphrase is tried and the
outcome recorded. -/
theorem decrypts_chain {c j : Uuid} {pw : String} {q : FacadeResult Bytes}
    (h : Decrypts C c j pw w q) (ha : ∀ m ∈ w, m.before.Admits m.input) (hc : Chain v w v') :
    (q.isOk = false ∧ Later v v') ∨ ∃ (r : VaultResult Bytes) (now : Nat), q.isOk = r.isOk ∧
      v'.throttle = recorded v.throttle (SecretId.key C j) now r.isOk ∧
      ∀ k, verifications k v'.hist =
        if j = k then r :: verifications k v.hist else verifications k v.hist := by
  cases h with
  | lockedOut look => exact .inl ⟨rfl, later_chain hc (by simpa using look) ha⟩
  | unopened look₁ check look₂ => exact .inl ⟨rfl, later_chain hc (by simp [look₁, look₂]) ha⟩
  | @opened m₁ m₂ m₃ m₄ ty label b r look₁ check look₂ lookup stored opening record =>
    obtain ⟨rfl, hm₂, hm₃, hm₄, rfl⟩ := hc
    have hopens : OpensAs m₃ j r := ⟨b, utf8 pw, ty, label, _, by rw [opening]; rfl⟩
    have h₁ := untouched_of_looks look₁
    have h₂ := untouched_of_looks look₂
    refine .inr ⟨r, m₄.input.now, by cases r <;> rfl, ?_, fun k => ?_⟩
    · have ht₃ : m₃.after.throttle = m₁.before.throttle := by
        rw [opening, ← h₁.throttle, ← hm₂, ← h₂.throttle, ← hm₃]
        rfl
      rw [record, hm₄, ← ht₃]
      rfl
    · have hh : m₄.after.hist = m₃.after.hist := by
        rw [record, ← hm₄]
        rfl
      rw [hh, verifications_opens hopens, hm₃, h₂.verifications, hm₂, h₁.verifications]

/-- A failure that the handler records though nothing was verified. -/
theorem judged_charged (hC : C.CodecLaws) {j : Uuid} {x : Vault} {now now' : Nat} (hl : Later v x)
    (hcheck : v.throttle.check (SecretId.key C j) now = .ok ()) (hnow : now ≤ now')
    (hh : v'.hist = x.hist) (ht : v'.throttle = x.throttle.recordFailure (SecretId.key C j) now') :
    Judged C k v v' := by
  have hv : verifications k v'.hist = verifications k v.hist := by rw [hh, hl.hist]
  rw [hl.throttle] at ht
  by_cases hj : k = j
  · subst hj
    have hlate : ∀ u, (v.throttle.states.get (SecretId.key C k)).bind State.lockedUntil = some u →
        u ≤ now' := by
      intro u hu
      obtain ⟨st, hst, hlock⟩ := Option.bind_eq_some_iff.1 hu
      unfold ThrottleTracker.check at hcheck
      simp only [hst, hlock] at hcheck
      split at hcheck
      · cases hcheck
      · omega
    exact .charged hv hlate (by rw [ht])
  · refine .kept hv ?_
    rw [ht]
    exact ThrottleTracker.get_recordFailure_ne _ _ fun h => hj ((SecretId.key_inj hC).1 h)

/-- A success that the handler records for a key without failures. -/
theorem judged_cleared (hC : C.CodecLaws) {j : Uuid} {x : Vault} (hl : Later v x)
    (hnone : v.throttle.states.get (SecretId.key C j) = none) (ev : Event)
    (hh : v'.hist = ev :: x.hist) (hev : ¬ Tries ev)
    (ht : v'.throttle = x.throttle.recordSuccess (SecretId.key C j)) : Judged C k v v' := by
  refine .kept ?_ ?_
  · rw [hh, ← hl.hist]
    cases ev with
    | opened => exact absurd trivial hev
    | _ => rfl
  · rw [ht, hl.throttle]
    by_cases hj : k = j
    · subst hj
      rw [hnone, ThrottleTracker.get_recordSuccess_self]
    · exact ThrottleTracker.get_recordSuccess_ne _ fun h => hj ((SecretId.key_inj hC).1 h)

/-- Two records of the same outcome. -/
theorem judged_twice (hC : C.CodecLaws) {j : Uuid} {x : Vault} {r : VaultResult Bytes} {now : Nat}
    (hv : ∀ k, verifications k x.hist =
      if j = k then r :: verifications k v.hist else verifications k v.hist)
    (hx : x.throttle = recorded v.throttle (SecretId.key C j) now r.isOk)
    (hh : ∀ k, verifications k v'.hist = verifications k x.hist)
    (ht : (∃ now', v'.throttle = recorded x.throttle (SecretId.key C j) now' r.isOk) ∨
      v'.throttle = x.throttle) : Judged C k v v' := by
  rcases ht with ⟨now', ht⟩ | ht
  · have hvk := hv k
    by_cases hj : j = k
    · subst hj
      rw [if_pos rfl] at hvk
      cases r with
      | ok sk => exact .right ((hh j).trans hvk)
      | error z =>
        refine .wrong (n := 2) ((hh j).trans hvk) (by omega) (by omega) ?_
        rw [ht, hx]
        simp only [recorded, Except.isOk, Except.toBool,
          ThrottleTracker.failures_recordFailure, if_pos]
        rw [UInt32.add_assoc]
        rfl
    · rw [if_neg hj] at hvk
      refine .kept ((hh k).trans hvk) ?_
      have hne : SecretId.key C k ≠ SecretId.key C j := fun h => hj ((SecretId.key_inj hC).1 h).symm
      have hget : ∀ (t : ThrottleTracker) (now : Nat) (ok : Bool),
          (recorded t (SecretId.key C j) now ok).states.get (SecretId.key C k) =
            t.states.get (SecretId.key C k) := by
        intro t now ok
        cases ok with
        | true => exact ThrottleTracker.get_recordSuccess_ne _ hne
        | false => exact ThrottleTracker.get_recordFailure_ne _ _ hne
      rw [ht, hget, hx, hget]
  · exact judged_recorded hC now (fun k => (hh k).trans (hv k)) (ht.trans hx)

/-- A sign request, unless it is forgiven. -/
theorem handles_judged (hC : C.CodecLaws) {caller : String} {raw : Bytes} {r : FacadeResult Bytes}
    (h : Handles C Vault.Admits raw w r) (ha : ∀ m ∈ w, m.before.Admits m.input) (hc : Chain v w v')
    (hno : ¬ Forgiven C v (.handleProtocolRequest caller raw) (w.map Move.input)) :
    Judged C k v v' := by
  have hlooks : ∀ {w : List Region}, (∀ m ∈ w, Looks m) → ∀ m ∈ w, Untouched m :=
    fun hw m hm => untouched_of_looks (hw m hm)
  cases h with
  | other not looks => exact judged_untouched hc (hlooks looks)
  | lockedOut asks look₀ check => exact judged_untouched hc (hlooks (by simpa using look₀))
  | @served j message m₀ w w' o reply asks look₀ check walk replies =>
    obtain ⟨o', ho, hserves⟩ := protocolSign_walk walk
    obtain rfl := Except.ok.inj ho
    cases hserves with
    | unknown look₁ find =>
      cases replies
      exact judged_untouched hc (hlooks (by simp [look₀, look₁]))
    | declined look₁ find look₂ held look₃ reply =>
      cases replies
      exact judged_untouched hc (hlooks (by simp [look₀, look₁, look₂, look₃]))
    | @cached m₁ m₂ m₃ ty publicKey c o look₁ find look₂ held use =>
      obtain ⟨rfl, hm₁, hm₂, hm₃, hc⟩ := hc
      have hl : Later m₀.before m₃.before := later_chain (w := [m₀, m₁, m₂]) ⟨rfl, hm₁, hm₂, hm₃⟩
        (by simp [look₀, look₁, look₂]) fun m hm => ha m (by simp at hm ⊢; tauto)
      have hstate :
        m₁.before.state = m₀.before.state := by rw [hm₁, show m₀.after = _ from look₀]; rfl
      rw [hstate] at find
      cases use with
      | @signed entry sig hcached live makes throttle hist =>
        cases replies with
        | @signed _ _ m id record =>
          obtain ⟨hm, rfl⟩ := hc
          by_cases hnone : m₀.before.throttle.states.get (SecretId.key C j) = none
          · refine judged_cleared hC hl hnone (.signed j entry.bytes m₃.input.now m₃.before.state)
              ?_ not_false ?_
            · rw [record, ← hist, ← hm]
              rfl
            · rw [record, ← throttle, ← hm]
              rfl
          · have hget := hl.retention j entry (Vault.get_enter_retention hcached)
            exact absurd (.mk asks check find hget live makes hnone) hno
      | nothing none throttle hist =>
        cases replies
        obtain rfl : v' = m₃.after := hc
        exact .kept (by rw [hist, hl.hist]) (by rw [throttle, hl.throttle])
    | @refused m₁ m₂ m₃ w ty publicKey c pw x look₁ find look₂ held look₃ reply decrypt =>
      cases replies with
      | @incorrect m _ record =>
        obtain ⟨rfl, hm₁, hm₂, hm₃, hc⟩ := hc
        obtain ⟨x, hcw, hm, rfl⟩ := chain_append.1 hc
        have hl : Later m₀.after m₃.after := later_chain (w := [m₁, m₂, m₃]) ⟨hm₁, hm₂, hm₃, rfl⟩
          (by simp [look₁, look₂, look₃]) fun m hm => ha m (by simp at hm ⊢; tauto)
        have hl₀ : Later m₀.before m₀.after := later_chain (w := [m₀]) ⟨rfl, rfl⟩
          (by simpa using look₀) fun m hm => ha m (by simp at hm ⊢; tauto)
        have hthrottle : m.after.throttle = recorded x.throttle (SecretId.key C j)
            m.input.now false := by
          rw [record, ← hm]
          rfl
        have hhist : m.after.hist = x.hist := by
          rw [record, ← hm]
          rfl
        rcases decrypts_chain decrypt (fun m hm => ha m (by simp [hm])) hcw with
          ⟨-, hx⟩ | ⟨q, now, hq, ht, hv⟩
        · have hnow : m₀.input.now ≤ m.input.now := by
            have hclock := (hl.trans hx).clock
            rw [show m₀.after = _ from look₀] at hclock
            have hadm := (ha m (by simp)).clock
            rw [hm] at hadm
            exact Nat.le_trans hclock hadm
          exact judged_charged hC ((hl₀.trans hl).trans hx) check hnow hhist hthrottle
        · have hq : q.isOk = false := hq.symm
          rw [← hq] at hthrottle
          rw [(hl₀.trans hl).throttle] at ht
          rw [(hl₀.trans hl).hist] at hv
          exact judged_twice hC hv ht (fun k => by rw [hhist]) (.inl ⟨_, hthrottle⟩)
    | @accepted m₁ m₂ m₃ m₄ m₅ w ty publicKey c pw sk o look₁ find look₂ held look₃ reply decrypt
        throttle hist retention use =>
      obtain ⟨rfl, hm₁, hm₂, hm₃, hc⟩ := hc
      obtain ⟨x₅, hc, hcr⟩ := chain_append.1 hc
      obtain ⟨x, hcw, hm₄, hm₅, rfl⟩ := chain_append.1 hc
      have hl : Later m₀.before m₃.after :=
        later_chain (w := [m₀, m₁, m₂, m₃]) ⟨rfl, hm₁, hm₂, hm₃, rfl⟩
        (by simp [look₀, look₁, look₂, look₃]) fun m hm => ha m (by simp at hm ⊢; tauto)
      rcases decrypts_chain decrypt (fun m hm => ha m (by simp [hm]))
        hcw with ⟨hq, -⟩ | ⟨q, now, hq, ht, hv⟩
      · cases hq
      · have hq : q.isOk = true := hq.symm
        rw [hl.throttle] at ht
        rw [hl.hist] at hv
        have h₄ : ∀ k, verifications k m₄.after.hist = verifications k x.hist := by
          intro k
          rw [hist, hm₄]
          rfl
        cases use with
        | @signed entry sig hcached live makes throttle₅ hist₅ =>
          cases replies with
          | @signed _ _ m id record =>
            obtain ⟨hm, rfl⟩ := hcr
            refine judged_twice hC hv ht (fun k => ?_) (.inl ⟨m.input.now, ?_⟩)
            · have hh : m.after.hist = m₅.after.hist := by
                rw [record, ← hm]
                rfl
              rw [hh, hist₅, hm₅, ← h₄ k]
              rfl
            · rw [record, hq, ← hm₄, ← throttle, ← hm₅, ← throttle₅, ← hm]
              rfl
        | nothing none throttle₅ hist₅ =>
          cases replies
          obtain rfl : v' = m₅.after := hcr
          refine judged_twice hC hv ht (fun k => ?_) (.inr ?_)
          · rw [hist₅, hm₅, h₄ k]
          · rw [throttle₅, hm₅, throttle, hm₄]

/-! ## Every call -/

/-- **What a call makes of a key.** -/
theorem call_judged (hC : C.CodecLaws) {call : Call} {es : List In} {r : FacadeResult Reply}
    (h : Prog.Exec Vault.Admits (call.run C) v es r v') (hno : ¬ Forgiven C v call es) (k : Uuid) :
    Judged C k v v' := by
  obtain ⟨w, hw, hc, rfl⟩ := Prog.exec_walk h
  cases hkind : kindOf call with
  | plain => exact (call_shape hw hkind).judged hC hc
  | unlock =>
    cases call with
    | unlockCompartment c pw =>
      obtain ⟨q, -, hq⟩ := walk_replying.1 hw
      exact (unlockCompartment_walk hq).judged hc
    | _ => cases hkind
  | protocol =>
    cases call with
    | handleProtocolRequest caller raw =>
      obtain ⟨q, -, hq⟩ := walk_replying.1 hw
      exact handles_judged hC (request_walk hq) hw.admits hc hno
    | _ => cases hkind

theorem failures_of_get {t t' : ThrottleTracker} {s : SecretId}
    (h : t'.states.get s = t.states.get s) :
    t'.failures s = t.failures s := by
  unfold ThrottleTracker.failures
  rw [h]

theorem toNat_add_ofNat {a : UInt32} {n : Nat} (h : a.toNat + n < 2 ^ 32) :
    (a + UInt32.ofNat n).toNat = a.toNat + n := by
  rw [UInt32.toNat_add, UInt32.toNat_ofNat', Nat.add_mod_mod]
  exact Nat.mod_eq_of_lt h

/-- The count goes on covering the wrong passphrases. -/
theorem Judged.covered (h : Judged C k v v')
    (hcount : (v.throttle.failures (SecretId.key C k)).toNat + 2 < 2 ^ 32)
    (hv : wrongSince k v.hist ≤ (v.throttle.failures (SecretId.key C k)).toNat) :
    wrongSince k v'.hist ≤ (v'.throttle.failures (SecretId.key C k)).toNat := by
  unfold wrongSince at hv ⊢
  cases h with
  | kept verified entry => rwa [verified, failures_of_get entry]
  | right verified => simp [verified, Except.isOk, Except.toBool]
  | @wrong x n verified pos le failures =>
    rw [verified, failures, toNat_add_ofNat (by omega), List.takeWhile_cons_of_pos rfl,
      List.length_cons]
    omega
  | charged verified late entry =>
    have hone := toNat_add_ofNat (a := v.throttle.failures (SecretId.key C k)) (n := 1) (by omega)
    rw [verified, failures_of_get entry, ThrottleTracker.failures_recordFailure, if_pos rfl,
      show (1 : UInt32) = UInt32.ofNat 1 from rfl, hone]
    omega

/-- Without a verification the count is not lowered, nor a lockout lifted. -/
theorem Judged.keeps (h : Judged C k v v')
    (hcount : (v.throttle.failures (SecretId.key C k)).toNat + 2 < 2 ^ 32)
    (hv : verifications k v'.hist = verifications k v.hist) :
    (v.throttle.failures (SecretId.key C k)).toNat ≤
    (v'.throttle.failures (SecretId.key C k)).toNat ∧
      ∀ u, (v.throttle.states.get (SecretId.key C k)).bind State.lockedUntil = some u →
        ∃ u', (v'.throttle.states.get (SecretId.key C k)).bind State.lockedUntil = some u' ∧
        u ≤ u' := by
  cases h with
  | kept verified entry =>
    rw [failures_of_get entry, entry]
    exact ⟨Nat.le_refl _, fun u hu => ⟨u, hu, Nat.le_refl u⟩⟩
  | right verified =>
    rw [hv] at verified
    exact absurd (congrArg List.length verified) (by simp)
  | wrong verified =>
    rw [hv] at verified
    exact absurd (congrArg List.length verified) (by simp)
  | @charged now verified late entry =>
    constructor
    · have hone := toNat_add_ofNat (a := v.throttle.failures (SecretId.key C k)) (n := 1) (by omega)
      rw [failures_of_get entry, ThrottleTracker.failures_recordFailure, if_pos rfl,
        show (1 : UInt32) = UInt32.ofNat 1 from rfl, hone]
      omega
    · intro u hu
      rw [entry, ThrottleTracker.get_recordFailure_self]
      simp only [Option.bind_some]
      split
      · exact ⟨_, rfl, Nat.le_trans (late u hu) (Nat.le_add_right _ _)⟩
      · exact ⟨u, hu, Nat.le_refl u⟩

end

/-! ## Runs -/

theorem run_covered {C : Crates} (hC : C.CodecLaws) {v₀ v : Vault} {l : List Turn}
    (h0 : Created C v₀ ∨ Opened C v₀) (h : Run C Vault.Admits v₀ l v)
    (hl : ∀ t ∈ l, ¬ Forgiven C t.before t.call t.inputs ∧ Countable C t.before) : Covered C v := by
  induction h with
  | nil =>
    obtain ⟨now, hf⟩ := start_fresh h0
    intro k
    rw [hf.hist]
    exact Nat.zero_le _
  | @cons l v v' call es r _ hx ih =>
    have hv := ih fun t ht => hl t (List.mem_cons_of_mem _ ht)
    obtain ⟨hno, hcount⟩ := hl _ (List.mem_cons_self ..)
    exact fun k => (call_judged hC hx hno k).covered (hcount k) (hv k)

/-- **Wrong passphrases are remembered.** In a run whose calls are none of
them sign requests that the cache answers for a key with failures on record,
and in which no count is about to wrap, the failures on record cover the wrong
passphrases since the last right one, and a call that verifies no passphrase of
a key neither lowers its count nor lifts its lockout. -/
theorem failures_cover_wrong {C : Crates} (hC : C.CodecLaws) {v₀ v : Vault} {l : List Turn}
    (h0 : Created C v₀ ∨ Opened C v₀) (h : Run C Vault.Admits v₀ l v)
    (hl : ∀ t ∈ l, ¬ Forgiven C t.before t.call t.inputs ∧ Countable C t.before) :
    (∀ k, wrongSince k v.hist ≤ (v.throttle.failures (SecretId.key C k)).toNat) ∧
    ∀ t ∈ l, ∀ k, verifications k t.after.hist = verifications k t.before.hist →
      (t.before.throttle.failures (SecretId.key C k)).toNat ≤
          (t.after.throttle.failures (SecretId.key C k)).toNat ∧
        ∀ u, (t.before.throttle.states.get (SecretId.key C k)).bind State.lockedUntil = some u →
          ∃ u', (t.after.throttle.states.get (SecretId.key C k)).bind State.lockedUntil = some u' ∧
          u ≤ u' := by
  refine ⟨run_covered hC h0 h hl, ?_⟩
  clear h0
  induction h with
  | nil => simp
  | @cons l v v' call es r _ hx ih =>
    intro t ht k hv
    rcases List.mem_cons.1 ht with rfl | ht
    · obtain ⟨hno, hcount⟩ := hl _ (List.mem_cons_self ..)
      exact (call_judged hC hx hno k).keeps (hcount k) hv
    · exact ih (fun t ht => hl t (List.mem_cons_of_mem _ ht)) t ht k hv

/-- The imported passkey after a wrong passphrase, given to `unlock_key`. -/
theorem mistyped_exec {v : Vault} {n : UInt32} {t : Option OffsetDateTime} {b : Bytes}
    (h : Imported v n t b) :
    ∃ (es : List In) (r : FacadeResult Reply) (v' : Vault) (x : VaultError),
    Prog.Exec Vault.Admits ((unlockKeyCall "no").run Crates.symbolic) v es r v' ∧
      v' =
      (v.log (.opened (Uuid.rep 1) b (utf8 "no") .ed25519 "passkey" (.error x) v.state)).setThrottle
        (v.throttle.recordFailure (SecretId.key Crates.symbolic (Uuid.rep 1)) 0) := by
  obtain ⟨blob, x, hb, hx, ht, hl⟩ := imported_wrong h
  have hdec := decryptKey_exec sampleNext_still h.clock ht hl hb hx
  refine ⟨[sampleNext, sampleNext, sampleNext, sampleNext], _, _, x,
    exec_replying.2 ⟨.error (.failed "incorrect passphrase"), ?_, rfl⟩, rfl⟩
  unfold unlockKey
  rw [uuidParse_symbolic, uuidParse_symbolic]
  exact Prog.exec_bind.2 (.inl ⟨_, rfl, hdec⟩)

/-- A run with a wrong passphrase in it: it is on record. -/
theorem failures_cover_wrong_sample : ∃ (v : Vault) (l : List Turn),
    Run Crates.symbolic Vault.Admits sampleVault l v ∧ 0 < wrongSince (Uuid.rep 1) v.hist ∧
    wrongSince (Uuid.rep 1) v.hist ≤
      (v.throttle.failures (SecretId.key Crates.symbolic (Uuid.rep 1))).toNat := by
  obtain ⟨t, v, b, hrun, hv, -, hcall, -⟩ := samplePasskey_imported 0
  obtain ⟨es, r, v', x, hx, hv'⟩ := mistyped_exec hv
  have hbefore : t.before = sampleVault := by
    cases hrun with
    | cons hr => cases hr; rfl
  have hcount : ∀ {v : Vault}, v.throttle = ThrottleTracker.new → Countable Crates.symbolic v := by
    intro v ht k
    rw [ht]
    show (0 : UInt32).toNat + 2 < 2 ^ 32
    decide
  have hrun' := Run.cons hrun hx
  refine ⟨v', _, hrun', ?_, ?_⟩
  · rw [hv']
    simp [wrongSince, verifications, Except.isOk, Except.toBool]
  · refine (failures_cover_wrong Crates.symbolic_codec (.inl sampleVault_created) hrun' ?_).1
      (Uuid.rep 1)
    intro t' ht'
    rcases List.mem_cons.1 ht' with rfl | ht'
    · refine ⟨fun hf => ?_, hcount hv.throttle⟩
      unfold unlockKeyCall at hf
      cases hf
    · obtain rfl := List.mem_singleton.1 ht'
      rw [hcall, hbefore]
      refine ⟨fun hf => ?_, hcount sampleVault_blank.throttle⟩
      unfold importCall at hf
      cases hf

/-- A wrong passphrase, and a sign request that the cache answers: nothing is on
record any more. -/
theorem cached_sign_forgives :
    ∃ (l : List Turn) (v : Vault), Run Crates.symbolic Vault.Admits sampleVault l v ∧
    0 < wrongSince (Uuid.rep 1) v.hist ∧
    v.throttle.failures (SecretId.key Crates.symbolic (Uuid.rep 1)) = 0 := by
  obtain ⟨l, v, b, hrun, hv, -⟩ := samplePasskey_ready 0
  obtain ⟨es, r, v₁, x, hx, hv₁⟩ := mistyped_exec hv.toImported
  have hthrottle : v₁.throttle =
      v.throttle.recordFailure (SecretId.key Crates.symbolic (Uuid.rep 1)) 0 := by rw [hv₁]; rfl
  have ht : v₁.throttle.check (SecretId.key Crates.symbolic (Uuid.rep 1)) 0 = .ok () := by
    rw [hthrottle, hv.throttle]
    unfold ThrottleTracker.check
    rw [ThrottleTracker.get_recordFailure_self]
    rfl
  have hstate : v₁.state = v.state := by rw [hv₁]; rfl
  have hretention : v₁.retention = v.retention := by rw [hv₁]; rfl
  have hclock : v₁.clock = 0 := by rw [hv₁]; exact hv.clock
  obtain ⟨sig, id, -, hw⟩ := SampleState.served (hstate ▸ hv.state) hclock ht
    (hretention ▸ hv.retention) "app"
  have hserved := Prog.walk_exec hw rfl ⟨rfl, rfl, rfl, rfl, rfl, rfl⟩
  have hsign : Prog.Exec Vault.Admits ((Call.handleProtocolRequest "app" (Uuid.rep 1).asBytes).run
      Crates.symbolic) v₁ _ _ _ := exec_replying.2 ⟨_, hserved, rfl⟩
  refine ⟨_, _, .cons (.cons hrun hx) hsign, ?_, ?_⟩
  · simp [hv₁, Vault.used, wrongSince, verifications, Except.isOk, Except.toBool]
  · exact (ThrottleTracker.failures_recordSuccess _ _ _).trans (if_pos rfl)

end VaultSigner.L5
