import VaultSigner.Core.Tally
import VaultSigner.L5Runs.Counting

/-!
# Concurrent assertions by one key

`handle_fido2_get_assertion` reads the sign count in its first region and
writes it in its last, and holds no lock in between, while it signs and the
user may be asked for a passphrase. So the counts of concurrent assertions are
a `Tally` (`Core/Tally.lean`), and what is known of such counters is known of
them.

Results:
* `Tracks.step`: each region of an assertion reads the tally, writes it, or
  leaves it alone.
* `counts_exact_iff`: when no count is lost or handed out twice.
-/
namespace VaultSigner.L5
open VaultSigner.Core VaultSigner.L1 VaultSigner.L3 VaultSigner.L4

/-- The arguments of `handle_fido2_get_assertion`. -/
structure AssertionArgs where
  requestCbor : Bytes
  userPresent : Bool
  userVerified : Bool

def AssertionArgs.call (C : Crates) (a : AssertionArgs) : Op GetAssertionOutcome :=
  handleFido2GetAssertion C a.requestCbor a.userPresent a.userVerified

/-- The count in the assertion that a finished call returned. -/
def returnedCount : Op GetAssertionOutcome → Option Nat
  | .done (.ok o) => some o.newSignCount.toNat
  | _ => none

/-! ## One call among others -/

theorem filterMap_without {α β : Type} {f : α → Option β} {a : α} (ha : f a = none) :
    ∀ {l : List α} {i : Nat}, l[i]? = some a →
      l.filterMap f = (l.take i).filterMap f ++ (l.drop (i + 1)).filterMap f := by
  intro l
  induction l with
  | nil => intro i h; simp at h
  | cons x l ih =>
    intro i h
    cases i with
    | zero =>
      simp only [List.getElem?_cons_zero, Option.some.injEq] at h
      subst h
      simp [ha]
    | succ i =>
      have hl := ih (by simpa using h)
      cases hx : f x with
      | none => simp [hx, hl]
      | some b => simp [hx, hl]

theorem filterMap_set {α β : Type} {f : α → Option β} {l : List α} {i : Nat} {a : α} (a' : α)
    (h : l[i]? = some a) : (l.set i a').filterMap f =
      (l.take i).filterMap f ++ (f a').toList ++ (l.drop (i + 1)).filterMap f := by
  have hlt := (List.getElem?_eq_some_iff.1 h).1
  rw [List.set_eq_take_append_cons_drop, if_pos hlt, List.filterMap_append, List.filterMap_cons]
  cases f a' with
  | none => simp
  | some b => simp

section
variable {C : Crates} {A : Vault → In → Prop}

/-- Where a call is, in a pool after the turns `turns`. -/
inductive Stage (C : Crates) (A : Vault → In → Prop) (k : Uuid) (turns : List Nat) (t : Tally Nat)
    (i : Nat) (q : Op GetAssertionOutcome) : Prop
  | waiting (hi : i ∉ turns) (hs : t.seen i = none) (a : AssertionArgs) (hq : q = a.call C)
  | between (hi : i ∈ turns) (r : UInt32) (hs : t.seen i = some r.toNat)
      (hq : Pending C A (fun o => o.keyId = k → o.newSignCount = r + 1) q)
  | returned (o : GetAssertionOutcome) (hq : q = .done (.ok o)) (hs : t.seen i = none)

/-- The pool after the turns `turns` is where the tally says. `D` is what the
file is known to hold as long as nothing has been written. -/
structure Tracks (C : Crates) (A : Vault → In → Prop) (k c : Uuid) (D : Prop) (turns : List Nat)
    (p : Pool In Vault FacadeError GetAssertionOutcome) (t : Tally Nat) : Prop where
  version : p.shared.state.container.header.formatVersion = L1.formatVersion
  stored : ∃ n : UInt32, StoredOnce p.shared.state k c n ∧ n.toNat = t.value
  disk : (t.written = [] → D) → ∃ n : UInt32, n.toNat = t.value ∧ OnDisk C p.shared c (Counts · k n)
  stage : ∀ i q, p.calls[i]? = some q → Stage C A k turns t i q
  outside : ∀ i, p.calls[i]? = none → t.seen i = none
  written : (p.calls.filterMap returnedCount).Perm t.written

theorem OnDisk.of_quiet {v v' : Vault} {c : Uuid} {P : Manifest → Prop} (h : OnDisk C v c P)
    (hq : Quiet v v') : OnDisk C v' c P := by
  unfold OnDisk
  rw [hq.state, hq.disk]
  exact h

/-- The one entry is the one an assertion by `k` is by. -/
theorem StoredOnce.asserted {s : VaultState} {k c : Uuid} {n : UInt32} (h : StoredOnce s k c n)
    {rpId : String} {o : GetAssertionOutcome} (ho : AssertedBy C rpId s o) (hk : o.keyId = k) :
    o.newSignCount = n + 1 := by
  obtain ⟨c', u', x, f, hu', hx, hxk, hf, -, -, hn⟩ := ho.entry
  obtain ⟨u, hu, entry, f', hl, hf', rfl⟩ := h.here
  have hc : c' = c := h.elsewhere c' u' hu' x hx (hxk.trans hk)
  subst hc
  rw [hu] at hu'
  cases hu'
  have hm : x ∈ [entry] := by
    rw [← hl]
    exact List.mem_filter.2 ⟨hx, by simp [hxk, hk]⟩
  obtain rfl := List.mem_singleton.1 hm
  rw [hf'] at hf
  cases hf
  exact hn

theorem Pending.mono {P Q : GetAssertionOutcome → Prop} (hpq : ∀ o, P o → Q o) :
    ∀ {q : Op GetAssertionOutcome}, Pending C A P q → Pending C A Q q
  | .done _, h => h
  | .region _ _, h => by
    rcases h with ⟨o, ho, hr⟩ | h
    · exact Or.inl ⟨o, hpq o ho, hr⟩
    · exact Or.inr fun e v ha => ⟨(h e v ha).1, Pending.mono hpq (h e v ha).2⟩

theorem Pending.not_returned {P : GetAssertionOutcome → Prop} {q : Op GetAssertionOutcome}
    (h : Pending C A P q) : returnedCount q = none := by
  cases q with
  | done r =>
    obtain ⟨x, rfl⟩ := h
    rfl
  | region u n => rfl

theorem call_not_returned (a : AssertionArgs) : returnedCount (a.call C) = none := by
  rcases begin_pending (C := C) (fun _ _ => True) a.requestCbor a.userPresent a.userVerified with
    ⟨x, hx⟩ | ⟨request, u, n, -, hx, -⟩
  · rw [AssertionArgs.call, hx]
    rfl
  · rw [AssertionArgs.call, hx]
    rfl

theorem Stage.unfinished {k : Uuid} {turns : List Nat} {t : Tally Nat} {i : Nat}
    {q : Op GetAssertionOutcome} (h : Stage C A k turns t i q) {r : Nat} (hs : t.seen i = some r) :
    i ∈ turns ∧ returnedCount q = none := by
  cases h with
  | waiting hi hn a hq => rw [hn] at hs; cases hs
  | between hi r' hs' hq => exact ⟨hi, hq.not_returned⟩
  | returned o hq hn => rw [hn] at hs; cases hs

theorem Stage.finished {k : Uuid} {turns : List Nat} {t : Tally Nat} {i : Nat}
    {o : GetAssertionOutcome} (h : Stage C A k turns t i (.done (.ok o))) : t.seen i = none := by
  cases h with
  | waiting hi hn a hq => exact hn
  | between hi r hs hq =>
    obtain ⟨x, hx⟩ := hq
    cases hx
  | returned o' hq hn => exact hn

/-- Another call's turn. -/
theorem Stage.other {k : Uuid} {turns : List Nat} {t t' : Tally Nat} {i j : Nat}
    {q : Op GetAssertionOutcome} (h : Stage C A k turns t j q) (hj : j ≠ i)
    (hs : t'.seen j = t.seen j) : Stage C A k (turns ++ [i]) t' j q := by
  cases h with
  | waiting hi hn a hq => exact .waiting (by simp [hi, hj]) (hs.trans hn) a hq
  | between hi r hr hq => exact .between (by simp [hi]) r (hs.trans hr) hq
  | returned o hq hn => exact .returned o hq (hs.trans hn)

theorem Tracks.start {v : Vault} {k c : Uuid} {n : UInt32} (reqs : List AssertionArgs)
    (hv : v.state.container.header.formatVersion = L1.formatVersion)
    (hs : StoredOnce v.state k c n) :
    Tracks C A k c (OnDisk C v c (Counts · k n)) [] ⟨v, reqs.map (AssertionArgs.call C)⟩
      (Tally.start n.toNat) where
  version := hv
  stored := ⟨n, hs, rfl⟩
  disk := fun h => ⟨n, rfl, h rfl⟩
  stage := by
    intro i q hq
    obtain ⟨a, -, rfl⟩ : ∃ a, reqs[i]? = some a ∧ a.call C = q := by simpa using hq
    exact .waiting (by simp) rfl a rfl
  outside := fun _ _ => rfl
  written := by
    have hnil : (reqs.map (AssertionArgs.call C)).filterMap returnedCount = [] := by
      rw [List.filterMap_eq_nil_iff]
      intro q hq
      obtain ⟨a, -, rfl⟩ := List.mem_map.1 hq
      exact call_not_returned a
    rw [hnil]
    exact List.Perm.refl _

/-- A turn that leaves the count alone. -/
theorem Tracks.quiet {k c : Uuid} {D : Prop} {turns : List Nat} {v w : Vault}
    {cs : List (Op GetAssertionOutcome)} {t t' : Tally Nat} {i : Nat}
    {q q' : Op GetAssertionOutcome} (h : Tracks C A k c D turns ⟨v, cs⟩ t) (hc : cs[i]? = some q)
    (hq : returnedCount q = none) (hw : Quiet v w) (hq' : returnedCount q' = none)
    (hval : t'.value = t.value) (hwr : t'.written = t.written)
    (hseen : ∀ j, j ≠ i → t'.seen j = t.seen j) (hst : Stage C A k (turns ++ [i]) t' i q') :
    Tracks C A k c D (turns ++ [i]) ⟨w, cs.set i q'⟩ t' where
  version := by rw [hw.state]; exact h.version
  stored := by
    rw [hw.state, hval]
    exact h.stored
  disk := by
    intro hD
    obtain ⟨n, hn, hd⟩ := h.disk fun hnil => hD (hwr.trans hnil)
    exact ⟨n, hn.trans hval.symm, hd.of_quiet hw⟩
  stage := by
    intro j q'' hj
    by_cases hij : j = i
    · subst hij
      rw [List.getElem?_set_self (List.getElem?_eq_some_iff.1 hc).1] at hj
      cases hj
      exact hst
    · rw [List.getElem?_set_ne (Ne.symm hij)] at hj
      exact (h.stage j q'' hj).other hij (hseen j hij)
  outside := by
    intro j hj
    rw [List.getElem?_eq_none_iff, List.length_set] at hj
    have hij : j ≠ i := by
      have hlt := (List.getElem?_eq_some_iff.1 hc).1
      omega
    rw [hseen j hij]
    exact h.outside j (List.getElem?_eq_none_iff.2 hj)
  written := by
    rw [filterMap_set q' hc, hq', hwr]
    have hsplit := filterMap_without hq hc
    simpa [← hsplit] using h.written

theorem StoredOnce.put {s s' : VaultState} {k c : Uuid} {n n' : UInt32} {u : UnlockedCompartment}
    {now : OffsetDateTime} (h : StoredOnce s k c n) (hu : s.unlocked.get c = some u)
    (hs : s'.unlocked = s.unlocked.put c (u.asserted k n' now)) : StoredOnce s' k c n' where
  here := by
    obtain ⟨u', hu', hcount⟩ := h.here
    rw [hu] at hu'
    cases hu'
    exact ⟨_, by rw [hs, HashMap.get_put_self], hcount.asserted n' now⟩
  elsewhere := by
    intro c' u' hu' x hx hxk
    by_cases hc : c' = c
    · exact hc
    · rw [hs, HashMap.get_put_ne _ _ hc] at hu'
      exact h.elsewhere c' u' hu' x hx hxk

theorem toNat_succ {r : UInt32} (h : r.toNat + 1 < 2 ^ 32) : (r + 1).toNat = r.toNat + 1 := by
  rw [UInt32.toNat_add]
  exact Nat.mod_eq_of_lt h

/-- There is room for one more count while a call has not returned. -/
theorem Tracks.room {k c : Uuid} {D : Prop} {turns : List Nat} {v : Vault}
    {cs : List (Op GetAssertionOutcome)} {t : Tally Nat} {i c₀ : Nat} {q : Op GetAssertionOutcome}
    (h : Tracks C A k c D turns ⟨v, cs⟩ t) (hc : cs[i]? = some q) (hq : returnedCount q = none) :
    t.due c₀ + 1 ≤ c₀ + cs.length := by
  have hlt : (cs.filterMap returnedCount).length < cs.length :=
    List.length_filterMap_lt_length_iff_exists.2 ⟨q, List.mem_iff_getElem?.2 ⟨i, hc⟩, hq⟩
  have hlen := h.written.length_eq
  simp only at hlen
  unfold Tally.due
  omega

/-- The turn that commits. -/
theorem Tracks.commit (hC : C.CodecLaws) (ha : C.AeadLaws) {k c : Uuid} {D : Prop}
    {turns : List Nat} {v : Vault} {cs : List (Op GetAssertionOutcome)} {t : Tally Nat} {i c₀ : Nat}
    {q : Op GetAssertionOutcome} (h : Tracks C A k c D turns ⟨v, cs⟩ t) (hf : t.Fair c₀)
    (hmax : c₀ + cs.length < 2 ^ 32) (hc : cs[i]? = some q) (hq : returnedCount q = none)
    {r : UInt32} (hr : t.seen i = some r.toNat) {o o' : GetAssertionOutcome} (hk : o.keyId = k)
    (hn : o.newSignCount = r + 1) {e : In} (hres : (commitAssertion C o e (v.enter e)).1 = .ok o') :
    Tracks C A k c D (turns ++ [i])
      ⟨(commitAssertion C o e (v.enter e)).2, cs.set i (.done (.ok o'))⟩ (t.write i r.toNat) := by
  have hcount : o.newSignCount.toNat = r.toNat + 1 := by
    have hle := hf.seen_le hr
    have hroom : t.due c₀ + 1 ≤ c₀ + cs.length := h.room hc hq
    rw [hn]
    exact toNat_succ (by omega)
  obtain ⟨n, hstored, -⟩ := h.stored
  obtain ⟨rfl, hheader, hcases⟩ := commit_cases hC ha (v := v.enter e) h.version hres
  rcases hcases with ⟨hnone, -⟩ | ⟨c', u, hcommit⟩
  · rw [hk] at hnone
    have hsome := hstored.find e.orders
    rw [Vault.enter_state, hsome] at hnone
    cases hnone
  have hfind := hcommit.found
  rw [hk, Vault.enter_state, hstored.find e.orders] at hfind
  cases hfind
  have hs := hcommit.unlocked
  have hd := hcommit.onDisk
  rw [hk] at hs hd
  obtain ⟨u', hu', hold⟩ := hstored.here
  have hu := hcommit.before
  rw [Vault.enter_state, hu'] at hu
  cases hu
  refine ⟨?_, ⟨o'.newSignCount, hstored.put hu' hs, hcount⟩, fun _ =>
    ⟨o'.newSignCount, hcount, ?_⟩, ?_,
    ?_, ?_⟩
  · rw [hheader]
    exact h.version
  · refine hd.mono fun m hm => ?_
    rw [hm]
    exact hold.asserted _ _
  · intro j q' hj
    by_cases hij : j = i
    · subst hij
      rw [List.getElem?_set_self (List.getElem?_eq_some_iff.1 hc).1] at hj
      cases hj
      exact .returned o' rfl (by simp [Tally.write])
    · rw [List.getElem?_set_ne (Ne.symm hij)] at hj
      exact (h.stage j q' hj).other hij (Function.update_of_ne hij _ _)
  · intro j hj
    rw [List.getElem?_eq_none_iff, List.length_set] at hj
    have hij : j ≠ i := by
      have hlt := (List.getElem?_eq_some_iff.1 hc).1
      omega
    simp only [Tally.write, Function.update_of_ne hij]
    exact h.outside j (List.getElem?_eq_none_iff.2 hj)
  · rw [filterMap_set _ hc]
    have hsplit := filterMap_without hq hc
    have hone : returnedCount (.done (.ok o')) = some (r.toNat + 1) := congrArg some hcount
    have hold := h.written
    rw [hsplit] at hold
    simp only [hone, Option.toList_some, List.append_assoc, List.singleton_append, Tally.write]
    exact List.perm_middle.trans (hold.cons _)

/-- What a turn of call `i` does to the tally; `ended` says that the call has
returned with it. -/
inductive Turned (t : Tally Nat) (i : Nat) (ended : Prop) : Tally Nat → Prop
  | stay (hn : ¬ ended) : Turned t i ended t
  | read (hs : t.seen i = none) (hn : ¬ ended) : Turned t i ended (t.read i)
  | write (r : Nat) (hs : t.seen i = some r) (he : ended) : Turned t i ended (t.write i r)

def Ended (p : Pool In Vault FacadeError GetAssertionOutcome) (i : Nat) : Prop :=
  ∃ o, p.calls[i]? = some (.done (.ok o))

theorem not_ended {v : Vault} {cs : List (Op GetAssertionOutcome)} {i : Nat}
    {q q' : Op GetAssertionOutcome} (hc : cs[i]? = some q) (hq : returnedCount q' = none) :
    ¬ Ended ⟨v, cs.set i q'⟩ i := by
  intro ⟨o, ho⟩
  rw [List.getElem?_set_self (List.getElem?_eq_some_iff.1 hc).1] at ho
  cases ho
  cases hq

/-- **One turn.** -/
theorem Tracks.step (hC : C.CodecLaws) (ha : C.AeadLaws) {k c : Uuid} {D : Prop} {turns : List Nat}
    {p p' : Pool In Vault FacadeError GetAssertionOutcome} {t : Tally Nat} {c₀ i : Nat} {e : In}
    (h : Tracks C A k c D turns p t) (hf : t.Fair c₀) (hmax : c₀ + p.calls.length < 2 ^ 32)
    (hs : Pool.Step A p i e p')
    (hok : ∀ r, p'.calls[i]? = some (.done r) → ∃ o, r = .ok o ∧ o.keyId = k) :
    ∃ t', Tracks C A k c D (turns ++ [i]) p' t' ∧ Turned t i (Ended p' i) t' := by
  cases hs with
  | @mk v cs _ u n _ hc hadm =>
    have hq : returnedCount (Prog.region u n) = none := rfl
    have hlast : ∀ r, n e v = .done r → ∃ o, r = .ok o ∧ o.keyId = k := by
      intro r hr
      refine hok r ?_
      rw [← hr]
      exact List.getElem?_set_self (List.getElem?_eq_some_iff.1 hc).1
    cases h.stage i _ hc with
    | returned o hq' hn => cases hq'
    | waiting hi hn a hcall =>
      -- the first region: it reads
      obtain ⟨m, hm, hval⟩ := h.stored
      rcases begin_pending (C := C) A a.requestCbor a.userPresent a.userVerified with
        ⟨x, hx⟩ | ⟨request, u', n', -, hx, hbegin⟩
      · rw [AssertionArgs.call, hx] at hcall
        cases hcall
      · rw [AssertionArgs.call, hx] at hcall
        cases hcall
        obtain ⟨hquiet, hpend⟩ := hbegin e v hadm
        have hpend' := hpend.mono fun o ho (hk : o.keyId = k) => hm.asserted ho hk
        refine ⟨t.read i, h.quiet hc hq hquiet hpend.not_returned rfl rfl
          (fun j hj => Function.update_of_ne hj _ _) ?_, .read hn (not_ended hc hpend.not_returned)⟩
        refine .between (by simp) m ?_ hpend'
        simp [Tally.read, hval]
    | between hi r hr hpend =>
      rcases hpend with ⟨o, ho, hregion⟩ | hquiet
      · -- the last region: it writes
        cases hregion
        obtain ⟨o', hres, hk'⟩ := hlast _ rfl
        have hoo := (commit_cases hC ha (v := v.enter e) h.version hres).1
        have hk : o.keyId = k := by rw [← hoo]; exact hk'
        have htracks := h.commit hC ha hf hmax hc hq hr hk (ho hk) hres
        refine ⟨t.write i r.toNat, ?_, .write _ hr ⟨o', ?_⟩⟩
        · simp only [hres]
          exact htracks
        · simp only [hres]
          exact List.getElem?_set_self (List.getElem?_eq_some_iff.1 hc).1
      · obtain ⟨hw, hpend⟩ := hquiet e v hadm
        refine ⟨t, h.quiet hc hq hw hpend.not_returned rfl rfl (fun _ _ => rfl) ?_,
          .stay (not_ended hc hpend.not_returned)⟩
        exact .between (by simp [hi]) r hr hpend

theorem Turned.fair {t t' : Tally Nat} {i c₀ : Nat} {ended : Prop} (h : Turned t i ended t')
    (hf : t.Fair c₀) : t'.Fair c₀ := by
  cases h with
  | stay hn => exact hf
  | read hs hn => exact hf.read i
  | write r hs he => exact hf.write hs

theorem Turned.behind {t t' : Tally Nat} {i c₀ : Nat} {ended : Prop} (h : Turned t i ended t')
    (hf : t.Fair c₀) (hb : t.Behind c₀) : t'.Behind c₀ := by
  cases h with
  | stay hn => exact hb
  | read hs hn => exact hb.read hs
  | write r hs he => exact hb.write hf hs

/-- Every call returned an assertion by `k`. -/
def AllReturned (k : Uuid) (p : Pool In Vault FacadeError GetAssertionOutcome) : Prop :=
  ∀ q ∈ p.calls, ∃ o, q = .done (.ok o) ∧ o.keyId = k

theorem AllReturned.count {k : Uuid} {p : Pool In Vault FacadeError GetAssertionOutcome}
    (h : AllReturned k p) {i : Nat} {q : Op GetAssertionOutcome} (hq : p.calls[i]? = some q) :
    returnedCount q ≠ none := by
  obtain ⟨o, rfl, -⟩ := h q (List.mem_iff_getElem?.2 ⟨i, hq⟩)
  simp [returnedCount]

/-- Who is between its read and its write: who has begun and has turns left. -/
theorem Tracks.seen_iff {k c : Uuid} {D : Prop} {turns : List Nat}
    {p p₁ p' : Pool In Vault FacadeError GetAssertionOutcome} {t : Tally Nat} {i j : Nat} {e : In}
    {l : List (Nat × In)} (h : Tracks C A k c D turns p t) (h1 : Pool.Step A p i e p₁)
    (hs : Pool.Steps A p₁ l p') (hend : AllReturned k p') (hj : j ≠ i) :
    (∃ r, t.seen j = some r) ↔ j ∈ turns ∧ j ∈ l.map Prod.fst := by
  constructor
  · intro ⟨r, hr⟩
    cases hq : p.calls[j]? with
    | none =>
      rw [h.outside j hq] at hr
      cases hr
    | some q =>
      obtain ⟨hturn, hcount⟩ := (h.stage j q hq).unfinished hr
      refine ⟨hturn, Decidable.by_contra fun hn => ?_⟩
      have hq' : p'.calls[j]? = some q := by
        rw [hs.untouched hn, h1.others hj, hq]
      exact hend.count hq' hcount
  · intro ⟨hturn, hm⟩
    obtain ⟨u, n, hq⟩ := hs.unfinished hm
    rw [h1.others hj] at hq
    cases h.stage j _ hq with
    | waiting hi hn a hcall => exact absurd hturn hi
    | between hi r hr hpend => exact ⟨_, hr⟩
    | returned o hq' hn => cases hq'

theorem ended_iff {k : Uuid} {p p₁ p' : Pool In Vault FacadeError GetAssertionOutcome} {i : Nat}
    {e : In} {l : List (Nat × In)} (h1 : Pool.Step A p i e p₁) (hs : Pool.Steps A p₁ l p')
    (hend : AllReturned k p') : Ended p₁ i ↔ i ∉ l.map Prod.fst := by
  constructor
  · intro ⟨o, ho⟩
    exact (hs.done ho).2
  · intro hn
    obtain ⟨q, hq⟩ : ∃ q, p₁.calls[i]? = some q := by
      cases h1 with
      | mk hc hadm => exact ⟨_, List.getElem?_set_self (List.getElem?_eq_some_iff.1 hc).1⟩
    have hq' : p'.calls[i]? = some q := by rw [hs.untouched hn, hq]
    obtain ⟨o, rfl, -⟩ := hend q (List.mem_iff_getElem?.2 ⟨i, hq'⟩)
    exact ⟨o, hq⟩

/-- **A whole interleaving.** The tally at its end is exact if the calls came
one at a time, and behind if they did not. -/
theorem Tracks.steps (hC : C.CodecLaws) (ha : C.AeadLaws) {k c : Uuid} {D : Prop} {c₀ : Nat}
    {p p' : Pool In Vault FacadeError GetAssertionOutcome} {l : List (Nat × In)}
    (hs : Pool.Steps A p l p') (hend : AllReturned k p') (hmax : c₀ + p.calls.length < 2 ^ 32) :
    ∀ {turns : List Nat} {t : Tally Nat}, Tracks C A k c D turns p t → t.Fair c₀ →
      ∃ t', Tracks C A k c D (turns ++ l.map Prod.fst) p' t' ∧ t'.Fair c₀ ∧
        (t.Exact c₀ → OneAtATimeAfter turns (l.map Prod.fst) → t'.Exact c₀) ∧
        (t.Behind c₀ ∨ ¬ OneAtATimeAfter turns (l.map Prod.fst) → t'.Behind c₀) := by
  induction hs with
  | nil p =>
    intro turns t ht hf
    refine ⟨t, by simpa using ht, hf, fun he _ => he, fun hb => ?_⟩
    rcases hb with hb | hn
    · exact hb
    · exact absurd (oneAtATimeAfter_nil turns) hn
  | @cons p p₁ p' i e l h1 hs ih =>
    intro turns t ht hf
    have hok : ∀ r, p₁.calls[i]? = some (.done r) → ∃ o, r = .ok o ∧ o.keyId = k := by
      intro r hr
      obtain ⟨o, ho, hk⟩ := hend _ (List.mem_iff_getElem?.2 ⟨i, (hs.done hr).1⟩)
      cases ho
      exact ⟨o, rfl, hk⟩
    obtain ⟨t₁, ht₁, hturn⟩ := ht.step hC ha hf hmax h1 hok
    have hlen : p₁.calls.length = p.calls.length := by
      cases h1 with
      | mk hc hadm => exact List.length_set ..
    obtain ⟨t', ht', hf', hexact, hbehind⟩ := ih hend (by omega) ht₁ (hturn.fair hf)
    have hended := ended_iff h1 hs hend
    have hseen := fun j hj => ht.seen_iff (j := j) h1 hs hend hj
    refine ⟨t', by simpa using ht', hf', fun he hone => ?_, fun hb => ?_⟩
    · obtain ⟨hfirst, hrest⟩ := oneAtATimeAfter_cons.1 hone
      refine hexact ?_ hrest
      cases hturn with
      | stay hn => exact he
      | read hsn hn => exact he.read i
      | write r hr hdone =>
        refine he.write hr fun j hj => ?_
        cases hsj : t.seen j with
        | none => rfl
        | some q =>
          obtain ⟨h3, h4⟩ := (hseen j hj).1 ⟨q, hsj⟩
          exact absurd h4 (hfirst (hended.1 hdone) j hj h3)
    · by_cases hrest : OneAtATimeAfter (turns ++ [i]) (l.map Prod.fst)
      · rcases hb with hb | hn
        · exact hbehind (.inl (hturn.behind hf hb))
        · -- someone else is in between at this call's last turn
          have hfirst : ¬ (i ∉ l.map Prod.fst → ∀ j, j ≠ i → j ∈ turns → j ∉ l.map Prod.fst) :=
            fun hfirst => hn (oneAtATimeAfter_cons.2 ⟨hfirst, hrest⟩)
          simp only [Classical.not_imp, not_forall, Decidable.not_not] at hfirst
          obtain ⟨hlast, j, hj, h3, h4⟩ := hfirst
          have hdone := hended.2 hlast
          obtain ⟨q, hq⟩ := (hseen j hj).2 ⟨h3, h4⟩
          cases hturn with
          | stay hn' => exact absurd hdone hn'
          | read hsn hn' => exact absurd hdone hn'
          | write r hr hdone' => exact hbehind (.inl (Tally.overtaken hf hj hq))
      · exact hbehind (.inr hrest)

theorem Counts.unique {m : Manifest} {k : Uuid} {n n' : UInt32} (h : Counts m k n)
    (h' : Counts m k n') : n' = n := by
  obtain ⟨x, f, hl, hf, rfl⟩ := h
  obtain ⟨x', f', hl', hf', rfl⟩ := h'
  rw [hl] at hl'
  cases hl'
  rw [hf] at hf'
  cases hf'
  rfl

theorem OnDisk.both {v : Vault} {c : Uuid} {P Q : Manifest → Prop} (h : OnDisk C v c P)
    (h' : OnDisk C v c Q) : ∃ m, P m ∧ Q m := by
  obtain ⟨bytes, container, u, b, p, h1, h2, h3, h4, h5, h6⟩ := h
  obtain ⟨bytes', container', u', b', p', h1', h2', h3', h4', h5', h6'⟩ := h'
  rw [h1] at h1'
  cases h1'
  have hcontainer := (h2 sampleOrders).symm.trans (h2' sampleOrders)
  cases hcontainer
  rw [h3] at h3'
  cases h3'
  rw [h4] at h4'
  cases h4'
  rw [h5] at h5'
  cases h5'
  exact ⟨_, h6, h6'⟩

theorem returnedCounts (os : List GetAssertionOutcome) :
    (os.map fun o => (Prog.done (.ok o) : Op GetAssertionOutcome)).filterMap returnedCount =
      os.map fun o => o.newSignCount.toNat := by
  induction os with
  | nil => rfl
  | cons o os ih => simpa [returnedCount] using ih

/-- **When no count is lost or handed out twice.** From any reachable vault in
which `k` is stored once, let any number of assertions interleave in any way,
and all of them return an assertion by `k`. Their counts are pairwise
distinct, and the file ends with the old count plus their number, exactly if
at each one's last region no other one has begun and not ended. -/
theorem counts_exact_iff (C : Crates) (hC : C.CodecLaws) (ha : C.AeadLaws) {A : Vault → In → Prop}
    {v₀ v v' : Vault} {l : List Turn} (h₀ : Created C v₀ ∨ Opened C v₀) (h : Run C A v₀ l v)
    {k c : Uuid} {n : UInt32} (hs : StoredOnce v.state k c n) {calls : List AssertionArgs}
    {os : List GetAssertionOutcome} {sched : List (Nat × In)}
    (hx : Pool.Steps A ⟨v, calls.map (AssertionArgs.call C)⟩ sched
      ⟨v', os.map fun o => .done (.ok o)⟩) (hk : ∀ o ∈ os, o.keyId = k)
    (hmax : n.toNat + os.length < 2 ^ 32) (hd : os = [] → OnDisk C v c (Counts · k n)) :
    ((os.map GetAssertionOutcome.newSignCount).Nodup ∧
        ∃ n' : UInt32, n'.toNat = n.toNat + os.length ∧ OnDisk C v' c (Counts · k n')) ↔
      OneAtATime (sched.map Prod.fst) := by
  have hend : AllReturned k ⟨v', os.map fun o => .done (.ok o)⟩ := by
    intro q hq
    obtain ⟨o, ho, rfl⟩ := List.mem_map.1 hq
    exact ⟨o, rfl, hk o ho⟩
  have hlen := hx.length
  simp only [List.length_map] at hlen
  obtain ⟨t, ht, hf, hexact, hbehind⟩ := Tracks.steps hC ha hx hend
    (by simp only [List.length_map]; omega) (Tracks.start calls (h.version h₀) hs) Tally.fair_start
  simp only [List.nil_append] at ht
  have hwritten := ht.written
  rw [returnedCounts] at hwritten
  have hdue : t.due n.toNat = n.toNat + os.length := by
    unfold Tally.due
    rw [← hwritten.length_eq, List.length_map]
  have hnone : ∀ i, t.seen i = none := by
    intro i
    cases hq : (os.map fun o => (Prog.done (.ok o) : Op GetAssertionOutcome))[i]? with
    | none => exact ht.outside i hq
    | some q =>
      obtain ⟨o, rfl, -⟩ := hend q (List.mem_iff_getElem?.2 ⟨i, hq⟩)
      exact (ht.stage i _ hq).finished
  have hdisk : ∃ m : UInt32, m.toNat = t.value ∧ OnDisk C v' c (Counts · k m) := by
    refine ht.disk fun hnil => hd ?_
    rw [hnil] at hwritten
    simpa using hwritten.eq_nil
  constructor
  · rintro ⟨-, n', hn', hon⟩
    refine Classical.byContradiction fun hnot => ?_
    have hlt := (hbehind (.inr hnot)).value_lt hnone
    obtain ⟨m, hm, hon'⟩ := hdisk
    obtain ⟨manifest, h1, h2⟩ := hon.both hon'
    have hmn := h1.unique h2
    subst hmn
    omega
  · intro hone
    have he := hexact Tally.exact_start hone
    obtain ⟨m, hm, hon⟩ := hdisk
    refine ⟨?_, m, by rw [hm, he.value, hdue], hon⟩
    have hnodup := hwritten.nodup_iff.2 he.written.1
    refine List.Nodup.of_map UInt32.toNat ?_
    rw [List.map_map]
    exact hnodup

end

/-! ## Two assertions by the sample passkey -/

theorem sampleState_storedOnce {s : VaultState} {n : UInt32} {t : Option OffsetDateTime}
    {m : HashMap Uuid Bytes} (h : SampleState s [samplePasskey (Uuid.rep 1) n t] m) :
    StoredOnce s (Uuid.rep 1) (Uuid.rep 10) n := by
  obtain ⟨key, hu⟩ := h.unlocked
  refine ⟨⟨_, by rw [hu, HashMap.get_put_self], samplePasskey (Uuid.rep 1) n t, _, ?_, rfl, rfl⟩,
    ?_⟩
  · simp [sampleManifest, samplePasskey, KeyEntry.sample]
  · intro c u hc x _ _
    rw [hu, HashMap.get_put] at hc
    split at hc
    · assumption
    · simp at hc

noncomputable def sampleCall : AssertionArgs := ⟨sampleCbor, true, true⟩

/-- The passkey's next assertion, up to its last region. -/
theorem assert_steps {v : Vault} {n : UInt32} {t : Option OffsetDateTime} {b : Bytes}
    (h : Ready v n t b) (cs : List (Op GetAssertionOutcome)) (i : Nat)
    (hc : cs[i]? = some (sampleCall.call Crates.symbolic)) :
    ∃ o v', Pool.Steps Vault.Admits ⟨v, cs⟩ (List.replicate 4 (i, sampleNext))
        ⟨v', cs.set i (region (commitAssertion Crates.symbolic o))⟩ ∧
      o.keyId = Uuid.rep 1 ∧ o.newSignCount = n + 1 ∧ Ready v' n t b := by
  obtain ⟨o, v', hx, hk, hn, -, hv'⟩ := ready_assert h sampleNext_still
  have hcall : sampleCall.call Crates.symbolic = ((handleGetAssertion Crates.symbolic
      (ctap2Backend Crates.symbolic true) sampleRequest true true).mapError ctap2Failed).bind
        fun o => region (commitAssertion Crates.symbolic o) := by
    unfold AssertionArgs.call handleFido2GetAssertion
    simp only [sampleCall, parse_sampleCbor]
    rfl
  rw [hcall] at hc
  exact ⟨o, v', Pool.Steps.exec (Prog.exec_mapError.2 ⟨.ok o, rfl, hx⟩) rfl hc, hk, hn, hv'⟩

/-- Its last region. -/
theorem commit_step {v : Vault} {n : UInt32} {t : Option OffsetDateTime} {b : Bytes}
    (h : Ready v n t b) (cs : List (Op GetAssertionOutcome)) (i : Nat) {o : GetAssertionOutcome}
    (hc : cs[i]? = some (region (commitAssertion Crates.symbolic o))) (hk : o.keyId = Uuid.rep 1) :
    ∃ v', Pool.Steps Vault.Admits ⟨v, cs⟩ [(i, sampleNext)] ⟨v', cs.set i (.done (.ok o))⟩ ∧
      Ready v' o.newSignCount (some sampleNext.utc) b := by
  obtain ⟨v', hx, hv'⟩ := ready_commit h sampleNext_works hk
  refine ⟨v', ?_, hv'⟩
  have hstep := Pool.Step.mk (A := Vault.Admits) (e := sampleNext) hc (admits_sampleNext h.clock)
  simp only [enter_still sampleNext_still h.clock, hx] at hstep
  exact .cons hstep (.nil _)

/-- Two assertions that follow one another, with count 5 before them. -/
theorem counts_exact_sample : ∃ (v v' : Vault) (o o' : GetAssertionOutcome)
    (sched : List (Nat × In)),
    Pool.Steps Vault.Admits ⟨v, [sampleCall, sampleCall].map (AssertionArgs.call Crates.symbolic)⟩
      sched ⟨v', [o, o'].map fun o => .done (.ok o)⟩ ∧
    ([o, o'].map GetAssertionOutcome.newSignCount).Nodup ∧
    ∃ n' : UInt32, n'.toNat = 7 ∧
      OnDisk Crates.symbolic v' (Uuid.rep 10) (Counts · (Uuid.rep 1) n') := by
  obtain ⟨l, v, b, hrun, hv, -⟩ := samplePasskey_ready 5
  -- the first one, with all its turns
  obtain ⟨o, v₁, h1, hk, hn, hv₁⟩ := assert_steps hv
    [sampleCall.call Crates.symbolic, sampleCall.call Crates.symbolic] 0 rfl
  obtain ⟨v₂, h2, hv₂⟩ := commit_step hv₁
    [region (commitAssertion Crates.symbolic o), sampleCall.call Crates.symbolic] 0 rfl hk
  -- ... and then the second
  obtain ⟨o', v₃, h3, hk', hn', hv₃⟩ := assert_steps hv₂
    [.done (.ok o), sampleCall.call Crates.symbolic] 1 rfl
  obtain ⟨v₄, h4, -⟩ := commit_step hv₃
    [.done (.ok o), region (commitAssertion Crates.symbolic o')] 1 rfl hk'
  have hx :
    Pool.Steps Vault.Admits ⟨v, [sampleCall, sampleCall].map (AssertionArgs.call Crates.symbolic)⟩ _
      ⟨v₄, [o, o'].map fun o => .done (.ok o)⟩ := ((h1.append h2).append h3).append h4
  have hone : OneAtATime ((List.replicate 4 (0, sampleNext) ++ [(0, sampleNext)] ++
      List.replicate 4 (1, sampleNext) ++ [(1, sampleNext)]).map Prod.fst) := by
    refine oneAtATime_of_pairwise ?_
    simp [List.replicate]
  have hmax : (5 : UInt32).toNat + [o, o'].length < 2 ^ 32 := by
    simp only [List.length_cons, List.length_nil]
    decide
  obtain ⟨hnodup, n', hcount, hd⟩ := (counts_exact_iff Crates.symbolic Crates.symbolic_codec
    Crates.symbolic_aead (.inl sampleVault_created) hrun (sampleState_storedOnce hv.state) hx
    (by simp [hk, hk']) hmax (by simp)).2 hone
  exact ⟨v, v₄, o, o', _, hx, hnodup, n', hcount, hd⟩

/-- **Two assertions with one count.** Both read the count before either
writes it. -/
theorem count_returned_twice : ∃ (v₀ : Vault) (l : List Turn) (v : Vault) (k c : Uuid) (n : UInt32)
    (calls : List AssertionArgs) (os : List GetAssertionOutcome) (sched : List (Nat × In))
    (v' : Vault),
    Created Crates.symbolic v₀ ∧
    Run Crates.symbolic Vault.Admits v₀ l v ∧ StoredOnce v.state k c n ∧
    Pool.Steps Vault.Admits ⟨v, calls.map (AssertionArgs.call Crates.symbolic)⟩ sched
      ⟨v', os.map fun o => .done (.ok o)⟩ ∧
    (∀ o ∈ os, o.keyId = k) ∧ n.toNat + os.length < 2 ^ 32 ∧
    ¬ ((os.map GetAssertionOutcome.newSignCount).Nodup ∧
      ∃ n' : UInt32, n'.toNat = n.toNat + os.length ∧
      OnDisk Crates.symbolic v' c (Counts · k n')) := by
  obtain ⟨l, v, b, hrun, hv, -⟩ := samplePasskey_ready 5
  obtain ⟨o, v₁, h1, hk, hn, hv₁⟩ := assert_steps hv
    [sampleCall.call Crates.symbolic, sampleCall.call Crates.symbolic] 0 rfl
  obtain ⟨o', v₂, h2, hk', hn', hv₂⟩ := assert_steps hv₁
    [region (commitAssertion Crates.symbolic o), sampleCall.call Crates.symbolic] 1 rfl
  obtain ⟨v₃, h3, hv₃⟩ := commit_step hv₂ [region (commitAssertion Crates.symbolic o),
    region (commitAssertion Crates.symbolic o')] 0 rfl hk
  obtain ⟨v₄, h4, -⟩ := commit_step hv₃ [.done (.ok o),
    region (commitAssertion Crates.symbolic o')] 1 rfl hk'
  refine ⟨sampleVault, l, v, Uuid.rep 1, Uuid.rep 10, 5, [sampleCall, sampleCall], [o, o'], _, v₄,
    sampleVault_created, hrun, sampleState_storedOnce hv.state,
      ((h1.append h2).append h3).append h4, ?_,
    ?_, ?_⟩
  · simp [hk, hk']
  · simp only [List.length_cons, List.length_nil]
    decide
  · rintro ⟨hnodup, -⟩
    simp [hn, hn'] at hnodup

end VaultSigner.L5
