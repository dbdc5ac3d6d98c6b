import VaultSigner.L4Vault.Sample
import VaultSigner.L5Runs.Attempts

/-!
# Wiping the cache

`lock_all`, `lock_key` and `discard_key` return with the region that takes the
key out of the cache. A call that has opened the key by then, and not cached it
yet, puts it back.

Results:
* `cached_later`: what is in the cache after a wipe was put there after it.
* `wiping_final_iff`: a wipe is final exactly when no key is cached after a wipe
  that its verification preceded.
-/
namespace VaultSigner.L5
open VaultSigner.Core VaultSigner.L1 VaultSigner.L2.Throttle VaultSigner.L3 VaultSigner.L4
open VaultSigner.L2

/-- The region puts `k` into the cache. -/
def Caches (m : Region) (k : Uuid) : Prop :=
  ∃ sk secs, m.after.hist = .cached k sk secs m.input.now :: m.before.hist

/-- A call that has wiped `k` once it returns. -/
inductive Wipes (C : Crates) (k : Uuid) : Call → FacadeResult Reply → Prop
  | lockAll {r : FacadeResult Reply} : Wipes C k .lockAll r
  | lockKey {s : String} {r : FacadeResult Reply} (h : C.uuidParse s = .ok k) :
      Wipes C k (.lockKey s) r
  | discardKey {c s t : String} {a : Reply} (h : parseUuid C s = .ok k) :
      Wipes C k (.discardKey c s t) (.ok a)

section
variable (C : Crates) (v : Vault) (calls : List Call)

/-- The calls before any of their regions. -/
def started : Pool In Vault FacadeError Reply := ⟨v, calls.map (·.run C)⟩

/-- After the moves `t`, call `j` returns from wiping `k` with its move `n`. -/
structure WipeReturns (t : List (Nat × Region)) (j : Nat) (n : Region) (k : Uuid) : Prop where
  returned : ∃ p call r, Pool.Trace Vault.Admits (started C v calls) (t ++ [(j, n)]) p ∧
    calls[j]? = some call ∧ p.calls[j]? = some (.done r) ∧ Wipes C k call r

/-- The cache entry `e` of `k` comes from the moves `t`: a call opens the key in
them, and the last caching of `k` among them is that call's. -/
inductive CachedIn (t : List (Nat × Region)) (k : Uuid) (e : Retention.CachedKey) : Prop
  | mk {a b : List (Nat × Region)} {i : Nat} {m o : Region} (split : t = a ++ (i, m) :: b)
      (caches : Caches m k) (entry : m.after.retention.get k = some e)
      (last : ∀ x ∈ b, ¬ Caches x.2 k) (mem : o ∈ own i a) (opens : OpensAs o k (.ok e.bytes)) :
      CachedIn t k e

/-- In every state that `t` goes through, what is cached for `k` after a wipe of
`k` was verified after that wipe. -/
def WipingFinal (t : List (Nat × Region)) : Prop :=
  ∀ t₁ j n t₂ k p, WipeReturns C v calls t₁ j n k → t₁ ++ (j, n) :: t₂ <+: t →
    Pool.Trace Vault.Admits (started C v calls) (t₁ ++ (j, n) :: t₂) p →
    ∀ e, p.shared.retention.get k = some e → CachedIn t₂ k e

/-- A call caches a key that it opened before a wipe of the key returned. -/
inductive PutBack (t : List (Nat × Region)) : Prop
  | mk {t₁ t₂ : List (Nat × Region)} {i j : Nat} {m n o : Region} {k : Uuid} {sk : Bytes}
      (mem : o ∈ own i t₁) (opens : OpensAs o k (.ok sk)) (wipe : WipeReturns C v calls t₁ j n k)
      (splits : t₁ ++ (j, n) :: (t₂ ++ [(i, m)]) <+: t) (caches : Caches m k) : PutBack t

end

/-! ## One move -/

section
variable {C : Crates} {kind : Kind} {x y : Phase} {m : Region} {k : Uuid}

theorem caches_of_hist {ev : Event} (h : m.after.hist = ev :: m.before.hist) (hc : Caches m k) :
    Tries ev := by
  obtain ⟨sk, secs, hh⟩ := hc
  rw [h] at hh
  rw [(List.cons.inj hh).1]
  trivial

theorem not_caches_of_hist (h : m.after.hist = m.before.hist) : ¬ Caches m k := by
  rintro ⟨sk, secs, hh⟩
  rw [h] at hh
  exact absurd (congrArg List.length hh) (by simp)

theorem OpensAs.not_caches {j : Uuid} {r : VaultResult Bytes} (h : OpensAs m j r) :
    ¬ Caches m k := by
  rintro ⟨sk, secs, hh⟩
  obtain ⟨b, pw, ty, label, s, ho⟩ := h
  rw [ho] at hh
  cases (List.cons.inj hh).1

/-- Only the holder of an open key caches it. -/
theorem attempt_caches (h : Attempt C kind x m y) (hc : Caches m k) : ∃ sk, x = .holding k sk ∧
    (∃ e, m.after.retention.get k = some e ∧ e.bytes = sk) := by
  cases h with
  | idle hx h =>
    rcases h.hist with hh | ⟨ev, hh, hev⟩
    · exact absurd hc (not_caches_of_hist hh)
    · exact absurd (caches_of_hist hh hc) hev
  | check hx h =>
    rcases h.hist with hh | ⟨ev, hh, hev⟩
    · exact absurd hc (not_caches_of_hist hh)
    · exact absurd (caches_of_hist hh hc) hev
  | opens h => exact absurd hc h.not_caches
  | records hist => exact absurd hc (not_caches_of_hist hist)
  | @caches j sk _ secs hist throttle entry =>
    obtain ⟨sk', secs', hh⟩ := hc
    rw [hist] at hh
    cases (List.cons.inj hh).1
    exact ⟨sk, rfl, entry⟩
  | reseals h => exact absurd hc h.not_caches
  | unlocks hk hx hist => exact absurd hc (not_caches_of_hist hist)
  | again hk hx hist => exact absurd hc (not_caches_of_hist hist)

/-- Any other move leaves of `k` what was cached before. -/
theorem attempt_keeps (h : Attempt C kind x m y) (hc : ¬ Caches m k) {e : Retention.CachedKey}
    (he : m.after.retention.get k = some e) : m.before.retention.get k = some e := by
  cases h with
  | idle hx h => exact h.retention k e he
  | check hx h => exact h.retention k e he
  | opens h throttle retention => exact retention k e he
  | records hist throttle retention => exact retention k e he
  | @caches j sk _ secs hist throttle entry retention =>
    refine retention k e ?_ he
    rintro rfl
    exact hc ⟨sk, secs, hist⟩
  | reseals h throttle retention => exact retention k e he
  | unlocks hk hx hist throttle retention => exact retention k e he
  | again hk hx hist throttle retention => exact retention k e he

/-- A verification, and what it leaves open. -/
theorem attempt_opens (h : Attempt C kind x m y) {r : VaultResult Bytes} (ho : OpensAs m k r) :
    x.Untried ∧ ¬ y.Untried := by
  have hsame : m.after.hist = m.before.hist → False := fun hh => not_opensAs_of_hist hh k r ho
  cases h with
  | idle hx h => exact absurd ho (h.untouched.unopened k r)
  | check hx h => exact absurd ho (h.untouched.unopened k r)
  | opens h => exact ⟨trivial, id⟩
  | records hist => exact (hsame hist).elim
  | caches secs hist => exact absurd ⟨_, _, hist⟩ ho.not_caches
  | reseals h => exact ⟨trivial, id⟩
  | unlocks hk hx hist => exact (hsame hist).elim
  | again hk hx hist => exact (hsame hist).elim

/-- A call does not come back to trying. -/
theorem attempt_tried (h : Attempt C kind x m y) (hx : ¬ x.Untried) : ¬ y.Untried := by
  cases h with
  | @idle x _ hs h =>
    cases x with
    | fresh => exact absurd trivial hx
    | cleared => exact absurd trivial hx
    | _ => exact id
  | check hu => exact absurd hu hx
  | @records k _ r =>
    cases r with
    | ok sk => exact id
    | error z => exact id
  | _ => exact id

/-! ## One call -/

/-- What is open, or was found so, was opened by one of the moves. -/
def Phase.Known (w : List Region) : Phase → Prop
  | .opened k r => ∃ o ∈ w, OpensAs o k r
  | .holding k sk => ∃ o ∈ w, OpensAs o k (.ok sk)
  | _ => True

theorem along_known {w : List Region} (h : Prog.Along (Attempt C kind) x w y) :
    ∀ {w₀ : List Region}, x.Known w₀ → y.Known (w₀ ++ w) := by
  induction h with
  | nil x =>
    intro w₀ hx
    rwa [List.append_nil]
  | @cons x z y m w h _ ih =>
    intro w₀ hx
    have hz : z.Known (w₀ ++ [m]) := by
      cases h with
      | @idle x _ hs h =>
        cases x with
        | holding k sk =>
          obtain ⟨o, ho, hopens⟩ := hx
          exact ⟨o, List.mem_append_left _ ho, hopens⟩
        | opened => cases hs
        | _ => trivial
      | @opens k _ _ r h => exact ⟨m, by simp, h⟩
      | @records k _ r =>
        obtain ⟨o, ho, hopens⟩ := hx
        cases r with
        | ok sk => exact ⟨o, List.mem_append_left _ ho, hopens⟩
        | error z => trivial
      | _ => trivial
    have hy := ih hz
    rwa [List.append_assoc] at hy

theorem along_unopened {w : List Region} (h : Prog.Along (Attempt C kind) x w y) :
    ¬ x.Untried → ∀ o ∈ w, ∀ k r, ¬ OpensAs o k r := by
  induction h with
  | nil x => simp
  | @cons x z y m w h _ ih =>
    intro hx o ho k r hopens
    rcases List.mem_cons.1 ho with rfl | ho
    · exact hx (attempt_opens h hopens).1
    · exact ih (attempt_tried h hx) o ho k r hopens

/-- A call opens one blob at most. -/
theorem opens_once {a b : List Region} {r : VaultResult Bytes}
    (h : Prog.Along (Attempt C kind) x (a ++ m :: b) y) (ho : OpensAs m k r) :
    ∀ o ∈ b, ∀ j r, ¬ OpensAs o j r := by
  obtain ⟨z, -, hz⟩ := h.split
  cases hz with
  | cons hm hb => exact along_unopened hb (attempt_opens hm ho).2

/-- The last region of a wipe. -/
theorem wipes_walk {A : Vault → In → Prop} {call : Call} {r : FacadeResult Reply} {w : List Region}
    (hw : Wipes C k call r) (h : Prog.Walk A (call.run C) (w ++ [m]) (.done r)) :
    m.after.retention.get k = none := by
  cases hw with
  | lockAll =>
    obtain ⟨q, -, h⟩ := walk_replying.1 h
    unfold lockAll at h
    obtain ⟨m₁, w₁, hw₁, -, -, h⟩ := walk_region_bind.1 h
    rw [Prog.done_ok_bind] at h
    obtain ⟨m₂, rfl, -, hm₂, -⟩ := walk_op.1 h
    obtain ⟨-, hm⟩ := List.append_inj' (hw₁.trans (by rfl : m₁ :: [m₂] = [m₁] ++ [m₂])) rfl
    cases hm
    rw [hm₂]
    exact HashMap.get_empty k
  | lockKey hk =>
    obtain ⟨q, -, h⟩ := walk_replying.1 h
    unfold lockKey at h
    rw [hk] at h
    obtain ⟨m₁, hw₁, -, hm₁, -⟩ := walk_op.1 h
    obtain ⟨-, hm⟩ := List.append_inj' (hw₁.trans (by rfl : [m₁] = [] ++ [m₁])) rfl
    cases hm
    rw [hm₁]
    exact HashMap.get_del_self _ _
  | @discardKey c s t a hk =>
    obtain ⟨q, hq, h⟩ := walk_replying.1 h
    unfold discardKey at h
    rw [hk] at h
    cases hc : parseUuid C c with
    | error x =>
      rw [hc] at h
      obtain ⟨hnil, -⟩ := Prog.walk_done.1 h
      simp at hnil
    | ok c =>
      rw [hc] at h
      obtain ⟨m₁, w₁, hw₁, -, -, h⟩ := walk_region_bind.1 h
      cases hd : (discardRegion C c k t m₁.input (m₁.before.enter m₁.input)).1 with
      | error x =>
        rw [hd] at h
        obtain ⟨-, rfl⟩ := Prog.walk_done.1 h
        cases hq
      | ok _ =>
        rw [hd, Prog.done_ok_bind] at h
        obtain ⟨m₂, rfl, -, hm₂, -⟩ := walk_op.1 h
        obtain ⟨-, hm⟩ := List.append_inj' (hw₁.trans (by rfl : m₁ :: [m₂] = [m₁] ++ [m₂])) rfl
        cases hm
        rw [hm₂]
        exact HashMap.get_del_self _ _

/-! ## Interleavings -/

variable {v : Vault} {calls : List Call} {p : Pool In Vault FacadeError Reply}

theorem started_call {i : Nat} {call : Call} (h : calls[i]? = some call) :
    (started C v calls).calls[i]? = some (call.run C) := by
  simp [started, List.getElem?_map, h]

/-- Walks of the calls, whose moves together are a chain. -/
theorem started_trace {t : List (Nat × Region)} {v' : Vault} (hc : Chain v (t.map Prod.snd) v')
    (hlt : ∀ x ∈ t, x.1 < calls.length)
    (hw : ∀ i call, calls[i]? = some call → ∃ q, Prog.Walk Vault.Admits (call.run C) (own i t) q) :
    ∃ p, Pool.Trace Vault.Admits (started C v calls) t p ∧ p.shared = v' := by
  obtain ⟨cs, h⟩ := Pool.trace_of_walks (E := In) (A := Vault.Admits) hc
    (show ∀ x ∈ t, x.1 < (started C v calls).calls.length by simpa [started] using hlt)
        fun i q hq => by
      obtain ⟨call, hcall, rfl⟩ : ∃ call, calls[i]? = some call ∧ call.run C = q := by
        simpa [started, List.getElem?_map, Option.map_eq_some_iff] using hq
      exact hw i call hcall
  exact ⟨_, h, rfl⟩

/-- ... of two calls, which end where their walks lead. -/
theorem started_two {a b : Call} {q₁ q₂ : Op Reply} {t : List (Nat × Region)} {v' : Vault}
    (hc : Chain v (t.map Prod.snd) v') (hlt : ∀ x ∈ t, x.1 < 2)
    (h₁ : Prog.Walk Vault.Admits (a.run C) (own 0 t) q₁)
    (h₂ : Prog.Walk Vault.Admits (b.run C) (own 1 t) q₂) :
    ∃ p, Pool.Trace Vault.Admits (started C v [a, b]) t p ∧ p.shared = v' ∧
      p.calls[0]? = some q₁ ∧ p.calls[1]? = some q₂ := by
  have htwo : ∀ x ∈ t, x.1 < [a, b].length := hlt
  obtain ⟨p, h, hp⟩ := started_trace (C := C) hc htwo fun i call hi => by
    cases i with
    | zero => cases hi; exact ⟨_, h₁⟩
    | succ i =>
      cases i with
      | zero => cases hi; exact ⟨_, h₂⟩
      | succ i => cases hi
  exact ⟨p, h, hp, h.at rfl h₁, h.at rfl h₂⟩

/-- A move of an interleaving, as a step of its call. -/
theorem trace_attempt {a b : List (Nat × Region)} {i : Nat}
    (h : Pool.Trace Vault.Admits (started C v calls) (a ++ (i, m) :: b) p) :
    ∃ call x y, calls[i]? = some call ∧ Prog.Along (Attempt C (kindOf call)) .fresh (own i a) x ∧
      Attempt C (kindOf call) x m y := by
  obtain ⟨q, hq⟩ := h.call (i := i) (m := m) (by simp)
  obtain ⟨call, hcall, rfl⟩ : ∃ call, calls[i]? = some call ∧ call.run C = q := by
    simpa [started, List.getElem?_map, Option.map_eq_some_iff] using hq
  obtain ⟨q', -, hw⟩ := h.walk hq
  rw [own_append, own_cons_self] at hw
  obtain ⟨z, hz, -⟩ := Prog.Follows.walk hw (call_follows C Vault.Admits call)
  obtain ⟨x, hx, hy⟩ := hz.split
  cases hy with
  | cons hm _ => exact ⟨call, x, _, hcall, hx, hm⟩

/-- The call that has returned makes no move any more. -/
theorem WipeReturns.over {t₁ t₂ : List (Nat × Region)} {j : Nat} {n : Region}
    (hw : WipeReturns C v calls t₁ j n k)
    (h : Pool.Trace Vault.Admits (started C v calls) (t₁ ++ (j, n) :: t₂) p) : own j t₂ = [] := by
  obtain ⟨p₁, call, r, h₁, hcall, hdone, -⟩ := hw.returned
  have hq := started_call (C := C) (v := v) hcall
  obtain ⟨q, hq₁, hwalk₁⟩ := h₁.walk hq
  rw [hdone] at hq₁
  cases hq₁
  obtain ⟨q', -, hwalk⟩ := h.walk hq
  rw [show t₁ ++ (j, n) :: t₂ = t₁ ++ [(j, n)] ++ t₂ by simp, own_append] at hwalk
  obtain ⟨z, hz, hrest⟩ := hwalk.split
  rw [hwalk₁.unique hz] at hrest
  exact hrest.not_done

/-- Where a wipe returns, the key is not cached. -/
theorem WipeReturns.empty {t : List (Nat × Region)} {j : Nat} {n : Region}
    (hw : WipeReturns C v calls t j n k) : n.after.retention.get k = none := by
  obtain ⟨p₁, call, r, h₁, hcall, hdone, hwipes⟩ := hw.returned
  have hq := started_call (C := C) (v := v) hcall
  obtain ⟨q, hq₁, hwalk⟩ := h₁.walk hq
  rw [hdone] at hq₁
  cases hq₁
  rw [own_append, own_cons_self, own_nil] at hwalk
  exact wipes_walk hwipes hwalk

/-- An entry was there before, or comes from the last caching. -/
theorem chain_caches {e : Retention.CachedKey} {s' : Vault} (he : s'.retention.get k = some e) :
    ∀ {t : List (Nat × Region)} {s : Vault}, Chain s (t.map Prod.snd) s' →
      (∀ x ∈ t, ¬ Caches x.2 k → ∀ e, x.2.after.retention.get k = some e →
        x.2.before.retention.get k = some e) →
      (s.retention.get k = some e ∧ ∀ x ∈ t, ¬ Caches x.2 k) ∨
      ∃ a i m b, t = a ++ (i, m) :: b ∧ Caches m k ∧ m.after.retention.get k = some e ∧
        ∀ x ∈ b, ¬ Caches x.2 k
  | [], s, hc, _ => .inl ⟨by rw [← show s' = s from hc]; exact he, by simp⟩
  | (i, m) :: t, s, ⟨hm, hc⟩, hk => by
    rcases chain_caches he hc (fun x hx => hk x (List.mem_cons_of_mem _ hx)) with
      ⟨hget, hnone⟩ | ⟨a, j, n, b, rfl, hcaches, hget, hlast⟩
    · by_cases hcaches : Caches m k
      · exact .inr ⟨[], i, m, t, rfl, hcaches, hget, hnone⟩
      · have hbefore := hk (i, m) (List.mem_cons_self ..) hcaches e hget
        refine .inl ⟨hm ▸ hbefore, fun x hx => ?_⟩
        rcases List.mem_cons.1 hx with rfl | hx
        · exact hcaches
        · exact hnone x hx
    · exact .inr ⟨(i, m) :: a, j, n, b, rfl, hcaches, hget, hlast⟩

/-- **What is cached after a wipe was put there after it**, by a call that had
opened the key. -/
theorem cached_later {t₁ t₂ : List (Nat × Region)} {j : Nat} {n : Region}
    (hw : WipeReturns C v calls t₁ j n k)
    (h : Pool.Trace Vault.Admits (started C v calls) (t₁ ++ (j, n) :: t₂) p)
    {e : Retention.CachedKey} (he : p.shared.retention.get k = some e) :
    ∃ a i m b o, t₂ = a ++ (i, m) :: b ∧ i ≠ j ∧ Caches m k ∧ m.after.retention.get k = some e ∧
      (∀ x ∈ b, ¬ Caches x.2 k) ∧ o ∈ own i t₁ ++ own i a ∧ OpensAs o k (.ok e.bytes) := by
  have hchain := h.chain
  rw [List.map_append, List.map_cons, chain_append] at hchain
  obtain ⟨s, -, -, hchain⟩ := hchain
  have hkeeps : ∀ x ∈ t₂, ¬ Caches x.2 k → ∀ e, x.2.after.retention.get k = some e →
      x.2.before.retention.get k = some e := by
    rintro ⟨i, m⟩ hx hc e he
    obtain ⟨a, b, rfl⟩ := List.append_of_mem hx
    rw [show t₁ ++ (j, n) :: (a ++ (i, m) :: b) = t₁ ++ (j, n) :: a ++ (i, m) :: b by simp] at h
    obtain ⟨call, x, y, -, -, hm⟩ := trace_attempt h
    exact attempt_keeps hm hc he
  rcases chain_caches he hchain hkeeps with ⟨hget, -⟩ | ⟨a, i, m, b, rfl, hc, hget, hlast⟩
  · rw [hw.empty] at hget
    cases hget
  · have hij : i ≠ j := by
      rintro rfl
      have hnil := hw.over h
      simp at hnil
    rw [show t₁ ++ (j, n) :: (a ++ (i, m) :: b) = t₁ ++ (j, n) :: a ++ (i, m) :: b by simp] at h
    obtain ⟨call, x, y, -, hx, hm⟩ := trace_attempt h
    obtain ⟨sk, rfl, e', he', rfl⟩ := attempt_caches hm hc
    rw [hget] at he'
    cases he'
    have hknown : Phase.Known ([] ++ own i (t₁ ++ (j, n) :: a)) (.holding k e.bytes) :=
      along_known hx trivial
    obtain ⟨o, ho, hopens⟩ := hknown
    rw [List.nil_append, own_append, own_cons_ne (Ne.symm hij)] at ho
    exact ⟨a, i, m, b, o, rfl, hij, hc, hget, hlast, ho, hopens⟩

end

/-- **A wipe is final.** In every state of an interleaving, what is cached for
a key after `lock_all`, `lock_key` or a successful `discard_key` has returned
was verified after that return, exactly when no call caches a key that it
opened before such a return. -/
theorem wiping_final_iff (C : Crates) {v : Vault} {calls : List Call} {t : List (Nat × Region)}
    {p : Pool In Vault FacadeError Reply} (h : Pool.Trace Vault.Admits (started C v calls) t p) :
    WipingFinal C v calls t ↔ ¬ PutBack C v calls t := by
  constructor
  · rintro hfinal ⟨mem, opens, wipe, splits, hcaches⟩
    rename_i t₁ t₂ i j m n o k sk
    obtain ⟨rest, rfl⟩ := splits
    obtain ⟨q, hq, -⟩ := h.split
    -- the state that the caching leaves
    have hsplit : Pool.Trace Vault.Admits (started C v calls)
        (t₁ ++ (j, n) :: t₂ ++ [(i, m)]) q := by
      simpa using hq
    obtain ⟨call, x, y, -, hx, hm⟩ := trace_attempt hsplit
    obtain ⟨sk', rfl, e, he, -⟩ := attempt_caches hm hcaches
    have hin := hfinal t₁ j n (t₂ ++ [(i, m)]) k q wipe (List.prefix_append ..) hq e
      (by rw [hsplit.last]; exact he)
    obtain ⟨ht, -, -, hlast, hmem, hopens⟩ := hin
    rename_i a b i' m' o'
    rcases List.eq_nil_or_concat b with rfl | ⟨b, z, rfl⟩
    · obtain ⟨rfl, hz⟩ := List.append_inj' ht rfl
      cases hz
      -- the same call would open the key twice
      rw [own_append] at hx
      obtain ⟨w, w', hw⟩ := List.append_of_mem mem
      rw [hw, List.append_assoc, List.cons_append] at hx
      refine opens_once hx opens o' ?_ k _ hopens
      refine List.mem_append_right _ ?_
      by_cases hij : j = i
      · subst hij
        rw [own_cons_self]
        exact List.mem_cons_of_mem _ hmem
      · rw [own_cons_ne hij]
        exact hmem
    · have ht' : t₂ ++ [(i, m)] = (a ++ (i', m') :: b) ++ [z] := by simpa using ht
      obtain ⟨-, hz⟩ := List.append_inj' ht' rfl
      cases hz
      exact hlast (i, m) (by simp) hcaches
  · intro hno t₁ j n t₂ k p' hwipe hprefix htrace e he
    obtain ⟨a, i, m, b, o, rfl, hij, hc, hget, hlast, ho, hopens⟩ := cached_later hwipe htrace he
    rcases List.mem_append.1 ho with ho | ho
    · have hsub : t₁ ++ (j, n) :: (a ++ [(i, m)]) <+: t := List.IsPrefix.trans ⟨b, by simp⟩ hprefix
      exact absurd (.mk ho hopens hwipe hsub hc) hno
    · exact .mk rfl hc hget hlast ho hopens

/-- The moves of `lock_all`. -/
def lockAllMoves (v₁ v₂ : Vault) (e : In) : List Region :=
  [⟨v₁, e, v₁.setState { v₁.state with unlocked := ∅ }⟩,
    ⟨v₂, e, (v₂.setRetention (Retention.wipeAll v₂.retention)).log .lockedAll⟩]

theorem lockAll_moves {v₁ v₂ : Vault} {e : In} (he : e.Still 0) (hv₁ : v₁.clock = 0)
    (hv₂ : v₂.clock = 0) (C : Crates) :
    Prog.Walk Vault.Admits (Call.lockAll.run C) (lockAllMoves v₁ v₂ e) (.done (.ok .unit)) := by
  refine walk_replying.2 ⟨.ok (), rfl, ?_⟩
  unfold lockAll
  refine Prog.Walk.seq (w := [_]) (a := ()) (Prog.exec_move (exec_region_still he hv₁ _ rfl)) ?_
  exact Prog.exec_move (exec_region_still he hv₂ _ rfl)

/-- The moves of `unlock_key` with the right passphrase. -/
def unlockedMoves (C : Crates) (v₁ v₂ v₃ v₄ v₅ : Vault) (e : In) (b : Bytes) : List Region :=
  triedMoves C v₁ v₁ v₂ v₃ v₄ e (Uuid.rep 1) b "pw" .ed25519 "passkey" (.ok sampleSecret) ++
    [⟨v₅, e,
      (v₅.setRetention (v₅.retention.put (Uuid.rep 1) ⟨sampleSecret, 300000000000, false⟩)).log
      (.cached (Uuid.rep 1) sampleSecret 300 0)⟩]

theorem unlockKey_moves {v₁ v₂ v₃ v₄ v₅ : Vault} {e : In} {n : UInt32} {t : Option OffsetDateTime}
    {b : Bytes} (he : e.Still 0) (h₁ : v₁.clock = 0) (h₃ : v₃.clock = 0) (h₄ : v₄.clock = 0)
    (h₅ : v₅.clock = 0) (ht : v₁.throttle = ThrottleTracker.new) (h₂ : Imported v₂ n t b) :
    Prog.Walk Vault.Admits ((unlockKeyCall "pw").run Crates.symbolic)
      (unlockedMoves Crates.symbolic v₁ v₂ v₃ v₄ v₅ e b) (.done (.ok .unit)) := by
  obtain ⟨blob, hb, ho⟩ := opens_ok.1 h₂.seals
  have hcheck : v₁.throttle.check (SecretId.key Crates.symbolic (Uuid.rep 1)) 0 = .ok () := by
    rw [ht]
    rfl
  have hdec := decryptKey_moves he (Nat.le_of_eq h₁) (enter_still he h₁).symm h₂.clock h₃ h₄ hcheck
    (h₂.state.lookupBlob (HashMap.get_put_self _ _ _)) hb ho
  have hcache : Prog.Exec Vault.Admits (cacheKey (Uuid.rep 1) sampleSecret 300 :
      Prog In Vault FacadeError _) v₅ [e] (.ok (.ok ()))
        ((v₅.setRetention (v₅.retention.put (Uuid.rep 1)
        ⟨sampleSecret, 300000000000, false⟩)).log (.cached (Uuid.rep 1) sampleSecret 300 0)) := by
    refine exec_ask_still he h₅ _ ?_
    rw [he.now]
    rfl
  refine walk_replying.2 ⟨.ok (), rfl, ?_⟩
  unfold unlockKey
  rw [uuidParse_symbolic, uuidParse_symbolic]
  exact hdec.seq (Prog.walk_bind.2 (.inr ⟨.ok (), [_], [], rfl, Prog.exec_move hcache, .nil _⟩))

/-- `lock_all` beside an `unlock_key`: it wipes the key that was cached after it
had locked the compartments. -/
theorem wiping_final_sample : ∃ (tn : Turn) (v : Vault) (t : List (Nat × Region))
    (p : Pool In Vault FacadeError Reply),
    Run Crates.symbolic Vault.Admits sampleVault [tn] v ∧
    Pool.Trace Vault.Admits (started Crates.symbolic v [unlockKeyCall "pw", .lockAll]) t p ∧
    p.calls[0]? = some (.done (.ok .unit)) ∧ p.calls[1]? = some (.done (.ok .unit)) ∧
    (∃ x ∈ t, Caches x.2 (Uuid.rep 1)) ∧ p.shared.retention.get (Uuid.rep 1) = none ∧
    WipingFinal Crates.symbolic v [unlockKeyCall "pw", .lockAll] t := by
  obtain ⟨tn, v, b, hrun, hv, -⟩ := samplePasskey_imported 0
  obtain ⟨v₁, hv₁⟩ : ∃ v₁, v₁ = v.log (.opened (Uuid.rep 1) b (utf8 "pw") .ed25519 "passkey"
    (.ok sampleSecret) v.state) := ⟨_, rfl⟩
  obtain ⟨v₂, hv₂⟩ : ∃ v₂, v₂ = v₁.setState { v₁.state with unlocked := ∅ } := ⟨_, rfl⟩
  obtain ⟨v₃, hv₃⟩ : ∃ v₃, v₃ = v₂.setThrottle (v₂.throttle.recordSuccess
    (SecretId.key Crates.symbolic (Uuid.rep 1))) := ⟨_, rfl⟩
  obtain ⟨v₄, hv₄⟩ : ∃ v₄, v₄ = (v₃.setRetention (v₃.retention.put (Uuid.rep 1)
    ⟨sampleSecret, 300000000000, false⟩)).log (.cached (Uuid.rep 1) sampleSecret 300 0) := ⟨_, rfl⟩
  obtain ⟨v₅, hv₅⟩ : ∃ v₅, v₅ = (v₄.setRetention (Retention.wipeAll v₄.retention)).log .lockedAll :=
    ⟨_, rfl⟩
  have hc₁ : v₁.clock = 0 := by rw [hv₁]; exact hv.clock
  have hc₂ : v₂.clock = 0 := by rw [hv₂]; exact hc₁
  have hc₃ : v₃.clock = 0 := by rw [hv₃]; exact hc₂
  have hc₄ : v₄.clock = 0 := by rw [hv₄]; exact hc₃
  have hunlock := unlockKey_moves sampleNext_still hv.clock hv.clock hc₂ hc₃ hv.throttle hv
  have hlock := lockAll_moves sampleNext_still hc₁ hc₄ Crates.symbolic
  -- `lock_all` locks the compartments while `unlock_key` holds the open key
  obtain ⟨u, hu⟩ : ∃ u : List (Nat × Region), u = [(0, ⟨v, sampleNext, v⟩), (0, ⟨v, sampleNext, v⟩),
    (0, ⟨v, sampleNext, v₁⟩), (1, ⟨v₁, sampleNext, v₂⟩), (0, ⟨v₂, sampleNext, v₃⟩),
    (0, ⟨v₃, sampleNext, v₄⟩)] := ⟨_, rfl⟩
  obtain ⟨last, hlast⟩ : ∃ last : Region, last = ⟨v₄, sampleNext, v₅⟩ := ⟨_, rfl⟩
  have hown₀ : own 0 (u ++ [(1, last)]) =
      unlockedMoves Crates.symbolic v v v v₂ v₃ sampleNext b := by
    rw [hu, hv₄, hv₃, hv₁]
    rfl
  have hown₁ : own 1 (u ++ [(1, last)]) = lockAllMoves v₁ v₄ sampleNext := by
    rw [hu, hlast, hv₅, hv₂]
    rfl
  have hchain : Chain v ((u ++ [(1, last)]).map Prod.snd) v₅ := by
    rw [hu, hlast]
    exact ⟨rfl, rfl, rfl, rfl, rfl, rfl, rfl, rfl⟩
  obtain ⟨p, htrace, hp, hdone₀, hdone₁⟩ :=
    started_two hchain (by simp [hu]) (hown₀ ▸ hunlock) (hown₁ ▸ hlock)
  refine ⟨tn, v, _, p, hrun, htrace, hdone₀, hdone₁,
    ⟨(0, ⟨v₃, sampleNext, v₄⟩), by simp [hu], sampleSecret, 300, by rw [hv₄]; rfl⟩, ?_,
    (wiping_final_iff Crates.symbolic htrace).2 ?_⟩
  · rw [hp, hv₅]
    exact HashMap.get_empty _
  · rintro ⟨-, -, wipe, splits, -⟩
    rename_i t₁ t₂ i j m n o k sk
    -- only `lock_all` wipes, and its last move is the last of all
    obtain ⟨rest, hrest⟩ := splits
    obtain ⟨-, call, r, -, hcall, -, hwipes⟩ := wipe.returned
    obtain rfl : j = 1 := by
      cases j with
      | zero => cases hcall; cases hwipes
      | succ j =>
        cases j with
        | zero => rfl
        | succ j => cases hcall
    have hlater : t₁ ++ (1, n) :: (t₂ ++ (i, m) :: rest) = u ++ [(1, last)] := by simpa using hrest
    have hover := wipe.over (hlater ▸ htrace)
    rcases List.eq_nil_or_concat (t₂ ++ (i, m) :: rest) with hnil | ⟨w, x, hw⟩
    · simp at hnil
    · rw [hw, List.concat_eq_append] at hlater hover
      obtain ⟨-, hx⟩ := List.append_inj' (show t₁ ++ (1, n) :: w ++ [x] = u ++ [(1, last)] by
        simpa using hlater) rfl
      cases hx
      rw [own_append, own_cons_self] at hover
      simp at hover

/-- A key unlocked while the vault is locked: it is cached after `lock_all` has
returned. -/
theorem unlock_outlives_lock : ∃ (tn : Turn) (v : Vault) (t : List (Nat × Region))
    (p : Pool In Vault FacadeError Reply) (e : Retention.CachedKey),
    Run Crates.symbolic Vault.Admits sampleVault [tn] v ∧
    Pool.Trace Vault.Admits (started Crates.symbolic v [unlockKeyCall "pw", .lockAll]) t p ∧
    p.calls[1]? = some (.done (.ok .unit)) ∧ p.shared.retention.get (Uuid.rep 1) = some e ∧
    ¬ WipingFinal Crates.symbolic v [unlockKeyCall "pw", .lockAll] t := by
  obtain ⟨tn, v, b, hrun, hv, -⟩ := samplePasskey_imported 0
  obtain ⟨v₁, hv₁⟩ : ∃ v₁, v₁ = v.log (.opened (Uuid.rep 1) b (utf8 "pw") .ed25519 "passkey"
    (.ok sampleSecret) v.state) := ⟨_, rfl⟩
  obtain ⟨v₂, hv₂⟩ : ∃ v₂, v₂ = v₁.setState { v₁.state with unlocked := ∅ } := ⟨_, rfl⟩
  obtain ⟨v₃, hv₃⟩ : ∃ v₃, v₃ = (v₂.setRetention (Retention.wipeAll v₂.retention)).log .lockedAll :=
    ⟨_, rfl⟩
  obtain ⟨v₄, hv₄⟩ : ∃ v₄, v₄ = v₃.setThrottle (v₃.throttle.recordSuccess
    (SecretId.key Crates.symbolic (Uuid.rep 1))) := ⟨_, rfl⟩
  obtain ⟨v₅, hv₅⟩ : ∃ v₅, v₅ = (v₄.setRetention (v₄.retention.put (Uuid.rep 1)
    ⟨sampleSecret, 300000000000, false⟩)).log (.cached (Uuid.rep 1) sampleSecret 300 0) := ⟨_, rfl⟩
  have hc₁ : v₁.clock = 0 := by rw [hv₁]; exact hv.clock
  have hc₂ : v₂.clock = 0 := by rw [hv₂]; exact hc₁
  have hc₃ : v₃.clock = 0 := by rw [hv₃]; exact hc₂
  have hc₄ : v₄.clock = 0 := by rw [hv₄]; exact hc₃
  have hunlock := unlockKey_moves sampleNext_still hv.clock hv.clock hc₃ hc₄ hv.throttle hv
  have hlock := lockAll_moves sampleNext_still hc₁ hc₂ Crates.symbolic
  -- `unlock_key` opens the key, `lock_all` runs, `unlock_key` goes on
  obtain ⟨t₁, ht₁⟩ : ∃ t₁ : List (Nat × Region),
    t₁ = [(0, ⟨v, sampleNext, v⟩), (0, ⟨v, sampleNext, v⟩),
    (0, ⟨v, sampleNext, v₁⟩), (1, ⟨v₁, sampleNext, v₂⟩)] := ⟨_, rfl⟩
  obtain ⟨t₂, ht₂⟩ : ∃ t₂ : List (Nat × Region),
      t₂ = [(0, ⟨v₃, sampleNext, v₄⟩), (0, ⟨v₄, sampleNext, v₅⟩)] :=
    ⟨_, rfl⟩
  have hown₀ : own 0 (t₁ ++ (1, ⟨v₂, sampleNext, v₃⟩) :: t₂) =
      unlockedMoves Crates.symbolic v v v v₃ v₄ sampleNext b := by
    rw [ht₁, ht₂, hv₅, hv₄, hv₁]
    rfl
  have hown₁ : own 1 (t₁ ++ (1, ⟨v₂, sampleNext, v₃⟩) :: t₂) = lockAllMoves v₁ v₂ sampleNext := by
    rw [ht₁, ht₂, hv₃, hv₂]
    rfl
  have hchain : Chain v ((t₁ ++ (1, ⟨v₂, sampleNext, v₃⟩) :: t₂).map Prod.snd) v₅ := by
    rw [ht₁, ht₂]
    exact ⟨rfl, rfl, rfl, rfl, rfl, rfl, rfl, rfl⟩
  obtain ⟨p, htrace, hp, -, hdone⟩ :=
    started_two hchain (by simp [ht₁, ht₂]) (hown₀ ▸ hunlock) (hown₁ ▸ hlock)
  have hentry : p.shared.retention.get (Uuid.rep 1) = some ⟨sampleSecret, 300000000000, false⟩ := by
    rw [hp, hv₅]
    exact HashMap.get_put_self _ _ _
  have hwipe : WipeReturns Crates.symbolic v [unlockKeyCall "pw", .lockAll] t₁ 1
      ⟨v₂, sampleNext, v₃⟩
      (Uuid.rep 1) := by
    have hsplit := htrace
    rw [show t₁ ++ (1, ⟨v₂, sampleNext, v₃⟩) :: t₂ = t₁ ++ [(1, ⟨v₂, sampleNext, v₃⟩)] ++
      t₂ by simp] at hsplit
    obtain ⟨q, hq, -⟩ := hsplit.split
    have hown : own 1 (t₁ ++ [(1, ⟨v₂, sampleNext, v₃⟩)]) = lockAllMoves v₁ v₂ sampleNext := by
      rw [ht₁, hv₃, hv₂]
      rfl
    exact ⟨q, .lockAll, _, hq, rfl, hq.at rfl (hown ▸ hlock), .lockAll⟩
  refine ⟨tn, v, _, p, _, hrun, htrace, hdone, hentry, fun hfinal => ?_⟩
  obtain ⟨hsplit, -, -, -, hmem, hopens⟩ :=
    hfinal t₁ 1 _ t₂ _ p hwipe (List.prefix_refl _) htrace _ hentry
  rename_i a b' i m o
  have ho : (i, o) ∈ t₂ := by
    rw [hsplit]
    exact List.mem_append_left _ (mem_own.1 hmem)
  simp only [ht₂, List.mem_cons, List.not_mem_nil, or_false] at ho
  rcases ho with ho | ho
  · cases ho
    exact not_opensAs_of_hist (by rw [hv₄]; rfl) _ _ hopens
  · cases ho
    refine hopens.not_caches (k := Uuid.rep 1) ⟨sampleSecret, 300, ?_⟩
    rw [hv₅, sampleNext_still.now]
    rfl

end VaultSigner.L5
