/-!
# Programs of atomic regions

A call on a shared object is a sequence of regions, each of which runs under
one mutex: it sees the whole shared state `S`, takes one input `E` from
outside (the clock, random bytes, the result of a system call, ...), and
leaves a new state. Between two regions the call holds no lock. `Prog` is
the tree of such a call: `region upd next` updates the state and goes on
with a program that may depend on the input and on the state it read, and
`done r` returns.

* `Exec`: the call runs alone, from its first region to its result.
* `Pool`, `Pool.Step`, `Pool.Steps`: any number of calls interleave, one
  region at a time, in any order.

`A s e` says which inputs are admissible in which state (a clock that does
not run backwards, identifiers that are fresh, ...).

Results:
* `wlp_iff`: `p.wlp A Q s` holds exactly when every execution of `p` alone
  from `s` ends in `Q`; `wlp_bind`, `wlp_atomic`, `wlp_attempt` compute it
  along the program, `wlp_seq` is the rule of composition.
* `exec_bind`, `exec_atomic`: how an execution of a program splits; `Exec.unique`: the inputs
  decide it.
* `Within.exec`: what every region of a call keeps, the call keeps.
* `Yields`: what every result of a program satisfies, whatever it reads.
* `Steps.done`, `Steps.untouched`, `Steps.exec`: how one call fares in a pool.
* `Pool.Steps.invariant`: what holds of the shared state and of every call
  at its start, is kept by the call's own regions and is stable under the
  others', holds throughout any interleaving.
-/
namespace VaultSigner.Core

variable {E S ε ε' α β : Type}

inductive Prog (E S ε α : Type) : Type where
  | done (r : Except ε α)
  | region (upd : E → S → S) (next : E → S → Prog E S ε α)

namespace Prog

/-- One region whose body returns a result beside the new state. The state
changes also when the body returns an error. -/
def atomic (body : E → S → Except ε α × S) : Prog E S ε α :=
  .region (fun e s => (body e s).2) (fun e s => .done (body e s).1)

/-- `?`: go on with the value, or stop with the error. -/
def bind : Prog E S ε α → (α → Prog E S ε β) → Prog E S ε β
  | .done (.ok a), f => f a
  | .done (.error x), _ => .done (.error x)
  | .region u n, f => .region u fun e s => (n e s).bind f

/-- `match call() { Ok(..) => .., Err(..) => .. }`: the result as a value. -/
def attempt : Prog E S ε α → Prog E S ε' (Except ε α)
  | .done r => .done (.ok r)
  | .region u n => .region u fun e s => (n e s).attempt

/-- `call().map_err(f)`. -/
def mapError (f : ε → ε') : Prog E S ε α → Prog E S ε' α
  | .done r => .done (r.mapError f)
  | .region u n => .region u fun e s => (n e s).mapError f

instance : Monad (Prog E S ε) where
  pure a := .done (.ok a)
  bind := Prog.bind

def fail (x : ε) : Prog E S ε α := .done (.error x)

def ofExcept (r : Except ε α) : Prog E S ε α := .done r

@[simp] theorem bind_eq (p : Prog E S ε α) (f : α → Prog E S ε β) : (p >>= f) = p.bind f := rfl

@[simp] theorem pure_eq (a : α) : (pure a : Prog E S ε α) = .done (.ok a) := rfl

@[simp] theorem done_ok_bind (a : α) (f : α → Prog E S ε β) :
    (Prog.done (.ok a) : Prog E S ε α).bind f = f a := rfl

@[simp] theorem done_error_bind (x : ε) (f : α → Prog E S ε β) :
    (Prog.done (.error x) : Prog E S ε α).bind f = .done (.error x) := rfl

@[simp] theorem region_bind (u : E → S → S) (n : E → S → Prog E S ε α) (f : α → Prog E S ε β) :
    (Prog.region u n).bind f = .region u fun e s => (n e s).bind f := rfl

theorem bind_pure : ∀ p : Prog E S ε α, (p.bind fun a => pure a) = p
  | .done (.ok _) => rfl
  | .done (.error _) => rfl
  | .region u n => by
    simp only [region_bind]
    congr
    funext e s
    exact bind_pure (n e s)

theorem bind_assoc {γ : Type} (f : α → Prog E S ε β) (g : β → Prog E S ε γ) :
    ∀ p : Prog E S ε α, (p.bind f).bind g = p.bind fun a => (f a).bind g
  | .done (.ok _) => rfl
  | .done (.error _) => rfl
  | .region u n => by
    simp only [region_bind]
    congr
    funext e s
    exact bind_assoc f g (n e s)

/-! ## Running alone -/

/-- `p`, started in `s` and fed the inputs `es`, returns `r` in `s'`. -/
inductive Exec (A : S → E → Prop) : Prog E S ε α → S → List E → Except ε α → S → Prop
  | done (r : Except ε α) (s : S) : Exec A (.done r) s [] r s
  | region {u : E → S → S} {n : E → S → Prog E S ε α} {s : S} {e : E} {es : List E}
      {r : Except ε α} {s' : S} (ha : A s e) (h : Exec A (n e s) (u e s) es r s') :
      Exec A (.region u n) s (e :: es) r s'

/-- Every execution of the program alone ends in `Q`. -/
def wlp (A : S → E → Prop) : Prog E S ε α → (Except ε α → S → Prop) → S → Prop
  | .done r, Q, s => Q r s
  | .region u n, Q, s => ∀ e, A s e → (n e s).wlp A Q (u e s)

theorem wlp_exec {A : S → E → Prop} {p : Prog E S ε α} {s s' : S} {es : List E}
    {r : Except ε α} (h : Exec A p s es r s') :
    ∀ {Q : Except ε α → S → Prop}, p.wlp A Q s → Q r s' := by
  induction h with
  | done r s => intro Q hq; exact hq
  | region ha _ ih => intro Q hq; exact ih (hq _ ha)

theorem exec_wlp {A : S → E → Prop} {Q : Except ε α → S → Prop} :
    ∀ {p : Prog E S ε α} {s : S}, (∀ es r s', Exec A p s es r s' → Q r s') → p.wlp A Q s
  | .done r, s, h => h [] r s (.done r s)
  | .region _ _, _, h => fun e ha => exec_wlp fun es r s' hx => h (e :: es) r s' (.region ha hx)

theorem wlp_iff {A : S → E → Prop} {p : Prog E S ε α} {Q : Except ε α → S → Prop} {s : S} :
    p.wlp A Q s ↔ ∀ es r s', Exec A p s es r s' → Q r s' :=
  ⟨fun h _ _ _ hx => wlp_exec hx h, exec_wlp⟩

theorem wlp_mono {A : S → E → Prop} {Q Q' : Except ε α → S → Prop} (hq : ∀ r s, Q r s → Q' r s) :
    ∀ {p : Prog E S ε α} {s : S}, p.wlp A Q s → p.wlp A Q' s
  | .done r, s, h => hq r s h
  | .region _ _, _, h => fun e ha => wlp_mono hq (h e ha)

@[simp] theorem wlp_done (A : S → E → Prop) (r : Except ε α) (Q : Except ε α → S → Prop) (s : S) :
    (Prog.done r).wlp A Q s ↔ Q r s := Iff.rfl

@[simp] theorem wlp_atomic (A : S → E → Prop) (b : E → S → Except ε α × S)
    (Q : Except ε α → S → Prop) (s : S) :
    (atomic b).wlp A Q s ↔ ∀ e, A s e → Q (b e s).1 (b e s).2 := Iff.rfl

theorem wlp_bind (A : S → E → Prop) (f : α → Prog E S ε β) (Q : Except ε β → S → Prop) :
    ∀ (p : Prog E S ε α) (s : S), (p.bind f).wlp A Q s ↔
      p.wlp A (fun r s' => match r with
        | .ok a => (f a).wlp A Q s'
        | .error x => Q (.error x) s') s
  | .done (.ok _), _ => Iff.rfl
  | .done (.error _), _ => Iff.rfl
  | .region _ n, s => forall_congr' fun e => imp_congr_right fun _ => wlp_bind A f Q (n e s) _

theorem wlp_attempt (A : S → E → Prop) (Q : Except ε' (Except ε α) → S → Prop) :
    ∀ (p : Prog E S ε α) (s : S), (p.attempt : Prog E S ε' _).wlp A Q s ↔
      p.wlp A (fun r => Q (.ok r)) s
  | .done _, _ => Iff.rfl
  | .region _ n, s => forall_congr' fun e => imp_congr_right fun _ => wlp_attempt A Q (n e s) _

theorem wlp_mapError (A : S → E → Prop) (f : ε → ε') (Q : Except ε' α → S → Prop) :
    ∀ (p : Prog E S ε α) (s : S), (p.mapError f).wlp A Q s ↔
      p.wlp A (fun r => Q (r.mapError f)) s
  | .done _, _ => Iff.rfl
  | .region _ n, s => forall_congr' fun e => imp_congr_right fun _ => wlp_mapError A f Q (n e s) _

/-- `I` in any case, and `R` of the value if there is one. -/
def Post (I : S → Prop) (R : α → S → Prop) (r : Except ε α) (s : S) : Prop :=
  I s ∧ ∀ a, r = .ok a → R a s

/-- Sequencing: an error of the first part is an error of the whole. -/
theorem wlp_seq {A : S → E → Prop} {I : S → Prop} {R : α → S → Prop} {R' : β → S → Prop}
    {p : Prog E S ε α} {f : α → Prog E S ε β} {s : S} (hp : p.wlp A (Post I R) s)
    (hf : ∀ a s', I s' → R a s' → (f a).wlp A (Post I R') s') : (p.bind f).wlp A (Post I R') s := by
  rw [wlp_bind]
  refine wlp_mono (fun r s' h => ?_) hp
  cases r with
  | ok a => exact hf a s' h.1 (h.2 a rfl)
  | error x => exact ⟨h.1, fun b hb => by cases hb⟩

theorem post_done {A : S → E → Prop} {I : S → Prop} {R : α → S → Prop} {r : Except ε α} {s : S}
    (h : I s) (hr : ∀ a, r = .ok a → R a s) : (Prog.done r).wlp A (Post I R) s := ⟨h, hr⟩

theorem post_attempt {A : S → E → Prop} {I : S → Prop} {R : α → S → Prop} {p : Prog E S ε α} {s : S}
    (hp : p.wlp A (Post I R) s) : (p.attempt : Prog E S ε' _).wlp A
      (Post I fun r s' => ∀ a, r = .ok a → R a s') s := by
  rw [wlp_attempt]
  refine wlp_mono (fun r s' h => ⟨h.1, fun q hq => ?_⟩) hp
  cases hq
  exact h.2

theorem post_mapError {A : S → E → Prop} {I : S → Prop} {R : α → S → Prop} {p : Prog E S ε α}
    {g : ε → ε'} {s : S} (hp : p.wlp A (Post I R) s) : (p.mapError g).wlp A (Post I R) s := by
  rw [wlp_mapError]
  refine wlp_mono (fun r s' h => ⟨h.1, fun a ha => h.2 a ?_⟩) hp
  cases r with
  | ok b => exact congrArg Except.ok (Except.ok.inj ha)
  | error x => cases ha

/-- It succeeds, with `R` of the value. -/
def Succeeds (R : α → S → Prop) (r : Except ε α) (s : S) : Prop := ∃ a, r = .ok a ∧ R a s

theorem succeeds_bind {A : S → E → Prop} {R : α → S → Prop} {R' : β → S → Prop} {p : Prog E S ε α}
    {f : α → Prog E S ε β} {s : S} (hp : p.wlp A (Succeeds R) s)
    (hf : ∀ a s', R a s' → (f a).wlp A (Succeeds R') s') : (p.bind f).wlp A (Succeeds R') s := by
  rw [wlp_bind]
  refine wlp_mono (fun r s' h => ?_) hp
  obtain ⟨a, rfl, ha⟩ := h
  exact hf a s' ha

/-- A program does not run forever: an input that is always admissible takes it to its end. -/
theorem exec_exists {A : S → E → Prop} {e : E} (he : ∀ s, A s e) :
    ∀ (p : Prog E S ε α) (s : S), ∃ es r s', Exec A p s es r s'
  | .done r, s => ⟨[], r, s, .done r s⟩
  | .region u n, s => by
    obtain ⟨es, r, s', h⟩ := exec_exists he (n e s) (u e s)
    exact ⟨e :: es, r, s', .region (he s) h⟩

theorem exec_done {A : S → E → Prop} {r r' : Except ε α} {s s' : S} {es : List E} :
    Exec A (.done r) s es r' s' ↔ es = [] ∧ r' = r ∧ s' = s := by
  constructor
  · intro h; cases h; exact ⟨rfl, rfl, rfl⟩
  · rintro ⟨rfl, rfl, rfl⟩; exact .done _ _

theorem exec_region {A : S → E → Prop} {u : E → S → S} {n : E → S → Prog E S ε α} {s s' : S}
    {es : List E} {r : Except ε α} : Exec A (.region u n) s es r s' ↔
      ∃ e es', es = e :: es' ∧ A s e ∧ Exec A (n e s) (u e s) es' r s' := by
  constructor
  · intro h
    cases h with
    | region ha h => exact ⟨_, _, rfl, ha, h⟩
  · rintro ⟨e, es', rfl, ha, h⟩; exact .region ha h

theorem exec_atomic {A : S → E → Prop} {b : E → S → Except ε α × S} {s s' : S} {es : List E}
    {r : Except ε α} : Exec A (atomic b) s es r s' ↔
      ∃ e, es = [e] ∧ A s e ∧ r = (b e s).1 ∧ s' = (b e s).2 := by
  rw [atomic, exec_region]
  constructor
  · rintro ⟨e, es', rfl, ha, h⟩
    obtain ⟨rfl, rfl, rfl⟩ := exec_done.1 h
    exact ⟨e, rfl, ha, rfl, rfl⟩
  · rintro ⟨e, rfl, ha, rfl, rfl⟩
    exact ⟨e, [], rfl, ha, .done _ _⟩

/-- The inputs decide how an execution goes, and when it is over. -/
theorem Exec.unique {A : S → E → Prop} {p : Prog E S ε α} {s s₁ : S} {es : List E} {r₁ : Except ε α}
    (h : Exec A p s es r₁ s₁) : ∀ {l : List E} {r₂ : Except ε α} {s₂ : S},
      Exec A p s (es ++ l) r₂ s₂ → l = [] ∧ r₂ = r₁ ∧ s₂ = s₁ := by
  induction h with
  | done r s => intro l r₂ s₂ h'; exact exec_done.1 h'
  | region _ _ ih =>
    intro l r₂ s₂ h'
    cases h' with
    | region _ h' => exact ih h'

/-- A sequence stops in its first part, or goes on from where that ended. -/
theorem exec_bind {A : S → E → Prop} {f : α → Prog E S ε β} {s' : S} {r : Except ε β} :
    ∀ {p : Prog E S ε α} {s : S} {es : List E}, Exec A (p.bind f) s es r s' ↔
      (∃ x, r = .error x ∧ Exec A p s es (.error x) s') ∨
      ∃ a w es₁ es₂, es = es₁ ++ es₂ ∧ Exec A p s es₁ (.ok a) w ∧ Exec A (f a) w es₂ r s' := by
  intro p
  induction p with
  | done q =>
    intro s es
    cases q with
    | ok a =>
      simp only [done_ok_bind, exec_done]
      constructor
      · intro h; exact .inr ⟨a, s, [], es, rfl, ⟨rfl, rfl, rfl⟩, h⟩
      · rintro (⟨x, -, -, h, -⟩ | ⟨a', w, es₁, es₂, rfl, ⟨rfl, ⟨⟩, rfl⟩, h⟩)
        · cases h
        · exact h
    | error x =>
      simp only [done_error_bind, exec_done]
      constructor
      · rintro ⟨rfl, rfl, rfl⟩; exact .inl ⟨x, rfl, rfl, rfl, rfl⟩
      · rintro (⟨x', rfl, rfl, ⟨⟩, rfl⟩ | ⟨a', w, es₁, es₂, -, ⟨-, h, -⟩, -⟩)
        · exact ⟨rfl, rfl, rfl⟩
        · cases h
  | region u n ih =>
    intro s es
    simp only [region_bind, exec_region, ih]
    constructor
    · rintro ⟨e, es', rfl, ha, ⟨x, rfl, h⟩ | ⟨a, w, es₁, es₂, rfl, h1, h2⟩⟩
      · exact .inl ⟨x, rfl, e, es', rfl, ha, h⟩
      · exact .inr ⟨a, w, e :: es₁, es₂, rfl, ⟨e, es₁, rfl, ha, h1⟩, h2⟩
    · rintro (⟨x, rfl, e, es', rfl, ha, h⟩ | ⟨a, w, _, es₂, rfl, ⟨e, es₁, rfl, ha, h1⟩, h2⟩)
      · exact ⟨e, es', rfl, ha, .inl ⟨x, rfl, h⟩⟩
      · exact ⟨e, es₁ ++ es₂, rfl, ha, .inr ⟨a, w, es₁, es₂, rfl, h1, h2⟩⟩

theorem Exec.seq {A : S → E → Prop} {p : Prog E S ε α} {f : α → Prog E S ε β} {s w s' : S}
    {es₁ es₂ : List E} {a : α} {r : Except ε β} (h : Exec A p s es₁ (.ok a) w)
    (h' : Exec A (f a) w es₂ r s') : Exec A (p.bind f) s (es₁ ++ es₂) r s' :=
  exec_bind.2 (.inr ⟨a, w, es₁, es₂, rfl, h, h'⟩)

theorem Exec.seq_done {A : S → E → Prop} {q : Except ε α} {f : α → Prog E S ε β} {s s' : S}
    {es : List E} {a : α} {r : Except ε β} (hq : q = .ok a) (h : Exec A (f a) s es r s') :
    Exec A ((Prog.done q).bind f) s es r s' := by
  subst hq
  exact h

theorem Exec.seq_last {A : S → E → Prop} {p : Prog E S ε α} {f : α → Prog E S ε β} {s s' : S}
    {es : List E} {a : α} {r : Except ε β} (h : Exec A p s es (.ok a) s') (hf : f a = .done r) :
    Exec A (p.bind f) s es r s' :=
  exec_bind.2 (.inr ⟨a, s', es, [], (List.append_nil es).symm, h, by rw [hf]; exact .done _ _⟩)

theorem exec_mapError {A : S → E → Prop} {f : ε → ε'} {s' : S} {r : Except ε' α} :
    ∀ {p : Prog E S ε α} {s : S} {es : List E}, Exec A (p.mapError f) s es r s' ↔
      ∃ q, r = q.mapError f ∧ Exec A p s es q s' := by
  intro p
  induction p with
  | done q =>
    intro s es
    simp only [mapError, exec_done]
    constructor
    · rintro ⟨rfl, rfl, rfl⟩; exact ⟨q, rfl, rfl, rfl, rfl⟩
    · rintro ⟨q', rfl, rfl, rfl, rfl⟩; exact ⟨rfl, rfl, rfl⟩
  | region u n ih =>
    intro s es
    simp only [mapError, exec_region, ih]
    constructor
    · rintro ⟨e, es', rfl, ha, q, rfl, h⟩; exact ⟨q, rfl, e, es', rfl, ha, h⟩
    · rintro ⟨q, rfl, e, es', rfl, ha, h⟩; exact ⟨e, es', rfl, ha, q, rfl, h⟩

/-! ## What every region does -/

/-- Every region of `p` makes an `R` step. -/
def Within (A : S → E → Prop) (R : S → S → Prop) : Prog E S ε α → Prop
  | .done _ => True
  | .region u n => ∀ e s, A s e → R s (u e s) ∧ (n e s).Within A R

theorem Within.bind {A : S → E → Prop} {R : S → S → Prop} {f : α → Prog E S ε β} :
    ∀ {p : Prog E S ε α}, p.Within A R → (∀ a, (f a).Within A R) → (p.bind f).Within A R
  | .done (.ok a), _, hf => hf a
  | .done (.error _), _, _ => trivial
  | .region _ _, hp, hf => fun e s ha => ⟨(hp e s ha).1, Within.bind (hp e s ha).2 hf⟩

theorem Within.attempt {A : S → E → Prop} {R : S → S → Prop} :
    ∀ {p : Prog E S ε α}, p.Within A R → (p.attempt : Prog E S ε' _).Within A R
  | .done _, _ => trivial
  | .region _ _, hp => fun e s ha => ⟨(hp e s ha).1, Within.attempt (hp e s ha).2⟩

theorem Within.mapError {A : S → E → Prop} {R : S → S → Prop} {f : ε → ε'} :
    ∀ {p : Prog E S ε α}, p.Within A R → (p.mapError f).Within A R
  | .done _, _ => trivial
  | .region _ _, hp => fun e s ha => ⟨(hp e s ha).1, Within.mapError (hp e s ha).2⟩

theorem Within.mono {A : S → E → Prop} {R R' : S → S → Prop} (hr : ∀ s s', R s s' → R' s s') :
    ∀ {p : Prog E S ε α}, p.Within A R → p.Within A R'
  | .done _, _ => trivial
  | .region _ _, hp => fun e s ha => ⟨hr _ _ (hp e s ha).1, Within.mono hr (hp e s ha).2⟩

theorem within_atomic {A : S → E → Prop} {R : S → S → Prop} {b : E → S → Except ε α × S} :
    (atomic b).Within A R ↔ ∀ e s, A s e → R s (b e s).2 :=
  ⟨fun h e s ha => (h e s ha).1, fun h e s ha => ⟨h e s ha, trivial⟩⟩

/-- A property kept by every `R` step is kept by an execution alone. -/
theorem Within.exec {A : S → E → Prop} {R : S → S → Prop} {I : S → Prop} {p : Prog E S ε α}
    {s s' : S} {es : List E} {r : Except ε α} (hx : Exec A p s es r s') :
    p.Within A R → (∀ s s', R s s' → I s → I s') → I s → I s' := by
  induction hx with
  | done r s => intro _ _ hi; exact hi
  | region ha _ ih => intro hw hr hi; exact ih (hw _ _ ha).2 hr (hr _ _ (hw _ _ ha).1 hi)

/-! ## What a program may return -/

/-- Every result of `p`, whatever it reads, satisfies `Q`. -/
def Yields (Q : Except ε α → Prop) : Prog E S ε α → Prop
  | .done r => Q r
  | .region _ n => ∀ e s, (n e s).Yields Q

theorem Yields.bind {Q : Except ε β → Prop} {f : α → Prog E S ε β} (hx : ∀ x, Q (.error x))
    (hf : ∀ a, (f a).Yields Q) : ∀ p : Prog E S ε α, (p.bind f).Yields Q
  | .done (.ok a) => hf a
  | .done (.error x) => hx x
  | .region _ n => fun e s => Yields.bind hx hf (n e s)

theorem Yields.mapError {f : ε → ε'} {Q : Except ε' α → Prop} :
    ∀ {p : Prog E S ε α}, p.Yields (fun r => Q (r.mapError f)) → (p.mapError f).Yields Q
  | .done _, h => h
  | .region _ _, h => fun e s => Yields.mapError (h e s)

/-- ... so does what an execution alone returns. -/
theorem Yields.exec {A : S → E → Prop} {Q : Except ε α → Prop} {p : Prog E S ε α} {s s' : S}
    {es : List E} {r : Except ε α} (hx : Exec A p s es r s') : p.Yields Q → Q r := by
  induction hx with
  | done r s => exact id
  | region ha _ ih => exact fun h => ih (h _ _)

end Prog

/-! ## Interleaving -/

/-- Calls in flight over one shared state. -/
structure Pool (E S ε α : Type) where
  shared : S
  calls : List (Prog E S ε α)

namespace Pool

open Prog

/-- Call `i` runs its next region on input `e`. -/
inductive Step (A : S → E → Prop) : Pool E S ε α → Nat → E → Pool E S ε α → Prop
  | mk {s : S} {cs : List (Prog E S ε α)} {i : Nat} {u : E → S → S}
      {n : E → S → Prog E S ε α} {e : E} (hi : cs[i]? = some (.region u n)) (ha : A s e) :
      Step A ⟨s, cs⟩ i e ⟨u e s, cs.set i (n e s)⟩

/-- A schedule: which call runs its next region, and on which input. -/
inductive Steps (A : S → E → Prop) : Pool E S ε α → List (Nat × E) → Pool E S ε α → Prop
  | nil (c : Pool E S ε α) : Steps A c [] c
  | cons {c c' c'' : Pool E S ε α} {i : Nat} {e : E} {l : List (Nat × E)}
      (h : Step A c i e c') (hs : Steps A c' l c'') : Steps A c ((i, e) :: l) c''

theorem Steps.append {A : S → E → Prop} {c c' c'' : Pool E S ε α} {l l' : List (Nat × E)}
    (h1 : Steps A c l c') (h2 : Steps A c' l' c'') : Steps A c (l ++ l') c'' := by
  induction h1 with
  | nil c => exact h2
  | cons h _ ih => exact .cons h (ih h2)

/-- A finished call takes no step. -/
theorem Step.not_done {A : S → E → Prop} {c c' : Pool E S ε α} {i j : Nat} {e : E} {r : Except ε α}
    (h : Step A c i e c') (hd : c.calls[j]? = some (.done r)) : j ≠ i := by
  rintro rfl
  cases h with
  | mk hc ha =>
    rw [hc] at hd
    cases hd

theorem Step.others {A : S → E → Prop} {c c' : Pool E S ε α} {i j : Nat} {e : E}
    (h : Step A c i e c') (hj : j ≠ i) : c'.calls[j]? = c.calls[j]? := by
  cases h with
  | mk hc ha => exact List.getElem?_set_ne hj.symm

/-- A finished call stays as it is, and its index does not come up again. -/
theorem Steps.done {A : S → E → Prop} {c c' : Pool E S ε α} {l : List (Nat × E)} {j : Nat}
    {r : Except ε α} (hs : Steps A c l c') (hd : c.calls[j]? = some (.done r)) :
    c'.calls[j]? = some (.done r) ∧ j ∉ l.map Prod.fst := by
  induction hs with
  | nil c => exact ⟨hd, by simp⟩
  | cons h _ ih =>
    have hj := h.not_done hd
    obtain ⟨h1, h2⟩ := ih ((h.others hj).trans hd)
    refine ⟨h1, fun hm => ?_⟩
    rcases List.mem_cons.1 hm with hm | hm
    · exact hj hm
    · exact h2 hm

/-- A call whose index does not come up stays as it is. -/
theorem Steps.untouched {A : S → E → Prop} {c c' : Pool E S ε α} {l : List (Nat × E)} {j : Nat}
    (hs : Steps A c l c') (hj : j ∉ l.map Prod.fst) : c'.calls[j]? = c.calls[j]? := by
  induction hs with
  | nil c => rfl
  | cons h _ ih =>
    simp only [List.map_cons, List.mem_cons, not_or] at hj
    exact (ih hj.2).trans (h.others hj.1)

theorem Steps.length {A : S → E → Prop} {c c' : Pool E S ε α} {l : List (Nat × E)}
    (hs : Steps A c l c') : c'.calls.length = c.calls.length := by
  induction hs with
  | nil c => rfl
  | cons h _ ih =>
    cases h with
    | mk hc ha => exact ih.trans (List.length_set ..)

/-- A call whose index comes up has not finished. -/
theorem Steps.unfinished {A : S → E → Prop} {c c' : Pool E S ε α} {l : List (Nat × E)} {j : Nat}
    (hs : Steps A c l c') (hj : j ∈ l.map Prod.fst) : ∃ u n, c.calls[j]? = some (.region u n) := by
  induction hs with
  | nil c => cases hj
  | @cons c c₁ c₂ i e l h _ ih =>
    by_cases hi : j = i
    · subst hi
      cases h with
      | mk hc ha => exact ⟨_, _, hc⟩
    · rw [← h.others hi]
      rcases List.mem_cons.1 hj with hj | hj
      · exact absurd hj hi
      · exact ih hj

/-- One call of the pool runs by itself up to some point. -/
theorem Steps.exec {A : S → E → Prop} {p : Prog E S ε α} {s s' : S} {es : List E} {r : Except ε α}
    (h : Exec A p s es r s') :
    ∀ {cs : List (Prog E S ε β)} {i : Nat} {f : α → Prog E S ε β} {a : α},
      r = .ok a → cs[i]? = some (p.bind f) →
      Steps A ⟨s, cs⟩ (es.map fun e => (i, e)) ⟨s', cs.set i (f a)⟩ := by
  induction h with
  | done r s =>
    intro cs i f a hr hc
    subst hr
    obtain ⟨hlt, hget⟩ := List.getElem?_eq_some_iff.1 hc
    have hself : cs.set i cs[i] = cs := List.set_getElem_self hlt
    rw [hget] at hself
    rw [show cs.set i (f a) = cs from hself]
    exact .nil _
  | @region u n s e es r s' ha _ ih =>
    intro cs i f a hr hc
    have hlt := (List.getElem?_eq_some_iff.1 hc).1
    have hnext : (cs.set i ((n e s).bind f))[i]? = some ((n e s).bind f) :=
      List.getElem?_set_self hlt
    have htail := ih hr hnext
    rw [List.set_set] at htail
    exact .cons (.mk hc ha) htail

/-- The invariant rule: `I` of the shared state and `T` of each call, with
`T` stable under the regions of the other calls. -/
theorem Step.invariant {A : S → E → Prop} {I : S → Prop} {T : S → Nat → Prog E S ε α → Prop}
    (own : ∀ s i u n e, A s e → I s → T s i (.region u n) → I (u e s) ∧ T (u e s) i (n e s))
    (stable : ∀ s i j u n e q, A s e → i ≠ j → I s → T s i (.region u n) → T s j q → T (u e s) j q)
    {c c' : Pool E S ε α} {i : Nat} {e : E} (h : Step A c i e c')
    (hi : I c.shared ∧ ∀ j q, c.calls[j]? = some q → T c.shared j q) :
    I c'.shared ∧ ∀ j q, c'.calls[j]? = some q → T c'.shared j q := by
  cases h with
  | @mk s cs _ u n _ hc ha =>
    have ht := hi.2 i _ hc
    obtain ⟨h1, h2⟩ := own s i u n e ha hi.1 ht
    refine ⟨h1, fun j q hj => ?_⟩
    by_cases hij : i = j
    · subst hij
      have hlt : i < cs.length := (List.getElem?_eq_some_iff.1 hc).1
      simp only [List.getElem?_set_self hlt, Option.some.injEq] at hj
      rw [← hj]; exact h2
    · rw [List.getElem?_set_ne hij] at hj
      exact stable s i j u n e q ha hij hi.1 ht (hi.2 j q hj)

theorem Steps.invariant {A : S → E → Prop} {I : S → Prop} {T : S → Nat → Prog E S ε α → Prop}
    (own : ∀ s i u n e, A s e → I s → T s i (.region u n) → I (u e s) ∧ T (u e s) i (n e s))
    (stable : ∀ s i j u n e q, A s e → i ≠ j → I s → T s i (.region u n) → T s j q → T (u e s) j q)
    {c c' : Pool E S ε α} {l : List (Nat × E)} (h : Steps A c l c')
    (hi : I c.shared ∧ ∀ j q, c.calls[j]? = some q → T c.shared j q) :
    I c'.shared ∧ ∀ j q, c'.calls[j]? = some q → T c'.shared j q := by
  induction h with
  | nil c => exact hi
  | cons h1 _ ih => exact ih (h1.invariant own stable hi)

end Pool

end VaultSigner.Core
