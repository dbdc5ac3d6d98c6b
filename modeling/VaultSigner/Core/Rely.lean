import VaultSigner.Core.Region

/-!
# Rely and guarantee

A call in a pool sees the shared state change between its regions. `Relies`
describes one call whatever the others do within its rely `R`: its own regions
make `G` steps, and its result meets `Q` from then on.

Results:
* `relies_atomic`, `Relies.bind`, `Relies.attempt`: along a program.
* `Pool.Steps.relies`: when what each call guarantees is what every other
  relies on, all of it holds throughout any interleaving.
-/
namespace VaultSigner.Core

variable {E S ε ε' α β : Type}

namespace Prog

/-- Other calls make `R` steps, at any time. -/
def Relies (A : S → E → Prop) (R G : S → S → Prop) :
    Prog E S ε α → (Except ε α → S → Prop) → S → Prop
  | .done r, Q, s => ∀ s', R s s' → Q r s'
  | .region u n, Q, s => ∀ s', R s s' → ∀ e, A s' e →
      G s' (u e s') ∧ (n e s').Relies A R G Q (u e s')

variable {A : S → E → Prop} {R G : S → S → Prop}

/-- What the others do first changes nothing. -/
theorem Relies.stable (trans : ∀ s s' s'', R s s' → R s' s'' → R s s'') {Q : Except ε α → S → Prop}
    {s s' : S} (hr : R s s') : ∀ {p : Prog E S ε α}, p.Relies A R G Q s → p.Relies A R G Q s'
  | .done _, h => fun s'' hs => h s'' (trans s s' s'' hr hs)
  | .region _ _, h => fun s'' hs => h s'' (trans s s' s'' hr hs)

theorem relies_atomic {b : E → S → Except ε α × S} {Q : Except ε α → S → Prop} {s : S}
    (h : ∀ s', R s s' → ∀ e, A s' e → G s' (b e s').2 ∧ ∀ s'', R (b e s').2 s'' →
      Q (b e s').1 s'') :
    (atomic b).Relies A R G Q s := h

/-- Sequencing: an error of the first part is an error of the whole. -/
theorem Relies.bind {f : α → Prog E S ε β} {Q : Except ε α → S → Prop} {Q' : Except ε β → S → Prop}
    (refl : ∀ s, R s s) (hf : ∀ a s, Q (.ok a) s → (f a).Relies A R G Q' s)
    (hx : ∀ x s, Q (.error x) s → Q' (.error x) s) :
    ∀ {p : Prog E S ε α} {s : S}, p.Relies A R G Q s → (p.bind f).Relies A R G Q' s
  | .done (.ok a), s, h => hf a s (h s (refl s))
  | .done (.error x), _, h => fun s' hr => hx x s' (h s' hr)
  | .region _ _, _, h =>
    fun s' hr e ha => ⟨(h s' hr e ha).1, Relies.bind refl hf hx (h s' hr e ha).2⟩

theorem Relies.attempt {Q : Except ε' (Except ε α) → S → Prop} : ∀ {p : Prog E S ε α} {s : S},
    p.Relies A R G (fun r => Q (.ok r)) s → (p.attempt : Prog E S ε' _).Relies A R G Q s
  | .done _, _, h => h
  | .region _ _, _, h => fun s' hr e ha => ⟨(h s' hr e ha).1, Relies.attempt (h s' hr e ha).2⟩

end Prog

namespace Pool

open Prog

/-- The parallel rule. `I` is what every guarantee keeps. -/
theorem Steps.relies {A : S → E → Prop} {I : S → Prop} {R G : Nat → S → S → Prop}
    {Q : Nat → Except ε α → S → Prop} {k : Nat} (refl : ∀ j s, R j s s)
    (trans : ∀ j s s' s'', R j s s' → R j s' s'' → R j s s'')
    (others : ∀ i j s s', i < k → j < k → i ≠ j → G i s s' → R j s s')
    (inv : ∀ i s s', i < k → G i s s' → I s → I s') {c c' : Pool E S ε α} {l : List (Nat × E)}
    (h : Steps A c l c') (hk : c.calls.length = k) (hi : I c.shared)
    (hc : ∀ j (q : Prog E S ε α), c.calls[j]? = some q → q.Relies A (R j) (G j) (Q j) c.shared) :
    I c'.shared ∧ ∀ j (q : Prog E S ε α), c'.calls[j]? = some q →
    q.Relies A (R j) (G j) (Q j) c'.shared := by
  have hrun :=
    h.invariant (T := fun s j (q : Prog E S ε α) => j < k ∧ q.Relies A (R j) (G j) (Q j) s) (I := I)
    (fun s i u n e ha hs ht => by
      have hstep := ht.2 s (refl i s) e ha
      exact ⟨inv i s _ ht.1 hstep.1 hs, ht.1, hstep.2⟩)
    (fun s i j u n e q ha hij hs ht hq => by
      have hstep := ht.2 s (refl i s) e ha
      exact ⟨hq.1, hq.2.stable (trans j) (others i j s _ ht.1 hq.1 hij hstep.1)⟩)
    ⟨hi, fun j q hj => ⟨hk ▸ (List.getElem?_eq_some_iff.1 hj).1, hc j q hj⟩⟩
  exact ⟨hrun.1, fun j q hj => (hrun.2 j q hj).2⟩

end Pool

end VaultSigner.Core
