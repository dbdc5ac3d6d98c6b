import VaultSigner.Core.Trace

/-!
# The calls that a handler makes

A handler is a program over what it is given: a backend, a store, a clock.
What it does with them is a list of calls with their answers, and the moves
of the handler are the moves of these calls, one call after another.

* `Performs Does l w`: the moves `w` are those of the calls `l`, where
  `Does c w` says which moves the call `c` makes.
* `Prog.Answers`: a program that never fails.

Results:
* `Prog.answers_done`, `Prog.Answers.bind`, `Prog.answers_attempt`: how such
  programs are made.
* `Prog.Answers.walk_bind`: a walk that begins with one.
* `Performs.one`: a list of one call.
-/
namespace VaultSigner.Core

variable {E S ε ε' α β K : Type}

/-- The moves `w` are those of the calls `l`, in this order. -/
inductive Performs (Does : K → List (Move E S) → Prop) : List K → List (Move E S) → Prop
  | nil : Performs Does [] []
  | cons {c : K} {l : List K} {w w' : List (Move E S)} (h : Does c w) (hs : Performs Does l w') :
      Performs Does (c :: l) (w ++ w')

namespace Performs

variable {Does : K → List (Move E S) → Prop}

theorem one {c : K} {w : List (Move E S)} (h : Does c w) : Performs Does [c] w := by
  have hw : Performs Does [c] (w ++ []) := .cons h .nil
  rwa [List.append_nil] at hw

end Performs

/-- Whatever it is given, the program returns a value. -/
def Prog.Answers (p : Prog E S ε α) : Prop :=
  ∀ (A : S → E → Prop) (w : List (Move E S)) (r : Except ε α), Walk A p w (.done r) → ∃ a, r = .ok a

theorem Prog.answers_done (a : α) : (.done (.ok a) : Prog E S ε α).Answers := by
  intro A w r h
  obtain ⟨-, rfl⟩ := walk_done.1 h
  exact ⟨a, rfl⟩

theorem Prog.Answers.bind {p : Prog E S ε α} {f : α → Prog E S ε β} (hp : p.Answers)
    (hf : ∀ a, (f a).Answers) : (p.bind f).Answers := by
  intro A w r h
  rcases Prog.walk_bind.1 h with ⟨x, -, hx⟩ | ⟨a, w₁, w₂, -, -, h'⟩
  · obtain ⟨a, ha⟩ := hp A w _ hx
    cases ha
  · exact hf a A w₂ r h'

theorem Prog.answers_attempt (p : Prog E S ε α) :
    (p.attempt : Prog E S ε' (Except ε α)).Answers := by
  intro A w r h
  obtain ⟨q, rfl, -⟩ := walk_attempt.1 h
  exact ⟨q, rfl⟩

theorem Prog.Answers.walk_bind {A : S → E → Prop} {p : Prog E S ε α} (hp : p.Answers)
    {f : α → Prog E S ε β} {w : List (Move E S)} {r : Except ε β}
    (h : Walk A (p.bind f) w (.done r)) :
    ∃ a w₁ w₂, w = w₁ ++ w₂ ∧ Walk A p w₁ (.done (.ok a)) ∧ Walk A (f a) w₂ (.done r) := by
  rcases Prog.walk_bind.1 h with ⟨x, -, hx⟩ | hs
  · obtain ⟨a, ha⟩ := hp A w _ hx
    cases ha
  · exact hs

end VaultSigner.Core
