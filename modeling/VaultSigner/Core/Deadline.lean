/-!
# Deadlines

A thread goes from phase to phase, each with a limit on how long it may last. A
`Countdown` says how much time may be left once a phase is entered: leaving a
phase within its limit leaves enough for the next. So a deadline that holds at
one phase holds at every later one.

Results:
* `Countdown.leave`: the deadline, from a phase to the next.
* `Countdown.due`: while the countdown runs, the deadline has not passed.
-/
namespace VaultSigner.Core

/-- Phases, what each may last, and what may be left from its start. -/
structure Countdown (P : Type) (Next : P → P → Prop) where
  lim : P → Nat
  rem : P → Nat
  lim_le : ∀ p, lim p ≤ rem p
  step : ∀ p q, Next p q → lim p + rem q ≤ rem p

namespace Countdown

variable {P : Type} {Next : P → P → Prop} (T : Countdown P Next) {p q : P} {since now d : Nat}

theorem leave (h : Next p q) (ht : now ≤ since + T.lim p) (hd : since + T.rem p ≤ d) :
    now + T.rem q ≤ d := by
  have hstep := T.step p q h
  omega

theorem due (ht : now ≤ since + T.lim p) (hd : since + T.rem p ≤ d) : now ≤ d := by
  have hle := T.lim_le p
  omega

end Countdown

end VaultSigner.Core
