import Mathlib.Data.List.Forall2

/-!
# Two levels of one system

A `System` starts in some states and takes labelled steps. `Refines` relates a
system to a simpler one, which says what it is for: whatever the first does, the
second can do as well, label by label.

Results:
* `Run.invariant`: what every step keeps holds throughout a run.
* `Run.split`: a run that goes on is two runs.
* `Refines.run`: every run of the first system is a run of the second.
* `RefinesBy.run`: the same where the second may answer one label in several ways.
-/
namespace VaultSigner.Core

variable {L L' S T : Type}

structure System (L S : Type) where
  Start : S → Prop
  Step : L → S → S → Prop

namespace System

/-- The labels so far, newest first, and the state they lead to. -/
inductive Run (M : System L S) : List L → S → Prop
  | start {s : S} (h : M.Start s) : Run M [] s
  | step {l : List L} {a : L} {s s' : S} (h : Run M l s) (hs : M.Step a s s') : Run M (a :: l) s'

/-- The same system, found in state `s`. -/
def resumed (M : System L S) (s : S) : System L S := ⟨(· = s), M.Step⟩

variable {M : System L S} {N : System L' T}

theorem Run.invariant {I : S → Prop} {l : List L} {s : S} (h : M.Run l s)
    (h0 : ∀ s, M.Start s → I s) (hs : ∀ a s s', I s → M.Step a s s' → I s') : I s := by
  induction h with
  | start h => exact h0 _ h
  | step _ h ih => exact hs _ _ _ ih h

theorem Run.append {l l' : List L} {s s' : S} (h : M.Run l s) (h' : (M.resumed s).Run l' s') :
    M.Run (l' ++ l) s' := by
  induction h' with
  | start hs => exact hs ▸ h
  | step _ hs ih => exact ih.step hs

theorem Run.split {l : List L} {s' : S} : ∀ {l' : List L}, M.Run (l' ++ l) s' →
    ∃ s, M.Run l s ∧ (M.resumed s).Run l' s'
  | [], h => ⟨s', h, .start rfl⟩
  | _ :: _, h => by
    cases h with
    | step h hs =>
      obtain ⟨s, h1, h2⟩ := Run.split h
      exact ⟨s, h1, h2.step hs⟩

theorem Run.fromStart {l : List L} {s' : S} (h : M.Run l s') :
    ∃ s, M.Start s ∧ (M.resumed s).Run l s' := by
  rw [← List.append_nil l] at h
  obtain ⟨s, h1, h2⟩ := h.split
  cases h1 with
  | start hs => exact ⟨s, hs, h2⟩

/-- Forward simulation: `R` relates the states, `f` the labels. -/
structure Refines (M : System L S) (N : System L' T) (f : L → L') (R : S → T → Prop) : Prop where
  start : ∀ s, M.Start s → ∃ t, N.Start t ∧ R s t
  step : ∀ a s s' t, R s t → M.Step a s s' → ∃ t', N.Step (f a) t t' ∧ R s' t'

theorem Refines.run {f : L → L'} {R : S → T → Prop} (h : M.Refines N f R) {l : List L} {s : S}
    (hr : M.Run l s) : ∃ t, N.Run (l.map f) t ∧ R s t := by
  induction hr with
  | start hs =>
    obtain ⟨t, ht, hR⟩ := h.start _ hs
    exact ⟨t, .start ht, hR⟩
  | step _ hs ih =>
    obtain ⟨t, ht, hR⟩ := ih
    obtain ⟨t', ht', hR'⟩ := h.step _ _ _ _ hR hs
    exact ⟨t', ht.step ht', hR'⟩

/-- The simulation goes on from any two related states. -/
theorem Refines.resumed {f : L → L'} {R : S → T → Prop} (h : M.Refines N f R) {s : S} {t : T}
    (hR : R s t) : (M.resumed s).Refines (N.resumed t) f R where
  start := by
    intro s' hs
    exact ⟨t, rfl, hs ▸ hR⟩
  step := h.step

/-- Forward simulation where `F` says which labels of the second system may
stand for one of the first. -/
structure RefinesBy (M : System L S) (N : System L' T) (F : L → L' → Prop) (R : S → T → Prop) :
    Prop where
  start : ∀ s, M.Start s → ∃ t, N.Start t ∧ R s t
  step : ∀ a s s' t, R s t → M.Step a s s' → ∃ b t', F a b ∧ N.Step b t t' ∧ R s' t'

theorem RefinesBy.run {F : L → L' → Prop} {R : S → T → Prop} (h : M.RefinesBy N F R) {l : List L}
    {s : S} (hr : M.Run l s) : ∃ l' t, List.Forall₂ F l l' ∧ N.Run l' t ∧ R s t := by
  induction hr with
  | start hs =>
    obtain ⟨t, ht, hR⟩ := h.start _ hs
    exact ⟨[], t, .nil, .start ht, hR⟩
  | step _ hs ih =>
    obtain ⟨l', t, hl, ht, hR⟩ := ih
    obtain ⟨b, t', hb, ht', hR'⟩ := h.step _ _ _ _ hR hs
    exact ⟨b :: l', t', .cons hb hl, ht.step ht', hR'⟩

theorem RefinesBy.resumed {F : L → L' → Prop} {R : S → T → Prop} (h : M.RefinesBy N F R) {s : S}
    {t : T} (hR : R s t) : (M.resumed s).RefinesBy (N.resumed t) F R where
  start := by
    intro s' hs
    exact ⟨t, rfl, hs ▸ hR⟩
  step := h.step

end System

end VaultSigner.Core
