import Mathlib.Logic.Function.Basic
import VaultSigner.Core.Refinement
import VaultSigner.Core.Trace

/-!
# A service

A process that serves calls. Any number of them are in flight over one shared
state, each a program of regions, and a call may begin at any time. Now and
then the process dies: the calls in flight are gone, and the next process
starts from a state that `Restarts` relates to the last one.

Results:
* `Upholds.bind`, `Upholds.attempt`, ...: what a program keeps and returns,
  whatever happens between its regions as long as an invariant holds.
* `Service.Run.upholds`: an invariant that every call upholds holds
  throughout, and what the calls return is as each of them promises.
* `Service.Step.last`: the region by which a call ends.
* `Service.Exec.service`: what a call does alone the service can do.
-/
namespace VaultSigner.Core

variable {K E S ε ε' α β : Type}

namespace Prog

/-- Whenever `I` holds before each of its regions, `p` keeps `I`, and returns
only what satisfies `Q`. -/
def Upholds (A : S → E → Prop) (I : S → Prop) (Q : α → Prop) : Prog E S ε α → Prop
  | .done r => ∀ a, r = .ok a → Q a
  | .region u n => ∀ e s, A s e → I s → I (u e s) ∧ (n e s).Upholds A I Q

variable {A A' : S → E → Prop} {I : S → Prop} {Q Q' : α → Prop}

theorem upholds_done {r : Except ε α} (h : ∀ a, r = .ok a → Q a) :
    (Prog.done r : Prog E S ε α).Upholds A I Q := h

theorem upholds_pure {a : α} (h : Q a) : (Prog.done (.ok a) : Prog E S ε α).Upholds A I Q := by
  intro a' ha
  cases ha
  exact h

theorem upholds_fail (x : ε) : (Prog.done (.error x) : Prog E S ε α).Upholds A I Q := by
  intro a ha
  cases ha

theorem upholds_atomic {b : E → S → Except ε α × S}
    (h : ∀ e s, A s e → I s → I (b e s).2 ∧ ∀ a, (b e s).1 = .ok a → Q a) :
    (atomic b).Upholds A I Q := h

theorem Upholds.bind {R : β → Prop} {f : α → Prog E S ε β} (hf : ∀ a, Q a → (f a).Upholds A I R) :
    ∀ {p : Prog E S ε α}, p.Upholds A I Q → (p.bind f).Upholds A I R
  | .done (.ok a), h => hf a (h a rfl)
  | .done (.error x), _ => upholds_fail x
  | .region _ _, h => fun e s ha hi => ⟨(h e s ha hi).1, Upholds.bind hf (h e s ha hi).2⟩

theorem Upholds.attempt : ∀ {p : Prog E S ε α}, p.Upholds A I Q →
    (p.attempt : Prog E S ε' _).Upholds A I fun r => ∀ a, r = .ok a → Q a
  | .done _, h => upholds_pure h
  | .region _ _, h => fun e s ha hi => ⟨(h e s ha hi).1, Upholds.attempt (h e s ha hi).2⟩

theorem Upholds.mapError {f : ε → ε'} :
    ∀ {p : Prog E S ε α}, p.Upholds A I Q → (p.mapError f).Upholds A I Q
  | .done (.ok _), h => upholds_pure (h _ rfl)
  | .done (.error x), _ => upholds_fail (f x)
  | .region _ _, h => fun e s ha hi => ⟨(h e s ha hi).1, Upholds.mapError (h e s ha hi).2⟩

theorem Upholds.mono (hq : ∀ a, Q a → Q' a) :
    ∀ {p : Prog E S ε α}, p.Upholds A I Q → p.Upholds A I Q'
  | .done _, h => fun a ha => hq a (h a ha)
  | .region _ _, h => fun e s ha hi => ⟨(h e s ha hi).1, Upholds.mono hq (h e s ha hi).2⟩

theorem Within.and {R R' : S → S → Prop} : ∀ {p : Prog E S ε α}, p.Within A R → p.Within A R' →
    p.Within A fun s s' => R s s' ∧ R' s s'
  | .done _, _, _ => trivial
  | .region _ _, h, h' => fun e s ha =>
    ⟨⟨(h e s ha).1, (h' e s ha).1⟩, Within.and (h e s ha).2 (h' e s ha).2⟩

/-- If every region keeps `I` by itself, the whole does. -/
theorem Within.upholds {R : S → S → Prop} (hr : ∀ s s', R s s' → I s → I s') :
    ∀ {p : Prog E S ε α}, p.Within A R → p.Upholds A I fun _ => True
  | .done _, _ => fun _ _ => trivial
  | .region _ _, h => fun e s ha hi => ⟨hr _ _ (h e s ha).1 hi, Within.upholds hr (h e s ha).2⟩

/-- If every step of the automaton keeps `I`, what follows it does. -/
theorem Follows.upholds {σ : Type} {δ : σ → Move E S → σ → Prop} {P : σ → Except ε α → Prop}
    (hδ : ∀ x m y, δ x m y → A m.before m.input → I m.before → I m.after) :
    ∀ {p : Prog E S ε α} {x : σ}, p.Follows A δ P x → p.Upholds A I fun _ => True
  | .done _, _, _ => fun _ _ => trivial
  | .region _ _, _, h => by
    intro e s ha hi
    obtain ⟨y, hstep, hnext⟩ := h s e ha
    exact ⟨hδ _ _ _ hstep ha hi, Follows.upholds hδ hnext⟩

theorem Exec.mono (hA : ∀ s e, A s e → A' s e) {p : Prog E S ε α} {s s' : S} {es : List E}
    {r : Except ε α} (h : Exec A p s es r s') : Exec A' p s es r s' := by
  induction h with
  | done r s => exact .done r s
  | region ha _ ih => exact .region (hA _ _ ha) ih

/-- In an execution of what keeps `I`, `I` holds before every region. -/
theorem Exec.upheld {D : E → Prop} {p : Prog E S ε α} {s s' : S} {es : List E} {r : Except ε α}
    (h : Exec A p s es r s') : p.Upholds A I Q → I s → (∀ e ∈ es, D e) →
    Exec (fun s e => A s e ∧ I s ∧ D e) p s es r s' := by
  induction h with
  | done r s => exact fun _ _ _ => .done r s
  | region ha _ ih =>
    intro hp hs hD
    obtain ⟨hi, hnext⟩ := hp _ _ ha hs
    exact .region ⟨ha, hs, hD _ List.mem_cons_self⟩
      (ih hnext hi fun e he => hD e (List.mem_cons_of_mem _ he))

/-- Unless it fails, `p` ends by a region that satisfies `T`. -/
def EndsBy (T : Prog E S ε α → Prop) : Prog E S ε α → Prop
  | .done r => ∃ x, r = .error x
  | .region u n => (T (.region u n) ∧ ∀ e s, ∃ r, n e s = .done r) ∨ ∀ e s, (n e s).EndsBy T

theorem endsBy_bind {T : Prog E S ε β → Prop} {f : α → Prog E S ε β}
    (hf : ∀ a, Q a → (f a).EndsBy T) :
    ∀ {p : Prog E S ε α}, p.Yields (fun r => ∀ a, r = .ok a → Q a) → (p.bind f).EndsBy T
  | .done (.ok a), h => hf a (h a rfl)
  | .done (.error x), _ => ⟨x, rfl⟩
  | .region _ _, h => .inr fun e s => endsBy_bind hf (h e s)

end Prog

open Prog

/-- The shared state, and the calls in flight by their numbers: what each is,
and what is left of it. -/
structure Service (K E S ε α : Type) where
  shared : S
  calls : Nat → Option (K × Prog E S ε α)

namespace Service

inductive Label (K E S ε α : Type) where
  | began (n : Nat) (k : K)
  /-- call `n` has run a region on `e`, and `rest` is left of it -/
  | worked (n : Nat) (k : K) (e : E) (rest : Prog E S ε α)
  | ended (n : Nat) (k : K) (r : Except ε α)
  | restarted

def setCall (c : Service K E S ε α) (n : Nat) (p : Option (K × Prog E S ε α)) : Service K E S ε α :=
  { c with calls := Function.update c.calls n p }

section
variable (code : K → Prog E S ε α) (A : S → E → Prop) (Restarts : S → S → Prop)

inductive Step : Label K E S ε α → Service K E S ε α → Service K E S ε α → Prop
  | began {c : Service K E S ε α} {n : Nat} (k : K) (h : c.calls n = none) :
      Step (.began n k) c (c.setCall n (some (k, code k)))
  | worked {c : Service K E S ε α} {n : Nat} {k : K} {u : E → S → S}
      {next : E → S → Prog E S ε α} {e : E}
      (h : c.calls n = some (k, .region u next)) (ha : A c.shared e) :
      Step (.worked n k e (next e c.shared)) c
        { c.setCall n (some (k, next e c.shared)) with shared := u e c.shared }
  | ended {c : Service K E S ε α} {n : Nat} {k : K} {r : Except ε α}
      (h : c.calls n = some (k, .done r)) :
      Step (.ended n k r) c (c.setCall n none)
  | restarted {c : Service K E S ε α} {s : S} (h : Restarts c.shared s) :
      Step .restarted c ⟨s, fun _ => none⟩

def system (Start : S → Prop) : System (Label K E S ε α) (Service K E S ε α) where
  Start c := Start c.shared ∧ ∀ n, c.calls n = none
  Step := Step code A Restarts

end

@[simp] theorem setCall_self (c : Service K E S ε α) (n : Nat) (p : Option (K × Prog E S ε α)) :
    (c.setCall n p).calls n = p := Function.update_self ..

theorem setCall_ne (c : Service K E S ε α) {n m : Nat} (p : Option (K × Prog E S ε α)) (h : m ≠ n) :
    (c.setCall n p).calls m = c.calls m := Function.update_of_ne h ..

@[simp] theorem setCall_shared (c : Service K E S ε α) (n : Nat) (p : Option (K × Prog E S ε α)) :
    (c.setCall n p).shared = c.shared := rfl

/-- What holds of every call in flight holds of them once one has changed. -/
theorem forall_setCall {c : Service K E S ε α} {n : Nat} {p : Option (K × Prog E S ε α)}
    {P : K → Prog E S ε α → Prop} (hp : ∀ k q, p = some (k, q) → P k q)
    (h : ∀ m k q, c.calls m = some (k, q) → P k q) (m : Nat) (k : K) (q : Prog E S ε α)
    (hm : (c.setCall n p).calls m = some (k, q)) : P k q := by
  by_cases hmn : m = n
  · subst hmn
    rw [setCall_self] at hm
    exact hp k q hm
  · rw [setCall_ne c p hmn] at hm
    exact h m k q hm

/-! ## Invariants -/

/-- Only calls of `B` begin, and the regions' inputs are in `D`. -/
def Label.Among (B : K → Prop) (D : E → Prop) : Label K E S ε α → Prop
  | .began _ k => B k
  | .worked _ _ e _ => D e
  | _ => True

/-- `I` holds, and every call in flight upholds it. -/
structure Upholds (A : S → E → Prop) (I : S → Prop) (Q : K → α → Prop) (c : Service K E S ε α) :
    Prop where
  shared : I c.shared
  calls : ∀ n k p, c.calls n = some (k, p) → p.Upholds A I (Q k)

variable {code : K → Prog E S ε α} {A : S → E → Prop} {Restarts : S → S → Prop} {I : S → Prop}
  {Q : K → α → Prop} {B : K → Prop} {D : E → Prop} {c c' : Service K E S ε α} {a : Label K E S ε α}
  {l : List (Label K E S ε α)} {Start : S → Prop} {n : Nat} {k : K} {e : E}

theorem Step.upholds (hs : Step code A Restarts a c c')
    (hcode : ∀ k, B k → (code k).Upholds (fun s e => A s e ∧ D e) I (Q k))
    (hre : ∀ s s', I s → Restarts s s' → I s') (ha : a.Among B D)
    (hc : c.Upholds (fun s e => A s e ∧ D e) I Q) : c'.Upholds (fun s e => A s e ∧ D e) I Q := by
  cases hs with
  | began k h =>
    refine ⟨hc.shared, forall_setCall (fun k' q hq => ?_) hc.calls⟩
    cases hq
    exact hcode k ha
  | worked h hA =>
    obtain ⟨hi, hnext⟩ := hc.calls _ _ _ h _ _ ⟨hA, ha⟩ hc.shared
    refine ⟨hi, forall_setCall (fun k' q hq => ?_) hc.calls⟩
    cases hq
    exact hnext
  | ended h => exact ⟨hc.shared, forall_setCall (fun _ _ hq => by cases hq) hc.calls⟩
  | restarted h => exact ⟨hre _ _ hc.shared h, fun _ _ _ hq => by cases hq⟩

/-- **An invariant that every call upholds.** -/
theorem Run.upholds (h : ((system code A Restarts Start).resumed c).Run l c')
    (hcode : ∀ k, B k → (code k).Upholds (fun s e => A s e ∧ D e) I (Q k))
    (hre : ∀ s s', I s → Restarts s s' → I s') (hl : ∀ a ∈ l, a.Among B D)
    (hc : c.Upholds (fun s e => A s e ∧ D e) I Q) :
    c'.Upholds (fun s e => A s e ∧ D e) I Q ∧ ∀ n k a, Label.ended n k (.ok a) ∈ l → Q k a := by
  induction h with
  | start hs =>
    subst hs
    exact ⟨hc, fun _ _ _ hm => absurd hm List.not_mem_nil⟩
  | @step l b c₁ c₂ _ hs ih =>
    obtain ⟨hup, hended⟩ := ih fun a ha => hl a (List.mem_cons_of_mem _ ha)
    refine ⟨Step.upholds hs hcode hre (hl b List.mem_cons_self) hup, fun n k a hm => ?_⟩
    rcases List.mem_cons.1 hm with rfl | hm
    · cases hs with
      | ended hn => exact hup.calls n k _ hn a rfl
    · exact hended n k a hm

/-! ## The last region of a call -/

/-- Every call of `B` in flight is over, or ends by a region of `T`. -/
def EndBy (B : K → Prop) (T : K → Prog E S ε α → Prop) (c : Service K E S ε α) : Prop :=
  ∀ n k p, c.calls n = some (k, p) → B k → p.EndsBy (T k) ∨ ∃ r, p = .done r

variable {T : K → Prog E S ε α → Prop}

theorem Step.endBy (hs : Step code A Restarts a c c') (hcode : ∀ k, B k → (code k).EndsBy (T k))
    (hc : c.EndBy B T) : c'.EndBy B T := by
  cases hs with
  | began k h =>
    refine forall_setCall (fun k' q hq hk => ?_) hc
    cases hq
    exact .inl (hcode k hk)
  | worked h hA =>
    refine forall_setCall (fun k' q hq hk => ?_) hc
    cases hq
    rcases hc _ _ _ h hk with (⟨-, hdone⟩ | hnext) | ⟨r, hr⟩
    · exact .inr (hdone _ _)
    · exact .inl (hnext _ _)
    · cases hr
  | ended h => exact forall_setCall (fun _ _ hq => by cases hq) hc
  | restarted h => exact fun _ _ _ hq => by cases hq

theorem Run.endBy (h : (system code A Restarts Start).Run l c)
    (hcode : ∀ k, B k → (code k).EndsBy (T k)) : c.EndBy B T :=
  h.invariant (fun _ hs n _ _ hn => by rw [hs.2 n] at hn; cases hn) fun _ _ _ hc hs =>
    Step.endBy hs hcode hc

/-- The region after which a call has its result is one of `T`. -/
theorem Step.last {r : α} (hs : Step code A Restarts (.worked n k e (.done (.ok r))) c c')
    (hk : B k) (hc : c.EndBy B T) :
    ∃ u next, c.calls n = some (k, .region u next) ∧ T k (.region u next) ∧
      A c.shared e ∧ next e c.shared = .done (.ok r) ∧
      c' = { c.setCall n (some (k, .done (.ok r))) with shared := u e c.shared } := by
  generalize hp : (Prog.done (.ok r) : Prog E S ε α) = p at hs
  cases hs with
  | @worked _ _ _ u next _ h hA =>
    refine ⟨u, next, h, ?_, hA, rfl, rfl⟩
    rcases hc _ _ _ h hk with (⟨hT, -⟩ | hnext) | ⟨r', hr⟩
    · exact hT
    · have hend := hnext e c.shared
      rw [← hp] at hend
      obtain ⟨x, hx⟩ := hend
      cases hx
    · cases hr

/-! ## A call alone -/

/-- In flight, and nothing else runs until it is over. -/
theorem Exec.run {p : Prog E S ε α} {s s' : S} {es : List E} {r : Except ε α}
    (h : Exec A p s es r s') :
    ∀ {c : Service K E S ε α}, c.shared = s → c.calls n = some (k, p) → (∀ e ∈ es, D e) →
    ∃ l, ((system code A Restarts Start).resumed c).Run l { c.setCall n none with shared := s' } ∧
      .ended n k r ∈ l ∧ ∀ a ∈ l, a.Among B D := by
  induction h with
  | done r s =>
    intro c hs hn _
    subst hs
    exact ⟨[.ended n k r], .step (.start rfl) (.ended hn),
      List.mem_singleton_self _, by simp [Label.Among]⟩
  | @region u next s e es r s' ha _ ih =>
    intro c hs hn hD
    subst hs
    obtain ⟨l, hl, hr, hB⟩ :=
      ih (c := { c.setCall n (some (k, next e c.shared)) with shared := u e c.shared })
      rfl (setCall_self c n _) fun e he => hD e (List.mem_cons_of_mem _ he)
    have hfirst : ((system code A Restarts Start).resumed c).Run [.worked n k e (next e c.shared)]
        { c.setCall n (some (k, next e c.shared)) with shared := u e c.shared } :=
      .step (.start rfl) (.worked hn ha)
    have hlast := hfirst.append hl
    simp only [setCall, Function.update_idem] at hlast
    refine ⟨_, hlast, List.mem_append_left _ hr, fun a ha => ?_⟩
    rcases List.mem_append.1 ha with h | h
    · exact hB a h
    · rw [List.mem_singleton.1 h]
      exact hD e List.mem_cons_self

/-- **What a call does alone the service can do**, whatever else is in flight. -/
theorem Exec.service {s' : S} {es : List E} {r : Except ε α} (h : Exec A (code k) c.shared es r s')
    (hn : c.calls n = none) (hB : B k) (hD : ∀ e ∈ es, D e) :
    ∃ l, ((system code A Restarts Start).resumed c).Run l { c with shared := s' } ∧
      .ended n k r ∈ l ∧ ∀ a ∈ l, a.Among B D := by
  have hfirst : ((system code A Restarts Start).resumed c).Run [.began n k]
      (c.setCall n (some (k, code k))) :=
    .step (.start rfl) (.began k hn)
  obtain ⟨l, hl, hr, hl'⟩ : ∃ l,
      ((system code A Restarts Start).resumed (c.setCall n (some (k, code k)))).Run l
      { (c.setCall n (some (k, code k))).setCall n none with shared := s' } ∧
      Label.ended n k r ∈ l ∧ ∀ a ∈ l, a.Among B D := Exec.run h rfl (setCall_self c n _) hD
  have hlast := hfirst.append hl
  simp only [setCall, Function.update_idem, ← hn, Function.update_eq_self] at hlast
  refine ⟨_, hlast, List.mem_append_left _ hr, fun a ha => ?_⟩
  rcases List.mem_append.1 ha with h | h
  · exact hl' a h
  · rw [List.mem_singleton.1 h]
    exact hB

/-- The last region of a call. -/
theorem Exec.last {s' : S} {r : Except ε α} {p : Prog E S ε α} (h : Exec A p c.shared [e] r s')
    (hn : c.calls n = some (k, p)) : Step code A Restarts (.worked n k e (.done r)) c
      { c.setCall n (some (k, .done r)) with shared := s' } := by
  cases p with
  | done q =>
    obtain ⟨hes, -⟩ := exec_done.1 h
    cases hes
  | region u next =>
    obtain ⟨e', es', hes, ha, hrest⟩ := exec_region.1 h
    cases hes
    obtain ⟨hnext, hu⟩ : next e c.shared = .done r ∧ s' = u e c.shared := by
      generalize next e c.shared = q at hrest
      cases hrest with
      | done => exact ⟨rfl, rfl⟩
    have hstep : Step code A Restarts (.worked n k e (next e c.shared)) c
        { c.setCall n (some (k, next e c.shared)) with shared := u e c.shared } := .worked hn ha
    rwa [hnext, ← hu] at hstep

/-- ... and those before it. -/
theorem Exec.worked {s' : S} {r : Except ε α} :
    ∀ {es : List E} {p : Prog E S ε α} {c : Service K E S ε α},
    Exec A p c.shared (es ++ [e]) r s' → c.calls n = some (k, p) → (∀ e ∈ es, D e) →
    ∃ l c₁, ((system code A Restarts Start).resumed c).Run l c₁ ∧
      Step code A Restarts (.worked n k e (.done r)) c₁
      { c.setCall n (some (k, .done r)) with shared := s' } ∧
      ∀ a ∈ l, a.Among B D
  | [], _, c, h, hn, _ => ⟨[], c, .start rfl, Exec.last h hn, by simp⟩
  | e' :: es, p, c, h, hn, hD => by
    cases p with
    | done q =>
      obtain ⟨hes, -⟩ := exec_done.1 h
      cases hes
    | region u next =>
      obtain ⟨e'', es', hes, ha, hrest⟩ := exec_region.1 h
      cases hes
      obtain ⟨l, c₁, hl, hlast, hB⟩ := Exec.worked (p := next e' c.shared)
        (c := { c.setCall n (some (k, next e' c.shared)) with shared := u e' c.shared }) hrest
        (setCall_self c n _) fun e he => hD e (List.mem_cons_of_mem _ he)
      have hfirst : ((system code A Restarts Start).resumed c).Run
          [.worked n k e' (next e' c.shared)]
          { c.setCall n (some (k, next e' c.shared)) with shared := u e' c.shared } :=
        .step (.start rfl) (.worked hn ha)
      simp only [setCall, Function.update_idem] at hlast
      refine ⟨_, c₁, hfirst.append hl, hlast, fun a ha => ?_⟩
      rcases List.mem_append.1 ha with h | h
      · exact hB a h
      · rw [List.mem_singleton.1 h]
        exact hD e' List.mem_cons_self

end Service

end VaultSigner.Core
