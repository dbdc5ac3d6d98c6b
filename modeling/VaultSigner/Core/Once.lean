import VaultSigner.Core.Service

/-!
# Calls that take effect once

A call reads in some of its regions and takes effect in one. Seen from outside
it is a single step somewhere between its beginning and its end, whatever the
service does meanwhile. `Object` is a service seen so: of a call in flight it
knows only whether it has taken effect, and what it will then return.

Results:
* `Prog.once_atomic`, `Prog.Once.bind`, `Prog.Within.once_bind`: how programs
  that take effect once are put together.
* `Service.refines`: a service of such programs is an object.
* `Object.Run.since`: what a call in flight has done since it began.
* `Object.Run.once`: what it has done when it ends.
-/
namespace VaultSigner.Core

variable {K E S ε α β ρ : Type}

namespace Prog

/-- Only reading is left to do, and `r` to be returned. -/
def Returns (A : S → E → Prop) (R : S → S → Prop) (r : Except ε α) : Prog E S ε α → Prop
  | .done q => q = r
  | .region u n => ∀ e s, A s e → R s (u e s) ∧ (n e s).Returns A R r

/-- Every region reads, but for one that takes effect, with the result that is
returned in the end. Without that the result is one of `N`. -/
def Once (A : S → E → Prop) (R : S → S → Prop) (T : E → S → S → Except ε α → Prop)
    (N : Except ε α → Prop) : Prog E S ε α → Prop
  | .done r => N r
  | .region u n => ∀ e s, A s e → R s (u e s) ∧ (n e s).Once A R T N ∨
      ∃ r, T e s (u e s) r ∧ (n e s).Returns A R r

variable {A : S → E → Prop} {R : S → S → Prop} {T : E → S → S → Except ε α → Prop}
  {N : Except ε α → Prop}

theorem Returns.bind {f : α → Prog E S ε β} {a : α} {r : Except ε β} (hf : (f a).Returns A R r) :
    ∀ {p : Prog E S ε α}, p.Returns A R (.ok a) → (p.bind f).Returns A R r
  | .done q, h => by
    rw [show q = .ok a from h]
    exact hf
  | .region _ _, h => fun e s ha => ⟨(h e s ha).1, Returns.bind hf (h e s ha).2⟩

theorem Returns.bind_error {f : α → Prog E S ε β} {x : ε} :
    ∀ {p : Prog E S ε α}, p.Returns A R (.error x) → (p.bind f).Returns A R (.error x)
  | .done q, h => by
    rw [show q = .error x from h]
    rfl
  | .region _ _, h => fun e s ha => ⟨(h e s ha).1, Returns.bind_error (h e s ha).2⟩

/-- What only reads never takes effect. -/
theorem Within.once (hn : ∀ r, N r) : ∀ {p : Prog E S ε α}, p.Within A R → p.Once A R T N
  | .done r, _ => hn r
  | .region _ _, h => fun e s ha => .inl ⟨(h e s ha).1, Within.once hn (h e s ha).2⟩

/-- First it reads, and goes on to take effect unless it fails. -/
theorem Within.once_bind {T : E → S → S → Except ε β → Prop} {N : Except ε β → Prop}
    {f : α → Prog E S ε β} (hf : ∀ a, (f a).Once A R T N) (hx : ∀ x, N (.error x)) :
    ∀ {p : Prog E S ε α}, p.Within A R → (p.bind f).Once A R T N
  | .done (.ok a), _ => hf a
  | .done (.error x), _ => hx x
  | .region _ _, h => fun e s ha => .inl ⟨(h e s ha).1, Within.once_bind hf hx (h e s ha).2⟩

theorem Returns.within {r : Except ε α} {R' : S → S → Prop}
    (hr : ∀ e s s', A s e → R s s' → R' s s') :
    ∀ {p : Prog E S ε α}, p.Returns A R r → p.Within A R'
  | .done _, _ => trivial
  | .region _ _, h => fun e s ha => ⟨hr e _ _ ha (h e s ha).1, Returns.within hr (h e s ha).2⟩

/-- What any region does. -/
theorem Once.within {R' : S → S → Prop}
    (hr : ∀ e s s', A s e → R s s' ∨ (∃ r, T e s s' r) → R' s s') :
    ∀ {p : Prog E S ε α}, p.Once A R T N → p.Within A R'
  | .done _, _ => trivial
  | .region _ _, h => by
    intro e s ha
    rcases h e s ha with ⟨hR, hrest⟩ | ⟨r, hT, hrest⟩
    · exact ⟨hr e _ _ ha (.inl hR), Once.within hr hrest⟩
    · exact ⟨hr e _ _ ha (.inr ⟨r, hT⟩),
        Returns.within (fun e s s' ha h => hr e s s' ha (.inl h)) hrest⟩

theorem once_atomic {b : E → S → Except ε α × S}
    (h : ∀ e s, A s e → R s (b e s).2 ∧ N (b e s).1 ∨ T e s (b e s).2 (b e s).1) :
    (atomic b).Once A R T N := by
  intro e s ha
  rcases h e s ha with ⟨hr, hn⟩ | ht
  · exact .inl ⟨hr, hn⟩
  · exact .inr ⟨_, ht, rfl⟩

/-- It takes effect, and what follows only reads. -/
theorem Once.bind {T' : E → S → S → Except ε β → Prop} {N' : Except ε β → Prop}
    {f : α → Prog E S ε β} (hn : ∀ a, N (.ok a) → (f a).Once A R T' N')
    (hx : ∀ x, N (.error x) → N' (.error x))
    (ht : ∀ e s s' a, T e s s' (.ok a) → ∃ r, T' e s s' r ∧ (f a).Returns A R r)
    (he : ∀ e s s' x, T e s s' (.error x) → T' e s s' (.error x)) :
    ∀ {p : Prog E S ε α}, p.Once A R T N → (p.bind f).Once A R T' N'
  | .done (.ok a), h => hn a h
  | .done (.error x), h => hx x h
  | .region u n, h => by
    intro e s ha
    rcases h e s ha with ⟨hr, hrest⟩ | ⟨r, hT, hret⟩
    · exact .inl ⟨hr, Once.bind hn hx ht he hrest⟩
    · right
      cases r with
      | ok a =>
        obtain ⟨r, hT', hr⟩ := ht _ _ _ a hT
        exact ⟨r, hT', Returns.bind hr hret⟩
      | error x => exact ⟨.error x, he _ _ _ x hT, hret.bind_error⟩

end Prog

/-- A service seen from outside: the calls in flight, each with what it will
return once it has taken effect. -/
structure Object (K S ρ : Type) where
  shared : S
  calls : Nat → Option (K × Option ρ)

namespace Object

inductive Event (K E ρ : Type) where
  | began (n : Nat) (k : K)
  | read (n : Nat) (k : K)
  /-- call `n` takes effect on `e`, and will return `r` -/
  | took (n : Nat) (k : K) (e : E) (r : ρ)
  | ended (n : Nat) (k : K) (r : ρ)
  | restarted

def setCall (o : Object K S ρ) (n : Nat) (q : Option (K × Option ρ)) : Object K S ρ :=
  { o with calls := Function.update o.calls n q }

section
variable (A : S → E → Prop) (R : S → S → Prop) (T : K → E → S → S → ρ → Prop) (N : K → ρ → Prop)
  (Restarts : S → S → Prop)

inductive Step : Event K E ρ → Object K S ρ → Object K S ρ → Prop
  | began {o : Object K S ρ} {n : Nat} (k : K) (h : o.calls n = none) :
      Step (.began n k) o (o.setCall n (some (k, none)))
  | read {o : Object K S ρ} {n : Nat} {k : K} {q : Option ρ} {s : S} (h : o.calls n = some (k, q))
      (hr : R o.shared s) : Step (.read n k) o { o with shared := s }
  | took {o : Object K S ρ} {n : Nat} {k : K} {e : E} {r : ρ} {s : S}
      (h : o.calls n = some (k, none))
      (ha : A o.shared e) (ht : T k e o.shared s r) :
      Step (.took n k e r) o { o.setCall n (some (k, some r)) with shared := s }
  | ended {o : Object K S ρ} {n : Nat} {k : K} {q : Option ρ} {r : ρ} (h : o.calls n = some (k, q))
      (hr : q = some r ∨ q = none ∧ N k r) : Step (.ended n k r) o (o.setCall n none)
  | restarted {o : Object K S ρ} {s : S} (h : Restarts o.shared s) :
      Step .restarted o ⟨s, fun _ => none⟩

def system (Start : S → Prop) : System (Event K E ρ) (Object K S ρ) where
  Start o := Start o.shared ∧ ∀ n, o.calls n = none
  Step := Step A R T N Restarts

end

/-! ## What a call has done -/

/-- Call `n`, if it is in flight, and what it has done since it began, newest first. -/
def since (n : Nat) : List (Event K E ρ) → Option (K × List (E × ρ))
  | [] => none
  | .began m k :: j => if m = n then some (k, []) else since n j
  | .read _ _ :: j => since n j
  | .took m _ e r :: j => if m = n then (since n j).map fun p => (p.1, (e, r) :: p.2) else since n j
  | .ended m _ _ :: j => if m = n then none else since n j
  | .restarted :: _ => none

/-- A call in flight is as the events say, and what it has done was an effect
of it on some state. -/
inductive Told (A : S → E → Prop) (T : K → E → S → S → ρ → Prop) :
    Option (K × Option ρ) → Option (K × List (E × ρ)) → Prop
  | idle : Told A T none none
  | before {k : K} : Told A T (some (k, none)) (some (k, []))
  | after {k : K} {e : E} {r : ρ} {s s' : S} (ha : A s e) (ht : T k e s s' r) :
      Told A T (some (k, some r)) (some (k, [(e, r)]))

variable {A : S → E → Prop} {R : S → S → Prop} {T : K → E → S → S → ρ → Prop} {N : K → ρ → Prop}
  {Restarts : S → S → Prop} {Start : S → Prop} {o o' : Object K S ρ} {j : List (Event K E ρ)}
    {a : Event K E ρ}

@[simp] theorem setCall_self (o : Object K S ρ) (n : Nat) (q : Option (K × Option ρ)) :
    (o.setCall n q).calls n = q := Function.update_self ..

theorem setCall_ne (o : Object K S ρ) {n m : Nat} (q : Option (K × Option ρ)) (h : m ≠ n) :
    (o.setCall n q).calls m = o.calls m := Function.update_of_ne h ..

theorem setCall_same {o : Object K S ρ} {n : Nat} {q : Option (K × Option ρ)} (h : o.calls n = q) :
    o.setCall n q = o := by
  subst h
  exact congrArg (Object.mk o.shared) (Function.update_eq_self n o.calls)

@[simp] theorem setCall_shared (o : Object K S ρ) (n : Nat) (q : Option (K × Option ρ)) :
    (o.setCall n q).shared = o.shared := rfl

theorem Step.told (hs : Step A R T N Restarts a o o') (h : ∀ n, Told A T (o.calls n) (since n j))
    (n : Nat) : Told A T (o'.calls n) (since n (a :: j)) := by
  cases hs with
  | @began _ m k hm =>
    by_cases hmn : m = n
    · subst hmn
      simp only [setCall_self, since, if_true]
      exact .before
    · simp only [setCall_ne o _ (Ne.symm hmn), since, if_neg hmn]
      exact h n
  | read hm hr => exact h n
  | @took _ m k e r s hm ha ht =>
    by_cases hmn : m = n
    · subst hmn
      have hold := h m
      rw [hm] at hold
      simp only [setCall_self, since, if_true]
      cases hj : since m j with
      | none =>
        rw [hj] at hold
        cases hold
      | some p =>
        rw [hj] at hold
        cases hold
        exact .after ha ht
    · simp only [setCall_ne o _ (Ne.symm hmn), since, if_neg hmn]
      exact h n
  | @ended _ m k q r hm hr =>
    by_cases hmn : m = n
    · subst hmn
      simp only [setCall_self, since, if_true]
      exact .idle
    · simp only [setCall_ne o _ (Ne.symm hmn), since, if_neg hmn]
      exact h n
  | restarted hre => exact .idle

theorem Run.since (h : (system A R T N Restarts Start).Run j o) (n : Nat) :
    Told A T (o.calls n) (since n j) := by
  induction h generalizing n with
  | start hs =>
    rw [hs.2 n]
    exact .idle
  | step _ hs ih => exact Step.told hs ih n

/-- **A call that ends** has taken effect once since it began, with the result
it returns, or it returns one of `N` and never has. -/
theorem Run.once {j₁ j₂ : List (Event K E ρ)} {n : Nat} {k : K} {r : ρ}
    (h : (system A R T N Restarts Start).Run (j₁ ++ .ended n k r :: j₂) o) :
    (∃ e s s', Object.since n j₂ = some (k, [(e, r)]) ∧ A s e ∧ T k e s s' r) ∨
      Object.since n j₂ = some (k, []) ∧ N k r := by
  obtain ⟨o₁, h₁, -⟩ := h.split
  cases h₁ with
  | step hrun hs =>
    cases hs with
    | ended hn hr =>
      have htold := Run.since hrun n
      rw [hn] at htold
      generalize Object.since n j₂ = w at htold
      rcases hr with rfl | ⟨rfl, hN⟩
      · cases htold with
        | after ha ht => exact .inl ⟨_, _, _, rfl, ha, ht⟩
      · cases htold
        exact .inr ⟨rfl, hN⟩

end Object

/-! ## A service of such calls -/

namespace Service

/-- What an object's event says of a step of the service. -/
inductive Shows (A : S → E → Prop) (R : S → S → Prop) :
    Label K E S ε α → Object.Event K E (Except ε α) → Prop
  | began (n : Nat) (k : K) : Shows A R (.began n k) (.began n k)
  | read (n : Nat) (k : K) (e : E) (p : Prog E S ε α) : Shows A R (.worked n k e p) (.read n k)
  | took (n : Nat) (k : K) (e : E) {p : Prog E S ε α} {r : Except ε α} (h : p.Returns A R r) :
      Shows A R (.worked n k e p) (.took n k e r)
  | ended (n : Nat) (k : K) (r : Except ε α) : Shows A R (.ended n k r) (.ended n k r)
  | restarted : Shows A R .restarted .restarted

/-- The end of a call is among the events. -/
theorem Shows.ended_mem {A : S → E → Prop} {R : S → S → Prop} {n : Nat} {k : K} {r : Except ε α}
    {l : List (Label K E S ε α)} {j : List (Object.Event K E (Except ε α))}
    (h : List.Forall₂ (Shows A R) l j) (hl : .ended n k r ∈ l) :
    ∃ j₁ j₂, j = j₁ ++ .ended n k r :: j₂ := by
  induction h with
  | nil => exact absurd hl List.not_mem_nil
  | @cons a b l j hab _ ih =>
    rcases List.mem_cons.1 hl with rfl | hl
    · cases hab
      exact ⟨[], j, rfl⟩
    · obtain ⟨j₁, j₂, rfl⟩ := ih hl
      exact ⟨b :: j₁, j₂, rfl⟩

/-- A call in flight, and whether it has taken effect. -/
inductive Stands (A : S → E → Prop) (R : S → S → Prop) (T : K → E → S → S → Except ε α → Prop)
    (N : K → Except ε α → Prop) :
    Option (K × Prog E S ε α) → Option (K × Option (Except ε α)) → Prop
  | idle : Stands A R T N none none
  | before {k : K} {p : Prog E S ε α} (h : p.Once A R (T k) (N k)) :
      Stands A R T N (some (k, p)) (some (k, none))
  | after {k : K} {p : Prog E S ε α} {r : Except ε α} (h : p.Returns A R r) :
      Stands A R T N (some (k, p)) (some (k, some r))

/-- The object that a service is. -/
structure Seen (A : S → E → Prop) (R : S → S → Prop) (T : K → E → S → S → Except ε α → Prop)
    (N : K → Except ε α → Prop) (c : Service K E S ε α) (o : Object K S (Except ε α)) : Prop where
  shared : o.shared = c.shared
  calls : ∀ n, Stands A R T N (c.calls n) (o.calls n)

variable {A : S → E → Prop} {R : S → S → Prop} {T : K → E → S → S → Except ε α → Prop}
  {N : K → Except ε α → Prop} {Restarts : S → S → Prop} {Start : S → Prop} {c : Service K E S ε α}
  {o : Object K S (Except ε α)} {prog : K → Prog E S ε α}

theorem Seen.setCall {n : Nat} {p : Option (K × Prog E S ε α)}
    {q : Option (K × Option (Except ε α))} (s : S) (h : Seen A R T N c o)
    (hp : Stands A R T N p q) :
    Seen A R T N { c.setCall n p with shared := s } { o.setCall n q with shared := s } := by
  refine ⟨rfl, fun m => ?_⟩
  by_cases hm : m = n
  · subst hm
    show Stands A R T N ((c.setCall m p).calls m) ((o.setCall m q).calls m)
    rw [setCall_self, Object.setCall_self]
    exact hp
  · show Stands A R T N ((c.setCall n p).calls m) ((o.setCall n q).calls m)
    rw [setCall_ne c p hm, Object.setCall_ne o q hm]
    exact h.calls m

/-- **A service whose calls take effect once is an object.** -/
theorem refines (hp : ∀ k, (prog k).Once A R (T k) (N k)) :
    (Service.system prog A Restarts Start).RefinesBy (Object.system A R T N Restarts Start)
    (Shows A R)
      (Seen A R T N) where
  start := by
    intro c hc
    refine ⟨⟨c.shared, fun _ => none⟩, ⟨hc.1, fun _ => rfl⟩, rfl, fun n => ?_⟩
    rw [hc.2 n]
    exact .idle
  step := by
    intro a c c' o hseen hs
    obtain ⟨s, calls⟩ := o
    obtain rfl : s = c.shared := hseen.shared
    have hcall : ∀ n, Stands A R T N (c.calls n) (calls n) := hseen.calls
    cases hs with
    | @began _ n k hn =>
      have h := hcall n
      rw [hn] at h
      generalize ho : calls n = q at h
      cases h
      exact ⟨_, _, .began n k, .began k ho, hseen.setCall c.shared (.before (hp k))⟩
    | @worked _ n k u next e hn ha =>
      have h := hcall n
      rw [hn] at h
      generalize ho : calls n = q at h
      cases h with
      | before h =>
        rcases h e c.shared ha with ⟨hr, hrest⟩ | ⟨r, hT, hret⟩
        · refine ⟨_, _, .read n k e _, .read ho hr, ?_⟩
          have hnext := hseen.setCall (n := n) (u e c.shared) (.before (k := k) hrest)
          rwa [Object.setCall_same ho] at hnext
        · exact ⟨_, _, .took n k e hret, .took ho ha hT, hseen.setCall (u e c.shared) (.after hret)⟩
      | after h =>
        obtain ⟨hr, hrest⟩ := h e c.shared ha
        refine ⟨_, _, .read n k e _, .read ho hr, ?_⟩
        have hnext := hseen.setCall (n := n) (u e c.shared) (.after (k := k) hrest)
        rwa [Object.setCall_same ho] at hnext
    | @ended _ n k r hn =>
      have h := hcall n
      rw [hn] at h
      generalize ho : calls n = q at h
      refine ⟨_, _, .ended n k r, ?_, hseen.setCall c.shared .idle⟩
      cases h with
      | before h => exact .ended ho (.inr ⟨rfl, h⟩)
      | after h => exact .ended ho (.inl (congrArg some (Eq.symm h)))
    | restarted h => exact ⟨_, _, .restarted, .restarted h, rfl, fun _ => .idle⟩

end Service

end VaultSigner.Core
