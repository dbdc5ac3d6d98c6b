import Mathlib.Data.Set.Insert
import Mathlib.Logic.Function.Basic
import VaultSigner.Core.Refinement

/-!
# A register that survives crashes

The most that several clients sharing one file can ask for. The register holds
one value. A client begins a call to put a value; the call takes effect at one
moment before it ends, or not at all, and it ends well exactly if it did. A
crash ends every call and leaves one of the values in `may`: what was put last,
or something older that has not been superseded for good yet.

Results:
* `Run.sound`: the register holds one of the values a crash may leave.
* `Run.since`: from a state on, whatever it holds, now or after a crash, was in
  `may` then, or is the value of a call that had not taken effect yet.
* `Run.lone`: a call with no other beside it.
* `Run.answers`, `Run.newer`: once a call has ended well, and until a crash, it
  holds the value of a call that had not taken effect when that one began.
-/
namespace VaultSigner.Core

variable {V N : Type}

/-- A call under way: what it is to put, if anything, and whether it has. -/
structure PendingPut (V : Type) where
  value : Option V
  landed : Bool

structure Register (V N : Type) where
  now : V
  may : Set V
  calls : N → Option (PendingPut V)

namespace Register

inductive Label (V N : Type) where
  | begun (n : N) (value : Option V)
  | worked
  | ended (n : N) (ok : Bool)
  | killed (n : N)
  | crashed

variable [DecidableEq N]

def setCall (r : Register V N) (n : N) (c : Option (PendingPut V)) : Register V N :=
  { r with calls := Function.update r.calls n c }

/-- `v` takes effect. The values from before may still come back. -/
def put (r : Register V N) (n : N) (v : V) : Register V N :=
  ⟨v, insert v r.may, Function.update r.calls n (some ⟨some v, true⟩)⟩

@[simp] theorem setCall_self (r : Register V N) (n : N) (c : Option (PendingPut V)) :
    (r.setCall n c).calls n = c := Function.update_self ..

theorem setCall_ne (r : Register V N) {n m : N} (c : Option (PendingPut V)) (h : m ≠ n) :
    (r.setCall n c).calls m = r.calls m := Function.update_of_ne h ..

@[simp] theorem put_self (r : Register V N) (n : N) (v : V) :
    (r.put n v).calls n = some ⟨some v, true⟩ := Function.update_self ..

theorem put_ne (r : Register V N) {n m : N} (v : V) (h : m ≠ n) : (r.put n v).calls m = r.calls m :=
  Function.update_of_ne h ..

inductive Step : Label V N → Register V N → Register V N → Prop
  | begun {r : Register V N} {n : N} (v : Option V) (h : r.calls n = none) :
      Step (.begun n v) r (r.setCall n (some ⟨v, false⟩))
  | idle (r : Register V N) : Step .worked r r
  | put {r : Register V N} {n : N} {v : V} (h : r.calls n = some ⟨some v, false⟩) :
      Step .worked r (r.put n v)
  | ended {r : Register V N} {n : N} {v : Option V} {ok : Bool} (h : r.calls n = some ⟨v, ok⟩) :
      Step (.ended n ok) r (r.setCall n none)
  | killed {r : Register V N} {n : N} {c : PendingPut V} (h : r.calls n = some c) :
      Step (.killed n) r (r.setCall n none)
  | crashed {r : Register V N} {v : V} (h : v ∈ r.may) : Step .crashed r ⟨v, {v}, fun _ => none⟩

/-- The register holds `v`, for good, and nobody is at it. -/
def system (v : V) : System (Label V N) (Register V N) where
  Start r := r = ⟨v, {v}, fun _ => none⟩
  Step := Step

/-- The values that calls begin with. -/
def offered (l : List (Label V N)) : Set V := { v | ∃ n, Label.begun n (some v) ∈ l }

/-- What is in sight: `P` holds of all that the register may come to hold
without another call. -/
structure Within (P : Set V) (r : Register V N) : Prop where
  now : r.now ∈ P
  may : r.may ⊆ P
  calls : ∀ n v, r.calls n = some ⟨some v, false⟩ → v ∈ P

variable {P : Set V} {r r' : Register V N} {a : Label V N} {l : List (Label V N)}

theorem Within.setCall (h : r.Within P) (n : N) {c : Option (PendingPut V)}
    (hc : ∀ v, c = some ⟨some v, false⟩ → v ∈ P) : (r.setCall n c).Within P where
  now := h.now
  may := h.may
  calls := by
    intro m v hm
    by_cases hmn : m = n
    · subst hmn
      rw [setCall_self] at hm
      exact hc v hm
    · rw [setCall_ne r c hmn] at hm
      exact h.calls m v hm

theorem Within.step (h : r.Within P) (hs : Step a r r')
    (ha : ∀ n v, a = .begun n (some v) → v ∈ P) :
    r'.Within P := by
  cases hs with
  | begun v hn => exact h.setCall _ fun w hw => ha _ w (by cases hw; rfl)
  | idle => exact h
  | @put _ n v hn =>
    refine ⟨h.calls n v hn, Set.insert_subset (h.calls n v hn) h.may, fun m w hm => ?_⟩
    by_cases hmn : m = n
    · subst hmn
      rw [put_self] at hm
      cases hm
    · rw [put_ne r v hmn] at hm
      exact h.calls m w hm
  | ended hn => exact h.setCall _ nofun
  | killed hn => exact h.setCall _ nofun
  | crashed hv => exact ⟨h.may hv, Set.singleton_subset_iff.2 (h.may hv), nofun⟩

/-- From `r₀` on. -/
theorem Run.since {v : V} {r₀ : Register V N} (h : ((system v).resumed r₀).Run l r)
    (hP : r₀.Within P) (hl : offered l ⊆ P) : r.Within P := by
  induction h with
  | start h => exact h ▸ hP
  | step _ hs ih =>
    refine (ih fun w hw => hl ?_).step hs fun n w hw => hl ⟨n, ?_⟩
    · obtain ⟨n, hn⟩ := hw
      exact ⟨n, List.mem_cons_of_mem _ hn⟩
    · rw [hw]
      exact List.mem_cons_self

/-- Client `n` is at work on `v`, and nobody else. -/
structure Alone (v₀ : V) (n : N) (v : Option V) (r : Register V N) : Prop where
  others : ∀ m ≠ n, r.calls m = none
  call : (r.calls n = some ⟨v, false⟩ ∧ r.now = v₀) ∨ (r.calls n = some ⟨v, true⟩ ∧ v = some r.now)

theorem Alone.worked {v₀ : V} {n : N} {v : Option V} (h : r.Alone v₀ n v) (hs : Step .worked r r') :
    r'.Alone v₀ n v := by
  cases hs with
  | idle => exact h
  | @put _ m w hm =>
    have hmn : m = n := by
      by_contra hne
      rw [h.others m hne] at hm
      cases hm
    subst hmn
    refine ⟨fun k hk => (put_ne r w hk).trans (h.others k hk), .inr ?_⟩
    rcases h.call with ⟨hc, -⟩ | ⟨hc, -⟩
    · rw [hc] at hm
      cases hm
      exact ⟨put_self .., rfl⟩
    · rw [hc] at hm
      cases hm

/-- It takes effect if it ends well, and only then. -/
theorem Run.lone {v₀ : V} {n : N} {v : Option V} {ok : Bool} {r₀ : Register V N}
    (h₀ : ∀ m, r₀.calls m = none) (hl : ∀ b ∈ l, b = .worked)
    (h : ((system v₀).resumed r₀).Run (.ended n ok :: (l ++ [.begun n v])) r) :
    (ok = true → v = some r.now) ∧ (ok = false → r.now = r₀.now) := by
  have halone : ∀ {l : List (Label V N)} {r : Register V N}, (∀ b ∈ l, b = .worked) →
      ((system v₀).resumed r₀).Run (l ++ [.begun n v]) r → r.Alone r₀.now n v := by
    intro l
    induction l with
    | nil =>
      intro r _ h
      cases h with
      | step h hs =>
        cases h with
        | start h =>
          cases hs with
          | begun _ hn =>
            subst h
            exact ⟨fun m hm => (setCall_ne _ _ hm).trans (h₀ m), .inl ⟨setCall_self .., rfl⟩⟩
    | cons b l ih =>
      intro r hl h
      cases h with
      | step h hs =>
        obtain rfl := hl b List.mem_cons_self
        exact (ih (fun b hb => hl b (List.mem_cons_of_mem _ hb)) h).worked hs
  cases h with
  | step h hs =>
    have ha := halone hl h
    cases hs with
    | ended hc =>
      rcases ha.call with ⟨hc', hn⟩ | ⟨hc', hn⟩
      · rw [hc'] at hc
        cases hc
        exact ⟨nofun, fun _ => hn⟩
      · rw [hc'] at hc
        cases hc
        exact ⟨fun _ => hn, nofun⟩

/-- The calls still to take effect put values of `P`, and unless `n` is one of
them, the register holds such a value already. -/
structure Newer (P : Set V) (n : N) (r : Register V N) : Prop where
  calls : ∀ m v, r.calls m = some ⟨some v, false⟩ → v ∈ P
  now : r.now ∈ P ∨ ∃ c, r.calls n = some ⟨c, false⟩

theorem Newer.setCall {n : N} (h : r.Newer P n) (m : N) {c : Option (PendingPut V)}
    (hc : ∀ v, c = some ⟨some v, false⟩ → v ∈ P) (hn : r.now ∈ P ∨ n ≠ m) :
    (r.setCall m c).Newer P n where
  calls := by
    intro k v hk
    by_cases hkm : k = m
    · subst hkm
      rw [setCall_self] at hk
      exact hc v hk
    · rw [setCall_ne r c hkm] at hk
      exact h.calls k v hk
  now := by
    rcases hn with hn | hn
    · exact .inl hn
    · rw [setCall_ne r c hn]
      exact h.now

theorem Newer.step {n : N} (h : r.Newer P n) (hs : Step a r r')
    (ha : ∀ m v, a = .begun m (some v) → v ∈ P) (hc : a ≠ .crashed)
    (he : r.now ∈ P ∨ a ≠ .ended n false ∧ a ≠ .killed n) : r'.Newer P n := by
  cases hs with
  | @begun _ m v hm =>
    refine h.setCall m (fun w hw => ha _ w (by cases hw; rfl)) (h.now.imp id fun ⟨c, hn⟩ => ?_)
    rintro rfl
    rw [hm] at hn
    cases hn
  | idle => exact h
  | @put _ m v hm =>
    refine ⟨fun k w hk => ?_, .inl (h.calls m v hm)⟩
    by_cases hkm : k = m
    · subst hkm
      rw [put_self] at hk
      cases hk
    · rw [put_ne r v hkm] at hk
      exact h.calls k w hk
  | @ended _ m v ok hm =>
    refine h.setCall m nofun ?_
    rcases he with hn | ⟨he, -⟩
    · exact .inl hn
    · refine h.now.imp id fun ⟨v', hn⟩ => ?_
      rintro rfl
      rw [hm] at hn
      cases hn
      exact he rfl
  | @killed _ m c hm =>
    refine h.setCall m nofun (he.imp id fun he => ?_)
    rintro rfl
    exact he.2 rfl
  | crashed => exact absurd rfl hc

/-- While call `n` is under way. -/
theorem Run.answers {v : V} {n : N} {r₀ : Register V N} (h : ((system v).resumed r₀).Run l r)
    (h₀ : r₀.Newer P n) (hl : offered l ⊆ P) (hc : Label.crashed ∉ l)
    (hn : Label.ended n false ∉ l ∧ Label.killed n ∉ l) : r.Newer P n := by
  induction h with
  | start h => exact h ▸ h₀
  | step _ hs ih =>
    have hprev := ih (fun w ⟨m, hm⟩ => hl ⟨m, List.mem_cons_of_mem _ hm⟩)
      (fun hm => hc (List.mem_cons_of_mem _ hm))
      ⟨fun hm => hn.1 (List.mem_cons_of_mem _ hm), fun hm => hn.2 (List.mem_cons_of_mem _ hm)⟩
    refine hprev.step hs (fun m w hw => hl ⟨m, hw ▸ List.mem_cons_self⟩) ?_ (.inr ⟨?_, ?_⟩)
    · rintro rfl
      exact hc List.mem_cons_self
    · rintro rfl
      exact hn.1 List.mem_cons_self
    · rintro rfl
      exact hn.2 List.mem_cons_self

/-- It ends well: so it has taken effect. -/
theorem Newer.ended {n : N} (h : r.Newer P n) (hs : Step (.ended n true) r r') :
    r'.Newer P n ∧ r'.now ∈ P := by
  have hnow : r.now ∈ P := by
    rcases h.now with hn | ⟨v, hn⟩
    · exact hn
    · cases hs with
      | ended hm =>
        rw [hn] at hm
        cases hm
  refine ⟨h.step hs nofun nofun (.inl hnow), ?_⟩
  cases hs with
  | ended => exact hnow

/-- After it has ended well. -/
theorem Run.newer {v : V} {n : N} {r₀ : Register V N} (h : ((system v).resumed r₀).Run l r)
    (h₀ : r₀.Newer P n) (hnow : r₀.now ∈ P) (hl : offered l ⊆ P) (hc : Label.crashed ∉ l) :
    r.now ∈ P := by
  have hboth : r.Newer P n ∧ r.now ∈ P := by
    induction h with
    | start h => exact h ▸ ⟨h₀, hnow⟩
    | step _ hs ih =>
      obtain ⟨hprev, hp⟩ := ih (fun w ⟨m, hm⟩ => hl ⟨m, List.mem_cons_of_mem _ hm⟩)
        (fun hm => hc (List.mem_cons_of_mem _ hm))
      refine ⟨hprev.step hs (fun m w hw => hl ⟨m, hw ▸ List.mem_cons_self⟩) ?_ (.inl hp), ?_⟩
      · rintro rfl
        exact hc List.mem_cons_self
      cases hs with
      | begun | idle | ended | killed => exact hp
      | put hm => exact hprev.calls _ _ hm
      | crashed => exact absurd List.mem_cons_self hc
  exact hboth.2

theorem Run.sound {v : V} (h : (system v).Run l r) : r.now ∈ r.may := by
  refine h.invariant (I := fun r => r.now ∈ r.may) ?_ ?_
  · intro r hr
    rw [hr]
    rfl
  · intro a r r' hr hs
    cases hs with
    | begun | idle | ended | killed => exact hr
    | put => exact Set.mem_insert _ _
    | crashed => rfl

end Register

end VaultSigner.Core
