import VaultSigner.Core.Region

/-!
# The moves of a call

`Region.lean` follows the shared state. Here the moves are followed instead:
one for each region that ran, with the state it found, its input, and the
state it left.

* `Prog.Walk`: the moves of one call, each from whatever state it is given.
* `Chain`: each move starts where the one before it ended.
* `Pool.Trace`: an interleaving, each move with the index of its call.
* `Prog.Follows`: a call as an automaton. Whatever states its regions are
  given, its moves are steps of `δ`, and it ends in `Q`.

Results:
* `Prog.walk_bind`, `Prog.walk_atomic`, `Prog.walk_attempt`, `Prog.walk_mapError`:
  the complete walks of a program.
* `Prog.exec_walk`, `Prog.walk_exec`: an execution alone is a walk and a chain.
* `Pool.Trace.walk`, `Pool.Trace.chain`: in an interleaving the moves of each
  call are a walk of it, and all of them together a chain.
* `Pool.Trace.invariant`: what every region keeps holds throughout.
* `Prog.Follows.bind`, `Prog.Follows.attempt_bind`, `Prog.Follows.walk`: the rules
  of an automaton, and what they say of a walk.
-/
namespace VaultSigner.Core

variable {E S ε ε' α β σ : Type}

structure Move (E S : Type) where
  before : S
  input : E
  after : S

/-- Each move starts where the one before it ended. -/
def Chain : S → List (Move E S) → S → Prop
  | s, [], s' => s' = s
  | s, m :: w, s' => m.before = s ∧ Chain m.after w s'

theorem chain_append {s s' : S} {w w' : List (Move E S)} :
    Chain s (w ++ w') s' ↔ ∃ m, Chain s w m ∧ Chain m w' s' := by
  induction w generalizing s with
  | nil => simp [Chain]
  | cons m w ih =>
    simp only [List.cons_append, Chain, ih]
    constructor
    · rintro ⟨h, x, h1, h2⟩; exact ⟨x, ⟨h, h1⟩, h2⟩
    · rintro ⟨x, ⟨h, h1⟩, h2⟩; exact ⟨h, x, h1, h2⟩

namespace Prog

/-- `p` makes the moves `w` and is then at `q`. -/
inductive Walk (A : S → E → Prop) : Prog E S ε α → List (Move E S) → Prog E S ε α → Prop
  | nil (p : Prog E S ε α) : Walk A p [] p
  | cons {u : E → S → S} {n : E → S → Prog E S ε α} {s : S} {e : E} {w : List (Move E S)}
      {q : Prog E S ε α} (ha : A s e) (h : Walk A (n e s) w q) :
      Walk A (.region u n) (⟨s, e, u e s⟩ :: w) q

variable {A : S → E → Prop}

theorem Walk.split {p q : Prog E S ε α} : ∀ {w w' : List (Move E S)}, Walk A p (w ++ w') q →
    ∃ m, Walk A p w m ∧ Walk A m w' q := by
  intro w
  induction w generalizing p with
  | nil => intro w' h; exact ⟨p, .nil p, h⟩
  | cons m w ih =>
    intro w' h
    cases h with
    | cons ha h =>
      obtain ⟨x, h1, h2⟩ := ih h
      exact ⟨x, .cons ha h1, h2⟩

theorem Walk.admits {p q : Prog E S ε α} {w : List (Move E S)} (h : Walk A p w q) :
    ∀ m ∈ w, A m.before m.input := by
  induction h with
  | nil p => simp
  | cons ha _ ih =>
    intro m hm
    rcases List.mem_cons.1 hm with rfl | hm
    · exact ha
    · exact ih m hm

theorem walk_done {r r' : Except ε α} {w : List (Move E S)} :
    Walk A (.done r) w (.done r') ↔ w = [] ∧ r' = r := by
  constructor
  · intro h; cases h; exact ⟨rfl, rfl⟩
  · rintro ⟨rfl, rfl⟩; exact .nil _

/-- A finished call makes no move. -/
theorem Walk.not_done {r : Except ε α} {q : Prog E S ε α} {w : List (Move E S)}
    (h : Walk A (.done r) w q) : w = [] := by
  cases h
  rfl

theorem walk_region {u : E → S → S} {n : E → S → Prog E S ε α} {w : List (Move E S)}
    {r : Except ε α} : Walk A (.region u n) w (.done r) ↔
      ∃ m w', w = m :: w' ∧ A m.before m.input ∧ m.after = u m.input m.before ∧
        Walk A (n m.input m.before) w' (.done r) := by
  constructor
  · intro h
    cases h with
    | cons ha h => exact ⟨_, _, rfl, ha, rfl, h⟩
  · rintro ⟨⟨s, e, s'⟩, w', rfl, ha, hm, h⟩
    obtain rfl : s' = u e s := hm
    exact .cons ha h

theorem walk_atomic {b : E → S → Except ε α × S} {w : List (Move E S)} {r : Except ε α} :
    Walk A (atomic b) w (.done r) ↔ ∃ m, w = [m] ∧ A m.before m.input ∧
      m.after = (b m.input m.before).2 ∧ r = (b m.input m.before).1 := by
  rw [atomic, walk_region]
  constructor
  · rintro ⟨m, w', rfl, ha, hm, h⟩
    obtain ⟨rfl, rfl⟩ := walk_done.1 h
    exact ⟨m, rfl, ha, hm, rfl⟩
  · rintro ⟨m, rfl, ha, hm, rfl⟩
    exact ⟨m, [], rfl, ha, hm, .nil _⟩

/-- A complete walk of a sequence stops in the first part, or goes on. -/
theorem walk_bind {f : α → Prog E S ε β} {r : Except ε β} :
    ∀ {p : Prog E S ε α} {w : List (Move E S)}, Walk A (p.bind f) w (.done r) ↔
      (∃ x, r = .error x ∧ Walk A p w (.done (.error x))) ∨
      ∃ a w₁ w₂, w = w₁ ++ w₂ ∧ Walk A p w₁ (.done (.ok a)) ∧ Walk A (f a) w₂ (.done r) := by
  intro p
  induction p with
  | done q =>
    intro w
    cases q with
    | ok a =>
      simp only [done_ok_bind, walk_done]
      constructor
      · intro h; exact .inr ⟨a, [], w, rfl, ⟨rfl, rfl⟩, h⟩
      · rintro (⟨x, -, -, h⟩ | ⟨a', w₁, w₂, rfl, ⟨rfl, ⟨⟩⟩, h⟩)
        · cases h
        · exact h
    | error x =>
      simp only [done_error_bind, walk_done]
      constructor
      · rintro ⟨rfl, rfl⟩; exact .inl ⟨x, rfl, rfl, rfl⟩
      · rintro (⟨x', rfl, rfl, ⟨⟩⟩ | ⟨a', w₁, w₂, -, ⟨-, h⟩, -⟩)
        · exact ⟨rfl, rfl⟩
        · cases h
  | region u n ih =>
    intro w
    simp only [region_bind, walk_region, ih]
    constructor
    · rintro ⟨m, w', rfl, ha, hm, ⟨x, rfl, h⟩ | ⟨a, w₁, w₂, rfl, h1, h2⟩⟩
      · exact .inl ⟨x, rfl, m, w', rfl, ha, hm, h⟩
      · exact .inr ⟨a, m :: w₁, w₂, rfl, ⟨m, w₁, rfl, ha, hm, h1⟩, h2⟩
    · rintro (⟨x, rfl, m, w', rfl, ha, hm, h⟩ | ⟨a, _, w₂, rfl, ⟨m, w₁, rfl, ha, hm, h1⟩, h2⟩)
      · exact ⟨m, w', rfl, ha, hm, .inl ⟨x, rfl, h⟩⟩
      · exact ⟨m, w₁ ++ w₂, rfl, ha, hm, .inr ⟨a, w₁, w₂, rfl, h1, h2⟩⟩

theorem Walk.seq {p : Prog E S ε α} {f : α → Prog E S ε β} {w w' : List (Move E S)} {a : α}
    {r : Except ε β} (h : Walk A p w (.done (.ok a))) (h' : Walk A (f a) w' (.done r)) :
    Walk A (p.bind f) (w ++ w') (.done r) :=
  walk_bind.2 (.inr ⟨a, w, w', rfl, h, h'⟩)

theorem walk_attempt {r : Except ε' (Except ε α)} :
    ∀ {p : Prog E S ε α} {w : List (Move E S)},
      Walk A (p.attempt : Prog E S ε' _) w (.done r) ↔ ∃ q, r = .ok q ∧ Walk A p w (.done q) := by
  intro p
  induction p with
  | done q =>
    intro w
    simp only [attempt, walk_done]
    constructor
    · rintro ⟨rfl, rfl⟩; exact ⟨q, rfl, rfl, rfl⟩
    · rintro ⟨_, rfl, rfl, rfl⟩; exact ⟨rfl, rfl⟩
  | region u n ih =>
    intro w
    simp only [attempt, walk_region, ih]
    constructor
    · rintro ⟨m, w', rfl, ha, hm, q, rfl, h⟩; exact ⟨q, rfl, m, w', rfl, ha, hm, h⟩
    · rintro ⟨q, rfl, m, w', rfl, ha, hm, h⟩; exact ⟨m, w', rfl, ha, hm, q, rfl, h⟩

theorem walk_mapError {f : ε → ε'} {r : Except ε' α} :
    ∀ {p : Prog E S ε α} {w : List (Move E S)},
      Walk A (p.mapError f) w (.done r) ↔ ∃ q, r = q.mapError f ∧ Walk A p w (.done q) := by
  intro p
  induction p with
  | done q =>
    intro w
    simp only [mapError, walk_done]
    constructor
    · rintro ⟨rfl, rfl⟩; exact ⟨q, rfl, rfl, rfl⟩
    · rintro ⟨_, rfl, rfl, rfl⟩; exact ⟨rfl, rfl⟩
  | region u n ih =>
    intro w
    simp only [mapError, walk_region, ih]
    constructor
    · rintro ⟨m, w', rfl, ha, hm, q, rfl, h⟩; exact ⟨q, rfl, m, w', rfl, ha, hm, h⟩
    · rintro ⟨q, rfl, m, w', rfl, ha, hm, h⟩; exact ⟨m, w', rfl, ha, hm, q, rfl, h⟩

/-- The moves of a call determine where it is. -/
theorem Walk.unique {p q q' : Prog E S ε α} {w : List (Move E S)} (h : Walk A p w q)
    (h' : Walk A p w q') : q' = q := by
  induction h with
  | nil p => cases h'; rfl
  | cons _ _ ih =>
    cases h' with
    | cons _ h' => exact ih h'

/-- Running alone is a walk of which each move starts where the last ended. -/
theorem exec_walk {p : Prog E S ε α} {s s' : S} {es : List E} {r : Except ε α}
    (h : Exec A p s es r s') : ∃ w, Walk A p w (.done r) ∧ Chain s w s' ∧
      w.map Move.input = es := by
  induction h with
  | done r s => exact ⟨[], .nil _, rfl, rfl⟩
  | @region u n s e es r s' ha _ ih =>
    obtain ⟨w, hw, hc, he⟩ := ih
    exact ⟨⟨s, e, u e s⟩ :: w, .cons ha hw, ⟨rfl, hc⟩, by simp [he]⟩

theorem exec_move {p : Prog E S ε α} {s s' : S} {e : E} {r : Except ε α}
    (h : Exec A p s [e] r s') : Walk A p [⟨s, e, s'⟩] (.done r) := by
  obtain ⟨w, hw, hc, he⟩ := exec_walk h
  cases w with
  | nil => cases he
  | cons m w =>
    cases w with
    | nil =>
      obtain ⟨s₁, e₁, s₁'⟩ := m
      obtain ⟨rfl, rfl⟩ := hc
      cases he
      exact hw
    | cons m' w => cases he

theorem walk_exec {p q : Prog E S ε α} {r : Except ε α} {w : List (Move E S)} (h : Walk A p w q)
    (hq : q = .done r) : ∀ {s s' : S}, Chain s w s' → Exec A p s (w.map Move.input) r s' := by
  induction h with
  | nil p =>
    rintro s s' rfl
    subst hq
    exact .done r _
  | @cons u n s₀ e w q ha _ ih =>
    rintro s s' ⟨rfl, hc⟩
    exact .region ha (ih hq hc)

/-! ## Automata -/

/-- Whatever states the regions of `p` are given, its moves are steps of `δ`
from `x`, and `Q` holds at its end. -/
def Follows (A : S → E → Prop) (δ : σ → Move E S → σ → Prop) (Q : σ → Except ε α → Prop) :
    σ → Prog E S ε α → Prop
  | x, .done r => Q x r
  | x, .region u n => ∀ s e, A s e → ∃ y, δ x ⟨s, e, u e s⟩ y ∧ (n e s).Follows A δ Q y

/-- The steps along a list of moves. -/
inductive Along (δ : σ → Move E S → σ → Prop) : σ → List (Move E S) → σ → Prop
  | nil (x : σ) : Along δ x [] x
  | cons {x y z : σ} {m : Move E S} {w : List (Move E S)} (h : δ x m y) (hw : Along δ y w z) :
      Along δ x (m :: w) z

variable {δ : σ → Move E S → σ → Prop}

theorem Along.split {x z : σ} : ∀ {w w' : List (Move E S)}, Along δ x (w ++ w') z →
    ∃ y, Along δ x w y ∧ Along δ y w' z := by
  intro w
  induction w generalizing x with
  | nil => intro w' h; exact ⟨x, .nil x, h⟩
  | cons m w ih =>
    intro w' h
    cases h with
    | cons hm h =>
      obtain ⟨y, h1, h2⟩ := ih h
      exact ⟨y, .cons hm h1, h2⟩

theorem follows_atomic {b : E → S → Except ε α × S} {Q : σ → Except ε α → Prop} {x : σ} :
    (atomic b).Follows A δ Q x ↔ ∀ s e, A s e → ∃ y, δ x ⟨s, e, (b e s).2⟩ y ∧ Q y (b e s).1 :=
  Iff.rfl

/-- Sequencing: an error of the first part is an error of the whole. -/
theorem Follows.bind {f : α → Prog E S ε β} {Q : σ → Except ε α → Prop}
    {Q' : σ → Except ε β → Prop} (hf : ∀ a y, Q y (.ok a) → (f a).Follows A δ Q' y)
    (hx : ∀ z y, Q y (.error z) → Q' y (.error z)) :
    ∀ {p : Prog E S ε α} {x : σ}, p.Follows A δ Q x → (p.bind f).Follows A δ Q' x
  | .done (.ok a), x, h => hf a x h
  | .done (.error z), x, h => hx z x h
  | .region _ _, _, h => fun s e ha =>
    (h s e ha).imp fun _ hy => ⟨hy.1, Follows.bind hf hx hy.2⟩

/-- `match call() { .. }`: an error is a value to go on with. -/
theorem Follows.attempt_bind {f : Except ε α → Prog E S ε' β} {Q : σ → Except ε α → Prop}
    {Q' : σ → Except ε' β → Prop} (hf : ∀ r y, Q y r → (f r).Follows A δ Q' y) :
    ∀ {p : Prog E S ε α} {x : σ}, p.Follows A δ Q x →
      ((p.attempt : Prog E S ε' _).bind f).Follows A δ Q' x
  | .done r, x, h => hf r x h
  | .region _ _, _, h => fun s e ha =>
    (h s e ha).imp fun _ hy => ⟨hy.1, Follows.attempt_bind hf hy.2⟩

theorem Follows.mapError {g : ε → ε'} {Q : σ → Except ε' α → Prop} :
    ∀ {p : Prog E S ε α} {x : σ}, p.Follows A δ (fun y r => Q y (r.mapError g)) x →
      (p.mapError g).Follows A δ Q x
  | .done _, _, h => h
  | .region _ _, _, h => fun s e ha =>
    (h s e ha).imp fun _ hy => ⟨hy.1, Follows.mapError hy.2⟩

theorem Follows.walk {Q : σ → Except ε α → Prop} {p q : Prog E S ε α} {w : List (Move E S)}
    (h : Walk A p w q) : ∀ {x : σ}, p.Follows A δ Q x → ∃ y, Along δ x w y ∧ q.Follows A δ Q y := by
  induction h with
  | nil p => intro x hp; exact ⟨x, .nil x, hp⟩
  | cons ha _ ih =>
    intro x hp
    obtain ⟨y, hm, hn⟩ := hp _ _ ha
    obtain ⟨z, hw, hq⟩ := ih hn
    exact ⟨z, .cons hm hw, hq⟩

end Prog

/-! ## Interleavings -/

/-- The moves of call `i`. -/
def own (i : Nat) (t : List (Nat × Move E S)) : List (Move E S) :=
  t.filterMap fun x => if x.1 = i then some x.2 else none

@[simp] theorem own_nil (i : Nat) : own i ([] : List (Nat × Move E S)) = [] := rfl

@[simp] theorem own_append (i : Nat) (t t' : List (Nat × Move E S)) :
    own i (t ++ t') = own i t ++ own i t' := List.filterMap_append

@[simp] theorem own_cons_self (i : Nat) (m : Move E S) (t : List (Nat × Move E S)) :
    own i ((i, m) :: t) = m :: own i t := by simp [own]

theorem own_cons_ne {i j : Nat} (h : j ≠ i) (m : Move E S) (t : List (Nat × Move E S)) :
    own i ((j, m) :: t) = own i t := by simp [own, h]

@[simp] theorem own_map_self (i : Nat) (w : List (Move E S)) :
    own i (w.map fun m => (i, m)) = w := by
  simp [own, List.filterMap_map, Function.comp_def]

theorem own_map_ne {i j : Nat} (h : j ≠ i) (w : List (Move E S)) :
    own i (w.map fun m => (j, m)) = [] := by
  simp [own, List.filterMap_map, Function.comp_def, h]

theorem mem_own {i : Nat} {m : Move E S} {t : List (Nat × Move E S)} :
    m ∈ own i t ↔ (i, m) ∈ t := by
  unfold own
  rw [List.mem_filterMap]
  constructor
  · rintro ⟨⟨j, x⟩, hx, h⟩
    split at h
    · rename_i hj
      cases h
      subst hj
      exact hx
    · cases h
  · intro h; exact ⟨(i, m), h, by simp⟩

/-- The move of a call where it stands among all. -/
theorem own_split {i : Nat} {m : Move E S} : ∀ {t : List (Nat × Move E S)} {w w' : List (Move E S)},
    own i t = w ++ m :: w' → ∃ a b, t = a ++ (i, m) :: b ∧ own i a = w ∧ own i b = w'
  | [], w, w', h => by cases w <;> cases h
  | (j, n) :: t, w, w', h => by
    by_cases hj : j = i
    · subst hj
      rw [own_cons_self] at h
      cases w with
      | nil =>
        cases h
        exact ⟨[], t, rfl, rfl, rfl⟩
      | cons x w =>
        obtain ⟨rfl, htail⟩ := List.cons.inj h
        obtain ⟨a, b, rfl, ha, hb⟩ := own_split htail
        exact ⟨(j, n) :: a, b, rfl, by rw [own_cons_self, ha], hb⟩
    · rw [own_cons_ne hj] at h
      obtain ⟨a, b, rfl, ha, hb⟩ := own_split h
      exact ⟨(j, n) :: a, b, rfl, by rw [own_cons_ne hj, ha], hb⟩

namespace Pool

open Prog

/-- An interleaving, with the moves made. -/
inductive Trace (A : S → E → Prop) :
    Pool E S ε α → List (Nat × Move E S) → Pool E S ε α → Prop
  | nil (c : Pool E S ε α) : Trace A c [] c
  | cons {s : S} {cs : List (Prog E S ε α)} {i : Nat} {u : E → S → S} {n : E → S → Prog E S ε α}
      {e : E} {t : List (Nat × Move E S)} {c : Pool E S ε α} (hi : cs[i]? = some (.region u n))
      (ha : A s e) (h : Trace A ⟨u e s, cs.set i (n e s)⟩ t c) :
      Trace A ⟨s, cs⟩ ((i, ⟨s, e, u e s⟩) :: t) c

variable {A : S → E → Prop} {c c' c'' : Pool E S ε α} {t t' : List (Nat × Move E S)}

theorem Trace.split : ∀ {t : List (Nat × Move E S)} {c : Pool E S ε α}, Trace A c (t ++ t') c'' →
    ∃ c', Trace A c t c' ∧ Trace A c' t' c'' := by
  intro t
  induction t with
  | nil => intro c h; exact ⟨c, .nil c, h⟩
  | cons x t ih =>
    intro c h
    cases h with
    | cons hi ha h =>
      obtain ⟨c₁, h1, h2⟩ := ih h
      exact ⟨c₁, .cons hi ha h1, h2⟩

/-- The moves of all calls follow on from one another. -/
theorem Trace.chain (h : Trace A c t c') : Chain c.shared (t.map Prod.snd) c'.shared := by
  induction h with
  | nil c => rfl
  | cons _ _ _ ih => exact ⟨rfl, ih⟩

/-- The state is the one that the last move left. -/
theorem Trace.last {i : Nat} {m : Move E S} (h : Trace A c (t ++ [(i, m)]) c') :
    c'.shared = m.after := by
  have hc := h.chain
  rw [List.map_append, chain_append] at hc
  obtain ⟨x, -, -, hx⟩ := hc
  exact hx

/-- The moves of each call are a walk of it. -/
theorem Trace.walk (h : Trace A c t c') {i : Nat} {p : Prog E S ε α} (hp : c.calls[i]? = some p) :
    ∃ q, c'.calls[i]? = some q ∧ Walk A p (own i t) q := by
  induction h generalizing p with
  | nil c => exact ⟨p, hp, .nil p⟩
  | @cons s cs j u n e t c hj ha _ ih =>
    by_cases hij : j = i
    · subst hij
      obtain rfl : p = .region u n := Option.some.inj (hp.symm.trans hj)
      have hlt := (List.getElem?_eq_some_iff.1 hj).1
      obtain ⟨q, hq, hw⟩ := ih (List.getElem?_set_self hlt)
      exact ⟨q, hq, by rw [own_cons_self]; exact .cons ha hw⟩
    · obtain ⟨q, hq, hw⟩ := ih ((List.getElem?_set_ne hij).trans hp)
      exact ⟨q, hq, by rw [own_cons_ne hij]; exact hw⟩

/-- What every region of every call keeps holds before and after each move. -/
theorem Trace.invariant {I : S → Prop} (h : Trace A c t c')
    (hw : ∀ (i : Nat) (p : Prog E S ε α), c.calls[i]? = some p → p.Within A fun s s' => I s → I s')
    (hI : I c.shared) : ∀ x ∈ t, I x.2.before ∧ I x.2.after := by
  induction h with
  | nil c => simp
  | @cons s cs j u n e t c hj ha _ ih =>
    obtain ⟨hstep, hrest⟩ := hw j _ hj e s ha
    intro x hx
    rcases List.mem_cons.1 hx with rfl | hx
    · exact ⟨hI, hstep hI⟩
    · refine ih (fun i p hp => ?_) (hstep hI) x hx
      by_cases hij : j = i
      · subst hij
        rw [List.getElem?_set_self (List.getElem?_eq_some_iff.1 hj).1] at hp
        cases hp
        exact hrest
      · rw [List.getElem?_set_ne hij] at hp
        exact hw i p hp

/-- Where a call is, by its moves. -/
theorem Trace.at (h : Trace A c t c') {i : Nat} {p q : Prog E S ε α} (hp : c.calls[i]? = some p)
    (hw : Walk A p (own i t) q) : c'.calls[i]? = some q := by
  obtain ⟨q', hq, hw'⟩ := h.walk hp
  rw [← hw.unique hw']
  exact hq

/-- Walks of the calls, whose moves together are a chain, are an interleaving. -/
theorem trace_of_walks {s' : S} : ∀ {t : List (Nat × Move E S)} {s : S} {cs : List (Prog E S ε α)},
    Chain s (t.map Prod.snd) s' → (∀ x ∈ t, x.1 < cs.length) →
    (∀ i p, cs[i]? = some p → ∃ q, Walk A p (own i t) q) → ∃ cs', Trace A ⟨s, cs⟩ t ⟨s', cs'⟩
  | [], s, cs, hc, _, _ => ⟨cs, hc ▸ .nil _⟩
  | (i, m) :: t, s, cs, ⟨hm, hc⟩, hlt, hw => by
    have hi := hlt (i, m) (List.mem_cons_self ..)
    obtain ⟨q, hq⟩ := hw i cs[i] (List.getElem?_eq_getElem hi)
    rw [own_cons_self] at hq
    generalize hp : cs[i] = p at hq
    cases hq with
    | @cons u n s₀ e w q ha hq =>
      obtain rfl : s₀ = s := hm
      have hget : cs[i]? = some (.region u n) := by rw [List.getElem?_eq_getElem hi, hp]
      have hrest : ∀ j p, (cs.set i (n e s₀))[j]? = some p → ∃ q, Walk A p (own j t) q := by
        intro j p hj
        by_cases hij : i = j
        · subst hij
          rw [List.getElem?_set_self hi] at hj
          cases hj
          exact ⟨q, hq⟩
        · rw [List.getElem?_set_ne hij] at hj
          obtain ⟨q', hq'⟩ := hw j p hj
          exact ⟨q', by rwa [own_cons_ne hij] at hq'⟩
      obtain ⟨cs', ht⟩ := trace_of_walks hc
        (fun x hx => by rw [List.length_set]; exact hlt x (List.mem_cons_of_mem _ hx)) hrest
      exact ⟨cs', .cons hget ha ht⟩

theorem Trace.call (h : Trace A c t c') {i : Nat} {m : Move E S} (hm : (i, m) ∈ t) :
    ∃ p, c.calls[i]? = some p := by
  induction h with
  | nil c => cases hm
  | @cons s cs j u n e t c hj ha _ ih =>
    by_cases hij : j = i
    · subst hij
      exact ⟨_, hj⟩
    · rcases List.mem_cons.1 hm with hm | hm
      · cases hm
        exact absurd rfl hij
      · obtain ⟨p, hp⟩ := ih hm
        exact ⟨p, (List.getElem?_set_ne hij).symm.trans hp⟩

end Pool

end VaultSigner.Core
