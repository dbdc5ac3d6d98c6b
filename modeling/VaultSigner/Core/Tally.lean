import Mathlib.Data.List.Nodup
import Mathlib.Logic.Function.Basic

/-!
# A counter read under one lock and written under another

Many parties count on one counter. Each reads it, does something else, and
then writes one more than it read; in between the counter is anybody's.
`Tally` is such a counter with, for each party in between, what it has read
(`seen`), and with everything written so far.

`due c t` is where a counter that started at `c` should be by now. A party
that writes `Alone` is the only one in between.

A schedule says whose turn it is; a party has begun when it has had a turn,
and has ended when it has none left (`OneAtATime`).

Results:
* `Exact.write`: a write alone brings the counter to where it should be.
* `overtaken`, `Behind.write`: a write while another party is in between
  makes the counter fall behind, and it never catches up.
* `oneAtATimeAfter_cons`: a schedule is one at a time turn by turn.
* `oneAtATime_of_pairwise`: ... when the parties follow one another.
-/
namespace VaultSigner.Core

structure Tally (ι : Type) where
  value : Nat
  seen : ι → Option Nat
  /-- newest first -/
  written : List Nat

namespace Tally

variable {ι : Type} [DecidableEq ι] {c : Nat} {t : Tally ι} {i : ι} {r : Nat}

def start (c : Nat) : Tally ι := ⟨c, fun _ => none, []⟩

def read (t : Tally ι) (i : ι) : Tally ι :=
  { t with seen := Function.update t.seen i (some t.value) }

def write (t : Tally ι) (i : ι) (r : Nat) : Tally ι :=
  ⟨r + 1, Function.update t.seen i none, (r + 1) :: t.written⟩

def due (c : Nat) (t : Tally ι) : Nat := c + t.written.length

def Alone (t : Tally ι) (i : ι) : Prop := ∀ j, j ≠ i → t.seen j = none

@[simp] theorem due_read : (t.read i).due c = t.due c := rfl

@[simp] theorem due_write : (t.write i r).due c = t.due c + 1 := rfl

theorem seen_read {j : ι} {r : Nat} (h : (t.read i).seen j = some r) :
    r = t.value ∨ t.seen j = some r := by
  by_cases hj : j = i
  · subst hj
    simp only [read, Function.update_self, Option.some.injEq] at h
    exact .inl h.symm
  · simp only [read, Function.update_of_ne hj] at h
    exact .inr h

theorem seen_write {j : ι} {q : Nat} (h : (t.write i r).seen j = some q) :
    j ≠ i ∧ t.seen j = some q := by
  by_cases hj : j = i
  · subst hj
    simp [write] at h
  · simp only [write, Function.update_of_ne hj] at h
    exact ⟨hj, h⟩

/-- The counter is not ahead, and what was read is still there or outdated. -/
structure Fair (c : Nat) (t : Tally ι) : Prop where
  value : t.value ≤ t.due c
  seen : ∀ i r, t.seen i = some r → r < t.due c ∨ r = t.value
  unwritten : t.written = [] → t.value = c

omit [DecidableEq ι] in
theorem fair_start : Fair c (start c : Tally ι) :=
  ⟨Nat.le_refl _, fun _ _ h => (by cases h), fun _ => rfl⟩

theorem Fair.read (h : Fair c t) (i : ι) : Fair c (t.read i) := by
  refine ⟨h.value, fun j r hr => ?_, h.unwritten⟩
  rcases seen_read hr with hr | hr
  · exact .inr hr
  · exact h.seen j r hr

omit [DecidableEq ι] in
theorem Fair.seen_le (h : Fair c t) (hr : t.seen i = some r) : r ≤ t.due c := by
  have hv := h.value
  rcases h.seen i r hr with hr | hr
  · omega
  · omega

theorem Fair.write (h : Fair c t) (hr : t.seen i = some r) : Fair c (t.write i r) := by
  have hle := h.seen_le hr
  refine ⟨?_, fun j q hq => .inl ?_, fun hw => ?_⟩
  · rw [due_write]
    show r + 1 ≤ _
    omega
  · have hq' := h.seen_le (seen_write hq).2
    rw [due_write]
    omega
  · cases hw

/-! ## Nobody interferes -/

/-- Every write so far counted one up. -/
structure Exact (c : Nat) (t : Tally ι) : Prop where
  value : t.value = t.due c
  seen : ∀ i r, t.seen i = some r → r = t.value
  written : t.written.Nodup ∧ ∀ w ∈ t.written, w ≤ t.value

omit [DecidableEq ι] in
theorem exact_start : Exact c (start c : Tally ι) :=
  ⟨rfl, fun _ _ h => (by cases h), by simp [start]⟩

theorem Exact.read (h : Exact c t) (i : ι) : Exact c (t.read i) := by
  refine ⟨h.value, fun j r hr => ?_, h.written⟩
  rcases seen_read hr with hr | hr
  · exact hr
  · exact h.seen j r hr

theorem Exact.write (h : Exact c t) (hr : t.seen i = some r) (ha : t.Alone i) :
    Exact c (t.write i r) := by
  have hv := h.value
  have hrv := h.seen i r hr
  refine ⟨?_, fun j q hq => ?_, ?_, ?_⟩
  · rw [due_write]
    show r + 1 = _
    omega
  · obtain ⟨hj, hq⟩ := seen_write hq
    rw [ha j hj] at hq
    cases hq
  · refine List.nodup_cons.2 ⟨fun hm => ?_, h.written.1⟩
    have hle := h.written.2 _ hm
    omega
  · intro w hw
    show w ≤ r + 1
    rcases List.mem_cons.1 hw with hw | hw
    · omega
    · have hle := h.written.2 w hw
      omega

/-! ## Somebody interferes -/

/-- The counter has lost a count, or is about to. -/
def Behind (c : Nat) (t : Tally ι) : Prop :=
  t.value < t.due c ∨ ∃ i r, t.seen i = some r ∧ r < t.due c

/-- Whoever has read before this write has read too early. -/
theorem overtaken (h : Fair c t) {j : ι} {q : Nat} (hj : j ≠ i) (hq : t.seen j = some q) :
    Behind c (t.write i r) := by
  have hle := h.seen_le hq
  refine .inr ⟨j, q, ?_, ?_⟩
  · simp only [write, Function.update_of_ne hj]
    exact hq
  · rw [due_write]
    omega

theorem Behind.read (h : Behind c t) (hi : t.seen i = none) : Behind c (t.read i) := by
  rcases h with h | ⟨j, q, hq, hlt⟩
  · exact .inl h
  · have hj : j ≠ i := by
      intro hj
      rw [hj, hi] at hq
      cases hq
    refine .inr ⟨j, q, ?_, hlt⟩
    simp only [Tally.read, Function.update_of_ne hj]
    exact hq

theorem Behind.write (h : Behind c t) (hf : Fair c t) (hr : t.seen i = some r) :
    Behind c (t.write i r) := by
  -- a stale party that writes passes its delay on to the counter
  have hstale : r < t.due c → Behind c (t.write i r) := by
    intro hlt
    refine .inl ?_
    rw [due_write]
    show r + 1 < _
    omega
  rcases h with h | ⟨j, q, hq, hlt⟩
  · rcases hf.seen i r hr with hlt | hrv
    · exact hstale hlt
    · exact hstale (by omega)
  · by_cases hj : j = i
    · subst hj
      rw [hr] at hq
      cases hq
      exact hstale hlt
    · exact overtaken hf hj hq

omit [DecidableEq ι] in
theorem Behind.value_lt (h : Behind c t) (hn : ∀ i, t.seen i = none) : t.value < t.due c := by
  rcases h with h | ⟨j, q, hq, -⟩
  · exact h
  · rw [hn j] at hq
    cases hq

end Tally

/-! ## Schedules -/

/-- In what is left of a schedule, whenever a party has its last turn no other
party has had a turn and will have another; `before` are the turns so far. -/
def OneAtATimeAfter (before rest : List Nat) : Prop :=
  ∀ l j l', rest = l ++ j :: l' → j ∉ l' → ∀ i, i ≠ j → i ∈ before ++ l → i ∉ l'

/-- When a party has its last turn, no other party has begun and not ended. -/
def OneAtATime (l : List Nat) : Prop := OneAtATimeAfter [] l

theorem oneAtATimeAfter_nil (before : List Nat) : OneAtATimeAfter before [] := by
  intro l j l' h
  simp at h

theorem oneAtATimeAfter_cons {before rest : List Nat} {j : Nat} :
    OneAtATimeAfter before (j :: rest) ↔
    (j ∉ rest → ∀ i, i ≠ j → i ∈ before → i ∉ rest) ∧ OneAtATimeAfter (before ++ [j]) rest := by
  constructor
  · intro h
    refine ⟨fun hj i hij hi => h [] j rest rfl hj i hij (by simpa using hi), ?_⟩
    intro l k l' hl hk i hik hi
    exact h (j :: l) k l' (by rw [hl]; rfl) hk i hik (by simpa using hi)
  · intro ⟨h1, h2⟩ l k l' hl hk i hik hi
    cases l with
    | nil =>
      simp only [List.nil_append, List.cons.injEq] at hl
      obtain ⟨rfl, rfl⟩ := hl
      exact h1 hk i hik (by simpa using hi)
    | cons x l =>
      simp only [List.cons_append, List.cons.injEq] at hl
      obtain ⟨rfl, rfl⟩ := hl
      exact h2 l k l' rfl hk i hik (by simpa using hi)

/-- Parties that have their turns one after another come one at a time. -/
theorem oneAtATime_of_pairwise {l : List Nat} (h : l.Pairwise (· ≤ ·)) : OneAtATime l := by
  intro m j m' hm hj i hij hi hi'
  rw [hm] at h
  obtain ⟨-, hjm', hle⟩ := List.pairwise_append.1 h
  have h1 : i ≤ j := hle i (by simpa using hi) j List.mem_cons_self
  have h2 : j ≤ i := (List.pairwise_cons.1 hjm').1 i hi'
  omega

end VaultSigner.Core
