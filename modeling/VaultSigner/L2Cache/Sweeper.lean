import VaultSigner.Core.Deadline
import VaultSigner.Core.Refinement
import VaultSigner.L2Cache.Residency

/-!
# The sweeper thread and the drop of the cache

`RetentionCache::new` starts a thread that waits on a condition variable for
at most `SWEEP_INTERVAL`, looks at the shutdown flag and sweeps. Callers use the
cache meanwhile. `Drop` wipes the cache, sets the flag, notifies and joins; a
notification that comes while the thread is not waiting is lost, and then the
wait that follows runs to its end. Each operation on the entries holds their
mutex throughout, so it is one step here.

Time is not in the program's hands. What is promised in time is promised of
runs in which every state is `Prompt`: a wait returns within `ε` of its timeout,
a sweep ends within `τ`, and a thread that can go on, or asks for the shutdown
mutex, does or gets it within `σ`.

Results:
* `run_history`: the entries are those of a history of operations, sweeps
  among them.
* `never_stuck`, `drop_ends`: whatever the timing, a drop goes on, to its end.
* `residency_timed`: how long after its expiry a key may still be there.
* `drop_timed`: how long a drop may take, and what it leaves.
-/
namespace VaultSigner.L2.Sweeper
open VaultSigner.Core VaultSigner.L1 VaultSigner.L2.Retention

/-- mirrors vaultcore/src/retention.rs:40 (`SWEEP_INTERVAL`), in nanoseconds -/
def sweepInterval : Nat := 50000000

/-- Where the thread is in its loop.
mirrors vaultcore/src/retention.rs:82-94 -/
inductive SweeperPc where
  /-- asks for the shutdown mutex -/
  | lock
  /-- has it, and is about to wait -/
  | held
  | waiting
  /-- the wait is over, and it asks for the mutex again -/
  | relock
  /-- has it, and looks at the flag -/
  | check
  | sweep
  | done
deriving DecidableEq

/-- How far the drop has come.
mirrors vaultcore/src/retention.rs:198-205 (`Drop::drop`) -/
inductive DropPc where
  /-- the cache is in use -/
  | live
  | wiping
  | flagging
  | notifying
  | joining
  | dropped
deriving DecidableEq

/-- mirrors vaultcore/src/retention.rs:59-71 (`Shared`, `RetentionCache`) -/
structure CacheState where
  now : Nat
  entries : RetentionCache
  shutdown : Bool
  sweeper : SweeperPc
  /-- since when the thread is there -/
  sweeperSince : Nat
  drop : DropPc
  dropSince : Nat
  /-- ghost: when the drop began -/
  askedAt : Nat

inductive Event where
  | elapsed
  | op (now : Nat) (o : CacheOp)
  | swept (now : Nat)
  | sweeper
  | wiped (now : Nat)
  | dropper

/-- The thread holds the shutdown mutex. -/
def CacheState.Locked (s : CacheState) : Prop := s.sweeper = .held ∨ s.sweeper = .check

/-- The thread goes on to `p`. -/
def CacheState.toSweeper (s : CacheState) (p : SweeperPc) : CacheState :=
  { s with sweeper := p, sweeperSince := s.now }

def CacheState.toDrop (s : CacheState) (p : DropPc) : CacheState :=
  { s with drop := p, dropSince := s.now }

/-- mirrors vaultcore/src/retention.rs:74-206 -/
inductive CacheMoves : Event → CacheState → CacheState → Prop
  | elapsed {s : CacheState} {t : Nat} (h : s.now ≤ t) : CacheMoves .elapsed s { s with now := t }
  | op {s : CacheState} (o : CacheOp) (ho : o ≠ .sweepExpired) (h : s.drop = .live) :
      CacheMoves (.op s.now o) s { s with entries := o.apply s.entries s.now }
  | locked {s : CacheState} (h : s.sweeper = .lock) : CacheMoves .sweeper s (s.toSweeper .held)
  | waits {s : CacheState} (h : s.sweeper = .held) : CacheMoves .sweeper s (s.toSweeper .waiting)
  /-- the timeout, or no reason at all -/
  | woken {s : CacheState} (h : s.sweeper = .waiting) : CacheMoves .sweeper s (s.toSweeper .relock)
  | relocked {s : CacheState} (h : s.sweeper = .relock) : CacheMoves .sweeper s (s.toSweeper .check)
  | stopped {s : CacheState} (h : s.sweeper = .check) (hf : s.shutdown = true) :
      CacheMoves .sweeper s (s.toSweeper .done)
  | released {s : CacheState} (h : s.sweeper = .check) (hf : s.shutdown = false) :
      CacheMoves .sweeper s (s.toSweeper .sweep)
  | swept {s : CacheState} (h : s.sweeper = .sweep) :
      CacheMoves (.swept s.now) s { s.toSweeper .lock with entries := sweepExpired s.entries s.now }
  | asked {s : CacheState} (h : s.drop = .live) :
      CacheMoves .dropper s { s.toDrop .wiping with askedAt := s.now }
  | wiped {s : CacheState} (h : s.drop = .wiping) :
      CacheMoves (.wiped s.now) s { s.toDrop .flagging with entries := wipeAll s.entries }
  | flagged {s : CacheState} (h : s.drop = .flagging) (hl : ¬ s.Locked) :
      CacheMoves .dropper s { s.toDrop .notifying with shutdown := true }
  | notified {s : CacheState} (h : s.drop = .notifying) (hw : s.sweeper = .waiting) :
      CacheMoves .dropper s ((s.toDrop .joining).toSweeper .relock)
  /-- nobody waits, and nobody is woken -/
  | unheard {s : CacheState} (h : s.drop = .notifying) (hw : s.sweeper ≠ .waiting) :
      CacheMoves .dropper s (s.toDrop .joining)
  | joined {s : CacheState} (h : s.drop = .joining) (hw : s.sweeper = .done) :
      CacheMoves .dropper s (s.toDrop .dropped)

/-- The cache has just been made, by time `t`. -/
def fresh (t : Nat) : CacheState := ⟨t, ∅, false, .lock, t, .live, t, t⟩

/-- The runs in which every state satisfies `H`. -/
def cacheSystem (H : CacheState → Prop) : System Event CacheState where
  Start s := ∃ t, s = fresh t
  Step a s s' := CacheMoves a s s' ∧ H s ∧ H s'

/-! ## The history of operations -/

def Event.step : Event → Option CacheStep
  | .op now o => some ⟨now, o⟩
  | .swept now => some ⟨now, .sweepExpired⟩
  | .wiped now => some ⟨now, .wipeAll⟩
  | _ => none

/-- The operations of a run, the sweeper's among them. -/
def history (l : List Event) : List CacheStep := l.filterMap Event.step

section
variable {H : CacheState → Prop} {s s' : CacheState} {l : List Event} {a : Event}

theorem CacheMoves.entries (h : CacheMoves a s s') :
    (∃ x, a.step = some x ∧ x.now = s.now ∧ s'.entries = x.op.apply s.entries x.now) ∨
      (a.step = none ∧ s'.entries = s.entries) := by
  cases h with
  | op o ho h => exact .inl ⟨_, rfl, rfl, rfl⟩
  | swept h => exact .inl ⟨_, rfl, rfl, rfl⟩
  | wiped h => exact .inl ⟨_, rfl, rfl, rfl⟩
  | _ => exact .inr ⟨rfl, rfl⟩

/-- **The entries are those of the history.** -/
theorem run_history (h : (cacheSystem H).Run l s) : s.entries = after (history l) := by
  induction h with
  | start hs =>
    obtain ⟨t, rfl⟩ := hs
    rfl
  | @step l a s s' _ hs ih =>
    have hcons : history (a :: l) = a.step.toList ++ history l := by
      unfold history
      cases hx : a.step <;> simp [hx]
    rcases CacheMoves.entries hs.1 with ⟨x, hx, -, he⟩ | ⟨hx, he⟩
    · rw [he, ih, hcons, hx]
      rfl
    · rw [he, ih, hcons, hx]
      rfl

/-! ## What the drop leaves -/

/-- The flag is set by the drop, the thread ends by the flag, and the drop by
the thread's end; from the wipe on the cache is empty. -/
structure Dropping (s : CacheState) : Prop where
  flag : s.shutdown = true ↔ s.drop = .notifying ∨ s.drop = .joining ∨ s.drop = .dropped
  done : s.sweeper = .done → s.shutdown = true
  joined : s.drop = .dropped → s.sweeper = .done
  empty : s.drop = .live ∨ s.drop = .wiping ∨ s.entries = ∅

theorem sweepExpired_empty (now : Nat) : sweepExpired ∅ now = ∅ := by
  refine HashMap.ext_get fun k => ?_
  unfold sweepExpired
  cases h : (HashMap.retain ∅ fun _ e =>
      CachedKey.singleUse e || decide (e.expiresAt > now)).get k with
  | none => simp
  | some e =>
    rw [HashMap.get_retain] at h
    simp at h

/-- The thread goes on, and not to its end. -/
theorem Dropping.toSweeper (hd : Dropping s) {p : SweeperPc} (hp : p ≠ .done)
    (hs : s.sweeper ≠ .done) : Dropping (s.toSweeper p) :=
  ⟨hd.flag, fun h => absurd h hp, fun h => absurd (hd.joined h) hs, hd.empty⟩

theorem Dropping.emptied (hd : Dropping s) (hl : s.drop ≠ .live) (hw : s.drop ≠ .wiping) :
    s.entries = ∅ := by
  rcases hd.empty with h | h | h
  · exact absurd h hl
  · exact absurd h hw
  · exact h

theorem Dropping.step (h : CacheMoves a s s') (hd : Dropping s) : Dropping s' := by
  cases h with
  | elapsed h => exact ⟨hd.flag, hd.done, hd.joined, hd.empty⟩
  | op o ho h => exact ⟨hd.flag, hd.done, hd.joined, .inl h⟩
  | locked h => exact hd.toSweeper (by decide) (by simp [h])
  | waits h => exact hd.toSweeper (by decide) (by simp [h])
  | woken h => exact hd.toSweeper (by decide) (by simp [h])
  | relocked h => exact hd.toSweeper (by decide) (by simp [h])
  | stopped h hf => exact ⟨hd.flag, fun _ => hf, fun _ => rfl, hd.empty⟩
  | released h hf => exact hd.toSweeper (by decide) (by simp [h])
  | swept h =>
    obtain ⟨hflag, hdone, hjoined, hempty⟩ := hd.toSweeper (p := .lock) (by decide) (by simp [h])
    refine ⟨hflag, hdone, hjoined, ?_⟩
    rcases hempty with hl | hw | he
    · exact .inl hl
    · exact .inr (.inl hw)
    · refine .inr (.inr ?_)
      change sweepExpired s.entries s.now = ∅
      rw [show s.entries = ∅ from he]
      exact sweepExpired_empty s.now
  | asked h =>
    have hflag := hd.flag
    rw [h] at hflag
    exact ⟨by simpa [CacheState.toDrop] using hflag, hd.done, (by simp [CacheState.toDrop]),
      .inr (.inl rfl)⟩
  | wiped h =>
    have hflag := hd.flag
    rw [h] at hflag
    exact ⟨by simpa [CacheState.toDrop] using hflag, hd.done, (by simp [CacheState.toDrop]),
      .inr (.inr rfl)⟩
  | flagged h hl =>
    have hempty := hd.emptied (by simp [h]) (by simp [h])
    exact ⟨by simp [CacheState.toDrop], fun _ => rfl, (by simp [CacheState.toDrop]),
      .inr (.inr hempty)⟩
  | notified h hw =>
    have hset := hd.flag.2 (.inl h)
    have hempty := hd.emptied (by simp [h]) (by simp [h])
    exact ⟨by simp [CacheState.toDrop, CacheState.toSweeper, hset], fun _ => hset,
      (by simp [CacheState.toDrop, CacheState.toSweeper]), .inr (.inr hempty)⟩
  | unheard h hw =>
    have hset := hd.flag.2 (.inl h)
    have hempty := hd.emptied (by simp [h]) (by simp [h])
    exact ⟨by simp [CacheState.toDrop,
      hset], fun _ => hset, (by simp [CacheState.toDrop]), .inr (.inr hempty)⟩
  | joined h hw =>
    have hset := hd.flag.2 (.inr (.inl h))
    have hempty := hd.emptied (by simp [h]) (by simp [h])
    exact ⟨by simp [CacheState.toDrop, hset], fun _ => hset, fun _ => hw, .inr (.inr hempty)⟩

theorem Dropping.run (h : (cacheSystem H).Run l s) : Dropping s := by
  refine h.invariant (fun s hs => ?_) fun a s s' hd hs => Dropping.step hs.1 hd
  obtain ⟨t, rfl⟩ := hs
  exact ⟨by simp [fresh], (by simp [fresh]), (by simp [fresh]), .inl rfl⟩

/-! ## Nobody is stuck -/

def SweeperPc.left : SweeperPc → Nat
  | .sweep => 6
  | .lock => 5
  | .held => 4
  | .waiting => 3
  | .relock => 2
  | .check => 1
  | .done => 0

def DropPc.left : DropPc → Nat
  | .live => 6
  | .wiping => 5
  | .flagging => 4
  | .notifying => 3
  | .joining => 2
  | .dropped => 0

/-- How many steps are left to the two threads once the flag is set. -/
def CacheState.left (s : CacheState) : Nat := s.sweeper.left + s.drop.left

/-- **Nobody is stuck.** While a drop is going on, the thread or the drop can
take a step of its own. -/
theorem never_stuck (hl : s.drop ≠ .live) (hd : s.drop ≠ .dropped) :
    ∃ a s', CacheMoves a s s' ∧ a ≠ .elapsed := by
  by_cases hdone : s.sweeper = .done
  · have hfree : ¬ s.Locked := by simp [CacheState.Locked, hdone]
    cases h : s.drop with
    | live => exact absurd h hl
    | wiping => exact ⟨_, _, .wiped h, by simp⟩
    | flagging => exact ⟨_, _, .flagged h hfree, by simp⟩
    | notifying => exact ⟨_, _, .unheard h (by simp [hdone]), by simp⟩
    | joining => exact ⟨_, _, .joined h hdone, by simp⟩
    | dropped => exact absurd h hd
  · cases h : s.sweeper with
    | lock => exact ⟨_, _, .locked h, by simp⟩
    | held => exact ⟨_, _, .waits h, by simp⟩
    | waiting => exact ⟨_, _, .woken h, by simp⟩
    | relock => exact ⟨_, _, .relocked h, by simp⟩
    | check =>
      cases hf : s.shutdown with
      | true => exact ⟨_, _, .stopped h hf, by simp⟩
      | false => exact ⟨_, _, .released h hf, by simp⟩
    | sweep => exact ⟨_, _, .swept h, by simp⟩
    | done => exact absurd h hdone

/-- Once the flag is set, every step but the clock's is one less. -/
theorem left_step (h : CacheMoves a s s') (hd : Dropping s) (hf : s.shutdown = true) :
    s'.shutdown = true ∧ (a ≠ .elapsed → s'.left < s.left) ∧ s'.left ≤ s.left := by
  have hlive : s.drop ≠ .live ∧ s.drop ≠ .wiping ∧ s.drop ≠ .flagging := by
    rcases hd.flag.1 hf with h | h | h <;> simp [h]
  cases h with
  | elapsed h => exact ⟨hf, fun h => absurd rfl h, Nat.le_refl _⟩
  | op o ho h => exact absurd h hlive.1
  | released h hr => rw [hf] at hr; cases hr
  | asked h => exact absurd h hlive.1
  | wiped h => exact absurd h hlive.2.1
  | flagged h hl => exact absurd h hlive.2.2
  | locked h => simp [CacheState.left, CacheState.toSweeper, SweeperPc.left, h, hf]
  | waits h => simp [CacheState.left, CacheState.toSweeper, SweeperPc.left, h, hf]
  | woken h => simp [CacheState.left, CacheState.toSweeper, SweeperPc.left, h, hf]
  | relocked h => simp [CacheState.left, CacheState.toSweeper, SweeperPc.left, h, hf]
  | stopped h hs => simp [CacheState.left, CacheState.toSweeper, SweeperPc.left, h, hf]
  | swept h => simp [CacheState.left, CacheState.toSweeper, SweeperPc.left, h, hf]
  | notified h hw =>
    simp [CacheState.left, CacheState.toSweeper, CacheState.toDrop, SweeperPc.left, DropPc.left,
      h, hw, hf]
  | unheard h hw => simp [CacheState.left, CacheState.toDrop, DropPc.left, h, hf]
  | joined h hw => simp [CacheState.left, CacheState.toDrop, DropPc.left, h, hf]

/-- The steps of the threads, the passing of time left out. -/
def Event.ofThread : Event → Bool
  | .elapsed => false
  | _ => true

/-- From when the flag is set, in any order of steps. -/
theorem left_run (hd : Dropping s) (hf : s.shutdown = true) {l : List Event}
    (h : ((cacheSystem H).resumed s).Run l s') :
    s'.shutdown = true ∧ Dropping s' ∧ l.countP Event.ofThread + s'.left ≤ s.left := by
  induction h with
  | start hs =>
    subst hs
    exact ⟨hf, hd, by simp⟩
  | @step l a s₁ s₂ _ hs ih =>
    obtain ⟨hf₁, hd₁, hle⟩ := ih
    obtain ⟨hf₂, hless, hle'⟩ := left_step hs.1 hd₁ hf₁
    refine ⟨hf₂, Dropping.step hs.1 hd₁, ?_⟩
    rw [List.countP_cons]
    cases hs.1 with
    | elapsed h =>
      simp only [Event.ofThread, Bool.false_eq_true, if_false]
      omega
    | _ =>
      have hstep := hless (by simp)
      split <;> omega

/-- **A drop ends**, however the threads are scheduled and however long anything
takes: from when the flag is set the two threads have at most nine steps left,
until the drop has returned one of them can be taken, and then the cache is
empty and the thread has ended. -/
theorem drop_ends {l₁ l₂ : List Event} {s₁ s₂ : CacheState}
    (h₁ : (cacheSystem fun _ => True).Run l₁ s₁) (hf : s₁.shutdown = true)
    (h₂ : ((cacheSystem fun _ => True).resumed s₁).Run l₂ s₂) :
    l₂.countP Event.ofThread ≤ 9 ∧
      (s₂.drop ≠ .dropped → ∃ a s', CacheMoves a s₂ s' ∧ a ≠ .elapsed) ∧
      (s₂.drop = .dropped → s₂.entries = ∅ ∧ s₂.sweeper = .done) := by
  have hd₁ := Dropping.run h₁
  obtain ⟨hf₂, hd₂, hle⟩ := left_run hd₁ hf h₂
  have hdrop := hd₂.flag.1 hf₂
  refine ⟨?_, fun hne => never_stuck ?_ hne, fun hdr =>
    ⟨hd₂.emptied (by simp [hdr]) (by simp [hdr]), hd₂.joined hdr⟩⟩
  · have hsweeper : s₁.sweeper.left ≤ 6 := by cases s₁.sweeper <;> simp [SweeperPc.left]
    have hdropped : s₁.drop.left ≤ 3 := by
      rcases hd₁.flag.1 hf with h | h | h <;> simp [h, DropPc.left]
    simp only [CacheState.left] at hle
    omega
  · rcases hdrop with h | h | h <;> simp [h]

/-- A notification that nobody hears: the drop is over one wait later. -/
theorem drop_ends_sample : ∃ (l₁ l₂ : List Event) (s₁ s₂ : CacheState),
    (cacheSystem fun _ => True).Run l₁ s₁ ∧ s₁.drop = .notifying ∧ s₁.sweeper = .lock ∧
    ((cacheSystem fun _ => True).resumed s₁).Run l₂ s₂ ∧ s₂.drop = .dropped ∧
    l₂.countP Event.ofThread ≤ 9 ∧ s₂.entries = ∅ ∧ s₂.sweeper = .done := by
  have h₀ : (cacheSystem fun _ => True).Run [] ⟨0, ∅, false, .lock, 0, .live, 0, 0⟩ :=
    .start ⟨0, rfl⟩
  have hasked := h₀.step (a := .dropper) ⟨.asked rfl, trivial, trivial⟩
  have hwiped : (cacheSystem fun _ => True).Run [.wiped 0, .dropper]
      ⟨0, ∅, false, .lock, 0, .flagging, 0, 0⟩ :=
    hasked.step ⟨.wiped (s := ⟨0, ∅, false, .lock, 0, .wiping, 0, 0⟩) rfl, trivial, trivial⟩
  have h₁ :=
    hwiped.step (a := .dropper) ⟨.flagged rfl (by simp [CacheState.Locked]), trivial, trivial⟩
  have hbegin : ((cacheSystem fun _ => True).resumed ⟨0, ∅, true, .lock, 0, .notifying, 0, 0⟩).Run
      []
      ⟨0, ∅, true, .lock, 0, .notifying, 0, 0⟩ := .start rfl
  have hunheard := hbegin.step (a := .dropper) ⟨.unheard rfl (by decide), trivial, trivial⟩
  have hlocked := hunheard.step (a := .sweeper) ⟨.locked rfl, trivial, trivial⟩
  have hwaits := hlocked.step (a := .sweeper) ⟨.waits rfl, trivial, trivial⟩
  have hwoken := hwaits.step (a := .sweeper) ⟨.woken rfl, trivial, trivial⟩
  have hrelocked := hwoken.step (a := .sweeper) ⟨.relocked rfl, trivial, trivial⟩
  have hstopped := hrelocked.step (a := .sweeper) ⟨.stopped rfl rfl, trivial, trivial⟩
  have h₂ := hstopped.step (a := .dropper) ⟨.joined rfl rfl, trivial, trivial⟩
  obtain ⟨hcount, -, hend⟩ := drop_ends h₁ rfl h₂
  obtain ⟨hempty, hdone⟩ := hend rfl
  exact ⟨_, _, _, _, h₁, rfl, rfl, h₂, rfl, hcount, hempty, hdone⟩

/-! ## Time -/

/-- What the threads are promised of the operating system. -/
structure Delays where
  ε : Nat
  σ : Nat
  τ : Nat

variable (D : Delays)

/-- How long the thread may be at a point of its loop. -/
def SweeperPc.lim : SweeperPc → Nat
  | .waiting => sweepInterval + D.ε
  | .sweep => D.τ
  | .done => 0
  | _ => D.σ

/-- One round of the loop. -/
def Delays.cycle : Nat := sweepInterval + D.ε + 4 * D.σ + D.τ

/-- The points from which the next sweep is reached. -/
inductive SweeperPc.Next : SweeperPc → SweeperPc → Prop
  | lock : Next .lock .held
  | held : Next .held .waiting
  | waiting : Next .waiting .relock
  | relock : Next .relock .check
  | check : Next .check .sweep

/-- ... and from which the end is, once the flag is set. -/
inductive SweeperPc.Ends : SweeperPc → SweeperPc → Prop
  | sweep : Ends .sweep .lock
  | lock : Ends .lock .held
  | held : Ends .held .waiting
  | waiting : Ends .waiting .relock
  | relock : Ends .relock .check
  | check : Ends .check .done

/-- The time to the end of the next sweep. -/
def toSweep : Countdown SweeperPc SweeperPc.Next where
  lim := SweeperPc.lim D
  rem
    | .lock => D.cycle
    | .held => sweepInterval + D.ε + 3 * D.σ + D.τ
    | .waiting => sweepInterval + D.ε + 2 * D.σ + D.τ
    | .relock => 2 * D.σ + D.τ
    | .check => D.σ + D.τ
    | .sweep => D.τ
    | .done => 0
  lim_le p := by cases p <;> simp only [SweeperPc.lim, Delays.cycle] <;> omega
  step p q h := by cases h <;> simp only [SweeperPc.lim, Delays.cycle] <;> omega

/-- The time to the end of the thread. -/
def toEnd : Countdown SweeperPc SweeperPc.Ends where
  lim := SweeperPc.lim D
  rem
    | .sweep => D.cycle
    | .lock => sweepInterval + D.ε + 4 * D.σ
    | .held => sweepInterval + D.ε + 3 * D.σ
    | .waiting => sweepInterval + D.ε + 2 * D.σ
    | .relock => 2 * D.σ
    | .check => D.σ
    | .done => 0
  lim_le p := by cases p <;> simp only [SweeperPc.lim, Delays.cycle] <;> omega
  step p q h := by cases h <;> simp only [SweeperPc.lim, Delays.cycle] <;> omega

theorem toEnd_le (p : SweeperPc) : (toEnd D).rem p ≤ D.cycle := by
  cases p <;> simp only [toEnd, Delays.cycle] <;> omega

/-- Nothing takes longer than it may. -/
structure Prompt (s : CacheState) : Prop where
  sweeper : s.sweeper ≠ .done → s.now ≤ s.sweeperSince + s.sweeper.lim D
  drop : s.drop = .wiping ∨ s.drop = .flagging ∨ s.drop = .notifying → s.now ≤ s.dropSince + D.σ
  joining : s.drop = .joining → s.sweeper = .done → s.now ≤ max s.dropSince s.sweeperSince + D.σ

variable {D}

/-! ### A key that has expired -/

/-- The last sweep was at `t`: what has an expiry time has not expired then,
and the next sweep is due a round later. -/
structure SweptAt (D : Delays) (t : Nat) (s : CacheState) : Prop where
  past : t ≤ s.now
  entries : ∀ k e, s.entries.get k = some e → e.singleUse = false → t ≤ e.expiresAt
  due : s.sweeper ≠ .done → s.sweeperSince + (toSweep D).rem s.sweeper ≤ t + D.cycle

theorem SweptAt.toSweeper {t : Nat} (hs : SweptAt D t s) (hp : Prompt D s) {p : SweeperPc}
    (hn : SweeperPc.Next s.sweeper p) : SweptAt D t (s.toSweeper p) where
  past := hs.past
  entries := hs.entries
  due _ := by
    have hne : s.sweeper ≠ .done := by intro h; rw [h] at hn; cases hn
    exact (toSweep D).leave hn (hp.sweeper hne) (hs.due hne)

/-- A step leaves the entries there were, or puts in one that expires later. -/
theorem SweptAt.op {t : Nat} (hs : SweptAt D t s) (o : CacheOp) :
    SweptAt D t { s with entries := o.apply s.entries s.now } where
  past := hs.past
  entries k e hk he := by
    rcases get_apply hk with ⟨b, secs, -, -, rfl⟩ | ⟨hr, -⟩
    · have hpast := hs.past
      simp only
      omega
    · exact hs.entries k e hr he
  due := hs.due

theorem SweptAt.step {t : Nat} (h : CacheMoves a s s') (hs : SweptAt D t s) (hp : Prompt D s) :
    ∃ t', SweptAt D t' s' := by
  cases h with
  | elapsed h => exact ⟨t, Nat.le_trans hs.past h, hs.entries, hs.due⟩
  | op o ho h => exact ⟨t, hs.op o⟩
  | locked h => exact ⟨t, hs.toSweeper hp (by rw [h]; exact .lock)⟩
  | waits h => exact ⟨t, hs.toSweeper hp (by rw [h]; exact .held)⟩
  | woken h => exact ⟨t, hs.toSweeper hp (by rw [h]; exact .waiting)⟩
  | relocked h => exact ⟨t, hs.toSweeper hp (by rw [h]; exact .relock)⟩
  | stopped h hf => exact ⟨t, hs.past, hs.entries, fun hne => absurd rfl hne⟩
  | released h hf => exact ⟨t, hs.toSweeper hp (by rw [h]; exact .check)⟩
  | swept h =>
    refine ⟨s.now, Nat.le_refl _, fun k e hk he => ?_, fun _ => Nat.le_refl _⟩
    rcases ((get_sweepExpired _ _ _ _).1 hk).2 with hl | hl
    · rw [he] at hl; cases hl
    · exact Nat.le_of_lt hl
  | asked h => exact ⟨t, hs.past, hs.entries, hs.due⟩
  | wiped h => exact ⟨t, hs.past, fun k e hk => by simp [wipeAll] at hk, hs.due⟩
  | flagged h hl => exact ⟨t, hs.past, hs.entries, hs.due⟩
  | notified h hw =>
    have hsweep : SweptAt D t (s.toSweeper .relock) := hs.toSweeper hp (by rw [hw]; exact .waiting)
    exact ⟨t, hsweep.past, hsweep.entries, hsweep.due⟩
  | unheard h hw => exact ⟨t, hs.past, hs.entries, hs.due⟩
  | joined h hw => exact ⟨t, hs.past, hs.entries, hs.due⟩

theorem prompt_fresh (t : Nat) : Prompt D (fresh t) :=
  ⟨fun _ => Nat.le_add_right _ _, (by simp [fresh]), (by simp [fresh])⟩

theorem run_prompt (h : (cacheSystem (Prompt D)).Run l s) : Prompt D s := by
  cases h with
  | start hs =>
    obtain ⟨t, rfl⟩ := hs
    exact prompt_fresh t
  | step _ hs => exact hs.2.2

/-- **How long a key is there.** Where nothing is late, what is in the cache is
what the last insert of its key put there; one for a single use waits for it,
and any other is gone, used or not, one round of the sweeper after its expiry
at the latest. -/
theorem residency_timed (h : (cacheSystem (Prompt D)).Run l s) {k : Uuid} {e : CachedKey}
    (hk : s.entries.get k = some e) : ∃ b secs t₀, lastInsert k (history l) = some (b, secs, t₀) ∧
      secs ≤ maxRetentionSecs ∧ e.bytes = b ∧ (secs = 0 → LeftUnused (history l) k b t₀) ∧
      (secs ≠ 0 → s.now ≤ t₀ + fromSecs secs + D.cycle) := by
  have hafter := run_history h
  rw [hafter] at hk
  obtain ⟨b, secs, t₀, hl, hle, rfl⟩ := get_after hk
  refine ⟨b, secs, t₀, hl, hle, rfl, fun hz => ?_, fun hz => ?_⟩
  · subst hz
    exact get_after_singleUse.1 hk
  · have hswept : ∃ t, SweptAt D t s := by
      refine h.invariant (I := fun s => ∃ t, SweptAt D t s) (fun s hs => ?_)
        fun a s s' ⟨t, ht⟩ hs => SweptAt.step hs.1 ht hs.2.1
      obtain ⟨t, rfl⟩ := hs
      exact ⟨t, Nat.le_refl _, fun k e hk => by simp [fresh] at hk, fun _ => Nat.le_refl _⟩
    obtain ⟨t, ht⟩ := hswept
    rw [← hafter] at hk
    have hexpires := ht.entries k _ hk (by simpa using hz)
    by_cases hdone : s.sweeper = .done
    · -- the thread only ends once the cache is empty
      have hd := Dropping.run h
      have hflag := hd.flag.1 (hd.done hdone)
      have hempty := hd.emptied (by rcases hflag with h | h | h <;> simp [h])
        (by rcases hflag with h | h | h <;> simp [h])
      rw [hempty] at hk
      simp at hk
    · have hdue := (toSweep D).due ((run_prompt h).sweeper hdone) (ht.due hdone)
      simp only at hexpires
      omega

def sampleKey : Uuid := ⟨Vector.replicate 16 1⟩

/-- A key that is not used, one wait later. -/
theorem residency_timed_sample : ∃ (l : List Event) (s : CacheState),
    (cacheSystem (Prompt ⟨0, 1, 0⟩)).Run l s ∧ s.now = sweepInterval ∧
    ∃ b secs t₀, lastInsert (sampleKey) (history l) = some (b, secs, t₀) ∧
      s.now ≤ t₀ + fromSecs secs + Delays.cycle ⟨0, 1, 0⟩ := by
  have hprompt : ∀ (r : RetentionCache) (t : Nat), t ≤ sweepInterval →
      Prompt ⟨0, 1, 0⟩ ⟨t, r, false, .waiting, 0, .live, 0, 0⟩ := by
    intro r t ht
    refine ⟨fun _ => ?_, by simp, by simp⟩
    simp only [SweeperPc.lim]
    omega
  have hlock : ∀ p, p = SweeperPc.lock ∨ p = .held →
      Prompt ⟨0, 1, 0⟩ ⟨0, ∅, false, p, 0, .live, 0, 0⟩ := by
    rintro p (rfl | rfl) <;> exact ⟨fun _ => by simp, by simp, by simp⟩
  have h₁ : (cacheSystem (Prompt ⟨0, 1, 0⟩)).Run [] ⟨0, ∅, false, .lock, 0, .live, 0, 0⟩ :=
    .start ⟨0, rfl⟩
  have h₂ := h₁.step (a := .sweeper) ⟨.locked rfl, hlock _ (.inl rfl), hlock .held (.inr rfl)⟩
  have h₃ := h₂.step (a := .sweeper) ⟨.waits rfl, hlock _ (.inr rfl), hprompt ∅ 0 (Nat.zero_le _)⟩
  have h₄ := h₃.step ⟨.op (.insert (sampleKey) [7] 30) (by decide) rfl, hprompt _ 0 (Nat.zero_le _),
    hprompt _ 0 (Nat.zero_le _)⟩
  have h₅ :=
    h₄.step (a := .elapsed)
    ⟨.elapsed (t := sweepInterval) (Nat.zero_le _), hprompt _ 0 (Nat.zero_le _),
    hprompt _ sweepInterval (Nat.le_refl _)⟩
  have hget : (CacheOp.apply ∅ 0 (.insert (sampleKey) [7] 30)).get (sampleKey) =
      some ⟨[7], 0 + fromSecs 30, 30 == 0⟩ := by
    have hin : insert ∅ (sampleKey) [7] 30 0 = .ok _ := insert_ok.2 ⟨by decide, rfl⟩
    simp [CacheOp.apply, hin]
  obtain ⟨b, secs, t₀, hl, -, -, -, hlate⟩ := residency_timed h₅ hget
  refine ⟨_, _, h₅, rfl, b, secs, t₀, hl, hlate fun hz => ?_⟩
  subst hz
  cases hl

/-! ### The drop -/

/-- How long a drop may take. -/
def Delays.drop (D : Delays) : Nat := 3 * D.σ + D.cycle

/-- How far the drop has come, and by when. -/
structure OnTime (D : Delays) (s : CacheState) : Prop where
  past : s.sweeperSince ≤ s.now ∧ s.dropSince ≤ s.now
  wiping : s.drop = .wiping → s.dropSince ≤ s.askedAt
  flagging : s.drop = .flagging → s.dropSince ≤ s.askedAt + D.σ
  notifying : s.drop = .notifying → s.dropSince ≤ s.askedAt + 2 * D.σ
  joining : s.drop = .joining → s.dropSince ≤ s.askedAt + 3 * D.σ
  dropped : s.drop = .dropped → s.dropSince ≤ s.askedAt + D.drop
  ending : s.shutdown = true → s.sweeperSince + (toEnd D).rem s.sweeper ≤
    s.askedAt + 2 * D.σ + D.cycle

theorem OnTime.toSweeper (ho : OnTime D s) (hp : Prompt D s) {p : SweeperPc}
    (hn : s.shutdown = true → SweeperPc.Ends s.sweeper p) : OnTime D (s.toSweeper p) where
  past := ⟨Nat.le_refl _, ho.past.2⟩
  wiping := ho.wiping
  flagging := ho.flagging
  notifying := ho.notifying
  joining := ho.joining
  dropped := ho.dropped
  ending hf := by
    have hne : s.sweeper ≠ .done := by
      intro h
      have hends := hn hf
      rw [h] at hends
      cases hends
    exact (toEnd D).leave (hn hf) (hp.sweeper hne) (ho.ending hf)

theorem OnTime.step (h : CacheMoves a s s') (hd : Dropping s) (ho : OnTime D s) (hp : Prompt D s) :
    OnTime D s' := by
  have hround := toEnd_le D s.sweeper
  cases h with
  | elapsed h =>
    exact ⟨⟨Nat.le_trans ho.past.1 h, Nat.le_trans ho.past.2 h⟩, ho.wiping, ho.flagging,
      ho.notifying, ho.joining,
      ho.dropped, ho.ending⟩
  | op o ho' h =>
    exact ⟨ho.past, ho.wiping, ho.flagging, ho.notifying, ho.joining, ho.dropped, ho.ending⟩
  | locked h => exact ho.toSweeper hp fun _ => by rw [h]; exact .lock
  | waits h => exact ho.toSweeper hp fun _ => by rw [h]; exact .held
  | woken h => exact ho.toSweeper hp fun _ => by rw [h]; exact .waiting
  | relocked h => exact ho.toSweeper hp fun _ => by rw [h]; exact .relock
  | stopped h hf => exact ho.toSweeper hp fun _ => by rw [h]; exact .check
  | released h hf => exact ho.toSweeper hp fun hf' => by rw [hf] at hf'; cases hf'
  | swept h =>
    have hnext : OnTime D (s.toSweeper .lock) := ho.toSweeper hp fun _ => by rw [h]; exact .sweep
    exact ⟨hnext.past, hnext.wiping, hnext.flagging, hnext.notifying, hnext.joining, hnext.dropped,
      hnext.ending⟩
  | asked h =>
    have hflag : s.shutdown ≠ true := fun hf => by
      have hset := hd.flag.1 hf
      rw [h] at hset
      simp at hset
    exact ⟨⟨ho.past.1, Nat.le_refl _⟩, fun _ => Nat.le_refl _, (by simp [CacheState.toDrop]),
      (by simp [CacheState.toDrop]), (by simp [CacheState.toDrop]), (by simp [CacheState.toDrop]),
      fun hf => absurd hf hflag⟩
  | wiped h =>
    have hnow := hp.drop (.inl h)
    have hsince := ho.wiping h
    exact ⟨⟨ho.past.1, Nat.le_refl _⟩, (by simp [CacheState.toDrop]),
      (fun _ => by simp only [CacheState.toDrop]; omega), (by simp [CacheState.toDrop]),
      (by simp [CacheState.toDrop]), (by simp [CacheState.toDrop]), ho.ending⟩
  | flagged h hl =>
    have hnow := hp.drop (.inr (.inl h))
    have hsince := ho.flagging h
    have hpast := ho.past.1
    exact ⟨⟨hpast, Nat.le_refl _⟩, (by simp [CacheState.toDrop]), (by simp [CacheState.toDrop]),
      (fun _ => by simp only [CacheState.toDrop]; omega), (by simp [CacheState.toDrop]),
      (by simp [CacheState.toDrop]), fun _ => by simp only [CacheState.toDrop]; omega⟩
  | notified h hw =>
    have hnow := hp.drop (.inr (.inr h))
    have hsince := ho.notifying h
    have hnext : OnTime D (s.toSweeper .relock) :=
      ho.toSweeper hp fun _ => by rw [hw]; exact .waiting
    exact ⟨⟨Nat.le_refl _, Nat.le_refl _⟩, (by simp [CacheState.toDrop, CacheState.toSweeper]),
      (by simp [CacheState.toDrop, CacheState.toSweeper]),
        (by simp [CacheState.toDrop, CacheState.toSweeper]),
      (fun _ => by simp only [CacheState.toDrop, CacheState.toSweeper]; omega),
      (by simp [CacheState.toDrop, CacheState.toSweeper]), hnext.ending⟩
  | unheard h hw =>
    have hnow := hp.drop (.inr (.inr h))
    have hsince := ho.notifying h
    exact ⟨⟨ho.past.1, Nat.le_refl _⟩, (by simp [CacheState.toDrop]), (by simp [CacheState.toDrop]),
      (by simp [CacheState.toDrop]), (fun _ => by simp only [CacheState.toDrop]; omega),
      (by simp [CacheState.toDrop]), ho.ending⟩
  | joined h hw =>
    have hnow := hp.joining h hw
    have hsince := ho.joining h
    have hending := ho.ending (hd.flag.2 (.inr (.inl h)))
    exact ⟨⟨ho.past.1, Nat.le_refl _⟩, (by simp [CacheState.toDrop]), (by simp [CacheState.toDrop]),
      (by simp [CacheState.toDrop]), (by simp [CacheState.toDrop]),
      (fun _ => by simp only [CacheState.toDrop, Delays.drop, Delays.cycle] at *; omega), ho.ending⟩

/-- **How long a drop takes.** Where nothing is late, a drop that has begun and
not returned has begun less than a round and a bit ago. -/
theorem drop_timed (h : (cacheSystem (Prompt D)).Run l s) (hl : s.drop ≠ .live) :
    (s.drop ≠ .dropped → s.now ≤ s.askedAt + D.drop) ∧
      (s.drop = .dropped → s.dropSince ≤ s.askedAt + D.drop ∧ s.entries = ∅ ∧
        s.sweeper = .done) := by
  have hp := run_prompt h
  have hd := Dropping.run h
  have ho : Dropping s ∧ OnTime D s := by
    refine h.invariant (I := fun s => Dropping s ∧ OnTime D s) (fun s hs => ?_)
      fun a s s' ⟨hd, ho⟩ hs => ⟨Dropping.step hs.1 hd, OnTime.step hs.1 hd ho hs.2.1⟩
    obtain ⟨t, rfl⟩ := hs
    exact ⟨Dropping.run (.start ⟨t, rfl⟩ : (cacheSystem (Prompt D)).Run [] (fresh t)),
      ⟨Nat.le_refl _, Nat.le_refl _⟩, (by simp [fresh]), (by simp [fresh]), (by simp [fresh]),
        (by simp [fresh]),
      (by simp [fresh]), (by simp [fresh])⟩
  obtain ⟨-, ho⟩ := ho
  refine ⟨fun hne => ?_, fun hdr =>
    ⟨ho.dropped hdr, hd.emptied (by simp [hdr]) (by simp [hdr]), hd.joined hdr⟩⟩
  cases hdrop : s.drop with
  | live => exact absurd hdrop hl
  | wiping =>
    have hnow := hp.drop (.inl hdrop)
    have hsince := ho.wiping hdrop
    simp only [Delays.drop]
    omega
  | flagging =>
    have hnow := hp.drop (.inr (.inl hdrop))
    have hsince := ho.flagging hdrop
    simp only [Delays.drop]
    omega
  | notifying =>
    have hnow := hp.drop (.inr (.inr hdrop))
    have hsince := ho.notifying hdrop
    simp only [Delays.drop]
    omega
  | joining =>
    have hsince := ho.joining hdrop
    have hending := ho.ending (hd.flag.2 (.inr (.inl hdrop)))
    by_cases hdone : s.sweeper = .done
    · have hnow := hp.joining hdrop hdone
      simp only [Delays.drop, Delays.cycle] at *
      omega
    · have hdue := (toEnd D).due (hp.sweeper hdone) hending
      simp only [Delays.drop]
      omega
  | dropped => exact absurd hdrop hne

/-- The same drop, on a clock that does not move. -/
theorem drop_timed_sample : ∃ (l : List Event) (s : CacheState),
    (cacheSystem (Prompt ⟨0, 1, 0⟩)).Run l s ∧ s.drop = .joining ∧ s.sweeper = .lock ∧
      s.now ≤ s.askedAt + Delays.drop ⟨0, 1, 0⟩ := by
  have hprompt : ∀ (f : Bool) (d : DropPc), Prompt ⟨0, 1, 0⟩ ⟨0, ∅, f, .lock, 0, d, 0, 0⟩ :=
    fun f d => ⟨fun _ => by simp, fun _ => by simp, fun _ h => by cases h⟩
  have h₁ : (cacheSystem (Prompt ⟨0, 1, 0⟩)).Run [] ⟨0, ∅, false, .lock, 0, .live, 0, 0⟩ :=
    .start ⟨0, rfl⟩
  have h₂ := h₁.step (a := .dropper) ⟨.asked rfl, hprompt _ _, hprompt false .wiping⟩
  have h₃ : (cacheSystem (Prompt ⟨0, 1, 0⟩)).Run [.wiped 0, .dropper]
      ⟨0, ∅, false, .lock, 0, .flagging, 0, 0⟩ :=
    h₂.step ⟨.wiped (s := ⟨0, ∅, false, .lock, 0, .wiping, 0, 0⟩) rfl, hprompt _ _,
      hprompt false .flagging⟩
  have h₄ :=
    h₃.step (a := .dropper)
    ⟨.flagged rfl (by simp [CacheState.Locked]), hprompt _ _, hprompt true .notifying⟩
  have h₅ := h₄.step (a := .dropper) ⟨.unheard rfl (by decide), hprompt _ _, hprompt true .joining⟩
  exact ⟨_, _, h₅, rfl, rfl, (drop_timed h₅ (by decide)).1 (by decide)⟩

end

end VaultSigner.L2.Sweeper
