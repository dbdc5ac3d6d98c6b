import VaultSigner.L2Cache.Residency

/-!
# What a caller of the retention cache sees

A caller sees the answers of its `use_key` and `contains` calls and nothing
else. The sweeper runs between any two calls. Here the answers are read off the
history of the calls alone: what `use_key` hands out is decided by the key's
last insert and by what came after it, and a sweep decides nothing.

Results:
* `get_after_live`: the live entries are the inserts that still stand.
* `useKey_after_iff`, `contains_after_iff`: each answer, from the history.
* `results_withoutSweeps`: leaving out the sweeps changes no answer.
* `cache_is_its_history`: these, with what they say of one use and of expiry.
-/
namespace VaultSigner.L2.Retention
open VaultSigner.Core VaultSigner.L1

/-- The answer of a call. -/
inductive Answer where
  | used (bytes : Option Bytes)
  | held (present : Bool)
deriving DecidableEq

/-- What the operation answers, for those that look a key up. -/
def CacheOp.answer (r : RetentionCache) (now : Nat) : CacheOp → Option Answer
  | .useKey k => some (.used (Retention.useKey r k now id).1)
  | .contains k => some (.held (Retention.contains r k now))
  | _ => none

/-- The answers of all calls, newest first. -/
def results : List CacheStep → List Answer
  | [] => []
  | x :: l => (x.op.answer (after l) x.now).toList ++ results l

def CacheStep.isSweep (x : CacheStep) : Bool := x.op == .sweepExpired

/-- The history as the caller made it. -/
def withoutSweeps (l : List CacheStep) : List CacheStep := l.filter fun x => !x.isSweep

/-- `k` was last inserted at `t₀`, as `b` for `secs` seconds, and nothing has
ended that since. -/
def Standing (l : List CacheStep) (k : Uuid) (b : Bytes) (secs : UInt32) (t₀ : Nat) : Prop :=
  ∃ l₂ l₁, l = l₂ ++ ⟨t₀, .insert k b secs⟩ :: l₁ ∧ secs ≤ maxRetentionSecs ∧
    ∀ x ∈ l₂, ¬ x.op.Ends k (secs == 0)

/-- A use of `k` at time `t` is due the bytes `b`. -/
def Usable (l : List CacheStep) (k : Uuid) (b : Bytes) (t : Nat) : Prop :=
  ∃ secs t₀, Standing l k b secs t₀ ∧ (secs = 0 ∨ t < t₀ + fromSecs secs)

/-- The operation is an insert of `k`, and accepted. -/
def CacheOp.Renews (k : Uuid) : CacheOp → Prop
  | .insert k' _ secs => k' = k ∧ secs ≤ maxRetentionSecs
  | _ => False

/-- The calls of `l` were made by time `t`. -/
def MadeBy (t : Nat) (l : List CacheStep) : Prop := ∀ x ∈ l, x.now ≤ t

/-! ## The history, one step at a time -/

theorem standing_cons {x : CacheStep} {l : List CacheStep} {k : Uuid} {b : Bytes} {secs : UInt32}
    {t₀ : Nat} : Standing (x :: l) k b secs t₀ ↔
      (x = ⟨t₀, .insert k b secs⟩ ∧ secs ≤ maxRetentionSecs) ∨
      (Standing l k b secs t₀ ∧ ¬ x.op.Ends k (secs == 0)) := by
  refine ⟨fun h => ?_, fun h => ?_⟩
  · obtain ⟨l₂, l₁, hl, hle, hn⟩ := h
    cases l₂ with
    | nil =>
      simp only [List.nil_append, List.cons.injEq] at hl
      exact .inl ⟨hl.1, hle⟩
    | cons y l₂ =>
      simp only [List.cons_append, List.cons.injEq] at hl
      obtain ⟨rfl, rfl⟩ := hl
      exact .inr ⟨⟨l₂, l₁, rfl, hle, fun z hz => hn z (List.mem_cons_of_mem _ hz)⟩,
        hn x List.mem_cons_self⟩
  · rcases h with ⟨rfl, hle⟩ | ⟨⟨l₂, l₁, rfl, hle, hn⟩, hx⟩
    · exact ⟨[], l, rfl, hle, by simp⟩
    · refine ⟨x :: l₂, l₁, rfl, hle, fun z hz => ?_⟩
      rcases List.mem_cons.1 hz with rfl | hz
      · exact hx
      · exact hn z hz

/-- What stands is the key's last insert. -/
theorem Standing.lastInsert {l : List CacheStep} {k : Uuid} {b : Bytes} {secs : UInt32} {t₀ : Nat}
    (h : Standing l k b secs t₀) : lastInsert k l = some (b, secs, t₀) := by
  obtain ⟨l₂, l₁, rfl, hle, hn⟩ := h
  induction l₂ with
  | nil => simp [Retention.lastInsert, hle]
  | cons x l₂ ih =>
    have hcons : ∀ b' secs', x.op = .insert k b' secs' → ¬ secs' ≤ maxRetentionSecs := by
      intro b' secs' hop hle'
      have hx := hn x List.mem_cons_self
      rw [hop] at hx
      exact hx ⟨rfl, hle'⟩
    rw [List.cons_append, lastInsert_cons hcons]
    exact ih fun y hy => hn y (List.mem_cons_of_mem _ hy)

/-- What stands after calls that do not insert `k` stood before them. -/
theorem Standing.earlier {l₂ l₁ : List CacheStep} {k : Uuid} {b : Bytes} {secs : UInt32} {t₀ : Nat}
    (hnew : ∀ x ∈ l₂, ¬ x.op.Renews k) (h : Standing (l₂ ++ l₁) k b secs t₀) :
    Standing l₁ k b secs t₀ := by
  induction l₂ with
  | nil => exact h
  | cons x l₂ ih =>
    rcases standing_cons.1 h with ⟨rfl, hle⟩ | ⟨hs, -⟩
    · exact absurd ⟨rfl, hle⟩ (hnew _ List.mem_cons_self)
    · exact ih (fun y hy => hnew y (List.mem_cons_of_mem _ hy)) hs

/-- A sweep ends nothing, so the history need not list it. -/
theorem standing_withoutSweeps {l : List CacheStep} {k : Uuid} {b : Bytes} {secs : UInt32}
    {t₀ : Nat} : Standing (withoutSweeps l) k b secs t₀ ↔ Standing l k b secs t₀ := by
  induction l with
  | nil => exact Iff.rfl
  | cons x l ih =>
    rw [standing_cons, ← ih]
    cases hx : x.isSweep with
    | true =>
      obtain ⟨now, op⟩ := x
      have hop : op = .sweepExpired := by simpa [CacheStep.isSweep] using hx
      subst hop
      simp [withoutSweeps, hx, CacheOp.Ends]
    | false =>
      have hcons : withoutSweeps (x :: l) = x :: withoutSweeps l := by simp [withoutSweeps, hx]
      rw [hcons, standing_cons]

theorem usable_withoutSweeps {l : List CacheStep} {k : Uuid} {b : Bytes} {t : Nat} :
    Usable (withoutSweeps l) k b t ↔ Usable l k b t := by
  simp only [Usable, standing_withoutSweeps]

theorem Monotone.madeBy {x : CacheStep} {l : List CacheStep} (h : Monotone (x :: l)) :
    MadeBy x.now l :=
  (List.pairwise_cons.1 h).1

theorem Monotone.tail {x : CacheStep} {l : List CacheStep} (h : Monotone (x :: l)) : Monotone l :=
  (List.pairwise_cons.1 h).2

theorem MadeBy.withoutSweeps {t : Nat} {l : List CacheStep} (h : MadeBy t l) :
    MadeBy t (Retention.withoutSweeps l) := fun x hx => h x (List.mem_filter.1 hx).1

/-! ## The cache, from its history -/

/-- **The live entries** are the inserts that still stand. -/
theorem get_after_live {k : Uuid} {e : CachedKey} {t : Nat} (hlive : e.Live t) :
    ∀ {l : List CacheStep}, MadeBy t l → ((after l).get k = some e ↔
      ∃ b secs t₀, Standing l k b secs t₀ ∧ e = ⟨b, t₀ + fromSecs secs, secs == 0⟩) := by
  intro l
  induction l with
  | nil => simp [after, Standing]
  | cons x l ih =>
    intro hby
    obtain ⟨now, op⟩ := x
    have hnow : now ≤ t := hby _ List.mem_cons_self
    -- what is live at `t` was live when this call was made
    have hthen : e.Live now := by
      rcases hlive with h | h
      · exact .inl h
      · exact .inr (by omega)
    have hold := ih fun y hy => hby y (List.mem_cons_of_mem _ hy)
    rw [after, get_apply_live hthen, hold]
    refine ⟨fun h => ?_, fun h => ?_⟩
    · rcases h with ⟨b, secs, rfl, hle, rfl⟩ | ⟨⟨b, secs, t₀, hs, rfl⟩, hends⟩
      · exact ⟨b, secs, now, standing_cons.2 (.inl ⟨rfl, hle⟩), rfl⟩
      · exact ⟨b, secs, t₀, standing_cons.2 (.inr ⟨hs, hends⟩), rfl⟩
    · obtain ⟨b, secs, t₀, hs, rfl⟩ := h
      rcases standing_cons.1 hs with ⟨hx, hle⟩ | ⟨hs, hends⟩
      · cases hx
        exact .inl ⟨b, secs, rfl, hle, rfl⟩
      · exact .inr ⟨⟨b, secs, t₀, hs, rfl⟩, hends⟩

/-- What is usable is what is live in the cache. -/
theorem usable_iff_live {l : List CacheStep} {k : Uuid} {b : Bytes} {t : Nat} (hby : MadeBy t l) :
    Usable l k b t ↔ ∃ e, (after l).get k = some e ∧ e.Live t ∧ e.bytes = b := by
  refine ⟨fun h => ?_, fun h => ?_⟩
  · obtain ⟨secs, t₀, hs, ht⟩ := h
    have hlive : CachedKey.Live ⟨b, t₀ + fromSecs secs, secs == 0⟩ t := by
      rcases ht with rfl | ht
      · exact .inl rfl
      · exact .inr ht
    exact ⟨_, (get_after_live hlive hby).2 ⟨b, secs, t₀, hs, rfl⟩, hlive, rfl⟩
  · obtain ⟨e, hget, hlive, rfl⟩ := h
    obtain ⟨b, secs, t₀, hs, rfl⟩ := (get_after_live hlive hby).1 hget
    refine ⟨secs, t₀, hs, ?_⟩
    rcases hlive with h | h
    · exact .inl (by simpa using h)
    · exact .inr h

/-- **What `use_key` hands out**, from the history. -/
theorem useKey_after_iff {α : Type} {l : List CacheStep} {k : Uuid} {t : Nat} (f : Bytes → α)
    (hby : MadeBy t l) (a : α) :
    (useKey (after l) k t f).1 = some a ↔ ∃ b, Usable l k b t ∧ f b = a := by
  have hread : (useKey (after l) k t f).1 = some a ↔
      ∃ e, (after l).get k = some e ∧ e.Live t ∧ f e.bytes = a := by
    rcases useKey_cases (after l) k t f with ⟨hn, hu⟩ | ⟨e, he, hdead, hu⟩ | ⟨e, he, hlive, hu⟩
    · simp [hu, hn]
    · simp [hu, he, hdead]
    · simp [hu, he, hlive]
  rw [hread]
  refine ⟨fun h => ?_, fun h => ?_⟩
  · obtain ⟨e, hget, hlive, hf⟩ := h
    exact ⟨e.bytes, (usable_iff_live hby).2 ⟨e, hget, hlive, rfl⟩, hf⟩
  · obtain ⟨b, hu, hf⟩ := h
    obtain ⟨e, hget, hlive, rfl⟩ := (usable_iff_live hby).1 hu
    exact ⟨e, hget, hlive, hf⟩

/-- **What `contains` answers**, from the history. -/
theorem contains_after_iff {l : List CacheStep} {k : Uuid} {t : Nat} (hby : MadeBy t l) :
    contains (after l) k t = true ↔ ∃ b, Usable l k b t := by
  rw [contains_iff]
  refine ⟨fun h => ?_, fun h => ?_⟩
  · obtain ⟨e, hget, hlive⟩ := h
    exact ⟨e.bytes, (usable_iff_live hby).2 ⟨e, hget, hlive, rfl⟩⟩
  · obtain ⟨b, hu⟩ := h
    obtain ⟨e, hget, hlive, -⟩ := (usable_iff_live hby).1 hu
    exact ⟨e, hget, hlive⟩

/-- Two histories under which the same bytes are usable answer alike. -/
theorem answer_congr {l l' : List CacheStep} {t : Nat} {op : CacheOp} (hby : MadeBy t l)
    (hby' : MadeBy t l') (hsame : ∀ k b, Usable l k b t ↔ Usable l' k b t) :
    op.answer (after l) t = op.answer (after l') t := by
  cases op with
  | useKey k =>
    have huse : (useKey (after l) k t id).1 = (useKey (after l') k t id).1 := by
      refine Option.ext fun a => ?_
      rw [useKey_after_iff id hby, useKey_after_iff id hby']
      simp only [hsame]
    simp only [CacheOp.answer, huse]
  | contains k =>
    have hhas : contains (after l) k t = contains (after l') k t := by
      rw [Bool.eq_iff_iff, contains_after_iff hby, contains_after_iff hby']
      simp only [hsame]
    simp only [CacheOp.answer, hhas]
  | _ => rfl

/-- **The sweeper is not seen.** Without its sweeps the history has the same
answers. -/
theorem results_withoutSweeps : ∀ {l : List CacheStep}, Monotone l →
    results (withoutSweeps l) = results l := by
  intro l
  induction l with
  | nil => intro _; rfl
  | cons x l ih =>
    intro hmono
    have hrest := ih hmono.tail
    have hanswer : x.op.answer (after (withoutSweeps l)) x.now = x.op.answer (after l) x.now :=
      answer_congr hmono.madeBy.withoutSweeps hmono.madeBy fun k b => usable_withoutSweeps
    cases hx : x.isSweep with
    | true =>
      have hop : x.op = .sweepExpired := by simpa [CacheStep.isSweep] using hx
      have hnone : x.op.answer (after l) x.now = none := by rw [hop]; rfl
      have hcons : withoutSweeps (x :: l) = withoutSweeps l := by simp [withoutSweeps, hx]
      rw [hcons, results, hnone, hrest]
      rfl
    | false =>
      have hcons : withoutSweeps (x :: l) = x :: withoutSweeps l := by simp [withoutSweeps, hx]
      rw [hcons, results, results, hanswer, hrest]

/-! ## One use, and expiry -/

/-- **A single use is used once.** The use after it finds nothing, unless the
key was inserted again. -/
theorem useKey_once {l₂ l₁ : List CacheStep} {k : Uuid} {b : Bytes} {t₀ t t' : Nat}
    (hs : Standing l₁ k b 0 t₀) (hnew : ∀ x ∈ l₂, ¬ x.op.Renews k)
    (hby : MadeBy t' (l₂ ++ ⟨t, .useKey k⟩ :: l₁)) :
    (useKey (after (l₂ ++ ⟨t, .useKey k⟩ :: l₁)) k t' id).1 = none := by
  rw [Option.eq_none_iff_forall_ne_some]
  intro a hu
  obtain ⟨b', ⟨secs, t₁, hs', -⟩, -⟩ := (useKey_after_iff id hby a).1 hu
  rcases standing_cons.1 (hs'.earlier hnew) with ⟨hx, -⟩ | ⟨hold, hends⟩
  · cases hx
  · -- the last insert was for one use, and the call in between was one
    have hlast := hs.lastInsert.symm.trans hold.lastInsert
    cases hlast
    exact hends ⟨rfl, rfl⟩

/-- **Nothing is usable once it has expired.** -/
theorem not_usable_of_expired {l : List CacheStep} {k : Uuid} {b : Bytes} {secs : UInt32}
    {t₀ t : Nat} (hlast : lastInsert k l = some (b, secs, t₀)) (hsecs : secs ≠ 0)
    (ht : t₀ + fromSecs secs ≤ t) (b' : Bytes) : ¬ Usable l k b' t := by
  intro hu
  obtain ⟨secs', t₁, hs, hlt⟩ := hu
  have hsame := hlast.symm.trans hs.lastInsert
  cases hsame
  rcases hlt with h | h
  · exact hsecs h
  · omega

/-- **The cache is its history.** At times that do not run backwards, the
sweeps change no answer; every use is given the bytes of the key's last insert
exactly while it stands and has not expired; a lookup agrees; a single use is
given once; and at its expiry every other key is gone. -/
theorem cache_is_its_history {l : List CacheStep} (hmono : Monotone l) :
    results (withoutSweeps l) = results l ∧
    (∀ t k l₁, ⟨t, .useKey k⟩ :: l₁ <:+ l →
      ∀ b, (useKey (after l₁) k t id).1 = some b ↔ Usable l₁ k b t) ∧
    (∀ t k l₁, ⟨t, .contains k⟩ :: l₁ <:+ l →
      (contains (after l₁) k t = true ↔ ∃ b, Usable l₁ k b t)) ∧
    (∀ t k l₁ b t₀, ⟨t, .useKey k⟩ :: l₁ <:+ l → Standing l₁ k b 0 t₀ →
      (useKey (after l₁) k t id).1 = some b ∧
      ∀ t' l₂, ⟨t', .useKey k⟩ :: (l₂ ++ ⟨t, .useKey k⟩ :: l₁) <:+ l →
        (∀ x ∈ l₂, ¬ x.op.Renews k) →
        (useKey (after (l₂ ++ ⟨t, .useKey k⟩ :: l₁)) k t' id).1 = none) ∧
    (∀ x k l₁ b secs t₀, x :: l₁ <:+ l → lastInsert k l₁ = some (b, secs, t₀) → secs ≠ 0 →
      t₀ + fromSecs secs ≤ x.now →
      (useKey (after l₁) k x.now id).1 = none ∧ contains (after l₁) k x.now = false) := by
  have hby : ∀ {x : CacheStep} {l₁ : List CacheStep}, x :: l₁ <:+ l → MadeBy x.now l₁ := by
    intro x l₁ hsuf
    have hpart : Monotone (x :: l₁) := List.Pairwise.sublist hsuf.sublist hmono
    exact hpart.madeBy
  have huse : ∀ {x : CacheStep} {l₁ : List CacheStep}, x :: l₁ <:+ l → ∀ k b,
      (useKey (after l₁) k x.now id).1 = some b ↔ Usable l₁ k b x.now := by
    intro x l₁ hsuf k b
    simpa using useKey_after_iff id (hby hsuf) b
  refine ⟨results_withoutSweeps hmono, fun t k l₁ hsuf => huse hsuf k,
    fun t k l₁ hsuf => contains_after_iff (hby hsuf), fun t k l₁ b t₀ hsuf hs => ⟨?_, ?_⟩,
    fun x k l₁ b secs t₀ hsuf hlast hsecs ht => ?_⟩
  · exact (huse hsuf k b).2 ⟨0, t₀, hs, .inl rfl⟩
  · intro t' l₂ hsuf' hnew
    exact useKey_once hs hnew (hby hsuf')
  · have hdead := not_usable_of_expired hlast hsecs ht
    refine ⟨?_, ?_⟩
    · rw [Option.eq_none_iff_forall_ne_some]
      intro a hu
      exact hdead a ((huse hsuf k a).1 hu)
    · rw [Bool.eq_false_iff]
      intro hc
      obtain ⟨b', hu⟩ := (contains_after_iff (hby hsuf)).1 hc
      exact hdead b' hu

/-- A key cached for 30 seconds: a use within them, a sweep, and a use after
them. -/
theorem cache_is_its_history_expired :
    let k : Uuid := ⟨Vector.replicate 16 1⟩
    let l : List CacheStep := [⟨fromSecs 60, .useKey k⟩, ⟨fromSecs 45, .sweepExpired⟩,
      ⟨fromSecs 20, .useKey k⟩, ⟨0, .insert k [7] 30⟩]
    results (withoutSweeps l) = results l ∧ results l = [.used none, .used (some [7])] := by
  intro k l
  have hmono : Monotone l := by simp [l, Monotone, fromSecs]
  refine ⟨(cache_is_its_history hmono).1, ?_⟩
  decide

end VaultSigner.L2.Retention
