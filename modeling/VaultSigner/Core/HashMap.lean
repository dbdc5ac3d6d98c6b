import Mathlib.Data.Finmap

/-!
# Hash maps and their iteration order

A Rust `HashMap<K, V>` is a finite map whose iteration order is arbitrary.
`HashMap K V` is Mathlib's `Finmap` (equality is equality of lookups), with
`get` / `put` / `del` for `get`, `insert` and `remove`. An iteration is
driven by an `IterOrder`, which enumerates every finite key set without
repetition: a result stated for every `IterOrder` holds for every order in
which the map may be walked.
-/
namespace VaultSigner.Core

abbrev HashMap (K V : Type) := Finmap (fun _ : K => V)

namespace HashMap

variable {K V : Type} [DecidableEq K]

def get (m : HashMap K V) (k : K) : Option V := Finmap.lookup k m

def put (m : HashMap K V) (k : K) (v : V) : HashMap K V := Finmap.insert k v m

def del (m : HashMap K V) (k : K) : HashMap K V := Finmap.erase k m

def has (m : HashMap K V) (k : K) : Bool := (m.get k).isSome

@[simp] theorem get_empty (k : K) : get (∅ : HashMap K V) k = none := Finmap.lookup_empty k

theorem get_put (m : HashMap K V) (k k' : K) (v : V) :
    (m.put k v).get k' = if k' = k then some v else m.get k' := by
  unfold get put
  by_cases h : k' = k
  · subst h; rw [if_pos rfl, Finmap.lookup_insert]
  · rw [if_neg h, Finmap.lookup_insert_of_ne _ h]

theorem get_del (m : HashMap K V) (k k' : K) :
    (m.del k).get k' = if k' = k then none else m.get k' := by
  unfold get del
  by_cases h : k' = k
  · subst h; rw [if_pos rfl, Finmap.lookup_erase]
  · rw [if_neg h, Finmap.lookup_erase_ne h]

@[simp] theorem get_put_self (m : HashMap K V) (k : K) (v : V) : (m.put k v).get k = some v := by
  rw [get_put, if_pos rfl]

@[simp] theorem get_del_self (m : HashMap K V) (k : K) : (m.del k).get k = none := by
  rw [get_del, if_pos rfl]

theorem get_put_ne (m : HashMap K V) {k k' : K} (v : V) (h : k' ≠ k) :
    (m.put k v).get k' = m.get k' := by rw [get_put, if_neg h]

theorem get_del_ne (m : HashMap K V) {k k' : K} (h : k' ≠ k) : (m.del k).get k' = m.get k' := by
  rw [get_del, if_neg h]

theorem ext_get {m m' : HashMap K V} (h : ∀ k, m.get k = m'.get k) : m = m' :=
  Finmap.ext_lookup h

theorem mem_keys (m : HashMap K V) (k : K) : k ∈ m.keys ↔ ∃ v, m.get k = some v := by
  rw [Finmap.mem_keys, Finmap.mem_iff]; rfl

/-- Overwriting a key with the value it already has changes nothing. -/
theorem put_of_get {m : HashMap K V} {k : K} {v : V} (h : m.get k = some v) : m.put k v = m := by
  refine ext_get fun k' => ?_
  rw [get_put]
  split
  · rename_i he; rw [he, h]
  · rfl

/-- `map.retain(|k, v| ..)`. -/
def retain (m : HashMap K V) (p : K → V → Bool) : HashMap K V where
  entries := m.entries.filter fun s => p s.1 s.2
  nodupKeys := Multiset.nodup_keys.1 (Multiset.nodup_of_le
    (Multiset.map_le_map (Multiset.filter_le _ _)) (Multiset.nodup_keys.2 m.nodupKeys))

theorem get_retain (m : HashMap K V) (p : K → V → Bool) (k : K) (v : V) :
    (m.retain p).get k = some v ↔ m.get k = some v ∧ p k v = true := by
  unfold get retain
  rw [Finmap.lookup_eq_some_iff, Finmap.lookup_eq_some_iff, Multiset.mem_filter]

/-- A map from a list of entries; a later entry overwrites an earlier one. -/
def ofList : List (K × V) → HashMap K V → HashMap K V
  | [], m => m
  | (k, v) :: l, m => ofList l (m.put k v)

theorem get_ofList_of_not_mem : ∀ (l : List (K × V)) (m : HashMap K V) (k : K),
    k ∉ l.map Prod.fst → (ofList l m).get k = m.get k := by
  intro l
  induction l with
  | nil => intro m k _; rfl
  | cons p l ih =>
    intro m k h
    simp only [List.map_cons, List.mem_cons, not_or] at h
    exact (ih _ k h.2).trans (get_put_ne _ _ h.1)

theorem get_ofList {l : List (K × V)} (hl : (l.map Prod.fst).Nodup) (k : K) (v : V) :
    (ofList l ∅).get k = some v ↔ (k, v) ∈ l := by
  have key : ∀ (l : List (K × V)) (m : HashMap K V), (l.map Prod.fst).Nodup →
      ∀ v, (k, v) ∈ l → (ofList l m).get k = some v := by
    intro l
    induction l with
    | nil => intro m _ v h; simp at h
    | cons p l ih =>
      intro m hl v h
      simp only [List.map_cons, List.nodup_cons] at hl
      simp only [List.mem_cons] at h
      rcases h with rfl | h
      · exact (get_ofList_of_not_mem l _ k hl.1).trans (get_put_self _ _ _)
      · exact ih _ hl.2 v h
  constructor
  · intro h
    by_cases hm : k ∈ l.map Prod.fst
    · obtain ⟨⟨k', v'⟩, hv, rfl⟩ := List.mem_map.1 hm
      rw [key l ∅ hl v' hv] at h
      cases h; exact hv
    · rw [get_ofList_of_not_mem l ∅ k hm] at h; simp at h
  · exact key l ∅ hl v

end HashMap

/-- One iteration order: an enumeration without repetition of every finite
set of keys. -/
structure IterOrder (K : Type) where
  seq : Finset K → List K
  mem_seq : ∀ (s : Finset K) (k : K), k ∈ seq s ↔ k ∈ s
  nodup_seq : ∀ s : Finset K, (seq s).Nodup

/-- Some order. -/
noncomputable def IterOrder.toList {K : Type} : IterOrder K where
  seq := Finset.toList
  mem_seq := fun _ _ => Finset.mem_toList
  nodup_seq := Finset.nodup_toList

namespace HashMap

variable {K V : Type} [DecidableEq K]

/-- `for (k, v) in &map`. -/
def iter (o : IterOrder K) (m : HashMap K V) : List (K × V) :=
  (o.seq m.keys).filterMap fun k => (m.get k).map fun v => (k, v)

/-- `map.values()`. -/
def values (o : IterOrder K) (m : HashMap K V) : List V := (m.iter o).map Prod.snd

theorem mem_iter (o : IterOrder K) (m : HashMap K V) (k : K) (v : V) :
    (k, v) ∈ m.iter o ↔ m.get k = some v := by
  simp only [iter, List.mem_filterMap, Option.map_eq_some_iff, Prod.mk.injEq]
  constructor
  · rintro ⟨k', -, v', hv, rfl, rfl⟩; exact hv
  · intro h
    exact ⟨k, (o.mem_seq _ _).2 ((m.mem_keys k).2 ⟨v, h⟩), v, h, rfl, rfl⟩

theorem nodup_iter_keys (o : IterOrder K) (m : HashMap K V) :
    ((m.iter o).map Prod.fst).Nodup := by
  have hsub : ∀ l : List K,
      ((l.filterMap fun k => (m.get k).map fun v => (k, v)).map Prod.fst).Sublist l := by
    intro l
    induction l with
    | nil => exact .slnil
    | cons k l ih =>
      cases hk : m.get k with
      | none => simpa [List.filterMap_cons, hk] using ih.cons k
      | some v => simpa [List.filterMap_cons, hk] using ih.cons_cons k
  exact (hsub _).nodup (o.nodup_seq _)

/-- A map with one entry has one order. -/
theorem iter_single (o : IterOrder K) (k : K) (v : V) :
    ((∅ : HashMap K V).put k v).iter o = [(k, v)] := by
  have hmem : ∀ p, p ∈ ((∅ : HashMap K V).put k v).iter o ↔ p = (k, v) := by
    intro p
    obtain ⟨k', v'⟩ := p
    rw [mem_iter, get_put]
    by_cases h : k' = k
    · simp [h, eq_comm]
    · simp [h]
  have hn := nodup_iter_keys o ((∅ : HashMap K V).put k v)
  cases hl : ((∅ : HashMap K V).put k v).iter o with
  | nil =>
    have := (hmem (k, v)).2 rfl
    rw [hl] at this
    cases this
  | cons p l =>
    rw [hl] at hn hmem
    have hp : p = (k, v) := (hmem p).1 List.mem_cons_self
    cases l with
    | nil => rw [hp]
    | cons q l =>
      have hq : q = (k, v) := (hmem q).1 (List.mem_cons_of_mem _ List.mem_cons_self)
      simp [hp, hq] at hn

end HashMap

end VaultSigner.Core
