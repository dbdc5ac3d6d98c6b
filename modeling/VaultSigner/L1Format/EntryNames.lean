import VaultSigner.L1Format.Container
import VaultSigner.L1Format.Symbolic

/-!
# Names of archive entries (`Container::parse_entries`)

A name is for one blob of a container, but a UUID has several spellings: two
names may be for one blob, and the loop inserts both.

Results:
* `parseLoop_accepts`, `parseLoop_blob`: what the loop accepts and stores.
* `parseEntries_lossless_iff`: no entry is lost, in any order, exactly when no
  two names of an archive that reads are for one blob.
-/
namespace VaultSigner.L1
open VaultSigner.Core

/-- What an entry is for. -/
inductive Part where
  | master (c : Uuid)
  | key (k : Uuid)
deriving DecidableEq

def blobAt (mb kb : HashMap Uuid Bytes) : Part → Option Bytes
  | .master c => mb.get c
  | .key k => kb.get k

section
variable {C : Crates}

/-- The part a name is for; the header is none. -/
def namePart (C : Crates) (name : String) : Option Part :=
  match stripPrefix (masterDir ++ "/") name with
  | some rest => (stripSuffix ".blob" rest).bind fun s => (C.uuidParse s).toOption.map .master
  | none => (stripPrefix (keyBlobsDir ++ "/") name).bind fun rest =>
    (stripSuffix ".kblob" rest).bind fun s => (C.uuidParse s).toOption.map .key

def putPart (mb kb : HashMap Uuid Bytes) (b : Bytes) :
    Part → HashMap Uuid Bytes × HashMap Uuid Bytes
  | .master c => (mb.put c b, kb)
  | .key k => (mb, kb.put k b)

theorem blobAt_putPart (mb kb : HashMap Uuid Bytes) (b : Bytes) (p q : Part) :
    blobAt (putPart mb kb b p).1 (putPart mb kb b p).2 q = if q =
    p then some b else blobAt mb kb q := by
  cases p <;> cases q <;> simp [blobAt, putPart, HashMap.get_put]

theorem namePart_header : namePart C headerEntry = none := by
  simp [namePart, stripPrefix, headerEntry, masterDir, keyBlobsDir]

theorem parseEntry_ok {n : String} {b : Bytes} {mb kb : HashMap Uuid Bytes}
    {r : HashMap Uuid Bytes × HashMap Uuid Bytes} :
    parseEntry C n b mb kb = .ok r ↔
      n = headerEntry ∧ r = (mb, kb) ∨ ∃ p, namePart C n = some p ∧ r = putPart mb kb b p := by
  by_cases hn : n = headerEntry
  · subst hn
    rw [parseEntry_header, namePart_header]
    simp [eq_comm]
  · unfold parseEntry namePart
    rw [if_neg hn]
    cases stripPrefix (masterDir ++ "/") n with
    | some rest =>
      cases hs : stripSuffix ".blob" rest with
      | none => simp [hn, hs]
      | some s => cases hu : C.uuidParse s <;> simp [hn, hs, hu, Except.toOption, putPart, eq_comm]
    | none =>
      cases stripPrefix (keyBlobsDir ++ "/") n with
      | none => simp [hn]
      | some rest =>
        cases hs : stripSuffix ".kblob" rest with
        | none => simp [hn, hs]
        | some s =>
          cases hu : C.uuidParse s <;> simp [hn, hs, hu, Except.toOption, putPart, eq_comm]

/-! ## The loop -/

theorem parseLoop_cons {n : String} {b : Bytes} {l : List (String × Bytes)}
    {mb kb : HashMap Uuid Bytes} {r : HashMap Uuid Bytes × HashMap Uuid Bytes} :
    parseLoop C ((n, b) :: l) mb kb = .ok r ↔
      ∃ s, parseEntry C n b mb kb = .ok s ∧ parseLoop C l s.1 s.2 = .ok r := by
  rw [parseLoop, bind_ok]

/-- The loop accepts the header and names that are for a part. -/
theorem parseLoop_accepts {l : List (String × Bytes)} : ∀ {mb kb : HashMap Uuid Bytes},
    (∃ r, parseLoop C l mb kb = .ok r) ↔ ∀ e ∈ l, e.1 = headerEntry ∨ (namePart C e.1).isSome := by
  induction l with
  | nil => intro mb kb; simp [parseLoop]
  | cons e l ih =>
    intro mb kb
    obtain ⟨n, b⟩ := e
    rw [List.forall_mem_cons]
    constructor
    · rintro ⟨r, h⟩
      obtain ⟨s, hs, hr⟩ := parseLoop_cons.1 h
      refine ⟨?_, ih.1 ⟨r, hr⟩⟩
      obtain ⟨hn, -⟩ | ⟨p, hp, -⟩ := parseEntry_ok.1 hs
      · exact .inl hn
      · exact .inr (by simp [hp])
    · rintro ⟨hn, hl⟩
      obtain ⟨s, hs⟩ : ∃ s, parseEntry C n b mb kb = .ok s := by
        obtain hn | hn := hn
        · exact ⟨_, parseEntry_ok.2 (.inl ⟨hn, rfl⟩)⟩
        · obtain ⟨p, hp⟩ := Option.isSome_iff_exists.1 hn
          exact ⟨_, parseEntry_ok.2 (.inr ⟨p, hp, rfl⟩)⟩
      obtain ⟨r, hr⟩ := ih.2 hl
      exact ⟨r, parseLoop_cons.2 ⟨s, hs, hr⟩⟩

/-- What is stored for a part is an entry for it, or was there; and a part that
has an entry is stored. -/
theorem parseLoop_blob {p : Part} {l : List (String × Bytes)} :
    ∀ {mb kb mb' kb' : HashMap Uuid Bytes},
    parseLoop C l mb kb = .ok (mb', kb') →
    (∀ b, blobAt mb' kb' p = some b →
      (∃ n, (n, b) ∈ l ∧ namePart C n = some p) ∨ blobAt mb kb p = some b) ∧
    ((∃ n b, (n, b) ∈ l ∧ namePart C n = some p) ∨ (blobAt mb kb p).isSome →
      (blobAt mb' kb' p).isSome) := by
  induction l with
  | nil =>
    intro mb kb mb' kb' h
    cases h
    exact ⟨fun b hb => .inr hb, fun h => by simpa using h⟩
  | cons e l ih =>
    intro mb kb mb' kb' h
    obtain ⟨n, b⟩ := e
    obtain ⟨s, hs, hr⟩ := parseLoop_cons.1 h
    obtain ⟨hsome, hhas⟩ := ih hr
    obtain ⟨rfl, rfl⟩ | ⟨q, hq, rfl⟩ := parseEntry_ok.1 hs
    · refine ⟨fun b' hb => ?_, fun h => hhas ?_⟩
      · exact (hsome b' hb).imp_left fun ⟨m, hm, hp⟩ => ⟨m, List.mem_cons_of_mem _ hm, hp⟩
      · refine h.imp_left fun ⟨m, b', hm, hp⟩ => ⟨m, b', ?_, hp⟩
        obtain he | hm := List.mem_cons.1 hm
        · cases he
          rw [namePart_header] at hp
          cases hp
        · exact hm
    · rw [blobAt_putPart] at hsome hhas
      refine ⟨fun b' hb => ?_, fun h => hhas ?_⟩
      · obtain ⟨m, hm, hp⟩ | hold := hsome b' hb
        · exact .inl ⟨m, List.mem_cons_of_mem _ hm, hp⟩
        · split at hold
          · rename_i hpq
            subst hpq
            cases hold
            exact .inl ⟨n, List.mem_cons_self, hq⟩
          · exact .inr hold
      · by_cases hpq : p = q
        · exact .inr (by rw [if_pos hpq]; rfl)
        · rw [if_neg hpq]
          refine h.imp_left fun ⟨m, b', hm, hp⟩ => ⟨m, b', ?_, hp⟩
          obtain he | hm := List.mem_cons.1 hm
          · cases he
            exact absurd (Option.some.inj (hp.symm.trans hq)) hpq
          · exact hm

/-! ## The archive -/

/-- The header reads, with the version of this code. -/
def HeaderReads (C : Crates) (entries : HashMap String Bytes) (h : ContainerHeader) : Prop :=
  ∃ b doc, entries.get headerEntry = some b ∧ C.headerFromSlice b = .ok doc ∧
    ContainerHeaderOf.ofDoc C b doc = .ok h ∧ h.formatVersion = L1.formatVersion

/-- Every entry has its place. -/
structure Reads (C : Crates) (entries : HashMap String Bytes) : Prop where
  header : ∃ h, HeaderReads C entries h
  names : ∀ n ∈ entries.keys, n = headerEntry ∨ (namePart C n).isSome

/-- Two names of one directory denote one UUID. -/
def Doubled (C : Crates) (entries : HashMap String Bytes) : Prop :=
  ∃ n n' p, n ∈ entries.keys ∧ n' ∈ entries.keys ∧ n ≠ n' ∧ namePart C n = some p ∧
    namePart C n' = some p

theorem parseEntries_ok {o : Orders} {entries : HashMap String Bytes} {c : Container} :
    Container.parseEntries C o entries = .ok c ↔ HeaderReads C entries c.header ∧
      parseLoop C (entries.iter o.archive) ∅ ∅ = .ok (c.masterBlobs, c.keyBlobs) := by
  unfold Container.parseEntries HeaderReads
  cases entries.get headerEntry with
  | none => simp
  | some b =>
    simp only [bind_ok, mapErr_ok]
    constructor
    · rintro ⟨doc, hd, h, hh, hc⟩
      split at hc
      · cases hc
      · rename_i hv
        rw [bind_ok] at hc
        obtain ⟨r, hr, hc⟩ := hc
        cases hc
        exact ⟨⟨b, doc, rfl, hd, hh, Decidable.not_not.1 hv⟩, hr⟩
    · rintro ⟨⟨b', doc, hb, hd, hh, hv⟩, hr⟩
      cases hb
      refine ⟨doc, hd, c.header, hh, ?_⟩
      rw [if_neg (fun hne => hne hv), bind_ok]
      exact ⟨_, hr, rfl⟩

theorem forall_mem_iter {o : IterOrder String} {entries : HashMap String Bytes}
    {P : String → Prop} : (∀ e ∈ entries.iter o, P e.1) ↔ ∀ n ∈ entries.keys, P n := by
  constructor
  · intro h n hn
    obtain ⟨b, hb⟩ := (entries.mem_keys n).1 hn
    exact h (n, b) ((HashMap.mem_iter o entries n b).2 hb)
  · intro h e he
    exact h e.1 ((entries.mem_keys e.1).2 ⟨e.2, (HashMap.mem_iter o entries e.1 e.2).1 he⟩)

/-- What is accepted does not depend on the order. -/
theorem parseEntries_accepts {o : Orders} {entries : HashMap String Bytes} :
    (∃ c, Container.parseEntries C o entries = .ok c) ↔ Reads C entries := by
  have hloop : (∃ r, parseLoop C (entries.iter o.archive) ∅ ∅ = .ok r) ↔
      ∀ n ∈ entries.keys, n = headerEntry ∨ (namePart C n).isSome :=
    parseLoop_accepts.trans
      (forall_mem_iter (P := fun n => n = headerEntry ∨ (namePart C n).isSome))
  constructor
  · rintro ⟨c, hc⟩
    obtain ⟨hh, hr⟩ := parseEntries_ok.1 hc
    exact ⟨⟨c.header, hh⟩, hloop.1 ⟨_, hr⟩⟩
  · rintro ⟨⟨h, hh⟩, hn⟩
    obtain ⟨⟨mb, kb⟩, hr⟩ := hloop.2 hn
    exact ⟨⟨h, mb, kb⟩, parseEntries_ok.2 ⟨hh, hr⟩⟩

section
variable {o : Orders} {entries : HashMap String Bytes} {c : Container}

/-- The stored parts are the parts that have an entry. -/
theorem parseEntries_blob_isSome (hc : Container.parseEntries C o entries = .ok c) (p : Part) :
    (blobAt c.masterBlobs c.keyBlobs p).isSome ↔ ∃ n ∈ entries.keys, namePart C n = some p := by
  obtain ⟨hsome, hhas⟩ := parseLoop_blob (p := p) (parseEntries_ok.1 hc).2
  constructor
  · intro h
    obtain ⟨b, hb⟩ := Option.isSome_iff_exists.1 h
    obtain ⟨n, hn, hp⟩ | hold := hsome b hb
    · exact ⟨n, (entries.mem_keys n).2 ⟨b, (HashMap.mem_iter _ _ _ _).1 hn⟩, hp⟩
    · cases p <;> simp [blobAt] at hold
  · rintro ⟨n, hn, hp⟩
    obtain ⟨b, hb⟩ := (entries.mem_keys n).1 hn
    exact hhas (.inl ⟨n, b, (HashMap.mem_iter _ _ _ _).2 hb, hp⟩)

/-- An entry is kept unless another one is for its part. -/
theorem parseEntries_keeps (hd : ¬ Doubled C entries)
    (hc : Container.parseEntries C o entries = .ok c) {n : String} {b : Bytes} {p : Part}
    (hb : entries.get n = some b) (hp : namePart C n = some p) :
    blobAt c.masterBlobs c.keyBlobs p = some b := by
  have hn : n ∈ entries.keys := (entries.mem_keys n).2 ⟨b, hb⟩
  obtain ⟨b', hb'⟩ := Option.isSome_iff_exists.1 ((parseEntries_blob_isSome hc p).2 ⟨n, hn, hp⟩)
  obtain ⟨n', hn', hp'⟩ | hold := (parseLoop_blob (p := p) (parseEntries_ok.1 hc).2).1 b' hb'
  · have hget : entries.get n' = some b' := (HashMap.mem_iter _ _ _ _).1 hn'
    have hsame : n' = n := by
      by_contra hne
      exact hd ⟨n', n, p, (entries.mem_keys n').2 ⟨b', hget⟩, hn, hne, hp', hp⟩
    subst hsame
    rw [hb'.trans (hget.symm.trans hb)]
  · cases p <;> simp [blobAt] at hold

theorem HeaderReads.unique {h h' : ContainerHeader} (hh : HeaderReads C entries h)
    (hh' : HeaderReads C entries h') : h' = h := by
  obtain ⟨b, doc, hb, hd, ho, -⟩ := hh
  obtain ⟨b', doc', hb', hd', ho', -⟩ := hh'
  rw [hb] at hb'
  cases hb'
  rw [hd] at hd'
  cases hd'
  rw [ho] at ho'
  exact (Except.ok.inj ho').symm

/-- Without doubled names, every order gives the same container. -/
theorem parseEntries_orders (hd : ¬ Doubled C entries)
    (hc : Container.parseEntries C o entries = .ok c) (o' : Orders) :
    Container.parseEntries C o' entries = .ok c := by
  obtain ⟨c', hc'⟩ := parseEntries_accepts (o := o').2 (parseEntries_accepts.1 ⟨c, hc⟩)
  have hblob : ∀ p, blobAt c'.masterBlobs c'.keyBlobs p = blobAt c.masterBlobs c.keyBlobs p := by
    intro p
    by_cases hp : ∃ n ∈ entries.keys, namePart C n = some p
    · obtain ⟨n, hn, hp⟩ := hp
      obtain ⟨b, hb⟩ := (entries.mem_keys n).1 hn
      rw [parseEntries_keeps hd hc hb hp, parseEntries_keeps hd hc' hb hp]
    · have hnone := fun h => hp ((parseEntries_blob_isSome hc p).1 h)
      have hnone' := fun h => hp ((parseEntries_blob_isSome hc' p).1 h)
      rw [Option.not_isSome_iff_eq_none.1 hnone, Option.not_isSome_iff_eq_none.1 hnone']
  have hmb : c'.masterBlobs = c.masterBlobs := HashMap.ext_get fun u => hblob (.master u)
  have hkb : c'.keyBlobs = c.keyBlobs := HashMap.ext_get fun k => hblob (.key k)
  have hh : c'.header = c.header := (parseEntries_ok.1 hc).1.unique (parseEntries_ok.1 hc').1
  rw [hc']
  cases c
  cases c'
  simp_all

/-- The parts of a container, as a set. -/
def storedParts (c : Container) : Finset Part :=
  c.masterBlobs.keys.image Part.master ∪ c.keyBlobs.keys.image Part.key

theorem mem_storedParts (p : Part) :
    p ∈ storedParts c ↔ (blobAt c.masterBlobs c.keyBlobs p).isSome := by
  cases p <;> simp [storedParts, blobAt, HashMap.mem_keys, Option.isSome_iff_exists]

theorem card_storedParts :
    (storedParts c).card = c.masterBlobs.keys.card + c.keyBlobs.keys.card := by
  unfold storedParts
  rw [Finset.card_union_of_disjoint, Finset.card_image_of_injective _ fun _ _ h =>
    Part.master.inj h,
    Finset.card_image_of_injective _ fun _ _ h => Part.key.inj h]
  rw [Finset.disjoint_left]
  intro p hm hk
  obtain ⟨u, -, rfl⟩ := Finset.mem_image.1 hm
  obtain ⟨k, -, h⟩ := Finset.mem_image.1 hk
  cases h

/-- As many blobs as entries: no two entries are for one part. -/
theorem parseEntries_count (hc : Container.parseEntries C o entries = .ok c) :
    c.masterBlobs.keys.card + c.keyBlobs.keys.card + 1 = entries.keys.card ↔
    ¬ Doubled C entries := by
  have hreads := parseEntries_accepts.1 ⟨c, hc⟩
  have hheader : headerEntry ∈ entries.keys := by
    obtain ⟨h, b, -, hb, -⟩ := hreads.header
    exact (entries.mem_keys _).2 ⟨b, hb⟩
  -- the names, without the header, are mapped onto the stored parts
  have himage : (entries.keys.erase headerEntry).image (namePart C) =
      (storedParts c).image some := by
    ext q
    simp only [Finset.mem_image, Finset.mem_erase, mem_storedParts, parseEntries_blob_isSome hc]
    constructor
    · rintro ⟨n, ⟨hne, hn⟩, rfl⟩
      obtain ⟨p, hp⟩ := Option.isSome_iff_exists.1 ((hreads.names n hn).resolve_left hne)
      exact ⟨p, ⟨n, hn, hp⟩, hp.symm⟩
    · rintro ⟨p, ⟨n, hn, hp⟩, rfl⟩
      refine ⟨n, ⟨?_, hn⟩, hp⟩
      rintro rfl
      rw [namePart_header] at hp
      cases hp
  have hcard : ((entries.keys.erase headerEntry).image (namePart C)).card =
      c.masterBlobs.keys.card + c.keyBlobs.keys.card := by
    rw [himage, Finset.card_image_of_injective _ (Option.some_injective _), card_storedParts]
  have herase : (entries.keys.erase headerEntry).card + 1 = entries.keys.card :=
    Finset.card_erase_add_one hheader
  have hinj : ((entries.keys.erase headerEntry).image (namePart C)).card =
      (entries.keys.erase headerEntry).card ↔
      ¬ Doubled C entries := by
    rw [Finset.card_image_iff]
    constructor
    · rintro h ⟨n, n', p, hn, hn', hne, hp, hp'⟩
      refine hne (h ?_ ?_ (hp.trans hp'.symm)) <;> rw [Finset.coe_erase]
        <;> refine ⟨by assumption, ?_⟩ <;>
        rintro rfl <;> rw [namePart_header] at * <;> contradiction
    · intro h n hn n' hn' he
      simp only [Finset.coe_erase, Set.mem_sdiff, Finset.mem_coe, Set.mem_singleton_iff] at hn hn'
      by_contra hne
      obtain ⟨p, hp⟩ := Option.isSome_iff_exists.1 ((hreads.names n hn.1).resolve_left hn.2)
      exact h ⟨n, n', p, hn.1, hn'.1, hne, hp, he ▸ hp⟩
  rw [← hinj, hcard]
  omega

end

/-! ## Two names for one part -/

/-- An order in which `n` comes last. -/
noncomputable def orderLast (n : String) : IterOrder String where
  seq := fun s => if n ∈ s then (s.erase n).toList ++ [n] else s.toList
  mem_seq := by
    intro s m
    by_cases hn : n ∈ s
    · by_cases hm : m = n <;> simp [hn, hm]
    · simp [hn]
  nodup_seq := by
    intro s
    by_cases hn : n ∈ s
    · rw [if_pos hn]
      refine List.nodup_append.2 ⟨Finset.nodup_toList _, List.nodup_singleton n, ?_⟩
      intro m hm m' hm'
      rw [List.mem_singleton.1 hm']
      exact (Finset.mem_erase.1 (Finset.mem_toList.1 hm)).1
    · rw [if_neg hn]
      exact Finset.nodup_toList s

theorem iter_orderLast {entries : HashMap String Bytes} {n : String} {b : Bytes}
    (hb : entries.get n = some b) : ∃ l, entries.iter (orderLast n) = l ++ [(n, b)] := by
  have hseq : (orderLast n).seq entries.keys = (entries.keys.erase n).toList ++ [n] :=
    if_pos ((entries.mem_keys n).2 ⟨b, hb⟩)
  unfold HashMap.iter
  rw [hseq, List.filterMap_append]
  exact ⟨_, by rw [List.filterMap_cons, hb]; rfl⟩

/-- The last entry of a part is the one that is stored. -/
theorem parseLoop_last {n : String} {b : Bytes} {p : Part} (hp : namePart C n = some p)
    {l : List (String × Bytes)} : ∀ {mb kb mb' kb' : HashMap Uuid Bytes},
    parseLoop C (l ++ [(n, b)]) mb kb = .ok (mb', kb') → blobAt mb' kb' p = some b := by
  induction l with
  | nil =>
    intro mb kb mb' kb' h
    obtain ⟨s, hs, hr⟩ := parseLoop_cons.1 h
    cases hr
    obtain ⟨rfl, -⟩ | ⟨q, hq, hput⟩ := parseEntry_ok.1 hs
    · rw [namePart_header] at hp
      cases hp
    · have hblob := blobAt_putPart mb kb b q p
      rw [← hput, if_pos (Option.some.inj (hp.symm.trans hq))] at hblob
      exact hblob
  | cons e l ih =>
    intro mb kb mb' kb' h
    obtain ⟨s, -, hr⟩ := parseLoop_cons.1 h
    exact ih hr

/-- Whatever an entry holds, some order stores it. -/
theorem parseEntries_stores {entries : HashMap String Bytes} (hreads : Reads C entries) {n : String}
    {b : Bytes} {p : Part} (hb : entries.get n = some b) (hp : namePart C n = some p) :
    ∃ o c, Container.parseEntries C o entries = .ok c ∧ blobAt c.masterBlobs c.keyBlobs p =
    some b := by
  obtain ⟨c, hc⟩ := parseEntries_accepts
    (o := ⟨.toList, .toList, .toList, orderLast n, .toList⟩).2 hreads
  obtain ⟨l, hl⟩ := iter_orderLast hb
  have hloop := (parseEntries_ok.1 hc).2
  rw [hl] at hloop
  exact ⟨_, c, hc, parseLoop_last hp hloop⟩

/-- **Nothing is lost and the order does not matter**, and two names for one
part are refused, exactly when no archive that reads otherwise has two. -/
theorem parseEntries_lossless_iff {entries : HashMap String Bytes} :
    ((∀ o c, Container.parseEntries C o entries = .ok c →
        c.masterBlobs.keys.card + c.keyBlobs.keys.card + 1 = entries.keys.card ∧
        (∀ n b, n ≠ headerEntry → entries.get n = some b →
          ∃ p, namePart C n = some p ∧ blobAt c.masterBlobs c.keyBlobs p = some b) ∧
        ∀ o', Container.parseEntries C o' entries = .ok c) ∧
      (Doubled C entries → ∀ o, ∃ x, Container.parseEntries C o entries = .error x)) ↔
    ¬ (Reads C entries ∧ Doubled C entries) := by
  constructor
  · rintro ⟨-, hrefused⟩ ⟨hreads, hd⟩
    obtain ⟨o⟩ : Nonempty Orders := ⟨⟨.toList, .toList, .toList, .toList, .toList⟩⟩
    obtain ⟨c, hc⟩ := parseEntries_accepts.2 hreads
    obtain ⟨x, hx⟩ := hrefused hd o
    rw [hc] at hx
    cases hx
  · intro h
    refine ⟨fun o c hc => ?_, fun hd o => ?_⟩
    · have hreads := parseEntries_accepts.1 ⟨c, hc⟩
      have hd : ¬ Doubled C entries := fun hd => h ⟨hreads, hd⟩
      refine ⟨(parseEntries_count hc).2 hd, fun n b hn hb => ?_, fun o' => ?_⟩
      · obtain ⟨p, hp⟩ := Option.isSome_iff_exists.1
          ((hreads.names n ((entries.mem_keys n).2 ⟨b, hb⟩)).resolve_left hn)
        exact ⟨p, hp, parseEntries_keeps hd hc hb hp⟩
      · exact parseEntries_orders hd hc o'
    · cases hc : Container.parseEntries C o entries with
      | error x => exact ⟨x, rfl⟩
      | ok c => exact absurd ⟨parseEntries_accepts.1 ⟨c, hc⟩, hd⟩ h

/-- A header and two spellings of one compartment id. -/
def doubledEntries (header : Bytes) : HashMap String Bytes := HashMap.ofList [(headerEntry, header),
  ("master/01010101-0101-0101-0101-010101010101.blob", [1]),
  ("master/01010101010101010101010101010101.blob", [2])] ∅

/-- The file is opened, with the one blob or the other. -/
theorem doubled_names_open : ∃ header o o' c c',
    Container.parseEntries Crates.symbolic o (doubledEntries header) = .ok c ∧
    Container.parseEntries Crates.symbolic o' (doubledEntries header) = .ok c' ∧
    c.masterBlobs.get (Uuid.rep 1) = some [1] ∧ c'.masterBlobs.get (Uuid.rep 1) = some [2] ∧
    Doubled Crates.symbolic (doubledEntries header) ∧
    c.masterBlobs.keys.card + c.keyBlobs.keys.card + 1 ≠ (doubledEntries header).keys.card := by
  have hp : namePart Crates.symbolic "master/01010101-0101-0101-0101-010101010101.blob" =
      some (.master (Uuid.rep 1)) := rfl
  have hp' : namePart Crates.symbolic "master/01010101010101010101010101010101.blob" =
      some (.master (Uuid.rep 1)) := rfl
  have hget : ∀ n b, (doubledEntries (code ContainerHeaderOf.new.toDoc)).get n = some b ↔
      (n, b) ∈ [(headerEntry, code ContainerHeaderOf.new.toDoc),
        ("master/01010101-0101-0101-0101-010101010101.blob", [1]),
        ("master/01010101010101010101010101010101.blob", [2])] :=
    fun n b => HashMap.get_ofList (by decide) n b
  have hone := (hget "master/01010101-0101-0101-0101-010101010101.blob" [1]).2 (by simp)
  have htwo := (hget "master/01010101010101010101010101010101.blob" [2]).2 (by simp)
  have hd : Doubled Crates.symbolic (doubledEntries (code ContainerHeaderOf.new.toDoc)) :=
    ⟨_, _, _, (HashMap.mem_keys _ _).2 ⟨_, hone⟩, (HashMap.mem_keys _ _).2 ⟨_, htwo⟩,
      by decide, hp, hp'⟩
  have hreads : Reads Crates.symbolic (doubledEntries (code ContainerHeaderOf.new.toDoc)) := by
    refine ⟨⟨ContainerHeaderOf.new, _, _, (hget headerEntry _).2 (by simp), decodeJson_code _,
      ContainerHeaderOf.ofDoc_toDoc _ _ _, rfl⟩, fun n hn => ?_⟩
    obtain ⟨b, hb⟩ := (HashMap.mem_keys _ n).1 hn
    have hmem := (hget n b).1 hb
    simp only [List.mem_cons, Prod.mk.injEq, List.not_mem_nil, or_false] at hmem
    obtain ⟨rfl, -⟩ | ⟨rfl, -⟩ | ⟨rfl, -⟩ := hmem
    · exact .inl rfl
    · exact .inr (by rw [hp]; rfl)
    · exact .inr (by rw [hp']; rfl)
  obtain ⟨o, c, hc, hblob⟩ := parseEntries_stores hreads hone hp
  obtain ⟨o', c', hc', hblob'⟩ := parseEntries_stores hreads htwo hp'
  exact ⟨_, o, o', c, c', hc, hc', hblob, hblob', hd, fun h => (parseEntries_count hc).1 h hd⟩

end

end VaultSigner.L1
