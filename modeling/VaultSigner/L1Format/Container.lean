import VaultSigner.L1Format.Blob

/-!
# The container and its archive (`container.rs`)

The file is an archive of named entries: the header, one entry for each
compartment's master blob and one for each key blob. Rust walks three hash
maps on the way out and in; `Orders` says in which orders, and a statement
about every `Orders` is one about every such walk.

Results:
* `Container.buildEntries_nodup`: the entry names are pairwise distinct.
* `Container.parseEntries_buildEntries`: parsing the entries gives the
  container back, whatever the orders of writing and reading.
* `Container.fromBytes_toArchive`: so does reading the written file.
-/
namespace VaultSigner.L1
open VaultSigner.Core

def formatVersion : UInt32 := 1
def headerEntry : String := "header.json"
def masterDir : String := "master"
def keyBlobsDir : String := "key_blobs"

/-- The orders in which the hash maps of one call are walked. -/
structure Orders where
  masterBlobs : IterOrder Uuid
  keyBlobs : IterOrder Uuid
  unlocked : IterOrder Uuid
  archive : IterOrder String
  remap : IterOrder Uuid

/-- mirrors vaultcore/src/container.rs:59-65 (`ContainerHeader::new`) -/
def ContainerHeaderOf.new : ContainerHeader := ⟨L1.formatVersion, L1.aeadAlg, []⟩

/-- mirrors vaultcore/src/container.rs:89-95 (`Container::new`) -/
def Container.new : Container := ⟨ContainerHeaderOf.new, ∅, ∅⟩

def stripPrefix (pre s : String) : Option String :=
  if pre.toList.isPrefixOf s.toList then some (String.ofList (s.toList.drop pre.toList.length))
  else none

def stripSuffix (suf s : String) : Option String :=
  if suf.toList.isSuffixOf s.toList then
    some (String.ofList (s.toList.take (s.toList.length - suf.toList.length)))
  else none

theorem stripPrefix_append (pre s : String) : stripPrefix pre (pre ++ s) = some s := by
  simp [stripPrefix]

theorem stripSuffix_append (suf s : String) : stripSuffix suf (s ++ suf) = some s := by
  simp [stripSuffix]

section
variable (C : Crates)

/-- mirrors vaultcore/src/container.rs:97-99 -/
def masterEntryName (c : Uuid) : String := masterDir ++ "/" ++ (C.uuidToString c ++ ".blob")

/-- mirrors vaultcore/src/container.rs:101-103 -/
def keyBlobEntryName (k : Uuid) : String := keyBlobsDir ++ "/" ++ (C.uuidToString k ++ ".kblob")

/-- The header as `serde_json` sees it, salts in hex. -/
def ContainerHeaderOf.toDoc (h : ContainerHeader) : ContainerHeaderOf String :=
  ⟨h.formatVersion, h.aeadAlg,
    h.compartments.map fun c => ⟨c.compartmentId, c.label, c.kdfParamsMaster.toDoc⟩⟩

def compartmentsOfDoc (src : Bytes) :
    List (CompartmentHeaderOf String) → VaultResult (List CompartmentHeader)
  | [] => .ok []
  | c :: cs => do
    let p ← KdfParamsOf.ofDoc C src c.kdfParamsMaster
    let rest ← compartmentsOfDoc src cs
    return ⟨c.compartmentId, c.label, p⟩ :: rest

def ContainerHeaderOf.ofDoc (src : Bytes) (d : ContainerHeaderOf String) :
    VaultResult ContainerHeader := do
  let cs ← compartmentsOfDoc C src d.compartments
  return ⟨d.formatVersion, d.aeadAlg, cs⟩

theorem ContainerHeaderOf.ofDoc_toDoc (src : Bytes) (h : ContainerHeader) :
    ContainerHeaderOf.ofDoc C src h.toDoc = .ok h := by
  have hcs : ∀ cs : List CompartmentHeader, compartmentsOfDoc C src
      (cs.map fun c => ⟨c.compartmentId, c.label, c.kdfParamsMaster.toDoc⟩) = .ok cs := by
    intro cs
    induction cs with
    | nil => rfl
    | cons c cs ih =>
      simp only [List.map_cons, compartmentsOfDoc, KdfParamsOf.ofDoc_toDoc, ih]
      rfl
  unfold ContainerHeaderOf.ofDoc ContainerHeaderOf.toDoc
  simp only [hcs]
  rfl

/-- mirrors vaultcore/src/container.rs:106-116 (`build_entries`) -/
def Container.buildEntries (o : Orders) (c : Container) : VaultResult (List (String × Bytes)) := do
  let header ← mapErr .serde (C.headerToVecPretty c.header.toDoc)
  return (headerEntry, header) ::
    ((c.masterBlobs.iter o.masterBlobs).map (fun p => (masterEntryName C p.1, p.2)) ++
      (c.keyBlobs.iter o.keyBlobs).map (fun p => (keyBlobEntryName C p.1, p.2)))

/-- The body of the loop of `parse_entries`. -/
def parseEntry (name : String) (bytes : Bytes) (mb kb : HashMap Uuid Bytes) :
    VaultResult (HashMap Uuid Bytes × HashMap Uuid Bytes) :=
  if name = headerEntry then .ok (mb, kb)
  else match stripPrefix (masterDir ++ "/") name with
  | some rest =>
    match stripSuffix ".blob" rest with
    | none => .error (.invalidHeader s!"malformed master blob entry name: {name}")
    | some idStr =>
      match C.uuidParse idStr with
      | .error e => .error (.invalidHeader s!"bad compartment id in {name}: {e}")
      | .ok c => .ok (mb.put c bytes, kb)
  | none =>
    match stripPrefix (keyBlobsDir ++ "/") name with
    | some rest =>
      match stripSuffix ".kblob" rest with
      | none => .error (.invalidHeader s!"malformed key blob entry name: {name}")
      | some idStr =>
        match C.uuidParse idStr with
        | .error e => .error (.invalidHeader s!"bad key id in {name}: {e}")
        | .ok k => .ok (mb, kb.put k bytes)
    | none => .error (.invalidHeader s!"unexpected archive entry: {name}")

def parseLoop : List (String × Bytes) → HashMap Uuid Bytes → HashMap Uuid Bytes →
    VaultResult (HashMap Uuid Bytes × HashMap Uuid Bytes)
  | [], mb, kb => .ok (mb, kb)
  | (name, bytes) :: rest, mb, kb => do
    let (mb, kb) ← parseEntry C name bytes mb kb
    parseLoop rest mb kb

/-- mirrors vaultcore/src/container.rs:119-161 (`parse_entries`) -/
def Container.parseEntries (o : Orders) (entries : HashMap String Bytes) : VaultResult Container :=
  match entries.get headerEntry with
  | none => .error (.invalidHeader "missing header.json")
  | some headerBytes => do
    let doc ← mapErr .serde (C.headerFromSlice headerBytes)
    let header ← ContainerHeaderOf.ofDoc C headerBytes doc
    if header.formatVersion ≠ L1.formatVersion then
      .error (.invalidHeader
        s!"unsupported format_version {header.formatVersion} (expected {L1.formatVersion})")
    else
      let (mb, kb) ← parseLoop C (entries.iter o.archive) ∅ ∅
      return ⟨header, mb, kb⟩

/-- The bytes `write_atomic` puts in place (container.rs:168-171, 192-213). -/
def Container.toArchive (o : Orders) (c : Container) : VaultResult Bytes := do
  let entries ← c.buildEntries C o
  C.zipWrite entries

/-- mirrors vaultcore/src/container.rs:181-184 (`Container::from_bytes`), and
`Container::open` on the content of the file -/
def Container.fromBytes (o : Orders) (bytes : Bytes) : VaultResult Container := do
  let entries ← C.zipRead bytes
  Container.parseEntries C o (HashMap.ofList entries ∅)

/-! ## Entry names -/

variable {C}

theorem masterEntryName_inj (h : C.CodecLaws) {c d : Uuid} :
    masterEntryName C c = masterEntryName C d ↔ c = d := by
  simp [masterEntryName, h.uuidToString_inj]

theorem keyBlobEntryName_inj (h : C.CodecLaws) {c d : Uuid} :
    keyBlobEntryName C c = keyBlobEntryName C d ↔ c = d := by
  simp [keyBlobEntryName, h.uuidToString_inj]

/-- Entry names of the three kinds differ in their first characters. -/
theorem entryName_ne (c k : Uuid) : masterEntryName C c ≠ keyBlobEntryName C k ∧
    masterEntryName C c ≠ headerEntry ∧ keyBlobEntryName C k ≠ headerEntry := by
  refine ⟨?_, ?_, ?_⟩ <;> intro he <;> have := congrArg String.toList he <;>
    simp [masterEntryName, keyBlobEntryName, headerEntry, masterDir, keyBlobsDir] at this

theorem parseEntry_header (b : Bytes) (mb kb : HashMap Uuid Bytes) :
    parseEntry C headerEntry b mb kb = .ok (mb, kb) := by
  unfold parseEntry; rw [if_pos rfl]

theorem parseEntry_master (h : C.CodecLaws) (c : Uuid) (b : Bytes) (mb kb : HashMap Uuid Bytes) :
    parseEntry C (masterEntryName C c) b mb kb = .ok (mb.put c b, kb) := by
  unfold parseEntry
  rw [if_neg (entryName_ne c c).2.1, masterEntryName, stripPrefix_append]
  simp only [stripSuffix_append, h.uuid]

theorem parseEntry_keyBlob (h : C.CodecLaws) (k : Uuid) (b : Bytes) (mb kb : HashMap Uuid Bytes) :
    parseEntry C (keyBlobEntryName C k) b mb kb = .ok (mb, kb.put k b) := by
  have hm : stripPrefix (masterDir ++ "/") (keyBlobEntryName C k) = none := by
    simp [stripPrefix, keyBlobEntryName, masterDir, keyBlobsDir]
  unfold parseEntry
  rw [if_neg (entryName_ne k k).2.2, hm, keyBlobEntryName, stripPrefix_append]
  simp only [stripSuffix_append, h.uuid]

/-! ## The round trip -/

/-- A name the container writes. -/
def IsEntryName (C : Crates) (n : String) : Prop :=
  n = headerEntry ∨ (∃ c, n = masterEntryName C c) ∨ ∃ k, n = keyBlobEntryName C k

theorem parseLoop_entries (h : C.CodecLaws) :
    ∀ (l : List (String × Bytes)) (mb kb : HashMap Uuid Bytes),
    (l.map Prod.fst).Nodup → (∀ p ∈ l, IsEntryName C p.1) →
    ∃ mb' kb', parseLoop C l mb kb = .ok (mb', kb') ∧
      (∀ c, mb'.get c = match l.lookup (masterEntryName C c) with
        | some b => some b
        | none => mb.get c) ∧
      ∀ k, kb'.get k = match l.lookup (keyBlobEntryName C k) with
        | some b => some b
        | none => kb.get k := by
  intro l
  induction l with
  | nil => intro mb kb _ _; exact ⟨mb, kb, rfl, fun _ => rfl, fun _ => rfl⟩
  | cons p l ih =>
    intro mb kb hn hl
    obtain ⟨n, b⟩ := p
    simp only [List.map_cons, List.nodup_cons] at hn
    have hfresh : l.lookup n = none := by
      rw [List.lookup_eq_none_iff]
      intro q hq
      simp only [bne_iff_ne, ne_eq]
      intro he
      exact hn.1 (he ▸ List.mem_map_of_mem (f := Prod.fst) hq)
    have hl' : ∀ p ∈ l, IsEntryName C p.1 := fun p hp => hl p (List.mem_cons_of_mem _ hp)
    rcases hl (n, b) List.mem_cons_self with he | ⟨c0, he⟩ | ⟨k0, he⟩
    · simp only at he
      subst he
      obtain ⟨mb', kb', h1, h2, h3⟩ := ih mb kb hn.2 hl'
      refine ⟨mb', kb', ?_, fun c => ?_, fun k => ?_⟩
      · rw [parseLoop, parseEntry_header]; exact h1
      · rw [h2, List.lookup_cons, (beq_eq_false_iff_ne.2 (entryName_ne c c).2.1)]
      · rw [h3, List.lookup_cons, (beq_eq_false_iff_ne.2 (entryName_ne k k).2.2)]
    · simp only at he
      subst he
      obtain ⟨mb', kb', h1, h2, h3⟩ := ih (mb.put c0 b) kb hn.2 hl'
      refine ⟨mb', kb', ?_, fun c => ?_, fun k => ?_⟩
      · rw [parseLoop, parseEntry_master h]; exact h1
      · rw [h2, List.lookup_cons]
        by_cases hc : c = c0
        · subst hc; simp [hfresh]
        · rw [beq_eq_false_iff_ne.2 (fun he => hc ((masterEntryName_inj h).1 he)),
            HashMap.get_put_ne _ _ hc]
      · rw [h3, List.lookup_cons, beq_eq_false_iff_ne.2 (entryName_ne c0 k).1.symm]
    · simp only at he
      subst he
      obtain ⟨mb', kb', h1, h2, h3⟩ := ih mb (kb.put k0 b) hn.2 hl'
      refine ⟨mb', kb', ?_, fun c => ?_, fun k => ?_⟩
      · rw [parseLoop, parseEntry_keyBlob h]; exact h1
      · rw [h2, List.lookup_cons, beq_eq_false_iff_ne.2 (entryName_ne c k0).1]
      · rw [h3, List.lookup_cons]
        by_cases hk : k = k0
        · subst hk; simp [hfresh]
        · rw [beq_eq_false_iff_ne.2 (fun he => hk ((keyBlobEntryName_inj h).1 he)),
            HashMap.get_put_ne _ _ hk]

theorem lookup_eq_some_iff {l : List (String × Bytes)} (hn : (l.map Prod.fst).Nodup) (n : String)
    (b : Bytes) : l.lookup n = some b ↔ (n, b) ∈ l := by
  induction l with
  | nil => simp
  | cons p l ih =>
    obtain ⟨m, x⟩ := p
    simp only [List.map_cons, List.nodup_cons] at hn
    rw [List.lookup_cons]
    by_cases he : n = m
    · subst he
      simp only [BEq.rfl, Option.some.injEq, List.mem_cons, Prod.mk.injEq, true_and]
      constructor
      · rintro rfl; exact .inl rfl
      · rintro (rfl | hm)
        · rfl
        · exact absurd (List.mem_map_of_mem (f := Prod.fst) hm) hn.1
    · rw [beq_eq_false_iff_ne.2 he]
      simp [ih hn.2, he]

theorem Container.buildEntries_ok {o : Orders} {c : Container} {es : List (String × Bytes)}
    (h : c.buildEntries C o = .ok es) : ∃ hb, C.headerToVecPretty c.header.toDoc = .ok hb ∧
      es = (headerEntry, hb) ::
        ((c.masterBlobs.iter o.masterBlobs).map (fun p => (masterEntryName C p.1, p.2)) ++
          (c.keyBlobs.iter o.keyBlobs).map (fun p => (keyBlobEntryName C p.1, p.2))) := by
  unfold Container.buildEntries at h
  simp only [bind_ok, mapErr_ok, pure, Except.pure, Except.ok.injEq] at h
  obtain ⟨hb, h1, h2⟩ := h
  exact ⟨hb, h1, h2.symm⟩

theorem Container.buildEntries_nodup (hC : C.CodecLaws) {o : Orders} {c : Container}
    {es : List (String × Bytes)} (h : c.buildEntries C o = .ok es) : (es.map Prod.fst).Nodup := by
  obtain ⟨hb, -, rfl⟩ := c.buildEntries_ok h
  have hmap : ∀ (l : List (Uuid × Bytes)) (f : Uuid → String),
      (l.map fun p => (f p.1, p.2)).map Prod.fst = (l.map Prod.fst).map f := by
    intro l f; simp [List.map_map, Function.comp_def]
  simp only [List.map_cons, List.map_append, hmap, List.nodup_cons, List.nodup_append]
  refine ⟨?_, ?_, ?_, ?_⟩
  · simp only [List.mem_append, List.mem_map, not_or, not_exists, not_and]
    exact ⟨fun x _ he => (entryName_ne x x).2.1 he, fun x _ he => (entryName_ne x x).2.2 he⟩
  · exact (HashMap.nodup_iter_keys _ _).map fun _ _ he => (masterEntryName_inj hC).1 he
  · exact (HashMap.nodup_iter_keys _ _).map fun _ _ he => (keyBlobEntryName_inj hC).1 he
  · intro a ha b hb he
    obtain ⟨c', -, rfl⟩ := List.mem_map.1 ha
    obtain ⟨k', -, rfl⟩ := List.mem_map.1 hb
    exact (entryName_ne c' k').1 he

theorem Container.parseEntries_buildEntries (hC : C.CodecLaws) {o : Orders} {c : Container}
    {es : List (String × Bytes)} (hv : c.header.formatVersion = L1.formatVersion)
    (h : c.buildEntries C o = .ok es) (o' : Orders) :
    Container.parseEntries C o' (HashMap.ofList es ∅) = .ok c := by
  have hn := c.buildEntries_nodup hC h
  obtain ⟨hb, hh, hes⟩ := c.buildEntries_ok h
  have hget : ∀ n b, (HashMap.ofList es ∅).get n = some b ↔ (n, b) ∈ es :=
    fun n b => HashMap.get_ofList hn n b
  have hmaster : ∀ k b, (masterEntryName C k, b) ∈ es ↔ c.masterBlobs.get k = some b := by
    intro k b
    rw [hes, ← HashMap.mem_iter o.masterBlobs]
    simp only [List.mem_cons, List.mem_append, List.mem_map, Prod.mk.injEq, Prod.exists,
      (entryName_ne k k).2.1, false_and, false_or, masterEntryName_inj hC]
    constructor
    · rintro (⟨k', b', hm, rfl, rfl⟩ | ⟨k', b', -, he, -⟩)
      · exact hm
      · exact absurd he.symm (entryName_ne k k').1
    · intro hm; exact .inl ⟨k, b, hm, rfl, rfl⟩
  have hkey : ∀ k b, (keyBlobEntryName C k, b) ∈ es ↔ c.keyBlobs.get k = some b := by
    intro k b
    rw [hes, ← HashMap.mem_iter o.keyBlobs]
    simp only [List.mem_cons, List.mem_append, List.mem_map, Prod.mk.injEq, Prod.exists,
      (entryName_ne k k).2.2, false_and, false_or, keyBlobEntryName_inj hC]
    constructor
    · rintro (⟨k', b', -, he, -⟩ | ⟨k', b', hm, rfl, rfl⟩)
      · exact absurd he (entryName_ne k' k).1
      · exact hm
    · intro hm; exact .inr ⟨k, b, hm, rfl, rfl⟩
  have hln := HashMap.nodup_iter_keys o'.archive (HashMap.ofList es ∅)
  have hlook : ∀ n b, ((HashMap.ofList es ∅).iter o'.archive).lookup n = some b ↔ (n, b) ∈ es :=
    fun n b => (lookup_eq_some_iff hln n b).trans ((HashMap.mem_iter _ _ _ _).trans (hget n b))
  have hnames : ∀ p ∈ (HashMap.ofList es ∅).iter o'.archive, IsEntryName C p.1 := by
    intro p hp
    have hm := (hget _ _).1 ((HashMap.mem_iter _ _ _ _).1 hp)
    rw [hes] at hm
    simp only [List.mem_cons, List.mem_append, List.mem_map] at hm
    rcases hm with he | ⟨q, -, he⟩ | ⟨q, -, he⟩
    · exact .inl (congrArg Prod.fst he)
    · exact .inr (.inl ⟨q.1, (congrArg Prod.fst he).symm⟩)
    · exact .inr (.inr ⟨q.1, (congrArg Prod.fst he).symm⟩)
  obtain ⟨mb, kb, h1, h2, h3⟩ := parseLoop_entries hC _ ∅ ∅ hln hnames
  have hopt : ∀ {l : List (String × Bytes)} {n : String} {m : Option Bytes},
      (∀ b, l.lookup n = some b ↔ m = some b) →
      (match l.lookup n with | some b => some b | none => none) = m := by
    intro l n m hm
    cases hl : l.lookup n with
    | some b => exact ((hm b).1 hl).symm
    | none =>
      cases m with
      | none => rfl
      | some b => rw [(hm b).2 rfl] at hl; cases hl
  have hmb : mb = c.masterBlobs := HashMap.ext_get fun k => by
    rw [h2, HashMap.get_empty]
    exact hopt fun b => (hlook _ b).trans (hmaster k b)
  have hkb : kb = c.keyBlobs := HashMap.ext_get fun k => by
    rw [h3, HashMap.get_empty]
    exact hopt fun b => (hlook _ b).trans (hkey k b)
  have hhead : (HashMap.ofList es ∅).get headerEntry = some hb :=
    (hget _ _).2 (by rw [hes]; exact List.mem_cons_self)
  subst hmb hkb
  unfold Container.parseEntries
  rw [hhead]
  simp only [bind_ok, mapErr_ok]
  refine ⟨_, hC.header _ _ hh, _, ContainerHeaderOf.ofDoc_toDoc _ _ _, ?_⟩
  rw [if_neg (fun hne => hne hv), bind_ok]
  exact ⟨_, h1, rfl⟩

theorem Container.fromBytes_toArchive (hC : C.CodecLaws) {o : Orders} {c : Container} {b : Bytes}
    (hv : c.header.formatVersion = L1.formatVersion) (h : c.toArchive C o = .ok b) (o' : Orders) :
    Container.fromBytes C o' b = .ok c := by
  unfold Container.toArchive at h
  rw [bind_ok] at h
  obtain ⟨es, he, hz⟩ := h
  unfold Container.fromBytes
  rw [hC.zip _ _ (c.buildEntries_nodup hC he) hz]
  exact c.parseEntries_buildEntries hC hv he o'

end

end VaultSigner.L1
