import VaultSigner.L5Runs.Counting
import VaultSigner.L5Runs.Durable
import VaultSigner.L5Runs.Validated

/-!
# One key at a time (`create_key`, `discard_key`, `change_key_passphrase`)

Five operations are about one key: creating, registering, discarding and
re-sealing it, and asserting with it. Each edits one manifest and at most one
blob in memory, encrypts that manifest again, and then writes the whole
container. So the file follows the memory, with whatever else the two did not
have in common.

Results:
* `Change.keyed`: in memory each edit is one operation on one key.
* `fileTouched_iff`: when the file changes in the same way.
* `Call.keyed`: one successful call.
* `single_key_iff`: for every successful call of every run.
-/
namespace VaultSigner.L5
open VaultSigner.Core VaultSigner.L1 VaultSigner.L3 VaultSigner.L4
open VaultSigner.L2

/-! ## What an operation does to a key -/

/-- What a reader finds: the container, and the manifests it can read. -/
structure View where
  container : Container
  manifest : Uuid → Manifest → Prop

/-- In memory, the manifests that are unlocked. -/
def inUse (s : VaultState) : View :=
  ⟨s.container, fun c m => ∃ u, s.unlocked.get c = some u ∧ u.manifest = m⟩

/-- The file read back, with the manifests its master blobs open to. -/
def onFile (C : Crates) (k : Container) : View :=
  ⟨k, fun c m => ∃ b key p, k.masterBlobs.get c = some b ∧ decryptWithKey C c b key = .ok p ∧
    p.manifest = m⟩

inductive KeyOp where
  | append (x : KeyEntry) (b : Bytes)
  | discard (k : Uuid)
  | reseal (k : Uuid) (b : Bytes)
  | count (k : Uuid) (n : UInt32) (now : OffsetDateTime)

namespace KeyOp

def keys (C : Crates) : KeyOp → List KeyEntry → List KeyEntry
  | append x _, l => l ++ [x]
  | discard k, l => l.filter fun x => x.keyId ≠ k
  | reseal k b, l =>
    l.map fun x => if x.keyId = k then { x with blobSha256 := blobSha256Hex C b } else x
  | count k n now, l => l.map fun x => if x.keyId = k then KeyEntry.asserted n now x else x

def blobs : KeyOp → HashMap Uuid Bytes → HashMap Uuid Bytes
  | append x b, m => m.put x.keyId b
  | discard k, m => m.del k
  | reseal k b, m => m.put k b
  | count _ _ _, m => m

/-- The entries without what the operation replaces. -/
def rest : KeyOp → List KeyEntry → List KeyEntry
  | append _ _, l => l
  | discard k, l => l.filter fun x => x.keyId ≠ k
  | reseal k _, l => l.map fun x => if x.keyId = k then { x with blobSha256 := "" } else x
  | count k _ _, l => l.map fun x => if x.keyId = k then
      { x with fido2 := x.fido2.map fun f => { f with signCount := 0 }, lastUsedAt := none } else x

/-- The operation replaces or removes this blob. -/
def SetsBlob : KeyOp → Uuid → Prop
  | append x _, k => k = x.keyId
  | discard k', k => k = k'
  | reseal k' _, k => k = k'
  | count _ _ _, _ => False

end KeyOp

/-- From `i` to `j` the operation was made on the compartment `c`, and
everything else is as it was. -/
structure Touches (C : Crates) (op : KeyOp) (c : Uuid) (i j : View) : Prop where
  header : j.container.header = i.container.header
  masterBlobs : ∀ c' ≠ c, j.container.masterBlobs.get c' = i.container.masterBlobs.get c'
  manifests : ∀ c' ≠ c, ∀ m, j.manifest c' m ↔ i.manifest c' m
  keyBlobs : j.container.keyBlobs = op.blobs i.container.keyBlobs
  entries : ∀ m m', i.manifest c m → j.manifest c m' → m' = { m with keys := op.keys C m.keys }

/-- The two agree on all that the operation leaves alone. -/
structure InStep (op : KeyOp) (c : Uuid) (i j : View) : Prop where
  header : i.container.header = j.container.header
  masterBlobs : ∀ c' ≠ c, i.container.masterBlobs.get c' = j.container.masterBlobs.get c'
  keyBlobs : ∀ k, ¬ op.SetsBlob k → i.container.keyBlobs.get k = j.container.keyBlobs.get k
  entries : ∀ m m', i.manifest c m → j.manifest c m' →
    { m with keys := op.rest m.keys } = { m' with keys := op.rest m'.keys }

section
variable (C : Crates)

/-- The file reads as this container, in one order of its entries or another. -/
def Reads (v : Vault) (k : Container) : Prop :=
  ∃ bytes o, v.disk = some bytes ∧ Container.fromBytes C o bytes = .ok k

/-- `key_id`s are not shared between unlocked compartments. -/
def OneCompartment (s : VaultState) : Prop :=
  ∀ c c' u u' x x', s.unlocked.get c = some u → s.unlocked.get c' = some u' → x ∈ u.manifest.keys →
    x' ∈ u'.manifest.keys → x.keyId = x'.keyId → c = c'

/-- `k` is nobody's `key_id`: not in memory, in a locked compartment, or in the file. -/
def Unused (v : Vault) (k : Uuid) : Prop :=
  ∀ i, i = inUse v.state ∨ i = onFile C v.state.container ∨ (∃ K, Reads C v K ∧ i = onFile C K) →
    i.container.keyBlobs.get k = none ∧ ∀ c m, i.manifest c m → k ∉ m.keyIds

/-- The `key_id` a call may draw is nobody's. -/
def FreshId (t : Turn) : Prop := ∀ e ∈ t.inputs, Unused C t.before (e.uuid 1)

/-- `c` has one entry with this `key_id`. -/
def HasKey (s : VaultState) (c k : Uuid) : Prop :=
  ∃ u, s.unlocked.get c = some u ∧ u.manifest.keyIds.count k = 1

/-- The credential that answered an assertion is an entry of `c`. -/
def Answered (s : VaultState) (c : Uuid) (o : GetAssertionOutcome) : Prop :=
  ∃ u x f, s.unlocked.get c = some u ∧ x ∈ u.manifest.keys ∧ x.keyId = o.keyId ∧ x.fido2 = some f ∧
    C.base64Decode f.credentialIdB64 = some o.response.credentialId

/-- The call is this operation on this compartment. -/
inductive Performs (t : Turn) : KeyOp → Uuid → Prop
  | createKey {a : CreateKeyArgs} {c : Uuid} {x : KeyEntry} {b : Bytes}
      (hcall : t.call = .createKey a)
      (hc : parseUuid C a.compartmentId = .ok c) (hk : ∃ e ∈ t.inputs, x.keyId = e.uuid 1)
      (hn : Unused C t.before x.keyId) : Performs t (.append x b) c
  | makeCredential {a : MakeCredentialArgs} {c : Uuid} {x : KeyEntry} {b : Bytes}
      (hcall : t.call = .handleFido2MakeCredential a) (hc : parseUuid C a.compartmentId = .ok c)
      (hk : ∃ e ∈ t.inputs, x.keyId = e.uuid 1) (hn : Unused C t.before x.keyId) :
      Performs t (.append x b) c
  | discardKey {cid kid text : String} {c k : Uuid} (hcall : t.call = .discardKey cid kid text)
      (hc : parseUuid C cid = .ok c) (hk : parseUuid C kid = .ok k)
        (hx : HasKey t.before.state c k) :
      Performs t (.discard k) c
  | changeKeyPassphrase {cid kid old new : String} {c k : Uuid} {b : Bytes}
      (hcall : t.call = .changeKeyPassphrase cid kid old new) (hc : parseUuid C cid = .ok c)
      (hk : parseUuid C kid = .ok k) (hx : HasKey t.before.state c k) : Performs t (.reseal k b) c
  | getAssertion {cbor : Bytes} {up uv : Bool} {o : GetAssertionOutcome} {c : Uuid}
      {now : OffsetDateTime}
      (hcall : t.call = .handleFido2GetAssertion cbor up uv) (hr : t.result = .ok (.assertion o))
      (ho : Answered C t.before.state c o) (hx : HasKey t.before.state c o.keyId) :
      Performs t (.count o.keyId o.newSignCount now) c

/-- The calls about one key. -/
def SingleKey : Call → Prop
  | .createKey .. | .discardKey .. | .changeKeyPassphrase .. | .handleFido2MakeCredential .. |
    .handleFido2GetAssertion .. => True
  | _ => False

/-- The file afterwards is readable, and in it the operation was made and
nothing else. -/
def FileTouched (op : KeyOp) (c : Uuid) (v v' : Vault) : Prop :=
  (∃ k, Reads C v' k) ∧ ∀ k k', Reads C v k → Reads C v' k' →
    Touches C op c (onFile C k) (onFile C k')

/-- The file reads as the container in memory, and in it `c` as its unlocked
manifest. -/
structure FileIsMemory (c : Uuid) (v : Vault) : Prop where
  reads : ∀ k, Reads C v k ↔ k = v.state.container
  manifest : ∃ m, (inUse v.state).manifest c m ∧ ∀ x, (onFile C v.state.container).manifest c x ↔
    x = m

/-- What the file holds, before the operation and apart from it, is what is in
memory. -/
def FileInStep (op : KeyOp) (c : Uuid) (v : Vault) : Prop :=
  ∀ k, Reads C v k → InStep op c (onFile C k) (inUse v.state)

end

/-- A discard takes the key out of the cache, and no other; the sweeper may
have. -/
def Uncached (k : Uuid) (t : Turn) : Prop :=
  t.after.retention.get k = none ∧ ∀ k' ≠ k, ∀ x, t.after.retention.get k' = some x ↔
    t.before.retention.get k' = some x ∧ ∀ e ∈ t.inputs, ∀ τ, e.sweptAt = some τ → x.Live τ

/-! ## Operations that agree -/

section
variable {C : Crates} {op : KeyOp}

theorem map_eq_map_iff {α : Type} {f g : α → α} (hfg : ∀ a, f (g a) = f a)
    (hgf : ∀ a, g (f a) = g a) {l l' : List α} : l.map f = l'.map f ↔ l.map g = l'.map g := by
  have habsorb : ∀ {f g : α → α}, (∀ a, f (g a) = f a) → l.map g = l'.map g →
      l.map f = l'.map f := by
    intro f g h hl
    have hmap := congrArg (List.map f) hl
    simpa [List.map_map, Function.comp_def, h] using hmap
  exact ⟨habsorb hgf, habsorb hfg⟩

/-- What an operation makes of two lists of entries differs exactly where they
differ apart from it. -/
theorem KeyOp.keys_eq_iff {l l' : List KeyEntry} :
    op.keys C l = op.keys C l' ↔ op.rest l = op.rest l' := by
  cases op with
  | append x b => simp [keys, rest]
  | discard k => exact Iff.rfl
  | reseal k b =>
    refine map_eq_map_iff (fun x => ?_) fun x => ?_
    · by_cases h : x.keyId = k
      · simp [h]
      · simp [h]
    · by_cases h : x.keyId = k
      · simp [h]
      · simp [h]
  | count k n now =>
    refine map_eq_map_iff (fun x => ?_) fun x => ?_
    · by_cases h : x.keyId = k
      · simp [h, KeyEntry.asserted, Function.comp_def]
      · simp [h]
    · by_cases h : x.keyId = k
      · simp [h, KeyEntry.asserted, Function.comp_def]
      · simp [h]

theorem KeyOp.blobs_eq_iff {m m' : HashMap Uuid Bytes} : op.blobs m = op.blobs m' ↔
    ∀ k, ¬ op.SetsBlob k → m.get k = m'.get k := by
  have hput : ∀ (k : Uuid) (b : Bytes), m.put k b = m'.put k b ↔ ∀ k', k' ≠ k →
      m.get k' = m'.get k' := by
    intro k b
    constructor
    · intro h k' hk
      rw [← HashMap.get_put_ne m b hk, h, HashMap.get_put_ne m' b hk]
    · intro h
      refine HashMap.ext_get fun k' => ?_
      by_cases hk : k' = k
      · rw [hk, HashMap.get_put_self, HashMap.get_put_self]
      · rw [HashMap.get_put_ne _ _ hk, HashMap.get_put_ne _ _ hk, h k' hk]
  cases op with
  | append x b => exact hput x.keyId b
  | discard k =>
    constructor
    · intro h k' hk
      rw [← HashMap.get_del_ne m hk, ← HashMap.get_del_ne m' hk]
      exact congrArg (HashMap.get · k') h
    · intro h
      refine HashMap.ext_get fun k' => ?_
      by_cases hk : k' = k
      · simp only [blobs, hk, HashMap.get_del_self]
      · simp only [blobs]
        rw [HashMap.get_del_ne _ hk, HashMap.get_del_ne _ hk, h k' hk]
  | reseal k b => exact hput k b
  | count k n now =>
    constructor
    · intro h k' _
      exact congrArg (HashMap.get · k') h
    · intro h
      exact HashMap.ext_get fun k' => h k' id

theorem KeyOp.manifest_eq_iff {m m' : Manifest} :
    ({ m with keys := op.keys C m.keys } : Manifest) = { m' with keys := op.keys C m'.keys } ↔
      ({ m with keys := op.rest m.keys } : Manifest) = { m' with keys := op.rest m'.keys } := by
  simp only [Manifest.mk.injEq, KeyOp.keys_eq_iff]

/-! ## Memory and file -/

/-- What was made in memory was made in the file if and only if the file
agreed with the memory before. -/
theorem fileTouched_iff {c : Uuid} {v v' : Vault} {m : Manifest} (h : FileIsMemory C c v')
    (ht : Touches C op c (inUse v.state) (inUse v'.state)) (hm : (inUse v.state).manifest c m) :
    FileTouched C op c v v' ↔ FileInStep C op c v := by
  obtain ⟨m', hm', hopen⟩ := h.manifest
  obtain rfl := ht.entries m m' hm hm'
  have hsame : ∀ x, (inUse v.state).manifest c x → x = m := by
    rintro x ⟨u, hu, rfl⟩
    obtain ⟨w, hw, rfl⟩ := hm
    rw [hu] at hw
    cases hw
    rfl
  constructor
  · rintro ⟨-, hfile⟩ k hr
    have hf := hfile k _ hr ((h.reads _).2 rfl)
    refine ⟨hf.header.symm.trans ht.header, fun c' hc =>
      (hf.masterBlobs c' hc).symm.trans (ht.masterBlobs c' hc),
      KeyOp.blobs_eq_iff.1 (hf.keyBlobs.symm.trans ht.keyBlobs), fun x y hx hy => ?_⟩
    rw [hsame y hy]
    exact (KeyOp.manifest_eq_iff.1 (hf.entries x _ hx ((hopen _).2 rfl))).symm
  · intro hstep
    refine ⟨⟨_, (h.reads _).2 rfl⟩, fun k k' hr hr' => ?_⟩
    have hi := hstep k hr
    rw [(h.reads k').1 hr']
    have hblobs : ∀ c' ≠ c, v'.state.container.masterBlobs.get c' = k.masterBlobs.get c' :=
      fun c' hc => (ht.masterBlobs c' hc).trans (hi.masterBlobs c' hc).symm
    refine ⟨ht.header.trans hi.header.symm, hblobs, fun c' hc x => ?_,
      ht.keyBlobs.trans (KeyOp.blobs_eq_iff.2 hi.keyBlobs).symm, fun x y hx hy => ?_⟩
    · simp only [onFile, hblobs c' hc]
    · rw [(hopen y).1 hy]
      exact (KeyOp.manifest_eq_iff.2 (hi.entries x m hx hm)).symm

end

/-! ## In memory -/

section
variable {C : Crates} {A : Vault → In → Prop} {v : Vault} {e : In} {s s' : VaultState} {op : KeyOp}
  {c k : Uuid}

/-- The edit of the compartment `c` that the operation is. -/
structure Keyed (C : Crates) (op : KeyOp) (c : Uuid) (s s' : VaultState) : Prop where
  header : s'.container.header = s.container.header
  masterBlobs : s'.container.masterBlobs = s.container.masterBlobs
  keyBlobs : s'.container.keyBlobs = op.blobs s.container.keyBlobs
  unlocked : ∃ u, s.unlocked.get c = some u ∧
    s'.unlocked = s.unlocked.put c
      { u with manifest := { u.manifest with keys := op.keys C u.manifest.keys } }

theorem Keyed.touches (h : Keyed C op c s s') :
    Touches C op c (inUse s) (inUse (inMemory C e s' (.persist c))) := by
  obtain ⟨hun, hh, hk⟩ := inMemory_frame C e s' (.persist c)
  obtain ⟨u, hu, hput⟩ := h.unlocked
  refine ⟨hh.trans h.header, fun c' hc => ?_, fun c' hc m => ?_, hk.trans h.keyBlobs,
    fun m m' hm hm' => ?_⟩
  · simp only [inUse, inMemory]
    rw [← h.masterBlobs]
    split
    · rfl
    · split
      · rfl
      · exact HashMap.get_put_ne _ _ hc
  · simp only [inUse]
    rw [hun, hput, HashMap.get_put_ne _ _ hc]
  · obtain ⟨w, hw, rfl⟩ := hm
    obtain ⟨w', hw', rfl⟩ := hm'
    rw [hun, hput, HashMap.get_put_self] at hw'
    rw [hu] at hw
    cases hw
    cases hw'
    rfl

/-- With `key_id`s all different the first entry with an id is the only one. -/
theorem modifyFirst_eq_map {f : KeyEntry → KeyEntry} {l : List KeyEntry}
    (hn : (l.map KeyEntry.keyId).Nodup) :
    modifyFirst (fun x => x.keyId = k) f l = l.map fun x => if x.keyId = k then f x else x := by
  induction l with
  | nil => rfl
  | cons x l ih =>
    simp only [List.map_cons, List.nodup_cons] at hn
    unfold modifyFirst
    by_cases hx : x.keyId = k
    · have hrest : ∀ y ∈ l, (if y.keyId = k then f y else y) = id y := by
        intro y hy
        refine if_neg fun hyk => hn.1 ?_
        rw [hx, ← hyk]
        exact List.mem_map_of_mem hy
      simp [hx, List.map_congr_left hrest]
    · simp [hx, ih hn.2]

theorem AllValid.hasKey (h : AllValid s) {u : UnlockedCompartment} (hu : s.unlocked.get c = some u)
    {x : KeyEntry} (hx : x ∈ u.manifest.keys) (hk : x.keyId = k) : HasKey s c k :=
  ⟨u, hu, List.count_eq_one_of_mem (h c u hu).nodup (hk ▸ List.mem_map_of_mem hx)⟩

/-! ## Who answered -/

/-- The handler's outcome is about an entry that was unlocked before it ran. -/
theorem handleGetAssertion_by {request : GetAssertionRequest} {up uv : Bool} {es : List In}
    {o : GetAssertionOutcome} {w : Vault}
    (hx : Prog.Exec A (handleGetAssertion C (ctap2Backend C true) request up uv) v es (.ok o) w) :
    AssertedBy C request.rpId v.state o := by
  unfold handleGetAssertion at hx
  rcases Prog.exec_bind.1 hx with ⟨x, hr, -⟩ | ⟨cands, v₁, es₁, es₂, -, hc, hx⟩
  · cases hr
  obtain ⟨e, -, -, hcands, -⟩ := Prog.exec_atomic.1 hc
  cases hcands
  rcases Prog.exec_bind.1 hx with ⟨x, hr, -⟩ | ⟨⟨chosen, d⟩, v₂, es₃, es₄, -, hp, hx⟩
  · cases hr
  rcases Prog.exec_bind.1 hx with ⟨x, hr, -⟩ | ⟨sig, v₃, es₅, es₆, -, -, hf⟩
  · cases hr
  obtain ⟨-, hp, -⟩ := Prog.exec_done.1 hp
  obtain ⟨-, hf, -⟩ := Prog.exec_done.1 hf
  exact assertedBy_of_chosen hp.symm hf.symm

/-- With no `key_id` in two compartments the search after the signature finds
the entry that answered. -/
theorem AssertedBy.found {rpId : String} {o : GetAssertionOutcome} (h : AssertedBy C rpId s o)
    (hone : OneCompartment s) (o' : Orders) :
    ∃ c, findCompartmentForKey o' s o.keyId = some c ∧ Answered C s c o := by
  obtain ⟨c, u, x, f, hu, hx, hk, hf, -, hid, -⟩ := h.entry
  cases hfind : findKeyAnywhere o' s o.keyId with
  | none => exact absurd hk (findKeyAnywhere_none hfind hu hx)
  | some p =>
    obtain ⟨w, y, hw, hy, -⟩ := findKeyAnywhere_some hfind
    obtain ⟨hmem, hyk⟩ := findKey_mem hy
    obtain rfl : p.2 = c := hone p.2 c w u y x hw hu hmem hx (hyk.trans hk.symm)
    exact ⟨p.2, by simp [findCompartmentForKey, hfind], u, x, f, hu, hx, hk, hf, hid⟩

theorem commitEdit_ok {o : GetAssertionOutcome} {d : Edit GetAssertionOutcome}
    (h : commitEdit o e s = .ok d) (hc : findCompartmentForKey e.orders s o.keyId = some c) :
    ∃ u, s.unlocked.get c = some u ∧
      d = ⟨s.setUnlocked c (u.asserted o.keyId o.newSignCount e.utc), .persist c, o⟩ := by
  unfold commitEdit at h
  rw [hc] at h
  simp only at h
  cases hu : unlockedCompartment s c with
  | error x => rw [hu] at h; cases h
  | ok u =>
    rw [hu] at h
    exact ⟨u, unlockedCompartment_ok.1 hu, (Except.ok.inj h).symm⟩

/-! ## One edit -/

/-- A new entry with its blob. -/
theorem NewKey.keyed {call : Call} {x : KeyEntry} {b : Bytes} {u : UnlockedCompartment}
    (hk : NewKey C A v e call c x b) (hu : v.state.unlocked.get c = some u) {es : List In}
    {a : Reply} {v' : Vault} (he : e ∈ es) (hf : FreshId C ⟨v, call, es, .ok a, v'⟩) :
    Performs C ⟨v, call, es, .ok a, v'⟩ (.append x b) c ∧ Keyed C (.append x b) c v.state
      ((v.state.setUnlocked c (u.push x)).setKeyBlob x.keyId b) := by
  have hid := (NewKey.valid hk).2
  have hn : Unused C v x.keyId := hid ▸ hf e he
  refine ⟨?_, rfl, rfl, rfl, u, hu, rfl⟩
  cases hk with
  | @created a₀ c x b hp =>
    refine .createKey rfl ?_ ⟨e, he, hid⟩ hn
    unfold prepareCreateKey at hp
    simp only [bind_ok, pure, Except.pure, Except.ok.injEq] at hp
    obtain ⟨c', hc, _, -, _, -, _, -, hp⟩ := hp
    cases hp
    exact hc
  | registered hc hr hx hp => exact .makeCredential rfl hc ⟨e, he, hid⟩ hn

theorem getAssertion_keyed {cbor : Bytes} {up uv : Bool} {es : List In} {d : Edit Reply}
    {v' : Vault} (he : (Call.handleFido2GetAssertion cbor up uv).Edits C A v es e (.ok d))
    (hv : AllValid v.state) (hone : OneCompartment v.state) : ∃ op c, d.tail = .persist c ∧
      Performs C ⟨v, .handleFido2GetAssertion cbor up uv, es, .ok d.reply, v'⟩ op c ∧
      Keyed C op c v.state d.state := by
  generalize hq : (Except.ok d : FacadeResult (Edit Reply)) = q at he
  cases he with
  | @getAssertion _ _ _ request es o w e hr hx =>
    obtain ⟨d', hd, rfl⟩ := map_edit_ok hq.symm
    obtain ⟨c, hfound, hans⟩ := (handleGetAssertion_by hx).found hone e.orders
    obtain ⟨u, hu, rfl⟩ := commitEdit_ok hd hfound
    have hkey : HasKey v.state c o.keyId := by
      obtain ⟨u', x, -, hu', hx, hk, -⟩ := hans
      exact hv.hasKey hu' hx hk
    refine ⟨.count o.keyId o.newSignCount e.utc, c, rfl, .getAssertion rfl rfl hans hkey, rfl, rfl,
      rfl, u, hu, ?_⟩
    simp only [Edit.map, VaultState.setUnlocked, UnlockedCompartment.asserted,
      modifyFirst_eq_map (hv c u hu).nodup, KeyOp.keys]

/-- **Each edit** is one operation on one key, encrypted again. -/
theorem Call.Edits.keyed {call : Call} {es : List In} {d : Edit Reply} {v' : Vault}
    (hs : SingleKey call) (he : call.Edits C A v es e (.ok d)) (hg : GoesThrough C e d.state d.tail)
    (hv : AllValid v.state) (hone : OneCompartment v.state)
    (hf : FreshId C ⟨v, call, es, .ok d.reply, v'⟩) : ∃ op c,
      d.tail = .persist c ∧ Performs C ⟨v, call, es, .ok d.reply, v'⟩ op c ∧
      Keyed C op c v.state d.state := by
  obtain ⟨s, t, a⟩ := d
  have hmem := he.mem
  cases he.change rfl with
  | rejected hk hu hv => exact absurd hg id
  | stored hk hu hv => exact ⟨_, _, rfl, NewKey.keyed hk hu hmem hf⟩
  | discarded hc hk hu hx ht =>
    obtain ⟨hx, hid⟩ := findKey_mem hx
    exact ⟨.discard _, _, rfl, .discardKey rfl hc hk (hv.hasKey hu hx hid), rfl, rfl, rfl, _,
      hu, rfl⟩
  | @resealed cid kid old new c k u x b₀ b sk hc hk hu hx hb ho hs =>
    obtain ⟨hx, hid⟩ := findKey_mem hx
    refine ⟨.reseal k b, c, rfl, .changeKeyPassphrase rfl hc hk (hv.hasKey hu hx hid), rfl, rfl,
      rfl, u, hu, ?_⟩
    simp only [VaultState.setUnlocked, UnlockedCompartment.setDigest,
      modifyFirst_eq_map (hv c u hu).nodup, KeyOp.keys]
  | unrecorded hfind => exact getAssertion_keyed he hv hone
  | asserted hr hx hfind hu => exact getAssertion_keyed he hv hone
  | added | merged1 | merged2 | merged3 => exact absurd hs id

/-! ## One call -/

/-- After a write the file reads in one way. -/
theorem reads_written (hC : C.CodecLaws) {w : Vault} {t : Tail} (hg : GoesThrough C e s t)
    (ht : t ≠ .skip) (hv : s.container.header.formatVersion = L1.formatVersion)
    (hs : w.state = inMemory C e s t) (hd : w.disk = written C e v s t) (k : Container) :
    Reads C w k ↔ k = w.state.container := by
  rcases written_cases (v := v) hg with ⟨hskip, -⟩ | ⟨bytes, hbytes, hw⟩
  · exact absurd hskip ht
  have hversion : w.state.container.header.formatVersion = L1.formatVersion := by
    rw [hs, (inMemory_frame C e s t).2.1]
    exact hv
  rw [← hs] at hbytes
  have hread := Container.fromBytes_toArchive hC hversion ((writeAtomic_ok e).1 hbytes).1
  constructor
  · rintro ⟨bytes', o, hb, hk⟩
    rw [hd, hw] at hb
    cases hb
    rw [hread] at hk
    exact (Except.ok.inj hk).symm
  · rintro rfl
    exact ⟨bytes, e.orders, hd.trans hw, hread _⟩

/-- ... and after `persist_locked` the compartment in it as it is in memory. -/
theorem fileIsMemory_persisted (hC : C.CodecLaws) (ha : C.AeadLaws) (hk : C.AeadCommits) {w : Vault}
    (hg : GoesThrough C e s (.persist c)) (hv : s.container.header.formatVersion = L1.formatVersion)
    (hs : w.state = inMemory C e s (.persist c)) (hd : w.disk = written C e v s (.persist c)) :
    FileIsMemory C c w where
  reads := reads_written hC hg (by simp) hv hs hd
  manifest := by
    obtain ⟨u, blob, bytes, hu, hb, -⟩ := hg
    have hopen := decryptWithKey_encryptWithKey hC ha hb
    have hget : w.state.container.masterBlobs.get c = some blob := by
      rw [hs]
      simp only [inMemory, hu, hb]
      exact HashMap.get_put_self _ _ _
    refine ⟨u.manifest, ⟨u, ?_, rfl⟩, fun x => ?_⟩
    · rw [hs, (inMemory_frame C e s (.persist c)).1]
      exact hu
    · constructor
      · rintro ⟨b, key, p, hb', hp, rfl⟩
        rw [hget] at hb'
        cases hb'
        exact congrArg MasterBlobPlaintext.manifest (decryptWithKey_unique hk hopen hp)
      · rintro rfl
        exact ⟨blob, u.masterKey, _, hget, hopen, rfl⟩

/-- The sweeper, before a region. -/
theorem get_enter {k : Uuid} {x : Retention.CachedKey} : (v.enter e).retention.get k = some x ↔
    v.retention.get k = some x ∧ ∀ τ, e.sweptAt = some τ → x.Live τ := by
  unfold Vault.enter
  cases hs : e.sweptAt with
  | none => simp
  | some τ =>
    simp only [Retention.get_sweepExpired, Option.some.injEq]
    constructor
    · rintro ⟨h, hl⟩
      exact ⟨h, fun _ hτ => hτ ▸ hl⟩
    · rintro ⟨h, hl⟩
      exact ⟨h, hl τ rfl⟩

theorem discardRegion_retention (text : String) :
    (discardRegion C c k text e v).2.retention = v.retention := by
  unfold discardRegion
  cases prepareDiscardKey v.state c k text with
  | error x => rfl
  | ok u =>
    obtain ⟨-, -, hr⟩ :=
      persistLocked_frame (C := C) e v ((v.state.setUnlocked c (u.remove k)).removeKeyBlob k) c
    simp only
    generalize persistLocked C e _ c = q at hr ⊢
    obtain ⟨r, w⟩ := q
    cases r with
    | error x => exact hr
    | ok a => exact hr

/-- A discard that succeeds takes the key out of the cache. -/
theorem discardKey_uncached {cid kid text : String} {es : List In} {a : Reply} {v' : Vault}
    (hk : parseUuid C kid = .ok k)
    (hx : Prog.Exec A ((Call.discardKey cid kid text).run C) v es (.ok a) v') :
    Uncached k ⟨v, .discardKey cid kid text, es, .ok a, v'⟩ := by
  obtain ⟨q, hx, hq⟩ := exec_replying.1 hx
  unfold discardKey at hx
  rw [hk] at hx
  cases hc : parseUuid C cid with
  | error x =>
    rw [hc] at hx
    obtain ⟨-, rfl, -⟩ := Prog.exec_done.1 hx
    cases hq
  | ok c =>
    rw [hc] at hx
    rcases Prog.exec_bind.1 hx with ⟨x, rfl, -⟩ | ⟨_, w, es₁, es₂, rfl, hx₁, hx₂⟩
    · cases hq
    obtain ⟨e₁, rfl, -, -, rfl⟩ := exec_op.1 hx₁
    obtain ⟨e₂, rfl, -, -, rfl⟩ := exec_op.1 hx₂
    refine ⟨HashMap.get_del_self _ _, fun k' hne x => ?_⟩
    simp only [Vault.setRetention_retention, Retention.wipe, HashMap.get_del_ne _ hne, get_enter,
      discardRegion_retention, List.mem_append, List.mem_singleton, forall_eq_or_imp, forall_eq,
        and_assoc]

/-! ## Runs -/

theorem reads_same {v' : Vault} (h : ∃ k, Reads C v k) (hd : v'.disk = v.disk) :
    ∃ k, Reads C v' k := by
  obtain ⟨k, bytes, o, hb, hk⟩ := h
  exact ⟨k, bytes, o, hd.trans hb, hk⟩

theorem reads_archive (hC : C.CodecLaws) {bytes : Bytes} (hd : v.disk = some bytes)
    (hw : writeAtomic C e s.container = .ok bytes)
    (hv : s.container.header.formatVersion = L1.formatVersion) : ∃ k, Reads C v k :=
  ⟨s.container, bytes, e.orders, hd,
    Container.fromBytes_toArchive hC hv ((writeAtomic_ok e).1 hw).1 _⟩

/-- The file can always be read. -/
theorem Run.reads (hC : C.CodecLaws) {v₀ : Vault} {l : List Turn} (h₀ : Created C v₀ ∨ Opened C v₀)
    (h : Run C A v₀ l v) : ∃ k, Reads C v k := by
  induction h with
  | nil =>
    rcases h₀ with ⟨e, disk, label, pw, profile, hc⟩ | ⟨e, bytes, ho⟩
    · obtain ⟨kdf, key, blob, bytes, -, -, -, hs, hw, hd⟩ := create_ok hc
      exact reads_archive hC hd hw (by rw [hs]; rfl)
    · unfold openVault at ho
      simp only [bind_ok, facade_ok, pure, Except.pure, Except.ok.injEq] at ho
      obtain ⟨k, hk, rfl⟩ := ho
      exact ⟨k, bytes, e.orders, rfl, hk⟩
  | @cons l v v' call es r hr hx ih =>
    cases call.outcome hx with
    | same hq hr => exact reads_same ih hq.disk
    | unlocked c b key p hn hh hb hp hs hd => exact reads_same ih hd
    | locked hn hc hu hd => exact reads_same ih hd
    | undone e s t a he hc hg hr hs hd => exact reads_same ih hd
    | done e s t a he hc hg hr' hs hd =>
      rcases written_cases (v := v) hg with ⟨-, hw⟩ | ⟨bytes, hb, hw⟩
      · exact reads_same ih (hd.trans hw)
      · refine reads_archive hC (hd.trans hw) hb ?_
        rw [← hs]
        exact Run.version h₀ (.cons hr hx)

/-- **One call** about one key. -/
theorem Call.keyed (hC : C.CodecLaws) (ha : C.AeadLaws) (hk : C.AeadCommits) {call : Call}
    {es : List In} {a : Reply} {v' : Vault} (hx : Prog.Exec A (call.run C) v es (.ok a) v')
    (hversion : v.state.container.header.formatVersion = L1.formatVersion) (hv : AllValid v.state)
    (hone : OneCompartment v.state) (hf : FreshId C ⟨v, call, es, .ok a, v'⟩)
    (hs : SingleKey call) :
    ∃ op c, Performs C ⟨v, call, es, .ok a, v'⟩ op c ∧
    Touches C op c (inUse v.state) (inUse v'.state) ∧
      FileIsMemory C c v' ∧ ∃ m, (inUse v.state).manifest c m := by
  have hedits : call.EditsContainer := by
    cases call with
    | createKey | discardKey | changeKeyPassphrase | handleFido2MakeCredential
    | handleFido2GetAssertion =>
      trivial
    | _ => exact absurd hs id
  cases call.outcome hx with
  | same hq hr =>
    obtain ⟨x, hr⟩ := hr hedits
    cases hr
  | unlocked c b key p hn hh hb hp hs hd => exact absurd hedits hn
  | locked hn hc hu hd => exact absurd hedits hn
  | undone e s t a he hc hg hr hs hd =>
    obtain ⟨x, hr⟩ := hr
    cases hr
  | done e s t a he hc hg hr hstate hdisk =>
    cases hr
    obtain ⟨op, c, rfl, hp, hkeyed⟩ := Call.Edits.keyed hs he hg hv hone hf
    obtain ⟨u, hu, -⟩ := hkeyed.unlocked
    refine ⟨op, c, hp, ?_, fileIsMemory_persisted hC ha hk hg ?_ hstate hdisk, u.manifest, u,
      hu, rfl⟩
    · rw [hstate]
      exact hkeyed.touches
    · exact (congrArg _ hkeyed.header).trans hversion

theorem FreshId.entry {t : Turn} (h : FreshId C t) : FreshEntry t :=
  fun e he c u hu => (h e he _ (.inl rfl)).2 c u.manifest ⟨u, hu, rfl⟩

/-- **Single-key operations touch only their key**, in memory always: whatever
calls came before, failed ones among them, a successful call about one key is
one operation on one key of one compartment, and a discard takes the key out
of the cache. In the file the operation is made, and nothing else, if and only
if the file agreed before with what is in memory, apart from that key. -/
theorem single_key_iff (C : Crates) (hC : C.CodecLaws) (ha : C.AeadLaws) (hk : C.AeadCommits)
    {A : Vault → In → Prop} {v₀ v v' : Vault} {l : List Turn} {call : Call} {es : List In}
    {a : Reply} (h₀ : Created C v₀ ∨ Opened C v₀) (h : Run C A v₀ l v)
    (hx : Prog.Exec A (call.run C) v es (.ok a) v')
    (hf : ∀ t ∈ ⟨v, call, es, .ok a, v'⟩ :: l, FreshId C t) (hone : OneCompartment v.state)
    (hs : SingleKey call) :
    ∃ op c, Performs C ⟨v, call, es, .ok a, v'⟩ op c ∧
    Touches C op c (inUse v.state) (inUse v'.state) ∧
      (∀ k, op = .discard k → Uncached k ⟨v, call, es, .ok a, v'⟩) ∧ (∃ k, Reads C v k) ∧
      (FileTouched C op c v v' ↔ FileInStep C op c v) := by
  have hvalid := (Run.valid h₀ h fun t ht => (hf t (List.mem_cons_of_mem _ ht)).entry).1
  obtain ⟨op, c, hp, htouch, hfile, m, hm⟩ :=
    Call.keyed hC ha hk hx (Run.version h₀ h) hvalid hone (hf _ List.mem_cons_self) hs
  refine ⟨op, c, hp, htouch, ?_, Run.reads hC h₀ h, fileTouched_iff hfile htouch hm⟩
  rintro k rfl
  cases hp with
  | discardKey hcall hc hkid hkey =>
    cases hcall
    exact discardKey_uncached hkid hx

/-- The file is in step with a memory whose copies agree. -/
theorem Synced.fileInStep (hk : C.AeadCommits) (h : Synced C v) : FileInStep C op c v := by
  obtain ⟨bytes, hd, hread⟩ := h.file
  rintro k ⟨bytes', o, hd', hk'⟩
  rw [hd] at hd'
  cases hd'
  rw [hread] at hk'
  cases hk'
  refine ⟨rfl, fun _ _ => rfl, fun _ _ => rfl, ?_⟩
  rintro m m' ⟨b, key, p, hb, hp, rfl⟩ ⟨u, hu, rfl⟩
  obtain ⟨b', p', hb', hp', hm⟩ := h.backed c u hu
  rw [hb'] at hb
  cases hb
  rw [decryptWithKey_unique hk hp' hp, hm]

end

/-! ## A key in the sample vault -/

/-- The sample vault's file, whatever has been imported into it since: the
master blob is still that of the empty compartment. -/
structure SampleFile (v : Vault) (keys : List KeyEntry) (b : HashMap Uuid Bytes) : Prop where
  state : SampleState v.state keys b
  masterBlobs : v.state.container.masterBlobs = sampleVault.state.container.masterBlobs
  file : ∀ k, Reads Crates.symbolic v k ↔ k = v.state.container

theorem SampleFile.opens {v : Vault} {keys : List KeyEntry} {b : HashMap Uuid Bytes}
    (h : SampleFile v keys b) :
    ∃ b key p, v.state.container.masterBlobs.get (Uuid.rep 10) = some b ∧
      decryptWithKey Crates.symbolic (Uuid.rep 10) b key = .ok p ∧
      p.manifest = sampleManifest [] := by
  have hsynced := created_synced Crates.symbolic_codec Crates.symbolic_aead sampleVault_created
  obtain ⟨key, hu⟩ := sampleVault_state.unlocked
  obtain ⟨b, p, hb, hp, hm⟩ := hsynced.backed (Uuid.rep 10) ⟨sampleManifest [], key⟩ (by
    rw [hu, HashMap.get_put_self])
  exact ⟨b, key, p, h.masterBlobs ▸ hb, hp, hm⟩

theorem SampleFile.manifest {v : Vault} {keys : List KeyEntry} {b : HashMap Uuid Bytes}
    (h : SampleFile v keys b) {c : Uuid} {m : Manifest}
    (hm : (onFile Crates.symbolic v.state.container).manifest c m) :
    m = sampleManifest [] := by
  obtain ⟨b, key, p, hb, hp, rfl⟩ := hm
  obtain rfl := sampleVault_blank.only c b (h.masterBlobs ▸ hb)
  obtain ⟨b', key', p', hb', hp', hm⟩ := h.opens
  rw [hb'] at hb
  cases hb
  rw [decryptWithKey_unique Crates.symbolic_commits hp' hp, hm]

/-- The next identifier is nobody's. -/
theorem SampleFile.unused {v : Vault} {keys : List KeyEntry} {b : HashMap Uuid Bytes}
    (h : SampleFile v keys b) (hb : b.get (Uuid.rep 41) = none)
    (hk : Uuid.rep 41 ∉ keys.map KeyEntry.keyId) :
    Unused Crates.symbolic v (Uuid.rep 41) := by
  have hfile : ∀ c m, (onFile Crates.symbolic v.state.container).manifest c m →
      Uuid.rep 41 ∉ m.keyIds := by
    intro c m hm
    rw [h.manifest hm]
    exact List.not_mem_nil
  have hblob : v.state.container.keyBlobs.get (Uuid.rep 41) = none := by
    rw [h.state.keyBlobs]
    exact hb
  rintro i (rfl | rfl | ⟨k, hr, rfl⟩)
  · refine ⟨hblob, ?_⟩
    rintro c m ⟨u, hu, rfl⟩
    rw [(h.state.get_unlocked hu).2]
    exact hk
  · exact ⟨hblob, hfile⟩
  · rw [(h.file k).1 hr]
    exact ⟨hblob, hfile⟩

theorem SampleState.oneCompartment {s : VaultState} {keys : List KeyEntry} {b : HashMap Uuid Bytes}
    (h : SampleState s keys b) : OneCompartment s := by
  intro c c' u u' x x' hu hu' _ _ _
  rw [(h.get_unlocked hu).1, (h.get_unlocked hu').1]

theorem sampleVault_file : SampleFile sampleVault [] ∅ := by
  obtain ⟨bytes, hd, hread⟩ :=
    (created_synced Crates.symbolic_codec Crates.symbolic_aead sampleVault_created).file
  refine ⟨sampleVault_state, rfl, fun k => ?_⟩
  constructor
  · rintro ⟨bytes', o, hd', hk⟩
    rw [hd] at hd'
    cases hd'
    rw [hread] at hk
    exact (Except.ok.inj hk).symm
  · rintro rfl
    exact ⟨bytes, sampleOrders, hd, hread _⟩

/-- A key is created in the sample vault, and in its file. -/
theorem single_key_sample :
    ∃ (a : Reply) (v : Vault) (op : KeyOp) (c : Uuid), Prog.Exec Vault.Admits
      ((Call.createKey sampleArgs).run Crates.symbolic) sampleVault [sampleNext] (.ok a) v ∧
    Performs Crates.symbolic ⟨sampleVault, .createKey sampleArgs, [sampleNext], .ok a, v⟩ op c ∧
    Touches Crates.symbolic op c (inUse sampleVault.state) (inUse v.state) ∧
    FileTouched Crates.symbolic op c sampleVault v := by
  obtain ⟨a, -, -, v, hx, -⟩ := SampleState.createKey sampleVault_state sampleVault_clock
    (Manifest.new_valid (Uuid.rep 11) 0) List.not_mem_nil
  have hfresh :
      FreshId Crates.symbolic ⟨sampleVault, .createKey sampleArgs, [sampleNext], .ok a, v⟩ := by
    intro e he
    obtain rfl := List.mem_singleton.1 he
    exact sampleVault_file.unused (HashMap.get_empty _) List.not_mem_nil
  obtain ⟨op, c, hp, htouch, -, -, hfile⟩ := single_key_iff Crates.symbolic Crates.symbolic_codec
    Crates.symbolic_aead Crates.symbolic_commits (.inl sampleVault_created) .nil hx
      (by simpa using hfresh)
    (SampleState.oneCompartment sampleVault_state) trivial
  exact ⟨a, v, op, c, hx, hp, htouch,
    hfile.2 ((created_synced Crates.symbolic_codec Crates.symbolic_aead
    sampleVault_created).fileInStep Crates.symbolic_commits)⟩

/-- **An import that a new key takes to the file.** Option 1 leaves the imported
entries in memory only; creating a key in the same compartment writes them
too. -/
theorem created_key_writes_import : ∃ v₀ l v call es a v', Created Crates.symbolic v₀ ∧
    Run Crates.symbolic Vault.Admits v₀ l v ∧
    Prog.Exec Vault.Admits (call.run Crates.symbolic) v es (.ok a) v' ∧
    (∀ t ∈ ⟨v, call, es, .ok a, v'⟩ :: l, FreshId Crates.symbolic t) ∧ OneCompartment v.state ∧
    SingleKey call ∧ ∀ op c, Performs Crates.symbolic ⟨v, call, es, .ok a, v'⟩ op c →
      Touches Crates.symbolic op c (inUse v.state) (inUse v'.state) →
      ¬ FileTouched Crates.symbolic op c v v' := by
  obtain ⟨a₁, v, hx₁, hs, hmaster, hv⟩ := sampleVault_import sampleImport_valid []
  have hclock : v.clock = 0 := by
    rw [hv]
    rfl
  have hfile : SampleFile v sampleImport.keys ∅ := by
    refine ⟨hs, hmaster, ?_⟩
    cases Call.outcome _ hx₁ with
    | same hq hr =>
      obtain ⟨x, hr⟩ := hr trivial
      cases hr
    | unlocked c b key p hn hh hb hp hs hd => exact absurd trivial hn
    | locked hn hc hu hd => exact absurd trivial hn
    | undone e s t a he hc hg hr hs hd =>
      obtain ⟨x, hr⟩ := hr
      cases hr
    | done e s t a he hc hg hr hs hd =>
      cases hc with
      | rejected hk hu hv => cases hk
      | stored hk hu hv => cases hk
      | merged1 ht hi hr =>
        exact reads_written Crates.symbolic_codec hg (by simp)
          (Run.version (A := Vault.Admits) (.inl sampleVault_created) .nil) hs hd
  have hne : Uuid.rep 41 ∉ sampleImport.keys.map KeyEntry.keyId := by
    simp [sampleImport, Manifest.sample, KeyEntry.sample, Uuid.rep_inj]
  obtain ⟨a, -, -, v', hx, -⟩ :=
    SampleState.createKey hs hclock (sampleManifest_valid sampleImport_valid) hne
  have hfresh : FreshId Crates.symbolic ⟨v, .createKey sampleArgs, [sampleNext], .ok a, v'⟩ := by
    intro e he
    obtain rfl := List.mem_singleton.1 he
    exact hfile.unused (HashMap.get_empty _) hne
  have hfresh₁ : ∀ t : Turn, t.before = sampleVault → t.inputs = [sampleNext] →
      FreshId Crates.symbolic t := by
    intro t ht hi e he
    rw [hi] at he
    obtain rfl := List.mem_singleton.1 he
    rw [ht]
    exact sampleVault_file.unused (HashMap.get_empty _) List.not_mem_nil
  refine ⟨sampleVault, _, v, _, _, a, v', sampleVault_created, .cons .nil hx₁, hx, ?_,
    SampleState.oneCompartment hs, trivial, ?_⟩
  · intro t ht
    rcases List.mem_cons.1 ht with rfl | ht
    · exact hfresh
    · obtain rfl := List.mem_singleton.1 ht
      exact hfresh₁ _ rfl rfl
  have hmain : ∀ op c,
      Performs Crates.symbolic ⟨v, .createKey sampleArgs, [sampleNext], .ok a, v'⟩ op c →
      c = Uuid.rep 10 ∧ ∃ x b, op = .append x b := by
    intro op c hp
    cases hp with
    | @createKey a₀ c x b hcall hc hk hn =>
      cases hcall
      rw [show parseUuid Crates.symbolic sampleArgs.compartmentId =
        _ from uuidParse_symbolic _] at hc
      exact ⟨(Except.ok.inj hc).symm, x, b, rfl⟩
    | makeCredential hcall | discardKey hcall | changeKeyPassphrase hcall | getAssertion hcall =>
      cases hcall
  intro op c hp htouch hft
  obtain ⟨rfl, x, b, rfl⟩ := hmain op c hp
  have hvalid : AllValid v.state := by
    intro c u hu
    rw [(hs.get_unlocked hu).2]
    exact sampleManifest_valid sampleImport_valid
  obtain ⟨op', c', hp', -, hmem, m, hm⟩ := Call.keyed Crates.symbolic_codec Crates.symbolic_aead
    Crates.symbolic_commits hx (Run.version (.inl sampleVault_created) (.cons .nil hx₁)) hvalid
    (SampleState.oneCompartment hs) hfresh trivial
  obtain ⟨rfl, -⟩ := hmain op' c' hp'
  have hstep := (fileTouched_iff hmem htouch hm).1 hft _ ((hfile.file _).2 rfl)
  obtain ⟨u, hu, rfl⟩ := hm
  have hkeys := hstep.entries _ _ hfile.opens ⟨u, hu, rfl⟩
  rw [(hs.get_unlocked hu).2] at hkeys
  exact absurd (congrArg Manifest.keys hkeys)
    (by simp [KeyOp.rest, sampleManifest, sampleImport, Manifest.sample])

end VaultSigner.L5
