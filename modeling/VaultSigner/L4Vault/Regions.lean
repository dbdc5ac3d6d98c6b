import VaultSigner.Core.Once
import VaultSigner.L4Vault.Changes

/-!
# What any region of any call does, said once

The calls of one process interleave: between two regions of one, others may
run. `Call.outcome` is about a call alone; here is what one region does to the
state and the file, whatever ran before it. The last region of a registration
or of an assertion works on an outcome that earlier regions made, from states
that may be gone; `Commit` leaves that outcome open.

Results:
* `Call.once`: a call carries out its edit in one region, or never; the others
  leave the container and the file alone.
* `Call.moves`: so every region of every call reads, unlocks, locks, or
  carries an edit through.
* `service`: the vault's calls, at once, over a file that outlives the process.
* `service_exec`: a call that runs alone is a run of it.
-/
namespace VaultSigner.L4
open VaultSigner.Core VaultSigner.L1 VaultSigner.L3

section
variable (C : Crates) (A : Vault → In → Prop)

/-- What an edit makes of the state in one region, and what follows it. -/
inductive Commit (v : Vault) (e : In) : Call → VaultState → Tail → Prop
  | alone {call : Call} {s : VaultState} {t : Tail} (h : Change C A v e call s t) :
      Commit v e call s t
  | rejected {a : MakeCredentialArgs} {o : MakeCredentialOutcome} {c : Uuid}
      {u : UnlockedCompartment}
      {k : KeyEntry} {b : Bytes} {x : VaultError} (hp : prepareMakeCredential C e a o = .ok (k, b))
      (hu : v.state.unlocked.get c = some u) (hv : (u.push k).manifest.validate C = .error x) :
      Commit v e (.handleFido2MakeCredential a) (v.state.setUnlocked c (u.push k))
        (.fail (.fromVault x))
  | registered {a : MakeCredentialArgs} {o : MakeCredentialOutcome} {c : Uuid}
      {u : UnlockedCompartment}
      {k : KeyEntry} {b : Bytes} (hp : prepareMakeCredential C e a o = .ok (k, b))
      (hu : v.state.unlocked.get c = some u) (hv : (u.push k).manifest.Valid) :
      Commit v e (.handleFido2MakeCredential a)
        ((v.state.setUnlocked c (u.push k)).setKeyBlob k.keyId b)
        (.persist c)
  | unrecorded {cbor : Bytes} {up uv : Bool} :
      Commit v e (.handleFido2GetAssertion cbor up uv) v.state .skip
  | asserted {cbor : Bytes} {up uv : Bool} {o : GetAssertionOutcome} {c : Uuid}
      {u : UnlockedCompartment}
      (hf : findCompartmentForKey e.orders v.state o.keyId = some c)
        (hu : v.state.unlocked.get c = some u) :
      Commit v e (.handleFido2GetAssertion cbor up uv)
        (v.state.setUnlocked c (u.asserted o.keyId o.newSignCount e.utc)) (.persist c)

/-- What one region does to the state and the file; an edit stays in memory
when what follows it fails. -/
inductive Moves (call : Call) (e : In) (v v' : Vault) : Prop
  | quiet (h : Quiet v v')
  | unlocked (c : Uuid) (b : Bytes) (key : Key) (p : MasterBlobPlaintext)
      (hh : c ∈ headerIds v.state)
      (hb : v.state.container.masterBlobs.get c = some b) (hp : decryptWithKey C c b key = .ok p)
      (hs : v'.state = v.state.setUnlocked c ⟨p.manifest, key⟩) (hd : v'.disk = v.disk)
  | locked (hc : v'.state.container = v.state.container)
      (hu : ∀ c u, v'.state.unlocked.get c = some u → v.state.unlocked.get c = some u)
      (hd : v'.disk = v.disk)
  | done (s : VaultState) (t : Tail) (hc : Commit C A v e call s t) (hg : GoesThrough C e s t)
      (hs : v'.state = inMemory C e s t) (hd : v'.disk = written C e v s t)
  | undone (s : VaultState) (t : Tail) (hc : Commit C A v e call s t) (hg : ¬ GoesThrough C e s t)
      (hs : v'.state = inMemory C e s t) (hd : v'.disk = v.disk)

/-- One region of `call`, on an admissible input. -/
def Moved (call : Call) (v v' : Vault) : Prop := ∃ e, A v e ∧ Moves C A call e v v'

/-- The file and what it holds stay: the region reads, unlocks or locks. -/
inductive Observes (v v' : Vault) : Prop
  | quiet (h : Quiet v v')
  | unlocked (c : Uuid) (b : Bytes) (key : Key) (p : MasterBlobPlaintext)
      (hh : c ∈ headerIds v.state)
      (hb : v.state.container.masterBlobs.get c = some b) (hp : decryptWithKey C c b key = .ok p)
      (hs : v'.state = v.state.setUnlocked c ⟨p.manifest, key⟩) (hd : v'.disk = v.disk)
  | locked (hc : v'.state.container = v.state.container)
      (hu : ∀ c u, v'.state.unlocked.get c = some u → v.state.unlocked.get c = some u)
      (hd : v'.disk = v.disk)

/-- An edit that goes through is in memory, and in the file as far as its tail
writes it, and the call returns Ok; one that does not is in memory, and the
call fails. -/
inductive Applies {α : Type} (call : Call) (e : In) (v v' : Vault) : FacadeResult α → Prop
  | done (s : VaultState) (t : Tail) (a : α) (hc : Commit C A v e call s t)
      (hg : GoesThrough C e s t)
      (hs : v'.state = inMemory C e s t) (hd : v'.disk = written C e v s t) :
        Applies call e v v' (.ok a)
  | undone (s : VaultState) (t : Tail) (x : FacadeError) (hc : Commit C A v e call s t)
      (hg : ¬ GoesThrough C e s t) (hs : v'.state = inMemory C e s t) (hd : v'.disk = v.disk) :
      Applies call e v v' (.error x)

end

def Failed {α : Type} (r : FacadeResult α) : Prop := ∃ x, r = .error x

/-- What a call may return that has applied no edit. -/
def Unapplied (call : Call) (r : FacadeResult Reply) : Prop := call.EditsContainer → Failed r

section
variable {C : Crates} {A : Vault → In → Prop}

theorem Quiet.observes {α ε : Type} {p : Prog In Vault ε α} (h : p.Within A Quiet) :
    p.Within A (Observes C) := h.mono fun _ _ hq => .quiet hq

theorem Observes.moves {call : Call} {e : In} {v v' : Vault} (h : Observes C v v') :
    Moves C A call e v v' := by
  cases h with
  | quiet h => exact .quiet h
  | unlocked c b key p hh hb hp hs hd => exact .unlocked c b key p hh hb hp hs hd
  | locked hc hu hd => exact .locked hc hu hd

theorem Applies.moves {α : Type} {call : Call} {e : In} {v v' : Vault} {r : FacadeResult α}
    (h : Applies C A call e v v' r) : Moves C A call e v v' := by
  cases h with
  | done s t a hc hg hs hd => exact .done s t hc hg hs hd
  | undone s t x hc hg hs hd => exact .undone s t hc hg hs hd

/-! ## The region that edits -/

/-- The checks before the edit fail, or it is carried out. -/
theorem applies_mutate {α : Type} {call : Call} {e : In} {v w : Vault} {r : FacadeResult α}
    {q : FacadeResult (Edit α)} (hag : Agrees (r, w) (mutate C e (v.enter e) q))
    (hq : ∀ d, q = .ok d → Commit C A v e call d.state d.tail) :
    Observes C v w ∧ Failed r ∨ Applies C A call e v w r := by
  cases hr : (mutate C e (v.enter e) q).1 with
  | ok a =>
    obtain ⟨d, hd, -, hg, hs, hdisk⟩ := mutate_ok e _ hr
    have hres : r = .ok a := hag.result.trans hr
    subst hres
    refine .inr (.done d.state d.tail a (hq d hd) hg (hag.state.trans hs)
      (hag.disk.trans (hdisk.trans ?_)))
    cases d.tail <;> rfl
  | error x =>
    have hres : r = .error x := hag.result.trans hr
    obtain ⟨hdisk, ⟨-, hs⟩ | ⟨d, hd, hg, hs⟩⟩ := mutate_error e _ hr
    · exact .inl ⟨.quiet ⟨hag.state.trans hs, hag.disk.trans hdisk⟩, x, hres⟩
    · subst hres
      exact .inr (.undone d.state d.tail x (hq d hd) hg (hag.state.trans hs) (hag.disk.trans hdisk))

theorem edits_commit {α : Type} {call : Call} {es : List In} {e : In} {v : Vault} {f : α → Reply}
    {q : FacadeResult (Edit α)} (he : call.Edits C A v es e (q.map (Edit.map f))) (d : Edit α)
    (hq : q = .ok d) : Commit C A v e call d.state d.tail := by
  subst hq
  exact .alone (he.change rfl)

/-- What a call returns is what its program does, as a reply. -/
theorem once_replying {α : Type} {p : Op α} (f : α → Reply) {call : Call}
    (h : p.Once A (Observes C) (Applies C A call) Failed) :
    (replying p f).Once A (Observes C) (Applies C A call) (Unapplied call) := by
  refine Prog.Once.bind (fun a ha => ?_) (fun x _ _ => ⟨x, rfl⟩) (fun e v v' a ha => ?_)
    (fun e v v' x hx => ?_) h
  · obtain ⟨x, hx⟩ := ha
    cases hx
  · cases ha with
    | done s t _ hc hg hs hd => exact ⟨.ok (f a), .done s t (f a) hc hg hs hd, rfl⟩
  · cases hx with
    | undone s t _ hc hg hs hd => exact .undone s t x hc hg hs hd

/-- A call that is one region, and that region an edit. -/
theorem region_once {α : Type} {body : In → Vault → FacadeResult α × Vault} {f : α → Reply}
    {call : Call} {g : In → VaultState → FacadeResult (Edit α)}
    (hb : ∀ e w, body e w = mutate C e w (g e w.state))
    (he : ∀ e v, call.Edits C A v [e] e ((g e v.state).map (Edit.map f))) :
    (replying (region body) f).Once A (Observes C) (Applies C A call) (Unapplied call) := by
  refine once_replying f (Prog.once_atomic fun e v _ => ?_)
  rw [hb]
  exact applies_mutate (.refl _) (edits_commit (he e v))

theorem makeCredential_once (a : MakeCredentialArgs) :
    (handleFido2MakeCredential C a).Once A (Observes C)
    (Applies C A (.handleFido2MakeCredential a)) Failed := by
  unfold handleFido2MakeCredential
  cases parseUuid C a.compartmentId with
  | error x => exact ⟨x, rfl⟩
  | ok c =>
    cases parseMakeCredential C a.requestCbor with
    | error x => exact ⟨x, rfl⟩
    | ok request =>
      refine Prog.Within.once_bind (fun outcome => Prog.once_atomic fun e v _ => ?_)
        (fun x => ⟨x, rfl⟩)
        (Quiet.observes (handleMakeCredential_quiet C _ _ _)).mapError
      rw [makeCredentialRegion_eq]
      refine applies_mutate (.refl _) fun d hd => ?_
      unfold makeCredentialEdit at hd
      split at hd
      · cases hd
      · rename_i k b hp
        unfold storeEdit at hd
        split at hd
        · cases hd
        · rename_i u hu
          have hu := unlockedCompartment_ok.1 hu
          split at hd
          · rename_i x hv
            cases hd
            exact .rejected hp hu hv
          · rename_i hv
            cases hd
            exact .registered hp hu ((Manifest.validate_ok C _).1 hv)

theorem commitAssertion_applies (o : GetAssertionOutcome) (cbor : Bytes) (up uv : Bool) (e : In)
    (v : Vault) :
    Observes C v (commitAssertion C o e (v.enter e)).2 ∧
    Failed (commitAssertion C o e (v.enter e)).1 ∨
    Applies C A (.handleFido2GetAssertion cbor up uv) e v (commitAssertion C o e (v.enter e)).2
      (commitAssertion C o e (v.enter e)).1 := by
  rw [commitAssertion_eq]
  refine applies_mutate (.refl _) fun d hd => ?_
  unfold commitEdit at hd
  split at hd
  · cases hd
    exact .unrecorded
  · rename_i c hf
    split at hd
    · cases hd
    · rename_i u hu
      cases hd
      exact .asserted hf (unlockedCompartment_ok.1 hu)

theorem commitAssertion_moves (o : GetAssertionOutcome) (cbor : Bytes) (up uv : Bool) (e : In)
    (v : Vault) :
    Moves C A (.handleFido2GetAssertion cbor up uv) e v (commitAssertion C o e (v.enter e)).2 :=
  (commitAssertion_applies o cbor up uv e v).elim (fun h => h.1.moves) Applies.moves

theorem getAssertion_once (cbor : Bytes) (up uv : Bool) :
    (handleFido2GetAssertion C cbor up uv).Once A
    (Observes C) (Applies C A (.handleFido2GetAssertion cbor up uv)) Failed := by
  unfold handleFido2GetAssertion
  cases parseGetAssertion C cbor with
  | error x => exact ⟨x, rfl⟩
  | ok request =>
    exact Prog.Within.once_bind
      (fun outcome => Prog.once_atomic fun e v _ => commitAssertion_applies outcome cbor up uv e v)
      (fun x => ⟨x, rfl⟩) (Quiet.observes (handleGetAssertion_quiet C _ _ _)).mapError

theorem discardKey_once (c k t : String) : (discardKey C c k t).Once A (Observes C)
    (Applies C A (.discardKey c k t)) Failed := by
  unfold discardKey
  cases hc : parseUuid C c with
  | error x => exact ⟨x, rfl⟩
  | ok cid =>
    cases hk : parseUuid C k with
    | error x => exact ⟨x, rfl⟩
    | ok kid =>
      have hedit : (region (discardRegion C cid kid t)).Once A (Observes C)
          (Applies C A (.discardKey c k t)) Failed :=
        Prog.once_atomic fun e v _ => applies_mutate (discardRegion_agrees e (v.enter e) cid kid t)
          (edits_commit (.discardKey t e [] hc hk))
      -- the wipe comes after the edit, and returns what the edit has
      simp only [Prog.bind_eq]
      refine Prog.Once.bind (fun a ha => ?_) (fun x h => h) (fun e v v' a ha => ⟨.ok (), ha, ?_⟩)
        (fun e v v' x h => h) hedit
      · obtain ⟨x, hx⟩ := ha
        cases hx
      · exact fun e v _ => ⟨.quiet ⟨rfl, rfl⟩, rfl⟩

theorem changeKeyPassphrase_once (c k old new : String) :
    (changeKeyPassphrase C c k old new).Once A (Observes C)
    (Applies C A (.changeKeyPassphrase c k old new)) Failed := by
  unfold changeKeyPassphrase
  cases hc : parseUuid C c with
  | error x => exact ⟨x, rfl⟩
  | ok cid =>
    cases hk : parseUuid C k with
    | error x => exact ⟨x, rfl⟩
    | ok kid =>
      refine (Quiet.observes (throttleCheck_quiet _)).once_bind
        (fun _ => Prog.once_atomic fun e v _ => ?_) fun x => ⟨x, rfl⟩
      exact applies_mutate (changePassphraseRegion_agrees e (v.enter e) cid kid old new)
        (edits_commit (.changeKeyPassphrase old new e e hc hk))

/-! ## The regions that do not -/

theorem unlockCompartment_observes (c pw : String) :
    (unlockCompartment C c pw).Within A (Observes C) := by
  unfold unlockCompartment
  cases parseUuid C c with
  | error x => trivial
  | ok id =>
    refine (Quiet.observes (throttleCheck_quiet _)).bind fun _ => within_region.2 fun e v ha => ?_
    rcases unlockRegion_cases (C := C) id pw e (v.enter e) with
      ⟨-, hq⟩ | ⟨b, key, p, hh, hb, hp, hs, hd⟩
    · exact .quiet ⟨hq.state, hq.disk⟩
    · exact .unlocked id b key p hh hb hp hs hd

theorem lockCompartment_observes (c : String) : (lockCompartment C c).Within A (Observes C) := by
  unfold lockCompartment
  cases C.uuidParse c with
  | error x => trivial
  | ok id =>
    refine within_region.2 fun e v ha => .locked rfl (fun c u hu => ?_) rfl
    simp only [Vault.setState_state, HashMap.get_del] at hu
    split at hu
    · cases hu
    · exact hu

theorem lockAll_observes : lockAll.Within A (Observes C) := by
  unfold lockAll
  refine Prog.Within.bind (within_region.2 fun e v ha => .locked rfl (fun c u hu => ?_) rfl)
    fun _ => within_region.2 fun e v ha => .quiet ⟨rfl, rfl⟩
  simp at hu

/-- **Every call takes effect once, or never**: an edit is one region, and the
others leave the container and the file alone. -/
theorem Call.once (call : Call) :
    (call.run C).Once A (Observes C) (Applies C A call) (Unapplied call) := by
  have hnone : ∀ {α : Type} {p : Op α} {f : α → Reply}, ¬ call.EditsContainer →
      p.Within A (Observes C) →
      (replying p f).Once A (Observes C) (Applies C A call) (Unapplied call) := fun hn h =>
    Prog.Within.once (fun _ he => absurd he hn) (h.bind fun _ => trivial)
  have hquiet : ∀ {α : Type} {p : Op α} {f : α → Reply}, ¬ call.EditsContainer → p.Within A Quiet →
      (replying p f).Once A (Observes C) (Applies C A call) (Unapplied call) :=
    fun hn h => hnone hn (Quiet.observes h)
  cases call with
  | unlockCompartment c p => exact hnone id (unlockCompartment_observes c p)
  | lockCompartment c => exact hnone id (lockCompartment_observes c)
  | lockAll => exact hnone id lockAll_observes
  | addCompartment l p d =>
    exact region_once (fun e w => addCompartmentRegion_eq e w l p d) fun e v =>
      .addCompartment l p d e
  | createKey a => exact region_once (fun e w => createKeyRegion_eq e w a) fun e v => .createKey a e
  | discardKey c k t => exact once_replying _ (discardKey_once c k t)
  | changeKeyPassphrase c k o n => exact once_replying _ (changeKeyPassphrase_once c k o n)
  | revealRawKeyHex c k p => exact hquiet id (revealRawKeyHex_quiet C c k p)
  | unlockKey c k p s => exact hquiet id (unlockKey_quiet C c k p s)
  | lockKey k => exact hquiet id (lockKey_quiet C k)
  | sign k m => exact hquiet id (sign_quiet C k m)
  | handleProtocolRequest i q => exact hquiet id (handleProtocolRequest_quiet C i q)
  | handleFido2MakeCredential a => exact once_replying _ (makeCredential_once a)
  | handleFido2GetAssertion q p u => exact once_replying _ (getAssertion_once q p u)
  | mergeReencryptDiscardIncoming t j b =>
    exact region_once (fun e w => merge1Region_eq e w t j b) fun e v => .merge1 t j b e
  | mergeSideBySide j b l p d =>
    exact region_once (fun e w => merge2Region_eq e w j b l p d) fun e v => .merge2 j b l p d e
  | mergeReplaceLocalWithIncoming t j b p k c =>
    exact region_once (fun e w => merge3Region_eq e w t j b p k c) fun e v => .merge3 t j b p k c e
  | query q => exact hquiet id (query_quiet C q)

/-- **Every region of every call.** -/
theorem Call.moves (call : Call) : (call.run C).Within A (Moved C A call) := by
  refine (Call.once call).within fun e v v' ha h => ⟨e, ha, ?_⟩
  rcases h with h | ⟨r, h⟩
  · exact h.moves
  · exact h.moves

/-- Only what is written whole has another header. -/
theorem Commit.header {call : Call} {e : In} {v : Vault} {s : VaultState} {t : Tail}
    (hc : Commit C A v e call s t) :
    s.container.header = v.state.container.header ∨ t = .write := by
  cases hc with
  | alone h =>
    cases h with
    | added hm hd hb => exact .inr rfl
    | merged1 ht hi hr => exact .inr rfl
    | merged2 hi hm hd hb => exact .inr rfl
    | merged3 ht hi hr hm hd hb => exact .inr rfl
    | _ => exact .inl rfl
  | _ => exact .inl rfl

theorem Moves.headerIds {call : Call} {e : In} {v v' : Vault} (hm : Moves C A call e v v')
    (hw : ∀ s, ¬ Commit C A v e call s .write) : L4.headerIds v'.state = L4.headerIds v.state := by
  have hsame : v'.state.container.header = v.state.container.header → L4.headerIds v'.state =
      L4.headerIds v.state := by
    intro hh
    unfold L4.headerIds
    rw [hh]
  have hedit : ∀ s t, Commit C A v e call s t → v'.state = inMemory C e s t →
      L4.headerIds v'.state = L4.headerIds v.state := by
    intro s t hc hs
    refine hsame ?_
    rw [hs, (inMemory_frame C e s t).2.1]
    rcases Commit.header hc with hh | rfl
    · exact hh
    · exact absurd hc (hw s)
  cases hm with
  | quiet h => exact hsame (by rw [h.state])
  | unlocked c b key p hh hb hp hs hd => exact hsame (by rw [hs]; rfl)
  | locked hc hu hd => exact hsame (by rw [hc])
  | done s t hc hg hs hd => exact hedit s t hc hs
  | undone s t hc hg hs hd => exact hedit s t hc hs

end

/-! ## The service -/

section
variable (C : Crates) (A : Vault → In → Prop)

/-- The process is gone, and the next one opens the file. -/
def Restarts (v v' : Vault) : Prop := ∃ e bytes, v.disk = some bytes ∧ openVault C e bytes = .ok v'

/-- The calls on a created vault, any number of them at once, over processes
that come and go. -/
def service : System (Service.Label Call In Vault FacadeError Reply)
    (Service Call In Vault FacadeError Reply) :=
  Service.system (Call.run C) A (Restarts C) (Created C)

end

section
variable {C : Crates} {A : Vault → In → Prop} {c : Service Call In Vault FacadeError Reply}
  {n : Nat} {call : Call}
  {v : Vault} {es : List In} {r : Except FacadeError Reply} {B : Call → Prop} {D : In → Prop}

theorem openVault_ok {e : In} {bytes : Bytes} (h : openVault C e bytes = .ok v) :
    ∃ k, Container.fromBytes C e.orders bytes = .ok k ∧
      v = ⟨⟨k, ∅⟩, ∅, L2.Throttle.ThrottleTracker.new, some bytes, e.now, []⟩ := by
  unfold openVault at h
  simp only [bind_ok, facade_ok, pure, Except.pure, Except.ok.injEq] at h
  obtain ⟨k, hk, rfl⟩ := h
  exact ⟨k, hk, rfl⟩

/-- A call that runs alone. -/
theorem service_exec (h : Prog.Exec A (call.run C) c.shared es r v) (hn : c.calls n = none)
    (hB : B call) (hD : ∀ e ∈ es, D e) :
    ∃ l, ((service C A).resumed c).Run l { c with shared := v } ∧
      .ended n call r ∈ l ∧ ∀ a ∈ l, a.Among B D :=
  Service.Exec.service h hn hB hD

/-- ... and its last region. -/
theorem service_worked {e : In} (h : Prog.Exec A (call.run C) c.shared (es ++ [e]) r v)
    (hn : c.calls n = none) (hB : B call) (hD : ∀ e ∈ es, D e) :
    ∃ l c₁, ((service C A).resumed c).Run l c₁ ∧
      (service C A).Step (.worked n call e (.done r)) c₁
      { c.setCall n (some (call, .done r)) with shared := v } ∧
      ∀ a ∈ l, a.Among B D := by
  have hfirst : ((service C A).resumed c).Run [.began n call]
      (c.setCall n (some (call, call.run C))) :=
    .step (.start rfl) (.began call hn)
  have hworked : ∃ l c₁, ((service C A).resumed (c.setCall n (some (call, call.run C)))).Run l c₁ ∧
      (service C A).Step (.worked n call e (.done r)) c₁
        { (c.setCall n (some (call, call.run C))).setCall n
          (some (call, .done r)) with shared := v } ∧
      ∀ a ∈ l, a.Among B D := Service.Exec.worked h (Service.setCall_self c n _) hD
  obtain ⟨l, c₁, hl, hlast, hl'⟩ := hworked
  simp only [Service.setCall, Function.update_idem] at hlast
  refine ⟨_, c₁, hfirst.append hl, hlast, fun a ha => ?_⟩
  rcases List.mem_append.1 ha with h | h
  · exact hl' a h
  · rw [List.mem_singleton.1 h]
    exact hB

end

end VaultSigner.L4
