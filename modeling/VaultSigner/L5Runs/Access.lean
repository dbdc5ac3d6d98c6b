import VaultSigner.L4Vault.Ledger
import VaultSigner.L5Runs.Outrun
import VaultSigner.L5Runs.Owner

/-!
# The owner gets in, whatever else runs

Compartments are added, merged into and given new passphrases while other
calls are in flight, and the process may die between any two regions. In the
ledger these calls have an order, and in this order the passphrase that was
given last opens the compartment. What may still stand in the way is a lockout,
and no lockout is longer than the throttle's `max_delay`.

Results:
* `Commit.master`: an edit leaves header and blobs alone, or puts a
  compartment's parameters, key and blob in place together.
* `owner_kept`: every compartment opens with the passphrase last given, in
  memory and in the file.
* `owner_gets_in`: unlocking with it succeeds, `max_delay` later at most.
-/
namespace VaultSigner.L5
open VaultSigner.Core VaultSigner.L1 VaultSigner.L2.Throttle VaultSigner.L3 VaultSigner.L4

/-- The passphrase last given for a compartment, in the order of the ledger:
`first` by `create`, the others by edits that went through. -/
def lastGiven (C : Crates) (first : Uuid × String) : List Entry → Uuid → Option String
  | [] => given (fun _ => none) (some first)
  | .took _ call e (.ok _) :: j => given (lastGiven C first j) (gives C call [e])
  | _ :: j => lastGiven C first j

section
variable {C : Crates} {A : Vault → In → Prop} {v v' : Vault} {e : In} {s : VaultState} {call : Call}
  {P : Uuid → Option String}

/-- **One edit**, whatever ran before it. -/
theorem Commit.master {t : Tail} (hc : Commit C A v e call s t) (hf : e.uuid 0 ∉ headerIds v.state)
    (ho : ∀ c ∈ headerIds v.state, ∃ h, entries v.state.container c = [h]) :
    (gives C call [e] = none ∧ Keeps v.state s) ∨
    ∃ c passphrase, gives C call [e] = some (c, passphrase) ∧ t = .write ∧
      Puts C passphrase c v.state s := by
  cases hc with
  | alone h => exact Change.master h hf ho
  | rejected hp hu hv => exact .inl ⟨rfl, .put hu rfl rfl rfl rfl⟩
  | registered hp hu hv => exact .inl ⟨rfl, .put hu rfl rfl rfl rfl⟩
  | unrecorded => exact .inl ⟨rfl, .refl _⟩
  | asserted hf hu => exact .inl ⟨rfl, .put hu rfl rfl rfl rfl⟩

/-! ## One entry -/

theorem Owned.observes (hk : C.AeadCommits) (ho : Observes C v v') (h : Owned C P v) :
    Owned C P v' := by
  cases ho with
  | quiet hq => exact h.sameFile (by rw [hq.state]; exact h.state) (by rw [hq.state]) hq.disk
  | unlocked c b key p hh hb hp hs hd =>
    refine h.sameFile ?_ (by rw [hs]; rfl) hd
    rw [hs]
    exact h.state.unlocked hk hh hb hp
  | locked hc hu hd =>
    refine h.sameFile ?_ (by rw [hc]) hd
    exact h.state.keeps ⟨by rw [hc], by rw [hc], fun c u hcu => ⟨u, hu c u hcu, rfl⟩⟩

/-- An edit that goes through. -/
theorem Owned.done (hC : C.CodecLaws) (ha : C.AeadLaws) {t : Tail} (hc : Commit C A v e call s t)
    (hf : e.uuid 0 ∉ headerIds v.state) (hg : GoesThrough C e s t)
    (hs : v'.state = inMemory C e s t) (hd : v'.disk = written C e v s t) (h : Owned C P v) :
    Owned C (given P (gives C call [e])) v' := by
  have hstate : OwnedState C (given P (gives C call [e])) v'.state := by
    rw [hs]
    rcases Commit.master hc hf h.state.one with ⟨hn, hkeep⟩ | ⟨c, pw, hgv, -, hput⟩
    · rw [hn]
      exact (h.state.keeps hkeep).inMemory hC ha t
    · rw [hgv]
      exact (h.state.puts hC ha hput).inMemory hC ha t
  rcases written_cases (v := v) hg with ⟨rfl, hdisk⟩ | ⟨bytes, hbytes, hdisk⟩
  · rcases Commit.master hc hf h.state.one with ⟨hn, hkeep⟩ | ⟨c, pw, -, ht, -⟩
    · rw [hn] at hstate ⊢
      exact h.sameFile hstate (by rw [hs]; exact hkeep.header) (hd.trans hdisk)
    · cases ht
  · rw [← hs] at hbytes
    exact hstate.written hC hbytes (hd.trans hdisk)

/-- An edit that stays in memory. -/
theorem Owned.undone (hC : C.CodecLaws) (ha : C.AeadLaws) {t : Tail} (hc : Commit C A v e call s t)
    (hf : e.uuid 0 ∉ headerIds v.state) (hw : t ≠ .write) (hs : v'.state = inMemory C e s t)
    (hd : v'.disk = v.disk) (h : Owned C P v) : Owned C P v' := by
  rcases Commit.master hc hf h.state.one with ⟨-, hkeep⟩ | ⟨c, pw, -, ht, -⟩
  · have hstate : OwnedState C P v'.state := by
      rw [hs]
      exact (h.state.keeps hkeep).inMemory hC ha t
    refine h.sameFile hstate ?_ hd
    rw [hs, (inMemory_frame C e s t).2.1]
    exact hkeep.header
  · exact absurd ht hw

/-- The file opens in a new process. -/
theorem Owned.restarts (hr : Restarts C v v') (h : Owned C P v) : Owned C P v' := by
  obtain ⟨e, bytes, hd, ho⟩ := hr
  obtain ⟨m, hm, rfl⟩ := openVault_ok ho
  obtain ⟨bytes', k, h1, h2, h3, h4⟩ := h.file
  rw [hd] at h1
  cases h1
  obtain rfl := Except.ok.inj ((h2 e.orders).symm.trans hm)
  have hopens : ∀ c ∈ headerIds ⟨k, ∅⟩, ∃ pw, P c = some pw ∧ OpensWith C k c pw := by
    unfold headerIds
    rw [h3]
    exact h4
  exact ⟨⟨hopens, fun c u hu => by simp at hu, by rw [h3]; exact h.state.version⟩, bytes, k, rfl,
    h2, rfl, hopens⟩

/-! ## Runs -/

/-- What every admissible input brings: an id for a new compartment that none
has, and a file system that takes the write of a new compartment or of merged
manifests. -/
structure Provides (C : Crates) (A : Vault → In → Prop) : Prop where
  fresh : ∀ v e, A v e → e.uuid 0 ∉ headerIds v.state
  writes : ∀ v e call s, A v e → Commit C A v e call s .write → ∃ bytes,
    writeAtomic C e s.container = .ok bytes

variable {first : Uuid × String} {j : List Entry} {o o₀ : Object Call Vault (FacadeResult Reply)}

/-- **One entry of the ledger.** -/
theorem Owned.entry (hC : C.CodecLaws) (ha : C.AeadLaws) (hk : C.AeadCommits) (hA : Provides C A)
    {b : Entry} (hs : (ledger C A).Step b o₀ o) (h : Owned C (lastGiven C first j) o₀.shared) :
    Owned C (lastGiven C first (b :: j)) o.shared := by
  cases hs with
  | began call hn => exact h
  | read hn hr => exact h.observes hk hr
  | took hn he ht =>
    cases ht with
    | done s t a hc hg hs hd => exact h.done hC ha hc (hA.fresh _ _ he) hg hs hd
    | undone s t x hc hg hs hd =>
      refine h.undone hC ha hc (hA.fresh _ _ he) (fun ht => hg ?_) hs hd
      subst ht
      exact hA.writes _ _ _ _ he hc
  | ended hn hr => exact h
  | restarted hr => exact h.restarts hr

theorem ledger_owned (hC : C.CodecLaws) (ha : C.AeadLaws) (hk : C.AeadCommits) (hA : Provides C A)
    (h₀ : Owned C (lastGiven C first []) o₀.shared) (h : ((ledger C A).resumed o₀).Run j o) :
    Owned C (lastGiven C first j) o.shared := by
  induction h with
  | start hs =>
    cases hs
    exact h₀
  | step _ hs ih => exact ih.entry hC ha hk hA hs

/-- The ledger of a run from a created vault, with what its entries keep. -/
theorem service_owned (hC : C.CodecLaws) (ha : C.AeadLaws) (hk : C.AeadCommits) (hA : Provides C A)
    {disk : Option Bytes} {label pw : String} {profile : DeviceProfile}
    {l : List (Service.Label Call In Vault FacadeError Reply)}
    {c : Service Call In Vault FacadeError Reply}
    (h₀ : create C e disk label pw profile = (.ok (), v))
    (h : ((service C A).resumed ⟨v, fun _ => none⟩).Run l c) :
    ∃ j o, List.Forall₂ (Entered C A) l j ∧ ((ledger C A).resumed ⟨v, fun _ => none⟩).Run j o ∧
      o.shared = c.shared ∧ Owned C (lastGiven C (e.uuid 0, pw) j) c.shared := by
  have hseen : Keeping C A ⟨v, fun _ => none⟩ ⟨v, fun _ => none⟩ := ⟨rfl, fun _ => .idle⟩
  obtain ⟨j, o, hl, hj, hsame⟩ := (service_ledger.resumed hseen).run h
  refine ⟨j, o, hl, hj, hsame.shared, ?_⟩
  rw [← hsame.shared]
  exact ledger_owned hC ha hk hA (created_owned hC ha h₀) hj

/-- **The owner keeps every compartment.** A vault is created, and from then on
calls overlap and the process comes and goes. At any time there is an order of
what has been done in which, for every compartment of the header, the
passphrase given last is the one that opens it, in memory and in the file. -/
theorem owner_kept (C : Crates) (hC : C.CodecLaws) (ha : C.AeadLaws) (hk : C.AeadCommits)
    {A : Vault → In → Prop} (hA : Provides C A) {e : In} {disk : Option Bytes} {label pw : String}
    {profile : DeviceProfile} {v : Vault} {l : List (Service.Label Call In Vault FacadeError Reply)}
    {c : Service Call In Vault FacadeError Reply}
    (h₀ : create C e disk label pw profile = (.ok (), v))
    (h : ((service C A).resumed ⟨v, fun _ => none⟩).Run l c) :
    ∃ j o bytes, List.Forall₂ (Entered C A) l j ∧
    ((ledger C A).resumed ⟨v, fun _ => none⟩).Run j o ∧
      o.shared = c.shared ∧ c.shared.disk = some bytes ∧
      ∀ id ∈ headerIds c.shared.state, ∃ p, lastGiven C (e.uuid 0, pw) j id = some p ∧
        OpensWith C c.shared.state.container id p ∧
        ∀ o, ∃ k, Container.fromBytes C o bytes = .ok k ∧ OpensWith C k id p := by
  obtain ⟨j, o, hl, hj, hsame, hown⟩ := service_owned hC ha hk hA h₀ h
  obtain ⟨bytes, k, h1, h2, h3, h4⟩ := hown.file
  refine ⟨j, o, bytes, hl, hj, hsame, h1, fun id hid => ?_⟩
  obtain ⟨p, hp, hopens⟩ := hown.state.opens id hid
  obtain ⟨p', hp', hopens'⟩ := h4 id hid
  rw [hp] at hp'
  cases hp'
  exact ⟨p, hp, hopens, fun o => ⟨k, h2 o, hopens'⟩⟩

/-! ## Lockouts -/

/-- No lockout ends later than the longest delay after `T`. -/
structure Brief (T : Nat) (t : ThrottleTracker) : Prop where
  delay : t.maxDelay ≤ defaultMaxDelay
  ends : ∀ s u, t.lockedUntil s = some u → u ≤ T + defaultMaxDelay

theorem brief_new (T : Nat) : Brief T ThrottleTracker.new :=
  ⟨Nat.le_refl _, fun _ _ h => by cases h⟩

theorem Brief.recorded {T now : Nat} {t : ThrottleTracker} (h : Brief T t) (hn : now ≤ T)
    (s : SecretId) (ok : Bool) : Brief T (recorded t s now ok) := by
  have hother : ∀ s' u, s' ≠ s → (L4.recorded t s now ok).lockedUntil s' = some u →
      u ≤ T + defaultMaxDelay := by
    intro s' u hs hu
    rw [(lockedUntil_of_get (get_recorded hs)).1] at hu
    exact h.ends s' u hu
  cases ok with
  | true =>
    refine ⟨h.delay, fun s' u hu => ?_⟩
    by_cases hs : s' = s
    · subst hs
      rw [ThrottleTracker.lockedUntil, show (L4.recorded t s' now true).states.get s' = none from
        ThrottleTracker.get_recordSuccess_self t s'] at hu
      cases hu
    · exact hother s' u hs hu
  | false =>
    refine ⟨h.delay, fun s' u hu => ?_⟩
    by_cases hs : s' = s
    · subst hs
      rw [show L4.recorded t s' now false = t.recordFailure s' now from rfl,
        ThrottleTracker.lockedUntil_recordFailure_self] at hu
      split at hu
      · have hdelay : t.delay (t.failures s' + 1 - t.failureThreshold) ≤ t.maxDelay :=
          Nat.min_le_right _ _
        have hmax := h.delay
        cases hu
        omega
      · exact h.ends s' u hu
    · exact hother s' u hs hu

/-- What a region of an attempt does to the throttle. -/
theorem attempt_throttle {kind : Kind} {x y : Phase} {m : Region} (h : Attempt C kind x m y) :
    m.after.throttle = m.before.throttle ∨
      ∃ s ok, m.after.throttle = recorded m.before.throttle s m.input.now ok := by
  cases h with
  | idle hx h => exact .inl h.throttle
  | check hx h hc => exact .inl h.throttle
  | opens h throttle retention => exact .inl throttle
  | records hist throttle retention => exact .inr ⟨_, _, throttle⟩
  | caches secs hist throttle entry retention => exact .inl throttle
  | reseals h throttle retention => exact .inr ⟨_, _, throttle⟩
  | unlocks hk hx hist throttle retention => exact .inr ⟨_, _, throttle⟩
  | again hk hx hist throttle retention => exact .inr ⟨_, _, throttle⟩

/-- No region at or before `T` makes a longer lockout. -/
theorem call_brief (T : Nat) (call : Call) : (call.run C).Upholds (fun v e => A v e ∧ e.now ≤ T)
    (fun v => Brief T v.throttle) fun _ => True := by
  refine (call_follows C _ call).upholds fun x m y hm ha hb => ?_
  rcases attempt_throttle hm with h | ⟨s, ok, h⟩
  · rw [h]
    exact hb
  · rw [h]
    exact hb.recorded ha.2 s ok

/-- Nor does any run of the service. -/
theorem service_brief {T : Nat} {l : List (Service.Label Call In Vault FacadeError Reply)}
    {c c' : Service Call In Vault FacadeError Reply} (h : ((service C A).resumed c).Run l c')
    (hl : ∀ a ∈ l, a.Among (fun _ => True) fun e => e.now ≤ T) (hc : Brief T c.shared.throttle)
    (hn : ∀ n, c.calls n = none) : Brief T c'.shared.throttle := by
  have hup : c.Upholds (fun v e => A v e ∧ e.now ≤ T) (fun v => Brief T v.throttle)
      fun _ : Call => fun _ : Reply => True :=
    ⟨hc, fun n k p hp => by rw [hn n] at hp; cases hp⟩
  refine (Service.Run.upholds h (fun call _ => call_brief T call) (fun v v' _ hr => ?_)
    hl hup).1.shared
  obtain ⟨e, bytes, -, ho⟩ := hr
  obtain ⟨k, -, rfl⟩ := openVault_ok ho
  exact brief_new T

/-! ## Getting in -/

/-- With the right passphrase, after every lockout. -/
theorem unlock_opens {id : Uuid} {text p : String} {T : Nat} {es : List In} {r : FacadeResult Reply}
    (hid : parseUuid C text = .ok id) (ho : OpensWith C v.state.container id p)
    (hb : ∀ s u, v.throttle.lockedUntil s = some u → u ≤ T) (he : ∀ e ∈ es, T ≤ e.now)
    (hx : Prog.Exec A ((Call.unlockCompartment text p).run C) v es r v') :
    r = .ok .unit ∧ ∃ u, v'.state.unlocked.get id = some u := by
  obtain ⟨q, hq, rfl⟩ := exec_replying.1 hx
  rw [unlockCompartment, hid] at hq
  have hcheck : ∀ e : In, T ≤ e.now → v.throttle.check (SecretId.compartment C id) e.now = .ok () :=
    fun e ht => ThrottleTracker.check_ok.2 fun u hu => Nat.le_trans (hb _ u hu) ht
  rcases Prog.exec_bind.1 hq with ⟨x, -, h₁⟩ | ⟨a, w, es₁, es₂, rfl, h₁, h₂⟩
  · -- the throttle does not refuse
    obtain ⟨e, rfl, -, hr, -⟩ := exec_op.1 h₁
    rw [Vault.enter_throttle, hcheck e (he e List.mem_cons_self)] at hr
    cases hr
  · obtain ⟨e₁, rfl, -, -, rfl⟩ := exec_op.1 h₁
    obtain ⟨e₂, rfl, -, rfl, rfl⟩ := exec_op.1 h₂
    obtain ⟨header, b, key, plain, hentry, hblob, hkey, hplain⟩ := ho
    have hfind : v.state.container.header.compartments.find? (fun c => c.compartmentId = id) =
        some header := by
      rw [← List.head?_filter]
      exact congrArg List.head? hentry
    simp only [unlockRegion, Vault.enter_state, hfind, hblob, hkey, hplain]
    exact ⟨rfl, ⟨plain.manifest, key⟩, HashMap.get_put_self _ _ _⟩

/-- **The owner gets in.** New compartments get ids of their own, and they and
the merges are written. Whatever calls overlapped until `T`, and however often
the process came and went: `max_delay` after `T` the passphrase last given
unlocks its compartment. -/
theorem owner_gets_in (C : Crates) (hC : C.CodecLaws) (ha : C.AeadLaws) (hk : C.AeadCommits)
    {A : Vault → In → Prop} (hA : Provides C A) {e : In} {disk : Option Bytes} {label pw : String}
    {profile : DeviceProfile} {v : Vault} {l : List (Service.Label Call In Vault FacadeError Reply)}
    {c : Service Call In Vault FacadeError Reply}
    (h₀ : create C e disk label pw profile = (.ok (), v))
    (h : ((service C A).resumed ⟨v, fun _ => none⟩).Run l c) {T : Nat}
    (hl : ∀ a ∈ l, a.Among (fun _ => True) fun e => e.now ≤ T) :
    ∃ j o, List.Forall₂ (Entered C A) l j ∧ ((ledger C A).resumed ⟨v, fun _ => none⟩).Run j o ∧
      o.shared = c.shared ∧ ∀ id ∈ headerIds c.shared.state, ∃ p, lastGiven C (e.uuid 0, pw) j id =
      some p ∧
        ∀ text, parseUuid C text = .ok id → ∀ es r v',
          Prog.Exec A ((Call.unlockCompartment text p).run C) c.shared es r v' →
          (∀ e ∈ es, T + defaultMaxDelay ≤ e.now) → r = .ok .unit ∧ ∃ u,
          v'.state.unlocked.get id = some u := by
  obtain ⟨j, o, hl', hj, hsame, hown⟩ := service_owned hC ha hk hA h₀ h
  have hfresh := create_fresh (C := C) e disk label pw profile
  rw [h₀] at hfresh
  have hbrief : Brief T c.shared.throttle :=
    service_brief h hl (by rw [hfresh.throttle]; exact brief_new T) fun _ => rfl
  refine ⟨j, o, hl', hj, hsame, fun id hid => ?_⟩
  obtain ⟨p, hp, ho⟩ := hown.state.opens id hid
  exact ⟨p, hp, fun text ht es r v' hx he => unlock_opens ht ho hbrief.ends he hx⟩

end

/-! ## A sample -/

/-- The clock goes on, no compartment's id is drawn, and the disk takes every write. -/
def DrawsAnew (v : Vault) (e : In) : Prop := v.Admits e ∧ e.Works ∧ e.uuid 0 ∉ headerIds v.state

theorem drawsAnew_provides : Provides Crates.symbolic DrawsAnew where
  fresh := fun _ _ h => h.2.2
  writes := fun _ _ _ _ h _ => writeAtomic_symbolic h.2.1.io _

theorem drawsAnew_sampleNext : DrawsAnew sampleVault sampleNext := by
  refine ⟨admits_sampleNext sampleVault_clock, sampleNext_works, ?_⟩
  rw [sampleVault_state.headerIds]
  simp [sampleNext, Uuid.rep_inj]

/-- A second compartment is added while another call is in flight. -/
theorem sampleService_add : ∃ (l : List (Service.Label Call In Vault FacadeError Reply))
    (c : Service Call In Vault FacadeError Reply),
    ((service Crates.symbolic DrawsAnew).resumed ⟨sampleVault, fun _ => none⟩).Run l c ∧
    (∀ a ∈ l, a.Among (fun _ => True) fun e => e.now ≤ 0) ∧
    headerIds c.shared.state = [Uuid.rep 10, Uuid.rep 40] ∧ c.shared.clock = 0 ∧
    c.shared.throttle = ThrottleTracker.new ∧
    ∀ j o, List.Forall₂ (Entered Crates.symbolic DrawsAnew) l j →
      ((ledger Crates.symbolic DrawsAnew).resumed ⟨sampleVault, fun _ => none⟩).Run j o →
      lastGiven Crates.symbolic (sampleIn.uuid 0, "pw") j (Uuid.rep 10) = some "pw" ∧
      lastGiven Crates.symbolic (sampleIn.uuid 0, "pw") j (Uuid.rep 40) = some "second" := by
  obtain ⟨d, v, -, -, hx, hs, hids, hv⟩ := exec_addCall (A := DrawsAnew) drawsAnew_sampleNext
    sampleVault_state.headerIds
  have hstart : ((service Crates.symbolic DrawsAnew).resumed ⟨sampleVault, fun _ => none⟩).Run []
      ⟨sampleVault, fun _ => none⟩ := .start rfl
  have hboth := (hstart.step (.began (n := 0) addCall rfl)).step (.began (n := 1) .lockAll rfl)
  have hrun :=
    (hboth.step (Service.Exec.last (n := 0) (k := addCall) hx rfl)).step (.ended (n := 0) rfl)
  have hthrottle : v.throttle = sampleVault.throttle := by
    rw [hv]
    rfl
  have htwo : headerIds v.state = [Uuid.rep 10, Uuid.rep 40] := hs.symm ▸ hids
  refine ⟨_, _, hrun, ?_, htwo, by rw [hv]; rfl,
    hthrottle.trans (create_fresh _ _ _ _ _).throttle, fun j o hl hj => ?_⟩
  · simp [Service.Label.Among, sampleNext, sampleIn]
  · have hbegin : (ledger Crates.symbolic DrawsAnew).Run [] ⟨sampleVault, fun _ => none⟩ :=
      .start ⟨sampleVault_created, fun _ => rfl⟩
    obtain ⟨b, _, hended, hl₁, rfl⟩ := List.forall₂_cons_left_iff.1 hl
    obtain ⟨b₁, _, hworked, hl₂, rfl⟩ := List.forall₂_cons_left_iff.1 hl₁
    obtain ⟨b₂, _, hlock, hl₃, rfl⟩ := List.forall₂_cons_left_iff.1 hl₂
    obtain ⟨b₃, _, hadd, hnil, rfl⟩ := List.forall₂_cons_left_iff.1 hl₃
    cases hended
    cases hlock
    cases hadd
    cases hnil
    have hsettles := settles (show (ledger Crates.symbolic DrawsAnew).Run
      ([] ++ .ended 0 addCall (.ok (.compartment d.reply)) :: _) o from hbegin.append hj)
    cases hworked with
    | read =>
      -- the call has returned Ok, so its region was an edit
      cases hsettles with
      | made he h => simp [Object.since] at h
      | unmade hr h =>
        obtain ⟨x, hx⟩ := hr trivial
        cases hx
    | took _ _ _ hr =>
      cases hr
      simp [lastGiven, given, gives, addCall, sampleNext, sampleIn, Uuid.rep_inj]

/-- Each of the two compartments opens with its own passphrase, in the file too. -/
theorem owner_kept_sample :
    ∃ (v : Vault) (bytes : Bytes), headerIds v.state = [Uuid.rep 10, Uuid.rep 40] ∧
    v.disk = some bytes ∧ ∀ o, ∃ k, Container.fromBytes Crates.symbolic o bytes = .ok k ∧
      OpensWith Crates.symbolic k (Uuid.rep 10) "pw" ∧
      OpensWith Crates.symbolic k (Uuid.rep 40) "second" := by
  obtain ⟨l, c, hrun, -, hids, -, -, hgiven⟩ := sampleService_add
  obtain ⟨j, o, bytes, hl, hj, -, hdisk, hopens⟩ := owner_kept Crates.symbolic Crates.symbolic_codec
    Crates.symbolic_aead Crates.symbolic_commits drawsAnew_provides sampleVault_create hrun
  obtain ⟨hfirst, hsecond⟩ := hgiven j o hl hj
  obtain ⟨p, hp, -, h₁⟩ := hopens (Uuid.rep 10) (by simp [hids])
  obtain ⟨q, hq, -, h₂⟩ := hopens (Uuid.rep 40) (by simp [hids])
  cases hfirst.symm.trans hp
  cases hsecond.symm.trans hq
  refine ⟨c.shared, bytes, hids, hdisk, fun o => ?_⟩
  obtain ⟨k, hk, hok⟩ := h₁ o
  obtain ⟨k', hk', hok'⟩ := h₂ o
  cases hk.symm.trans hk'
  exact ⟨k, hk, hok, hok'⟩

/-- Five minutes later, with new ids. -/
noncomputable def sampleLate : In :=
  { sampleNext with now := defaultMaxDelay, uuid := fun _ => Uuid.rep 60 }

/-- The second compartment is unlocked with its passphrase. -/
theorem owner_gets_in_sample : ∃ (v v' : Vault) (u : UnlockedCompartment),
    headerIds v.state = [Uuid.rep 10, Uuid.rep 40] ∧
    Prog.Exec DrawsAnew
    ((Call.unlockCompartment (hyphenated (Uuid.rep 40)) "second").run Crates.symbolic) v
      [sampleLate, sampleLate] (.ok .unit) v' ∧ v'.state.unlocked.get (Uuid.rep 40) = some u := by
  obtain ⟨l, c, hrun, hl, hids, hclock, hthrottle, hgiven⟩ := sampleService_add
  obtain ⟨j, o, hl', hj, -, hgets⟩ :=
    owner_gets_in Crates.symbolic Crates.symbolic_codec Crates.symbolic_aead
    Crates.symbolic_commits drawsAnew_provides sampleVault_create hrun hl
  obtain ⟨-, hsecond⟩ := hgiven j o hl' hj
  obtain ⟨p, hp, hin⟩ := hgets (Uuid.rep 40) (by simp [hids])
  cases hsecond.symm.trans hp
  have hadmits : ∀ w : Vault, w.state = c.shared.state → w.clock ≤ defaultMaxDelay →
      DrawsAnew w sampleLate := by
    intro w hw hc
    refine ⟨⟨hc, by simp [sampleLate, sampleNext, sampleIn]⟩, ⟨fun _ => ⟨_, rfl⟩, fun _ => ⟨_, rfl⟩,
      fun _ => Nat.le_refl _, rfl⟩, ?_⟩
    rw [hw, hids]
    simp [sampleLate, Uuid.rep_inj]
  obtain ⟨r, v', hx⟩ : ∃ r v', Prog.Exec DrawsAnew
      ((Call.unlockCompartment (hyphenated (Uuid.rep 40)) "second").run Crates.symbolic) c.shared
      [sampleLate, sampleLate] r v' := by
    have hcheck :
      Prog.Exec DrawsAnew (throttleCheck (SecretId.compartment Crates.symbolic (Uuid.rep 40)))
      c.shared
        [sampleLate] (.ok ()) (c.shared.enter sampleLate) := by
      refine exec_op.2 ⟨sampleLate, rfl, hadmits _ rfl (by rw [hclock]; exact Nat.zero_le _),
        ?_, rfl⟩
      rw [Vault.enter_throttle, hthrottle]
      rfl
    obtain ⟨q, w, hq⟩ : ∃ q w, Prog.Exec DrawsAnew (L4.unlockCompartment Crates.symbolic
        (hyphenated (Uuid.rep 40)) "second") c.shared [sampleLate, sampleLate] q w := by
      rw [unlockCompartment, uuidParse_symbolic]
      exact ⟨_, _,
        hcheck.seq (exec_op.2 ⟨sampleLate, rfl, hadmits _ rfl (Nat.le_refl _), rfl, rfl⟩)⟩
    exact ⟨_, w, exec_replying.2 ⟨q, hq, rfl⟩⟩
  obtain ⟨rfl, u, hu⟩ := hin _ (uuidParse_symbolic _) _ r v' hx (by simp [sampleLate])
  exact ⟨c.shared, v', u, hids, hx, hu⟩

end VaultSigner.L5
