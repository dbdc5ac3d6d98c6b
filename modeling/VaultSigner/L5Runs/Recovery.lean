import VaultSigner.L4Vault.Changes
import VaultSigner.L4Vault.Sample
import VaultSigner.L5Runs.Durable
import VaultSigner.L5Runs.Processes

/-!
# A vault whose process may die (`persist_locked`, `Vault::open`)

A vault in memory over the file system: calls one after another, each of which
gets to write the file at most once, by `write_atomic`. The process may die
before, after or in the middle of a call, also in the middle of its write, and
the power may fail; then the file is opened again.

Results:
* `edits_settled`, `Written.disk`: the file in the vault's own terms is
  what the file system holds.
* `Solo.exists_ok`: a write in which no system call fails goes through.
* `HostStep.machine`: what the calls do to the file is a run of the machine of
  `Processes.lean`.
* `host_found`: whatever is found at the path, at any time, opens.
* `host_recovers`: and it is not older than the last write that was
  acknowledged and synced.
-/
namespace VaultSigner.L5
open VaultSigner.Core VaultSigner.L1 VaultSigner.L3 VaultSigner.L4

/-! ## The write of a call -/

/-- What follows an edit gets as far as writing the file; `s'` is the state in
memory then. -/
inductive Writing (C : Crates) (e : In) (s : VaultState) : Tail → VaultState → Prop
  | write : Writing C e s .write s
  | persist {c : Uuid} {u : UnlockedCompartment} {b : Bytes} (hu : s.unlocked.get c = some u)
      (hb : encryptWithKey C c u.manifest u.masterKey (e.nonce 1) = .ok b) :
      Writing C e s (.persist c) (s.setMasterBlob c b)

section
variable {C : Crates} {A : Vault → In → Prop} {v v' : Vault} {call : Call} {es : List In} {e : In}
  {r : FacadeResult Reply} {s s' : VaultState} {t : Tail} {d : Edit Reply}

theorem Writing.inMemory (h : Writing C e s t s') : inMemory C e s t = s' := by
  cases h with
  | write => rfl
  | persist hu hb => simp only [L4.inMemory, hu, hb]

theorem Writing.goesThrough (h : Writing C e s t s') :
    GoesThrough C e s t ↔ ∃ bytes, writeAtomic C e s'.container = .ok bytes := by
  cases h with
  | write => exact Iff.rfl
  | @persist c u b hu hb =>
    refine ⟨fun hg => ?_, fun hw => ?_⟩
    · obtain ⟨u', b', bytes, hu', hb', hw⟩ := hg
      rw [hu] at hu'
      cases hu'
      rw [hb] at hb'
      cases hb'
      exact ⟨bytes, hw⟩
    · obtain ⟨bytes, hw⟩ := hw
      exact ⟨u, b, bytes, hu, hb, hw⟩

theorem Writing.written (h : Writing C e s t s') :
    written C e v s t = (writeAtomic C e s'.container).toOption := by
  have hm := h.inMemory
  cases h with
  | write => rfl
  | persist hu hb =>
    simp only [L4.written]
    rw [hm]

/-- Unless it gets to write the file, nothing is written. -/
theorem written_of_no_attempt (hg : GoesThrough C e s t) (hn : ∀ s', ¬ Writing C e s t s') :
    written C e v s t = v.disk := by
  cases t with
  | skip => rfl
  | fail x => rfl
  | persist c =>
    obtain ⟨u, b, bytes, hu, hb, -⟩ := hg
    exact absurd (.persist hu hb) (hn _)
  | write => exact absurd .write (hn _)

theorem edits_editsContainer {q : FacadeResult (Edit Reply)} (he : call.Edits C A v es e q) :
    call.EditsContainer := by
  cases he <;> trivial

/-- How a call ends that has got to its edit. -/
theorem edits_settled (he : call.Edits C A v es e (.ok d))
    (hx : Prog.Exec A (call.run C) v es r v') :
    v'.state = inMemory C e d.state d.tail ∧
      ((GoesThrough C e d.state d.tail ∧ r = .ok d.reply ∧ v'.disk = written C e v d.state d.tail) ∨
        (¬ GoesThrough C e d.state d.tail ∧ (∃ x, r = .error x) ∧ v'.disk = v.disk)) := by
  cases Call.carried (edits_editsContainer he) hx with
  | stopped x hr hq hn => exact absurd he (hn e _)
  | edited e' q he' hag =>
    obtain ⟨rfl, rfl⟩ := he.unique he'
    refine ⟨hag.state.trans (mutate_state e' v d), ?_⟩
    cases hm : (mutate C e' v (.ok d)).1 with
    | ok a =>
      obtain ⟨d', hd, rfl, hg, -, hdisk⟩ := mutate_ok e' v hm
      cases hd
      exact .inl ⟨hg, hag.result.trans hm, hag.disk.trans hdisk⟩
    | error x =>
      obtain ⟨hdisk, ⟨hd, -⟩ | ⟨d', hd, hg, -⟩⟩ := mutate_error e' v hm
      · cases hd
      · cases hd
        exact .inr ⟨hg, ⟨x, hag.result.trans hm⟩, hag.disk.trans hdisk⟩

end

/-! ## The write, system call by system call -/

section
variable (C : Crates) (Z : ZipWriter) (path : String) (fs : FileSystem String UInt8)

/-- Process `pid` alone writes `entries` until `a` ends its call; `l` is what it does. -/
structure Solo (pid : Nat) (entries : List (String × Bytes)) (m : Machine) (a : FileLabel)
    (m' : Machine) (l : List FileLabel) : Prop where
  labels : ∃ works, (∀ b ∈ works, b = .worked pid) ∧ l = a :: (works ++ [.begun pid entries])
  run : ((fileMachine Z path fs).resumed m).Run l m'

/-- A `write_atomic` of a container that runs to its end. -/
inductive Written (o : Orders) (k : Container) (m : Machine) :
    VaultResult Unit → Machine → List FileLabel → Prop
  | unbuilt {x : VaultError} (h : k.buildEntries C o = .error x) : Written o k m (.error x) m []
  | solo {entries : List (String × Bytes)} {pid : Nat} {x : VaultResult Unit} {m' : Machine}
      {l : List FileLabel}
      (h : k.buildEntries C o = .ok entries)
        (hs : Solo Z path fs pid entries m (.ended pid x) m' l) :
      Written o k m x m' l

/-- A `write_atomic` whose process dies in the middle of it. -/
inductive Torn (o : Orders) (k : Container) (m m' : Machine) (l : List FileLabel) : Prop
  | mk {entries : List (String × Bytes)} {pid : Nat} (h : k.buildEntries C o = .ok entries)
      (hs : Solo Z path fs pid entries m (.killed pid) m' l)

end

section
variable {C : Crates} {Z : ZipWriter} {path : String} {fs : FileSystem String UInt8}
  {m m' : Machine}
  {l : List FileLabel} {pid : Nat} {entries : List (String × Bytes)} {o : Orders} {k : Container}

/-- Nobody is at work on the file. -/
def Machine.Idle (m : Machine) : Prop := ∀ pid, m.procs pid = none

theorem Solo.idle {a : FileLabel} (ha : a = .killed pid ∨ ∃ x, a = .ended pid x) (hm : m.Idle)
    (h : Solo Z path fs pid entries m a m' l) : m'.Idle := by
  have hothers : ∀ {works : List FileLabel} {m' : Machine}, (∀ b ∈ works, b = .worked pid) →
      ((fileMachine Z path fs).resumed m).Run (works ++ [.begun pid entries]) m' →
      ∀ pid' ≠ pid, m'.procs pid' = none := by
    intro works
    induction works with
    | nil =>
      intro m' _ h pid' hne
      cases h with
      | step h hs =>
        cases h with
        | start h =>
          cases hs with
          | begun _ hn =>
            subst h
            exact (setProc_ne _ _ hne).trans (hm pid')
    | cons b works ih =>
      intro m' hl h pid' hne
      cases h with
      | step h hs =>
        obtain rfl := hl b List.mem_cons_self
        cases hs with
        | worked e hp hc =>
          exact (setProc_ne _ _ hne).trans
            (ih (fun b hb => hl b (List.mem_cons_of_mem _ hb)) h pid' hne)
  obtain ⟨⟨works, hl, rfl⟩, hrun⟩ := h
  cases hrun with
  | step hrun hs =>
    have hnone := hothers hl hrun
    intro pid'
    by_cases hpid : pid' = pid
    · subst hpid
      rcases ha with rfl | ⟨x, rfl⟩ <;> cases hs <;> exact setProc_self ..
    · rcases ha with rfl | ⟨x, rfl⟩ <;> cases hs <;> exact (setProc_ne _ _ hpid).trans
        (hnone pid' hpid)

/-- A write in which no system call fails goes through, and is on the disk. -/
theorem Solo.exists_ok (path : String) (fs : FileSystem String UInt8) (pid : Nat) {b : Bytes}
    (hm : m.procs pid = none) (hb : archive Z entries = .ok b) :
    ∃ m' l, Solo Z path fs pid entries m (.ended pid (.ok ())) m' l ∧
      m'.disk.fs.older = [] := by
  obtain ⟨es, x, d, hx⟩ := Prog.exec_exists (A := Undisturbed) (e := ⟨.ok (), []⟩) (fun _ => rfl)
    (writeEntriesAtomic Z m.begun pid path entries) m.disk
  obtain ⟨⟨⟩, rfl, hold⟩ := Prog.wlp_exec hx (writeEntriesAtomic_succeeds hb m.disk)
  have hbegun : ((fileMachine Z path fs).resumed m).Run [.begun pid entries] { m.setProc pid
      (some ⟨m.begun, entries, writeEntriesAtomic Z m.begun pid path entries⟩) with begun :=
        m.begun + 1 } :=
    .step (.start rfl) (.begun entries hm)
  obtain ⟨works, m', hw, hrun, hd, hp⟩ := fileMachine_alone Z path fs hx (m := { m.setProc pid
      (some ⟨m.begun, entries, writeEntriesAtomic Z m.begun pid path entries⟩) with begun :=
        m.begun + 1 }) rfl
    (setProc_self ..)
  refine ⟨m'.setProc pid none, _, ⟨⟨works, hw, rfl⟩, (hbegun.append hrun).step (.ended hp rfl)⟩, ?_⟩
  exact hd ▸ hold

theorem Written.idle {x : VaultResult Unit} (hm : m.Idle) (h : Written C Z path fs o k m x m' l) :
    m'.Idle := by
  cases h with
  | unbuilt => exact hm
  | solo _ hs => exact hs.idle (.inr ⟨x, rfl⟩) hm

theorem Torn.idle (hm : m.Idle) (h : Torn C Z path fs o k m m' l) : m'.Idle := by
  obtain ⟨-, hs⟩ := h
  exact hs.idle (.inl rfl) hm

/-- The write puts the archive in place, or it fails and leaves the file. -/
theorem Written.disk (hZ : ∀ entries, C.zipWrite entries = archive Z entries) {x : VaultResult Unit}
    {r : Register (Option Bytes) Nat} (hs : Shows Z path m r) (hrest : fs.AtRest path) (hm : m.Idle)
    (h : Written C Z path fs o k m x m' l) :
    (x = .ok () ∧ ∃ b, k.toArchive C o = .ok b ∧ m'.disk.fs.read path = some b) ∨
      (∃ y, x = .error y) ∧ m'.disk.fs.read path = m.disk.fs.read path := by
  cases h with
  | unbuilt h => exact .inr ⟨⟨_, rfl⟩, rfl⟩
  | @solo entries pid _ _ _ h hsolo =>
    obtain ⟨⟨works, hl, rfl⟩, hrun⟩ := hsolo
    obtain ⟨r', hr', hs'⟩ := ((FileMachine.refines hrest).resumed hs).run hrun
    have hworks : ∀ b ∈ works.map (FileLabel.toRegister Z), b = .worked := by
      intro b hb
      obtain ⟨a, ha, rfl⟩ := List.mem_map.1 hb
      rw [hl a ha]
      rfl
    have hfree : ∀ n, r.calls n = none := fun n => hs.free (hm n)
    rw [List.map_cons, List.map_append] at hr'
    cases x with
    | error y =>
      refine .inr ⟨⟨y, rfl⟩, ?_⟩
      rw [hs'.now, hs.now]
      exact (Register.Run.lone hfree hworks hr').2 rfl
    | ok _ =>
      obtain ⟨b, hb, hc⟩ := content_eq_some ((Register.Run.lone hfree hworks hr').1 rfl)
      refine .inl ⟨rfl, b, ?_, hs'.now.trans hc⟩
      unfold Container.toArchive
      rw [h]
      exact (hZ entries).trans hb

end

/-! ## The vault and the file system -/

/-- The vault in memory, if its process lives, and the machine. -/
structure Host where
  vault : Option Vault
  machine : Machine

/-- What happens, with the memory that a call was writing. -/
inductive HostLabel where
  | opened
  | called (t : Turn)
  | wrote (t : Turn) (s : VaultState)
  | died
  | diedWriting (call : Call) (s : VaultState)
  | lost

section
variable (C : Crates) (Z : ZipWriter) (A : Vault → In → Prop) (path : String)
  (fs : FileSystem String UInt8)

/-- One call, or what may happen between two. A call's edit and its write are
those of `Facade.lean`; how the file system takes the write is up to the
machine. -/
inductive HostStep : HostLabel → Host → Host → Prop
  | opened {m : Machine} {e : In} {bytes : Bytes} {v : Vault}
      (hr : m.disk.fs.read path = some bytes)
      (ho : openVault C e bytes = .ok v) : HostStep .opened ⟨none, m⟩ ⟨some v, m⟩
  | called {m : Machine} {v v' : Vault} {call : Call} {es : List In} {r : FacadeResult Reply}
      (hx : Prog.Exec A (call.run C) v es r v')
      (hn : ∀ e d s, call.Edits C A v es e (.ok d) → ¬ Writing C e d.state d.tail s) :
      HostStep (.called ⟨v, call, es, r, v'⟩) ⟨some v, m⟩ ⟨some v', m⟩
  | wrote {m m' : Machine} {v v' : Vault} {call : Call} {es : List In} {r : FacadeResult Reply}
      {e : In}
      {d : Edit Reply} {s : VaultState} {l : List FileLabel}
        (hx : Prog.Exec A (call.run C) v es r v')
      (he : call.Edits C A v es e (.ok d)) (ha : Writing C e d.state d.tail s)
      (hw : Written C Z path fs e.orders s.container m e.io m' l) :
      HostStep (.wrote ⟨v, call, es, r, v'⟩ s) ⟨some v, m⟩ ⟨some v', m'⟩
  | died (v : Vault) (m : Machine) : HostStep .died ⟨some v, m⟩ ⟨none, m⟩
  | diedWriting {m m' : Machine} {v : Vault} {call : Call} {es : List In} {e : In} {d : Edit Reply}
      {s : VaultState} {l : List FileLabel} (he : call.Edits C A v es e (.ok d))
      (ha : Writing C e d.state d.tail s) (ht : Torn C Z path fs e.orders s.container m m' l) :
      HostStep (.diedWriting call s) ⟨some v, m⟩ ⟨none, m'⟩
  | lost {h : Host} {m : Machine} (hc : FileStep Z path .crashed h.machine m) :
      HostStep .lost h ⟨none, m⟩

/-- It starts with a container in the file. -/
def host : System HostLabel Host where
  Start h := h = ⟨none, ⟨.start fs, fun _ => none, 0⟩⟩
  Step := HostStep C Z A path fs

end

/-- The memories written or being written. -/
def writtenIn (l : List HostLabel) (s : VaultState) : Prop :=
  (∃ t, .wrote t s ∈ l) ∨ ∃ call, .diedWriting call s ∈ l

/-- `bytes` is a container that opens as `k`. -/
def ParsesAs (C : Crates) (bytes : Option Bytes) (k : Container) : Prop :=
  ∃ b, bytes = some b ∧ ∀ o, Container.fromBytes C o b = .ok k

section
variable {C : Crates} {Z : ZipWriter} {A : Vault → In → Prop} {path : String}
  {fs : FileSystem String UInt8}
  {h h' : Host} {a : HostLabel} {l : List HostLabel}

theorem Host.no_vault {m : Machine} {P : Vault → Prop} (v : Vault)
    (hv : (⟨none, m⟩ : Host).vault = some v) :
    P v := by
  cases hv

/-- What holds of the host at every step. -/
structure Host.Sound (C : Crates) (Z : ZipWriter) (path : String) (h : Host) : Prop where
  idle : h.machine.Idle
  shows : ∃ r, Shows Z path h.machine r
  disk : ∀ v, h.vault = some v → v.disk = h.machine.disk.fs.read path
  version : ∀ v, h.vault = some v → v.state.container.header.formatVersion = L1.formatVersion

/-- The containers that begin to be written in a run of the machine. -/
def Covers (C : Crates) (lm : List FileLabel) (P : VaultState → Prop) : Prop :=
  ∀ pid entries, FileLabel.begun pid entries ∈ lm → ∃ s o, P s ∧ s.container.buildEntries C o =
    .ok entries

theorem Solo.covers {m m' : Machine} {pid : Nat} {entries : List (String × Bytes)} {a : FileLabel}
    {lm : List FileLabel} {o : Orders} {s : VaultState} {P : VaultState → Prop} (hP : P s)
    (hb : s.container.buildEntries C o = .ok entries) (ha : ∀ pid' es, a ≠ .begun pid' es)
    (h : Solo Z path fs pid entries m a m' lm) : Covers C lm P := by
  obtain ⟨⟨works, hl, rfl⟩, -⟩ := h
  intro pid' es hm
  rcases List.mem_cons.1 hm with hm | hm
  · exact absurd hm.symm (ha pid' es)
  · rcases List.mem_append.1 hm with hm | hm
    · cases hl _ hm
    · cases List.mem_singleton.1 hm
      exact ⟨s, o, hP, hb⟩

/-- What a step does to the file is a run of the machine. -/
theorem HostStep.machine (hs : HostStep C Z A path fs a h h') :
    ∃ lm, ((fileMachine Z path fs).resumed h.machine).Run lm h'.machine ∧
    Covers C lm (writtenIn [a]) := by
  have hnil : Covers C [] (writtenIn [a]) := fun _ _ hm => absurd hm List.not_mem_nil
  cases hs with
  | opened => exact ⟨[], .start rfl, hnil⟩
  | called => exact ⟨[], .start rfl, hnil⟩
  | @wrote _ _ _ _ _ _ _ _ _ s _ _ _ _ hw =>
    generalize hio : In.io _ = x at hw
    cases hw with
    | unbuilt => exact ⟨[], .start rfl, hnil⟩
    | solo hb hs =>
      exact ⟨_, hs.run, hs.covers (P := writtenIn _) (.inl ⟨_, List.mem_singleton_self _⟩) hb
        (by simp)⟩
  | died => exact ⟨[], .start rfl, hnil⟩
  | diedWriting he ha ht =>
    obtain ⟨hb, hs⟩ := ht
    exact ⟨_, hs.run, hs.covers (P := writtenIn _) (.inr ⟨_, List.mem_singleton_self _⟩) hb
      (by simp)⟩
  | lost hc =>
    refine ⟨[.crashed], .step (.start rfl) hc, fun pid es hm => ?_⟩
    cases List.mem_singleton.1 hm

/-- The file in the vault's own terms stays what the file system holds. -/
theorem Host.Sound.step (hZ : ∀ entries, C.zipWrite entries = archive Z entries)
    (hrest : fs.AtRest path) (hh : h.Sound C Z path) (hs : HostStep C Z A path fs a h h') :
    h'.Sound C Z path := by
  obtain ⟨r, hr⟩ := hh.shows
  have hshows : ∀ {m' lm}, ((fileMachine Z path fs).resumed h.machine).Run lm m' → ∃ r',
      Shows Z path m' r' := by
    intro m' lm hrun
    obtain ⟨r', -, hr'⟩ := ((FileMachine.refines hrest).resumed hr).run hrun
    exact ⟨r', hr'⟩
  obtain ⟨lm, hrun, -⟩ := hs.machine
  cases hs with
  | opened hread ho =>
    refine ⟨hh.idle, hh.shows, ?_, ?_⟩
    · rintro v' hv
      cases hv
      unfold openVault at ho
      simp only [bind_ok, facade_ok, pure, Except.pure, Except.ok.injEq] at ho
      obtain ⟨k, -, rfl⟩ := ho
      exact hread.symm
    · rintro v' hv
      cases hv
      unfold openVault at ho
      simp only [bind_ok, facade_ok, pure, Except.pure, Except.ok.injEq] at ho
      obtain ⟨k, hk, rfl⟩ := ho
      exact fromBytes_version hk
  | @called m v v' call es x hx hn =>
    have hversion := hh.version v rfl
    have hdisk := hh.disk v rfl
    refine ⟨hh.idle, hh.shows, ?_, ?_⟩
    · rintro w hw
      cases hw
      cases call.outcome hx with
      | same hq _ => exact hq.disk.trans hdisk
      | unlocked _ _ _ _ _ _ _ _ _ hd => exact hd.trans hdisk
      | locked _ _ _ hd => exact hd.trans hdisk
      | done e s t a he _ hg _ _ hd =>
        exact hd.trans ((written_of_no_attempt hg fun s' => hn e _ s' he).trans hdisk)
      | undone _ _ _ _ _ _ _ _ _ hd => exact hd.trans hdisk
    · rintro w hw
      cases hw
      exact (call.effect hx).header.1.trans hversion
  | @wrote m m' v v' call es x e d s l hx he ha hw =>
    refine ⟨hw.idle hh.idle, hshows hrun, ?_, ?_⟩
    · rintro w hv
      cases hv
      obtain ⟨-, hend⟩ := edits_settled he hx
      rw [ha.goesThrough, ha.written] at hend
      rcases hw.disk hZ hr hrest hh.idle with ⟨hio, b, hb, hread⟩ | ⟨⟨y, hio⟩, hread⟩
      · have hok : writeAtomic C e s.container = .ok b := (writeAtomic_ok e).2 ⟨hb, hio⟩
        rcases hend with ⟨-, -, hd⟩ | ⟨hg, -⟩
        · rw [hd, hok, hread]
          rfl
        · exact absurd ⟨b, hok⟩ hg
      · rcases hend with ⟨⟨b, hb⟩, -⟩ | ⟨-, -, hd⟩
        · rw [((writeAtomic_ok e).1 hb).2] at hio
          cases hio
        · rw [hd, hread]
          exact hh.disk v rfl
    · rintro w hv
      cases hv
      exact (call.effect hx).header.1.trans (hh.version v rfl)
  | died => exact ⟨hh.idle, hh.shows, Host.no_vault, Host.no_vault⟩
  | diedWriting he ha ht => exact ⟨ht.idle hh.idle, hshows hrun, Host.no_vault, Host.no_vault⟩
  | lost hc =>
    refine ⟨?_, hshows hrun, Host.no_vault, Host.no_vault⟩
    cases hc with
    | crashed => exact fun _ => rfl

/-! ## Runs -/

theorem writtenIn_cons {s : VaultState} :
    writtenIn (a :: l) s ↔ writtenIn [a] s ∨ writtenIn l s := by
  unfold writtenIn
  simp only [List.mem_cons, List.not_mem_nil, or_false, exists_or]
  exact or_or_or_comm

/-- A memory that is written has the one format version, as the vault has. -/
theorem HostStep.version (hh : h.Sound C Z path) (hs : HostStep C Z A path fs a h h')
    {s : VaultState} (hw : writtenIn [a] s) :
    s.container.header.formatVersion = L1.formatVersion := by
  have hedit : ∀ {v : Vault} {call : Call} {es : List In} {e : In} {d : Edit Reply},
      h.vault = some v →
      call.Edits C A v es e (.ok d) → Writing C e d.state d.tail s →
      s.container.header.formatVersion = L1.formatVersion := by
    intro v call es e d hv he ha
    rw [← ha.inMemory, (inMemory_frame C e d.state d.tail).2.1, (Call.Edits.header he rfl).1]
    exact hh.version v hv
  cases hs with
  | wrote hx he ha _ =>
    rcases hw with ⟨t, ht⟩ | ⟨call, ht⟩
    · cases List.mem_singleton.1 ht
      exact hedit rfl he ha
    · cases List.mem_singleton.1 ht
  | diedWriting he ha _ =>
    rcases hw with ⟨t, ht⟩ | ⟨call, ht⟩
    · cases List.mem_singleton.1 ht
    · cases List.mem_singleton.1 ht
      exact hedit rfl he ha
  | _ => rcases hw with ⟨t, ht⟩ | ⟨call, ht⟩ <;> cases List.mem_singleton.1 ht

/-- A run of the host, seen from the file. -/
structure Host.Reaches (C : Crates) (Z : ZipWriter) (path : String) (fs : FileSystem String UInt8)
    (h : Host) (l : List HostLabel) (h' : Host) : Prop where
  sound : h'.Sound C Z path
  machine : ∃ lm, ((fileMachine Z path fs).resumed h.machine).Run lm h'.machine ∧
    Covers C lm (writtenIn l)
  version : ∀ s, writtenIn l s → s.container.header.formatVersion = L1.formatVersion

theorem host_reaches (hZ : ∀ entries, C.zipWrite entries = archive Z entries)
    (hrest : fs.AtRest path) (hh : h.Sound C Z path)
    (hr : ((host C Z A path fs).resumed h).Run l h') :
    h.Reaches C Z path fs l h' := by
  induction hr with
  | start hs =>
    subst hs
    refine ⟨hh, ⟨[], .start rfl, fun _ _ hm => absurd hm List.not_mem_nil⟩, fun s hs => ?_⟩
    rcases hs with ⟨t, ht⟩ | ⟨call, ht⟩ <;> exact absurd ht List.not_mem_nil
  | step _ hs ih =>
    obtain ⟨lm, hrun, hcov⟩ := ih.machine
    obtain ⟨lm', hrun', hcov'⟩ := hs.machine
    refine ⟨ih.sound.step hZ hrest hs, ⟨lm' ++ lm, hrun.append hrun', fun pid es hm => ?_⟩,
      fun s hw => ?_⟩
    · rcases List.mem_append.1 hm with hm | hm
      · obtain ⟨s, o, hw, hb⟩ := hcov' pid es hm
        exact ⟨s, o, writtenIn_cons.2 (.inl hw), hb⟩
      · obtain ⟨s, o, hw, hb⟩ := hcov pid es hm
        exact ⟨s, o, writtenIn_cons.2 (.inr hw), hb⟩
    · rcases writtenIn_cons.1 hw with hw | hw
      · exact hs.version ih.sound hw
      · exact ih.version s hw

/-- What a crash, or nothing at all, leaves at the path. -/
def Host.Finds (path : String) (h : Host) (bytes : Option Bytes) : Prop :=
  bytes = h.machine.disk.fs.read path ∨ ∃ fs', h.machine.disk.fs.Crash fs' ∧ bytes = fs'.read path

/-- What the calls of a run still put in the file is a container that they
wrote. -/
theorem coming_opens (hC : C.CodecLaws) (hZ : ∀ entries, C.zipWrite entries = archive Z entries)
    {m : Machine} (hm : m.Idle) {lm : List FileLabel} {P : VaultState → Prop} (hcov : Covers C lm P)
    (hv : ∀ s, P s → s.container.header.formatVersion = L1.formatVersion) {bytes : Option Bytes}
    (h : m.Coming Z lm bytes) : ∃ s, P s ∧ ParsesAs C bytes s.container := by
  rcases h with ⟨pid, p, b, hp, -⟩ | ⟨pid, entries, b, hmem, hb, rfl⟩
  · rw [hm pid] at hp
    cases hp
  · obtain ⟨s, o, hs, hes⟩ := hcov pid entries hmem
    refine ⟨s, hs, b, rfl, fun o' => Container.fromBytes_toArchive (o := o) hC (hv s hs) ?_ o'⟩
    unfold Container.toArchive
    rw [hes]
    exact (hZ entries).trans hb

theorem host_start (hrest : fs.AtRest path) :
    Host.Sound C Z path ⟨none, ⟨.start fs, fun _ => none, 0⟩⟩ where
  idle _ := rfl
  shows := by
    obtain ⟨r, -, hr⟩ := (FileMachine.refines (Z := Z) hrest).start _ rfl
    exact ⟨r, hr⟩
  disk := Host.no_vault
  version := Host.no_vault

/-- From a state on in which the last change at the path is synced. -/
theorem Host.Finds.since (hC : C.CodecLaws) (hZ : ∀ entries, C.zipWrite entries = archive Z entries)
    (hrest : fs.AtRest path) {lm : List FileLabel} (hm : (fileMachine Z path fs).Run lm h.machine)
    (hi : h.machine.Idle)
    (hsync : ∀ d ∈ h.machine.disk.fs.older, d.entry path = h.machine.disk.fs.dir.entry path)
    (hr : h.Reaches C Z path fs l h') {bytes : Option Bytes} (hf : h'.Finds path bytes) :
    bytes = h.machine.disk.fs.read path ∨ ∃ s, writtenIn l s ∧ ParsesAs C bytes s.container := by
  obtain ⟨lm', hrun, hcov⟩ := hr.machine
  obtain ⟨hnow, hcrash⟩ := container_superseded Z path hrest hm hsync hrun
  have hfound : bytes = h.machine.disk.fs.read path ∨ h.machine.Coming Z lm' bytes := by
    rcases hf with rfl | ⟨fs', hc, rfl⟩
    · exact hnow
    · exact hcrash fs' hc
  exact hfound.imp id fun hcoming => coming_opens hC hZ hi hcov hr.version hcoming

/-- **Whatever is found opens.** The vault's process may have died anywhere and
the power may have failed any number of times: what is found at the path, now
or after another crash, opens, as the container from the start or as one that
a call was writing. -/
theorem host_found (C : Crates) (Z : ZipWriter) (hC : C.CodecLaws)
    (hZ : ∀ entries, C.zipWrite entries = archive Z entries) (hrest : fs.AtRest path)
    {k₀ : Container} (h₀ : ParsesAs C (fs.read path) k₀) (hr : (host C Z A path fs).Run l h)
    {bytes : Option Bytes} (hf : h.Finds path bytes) :
    ∃ k, ParsesAs C bytes k ∧ (k = k₀ ∨ ∃ s, writtenIn l s ∧ k = s.container) := by
  obtain ⟨s, rfl, hrun⟩ := hr.fromStart
  have hreach := host_reaches hZ hrest (host_start hrest) hrun
  rcases Host.Finds.since (h := ⟨none, ⟨.start fs, fun _ => none, 0⟩⟩) hC hZ hrest (.start rfl)
    (fun _ => rfl)
    hrest.dirs hreach hf with rfl | ⟨s, hs, ho⟩
  · exact ⟨k₀, h₀, .inl rfl⟩
  · exact ⟨s.container, ho, .inr ⟨s, hs, rfl⟩⟩

/-! ## What the owner finds again -/

/-- The call returned `Ok`, and was not an import under option 1. -/
def HostLabel.Fine (C : Crates) : HostLabel → Prop
  | .called t | .wrote t _ => (∃ a, t.result = .ok a) ∧ ImportsNothing C t.call
  | .diedWriting call _ => ImportsNothing C call
  | _ => True

/-- Whoever opens the container and unlocks a compartment that was unlocked in
`s`, with the passphrase of then, finds the manifest of then. -/
def Remembers (C : Crates) (s : VaultState) : Prop :=
  ∀ w : Vault, w.state.container = s.container → ∀ c u header passphrase e,
    s.unlocked.get c = some u →
    w.state.container.header.compartments.find? (fun h => h.compartmentId = c) = some header →
    derive C (utf8 passphrase) header.kdfParamsMaster = .ok u.masterKey →
    (unlockRegion C c passphrase e w).1 = .ok () ∧
    (unlockRegion C c passphrase e w).2.state.unlocked.get c = some u

theorem Backed.remembers {s : VaultState} (hb : Backed C s) {bytes : Option Bytes}
    (ho : ParsesAs C bytes s.container) : Remembers C s := by
  obtain ⟨b, -, hparse⟩ := ho
  have hv : Synced C ⟨s, ∅, L2.Throttle.ThrottleTracker.new, some b, 0, []⟩ :=
    ⟨⟨b, rfl, hparse⟩, hb⟩
  exact fun w hw => hv.resumes w (.inl hw)

/-- A memory that is written has its manifests in its blobs. -/
theorem Writing.backed (hC : C.CodecLaws) (ha : C.AeadLaws) {v : Vault} {call : Call} {es : List In}
    {e : In} {d : Edit Reply} {s : VaultState} (hb : Backed C v.state) (hi : ImportsNothing C call)
    (he : call.Edits C A v es e (.ok d)) (hatt : Writing C e d.state d.tail s) : Backed C s := by
  cases Call.Edits.leaves hC ha he rfl with
  | fail x ht =>
    rw [ht] at hatt
    cases hatt
  | skip ht _ =>
    rw [ht] at hatt
    cases hatt
  | persist c ht hto =>
    rw [ht] at hatt
    cases hatt with
    | persist hu hblob => exact hto.backed hC ha hb hu hblob
  | write ht hw =>
    rw [ht] at hatt
    cases hatt
    exact hw hi hb

/-- What holds while all calls are fine. -/
structure Host.Kept (C : Crates) (h : Host) (l : List HostLabel) : Prop where
  synced : ∀ v, h.vault = some v → Synced C v
  backed : ∀ s, writtenIn l s → Backed C s

theorem opened_synced {e : In} {bytes : Bytes} {v : Vault} {k : Container}
    (ho : openVault C e bytes = .ok v) (hk : ParsesAs C (some bytes) k) : Synced C v := by
  obtain ⟨b, hb, hparse⟩ := hk
  cases hb
  unfold openVault at ho
  simp only [bind_ok, facade_ok, pure, Except.pure, Except.ok.injEq] at ho
  obtain ⟨k', hk', rfl⟩ := ho
  rw [hparse] at hk'
  cases hk'
  exact ⟨⟨bytes, rfl, hparse⟩, fun c u hu => by simp at hu⟩

theorem HostStep.kept (hC : C.CodecLaws) (ha : C.AeadLaws) (hk : ∀ v, h.vault = some v → Synced C v)
    (hopens : ∃ k, ParsesAs C (h.machine.disk.fs.read path) k) (hs : HostStep C Z A path fs a h h')
    (hf : a.Fine C) :
    (∀ v, h'.vault = some v → Synced C v) ∧ ∀ s, writtenIn [a] s → Backed C s := by
  have hnone : (∀ t s, a ≠ .wrote t s) → (∀ call s, a ≠ .diedWriting call s) →
      ∀ s, writtenIn [a] s → Backed C s := by
    rintro h1 h2 s (⟨t, ht⟩ | ⟨call, ht⟩)
    · exact absurd (List.mem_singleton.1 ht).symm (h1 t s)
    · exact absurd (List.mem_singleton.1 ht).symm (h2 call s)
  cases hs with
  | opened hr ho =>
    refine ⟨fun v hv => ?_, hnone (fun _ _ => nofun) fun _ _ => nofun⟩
    cases hv
    obtain ⟨k, hk⟩ := hopens
    rw [hr] at hk
    exact opened_synced ho hk
  | called hx hn =>
    refine ⟨fun v hv => ?_, hnone (fun _ _ => nofun) fun _ _ => nofun⟩
    cases hv
    obtain ⟨⟨b, hb⟩, hi⟩ := hf
    simp only at hb
    subst hb
    exact (hk _ rfl).step hC ha hi hx
  | wrote hx he hatt hw =>
    obtain ⟨⟨b, hb⟩, hi⟩ := hf
    simp only at hb
    subst hb
    refine ⟨fun v hv => ?_, ?_⟩
    · cases hv
      exact (hk _ rfl).step hC ha hi hx
    · rintro s (⟨t, ht⟩ | ⟨call, ht⟩)
      · cases List.mem_singleton.1 ht
        exact hatt.backed hC ha (hk _ rfl).backed hi he
      · cases List.mem_singleton.1 ht
  | died => exact ⟨Host.no_vault, hnone (fun _ _ => nofun) fun _ _ => nofun⟩
  | diedWriting he hatt ht =>
    refine ⟨Host.no_vault, ?_⟩
    rintro s (⟨t, ht⟩ | ⟨call, ht⟩)
    · cases List.mem_singleton.1 ht
    · cases List.mem_singleton.1 ht
      exact hatt.backed hC ha (hk _ rfl).backed hf he
  | lost => exact ⟨Host.no_vault, hnone (fun _ _ => nofun) fun _ _ => nofun⟩

theorem host_kept (hC : C.CodecLaws) (ha : C.AeadLaws)
    (hZ : ∀ entries, C.zipWrite entries = archive Z entries) (hrest : fs.AtRest path)
    {k₀ : Container} (h₀ : ParsesAs C (fs.read path) k₀) (hr : (host C Z A path fs).Run l h)
    (hf : ∀ a ∈ l, a.Fine C) :
    (∀ v, h.vault = some v → Synced C v) ∧ ∀ s, writtenIn l s → Backed C s := by
  induction hr with
  | start hs =>
    cases hs
    refine ⟨Host.no_vault, fun s hw => ?_⟩
    rcases hw with ⟨t, ht⟩ | ⟨call, ht⟩ <;> exact absurd ht List.not_mem_nil
  | step hr hs ih =>
    obtain ⟨hv, hw⟩ := ih fun a ha => hf a (List.mem_cons_of_mem _ ha)
    obtain ⟨k, hk, -⟩ := host_found C Z hC hZ hrest h₀ hr (.inl rfl)
    obtain ⟨hv', hw'⟩ := hs.kept hC ha hv ⟨k, hk⟩ (hf _ List.mem_cons_self)
    refine ⟨hv', fun s hs => ?_⟩
    rcases writtenIn_cons.1 hs with hs | hs
    · exact hw' s hs
    · exact hw s hs

/-- After a call has returned `Ok`, the file is what it wrote. -/
theorem HostStep.acknowledged (hC : C.CodecLaws) {t : Turn} {s : VaultState}
    (hs : HostStep C Z A path fs (.wrote t s) h h') (hh : h'.Sound C Z path)
    (hok : ∃ a, t.result = .ok a) (hv : s.container.header.formatVersion = L1.formatVersion) :
    ParsesAs C (h'.machine.disk.fs.read path) s.container := by
  cases hs with
  | @wrote m m' v v' call es r e d _ l hx he hatt hw =>
    obtain ⟨a, rfl⟩ := hok
    obtain ⟨-, ⟨hg, -, hd⟩ | ⟨-, ⟨x, hx⟩, -⟩⟩ := edits_settled he hx
    · obtain ⟨b, hb⟩ := hatt.goesThrough.1 hg
      rw [hatt.written, hb] at hd
      refine ⟨b, (hh.disk v' rfl).symm.trans hd, fun o => ?_⟩
      exact Container.fromBytes_toArchive hC hv ((writeAtomic_ok e).1 hb).1 o
    · cases hx

/-- **Nothing acknowledged is lost.** A call has returned `Ok` and the
directory has been synced since. Then whatever calls follow, wherever the
process dies, and however often the power fails: what is found at the path
opens, as the container that this call wrote or one that a later call was
writing. If all calls were fine, then whoever opens it and unlocks a
compartment finds the manifest that was in memory at that write. -/
theorem host_recovers (C : Crates) (Z : ZipWriter) (hC : C.CodecLaws) (ha : C.AeadLaws)
    (hZ : ∀ entries, C.zipWrite entries = archive Z entries) (hrest : fs.AtRest path)
    {k₀ : Container} (h₀ : ParsesAs C (fs.read path) k₀) {l₁ l₂ : List HostLabel} {t : Turn}
    {s : VaultState} {h₁ h₂ : Host} (hr₁ : (host C Z A path fs).Run (.wrote t s :: l₁) h₁)
    (hok : ∃ a, t.result = .ok a)
    (hsync : ∀ d ∈ h₁.machine.disk.fs.older, d.entry path = h₁.machine.disk.fs.dir.entry path)
    (hr₂ : ((host C Z A path fs).resumed h₁).Run l₂ h₂) {bytes : Option Bytes}
    (hf : h₂.Finds path bytes) :
    ∃ s', (s' = s ∨ writtenIn l₂ s') ∧ ParsesAs C bytes s'.container ∧
      ((∀ a ∈ l₂ ++ .wrote t s :: l₁, a.Fine C) → Remembers C s') := by
  obtain ⟨h0, hstart, hrun⟩ := hr₁.fromStart
  cases hstart
  have hreach := host_reaches hZ hrest (host_start hrest) hrun
  obtain ⟨lm, hm, -⟩ := hreach.machine
  have hreach₂ := host_reaches hZ hrest hreach.sound hr₂
  have hnow : ParsesAs C (h₁.machine.disk.fs.read path) s.container := by
    cases hr₁ with
    | step _ hs =>
      exact hs.acknowledged hC hreach.sound hok (hreach.version s (.inl ⟨t, List.mem_cons_self⟩))
  obtain ⟨s', hs', ho⟩ : ∃ s', (s' = s ∨ writtenIn l₂ s') ∧ ParsesAs C bytes s'.container := by
    rcases Host.Finds.since hC hZ hrest hm hreach.sound.idle hsync hreach₂
      hf with rfl | ⟨s', hs', ho⟩
    · exact ⟨s, .inl rfl, hnow⟩
    · exact ⟨s', .inr hs', ho⟩
  refine ⟨s', hs', ho, fun hfine => ?_⟩
  obtain ⟨-, hb⟩ := host_kept hC ha hZ hrest h₀ (hr₁.append hr₂) hfine
  refine (hb s' ?_).remembers ho
  rcases hs' with rfl | ⟨t', ht⟩ | ⟨call, ht⟩
  · exact .inl ⟨t, List.mem_append_right _ List.mem_cons_self⟩
  · exact .inl ⟨t', List.mem_append_left _ ht⟩
  · exact .inr ⟨call, List.mem_append_left _ ht⟩

end

/-! ## A power cut after a call -/

/-- The zip crate, symbolically: it writes when it is told to finish. -/
noncomputable def symbolicZip : ZipWriter where
  State := List (String × Bytes) × Option String
  new := ([], none)
  startFile z name := .ok ([], (z.1, some name))
  writeAll z bytes := z.2.elim (.error "No file has been started") fun name =>
    .ok ([], (z.1 ++ [(name, bytes)], none))
  finish z := .ok ([(0, (Crates.symbolic.zipWrite z.1).toOption.getD [])], ())
  ioError x := x

theorem archiveFrom_symbolic : ∀ (entries es : List (String × Bytes)) (o : Option String),
    archiveFrom symbolicZip entries (es, o) [] = Crates.symbolic.zipWrite (es ++ entries)
  | [], es, o => by
    rw [List.append_nil]
    exact congrArg Except.ok
      (by simp [applyChunks, FileSystem.splice, Crates.symbolic, Except.toOption])
  | (name, bytes) :: rest, es, o => by
    have hrest := archiveFrom_symbolic rest (es ++ [(name, bytes)]) none
    rw [List.append_assoc] at hrest
    exact (archiveFrom_cons symbolicZip rfl rfl).trans hrest

theorem zipWrite_symbolic (entries : List (String × Bytes)) :
    Crates.symbolic.zipWrite entries = archive symbolicZip entries :=
  (archiveFrom_symbolic entries [] none).symm

/-- The sample vault is opened, gets another compartment, and the power fails. -/
theorem sampleHost :
    ∃ (fs : FileSystem String UInt8) (k₀ : Container) (l₁ : List HostLabel) (t : Turn)
    (s : VaultState) (h₁ h₂ : Host), fs.AtRest "a.vlt" ∧
    ParsesAs Crates.symbolic (fs.read "a.vlt") k₀ ∧
      headerIds s = [Uuid.rep 10, Uuid.rep 40] ∧
      (host Crates.symbolic symbolicZip Vault.Admits "a.vlt" fs).Run (.wrote t s :: l₁) h₁ ∧
      (∃ a, t.result = .ok a) ∧ h₁.machine.disk.fs.older = [] ∧
      ((host Crates.symbolic symbolicZip Vault.Admits "a.vlt" fs).resumed h₁).Run [.lost] h₂ ∧
      ∀ a ∈ [HostLabel.lost] ++ .wrote t s :: l₁, a.Fine Crates.symbolic := by
  obtain ⟨b₀, hb₀⟩ := writeAtomic_symbolic sampleNext_works.io sampleVault.state.container
  have hparse : ∀ o, Container.fromBytes Crates.symbolic o b₀ =
      .ok sampleVault.state.container := by
    refine fun o => Container.fromBytes_toArchive Crates.symbolic_codec ?_
      ((writeAtomic_ok sampleNext).1 hb₀).1 o
    obtain ⟨_, _, _, _, -, -, -, hs, -⟩ := create_ok sampleVault_create
    rw [hs]
    rfl
  let fs : FileSystem String UInt8 := { sampleFiles with files := fun _ => ⟨b₀, true⟩ }
  let m : Machine := ⟨.start fs, fun _ => none, 0⟩
  let v : Vault :=
    ⟨⟨sampleVault.state.container, ∅⟩, ∅, L2.Throttle.ThrottleTracker.new, some b₀, 0, []⟩
  have hopen : openVault Crates.symbolic sampleNext b₀ = .ok v := by
    unfold openVault
    simp only [hparse, facade, bind, Except.bind, pure, Except.pure]
    rfl
  obtain ⟨d, v', hd, ht, hx, -, hids, -⟩ := exec_addCall (admits_sampleNext (v := v) rfl)
    (show headerIds v.state = _ from sampleVault_state.headerIds)
  have he : (Call.addCompartment "more" "second" .desktop).Edits Crates.symbolic Vault.Admits v
      [sampleNext]
      sampleNext (.ok (d.map .compartment)) := by
    have he :=
      Call.Edits.addCompartment (C := Crates.symbolic) (A := Vault.Admits) (v := v) "more" "second"
      .desktop sampleNext
    rw [hd] at he
    exact he
  have hatt : Writing Crates.symbolic sampleNext d.state d.tail d.state := by
    rw [ht]
    exact .write
  obtain ⟨b, hb⟩ := writeAtomic_symbolic sampleNext_works.io d.state.container
  obtain ⟨entries, hes, hzip⟩ : ∃ entries,
      d.state.container.buildEntries Crates.symbolic sampleNext.orders =
      .ok entries ∧ archive symbolicZip entries = .ok b := by
    have hto := ((writeAtomic_ok sampleNext).1 hb).1
    unfold Container.toArchive at hto
    obtain ⟨entries, hes, hz⟩ := bind_ok.1 hto
    exact ⟨entries, hes, (zipWrite_symbolic entries).symm.trans hz⟩
  obtain ⟨m', l, hsolo, hold⟩ := Solo.exists_ok "a.vlt" fs 7 (m := m) rfl hzip
  have hwrite : HostStep Crates.symbolic symbolicZip Vault.Admits "a.vlt" fs
      (.wrote ⟨v, .addCompartment "more" "second" .desktop, [sampleNext],
        .ok (.compartment d.reply), v'⟩ d.state)
      ⟨some v, m⟩ ⟨some v', m'⟩ := .wrote hx he hatt (.solo hes hsolo)
  have hcrash : m'.disk.fs.Crash m'.disk.fs := ⟨List.mem_cons_self, hold, fun _ _ => rfl⟩
  refine ⟨fs, sampleVault.state.container, [.opened], _, d.state, _, _, ?_, ⟨b₀, rfl, hparse⟩, hids,
    .step (.step (.start rfl) (.opened (e := sampleNext) rfl hopen)) hwrite, ⟨_, rfl⟩, hold,
    .step (.start rfl) (.lost (.crashed hcrash)), ?_⟩
  · exact ⟨fun _ hd => absurd hd List.not_mem_nil, fun _ _ => rfl⟩
  · intro a ha
    simp only [List.cons_append, List.nil_append, List.mem_cons, List.not_mem_nil, or_false] at ha
    rcases ha with rfl | rfl | rfl
    · trivial
    · exact ⟨⟨_, rfl⟩, trivial⟩
    · trivial

theorem host_found_sample : ∃ (h : Host) (k : Container), h.vault = none ∧
    ParsesAs Crates.symbolic (h.machine.disk.fs.read "a.vlt") k := by
  obtain ⟨fs, k₀, l₁, t, s, h₁, h₂, hrest, h₀, -, hr₁, -, -, hr₂, -⟩ := sampleHost
  obtain ⟨k, hk, -⟩ :=
    host_found Crates.symbolic symbolicZip Crates.symbolic_codec zipWrite_symbolic hrest h₀
    (hr₁.append hr₂) (.inl rfl)
  refine ⟨h₂, k, ?_, hk⟩
  cases hr₂ with
  | step _ hs =>
    cases hs
    rfl

/-- The new compartment survives the power cut. -/
theorem host_recovers_sample : ∃ (h₂ : Host) (s : VaultState), h₂.vault = none ∧
    headerIds s = [Uuid.rep 10, Uuid.rep 40] ∧
    ParsesAs Crates.symbolic (h₂.machine.disk.fs.read "a.vlt") s.container ∧
    Remembers Crates.symbolic s := by
  obtain ⟨fs, k₀, l₁, t, s, h₁, h₂, hrest, h₀, hids, hr₁, hok, hold, hr₂, hfine⟩ := sampleHost
  have hsync : ∀ d ∈ h₁.machine.disk.fs.older,
      d.entry "a.vlt" = h₁.machine.disk.fs.dir.entry "a.vlt" := by
    rw [hold]
    nofun
  obtain ⟨s', hs', hk, hrem⟩ :=
    host_recovers Crates.symbolic symbolicZip Crates.symbolic_codec Crates.symbolic_aead
    zipWrite_symbolic hrest h₀ hr₁ hok hsync hr₂ (.inl rfl)
  have hnone : h₂.vault = none := by
    cases hr₂ with
    | step _ hs =>
      cases hs
      rfl
  rcases hs' with rfl | ⟨t', ht⟩ | ⟨call, ht⟩
  · exact ⟨h₂, s', hnone, hids, hk, hrem hfine⟩
  · cases List.mem_singleton.1 ht
  · cases List.mem_singleton.1 ht

end VaultSigner.L5
