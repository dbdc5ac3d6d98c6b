import VaultSigner.Core.Register
import VaultSigner.L5Runs.Replaced

/-!
# Many processes, one container (`container.rs`)

Any number of processes write the same container. Each runs one
`write_entries_atomic` at a time, system call by system call among those of
the others. Any of them may be killed at any point, and a power cut ends them
all and loses what was not synced. Their temp files differ, since the name
carries the process id; ids are used again, and so are the temp files that
dead processes left.

Results:
* `WriteCall.outline`: one call, whatever the other processes do.
* `FileMachine.refines`: together they are a register that survives crashes.
* `container_atomic`, `container_superseded`: so every run is one of the
  register, and what has been superseded on the disk does not come back.
* `writeEntriesAtomic_succeeds`: a call in which nothing fails is durable.
-/
namespace VaultSigner.L5
open VaultSigner.Core VaultSigner.L1

/-- A call under way: its number, the files it uses, and what it writes. -/
structure WriteCall where
  me : Nat
  temp : String
  path : String
  ne : temp ≠ path
  writes : VaultResult Bytes

namespace WriteCall

section
variable (W : WriteCall)

/-- What the other processes do. -/
structure Rely (d d' : Disk) : Prop where
  isPrivate : d.fs.Private W.path → d'.fs.Private W.path
  same : d.fs.Same d'.fs W.temp
  renamed : W.me ∈ d'.renamed ↔ W.me ∈ d.renamed

/-- What one system call does to `path`: nothing, or it puts the archive there. -/
inductive Effect (d d' : Disk) : Prop
  | quiet (renamed : d'.renamed = d.renamed) (read : d'.fs.read W.path = d.fs.read W.path)
      (settled : ∀ P, d.fs.Settled W.path P → d'.fs.Settled W.path P)
  | landed {b : Bytes} (writes : W.writes = .ok b) (before : W.me ∉ d.renamed)
      (renamed : d'.renamed = W.me :: d.renamed) (read : d'.fs.read W.path = some b)
      (settled : ∀ P, P (some b) → d.fs.Settled W.path P → d'.fs.Settled W.path P)

/-- What the call's own system calls do. -/
structure Guar (d d' : Disk) : Prop where
  isPrivate : d'.fs.Private W.path
  same : ∀ t, t ≠ W.temp → t ≠ W.path → d.fs.Same d'.fs t
  effect : W.Effect d d'

/-! ## Where the call stands -/

structure Idle (d : Disk) : Prop where
  isPrivate : d.fs.Private W.path
  renamed : W.me ∉ d.renamed

structure Holds (file : Nat) (data : Bytes) (d : Disk) : Prop extends W.Idle d where
  entry : d.fs.dir.entry W.temp = some file
  data : (d.fs.files file).data = data

structure Synced (file : Nat) (data : Bytes) (d : Disk) : Prop extends W.Holds file data d where
  synced : (d.fs.files file).synced = true

structure Landed (d : Disk) : Prop where
  isPrivate : d.fs.Private W.path
  renamed : W.me ∈ d.renamed

end

variable {W : WriteCall} {file : Nat} {data : Bytes} {d d' : Disk}

theorem Rely.refl (d : Disk) : W.Rely d d := ⟨id, .refl _ _, Iff.rfl⟩

theorem Rely.trans {d'' : Disk} (h : W.Rely d d') (h' : W.Rely d' d'') : W.Rely d d'' :=
  ⟨fun hp => h'.isPrivate (h.isPrivate hp), h.same.trans h'.same, h'.renamed.trans h.renamed⟩

theorem Guar.refl (h : d.fs.Private W.path) : W.Guar d d :=
  ⟨h, fun t _ _ => .refl _ t, .quiet rfl rfl fun _ h => h⟩

/-- What one call does is what another, with another temp file, relies on. -/
theorem Guar.rely {V : WriteCall} (h : W.Guar d d') (hp : V.path = W.path) (ht : V.temp ≠ W.temp)
    (hm : V.me ≠ W.me) : V.Rely d d' where
  isPrivate _ := hp ▸ h.isPrivate
  same := h.same V.temp ht fun he => V.ne (he.trans hp.symm)
  renamed := by
    cases h.effect with
    | quiet hr => rw [hr]
    | landed _ _ hr =>
      rw [hr, List.mem_cons]
      exact ⟨fun h => h.resolve_left hm, .inr⟩

theorem Idle.stable : Disk.Stable W.Rely W.Idle :=
  fun _ _ hr h => ⟨hr.isPrivate h.isPrivate, fun hm => h.renamed (hr.renamed.1 hm)⟩

theorem Holds.stable : Disk.Stable W.Rely (W.Holds file data) := by
  intro d d' hr h
  refine ⟨Idle.stable d d' hr h.toIdle, hr.same.entry.trans h.entry, ?_⟩
  rw [hr.same.file file h.entry]
  exact h.data

theorem Synced.stable : Disk.Stable W.Rely (W.Synced file data) := by
  intro d d' hr h
  refine ⟨Holds.stable d d' hr h.toHolds, ?_⟩
  rw [hr.same.file file h.entry]
  exact h.synced

theorem Landed.stable : Disk.Stable W.Rely W.Landed :=
  fun _ _ hr h => ⟨hr.isPrivate h.isPrivate, hr.renamed.2 h.renamed⟩

/-! ## The system calls -/

theorem Idle.stays (h : W.Idle d) : W.Guar d d := .refl h.isPrivate

theorem Idle.create (h : W.Idle d) :
    let d' : Disk := { d with
      fs := (d.fs.create W.temp).1
      holders := W.me :: d.holders
      collided := d.collided || d.holders.any (· ≠ W.me) }
    W.Guar d d' ∧ W.Holds (d.fs.create W.temp).2 [] d' := by
  have hne : W.path ≠ W.temp := fun he => W.ne he.symm
  have hp := h.isPrivate.create hne
  refine ⟨⟨hp, fun t ht _ => .create ht, .quiet rfl (FileSystem.read_create hne) fun P hs =>
    hs.create hne (h.isPrivate W.temp W.ne)⟩, ⟨hp, h.renamed⟩, FileSystem.create_entry .., ?_⟩
  exact congrArg File.data (FileSystem.create_data ..)

/-- The call changes the file it holds. -/
theorem Holds.touch (hd : W.Holds file data d) (f : File UInt8) (holders : List Nat) :
    W.Guar d { d with fs := d.fs.setFile file f, holders := holders } ∧
      W.Holds file f.data { d with fs := d.fs.setFile file f, holders := holders } ∧
      (d.fs.setFile file f).files file = f := by
  have happ : ∀ d' ∈ d.fs.dirs, d'.entry W.path ≠ some file :=
    hd.isPrivate W.temp W.ne file hd.entry
  have hf : (d.fs.setFile file f).files file = f := FileSystem.setFile_self file f
  refine ⟨⟨hd.isPrivate, fun t ht _ => .setFile f hd.entry ht, .quiet rfl ?_ fun P hs =>
    hs.setFile f happ⟩,
    ⟨⟨hd.isPrivate, hd.renamed⟩, hd.entry, congrArg File.data hf⟩, hf⟩
  exact FileSystem.read_setFile f (happ d.fs.dir List.mem_cons_self)

theorem Holds.write (hd : W.Holds file data d) (off : Nat) (chunk : Bytes) :
    W.Guar d { d with fs := d.fs.write file off chunk } ∧
      W.Holds file (FileSystem.splice data off chunk)
      { d with fs := d.fs.write file off chunk } := by
  obtain ⟨hg, hh, -⟩ :=
    hd.touch ⟨FileSystem.splice (d.fs.files file).data off chunk, false⟩ d.holders
  rw [← hd.data]
  exact ⟨hg, hh⟩

theorem Holds.release (hd : W.Holds file data d) :
    W.Guar d { d with holders := d.holders.erase W.me } ∧
    W.Idle { d with holders := d.holders.erase W.me } :=
  ⟨⟨hd.isPrivate, fun t _ _ => .refl _ t, .quiet rfl rfl fun _ h => h⟩, hd.isPrivate, hd.renamed⟩

theorem Holds.sync (hd : W.Holds file data d) : W.Guar d { d with fs := d.fs.sync file } ∧
    W.Synced file data { d with fs := d.fs.sync file } := by
  obtain ⟨hg, hh, hf⟩ := hd.touch ⟨(d.fs.files file).data, true⟩ d.holders
  exact ⟨hg, ⟨hh.toIdle, hh.entry, hh.data.trans hd.data⟩, congrArg File.synced hf⟩

theorem Synced.rename {fs : FileSystem String UInt8} (harch : W.writes = .ok data)
    (hd : W.Synced file data d) (hr : d.fs.rename W.temp W.path = some fs) :
    let d' : Disk :=
  { d with fs := fs, holders := d.holders.erase W.me, renamed := W.me :: d.renamed }
    W.Guar d d' ∧ W.Landed d' := by
  have hp := hd.isPrivate.rename hr W.ne
  have hread := FileSystem.read_rename hd.entry hr
  rw [hd.data] at hread
  refine ⟨⟨hp, fun t ht hn => .rename hr ht hn, .landed harch hd.renamed rfl hread fun P hP hs =>
    ?_⟩,
    hp, List.mem_cons_self⟩
  refine hs.rename hd.entry hd.synced ?_ hr
  rw [hd.data]
  exact hP

theorem Landed.syncDir (hd : W.Landed d) : W.Guar d { d with fs := d.fs.syncDir } ∧
    W.Landed { d with fs := d.fs.syncDir } := by
  have hp := hd.isPrivate.syncDir
  exact ⟨⟨hp, fun t _ _ => .syncDir _ t, .quiet rfl rfl fun _ hs => hs.syncDir⟩, hp, hd.renamed⟩

/-- One call among the other processes'. -/
def outline (W : WriteCall) : Outline W.me W.temp W.path W.writes W.Rely W.Guar where
  idle := W.Idle
  holds := W.Holds
  synced := W.Synced
  landed := W.Landed
  givenUp := W.Idle
  refl := Rely.refl
  idle_stable := Idle.stable
  holds_stable _ _ := Holds.stable
  synced_stable _ _ := Synced.stable
  landed_stable := Landed.stable
  givenUp_stable := Idle.stable
  stays _ hd := ⟨hd.stays, hd⟩
  creates _ hd := hd.create
  writesAt _ _ _ off chunk hd := hd.write off chunk
  garbles _ _ d f hd := ⟨(hd.touch f d.holders).1, (hd.touch f d.holders).2.1⟩
  drops _ _ d f hd :=
    ⟨(hd.touch f (d.holders.erase W.me)).1, (hd.touch f (d.holders.erase W.me)).2.1.toIdle⟩
  releases _ _ _ hd := hd.release
  syncs _ _ _ hd := hd.sync
  holds_of_synced _ _ _ hd := hd.toHolds
  renames _ _ _ _ harch hd hr := hd.rename harch hr
  syncsDir _ hd := ⟨.refl hd.isPrivate, hd.syncDir⟩

end WriteCall

/-! ## The machine -/

/-- A process at work on a call: the call's number, what it writes, and what is
left to do. -/
structure Process where
  id : Nat
  entries : List (String × Bytes)
  code : FileOp Unit

/-- The disk, the processes by their ids, and how many calls have begun. -/
structure Machine where
  disk : Disk
  procs : Nat → Option Process
  begun : Nat

def Machine.setProc (m : Machine) (pid : Nat) (p : Option Process) : Machine :=
  { m with procs := Function.update m.procs pid p }

inductive FileLabel where
  | begun (pid : Nat) (entries : List (String × Bytes))
  | worked (pid : Nat)
  | ended (pid : Nat) (r : VaultResult Unit)
  | killed (pid : Nat)
  | crashed

section
variable (Z : ZipWriter) (path : String)

inductive FileStep : FileLabel → Machine → Machine → Prop
  | begun {m : Machine} {pid : Nat} (entries : List (String × Bytes)) (h : m.procs pid = none) :
      FileStep (.begun pid entries) m { m.setProc pid (some ⟨m.begun, entries,
        writeEntriesAtomic Z m.begun pid path entries⟩) with begun := m.begun + 1 }
  | worked {m : Machine} {pid : Nat} {p : Process} {u : SysIn → Disk → Disk}
      {n : SysIn → Disk → FileOp Unit} (e : SysIn) (h : m.procs pid = some p)
        (hc : p.code = .region u n) :
      FileStep (.worked pid) m
        { m.setProc pid (some { p with code := n e m.disk }) with disk := u e m.disk }
  | ended {m : Machine} {pid : Nat} {p : Process} {r : VaultResult Unit} (h : m.procs pid = some p)
      (hc : p.code = .done r) : FileStep (.ended pid r) m (m.setProc pid none)
  | killed {m : Machine} {pid : Nat} {p : Process} (h : m.procs pid = some p) :
      FileStep (.killed pid) m (m.setProc pid none)
  | crashed {m : Machine} {fs : FileSystem String UInt8} (h : m.disk.fs.Crash fs) :
      FileStep .crashed m ⟨{ m.disk with fs := fs }, fun _ => none, m.begun⟩

def fileMachine (fs : FileSystem String UInt8) : System FileLabel Machine where
  Start m := m = ⟨.start fs, fun _ => none, 0⟩
  Step := FileStep Z path

/-- What a call puts in the file, if it gets that far. -/
def content (entries : List (String × Bytes)) : Option (Option Bytes) :=
  (archive Z entries).toOption.map some

def FileLabel.toRegister : FileLabel → Register.Label (Option Bytes) Nat
  | .begun pid entries => .begun pid (content Z entries)
  | .worked _ => .worked
  | .ended pid (.ok _) => .ended pid true
  | .ended pid (.error _) => .ended pid false
  | .killed pid => .killed pid
  | .crashed => .crashed

def Process.call (pid : Nat) (p : Process) : WriteCall where
  me := p.id
  temp := tempPathIn path pid
  path := path
  ne := tempPathIn_ne path pid
  writes := archive Z p.entries

/-- What the process will do from here. -/
def Process.Obeys (pid : Nat) (p : Process) (d : Disk) : Prop :=
  p.code.Relies (fun _ _ => True) (p.call Z path pid).Rely (p.call Z path pid).Guar
    (Disk.Then (fun _ => (p.call Z path pid).Landed) (p.call Z path pid).Idle) d

/-- A process and the register's call for it. -/
inductive Seat (d : Disk) (begun pid : Nat) :
    Option Process → Option (PendingPut (Option Bytes)) → Prop
  | free : Seat d begun pid none none
  | taken {p : Process} (obeys : p.Obeys Z path pid d) (number : p.id < begun) :
      Seat d begun pid (some p) (some ⟨content Z p.entries, decide (p.id ∈ d.renamed)⟩)

/-- The machine shows the register. -/
structure Shows (m : Machine) (r : Register (Option Bytes) Nat) : Prop where
  now : m.disk.fs.read path = r.now
  settled : m.disk.fs.Settled path (· ∈ r.may)
  isPrivate : m.disk.fs.Private path
  seats : ∀ pid, Seat Z path m.disk m.begun pid (m.procs pid) (r.calls pid)
  distinct : ∀ pid pid' p p', m.procs pid = some p → m.procs pid' = some p' → p.id = p'.id →
    pid = pid'
  renamed : ∀ i ∈ m.disk.renamed, i < m.begun

end

section
variable {Z : ZipWriter} {path : String} {m : Machine} {r : Register (Option Bytes) Nat} {pid : Nat}
  {p : Process}

@[simp] theorem setProc_self (m : Machine) (pid : Nat) (p : Option Process) :
    (m.setProc pid p).procs pid = p := Function.update_self ..

theorem setProc_ne (m : Machine) {pid pid' : Nat} (p : Option Process) (h : pid' ≠ pid) :
    (m.setProc pid p).procs pid' = m.procs pid' := Function.update_of_ne h ..

/-- Two processes do not use one temp file. -/
theorem tempPathIn_inj {pid pid' : Nat} (h : tempPathIn path pid = tempPathIn path pid') :
    pid = pid' := by
  have hlist := congrArg String.toList h
  simp only [tempPathIn, toString, String.toList_append, List.append_cancel_right_eq,
    List.append_cancel_left_eq, Nat.toList_repr] at hlist
  have hnum := congrArg (fun l => Nat.ofDigitChars 10 l 0) hlist
  simpa using hnum

theorem FileLabel.eq_crashed {a : FileLabel} (h : a.toRegister Z = .crashed) : a = .crashed := by
  cases a with
  | crashed => rfl
  | ended pid x => cases x <;> cases h
  | _ => cases h

theorem FileLabel.eq_killed {a : FileLabel} (h : a.toRegister Z = .killed pid) :
    a = .killed pid := by
  cases a with
  | killed => cases h; rfl
  | ended pid x => cases x <;> cases h
  | _ => cases h

theorem FileLabel.eq_ended {a : FileLabel} {ok : Bool} (h : a.toRegister Z = .ended pid ok) :
    ∃ x, a = .ended pid x := by
  cases a with
  | ended pid x => cases x <;> cases h <;> exact ⟨_, rfl⟩
  | _ => cases h

/-! ## Step by step -/

/-- A process that is done has ended well exactly if it has renamed its file. -/
theorem Process.Obeys.done {x : VaultResult Unit} {d : Disk} (h : p.Obeys Z path pid d)
    (hc : p.code = .done x) :
    (∃ a, x = .ok a ∧ p.id ∈ d.renamed) ∨ ∃ e, x = .error e ∧ p.id ∉ d.renamed := by
  unfold Process.Obeys at h
  rw [hc] at h
  have hx := h d (.refl d)
  cases x with
  | ok a => exact .inl ⟨a, rfl, hx.renamed⟩
  | error e => exact .inr ⟨e, rfl, hx.renamed⟩

/-- The system calls of another process do not concern this one. -/
theorem Process.Obeys.other {pid' : Nat} {q : Process} {d d' : Disk} (h : q.Obeys Z path pid' d)
    (hg : (p.call Z path pid).Guar d d') (hpid : pid' ≠ pid) (hid : q.id ≠ p.id) :
    q.Obeys Z path pid' d' := by
  have hr : (q.call Z path pid').Rely d d' := hg.rely rfl (fun he => hpid (tempPathIn_inj he)) hid
  exact Prog.Relies.stable (fun _ _ _ h1 h2 => h1.trans h2) hr h

/-- A seat in whose place nothing changes that it is about. -/
theorem Seat.other {d d' : Disk} {b b' : Nat} {q : Option Process}
    {c : Option (PendingPut (Option Bytes))} (h : Seat Z path d b pid q c) (hb : b ≤ b')
    (ho : ∀ p, q = some p → p.Obeys Z path pid d → p.Obeys Z path pid d' ∧
      (p.id ∈ d'.renamed ↔ p.id ∈ d.renamed)) : Seat Z path d' b' pid q c := by
  cases h with
  | free => exact .free
  | taken obeys number =>
    obtain ⟨h1, h2⟩ := ho _ rfl obeys
    rw [← decide_eq_decide.2 h2]
    exact .taken h1 (Nat.lt_of_lt_of_le number hb)

theorem Shows.busy (h : Shows Z path m r) (hp : m.procs pid = some p) :
    r.calls pid = some ⟨content Z p.entries, decide (p.id ∈ m.disk.renamed)⟩ ∧
      p.Obeys Z path pid m.disk ∧ p.id < m.begun := by
  have hs := h.seats pid
  rw [hp] at hs
  generalize r.calls pid = c at hs
  cases hs with
  | taken obeys number => exact ⟨rfl, obeys, number⟩

theorem Shows.free (h : Shows Z path m r) (hp : m.procs pid = none) : r.calls pid = none := by
  have hs := h.seats pid
  rw [hp] at hs
  generalize r.calls pid = c at hs
  cases hs with
  | free => rfl

/-- A seat is given to another process, or given up. -/
theorem distinct_setProc {o : Option Process}
    (h : ∀ pid pid' p p', m.procs pid = some p → m.procs pid' = some p' → p.id = p'.id → pid = pid')
    (ho : ∀ p, o = some p → ∀ pid' p', pid' ≠ pid → m.procs pid' = some p' → p'.id ≠ p.id) :
    ∀ i j p p', (m.setProc pid o).procs i = some p → (m.setProc pid o).procs j = some p' →
    p.id = p'.id → i = j := by
  intro i j p p' hi hj hid
  by_cases hip : i = pid
  · by_cases hjp : j = pid
    · rw [hip, hjp]
    · subst hip
      rw [setProc_self] at hi
      rw [setProc_ne m o hjp] at hj
      exact absurd hid.symm (ho p hi j p' hjp hj)
  · rw [setProc_ne m o hip] at hi
    by_cases hjp : j = pid
    · subst hjp
      rw [setProc_self] at hj
      exact absurd hid (ho p' hj i p hip hi)
    · rw [setProc_ne m o hjp] at hj
      exact h i j p p' hi hj hid

/-- A process begins a call. -/
theorem Shows.begun (h : Shows Z path m r) (entries : List (String × Bytes))
    (hp : m.procs pid = none) :
    Shows Z path
    { m.setProc pid (some ⟨m.begun, entries, writeEntriesAtomic Z m.begun pid path entries⟩) with
      begun := m.begun + 1 } (r.setCall pid (some ⟨content Z entries, false⟩)) := by
  have hnew : m.begun ∉ m.disk.renamed := fun hm => Nat.lt_irrefl _ (h.renamed _ hm)
  refine ⟨h.now, h.settled, h.isPrivate, fun pid' => ?_, ?_, fun i hi =>
    Nat.lt_succ_of_lt (h.renamed i hi)⟩
  · by_cases hpid : pid' = pid
    · subst hpid
      rw [Register.setCall_self, setProc_self, ← decide_eq_false hnew]
      refine .taken ?_ (Nat.lt_succ_self _)
      exact (WriteCall.outline
        (Process.call Z path pid' ⟨m.begun, entries, _⟩)).writeEntriesAtomic_relies Z
        rfl rfl ⟨h.isPrivate, hnew⟩
    · rw [Register.setCall_ne _ _ hpid, setProc_ne _ _ hpid]
      exact (h.seats pid').other (Nat.le_succ _) fun _ _ ho => ⟨ho, Iff.rfl⟩
  · refine distinct_setProc h.distinct fun p hp pid' p' _ hq => ?_
    cases hp
    exact Nat.ne_of_lt (h.busy hq).2.2

/-- A process is gone. -/
theorem Shows.left (h : Shows Z path m r) :
    Shows Z path (m.setProc pid none) (r.setCall pid none) := by
  refine ⟨h.now, h.settled, h.isPrivate, fun pid' => ?_, distinct_setProc h.distinct nofun,
    h.renamed⟩
  by_cases hpid : pid' = pid
  · subst hpid
    rw [Register.setCall_self, setProc_self]
    exact .free
  · rw [Register.setCall_ne _ _ hpid, setProc_ne _ _ hpid]
    exact h.seats pid'

/-- A power cut. -/
theorem Shows.crashed (h : Shows Z path m r) {fs : FileSystem String UInt8}
    (hc : m.disk.fs.Crash fs) :
    Shows Z path ⟨{ m.disk with fs := fs }, fun _ => none, m.begun⟩
      ⟨fs.read path, {fs.read path}, fun _ => none⟩ := by
  exact ⟨rfl, h.settled.crashed hc, .crash hc, fun _ => .free, nofun, h.renamed⟩

/-- One system call of one process. -/
theorem Shows.worked (h : Shows Z path m r) {u : SysIn → Disk → Disk}
    {n : SysIn → Disk → FileOp Unit} (e : SysIn) (hp : m.procs pid = some p)
    (hc : p.code = .region u n) :
    ∃ r', Register.Step .worked r r' ∧
      Shows Z path { m.setProc pid (some { p with code := n e m.disk }) with disk := u e m.disk }
      r' := by
  obtain ⟨hcall, hobeys, hnum⟩ := h.busy hp
  unfold Process.Obeys at hobeys
  rw [hc] at hobeys
  obtain ⟨hg, hnext⟩ := hobeys m.disk (.refl _) e trivial
  have hnext' : Process.Obeys Z path pid { p with code := n e m.disk } (u e m.disk) := hnext
  have hdist : ∀ i j q q', (m.setProc pid (some { p with code := n e m.disk })).procs i = some q →
      (m.setProc pid (some { p with code := n e m.disk })).procs j = some q' → q.id = q'.id →
        i = j := by
    refine distinct_setProc h.distinct fun q hq pid' p' hne hp' hid => ?_
    cases hq
    exact hne (h.distinct _ _ _ _ hp' hp hid)
  have hothers : ∀ pid' ≠ pid, ∀ q, m.procs pid' = some q → q.Obeys Z path pid' m.disk →
      q.Obeys Z path pid' (u e m.disk) ∧ (q.id ∈ (u e m.disk).renamed ↔ q.id ∈ m.disk.renamed) := by
    intro pid' hne q hq ho
    have hid : q.id ≠ p.id := fun hid => hne (h.distinct _ _ _ _ hq hp hid)
    refine ⟨ho.other hg hne hid, ?_⟩
    exact (hg.rely (V := q.call Z path pid') rfl (fun he => hne (tempPathIn_inj he)) hid).renamed
  cases hg.effect with
  | quiet hren hread hset =>
    refine ⟨r, .idle r, hread.trans h.now, hset _ h.settled, hg.isPrivate, fun pid' => ?_,
      hdist, ?_⟩
    · by_cases hpid : pid' = pid
      · subst hpid
        rw [setProc_self, hcall, ← hren]
        exact .taken (p := { p with code := n e m.disk }) hnext' hnum
      · rw [setProc_ne _ _ hpid]
        exact (h.seats pid').other (Nat.le_refl _) (hothers pid' hpid)
    · intro i hi
      rw [hren] at hi
      exact h.renamed i hi
  | @landed b hw hbefore hren hread hset =>
    have hb : archive Z p.entries = .ok b := hw
    have hcont : content Z p.entries = some (some b) := by simp [content, hb, Except.toOption]
    have hout : p.id ∉ m.disk.renamed := hbefore
    have hval : r.calls pid = some ⟨some (some b), false⟩ := by
      rw [hcall, hcont, decide_eq_false hout]
    refine ⟨r.put pid (some b), .put hval, hread, ?_, hg.isPrivate, fun pid' => ?_, hdist, ?_⟩
    · exact hset _ (Set.mem_insert _ _) (h.settled.mono fun c hc => Set.mem_insert_of_mem _ hc)
    · by_cases hpid : pid' = pid
      · subst hpid
        have hin : p.id ∈ (u e m.disk).renamed := by
          rw [hren]
          exact List.mem_cons_self
        rw [setProc_self, Register.put_self, ← hcont, ← decide_eq_true hin]
        exact .taken (p := { p with code := n e m.disk }) hnext' hnum
      · rw [setProc_ne _ _ hpid, Register.put_ne _ _ hpid]
        exact (h.seats pid').other (Nat.le_refl _) (hothers pid' hpid)
    · intro i hi
      rw [hren] at hi
      rcases List.mem_cons.1 hi with rfl | hi
      · exact hnum
      · exact h.renamed i hi

/-- **The machine is a register.** -/
theorem FileMachine.refines {fs : FileSystem String UInt8} (hrest : fs.AtRest path) :
    (fileMachine Z path fs).Refines (Register.system (fs.read path)) (FileLabel.toRegister Z)
      (Shows Z path) where
  start := by
    rintro m rfl
    refine ⟨_, rfl, rfl, ?_, hrest.isPrivate, fun _ => .free, nofun, nofun⟩
    exact hrest.settled
  step := by
    intro a m m' r h hs
    cases hs with
    | begun entries hp => exact ⟨_, .begun _ (h.free hp), h.begun entries hp⟩
    | worked e hp hc => exact h.worked e hp hc
    | @ended _ pid p x hp hc =>
      obtain ⟨hcall, hobeys, -⟩ := h.busy hp
      refine ⟨_, ?_, (h.left : Shows Z path (m.setProc pid none) _)⟩
      rcases hobeys.done hc with ⟨a, rfl, hin⟩ | ⟨e, rfl, hout⟩
      · rw [decide_eq_true hin] at hcall
        exact .ended hcall
      · rw [decide_eq_false hout] at hcall
        exact .ended hcall
    | killed hp => exact ⟨_, .killed (h.busy hp).1, h.left⟩
    | crashed hc => exact ⟨_, .crashed (h.settled.crash hc), h.crashed hc⟩

variable {fs : FileSystem String UInt8}

/-- **The container changes atomically.** Whatever processes write it, in
whatever order their system calls come, and wherever some of them are killed
and the power fails: the run is one of the register. A call that ends well
has put its complete archive there at one moment between its beginning and
its end, and a call that fails never has; a call that is killed may have. What
a crash brings back is something that the register may fall back to. -/
theorem container_atomic (Z : ZipWriter) (path : String) (hrest : fs.AtRest path)
    {l : List FileLabel} {m : Machine} (h : (fileMachine Z path fs).Run l m) :
    ∃ r, (Register.system (fs.read path)).Run (l.map (FileLabel.toRegister Z)) r ∧
      m.disk.fs.read path = r.now ∧ ∀ fs', m.disk.fs.Crash fs' → fs'.read path ∈ r.may := by
  obtain ⟨r, hr, hs⟩ := (FileMachine.refines hrest).run h
  exact ⟨r, hr, hs.now, fun fs' hc => hs.settled.crash hc⟩

/-- What may still be put at `path` in a run with the labels `l` from `m` on:
the archives of the calls that have not renamed yet, and of those that begin. -/
def Machine.Coming (Z : ZipWriter) (m : Machine) (l : List FileLabel) (c : Option Bytes) : Prop :=
  (∃ pid p b, m.procs pid = some p ∧ p.id ∉ m.disk.renamed ∧ archive Z p.entries = .ok b ∧
    c = some b) ∨
  ∃ pid entries b, FileLabel.begun pid entries ∈ l ∧ archive Z entries = .ok b ∧ c = some b

theorem content_eq_some {entries : List (String × Bytes)} {c : Option Bytes}
    (h : content Z entries = some c) : ∃ b, archive Z entries = .ok b ∧ c = some b := by
  unfold content at h
  cases hb : archive Z entries with
  | error x =>
    rw [hb] at h
    cases h
  | ok b =>
    rw [hb] at h
    exact ⟨b, rfl, (Option.some.inj h).symm⟩

theorem Shows.coming (h : Shows Z path m r) (l : List FileLabel) {c : Option Bytes}
    (hc : r.calls pid = some ⟨some c, false⟩) : m.Coming Z l c := by
  cases hp : m.procs pid with
  | none =>
    rw [h.free hp] at hc
    cases hc
  | some p =>
    rw [(h.busy hp).1] at hc
    simp only [Option.some.injEq, PendingPut.mk.injEq] at hc
    obtain ⟨b, hb, rfl⟩ := content_eq_some hc.1
    exact .inl ⟨pid, p, b, hp, of_decide_eq_false hc.2, hb, rfl⟩

theorem coming_of_offered {l : List FileLabel} (m : Machine) {c : Option Bytes}
    (hc : c ∈ Register.offered (l.map (FileLabel.toRegister Z))) : m.Coming Z l c := by
  obtain ⟨pid, hc⟩ := hc
  obtain ⟨a, ha, hac⟩ := List.mem_map.1 hc
  cases a with
  | begun pid' entries =>
    simp only [FileLabel.toRegister, Register.Label.begun.injEq] at hac
    obtain ⟨b, hb, rfl⟩ := content_eq_some hac.2
    exact .inr ⟨pid', entries, b, ha, hb, rfl⟩
  | ended pid' x => cases x <;> cases hac
  | worked | killed | crashed => cases hac

/-- **What is superseded on the disk is gone.** Take any state that can be
reached in which the last change of `path` in the directory has been synced.
Whatever processes do from there on, whatever is killed and however often the
power fails, `path` holds what it held then or the complete archive of a call
that had not renamed its file then: never anything older, and never anything
incomplete. -/
theorem container_superseded (Z : ZipWriter) (path : String) (hrest : fs.AtRest path)
    {l l' : List FileLabel} {m m' : Machine} (h : (fileMachine Z path fs).Run l m)
    (hsync : ∀ d ∈ m.disk.fs.older, d.entry path = m.disk.fs.dir.entry path)
    (h' : ((fileMachine Z path fs).resumed m).Run l' m') :
    (m'.disk.fs.read path = m.disk.fs.read path ∨ m.Coming Z l' (m'.disk.fs.read path)) ∧
      ∀ fs', m'.disk.fs.Crash fs' → fs'.read path = m.disk.fs.read path ∨
      m.Coming Z l' (fs'.read path) := by
  obtain ⟨r, hr, hs⟩ := (FileMachine.refines hrest).run h
  have hm : m.disk.fs.AtRest path :=
    ⟨hsync, fun i hi => (hs.settled m.disk.fs.dir List.mem_cons_self).1 i hi⟩
  -- with nothing older on the disk, the register need not remember anything older either
  have hs' : Shows Z path m ⟨m.disk.fs.read path, {m.disk.fs.read path}, r.calls⟩ :=
    ⟨rfl, hm.settled, hs.isPrivate, hs.seats, hs.distinct, hs.renamed⟩
  obtain ⟨r', hr', hs''⟩ := ((FileMachine.refines hrest).resumed hs').run h'
  have hw : r'.Within { c | c = m.disk.fs.read path ∨ m.Coming Z l' c } :=
    Register.Run.since hr'
      ⟨.inl rfl, Set.singleton_subset_iff.2 (.inl rfl), fun _ _ hc => .inr (hs'.coming l' hc)⟩
      fun _ hc => .inr (coming_of_offered m hc)
  refine ⟨?_, fun fs' hc => hw.may (hs''.settled.crash hc)⟩
  rw [hs''.now]
  exact hw.now

/-- **An acknowledged write is not lost to a kill.** Once a call has returned
`Ok`, and until the power fails, `path` holds its archive or the archive of a
call that had not renamed its file when this one began: whichever other calls
there are, and whichever are killed. -/
theorem container_acknowledged (Z : ZipWriter) (path : String) (hrest : fs.AtRest path)
    {l₀ l₁ l₂ : List FileLabel} {m₀ m₁ m₂ m₃ m₄ : Machine} {pid : Nat}
    {entries : List (String × Bytes)} (h₀ : (fileMachine Z path fs).Run l₀ m₀)
    (hb : FileStep Z path (.begun pid entries) m₀ m₁)
    (h₁ : ((fileMachine Z path fs).resumed m₁).Run l₁ m₂)
    (hl₁ : ∀ a ∈ l₁, a ≠ .crashed ∧ a ≠ .killed pid ∧ ∀ x, a ≠ .ended pid x)
    (he : FileStep Z path (.ended pid (.ok ())) m₂ m₃)
    (h₂ : ((fileMachine Z path fs).resumed m₃).Run l₂ m₄) (hl₂ : FileLabel.crashed ∉ l₂) :
    m₁.Coming Z (l₂ ++ l₁) (m₄.disk.fs.read path) := by
  have hsim := FileMachine.refines (Z := Z) hrest
  have hoff : ∀ l, l ⊆ l₂ ++ l₁ → Register.offered (l.map (FileLabel.toRegister Z)) ⊆
      { c | m₁.Coming Z (l₂ ++ l₁) c } := by
    rintro l hl c ⟨n, hc⟩
    exact coming_of_offered m₁ ⟨n, List.map_subset _ hl hc⟩
  obtain ⟨r₀, -, hs₀⟩ := hsim.run h₀
  obtain ⟨r₁, hb', hs₁⟩ := hsim.step _ _ _ _ hs₀ hb
  -- the call has begun
  have hnew : r₁.Newer { c | m₁.Coming Z (l₂ ++ l₁) c } pid := by
    refine ⟨fun _ _ hc => hs₁.coming _ hc, .inr ⟨content Z entries, ?_⟩⟩
    cases hb' with
    | begun _ hn => exact Register.setCall_self ..
  obtain ⟨r₂, hr₂, hs₂⟩ := (hsim.resumed hs₁).run h₁
  have hnew₂ := Register.Run.answers hr₂ hnew (hoff l₁ (List.subset_append_right ..))
    (fun hm => ?_) ⟨fun hm => ?_, fun hm => ?_⟩
  · -- it has ended well, so it has taken effect
    obtain ⟨r₃, he', hs₃⟩ := hsim.step _ _ _ _ hs₂ he
    obtain ⟨hnew₃, hnow₃⟩ := hnew₂.ended he'
    obtain ⟨r₄, hr₄, hs₄⟩ := (hsim.resumed hs₃).run h₂
    rw [hs₄.now]
    refine Register.Run.newer hr₄ hnew₃ hnow₃ (hoff l₂ (List.subset_append_left ..)) fun hm => ?_
    obtain ⟨a, ha, hac⟩ := List.mem_map.1 hm
    exact hl₂ (FileLabel.eq_crashed hac ▸ ha)
  · obtain ⟨a, ha, hac⟩ := List.mem_map.1 hm
    exact (hl₁ a ha).1 (FileLabel.eq_crashed hac)
  · obtain ⟨a, ha, hac⟩ := List.mem_map.1 hm
    obtain ⟨x, hx⟩ := FileLabel.eq_ended hac
    exact (hl₁ a ha).2.2 x hx
  · obtain ⟨a, ha, hac⟩ := List.mem_map.1 hm
    exact (hl₁ a ha).2.1 (FileLabel.eq_killed hac)

end

/-! ## A call in which nothing fails -/

section
variable {Z : ZipWriter} {path t : String} {me pid file : Nat} {d : Disk}
  {wrap wrapIo : String → VaultError}

/-- No system call fails. -/
def Undisturbed (_ : Disk) (e : SysIn) : Prop := e.io = .ok ()

/-- The name `t` is that of `file`. -/
def Disk.Names (t : String) (file : Nat) (d : Disk) : Prop := d.fs.dir.entry t = some file

theorem syscall_succeeds {α : Type} {b : SysIn → Disk → VaultResult α × Disk} {R : α → Disk → Prop}
    (h : ∀ e, e.io = .ok () → Prog.Succeeds R (b e d).1 (b e d).2) :
    (Prog.atomic b).wlp Undisturbed (Prog.Succeeds R) d := h

theorem writeChunks_succeeds : ∀ {chunks : List (Nat × Bytes)} {d : Disk}, Disk.Names t file d →
    (writeChunks wrap file chunks).wlp Undisturbed (Prog.Succeeds fun _ => Disk.Names t file) d
  | [], _, h => ⟨(), rfl, h⟩
  | (off, chunk) :: _, d, h => by
    refine Prog.succeeds_bind (R := fun _ => Disk.Names t file) (syscall_succeeds fun e he => ?_)
      fun _ _ h => writeChunks_succeeds h
    simp only [he]
    exact ⟨(), rfl, h⟩

theorem emit_succeeds {σ : Type} {r : Except String (List (Nat × Bytes) × σ)}
    {chunks : List (Nat × Bytes)} {z : σ} (hr : r = .ok (chunks, z)) (h : Disk.Names t file d) :
    (emit wrap wrapIo file r).wlp Undisturbed
      (Prog.Succeeds fun z' d => z' = z ∧ Disk.Names t file d) d := by
  subst hr
  have hemit : emit wrap wrapIo file (.ok (chunks, z)) =
    (writeChunks wrapIo file chunks).bind fun _ => pure z := rfl
  rw [hemit]
  exact Prog.succeeds_bind (writeChunks_succeeds h) fun _ d h => ⟨z, rfl, rfl, h⟩

theorem writeArchive_succeeds :
    ∀ {entries : List (String × Bytes)} {z : Z.State} {data b : Bytes} {d : Disk},
    archiveFrom Z entries z data = .ok b → Disk.Names t file d →
      (writeArchive Z file entries z).wlp Undisturbed (Prog.Succeeds fun _ => Disk.Names t file) d
  | [], z, data, b, d, hb, h => by
    unfold writeArchive
    cases hf : Z.finish z with
    | error x => simp [archiveFrom, hf, mapErr, bind, Except.bind] at hb
    | ok p =>
      obtain ⟨chunks, z'⟩ := p
      rw [← Prog.bind_pure (emit _ _ _ _)]
      exact Prog.succeeds_bind (emit_succeeds rfl h) fun _ _ h => ⟨(), rfl, h.2⟩
  | (name, bytes) :: rest, z, data, b, d, hb, h => by
    cases hh : Z.startFile z name with
    | error x => simp [archiveFrom, hh, mapErr, bind, Except.bind] at hb
    | ok p =>
      cases hw : Z.writeAll p.2 bytes with
      | error x => simp [archiveFrom, hh, hw, mapErr, bind, Except.bind] at hb
      | ok q =>
        rw [archiveFrom_cons Z hh hw] at hb
        refine Prog.succeeds_bind (emit_succeeds hh h) fun z' d h => ?_
        obtain ⟨rfl, h⟩ := h
        refine Prog.succeeds_bind (emit_succeeds hw h) fun z' d h => ?_
        obtain ⟨rfl, h⟩ := h
        exact writeArchive_succeeds hb h

/-- A call in which no system call fails ends well, and all that it did is on the disk. -/
theorem writeEntriesAtomic_succeeds {entries : List (String × Bytes)} {b : Bytes}
    (hb : archive Z entries = .ok b) (d : Disk) :
    (writeEntriesAtomic Z me pid path entries).wlp Undisturbed
      (Prog.Succeeds fun _ d => d.fs.older = []) d := by
  refine Prog.succeeds_bind (R := fun _ _ => True) (syscall_succeeds fun e he => ?_) fun _ d _ => ?_
  · simp only [he]
    exact ⟨(), rfl, trivial⟩
  refine Prog.succeeds_bind (R := fun file => Disk.Names (tempPathIn path pid) file)
    (syscall_succeeds fun e he => ?_) fun file d h => ?_
  · simp only [he]
    exact ⟨_, rfl, FileSystem.create_entry _ _⟩
  rw [Prog.bind_eq, Prog.wlp_bind, Prog.wlp_attempt]
  refine Prog.wlp_mono (fun r d h => ?_) (writeArchive_succeeds hb h)
  obtain ⟨-, rfl, h⟩ := h
  refine Prog.succeeds_bind (R := fun _ => Disk.Names (tempPathIn path pid) file)
    (syscall_succeeds fun e he => ?_) fun _ d h => ?_
  · simp only [he]
    exact ⟨(), rfl, h⟩
  refine Prog.succeeds_bind (R := fun _ _ => True) (syscall_succeeds fun e he => ?_)
    fun _ d _ => syscall_succeeds fun e he => ?_
  · obtain ⟨fs, hfs⟩ : ∃ fs, d.fs.rename (tempPathIn path pid) path = some fs := by
      unfold FileSystem.rename
      rw [show d.fs.dir.entry (tempPathIn path pid) = some file from h]
      exact ⟨_, rfl⟩
    simp only [he, hfs]
    exact ⟨(), rfl, trivial⟩
  · simp only [he]
    exact ⟨(), rfl, rfl⟩

/-- A process that is left alone gets to the end of its program. -/
theorem fileMachine_alone (Z : ZipWriter) (path : String) (fs : FileSystem String UInt8)
    {A : Disk → SysIn → Prop} {q : FileOp Unit} {es : List SysIn} {r : VaultResult Unit}
    {d d' : Disk} (hx : Prog.Exec A q d es r d') :
    ∀ {m : Machine} {id : Nat} {entries : List (String × Bytes)},
      m.disk = d → m.procs pid = some ⟨id, entries, q⟩ →
      ∃ works m', (∀ b ∈ works, b = .worked pid) ∧
      ((fileMachine Z path fs).resumed m).Run works m' ∧
        m'.disk = d' ∧ m'.procs pid = some ⟨id, entries, .done r⟩ := by
  induction hx with
  | done r s =>
    intro m id entries hd hp
    exact ⟨[], m, nofun, .start rfl, hd, hp⟩
  | @region u n s e es r s' ha h ih =>
    intro m id entries hd hp
    subst hd
    obtain ⟨works, m', hw, hrun, hd', hp'⟩ := ih
      (m := { m.setProc pid (some ⟨id, entries, n e m.disk⟩) with disk := u e m.disk }) rfl
        (setProc_self ..)
    have hfirst : ((fileMachine Z path fs).resumed m).Run [.worked pid]
        { m.setProc pid (some ⟨id, entries, n e m.disk⟩) with disk := u e m.disk } :=
      .step (.start rfl) (.worked e hp rfl)
    refine ⟨works ++ [.worked pid], m', ?_, hfirst.append hrun, hd', hp'⟩
    intro b hb
    rcases List.mem_append.1 hb with hb | hb
    · exact hw b hb
    · exact List.mem_singleton.1 hb

end

/-! ## Two processes -/

/-- Processes 7 and 8 write; 7 gets to its end, 8 is killed over its temp file. -/
theorem sampleProcesses : ∃ l₁ m₀ m₁ m₂ m₃,
    (fileMachine emptyZip "a.vlt" sampleFiles).Run [.begun 8 []] m₀ ∧
    FileStep emptyZip "a.vlt" (.begun 7 []) m₀ m₁ ∧
    ((fileMachine emptyZip "a.vlt" sampleFiles).resumed m₁).Run l₁ m₂ ∧
    (∀ a ∈ l₁, a = .worked 7 ∨ a = .worked 8 ∨ a = .killed 8) ∧
    FileStep emptyZip "a.vlt" (.ended 7 (.ok ())) m₂ m₃ ∧ m₃.disk.fs.older = [] ∧
    m₃.disk.fs.read "a.vlt" = some endOfCentralDirectory :=
  ⟨[.killed 8, .worked 7, .worked 7, .worked 7, .worked 8, .worked 7, .worked 8, .worked 7,
    .worked 7], _, _, _, _,
    .step (.start rfl) (.begun [] rfl), .begun [] rfl,
    .step (.step (.step (.step (.step (.step (.step (.step (.step (.start rfl)
      (.worked noError rfl rfl)) (.worked noError rfl rfl)) (.worked noError rfl rfl))
      (.worked noError rfl rfl)) (.worked noError rfl rfl)) (.worked noError rfl rfl))
      (.worked noError rfl rfl)) (.worked noError rfl rfl)) (.killed rfl),
    by simp, .ended rfl rfl, rfl, rfl⟩

theorem container_atomic_sample : ∃ l m r, (fileMachine emptyZip "a.vlt" sampleFiles).Run l m ∧
    FileLabel.ended 7 (.ok ()) ∈ l ∧
    (Register.system (sampleFiles.read "a.vlt")).Run (l.map (FileLabel.toRegister emptyZip)) r ∧
    r.now = some endOfCentralDirectory := by
  obtain ⟨l₁, m₀, m₁, m₂, m₃, h₀, hb, h₁, -, he, -, hread⟩ := sampleProcesses
  have hrun := ((h₀.step hb).append h₁).step he
  obtain ⟨r, hr, hnow, -⟩ := container_atomic emptyZip "a.vlt" sampleFiles_atRest hrun
  exact ⟨_, m₃, r, hrun, List.mem_cons_self, hr, hnow.symm.trans hread⟩

/-- The power fails after 7 has ended. -/
theorem container_superseded_sample : ∃ (m m' : Machine) (l : List FileLabel),
    ((fileMachine emptyZip "a.vlt" sampleFiles).resumed m).Run [.crashed] m' ∧
    (fileMachine emptyZip "a.vlt" sampleFiles).Run l m ∧
    (m'.disk.fs.read "a.vlt" = some endOfCentralDirectory ∨
      m.Coming emptyZip [.crashed] (m'.disk.fs.read "a.vlt")) := by
  obtain ⟨l₁, m₀, m₁, m₂, m₃, h₀, hb, h₁, -, he, ho, hread⟩ := sampleProcesses
  have hrun := ((h₀.step hb).append h₁).step he
  have hcrash : m₃.disk.fs.Crash m₃.disk.fs := ⟨List.mem_cons_self, ho, fun _ _ => rfl⟩
  have hgo : ((fileMachine emptyZip "a.vlt" sampleFiles).resumed m₃).Run [.crashed] _ :=
    .step (.start rfl) (.crashed hcrash)
  have hsync : ∀ d ∈ m₃.disk.fs.older, d.entry "a.vlt" = m₃.disk.fs.dir.entry "a.vlt" := by
    rw [ho]
    nofun
  rw [← hread]
  exact ⟨m₃, _, _, hgo, hrun,
    (container_superseded emptyZip "a.vlt" sampleFiles_atRest hrun hsync hgo).1⟩

theorem container_acknowledged_sample : ∃ (m₁ m : Machine) (l : List FileLabel),
    (∀ a ∈ l, a = .worked 7 ∨ a = .worked 8 ∨ a = .killed 8) ∧
    m₁.Coming emptyZip l (m.disk.fs.read "a.vlt") := by
  obtain ⟨l₁, m₀, m₁, m₂, m₃, h₀, hb, h₁, hl₁, he, -, -⟩ := sampleProcesses
  have hend : ((fileMachine emptyZip "a.vlt" sampleFiles).resumed m₃).Run [] m₃ := .start rfl
  refine ⟨m₁, m₃, l₁, hl₁, container_acknowledged emptyZip "a.vlt" sampleFiles_atRest h₀ hb h₁ ?_ he
    hend ?_⟩
  · intro a ha
    rcases hl₁ a ha with rfl | rfl | rfl <;> simp
  · exact List.not_mem_nil

end VaultSigner.L5
