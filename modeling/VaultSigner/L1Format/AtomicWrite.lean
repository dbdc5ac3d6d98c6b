import VaultSigner.Core.FileSystem
import VaultSigner.Core.Rely
import VaultSigner.L1Format.Container

/-!
# Writing the container (`container.rs`)

`write_entries_atomic` as a program over the file system of the container's
directory (`Core/FileSystem.lean`): one region for each system call. The zip
crate decides which bytes are written at which offset; `ZipWriter` is what the
program uses of it.

A write that fails leaves what it likes in the file it was made to, and so
does the `ZipWriter` that an error drops, which tries to finish the archive.

Results:
* `tempPathIn_ne`: the temp file is not the target.
* `Outline.writeArchive_relies`: the archive is written out, whatever other
  calls do to other files.
* `Outline.writeEntriesAtomic_relies`: one call, from what its system calls do.
* `Writers.outline`: one call, among calls that do not create the temp file
  while it is in use.
-/
namespace VaultSigner.L1
open VaultSigner.Core

/-- `zip::ZipWriter`: the writes (offset and bytes) that each call makes. -/
structure ZipWriter where
  State : Type
  new : State
  startFile : State → String → Except String (List (Nat × Bytes) × State)
  writeAll : State → Bytes → Except String (List (Nat × Bytes) × State)
  finish : State → Except String (List (Nat × Bytes) × Unit)
  /-- the text of `ZipError::Io` -/
  ioError : String → String

/-- The file system, and what the calls of `write_entries_atomic` did so far. -/
structure Disk where
  fs : FileSystem String UInt8
  /-- ghost: the calls that have created the temp file and neither renamed it
  nor given up -/
  holders : List Nat
  /-- ghost: newest first, the calls that have renamed their file -/
  renamed : List Nat
  /-- ghost: a call created the temp file while another held it -/
  collided : Bool

def Disk.start (fs : FileSystem String UInt8) : Disk := ⟨fs, [], [], false⟩

/-- How a system call goes, and what is left in the file if it fails. -/
structure SysIn where
  io : Except String Unit
  garbled : Bytes

abbrev FileOp := Prog SysIn Disk VaultError

/-- The last component of a path is a file's name, or `..`. -/
def fileName (path : String) : Option String := if path = ".." then none else some path

/-- mirrors vaultcore/src/container.rs:226-234 (`temp_path_in`) -/
def tempPathIn (path : String) (pid : Nat) : String :=
  let name := (fileName path).getD "container"
  s!".{name}.{pid}.tmp"

theorem tempPathIn_ne (path : String) (pid : Nat) : tempPathIn path pid ≠ path := by
  intro h
  have hlen := congrArg String.length h
  have hdot : ".".length = 1 := rfl
  have hdots : "..".length = 2 := rfl
  have htmp : ".tmp".length = 4 := rfl
  unfold tempPathIn fileName at hlen
  by_cases hp : path = ".."
  · subst hp
    simp [String.length_append, toString] at hlen
    omega
  · simp [hp, String.length_append, toString] at hlen
    omega

/-! ## System calls -/

def createDirAll : FileOp Unit := Prog.atomic fun e d => (mapErr .io e.io, d)

def createFile (me : Nat) (t : String) : FileOp Nat :=
  Prog.atomic fun e d => match e.io with
    | .error x => (.error (.io x), d)
    | .ok () => (.ok (d.fs.create t).2,
        { d with
          fs := (d.fs.create t).1
          holders := me :: d.holders
          collided := d.collided || d.holders.any (· ≠ me) })

def writeAt (wrap : String → VaultError) (file off : Nat) (chunk : Bytes) : FileOp Unit :=
  Prog.atomic fun e d => match e.io with
    | .error x => (.error (wrap x), { d with fs := d.fs.setFile file ⟨e.garbled, false⟩ })
    | .ok () => (.ok (), { d with fs := d.fs.write file off chunk })

/-- `drop(zip)` on the way out with an error. -/
def dropWriter (me file : Nat) : FileOp Unit :=
  Prog.atomic fun e d => (.ok (),
    { d with fs := d.fs.setFile file ⟨e.garbled, false⟩, holders := d.holders.erase me })

def syncAll (me file : Nat) : FileOp Unit :=
  Prog.atomic fun e d => match e.io with
    | .error x => (.error (.io x), { d with holders := d.holders.erase me })
    | .ok () => (.ok (), { d with fs := d.fs.sync file })

def renameFile (me : Nat) (t path : String) : FileOp Unit :=
  Prog.atomic fun e d => match e.io, d.fs.rename t path with
    | .error x, _ => (.error (.io x), { d with holders := d.holders.erase me })
    | .ok (), none => (.error (.io "No such file or directory (os error 2)"),
        { d with holders := d.holders.erase me })
    | .ok (), some fs => (.ok (),
        { d with fs := fs, holders := d.holders.erase me, renamed := me :: d.renamed })

/-- The best-effort `sync_all` of the directory. -/
def syncDir : FileOp Unit :=
  Prog.atomic fun e d => match e.io with
    | .error _ => (.ok (), d)
    | .ok () => (.ok (), { d with fs := d.fs.syncDir })

/-! ## `write_entries_atomic` -/

def writeChunks (wrap : String → VaultError) (file : Nat) : List (Nat × Bytes) → FileOp Unit
  | [] => pure ()
  | (off, chunk) :: rest => do
    writeAt wrap file off chunk
    writeChunks wrap file rest

/-- A call of the zip crate: what it says, and the writes it makes. -/
def emit {σ : Type} (wrap wrapIo : String → VaultError) (file : Nat)
    (r : Except String (List (Nat × Bytes) × σ)) : FileOp σ := do
  let (chunks, z) ← Prog.ofExcept (mapErr wrap r)
  writeChunks wrapIo file chunks
  return z

section
variable (Z : ZipWriter)

/-- The loop over the entries and `finish` (container.rs:203-211). -/
def writeArchive (file : Nat) : List (String × Bytes) → Z.State → FileOp Unit
  | [], z => emit .archive (fun x => .archive (Z.ioError x)) file (Z.finish z)
  | (name, bytes) :: rest, z => do
    let z ← emit .archive (fun x => .archive (Z.ioError x)) file (Z.startFile z name)
    let z ← emit .io .io file (Z.writeAll z bytes)
    writeArchive file rest z

/-- mirrors vaultcore/src/container.rs:191-224 (`write_entries_atomic`); `me`
names the call in the ghost state -/
def writeEntriesAtomic (me pid : Nat) (path : String) (entries : List (String × Bytes)) :
    FileOp Unit := do
  createDirAll
  let file ← createFile me (tempPathIn path pid)
  match ← (writeArchive Z file entries Z.new).attempt with
  | .error x =>
    dropWriter me file
    Prog.fail x
  | .ok () =>
    syncAll me file
    renameFile me (tempPathIn path pid) path
    syncDir

/-! ## The archive -/

def applyChunks (data : Bytes) : List (Nat × Bytes) → Bytes
  | [] => data
  | (off, chunk) :: rest => applyChunks (FileSystem.splice data off chunk) rest

def archiveFrom : List (String × Bytes) → Z.State → Bytes → VaultResult Bytes
  | [], z, data => do
    let (chunks, ()) ← mapErr .archive (Z.finish z)
    return applyChunks data chunks
  | (name, bytes) :: rest, z, data => do
    let (header, z) ← mapErr .archive (Z.startFile z name)
    let (body, z) ← mapErr .io (Z.writeAll z bytes)
    archiveFrom rest z (applyChunks (applyChunks data header) body)

theorem archiveFrom_cons {name : String} {bytes data : Bytes} {rest : List (String × Bytes)}
    {z z' z'' : Z.State} {header body : List (Nat × Bytes)}
    (hh : Z.startFile z name = .ok (header, z')) (hb : Z.writeAll z' bytes = .ok (body, z'')) :
    archiveFrom Z ((name, bytes) :: rest) z data =
      archiveFrom Z rest z'' (applyChunks (applyChunks data header) body) := by
  have hhead : archiveFrom Z ((name, bytes) :: rest) z data = (do
      let (body, z) ← mapErr .io (Z.writeAll z' bytes)
      archiveFrom Z rest z (applyChunks (applyChunks data header) body)) := by
    rw [archiveFrom, hh]
    rfl
  rw [hhead, hb]
  rfl

/-- The complete archive: all that is written when nothing fails. -/
def archive (entries : List (String × Bytes)) : VaultResult Bytes := archiveFrom Z entries Z.new []

end

/-! ## One call among others -/

/-- Where a call stands after an operation that may have failed. -/
def Disk.Then {α : Type} (M : α → Disk → Prop) (Lx : Disk → Prop) (r : VaultResult α) (d : Disk) :
    Prop :=
  match r with
  | .ok a => M a d
  | .error _ => Lx d

/-- `L` does not depend on what the others do. -/
def Disk.Stable (R : Disk → Disk → Prop) (L : Disk → Prop) : Prop := ∀ d d', R d d' → L d → L d'

/-- A proof outline of call `me`, which writes `writes` to `path` through
`temp`: where the call stands between its system calls, while the others make
`R` steps and its own system calls have to make `G` steps. -/
structure Outline (me : Nat) (temp path : String) (writes : VaultResult Bytes)
    (R G : Disk → Disk → Prop) where
  idle : Disk → Prop
  /-- it has created this file, which has these bytes now -/
  holds : Nat → Bytes → Disk → Prop
  synced : Nat → Bytes → Disk → Prop
  landed : Disk → Prop
  givenUp : Disk → Prop
  refl : ∀ d, R d d
  idle_stable : Disk.Stable R idle
  holds_stable : ∀ file data, Disk.Stable R (holds file data)
  synced_stable : ∀ file data, Disk.Stable R (synced file data)
  landed_stable : Disk.Stable R landed
  givenUp_stable : Disk.Stable R givenUp
  stays : ∀ d, idle d → G d d ∧ givenUp d
  creates : ∀ d, idle d →
    let d' : Disk := { d with
      fs := (d.fs.create temp).1
      holders := me :: d.holders
      collided := d.collided || d.holders.any (· ≠ me) }
    G d d' ∧ holds (d.fs.create temp).2 [] d'
  writesAt : ∀ file data d off chunk, holds file data d →
    G d { d with fs := d.fs.write file off chunk } ∧
      holds file (FileSystem.splice data off chunk) { d with fs := d.fs.write file off chunk }
  garbles : ∀ file data d f, holds file data d →
    G d { d with fs := d.fs.setFile file f } ∧
      holds file f.data { d with fs := d.fs.setFile file f }
  drops : ∀ file data d f, holds file data d →
    G d { d with fs := d.fs.setFile file f, holders := d.holders.erase me } ∧
      givenUp { d with fs := d.fs.setFile file f, holders := d.holders.erase me }
  releases : ∀ file data d, holds file data d →
    G d { d with holders := d.holders.erase me } ∧ givenUp { d with holders := d.holders.erase me }
  syncs : ∀ file data d, holds file data d →
    G d { d with fs := d.fs.sync file } ∧ synced file data { d with fs := d.fs.sync file }
  holds_of_synced : ∀ file data d, synced file data d → holds file data d
  renames : ∀ file data d fs, writes = .ok data → synced file data d →
    d.fs.rename temp path = some fs →
    let d' : Disk := { d with fs := fs, holders := d.holders.erase me, renamed := me :: d.renamed }
    G d d' ∧ landed d'
  syncsDir : ∀ d, landed d → G d d ∧
    G d { d with fs := d.fs.syncDir } ∧ landed { d with fs := d.fs.syncDir }

namespace Outline

variable {A : Disk → SysIn → Prop} {R G : Disk → Disk → Prop} {me file : Nat} {temp path : String}
  {writes : VaultResult Bytes} {data : Bytes} {d : Disk} (O : Outline me temp path writes R G)

/-- It holds the file, with any bytes. -/
def holdsSome (file : Nat) (d : Disk) : Prop := ∃ data, O.holds file data d

theorem holdsSome_stable (file : Nat) : Disk.Stable R (O.holdsSome file) := by
  rintro d d' hr ⟨data, h⟩
  exact ⟨data, O.holds_stable file data d d' hr h⟩

/-- One system call. -/
theorem relies_syscall {α : Type} {b : SysIn → Disk → VaultResult α × Disk} {L : Disk → Prop}
    {M : α → Disk → Prop} {Lx : Disk → Prop} (hL : Disk.Stable R L) (hM : ∀ a, Disk.Stable R (M a))
    (hLx : Disk.Stable R Lx)
    (hstep : ∀ e d, L d → G d (b e d).2 ∧ Disk.Then M Lx (b e d).1 (b e d).2) (hd : L d) :
    (Prog.atomic b).Relies A R G (Disk.Then M Lx) d := by
  refine Prog.relies_atomic fun d' hr e _ => ?_
  obtain ⟨hg, ht⟩ := hstep e d' (hL d d' hr hd)
  refine ⟨hg, fun d'' hr' => ?_⟩
  cases hb : (b e d').1 with
  | ok a =>
    rw [hb] at ht
    exact hM a _ d'' hr' ht
  | error x =>
    rw [hb] at ht
    exact hLx _ d'' hr' ht

theorem createDirAll_relies (hd : O.idle d) :
    createDirAll.Relies A R G (Disk.Then (fun _ => O.idle) O.givenUp) d := by
  refine relies_syscall O.idle_stable (fun _ => O.idle_stable) O.givenUp_stable
    (fun e d hd => ?_) hd
  refine ⟨(O.stays d hd).1, ?_⟩
  cases he : e.io with
  | ok _ => exact hd
  | error x => exact (O.stays d hd).2

theorem createFile_relies (hd : O.idle d) :
    (createFile me temp).Relies A R G (Disk.Then (fun file => O.holds file []) O.givenUp) d := by
  refine relies_syscall O.idle_stable (fun file => O.holds_stable file []) O.givenUp_stable
    (fun e d hd => ?_) hd
  cases he : e.io with
  | error x => exact O.stays d hd
  | ok _ => exact O.creates d hd

theorem writeAt_relies {wrap : String → VaultError} {off : Nat} {chunk : Bytes}
    (hd : O.holds file data d) :
    (writeAt wrap file off chunk).Relies A R G
      (Disk.Then (fun _ => O.holds file (FileSystem.splice data off chunk)) (O.holdsSome file))
      d := by
  refine relies_syscall (O.holds_stable file data) (fun _ => O.holds_stable file _)
    (O.holdsSome_stable file) (fun e d hd => ?_) hd
  cases he : e.io with
  | error x =>
    obtain ⟨hg, hh⟩ := O.garbles file data d ⟨e.garbled, false⟩ hd
    exact ⟨hg, _, hh⟩
  | ok _ => exact O.writesAt file data d off chunk hd

theorem dropWriter_relies (hd : O.holdsSome file d) :
    (dropWriter me file).Relies A R G (Disk.Then (fun _ => O.givenUp) O.givenUp) d := by
  refine relies_syscall (O.holdsSome_stable file) (fun _ => O.givenUp_stable) O.givenUp_stable
    (fun e d hd => ?_) hd
  obtain ⟨data, hd⟩ := hd
  exact O.drops file data d ⟨e.garbled, false⟩ hd

theorem syncAll_relies (hd : O.holds file data d) :
    (syncAll me file).Relies A R G (Disk.Then (fun _ => O.synced file data) O.givenUp) d := by
  refine relies_syscall (O.holds_stable file data) (fun _ => O.synced_stable file data)
    O.givenUp_stable
    (fun e d hd => ?_) hd
  cases he : e.io with
  | error x => exact O.releases file data d hd
  | ok _ => exact O.syncs file data d hd

theorem renameFile_relies (hw : writes = .ok data) (hd : O.synced file data d) :
    (renameFile me temp path).Relies A R G (Disk.Then (fun _ => O.landed) O.givenUp) d := by
  refine relies_syscall (O.synced_stable file data) (fun _ => O.landed_stable) O.givenUp_stable
    (fun e d hd => ?_) hd
  have hreleased := O.releases file data d (O.holds_of_synced file data d hd)
  cases he : e.io with
  | error x => exact hreleased
  | ok _ =>
    cases hr : d.fs.rename temp path with
    | none => exact hreleased
    | some fs => exact O.renames file data d fs hw hd hr

theorem syncDir_relies (hd : O.landed d) :
    syncDir.Relies A R G (Disk.Then (fun _ => O.landed) O.givenUp) d := by
  refine relies_syscall O.landed_stable (fun _ => O.landed_stable) O.givenUp_stable
    (fun e d hd => ?_) hd
  cases he : e.io with
  | error x => exact ⟨(O.syncsDir d hd).1, hd⟩
  | ok _ => exact (O.syncsDir d hd).2

/-! ## The whole call -/

theorem then_bind {α β : Type} {p : FileOp α} {f : α → FileOp β} {M : α → Disk → Prop}
    {M' : β → Disk → Prop} {Lx Lx' : Disk → Prop} (refl : ∀ d, R d d)
    (hp : p.Relies A R G (Disk.Then M Lx) d)
    (hf : ∀ a d, M a d → (f a).Relies A R G (Disk.Then M' Lx') d) (hx : ∀ d, Lx d → Lx' d) :
    (p.bind f).Relies A R G (Disk.Then M' Lx') d :=
  Prog.Relies.bind refl hf (fun _ d h => hx d h) hp

theorem writeChunks_relies {wrap : String → VaultError} :
    ∀ {chunks : List (Nat × Bytes)} {data : Bytes}
    {d : Disk}, O.holds file data d → (writeChunks wrap file chunks).Relies A R G
      (Disk.Then (fun _ => O.holds file (applyChunks data chunks)) (O.holdsSome file)) d
  | [], data, d, hd => fun d' hr => O.holds_stable file data d d' hr hd
  | (_, _) :: _, _, _, hd =>
    then_bind O.refl (O.writeAt_relies hd) (fun _ _ h => writeChunks_relies h) fun _ h => h

theorem emit_relies {σ : Type} {wrap wrapIo : String → VaultError}
    {r : Except String (List (Nat × Bytes) × σ)} (hd : O.holds file data d) :
    (emit wrap wrapIo file r).Relies A R G
      (Disk.Then
        (fun z d => ∃ chunks, r = .ok (chunks, z) ∧ O.holds file (applyChunks data chunks) d)
        (O.holdsSome file)) d := by
  cases r with
  | error x => exact fun d' hr => ⟨data, O.holds_stable file data d d' hr hd⟩
  | ok p =>
    obtain ⟨chunks, z⟩ := p
    have hemit : emit wrap wrapIo file (.ok (chunks, z)) =
        (writeChunks wrapIo file chunks).bind fun _ => pure z := rfl
    rw [hemit]
    exact then_bind O.refl (O.writeChunks_relies hd)
      (fun _ d h d' hr => ⟨chunks, rfl, O.holds_stable file _ d d' hr h⟩) fun _ h => h

/-- The archive is written out, whatever the others do. -/
theorem writeArchive_relies (Z : ZipWriter) : ∀ {entries : List (String × Bytes)} {z : Z.State}
    {data : Bytes} {d : Disk}, O.holds file data d → (writeArchive Z file entries z).Relies A R G
      (Disk.Then (fun _ d => ∃ b, archiveFrom Z entries z data = .ok b ∧ O.holds file b d)
        (O.holdsSome file)) d
  | [], z, data, d, hd => by
    rw [writeArchive, ← Prog.bind_pure (emit _ _ _ _)]
    refine then_bind O.refl (O.emit_relies hd) (fun _ d' h d'' hr => ?_) fun _ h => h
    obtain ⟨chunks, hc, hd'⟩ := h
    refine ⟨applyChunks data chunks, ?_, O.holds_stable file _ d' d'' hr hd'⟩
    simp only [archiveFrom, hc]
    rfl
  | (name, bytes) :: rest, z, data, d, hd => by
    refine then_bind O.refl (O.emit_relies hd) (fun z' d' h => ?_) fun _ h => h
    obtain ⟨header, hh, hd'⟩ := h
    refine then_bind O.refl (O.emit_relies hd') (fun z'' d'' h => ?_) fun _ h => h
    obtain ⟨body, hb, hd''⟩ := h
    rw [archiveFrom_cons Z hh hb]
    exact writeArchive_relies Z hd''

/-- One call among others: it ends well exactly if it has renamed its file. -/
theorem writeEntriesAtomic_relies (Z : ZipWriter) {pid : Nat} {entries : List (String × Bytes)}
    (ht : temp = tempPathIn path pid) (hw : writes = archive Z entries) (hd : O.idle d) :
    (writeEntriesAtomic Z me pid path entries).Relies A R G
      (Disk.Then (fun _ => O.landed) O.givenUp) d := by
  unfold writeEntriesAtomic
  rw [← ht]
  refine then_bind O.refl (O.createDirAll_relies hd) (fun _ d h => ?_) fun _ h => h
  refine then_bind O.refl (O.createFile_relies h) (fun file d h => ?_) fun _ h => h
  have hattempt : ((writeArchive Z file entries Z.new).attempt : FileOp _).Relies A R G
      (Disk.Then (Disk.Then (fun _ d => ∃ b, archive Z entries = .ok b ∧ O.holds file b d)
        (O.holdsSome file)) O.givenUp) d :=
    Prog.Relies.attempt (O.writeArchive_relies Z h)
  refine then_bind O.refl hattempt (fun r d h => ?_) fun _ h => h
  cases r with
  | error x =>
    refine then_bind O.refl (O.dropWriter_relies h) (fun _ d h d' hr => ?_) fun _ h => h
    exact O.givenUp_stable d d' hr h
  | ok _ =>
    obtain ⟨b, hb, h⟩ := h
    refine then_bind O.refl (O.syncAll_relies h) (fun _ d h => ?_) fun _ h => h
    refine then_bind O.refl (O.renameFile_relies (hw.trans hb) h) (fun _ d h => ?_) fun _ h => h
    exact O.syncDir_relies h

end Outline

/-! ## What a call keeps

Up to a collision the calls share one invariant, `Sound`, and each call knows
where it stands. -/

/-- `count` calls that write to `path`. -/
structure Writers where
  temp : String
  path : String
  ne : temp ≠ path
  /-- what `path` held at first -/
  old : Option Bytes
  /-- ... also on the disk -/
  atRest : Prop
  archiveOf : Nat → VaultResult Bytes
  count : Nat

section
variable (W : Writers)

/-- What `path` holds once the calls of `l`, newest first, have renamed. -/
def Writers.current : List Nat → Option Bytes
  | [] => W.old
  | i :: _ => (W.archiveOf i).toOption

/-- What a crash may bring back. -/
def Writers.Published (l : List Nat) (c : Option Bytes) : Prop :=
  c = W.old ∨ ∃ i ∈ l, ∃ b, W.archiveOf i = .ok b ∧ c = some b

structure Disk.Sound (d : Disk) : Prop where
  content : d.fs.read W.path = W.current d.renamed
  settled : W.atRest → d.fs.Settled W.path (W.Published d.renamed)
  apart : W.atRest → d.fs.Apart W.temp W.path
  one : d.holders.length ≤ 1
  calls : ∀ i ∈ d.renamed, i < W.count ∧ ∃ b, W.archiveOf i = .ok b

/-- Nothing of what call `j` has under way is touched. -/
structure Disk.Spares (j : Nat) (d d' : Disk) : Prop where
  holders : j ∈ d'.holders ↔ j ∈ d.holders
  renamed : j ∈ d'.renamed ↔ j ∈ d.renamed
  fs : j ∈ d.holders → d'.fs.dir = d.fs.dir ∧ d'.fs.files = d.fs.files

/-- Up to a collision, all stays sound and the calls in `J` are spared. -/
def Disk.Moves (J : Nat → Prop) (d d' : Disk) : Prop :=
  d'.collided = false → d.collided = false ∧ (d.Sound W →
    d'.Sound W ∧ ∀ j, J j → d.Spares j d')

/-- What call `j` relies on; a single call is alone. -/
def Disk.Rely (j : Nat) (d d' : Disk) : Prop :=
  (W.count = 1 → d' = d) ∧ Disk.Moves W (· = j) d d'

/-- What call `me` guarantees. A call alone collides with nobody. -/
structure Disk.Guar (me : Nat) (d d' : Disk) : Prop where
  moves : Disk.Moves W (· ≠ me) d d'
  alone : d.collided = false → (∀ j ∈ d.holders, j = me) →
    d'.collided = false ∧ ∀ j ∈ d'.holders, j = me

/-- `L` is where call `me` stands, up to a collision. -/
def Disk.At (L : Disk → Prop) (d : Disk) : Prop :=
  d.collided = false → d.Sound W ∧ L d

def Disk.Idle (me : Nat) (d : Disk) : Prop := me ∉ d.holders ∧ me ∉ d.renamed

structure Disk.Holds (me file : Nat) (data : Bytes) (d : Disk) : Prop where
  holder : me ∈ d.holders
  renamed : me ∉ d.renamed
  entry : d.fs.dir.entry W.temp = some file
  data : (d.fs.files file).data = data

structure Disk.Synced (me file : Nat) (data : Bytes) (d : Disk) :
    Prop extends d.Holds W me file data where
  synced : (d.fs.files file).synced = true

structure Disk.Renamed (me : Nat) (d : Disk) : Prop where
  renamed : me ∈ d.renamed
  entry : W.count = 1 → d.fs.dir.entry W.temp = none

def Disk.GivenUp (me : Nat) (d : Disk) : Prop := me ∉ d.renamed

/-- `L` does not depend on what other calls do. -/
def Disk.Spared (me : Nat) (L : Disk → Prop) : Prop :=
  ∀ d d' : Disk, d.Spares me d' → (W.count = 1 → d' = d) → L d → L d'

end

section
variable {W : Writers} {me file : Nat} {data : Bytes} {d d' : Disk}

theorem Disk.Spares.refl (j : Nat) (d : Disk) : d.Spares j d :=
  ⟨Iff.rfl, Iff.rfl, fun _ => ⟨rfl, rfl⟩⟩

theorem Disk.Spares.trans {j : Nat} {d'' : Disk} (h : d.Spares j d') (h' : d'.Spares j d'') :
    d.Spares j d'' := by
  refine ⟨h'.holders.trans h.holders, h'.renamed.trans h.renamed, fun hj => ?_⟩
  have h1 := h.fs hj
  have h2 := h'.fs (h.holders.2 hj)
  exact ⟨h2.1.trans h1.1, h2.2.trans h1.2⟩

theorem Disk.Rely.refl (j : Nat) (d : Disk) : d.Rely W j d :=
  ⟨fun _ => rfl, fun hc => ⟨hc, fun hs => ⟨hs, fun i _ => .refl i d⟩⟩⟩

theorem Disk.Rely.trans {j : Nat} {d'' : Disk} (h : d.Rely W j d')
    (h' : d'.Rely W j d'') : d.Rely W j d'' := by
  refine ⟨fun hn => (h'.1 hn).trans (h.1 hn), fun hc => ?_⟩
  obtain ⟨hc', h2⟩ := h'.2 hc
  obtain ⟨hc'', h1⟩ := h.2 hc'
  refine ⟨hc'', fun hs => ?_⟩
  obtain ⟨hs', hj⟩ := h1 hs
  obtain ⟨hs'', hj'⟩ := h2 hs'
  exact ⟨hs'', fun i hi => (hj i hi).trans (hj' i hi)⟩

/-- Where a call stands is not changed by the others. -/
theorem Disk.At.stable {L : Disk → Prop} (hL : Disk.Spared W me L) :
    Disk.Stable (Disk.Rely W me) (Disk.At W L) := by
  intro d d' hr h hc
  obtain ⟨hc', hm⟩ := hr.2 hc
  obtain ⟨hs, hl⟩ := h hc'
  obtain ⟨hs', hj⟩ := hm hs
  exact ⟨hs', hL d d' (hj me rfl) hr.1 hl⟩

theorem Disk.Idle.spared : Disk.Spared W me (Disk.Idle me) := fun _ _ h _ hi =>
  ⟨fun hm => hi.1 (h.holders.1 hm), fun hm => hi.2 (h.renamed.1 hm)⟩

theorem Disk.Holds.spared : Disk.Spared W me (Disk.Holds W me file data) := by
  intro d d' h _ hd
  obtain ⟨h1, h2⟩ := h.fs hd.holder
  refine ⟨h.holders.2 hd.holder, fun hm => hd.renamed (h.renamed.1 hm), ?_, ?_⟩
  · rw [h1]
    exact hd.entry
  · rw [h2]
    exact hd.data

theorem Disk.Synced.spared : Disk.Spared W me (Disk.Synced W me file data) := by
  intro d d' h hn hd
  refine ⟨Disk.Holds.spared d d' h hn hd.toHolds, ?_⟩
  rw [(h.fs hd.holder).2]
  exact hd.synced

theorem Disk.Renamed.spared : Disk.Spared W me (Disk.Renamed W me) := by
  intro d d' h hn hd
  refine ⟨h.renamed.2 hd.renamed, fun h1 => ?_⟩
  rw [hn h1]
  exact hd.entry h1

theorem Disk.GivenUp.spared : Disk.Spared W me (Disk.GivenUp me) :=
  fun _ _ h _ hd hm => hd (h.renamed.1 hm)

/-- Two calls do not hold the temp file at once. -/
theorem Disk.Sound.holder_unique (h : d.Sound W) {i j : Nat}
    (hi : i ∈ d.holders) (hj : j ∈ d.holders) : i = j := by
  have hone := h.one
  cases hl : d.holders with
  | nil =>
    rw [hl] at hi
    cases hi
  | cons a l =>
    rw [hl] at hi hj hone
    cases l with
    | nil => rw [List.mem_singleton.1 hi, List.mem_singleton.1 hj]
    | cons b l =>
      simp only [List.length_cons] at hone
      omega

/-- A change by the holder of the temp file. -/
theorem Disk.Guar.of_holder (hme : d.collided = false → me ∈ d.holders)
    (hc : d'.collided = d.collided) (hr : d'.renamed = d.renamed ∨ d'.renamed = me :: d.renamed)
    (hh : d'.holders = d.holders ∨ d'.holders = d.holders.erase me)
    (hs : d.collided = false → d.Sound W → d'.Sound W) :
    d.Guar W me d' := by
  constructor
  · intro hc'
    rw [hc] at hc'
    refine ⟨hc', fun hsound => ⟨hs hc' hsound, fun j hj => ⟨?_, ?_, fun hjh => ?_⟩⟩⟩
    · rcases hh with hh | hh
      · rw [hh]
      · rw [hh]
        exact List.mem_erase_of_ne hj
    · rcases hr with hr | hr
      · rw [hr]
      · rw [hr]
        simp [hj]
    · exact absurd (hsound.holder_unique hjh (hme hc')) hj
  · intro hc' ha
    refine ⟨hc.trans hc', fun j hj => ha j ?_⟩
    rcases hh with hh | hh
    · exact hh ▸ hj
    · rw [hh] at hj
      exact List.mem_of_mem_erase hj

theorem Disk.Sound.setFile (h : d.Sound W)
    (hf : d.fs.dir.entry W.temp = some file) (f : File UInt8) :
    ({ d with fs := d.fs.setFile file f } : Disk).Sound W where
  content := by
    have hp : d.fs.dir.entry W.path ≠ some file := fun hp => W.ne (d.fs.dir.inj _ _ file hf hp)
    rw [FileSystem.read_setFile f hp]
    exact h.content
  settled hd := (h.settled hd).setFile f (h.apart hd file hf)
  apart hd := h.apart hd
  one := h.one
  calls := h.calls

theorem Disk.Sound.release (h : d.Sound W) :
    ({ d with holders := d.holders.erase me } : Disk).Sound W where
  content := h.content
  settled := h.settled
  apart := h.apart
  one := Nat.le_trans (List.length_erase_le ..) h.one
  calls := h.calls

/-! ## The steps of one call -/

theorem Disk.Guar.refl (me : Nat) (d : Disk) : d.Guar W me d :=
  ⟨fun hc => ⟨hc, fun hs => ⟨hs, fun j _ => .refl j d⟩⟩, fun hc ha => ⟨hc, ha⟩⟩

/-- The temp file of a call that meets no other. -/
theorem Disk.Sound.create (h : d.Sound W) (hh : d.holders = []) :
    ({ d with
       fs := (d.fs.create W.temp).1
       holders := me :: d.holders
       collided := d.collided || d.holders.any (· ≠ me) } : Disk).Sound W where
  content := by
    have hne : W.path ≠ W.temp := fun hp => W.ne hp.symm
    rw [FileSystem.read_create hne]
    exact h.content
  settled hd := (h.settled hd).create (fun hp => W.ne hp.symm) (h.apart hd)
  apart hd := (h.apart hd).create fun hp => W.ne hp.symm
  one := by simp [hh]
  calls := h.calls

theorem Disk.At.create (hd : d.At W (Disk.Idle me)) :
    let d' : Disk := { d with
      fs := (d.fs.create W.temp).1
      holders := me :: d.holders
      collided := d.collided || d.holders.any (· ≠ me) }
    d.Guar W me d' ∧ d'.At W (Disk.Holds W me (d.fs.create W.temp).2 []) := by
  have hnone : ∀ hc : (d.collided || d.holders.any (· ≠ me)) = false,
      d.collided = false ∧ d.holders = [] := by
    intro hc
    obtain ⟨hc, hany⟩ := Bool.or_eq_false_iff.1 hc
    refine ⟨hc, List.eq_nil_iff_forall_not_mem.2 fun j hj => ?_⟩
    have hjme : j = me := by simpa using List.any_eq_false.1 hany j hj
    exact (hd hc).2.1 (hjme ▸ hj)
  refine ⟨⟨fun hc => ?_, fun hc ha => ?_⟩, fun hc => ?_⟩
  · obtain ⟨hc', hh⟩ := hnone hc
    refine ⟨hc', fun hs => ⟨hs.create hh, fun j hj => ⟨?_, Iff.rfl, fun hjh => ?_⟩⟩⟩
    · simp [hj]
    · rw [hh] at hjh
      cases hjh
  · refine ⟨?_, fun j hj => ?_⟩
    · simpa [hc] using ha
    · rcases List.mem_cons.1 hj with hj | hj
      · exact hj
      · exact ha j hj
  · obtain ⟨hc', hh⟩ := hnone hc
    obtain ⟨hs, hi⟩ := hd hc'
    exact ⟨hs.create hh, List.mem_cons_self, hi.2, FileSystem.create_entry ..,
      congrArg File.data (FileSystem.create_data ..)⟩

/-- The holder changes its file. -/
theorem Disk.At.touch (hd : d.At W (Disk.Holds W me file data)) (f : File UInt8) :
    d.Guar W me { d with fs := d.fs.setFile file f } ∧
      ({ d with fs := d.fs.setFile file f } : Disk).At W fun d =>
        Disk.Holds W me file f.data d ∧ d.fs.files file = f := by
  refine ⟨.of_holder (fun hc => (hd hc).2.holder) rfl (.inl rfl) (.inl rfl)
    fun hc hs => hs.setFile (hd hc).2.entry f, fun hc => ?_⟩
  obtain ⟨hs, hh⟩ := hd hc
  have hf : (d.fs.setFile file f).files file = f := FileSystem.setFile_self file f
  exact ⟨hs.setFile hh.entry f, ⟨hh.holder, hh.renamed, hh.entry, congrArg File.data hf⟩, hf⟩

theorem Disk.At.write (hd : d.At W (Disk.Holds W me file data)) (off : Nat) (chunk : Bytes) :
    d.Guar W me { d with fs := d.fs.write file off chunk } ∧
      ({ d with fs := d.fs.write file off chunk } : Disk).At W
        (Disk.Holds W me file (FileSystem.splice data off chunk)) := by
  obtain ⟨hg, ha⟩ := hd.touch ⟨FileSystem.splice (d.fs.files file).data off chunk, false⟩
  refine ⟨hg, fun hc => ⟨(ha hc).1, ?_⟩⟩
  rw [← (hd hc).2.data]
  exact (ha hc).2.1

/-- The holder gives up. -/
theorem Disk.At.release (hd : d.At W (Disk.Holds W me file data)) :
    d.Guar W me { d with holders := d.holders.erase me } ∧
      ({ d with holders := d.holders.erase me } : Disk).At W (Disk.GivenUp me) :=
  ⟨.of_holder (fun hc => (hd hc).2.holder) rfl (.inl rfl) (.inr rfl) fun _ hs => hs.release,
    fun hc => ⟨(hd hc).1.release, (hd hc).2.renamed⟩⟩

/-- ... and leaves what it likes in the file. -/
theorem Disk.At.drop (hd : d.At W (Disk.Holds W me file data)) (f : File UInt8) :
    d.Guar W me { d with fs := d.fs.setFile file f, holders := d.holders.erase me } ∧
      ({ d with fs := d.fs.setFile file f, holders := d.holders.erase me } : Disk).At W
        (Disk.GivenUp me) := by
  have hsound : d.collided = false → ({ d with
      fs := d.fs.setFile file f
      holders := d.holders.erase me } : Disk).Sound W := by
    intro hc
    obtain ⟨hs, hh⟩ := hd hc
    exact (hs.setFile hh.entry f).release
  exact ⟨.of_holder (fun hc => (hd hc).2.holder) rfl (.inl rfl) (.inr rfl) fun hc _ => hsound hc,
    fun hc => ⟨hsound hc, (hd hc).2.renamed⟩⟩

theorem Disk.At.sync (hd : d.At W (Disk.Holds W me file data)) :
    d.Guar W me { d with fs := d.fs.sync file } ∧
      ({ d with fs := d.fs.sync file } : Disk).At W (Disk.Synced W me file data) := by
  obtain ⟨hg, ha⟩ := hd.touch ⟨(d.fs.files file).data, true⟩
  refine ⟨hg, fun hc => ?_⟩
  obtain ⟨hs, hh, hf⟩ := ha hc
  have hdata := (hd hc).2.data
  exact ⟨hs, ⟨hh.holder, hh.renamed, hh.entry, hh.data.trans hdata⟩, congrArg File.synced hf⟩

/-- A complete archive takes the target's place. -/
theorem Disk.Sound.rename {fs : FileSystem String UInt8} (h : d.Sound W)
    (hh : d.Synced W me file data) (harch : W.archiveOf me = .ok data) (hme : me < W.count)
    (hr : d.fs.rename W.temp W.path = some fs) :
    ({ d with fs := fs, holders := d.holders.erase me, renamed := me :: d.renamed } : Disk).Sound
    W where
  content := by
    rw [FileSystem.read_rename hh.entry hr, hh.data, Writers.current, harch]
    rfl
  settled hd := by
    refine FileSystem.Settled.rename hh.entry hh.synced ?_ ((h.settled hd).mono ?_) hr
    · exact .inr ⟨me, List.mem_cons_self, data, harch, by rw [hh.data]⟩
    · intro c hc
      rcases hc with hc | ⟨i, hi, b, hb, hc⟩
      · exact .inl hc
      · exact .inr ⟨i, List.mem_cons_of_mem _ hi, b, hb, hc⟩
  apart _ := .rename W.ne hr
  one := Nat.le_trans (List.length_erase_le ..) h.one
  calls := by
    intro i hi
    rcases List.mem_cons.1 hi with rfl | hi
    · exact ⟨hme, data, harch⟩
    · exact h.calls i hi

theorem Disk.At.rename {fs : FileSystem String UInt8} (hd : d.At W (Disk.Synced W me file data))
    (harch : W.archiveOf me = .ok data) (hme : me < W.count)
    (hr : d.fs.rename W.temp W.path = some fs) :
    let d' : Disk := { d with fs := fs, holders := d.holders.erase me, renamed := me :: d.renamed }
    d.Guar W me d' ∧ d'.At W (Disk.Renamed W me) := by
  have hsound := fun hc : d.collided = false => (hd hc).1.rename (hd hc).2 harch hme hr
  exact ⟨.of_holder (fun hc => (hd hc).2.holder) rfl (.inr rfl) (.inr rfl) fun hc _ => hsound hc,
    fun hc => ⟨hsound hc, List.mem_cons_self, fun _ => FileSystem.entry_rename W.ne hr⟩⟩

theorem Disk.At.syncDir (hd : d.At W (Disk.Renamed W me)) :
    d.Guar W me { d with fs := d.fs.syncDir } ∧
      ({ d with fs := d.fs.syncDir } : Disk).At W (Disk.Renamed W me) := by
  have hsound : d.Sound W → ({ d with fs := d.fs.syncDir } : Disk).Sound W := fun hs =>
    ⟨hs.content, fun hr => (hs.settled hr).syncDir, fun hr => (hs.apart hr).syncDir, hs.one,
      hs.calls⟩
  refine ⟨⟨fun hc => ⟨hc, fun hs => ⟨hsound hs, fun j _ => ?_⟩⟩, fun hc ha => ⟨hc, ha⟩⟩,
    fun hc => ?_⟩
  · exact ⟨Iff.rfl, Iff.rfl, fun _ => ⟨rfl, rfl⟩⟩
  · exact ⟨hsound (hd hc).1, (hd hc).2.renamed, (hd hc).2.entry⟩

end

/-- One call among others that do not collide with it. -/
def Writers.outline (W : Writers) {me : Nat} (hme : me < W.count) :
    Outline me W.temp W.path (W.archiveOf me) (Disk.Rely W me) (Disk.Guar W me) where
  idle := Disk.At W (Disk.Idle me)
  holds file data := Disk.At W (Disk.Holds W me file data)
  synced file data := Disk.At W (Disk.Synced W me file data)
  landed := Disk.At W (Disk.Renamed W me)
  givenUp := Disk.At W (Disk.GivenUp me)
  refl := Disk.Rely.refl me
  idle_stable := Disk.At.stable Disk.Idle.spared
  holds_stable _ _ := Disk.At.stable Disk.Holds.spared
  synced_stable _ _ := Disk.At.stable Disk.Synced.spared
  landed_stable := Disk.At.stable Disk.Renamed.spared
  givenUp_stable := Disk.At.stable Disk.GivenUp.spared
  stays d hd := ⟨.refl me d, fun hc => ⟨(hd hc).1, (hd hc).2.2⟩⟩
  creates _ hd := Disk.At.create hd
  writesAt _ _ _ off chunk hd := Disk.At.write hd off chunk
  garbles _ _ _ f hd := ⟨(Disk.At.touch hd f).1, fun hc =>
    ⟨((Disk.At.touch hd f).2 hc).1, ((Disk.At.touch hd f).2 hc).2.1⟩⟩
  drops _ _ _ f hd := Disk.At.drop hd f
  releases _ _ _ hd := Disk.At.release hd
  syncs _ _ _ hd := Disk.At.sync hd
  holds_of_synced _ _ _ hd hc := ⟨(hd hc).1, (hd hc).2.toHolds⟩
  renames _ _ _ _ harch hd hr := Disk.At.rename hd harch hme hr
  syncsDir d hd := ⟨.refl me d, Disk.At.syncDir hd⟩

end VaultSigner.L1
