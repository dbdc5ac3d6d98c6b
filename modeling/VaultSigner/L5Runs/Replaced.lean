import VaultSigner.L1Format.AtomicWrite

/-!
# What the container's file holds

Any number of `write_entries_atomic` calls of one process, interleaved system
call by system call.

Results:
* `Writers.run`: up to a collision on the temp file, the target holds its old
  content or the archive of the last call that renamed, now and after a crash.
* `writeEntriesAtomic_replaces`: one writer, stopped anywhere.
* `writers_whole`: any number of writers that do not collide; `writers_cut`
  is a collision of two.
-/
namespace VaultSigner.L5
open VaultSigner.Core VaultSigner.L1

section
variable (Z : ZipWriter) (pid : Nat) (path : String) (fs : FileSystem String UInt8)
  (calls : List (List (String × Bytes)))

/-- The calls of one process that write `calls` to `path`. -/
def writers : Writers where
  temp := tempPathIn path pid
  path := path
  ne := tempPathIn_ne path pid
  old := fs.read path
  atRest := fs.AtRest path
  archiveOf := fun i => archive Z (calls.getD i [])
  count := calls.length

def writerPool : Pool SysIn Disk VaultError Unit :=
  ⟨.start fs, calls.mapIdx fun i entries => writeEntriesAtomic Z i pid path entries⟩

variable {Z pid path fs calls}

theorem start_sound : (Disk.start fs).Sound (writers Z pid path fs calls) where
  content := rfl
  settled h := h.settled.mono fun _ hc => .inl hc
  apart h := h.apart (tempPathIn_ne path pid)
  one := Nat.zero_le 1
  calls := by
    intro i hi
    cases hi

/-- What a run keeps. -/
theorem Writers.run {l : List (Nat × SysIn)} {c' : Pool SysIn Disk VaultError Unit}
    (h : Pool.Steps (fun _ _ => True) (writerPool Z pid path fs calls) l c') :
    (c'.shared.collided = false → c'.shared.Sound (writers Z pid path fs calls)) ∧
    (calls.length = 1 → c'.shared.collided = false) ∧
    ∀ (j : Nat) (r : VaultResult Unit), c'.calls[j]? = some (.done r) →
      Disk.Then
      (fun _ =>
        Disk.At (writers Z pid path fs calls) (Disk.Renamed (writers Z pid path fs calls) j))
        (Disk.At (writers Z pid path fs calls) (Disk.GivenUp j)) r c'.shared := by
  have hlen : (writerPool Z pid path fs calls).calls.length = calls.length := List.length_mapIdx ..
  have hrun := h.relies (R := Disk.Rely (writers Z pid path fs calls))
    (G := fun i => Disk.Guar (writers Z pid path fs calls) i)
    (I := fun d => (d.collided = false → d.Sound (writers Z pid path fs calls)) ∧
      (calls.length = 1 → d.collided = false ∧ ∀ j ∈ d.holders, j = 0))
    (Q := fun j => Disk.Then
      (fun _ =>
        Disk.At (writers Z pid path fs calls) (Disk.Renamed (writers Z pid path fs calls) j))
      (Disk.At (writers Z pid path fs calls) (Disk.GivenUp j)))
    Disk.Rely.refl (fun _ _ _ _ h1 h2 => h1.trans h2)
    (fun i j d d' hi hj hij hg => ⟨fun h1 => ?_, fun hc => ?_⟩) (fun i d d' hi hg hI => ?_) hlen
    ⟨fun _ => start_sound, fun _ => ⟨rfl, fun j hj => by cases hj⟩⟩ (fun j q hq => ?_)
  · exact ⟨hrun.1.1, fun h1 => (hrun.1.2 h1).1, fun j r hj => hrun.2 j _ hj _ (.refl j _)⟩
  · have h1' : calls.length = 1 := h1
    omega
  · obtain ⟨hc', hm⟩ := hg.moves hc
    exact ⟨hc', fun hs => ⟨(hm hs).1, fun k hk => (hm hs).2 k (hk ▸ fun he => hij he.symm)⟩⟩
  · refine ⟨fun hc => ?_, fun h1 => ?_⟩
    · obtain ⟨hc', hm⟩ := hg.moves hc
      exact (hm (hI.1 hc')).1
    · have hi0 : i = 0 := by omega
      subst hi0
      exact hg.alone (hI.2 h1).1 (hI.2 h1).2
  · obtain ⟨hlt, hget⟩ := List.getElem?_eq_some_iff.1 hq
    have hjlt : j < calls.length := hlen ▸ hlt
    rw [← hget]
    have hcall : (writerPool Z pid path fs calls).calls[j] =
        writeEntriesAtomic Z j pid path calls[j] := by
      simp [writerPool]
    rw [hcall]
    have harch : (writers Z pid path fs calls).archiveOf j = archive Z calls[j] := by
      simp [writers, hjlt]
    refine (Writers.outline (writers Z pid path fs calls) hjlt).writeEntriesAtomic_relies Z
      rfl harch
      fun _ => ⟨start_sound, ?_, ?_⟩
    · exact List.not_mem_nil
    · exact List.not_mem_nil

/-! ## A directory with one file -/

/-- What the zip crate writes when there are no entries: the end of an empty
central directory. -/
def endOfCentralDirectory : Bytes := [0x50, 0x4b, 0x05, 0x06] ++ List.replicate 18 0

/-- The crate on no entries. -/
def emptyZip : ZipWriter where
  State := Unit
  new := ()
  startFile _ _ := .ok ([], ())
  writeAll _ _ := .ok ([], ())
  finish _ := .ok ([(0, endOfCentralDirectory)], ())
  ioError x := x

def sampleFiles : FileSystem String UInt8 where
  files _ := ⟨[0xab], true⟩
  dir :=
    { entry := fun n => if n = "a.vlt" then some 0 else none
      inj := by
        intro n m i hn hm
        by_cases h : n = "a.vlt"
        · by_cases h' : m = "a.vlt"
          · rw [h, h']
          · simp [h'] at hm
        · simp [h] at hn }
  older := []
  next := 1
  used := by
    intro d hd n i hi
    rw [List.mem_singleton.1 hd] at hi
    by_cases h : n = "a.vlt"
    · simp [h] at hi
      omega
    · simp [h] at hi

theorem sampleFiles_atRest : sampleFiles.AtRest "a.vlt" :=
  ⟨fun _ hd => absurd hd List.not_mem_nil, fun _ _ => rfl⟩

/-- The system calls of a call that meets no error. -/
def noError : SysIn := ⟨.ok (), []⟩

/-! ## One writer -/

/-- What `path` held, or the new archive. -/
def OldOrNew (old : Option Bytes) (new : VaultResult Bytes) (c : Option Bytes) : Prop :=
  c = old ∨ ∃ b, new = .ok b ∧ c = some b

/-- A lone writer has renamed its file, or not. -/
theorem renamed_alone {d : Disk} {entries : List (String × Bytes)}
    (h : d.Sound (writers Z pid path fs [entries])) : d.renamed = [] ∨ ∃ l, d.renamed = 0 :: l := by
  cases hl : d.renamed with
  | nil => exact .inl rfl
  | cons i l =>
    have hi : i < 1 := (h.calls i (hl ▸ List.mem_cons_self)).1
    exact .inr ⟨l, by rw [Nat.lt_one_iff.1 hi]⟩

theorem published_alone {d : Disk} {entries : List (String × Bytes)} {c : Option Bytes}
    (hs : d.Sound (writers Z pid path fs [entries]))
    (h : (writers Z pid path fs [entries]).Published d.renamed c) :
    OldOrNew (fs.read path) (archive Z entries) c := by
  rcases h with h | ⟨i, hi, b, hb, h⟩
  · exact .inl h
  · have hi0 : i = 0 := Nat.lt_one_iff.1 (hs.calls i hi).1
    subst hi0
    exact .inr ⟨b, hb, h⟩

/-- Wherever a lone writer is stopped, `path` holds what it held or the whole
new archive, also after a crash. After an error it holds what it held, after
success the archive, and the temp file is gone. -/
theorem writeEntriesAtomic_replaces (Z : ZipWriter) (pid : Nat) (path : String)
    (entries : List (String × Bytes)) {fs : FileSystem String UInt8} (hrest : fs.AtRest path)
    {l : List (Nat × SysIn)} {d : Disk} {q : FileOp Unit}
    (h : Pool.Steps (fun _ _ => True) ⟨.start fs, [writeEntriesAtomic Z 0 pid path entries]⟩ l
      ⟨d, [q]⟩) :
    OldOrNew (fs.read path) (archive Z entries) (d.fs.read path) ∧
    (∀ fs', d.fs.Crash fs' → OldOrNew (fs.read path) (archive Z entries) (fs'.read path)) ∧
    (∀ x, q = .done (.error x) →
      d.fs.read path = fs.read path ∧ ∀ fs', d.fs.Crash fs' → fs'.read path = fs.read path) ∧
    (q = .done (.ok ()) → ∃ b, archive Z entries = .ok b ∧ d.fs.read path = some b ∧
      d.fs.dir.entry (tempPathIn path pid) = none) := by
  have hpool : Pool.Steps (fun _ _ => True) (writerPool Z pid path fs [entries]) l ⟨d, [q]⟩ := h
  have hrun := Writers.run hpool
  have hc : d.collided = false := hrun.2.1 rfl
  have hs := hrun.1 hc
  have hsettled := hs.settled hrest
  refine ⟨published_alone hs hsettled.read, fun fs' hcr => published_alone hs (hsettled.crash hcr),
    fun x hq => ?_, fun hq => ?_⟩
  · have hnot : 0 ∉ d.renamed := (hrun.2.2 0 (.error x) (congrArg some hq) hc).2
    rcases renamed_alone hs with hnil | ⟨l, hl⟩
    · rw [hnil] at hsettled
      have hold : ∀ c, (writers Z pid path fs [entries]).Published [] c → c = fs.read path := by
        intro c hp
        rcases hp with hp | ⟨i, hi, -⟩
        · exact hp
        · cases hi
      exact ⟨hold _ hsettled.read, fun fs' hcr => hold _ (hsettled.crash hcr)⟩
    · exact absurd (hl ▸ List.mem_cons_self) hnot
  · obtain ⟨-, hren, hentry⟩ := hrun.2.2 0 (.ok ()) (congrArg some hq) hc
    obtain ⟨-, b, hb⟩ := hs.calls 0 hren
    have hcontent := hs.content
    rcases renamed_alone hs with hnil | ⟨l, hl⟩
    · rw [hnil] at hren
      cases hren
    · rw [hl, Writers.current, hb] at hcontent
      exact ⟨b, hb, hcontent, hentry rfl⟩

theorem writeEntriesAtomic_replaces_sample :
    ∃ l d, Pool.Steps (fun _ _ => True)
        ⟨.start sampleFiles, [writeEntriesAtomic emptyZip 0 7 "a.vlt" []]⟩ l ⟨d, [.done (.ok ())]⟩ ∧
      ∃ b, archive emptyZip [] = .ok b ∧ d.fs.read "a.vlt" = some b ∧
        d.fs.dir.entry (tempPathIn "a.vlt" 7) = none := by
  have hrun : ∃ l d, Pool.Steps (fun _ _ => True)
      ⟨.start sampleFiles, [writeEntriesAtomic emptyZip 0 7 "a.vlt" []]⟩ l ⟨d, [.done (.ok ())]⟩ :=
    ⟨List.replicate 6 (0, noError), _, .cons (.mk rfl trivial) <| .cons (.mk rfl trivial) <|
      .cons (.mk rfl trivial) <| .cons (.mk rfl trivial) <| .cons (.mk rfl trivial) <|
      .cons (.mk rfl trivial) <| .nil _⟩
  obtain ⟨l, d, h⟩ := hrun
  exact ⟨l, d, h,
    (writeEntriesAtomic_replaces emptyZip 7 "a.vlt" [] sampleFiles_atRest h).2.2.2 rfl⟩

/-! ## Many writers -/

/-- Until a call creates the temp file while another call holds it, `path`
holds what it held at first or the whole archive of one of the calls. -/
theorem writers_whole (Z : ZipWriter) (pid : Nat) (path : String) (fs : FileSystem String UInt8)
    (calls : List (List (String × Bytes))) {l : List (Nat × SysIn)}
    {c' : Pool SysIn Disk VaultError Unit}
    (h : Pool.Steps (fun _ _ => True) (writerPool Z pid path fs calls) l c')
    (hc : c'.shared.collided = false) :
    c'.shared.fs.read path = fs.read path ∨
      ∃ entries ∈ calls, ∃ b, archive Z entries = .ok b ∧ c'.shared.fs.read path = some b := by
  have hs := (Writers.run h).1 hc
  have hcontent := hs.content
  cases hl : c'.shared.renamed with
  | nil =>
    rw [hl] at hcontent
    exact .inl hcontent
  | cons i l =>
    obtain ⟨hi, b, hb⟩ := hs.calls i (hl ▸ List.mem_cons_self)
    have hi' : i < calls.length := hi
    have harch : archive Z calls[i] = .ok b := by
      have hb' : archive Z (calls.getD i []) = .ok b := hb
      simpa [hi'] using hb'
    rw [hl, Writers.current, hb] at hcontent
    exact .inr ⟨calls[i], List.getElem_mem hi', b, harch, hcontent⟩

theorem writers_whole_sample :
    ∃ l c', Pool.Steps (fun _ _ => True) (writerPool emptyZip 7 "a.vlt" sampleFiles [[], []]) l c' ∧
      c'.shared.collided = false ∧ (c'.shared.fs.read "a.vlt" = sampleFiles.read "a.vlt" ∨
        ∃ entries ∈ [[], []], ∃ b, archive emptyZip entries = .ok b ∧
        c'.shared.fs.read "a.vlt" = some b) := by
  have hrun : ∃ l c', Pool.Steps (fun _ _ => True)
      (writerPool emptyZip 7 "a.vlt" sampleFiles [[], []]) l c' ∧ c'.shared.collided = false :=
    ⟨List.replicate 5 (0, noError) ++ List.replicate 3 (1, noError), _,
      .cons (.mk rfl trivial) <| .cons (.mk rfl trivial) <| .cons (.mk rfl trivial) <|
      .cons (.mk rfl trivial) <| .cons (.mk rfl trivial) <| .cons (.mk rfl trivial) <|
      .cons (.mk rfl trivial) <| .cons (.mk rfl trivial) <| .nil _, rfl⟩
  obtain ⟨l, c', h, hc⟩ := hrun
  exact ⟨l, c', h, hc, writers_whole emptyZip 7 "a.vlt" sampleFiles [[], []] h hc⟩

/-- Call 0 has written and synced its archive when call 1 creates the temp
file, which is the same file: call 0 puts an empty file in the target's place. -/
theorem writers_cut : ∃ l c', Pool.Steps (fun _ _ => True)
      (writerPool emptyZip 7 "a.vlt" sampleFiles [[], []]) l c' ∧
    c'.shared.fs.read "a.vlt" = some [] ∧ sampleFiles.read "a.vlt" = some [0xab] ∧
    archive emptyZip [] = .ok endOfCentralDirectory ∧ endOfCentralDirectory ≠ [] :=
  ⟨List.replicate 4 (0, noError) ++ List.replicate 2 (1, noError) ++ [(0, noError)], _,
    .cons (.mk rfl trivial) <| .cons (.mk rfl trivial) <| .cons (.mk rfl trivial) <|
    .cons (.mk rfl trivial) <| .cons (.mk rfl trivial) <| .cons (.mk rfl trivial) <|
    .cons (.mk rfl trivial) <| .nil _, rfl, rfl, rfl, by decide⟩

end

end VaultSigner.L5
