import Mathlib.Data.List.Basic
import Mathlib.Logic.Function.Basic

/-!
# A file system that can crash

Files are numbered; a directory says which file a name names, and no file has
two names. A file is synced when all of its data has reached the disk.
Changes of the directory reach it in order: until the directory is synced, a
crash may bring back any of the directories since.

* `create` opens a file for writing and truncates it; `write`, `sync`,
  `rename` and `syncDir` are the system calls of that name.
* `Crash`: what may be found after a crash. Unsynced data may be anything.
* `Settled fs n P`: whatever a crash brings back, `n` names a synced file and
  its content is in `P`.

Results:
* `Settled.read`, `Settled.crash`: so does what `n` holds now, and what it
  holds after a crash.
* `Settled.setFile`, `Settled.create`, `Settled.rename`, `Settled.syncDir`:
  how the calls keep it, and `read_*` what they do to the content now. Writing
  to a temporary file leaves `n` alone as long as the two are `Apart`.
* `Private.create`, `Private.rename`, `Private.crash`: a name that is apart
  from every other stays so.
* `Same.setFile`, `Same.create`, `Same.rename`: a third name is not affected.
-/
namespace VaultSigner.Core

variable {N β : Type}

structure File (β : Type) where
  data : List β
  synced : Bool

structure Directory (N : Type) where
  entry : N → Option Nat
  inj : ∀ n m i, entry n = some i → entry m = some i → n = m

namespace Directory

variable [DecidableEq N]

/-- `n` names the file `i`, which had no name. -/
def link (d : Directory N) (n : N) (i : Nat) (h : ∀ m, d.entry m ≠ some i) : Directory N where
  entry := fun m => if m = n then some i else d.entry m
  inj := by
    intro a b j ha hb
    by_cases han : a = n
    · by_cases hbn : b = n
      · rw [han, hbn]
      · simp only [han, hbn, if_true, if_false, Option.some.injEq] at ha hb
        subst ha
        exact absurd hb (h b)
    · by_cases hbn : b = n
      · simp only [han, hbn, if_true, if_false, Option.some.injEq] at ha hb
        subst hb
        exact absurd ha (h a)
      · simp only [han, hbn, if_false] at ha hb
        exact d.inj a b j ha hb

/-- `b` names what `a` named, and `a` nothing. -/
def move (d : Directory N) (a b : N) : Directory N where
  entry := fun m => if m = b then d.entry a else if m = a then none else d.entry m
  inj := by
    have hin : ∀ {m : N} {j : Nat}, m ≠ b → (if m = a then none else d.entry m) = some j →
        m ≠ a ∧ d.entry m = some j := by
      intro m j _ h
      by_cases hma : m = a
      · simp [hma] at h
      · exact ⟨hma, by simpa [hma] using h⟩
    intro m n j hm hn
    by_cases hmb : m = b
    · by_cases hnb : n = b
      · rw [hmb, hnb]
      · simp only [hmb, hnb, if_true, if_false] at hm hn
        obtain ⟨hna, hn⟩ := hin hnb hn
        exact absurd (d.inj n a j hn hm) hna
    · by_cases hnb : n = b
      · simp only [hmb, hnb, if_true, if_false] at hm hn
        obtain ⟨hma, hm⟩ := hin hmb hm
        exact absurd (d.inj m a j hm hn) hma
      · simp only [hmb, hnb, if_false] at hm hn
        exact d.inj m n j (hin hmb hm).2 (hin hnb hn).2

end Directory

structure FileSystem (N β : Type) where
  files : Nat → File β
  dir : Directory N
  /-- the directories before `dir` that a crash may bring back -/
  older : List (Directory N)
  next : Nat
  used : ∀ d ∈ dir :: older, ∀ n i, d.entry n = some i → i < next

namespace FileSystem

variable (fs : FileSystem N β)

def dirs : List (Directory N) := fs.dir :: fs.older

def content (d : Directory N) (n : N) : Option (List β) :=
  (d.entry n).map fun i => (fs.files i).data

/-- What `n` holds. -/
def read (n : N) : Option (List β) := fs.content fs.dir n

/-- After a crash: one of the directories is found, and the data of synced
files; the rest is lost or garbled. -/
structure Crash (fs' : FileSystem N β) : Prop where
  dir : fs'.dir ∈ fs.dirs
  older : fs'.older = []
  synced : ∀ i, (fs.files i).synced = true → fs'.files i = fs.files i

/-- Whatever directory a crash brings back, `n` names a synced file with
content in `P` there. -/
def Settled (n : N) (P : Option (List β) → Prop) : Prop :=
  ∀ d ∈ fs.dirs, (∀ i, d.entry n = some i → (fs.files i).synced = true) ∧ P (fs.content d n)

/-- The file that `t` names is not named by `n`, also after a crash. -/
def Apart (t n : N) : Prop :=
  ∀ i, fs.dir.entry t = some i → ∀ d ∈ fs.dirs, d.entry n ≠ some i

/-- The content of `n` is on the disk. -/
structure AtRest (n : N) : Prop where
  dirs : ∀ d ∈ fs.older, d.entry n = fs.dir.entry n
  synced : ∀ i, fs.dir.entry n = some i → (fs.files i).synced = true

variable {fs} {n t : N} {P Q : Option (List β) → Prop}

theorem Settled.read (h : fs.Settled n P) : P (fs.read n) := (h fs.dir List.mem_cons_self).2

theorem Settled.mono (hq : ∀ c, P c → Q c) (h : fs.Settled n P) : fs.Settled n Q :=
  fun d hd => ⟨(h d hd).1, hq _ (h d hd).2⟩

theorem Settled.crash {fs' : FileSystem N β} (h : fs.Settled n P) (hc : fs.Crash fs') :
    P (fs'.read n) := by
  obtain ⟨hs, hp⟩ := h fs'.dir hc.dir
  have hcontent : fs'.read n = fs.content fs'.dir n := by
    unfold FileSystem.read content
    cases hn : fs'.dir.entry n with
    | none => rfl
    | some i => rw [Option.map_some, Option.map_some, hc.synced i (hs i hn)]
  rw [hcontent]
  exact hp

/-- What is found after a crash stays. -/
theorem Settled.crashed {fs' : FileSystem N β} (h : fs.Settled n P) (hc : fs.Crash fs') :
    fs'.Settled n (· = fs'.read n) := by
  intro d hd
  rw [dirs, hc.older] at hd
  obtain rfl := List.mem_singleton.1 hd
  refine ⟨fun i hi => ?_, rfl⟩
  have hs := (h fs'.dir hc.dir).1 i hi
  rw [hc.synced i hs]
  exact hs

theorem AtRest.entry (h : fs.AtRest n) {d : Directory N} (hd : d ∈ fs.dirs) :
    d.entry n = fs.dir.entry n := by
  rcases List.mem_cons.1 hd with rfl | hd
  · rfl
  · exact h.dirs d hd

theorem AtRest.settled (h : fs.AtRest n) : fs.Settled n (· = fs.read n) := by
  intro d hd
  have hn := h.entry hd
  refine ⟨fun i hi => h.synced i (hn ▸ hi), ?_⟩
  unfold FileSystem.read content
  rw [hn]

theorem AtRest.apart (h : fs.AtRest n) (hne : t ≠ n) : fs.Apart t n := by
  intro i hi d hd hdi
  rw [h.entry hd] at hdi
  exact hne (fs.dir.inj t n i hi hdi)

/-! ## Changes of one file -/

variable (fs) in
def setFile (i : Nat) (f : File β) : FileSystem N β :=
  { fs with files := Function.update fs.files i f }

@[simp] theorem setFile_dir (i : Nat) (f : File β) : (fs.setFile i f).dir = fs.dir := rfl
@[simp] theorem setFile_dirs (i : Nat) (f : File β) : (fs.setFile i f).dirs = fs.dirs := rfl
@[simp] theorem setFile_self (i : Nat) (f : File β) : (fs.setFile i f).files i = f :=
  Function.update_self ..

theorem setFile_of_ne {i j : Nat} (f : File β) (h : j ≠ i) :
    (fs.setFile i f).files j = fs.files j :=
  Function.update_of_ne h ..

theorem content_setFile {d : Directory N} {i : Nat} (f : File β) (h : d.entry n ≠ some i) :
    (fs.setFile i f).content d n = fs.content d n := by
  unfold content
  cases hn : d.entry n with
  | none => rfl
  | some j =>
    have hji : j ≠ i := by
      rintro rfl
      exact h hn
    rw [Option.map_some, Option.map_some, setFile_of_ne f hji]

theorem read_setFile {i : Nat} (f : File β) (h : fs.dir.entry n ≠ some i) :
    (fs.setFile i f).read n = fs.read n := content_setFile f h

theorem Settled.setFile {i : Nat} (f : File β) (h : fs.Settled n P)
    (hi : ∀ d ∈ fs.dirs, d.entry n ≠ some i) : (fs.setFile i f).Settled n P := by
  intro d hd
  have hne := hi d hd
  refine ⟨fun j hj => ?_, ?_⟩
  · have hji : j ≠ i := by
      rintro rfl
      exact hne hj
    rw [setFile_of_ne f hji]
    exact (h d hd).1 j hj
  · rw [content_setFile f hne]
    exact (h d hd).2

/-- `data` with `chunk` at `off`; a gap before it is filled. -/
def splice [Inhabited β] (data : List β) (off : Nat) (chunk : List β) : List β :=
  data.take off ++ List.replicate (off - data.length) default ++ chunk ++
    data.drop (off + chunk.length)

variable (fs) in
def write [Inhabited β] (i off : Nat) (chunk : List β) : FileSystem N β :=
  fs.setFile i ⟨splice (fs.files i).data off chunk, false⟩

variable (fs) in
def sync (i : Nat) : FileSystem N β := fs.setFile i ⟨(fs.files i).data, true⟩

/-! ## Changes of the directory -/

variable (fs) in
/-- All changes so far are on the disk. -/
def syncDir : FileSystem N β :=
  { fs with
    older := []
    used := fun d hd => fs.used d (List.mem_cons.2 (.inl (List.mem_singleton.1 hd))) }

@[simp] theorem syncDir_files : fs.syncDir.files = fs.files := rfl
@[simp] theorem syncDir_dir : fs.syncDir.dir = fs.dir := rfl
@[simp] theorem read_syncDir : fs.syncDir.read n = fs.read n := rfl

theorem mem_dirs_syncDir {d : Directory N} (h : d ∈ fs.syncDir.dirs) : d ∈ fs.dirs :=
  List.mem_cons.2 (.inl (List.mem_singleton.1 h))

theorem Settled.syncDir (h : fs.Settled n P) : fs.syncDir.Settled n P :=
  fun d hd => h d (mem_dirs_syncDir hd)

theorem Apart.syncDir (h : fs.Apart t n) : fs.syncDir.Apart t n :=
  fun i hi d hd => h i hi d (mem_dirs_syncDir hd)

/-! ## Other names -/

/-- No other name names a file that `n` names, or named before the directory
was last synced. -/
def Private (fs : FileSystem N β) (n : N) : Prop := ∀ t, t ≠ n → fs.Apart t n

/-- `m` names the same file as before, with the same data. -/
structure Same (fs fs' : FileSystem N β) (m : N) : Prop where
  entry : fs'.dir.entry m = fs.dir.entry m
  file : ∀ i, fs.dir.entry m = some i → fs'.files i = fs.files i

theorem Same.refl (fs : FileSystem N β) (m : N) : fs.Same fs m := ⟨rfl, fun _ _ => rfl⟩

theorem Same.trans {fs' fs'' : FileSystem N β} {m : N} (h : fs.Same fs' m) (h' : fs'.Same fs'' m) :
    fs.Same fs'' m where
  entry := h'.entry.trans h.entry
  file := by
    intro i hi
    rw [h'.file i (h.entry.trans hi), h.file i hi]

theorem Same.setFile {m : N} {i : Nat} (f : File β) (hi : fs.dir.entry t = some i) (hm : m ≠ t) :
    fs.Same (fs.setFile i f) m where
  entry := rfl
  file := by
    intro j hj
    refine setFile_of_ne f fun hji => ?_
    subst hji
    exact hm (fs.dir.inj m t j hj hi)

theorem Same.syncDir (fs : FileSystem N β) (m : N) : fs.Same fs.syncDir m := ⟨rfl, fun _ _ => rfl⟩

theorem AtRest.isPrivate (h : fs.AtRest n) : fs.Private n := fun _ ht => h.apart ht

theorem Private.syncDir (h : fs.Private n) : fs.syncDir.Private n := fun t ht => (h t ht).syncDir

theorem Private.crash {fs' : FileSystem N β} (hc : fs.Crash fs') : fs'.Private n := by
  intro t ht i hi d hd hdi
  rw [dirs, hc.older] at hd
  rw [List.mem_singleton.1 hd] at hdi
  exact ht (fs'.dir.inj t n i hi hdi)

/-! ## Creating and renaming -/

variable [DecidableEq N]

variable (fs) in
/-- `n` names a new, empty file. -/
def link (n : N) : FileSystem N β where
  files := Function.update fs.files fs.next ⟨[], false⟩
  dir := fs.dir.link n fs.next fun m hm => absurd (fs.used _ List.mem_cons_self m _ hm)
    (Nat.lt_irrefl _)
  older := fs.dirs
  next := fs.next + 1
  used := by
    intro d hd m i hm
    rcases List.mem_cons.1 hd with rfl | hd
    · by_cases hmn : m = n
      · simp only [Directory.link, hmn, if_true, Option.some.injEq] at hm
        omega
      · simp only [Directory.link, hmn, if_false] at hm
        exact Nat.lt_succ_of_lt (fs.used _ List.mem_cons_self m i hm)
    · exact Nat.lt_succ_of_lt (fs.used d hd m i hm)

variable (fs) in
/-- `File::create`: the file that `t` names, now empty, or a new one. -/
def create (t : N) : FileSystem N β × Nat :=
  match fs.dir.entry t with
  | some i => (fs.setFile i ⟨[], false⟩, i)
  | none => (fs.link t, fs.next)

variable (fs) in
/-- `None` when there is no file `a`. -/
def rename (a b : N) : Option (FileSystem N β) :=
  match fs.dir.entry a with
  | none => none
  | some _ => some
    { fs with
      dir := fs.dir.move a b
      older := fs.dirs
      used := by
        intro d hd m j hm
        rcases List.mem_cons.1 hd with rfl | hd
        · by_cases hmb : m = b
          · simp only [Directory.move, hmb, if_true] at hm
            exact fs.used _ List.mem_cons_self a j hm
          · by_cases hma : m = a
            · subst hma
              simp [Directory.move, hmb] at hm
            · simp only [Directory.move, hmb, hma, if_false] at hm
              exact fs.used _ List.mem_cons_self m j hm
        · exact fs.used d hd m j hm }

theorem create_entry (fs : FileSystem N β) (t : N) :
    (fs.create t).1.dir.entry t = some (fs.create t).2 := by
  unfold create
  cases ht : fs.dir.entry t with
  | some i => exact ht
  | none => simp [link, Directory.link]

theorem create_data (fs : FileSystem N β) (t : N) :
    (fs.create t).1.files (fs.create t).2 = ⟨[], false⟩ := by
  unfold create
  cases fs.dir.entry t with
  | some i => exact setFile_self ..
  | none => exact Function.update_self ..

theorem files_link {i : Nat} (h : i ≠ fs.next) : (fs.link t).files i = fs.files i :=
  Function.update_of_ne h ..

/-- A new file has no name in any directory so far. -/
theorem content_link {d : Directory N} (hd : d ∈ fs.dirs) :
    (fs.link t).content d n = fs.content d n := by
  unfold content
  cases hn : d.entry n with
  | none => rfl
  | some j =>
    have hj : j ≠ fs.next := Nat.ne_of_lt (fs.used d hd n j hn)
    rw [Option.map_some, Option.map_some, files_link hj]

theorem entry_link (hne : n ≠ t) : (fs.link t).dir.entry n = fs.dir.entry n := by
  simp [link, Directory.link, hne]

theorem read_create (hne : n ≠ t) : (fs.create t).1.read n = fs.read n := by
  unfold create
  cases ht : fs.dir.entry t with
  | some i => exact read_setFile _ fun hn => hne (fs.dir.inj n t i hn ht)
  | none =>
    have h := content_link (t := t) (n := n) (d := fs.dir) List.mem_cons_self
    unfold FileSystem.read
    rw [← h]
    unfold content
    rw [entry_link hne]

theorem Settled.create (hne : n ≠ t) (ha : fs.Apart t n) (h : fs.Settled n P) :
    (fs.create t).1.Settled n P := by
  unfold FileSystem.create
  cases ht : fs.dir.entry t with
  | some i => exact h.setFile _ (ha i ht)
  | none =>
    have hold : ∀ d ∈ fs.dirs, (∀ i, d.entry n = some i → ((fs.link t).files i).synced = true) ∧
        P ((fs.link t).content d n) := by
      intro d hd
      refine ⟨fun i hi => ?_, ?_⟩
      · have hlt : i ≠ fs.next := Nat.ne_of_lt (fs.used d hd n i hi)
        rw [files_link hlt]
        exact (h d hd).1 i hi
      · rw [content_link hd]
        exact (h d hd).2
    intro d hd
    rcases List.mem_cons.1 hd with rfl | hd
    · have hcur := hold fs.dir List.mem_cons_self
      unfold content at hcur ⊢
      rw [entry_link hne]
      exact hcur
    · exact hold d hd

theorem Apart.create (hne : n ≠ t) (ha : fs.Apart t n) : (fs.create t).1.Apart t n := by
  unfold FileSystem.create
  cases ht : fs.dir.entry t with
  | some i => exact ha
  | none =>
    intro i hi d hd hdi
    have hlt : i < fs.next := by
      rcases List.mem_cons.1 hd with rfl | hd
      · rw [entry_link hne] at hdi
        exact fs.used _ List.mem_cons_self n i hdi
      · exact fs.used d hd n i hdi
    simp only [link, Directory.link, if_true, Option.some.injEq] at hi
    omega

/-- What a successful `rename` does. -/
theorem rename_some {fs' : FileSystem N β} {a b : N} (h : fs.rename a b = some fs') :
    ∃ i, fs.dir.entry a = some i ∧ fs'.files = fs.files ∧ fs'.dir = fs.dir.move a b ∧
      fs'.older = fs.dirs := by
  unfold rename at h
  cases ha : fs.dir.entry a with
  | none =>
    rw [ha] at h
    cases h
  | some i =>
    rw [ha] at h
    cases h
    exact ⟨i, rfl, rfl, rfl, rfl⟩

theorem read_rename {fs' : FileSystem N β} {a b : N} {i : Nat} (ha : fs.dir.entry a = some i)
    (h : fs.rename a b = some fs') : fs'.read b = some (fs.files i).data := by
  obtain ⟨j, -, hf, hd, -⟩ := rename_some h
  simp [FileSystem.read, content, hf, hd, Directory.move, ha]

theorem entry_rename {fs' : FileSystem N β} {a b : N} (hne : a ≠ b) (h : fs.rename a b = some fs') :
    fs'.dir.entry a = none := by
  obtain ⟨j, -, -, hd, -⟩ := rename_some h
  simp [hd, Directory.move, hne]

theorem Settled.rename {fs' : FileSystem N β} {i : Nat} (ha : fs.dir.entry t = some i)
    (hs : (fs.files i).synced = true) (hp : P (some (fs.files i).data)) (h : fs.Settled n P)
    (hr : fs.rename t n = some fs') : fs'.Settled n P := by
  obtain ⟨j, -, hf, hd, ho⟩ := rename_some hr
  intro d hmem
  have hdirs : d = fs.dir.move t n ∨ d ∈ fs.dirs := by
    rw [dirs, hd, ho] at hmem
    exact List.mem_cons.1 hmem
  unfold content
  rw [hf]
  rcases hdirs with rfl | hmem
  · have hn : (fs.dir.move t n).entry n = some i := by simp [Directory.move, ha]
    rw [hn]
    refine ⟨fun k hk => ?_, hp⟩
    rw [← Option.some.inj hk]
    exact hs
  · exact h d hmem

theorem Apart.rename {fs' : FileSystem N β} (hne : t ≠ n) (hr : fs.rename t n = some fs') :
    fs'.Apart t n := by
  intro i hi
  rw [entry_rename hne hr] at hi
  cases hi

/-! ## ... and the other names -/

theorem Same.create {m : N} (hm : m ≠ t) : fs.Same (fs.create t).1 m := by
  unfold FileSystem.create
  cases ht : fs.dir.entry t with
  | some i => exact .setFile _ ht hm
  | none =>
    refine ⟨entry_link hm, fun i hi => files_link ?_⟩
    exact Nat.ne_of_lt (fs.used _ List.mem_cons_self m i hi)

theorem Same.rename {fs' : FileSystem N β} {m : N} (hr : fs.rename t n = some fs') (ht : m ≠ t)
    (hn : m ≠ n) : fs.Same fs' m := by
  obtain ⟨i, -, hf, hd, -⟩ := rename_some hr
  refine ⟨?_, fun j _ => by rw [hf]⟩
  rw [hd]
  simp [Directory.move, ht, hn]

theorem Private.create (hne : n ≠ t) (h : fs.Private n) : (fs.create t).1.Private n := by
  intro m hm
  by_cases hmt : m = t
  · subst hmt
    exact (h m hm).create hne
  · unfold FileSystem.create
    cases ht : fs.dir.entry t with
    | some i => exact h m hm
    | none =>
      intro i hi d hd
      rw [entry_link hmt] at hi
      rcases List.mem_cons.1 hd with rfl | hd
      · rw [entry_link hne]
        exact h m hm i hi fs.dir List.mem_cons_self
      · exact h m hm i hi d hd

theorem Private.rename {fs' : FileSystem N β} (hr : fs.rename t n = some fs') (hne : t ≠ n)
    (h : fs.Private n) : fs'.Private n := by
  intro m hm
  by_cases hmt : m = t
  · subst hmt
    exact .rename hne hr
  · intro i hi d hd
    rw [(Same.rename hr hmt hm).entry] at hi
    obtain ⟨j, hj, -, hdir, ho⟩ := rename_some hr
    rw [dirs, hdir, ho] at hd
    rcases List.mem_cons.1 hd with rfl | hd
    · intro hn
      have hji : fs.dir.entry t = some i := by simpa [Directory.move, hj] using hn
      exact hmt (fs.dir.inj m t i hi hji)
    · exact h m hm i hi d hd

end FileSystem

end VaultSigner.Core
