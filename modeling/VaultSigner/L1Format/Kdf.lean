import VaultSigner.L1Format.Crates

/-!
# KDF parameters (`kdf.rs`)

A random salt is an argument: the result of the `getrandom` call it comes
from. So is the time each probe derivation of `benchmark` takes, in
nanoseconds, as a function of the iteration count probed.

Results:
* `saltFromHex_saltToHex`: the `hex_salt` codec round-trips.
* `benchmark_meetsFloor`: whatever the measured times, a benchmark never
  returns parameters below the floor.
-/
namespace VaultSigner.L1

def floorMemoryKib : UInt32 := 64 * 1024
def floorIterations : UInt32 := 3
def floorParallelism : UInt32 := 1

def desktopTargetMemoryKib : UInt32 := 256 * 1024
def desktopTargetParallelism : UInt32 := 4
def mobileTargetMemoryKib : UInt32 := 96 * 1024
def mobileTargetParallelism : UInt32 := 2

/-- `BENCHMARK_TARGET_MIN`, 500 ms in nanoseconds. -/
def benchmarkTargetMin : Nat := 500000000
def benchmarkMaxIterations : UInt32 := 64

/-- mirrors vaultcore/src/kdf.rs:42-45 (`DeviceProfile`) -/
inductive DeviceProfile where
  | desktop
  | mobile
deriving DecidableEq

/-- A foreign error text under one of `VaultError`'s cases
(`map_err(|e| VaultError::X(e.to_string()))`). -/
def mapErr {α : Type} (f : String → VaultError) : Except String α → VaultResult α
  | .ok a => .ok a
  | .error m => .error (f m)

@[simp] theorem mapErr_ok {α : Type} {f : String → VaultError} {x : Except String α} {a : α} :
    mapErr f x = .ok a ↔ x = .ok a := by
  cases x <;> simp [mapErr]

/-- mirrors vaultcore/src/kdf.rs:64-71 (`KdfParams::new`) -/
def KdfParamsOf.new (memoryKib iterations parallelism : UInt32) (salt : Except String Salt) :
    VaultResult KdfParams := do
  let salt ← mapErr .kdf salt
  return ⟨memoryKib, iterations, parallelism, salt⟩

/-- mirrors vaultcore/src/kdf.rs:92-99 (`derive`) -/
def derive (C : Crates) (passphrase : Bytes) (params : KdfParams) : VaultResult Key :=
  mapErr .kdf (C.argon2id passphrase params)

/-- The search loop of `benchmark`: probe, and one more iteration until the
probe is slow enough or the maximum is reached. -/
def benchmarkLoop (C : Crates) (memoryKib parallelism : UInt32) (salt : Salt)
    (elapsed : UInt32 → Nat) (iterations : UInt32) : VaultResult UInt32 :=
  match mapErr .kdf (C.argon2id (utf8 "vaultsigner-benchmark-probe")
      ⟨memoryKib, iterations, parallelism, salt⟩) with
  | .error e => .error e
  | .ok _ =>
    if elapsed iterations ≥ benchmarkTargetMin ∨ iterations ≥ benchmarkMaxIterations then
      .ok iterations
    else benchmarkLoop C memoryKib parallelism salt elapsed (iterations + 1)
termination_by 64 - iterations.toNat
decreasing_by
  have h : iterations.toNat < 64 := by
    have h' : ¬ benchmarkMaxIterations ≤ iterations := fun hc => by simp_all
    exact UInt32.not_le.1 h'
  have : (iterations + 1).toNat = iterations.toNat + 1 := by
    rw [UInt32.toNat_add]; simp; omega
  omega

/-- mirrors vaultcore/src/kdf.rs:108-149 (`benchmark`); `salts 0` is the
benchmark's own salt, `salts 1` the one returned. -/
def benchmark (C : Crates) (profile : DeviceProfile) (salts : Nat → Except String Salt)
    (elapsed : UInt32 → Nat) : VaultResult KdfParams := do
  let (memoryKib, parallelism) := match profile with
    | .desktop => (desktopTargetMemoryKib, desktopTargetParallelism)
    | .mobile => (mobileTargetMemoryKib, mobileTargetParallelism)
  let memoryKib := max memoryKib floorMemoryKib
  let parallelism := max parallelism floorParallelism
  let salt ← mapErr .kdf (salts 0)
  let iterations ← benchmarkLoop C memoryKib parallelism salt elapsed floorIterations
  let fresh ← mapErr .kdf (salts 1)
  return ⟨memoryKib, max iterations floorIterations, parallelism, fresh⟩

/-- mirrors vaultcore/src/kdf.rs:154-158 (`meets_floor`) -/
def meetsFloor (p : KdfParams) : Bool :=
  p.memoryKib ≥ floorMemoryKib && p.iterations ≥ floorIterations &&
    p.parallelism ≥ floorParallelism

theorem bind_ok {ε α β : Type} {x : Except ε α} {f : α → Except ε β} {b : β} :
    (x >>= f) = .ok b ↔ ∃ a, x = .ok a ∧ f a = .ok b := by
  cases x with
  | error e => simp [bind, Except.bind]
  | ok a => simp [bind, Except.bind]

theorem bind_ok_unit {ε β : Type} {x : Except ε Unit} {y : Except ε β} {b : β} :
    (x >>= fun _ => y) = .ok b ↔ x = .ok () ∧ y = .ok b := by
  cases x with
  | error e => simp [bind, Except.bind]
  | ok a => simp [bind, Except.bind]

/-- The floor is enforced after the search, so it needs nothing of the
measured times. -/
theorem benchmark_meetsFloor (C : Crates) (profile : DeviceProfile)
    (salts : Nat → Except String Salt) (elapsed : UInt32 → Nat) (p : KdfParams)
    (h : benchmark C profile salts elapsed = .ok p) : meetsFloor p = true := by
  unfold benchmark at h
  simp only [bind_ok] at h
  obtain ⟨salt, -, it, -, fresh, -, h⟩ := h
  simp only [pure, Except.pure, Except.ok.injEq] at h
  subst h
  have hit : floorIterations ≤ max it floorIterations := by
    show floorIterations ≤ if it ≤ floorIterations then floorIterations else it
    split
    · exact UInt32.le_refl _
    · rename_i hlt; exact UInt32.le_of_lt (UInt32.not_le.1 hlt)
  cases profile <;>
    simp only [meetsFloor, ge_iff_le, Bool.and_eq_true, decide_eq_true_eq] <;>
    exact ⟨⟨by decide, hit⟩, by decide⟩

/-! ## `hex_salt` -/

/-- mirrors vaultcore/src/kdf.rs:164-166 (`hex_salt::serialize`) -/
def saltToHex (salt : Salt) : String := hexEncode salt.toList

/-- mirrors vaultcore/src/kdf.rs:168-174 (`hex_salt::deserialize`) -/
def saltFromHex (C : Crates) (s : String) : Except String Salt :=
  match hexDecode s with
  | none => .error (C.hexError s)
  | some b => if h : b.length = 16 then .ok ⟨b.toArray, h⟩ else .error "salt must be 16 bytes"

theorem saltFromHex_saltToHex (C : Crates) (salt : Salt) :
    saltFromHex C (saltToHex salt) = .ok salt := by
  unfold saltFromHex saltToHex
  rw [hexDecode_hexEncode]
  simp only [Vector.length_toList, dite_true]
  exact congrArg Except.ok (Vector.toArray_inj.1 salt.toArray.toArray_toList)

def KdfParamsOf.toDoc (p : KdfParams) : KdfParamsOf String :=
  ⟨p.memoryKib, p.iterations, p.parallelism, saltToHex p.salt⟩

/-- The error of the salt's own decoder, as `serde_json` reports it for the
text `src`. -/
def KdfParamsOf.ofDoc (C : Crates) (src : Bytes) (d : KdfParamsOf String) : VaultResult KdfParams :=
  match saltFromHex C d.salt with
  | .ok salt => .ok ⟨d.memoryKib, d.iterations, d.parallelism, salt⟩
  | .error m => .error (.serde (C.serdeCustom src m))

@[simp] theorem KdfParamsOf.ofDoc_toDoc (C : Crates) (src : Bytes) (p : KdfParams) :
    KdfParamsOf.ofDoc C src p.toDoc = .ok p := by
  simp [KdfParamsOf.ofDoc, KdfParamsOf.toDoc, saltFromHex_saltToHex]

end VaultSigner.L1
