import Mathlib.Data.List.Basic

/-!
# Bytes, strings, UUIDs and hex

Rust's `&[u8]` / `Vec<u8>` is `List UInt8`, a fixed `[u8; N]` is
`Vector UInt8 N`, and `str::as_bytes` is `utf8`. `hexEncode` / `hexDecode`
follow the `hex` crate's `encode` and `decode` (lower-case output, either
case accepted, an odd length or any other character refused).

Results:
* `utf8_inj`, `utf8_ascii`.
* `hexDecode_hexEncode`: the hex text of a byte string decodes to it.
* `hexEncode_utf8`: the hex text of `n` bytes is `2 n` ASCII hex digits.
-/
namespace VaultSigner.L1

abbrev Bytes := List UInt8

/-- `str::as_bytes`. -/
def utf8 (s : String) : Bytes := s.toByteArray.data.toList

theorem utf8_inj {s t : String} : utf8 s = utf8 t ↔ s = t := by
  constructor
  · intro h
    exact String.toByteArray_inj.1 (ByteArray.ext (Array.toList_inj.1 h))
  · rintro rfl; rfl

/-- An ASCII text has one byte for each character. -/
theorem utf8_ascii (l : List Char) (h : ∀ c ∈ l, c.val.toNat < 128) :
    utf8 (String.ofList l) = l.map fun c => c.val.toUInt8 := by
  unfold utf8
  rw [String.toByteArray_ofList]
  induction l with
  | nil => rfl
  | cons c l ih =>
    have h1 : c.utf8Size = 1 := Char.utf8Size_eq_one_iff.2 (by
      have := h c (by simp)
      exact UInt32.le_iff_toNat_le.2 (by show c.val.toNat ≤ 127; omega))
    rw [List.utf8Encode_cons, List.utf8Encode_singleton, String.utf8EncodeChar_eq_singleton h1]
    simp only [ByteArray.data_append, Array.toList_append, List.map_cons]
    rw [ih fun d hd => h d (by simp [hd])]
    rfl

/-- `uuid::Uuid`: sixteen bytes. -/
structure Uuid where
  bytes : Vector UInt8 16
deriving DecidableEq

/-- `Uuid::as_bytes`. -/
def Uuid.asBytes (u : Uuid) : Bytes := u.bytes.toList

@[simp] theorem Uuid.asBytes_length (u : Uuid) : u.asBytes.length = 16 := by
  simp [Uuid.asBytes]

theorem Uuid.asBytes_inj {u v : Uuid} : u.asBytes = v.asBytes ↔ u = v := by
  constructor
  · intro h
    cases u; cases v
    simpa [Uuid.asBytes, Vector.toList_inj] using h
  · rintro rfl; rfl

/-! ## Hex -/

def hexDigit (n : Nat) : Char := Char.ofNat (if n < 10 then 48 + n else 87 + n)

/-- `hex::encode`. -/
def hexEncode (b : Bytes) : String :=
  String.ofList (b.flatMap fun x => [hexDigit (x.toNat / 16), hexDigit (x.toNat % 16)])

def hexValue (c : Char) : Option Nat :=
  if 48 ≤ c.toNat ∧ c.toNat ≤ 57 then some (c.toNat - 48)
  else if 97 ≤ c.toNat ∧ c.toNat ≤ 102 then some (c.toNat - 87)
  else if 65 ≤ c.toNat ∧ c.toNat ≤ 70 then some (c.toNat - 55)
  else none

def hexDecodeChars : List Char → Option Bytes
  | [] => some []
  | [_] => none
  | c :: d :: l => do
    let hi ← hexValue c
    let lo ← hexValue d
    let rest ← hexDecodeChars l
    return UInt8.ofNat (hi * 16 + lo) :: rest

/-- `hex::decode(..).ok()`. -/
def hexDecode (s : String) : Option Bytes := hexDecodeChars s.toList

theorem hexValue_hexDigit (n : Nat) (h : n < 16) : hexValue (hexDigit n) = some n := by
  have := (by decide : ∀ i : Fin 16, hexValue (hexDigit i.val) = some i.val)
  exact this ⟨n, h⟩

theorem hexDecode_hexEncode (b : Bytes) : hexDecode (hexEncode b) = some b := by
  unfold hexDecode hexEncode
  rw [String.toList_ofList]
  induction b with
  | nil => rfl
  | cons x b ih =>
    have hx : x.toNat < 256 := x.toNat_lt
    have hhi : x.toNat / 16 < 16 := by omega
    have hlo : x.toNat % 16 < 16 := Nat.mod_lt _ (by decide)
    have hbyte : UInt8.ofNat (x.toNat / 16 * 16 + x.toNat % 16) = x := by
      rw [show x.toNat / 16 * 16 + x.toNat % 16 = x.toNat by omega]
      exact UInt8.ofNat_toNat
    show (do
      let hi ← hexValue (hexDigit (x.toNat / 16))
      let lo ← hexValue (hexDigit (x.toNat % 16))
      let rest ← hexDecodeChars
        (b.flatMap fun x => [hexDigit (x.toNat / 16), hexDigit (x.toNat % 16)])
      return UInt8.ofNat (hi * 16 + lo) :: rest) = some (x :: b)
    rw [hexValue_hexDigit _ hhi, hexValue_hexDigit _ hlo, ih]
    exact congrArg (fun y => some (y :: b)) hbyte

/-- `u8::is_ascii_hexdigit`. -/
def isAsciiHexdigit (b : UInt8) : Bool :=
  (48 ≤ b && b ≤ 57) || (97 ≤ b && b ≤ 102) || (65 ≤ b && b ≤ 70)

theorem hexDigit_ascii (n : Nat) (h : n < 16) :
    (hexDigit n).val.toNat < 128 ∧ isAsciiHexdigit (hexDigit n).val.toUInt8 = true := by
  have := (by decide : ∀ i : Fin 16, (hexDigit i.val).val.toNat < 128 ∧
    isAsciiHexdigit (hexDigit i.val).val.toUInt8 = true)
  exact this ⟨n, h⟩

theorem hexEncode_utf8 (b : Bytes) :
    (utf8 (hexEncode b)).length = 2 * b.length ∧ (utf8 (hexEncode b)).all isAsciiHexdigit =
    true := by
  have hd : ∀ c ∈ b.flatMap fun x => [hexDigit (x.toNat / 16), hexDigit (x.toNat % 16)],
      c.val.toNat < 128 ∧ isAsciiHexdigit c.val.toUInt8 = true := by
    intro c hc
    simp only [List.mem_flatMap, List.mem_cons, List.not_mem_nil, or_false] at hc
    obtain ⟨x, -, rfl | rfl⟩ := hc
    · exact hexDigit_ascii _ (by have := x.toNat_lt; omega)
    · exact hexDigit_ascii _ (by omega)
  unfold hexEncode
  rw [utf8_ascii _ fun c hc => (hd c hc).1]
  refine ⟨?_, ?_⟩
  · simp [List.length_flatMap, Nat.mul_comm]
  · rw [List.all_map, List.all_eq_true]
    exact fun c hc => (hd c hc).2

end VaultSigner.L1
