import MjFormatter.Files.Codec
import MjFormatter.Library.Codecs

/-! # The wire format of `postcard`

Integers are variable-length numbers, an `f64` is its eight bytes, a sequence is its length and its elements, and a
structure is its fields in their order.  Nothing is tagged, and `from_bytes` ignores what follows the value. -/

namespace MjFormatter.Files.Wire

open Library.Bytes Library.Codecs StateCodec Std

/-! ## Numbers -/

def u16 : Codec Nat := varint 2 3 (by decide)
def u32 : Codec Nat := varint 4 15 (by decide)
def u64 : Codec Nat := varint 9 1 (by decide)
def usize : Codec Nat := u64

def zigzag : Int → Nat
  | .ofNat n => 2 * n
  | .negSucc n => 2 * n + 1

def unzigzag (value : Nat) : Int := if value % 2 = 0 then .ofNat (value / 2) else .negSucc (value / 2)

theorem zigzag_unzigzag (value : Nat) : zigzag (unzigzag value) = value := by
  by_cases even : value % 2 = 0
  · simp only [unzigzag, even, if_true, zigzag]
    omega
  · simp only [unzigzag, even, if_false, zigzag]
    omega

theorem unzigzag_zigzag (value : Int) : unzigzag (zigzag value) = value := by
  cases value with
  | ofNat n =>
    have half : 2 * n / 2 = n := by omega
    simp [zigzag, unzigzag]
  | negSucc n =>
    have odd : ¬(2 * n + 1) % 2 = 0 := by omega
    have half : (2 * n + 1) / 2 = n := by omega
    simp [zigzag, unzigzag, half]

def i32 : Codec Int :=
  u32.record { toFun := unzigzag, invFun := zigzag, left_inv := zigzag_unzigzag, right_inv := unzigzag_zigzag }

/-- The bits of an `f64`. -/
abbrev F64 := UInt64

def f64 : Codec F64 :=
  (Codec.raw 8).through (fun bytes => if bytes.length = 8 then some (UInt64.ofNat (ofLe bytes)) else none)
    (fun value => toLe 8 value.toNat)
    (fun value => by
      have fits : value.toNat < 256 ^ 8 := value.toNat_lt
      simp [ofLe_toLe fits])
    (fun bytes value read => by
      by_cases eight : bytes.length = 8
      · have fits : ofLe bytes < UInt64.size := by
          have small := ofLe_lt bytes
          rwa [eight] at small
        rw [if_pos eight, Option.some.injEq] at read
        rw [← read, UInt64.toNat_ofNat_of_lt' fits, ← eight, toLe_ofLe]
      · simp [eight] at read)

/-! ## Sequences -/

def vec {T : Type} (item : Codec T) : Codec (List T) := Codec.list 9 1 (by decide) item

theorem fromUTF8?_toByteArray (value : String) : String.fromUTF8? value.toByteArray = some value := by
  rw [String.fromUTF8?, dif_pos value.isValidUTF8, String.fromUTF8]

theorem toByteArray_of_fromUTF8? {bytes : ByteArray} {value : String} (read : String.fromUTF8? bytes = some value) :
    value.toByteArray = bytes := by
  by_cases valid : bytes.IsValidUTF8
  · rw [String.fromUTF8?, dif_pos valid, Option.some.injEq] at read
    rw [← read, String.fromUTF8]
  · simp [String.fromUTF8?, valid] at read

def string : Codec String :=
  (vec Codec.byte).through (fun bytes => String.fromUTF8? bytes.toByteArray) (fun value => value.toByteArray.data.toList)
    (fun value => by
      have same : value.toByteArray.data.toList.toByteArray = value.toByteArray := by
        apply ByteArray.ext
        apply Array.ext'
        rw [List.toList_data_toByteArray]
      rw [same, fromUTF8?_toByteArray])
    (fun bytes value read => by
      rw [toByteArray_of_fromUTF8? read, List.toList_data_toByteArray])

/-- `BTreeMap<String, _>`. -/
def btreeMap {V : Type} (value : Codec V) : Codec (ExtTreeMap String V) := Codec.map 9 1 (by decide) (string.pair value)

/-! ## The crate -/

def postcard {T : Type} (codec : Codec T) : Postcard T where
  toAllocvec value := some (codec.encode value)
  fromBytes bytes := (codec.decode bytes).map Prod.fst

end MjFormatter.Files.Wire
