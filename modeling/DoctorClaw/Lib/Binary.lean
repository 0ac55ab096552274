import DoctorClaw.Lib.CString
import Mathlib.Algebra.Group.Nat.Defs

/-!
# Binary files

Numbers of a fixed width are written little-endian, strings with their length
in front.  `fread` stores as many bytes as the file still has, at the start of
an object whose other bytes stay as they were.
-/

namespace Binary

/-! ## Numbers -/

/-- The number in `width` bytes, the lowest one first. -/
def encode : ℕ → ℕ → Bytes
  | 0, _ => []
  | width + 1, n => UInt8.ofNat n :: encode width (n / 256)

def decode : Bytes → ℕ
  | [] => 0
  | b :: bs => b.toNat + 256 * decode bs

@[simp] theorem length_encode (width n : ℕ) : (encode width n).length = width := by
  induction width generalizing n with
  | zero => rfl
  | succ width ih => rw [encode, List.length_cons, ih]

theorem decode_encode {width n : ℕ} (h : n < 256 ^ width) : decode (encode width n) = n := by
  induction width generalizing n with
  | zero =>
      rw [pow_zero] at h
      rw [encode, decode]
      omega
  | succ width ih =>
      rw [pow_succ] at h
      have hbyte : (UInt8.ofNat n).toNat = n % 256 := rfl
      rw [encode, decode, hbyte, ih (by omega)]
      omega

/-- The number in `width` bytes, the highest one first. -/
def bigEndian (width n : ℕ) : Bytes := (encode width n).reverse

@[simp] theorem length_bigEndian (width n : ℕ) : (bigEndian width n).length = width := by
  rw [bigEndian, List.length_reverse, length_encode]

theorem decode_bigEndian {width n : ℕ} (h : n < 256 ^ width) :
    decode (bigEndian width n).reverse = n := by
  rw [bigEndian, List.reverse_reverse, decode_encode h]

theorem getElem_encode (width n : ℕ) {i : ℕ} (hi : i < (encode width n).length) :
    (encode width n)[i] = UInt8.ofNat (n / 256 ^ i) := by
  induction width generalizing n i with
  | zero => exact absurd hi (Nat.not_lt_zero i)
  | succ width ih =>
      cases i with
      | zero => simp [encode]
      | succ i =>
          simp only [encode, List.getElem_cons_succ]
          rw [ih, Nat.div_div_eq_div_mul, ← pow_succ']

theorem getElem_bigEndian (width n : ℕ) {i : ℕ} (hi : i < (bigEndian width n).length) :
    (bigEndian width n)[i] = UInt8.ofNat (n / 256 ^ (width - 1 - i)) := by
  simp only [bigEndian, List.getElem_reverse, getElem_encode, length_encode]

/-! ## Reading -/

/-- The bytes that `fread` stores when it is asked for `n` of them, and the
rest of the file. -/
def fread (n : ℕ) (file : Bytes) : Bytes × Bytes := (file.take n, file.drop n)

theorem fread_append {n : ℕ} {s : Bytes} (h : s.length = n) (rest : Bytes) :
    fread n (s ++ rest) = (s, rest) := by
  subst h
  rw [fread, List.take_left, List.drop_left]

/-- The bytes of an object after a read into it. -/
def overwrite (old s : Bytes) : Bytes := s ++ old.drop s.length

theorem overwrite_of_length_le {old s : Bytes} (h : old.length ≤ s.length) :
    overwrite old s = s := by
  rw [overwrite, List.drop_eq_nil_of_le h, List.append_nil]

/-- A buffer after a read into it. -/
def readInto {size : ℕ} (buffer : Vector UInt8 size) (s : Bytes) : Vector UInt8 size :=
  Vector.ofFn fun i ↦ (overwrite buffer.toList s).getD i 0

theorem toList_readInto {size : ℕ} {s : Bytes} (h : s.length ≤ size) (buffer : Vector UInt8 size) :
    (readInto buffer s).toList = overwrite buffer.toList s := by
  have hlen : (overwrite buffer.toList s).length = size := by
    rw [overwrite, List.length_append, List.length_drop, Vector.length_toList]
    omega
  apply List.ext_getElem
  · rw [Vector.length_toList, hlen]
  · intro i hi hi'
    simp only [readInto, Vector.getElem_toList, Vector.getElem_ofFn]
    rw [List.getD_eq_getElem?_getD, List.getElem?_eq_getElem hi', Option.getD_some]

theorem readInto_toList {size : ℕ} (buffer buffer' : Vector UInt8 size) :
    readInto buffer buffer'.toList = buffer' := by
  apply Vector.toList_inj.mp
  rw [toList_readInto (by simp), overwrite_of_length_le (by simp)]

/-- A read that stores a string with its terminator leaves the string. -/
theorem ofBuffer_readInto {size : ℕ} {s : Bytes} (hs : (0 : UInt8) ∉ s) (h : s.length < size)
    (buffer : Vector UInt8 size) :
    CString.ofBuffer (readInto buffer (s ++ [0])).toList = s := by
  have hlen : (s ++ [0]).length ≤ size := by
    rw [List.length_append, List.length_singleton]
    omega
  rw [toList_readInto hlen, overwrite, List.append_assoc, List.singleton_append,
    CString.ofBuffer_append_zero hs]

end Binary
