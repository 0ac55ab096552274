import DoctorClaw.Lib.CString
import Mathlib.Algebra.Group.Nat.Defs

/-!
# The base 64 encoding of RFC 4648

Three bytes are one number of 24 bits, which is written as four digits of six
bits.  Of a last group of one or two bytes the digits that carry bits of these
are written, and the rest of the four characters is padding.
-/

namespace Rfc4648

def alphabet : Bytes := ascii "ABCDEFGHIJKLMNOPQRSTUVWXYZabcdefghijklmnopqrstuvwxyz0123456789+/"

/-- The character of a digit. -/
def digit (n : ℕ) : UInt8 := alphabet.getD (n % 64) 0

def pad : UInt8 := 61

/-- The number of three bytes. -/
def group (b1 b2 b3 : UInt8) : ℕ := b1.toNat * 2 ^ 16 + b2.toNat * 2 ^ 8 + b3.toNat

def encode : Bytes → Bytes
  | [] => []
  | [b1] => [digit (group b1 0 0 / 2 ^ 18), digit (group b1 0 0 / 2 ^ 12), pad, pad]
  | [b1, b2] =>
      [digit (group b1 b2 0 / 2 ^ 18), digit (group b1 b2 0 / 2 ^ 12),
        digit (group b1 b2 0 / 2 ^ 6), pad]
  | b1 :: b2 :: b3 :: rest =>
      digit (group b1 b2 b3 / 2 ^ 18) :: digit (group b1 b2 b3 / 2 ^ 12) ::
        digit (group b1 b2 b3 / 2 ^ 6) :: digit (group b1 b2 b3) :: encode rest

/-- The value of a character of the alphabet. -/
def digitValue (c : UInt8) : ℕ := alphabet.idxOf c

theorem digitValue_digit (n : ℕ) : digitValue (digit n) = n % 64 := by
  have hall : ∀ d : Fin 64, digitValue (digit d) = d := by decide
  have hn := hall ⟨n % 64, Nat.mod_lt n (by decide)⟩
  simpa [digit] using hn

theorem digit_eq_iff {m n : ℕ} : digit m = digit n ↔ m % 64 = n % 64 := by
  refine ⟨fun h ↦ ?_, fun h ↦ by rw [digit, digit, h]⟩
  rw [← digitValue_digit, ← digitValue_digit, h]

theorem length_encode (b : Bytes) : (encode b).length = 4 * ((b.length + 2) / 3) := by
  induction b using encode.induct with
  | case1 => rfl
  | case2 b1 => simp [encode]
  | case3 b1 b2 => simp [encode]
  | case4 b1 b2 b3 rest ih =>
      simp only [encode, List.length_cons, ih]
      omega

end Rfc4648
