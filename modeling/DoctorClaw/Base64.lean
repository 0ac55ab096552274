import DoctorClaw.Lib.CString
import Mathlib.Algebra.Group.Int.Defs
import Mathlib.Algebra.Group.Nat.Defs

/-!
# Base64

The encoder keeps the three bytes of a group in an `unsigned char`, which holds
the last of them only.  The decoder does the same, and moves six characters on
for the four it has read.
-/

namespace DoctorClaw

def base64Table : Bytes := ascii "ABCDEFGHIJKLMNOPQRSTUVWXYZabcdefghijklmnopqrstuvwxyz0123456789+/"

def base64Char (n : ℕ) : UInt8 := base64Table.getD (n % 64) 0

/-- The four characters for three bytes. -/
def base64Group (b1 b2 b3 : UInt8) : Bytes :=
  let triple := (b1.toNat * 2 ^ 16 + b2.toNat * 2 ^ 8 + b3.toNat) % 256
  [base64Char (triple / 2 ^ 18), base64Char (triple / 2 ^ 12), base64Char (triple / 2 ^ 6),
    base64Char triple]

def base64Groups : Bytes → Bytes
  | [] => []
  | [b1] => base64Group b1 0 0
  | [b1, b2] => base64Group b1 b2 0
  | b1 :: b2 :: b3 :: rest => base64Group b1 b2 b3 ++ base64Groups rest

/-- The characters written to `output`. -/
def base64Chars (input : Bytes) : Bytes :=
  let chars := base64Groups input
  let padding := (3 - input.length % 3) % 3
  chars.take (chars.length - padding) ++ List.replicate padding 61

/-- The text in `output` afterwards, `memory` being what it held from its first
byte on.  Without room for the terminator the old bytes go on the text. -/
def utilBase64Encode (memory input : Bytes) (outputSize : ℕ) : Bytes :=
  let chars := base64Chars input
  if chars.length < outputSize then chars
  else chars ++ CString.ofBuffer (memory.drop chars.length)

def base64DecodeChar (c : UInt8) : ℤ :=
  if 65 ≤ c ∧ c ≤ 90 then c.toNat - 65
  else if 97 ≤ c ∧ c ≤ 122 then c.toNat - 97 + 26
  else if 48 ≤ c ∧ c ≤ 57 then c.toNat - 48 + 52
  else if c = 43 then 62
  else if c = 47 then 63
  else -1

/-- The decoding loop from `i` on, over the memory at `input`: return value
and bytes written. -/
def base64DecodeFrom (input : ℕ → UInt8) (len outLen : ℕ) : ℕ → ℕ → Bytes → ℤ × Bytes
  | 0, _, output => (0, output)
  | fuel + 1, i, output =>
      if len ≤ i ∨ input i = 61 then (0, output)
      else
        let b1 := base64DecodeChar (input i)
        let b2 := base64DecodeChar (input (i + 1))
        let b3 := if input (i + 2) ≠ 61 then base64DecodeChar (input (i + 2)) else 0
        let b4 := if input (i + 3) ≠ 61 then base64DecodeChar (input (i + 3)) else 0
        if b1 < 0 ∨ b2 < 0 then (-1, output)
        else
          let triple := ((b1 * 2 ^ 18 + b2 * 2 ^ 12 + b3 * 2 ^ 6 + b4) % 256).toNat
          let put (ok : Bool) (b : ℕ) (output : Bytes) : Bytes :=
            if ok && decide (output.length < outLen) then output ++ [UInt8.ofNat b] else output
          let output := put true (triple / 2 ^ 16) output
          let output := put (decide (i + 2 < len - 2) && input (i + 3) != 61) (triple / 2 ^ 8) output
          let output := put (decide (i + 2 < len - 3) && input (i + 4) != 61) triple output
          base64DecodeFrom input len outLen fuel (i + 6) output

/-- Return value and bytes written for a text, `beyond` being the memory behind
its terminator. -/
def utilBase64Decode (text : Bytes) (beyond : ℕ → UInt8) (outLen : ℕ) : ℤ × Bytes :=
  if text.length % 4 ≠ 0 then (-1, [])
  else
    base64DecodeFrom
      (fun i ↦ if i ≤ text.length then text.getD i 0 else beyond (i - text.length - 1))
      text.length outLen (text.length + 1) 0 []

end DoctorClaw
