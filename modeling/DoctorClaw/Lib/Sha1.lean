import DoctorClaw.Lib.Binary

/-!
# The digest SHA-1 of FIPS 180-4

A message is padded to whole blocks of 64 bytes: a byte `0x80`, as few zeros as
are needed, and the length in bits.  Each block is expanded to 80 words, which
take part in one round each.
-/

namespace Sha1

open Binary

/-- `ROTL` of the standard. -/
def rotl (x n : UInt32) : UInt32 := (x <<< n) ||| (x >>> (32 - n))

def ch (x y z : UInt32) : UInt32 := (x &&& y) ^^^ (~~~x &&& z)

def parity (x y z : UInt32) : UInt32 := x ^^^ y ^^^ z

def maj (x y z : UInt32) : UInt32 := (x &&& y) ^^^ (x &&& z) ^^^ (y &&& z)

def mix (t : ℕ) (x y z : UInt32) : UInt32 :=
  if t < 20 then ch x y z
  else if t < 40 then parity x y z
  else if t < 60 then maj x y z
  else parity x y z

def constant (t : ℕ) : UInt32 :=
  if t < 20 then 0x5A827999
  else if t < 40 then 0x6ED9EBA1
  else if t < 60 then 0x8F1BBCDC
  else 0xCA62C1D6

structure State where
  a : UInt32
  b : UInt32
  c : UInt32
  d : UInt32
  e : UInt32
  deriving DecidableEq

def initial : State := ⟨0x67452301, 0xEFCDAB89, 0x98BADCFE, 0x10325476, 0xC3D2E1F0⟩

/-! ## Padding -/

/-- The number of zeros behind `0x80`. -/
def zeros (len : ℕ) : ℕ := (119 - len % 64) % 64

def pad (message : Bytes) : Bytes :=
  message ++ 0x80 :: (List.replicate (zeros message.length) 0 ++ bigEndian 8 (8 * message.length))

/-! ## Compression -/

/-- The word at `i` of a block that starts at the byte `start`. -/
def wordAt (bytes : Bytes) (start i : ℕ) : UInt32 :=
  UInt32.ofNat (Binary.decode ((bytes.drop (start + 4 * i)).take 4).reverse)

def schedule (bytes : Bytes) (start t : ℕ) : UInt32 :=
  if t < 16 then wordAt bytes start t
  else
    rotl (schedule bytes start (t - 3) ^^^ schedule bytes start (t - 8) ^^^
      schedule bytes start (t - 14) ^^^ schedule bytes start (t - 16)) 1

def round (w : ℕ → UInt32) (s : State) (t : ℕ) : State where
  a := rotl s.a 5 + mix t s.b s.c s.d + s.e + constant t + w t
  b := s.a
  c := rotl s.b 30
  d := s.c
  e := s.d

def State.add (s r : State) : State := ⟨s.a + r.a, s.b + r.b, s.c + r.c, s.d + r.d, s.e + r.e⟩

def compress (bytes : Bytes) (s : State) (start : ℕ) : State :=
  s.add ((List.range 80).foldl (round (schedule bytes start)) s)

def hash (message : Bytes) : State :=
  ((List.range ((pad message).length / 64)).map (64 * ·)).foldl (compress (pad message)) initial

def State.words (s : State) : List UInt32 := [s.a, s.b, s.c, s.d, s.e]

def digest (message : Bytes) : Bytes := (hash message).words.flatMap fun w ↦ bigEndian 4 w.toNat

/-! ## The digest as a text -/

/-- A digit in lower case. -/
def hexDigit (n : ℕ) : UInt8 := UInt8.ofNat (if n < 10 then 48 + n else 87 + n)

def hex (bytes : Bytes) : Bytes :=
  bytes.flatMap fun b ↦ [hexDigit (b.toNat / 16), hexDigit (b.toNat % 16)]

/-! ## Lengths -/

theorem length_pad (message : Bytes) :
    (pad message).length = message.length + zeros message.length + 9 := by
  simp only [pad, List.length_append, List.length_cons, List.length_replicate, length_bigEndian]
  omega

/-- The padded message is made of whole blocks. -/
theorem length_pad_mod (message : Bytes) : (pad message).length % 64 = 0 := by
  rw [length_pad]
  unfold zeros
  omega

theorem length_digest (message : Bytes) : (digest message).length = 20 := by
  simp [digest, State.words]

end Sha1
