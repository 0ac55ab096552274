import DoctorClaw.Lib.CString
import Mathlib.Algebra.Group.Nat.Defs

/-!
# WebSocket frames

A frame starts with two bytes, and with two or eight more for the length of a
longer payload.  The parser reads those eight from the most significant one
on; the builder writes them from the least significant one on, so that the two
agree exactly on payloads whose length fits in sixteen bits.
-/

namespace DoctorClaw

def wsMaxMessageSize : ℕ := 65536

/-- `(len >> (i * 8)) & 0xFF`. -/
def lengthByte (len i : ℕ) : UInt8 := UInt8.ofNat ((len >>> (i * 8)) &&& 0xFF)

def wsFrameHeader (len : ℕ) (binary : Bool) : Bytes :=
  (if binary then 0x82 else 0x81) ::
    if len < 126 then [UInt8.ofNat len]
    else if len < 65536 then [126, lengthByte len 1, lengthByte len 0]
    else 127 :: (List.range 8).map (lengthByte len)

def wsBuildFrame (message : Bytes) (binary : Bool) : Bytes :=
  wsFrameHeader message.length binary ++ message

/-- The return value and what is left behind the pointers; `none` where the
call fails. -/
structure WsFrame where
  fin : ℕ
  message : Bytes
  length : ℕ
  binary : Bool
  deriving DecidableEq

def beValue (bytes : Bytes) : ℕ := bytes.foldl (fun value b ↦ (value <<< 8) ||| b.toNat) 0

/-- Payload length and offset behind it. -/
def wsPayloadLen (data : Bytes) (second : UInt8) : Option (ℕ × ℕ) :=
  let short := (second &&& 0x7F).toNat
  if short = 126 then
    if data.length < 4 then none else some (beValue ((data.drop 2).take 2), 4)
  else if short = 127 then
    if data.length < 10 then none else some (beValue ((data.drop 2).take 8), 10)
  else some (short, 2)

/-- `capacity` is what `*out_len` holds before the call.  The sum of the
lengths is taken modulo `2 ^ 64`. -/
def wsParseFrame (data : Bytes) (capacity : UInt64) : Option WsFrame :=
  match data with
  | first :: second :: _ =>
      let masked := second &&& 0x80 ≠ 0
      let maskLen := if masked then 4 else 0
      match wsPayloadLen data second with
      | none => none
      | some (payloadLen, offset) =>
          if data.length < (offset + maskLen + payloadLen) % 2 ^ 64 then none
          else
            let maskKey := (data.drop offset).take maskLen
            let byteAt := fun i ↦
              let byte := data.getD (offset + maskLen + i) 0
              if masked then byte ^^^ maskKey.getD (i % 4) 0 else byte
            some
              { fin := (first >>> 7 &&& 1).toNat
                message := (List.range (min payloadLen (capacity - 1).toNat)).map byteAt
                length := payloadLen
                binary := first &&& 0x0F = 2 }
  | _ => none

/-! ## Lengths -/

theorem toNat_lengthByte (len i : ℕ) : (lengthByte len i).toNat = len / 2 ^ (i * 8) % 256 := by
  rw [lengthByte, UInt8.toNat_ofNat', Nat.shiftRight_eq_div_pow, show (0xFF : ℕ) = 2 ^ 8 - 1 from rfl,
    Nat.and_two_pow_sub_one_eq_mod, Nat.mod_mod]

theorem beValue_pair (a b : UInt8) : beValue [a, b] = a.toNat * 256 + b.toNat := by
  have hb : b.toNat < 2 ^ 8 := b.toNat_lt
  simp only [beValue, List.foldl_cons, List.foldl_nil, Nat.zero_shiftLeft, Nat.zero_or]
  rw [← Nat.shiftLeft_add_eq_or_of_lt hb, Nat.shiftLeft_eq]

theorem beValue_lengthBytes {len : ℕ} (h : len < 65536) :
    beValue [lengthByte len 1, lengthByte len 0] = len := by
  rw [beValue_pair, toNat_lengthByte, toNat_lengthByte]
  omega

theorem short_of_lt {len : ℕ} (h : len < 126) :
    UInt8.ofNat len &&& 0x80 = 0 ∧ (UInt8.ofNat len &&& 0x7F).toNat = len := by
  have hall : ∀ n : Fin 126, UInt8.ofNat n &&& 0x80 = 0 ∧ (UInt8.ofNat n &&& 0x7F).toNat = n := by
    decide
  exact hall ⟨len, h⟩

theorem map_getD_append (header message : Bytes) :
    (List.range message.length).map (fun i ↦ (header ++ message).getD (header.length + 0 + i) 0) =
      message := by
  apply List.ext_getElem
  · simp
  · intro i hi hi'
    simp [List.getElem?_append_right, hi']

/-! ## The round trip -/

/-- An unmasked frame is read back where the length read is the length of the
payload. -/
theorem wsParseFrame_eq_some {first second : UInt8} {more message : Bytes} {capacity : UInt64}
    (hmask : second &&& 0x80 = 0)
    (hlen : wsPayloadLen (first :: second :: more ++ message) second =
      some (message.length, (first :: second :: more).length))
    (hsmall : (first :: second :: more ++ message).length < 2 ^ 64)
    (hroom : message.length < capacity.toNat) :
    wsParseFrame (first :: second :: more ++ message) capacity =
      some ⟨(first >>> 7 &&& 1).toNat, message, message.length, first &&& 0x0F = 2⟩ := by
  have htotal : (first :: second :: more ++ message).length =
      (first :: second :: more).length + message.length := List.length_append
  have hcap : (capacity - 1).toNat = capacity.toNat - 1 := by
    apply UInt64.toNat_sub_of_le
    rw [UInt64.le_iff_toNat_le, UInt64.toNat_one]
    omega
  have hmin : min message.length (capacity - 1).toNat = message.length := by omega
  have hpayload := map_getD_append (first :: second :: more) message
  unfold wsParseFrame
  simp only [List.cons_append] at hlen hsmall htotal hpayload ⊢
  simp only [hlen, hmask, ne_eq, not_true_eq_false, if_false, Nat.add_zero, ← htotal,
    Nat.mod_eq_of_lt hsmall, Nat.lt_irrefl, hmin]
  rw [Nat.add_zero] at hpayload
  rw [hpayload]

theorem first_byte (binary : Bool) :
    ((if binary then 0x82 else 0x81 : UInt8) >>> 7 &&& 1).toNat = 1 ∧
      decide ((if binary then 0x82 else 0x81 : UInt8) &&& 0x0F = 2) = binary := by
  cases binary <;> decide

theorem wsParseFrame_wsBuildFrame {message : Bytes} {capacity : UInt64} (binary : Bool)
    (hsmall : message.length < 65536) (hroom : message.length < capacity.toNat) :
    wsParseFrame (wsBuildFrame message binary) capacity =
      some ⟨1, message, message.length, binary⟩ := by
  obtain ⟨hfin, hbinary⟩ := first_byte binary
  rw [wsBuildFrame, wsFrameHeader]
  by_cases hshort : message.length < 126
  · obtain ⟨hmask, hvalue⟩ := short_of_lt hshort
    rw [if_pos hshort, wsParseFrame_eq_some hmask ?_ ?_ hroom, hfin, hbinary]
    · simp only [wsPayloadLen, hvalue]
      rw [if_neg (by omega), if_neg (by omega)]
      rfl
    · simp only [List.length_append, List.length_cons, List.length_nil]
      omega
  · rw [if_neg hshort, if_pos hsmall, wsParseFrame_eq_some (by decide) ?_ ?_ hroom, hfin, hbinary]
    · have hlong : ¬ (message.length + 1 + 1 + 1 + 1 < 4) := by omega
      simp [wsPayloadLen, beValue_lengthBytes hsmall, hlong]
    · simp only [List.length_append, List.length_cons, List.length_nil]
      omega

/-- The eight length bytes of a payload of 65536 bytes are read as
`2 ^ 40`. -/
theorem wsParseFrame_wsBuildFrame_long {message : Bytes} (hlong : message.length = 65536)
    (binary : Bool) (capacity : UInt64) :
    wsParseFrame (wsBuildFrame message binary) capacity = none := by
  have hbytes : (List.range 8).map (lengthByte 65536) = [0, 0, 1, 0, 0, 0, 0, 0] := by decide
  rw [wsBuildFrame, wsFrameHeader, hlong, if_neg (by decide : ¬ 65536 < 126),
    if_neg (Nat.lt_irrefl 65536), hbytes]
  have hvalue : beValue [0, 0, 1, 0, 0, 0, 0, 0] = 2 ^ 40 := by decide
  have hmask : (127 : UInt8) &&& 128 = 0 := by decide
  simp [wsParseFrame, wsPayloadLen, hvalue, hlong, hmask]

/-- Building and parsing a frame gives the message back exactly when its length
is below 65536. -/
theorem ws_round_trip_iff (message : Bytes) (binary : Bool) (capacity : UInt64)
    (hmax : message.length ≤ wsMaxMessageSize) (hroom : message.length < capacity.toNat) :
    wsParseFrame (wsBuildFrame message binary) capacity =
        some ⟨1, message, message.length, binary⟩ ↔ message.length < 65536 := by
  constructor
  · intro htrip
    by_contra hlong
    rw [wsMaxMessageSize] at hmax
    rw [wsParseFrame_wsBuildFrame_long (by omega) binary capacity] at htrip
    cases htrip
  · intro hsmall
    exact wsParseFrame_wsBuildFrame binary hsmall hroom

theorem ws_round_trip_iff_hello :
    (ascii "hello").length ≤ wsMaxMessageSize ∧
      wsParseFrame (wsBuildFrame (ascii "hello") true) 64 = some ⟨1, ascii "hello", 5, true⟩ :=
  ⟨by decide, (ws_round_trip_iff (ascii "hello") true 64 (by decide) (by decide)).mpr (by decide)⟩

theorem ws_round_trip_fails :
    ¬ ∀ (message : Bytes) (binary : Bool) (capacity : UInt64),
      message.length ≤ wsMaxMessageSize → message.length < capacity.toNat →
      wsParseFrame (wsBuildFrame message binary) capacity =
        some ⟨1, message, message.length, binary⟩ := by
  intro h
  have hlong : (List.replicate 65536 (97 : UInt8)).length = 65536 := List.length_replicate
  have htrip := h (List.replicate 65536 97) false 65537 (by rw [hlong, wsMaxMessageSize])
    (by rw [hlong]; decide)
  rw [wsParseFrame_wsBuildFrame_long hlong] at htrip
  cases htrip

end DoctorClaw
