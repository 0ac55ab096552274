import DoctorClaw.WebSocket
import DoctorClaw.Lib.Rfc6455
import Mathlib.Data.List.GetD

/-!
# Reading the frames of RFC 6455

The accesses of `ws_parse_frame` to the bytes received and to the buffer for the
message, in their order, together with the two calculations in `size_t` that
may wrap around.  The stores among them are what the call leaves in the buffer.
-/

namespace DoctorClaw

open Rfc6455

/-! ## The accesses -/

inductive WsAccess
  | read (index : ℕ)
  | write (index : ℕ) (byte : UInt8)
  /-- `offset + mask_len + payload_len`. -/
  | total (offset maskLen payloadLen : ℕ)
  /-- `*out_len - 1`. -/
  | room
  deriving DecidableEq

def wsMaskLen (second : UInt8) : ℕ := if second &&& 0x80 ≠ 0 then 4 else 0

/-- The byte that the loop stores at `i`; `start` is where the payload begins. -/
def wsPayloadByte (data : Bytes) (second : UInt8) (start i : ℕ) : UInt8 :=
  let maskLen := wsMaskLen second
  let byte := data.getD (start + i) 0
  if second &&& 0x80 ≠ 0 then
    byte ^^^ ((data.drop (start - maskLen)).take maskLen).getD (i % 4) 0
  else byte

/-- The loop over the payload, and the terminator behind it. -/
def wsCopyLog (data : Bytes) (capacity : UInt64) (second : UInt8) (start payloadLen : ℕ) :
    List WsAccess :=
  (if payloadLen = 0 then [] else [.room]) ++
    ((List.range (min payloadLen (capacity - 1).toNat)).flatMap fun i ↦
      [.read (start + i), .write i (wsPayloadByte data second start i)]) ++
    [.write payloadLen 0]

def wsParseFrameLog (data : Bytes) (capacity : UInt64) : List WsAccess :=
  match data with
  | _ :: second :: _ =>
      [.read 0, .read 1] ++
        match wsPayloadLen data second with
        | none => []
        | some (payloadLen, offset) =>
            let maskLen := wsMaskLen second
            (List.range' 2 (offset - 2)).map .read ++
              .total offset maskLen payloadLen ::
                if data.length < (offset + maskLen + payloadLen) % 2 ^ 64 then []
                else
                  (List.range' offset maskLen).map .read ++
                    wsCopyLog data capacity second (offset + maskLen) payloadLen
  | _ => []

def WsAccess.store (out : Bytes) : WsAccess → Bytes
  | write i b => out.set i b
  | _ => out

/-- The buffer `out_message` after the call. -/
def wsOutMessage (data out : Bytes) (capacity : UInt64) : Bytes :=
  (wsParseFrameLog data capacity).foldl WsAccess.store out

/-! ## The header -/

theorem masked_iff : ∀ second : UInt8, second &&& 0x80 ≠ 0 ↔ 128 ≤ second.toNat :=
  CString.forall_byte (by decide +kernel)

theorem wsMaskLen_eq (second : UInt8) :
    wsMaskLen second = if 128 ≤ second.toNat then 4 else 0 :=
  if_congr (masked_iff second) rfl rfl

theorem beValue_append (bytes : Bytes) (b : UInt8) :
    beValue (bytes ++ [b]) = beValue bytes * 256 + b.toNat := by
  have hb : b.toNat < 2 ^ 8 := b.toNat_lt
  rw [beValue, List.foldl_append]
  change (beValue bytes <<< 8) ||| b.toNat = _
  rw [← Nat.shiftLeft_add_eq_or_of_lt hb, Nat.shiftLeft_eq]

theorem beValue_eq_decode (bytes : Bytes) : beValue bytes = Binary.decode bytes.reverse := by
  induction bytes using List.reverseRecOn with
  | nil => rfl
  | append_singleton bytes b ih =>
      rw [beValue_append, ih, List.reverse_append]
      change _ = b.toNat + 256 * Binary.decode bytes.reverse
      omega

/-- The parser reads the lengths that the bytes announce. -/
theorem wsPayloadLen_eq (first second : UInt8) (rest : Bytes) :
    wsPayloadLen (first :: second :: rest) second =
      (announced (first :: second :: rest)).map fun p ↦ (p.2, p.1 - wsMaskLen second) := by
  have hbyte : ∀ c : UInt8, (c &&& 0x7F).toNat = c.toNat % 128 :=
    CString.forall_byte (by decide +kernel)
  have hcode : second.toNat % 128 < 128 := Nat.mod_lt _ (by decide)
  unfold wsPayloadLen announced
  simp only [hbyte, wsMaskLen_eq, beValue_eq_decode]
  by_cases hmedium : second.toNat % 128 = 126
  · by_cases hlt : rest.length < 2
    · simp [hmedium, hlt]
    · simp [hmedium, hlt, show ¬ rest.length + 1 + 1 < 4 by omega]
  · by_cases hlong : second.toNat % 128 = 127
    · by_cases hlt : rest.length < 8
      · simp [hlong, hlt]
      · simp [hlong, hlt, show ¬ rest.length + 1 + 1 < 10 by omega]
    · simp [hmedium, hlong, show second.toNat % 128 < 126 by omega]

/-- The frame that the call returns once it has found the payload complete. -/
def wsFrameAt (first second : UInt8) (data : Bytes) (capacity : UInt64) (start len : ℕ) :
    WsFrame where
  fin := (first >>> 7 &&& 1).toNat
  message := (List.range (min len (capacity - 1).toNat)).map (wsPayloadByte data second start)
  length := len
  binary := first &&& 0x0F = 2

section Header

variable {first second : UInt8} {rest : Bytes} {start len : ℕ} (capacity : UInt64)

theorem wsParseFrame_of_none {data : Bytes} (h : announced data = none) :
    wsParseFrame data capacity = none := by
  rcases data with _ | ⟨first, _ | ⟨second, rest⟩⟩
  · rfl
  · rfl
  · simp only [wsParseFrame, wsPayloadLen_eq, h, Option.map_none]

theorem wsMaskLen_le (h : announced (first :: second :: rest) = some (start, len)) :
    2 + wsMaskLen second ≤ start := by
  obtain ⟨_, _, _, width, hdata, -, rfl⟩ := announced_eq_some h
  obtain ⟨rfl, htail⟩ := List.cons.inj hdata
  obtain ⟨rfl, rfl⟩ := List.cons.inj htail
  rw [wsMaskLen_eq]
  omega

theorem wsParseFrame_of_some (h : announced (first :: second :: rest) = some (start, len)) :
    wsParseFrame (first :: second :: rest) capacity =
      if (first :: second :: rest).length < (start + len) % 2 ^ 64 then none
      else some (wsFrameAt first second (first :: second :: rest) capacity start len) := by
  have hmask := wsMaskLen_le h
  have hsum : start - wsMaskLen second + wsMaskLen second = start := by omega
  unfold wsMaskLen at hsum
  simp only [wsParseFrame, wsPayloadLen_eq, h, Option.map_some]
  unfold wsFrameAt wsPayloadByte wsMaskLen
  simp only [hsum]

theorem wsParseFrameLog_of_none {data : Bytes} (h : announced data = none) :
    wsParseFrameLog data capacity = [] ∨
      2 ≤ data.length ∧ wsParseFrameLog data capacity = [.read 0, .read 1] := by
  rcases data with _ | ⟨first, _ | ⟨second, rest⟩⟩
  · exact .inl rfl
  · exact .inl rfl
  · refine .inr ⟨by simp, ?_⟩
    simp only [wsParseFrameLog, wsPayloadLen_eq, h, Option.map_none, List.append_nil]

theorem wsParseFrameLog_of_some (h : announced (first :: second :: rest) = some (start, len)) :
    wsParseFrameLog (first :: second :: rest) capacity =
      [.read 0, .read 1] ++
        ((List.range' 2 (start - wsMaskLen second - 2)).map .read ++
          .total (start - wsMaskLen second) (wsMaskLen second) len ::
            if (first :: second :: rest).length < (start + len) % 2 ^ 64 then []
            else
              (List.range' (start - wsMaskLen second) (wsMaskLen second)).map .read ++
                wsCopyLog (first :: second :: rest) capacity second start len) := by
  have hmask := wsMaskLen_le h
  have hsum : start - wsMaskLen second + wsMaskLen second = start := by omega
  simp only [wsParseFrameLog, wsPayloadLen_eq, h, Option.map_some, hsum]

end Header

/-! ## The stores -/

theorem foldl_store_read (indices : List ℕ) (out : Bytes) :
    (indices.map WsAccess.read).foldl WsAccess.store out = out := by
  induction indices with
  | nil => rfl
  | cons i indices ih => exact ih

theorem foldl_set_range (byte : ℕ → UInt8) {n : ℕ} {out : Bytes} (hn : n ≤ out.length) :
    (List.range n).foldl (fun out i ↦ out.set i (byte i)) out =
      (List.range n).map byte ++ out.drop n := by
  induction n with
  | zero => simp
  | succ n ih =>
      have hlen : ((List.range n).map byte).length = n := by simp
      rw [List.range_succ, List.foldl_append, ih (by omega), List.map_append, List.foldl_cons,
        List.foldl_nil, List.set_append_right _ _ (by omega), hlen, Nat.sub_self,
        List.drop_eq_getElem_cons (by omega), List.set_cons_zero, List.append_assoc]
      rfl

theorem min_room {len : ℕ} {capacity : UInt64} (hroom : len < capacity.toNat) :
    min len (capacity - 1).toNat = len := by
  have hcap : (capacity - 1).toNat = capacity.toNat - 1 := by
    apply UInt64.toNat_sub_of_le
    rw [UInt64.le_iff_toNat_le, UInt64.toNat_one]
    omega
  omega

/-- A payload that leaves room for the terminator is stored with it. -/
theorem foldl_store_wsCopyLog (data : Bytes) (second : UInt8) {capacity : UInt64} {start len : ℕ}
    (hroom : len < capacity.toNat) {out : Bytes} (hout : len < out.length) :
    (wsCopyLog data capacity second start len).foldl WsAccess.store out =
      (List.range len).map (wsPayloadByte data second start) ++ 0 :: out.drop (len + 1) := by
  have hfirst : (if len = 0 then [] else [WsAccess.room]).foldl WsAccess.store out = out := by
    split_ifs <;> rfl
  have hlen : ((List.range len).map (wsPayloadByte data second start)).length = len := by simp
  rw [wsCopyLog, List.foldl_append, List.foldl_append, hfirst, min_room hroom,
    List.foldl_flatMap]
  change ((List.range len).foldl (fun out i ↦ out.set i (wsPayloadByte data second start i))
    out).set len 0 = _
  rw [foldl_set_range _ hout.le, List.set_append_right _ _ (by omega), hlen, Nat.sub_self,
    List.drop_eq_getElem_cons hout, List.set_cons_zero]

/-! ## Frames -/

section Frames

variable (f : Frame) (rest : Bytes)

/-- Everything in front of the payload. -/
def headerLength : ℕ := 2 + f.extendedLength.length + f.keyBytes.length

theorem announced_wire_append :
    announced (f.wire ++ rest) = some (headerLength f, f.payload.length) := by
  rw [f.wire_append, f.announced_append]
  rfl

theorem getD_wire_append {i : ℕ} (hi : i < f.payload.length) :
    (f.wire ++ rest).getD (headerLength f + i) 0 = f.payloadData.getD i 0 := by
  have hdata := f.length_payloadData
  have happend : f.wire ++ rest = (f.firstByte :: f.secondByte ::
      (f.extendedLength ++ f.keyBytes)) ++ (f.payloadData ++ rest) := by
    rw [f.wire_append, List.cons_append, List.cons_append, List.append_assoc]
  have hlen : (f.firstByte :: f.secondByte :: (f.extendedLength ++ f.keyBytes)).length =
      headerLength f := by
    simp only [headerLength, List.length_cons, List.length_append]
    omega
  rw [happend, List.getD_append_right _ _ _ _ (by omega), hlen, Nat.add_sub_cancel_left,
    List.getD_append _ _ _ _ (by omega)]

theorem take_keyBytes :
    ((f.wire ++ rest).drop (headerLength f - f.keyBytes.length)).take f.keyBytes.length =
      f.keyBytes := by
  have happend : f.wire ++ rest = (f.firstByte :: f.secondByte :: f.extendedLength) ++
      (f.keyBytes ++ (f.payloadData ++ rest)) := f.wire_append rest
  have hlen : (f.firstByte :: f.secondByte :: f.extendedLength).length =
      headerLength f - f.keyBytes.length := by
    simp only [headerLength, List.length_cons]
    omega
  rw [happend, List.drop_left' hlen, List.take_left]

/-- Adding the masking key again gives the payload. -/
theorem wsPayloadByte_wire {i : ℕ} (hi : i < f.payload.length) :
    wsPayloadByte (f.wire ++ rest) f.secondByte (headerLength f) i = f.payload[i] := by
  have hkeyLen : f.keyBytes.length = wsMaskLen f.secondByte := by
    rw [f.length_keyBytes_eq, wsMaskLen_eq]
  have hkey := take_keyBytes f rest
  rw [hkeyLen] at hkey
  have hmasked : f.secondByte &&& 0x80 ≠ 0 ↔ f.maskingKey.isSome := by
    have hcode := f.lengthCode_lt
    rw [masked_iff, f.toNat_secondByte]
    split_ifs with h
    · exact iff_of_true (by omega) h
    · exact iff_of_false (by omega) h
  simp only [wsPayloadByte, hkey, getD_wire_append f rest hi]
  unfold Frame.payloadData Frame.keyBytes
  cases hmask : f.maskingKey with
  | none =>
      rw [if_neg (by rw [hmasked, hmask]; decide)]
      exact List.getD_eq_getElem _ _ hi
  | some key =>
      have hmod : i % 4 < 4 := Nat.mod_lt _ (by decide)
      have hbyte : (f.payload.mapIdx fun i b ↦ b ^^^ key[i % 4]).getD i 0 =
          f.payload[i] ^^^ key[i % 4] := by
        rw [List.getD_eq_getElem _ _ (by rwa [List.length_mapIdx]), List.getElem_mapIdx]
      have hkeyByte : key.toList.getD (i % 4) 0 = key[i % 4] := by
        rw [List.getD_eq_getElem _ _ (by rwa [Vector.length_toList]), Vector.getElem_toList]
      rw [if_pos (by rw [hmasked, hmask]; rfl), Option.map_some, Option.getD_some, hbyte, hkeyByte,
        UInt8.xor_assoc, UInt8.xor_self, UInt8.xor_zero]

theorem map_wsPayloadByte : (List.range f.payload.length).map
    (wsPayloadByte (f.wire ++ rest) f.secondByte (headerLength f)) = f.payload := by
  apply List.ext_getElem
  · simp
  · intro i hi hi'
    rw [List.getElem_map, List.getElem_range, wsPayloadByte_wire f rest hi']

/-- The sum of the lengths does not wrap around. -/
theorem headerLength_add_mod : (headerLength f + f.payload.length) % 2 ^ 64 = f.wire.length := by
  have hlen : f.wire.length = headerLength f + f.payload.length := f.length_wire
  rw [← hlen, Nat.mod_eq_of_lt f.length_wire_lt]

theorem firstByte_eq : (f.firstByte >>> 7 &&& 1).toNat = f.fin.toNat ∧
    decide (f.firstByte &&& 0x0F = 2) = decide (f.opcode = 2) := by
  have hfin : ∀ c : UInt8, (c >>> 7 &&& 1).toNat = c.toNat / 128 :=
    CString.forall_byte (by decide +kernel)
  have hcode : ∀ c : UInt8, c &&& 0x0F = 2 ↔ c.toNat % 16 = 2 :=
    CString.forall_byte (by decide +kernel)
  have hrsv := f.rsv.isLt
  have hopcode := f.opcode.isLt
  have hbyte := f.toNat_firstByte
  constructor
  · rw [hfin, hbyte]
    cases f.fin
    · exact Nat.div_eq_of_lt (by simp only [Bool.false_eq_true, if_false]; omega)
    · simp only [if_true, Bool.toNat_true]
      omega
  · rw [decide_eq_decide, hcode, hbyte, Fin.ext_iff]
    change _ ↔ f.opcode.val = 2
    split_ifs <;> omega

/-- What the parser makes of a frame that is there as a whole. -/
theorem wsFrameAt_wire {capacity : UInt64} (hroom : f.payload.length < capacity.toNat) :
    wsFrameAt f.firstByte f.secondByte (f.wire ++ rest) capacity (headerLength f)
        f.payload.length =
      ⟨f.fin.toNat, f.payload, f.payload.length, decide (f.opcode = 2)⟩ := by
  rw [wsFrameAt, min_room hroom, map_wsPayloadByte, (firstByte_eq f).1, (firstByte_eq f).2]

theorem wsOutMessage_wire {capacity : UInt64} (hroom : f.payload.length < capacity.toNat)
    {out : Bytes} (hout : f.payload.length < out.length) :
    wsOutMessage (f.wire ++ rest) out capacity =
      f.payload ++ 0 :: out.drop (f.payload.length + 1) := by
  obtain ⟨tail, htail⟩ : ∃ tail, f.wire ++ rest = f.firstByte :: f.secondByte :: tail := ⟨_, rfl⟩
  have hlog := wsParseFrameLog_of_some capacity (htail ▸ announced_wire_append f rest)
  rw [← htail, headerLength_add_mod, if_neg (by simp)] at hlog
  rw [wsOutMessage, hlog, List.foldl_append, List.foldl_append, foldl_store_read,
    List.foldl_cons, List.foldl_append, foldl_store_read]
  refine (foldl_store_wsCopyLog _ _ hroom hout).trans ?_
  rw [map_wsPayloadByte]

/-- Every frame is read as RFC 6455 writes it, and no part of one is taken for
the frame. -/
theorem wsParseFrame_wire (capacity : UInt64) (hroom : f.payload.length < capacity.toNat)
    {out : Bytes} (hout : out.length = capacity.toNat) :
    wsParseFrame (f.wire ++ rest) capacity =
        some ⟨f.fin.toNat, f.payload, f.payload.length, decide (f.opcode = 2)⟩ ∧
      wsOutMessage (f.wire ++ rest) out capacity =
        f.payload ++ 0 :: out.drop (f.payload.length + 1) ∧
      ∀ part, part <+: f.wire → part ≠ f.wire → ∀ capacity, wsParseFrame part capacity = none := by
  refine ⟨?_, wsOutMessage_wire f rest hroom (hout ▸ hroom), fun part hpart hne capacity ↦ ?_⟩
  · obtain ⟨tail, htail⟩ : ∃ tail, f.wire ++ rest = f.firstByte :: f.secondByte :: tail :=
      ⟨_, rfl⟩
    have hparse := wsParseFrame_of_some capacity (htail ▸ announced_wire_append f rest)
    rw [← htail, headerLength_add_mod, if_neg (by simp)] at hparse
    rw [hparse, wsFrameAt_wire f rest hroom]
  · have hlt : part.length < f.wire.length :=
      lt_of_le_of_ne hpart.length_le fun hlen ↦ hne (hpart.eq_of_length hlen)
    rcases f.announced_of_isPrefix hpart with hann | hann
    · exact wsParseFrame_of_none capacity hann
    · obtain ⟨first, second, tail, _, rfl, -, -⟩ := announced_eq_some hann
      have hparse := wsParseFrame_of_some capacity hann
      change _ = if _ < (headerLength f + f.payload.length) % 2 ^ 64 then _ else _ at hparse
      rw [hparse, headerLength_add_mod, if_pos hlt]

end Frames

def helloFrame : Frame where
  fin := true
  rsv := 0
  opcode := 1
  maskingKey := some #v[0x37, 0xfa, 0x21, 0x3d]
  form := .short
  payload := ascii "Hello"
  fits := by decide

/-- A masked final text frame, with a byte of the next one. -/
theorem wsParseFrame_wire_hello :
    wsParseFrame (helloFrame.wire ++ [0x89]) 64 = some ⟨1, ascii "Hello", 5, false⟩ ∧
      ∀ part, part <+: helloFrame.wire → part ≠ helloFrame.wire →
        ∀ capacity, wsParseFrame part capacity = none := by
  have hout : (List.replicate 64 (0 : UInt8)).length = (64 : UInt64).toNat := by decide
  obtain ⟨hparse, -, hparts⟩ := wsParseFrame_wire helloFrame [0x89] 64 (by decide) hout
  exact ⟨hparse, hparts⟩

end DoctorClaw
