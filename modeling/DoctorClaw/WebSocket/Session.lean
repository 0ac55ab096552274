import DoctorClaw.WebSocket.Frames

/-!
# A WebSocket session of the gateway

After the upgrade `gateway_worker` reads a buffer at a time, parses a frame at
its start and sends the payload back behind the text `Echo: `.  It passes a
length of zero to the parser, from which the copy loop subtracts one, so that
the loop has no bound of its own and stores the payload as a whole; a payload
that does not fit into the buffer of 65536 bytes is outside of this model.

The loop ends behind a buffer whose first byte is 8.  This is a close frame
without its final bit; the close frame that clients send has the first byte
0x88, and is echoed like any other frame.
-/

namespace DoctorClaw

open Rfc6455

/-! ## The loop -/

/-- The reply to the bytes of one `recv`; `decoded` are the old bytes of the
buffer for the message. -/
def wsEcho (decoded data : Bytes) : Option Bytes :=
  match wsParseFrame data 0 with
  | none => none
  | some frame =>
      if 0 < frame.length then
        some (CString.cut wsMaxMessageSize
          (ascii "Echo: " ++ CString.ofBuffer (wsOutMessage data decoded 0)))
      else none

/-- The frames that are sent in answer to the buffers received. -/
def wsSession (decoded : ℕ → Bytes) : List Bytes → List Bytes
  | [] => []
  | data :: rest =>
      let sent := (wsEcho (decoded 0) data).toList.map fun reply ↦ wsBuildFrame reply false
      if data.head? = some 8 then sent
      else sent ++ wsSession (fun i ↦ decoded (i + 1)) rest

/-! ## Parsing without a bound -/

section Unbounded

variable (f : Frame) (rest : Bytes)

/-- The bound that wraps around is never met. -/
theorem min_wrapped {len : ℕ} (h : len < 2 ^ 63) : min len ((0 : UInt64) - 1).toNat = len := by
  have hmax : ((0 : UInt64) - 1).toNat = 2 ^ 64 - 1 := by decide
  rw [hmax]
  omega

theorem min_half {len : ℕ} (h : len < 2 ^ 63) :
    min len ((9223372036854775808 : UInt64) - 1).toNat = len :=
  min_room (by simpa using h)

theorem wsCopyLog_wrapped (data : Bytes) (second : UInt8) (start : ℕ) {len : ℕ} (h : len < 2 ^ 63) :
    wsCopyLog data 0 second start len = wsCopyLog data 9223372036854775808 second start len := by
  simp only [wsCopyLog, min_wrapped h, min_half h]

theorem wsParseFrame_wire_wrapped : wsParseFrame (f.wire ++ rest) 0 =
    some ⟨f.fin.toNat, f.payload, f.payload.length, decide (f.opcode = 2)⟩ := by
  obtain ⟨tail, htail⟩ : ∃ tail, f.wire ++ rest = f.firstByte :: f.secondByte :: tail := ⟨_, rfl⟩
  have hparse := wsParseFrame_of_some 0 (htail ▸ announced_wire_append f rest)
  have hroom : f.payload.length < (9223372036854775808 : UInt64).toNat := f.length_lt
  have hframe := wsFrameAt_wire f rest hroom
  rw [← htail, headerLength_add_mod, if_neg (by simp)] at hparse
  rw [hparse, ← hframe, wsFrameAt, wsFrameAt, min_wrapped f.length_lt, min_half f.length_lt]

theorem wsOutMessage_wire_wrapped {out : Bytes} (hout : f.payload.length < out.length) :
    wsOutMessage (f.wire ++ rest) out 0 = f.payload ++ 0 :: out.drop (f.payload.length + 1) := by
  obtain ⟨tail, htail⟩ : ∃ tail, f.wire ++ rest = f.firstByte :: f.secondByte :: tail := ⟨_, rfl⟩
  have hann := announced_wire_append f rest
  rw [htail] at hann
  have hroom : f.payload.length < (9223372036854775808 : UInt64).toNat := f.length_lt
  rw [← wsOutMessage_wire f rest hroom hout, wsOutMessage, wsOutMessage, htail,
    wsParseFrameLog_of_some 0 hann, wsParseFrameLog_of_some 9223372036854775808 hann,
    wsCopyLog_wrapped _ _ _ f.length_lt]

end Unbounded

/-! ## What a client hears -/

/-- A frame as the client sent it, with what the buffer holds behind it. -/
structure ClientFrame where
  frame : Frame
  behind : Bytes
  fits : frame.payload.length < wsMaxMessageSize

namespace ClientFrame

variable (c : ClientFrame)

def data : Bytes := c.frame.wire ++ c.behind

/-- The text that answers the frame. -/
def echo : Option Bytes :=
  if c.frame.payload = [] then none
  else some (CString.cut wsMaxMessageSize (ascii "Echo: " ++ CString.ofBuffer c.frame.payload))

/-- The frame after which the loop ends. -/
def Ends : Prop := c.frame.fin = false ∧ c.frame.rsv.val = 0 ∧ c.frame.opcode.val = 8

instance : Decidable c.Ends := inferInstanceAs (Decidable (_ ∧ _ ∧ _))

theorem ends_iff : c.data.head? = some 8 ↔ c.Ends := by
  have hhead : c.data.head? = some c.frame.firstByte := rfl
  have hrsv := c.frame.rsv.isLt
  have hopcode := c.frame.opcode.isLt
  have hbyte := c.frame.toNat_firstByte
  rw [hhead, Option.some.injEq, ← UInt8.toNat_inj, hbyte, Ends]
  change _ = 8 ↔ _
  cases c.frame.fin
  · simp only [Bool.false_eq_true, if_false, true_and]
    omega
  · simp only [if_true, reduceCtorEq, false_and, iff_false]
    omega

theorem wsEcho_data {decoded : Bytes} (hdecoded : decoded.length = wsMaxMessageSize) :
    wsEcho decoded c.data = c.echo := by
  have hfits := c.fits
  unfold wsEcho echo data
  simp only [wsParseFrame_wire_wrapped, wsOutMessage_wire_wrapped c.frame c.behind
    (hdecoded ▸ hfits), CString.ofBuffer_append_zero_eq, List.length_pos_iff, ne_eq, ite_not]

/-- Up to the first frame that ends the loop, and this one. -/
def heard : List ClientFrame → List ClientFrame
  | [] => []
  | c :: rest => if c.Ends then [c] else c :: heard rest

end ClientFrame

open ClientFrame in
theorem wsSession_eq (frames : List ClientFrame) (decoded : ℕ → Bytes)
    (hdecoded : ∀ i, (decoded i).length = wsMaxMessageSize) :
    wsSession decoded (frames.map data) =
      ((heard frames).filterMap echo).map fun reply ↦ wsBuildFrame reply false := by
  induction frames generalizing decoded with
  | nil => rfl
  | cons c rest ih =>
      have hrest := ih (fun i ↦ decoded (i + 1)) fun i ↦ hdecoded (i + 1)
      rw [List.map_cons, wsSession, c.wsEcho_data (hdecoded 0), heard]
      simp only [c.ends_iff]
      by_cases hend : c.Ends
      · rw [if_pos hend, if_pos hend]
        cases hecho : c.echo <;> simp [hecho]
      · rw [if_neg hend, if_neg hend, hrest]
        cases hecho : c.echo <;> simp [hecho]

theorem length_echo_lt {c : ClientFrame} {reply : Bytes} (h : c.echo = some reply) :
    reply.length < 65536 := by
  unfold ClientFrame.echo at h
  split_ifs at h
  rw [← Option.some.inj h]
  exact CString.length_cut_lt (by decide) _

/-- A client that sends frames one at a time reads, with any buffer that is
large enough, one final text frame for each frame with a payload, up to the
first one that ends the session: `Echo: ` and the payload up to its first
NUL, cut at the size of a message. -/
theorem ws_session_echoes (frames : List ClientFrame) (decoded : ℕ → Bytes)
    (hdecoded : ∀ i, (decoded i).length = wsMaxMessageSize) (capacity : UInt64)
    (hroom : wsMaxMessageSize ≤ capacity.toNat) :
    (wsSession decoded (frames.map ClientFrame.data)).map (wsParseFrame · capacity) =
      ((ClientFrame.heard frames).filterMap ClientFrame.echo).map fun reply ↦
        some ⟨1, reply, reply.length, false⟩ := by
  rw [wsSession_eq frames decoded hdecoded, List.map_map]
  apply List.map_congr_left
  intro reply hreply
  obtain ⟨c, -, hecho⟩ := List.mem_filterMap.mp hreply
  have hshort := length_echo_lt hecho
  exact wsParseFrame_wsBuildFrame false hshort (hshort.trans_le hroom)

/-- A final frame with the key of `helloFrame`. -/
def shortFrame (opcode : Fin 16) (payload : Bytes) (h : payload.length < 126) : ClientFrame where
  frame := { helloFrame with opcode := opcode, payload := payload, form := .short, fits := h }
  behind := []
  fits := h.trans (by decide)

/-- A final close frame does not end the session. -/
theorem ws_session_echoes_after_close :
    let frames := [shortFrame 1 (ascii "hi") (by decide), shortFrame 8 [] (by decide),
      shortFrame 1 (ascii "still") (by decide)]
    (∀ _ : ℕ, (List.replicate wsMaxMessageSize (0 : UInt8)).length = wsMaxMessageSize) ∧
      (wsSession (fun _ ↦ List.replicate wsMaxMessageSize 0) (frames.map ClientFrame.data)).map
          (wsParseFrame · 65536) =
        [some ⟨1, ascii "Echo: hi", 8, false⟩, some ⟨1, ascii "Echo: still", 11, false⟩] := by
  intro frames
  have hlength : ∀ _ : ℕ, (List.replicate wsMaxMessageSize (0 : UInt8)).length =
      wsMaxMessageSize := fun _ ↦ List.length_replicate
  have hechoes := ws_session_echoes frames (fun _ ↦ List.replicate wsMaxMessageSize 0) hlength
    65536 (by decide)
  refine ⟨hlength, hechoes.trans ?_⟩
  decide

end DoctorClaw
