import DoctorClaw.HttpRequest
import DoctorClaw.Lib.Rfc4648
import DoctorClaw.WebSocket.Sha1

/-!
# The opening handshake

The answer to a client proves that its key was read: RFC 6455 asks for the
digest of the key and a fixed text, in base 64.  `ws_handshake` sends the digest
in hexadecimal.  Key and text together may be longer than `sha1_hash` has room
for.
-/

namespace DoctorClaw

open BufferWriter CString

/-! ## The answer -/

def wsGuid : Bytes := ascii "258EAFA5-E914-47DA-95CA-C5AB0DC85B11"

/-- The key that `handle_ws_request` passes on. -/
def handleWsKey (req : HttpRequest) : Option Bytes :=
  match getHeader req (ascii "Upgrade"), getHeader req (ascii "Connection"),
    getHeader req (ascii "Sec-WebSocket-Key") with
  | some _, some connection, some key =>
      if strstr (ascii "Upgrade") connection = none ∨ strstr (ascii "==") key = none then none
      else some key
  | _, _, _ => none

/-- The text in `combined`. -/
def wsCombined (key : Bytes) : Bytes := cut 256 (key ++ wsGuid)

def switchingProtocols (accept : Bytes) : Bytes :=
  ascii "HTTP/1.1 101 Switching Protocols\r\n" ++ (ascii "Upgrade: websocket\r\n" ++
    (ascii "Connection: Upgrade\r\n" ++ (ascii "Sec-WebSocket-Accept: " ++
      (accept ++ ascii "\r\n\r\n"))))

/-- The text that is sent. -/
def wsHandshake (stack : ℕ → UInt8) (key : Bytes) : Bytes :=
  cut 512 (switchingProtocols (sha1Hash stack (wsCombined key)))

/-! ## The accesses of the digest -/

inductive Sha1Access
  | write (start count : ℕ)
  | read (start count : ℕ)
  | sub (a b : ℕ)
  deriving DecidableEq

/-- The accesses to `msg` and the subtractions in `size_t`. -/
def sha1Log (len : ℕ) : List Sha1Access :=
  (if len < 56 then [.sub 56 len, .sub (sizeSub 56 len) 1]
    else [.sub 120 len, .sub (sizeSub 120 len) 1]) ++
  [.write 0 len, .write len 1, .write (len + 1) (sha1PadLen len)] ++
  (List.range 8).map (fun i ↦ .write ((len + 1 + sha1PadLen len + i) % 2 ^ 64) 1) ++
  (sha1Chunks len).map fun chunk ↦ .read chunk 64

/-- The access is inside of the 128 bytes, the subtraction does not wrap. -/
def Sha1Access.InBounds : Sha1Access → Prop
  | write start count => start + count ≤ 128
  | read start count => start + count ≤ 128
  | sub a b => b ≤ a

def Sha1InBounds (len : ℕ) : Prop := ∀ a ∈ sha1Log len, a.InBounds

theorem sha1PadLen_cases {len : ℕ} (h : len < 120) :
    len < 56 ∧ len + 1 + sha1PadLen len = 56 ∨ 56 ≤ len ∧ len + 1 + sha1PadLen len = 120 := by
  unfold sha1PadLen sizeSub
  split_ifs <;> omega

theorem subtractions_inBounds {a len : ℕ} (h : len < a) :
    ∀ access ∈ [Sha1Access.sub a len, .sub (sizeSub a len) 1], access.InBounds := by
  intro access haccess
  rcases List.mem_pair.mp haccess with rfl | rfl
  · exact h.le
  · change 1 ≤ sizeSub a len
    rw [sizeSub, if_pos h.le]
    omega

theorem sha1InBounds_of_lt {len : ℕ} (h : len < 120) : Sha1InBounds len := by
  have hpad := sha1PadLen_cases h
  intro a ha
  rw [sha1Log, List.mem_append, List.mem_append, List.mem_append] at ha
  rcases ha with ((ha | ha) | ha) | ha
  · split_ifs at ha with hshort
    · exact subtractions_inBounds hshort a ha
    · exact subtractions_inBounds h a ha
  · obtain rfl | rfl | rfl : a = .write 0 len ∨ a = .write len 1 ∨
        a = .write (len + 1) (sha1PadLen len) := by simpa using ha
    all_goals
      simp only [Sha1Access.InBounds]
      omega
  · obtain ⟨i, hi, rfl⟩ := List.mem_map.mp ha
    have hlt := List.mem_range.mp hi
    simp only [Sha1Access.InBounds]
    omega
  · obtain ⟨chunk, hchunk, rfl⟩ := List.mem_map.mp ha
    obtain ⟨i, hi, rfl⟩ := List.mem_map.mp hchunk
    have hlt := List.mem_range.mp hi
    simp only [Sha1Access.InBounds]
    omega

theorem sha1InBounds_iff (len : ℕ) : Sha1InBounds len ↔ len < 120 := by
  refine ⟨fun h ↦ ?_, sha1InBounds_of_lt⟩
  by_contra hlt
  have hsub : len ≤ 120 := h (.sub 120 len) (by simp [sha1Log, show ¬ len < 56 by omega])
  have hone : 1 ≤ sizeSub 120 len :=
    h (.sub (sizeSub 120 len) 1) (by simp [sha1Log, show ¬ len < 56 by omega])
  rw [sizeSub, if_pos hsub] at hone
  omega

/-! ## What RFC 6455 asks for -/

/-- All accesses are inside of `combined` and `msg`. -/
def WsHandshakeInBounds (key : Bytes) : Prop :=
  (wsCombined key).length < 256 ∧ Sha1InBounds (wsCombined key).length

structure HandshakeRight (stack : ℕ → UInt8) (key : Bytes) : Prop where
  inBounds : WsHandshakeInBounds key
  accept : wsHandshake stack key =
    switchingProtocols (Rfc4648.encode (Sha1.digest (key ++ wsGuid)))

theorem wsHandshakeInBounds_iff (key : Bytes) : WsHandshakeInBounds key ↔ key.length ≤ 83 := by
  have hguid : wsGuid.length = 36 := by decide
  have hlen : (wsCombined key).length = min 255 (key.length + 36) := by
    rw [wsCombined, cut, List.length_take, List.length_append, hguid]
  rw [WsHandshakeInBounds, sha1InBounds_iff, hlen]
  omega

theorem length_switchingProtocols (accept : Bytes) :
    (switchingProtocols accept).length = 101 + accept.length := by
  have hstatus : (ascii "HTTP/1.1 101 Switching Protocols\r\n").length = 34 := by decide
  have hupgrade : (ascii "Upgrade: websocket\r\n").length = 20 := by decide
  have hconnection : (ascii "Connection: Upgrade\r\n").length = 21 := by decide
  have hname : (ascii "Sec-WebSocket-Accept: ").length = 22 := by decide
  have hend : (ascii "\r\n\r\n").length = 4 := by decide
  simp only [switchingProtocols, List.length_append]
  omega

theorem not_handshakeRight (stack : ℕ → UInt8) (key : Bytes) : ¬ HandshakeRight stack key := by
  intro h
  have hlen := congrArg List.length h.accept
  rw [wsHandshake, cut_of_lt (by rw [length_switchingProtocols, length_sha1Hash]; decide),
    length_switchingProtocols, length_switchingProtocols, length_sha1Hash, Rfc4648.length_encode,
    Sha1.length_digest] at hlen
  omega

/-- No answer is the right one: the digest is sent as 40 characters instead of
28.  Keys of more than 83 bytes leave the buffer besides. -/
theorem wsHandshake_never_right (stack : ℕ → UInt8) (key : Bytes) :
    (WsHandshakeInBounds key ↔ key.length ≤ 83) ∧ ¬ HandshakeRight stack key :=
  ⟨wsHandshakeInBounds_iff key, not_handshakeRight stack key⟩

/-- The request of the example in the RFC. -/
def sampleRequest : HttpRequest where
  method := ascii "GET"
  path := ascii "/chat"
  body := []
  headers := [ascii "GET /chat HTTP/1.1", ascii "Upgrade: websocket", ascii "Connection: Upgrade",
    ascii "Sec-WebSocket-Key: dGhlIHNhbXBsZSBub25jZQ=="]

theorem sample_handshake_wrong :
    ¬ ∀ (stack : ℕ → UInt8) (req : HttpRequest) (key : Bytes), handleWsKey req = some key →
      key.length ≤ 255 → HandshakeRight stack key := by
  intro h
  exact not_handshakeRight _ _
    (h (fun _ ↦ 0) sampleRequest (ascii "dGhlIHNhbXBsZSBub25jZQ==") (by decide) (by decide))

end DoctorClaw
