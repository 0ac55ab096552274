import DoctorClaw.WebSocket

/-!
# The clients of the WebSocket server

`ws_server_t` keeps up to 32 clients in the order in which they were added.
Nothing keeps a file descriptor from being added twice; it is then served
twice by a broadcast, and taken out one entry at a time.

What a client hears depends on nothing but how often its descriptor is in the
table, so that the other clients may come and go in between.
-/

namespace DoctorClaw

def wsMaxClients : ℕ := 32

inductive WsCall
  | add (fd : ℤ) (ip : Bytes) (now : ℕ)
  | remove (fd : ℤ)
  | broadcast (message : Bytes) (binary : Bool)
  | send (fd : ℤ) (message : Bytes) (binary : Bool)
  | free
  deriving DecidableEq

/-- The entries that the calls leave, by descriptor and in all. -/
structure Presence where
  total : ℕ
  times : ℤ → ℕ

def Presence.add (p : Presence) (fd : ℤ) : Presence :=
  if fd < 0 ∨ wsMaxClients ≤ p.total then p
  else ⟨p.total + 1, Function.update p.times fd (p.times fd + 1)⟩

def Presence.remove (p : Presence) (fd : ℤ) : Presence :=
  if p.times fd = 0 then p
  else ⟨p.total - 1, Function.update p.times fd (p.times fd - 1)⟩

/-- The table as its users see it. -/
def Presence.call (p : Presence) : WsCall → Presence
  | .add fd _ _ => p.add fd
  | .remove fd => p.remove fd
  | .broadcast _ _ => p
  | .send _ _ _ => p
  | .free => ⟨0, fun _ ↦ 0⟩

/-- The frames that a descriptor is sent. -/
def Presence.frames (p : Presence) (fd : ℤ) : WsCall → List Bytes
  | .broadcast message binary => List.replicate (p.times fd) (wsBuildFrame message binary)
  | .send fd' message binary =>
      if fd' = fd ∧ 0 < p.times fd then [wsBuildFrame message binary] else []
  | _ => []

end DoctorClaw
