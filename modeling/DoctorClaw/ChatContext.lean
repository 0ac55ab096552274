import DoctorClaw.Lib.CString

/-!
# The chat context

The messages sent to a provider, oldest first.  `agent_trim_history` keeps the
system messages and the twenty newest others once there are more than fifty of
these; the newest come first then, because it copies them from the end.
-/

namespace DoctorClaw

structure Message where
  role : Bytes
  content : Bytes
  deriving DecidableEq

structure ChatContext where
  messages : List Message
  messageCapacity : ℕ

def chatContextAddMessage (ctx : ChatContext) (role content : Bytes) : ChatContext where
  messages := ctx.messages ++ [⟨CString.cut 16 role, CString.cut 8192 content⟩]
  messageCapacity :=
    if ctx.messageCapacity ≤ ctx.messages.length then ctx.messageCapacity * 2
    else ctx.messageCapacity

def maxHistoryMessages : ℕ := 50

def compactionKeepRecent : ℕ := 20

def Message.isSystem (m : Message) : Bool := m.role == ascii "system"

def agentTrimHistory (ctx : ChatContext) : ChatContext :=
  let system := ctx.messages.filter Message.isSystem
  let others := ctx.messages.filter fun m ↦ !m.isSystem
  if ctx.messages.length ≤ maxHistoryMessages ∨ others.length ≤ maxHistoryMessages then ctx
  else
    let messages := system ++ others.reverse.take compactionKeepRecent
    { messages := messages, messageCapacity := messages.length + 8 }

end DoctorClaw
