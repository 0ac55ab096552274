import DoctorClaw.ChatContext
import Mathlib.Data.List.Induction

/-!
# The shape and the size of the chat history

A conversation starts with the system prompt and is added to and trimmed in
any order.  The system prompt stays in front, and a trimmed history has at most
fifty-one messages.

The messages live in an allocation of `message_capacity` messages.  Every
operation keeps the count within it, except `chat_context_add_system_message`,
which puts a message in front of a full array without making room.
-/

namespace DoctorClaw

/-! ## The remaining operations -/

def systemPrompt : Bytes :=
  ascii ("You are Doctor Claw, an autonomous AI assistant. You can execute tools to help users. " ++
    "Always be helpful, honest, and safe.")

def chatContextInit : ChatContext where
  messages := []
  messageCapacity := 32

def chatContextAddSystemMessage (ctx : ChatContext) (content : Bytes) : ChatContext :=
  match ctx.messages with
  | [] => { ctx with messages := [⟨ascii "system", CString.cut 8192 content⟩] }
  | first :: rest =>
      if first.isSystem then
        { ctx with messages := { first with content := CString.cut 8192 content } :: rest }
      else
        { ctx with messages := ⟨ascii "system", CString.cut 8192 content⟩ :: first :: rest }

def chatContextClearMessages (ctx : ChatContext) : ChatContext := { ctx with messages := [] }

/-- The context of a new agent. -/
def agentInitContext : ChatContext :=
  chatContextAddMessage chatContextInit (ascii "system") systemPrompt

/-! ## The shape of a conversation -/

inductive Speaker
  | user
  | assistant
  | tool

def Speaker.role : Speaker → Bytes
  | .user => ascii "user"
  | .assistant => ascii "assistant"
  | .tool => ascii "tool"

inductive TurnOp
  | addMessage (speaker : Speaker) (content : Bytes)
  | trimHistory

def TurnOp.apply (ctx : ChatContext) : TurnOp → ChatContext
  | .addMessage speaker content => chatContextAddMessage ctx speaker.role content
  | .trimHistory => agentTrimHistory ctx

def conversation (ops : List TurnOp) : ChatContext := ops.foldl TurnOp.apply agentInitContext

/-- The system prompt in front, and no other system message. -/
def Prompted (ctx : ChatContext) : Prop :=
  ∃ rest, ctx.messages = ⟨ascii "system", systemPrompt⟩ :: rest ∧
    rest.all (fun m ↦ !m.isSystem) = true

theorem prompted_agentInitContext : Prompted agentInitContext := by
  refine ⟨[], ?_, rfl⟩
  decide

theorem Speaker.isSystem_message (speaker : Speaker) (content : Bytes) :
    Message.isSystem ⟨CString.cut 16 speaker.role, content⟩ = false := by
  cases speaker <;> rfl

theorem Prompted.addMessage {ctx : ChatContext} (h : Prompted ctx) (speaker : Speaker)
    (content : Bytes) : Prompted (chatContextAddMessage ctx speaker.role content) := by
  obtain ⟨rest, hmessages, hrest⟩ := h
  refine ⟨rest ++ [⟨CString.cut 16 speaker.role, CString.cut 8192 content⟩], ?_, ?_⟩
  · simp [chatContextAddMessage, hmessages]
  · rw [List.all_append, hrest]
    simp [speaker.isSystem_message]

/-- The two halves `agent_trim_history` sorts the messages of a conversation
into. -/
theorem Prompted.partition {ctx : ChatContext} {rest : List Message}
    (hmessages : ctx.messages = ⟨ascii "system", systemPrompt⟩ :: rest)
    (hrest : rest.all (fun m ↦ !m.isSystem) = true) :
    ctx.messages.filter Message.isSystem = [⟨ascii "system", systemPrompt⟩] ∧
      ctx.messages.filter (fun m ↦ !m.isSystem) = rest := by
  rw [List.all_eq_true] at hrest
  have hsystem : Message.isSystem ⟨ascii "system", systemPrompt⟩ = true := beq_self_eq_true _
  rw [hmessages, List.filter_cons_of_pos hsystem, List.filter_cons_of_neg (by simp [hsystem])]
  refine ⟨?_, List.filter_eq_self.mpr hrest⟩
  rw [List.filter_eq_nil_iff.mpr]
  intro m hm
  simpa using hrest m hm

theorem Prompted.trimHistory {ctx : ChatContext} (h : Prompted ctx) :
    Prompted (agentTrimHistory ctx) ∧ (agentTrimHistory ctx).messages.length ≤ 51 := by
  obtain ⟨rest, hmessages, hrest⟩ := h
  obtain ⟨hsystem, hothers⟩ := Prompted.partition hmessages hrest
  have hlength : ctx.messages.length = rest.length + 1 := by rw [hmessages, List.length_cons]
  simp only [agentTrimHistory, hsystem, hothers]
  split_ifs with hshort
  · refine ⟨⟨rest, hmessages, hrest⟩, ?_⟩
    rw [maxHistoryMessages] at hshort
    omega
  · refine ⟨⟨rest.reverse.take compactionKeepRecent, rfl, ?_⟩, ?_⟩
    · rw [List.all_eq_true] at hrest ⊢
      intro m hm
      exact hrest m (List.mem_reverse.mp (List.mem_of_mem_take hm))
    · simp only [List.cons_append, List.nil_append, List.length_cons, List.length_take,
        compactionKeepRecent]
      omega

theorem Prompted.apply {ctx : ChatContext} (h : Prompted ctx) (op : TurnOp) :
    Prompted (op.apply ctx) := by
  cases op with
  | addMessage speaker content => exact h.addMessage speaker content
  | trimHistory => exact h.trimHistory.1

theorem prompted_conversation (ops : List TurnOp) : Prompted (conversation ops) := by
  induction ops using List.reverseRecOn with
  | nil => exact prompted_agentInitContext
  | append_singleton ops op ih =>
      rw [conversation, List.foldl_append, List.foldl_cons, List.foldl_nil]
      exact ih.apply op

/-- Whatever is said and however often the history is trimmed, the system
prompt stays in front and alone, and each trimming leaves at most fifty-one
messages. -/
theorem conversation_shape (ops : List TurnOp) :
    (∃ rest, (conversation ops).messages = ⟨ascii "system", systemPrompt⟩ :: rest ∧
      rest.all (fun m ↦ !m.isSystem) = true) ∧
      (conversation (ops ++ [.trimHistory])).messages.length ≤ 51 := by
  refine ⟨prompted_conversation ops, ?_⟩
  rw [conversation, List.foldl_append, List.foldl_cons, List.foldl_nil]
  exact (prompted_conversation ops).trimHistory.2

/-! ## The allocation -/

inductive ContextOp
  | init
  | addMessage (role content : Bytes)
  | addSystemMessage (content : Bytes)
  | clearMessages
  | trimHistory

/-- A context with the number of messages its array has room for. -/
structure OwnedContext where
  ctx : ChatContext
  allocated : ℕ

def ContextOp.apply (s : OwnedContext) : ContextOp → OwnedContext
  | .init => ⟨chatContextInit, 32⟩
  | .addMessage role content =>
      { ctx := chatContextAddMessage s.ctx role content
        allocated := if s.ctx.messageCapacity ≤ s.ctx.messages.length then
          s.ctx.messageCapacity * 2 else s.allocated }
  | .addSystemMessage content => { s with ctx := chatContextAddSystemMessage s.ctx content }
  | .clearMessages => { s with ctx := chatContextClearMessages s.ctx }
  | .trimHistory =>
      { ctx := agentTrimHistory s.ctx
        allocated :=
          if s.ctx.messages.length ≤ maxHistoryMessages ∨
              (s.ctx.messages.filter fun m ↦ !m.isSystem).length ≤ maxHistoryMessages then
            s.allocated
          else (s.ctx.messages.filter Message.isSystem).length + compactionKeepRecent + 8 }

/-- The context after `chat_context_init` and the operations `ops`. -/
def contextAfter (ops : List ContextOp) : OwnedContext :=
  ops.foldl ContextOp.apply ⟨chatContextInit, 32⟩

def OwnedContext.InBounds (s : OwnedContext) : Prop :=
  s.ctx.messages.length ≤ s.ctx.messageCapacity ∧ s.ctx.messageCapacity = s.allocated

/-- A system message is put in front of other messages only while there is
room for one more. -/
def ContextOp.HasRoom (ctx : ChatContext) : ContextOp → Prop
  | .addSystemMessage _ =>
      ctx.messages.length < ctx.messageCapacity ∨ ctx.messages.head?.any Message.isSystem = true
  | _ => True

theorem contextAfter_append_singleton (ops : List ContextOp) (op : ContextOp) :
    contextAfter (ops ++ [op]) = op.apply (contextAfter ops) := by
  rw [contextAfter, List.foldl_append, List.foldl_cons, List.foldl_nil]
  rfl

theorem length_addSystemMessage (ctx : ChatContext) (content : Bytes) :
    (chatContextAddSystemMessage ctx content).messages.length =
      if ctx.messages.head?.any Message.isSystem = true then ctx.messages.length
      else ctx.messages.length + 1 := by
  unfold chatContextAddSystemMessage
  cases hmessages : ctx.messages with
  | nil => rfl
  | cons first rest => cases hfirst : first.isSystem <;> simp [hfirst]

theorem capacity_addSystemMessage (ctx : ChatContext) (content : Bytes) :
    (chatContextAddSystemMessage ctx content).messageCapacity = ctx.messageCapacity := by
  unfold chatContextAddSystemMessage
  split
  · rfl
  · split_ifs <;> rfl

theorem OwnedContext.InBounds.trimHistory {s : OwnedContext} (h : s.InBounds) :
    (ContextOp.trimHistory.apply s).InBounds := by
  simp only [OwnedContext.InBounds, ContextOp.apply, agentTrimHistory]
  split_ifs with hshort
  · exact h
  · have htwenty : ((s.ctx.messages.filter fun m ↦ !m.isSystem).reverse.take
        compactionKeepRecent).length = compactionKeepRecent := by
      rw [List.length_take, List.length_reverse]
      simp only [maxHistoryMessages, compactionKeepRecent] at hshort ⊢
      omega
    rw [List.length_append, htwenty]
    exact ⟨Nat.le_add_right _ _, rfl⟩

/-- One operation: a context in bounds with a positive capacity stays so, and
leaves its bounds exactly where a system message finds no room. -/
theorem OwnedContext.InBounds.apply {s : OwnedContext} (h : s.InBounds)
    (hpos : 0 < s.ctx.messageCapacity) (op : ContextOp) :
    0 < (op.apply s).ctx.messageCapacity ∧ ((op.apply s).InBounds ↔ op.HasRoom s.ctx) := by
  obtain ⟨hle, hallocated⟩ := id h
  cases op with
  | init => exact ⟨Nat.zero_lt_succ 31, iff_of_true ⟨Nat.zero_le 32, rfl⟩ trivial⟩
  | addMessage role content =>
      simp only [ContextOp.apply, chatContextAddMessage, OwnedContext.InBounds,
        ContextOp.HasRoom, List.length_append, List.length_singleton, iff_true]
      split_ifs <;> omega
  | addSystemMessage content =>
      simp only [ContextOp.apply, OwnedContext.InBounds, ContextOp.HasRoom,
        capacity_addSystemMessage, length_addSystemMessage]
      split_ifs with hsystem
      · exact ⟨hpos, iff_of_true ⟨hle, hallocated⟩ (.inr hsystem)⟩
      · refine ⟨hpos, fun hbounds ↦ .inl hbounds.1, ?_⟩
        rintro (hroom | hfirst)
        · exact ⟨hroom, hallocated⟩
        · exact absurd hfirst hsystem
  | clearMessages =>
      exact ⟨hpos, iff_of_true ⟨Nat.zero_le _, hallocated⟩ trivial⟩
  | trimHistory =>
      refine ⟨?_, iff_of_true h.trimHistory trivial⟩
      simp only [ContextOp.apply, agentTrimHistory]
      split_ifs
      · exact hpos
      · exact Nat.zero_lt_succ _

theorem inBounds_of_hasRoom {ops : List ContextOp}
    (h : ∀ pre op, pre ++ [op] <+: ops → op.HasRoom (contextAfter pre).ctx) :
    0 < (contextAfter ops).ctx.messageCapacity ∧ (contextAfter ops).InBounds := by
  induction ops using List.reverseRecOn with
  | nil => exact ⟨Nat.zero_lt_succ 31, Nat.zero_le 32, rfl⟩
  | append_singleton ops op ih =>
      obtain ⟨hpos, hbounds⟩ := ih fun pre op hpre ↦ h pre op (hpre.trans (List.prefix_append _ _))
      obtain ⟨hpos', hiff⟩ := hbounds.apply hpos op
      rw [contextAfter_append_singleton]
      exact ⟨hpos', hiff.mpr (h ops op List.prefix_rfl)⟩

/-- A context stays within its allocation exactly as long as every system
message put in front of others finds room. -/
theorem context_in_bounds_iff (ops : List ContextOp) :
    (∀ pre, pre <+: ops →
      (contextAfter pre).ctx.messages.length ≤ (contextAfter pre).ctx.messageCapacity ∧
        (contextAfter pre).ctx.messageCapacity = (contextAfter pre).allocated) ↔
      ∀ pre op, pre ++ [op] <+: ops → op.HasRoom (contextAfter pre).ctx := by
  constructor
  · intro h
    induction ops using List.reverseRecOn with
    | nil =>
        intro pre op hpre
        simp at hpre
    | append_singleton ops op ih =>
        have hroom := ih fun pre hpre ↦ h pre (hpre.trans (List.prefix_append _ _))
        obtain ⟨hpos, hbounds⟩ := inBounds_of_hasRoom hroom
        intro pre op' hpre
        rcases List.prefix_concat_iff.mp hpre with heq | hpre
        · obtain ⟨rfl, hop⟩ := List.append_inj' heq rfl
          obtain rfl : op' = op := by simpa using hop
          have hlast := h _ List.prefix_rfl
          rw [contextAfter_append_singleton] at hlast
          exact (hbounds.apply hpos op').2.mp hlast
        · exact hroom pre op' hpre
  · intro h pre hpre
    exact (inBounds_of_hasRoom fun pre' op hop ↦ h pre' op (hop.trans hpre)).2

/-- Thirty-two messages of the user fill the first allocation; a system message
put in front of them is the thirty-third. -/
theorem context_leaves_bounds :
    ¬ ∀ ops : List ContextOp,
      (contextAfter ops).ctx.messages.length ≤ (contextAfter ops).ctx.messageCapacity := by
  intro h
  have hfull := h (List.replicate 32 (.addMessage (ascii "user") (ascii "hi")) ++
    [.addSystemMessage (ascii "Be brief.")])
  revert hfull
  decide

end DoctorClaw
