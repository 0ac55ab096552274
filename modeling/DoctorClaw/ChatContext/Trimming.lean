import DoctorClaw.ChatContext

/-!
# The order of a trimmed history

The loops of `agent_trim_history` and what they leave.  The newest messages are
copied from the end, so that a trimmed history has them the wrong way round
unless they read the same from both ends.
-/

namespace DoctorClaw

def ChatContext.systemMessages (ctx : ChatContext) : List Message :=
  ctx.messages.filter Message.isSystem

def ChatContext.otherMessages (ctx : ChatContext) : List Message :=
  ctx.messages.filter fun m ↦ !m.isSystem

/-! ## The loops -/

/-- The first pass, over the messages from the first one on. -/
def copySystem (systemCount : ℕ) (newMessages : List Message) : List Message → List Message
  | [] => newMessages
  | m :: messages =>
      if newMessages.length < systemCount then
        copySystem systemCount (if m.isSystem then newMessages ++ [m] else newMessages) messages
      else newMessages

/-- The second pass, over the messages from the last one on. -/
def copyRecent (copied : ℕ) (newMessages : List Message) : List Message → List Message
  | [] => newMessages
  | m :: messages =>
      if copied < compactionKeepRecent then
        if m.isSystem then copyRecent copied newMessages messages
        else copyRecent (copied + 1) (newMessages ++ [m]) messages
      else newMessages

theorem copySystem_eq (systemCount : ℕ) (newMessages messages : List Message) :
    copySystem systemCount newMessages messages =
      newMessages ++ (messages.filter Message.isSystem).take (systemCount - newMessages.length) := by
  induction messages generalizing newMessages with
  | nil => rw [copySystem, List.filter_nil, List.take_nil, List.append_nil]
  | cons m messages ih =>
      rw [copySystem]
      by_cases hroom : newMessages.length < systemCount
      · rw [if_pos hroom, ih]
        by_cases hm : m.isSystem = true
        · have hcount : systemCount - newMessages.length =
              systemCount - (newMessages ++ [m]).length + 1 := by
            rw [List.length_append, List.length_singleton]
            omega
          rw [if_pos hm, List.filter_cons_of_pos hm, hcount, List.take_succ_cons,
            List.append_assoc, List.singleton_append]
        · rw [if_neg hm, List.filter_cons_of_neg hm]
      · rw [if_neg hroom, Nat.sub_eq_zero_of_le (Nat.not_lt.mp hroom), List.take_zero,
          List.append_nil]

theorem copyRecent_eq (copied : ℕ) (newMessages messages : List Message) :
    copyRecent copied newMessages messages =
      newMessages ++
        (messages.filter fun m ↦ !m.isSystem).take (compactionKeepRecent - copied) := by
  induction messages generalizing copied newMessages with
  | nil => rw [copyRecent, List.filter_nil, List.take_nil, List.append_nil]
  | cons m messages ih =>
      rw [copyRecent]
      by_cases hroom : copied < compactionKeepRecent
      · rw [if_pos hroom]
        by_cases hm : m.isSystem = true
        · rw [if_pos hm, ih, List.filter_cons_of_neg (by simp [hm])]
        · have hcount : compactionKeepRecent - copied =
              compactionKeepRecent - (copied + 1) + 1 := by omega
          rw [if_neg hm, ih, List.filter_cons_of_pos (by simp [hm]), hcount, List.take_succ_cons,
            List.append_assoc, List.singleton_append]
      · rw [if_neg hroom, Nat.sub_eq_zero_of_le (Nat.not_lt.mp hroom), List.take_zero,
          List.append_nil]

/-- A trimmed history is what the two passes leave. -/
theorem agentTrimHistory_loops {ctx : ChatContext}
    (h : maxHistoryMessages < ctx.otherMessages.length) :
    (agentTrimHistory ctx).messages =
      copyRecent 0 (copySystem ctx.systemMessages.length [] ctx.messages)
        ctx.messages.reverse := by
  have hlen : ctx.otherMessages.length ≤ ctx.messages.length := List.length_filter_le _ _
  have hnot : ¬ (ctx.messages.length ≤ maxHistoryMessages ∨
      ctx.otherMessages.length ≤ maxHistoryMessages) := by omega
  rw [copyRecent_eq, copySystem_eq, List.filter_reverse, List.nil_append, List.length_nil,
    Nat.sub_zero, Nat.sub_zero]
  refine (congrArg ChatContext.messages (if_neg hnot)).trans ?_
  rw [← ChatContext.systemMessages, List.take_length]

/-! ## The order -/

/-- The system messages, then the last twenty others, each in the order in
which they were added. -/
def TrimKeepsOrder (ctx : ChatContext) : Prop :=
  (agentTrimHistory ctx).messages =
    ctx.systemMessages ++ ctx.otherMessages.rtake compactionKeepRecent

theorem agentTrimHistory_messages {ctx : ChatContext}
    (h : maxHistoryMessages < ctx.otherMessages.length) :
    (agentTrimHistory ctx).messages =
      ctx.systemMessages ++ (ctx.otherMessages.rtake compactionKeepRecent).reverse := by
  rw [agentTrimHistory_loops h, copyRecent_eq, copySystem_eq, List.filter_reverse,
    ← ChatContext.systemMessages, ← ChatContext.otherMessages, List.nil_append, List.length_nil,
    Nat.sub_zero, Nat.sub_zero, List.take_length, List.rtake_eq_reverse_take_reverse,
    List.reverse_reverse]

/-- The order is kept exactly when the last twenty others read the same from
both ends. -/
theorem trimKeepsOrder_iff {ctx : ChatContext} (h : maxHistoryMessages < ctx.otherMessages.length) :
    TrimKeepsOrder ctx ↔
      (ctx.otherMessages.rtake compactionKeepRecent).reverse =
        ctx.otherMessages.rtake compactionKeepRecent := by
  rw [TrimKeepsOrder, agentTrimHistory_messages h, List.append_cancel_left_eq]

/-- Fifty-one equal questions. -/
theorem trimKeepsOrder_repeated :
    TrimKeepsOrder ⟨List.replicate 51 ⟨ascii "user", ascii "hi"⟩, 64⟩ := by
  refine (trimKeepsOrder_iff ?_).mpr ?_
  · decide
  · decide

/-- Fifty equal questions and another one, which comes first then. -/
theorem trim_reverses_last_question :
    ¬ TrimKeepsOrder
      ⟨List.replicate 50 ⟨ascii "user", ascii "hi"⟩ ++ [⟨ascii "user", ascii "bye"⟩], 64⟩ := by
  unfold TrimKeepsOrder
  decide

end DoctorClaw
