import DoctorClaw.Channels.Registry
import DoctorClaw.Channels.Splitting

/-!
# Replies to webhooks

`channels_reply_to_webhook` sends an answer through the first enabled channel
that belongs to the path.  For Telegram the chat is read from the body of the
request: behind the key of the chat the parser goes on to the next colon, which
is the one in front of the object that the id is a member of.
-/

namespace DoctorClaw

open Interaction

/-- What a reply looks at in a registered channel. -/
structure ReplyChannel where
  type : ChannelType
  enabled : Bool
  config : ChannelConfig

def chatIdKey : Bytes := ascii "\"chat\":\x7b\"id\":"

/-- Whether `parse_telegram_chat_id` returns 0. -/
def telegramChatIdFound (body : Bytes) : Bool :=
  (CString.strstr chatIdKey body).isSome || (CString.strstr (ascii "\"id\":") body).isSome

/-- The path belongs to the type of the channel, and the channel has what it needs
to send. -/
def ReplyChannel.serves (ch : ReplyChannel) (path : Bytes) (route : String) (type : ChannelType)
    (secret : Bytes) : Bool :=
  (ascii route).isPrefixOf path && ch.type == type && secret != []

/-- The loop over the registry.  The body is `none` for a null pointer, and
`behind` are the bytes behind the terminator of the answer. -/
def channelsReplyToWebhook (path : Bytes) (body : Option Bytes) (responseText behind : Bytes) :
    List ReplyChannel → SendProg ℤ
  | [] => pure (-1)
  | ch :: channels =>
      if !ch.enabled then channelsReplyToWebhook path body responseText behind channels
      else if ch.serves path "/telegram" .telegram ch.config.botToken then
        match body.filter telegramChatIdFound with
        | none => pure (-1)
        | some body =>
            telegramSendMessageTo ch.config (some (telegramTarget body)) responseText behind
      else if ch.serves path "/discord" .discord ch.config.webhookUrl then
        discordSendMessage ch.config responseText
      else if ch.serves path "/slack" .slack ch.config.botToken then
        match (body.bind parseSlackChannel).filter fun channel ↦ channel.id ≠ [] with
        | some channel => slackSendMessageTo ch.config (some channel) responseText
        | none => slackSendMessageTo ch.config none responseText
      else channelsReplyToWebhook path body responseText behind channels

/-! ## The sender of a message -/

/-- A body with the id `n` of a chat behind its key. -/
def chatBody (front : Bytes) (n : ℤ) (rest : Bytes) : Bytes :=
  front ++ chatIdKey ++ Decimal.printInt n ++ rest

/-- The channel is the first one that answers requests to this Telegram path. -/
inductive AnswersFirst (path : Bytes) (ch : ReplyChannel) : List ReplyChannel → Prop
  | here (channels) : ch.enabled = true →
      ch.serves path "/telegram" .telegram ch.config.botToken = true →
      AnswersFirst path ch (ch :: channels)
  | later (other channels) :
      other.enabled = false ∨ other.type ≠ .telegram ∨ other.config.botToken = [] →
      AnswersFirst path ch channels → AnswersFirst path ch (other :: channels)

/-- The id of the chat is stored, and the answer is posted to this chat. -/
structure RepliesToSender (body : Bytes) (n : ℤ) : Prop where
  stored : parseTelegramChatId body = Decimal.printInt n
  sent : ∀ (path : Bytes) (ch : ReplyChannel) (channels : List ReplyChannel)
    (responseText behind : Bytes) (env : Env SendCall SendCall.Reply) (post : Post),
    AnswersFirst path ch channels →
    post ∈ messages ((channelsReplyToWebhook path (some body) responseText behind channels).run
      env []).1 →
    ∃ tail chunk text, post = telegramPost ch.config (Decimal.printInt n) tail post.num chunk text

/-! ## What the parser finds -/

/-- Behind the colon that the parser finds stands the bracket of the chat. -/
theorem parseTelegramChatId_key {body : Bytes} (h : chatIdKey <:+: body) :
    parseTelegramChatId body = [] := by
  obtain ⟨found, hfound⟩ := Option.isSome_iff_exists.mp (CString.strstr_isSome_iff.mpr h)
  obtain ⟨⟨rest, rfl⟩, -⟩ := CString.strstr_eq_some hfound
  unfold parseTelegramChatId
  rw [← chatIdKey, hfound]
  rfl

theorem chatIdKey_infix_chatBody (front : Bytes) (n : ℤ) (rest : Bytes) :
    chatIdKey <:+: chatBody front n rest := by
  refine ⟨front, Decimal.printInt n ++ rest, ?_⟩
  rw [chatBody, List.append_assoc (front ++ chatIdKey)]

theorem telegramChatIdFound_key {body : Bytes} (h : chatIdKey <:+: body) :
    telegramChatIdFound body = true := by
  unfold telegramChatIdFound
  rw [CString.strstr_isSome_iff.mpr h, Bool.true_or]

/-- An empty id is replaced by the default. -/
theorem telegramSendMessageTo_empty (config : ChannelConfig) {target : ChatTarget}
    (h : target.id = []) (content behind : Bytes) :
    telegramSendMessageTo config (some target) content behind =
      telegramSendMessageTo config none content behind := by
  have htarget : config.target (some target) = config.target none := by
    rw [ChannelConfig.target]
    exact if_pos h
  unfold telegramSendMessageTo
  rw [htarget]

theorem serves_eq_false {ch : ReplyChannel} {path secret : Bytes} {route : String}
    {type : ChannelType} (h : (ascii route).isPrefixOf path = false) :
    ch.serves path route type secret = false := by
  unfold ReplyChannel.serves
  rw [h, Bool.false_and, Bool.false_and]

/-- A path of Telegram is none of the others. -/
theorem isPrefixOf_eq_false {path route : Bytes}
    (h : (ascii "/telegram").isPrefixOf path = true)
    (hroute : ¬ route <+: ascii "/telegram" ∧ ¬ ascii "/telegram" <+: route) :
    route.isPrefixOf path = false := by
  rw [Bool.eq_false_iff, ne_eq, List.isPrefixOf_iff_prefix]
  rw [List.isPrefixOf_iff_prefix] at h
  intro hpre
  exact (List.prefix_or_prefix_of_prefix hpre h).elim hroute.1 hroute.2

theorem AnswersFirst.path {path : Bytes} {ch : ReplyChannel} {channels : List ReplyChannel}
    (h : AnswersFirst path ch channels) : (ascii "/telegram").isPrefixOf path = true := by
  induction h with
  | here channels _ hserves =>
      unfold ReplyChannel.serves at hserves
      rw [Bool.and_eq_true, Bool.and_eq_true] at hserves
      exact hserves.1.1
  | later other channels _ _ ih => exact ih

/-- The reply is sent through the first channel that answers. -/
theorem channelsReplyToWebhook_eq {path body : Bytes} {ch : ReplyChannel}
    {channels : List ReplyChannel} (h : AnswersFirst path ch channels)
    (hfound : telegramChatIdFound body = true) (responseText behind : Bytes) :
    channelsReplyToWebhook path (some body) responseText behind channels =
      telegramSendMessageTo ch.config (some (telegramTarget body)) responseText behind := by
  have hpath := h.path
  have hdiscord : (ascii "/discord").isPrefixOf path = false :=
    isPrefixOf_eq_false hpath (by decide)
  have hslack : (ascii "/slack").isPrefixOf path = false := isPrefixOf_eq_false hpath (by decide)
  induction h with
  | here channels henabled hserves =>
      rw [channelsReplyToWebhook, henabled, if_neg (by decide), if_pos hserves,
        Option.filter_some, if_pos hfound]
  | later other channels hother _ ih =>
      have hnot : other.enabled = false ∨
          other.serves path "/telegram" .telegram other.config.botToken = false := by
        refine hother.imp_right fun hother ↦ ?_
        unfold ReplyChannel.serves
        rcases hother with htype | htoken
        · simp [htype]
        · simp [htoken]
      rw [channelsReplyToWebhook]
      rcases hnot with hdisabled | hserves
      · rw [hdisabled, if_pos (by decide), ih]
      · cases henabled : other.enabled with
        | false => rw [if_pos (by decide), ih]
        | true =>
            rw [if_neg (by decide), hserves, serves_eq_false hdiscord, serves_eq_false hslack,
              if_neg Bool.false_ne_true, if_neg Bool.false_ne_true, if_neg Bool.false_ne_true, ih]

/-- Whatever the body and the id are, the id is not stored, and the answer is sent
as if there were none. -/
theorem webhook_reply_goes_to_default (front : Bytes) (n : ℤ) (rest : Bytes) :
    ¬ RepliesToSender (chatBody front n rest) n ∧
      parseTelegramChatId (chatBody front n rest) = [] ∧
      ∀ (path : Bytes) (ch : ReplyChannel) (channels : List ReplyChannel)
        (responseText behind : Bytes), AnswersFirst path ch channels →
        channelsReplyToWebhook path (some (chatBody front n rest)) responseText behind channels =
          telegramSendMessageTo ch.config none responseText behind := by
  have hkey := chatIdKey_infix_chatBody front n rest
  have hempty := parseTelegramChatId_key hkey
  refine ⟨fun h ↦ ?_, hempty, fun path ch channels responseText behind hfirst ↦ ?_⟩
  · have hstored := h.stored
    rw [hempty] at hstored
    exact Decimal.printInt_ne_nil n hstored.symm
  · rw [channelsReplyToWebhook_eq hfirst (telegramChatIdFound_key hkey)]
    exact telegramSendMessageTo_empty ch.config hempty responseText behind

/-- The body of a message from chat 42. -/
def messageFrom42 : Bytes := chatBody (ascii "\x7b\"message\":\x7b") 42 (ascii "\x7d\x7d\x7d")

theorem webhook_reply_goes_to_default_42 :
    AnswersFirst (ascii "/telegram") ⟨.telegram, true, exampleChannel⟩
        [⟨.telegram, true, exampleChannel⟩] ∧
      channelsReplyToWebhook (ascii "/telegram") (some messageFrom42) (ascii "hi") []
          [⟨.telegram, true, exampleChannel⟩] =
        telegramSendMessageTo exampleChannel none (ascii "hi") [] :=
  ⟨.here [] rfl (by decide),
    (webhook_reply_goes_to_default (ascii "\x7b\"message\":\x7b") 42
      (ascii "\x7d\x7d\x7d")).2.2 (ascii "/telegram") ⟨.telegram, true, exampleChannel⟩ _
      (ascii "hi") [] (.here [] rfl (by decide))⟩

/-- The parser stores nothing for chat 42. -/
theorem chat_42_gets_no_reply : ¬ RepliesToSender messageFrom42 42 := by
  intro h
  have hstored := h.stored
  revert hstored
  decide

end DoctorClaw
