import DoctorClaw.Telegram
import DoctorClaw.Lib.Interaction
import DoctorClaw.Lib.Json

/-!
# Sending to channels

The senders of Telegram, Discord and Slack cut a text into chunks and print
each of them into the body of a request, between two quotes and as it is.
Every chunk behind the first is preceded by `[cont.]` and a newline.

The terminator of a chunk that fills its buffer is written behind the buffer.
What the chunk reads as is then left to the environment.
-/

namespace DoctorClaw

open Interaction

/-! ## Requests -/

/-- A request with a message, together with the number and the text of the
chunk it was made for. -/
structure Post where
  num : ℕ
  chunk : Bytes
  url : Bytes
  headers : List Bytes
  body : Bytes

inductive SendCall
  | typing (url : Bytes) (headers : List Bytes) (body : Bytes)
  | message (post : Post)
  | overrun

/-- What `http_post` returns and leaves in the response. -/
structure PostResult where
  result : ℤ
  data : Option Bytes

@[reducible] def SendCall.Reply : SendCall → Type
  | .typing _ _ _ => PostResult
  | .message _ => PostResult
  | .overrun => Bytes

abbrev SendProg (α : Type) := Prog SendCall SendCall.Reply α

/-! ## Targets -/

/-- A chat or channel as the parsers of webhooks and updates cut it out of a
text, which is the only way in which one gets to a sender. -/
structure ChatTarget where
  id : Bytes
  no_quote : (34 : UInt8) ∉ id
  length_le : id.length ≤ 127

structure ChannelConfig where
  botToken : Bytes
  webhookUrl : Bytes
  allowedUser : Option ChatTarget

/-- The id that is used: the override unless it is missing or empty. -/
def ChannelConfig.target (config : ChannelConfig) (override : Option ChatTarget) : Bytes :=
  match override with
  | some target =>
      if target.id = [] then (config.allowedUser.map ChatTarget.id).getD [] else target.id
  | none => (config.allowedUser.map ChatTarget.id).getD []

theorem parseTelegramChatId_spec (body : Bytes) :
    (34 : UInt8) ∉ parseTelegramChatId body ∧ (parseTelegramChatId body).length ≤ 127 := by
  unfold parseTelegramChatId
  dsimp only
  split
  · simp
  · split
    · refine ⟨fun h ↦ ?_, CString.length_cut_le telegramChatIdSize _⟩
      simpa using List.mem_takeWhile_imp (List.mem_of_mem_take h)
    · refine ⟨fun h ↦ ?_, CString.length_cut_le telegramChatIdSize _⟩
      exact absurd (List.mem_takeWhile_imp (List.mem_of_mem_take h)) (by decide)

def telegramTarget (body : Bytes) : ChatTarget where
  id := parseTelegramChatId body
  no_quote := (parseTelegramChatId_spec body).1
  length_le := (parseTelegramChatId_spec body).2

def parseSlackChannel (body : Bytes) : Option ChatTarget :=
  (CString.strstr (ascii "\"channel\":\"") body).map fun p ↦
    { id := CString.cut 64 ((p.drop 11).takeWhile (· != 34))
      no_quote := fun h ↦ by simpa using List.mem_takeWhile_imp (List.mem_of_mem_take h)
      length_le := (CString.length_cut_le 64 _).trans (by decide) }

/-! ## Chunks -/

/-- The loop that goes back from `n` to behind the last blank. -/
def lastBlank (s : Bytes) : ℕ → ℕ
  | 0 => 0
  | n + 1 => if s[n]? = some 32 ∨ s[n]? = some 10 then n + 1 else lastBlank s n

/-- The length of the next chunk for Discord and Slack, which go back to a
blank whether or not the text is too long. -/
def splitLen (limit : ℕ) (content : Bytes) : ℕ :=
  let whole := if limit < content.length then limit else content.length
  if lastBlank content whole = 0 then whole else lastBlank content whole

def maxMessageLength : ℕ := 4096

def telegramSplitLen (remaining : Bytes) : ℕ :=
  if maxMessageLength < remaining.length then
    if lastBlank remaining maxMessageLength = 0 then maxMessageLength
    else lastBlank remaining maxMessageLength
  else remaining.length

/-- The chunk as it is read back from its buffer. -/
def readChunk (size : ℕ) (chunk : Bytes) : SendProg Bytes :=
  if chunk.length < size then pure chunk
  else do
    let behind ← Prog.perform SendCall.overrun
    pure (chunk ++ behind)

/-- The loop over the chunks.  It ends when nothing is left or a request
fails. -/
def sendChunks (splitLen : Bytes → ℕ) (size : ℕ) (post : ℕ → Bytes → Bytes → Post) :
    ℕ → ℕ → Bytes → SendProg ℤ
  | 0, _, _ => pure 0
  | fuel + 1, num, content =>
      if content = [] then pure 0
      else do
        let chunk := content.take (splitLen content)
        let text ← readChunk size chunk
        let resp ← Prog.perform (SendCall.message (post num chunk text))
        if resp.result = 0 then
          sendChunks splitLen size post fuel (num + 1) (content.drop (splitLen content))
        else pure resp.result

def contMark : Bytes := ascii "[cont.]\n"

def jsonHeader : Bytes := ascii "Content-Type: application/json"

/-! ## Telegram -/

def isToolTag (s : Bytes) : Bool :=
  (ascii "<tool_call").isPrefixOf s || (ascii "</tool_call").isPrefixOf s ||
    (ascii "<tool_code").isPrefixOf s

/-- The loop of `strip_tool_calls` over the memory from the text on.  A tag
that is not closed makes it step over the end of the text. -/
def stripToolCallsFrom : ℕ → Bytes → ℕ → Bytes
  | 0, _, _ => []
  | _, [], _ => []
  | fuel + 1, c :: mem, j =>
      if c = 0 ∨ 8191 ≤ j then []
      else if isToolTag (c :: mem) then
        stripToolCallsFrom fuel
          (((c :: mem).dropWhile fun c ↦ c != 0 && c != 62).drop 1) j
      else c :: stripToolCallsFrom fuel mem (j + 1)

/-- The text without tags; `behind` are the bytes behind its terminator. -/
def stripToolCalls (content behind : Bytes) : Bytes :=
  stripToolCallsFrom (content.length + behind.length + 2) (content ++ 0 :: behind) 0

def telegramUrl (config : ChannelConfig) (method : String) : Bytes :=
  CString.cut 512 (ascii "https://api.telegram.org/bot" ++ config.botToken ++ ascii method)

def telegramSendTyping (config : ChannelConfig) (typing : Bool) : SendProg PostResult :=
  Prog.perform (SendCall.typing (telegramUrl config "/sendChatAction") [jsonHeader]
    (CString.cut 512 (ascii "\x7b\"chat_id\":\"" ++
      (config.allowedUser.map ChatTarget.id).getD [] ++ ascii "\",\"action\":\"" ++
      (if typing then ascii "typing" else ascii "cancel") ++ ascii "\"\x7d")))

def telegramBody (chatId text tail : Bytes) : Bytes :=
  CString.cut 8192 (ascii "\x7b\"chat_id\":\"" ++ chatId ++ ascii "\",\"text\":\"" ++ text ++ tail)

def telegramPost (config : ChannelConfig) (chatId : Bytes) (tail : Bytes) (num : ℕ)
    (chunk text : Bytes) : Post where
  num := num
  chunk := chunk
  url := telegramUrl config "/sendMessage"
  headers := [jsonHeader]
  body := telegramBody chatId (if 0 < num then contMark ++ text else text) tail

def saysOk (data : Bytes) : Bool :=
  (CString.strstr (ascii "\"ok\":true") data).isSome ||
    (CString.strstr (ascii "\"ok\": true") data).isSome

/-- A text that is not too long is sent at once, and once more without the
parse mode when the answer is not `ok`. -/
def telegramSendWhole (config : ChannelConfig) (chatId cleaned : Bytes) : SendProg ℤ := do
  let resp ← Prog.perform (SendCall.message
    (telegramPost config chatId (ascii "\",\"parse_mode\":\"Markdown\"\x7d") 0 cleaned cleaned))
  if resp.result = 0 ∧ resp.data.any (fun data ↦ !saysOk data) then do
    let retry ← Prog.perform (SendCall.message
      (telegramPost config chatId (ascii "\"\x7d") 0 cleaned cleaned))
    pure retry.result
  else pure resp.result

def telegramSendText (config : ChannelConfig) (chatId cleaned : Bytes) : SendProg ℤ :=
  if cleaned.length ≤ maxMessageLength then telegramSendWhole config chatId cleaned
  else
    sendChunks telegramSplitLen maxMessageLength (telegramPost config chatId (ascii "\"\x7d"))
      cleaned.length 0 cleaned

def telegramSendMessageTo (config : ChannelConfig) (override : Option ChatTarget)
    (content behind : Bytes) : SendProg ℤ :=
  let chatId := config.target override
  if config.botToken = [] ∨ chatId = [] then pure (-1)
  else do
    let _ ← telegramSendTyping config true
    let result ← telegramSendText config chatId (CString.cut 8192 (stripToolCalls content behind))
    let _ ← telegramSendTyping config false
    pure result

/-! ## Discord -/

def discordPost (config : ChannelConfig) (num : ℕ) (chunk text : Bytes) : Post where
  num := num
  chunk := chunk
  url := CString.cut 512 config.webhookUrl
  headers := [jsonHeader]
  body := CString.cut 4096 (ascii "\x7b\"content\":\"" ++
    (if 0 < num then contMark ++ text else text) ++ ascii "\"\x7d")

def discordSendMessage (config : ChannelConfig) (content : Bytes) : SendProg ℤ :=
  if config.webhookUrl = [] then pure (-1)
  else sendChunks (splitLen 2000) 2000 (discordPost config) content.length 0 content

/-! ## Slack -/

def slackAuth (config : ChannelConfig) : Bytes :=
  CString.cut 512 (ascii "Authorization: Bearer " ++ config.botToken)

def slackSendTyping (config : ChannelConfig) : SendProg PostResult :=
  Prog.perform (SendCall.typing (ascii "https://slack.com/api/users.setPresence")
    [slackAuth config, jsonHeader] (ascii "\x7b\"presence\":\"auto\"\x7d"))

def slackPost (config : ChannelConfig) (channel : Bytes) (num : ℕ) (chunk text : Bytes) : Post where
  num := num
  chunk := chunk
  url := ascii "https://slack.com/api/chat.postMessage"
  headers := [slackAuth config, jsonHeader]
  body := CString.cut 4096 (ascii "\x7b\"channel\":\"" ++ channel ++ ascii "\",\"text\":\"" ++
    (if 0 < num then contMark ++ text else text) ++ ascii "\",\"unfurl_links\":false\x7d")

def slackSendMessageTo (config : ChannelConfig) (override : Option ChatTarget) (content : Bytes) :
    SendProg ℤ :=
  let channel := config.target override
  if config.botToken = [] ∨ channel = [] then pure (-1)
  else do
    let _ ← slackSendTyping config
    sendChunks (splitLen 3000) 3000 (slackPost config channel) content.length 0 content

/-! ## What a request carries -/

/-- A JSON object with exactly one member of the given name, whose value is the
string `w`. -/
def ObjectWith (key w body : Bytes) : Prop :=
  ∃ members, Json.parse body = some (.object members) ∧
    members.filter (fun m ↦ m.1 = key) = [(key, .string w)]

/-- The body says what the chunk is, behind its mark. -/
def Post.Carries (key : Bytes) (post : Post) : Prop :=
  ObjectWith key (if 0 < post.num then contMark ++ post.chunk else post.chunk) post.body

/-- Whatever the environment replies, every message sent carries its chunk. -/
def SendsJson (key : Bytes) (p : SendProg ℤ) : Prop :=
  ∀ (env : Env SendCall SendCall.Reply) (post : Post),
    .message post ∈ (p.run env []).1 → post.Carries key

def SendCall.Carries (key : Bytes) : SendCall → Prop
  | .message post => post.Carries key
  | _ => True

instance SendCall.nonempty_reply (c : SendCall) : Nonempty c.Reply :=
  match c with
  | .typing _ _ _ => ⟨⟨0, none⟩⟩
  | .message _ => ⟨⟨0, none⟩⟩
  | .overrun => ⟨([] : Bytes)⟩

theorem sendsJson_iff {key : Bytes} {p : SendProg ℤ} :
    SendsJson key p ↔ p.Follows (fun _ ↦ SendCall.Carries key) [] := by
  rw [follows_iff_run]
  constructor
  · intro h env pre c post hrun
    cases c with
    | message post => exact h env post (by simp [hrun])
    | typing url headers body => trivial
    | overrun => trivial
  · intro h env post hmem
    obtain ⟨pre, rest, hrun⟩ := List.append_of_mem hmem
    exact h env pre _ rest hrun

end DoctorClaw
