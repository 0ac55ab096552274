import DoctorClaw.Lib.Json.Shortest
import DoctorClaw.Providers.Messages

/-!
# Requests to the providers

What `provider_chat_completion` sends.  A body is printed from the model, the
encoded messages and the limits of the context; only the contents of the
messages are escaped, and for Gemini not even these.

A body says what the conversation says exactly if nothing in it had to be
escaped and was not.
-/

namespace DoctorClaw

open BufferWriter Json

/-! ## Bodies -/

structure HttpPost where
  url : Bytes
  headers : List Bytes
  body : Bytes

/-- The temperature is given as `%f` prints it, which is a number unless it is
infinite or none. -/
structure RequestContext extends ChatContext where
  temperature : Bytes
  isNumber : IsNumber temperature
  length_le : temperature.length ≤ 320
  maxTokens : UInt64

def RequestContext.tokens (ctx : RequestContext) : Bytes := Decimal.printNat ctx.maxTokens.toNat

/-- The string in `messages_json`, of which `buffer` are the bytes before. -/
def RequestContext.messagesJson (ctx : RequestContext) (buffer : Bytes) : Bytes :=
  CString.ofBuffer (buildMessagesJson ctx.toChatContext buffer).buffer

/-- What the bodies but that for Gemini begin with. -/
def chatFront (model messages : Bytes) : Bytes :=
  ascii "\x7b\"model\":\"" ++ model ++ ascii "\",\"messages\":[" ++ messages ++ ascii "]"

def chatLimits (ctx : RequestContext) : Bytes :=
  ascii ",\"temperature\":" ++ ctx.temperature ++ ascii ",\"max_tokens\":" ++ ctx.tokens

def bearer (apiKey : Bytes) : Bytes :=
  CString.cut 512 (ascii "Authorization: Bearer " ++ apiKey)

def contentTypeJson : Bytes := ascii "Content-Type: application/json"

def providerOpenaiCompletionRequest (apiKey model : Bytes) (ctx : RequestContext) (apiUrl : Bytes)
    (buffer : Bytes) : HttpPost where
  url := CString.cut 512 (apiUrl ++ ascii "/chat/completions")
  headers := [bearer apiKey, contentTypeJson, ascii "Accept: application/json"]
  body := CString.cut 16384 (chatFront model (ctx.messagesJson buffer) ++ chatLimits ctx ++
    ascii ",\"stream\":false\x7d")

def providerAnthropicCompletionRequest (apiKey model : Bytes) (ctx : RequestContext)
    (buffer : Bytes) : HttpPost where
  url := ascii "https://api.anthropic.com/v1/messages"
  headers := [CString.cut 512 (ascii "x-api-key: " ++ apiKey),
    ascii "anthropic-version: 2023-06-01", contentTypeJson]
  body := CString.cut 16384 (chatFront model (ctx.messagesJson buffer) ++ chatLimits ctx ++
    ascii "\x7d")

def providerGlmCompletionRequest (apiKey model : Bytes) (ctx : RequestContext)
    (buffer : Bytes) : HttpPost where
  url := ascii "https://open.bigmodel.cn/api/paas/v4/chat/completions"
  headers := [bearer apiKey, contentTypeJson]
  body := CString.cut 16384 (chatFront model (ctx.messagesJson buffer) ++ chatLimits ctx ++
    ascii "\x7d")

/-- `model[0] ? model : other` -/
def orElse (model : Bytes) (other : String) : Bytes := if model = [] then ascii other else model

def providerCopilotCompletionRequest (apiKey model : Bytes) (ctx : RequestContext)
    (buffer : Bytes) : HttpPost where
  url := ascii "https://api.github.com/copilot-models/chat/completions"
  headers := [bearer apiKey, contentTypeJson, ascii "Accept: application/json"]
  body := CString.cut 16384 (chatFront (orElse model "gpt-4") (ctx.messagesJson buffer) ++
    chatLimits ctx ++ ascii "\x7d")

def ollamaHost (host : Option Bytes) : Bytes :=
  match host with
  | some (c :: host) => c :: host
  | _ => ascii "http://localhost:11434"

def ollamaUrl (host : Option Bytes) : Bytes :=
  let host := ollamaHost host
  if ¬ ascii "http://" <+: host ∧ ¬ ascii "https://" <+: host then
    CString.cut 512 (ascii "http://" ++ host ++ ascii "/api/chat")
  else CString.cut 512 (host ++ ascii "/api/chat")

def providerOllamaCompletionRequest (host : Option Bytes) (model : Bytes) (ctx : RequestContext)
    (buffer : Bytes) : HttpPost where
  url := ollamaUrl host
  headers := [contentTypeJson]
  body := CString.cut 16384 (chatFront model (ctx.messagesJson buffer) ++
    ascii ",\"temperature\":" ++ ctx.temperature ++
    ascii ",\"stream\":false,\"options\":\x7b\"num_predict\":" ++ ctx.tokens ++ ascii "\x7d\x7d")

def geminiPart (m : Message) : Bytes :=
  ascii "\x7b\"role\":\"" ++ m.role ++ ascii "\",\"parts\":[\x7b\"text\":\"" ++ m.content ++
    ascii "\"\x7d]\x7d"

/-- `strncat (contents, ",", remaining - 1)` with `p++` and `remaining--`; the
comma goes to the end of the string, which need not be where `p` is. -/
def strncatComma (w : Writer) : Writer :=
  let atEnd := { w with pos := (CString.ofBuffer w.buffer).length }
  { atEnd.storeAll ([44].take (w.remaining - 1) ++ [0]) with pos := w.pos + 1 }.spend 1

def writeContents : Writer → List Message → Writer
  | w, [] => w
  | w, m :: ms =>
      if 0 < w.remaining then
        let w := w.snprintf (geminiPart m)
        writeContents (if ms ≠ [] ∧ 0 < w.remaining then strncatComma w else w) ms
      else w

def geminiContents (ms : List Message) : Bytes :=
  CString.ofBuffer (writeContents (.start (List.replicate 8192 0)) ms).buffer

def providerGeminiCompletionRequest (apiKey model : Bytes) (ctx : RequestContext) : HttpPost where
  url := CString.cut 512 (ascii "https://generativelanguage.googleapis.com/v1/models/" ++ model ++
    ascii ":generateContent?key=" ++ apiKey)
  headers := [contentTypeJson]
  body := CString.cut 16384 (ascii "\x7b\"contents\":[" ++ geminiContents ctx.messages ++
    ascii "],\"generationConfig\":\x7b\"temperature\":" ++ ctx.temperature ++
    ascii ",\"maxOutputTokens\":" ++ ctx.tokens ++ ascii "\x7d\x7d")

/-! ## The dispatcher -/

inductive CompletionProvider
  | openai | openaiCodex | anthropic | openrouter | gemini | glm | ollama | copilot | llama
  | custom | unknown
  deriving DecidableEq

/-- The key of the caller, or the first that the environment has. -/
def completionApiKey (getenv : String → Option Bytes) (apiKey : Option Bytes) : Option Bytes :=
  apiKey <|> getenv "OPENAI_API_KEY" <|> getenv "ANTHROPIC_API_KEY" <|>
    getenv "OPENROUTER_API_KEY" <|> getenv "GEMINI_API_KEY"

/-- The request that `provider_chat_completion` posts, if any. -/
def providerChatCompletionRequest (getenv : String → Option Bytes) (provider : CompletionProvider)
    (model : Bytes) (apiKey : Option Bytes) (ctx : RequestContext) (buffer : Bytes) :
    Option HttpPost :=
  match provider, completionApiKey getenv apiKey with
  | .ollama, _ =>
      some (providerOllamaCompletionRequest (getenv "OLLAMA_HOST") (orElse model "llama3.2") ctx
        buffer)
  | .openai, some key | .openaiCodex, some key =>
      some (providerOpenaiCompletionRequest key (orElse model "gpt-4o") ctx
        (ascii "https://api.openai.com/v1") buffer)
  | .anthropic, some key =>
      some (providerAnthropicCompletionRequest key (orElse model "claude-3-5-sonnet-20241022") ctx
        buffer)
  | .openrouter, some key =>
      some (providerOpenaiCompletionRequest key (orElse model "openai/gpt-4o-mini") ctx
        (ascii "https://openrouter.ai/api/v1") buffer)
  | .gemini, some key => some (providerGeminiCompletionRequest key (orElse model "gemini-pro") ctx)
  | .glm, some key => some (providerGlmCompletionRequest key (orElse model "glm-4") ctx buffer)
  | .copilot, some key =>
      some (providerCopilotCompletionRequest ((getenv "GITHUB_TOKEN").getD key) model ctx buffer)
  | _, _ => none

/-! ## The documents -/

def messageValue (m : Message) : Value :=
  .object [(ascii "role", .string m.role), (ascii "content", .string m.content)]

def geminiValue (m : Message) : Value :=
  .object [(ascii "role", .string m.role),
    (ascii "parts", .array [.object [(ascii "text", .string m.content)]])]

/-- A conversation with the model, and what else the request says. -/
def chatDocument (model : Bytes) (ctx : RequestContext) (rest : List (Bytes × Value)) : Value :=
  .object ((ascii "model", .string model) ::
    (ascii "messages", .array (ctx.messages.map messageValue)) ::
    (ascii "temperature", .number ctx.temperature) :: rest)

def maxTokensMember (ctx : RequestContext) : Bytes × Value :=
  (ascii "max_tokens", .number ctx.tokens)

def streamMember : Bytes × Value := (ascii "stream", .bool false)

def geminiDocument (ctx : RequestContext) : Value :=
  .object [(ascii "contents", .array (ctx.messages.map geminiValue)),
    (ascii "generationConfig", .object [(ascii "temperature", .number ctx.temperature),
      (ascii "maxOutputTokens", .number ctx.tokens)])]

/-- What a request to the provider is to say. -/
def completionDocument (provider : CompletionProvider) (model : Bytes) (ctx : RequestContext) :
    Value :=
  match provider with
  | .openai | .openaiCodex =>
      chatDocument (orElse model "gpt-4o") ctx [maxTokensMember ctx, streamMember]
  | .openrouter =>
      chatDocument (orElse model "openai/gpt-4o-mini") ctx [maxTokensMember ctx, streamMember]
  | .anthropic => chatDocument (orElse model "claude-3-5-sonnet-20241022") ctx [maxTokensMember ctx]
  | .glm => chatDocument (orElse model "glm-4") ctx [maxTokensMember ctx]
  | .copilot => chatDocument (orElse model "gpt-4") ctx [maxTokensMember ctx]
  | .ollama =>
      chatDocument (orElse model "llama3.2") ctx
        [streamMember, (ascii "options", .object [(ascii "num_predict", .number ctx.tokens)])]
  | .gemini => geminiDocument ctx
  | .llama | .custom | .unknown => .null

/-- A text that stands for itself between quotes. -/
def PlainText (s : Bytes) : Prop := isUtf8 s = true ∧ Plain s

/-- A content that the encoder of the messages makes right. -/
def EncodableText (s : Bytes) : Prop := isUtf8 s = true ∧ ∀ c ∈ s, 32 ≤ c ∨ c = 10

instance (s : Bytes) : Decidable (PlainText s) := inferInstanceAs (Decidable (_ ∧ _))

instance (s : Bytes) : Decidable (EncodableText s) :=
  have := List.decidableBAll (fun c : UInt8 ↦ 32 ≤ c ∨ c = 10) s
  inferInstanceAs (Decidable (_ ∧ _))

/-- The provider's encoding can say the conversation. -/
def Sendable (provider : CompletionProvider) (model : Bytes) (ms : List Message) : Prop :=
  match provider with
  | .gemini => ∀ m ∈ ms, PlainText m.role ∧ PlainText m.content
  | _ => PlainText model ∧ ∀ m ∈ ms, PlainText m.role ∧ EncodableText m.content

/-- What has to fit into the buffer for the messages. -/
def messagesEncoding (provider : CompletionProvider) (ms : List Message) : Bytes :=
  match provider with
  | .gemini => joined (ms.map geminiPart)
  | _ => messagesJson ms

/-! ## The encoded messages -/

def messageEntries (m : Message) : List Entry :=
  [(ascii "role", .string m.role, stringText m.role),
    (ascii "content", .string m.content, stringText (Escape.escape escapeLetter m.content))]

theorem messageJson_eq (m : Message) :
    messageJson m = objectText ((messageEntries m).map fun e ↦ (e.1, e.2.2)) := by
  simp only [messageJson, messageFront, messageEnd, messageEntries, stringText, objectText, joined,
    memberText, List.map_cons, List.map_nil, List.append_assoc, if_neg (List.cons_ne_nil _ _),
    if_true, List.cons_append]
  rfl

theorem encodeMessages_eq (ms : List Message) (hne : ms ≠ []) :
    encodeMessages false ms = 44 :: joined (ms.map messageJson) ∧
      messagesJson ms = joined (ms.map messageJson) := by
  induction ms with
  | nil => exact absurd rfl hne
  | cons m ms ih =>
      have hfirst : messagesJson (m :: ms) = joined ((m :: ms).map messageJson) := by
        by_cases hnil : ms = []
        · subst hnil
          exact List.append_nil _
        · rw [List.map_cons, joined_cons _ (by simpa using hnil), ← (ih hnil).1]
          rfl
      exact ⟨congrArg (44 :: ·) hfirst, hfirst⟩

theorem escapeLetter_undone (c e : UInt8) (h : escapeLetter c = some e) :
    Json.escapeByte e = some c := by
  unfold escapeLetter at h
  split_ifs at h with h34 h92 h10 <;> cases h
  · rw [h34]; rfl
  · rw [h92]; rfl
  · rw [h10]; rfl

theorem byteWidth_of_escapeLetter (c e : UInt8) (h : escapeLetter c = some e) :
    byteWidth c = 2 := by
  unfold escapeLetter at h
  split_ifs at h with h34 h92 h10
  · rw [h34]; rfl
  · rw [h92]; rfl
  · rw [h10]; rfl

theorem ascii_of_escapeLetter (c e : UInt8) (h : escapeLetter c = some e) : c < 128 ∧ e < 128 := by
  unfold escapeLetter at h
  split_ifs at h with h34 h92 h10 <;> cases h
  · rw [h34]; decide
  · rw [h92]; decide
  · rw [h10]; decide

theorem escapeLetter_eq_none_iff : ∀ c, escapeLetter c = none ↔ c ≠ 34 ∧ c ≠ 92 ∧ c ≠ 10 :=
  CString.forall_byte (by decide +kernel)

theorem messageEntries_compact (m : Message) : ∀ e ∈ messageEntries m, e.Compact := by
  simp only [messageEntries, List.forall_mem_cons]
  exact ⟨entry_compact (by decide) (by decide) (compact_string _),
    entry_compact (by decide) (by decide)
      (compact_escaped escapeLetter_undone byteWidth_of_escapeLetter _),
    List.forall_mem_nil _⟩

theorem compact_messageJson (m : Message) : Compact (messageValue m) (messageJson m) := by
  rw [messageJson_eq]
  exact compact_object (messageEntries_compact m)

theorem encodable_iff (s : Bytes) :
    (∀ c ∈ s, escapeLetter c = none → 32 ≤ c ∧ c ≠ 34 ∧ c ≠ 92) ↔ ∀ c ∈ s, 32 ≤ c ∨ c = 10 := by
  refine forall₂_congr fun c _ ↦ ?_
  rw [escapeLetter_eq_none_iff]
  constructor
  · intro h
    by_cases hten : c = 10
    · exact .inr hten
    by_cases hquote : c = 34
    · exact .inl (hquote ▸ by decide)
    by_cases hslash : c = 92
    · exact .inl (hslash ▸ by decide)
    exact .inl (h ⟨hquote, hslash, hten⟩).1
  · rintro (hc | rfl) ⟨hquote, hslash, hten⟩
    · exact ⟨hc, hquote, hslash⟩
    · exact absurd rfl hten

theorem exact_messageJson (m : Message) :
    Exact (messageValue m) (messageJson m) ↔ PlainText m.role ∧ EncodableText m.content := by
  have hexact := exact_object (messageEntries_compact m)
  simp only [messageEntries, List.forall_mem_cons, List.not_mem_nil, false_implies, implies_true,
    and_true] at hexact
  rw [messageJson_eq]
  refine hexact.trans (and_congr exact_string ?_)
  rw [EncodableText, ← encodable_iff]
  exact exact_escaped byteWidth_of_escapeLetter ascii_of_escapeLetter _

/-! ## The parts for Gemini -/

def textEntries (m : Message) : List Entry :=
  [(ascii "text", .string m.content, stringText m.content)]

def textValue (m : Message) : Value × Bytes :=
  (.object ((textEntries m).map Entry.member),
    objectText ((textEntries m).map fun e ↦ (e.1, e.2.2)))

def partEntries (m : Message) : List Entry :=
  [(ascii "role", .string m.role, stringText m.role),
    (ascii "parts", .array ([textValue m].map Prod.fst), arrayText ([textValue m].map Prod.snd))]

theorem geminiPart_eq (m : Message) :
    geminiPart m = objectText ((partEntries m).map fun e ↦ (e.1, e.2.2)) := by
  simp only [geminiPart, partEntries, textValue, textEntries, stringText, objectText, arrayText,
    joined, memberText, List.map_cons, List.map_nil, List.append_assoc,
    if_neg (List.cons_ne_nil _ _), if_true, List.cons_append]
  rfl

theorem textEntries_compact (m : Message) : ∀ e ∈ textEntries m, e.Compact := by
  simp only [textEntries, List.forall_mem_cons]
  exact ⟨entry_compact (by decide) (by decide) (compact_string _), List.forall_mem_nil _⟩

theorem textValue_compact (m : Message) : ∀ p ∈ [textValue m], Compact p.1 p.2 :=
  List.forall_mem_singleton.mpr (compact_object (textEntries_compact m))

theorem partEntries_compact (m : Message) : ∀ e ∈ partEntries m, e.Compact := by
  simp only [partEntries, List.forall_mem_cons]
  exact ⟨entry_compact (by decide) (by decide) (compact_string _),
    entry_compact (by decide) (by decide) (compact_array (textValue_compact m)),
    List.forall_mem_nil _⟩

theorem compact_geminiPart (m : Message) : Compact (geminiValue m) (geminiPart m) := by
  rw [geminiPart_eq]
  exact compact_object (partEntries_compact m)

theorem exact_geminiPart (m : Message) :
    Exact (geminiValue m) (geminiPart m) ↔ PlainText m.role ∧ PlainText m.content := by
  have htext : Exact (textValue m).1 (textValue m).2 ↔ PlainText m.content := by
    refine (exact_object (textEntries_compact m)).trans ?_
    rw [textEntries, List.forall_mem_singleton]
    exact exact_string
  have hparts := exact_array (textValue_compact m)
  rw [List.forall_mem_singleton, htext] at hparts
  have hexact := exact_object (partEntries_compact m)
  simp only [partEntries, List.forall_mem_cons, List.not_mem_nil, false_implies, implies_true,
    and_true] at hexact
  rw [geminiPart_eq]
  exact hexact.trans (and_congr exact_string hparts)

/-! ## The contents for Gemini -/

section Contents

variable {n : ℕ} {w : Writer} {text : Bytes}

theorem strncatComma_eq (ht : text ++ [0] <+: w.buffer) (hpos : w.pos = text.length)
    (hnul : (0 : UInt8) ∉ text) (h : 2 ≤ w.remaining) :
    strncatComma w = { w.storeAll [44, 0] with pos := w.pos + 1 }.spend 1 := by
  obtain ⟨junk, hjunk⟩ := ht
  have hend : CString.ofBuffer w.buffer = text := by
    rw [← hjunk, List.append_assoc]
    exact CString.ofBuffer_append_zero hnul junk
  have htake : [(44 : UInt8)].take (w.remaining - 1) = [44] := List.take_of_length_le (by
    rw [List.length_singleton]
    omega)
  rw [strncatComma, hend, ← hpos, htake]
  rfl

/-- Behind a text with its terminator the comma goes where the pointer is. -/
theorem strncatComma_spec (hw : w.Sound n) (ht : text ++ [0] <+: w.buffer)
    (hpos : w.pos = text.length) (hnul : (0 : UInt8) ∉ text) (h : 2 ≤ w.remaining) :
    (strncatComma w).Sound n ∧ (strncatComma w).Holds (text ++ [44]) ∧
      (strncatComma w).remaining = w.remaining - 1 := by
  have hspace := hw.space
  have hlength := hw.length
  have htwo : [(44 : UInt8), 0].length = 2 := rfl
  have hholds : w.Holds text := ⟨hpos, (List.prefix_append _ _).trans ht⟩
  have hstored := Writer.isPrefix_storeAll (s := [44, 0]) hholds (by omega)
  rw [strncatComma_eq ht hpos hnul h]
  have hremaining : ({ w.storeAll [44, 0] with pos := w.pos + 1 }.spend 1).remaining =
      w.remaining - 1 := by
    simp only [Writer.spend, Writer.storeAll_remaining]
    exact Writer.sizeSub_of_le (by omega)
  refine ⟨⟨?_, ?_, ?_⟩, ⟨?_, ?_⟩, hremaining⟩
  · rw [hremaining]
    simp only [Writer.spend]
    omega
  · simpa [Writer.spend] using hlength
  · refine Writer.inBounds_spend (Writer.storeAll_inBounds hw.log (by omega)) ?_
    simp only [Writer.storeAll_remaining]
    omega
  · simp [Writer.spend, hpos]
  · refine List.IsPrefix.trans ?_ hstored
    exact (List.prefix_append_right_inj text).mpr ⟨[0], rfl⟩

theorem nul_notMem_geminiPart {m : Message} (h : m.Stored) : (0 : UInt8) ∉ geminiPart m := by
  simp only [geminiPart, List.mem_append, not_or]
  exact ⟨⟨⟨⟨by decide, h.role_nul⟩, by decide⟩, h.content_nul⟩, by decide⟩

theorem length_joined_cons_cons (t t' : Bytes) (ts : List Bytes) :
    (joined (t :: t' :: ts)).length = t.length + (1 + (joined (t' :: ts)).length) := by
  rw [joined_cons t (List.cons_ne_nil _ _), List.length_append, List.length_cons, Nat.add_comm 1]

theorem writeContents_holds (m : Message) (ms : List Message) (hw : w.Sound n) (ht : w.Holds text)
    (hnul : (0 : UInt8) ∉ text) (hstored : ∀ m' ∈ m :: ms, m'.Stored)
    (h : (joined ((m :: ms).map geminiPart)).length < w.remaining) :
    text ++ joined ((m :: ms).map geminiPart) ++ [0] <+: (writeContents w (m :: ms)).buffer := by
  induction ms generalizing w text m with
  | nil =>
      have hone : joined ([m].map geminiPart) = geminiPart m := rfl
      rw [hone] at h ⊢
      rw [writeContents, if_pos (by omega)]
      dsimp only
      rw [if_neg fun hne ↦ hne.1 rfl, writeContents]
      exact Writer.isPrefix_snprintf hw ht h
  | cons m' ms ih =>
      rw [List.forall_mem_cons] at hstored
      rw [List.map_cons, List.map_cons, length_joined_cons_cons, ← List.map_cons] at h
      have hremaining := Writer.snprintf_remaining (w := w) (s := geminiPart m) (by omega)
      have hpart := Writer.isPrefix_snprintf hw ht (s := geminiPart m) (by omega)
      have hpos := (ht.snprintf hw (s := geminiPart m) (by omega)).pos
      have hnul' : (0 : UInt8) ∉ text ++ geminiPart m := by
        rw [List.mem_append, not_or]
        exact ⟨hnul, nul_notMem_geminiPart hstored.1⟩
      obtain ⟨hsound, hholds, hleft⟩ :=
        strncatComma_spec (hw.snprintf (s := geminiPart m) (by omega)) hpart hpos hnul' (by omega)
      have hcomma : (0 : UInt8) ∉ text ++ geminiPart m ++ [44] := by
        rw [List.mem_append, not_or]
        exact ⟨hnul', by decide⟩
      have hrest := ih m' hsound hholds hcomma hstored.2 (by omega)
      have htext : text ++ joined ((m :: m' :: ms).map geminiPart) =
          text ++ geminiPart m ++ [44] ++ joined ((m' :: ms).map geminiPart) := by
        rw [List.map_cons, List.map_cons, joined_cons _ (List.cons_ne_nil _ _)]
        simp only [List.append_assoc, List.singleton_append]
      rw [writeContents, if_pos (by omega)]
      dsimp only
      rw [if_pos ⟨List.cons_ne_nil _ _, by omega⟩, htext]
      exact hrest

end Contents

/-! ## The entries of the bodies -/

theorem tokens_isNumber (ctx : RequestContext) : IsNumber ctx.tokens := isNumber_printNat _

theorem length_tokens_le (ctx : RequestContext) : ctx.tokens.length ≤ 20 :=
  Decimal.length_printNat_le (by decide) (ctx.maxTokens.toNat_lt.trans (by decide))

def streamEntry : Entry := (ascii "stream", .bool false, ascii "false")

theorem settled_stream : Settled streamEntry :=
  ⟨entry_compact (by decide) (by decide) compact_false, exact_false⟩

theorem settled_temperature (ctx : RequestContext) :
    Settled (numberEntry (ascii "temperature") ctx.temperature) :=
  settled_number (by decide) (by decide) ctx.isNumber

theorem settled_maxTokens (ctx : RequestContext) :
    Settled (numberEntry (ascii "max_tokens") ctx.tokens) :=
  settled_number (by decide) (by decide) (tokens_isNumber ctx)

/-! ## Bodies with a model -/

def chatItems (ms : List Message) : List (Value × Bytes) :=
  ms.map fun m ↦ (messageValue m, messageJson m)

def chatEntries (model : Bytes) (ctx : RequestContext) (rest : List Entry) : List Entry :=
  (ascii "model", .string model, stringText model) ::
    arrayEntry (ascii "messages") (chatItems ctx.messages) ::
      numberEntry (ascii "temperature") ctx.temperature :: rest

variable {model : Bytes} {ctx : RequestContext} {rest : List Entry}

theorem chatItems_fst (ms : List Message) : (chatItems ms).map Prod.fst = ms.map messageValue :=
  List.map_map

theorem chatItems_snd (ms : List Message) : (chatItems ms).map Prod.snd = ms.map messageJson :=
  List.map_map

theorem chatItems_compact (ms : List Message) : ∀ p ∈ chatItems ms, Compact p.1 p.2 :=
  List.forall_mem_map.mpr fun m _ ↦ compact_messageJson m

theorem chatEntries_compact (hrest : ∀ e ∈ rest, Settled e) :
    ∀ e ∈ chatEntries model ctx rest, e.Compact := by
  rw [chatEntries, List.forall_mem_cons, List.forall_mem_cons, List.forall_mem_cons]
  exact ⟨entry_compact (by decide) (by decide) (compact_string _),
    entry_compact (by decide) (by decide) (compact_array (chatItems_compact _)),
    (settled_temperature ctx).compact, fun e he ↦ (hrest e he).compact⟩

theorem chatDocument_eq (model : Bytes) (ctx : RequestContext) (rest : List Entry) :
    chatDocument model ctx (rest.map Entry.member) =
      .object ((chatEntries model ctx rest).map Entry.member) := by
  rw [chatDocument, chatEntries, List.map_cons, List.map_cons, List.map_cons, arrayEntry,
    chatItems_fst]
  rfl

/-- A body with a model reads as it should if the encoder makes every content
right and nothing else needs it. -/
theorem parse_chat_iff (hrest : ∀ e ∈ rest, Settled e) :
    Json.parse (entriesText (chatEntries model ctx rest)) =
        some (chatDocument model ctx (rest.map Entry.member)) ↔
      PlainText model ∧ ∀ m ∈ ctx.messages, PlainText m.role ∧ EncodableText m.content := by
  have hitems : Exact (arrayEntry (ascii "messages") (chatItems ctx.messages)).2.1
      (arrayEntry (ascii "messages") (chatItems ctx.messages)).2.2 ↔
        ∀ m ∈ ctx.messages, PlainText m.role ∧ EncodableText m.content := by
    refine (exact_arrayEntry_map fun m _ ↦ compact_messageJson m).trans ?_
    exact forall₂_congr fun m _ ↦ exact_messageJson m
  rw [chatDocument_eq, entriesText, (compact_object (chatEntries_compact hrest)).parse_iff,
    exact_object (chatEntries_compact hrest), chatEntries, List.forall_mem_cons,
    List.forall_mem_cons, List.forall_mem_cons, hitems]
  have hothers : ∀ e ∈ rest, Exact e.2.1 e.2.2 := fun e he ↦ (hrest e he).exact
  refine and_congr exact_string ⟨fun h ↦ h.1, fun h ↦ ⟨h, (settled_temperature ctx).exact, hothers⟩⟩

theorem messagesJson_of_fits {buffer : Bytes} (hstored : ∀ m ∈ ctx.messages, m.Stored)
    (hne : ctx.messages ≠ []) (hfits : (messagesJson ctx.messages).length < buffer.length) :
    ctx.messagesJson buffer = joined ((chatItems ctx.messages).map Prod.snd) := by
  obtain ⟨m, ms, hms⟩ := List.exists_cons_of_ne_nil hne
  have hwritten := writeMessages_holds true m ms (Writer.start_sound buffer)
    (Writer.start_holds buffer) (by rwa [hms] at hfits)
  rw [← hms, List.nil_append] at hwritten
  obtain ⟨junk, hjunk⟩ := hwritten
  rw [RequestContext.messagesJson, buildMessagesJson, ← hjunk, List.append_assoc,
    chatItems_snd, ← (encodeMessages_eq _ hne).2]
  exact CString.ofBuffer_append_zero (nul_notMem_encodeMessages hstored) junk

theorem chatText_eq (model messages : Bytes) (ctx : RequestContext)
    (hmessages : messages = joined ((chatItems ctx.messages).map Prod.snd)) :
    chatFront model messages ++ chatLimits ctx ++ ascii "\x7d" =
      entriesText (chatEntries model ctx [numberEntry (ascii "max_tokens") ctx.tokens]) := by
  simp only [chatFront, chatLimits, entriesText, chatEntries, arrayEntry, numberEntry, stringText,
    objectText, arrayText, joined, memberText, List.map_cons, List.map_nil, List.append_assoc,
    if_neg (List.cons_ne_nil _ _), if_true, List.cons_append, hmessages]
  rfl

theorem chatStreamText_eq (model messages : Bytes) (ctx : RequestContext)
    (hmessages : messages = joined ((chatItems ctx.messages).map Prod.snd)) :
    chatFront model messages ++ chatLimits ctx ++ ascii ",\"stream\":false\x7d" =
      entriesText (chatEntries model ctx
        [numberEntry (ascii "max_tokens") ctx.tokens, streamEntry]) := by
  simp only [chatFront, chatLimits, entriesText, chatEntries, arrayEntry, numberEntry, streamEntry,
    stringText, objectText, arrayText, joined, memberText, List.map_cons, List.map_nil,
    List.append_assoc, if_neg (List.cons_ne_nil _ _), if_true, List.cons_append, hmessages]
  rfl

def optionsEntry (ctx : RequestContext) : Entry :=
  objectEntry (ascii "options") [numberEntry (ascii "num_predict") ctx.tokens]

theorem ollamaText_eq (model messages : Bytes) (ctx : RequestContext)
    (hmessages : messages = joined ((chatItems ctx.messages).map Prod.snd)) :
    chatFront model messages ++ ascii ",\"temperature\":" ++ ctx.temperature ++
        ascii ",\"stream\":false,\"options\":\x7b\"num_predict\":" ++ ctx.tokens ++
        ascii "\x7d\x7d" =
      entriesText (chatEntries model ctx [streamEntry, optionsEntry ctx]) := by
  simp only [chatFront, entriesText, chatEntries, arrayEntry, numberEntry, streamEntry,
    optionsEntry, objectEntry, stringText, objectText, arrayText, joined, memberText, List.map_cons,
    List.map_nil, List.append_assoc, if_neg (List.cons_ne_nil _ _), if_true, List.cons_append,
    hmessages]
  rfl

theorem settled_options (ctx : RequestContext) : Settled (optionsEntry ctx) :=
  settled_object (by decide) (by decide)
    (List.forall_mem_singleton.mpr (settled_number (by decide) (by decide) (tokens_isNumber ctx)))

theorem length_chatFront (model messages : Bytes) :
    (chatFront model messages).length = model.length + messages.length + 25 := by
  have hstart : (ascii "\x7b\"model\":\"").length = 10 := rfl
  have hbetween : (ascii "\",\"messages\":[").length = 14 := rfl
  have hend : (ascii "]").length = 1 := rfl
  simp only [chatFront, List.length_append]
  omega

theorem length_chatLimits_le (ctx : RequestContext) : (chatLimits ctx).length ≤ 369 := by
  have htemperature : (ascii ",\"temperature\":").length = 15 := rfl
  have hmax : (ascii ",\"max_tokens\":").length = 14 := rfl
  have htokens := length_tokens_le ctx
  have hnumber := ctx.length_le
  simp only [chatLimits, List.length_append]
  omega

/-! ## The body for Gemini -/

def geminiItems (ms : List Message) : List (Value × Bytes) :=
  ms.map fun m ↦ (geminiValue m, geminiPart m)

def geminiEntries (ctx : RequestContext) : List Entry :=
  [arrayEntry (ascii "contents") (geminiItems ctx.messages),
    objectEntry (ascii "generationConfig") [numberEntry (ascii "temperature") ctx.temperature,
      numberEntry (ascii "maxOutputTokens") ctx.tokens]]

theorem geminiItems_fst (ms : List Message) : (geminiItems ms).map Prod.fst = ms.map geminiValue :=
  List.map_map

theorem geminiItems_snd (ms : List Message) : (geminiItems ms).map Prod.snd = ms.map geminiPart :=
  List.map_map

theorem geminiItems_compact (ms : List Message) : ∀ p ∈ geminiItems ms, Compact p.1 p.2 :=
  List.forall_mem_map.mpr fun m _ ↦ compact_geminiPart m

theorem settled_generationConfig (ctx : RequestContext) :
    Settled (objectEntry (ascii "generationConfig")
      [numberEntry (ascii "temperature") ctx.temperature,
        numberEntry (ascii "maxOutputTokens") ctx.tokens]) := by
  refine settled_object (by decide) (by decide) ?_
  rw [List.forall_mem_cons, List.forall_mem_singleton]
  exact ⟨settled_temperature ctx, settled_number (by decide) (by decide) (tokens_isNumber ctx)⟩

theorem geminiEntries_compact (ctx : RequestContext) : ∀ e ∈ geminiEntries ctx, e.Compact := by
  rw [geminiEntries, List.forall_mem_cons, List.forall_mem_singleton]
  exact ⟨entry_compact (by decide) (by decide) (compact_array (geminiItems_compact _)),
    (settled_generationConfig ctx).compact⟩

theorem geminiDocument_eq (ctx : RequestContext) :
    geminiDocument ctx = .object ((geminiEntries ctx).map Entry.member) := by
  rw [geminiDocument, geminiEntries, List.map_cons, arrayEntry, geminiItems_fst]
  rfl

/-- The body for Gemini reads as it should only if nothing needs an escape. -/
theorem parse_gemini_iff (ctx : RequestContext) :
    Json.parse (entriesText (geminiEntries ctx)) = some (geminiDocument ctx) ↔
      ∀ m ∈ ctx.messages, PlainText m.role ∧ PlainText m.content := by
  have hitems : Exact (arrayEntry (ascii "contents") (geminiItems ctx.messages)).2.1
      (arrayEntry (ascii "contents") (geminiItems ctx.messages)).2.2 ↔
        ∀ m ∈ ctx.messages, PlainText m.role ∧ PlainText m.content := by
    refine (exact_arrayEntry_map fun m _ ↦ compact_geminiPart m).trans ?_
    exact forall₂_congr fun m _ ↦ exact_geminiPart m
  rw [geminiDocument_eq, entriesText, (compact_object (geminiEntries_compact ctx)).parse_iff,
    exact_object (geminiEntries_compact ctx), geminiEntries, List.forall_mem_cons,
    List.forall_mem_singleton, hitems]
  exact ⟨fun h ↦ h.1, fun h ↦ ⟨h, (settled_generationConfig ctx).exact⟩⟩

theorem geminiContents_of_fits {ms : List Message} (hstored : ∀ m ∈ ms, m.Stored) (hne : ms ≠ [])
    (hfits : (joined (ms.map geminiPart)).length < 8192) :
    geminiContents ms = joined ((geminiItems ms).map Prod.snd) := by
  have hnul : (0 : UInt8) ∉ joined (ms.map geminiPart) := by
    refine notMem_joined (by decide) fun t ht ↦ ?_
    obtain ⟨m, hm, rfl⟩ := List.mem_map.mp ht
    exact nul_notMem_geminiPart (hstored m hm)
  rw [geminiContents, geminiItems_snd]
  generalize hbuffer : List.replicate 8192 (0 : UInt8) = buffer
  have hlength : buffer.length = 8192 := by rw [← hbuffer, List.length_replicate]
  obtain ⟨m, ms, rfl⟩ := List.exists_cons_of_ne_nil hne
  have hwritten := writeContents_holds m ms (Writer.start_sound buffer) (Writer.start_holds buffer)
    List.not_mem_nil hstored (by rwa [← hlength] at hfits)
  rw [List.nil_append] at hwritten
  obtain ⟨junk, hjunk⟩ := hwritten
  rw [← hjunk, List.append_assoc]
  exact CString.ofBuffer_append_zero hnul junk

theorem geminiText_eq (contents : Bytes) (ctx : RequestContext)
    (hcontents : contents = joined ((geminiItems ctx.messages).map Prod.snd)) :
    ascii "\x7b\"contents\":[" ++ contents ++
        ascii "],\"generationConfig\":\x7b\"temperature\":" ++ ctx.temperature ++
        ascii ",\"maxOutputTokens\":" ++ ctx.tokens ++ ascii "\x7d\x7d" =
      entriesText (geminiEntries ctx) := by
  simp only [entriesText, geminiEntries, arrayEntry, numberEntry, objectEntry, objectText,
    arrayText, joined, memberText, List.map_cons, List.map_nil, List.append_assoc,
    if_neg (List.cons_ne_nil _ _), if_true, List.cons_append, hcontents]
  rfl

/-! ## The requests as they are sent -/

section Sent

variable {messages : Bytes} (hmodel : model.length ≤ 7000) (hlen : messages.length < 8192)
  (hmessages : messages = joined ((chatItems ctx.messages).map Prod.snd))

include hmodel hlen hmessages

theorem parse_limits_iff :
    Json.parse (CString.cut 16384 (chatFront model messages ++ chatLimits ctx ++ ascii "\x7d")) =
        some (chatDocument model ctx [maxTokensMember ctx]) ↔
      PlainText model ∧ ∀ m ∈ ctx.messages, PlainText m.role ∧ EncodableText m.content := by
  have hfront := length_chatFront model messages
  have hlimits := length_chatLimits_le ctx
  have hend : (ascii "\x7d").length = 1 := rfl
  rw [CString.cut_of_lt (by simp only [List.length_append]; omega),
    chatText_eq model messages ctx hmessages]
  exact parse_chat_iff (List.forall_mem_singleton.mpr (settled_maxTokens ctx))

theorem parse_stream_iff :
    Json.parse (CString.cut 16384
        (chatFront model messages ++ chatLimits ctx ++ ascii ",\"stream\":false\x7d")) =
        some (chatDocument model ctx [maxTokensMember ctx, streamMember]) ↔
      PlainText model ∧ ∀ m ∈ ctx.messages, PlainText m.role ∧ EncodableText m.content := by
  have hfront := length_chatFront model messages
  have hlimits := length_chatLimits_le ctx
  have hend : (ascii ",\"stream\":false\x7d").length = 16 := rfl
  rw [CString.cut_of_lt (by simp only [List.length_append]; omega),
    chatStreamText_eq model messages ctx hmessages]
  exact parse_chat_iff (List.forall_mem_cons.mpr
    ⟨settled_maxTokens ctx, List.forall_mem_singleton.mpr settled_stream⟩)

theorem parse_ollama_iff :
    Json.parse (CString.cut 16384 (chatFront model messages ++ ascii ",\"temperature\":" ++
        ctx.temperature ++ ascii ",\"stream\":false,\"options\":\x7b\"num_predict\":" ++
        ctx.tokens ++ ascii "\x7d\x7d")) =
        some (chatDocument model ctx [streamMember,
          (ascii "options", .object [(ascii "num_predict", .number ctx.tokens)])]) ↔
      PlainText model ∧ ∀ m ∈ ctx.messages, PlainText m.role ∧ EncodableText m.content := by
  have hfront := length_chatFront model messages
  have htemperature : (ascii ",\"temperature\":").length = 15 := rfl
  have hoptions :
      (ascii ",\"stream\":false,\"options\":\x7b\"num_predict\":").length = 41 := rfl
  have hend : (ascii "\x7d\x7d").length = 2 := rfl
  have htokens := length_tokens_le ctx
  have hnumber := ctx.length_le
  rw [CString.cut_of_lt (by simp only [List.length_append]; omega),
    ollamaText_eq model messages ctx hmessages]
  exact parse_chat_iff (List.forall_mem_cons.mpr
    ⟨settled_stream, List.forall_mem_singleton.mpr (settled_options ctx)⟩)

end Sent

theorem parse_geminiCompletion_iff (apiKey model : Bytes) (ctx : RequestContext)
    (hstored : ∀ m ∈ ctx.messages, m.Stored) (hne : ctx.messages ≠ [])
    (hfits : (joined (ctx.messages.map geminiPart)).length < 8192) :
    Json.parse (providerGeminiCompletionRequest apiKey model ctx).body = some (geminiDocument ctx) ↔
      ∀ m ∈ ctx.messages, PlainText m.role ∧ PlainText m.content := by
  have hcontents := geminiContents_of_fits hstored hne hfits
  have hlen : (geminiContents ctx.messages).length < 8192 := by
    rwa [hcontents, geminiItems_snd]
  have hstart : (ascii "\x7b\"contents\":[").length = 13 := rfl
  have hconfig :
      (ascii "],\"generationConfig\":\x7b\"temperature\":").length = 36 := rfl
  have hmax : (ascii ",\"maxOutputTokens\":").length = 19 := rfl
  have hend : (ascii "\x7d\x7d").length = 2 := rfl
  have htokens := length_tokens_le ctx
  have hnumber := ctx.length_le
  have htext := geminiText_eq _ ctx hcontents
  have hlength : (entriesText (geminiEntries ctx)).length < 16384 := by
    rw [← htext]
    simp only [List.length_append]
    omega
  have hbody : (providerGeminiCompletionRequest apiKey model ctx).body =
      CString.cut 16384 (entriesText (geminiEntries ctx)) := congrArg (CString.cut 16384) htext
  rw [hbody, CString.cut_of_lt hlength]
  exact parse_gemini_iff ctx

theorem plainText_orElse {other : String} (model : Bytes) (h : PlainText (ascii other)) :
    PlainText (orElse model other) ↔ PlainText model := by
  unfold orElse
  split_ifs with hnil
  · rw [hnil]
    exact iff_of_true h ⟨rfl, List.forall_mem_nil _⟩
  · exact Iff.rfl

theorem length_orElse_le {other : String} {model : Bytes} (hmodel : model.length ≤ 7000)
    (h : (ascii other).length ≤ 7000) : (orElse model other).length ≤ 7000 := by
  unfold orElse
  split_ifs
  · exact h
  · exact hmodel

/-- A request with a conversation that fits reads as the conversation exactly when
that is one the provider's encoding can say. -/
theorem requests_say_the_conversation (getenv : String → Option Bytes)
    (provider : CompletionProvider) (model : Bytes) (apiKey : Option Bytes) (ctx : RequestContext)
    (buffer : Bytes) {request : HttpPost}
    (hrequest :
      providerChatCompletionRequest getenv provider model apiKey ctx buffer = some request)
    (hbuffer : buffer.length = 8192) (hmodel : model.length ≤ 7000)
    (hstored : ∀ m ∈ ctx.messages, m.Stored) (hne : ctx.messages ≠ [])
    (hfits : (messagesEncoding provider ctx.messages).length < 8192) :
    Json.parse request.body = some (completionDocument provider model ctx) ↔
      Sendable provider model ctx.messages := by
  have hencoded (hlen : (messagesJson ctx.messages).length < 8192) :
      ctx.messagesJson buffer = joined ((chatItems ctx.messages).map Prod.snd) ∧
        (ctx.messagesJson buffer).length < 8192 := by
    have hjson := messagesJson_of_fits hstored hne (hbuffer.symm ▸ hlen)
    refine ⟨hjson, ?_⟩
    rwa [hjson, chatItems_snd, ← (encodeMessages_eq _ hne).2]
  unfold providerChatCompletionRequest at hrequest
  split at hrequest
  case h_1 =>
    obtain ⟨hjson, hlen⟩ := hencoded hfits
    cases hrequest
    refine (parse_ollama_iff (length_orElse_le hmodel (by decide)) hlen hjson).trans ?_
    rw [plainText_orElse model (by decide)]
    rfl
  -- with the stream flag
  case h_2 | h_3 | h_5 =>
    obtain ⟨hjson, hlen⟩ := hencoded hfits
    cases hrequest
    refine (parse_stream_iff (length_orElse_le hmodel (by decide)) hlen hjson).trans ?_
    rw [plainText_orElse model (by decide)]
    rfl
  -- without it
  case h_4 | h_7 | h_8 =>
    obtain ⟨hjson, hlen⟩ := hencoded hfits
    cases hrequest
    refine (parse_limits_iff (length_orElse_le hmodel (by decide)) hlen hjson).trans ?_
    rw [plainText_orElse model (by decide)]
    rfl
  case h_6 =>
    cases hrequest
    exact parse_geminiCompletion_iff _ _ ctx hstored hne hfits
  case h_9 => cases hrequest

def quotedRequest : RequestContext :=
  { quotedContext with
    temperature := ascii "0.700000"
    isNumber := by decide
    length_le := by decide
    maxTokens := 4096 }

theorem quotedRequest_stored : ∀ m ∈ quotedRequest.messages, m.Stored := by
  refine chatContextAddMessage_stored ?_ (by decide) (by decide)
  exact chatContextAddMessage_stored (List.forall_mem_nil _) (by decide) (by decide)

/-- Quotes and a line break reach Anthropic, but not Gemini. -/
theorem requests_say_the_conversation_quoted :
    (∃ request,
      providerChatCompletionRequest (fun _ ↦ none) .anthropic [] (some (ascii "key")) quotedRequest
          (List.replicate 8192 1) = some request ∧
        Json.parse request.body = some (completionDocument .anthropic [] quotedRequest)) ∧
      ∃ request,
        providerChatCompletionRequest (fun _ ↦ none) .gemini [] (some (ascii "key")) quotedRequest
            (List.replicate 8192 1) = some request ∧
          Json.parse request.body ≠ some (completionDocument .gemini [] quotedRequest) := by
  have hbuffer : (List.replicate 8192 (1 : UInt8)).length = 8192 := List.length_replicate
  generalize List.replicate 8192 (1 : UInt8) = buffer at hbuffer ⊢
  obtain ⟨post, hpost⟩ : ∃ request, providerChatCompletionRequest (fun _ ↦ none) .anthropic []
      (some (ascii "key")) quotedRequest buffer = some request := ⟨_, rfl⟩
  obtain ⟨post', hpost'⟩ : ∃ request, providerChatCompletionRequest (fun _ ↦ none) .gemini []
      (some (ascii "key")) quotedRequest buffer = some request := ⟨_, rfl⟩
  refine ⟨⟨post, hpost, ?_⟩, post', hpost', fun hsays ↦ ?_⟩
  · refine (requests_say_the_conversation (fun _ ↦ none) .anthropic [] (some (ascii "key"))
      quotedRequest buffer hpost hbuffer (by decide) quotedRequest_stored (by decide)
      (by decide)).mpr ⟨by decide, by decide⟩
  · have hsendable := (requests_say_the_conversation (fun _ ↦ none) .gemini []
      (some (ascii "key")) quotedRequest buffer hpost' hbuffer (by decide) quotedRequest_stored
      (by decide) (by decide)).mp hsays
    exact absurd hsendable (by decide : ¬ ∀ m ∈ quotedRequest.messages,
      PlainText m.role ∧ PlainText m.content)

end DoctorClaw
