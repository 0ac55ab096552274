import DoctorClaw.ChatContext
import DoctorClaw.LoopGuard
import DoctorClaw.ToolCalls
import DoctorClaw.Lib.Interaction

/-!
# One turn of the agent

`agent_think_with_tools` asks the provider, runs the tools it calls for and
asks again, until an answer comes without calls, the loop guard trips or fifty
requests are made.  The provider and the tools are the environment of the
turn, which may answer anything.
-/

namespace DoctorClaw

open Interaction

/-! ## Calls -/

inductive ProviderType
  | openrouter
  | openai

structure ChatResponse where
  content : Bytes
  tokensUsed : ℕ
  toolCalls : List (Bytes × Bytes)

inductive AgentCall
  | getenv (name : String)
  | chatCompletion (provider : ProviderType) (model apiKey : Bytes) (messages : List Message)
  | chatWithTools (provider : ProviderType) (model apiKey : Bytes) (messages : List Message)
  | setApprovalContext
  | executeTool (name arguments : Bytes)

def AgentCall.Reply : AgentCall → Type
  | .getenv _ => Option Bytes
  | .chatCompletion .. => ChatResponse
  | .chatWithTools .. => ChatResponse
  | .setApprovalContext => Unit
  | .executeTool .. => Bytes

abbrev AgentM := Prog AgentCall AgentCall.Reply

def AgentM.getenv (name : String) : AgentM (Option Bytes) := .perform (AgentCall.getenv name)

def AgentM.setApprovalContext : AgentM Unit := .perform AgentCall.setApprovalContext

/-- The text `agent_execute_tool_by_name` leaves in `tool_result`. -/
def AgentM.executeTool (name arguments : Bytes) : AgentM Bytes :=
  .perform (AgentCall.executeTool name arguments)

/-! ## Tool calls in the text of an answer -/

structure ParsedToolCall where
  name : Bytes
  arguments : Bytes

def maxToolArgs : ℕ := 4096

/-- Start and end of each group, as `regexec` leaves them in `matches`. -/
abbrev Matches := ℕ → ℕ × ℕ

def Matches.group (m : Matches) (i : ℕ) (s : Bytes) : Bytes :=
  (s.drop (m i).1).take ((m i).2 - (m i).1)

/-- `regexec` for a pattern and a text: whether it matched, and what it made of
`matches`. -/
abbrev Regexec := String → Bytes → Matches → Bool × Matches

def toolCallPattern : String := "<tool_call>\\s*([^<]+)\\s*</tool_call>"

def namePattern : String := "\"name\"\\s*:\\s*\"([^\"]+)\""

def argumentsPattern : String := "\"arguments\"\\s*:\\s*(\\\x7b[^\x7d]+\\\x7d)"

/-- Name and arguments of one call, and what the searches leave in `matches`. -/
def parseToolXml (regexec : Regexec) (toolXml : Bytes) (m : Matches) : ParsedToolCall × Matches :=
  let nameFound := regexec namePattern toolXml m
  let name := nameFound.2.group 1 toolXml
  let argsFound := regexec argumentsPattern toolXml nameFound.2
  let args := argsFound.2.group 1 toolXml
  ({ name := if nameFound.1 && decide (name.length < funcNameSize) then name else []
     arguments := CString.cut maxToolArgs
      (if argsFound.1 && decide (args.length < maxToolArgs) then args else []) }, argsFound.2)

/-- The searches share the array `matches`, so that the pointer moves by the
end of the last match made.  Each round adds a call or moves the pointer. -/
def parseXmlToolCalls (regexec : Regexec) : ℕ → Bytes → List ParsedToolCall → List ParsedToolCall
  | 0, _, calls => calls
  | fuel + 1, ptr, calls =>
      if ptr = [] ∨ maxToolCalls ≤ calls.length then calls
      else
        let found := regexec toolCallPattern ptr fun _ ↦ (0, 0)
        let toolXml := found.2.group 1 ptr
        if !found.1 then calls
        else if toolXml.length < maxToolArgs then
          let parsed := parseToolXml regexec toolXml found.2
          parseXmlToolCalls regexec fuel (ptr.drop (parsed.2 0).2) (calls ++ [parsed.1])
        else parseXmlToolCalls regexec fuel (ptr.drop (found.2 0).2) calls

/-! ## The turn -/

inductive DispatcherType
  | native
  | xml
  deriving DecidableEq

/-- What the source compiles in and what the C library gives. -/
structure TurnSetup where
  dispatcherType : DispatcherType
  regexec : Regexec

/-- The fields of `agent_t` that a turn changes. -/
structure AgentState where
  context : ChatContext
  totalTokens : ℕ
  toolCallsCount : ℕ

def AgentState.addMessage (s : AgentState) (role : String) (content : Bytes) : AgentState :=
  { s with context := chatContextAddMessage s.context (ascii role) content }

def AgentState.trimHistory (s : AgentState) : AgentState :=
  { s with context := agentTrimHistory s.context }

def parsedCalls (setup : TurnSetup) (resp : ChatResponse) : List ParsedToolCall :=
  if resp.toolCalls = [] then
    match setup.dispatcherType with
    | .xml => parseXmlToolCalls setup.regexec (resp.content.length + maxToolCalls) resp.content []
    | .native => []
  else
    (resp.toolCalls.take maxToolCalls).map fun c ↦
      ⟨CString.cut funcNameSize c.1, CString.cut maxToolArgs c.2⟩

def toolMessage (setup : TurnSetup) (name result : Bytes) : Bytes :=
  CString.cut 12288 (match setup.dispatcherType with
    | .xml => ascii "<tool_result>\n  <tool>" ++ name ++ ascii "</tool>\n  <status>ok</status>\n" ++
        ascii "  <output>" ++ result ++ ascii "</output>\n</tool_result>"
    | .native => ascii "Tool '" ++ name ++ ascii "' returned: " ++ result)

/-- The calls of one answer, up to the one the loop guard refuses. -/
def executeToolCalls (setup : TurnSetup) :
    List ParsedToolCall → AgentState → LoopGuard → AgentM (AgentState × LoopGuard × Bool)
  | [], s, g => .ret (s, g, true)
  | c :: calls, s, g =>
      let (g, ok) := loopGuardCheck g (some c.name)
      if ok then do
        let result ← AgentM.executeTool c.name c.arguments
        let s := s.addMessage "tool" (toolMessage setup c.name (CString.cut 8192 result))
        executeToolCalls setup calls { s with toolCallsCount := s.toolCallsCount + 1 } g
      else .ret (s, g, false)

def maxIterations : ℕ := 50

def trippedText (g : LoopGuard) : Bytes :=
  let reason := CString.cut 256 g.reason
  ascii "Loop guard tripped: " ++
    if reason = [] then ascii "repeated or ping-pong tool calls" else reason

def requestCall (setup : TurnSetup) (provider : ProviderType) (model apiKey : Bytes)
    (s : AgentState) : AgentM ChatResponse :=
  match setup.dispatcherType with
  | .xml => .perform (AgentCall.chatCompletion provider model apiKey s.context.messages)
  | .native => .perform (AgentCall.chatWithTools provider model apiKey s.context.messages)

/-- The loop, with the number of rounds left: return value, response and
agent. -/
def thinkLoop (setup : TurnSetup) (provider : ProviderType) (model apiKey : Bytes) (respSize : ℕ) :
    ℕ → AgentState → LoopGuard → AgentM (ℤ × Bytes × AgentState)
  | 0, s, _ => .ret (-1, CString.cut respSize (ascii "Error: Max iterations (50) exceeded"), s)
  | n + 1, s, g => do
      let resp ← requestCall setup provider model apiKey s
      if resp.content = [] then
        .ret (-1, CString.cut respSize (ascii "Error: Failed to get response from provider"), s)
      else if parsedCalls setup resp = [] then
        let response := CString.cut respSize resp.content
        let s := s.addMessage "assistant" response
        .ret (0, response, { s with totalTokens := s.totalTokens + resp.tokensUsed }.trimHistory)
      else do
        AgentM.setApprovalContext
        let (s, g, ok) ← executeToolCalls setup (parsedCalls setup resp) s g
        if ok then thinkLoop setup provider model apiKey respSize n s.trimHistory g
        else .ret (0, CString.cut respSize (trippedText g), s)

/-- `message` is the user's message with the alerts and memories put in front
of it. -/
def agentThinkWithTools (setup : TurnSetup) (s : AgentState) (message : Bytes) (respSize : ℕ) :
    AgentM (ℤ × Bytes × AgentState) := do
  let s := s.addMessage "user" message
  match ← AgentM.getenv "OPENROUTER_API_KEY" with
  | some apiKey =>
      thinkLoop setup .openrouter (ascii "openai/gpt-4o-mini") apiKey respSize maxIterations s .reset
  | none => do
      match ← AgentM.getenv "OPENAI_API_KEY" with
      | some apiKey =>
          thinkLoop setup .openai (ascii "gpt-4o-mini") apiKey respSize maxIterations s .reset
      | none => .ret (-1, CString.cut respSize (ascii
          "Error: No API key configured. Set OPENROUTER_API_KEY or OPENAI_API_KEY"), s)

end DoctorClaw
