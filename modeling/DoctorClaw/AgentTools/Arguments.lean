import DoctorClaw.Tools.Execute
import Mathlib.Data.List.Nodup

/-!
# Arguments of a tool call

`agent_execute_tool_by_name` takes the arguments of a call apart with `sscanf`
and prints them anew for `tools_execute`.  The formats allow no white space
and no member in front of the ones they name.
-/

namespace DoctorClaw

open Interaction

/-! ## The agent -/

/-- A conversion `%width[^"]` behind literal text: the value, which is not
empty, and the rest of the input. -/
def scanString (literal : Bytes) (width : ℕ) (s : Bytes) : Option (Bytes × Bytes) :=
  if literal <+: s then
    let rest := s.drop literal.length
    let value := (rest.takeWhile (· ≠ 34)).take width
    if value = [] then none else some (value, rest.drop value.length)
  else none

def opening (key : Bytes) : Bytes := [123, 34] ++ key ++ [34, 58, 34]

def oneArgument (name key : String) (width : ℕ) (error : String) (args : Bytes) :
    Except Bytes (Bytes × Bytes) :=
  match scanString (opening (ascii key)) width args with
  | some (value, _) => .ok (ascii name, value)
  | none => .error (ascii error)

def storeCmd (key value : Bytes) : Bytes :=
  CString.cut 4608 (ascii "\x7b\"key\":\"" ++ key ++ ascii "\",\"value\":\"" ++ value ++
    ascii "\"\x7d")

/-- What the agent hands to `tools_execute`, or the error it answers with. -/
def agentToolCall (name args : Bytes) : Except Bytes (Bytes × Bytes) :=
  if name = ascii "shell" then
    oneArgument "shell" "command" 1023 "Error: Could not parse shell command" args
  else if name = ascii "zsh" then
    oneArgument "zsh" "command" 1023 "Error: Could not parse zsh command" args
  else if name = ascii "network" then
    oneArgument "network" "command" 1023 "Error: Could not parse network command" args
  else if name = ascii "read_file" then
    oneArgument "read_file" "path" 1023 "Error: Could not parse file path" args
  else if name = ascii "http_get" then
    oneArgument "http_get" "url" 2047 "Error: Could not parse URL" args
  else if name = ascii "memory_store" then
    match scanString (opening (ascii "key")) 255 args with
    | some (key, rest) =>
      match scanString (ascii "\",\"value\":\"") 4095 rest with
      | some (value, _) => .ok (ascii "memory_store", storeCmd key value)
      | none => .error (ascii "Error: Could not parse memory store args")
    | none => .error (ascii "Error: Could not parse memory store args")
  else if name = ascii "memory_recall" then
    oneArgument "memory_recall" "query" 1023 "Error: Could not parse memory recall query" args
  else .error (ascii "Error: Unknown tool '" ++ name ++ ascii "'")

def toolText (tr : ToolResult) : Bytes :=
  if tr.result ≠ [] then tr.result
  else if tr.error ≠ [] then ascii "Error: " ++ tr.error
  else ascii "Tool executed successfully"

/-- Whether 0 was returned, and the text left in a buffer of `size` bytes. -/
def agentExecuteToolByName (libc : Libc) (g : ToolState) (name args : Bytes) (size : ℕ) :
    ToolM (Bool × Bytes) :=
  match agentToolCall name args with
  | .error text => .ret (false, CString.cut size text)
  | .ok (tool, params) => do
      let outcome ← toolsExecute libc g tool params
      return (true, CString.cut size (toolText outcome.2))

/-! ## What is offered -/

inductive DefaultTool
  | shell | zsh | network | readFile | httpGet | memoryStore | memoryRecall
  deriving DecidableEq

namespace DefaultTool

def name : DefaultTool → Bytes
  | shell => ascii "shell"
  | zsh => ascii "zsh"
  | network => ascii "network"
  | readFile => ascii "read_file"
  | httpGet => ascii "http_get"
  | memoryStore => ascii "memory_store"
  | memoryRecall => ascii "memory_recall"

/-- The required properties, all of them strings, with the sizes of the
buffers they are scanned into. -/
def params : DefaultTool → List (String × ℕ)
  | shell => [("command", 1024)]
  | zsh => [("command", 1024)]
  | network => [("command", 1024)]
  | readFile => [("path", 1024)]
  | httpGet => [("url", 2048)]
  | memoryStore => [("key", 256), ("value", 4096)]
  | memoryRecall => [("query", 1024)]

def tool : DefaultTool → Tool
  | shell => .shell
  | zsh => .zsh
  | network => .network
  | readFile => .fileRead
  | httpGet => .httpRequest
  | memoryStore => .memoryStore
  | memoryRecall => .memoryRecall

end DefaultTool

def isBlank (c : UInt8) : Bool := c == 32 || c == 9 || c == 10 || c == 13

/-- A member of an object, with the white space around its tokens. -/
structure Member where
  key : Bytes
  value : Bytes
  lead : Bytes
  afterKey : Bytes
  beforeValue : Bytes
  trail : Bytes
  key_plain : ∀ c ∈ key, c ∉ ([34, 92] : Bytes)
  value_plain : ∀ c ∈ value, c ∉ ([34, 92] : Bytes)
  blank : ∀ c ∈ lead ++ afterKey ++ beforeValue ++ trail, isBlank c = true

def Member.render (m : Member) : Bytes :=
  m.lead ++ 34 :: (m.key ++ 34 :: (m.afterKey ++ 58 :: (m.beforeValue ++ 34 :: (m.value ++
    34 :: m.trail))))

def renderMembers : List Member → Bytes
  | [] => []
  | [m] => m.render
  | m :: ms => m.render ++ 44 :: renderMembers ms

structure ArgsObject where
  before : Bytes
  members : List Member
  after : Bytes
  blank : ∀ c ∈ before ++ after, isBlank c = true
  keys_nodup : (members.map Member.key).Nodup

namespace ArgsObject

def render (o : ArgsObject) : Bytes :=
  o.before ++ 123 :: (renderMembers o.members ++ 125 :: o.after)

def value (o : ArgsObject) (key : Bytes) : Bytes :=
  ((o.members.find? fun m ↦ m.key = key).map Member.value).getD []

/-- All that is required is there and fits into its buffer. -/
def Satisfies (o : ArgsObject) (t : DefaultTool) : Prop :=
  ∀ p ∈ t.params, ∃ m ∈ o.members, m.key = ascii p.1 ∧ m.value.length < p.2

def values (o : ArgsObject) (t : DefaultTool) : List Bytes :=
  t.params.map fun p ↦ o.value (ascii p.1)

end ArgsObject

/-! ## Scanning an object -/

theorem blank_eq_nil {ws rest : Bytes} {c : UInt8} {t : Bytes} (hws : ∀ b ∈ ws, isBlank b = true)
    (hc : isBlank c = false) (h : c :: t <+: ws ++ rest) : ws = [] := by
  cases ws with
  | nil => rfl
  | cons b ws =>
      obtain rfl := (List.cons_prefix_cons.mp h).1
      simp [hc] at hws

theorem Member.of_opening {m : Member} {key rest : Bytes} (hkey : (34 : UInt8) ∉ key)
    (h : 34 :: (key ++ [34, 58, 34]) <+: m.render ++ rest) :
    m.key = key ∧ m.render ++ rest =
      34 :: (key ++ [34, 58, 34]) ++ (m.value ++ 34 :: (m.trail ++ rest)) := by
  have hblank (ws : Bytes) (hws : ws ⊆ m.lead ++ m.afterKey ++ m.beforeValue ++ m.trail) :
      ∀ b ∈ ws, isBlank b = true := fun b hb ↦ m.blank b (hws hb)
  have hplain : (34 : UInt8) ∉ m.key := fun hmem ↦ m.key_plain _ hmem (by decide)
  simp only [Member.render, List.append_assoc, List.cons_append] at h
  have hlead : m.lead = [] := blank_eq_nil (hblank _ (by intro b hb; simp [hb])) rfl h
  rw [hlead, List.nil_append] at h
  have hrest := (List.cons_prefix_cons.mp h).2
  have heq : key = m.key := by
    refine CString.eq_of_quoted_prefix hkey hplain (List.IsPrefix.trans ?_ hrest)
    exact ⟨[58, 34], by simp⟩
  rw [← heq, List.prefix_append_right_inj] at hrest
  have hcolon := (List.cons_prefix_cons.mp hrest).2
  have hafter : m.afterKey = [] := blank_eq_nil (hblank _ (by intro b hb; simp [hb])) rfl hcolon
  rw [hafter, List.nil_append] at hcolon
  have hquote := (List.cons_prefix_cons.mp hcolon).2
  have hbefore : m.beforeValue = [] := blank_eq_nil (hblank _ (by intro b hb; simp [hb])) rfl hquote
  refine ⟨heq.symm, ?_⟩
  simp [Member.render, hlead, hafter, hbefore, heq]

def ArgsObject.tail (o : ArgsObject) : Bytes :=
  match o.members with
  | [] => []
  | [_] => 125 :: o.after
  | _ :: ms => 44 :: (renderMembers ms ++ 125 :: o.after)

theorem ArgsObject.render_cons {o : ArgsObject} {m : Member} {ms : List Member}
    (h : o.members = m :: ms) : o.render = o.before ++ 123 :: (m.render ++ o.tail) := by
  cases ms <;> simp [ArgsObject.render, ArgsObject.tail, h, renderMembers]

theorem ArgsObject.of_opening {o : ArgsObject} {key : Bytes} (hkey : (34 : UInt8) ∉ key)
    (h : opening key <+: o.render) :
    ∃ m ms, o.members = m :: ms ∧ m.key = key ∧
      o.render = opening key ++ (m.value ++ 34 :: (m.trail ++ o.tail)) := by
  cases hms : o.members with
  | nil =>
      have hempty : o.render = o.before ++ 123 :: 125 :: o.after := by
        simp [ArgsObject.render, hms, renderMembers]
      rw [hempty] at h
      have hbefore : o.before = [] :=
        blank_eq_nil (fun b hb ↦ o.blank b (by simp [hb])) rfl h
      rw [hbefore, List.nil_append] at h
      have hbrace := (List.cons_prefix_cons.mp (List.cons_prefix_cons.mp h).2).1
      cases hbrace
  | cons m ms =>
      rw [ArgsObject.render_cons hms] at h ⊢
      have hbefore : o.before = [] :=
        blank_eq_nil (fun b hb ↦ o.blank b (by simp [hb])) rfl h
      rw [hbefore, List.nil_append] at h ⊢
      have hmember := Member.of_opening hkey (List.cons_prefix_cons.mp h).2
      refine ⟨m, ms, rfl, hmember.1, ?_⟩
      rw [hmember.2]
      rfl

theorem ArgsObject.value_cons {o : ArgsObject} {m : Member} {ms : List Member}
    (h : o.members = m :: ms) : o.value m.key = m.value := by
  simp [ArgsObject.value, h]

theorem ArgsObject.Satisfies.length_lt {o : ArgsObject} {t : DefaultTool} (h : o.Satisfies t)
    {p : String × ℕ} (hp : p ∈ t.params) {m : Member} (hm : m ∈ o.members)
    (hkey : m.key = ascii p.1) : m.value.length < p.2 := by
  obtain ⟨m', hm', hkey', hlen⟩ := h p hp
  have hsame : m = m' :=
    List.inj_on_of_nodup_map o.keys_nodup hm hm' (hkey.trans hkey'.symm)
  rw [hsame]
  exact hlen

theorem Member.value_noquote (m : Member) : (34 : UInt8) ∉ m.value := fun h ↦
  m.value_plain _ h (by decide)

theorem scanString_value {literal v rest : Bytes} {width : ℕ} (hv : (34 : UInt8) ∉ v)
    (hlen : v.length ≤ width) :
    scanString literal width (literal ++ (v ++ 34 :: rest)) =
      if v = [] then none else some (v, 34 :: rest) := by
  have htake : ((v ++ 34 :: rest).takeWhile (· ≠ 34)).take width = v := by
    rw [CString.takeWhile_ne_append hv, List.take_of_length_le hlen]
  simp only [scanString, List.prefix_append, if_true, List.drop_left, htake]

theorem scanString_opening {o : ArgsObject} {t : DefaultTool} (hsat : o.Satisfies t) {key : String}
    {size : ℕ} (hp : (key, size + 1) ∈ t.params) (hkey : (34 : UInt8) ∉ ascii key) :
    (scanString (opening (ascii key)) size o.render).map Prod.fst =
      if opening (ascii key) <+: o.render ∧ o.value (ascii key) ≠ [] then some (o.value (ascii key))
      else none := by
  by_cases hopen : opening (ascii key) <+: o.render
  · obtain ⟨m, ms, hms, hmkey, hrender⟩ := ArgsObject.of_opening hkey hopen
    have hlen := hsat.length_lt hp (hms ▸ List.mem_cons_self) hmkey
    have hvalue : o.value (ascii key) = m.value := hmkey ▸ ArgsObject.value_cons hms
    have hscan : scanString (opening (ascii key)) size o.render =
        if m.value = [] then none else some (m.value, 34 :: (m.trail ++ o.tail)) := by
      rw [hrender]
      exact scanString_value m.value_noquote (Nat.le_of_lt_succ hlen)
    rw [hscan, hvalue]
    by_cases hnil : m.value = [] <;> simp [hnil, hopen]
  · simp [scanString, hopen]

end DoctorClaw
