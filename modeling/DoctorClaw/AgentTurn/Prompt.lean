import DoctorClaw.RuntimeMonitor.Alerts

/-!
# The prompt of a turn

At the start of `agent_think_with_tools` the alerts of the runtime monitor and
what the memory recalls are printed in front of the message of the user.  Each
of the three buffers is filled by offsets that move by whole lengths, so they
hold only because of what can be printed into them: an item of the memory is
skipped when it does not fit, and alerts and memory together leave room in the
last buffer.
-/

namespace DoctorClaw

open BufferWriter

def memoryContextSize : ℕ := 4096

def runtimeMonitorAgentBuf : ℕ := 4096

def enrichedMessageSize : ℕ := 8192

/-- A buffer that was initialised with zeros. -/
def zeroBuffer (size : ℕ) : Bytes := List.replicate size 0

/-! ## The memory -/

/-- The loop over the values of the items. -/
def printItems (contextSize : ℕ) : List Bytes → Writer → Writer
  | [], w => w
  | value :: values, w =>
      if value = [] then w
      else if w.pos + value.length + 10 < contextSize then
        printItems contextSize values
          (w.printAt contextSize (ascii "- " ++ value ++ ascii "\n"))
      else printItems contextSize values w

/-- The context when 0 is returned, the offset being its position.  `memoryRecall` is
`memory_recall` for a key: the value of the item where it returns 0.  Only the
first of five items is filled. -/
def agentLoadMemoryContext (memoryInitialized : Bool) (memoryRecall : Bytes → Option Bytes)
    (userMessage context : Bytes) : Option Writer :=
  if !memoryInitialized then none
  else
    let cleared := (Writer.start context).setHere 0
    let searchQuery := CString.cut 256 (ascii "recent_" ++ userMessage)
    match memoryRecall searchQuery with
    | none => some cleared
    | some value =>
        if value = [] then some cleared
        else
          let w := cleared.printAt context.length (ascii "Relevant context:\n")
          some (printItems context.length (value :: List.replicate 4 []) w)

theorem safe_printItems {n : ℕ} (values : List Bytes) {w : Writer} (hw : w.Safe n)
    (hpos : w.pos < n) : (printItems n values w).Safe n ∧ (printItems n values w).pos < n := by
  induction values generalizing w with
  | nil => exact ⟨hw, hpos⟩
  | cons value values ih =>
      have hdash : (ascii "- ").length = 2 := by decide
      have hnewline : (ascii "\n").length = 1 := by decide
      rw [printItems]
      split_ifs with hempty hfits
      · exact ⟨hw, hpos⟩
      · apply ih (hw.printAt hpos _)
        rw [Writer.printAt_pos, List.length_append, List.length_append]
        omega
      · exact ih hw hpos

theorem agentLoadMemoryContext_spec {memoryInitialized : Bool} {memoryRecall : Bytes → Option Bytes}
    {userMessage context : Bytes} (hcontext : 18 < context.length) {w : Writer}
    (hw : agentLoadMemoryContext memoryInitialized memoryRecall userMessage context = some w) :
    w.Safe context.length ∧ w.pos < context.length := by
  have hempty : 0 < context.length := Nat.zero_lt_of_lt hcontext
  have hcleared : ((Writer.start context).setHere 0).Safe context.length :=
    (Writer.safe_start context).setHere hempty 0
  have hhead : (ascii "Relevant context:\n").length = 18 := by decide
  rw [agentLoadMemoryContext] at hw
  split_ifs at hw with hoff
  dsimp only at hw
  split at hw
  · obtain rfl := Option.some.inj hw
    exact ⟨hcleared, hempty⟩
  · split_ifs at hw with hvalue
    · obtain rfl := Option.some.inj hw
      exact ⟨hcleared, hempty⟩
    · obtain rfl := Option.some.inj hw
      apply safe_printItems _ (hcleared.printAt hempty _)
      rw [Writer.printAt_pos, hhead]
      change 0 + 18 < context.length
      omega

/-! ## The message -/

/-- Alerts and memory, which stand in front of the message. -/
def promptHead (runtimeAlerts memoryContext : Bytes) : Writer :=
  let w := Writer.start (zeroBuffer enrichedMessageSize)
  let w := if runtimeAlerts ≠ [] then
      w.printAt enrichedMessageSize (runtimeAlerts ++ ascii "\n\n")
    else w
  if memoryContext ≠ [] then
    w.printAt enrichedMessageSize
      (ascii "Relevant memory context:\n" ++ memoryContext ++ ascii "\n\n")
  else w

def enrichedMessage (runtimeAlerts memoryContext userMessage : Bytes) : Writer :=
  let head := promptHead runtimeAlerts memoryContext
  if 0 < head.pos then head.printAt enrichedMessageSize userMessage else head

/-- What the turn starts with. -/
structure PromptSources where
  localtime : Localtime
  monitor : RuntimeMonitor
  memoryInitialized : Bool
  memoryRecall : Bytes → Option Bytes

def PromptSources.runtimeAlerts (sources : PromptSources) : Bytes :=
  match runtimeMonitorGetRecentForAgent sources.localtime sources.monitor
    (zeroBuffer runtimeMonitorAgentBuf) with
  | some w => CString.ofBuffer w.buffer
  | none => []

def PromptSources.memoryContext (sources : PromptSources) (userMessage : Bytes) : Bytes :=
  match agentLoadMemoryContext sources.memoryInitialized sources.memoryRecall userMessage
    (zeroBuffer memoryContextSize) with
  | some w => CString.ofBuffer w.buffer
  | none => []

def PromptSources.enriched (sources : PromptSources) (userMessage : Bytes) : Writer :=
  enrichedMessage sources.runtimeAlerts (sources.memoryContext userMessage) userMessage

theorem length_zeroBuffer (size : ℕ) : (zeroBuffer size).length = size := List.length_replicate

theorem length_runtimeAlerts_le {sources : PromptSources} (h : sources.monitor.ShortAddresses) :
    sources.runtimeAlerts.length ≤ 992 := by
  have hbuf : 992 < (zeroBuffer runtimeMonitorAgentBuf).length := by
    rw [length_zeroBuffer, runtimeMonitorAgentBuf]
    omega
  unfold PromptSources.runtimeAlerts
  generalize zeroBuffer runtimeMonitorAgentBuf = buf at hbuf
  split
  · next w hw => exact (runtimeMonitorGetRecentForAgent_spec sources.localtime h hbuf hw).2.2
  · exact Nat.zero_le _

theorem length_memoryContext_le (sources : PromptSources) (userMessage : Bytes) :
    (sources.memoryContext userMessage).length ≤ memoryContextSize := by
  rw [PromptSources.memoryContext]
  split
  · next w hw =>
      have hcontext : 18 < (zeroBuffer memoryContextSize).length := by
        rw [length_zeroBuffer, memoryContextSize]
        omega
      have hlen := (agentLoadMemoryContext_spec hcontext hw).1.length
      rw [length_zeroBuffer] at hlen
      exact (List.takeWhile_sublist _).length_le.trans hlen.le
  · exact Nat.zero_le _

/-- A part that is left out when it is empty. -/
theorem safe_printUnlessEmpty {n k : ℕ} {w : Writer} {part text : Bytes} (hw : w.Safe n)
    (hlen : text.length ≤ k) (hroom : w.pos + k < n) :
    (if part ≠ [] then w.printAt n text else w).Safe n ∧
      (if part ≠ [] then w.printAt n text else w).pos ≤ w.pos + k := by
  split_ifs
  · refine ⟨hw.printAt (by omega) text, ?_⟩
    rw [Writer.printAt_pos]
    omega
  · exact ⟨hw, Nat.le_add_right _ _⟩

theorem safe_promptHead {runtimeAlerts memoryContext : Bytes} (halerts : runtimeAlerts.length ≤ 992)
    (hmemory : memoryContext.length ≤ memoryContextSize) :
    (promptHead runtimeAlerts memoryContext).Safe enrichedMessageSize ∧
      (promptHead runtimeAlerts memoryContext).pos < enrichedMessageSize := by
  have hstart : (Writer.start (zeroBuffer enrichedMessageSize)).Safe enrichedMessageSize := by
    have hsafe := Writer.safe_start (zeroBuffer enrichedMessageSize)
    rwa [length_zeroBuffer] at hsafe
  have hzero : (Writer.start (zeroBuffer enrichedMessageSize)).pos = 0 := rfl
  have hblank : (ascii "\n\n").length = 2 := by decide
  have htitle : (ascii "Relevant memory context:\n").length = 25 := by decide
  have hsize : enrichedMessageSize = 8192 := rfl
  have hcontext : memoryContextSize = 4096 := rfl
  have hfirst : (runtimeAlerts ++ ascii "\n\n").length ≤ 994 := by
    rw [List.length_append]
    omega
  have hsecond : (ascii "Relevant memory context:\n" ++ memoryContext ++ ascii "\n\n").length ≤
      4123 := by
    rw [List.length_append, List.length_append]
    omega
  obtain ⟨hsafe, hpos⟩ := safe_printUnlessEmpty hstart hfirst (by omega)
  obtain ⟨hsafe', hpos'⟩ := safe_printUnlessEmpty hsafe hsecond (by omega)
  exact ⟨hsafe', Nat.lt_of_le_of_lt hpos' (by omega)⟩

theorem safe_enrichedMessage {runtimeAlerts memoryContext : Bytes}
    (halerts : runtimeAlerts.length ≤ 992) (hmemory : memoryContext.length ≤ memoryContextSize)
    (userMessage : Bytes) :
    (enrichedMessage runtimeAlerts memoryContext userMessage).Safe enrichedMessageSize := by
  obtain ⟨hsafe, hpos⟩ := safe_promptHead halerts hmemory
  rw [enrichedMessage]
  split_ifs
  · exact hsafe.printAt hpos userMessage
  · exact hsafe

/-- Whatever the monitor has recorded and the memory recalls, the prompt is put
together inside of its buffers: no offset that something is printed at is
behind the end, however long the message is. -/
theorem prompt_stays_in_buffers (calls : List MonitorCall) (localtime : Localtime)
    (memoryInitialized : Bool) (memoryRecall : Bytes → Option Bytes) (userMessage : Bytes) :
    (∀ w, runtimeMonitorGetRecentForAgent localtime (monitorRun calls) (zeroBuffer 4096) = some w →
      w.Safe 4096 ∧ w.pos < 4096) ∧
    (∀ w, agentLoadMemoryContext memoryInitialized memoryRecall userMessage (zeroBuffer 4096) =
        some w → w.Safe 4096 ∧ w.pos < 4096) ∧
    (PromptSources.enriched ⟨localtime, monitorRun calls, memoryInitialized, memoryRecall⟩
      userMessage).Safe 8192 := by
  have hshort := shortAddresses_monitorRun calls
  have hlen : (zeroBuffer 4096).length = 4096 := length_zeroBuffer 4096
  refine ⟨fun w hw ↦ ?_, fun w hw ↦ ?_, ?_⟩
  · obtain ⟨hsafe, hpos, -⟩ := runtimeMonitorGetRecentForAgent_spec localtime hshort (by omega) hw
    exact ⟨hlen ▸ hsafe, by omega⟩
  · obtain ⟨hsafe, hpos⟩ := agentLoadMemoryContext_spec (by omega) hw
    exact ⟨hlen ▸ hsafe, by omega⟩
  · exact safe_enrichedMessage (length_runtimeAlerts_le hshort)
      (length_memoryContext_le _ userMessage) userMessage

end DoctorClaw
