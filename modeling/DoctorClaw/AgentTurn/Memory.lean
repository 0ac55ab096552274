import DoctorClaw.AgentTurn.Prompt
import DoctorClaw.Lib.Decimal
import DoctorClaw.Lib.LastWrite
import DoctorClaw.Memories

/-!
# What a turn remembers

A turn looks the message up under a key that begins with `recent_`, and stores
it under one that begins with `user_msg_`.  So it never finds what an earlier
turn has stored, which is the last message of each second.
-/

namespace DoctorClaw

open CString UniqueKeys LastWrite

/-- What a turn meets: the alerts, the two times at which it stores the message,
and whether the statements work. -/
structure RememberedTurn where
  localtime : Localtime
  monitor : RuntimeMonitor
  message : Bytes
  keyTime : UInt64
  storeTime : UInt64
  recallWorks : Bool
  storeWorks : Bool

variable (memoryInitialized : Bool) (rows : List MemoryRow)

def agentStoreInMemory (key value : Bytes) (now : UInt64) (works : Bool) : ℤ × List MemoryRow :=
  if !memoryInitialized then (-1, rows) else memoryStore rows (.print key value now []) works

def RememberedTurn.key (turn : RememberedTurn) : Bytes :=
  cut 256 (ascii "user_msg_" ++ Decimal.printNat turn.keyTime.toNat)

def RememberedTurn.sources (turn : RememberedTurn) : PromptSources :=
  ⟨turn.localtime, turn.monitor, memoryInitialized,
    fun key ↦ (memoryRecall rows key turn.recallWorks).map SqliteItem.value⟩

/-- The prompt, and the rows when the model is asked. -/
def RememberedTurn.begin (turn : RememberedTurn) : Bytes × List MemoryRow :=
  (ofBuffer ((turn.sources memoryInitialized rows).enriched turn.message).buffer,
    if memoryInitialized then
      (agentStoreInMemory memoryInitialized rows turn.key turn.message turn.storeTime
        turn.storeWorks).2
    else rows)

def beginTurns : List RememberedTurn → List MemoryRow → List Bytes × List MemoryRow
  | [], rows => ([], rows)
  | turn :: turns, rows =>
      let began := turn.begin memoryInitialized rows
      let rest := beginTurns turns began.2
      (began.1 :: rest.1, rest.2)

/-- The item that a turn stores. -/
def RememberedTurn.item (turn : RememberedTurn) : SqliteItem :=
  .print turn.key turn.message turn.storeTime []

/-- What a turn stores under a key. -/
def RememberedTurn.storedAs (key : Bytes) (turn : RememberedTurn) : Option SqliteItem :=
  if turn.storeWorks ∧ turn.key = key then some turn.item else none

variable {memoryInitialized rows} {m : Memories}

/-- No row can be found by a turn. -/
def Unrecalled (rows : List MemoryRow) : Prop := ∀ row ∈ rows, ¬ ascii "recent_" <+: row.key

theorem prefix_cut {w : Bytes} {n : ℕ} (hw : w.length < n) (s : Bytes) : w <+: cut n (w ++ s) := by
  rw [cut, List.take_append, List.take_of_length_le (by omega)]
  exact List.prefix_append _ _

theorem RememberedTurn.item_key (turn : RememberedTurn) : turn.item.key = turn.key :=
  cut_of_lt (length_cut_lt (by decide) _)

theorem RememberedTurn.begin_rows (turn : RememberedTurn) (rows : List MemoryRow) :
    (turn.begin true rows).2 =
      if turn.storeWorks then replace MemoryRow.key rows turn.item.row else rows := by
  change (memoryStore rows turn.item turn.storeWorks).2 = _
  rw [memoryStore]
  split_ifs
  · rfl
  · rfl

theorem Unrecalled.begin (h : Unrecalled rows) (turn : RememberedTurn) :
    Unrecalled (turn.begin true rows).2 := by
  rw [turn.begin_rows]
  split_ifs
  · intro row hrow hrecent
    rcases List.mem_append.mp hrow with hrow | hrow
    · exact h row (List.mem_of_mem_filter hrow) hrecent
    · obtain rfl := List.mem_singleton.mp hrow
      rw [SqliteItem.row_key, turn.item_key] at hrecent
      have huser : ascii "user_msg_" <+: turn.key := prefix_cut (by decide) _
      have hboth := List.prefix_of_prefix_length_le hrecent huser (by decide)
      exact absurd hboth (by decide)
  · exact h

theorem Unrecalled.memoryContext (h : Unrecalled rows) (turn : RememberedTurn) :
    (turn.sources true rows).memoryContext turn.message = [] := by
  have hnone : memoryRecall rows (cut 256 (ascii "recent_" ++ turn.message)) turn.recallWorks =
      none := by
    rw [memoryRecall]
    split_ifs
    · have hlookup : lookup MemoryRow.key rows (cut 256 (ascii "recent_" ++ turn.message)) =
          none := by
        rw [lookup_eq_none_iff]
        rintro row hrow heq
        apply h row hrow
        rw [heq]
        exact prefix_cut (by decide) _
      rw [hlookup]
      rfl
    · rfl
  simp only [PromptSources.memoryContext, RememberedTurn.sources, agentLoadMemoryContext, hnone,
    Bool.not_true, Bool.false_eq_true, if_false, Option.map_none]
  generalize zeroBuffer memoryContextSize = buffer
  cases buffer with
  | nil => rfl
  | cons c buffer => rfl

theorem runtimeAlerts_congr {sources sources' : PromptSources}
    (hlocaltime : sources.localtime = sources'.localtime)
    (hmonitor : sources.monitor = sources'.monitor) :
    sources.runtimeAlerts = sources'.runtimeAlerts := by
  unfold PromptSources.runtimeAlerts
  rw [hlocaltime, hmonitor]

/-- The prompt of a turn is the one of an agent without a memory. -/
theorem Unrecalled.prompt_eq (h : Unrecalled rows) (turn : RememberedTurn)
    (rows' : List MemoryRow) : (turn.begin true rows).1 = (turn.begin false rows').1 := by
  have hcontext : (turn.sources false rows').memoryContext turn.message = [] := by
    simp only [PromptSources.memoryContext, RememberedTurn.sources, agentLoadMemoryContext,
      Bool.not_false, if_true]
  have halerts : (turn.sources true rows).runtimeAlerts =
      (turn.sources false rows').runtimeAlerts := runtimeAlerts_congr rfl rfl
  simp only [RememberedTurn.begin, PromptSources.enriched, h.memoryContext, hcontext, halerts]

theorem Unrecalled.prompts_eq (h : Unrecalled rows) (turns : List RememberedTurn)
    (rows' : List MemoryRow) :
    (beginTurns true turns rows).1 = (beginTurns false turns rows').1 := by
  induction turns generalizing rows rows' with
  | nil => rfl
  | cons turn turns ih =>
      exact congrArg₂ List.cons (h.prompt_eq turn rows')
        (ih (h.begin turn) (turn.begin false rows').2)

theorem Holds.beginTurns (h : Holds rows m) (turns : List RememberedTurn) :
    Holds (beginTurns true turns rows).2 fun key ↦
      (lastWrite (RememberedTurn.storedAs key) turns).or (m key) := by
  induction turns generalizing rows m with
  | nil => exact h
  | cons turn turns ih =>
      rw [DoctorClaw.beginTurns, turn.begin_rows]
      simp only [lastWrite_cons, Option.or_assoc]
      by_cases hworks : turn.storeWorks = true
      · rw [if_pos hworks]
        have hstored := ih (h.store turn.item)
        rw [turn.item_key] at hstored
        convert hstored using 3 with key
        by_cases hkey : turn.key = key
        · subst hkey
          simp [RememberedTurn.storedAs, hworks]
        · simp [RememberedTurn.storedAs, hkey, Function.update_of_ne (Ne.symm hkey)]
      · rw [if_neg hworks]
        have hkept := ih h
        simpa [RememberedTurn.storedAs, hworks] using hkept

/-- Of a memory that no turn can find anything in at first, none ever does: the
prompts of all turns are those of an agent without a memory.  Meanwhile the
memory keeps the message of the last turn of each second. -/
theorem agent_memory_never_shows (h : Holds rows m) (hunrecalled : Unrecalled rows)
    (turns : List RememberedTurn) :
    (beginTurns true turns rows).1 = (beginTurns false turns []).1 ∧
      ∀ key, memoryRecall (beginTurns true turns rows).2 key true =
        (lastWrite (RememberedTurn.storedAs key) turns).or (m key) :=
  ⟨hunrecalled.prompts_eq turns [], (h.beginTurns turns).memoryRecall_eq⟩

def turnOf (message : Bytes) : RememberedTurn :=
  ⟨fun _ ↦ none, monitorRun [], message, 5, 5, true, true⟩

/-- Two messages of one second. -/
theorem agent_memory_never_shows_same_second :
    (beginTurns true [turnOf (ascii "hi"), turnOf (ascii "yo")] []).1 =
        (beginTurns false [turnOf (ascii "hi"), turnOf (ascii "yo")] []).1 ∧
      memoryRecall (beginTurns true [turnOf (ascii "hi"), turnOf (ascii "yo")] []).2
          (ascii "user_msg_5") true =
        some (.print (ascii "user_msg_5") (ascii "yo") 5 []) := by
  obtain ⟨hprompts, hrecall⟩ := agent_memory_never_shows holds_nil
    (fun _ h ↦ absurd h List.not_mem_nil) [turnOf (ascii "hi"), turnOf (ascii "yo")]
  refine ⟨hprompts, (hrecall (ascii "user_msg_5")).trans ?_⟩
  decide +kernel

end DoctorClaw
