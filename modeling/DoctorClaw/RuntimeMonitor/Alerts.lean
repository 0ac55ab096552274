import DoctorClaw.Lib.OffsetWriter
import DoctorClaw.RuntimeMonitor

/-!
# Alerts for the agent

`runtime_monitor_get_recent_for_agent` prints up to ten events behind each
other.  An address was cut to 63 bytes when its event was recorded, so a line
has at most 96 bytes, whatever the monitor has been through.
-/

namespace DoctorClaw

open BufferWriter

/-! ## Every sequence of calls -/

def runtimeMonitorShutdown (m : RuntimeMonitor) : RuntimeMonitor := { m with initialized := false }

def runtimeMonitorSetNotifyUser (m : RuntimeMonitor) (enable : Bool) : RuntimeMonitor :=
  { m with notifyUser := enable }

def runtimeMonitorSetAgentAware (m : RuntimeMonitor) (enable : Bool) : RuntimeMonitor :=
  { m with agentAware := enable }

inductive MonitorCall
  | init
  | shutdown
  | setNotifyUser (enable : Bool)
  | setAgentAware (enable : Bool)
  | event (now : UInt64) (e : EventCall)
  | connection (now later : UInt64) (ip : Bytes)

def RuntimeMonitor.step (m : RuntimeMonitor) : MonitorCall → RuntimeMonitor
  | .init => runtimeMonitorInit m
  | .shutdown => runtimeMonitorShutdown m
  | .setNotifyUser enable => runtimeMonitorSetNotifyUser m enable
  | .setAgentAware enable => runtimeMonitorSetAgentAware m enable
  | .event now e => (runtimeMonitorEvent m now e).1
  | .connection now later ip => (runtimeMonitorConnection m now later ip).1

def monitorRun (calls : List MonitorCall) : RuntimeMonitor :=
  calls.foldl RuntimeMonitor.step runtimeMonitorStatics

/-- No slot of the ring holds a longer address than fits its field. -/
def RuntimeMonitor.ShortAddresses (m : RuntimeMonitor) : Prop :=
  ∀ i, (m.events i).ip.length < runtimeMonitorIpMax

theorem RuntimeMonitor.ShortAddresses.pushEvent {m : RuntimeMonitor} (h : m.ShortAddresses)
    (now : UInt64) (e : EventCall) : (pushEvent m now e).ShortAddresses := by
  intro i
  rw [events_pushEvent]
  by_cases hi : i = m.ring.tail
  · rw [hi, Function.update_self]
    exact CString.length_cut_lt (by decide) _
  · rw [Function.update_of_ne hi]
    exact h i

theorem RuntimeMonitor.ShortAddresses.event {m : RuntimeMonitor} (h : m.ShortAddresses)
    (now : UInt64) (e : EventCall) : (runtimeMonitorEvent m now e).1.ShortAddresses := by
  rw [runtimeMonitorEvent]
  by_cases hm : (!m.initialized) = true
  · rw [if_pos hm]
    exact h
  · rw [if_neg hm]
    exact h.pushEvent now e

theorem RuntimeMonitor.ShortAddresses.step {m : RuntimeMonitor} (h : m.ShortAddresses)
    (call : MonitorCall) : (m.step call).ShortAddresses := by
  cases call with
  | init =>
      rw [RuntimeMonitor.step, runtimeMonitorInit]
      split_ifs
      · exact h
      · exact fun i ↦ Nat.zero_lt_succ _
  | shutdown => exact h
  | setNotifyUser enable => exact h
  | setAgentAware enable => exact h
  | event now e => exact h.event now e
  | connection now later ip =>
      rw [RuntimeMonitor.step, runtimeMonitorConnection]
      split_ifs
      · exact h
      · split
        · next buckets _ =>
            have hbuckets : ({ m with connBuckets := buckets } : RuntimeMonitor).ShortAddresses := h
            exact hbuckets.event later (probeCall ip)
        · exact h
        · exact h

theorem shortAddresses_monitorRun (calls : List MonitorCall) :
    (monitorRun calls).ShortAddresses := by
  have hrun : ∀ (calls : List MonitorCall) (m : RuntimeMonitor), m.ShortAddresses →
      (calls.foldl RuntimeMonitor.step m).ShortAddresses := by
    intro calls
    induction calls with
    | nil => exact fun m h ↦ h
    | cons call calls ih => exact fun m h ↦ ih _ (h.step call)
  exact hrun calls _ fun i ↦ Nat.zero_lt_succ _

/-! ## The text for the agent -/

/-- Hour and minute of a time, where `localtime` knows them. -/
abbrev Localtime := UInt64 → Option (Fin 24 × Fin 60)

def twoDigits (n : ℕ) : Bytes := [UInt8.ofNat (48 + n / 10), UInt8.ofNat (48 + n % 10)]

/-- `strftime` with `"%H:%M"`. -/
def clockText (localtime : Localtime) (timestampSec : UInt64) : Bytes :=
  match localtime timestampSec with
  | some (hour, minute) => twoDigits hour ++ [58] ++ twoDigits minute
  | none => []

def RuntimeMonitorEvent.line (localtime : Localtime) (e : RuntimeMonitorEvent) : Bytes :=
  ascii "[" ++ clockText localtime e.timestampSec ++ ascii "] " ++ eventTypeStr e.type ++
    ascii " from " ++ (if e.ip ≠ [] then e.ip else ascii "?") ++ ascii "; "

/-- The loop over the events, which stops 80 bytes in front of the end. -/
def printEvents (localtime : Localtime) (bufSize : ℕ) :
    List RuntimeMonitorEvent → Writer → Writer
  | [], w => w
  | e :: events, w =>
      if w.pos < sizeSub bufSize 80 then
        printEvents localtime bufSize events (w.printAt bufSize (e.line localtime))
      else w

/-- The buffer when 0 is returned, the offset being its position. -/
def runtimeMonitorGetRecentForAgent (localtime : Localtime) (m : RuntimeMonitor) (buf : Bytes) :
    Option Writer :=
  if buf.length < 128 ∨ !m.agentAware ∨ !m.initialized then none
  else if m.eventCount = 0 then none
  else
    let w := (Writer.start buf).printAt buf.length (ascii "System runtime alerts (recent): ")
    some ((printEvents localtime buf.length (runtimeMonitorGetRecentEvents m 10) w).setHere 0)

theorem length_line_le (localtime : Localtime) {e : RuntimeMonitorEvent}
    (hip : e.ip.length < runtimeMonitorIpMax) : (e.line localtime).length ≤ 96 := by
  have htype : (eventTypeStr e.type).length ≤ 17 := by
    cases e.type <;> decide
  have hclock : (clockText localtime e.timestampSec).length ≤ 5 := by
    unfold clockText
    split
    · exact le_rfl
    · exact Nat.zero_le 5
  have haddress : (if e.ip ≠ [] then e.ip else ascii "?").length ≤ 63 := by
    split_ifs
    · exact Nat.le_of_lt_succ hip
    · decide
  have hliterals : (ascii "[").length = 1 ∧ (ascii "] ").length = 2 ∧
      (ascii " from ").length = 6 ∧ (ascii "; ").length = 2 := by decide
  simp only [RuntimeMonitorEvent.line, List.length_append]
  omega

/-- With room for its lines, the loop prints all of them and is safe. -/
theorem safe_printEvents (localtime : Localtime) {n : ℕ} {events : List RuntimeMonitorEvent}
    {w : Writer} (hw : w.Safe n) (hip : ∀ e ∈ events, e.ip.length < runtimeMonitorIpMax)
    (hroom : w.pos + 96 * events.length < n) :
    (printEvents localtime n events w).Safe n ∧
      (printEvents localtime n events w).pos ≤ w.pos + 96 * events.length := by
  induction events generalizing w with
  | nil => exact ⟨hw, Nat.le_add_right _ _⟩
  | cons e events ih =>
      have hline := length_line_le localtime (hip e List.mem_cons_self)
      rw [List.length_cons] at hroom ⊢
      rw [printEvents]
      split_ifs
      · have hprinted := hw.printAt (by omega) (e.line localtime)
        obtain ⟨hsafe, hpos⟩ := ih hprinted (fun e he ↦ hip e (List.mem_cons_of_mem _ he))
          (by rw [Writer.printAt_pos]; omega)
        rw [Writer.printAt_pos] at hpos
        exact ⟨hsafe, by omega⟩
      · exact ⟨hw, by omega⟩

theorem length_runtimeMonitorGetRecentEvents_le (m : RuntimeMonitor) (maxCount : ℕ) :
    (runtimeMonitorGetRecentEvents m maxCount).length ≤ maxCount := by
  rw [runtimeMonitorGetRecentEvents, List.length_map, List.length_range]
  split_ifs <;> omega

/-- The alerts take at most 992 bytes of their buffer. -/
theorem runtimeMonitorGetRecentForAgent_spec (localtime : Localtime) {m : RuntimeMonitor}
    (h : m.ShortAddresses) {buf : Bytes} (hbuf : 992 < buf.length) {w : Writer}
    (hw : runtimeMonitorGetRecentForAgent localtime m buf = some w) :
    w.Safe buf.length ∧ w.pos ≤ 992 ∧ (CString.ofBuffer w.buffer).length ≤ 992 := by
  rw [runtimeMonitorGetRecentForAgent] at hw
  split_ifs at hw with hoff hempty
  obtain rfl := Option.some.inj hw
  have hhead : (ascii "System runtime alerts (recent): ").length = 32 := by decide
  have hevents := length_runtimeMonitorGetRecentEvents_le m 10
  have hip : ∀ e ∈ runtimeMonitorGetRecentEvents m 10, e.ip.length < runtimeMonitorIpMax := by
    intro e he
    obtain ⟨i, -, rfl⟩ := List.mem_map.mp he
    exact h _
  have hstart : ((Writer.start buf).printAt buf.length
      (ascii "System runtime alerts (recent): ")).Safe buf.length :=
    (Writer.safe_start buf).printAt (Nat.lt_of_le_of_lt (Nat.zero_le _) hbuf) _
  have hpos : ((Writer.start buf).printAt buf.length
      (ascii "System runtime alerts (recent): ")).pos = 32 := by
    rw [Writer.printAt_pos, hhead]
    rfl
  obtain ⟨hsafe, hend⟩ := safe_printEvents localtime hstart hip (by omega)
  have hroom : (printEvents localtime buf.length (runtimeMonitorGetRecentEvents m 10)
      ((Writer.start buf).printAt buf.length (ascii "System runtime alerts (recent): "))).pos ≤
      992 := by omega
  refine ⟨hsafe.setHere (by omega) 0, hroom, ?_⟩
  exact (Writer.length_ofBuffer_setHere_le (by rw [hsafe.length]; omega)).trans hroom

end DoctorClaw
