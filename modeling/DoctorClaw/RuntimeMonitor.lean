import DoctorClaw.Lib.CString
import DoctorClaw.Lib.IdleRuns
import DoctorClaw.Lib.RingBuffer
import Mathlib.Data.Finset.Card

/-!
# The runtime monitor

The monitor keeps the newest 32 events in a ring and one connection counter
for each of up to 64 addresses.  Every call reads the clock; the reading is an
argument here.  `runtime_monitor_connection` reads it twice, once for the
counter and once more for the event it may raise.

An event is recorded and, if the user is to be notified, an alert is handed to
the channels.  Both are returned as a notice.
-/

namespace DoctorClaw

inductive RuntimeEventType
  | securityReject
  | rateLimit
  | injection
  | pathTraversal
  | portProbe
  | error
  | other
  deriving DecidableEq

def eventTypeStr : RuntimeEventType → Bytes
  | .securityReject => ascii "Security reject"
  | .rateLimit => ascii "Rate limit"
  | .injection => ascii "Injection attempt"
  | .pathTraversal => ascii "Path traversal"
  | .portProbe => ascii "Port probe"
  | .error => ascii "Error"
  | .other => ascii "Event"

structure RuntimeMonitorEvent where
  type : RuntimeEventType
  source : Bytes
  ip : Bytes
  details : Bytes
  timestampSec : UInt64
  deriving DecidableEq

structure ConnectionBucket where
  ip : Bytes
  lastSeenSec : UInt64
  count : ℕ
  deriving DecidableEq

def runtimeMonitorEventMax : ℕ := 32

def runtimeMonitorIpMax : ℕ := 64

def runtimeMonitorDetailMax : ℕ := 256

def connectionWindowSec : UInt64 := 60

def connectionProbeThreshold : ℕ := 25

def connectionIpsMax : ℕ := 64

/-- `events` is read below `runtimeMonitorEventMax` only, and `connBuckets`
are the buckets in use. -/
structure RuntimeMonitor where
  events : ℕ → RuntimeMonitorEvent
  eventHead : ℕ
  eventCount : ℕ
  connBuckets : List ConnectionBucket
  notifyUser : Bool
  agentAware : Bool
  initialized : Bool

def runtimeMonitorInit (m : RuntimeMonitor) : RuntimeMonitor :=
  if m.initialized then m
  else
    { events := fun _ ↦ ⟨.securityReject, [], [], [], 0⟩
      eventHead := 0
      eventCount := 0
      connBuckets := []
      notifyUser := true
      agentAware := true
      initialized := true }

/-- The statics of the process before the first call. -/
def runtimeMonitorStatics : RuntimeMonitor where
  events := fun _ ↦ ⟨.securityReject, [], [], [], 0⟩
  eventHead := 0
  eventCount := 0
  connBuckets := []
  notifyUser := true
  agentAware := true
  initialized := false

/-! ## Events -/

/-- The arguments of `runtime_monitor_event`; a null pointer is `none`. -/
structure EventCall where
  type : RuntimeEventType
  source : Option Bytes
  ip : Option Bytes
  details : Option Bytes

def EventCall.record (e : EventCall) (now : UInt64) : RuntimeMonitorEvent where
  type := e.type
  source := CString.cut 64 (e.source.getD [])
  ip := CString.cut runtimeMonitorIpMax (e.ip.getD [])
  details := CString.cut runtimeMonitorDetailMax (e.details.getD [])
  timestampSec := now

def pushEvent (m : RuntimeMonitor) (now : UInt64) (e : EventCall) : RuntimeMonitor :=
  let idx := (m.eventHead + m.eventCount) % runtimeMonitorEventMax
  let m := if runtimeMonitorEventMax ≤ m.eventCount then
      { m with
        eventHead := (m.eventHead + 1) % runtimeMonitorEventMax
        eventCount := m.eventCount - 1 }
    else m
  { m with
    events := Function.update m.events idx (e.record now)
    eventCount := m.eventCount + 1 }

structure Notice where
  event : RuntimeMonitorEvent
  alert : Option Bytes

def EventCall.alert (e : EventCall) : Bytes :=
  let ip := e.ip.getD []
  CString.cut 512 (ascii "⚠️ Doctor Claw: " ++ eventTypeStr e.type ++ ascii "\nFrom: " ++
    (if ip ≠ [] then ip else ascii "unknown") ++ ascii "\n" ++ e.details.getD [])

def runtimeMonitorEvent (m : RuntimeMonitor) (now : UInt64) (e : EventCall) :
    RuntimeMonitor × List Notice :=
  if !m.initialized then (m, [])
  else (pushEvent m now e, [⟨e.record now, if m.notifyUser then some e.alert else none⟩])

def runtimeMonitorGetRecentEvents (m : RuntimeMonitor) (maxCount : ℕ) : List RuntimeMonitorEvent :=
  let n := if m.eventCount < maxCount then m.eventCount else maxCount
  (List.range n).map fun i ↦
    m.events ((m.eventHead + m.eventCount - 1 - i + runtimeMonitorEventMax) %
      runtimeMonitorEventMax)

/-! ## Connections -/

def ConnectionBucket.tally (b : ConnectionBucket) (now : UInt64) : ConnectionBucket :=
  let cutoff := now - connectionWindowSec
  let count := if b.lastSeenSec < cutoff then 0 else b.count
  { b with
    lastSeenSec := now
    count := count + 1 }

/-- The search loop: the first bucket of the address counts the connection.
The flag says that it reached the threshold, where it starts again at zero. -/
def touchBucket (now : UInt64) (ip : Bytes) :
    List ConnectionBucket → Option (List ConnectionBucket × Bool)
  | [] => none
  | b :: rest =>
      if b.ip = ip then
        if connectionProbeThreshold ≤ (b.tally now).count then
          some ({ b.tally now with count := 0 } :: rest, true)
        else some (b.tally now :: rest, false)
      else (touchBucket now ip rest).map fun r ↦ (b :: r.1, r.2)

def lastSeenAt (buckets : List ConnectionBucket) (i : ℕ) : UInt64 :=
  (buckets[i]?.map ConnectionBucket.lastSeenSec).getD 0

def oldestBucket (buckets : List ConnectionBucket) : ℕ :=
  (List.range' 1 (buckets.length - 1)).foldl
    (fun oldest j ↦ if lastSeenAt buckets j < lastSeenAt buckets oldest then j else oldest) 0

def openBucket (now : UInt64) (ip : Bytes) (buckets : List ConnectionBucket) :
    List ConnectionBucket :=
  let bucket := ⟨CString.cut runtimeMonitorIpMax ip, now, 1⟩
  if buckets.length < connectionIpsMax then buckets ++ [bucket]
  else buckets.set (oldestBucket buckets) bucket

def probeCall (ip : Bytes) : EventCall where
  type := .portProbe
  source := some (ascii "gateway")
  ip := some ip
  details := some (ascii "Many connections in short time (possible port scan or probe)")

/-- `later` is the clock when the event is recorded. -/
def runtimeMonitorConnection (m : RuntimeMonitor) (now later : UInt64) (ip : Bytes) :
    RuntimeMonitor × List Notice :=
  if !m.initialized || ip = [] then (m, [])
  else
    match touchBucket now ip m.connBuckets with
    | some (buckets, true) =>
        runtimeMonitorEvent { m with connBuckets := buckets } later (probeCall ip)
    | some (buckets, false) => ({ m with connBuckets := buckets }, [])
    | none => ({ m with connBuckets := openBucket now ip m.connBuckets }, [])

/-! ## The ring holds the newest events -/

def RuntimeMonitor.ring (m : RuntimeMonitor) : RingBuffer RuntimeMonitorEvent where
  slots := m.events
  capacity := runtimeMonitorEventMax
  head := m.eventHead
  tail := (m.eventHead + m.eventCount) % runtimeMonitorEventMax
  count := m.eventCount

/-- The ring of a monitor that has recorded `history` since it was set up. -/
structure HoldsNewest (m : RuntimeMonitor) (history : List RuntimeMonitorEvent) : Prop where
  wf : m.ring.WF
  view_eq : m.ring.view m.events = history.drop (history.length - runtimeMonitorEventMax)

theorem HoldsNewest.count_eq {m : RuntimeMonitor} {history : List RuntimeMonitorEvent}
    (h : HoldsNewest m history) : m.eventCount = min history.length runtimeMonitorEventMax := by
  have hlen := congrArg List.length h.view_eq
  rw [RingBuffer.length_view, List.length_drop] at hlen
  change m.eventCount = _ at hlen
  omega

theorem holdsNewest_init {m : RuntimeMonitor} (hm : m.initialized = false) :
    HoldsNewest (runtimeMonitorInit m) [] := by
  rw [runtimeMonitorInit, hm, if_neg Bool.false_ne_true]
  exact ⟨⟨Nat.zero_le 32, Nat.zero_lt_succ 31, rfl⟩, rfl⟩

/-- The index is taken before the oldest event is given up, and is the slot
that event leaves. -/
theorem ring_pushEvent {m : RuntimeMonitor} (now : UInt64) (e : EventCall)
    (hle : m.eventCount ≤ runtimeMonitorEventMax) :
    (pushEvent m now e).ring =
      (if runtimeMonitorEventMax ≤ m.eventCount then m.ring.drop else m.ring).put
        (e.record now) := by
  rw [runtimeMonitorEventMax] at hle
  unfold pushEvent RuntimeMonitor.ring RingBuffer.put RingBuffer.drop runtimeMonitorEventMax
  split_ifs with hfull
  · simp only [RingBuffer.mk.injEq, true_and, and_true]
    omega
  · simp only [RingBuffer.mk.injEq, true_and, and_true]
    omega

theorem events_pushEvent (m : RuntimeMonitor) (now : UInt64) (e : EventCall) :
    (pushEvent m now e).events = Function.update m.events m.ring.tail (e.record now) := by
  unfold pushEvent
  split_ifs <;> rfl

theorem HoldsNewest.pushEvent {m : RuntimeMonitor} {history : List RuntimeMonitorEvent}
    (h : HoldsNewest m history) (now : UInt64) (e : EventCall) :
    HoldsNewest (pushEvent m now e) (history ++ [e.record now]) := by
  have hcount := h.count_eq
  have hle : m.eventCount ≤ runtimeMonitorEventMax := h.wf.count_le
  have hring := ring_pushEvent now e hle
  by_cases hfull : runtimeMonitorEventMax ≤ m.eventCount
  · rw [if_pos hfull] at hring
    have hpos : 0 < m.eventCount := Nat.lt_of_lt_of_le (by decide) hfull
    have hwf : m.ring.drop.WF := h.wf.drop hpos
    have hroom : m.ring.drop.count < m.ring.drop.capacity := by
      change m.eventCount - 1 < runtimeMonitorEventMax
      omega
    have hview : m.ring.drop.view m.events =
        history.drop (history.length + 1 - runtimeMonitorEventMax) := by
      have htail := congrArg List.tail (h.wf.view_eq_cons hpos m.events)
      rw [h.view_eq, List.tail_drop, List.tail_cons] at htail
      rw [← htail]
      congr 1
      omega
    refine ⟨hring ▸ hwf.put hroom _, ?_⟩
    rw [hring, events_pushEvent, show m.ring.tail = m.ring.drop.tail from rfl,
      hwf.view_put hroom, hview, List.length_append, List.length_singleton,
      List.drop_append_of_le_length (by omega)]
  · rw [if_neg hfull] at hring
    have hroom : m.ring.count < m.ring.capacity := Nat.lt_of_not_le hfull
    refine ⟨hring ▸ h.wf.put hroom _, ?_⟩
    rw [hring, events_pushEvent, h.wf.view_put hroom, h.view_eq, List.length_append,
      List.length_singleton, List.drop_append_of_le_length (by omega)]
    congr 2
    omega

theorem HoldsNewest.event {m : RuntimeMonitor} {history : List RuntimeMonitorEvent}
    (h : HoldsNewest m history) (hm : m.initialized = true) (now : UInt64) (e : EventCall) :
    (runtimeMonitorEvent m now e).1.initialized = true ∧
      HoldsNewest (runtimeMonitorEvent m now e).1 (history ++ [e.record now]) := by
  simp only [runtimeMonitorEvent, hm, Bool.not_true, Bool.false_eq_true, if_false]
  refine ⟨?_, h.pushEvent now e⟩
  unfold DoctorClaw.pushEvent
  split_ifs <;> exact hm

/-- The reader walks back from the newest slot. -/
theorem HoldsNewest.getRecentEvents {m : RuntimeMonitor} {history : List RuntimeMonitorEvent}
    (h : HoldsNewest m history) (maxCount : ℕ) :
    runtimeMonitorGetRecentEvents m maxCount =
      history.reverse.take (min history.length (min runtimeMonitorEventMax maxCount)) := by
  have hread : runtimeMonitorGetRecentEvents m maxCount =
      (m.ring.view m.events).reverse.take maxCount := by
    apply List.ext_getElem
    · simp only [runtimeMonitorGetRecentEvents, RuntimeMonitor.ring, List.length_map,
        List.length_range, List.length_take, List.length_reverse, RingBuffer.length_view]
      split_ifs <;> omega
    · intro i hi hi'
      simp only [runtimeMonitorGetRecentEvents, RingBuffer.view, List.getElem_map,
        List.getElem_range, List.getElem_take, List.getElem_reverse, List.length_map,
        List.length_range, Nat.add_mod_right, RingBuffer.index] at hi hi' ⊢
      congr 2
      simp [RuntimeMonitor.ring] at hi' ⊢
      omega
  have hcount := h.count_eq
  rw [hread, h.view_eq, List.reverse_drop, List.take_take]
  congr 1
  omega

/-- A sequence of events, each with the clock it reads. -/
def recordEvents (m : RuntimeMonitor) (calls : List (UInt64 × EventCall)) : RuntimeMonitor :=
  calls.foldl (fun m call ↦ (runtimeMonitorEvent m call.1 call.2).1) m

theorem HoldsNewest.recordEvents {m : RuntimeMonitor} {history : List RuntimeMonitorEvent}
    (h : HoldsNewest m history) (hm : m.initialized = true) (calls : List (UInt64 × EventCall)) :
    HoldsNewest (recordEvents m calls) (history ++ calls.map fun call ↦ call.2.record call.1) := by
  induction calls generalizing m history with
  | nil => simpa [DoctorClaw.recordEvents] using h
  | cons call calls ih =>
      obtain ⟨hm', h'⟩ := h.event hm call.1 call.2
      simpa [DoctorClaw.recordEvents] using ih h' hm'

/-- The events that can be read are the newest ones, newest first. -/
theorem recent_events_are_newest (m : RuntimeMonitor) (hm : m.initialized = false)
    (calls : List (UInt64 × EventCall)) (maxCount : ℕ) :
    runtimeMonitorGetRecentEvents (recordEvents (runtimeMonitorInit m) calls) maxCount =
      (calls.map fun call ↦ call.2.record call.1).reverse.take
        (min calls.length (min runtimeMonitorEventMax maxCount)) := by
  have hinit : (runtimeMonitorInit m).initialized = true := by simp [runtimeMonitorInit, hm]
  have hrun := (holdsNewest_init hm).recordEvents hinit calls
  have hread := hrun.getRecentEvents maxCount
  rwa [List.nil_append, List.length_map] at hread

theorem recent_events_are_newest_of_two :
    runtimeMonitorGetRecentEvents (recordEvents (runtimeMonitorInit runtimeMonitorStatics)
        [(100, ⟨.error, some (ascii "gateway"), none, some (ascii "one")⟩),
          (101, ⟨.other, none, some (ascii "10.0.0.1"), none⟩)]) 1 =
      [⟨.other, [], ascii "10.0.0.1", [], 101⟩] := by
  rw [recent_events_are_newest runtimeMonitorStatics rfl]
  decide

/-! ## One counter for each address -/

def ConnectionBucket.counter (b : ConnectionBucket) : IdleRuns.Counter :=
  ⟨b.lastSeenSec.toNat, b.count⟩

def counterOf (buckets : List ConnectionBucket) (ip : Bytes) : Option IdleRuns.Counter :=
  (buckets.find? fun b ↦ b.ip = ip).map ConnectionBucket.counter

theorem lt_cutoff_iff {last now : UInt64} (hnow : connectionWindowSec ≤ now) :
    last < now - connectionWindowSec ↔ last.toNat + 60 < now.toNat := by
  have hle : (60 : ℕ) ≤ now.toNat := UInt64.le_iff_toNat_le.mp hnow
  rw [UInt64.lt_iff_toNat_lt, UInt64.toNat_sub_of_le _ _ hnow]
  change last.toNat < now.toNat - 60 ↔ _
  omega

theorem ConnectionBucket.count_tally (b : ConnectionBucket) {now : UInt64}
    (hnow : connectionWindowSec ≤ now) : (b.tally now).count = b.counter.tally 60 now.toNat := by
  by_cases hgap : b.lastSeenSec.toNat + 60 < now.toNat <;>
    simp [ConnectionBucket.tally, IdleRuns.Counter.tally, ConnectionBucket.counter,
      lt_cutoff_iff hnow, hgap]

theorem counterOf_cons (b : ConnectionBucket) (rest : List ConnectionBucket) (ip : Bytes) :
    counterOf (b :: rest) ip = if b.ip = ip then some b.counter else counterOf rest ip := by
  by_cases hb : b.ip = ip <;> simp [counterOf, hb]

theorem counterOf_eq_none {buckets : List ConnectionBucket} {ip : Bytes}
    (h : ip ∉ buckets.map ConnectionBucket.ip) : counterOf buckets ip = none := by
  have hnone : buckets.find? (fun b ↦ decide (b.ip = ip)) = none := by
    rw [List.find?_eq_none]
    intro b hb heq
    exact h (List.mem_map.mpr ⟨b, hb, by simpa using heq⟩)
  rw [counterOf, hnone, Option.map_none]

theorem touchBucket_eq_none {now : UInt64} {ip : Bytes} {buckets : List ConnectionBucket}
    (h : touchBucket now ip buckets = none) : ip ∉ buckets.map ConnectionBucket.ip := by
  induction buckets with
  | nil => simp
  | cons b rest ih =>
      unfold touchBucket at h
      split_ifs at h with hb hfull
      have hrest := ih (by simpa using h)
      rw [List.map_cons, List.mem_cons]
      rintro (heq | hmem)
      · exact hb heq.symm
      · exact hrest hmem

theorem touchBucket_cons_self {b : ConnectionBucket} {now : UInt64}
    (hnow : connectionWindowSec ≤ now) (rest : List ConnectionBucket) :
    ∃ b' : ConnectionBucket, b'.ip = b.ip ∧ b'.counter = b.counter.hit 60 25 now.toNat ∧
      touchBucket now b.ip (b :: rest) = some (b' :: rest, b.counter.alarm 60 25 now.toNat) := by
  have htally := b.count_tally hnow
  unfold touchBucket
  rw [if_pos rfl]
  by_cases hfull : connectionProbeThreshold ≤ (b.tally now).count
  · have halarm : b.counter.alarm 60 25 now.toNat = true := by
      rw [IdleRuns.Counter.alarm, ← htally]
      exact decide_eq_true hfull
    refine ⟨{ b.tally now with count := 0 }, rfl, ?_, by rw [if_pos hfull, halarm]⟩
    rw [IdleRuns.Counter.hit, halarm]
    rfl
  · have halarm : b.counter.alarm 60 25 now.toNat = false := by
      rw [IdleRuns.Counter.alarm, ← htally]
      exact decide_eq_false hfull
    refine ⟨b.tally now, rfl, ?_, by rw [if_neg hfull, halarm]⟩
    rw [IdleRuns.Counter.hit, halarm, ← htally]
    rfl

/-- What the search loop does to a known address: its counter counts, and the
others are left alone. -/
theorem touchBucket_eq_some {now : UInt64} {ip : Bytes} (hnow : connectionWindowSec ≤ now)
    {buckets buckets' : List ConnectionBucket} {fired : Bool}
    (h : touchBucket now ip buckets = some (buckets', fired)) :
    buckets'.map ConnectionBucket.ip = buckets.map ConnectionBucket.ip ∧
      fired = IdleRuns.alarm 60 25 (counterOf buckets ip) now.toNat ∧
      counterOf buckets' ip = some (IdleRuns.hit 60 25 (counterOf buckets ip) now.toNat) ∧
      ∀ other, other ≠ ip → counterOf buckets' other = counterOf buckets other := by
  induction buckets generalizing buckets' with
  | nil => simp [touchBucket] at h
  | cons b rest ih =>
      by_cases hb : b.ip = ip
      · subst hb
        obtain ⟨b', hip, hcounter, htouch⟩ := touchBucket_cons_self hnow rest (b := b)
        obtain ⟨rfl, rfl⟩ : b' :: rest = buckets' ∧ b.counter.alarm 60 25 now.toNat = fired := by
          simpa [htouch] using h
        refine ⟨by simp [hip], ?_, ?_, ?_⟩
        · simp [counterOf_cons, IdleRuns.alarm]
        · simp [counterOf_cons, hip, hcounter, IdleRuns.hit]
        · intro other hother
          simp [counterOf_cons, hip, hother.symm]
      · rw [touchBucket, if_neg hb, Option.map_eq_some_iff] at h
        obtain ⟨⟨rest', fired'⟩, hrest, heq⟩ := h
        obtain ⟨rfl, rfl⟩ : b :: rest' = buckets' ∧ fired' = fired := by simpa using heq
        obtain ⟨hkeys, hfired, hown, hothers⟩ := ih hrest
        rw [counterOf_cons, if_neg hb]
        refine ⟨by simp [hkeys], hfired, ?_, ?_⟩
        · rw [counterOf_cons, if_neg hb, hown]
        · intro other hother
          rw [counterOf_cons, counterOf_cons, hothers other hother]

/-- With a bucket to spare, a new address gets a counter of its own. -/
theorem counterOf_openBucket (now : UInt64) {ip : Bytes} {buckets : List ConnectionBucket}
    (hip : ip.length < runtimeMonitorIpMax) (hnew : ip ∉ buckets.map ConnectionBucket.ip)
    (hroom : buckets.length < connectionIpsMax) :
    (openBucket now ip buckets).map ConnectionBucket.ip =
        buckets.map ConnectionBucket.ip ++ [ip] ∧
      counterOf (openBucket now ip buckets) ip = some (IdleRuns.hit 60 25 none now.toNat) ∧
      ∀ other, other ≠ ip →
        counterOf (openBucket now ip buckets) other = counterOf buckets other := by
  have hnone : buckets.find? (fun b ↦ decide (b.ip = ip)) = none := by
    simpa [counterOf] using counterOf_eq_none hnew
  simp only [openBucket, if_pos hroom, CString.cut_of_lt hip]
  refine ⟨by simp, ?_, ?_⟩
  · simp only [counterOf, List.find?_append, hnone, Option.none_or]
    simp [ConnectionBucket.counter, IdleRuns.hit]
  · intro other hother
    simp [counterOf, List.find?_append, hother.symm]

/-! ## Every sequence of connections -/

structure Connection where
  ip : Bytes
  now : UInt64
  later : UInt64

def connectionNotices : RuntimeMonitor → List Connection → List Notice
  | _, [] => []
  | m, c :: rest =>
      (runtimeMonitorConnection m c.now c.later c.ip).2 ++
        connectionNotices (runtimeMonitorConnection m c.now c.later c.ip).1 rest

def portProbes (ip : Bytes) (notices : List Notice) : ℕ :=
  notices.countP fun n ↦ n.event.type = .portProbe && n.event.ip = ip

/-- The addresses that have a bucket and those still to come fit in the
table. -/
structure Fits (m : RuntimeMonitor) (calls : List Connection) : Prop where
  initialized : m.initialized = true
  nodup : (m.connBuckets.map ConnectionBucket.ip).Nodup
  room : (m.connBuckets.map ConnectionBucket.ip ++ calls.map Connection.ip).toFinset.card ≤
    connectionIpsMax

theorem Fits.length_lt {m : RuntimeMonitor} {c : Connection} {rest : List Connection}
    (h : Fits m (c :: rest)) (hnew : c.ip ∉ m.connBuckets.map ConnectionBucket.ip) :
    m.connBuckets.length < connectionIpsMax := by
  have hnodup : (c.ip :: m.connBuckets.map ConnectionBucket.ip).Nodup :=
    List.nodup_cons.mpr ⟨hnew, h.nodup⟩
  have hcard := List.toFinset_card_of_nodup hnodup
  rw [List.length_cons, List.length_map] at hcard
  have hsub : (c.ip :: m.connBuckets.map ConnectionBucket.ip).toFinset ⊆
      (m.connBuckets.map ConnectionBucket.ip ++ (c :: rest).map Connection.ip).toFinset := by
    intro ip
    simp only [List.mem_toFinset, List.mem_cons, List.mem_append, List.map_cons]
    tauto
  have hle := (Finset.card_le_card hsub).trans h.room
  omega

theorem pushEvent_connBuckets (m : RuntimeMonitor) (now : UInt64) (e : EventCall) :
    (pushEvent m now e).connBuckets = m.connBuckets ∧
      (pushEvent m now e).initialized = m.initialized := by
  unfold pushEvent
  split_ifs <;> exact ⟨rfl, rfl⟩

/-- One connection: which buckets it leaves, and the probes it reports. -/
theorem runtimeMonitorConnection_cases {m : RuntimeMonitor} (hm : m.initialized = true)
    {ip : Bytes} (hip : ip ≠ []) (now later : UInt64) :
    (∃ buckets fired, touchBucket now ip m.connBuckets = some (buckets, fired) ∧
      (runtimeMonitorConnection m now later ip).1.connBuckets = buckets ∧
      (runtimeMonitorConnection m now later ip).1.initialized = true ∧
      ((runtimeMonitorConnection m now later ip).2.map Notice.event) =
        if fired then [(probeCall ip).record later] else []) ∨
    (touchBucket now ip m.connBuckets = none ∧
      (runtimeMonitorConnection m now later ip).1.connBuckets =
        openBucket now ip m.connBuckets ∧
      (runtimeMonitorConnection m now later ip).1.initialized = true ∧
      (runtimeMonitorConnection m now later ip).2 = []) := by
  unfold runtimeMonitorConnection
  rw [if_neg (by simp [hm, hip])]
  cases htouch : touchBucket now ip m.connBuckets with
  | none => exact .inr ⟨rfl, rfl, hm, rfl⟩
  | some r =>
      obtain ⟨buckets, fired⟩ := r
      refine .inl ⟨buckets, fired, rfl, ?_⟩
      cases fired with
      | false => exact ⟨rfl, hm, rfl⟩
      | true =>
          obtain ⟨hbuckets, hinit⟩ := pushEvent_connBuckets { m with connBuckets := buckets } later
            (probeCall ip)
          simp only [runtimeMonitorEvent]
          rw [if_neg (by simp [hm])]
          exact ⟨hbuckets, hinit.trans hm, rfl⟩

theorem portProbes_eq {notices : List Notice} {events : List RuntimeMonitorEvent}
    (h : notices.map Notice.event = events) (ip : Bytes) :
    portProbes ip notices = events.countP fun e ↦ e.type = .portProbe && e.ip = ip := by
  rw [← h, List.countP_map]
  rfl

theorem Fits.connection {m : RuntimeMonitor} {c : Connection} {rest : List Connection}
    (h : Fits m (c :: rest)) (hip : c.ip ≠ [] ∧ c.ip.length < runtimeMonitorIpMax)
    (hnow : connectionWindowSec ≤ c.now) :
    let out := runtimeMonitorConnection m c.now c.later c.ip
    Fits out.1 rest ∧
      counterOf out.1.connBuckets c.ip =
        some (IdleRuns.hit 60 25 (counterOf m.connBuckets c.ip) c.now.toNat) ∧
      (∀ other, other ≠ c.ip →
        counterOf out.1.connBuckets other = counterOf m.connBuckets other) ∧
      ∀ ip, portProbes ip out.2 =
        if c.ip = ip then (IdleRuns.alarm 60 25 (counterOf m.connBuckets c.ip) c.now.toNat).toNat
        else 0 := by
  intro out
  obtain ⟨buckets, fired, htouch, hbuckets, hinit, hnotices⟩ | ⟨htouch, hbuckets, hinit, hnotices⟩ :=
    runtimeMonitorConnection_cases h.initialized hip.1 c.now c.later
  · obtain ⟨hkeys, hfired, hown, hothers⟩ := touchBucket_eq_some hnow htouch
    refine ⟨⟨hinit, ?_, ?_⟩, ?_, ?_, ?_⟩
    · rw [hbuckets, hkeys]
      exact h.nodup
    · rw [hbuckets, hkeys]
      refine (Finset.card_le_card fun ip hmem ↦ ?_).trans h.room
      simp only [List.mem_toFinset, List.mem_append, List.map_cons, List.mem_cons] at hmem ⊢
      tauto
    · rw [hbuckets, hown]
    · rw [hbuckets]
      exact hothers
    · intro ip
      rw [portProbes_eq hnotices, ← hfired]
      cases fired with
      | false => simp
      | true =>
          have hrecord : ((probeCall c.ip).record c.later).ip = c.ip := CString.cut_of_lt hip.2
          have htype : ((probeCall c.ip).record c.later).type = .portProbe := rfl
          simp [hrecord, htype, List.countP_singleton]
  · have hnew := touchBucket_eq_none htouch
    obtain ⟨hkeys, hown, hothers⟩ := counterOf_openBucket c.now hip.2 hnew (h.length_lt hnew)
    refine ⟨⟨hinit, ?_, ?_⟩, ?_, ?_, ?_⟩
    · rw [hbuckets, hkeys, List.nodup_append]
      refine ⟨h.nodup, List.nodup_singleton _, ?_⟩
      rintro a ha b hb rfl
      exact hnew (by simpa [List.mem_singleton.mp hb] using ha)
    · rw [hbuckets, hkeys, List.append_assoc, List.singleton_append, ← List.map_cons]
      exact h.room
    · rw [hbuckets, hown, counterOf_eq_none hnew]
    · rw [hbuckets]
      exact hothers
    · intro ip
      rw [hnotices, counterOf_eq_none hnew]
      simp [portProbes, IdleRuns.alarm]

theorem Fits.portProbes_eq_alarms {m : RuntimeMonitor} {calls : List Connection}
    (h : Fits m calls)
    (hip : ∀ c ∈ calls, c.ip ≠ [] ∧ c.ip.length < runtimeMonitorIpMax)
    (hnow : ∀ c ∈ calls, connectionWindowSec ≤ c.now) (ip : Bytes) :
    portProbes ip (connectionNotices m calls) =
      IdleRuns.alarms 60 25 (counterOf m.connBuckets ip)
        ((calls.filter fun c ↦ c.ip = ip).map fun c ↦ c.now.toNat) := by
  induction calls generalizing m with
  | nil => rfl
  | cons c rest ih =>
      obtain ⟨hfits, hown, hothers, hprobes⟩ := h.connection (hip c List.mem_cons_self)
        (hnow c List.mem_cons_self)
      have hrest := ih hfits (fun c hc ↦ hip c (List.mem_cons_of_mem _ hc))
        fun c hc ↦ hnow c (List.mem_cons_of_mem _ hc)
      rw [connectionNotices, portProbes, List.countP_append, ← portProbes, ← portProbes, hrest,
        hprobes]
      by_cases hc : c.ip = ip
      · subst hc
        simp [hown, IdleRuns.alarms]
      · simp [hc, hothers ip fun heq ↦ hc heq.symm]

/-- Every address is reported once for each 25 connections of a run in which
none comes more than 60 seconds after the one before it, whatever the other
addresses do. -/
theorem port_probes_of_runs (m : RuntimeMonitor) (hm : m.initialized = false)
    (calls : List Connection)
    (hip : ∀ c ∈ calls, c.ip ≠ [] ∧ c.ip.length < runtimeMonitorIpMax)
    (hdistinct : (calls.map Connection.ip).toFinset.card ≤ connectionIpsMax)
    (hnow : ∀ c ∈ calls, 60 ≤ c.now) (ip : Bytes) :
    portProbes ip (connectionNotices (runtimeMonitorInit m) calls) =
      ((IdleRuns.runs 60 ((calls.filter fun c ↦ c.ip = ip).map fun c ↦ c.now.toNat)).map
        fun run ↦ run.length / 25).sum := by
  have hinit : (runtimeMonitorInit m).initialized = true := by simp [runtimeMonitorInit, hm]
  have hempty : (runtimeMonitorInit m).connBuckets = [] := by simp [runtimeMonitorInit, hm]
  have hfits : Fits (runtimeMonitorInit m) calls :=
    ⟨hinit, by simp [hempty], by simpa [hempty] using hdistinct⟩
  have halarms := hfits.portProbes_eq_alarms hip hnow ip
  rw [hempty] at halarms
  exact halarms.trans (IdleRuns.alarms_eq_runAlarms (by decide) _)

theorem port_probes_of_runs_of_26 :
    portProbes (ascii "10.0.0.1") (connectionNotices (runtimeMonitorInit runtimeMonitorStatics)
      (⟨ascii "10.0.0.2", 90, 90⟩ :: List.replicate 26 ⟨ascii "10.0.0.1", 100, 100⟩)) = 1 := by
  rw [port_probes_of_runs runtimeMonitorStatics rfl _ (by decide) (by decide) (by decide)]
  decide +kernel

end DoctorClaw
