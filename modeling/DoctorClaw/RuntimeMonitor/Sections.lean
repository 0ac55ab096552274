import DoctorClaw.RuntimeMonitor

/-!
# The critical sections of a connection

`runtime_monitor_connection` gives up its lock around the event that it
raises, and sets the counter back by its index once it has the lock again.
Other threads may come in between; without them the two sections and the event
are the call.
-/

namespace DoctorClaw

/-- The search loop up to the threshold, with the index of the bucket that
reaches it. -/
def countBucket (now : UInt64) (ip : Bytes) :
    List ConnectionBucket → Option (List ConnectionBucket × Option ℕ)
  | [] => none
  | b :: rest =>
      if b.ip = ip then
        some (b.tally now :: rest,
          if connectionProbeThreshold ≤ (b.tally now).count then some 0 else none)
      else (countBucket now ip rest).map fun r ↦ (b :: r.1, r.2.map (· + 1))

def RuntimeMonitor.countConnection (m : RuntimeMonitor) (now : UInt64) (ip : Bytes) :
    RuntimeMonitor × Option ℕ :=
  if !m.initialized || ip = [] then (m, none)
  else
    match countBucket now ip m.connBuckets with
    | some (buckets, full) => ({ m with connBuckets := buckets }, full)
    | none => ({ m with connBuckets := openBucket now ip m.connBuckets }, none)

def ConnectionBucket.cleared (b : ConnectionBucket) : ConnectionBucket := { b with count := 0 }

def RuntimeMonitor.clearBucket (m : RuntimeMonitor) (i : ℕ) : RuntimeMonitor :=
  { m with connBuckets := m.connBuckets.modify i ConnectionBucket.cleared }

theorem touchBucket_eq (now : UInt64) (ip : Bytes) (buckets : List ConnectionBucket) :
    touchBucket now ip buckets = (countBucket now ip buckets).map fun r ↦
      match r.2 with
      | some i => (r.1.modify i ConnectionBucket.cleared, true)
      | none => (r.1, false) := by
  induction buckets with
  | nil => rfl
  | cons b rest ih =>
      rw [touchBucket, countBucket]
      by_cases hb : b.ip = ip
      · rw [if_pos hb, if_pos hb]
        by_cases hfull : connectionProbeThreshold ≤ (b.tally now).count
        · rw [if_pos hfull, if_pos hfull]
          rfl
        · rw [if_neg hfull, if_neg hfull]
          rfl
      · rw [if_neg hb, if_neg hb, ih]
        cases countBucket now ip rest with
        | none => rfl
        | some r =>
            obtain ⟨buckets, _ | i⟩ := r
            · rfl
            · rfl

/-- The sections of a call that nobody interrupts. -/
theorem runtimeMonitorConnection_eq (m : RuntimeMonitor) (now later : UInt64) (ip : Bytes) :
    runtimeMonitorConnection m now later ip =
      match m.countConnection now ip with
      | (m, none) => (m, [])
      | (m, some i) =>
          ((runtimeMonitorEvent m later (probeCall ip)).1.clearBucket i,
            (runtimeMonitorEvent m later (probeCall ip)).2) := by
  unfold runtimeMonitorConnection RuntimeMonitor.countConnection
  by_cases hoff : (!m.initialized || decide (ip = [])) = true
  · rw [if_pos hoff, if_pos hoff]
  · rw [if_neg hoff, if_neg hoff, touchBucket_eq]
    have hinit : m.initialized = true := by
      cases h : m.initialized
      · simp [h] at hoff
      · rfl
    cases countBucket now ip m.connBuckets with
    | none => rfl
    | some r =>
        obtain ⟨buckets, _ | i⟩ := r
        · rfl
        · simp only [Option.map_some, runtimeMonitorEvent, hinit, Bool.not_true,
            Bool.false_eq_true, if_false]
          unfold pushEvent RuntimeMonitor.clearBucket
          split_ifs <;> rfl

end DoctorClaw
