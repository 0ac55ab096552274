import DoctorClaw.WebSocket.Frames

/-!
# Where the frame parser reads and writes

The length of the payload is checked against the bytes received, after an
addition that may wrap around, but not against the buffer for the message.  The
loop stops in front of the last byte of this buffer, yet the terminator is
stored behind the announced payload in any case.  The gateway passes a length of
zero, from which the loop subtracts one.
-/

namespace DoctorClaw

open Rfc6455

/-- The access is inside of `len` bytes received and `capacity` bytes for the
message, the calculation does not wrap around. -/
def WsAccess.InBounds (len : ℕ) (capacity : UInt64) : WsAccess → Prop
  | read i => i < len
  | write i _ => i < capacity.toNat
  | total offset maskLen payloadLen => offset + maskLen + payloadLen < 2 ^ 64
  | room => 1 ≤ capacity.toNat

instance (len : ℕ) (capacity : UInt64) (a : WsAccess) : Decidable (a.InBounds len capacity) := by
  cases a <;> exact Nat.decLt _ _

def WsInBounds (data : Bytes) (capacity : UInt64) : Prop :=
  ∀ a ∈ wsParseFrameLog data capacity, a.InBounds data.length capacity

/-- Where lengths are announced, their sum is a size, and either the payload is
not there as a whole or it is shorter than the buffer. -/
def WsFits (data : Bytes) (capacity : UInt64) : Prop :=
  ∀ header len, announced data = some (header, len) →
    header + len < 2 ^ 64 ∧ (data.length < header + len ∨ len < capacity.toNat)

variable {data : Bytes} {capacity : UInt64}

theorem reads_inBounds {len a n : ℕ} (h : a + n ≤ len) :
    ∀ access ∈ (List.range' a n).map WsAccess.read, access.InBounds len capacity := by
  intro access haccess
  obtain ⟨i, hi, rfl⟩ := List.mem_map.mp haccess
  have hlt := (List.mem_range'_1.mp hi).2
  exact hlt.trans_le h

theorem first_reads_inBounds {len : ℕ} (h : 2 ≤ len) :
    ∀ access ∈ [WsAccess.read 0, WsAccess.read 1], access.InBounds len capacity :=
  reads_inBounds (a := 0) (n := 2) h

/-- The terminator decides about the copy of a payload that is there. -/
theorem wsCopyLog_inBounds_iff {second : UInt8} {start len : ℕ} (h : start + len ≤ data.length) :
    (∀ a ∈ wsCopyLog data capacity second start len, a.InBounds data.length capacity) ↔
      len < capacity.toNat := by
  constructor
  · intro hall
    exact hall (.write len 0) (by simp [wsCopyLog])
  · intro hlt a ha
    rw [wsCopyLog, List.mem_append, List.mem_append] at ha
    rcases ha with (ha | ha) | ha
    · split_ifs at ha with hzero
      · exact absurd ha List.not_mem_nil
      · rw [List.mem_singleton.mp ha]
        exact Nat.zero_lt_of_lt hlt
    · obtain ⟨i, hi, ha⟩ := List.mem_flatMap.mp ha
      have hmin := List.mem_range.mp hi
      rcases List.mem_pair.mp ha with rfl | rfl
      · change start + i < data.length
        omega
      · change i < capacity.toNat
        omega
    · rw [List.mem_singleton.mp ha]
      exact hlt

theorem wsInBounds_of_none (h : announced data = none) : WsInBounds data capacity := by
  intro a ha
  rcases wsParseFrameLog_of_none capacity h with hlog | ⟨hlen, hlog⟩
  · rw [hlog] at ha
    exact absurd ha List.not_mem_nil
  · rw [hlog] at ha
    exact first_reads_inBounds hlen a ha

theorem wsInBounds_iff_of_some {header len : ℕ} (h : announced data = some (header, len)) :
    WsInBounds data capacity ↔
      header + len < 2 ^ 64 ∧ (data.length < header + len ∨ len < capacity.toNat) := by
  obtain ⟨first, second, rest, width, rfl, hwidth, hheader⟩ := announced_eq_some h
  rw [← wsMaskLen_eq] at hheader
  have hlength : (first :: second :: rest).length = 2 + rest.length := by
    simp only [List.length_cons]
    omega
  have hsum : header - wsMaskLen second + wsMaskLen second + len = header + len := by omega
  have hheaderReads : ∀ a ∈ (List.range' 2 (header - wsMaskLen second - 2)).map WsAccess.read,
      a.InBounds (first :: second :: rest).length capacity := reads_inBounds (by omega)
  have htotal : (WsAccess.total (header - wsMaskLen second) (wsMaskLen second) len).InBounds
      (first :: second :: rest).length capacity ↔ header + len < 2 ^ 64 := by
    rw [← hsum]
    rfl
  rw [WsInBounds, wsParseFrameLog_of_some capacity h, List.forall_mem_append,
    and_iff_right (first_reads_inBounds (by omega)), List.forall_mem_append,
    and_iff_right hheaderReads, List.forall_mem_cons, htotal]
  refine and_congr_right fun hsmall ↦ ?_
  rw [Nat.mod_eq_of_lt hsmall]
  split_ifs with hlt
  · exact iff_of_true (List.forall_mem_nil _) (.inl hlt)
  · rw [List.forall_mem_append, and_iff_right (reads_inBounds (by omega)),
      wsCopyLog_inBounds_iff (by omega), or_iff_right hlt]

/-- The parser stays inside exactly where the announced payload fits. -/
theorem wsInBounds_iff (data : Bytes) (capacity : UInt64) :
    WsInBounds data capacity ↔ WsFits data capacity := by
  unfold WsFits
  cases h : announced data with
  | none => exact iff_of_true (wsInBounds_of_none h) fun header len heq ↦ by cases heq
  | some lengths =>
      obtain ⟨header, len⟩ := lengths
      rw [wsInBounds_iff_of_some h]
      constructor
      · rintro hfits _ _ heq
        cases heq
        exact hfits
      · exact fun hall ↦ hall header len rfl

/-- In the loop of the gateway only the frames are safe that are not there as a
whole. -/
theorem wsFits_zero_iff (data : Bytes) :
    WsFits data 0 ↔ ∀ header len, announced data = some (header, len) →
      header + len < 2 ^ 64 ∧ data.length < header + len := by
  simp [WsFits]

/-- The frame of an empty message, as the gateway parses it: the terminator is
stored in a buffer of no bytes. -/
theorem empty_frame_out_of_bounds : ¬ ∀ data capacity, WsInBounds data capacity := by
  intro h
  exact absurd (h [0x81, 0x00] 0 (.write 0 0) (by decide)) (by decide)

end DoctorClaw
