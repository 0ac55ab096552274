import DoctorClaw.Lib.BufferWriter

/-!
# Printing at an offset

`offset += snprintf (buf + offset, size - offset, ...)`: the offset moves by the
length of the whole text, also where only a part of it was stored, and the next
subtraction of type `size_t` wraps once the offset is behind the end.
-/

namespace BufferWriter

/-- The store is inside a buffer of `n` bytes; the offset that was subtracted
is below the size. -/
def Effect.WithRoom (n : ℕ) : Effect → Prop
  | .store index _ => index < n
  | .spend size offset => offset < size

namespace Writer

/-- `offset += snprintf (buf + offset, size - offset, "%s", s)`. -/
def printAt (size : ℕ) (w : Writer) (s : Bytes) : Writer :=
  let subtracted := { w with log := w.log ++ [Effect.spend size w.pos] }
  { subtracted.storeAll (printed (sizeSub size w.pos) s) with pos := w.pos + s.length }

/-- `buf[offset] = b`. -/
def setHere (w : Writer) (b : UInt8) : Writer := { w.store b with pos := w.pos }

/-- All that was printed and stored so far had room. -/
structure Safe (n : ℕ) (w : Writer) : Prop where
  length : w.buffer.length = n
  log : ∀ e ∈ w.log, e.WithRoom n

variable {n : ℕ} {w : Writer}

theorem safe_start (buffer : Bytes) : (start buffer).Safe buffer.length :=
  ⟨rfl, List.forall_mem_nil _⟩

theorem withRoom_storeAll {s : Bytes} (hlog : ∀ e ∈ w.log, e.WithRoom n)
    (hs : w.pos + s.length ≤ n) : ∀ e ∈ (w.storeAll s).log, e.WithRoom n := by
  induction s generalizing w with
  | nil => exact hlog
  | cons b s ih =>
      rw [List.length_cons] at hs
      have hstore : ∀ e ∈ (w.store b).log, e.WithRoom n := by
        intro e he
        rcases List.mem_append.mp he with he | he
        · exact hlog e he
        · rw [List.mem_singleton.mp he]
          change w.pos < n
          omega
      exact ih hstore (by simp only [store]; omega)

/-- Printing in front of the end is safe, however long the text is. -/
theorem Safe.printAt (h : w.Safe n) (hpos : w.pos < n) (s : Bytes) : (w.printAt n s).Safe n := by
  have hsize : sizeSub n w.pos = n - w.pos := sizeSub_of_le hpos.le
  have hprinted := length_printed_le (n - w.pos) s
  constructor
  · simp only [Writer.printAt, storeAll_length, h.length]
  · simp only [Writer.printAt, hsize]
    apply withRoom_storeAll
    · intro e he
      rcases List.mem_append.mp he with he | he
      · exact h.log e he
      · rw [List.mem_singleton.mp he]
        exact hpos
    · change w.pos + _ ≤ n
      omega

@[simp] theorem printAt_pos (size : ℕ) (w : Writer) (s : Bytes) :
    (w.printAt size s).pos = w.pos + s.length := rfl

theorem Safe.setHere (h : w.Safe n) (hpos : w.pos < n) (b : UInt8) : (w.setHere b).Safe n := by
  constructor
  · simp only [Writer.setHere, store, List.length_set, h.length]
  · intro e he
    rcases List.mem_append.mp he with he | he
    · exact h.log e he
    · rw [List.mem_singleton.mp he]
      exact hpos

/-- The string ends in front of a terminator that was set. -/
theorem length_ofBuffer_setHere_le (h : w.pos < w.buffer.length) :
    (CString.ofBuffer (w.setHere 0).buffer).length ≤ w.pos := by
  have hsplit : (w.setHere 0).buffer = w.buffer.take w.pos ++ 0 :: w.buffer.drop (w.pos + 1) :=
    List.set_eq_take_append_cons_drop.trans (if_pos h)
  have hle := (List.takeWhile_sublist (l := w.buffer.take w.pos) fun c ↦ decide (c ≠ 0)).length_le
  rw [hsplit, CString.ofBuffer_append_zero_eq]
  rw [List.length_take] at hle
  exact hle.trans (Nat.min_le_left _ _)

end Writer

end BufferWriter
