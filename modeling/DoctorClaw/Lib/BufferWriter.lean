import DoctorClaw.Lib.CString
import Mathlib.Algebra.Group.Nat.Defs

/-!
# Writing into a buffer with a space counter

A pointer moves through a buffer, and a counter of type `size_t` holds the
space that is left.  Bytes are stored and counted off together; `snprintf`
stores what fits in front of a terminator, but the pointer moves and the counter
goes down by the length of the whole text, so that the counter may wrap around.

The log holds the stores and the subtractions, those outside the buffer or below
zero among them.
-/

namespace BufferWriter

inductive Effect
  | store (index : ℕ) (byte : UInt8)
  | spend (remaining amount : ℕ)
  deriving DecidableEq

/-- The store is inside a buffer of `n` bytes, the subtraction does not wrap. -/
def Effect.InBounds (n : ℕ) : Effect → Prop
  | .store index _ => index < n
  | .spend remaining amount => amount ≤ remaining

structure Writer where
  pos : ℕ
  remaining : ℕ
  /-- A store outside changes nothing here. -/
  buffer : Bytes
  log : List Effect

/-- Subtraction in `size_t`. -/
def sizeSub (a b : ℕ) : ℕ := if b ≤ a then a - b else a + 2 ^ 64 - b

namespace Writer

def start (buffer : Bytes) : Writer := ⟨0, buffer.length, buffer, []⟩

/-- `*p++ = b`. -/
def store (w : Writer) (b : UInt8) : Writer :=
  { w with pos := w.pos + 1, buffer := w.buffer.set w.pos b, log := w.log ++ [.store w.pos b] }

/-- `remaining -= amount`. -/
def spend (w : Writer) (amount : ℕ) : Writer :=
  { w with remaining := sizeSub w.remaining amount, log := w.log ++ [.spend w.remaining amount] }

def storeAll (w : Writer) (s : Bytes) : Writer := s.foldl store w

def put (w : Writer) (s : Bytes) : Writer := (w.storeAll s).spend s.length

/-- What `snprintf (p, remaining, "%s", s)` stores. -/
def printed (remaining : ℕ) (s : Bytes) : Bytes :=
  if remaining = 0 then [] else s.take (remaining - 1) ++ [0]

/-- `written = snprintf (p, remaining, "%s", s)` with `p += written` and
`remaining -= written`. -/
def snprintf (w : Writer) (s : Bytes) : Writer :=
  { w.storeAll (printed w.remaining s) with pos := w.pos + s.length }.spend s.length

/-- Nothing has gone wrong so far: pointer and counter fit together. -/
structure Sound (n : ℕ) (w : Writer) : Prop where
  space : w.pos + w.remaining = n
  length : w.buffer.length = n
  log : ∀ e ∈ w.log, e.InBounds n

/-- The text stands in front of the pointer. -/
structure Holds (text : Bytes) (w : Writer) : Prop where
  pos : w.pos = text.length
  text : text <+: w.buffer

variable {n : ℕ} {w : Writer}

theorem start_sound (buffer : Bytes) : (start buffer).Sound buffer.length :=
  ⟨Nat.zero_add _, rfl, List.forall_mem_nil _⟩

theorem start_holds (buffer : Bytes) : (start buffer).Holds [] := ⟨rfl, List.nil_prefix⟩

/-! ## Stores -/

theorem storeAll_cons (w : Writer) (b : UInt8) (s : Bytes) :
    w.storeAll (b :: s) = (w.store b).storeAll s := rfl

@[simp] theorem storeAll_pos (w : Writer) (s : Bytes) : (w.storeAll s).pos = w.pos + s.length := by
  induction s generalizing w with
  | nil => rfl
  | cons b s ih =>
      rw [storeAll_cons, ih, List.length_cons]
      simp only [store]
      omega

@[simp] theorem storeAll_remaining (w : Writer) (s : Bytes) :
    (w.storeAll s).remaining = w.remaining := by
  induction s generalizing w with
  | nil => rfl
  | cons b s ih => exact ih _

@[simp] theorem storeAll_length (w : Writer) (s : Bytes) :
    (w.storeAll s).buffer.length = w.buffer.length := by
  induction s generalizing w with
  | nil => rfl
  | cons b s ih => rw [storeAll_cons, ih, store, List.length_set]

theorem log_isPrefix_storeAll (w : Writer) (s : Bytes) : w.log <+: (w.storeAll s).log := by
  induction s generalizing w with
  | nil => exact List.prefix_rfl
  | cons b s ih => exact (List.prefix_append _ _).trans (ih (w.store b))

theorem storeAll_inBounds {s : Bytes} (hlog : ∀ e ∈ w.log, e.InBounds n)
    (hs : w.pos + s.length ≤ n) : ∀ e ∈ (w.storeAll s).log, e.InBounds n := by
  induction s generalizing w with
  | nil => exact hlog
  | cons b s ih =>
      rw [List.length_cons] at hs
      apply ih
      · intro e he
        rcases List.mem_append.mp he with he | he
        · exact hlog e he
        · rw [List.mem_singleton.mp he]
          simp only [Effect.InBounds]
          omega
      · simp only [store]
        omega

/-- The bytes land behind what was there. -/
theorem isPrefix_storeAll {text s : Bytes} (h : w.Holds text)
    (hs : text.length + s.length ≤ w.buffer.length) : text ++ s <+: (w.storeAll s).buffer := by
  induction s generalizing w text with
  | nil => simpa [storeAll] using h.text
  | cons b s ih =>
      rw [List.length_cons] at hs
      obtain ⟨junk, hjunk⟩ := h.text
      have hnext : (w.store b).Holds (text ++ [b]) := by
        refine ⟨by simp [store, h.pos], ?_⟩
        cases junk with
        | nil =>
            have hlen := congrArg List.length hjunk
            simp only [List.append_nil] at hlen
            omega
        | cons x junk =>
            refine ⟨junk, ?_⟩
            simp [store, ← hjunk, h.pos]
      have hall := ih hnext (by simp only [store, List.length_set, List.length_append,
        List.length_singleton]; omega)
      rwa [List.append_assoc, List.singleton_append] at hall

theorem mem_storeAll_last {s : Bytes} {b : UInt8} (h : w.pos + s.length < w.buffer.length) :
    b ∈ (w.storeAll (s ++ [b])).buffer := by
  have hlast : w.storeAll (s ++ [b]) = (w.storeAll s).store b := List.foldl_append
  rw [hlast]
  apply List.mem_set
  rwa [storeAll_pos, storeAll_length]

/-! ## Counting off -/

theorem sizeSub_of_le {a b : ℕ} (h : b ≤ a) : sizeSub a b = a - b := if_pos h

theorem put_remaining {s : Bytes} (h : s.length ≤ w.remaining) :
    (w.put s).remaining = w.remaining - s.length := by
  simp only [put, spend, storeAll_remaining, sizeSub_of_le h]

theorem snprintf_remaining {s : Bytes} (h : s.length ≤ w.remaining) :
    (w.snprintf s).remaining = w.remaining - s.length := by
  simp only [snprintf, spend, storeAll_remaining, sizeSub_of_le h]

theorem length_printed_le (remaining : ℕ) (s : Bytes) :
    (printed remaining s).length ≤ remaining := by
  unfold printed
  split_ifs
  · exact Nat.zero_le _
  · simp only [List.length_append, List.length_take, List.length_singleton]
    omega

theorem inBounds_spend {amount : ℕ} (hlog : ∀ e ∈ w.log, e.InBounds n) (h : amount ≤ w.remaining) :
    ∀ e ∈ (w.spend amount).log, e.InBounds n := by
  intro e he
  rcases List.mem_append.mp he with he | he
  · exact hlog e he
  · rw [List.mem_singleton.mp he]
    exact h

theorem Sound.put (hw : w.Sound n) {s : Bytes} (h : s.length ≤ w.remaining) :
    (w.put s).Sound n := by
  have hspace := hw.space
  refine ⟨?_, ?_, ?_⟩
  · rw [put_remaining h]
    simp only [Writer.put, spend, storeAll_pos]
    omega
  · simpa [Writer.put, spend] using hw.length
  · apply inBounds_spend
    · exact storeAll_inBounds hw.log (by omega)
    · rwa [storeAll_remaining]

theorem Sound.snprintf (hw : w.Sound n) {s : Bytes} (h : s.length ≤ w.remaining) :
    (w.snprintf s).Sound n := by
  have hspace := hw.space
  have hprinted := length_printed_le w.remaining s
  refine ⟨?_, ?_, ?_⟩
  · rw [snprintf_remaining h]
    simp only [Writer.snprintf, spend]
    omega
  · simpa [Writer.snprintf, spend] using hw.length
  · apply inBounds_spend
    · exact storeAll_inBounds hw.log (by omega)
    · rwa [storeAll_remaining]

theorem Holds.put {text s : Bytes} (hw : w.Sound n) (ht : w.Holds text)
    (h : s.length ≤ w.remaining) : (w.put s).Holds (text ++ s) := by
  have hspace := hw.space
  have hlength := hw.length
  have hpos := ht.pos
  refine ⟨by simp [Writer.put, spend, hpos], ?_⟩
  exact isPrefix_storeAll ht (by omega)

/-- A text that fits is followed by a terminator. -/
theorem isPrefix_snprintf {text s : Bytes} (hw : w.Sound n) (ht : w.Holds text)
    (h : s.length < w.remaining) : text ++ s ++ [0] <+: (w.snprintf s).buffer := by
  have hspace := hw.space
  have hlength := hw.length
  have hpos := ht.pos
  have hprinted : printed w.remaining s = s ++ [0] := by
    rw [printed, if_neg (by omega), List.take_of_length_le (by omega)]
  rw [List.append_assoc, ← hprinted]
  refine isPrefix_storeAll ht ?_
  rw [hprinted, List.length_append, List.length_singleton]
  omega

theorem Holds.snprintf {text s : Bytes} (hw : w.Sound n) (ht : w.Holds text)
    (h : s.length < w.remaining) : (w.snprintf s).Holds (text ++ s) :=
  ⟨by simp [Writer.snprintf, spend, ht.pos],
    (List.prefix_append _ _).trans (isPrefix_snprintf hw ht h)⟩

theorem zero_mem_snprintf (hw : w.Sound n) (h : 0 < w.remaining) (s : Bytes) :
    (0 : UInt8) ∈ (w.snprintf s).buffer := by
  have hspace := hw.space
  have hlength := hw.length
  simp only [Writer.snprintf, spend, printed, if_neg (Nat.ne_of_gt h)]
  apply mem_storeAll_last
  rw [List.length_take]
  omega

/-! ## What went wrong stays in the log -/

theorem log_isPrefix_put (w : Writer) (s : Bytes) : w.log <+: (w.put s).log :=
  (log_isPrefix_storeAll w s).trans (List.prefix_append _ _)

theorem log_isPrefix_snprintf (w : Writer) (s : Bytes) : w.log <+: (w.snprintf s).log :=
  (log_isPrefix_storeAll w _).trans (List.prefix_append _ _)

theorem length_le_of_snprintf {s : Bytes} (h : ∀ e ∈ (w.snprintf s).log, e.InBounds n) :
    s.length ≤ w.remaining := by
  have hspend : Effect.spend w.remaining s.length ∈ (w.snprintf s).log := by
    simp [snprintf, spend]
  exact h _ hspend

end Writer

end BufferWriter
