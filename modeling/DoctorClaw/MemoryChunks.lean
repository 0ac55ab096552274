import DoctorClaw.Lib.CString
import DoctorClaw.Lib.LastCut

/-!
# Chunks of a text to remember

`memory_chunk_text` takes room for as many chunks as a text has when every chunk
is full, and then cuts the chunks at blanks near their ends.  What the shorter
chunks leave is lost.
-/

namespace DoctorClaw

open LastCut

def maxChunkSize : ℕ := 2048

/-- `chunk_t`; `stop` is the field `end`. -/
structure MemoryChunk where
  start : ℕ
  stop : ℕ
  text : Bytes
  deriving DecidableEq

structure ChunkerResult where
  chunks : List MemoryChunk
  totalChars : ℕ
  deriving DecidableEq

def isChunkBlank (c : UInt8) : Bool := c == 32 || c == 10 || c == 9

section Chunking

variable (text : Bytes) (chunkSize : ℕ)

def chunkCopyLen (offset : ℕ) : ℕ :=
  if text.length < offset + chunkSize then text.length - offset else chunkSize

/-- The loop over the last 20 bytes, which ends at the first blank it meets. -/
def chunkBreakPos (offset : ℕ) : ℕ :=
  let copyLen := chunkCopyLen text chunkSize offset
  let blankAt := fun i ↦ isChunkBlank (text.getD (offset + copyLen - 1 - i) 0)
  match (List.range (min 20 copyLen)).find? blankAt with
  | some i => copyLen - i
  | none => copyLen

/-- The loop with `n` chunks left. -/
def memoryChunkLoop : ℕ → ℕ → ChunkerResult → ChunkerResult
  | 0, _, result => result
  | n + 1, offset, result =>
      if offset < text.length then
        let breakPos := chunkBreakPos text chunkSize offset
        let chunk : MemoryChunk :=
          { start := offset
            stop := offset + breakPos
            text := (text.drop offset).take breakPos }
        memoryChunkLoop n (offset + breakPos)
          ⟨result.chunks ++ [chunk], result.totalChars + breakPos⟩
      else result

def numChunks : ℕ := (text.length + chunkSize - 1) / chunkSize

/-- The return value and the result; `callocs` says whether there is memory for
the chunks. -/
def memoryChunkText (callocs : Bool) : ℤ × ChunkerResult :=
  if text.length = 0 then (0, ⟨[], 0⟩)
  else if !callocs then (-1, ⟨[], 0⟩)
  else (0, memoryChunkLoop text chunkSize (numChunks text chunkSize) 0 ⟨[], 0⟩)

/-! ## Where a chunk ends -/

/-- Behind this position is a place to cut. -/
def ChunkPlace (k : ℕ) : Prop := 0 < k ∧ isChunkBlank (text.getD (k - 1) 0) = true

/-- The end of the window that starts at `offset`. -/
def chunkHigh (offset : ℕ) : ℕ := offset + min chunkSize (text.length - offset)

/-- The last 20 bytes of the window start here. -/
def chunkLow (offset : ℕ) : ℕ :=
  chunkHigh text chunkSize offset - min 20 (min chunkSize (text.length - offset))

def chunkStep (offset : ℕ) : ℕ := offset + chunkBreakPos text chunkSize offset

theorem chunkCopyLen_eq (offset : ℕ) :
    chunkCopyLen text chunkSize offset = min chunkSize (text.length - offset) := by
  unfold chunkCopyLen
  split_ifs <;> omega

theorem isCut_chunkStep (offset : ℕ) :
    IsCut (ChunkPlace text) (chunkLow text chunkSize offset) (chunkHigh text chunkSize offset)
      (chunkStep text chunkSize offset) := by
  unfold chunkStep chunkBreakPos chunkLow chunkHigh
  rw [chunkCopyLen_eq]
  dsimp only
  generalize min chunkSize (text.length - offset) = copyLen
  split
  · next i hfind =>
      obtain ⟨hblank, hi, hbefore⟩ := List.find?_range_eq_some.mp hfind
      have hlt := List.mem_range.mp hi
      refine ⟨by omega, fun j hj hhigh hplace ↦ ?_, .inl ⟨by omega, by omega, ?_⟩⟩
      · have hnot := hbefore (offset + copyLen - j) (by omega)
        rw [show offset + copyLen - 1 - (offset + copyLen - j) = j - 1 by omega, hplace.2] at hnot
        cases hnot
      · rwa [show offset + (copyLen - i) - 1 = offset + copyLen - 1 - i by omega]
  · next hfind =>
      have hnone : ∀ j, offset + copyLen - min 20 copyLen < j → j ≤ offset + copyLen →
          ¬ ChunkPlace text j := by
        intro j hlow hhigh hplace
        have hnot := List.find?_eq_none.mp hfind (offset + copyLen - j)
          (List.mem_range.mpr (by omega))
        rw [show offset + copyLen - 1 - (offset + copyLen - j) = j - 1 by omega] at hnot
        exact hnot hplace.2
      exact ⟨le_rfl, fun j hj hhigh ↦ hnone j (by omega) hhigh, .inr ⟨rfl, hnone⟩⟩

theorem monotone_chunkHigh : Monotone (chunkHigh text chunkSize) := by
  intro a b hab
  unfold chunkHigh
  omega

theorem monotone_chunkLow : Monotone (chunkLow text chunkSize) := by
  intro a b hab
  unfold chunkLow chunkHigh
  omega

theorem chunkStep_le (offset : ℕ) :
    chunkStep text chunkSize offset ≤ offset + min chunkSize (text.length - offset) :=
  (isCut_chunkStep text chunkSize offset).le_high

theorem le_chunkStep (offset : ℕ) : offset ≤ chunkStep text chunkSize offset :=
  Nat.le_add_right _ _

variable {text}

theorem chunkStep_iterate_le (n : ℕ) {offset : ℕ} (h : offset ≤ text.length) :
    (chunkStep text chunkSize)^[n] offset ≤ text.length := by
  induction n generalizing offset with
  | zero => exact h
  | succ n ih =>
      rw [Function.iterate_succ_apply]
      have hstep := chunkStep_le text chunkSize offset
      exact ih (by omega)

theorem chunkStep_of_le {offset : ℕ} (h : text.length ≤ offset) :
    chunkStep text chunkSize offset = offset := by
  have hstep := chunkStep_le text chunkSize offset
  have hle := le_chunkStep text chunkSize offset
  omega

/-! ## What the loop leaves -/

/-- The chunks follow each other from `a` to `b`. -/
def Contiguous : ℕ → List MemoryChunk → ℕ → Prop
  | a, [], b => a = b
  | a, chunk :: chunks, b => chunk.start = a ∧ Contiguous chunk.stop chunks b

/-- From `a` to `b` nothing of the text is lost. -/
structure Covers (text : Bytes) (chunkSize a b : ℕ) (chunks : List MemoryChunk) : Prop where
  contiguous : Contiguous a chunks b
  stop_eq : ∀ chunk ∈ chunks, chunk.stop = chunk.start + chunk.text.length
  text_eq : (chunks.map MemoryChunk.text).flatten = (text.drop a).take (b - a)
  length_le : ∀ chunk ∈ chunks, chunk.text.length ≤ chunkSize

variable {chunkSize} in
theorem Covers.cons {a b c : ℕ} {chunks : List MemoryChunk} (h : Covers text chunkSize b c chunks)
    (hab : a ≤ b) (hbc : b ≤ c) (hsize : b - a ≤ chunkSize) (hb : b ≤ text.length) :
    Covers text chunkSize a c (⟨a, b, (text.drop a).take (b - a)⟩ :: chunks) := by
  have hlen : ((text.drop a).take (b - a)).length = b - a := by
    rw [List.length_take, List.length_drop]
    omega
  refine ⟨⟨rfl, h.contiguous⟩, ?_, ?_, ?_⟩
  · refine List.forall_mem_cons.mpr ⟨?_, h.stop_eq⟩
    dsimp only
    omega
  · rw [List.map_cons, List.flatten_cons, h.text_eq]
    have hsplit : c - a = (b - a) + (c - b) := by omega
    rw [hsplit, List.take_add, List.drop_drop, Nat.add_sub_cancel' hab]
  · refine List.forall_mem_cons.mpr ⟨?_, h.length_le⟩
    rwa [hlen]

theorem memoryChunkLoop_covers (n : ℕ) {offset : ℕ} (h : offset ≤ text.length)
    (result : ChunkerResult) :
    ∃ chunks, Covers text chunkSize offset ((chunkStep text chunkSize)^[n] offset) chunks ∧
      memoryChunkLoop text chunkSize n offset result =
        ⟨result.chunks ++ chunks,
          result.totalChars + ((chunkStep text chunkSize)^[n] offset - offset)⟩ := by
  induction n generalizing offset result with
  | zero => exact ⟨[], ⟨rfl, by simp, by simp, by simp⟩, by simp [memoryChunkLoop]⟩
  | succ n ih =>
      rw [memoryChunkLoop, Function.iterate_succ_apply]
      split_ifs with hlt
      · have hstep := chunkStep_le text chunkSize offset
        have hle := le_chunkStep text chunkSize offset
        have hend : chunkStep text chunkSize offset ≤ text.length := by omega
        have hmore : chunkStep text chunkSize offset ≤
            (chunkStep text chunkSize)^[n] (chunkStep text chunkSize offset) :=
          Function.id_le_iterate_of_id_le (le_chunkStep text chunkSize) n _
        obtain ⟨chunks, hcovers, hloop⟩ := ih hend
          ⟨result.chunks ++ [⟨offset, chunkStep text chunkSize offset,
            (text.drop offset).take (chunkBreakPos text chunkSize offset)⟩],
            result.totalChars + chunkBreakPos text chunkSize offset⟩
        have hbreak : chunkStep text chunkSize offset - offset =
            chunkBreakPos text chunkSize offset := Nat.add_sub_cancel_left offset _
        refine ⟨_, hcovers.cons hle hmore (by omega) hend, ?_⟩
        refine hloop.trans ?_
        rw [hbreak, List.append_assoc, List.singleton_append, ChunkerResult.mk.injEq]
        refine ⟨rfl, ?_⟩
        dsimp only
        omega
      · have hfixed := chunkStep_of_le chunkSize (not_lt.mp hlt)
        rw [hfixed, Function.iterate_fixed hfixed]
        exact ⟨[], ⟨rfl, by simp, by simp, by simp⟩, by simp⟩

/-! ## Which texts come out whole -/

/-- Nothing of the text is lost. -/
structure ChunkedWhole (text : Bytes) (chunkSize : ℕ) (result : ChunkerResult) : Prop where
  contiguous : Contiguous 0 result.chunks text.length
  stop_eq : ∀ chunk ∈ result.chunks, chunk.stop = chunk.start + chunk.text.length
  text_eq : (result.chunks.map MemoryChunk.text).flatten = text
  length_le : ∀ chunk ∈ result.chunks, chunk.text.length ≤ chunkSize
  total : result.totalChars = text.length

/-- The text can be divided into as many pieces as there is room for chunks, none
longer than a chunk, and none that crosses the last blank among the last 20 bytes
of its window. -/
def Divides (text : Bytes) (chunkSize : ℕ) : Prop :=
  ∃ p : ℕ → ℕ, p 0 = 0 ∧ text.length ≤ p (numChunks text chunkSize) ∧
    ∀ i < numChunks text chunkSize, p i ≤ p (i + 1) ∧
      Allows (ChunkPlace text) (chunkLow text chunkSize (p i)) (chunkHigh text chunkSize (p i))
        (p (i + 1))

variable {chunkSize}

theorem divides_iff : Divides text chunkSize ↔
    text.length ≤ (chunkStep text chunkSize)^[numChunks text chunkSize] 0 :=
  (le_iterate_iff (isCut_chunkStep text chunkSize) (monotone_chunkLow text chunkSize)
    (monotone_chunkHigh text chunkSize) (le_chunkStep text chunkSize) _).symm

/-- A text without blanks divides into full windows. -/
theorem divides_of_no_blank (hpos : 1 ≤ chunkSize) (h : ∀ k, ¬ ChunkPlace text k) :
    Divides text chunkSize := by
  refine ⟨fun i ↦ min (i * chunkSize) text.length, by simp, ?_, fun i _ ↦ ?_⟩
  · have hroom : text.length ≤ numChunks text chunkSize * chunkSize := by
      have hdiv := Nat.div_add_mod (text.length + chunkSize - 1) chunkSize
      have hmod := Nat.mod_lt (text.length + chunkSize - 1) hpos
      rw [Nat.mul_comm] at hdiv
      unfold numChunks
      omega
    exact le_min hroom le_rfl
  · have hnext : (i + 1) * chunkSize = i * chunkSize + chunkSize := Nat.succ_mul i chunkSize
    refine ⟨?_, ?_, fun j _ _ hplace ↦ absurd hplace (h j)⟩
    · dsimp only
      omega
    · unfold chunkHigh
      dsimp only
      omega

end Chunking

/-- A chunk and its terminator fit the text of a `chunk_t`. -/
theorem memoryChunkText_fits (text : Bytes) {chunkSize : ℕ} (h : chunkSize < maxChunkSize) :
    ∀ chunk ∈ (memoryChunkText text chunkSize true).2.chunks,
      chunk.text.length < maxChunkSize := by
  obtain ⟨chunks, hcovers, hloop⟩ :=
    memoryChunkLoop_covers chunkSize (numChunks text chunkSize)
      (Nat.zero_le text.length) ⟨[], 0⟩
  intro chunk hchunk
  unfold memoryChunkText at hchunk
  split_ifs at hchunk with hempty
  · cases hchunk
  · cases hchunk
  · rw [hloop] at hchunk
    exact (hcovers.length_le chunk hchunk).trans_lt h

/-- The chunks hold the whole text exactly when it divides. -/
theorem memoryChunkText_whole_iff (text : Bytes) (chunkSize : ℕ) :
    ChunkedWhole text chunkSize (memoryChunkText text chunkSize true).2 ↔
      Divides text chunkSize := by
  rw [divides_iff]
  by_cases hempty : text.length = 0
  · have htext := List.length_eq_zero_iff.mp hempty
    subst htext
    refine iff_of_true ⟨rfl, ?_, rfl, ?_, rfl⟩ (Nat.zero_le _) <;> exact fun _ h ↦ nomatch h
  · obtain ⟨chunks, hcovers, hloop⟩ :=
      memoryChunkLoop_covers chunkSize (numChunks text chunkSize)
        (Nat.zero_le text.length) ⟨[], 0⟩
    have hend := chunkStep_iterate_le chunkSize (numChunks text chunkSize)
      (Nat.zero_le text.length)
    have hresult : (memoryChunkText text chunkSize true).2 =
        ⟨chunks, (chunkStep text chunkSize)^[numChunks text chunkSize] 0⟩ := by
      unfold memoryChunkText
      rw [if_neg hempty, if_neg (by decide), hloop, List.nil_append, Nat.zero_add, Nat.sub_zero]
    rw [hresult]
    constructor
    · exact fun h ↦ h.total.ge
    · intro h
      have hall := hend.antisymm h
      rw [hall] at hcovers ⊢
      refine ⟨hcovers.contiguous, hcovers.stop_eq, ?_, hcovers.length_le, rfl⟩
      rw [hcovers.text_eq, List.drop_zero, Nat.sub_zero, List.take_length]

/-- A text of 11 bytes is given one chunk of 2047 bytes, which ends at the blank. -/
theorem memoryChunkText_loses_text :
    ¬ ChunkedWhole (ascii "hello world") 2047
      (memoryChunkText (ascii "hello world") 2047 true).2 := by
  intro h
  have htotal := h.total
  revert htotal
  decide

end DoctorClaw
