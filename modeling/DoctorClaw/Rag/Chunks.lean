import DoctorClaw.Rag
import Mathlib.Algebra.GroupWithZero.Nat
import Mathlib.Algebra.Order.BigOperators.Group.List

/-!
# Chunks of a document

`rag_chunk_text` cuts at most ten chunks from a text.  It steps 50 bytes back
behind a longer chunk, so that the next chunk begins with the end of this one.
-/

namespace DoctorClaw

/-- The slots of the result that a caller has. -/
def ragResultChunks : ℕ := 10

def ragOverlap (thisChunk : ℕ) : ℕ := if 50 < thisChunk then 50 else 0

section Chunking

variable (text : Bytes) (chunkSize : ℕ)

def ragThisChunk (pos : ℕ) : ℕ :=
  let remaining := text.length - pos
  if remaining < chunkSize then remaining else chunkSize

/-- The loop with `n` slots left. -/
def ragChunkLoop : ℕ → ℕ → List Bytes
  | 0, _ => []
  | n + 1, pos =>
      if pos < text.length then
        let thisChunk := ragThisChunk text chunkSize pos
        let next := pos + thisChunk
        let next := if next < text.length ∧ 0 < n then next - ragOverlap thisChunk else next
        (text.drop pos).take thisChunk :: ragChunkLoop n next
      else []

/-- The chunks, as many as `chunk_count` says. -/
def ragChunkText : List Bytes :=
  if text.length = 0 then [] else ragChunkLoop text chunkSize ragResultChunks 0

end Chunking

/-! ## What the chunks are of the text -/

/-- The bytes of a chunk in front of its overlap with the next one. -/
def ragAdvance (chunk : Bytes) : ℕ := chunk.length - ragOverlap chunk.length

/-- Chunk `k` begins here. -/
def ragChunkStart (chunks : List Bytes) (k : ℕ) : ℕ := ((chunks.take k).map ragAdvance).sum

/-- The chunks one after the other, without the overlaps. -/
def dropOverlaps : List Bytes → Bytes
  | [] => []
  | [chunk] => chunk
  | chunk :: next :: chunks => chunk.take (ragAdvance chunk) ++ dropOverlaps (next :: chunks)

/-- At most ten chunks of the text, each with the end of the one before it. -/
structure RagChunked (text : Bytes) (chunkSize : ℕ) (chunks : List Bytes) : Prop where
  count_le : chunks.length ≤ ragResultChunks
  length : ∀ chunk ∈ chunks, 1 ≤ chunk.length ∧ chunk.length ≤ chunkSize
  chunk_eq : ∀ k (hk : k < chunks.length),
    chunks[k] = (text.drop (ragChunkStart chunks k)).take chunks[k].length
  overlap : ∀ k (hk : k < chunks.length),
    ragChunkStart chunks (k + 1) + (if 50 < chunks[k].length then 50 else 0) =
      ragChunkStart chunks k + chunks[k].length
  front : dropOverlaps chunks <+: text
  whole : chunks.length < ragResultChunks → dropOverlaps chunks = text

@[simp] theorem ragChunkStart_zero (chunks : List Bytes) : ragChunkStart chunks 0 = 0 := rfl

@[simp] theorem ragChunkStart_cons_succ (chunk : Bytes) (chunks : List Bytes) (k : ℕ) :
    ragChunkStart (chunk :: chunks) (k + 1) = ragAdvance chunk + ragChunkStart chunks k := by
  rw [ragChunkStart, List.take_succ_cons, List.map_cons, List.sum_cons, ragChunkStart]

/-- The start moves behind the chunk and back over the overlap. -/
theorem ragChunkStart_succ {chunks : List Bytes} {k : ℕ} (hk : k < chunks.length) :
    ragChunkStart chunks (k + 1) + ragOverlap chunks[k].length =
      ragChunkStart chunks k + chunks[k].length := by
  have hle : ragOverlap chunks[k].length ≤ chunks[k].length := by
    unfold ragOverlap
    split_ifs <;> omega
  have hsum : ragChunkStart chunks (k + 1) = ragChunkStart chunks k + ragAdvance chunks[k] := by
    rw [ragChunkStart, List.take_succ_eq_append_getElem hk, List.map_append, List.sum_append,
      List.map_singleton, List.sum_singleton, ragChunkStart]
  rw [hsum, ragAdvance]
  omega

/-! ## The loop -/

section Loop

variable {text : Bytes} {chunkSize : ℕ}

theorem ragThisChunk_eq (text : Bytes) (chunkSize pos : ℕ) :
    ragThisChunk text chunkSize pos = min (text.length - pos) chunkSize := by
  unfold ragThisChunk
  dsimp only
  split_ifs <;> omega

/-- The chunk that the loop cuts at `pos`. -/
def ragChunkAt (text : Bytes) (chunkSize pos : ℕ) : Bytes :=
  (text.drop pos).take (ragThisChunk text chunkSize pos)

theorem length_ragChunkAt (text : Bytes) (chunkSize pos : ℕ) :
    (ragChunkAt text chunkSize pos).length = min (text.length - pos) chunkSize := by
  rw [ragChunkAt, ragThisChunk_eq, List.length_take, List.length_drop]
  omega

theorem ragChunkLoop_of_le {pos : ℕ} (h : text.length ≤ pos) (n : ℕ) :
    ragChunkLoop text chunkSize n pos = [] := by
  cases n with
  | zero => rfl
  | succ n => rw [ragChunkLoop, if_neg (not_lt.mpr h)]

/-- One round: the next chunk starts in front of the overlap, and the chunk that
reaches the end of the text is the last one. -/
theorem ragChunkLoop_succ {pos : ℕ} (h : pos < text.length) (n : ℕ) :
    ragChunkLoop text chunkSize (n + 1) pos = ragChunkAt text chunkSize pos ::
      if text.length ≤ pos + chunkSize then []
      else ragChunkLoop text chunkSize n (pos + ragAdvance (ragChunkAt text chunkSize pos)) := by
  have hlen := length_ragChunkAt text chunkSize pos
  have hthis := ragThisChunk_eq text chunkSize pos
  rw [ragChunkLoop, if_pos h]
  dsimp only
  rw [ragChunkAt] at hlen ⊢
  congr 1
  split_ifs with hnext hall hall
  · omega
  · have hle : ragOverlap (ragThisChunk text chunkSize pos) ≤ ragThisChunk text chunkSize pos := by
      unfold ragOverlap
      split_ifs <;> omega
    rw [ragAdvance, hlen, ← hthis, Nat.add_sub_assoc hle]
  · exact ragChunkLoop_of_le (by omega) n
  · have hn : n = 0 := by omega
    subst hn
    rfl

theorem length_ragChunkLoop_le (n pos : ℕ) :
    (ragChunkLoop text chunkSize n pos).length ≤ n := by
  induction n generalizing pos with
  | zero => exact le_rfl
  | succ n ih =>
      by_cases h : pos < text.length
      · rw [ragChunkLoop_succ h, List.length_cons]
        split_ifs
        · exact Nat.succ_le_succ (Nat.zero_le n)
        · exact Nat.succ_le_succ (ih _)
      · rw [ragChunkLoop_of_le (not_lt.mp h)]
        exact Nat.zero_le _

theorem mem_ragChunkLoop (hpos : 1 ≤ chunkSize) {n pos : ℕ} {chunk : Bytes}
    (h : chunk ∈ ragChunkLoop text chunkSize n pos) :
    1 ≤ chunk.length ∧ chunk.length ≤ chunkSize := by
  induction n generalizing pos with
  | zero => cases h
  | succ n ih =>
      by_cases hlt : pos < text.length
      · rw [ragChunkLoop_succ hlt] at h
        have hlen := length_ragChunkAt text chunkSize pos
        rcases List.mem_cons.mp h with rfl | h
        · omega
        · split_ifs at h
          · cases h
          · exact ih h
      · rw [ragChunkLoop_of_le (not_lt.mp hlt)] at h
        cases h

theorem ragChunkLoop_chunk_eq {n pos : ℕ} :
    ∀ k (hk : k < (ragChunkLoop text chunkSize n pos).length),
      (ragChunkLoop text chunkSize n pos)[k] =
        (text.drop (pos + ragChunkStart (ragChunkLoop text chunkSize n pos) k)).take
          (ragChunkLoop text chunkSize n pos)[k].length := by
  induction n generalizing pos with
  | zero => exact fun k hk ↦ absurd hk (Nat.not_lt_zero k)
  | succ n ih =>
      by_cases hlt : pos < text.length
      · rw [ragChunkLoop_succ hlt]
        intro k hk
        cases k with
        | zero =>
            have hlen := length_ragChunkAt text chunkSize pos
            rw [List.getElem_cons_zero, ragChunkStart_zero, Nat.add_zero, hlen, ragChunkAt,
              ragThisChunk_eq]
        | succ k =>
            split_ifs at hk ⊢
            · rw [List.length_singleton] at hk
              omega
            · rw [List.getElem_cons_succ, ragChunkStart_cons_succ, ← Nat.add_assoc]
              exact ih k (Nat.lt_of_succ_lt_succ hk)
      · rw [ragChunkLoop_of_le (not_lt.mp hlt)]
        exact fun k hk ↦ absurd hk (Nat.not_lt_zero k)

/-- Without the overlaps the chunks are the text from `pos` on, or the front of it
when the slots run out. -/
theorem dropOverlaps_ragChunkLoop (text : Bytes) (hpos : 1 ≤ chunkSize) (n pos : ℕ) :
    dropOverlaps (ragChunkLoop text chunkSize n pos) <+: text.drop pos ∧
      ((ragChunkLoop text chunkSize n pos).length < n →
        dropOverlaps (ragChunkLoop text chunkSize n pos) = text.drop pos) := by
  induction n generalizing pos with
  | zero => exact ⟨List.nil_prefix, fun h ↦ absurd h (Nat.not_lt_zero _)⟩
  | succ n ih =>
      by_cases hlt : pos < text.length
      · rw [ragChunkLoop_succ hlt]
        have hlen := length_ragChunkAt text chunkSize pos
        have hpre : ragChunkAt text chunkSize pos <+: text.drop pos := List.take_prefix _ _
        split_ifs with hall
        · have hwhole : ragChunkAt text chunkSize pos = text.drop pos := by
            refine hpre.eq_of_length ?_
            rw [hlen, List.length_drop]
            omega
          exact ⟨hpre, fun _ ↦ hwhole⟩
        · obtain ⟨hfront, hrest⟩ := ih (pos + ragAdvance (ragChunkAt text chunkSize pos))
          have hsplit : text.drop pos =
              (ragChunkAt text chunkSize pos).take (ragAdvance (ragChunkAt text chunkSize pos)) ++
                text.drop (pos + ragAdvance (ragChunkAt text chunkSize pos)) := by
            rw [← List.drop_drop, ragChunkAt, List.take_take, min_eq_left, List.take_append_drop]
            rw [← ragChunkAt, ragAdvance, hlen, ragThisChunk_eq]
            exact Nat.sub_le _ _
          cases n with
          | zero => exact ⟨hpre, fun h ↦ absurd h (by simp [ragChunkLoop])⟩
          | succ n =>
              have hnext : pos + ragAdvance (ragChunkAt text chunkSize pos) < text.length := by
                rw [ragAdvance]
                omega
              rw [ragChunkLoop_succ hnext] at hfront hrest ⊢
              rw [dropOverlaps, hsplit]
              refine ⟨(List.prefix_append_right_inj _).mpr hfront, fun h ↦ ?_⟩
              rw [hrest (Nat.lt_of_succ_lt_succ h)]
      · rw [ragChunkLoop_of_le (not_lt.mp hlt), List.drop_eq_nil_of_le (not_lt.mp hlt)]
        exact ⟨List.nil_prefix, fun _ ↦ rfl⟩

end Loop

theorem ragChunkText_eq (text : Bytes) (chunkSize : ℕ) :
    ragChunkText text chunkSize = ragChunkLoop text chunkSize ragResultChunks 0 := by
  unfold ragChunkText
  split_ifs with hempty
  · rw [ragChunkLoop_of_le hempty.le]
  · rfl

/-- A chunk and its terminator fit a slot. -/
theorem ragChunkText_fits (text : Bytes) {chunkSize : ℕ} (hpos : 1 ≤ chunkSize)
    (hsize : chunkSize < ragChunkSize) :
    ∀ chunk ∈ ragChunkText text chunkSize, chunk.length < ragChunkSize := by
  intro chunk hchunk
  rw [ragChunkText_eq] at hchunk
  exact (mem_ragChunkLoop hpos hchunk).2.trans_lt hsize

/-- The chunks of every text overlap as they should, and lose something only
when all ten slots are used. -/
theorem ragChunkText_chunked (text : Bytes) {chunkSize : ℕ} (hpos : 1 ≤ chunkSize) :
    RagChunked text chunkSize (ragChunkText text chunkSize) := by
  rw [ragChunkText_eq]
  obtain ⟨hpre, hwhole⟩ :=
    dropOverlaps_ragChunkLoop text hpos ragResultChunks 0
  rw [List.drop_zero] at hpre hwhole
  refine ⟨length_ragChunkLoop_le _ _, fun chunk h ↦ mem_ragChunkLoop hpos h, fun k hk ↦ ?_,
    fun k hk ↦ ragChunkStart_succ hk, hpre, hwhole⟩
  simpa only [Nat.zero_add] using ragChunkLoop_chunk_eq k hk

/-- Two chunks of 100 bytes that overlap in 50. -/
theorem ragChunkText_chunked_one :
    let text : Bytes := List.replicate 150 97
    1 ≤ 100 ∧ (ragChunkText text 100).map List.length = [100, 100] ∧
      RagChunked text 100 (ragChunkText text 100) :=
  ⟨by decide, by decide +kernel, ragChunkText_chunked (List.replicate 150 97) (by decide)⟩

end DoctorClaw
