import DoctorClaw.Rag.Chunks
import DoctorClaw.Lib.ExchangeSort

/-!
# Searching the RAG index

The chunks with an embedding are scored against the embedding of the query, the
scores are sorted together with the indices of their chunks, and the first of
them are copied into the result.  The score of two embeddings is a parameter.
-/

namespace DoctorClaw

open CString ExchangeSort

/-- `scored_chunk_t`. -/
structure ScoredChunk (S : Type*) where
  index : ℕ
  score : S

/-- `rag_result_t`.  Only the slots below 10 exist. -/
structure RagResult (S : Type*) where
  chunks : ℕ → Vector UInt8 ragChunkSize
  chunkCount : ℕ
  scores : ℕ → S

section Search

variable {S : Type*} (ragCosineSimilarity : Embedding → Embedding → S) (idx : RagIndex)
  (queryEmbedding : Embedding)

/-- One round of the loop that fills `scores`. -/
def pushScore (scores : List (ScoredChunk S)) (i : ℕ) : List (ScoredChunk S) :=
  if !(idx.chunks i).hasEmbedding then scores
  else
    let sim := ragCosineSimilarity queryEmbedding (idx.chunks i).embedding
    if scores.length < ragMaxChunks then scores ++ [⟨i, sim⟩] else scores

def ragScores : List (ScoredChunk S) :=
  (List.range idx.count).foldl (pushScore ragCosineSimilarity idx queryEmbedding) []

/-- One round of the loop that fills the result. -/
def RagResult.put (scores : ℕ → ScoredChunk S) (result : RagResult S) (i : ℕ) : RagResult S :=
  let doc := ofBuffer (idx.chunks (scores i).index).document.toList
  { result with
    chunks := Function.update result.chunks i (store (result.chunks i) doc)
    scores := Function.update result.scores i (scores i).score }

/-- What is returned, and the result afterwards.  The array `scores` holds `rest`
behind the scores that are stored in it. -/
def ragIndexSearch [LinearOrder S] (rest : ℕ → ScoredChunk S) (topK : ℕ) (result : RagResult S) :
    ℤ × RagResult S :=
  if idx.count = 0 then (0, { result with chunkCount := 0 })
  else
    let scored := ragScores ragCosineSimilarity idx queryEmbedding
    let scores := exchangeSort ScoredChunk.score scored.length fun i ↦ scored.getD i (rest i)
    let count := if topK < scored.length then topK else scored.length
    (0, (List.range count).foldl (RagResult.put idx scores) { result with chunkCount := count })

/-! ## The scored chunks -/

/-- The chunks with an embedding. -/
def RagIndex.embedded (idx : RagIndex) : List ℕ :=
  (List.range idx.count).filter fun i ↦ (idx.chunks i).hasEmbedding

def ragScore (i : ℕ) : S := ragCosineSimilarity queryEmbedding (idx.chunks i).embedding

variable {ragCosineSimilarity idx queryEmbedding}

/-- As long as there is room, every chunk with an embedding is scored. -/
theorem foldl_pushScore (ragCosineSimilarity : Embedding → Embedding → S)
    (queryEmbedding : Embedding) {n : ℕ} (hn : n ≤ ragMaxChunks) :
    (List.range n).foldl (pushScore ragCosineSimilarity idx queryEmbedding) [] =
      ((List.range n).filter fun i ↦ (idx.chunks i).hasEmbedding).map fun i ↦
        ⟨i, ragScore ragCosineSimilarity idx queryEmbedding i⟩ := by
  induction n with
  | zero => rfl
  | succ n ih =>
      have hroom : ((List.range n).filter fun i ↦ (idx.chunks i).hasEmbedding).length <
          ragMaxChunks := by
        have hle := List.length_filter_le (fun i ↦ (idx.chunks i).hasEmbedding) (List.range n)
        rw [List.length_range] at hle
        omega
      rw [List.range_succ, List.foldl_append, ih (by omega), List.filter_append, List.map_append,
        List.foldl_cons, List.foldl_nil, pushScore, List.length_map]
      cases hhas : (idx.chunks n).hasEmbedding with
      | false => simp [hhas]
      | true => simp [hhas, hroom, ragScore]

theorem ragScores_eq (ragCosineSimilarity : Embedding → Embedding → S)
    (queryEmbedding : Embedding) (hcount : idx.count ≤ ragMaxChunks) :
    ragScores ragCosineSimilarity idx queryEmbedding =
      idx.embedded.map fun i ↦ ⟨i, ragScore ragCosineSimilarity idx queryEmbedding i⟩ :=
  foldl_pushScore ragCosineSimilarity queryEmbedding hcount

theorem map_range_getD (l : List (ScoredChunk S)) (rest : ℕ → ScoredChunk S) :
    ((List.range l.length).map fun i ↦ l.getD i (rest i)) = l := by
  refine List.ext_getElem ?_ fun i hi hi' ↦ ?_
  · rw [List.length_map, List.length_range]
  · rw [List.getElem_map, List.getElem_range, List.getD_eq_getElem?_getD,
      List.getElem?_eq_getElem hi', Option.getD_some]

/-! ## The slots of the result -/

theorem foldl_put_chunkCount (idx : RagIndex) (scores : ℕ → ScoredChunk S) (n : ℕ)
    (result : RagResult S) :
    ((List.range n).foldl (RagResult.put idx scores) result).chunkCount = result.chunkCount := by
  induction n with
  | zero => rfl
  | succ n ih => rwa [List.range_succ, List.foldl_append]

/-- Slot `k` holds the text and the score of the chunk at place `k`. -/
theorem foldl_put_slot (idx : RagIndex) (scores : ℕ → ScoredChunk S) (result : RagResult S)
    {k n : ℕ} (hk : k < n) :
    ((List.range n).foldl (RagResult.put idx scores) result).scores k = (scores k).score ∧
      ofBuffer (((List.range n).foldl (RagResult.put idx scores) result).chunks k).toList =
        cut ragChunkSize (ofBuffer (idx.chunks (scores k).index).document.toList) := by
  induction n with
  | zero => exact absurd hk (Nat.not_lt_zero k)
  | succ n ih =>
      rw [List.range_succ, List.foldl_append, List.foldl_cons, List.foldl_nil, RagResult.put]
      dsimp only
      rcases Nat.lt_succ_iff_lt_or_eq.mp hk with hk | rfl
      · rw [Function.update_of_ne hk.ne, Function.update_of_ne hk.ne]
        exact ih hk
      · rw [Function.update_self, Function.update_self]
        refine ⟨rfl, (ofBuffer_store (by decide) _ _).trans ?_⟩
        exact ofBuffer_eq_self fun h ↦ zero_notMem_ofBuffer _ (List.mem_of_mem_take h)

/-! ## The best chunks -/

/-- The result holds the best of the chunks with an embedding, each chunk once,
better ones first, and each text beside its own score. -/
structure RagReturnsBest [LinearOrder S] (ragCosineSimilarity : Embedding → Embedding → S)
    (idx : RagIndex) (queryEmbedding : Embedding) (topK : ℕ) (result : RagResult S)
    (picked : List ℕ) : Prop where
  count : result.chunkCount = min topK idx.embedded.length
  slots : result.chunkCount ≤ ragResultChunks
  length : picked.length = result.chunkCount
  nodup : picked.Nodup
  embedded : ∀ i ∈ picked, i < idx.count ∧ (idx.chunks i).hasEmbedding = true
  paired : ∀ k (hk : k < picked.length),
    result.scores k = ragCosineSimilarity queryEmbedding (idx.chunks picked[k]).embedding ∧
      ofBuffer (result.chunks k).toList =
        (ofBuffer (idx.chunks picked[k]).document.toList).take 511
  sorted : ∀ k m, k < m → m < result.chunkCount → result.scores m ≤ result.scores k
  best : ∀ i < idx.count, (idx.chunks i).hasEmbedding = true → i ∉ picked →
    ∀ k < result.chunkCount,
      ragCosineSimilarity queryEmbedding (idx.chunks i).embedding ≤ result.scores k

/-- The array after the sort. -/
structure SortedScores [LinearOrder S] (ragCosineSimilarity : Embedding → Embedding → S)
    (idx : RagIndex) (queryEmbedding : Embedding) (scores : ℕ → ScoredChunk S) : Prop where
  order : ((List.range idx.embedded.length).map fun k ↦ (scores k).index).Perm idx.embedded
  paired : ∀ k < idx.embedded.length,
    (scores k).score = ragScore ragCosineSimilarity idx queryEmbedding (scores k).index
  antitone : ∀ k m, k < m → m < idx.embedded.length → (scores m).score ≤ (scores k).score

theorem sortedScores [LinearOrder S] (ragCosineSimilarity : Embedding → Embedding → S)
    (queryEmbedding : Embedding) (hcount : idx.count ≤ ragMaxChunks)
    (rest : ℕ → ScoredChunk S) :
    SortedScores ragCosineSimilarity idx queryEmbedding
      (exchangeSort ScoredChunk.score
        (ragScores ragCosineSimilarity idx queryEmbedding).length
        fun i ↦ (ragScores ragCosineSimilarity idx queryEmbedding).getD i (rest i)) := by
  have hscores := ragScores_eq ragCosineSimilarity queryEmbedding hcount
  have hlen : (ragScores ragCosineSimilarity idx queryEmbedding).length =
      idx.embedded.length := by
    rw [hscores, List.length_map]
  have hperm := perm_exchangeSort ScoredChunk.score
    (ragScores ragCosineSimilarity idx queryEmbedding).length
    fun i ↦ (ragScores ragCosineSimilarity idx queryEmbedding).getD i (rest i)
  rw [map_range_getD] at hperm
  refine ⟨?_, fun k hk ↦ ?_, fun k m hkm hm ↦ ?_⟩
  · have hindex := hperm.map ScoredChunk.index
    rw [List.map_map] at hindex
    rw [← hlen]
    refine hindex.trans (List.Perm.of_eq ?_)
    rw [hscores, List.map_map]
    exact List.map_id _
  · have hmem := hperm.mem_iff.mp
      (List.mem_map_of_mem (List.mem_range.mpr (hlen ▸ hk)))
    rw [hscores] at hmem
    obtain ⟨i, -, hi⟩ := List.mem_map.mp hmem
    rw [← hscores] at hi
    rw [← hi]
  · exact exchangeSort_antitone _ _ _ hkm (hlen ▸ hm)

theorem RagIndex.mem_embedded_iff {i : ℕ} :
    i ∈ idx.embedded ↔ i < idx.count ∧ (idx.chunks i).hasEmbedding = true := by
  rw [embedded, List.mem_filter, List.mem_range]

/-- The first places of the sorted array fill the slots of the result. -/
theorem SortedScores.returnsBest [LinearOrder S] {scores : ℕ → ScoredChunk S}
    (h : SortedScores ragCosineSimilarity idx queryEmbedding scores) (result : RagResult S)
    {topK n : ℕ} (htop : topK ≤ ragResultChunks) (hn : min topK idx.embedded.length = n) :
    RagReturnsBest ragCosineSimilarity idx queryEmbedding topK
      ((List.range n).foldl (RagResult.put idx scores) { result with chunkCount := n })
      ((List.range n).map fun k ↦ (scores k).index) := by
  have hslot := fun k (hk : k < n) ↦
    foldl_put_slot idx scores { result with chunkCount := n } hk
  have hcount := foldl_put_chunkCount idx scores n { result with chunkCount := n }
  generalize (List.range n).foldl (RagResult.put idx scores) _ = final at hslot hcount
  dsimp only at hcount
  have htake : ((List.range n).map fun k ↦ (scores k).index) =
      ((List.range idx.embedded.length).map fun k ↦ (scores k).index).take n := by
    rw [← List.map_take, List.take_range, min_eq_left (by omega)]
  refine ⟨?_, ?_, ?_, ?_, ?_, ?_, ?_, ?_⟩
  · rw [hcount, hn]
  · rw [hcount]
    omega
  · rw [hcount, List.length_map, List.length_range]
  · rw [htake]
    have hnodup : idx.embedded.Nodup := List.nodup_range.filter _
    exact (h.order.nodup_iff.mpr hnodup).sublist (List.take_sublist _ _)
  · intro i hi
    rw [htake] at hi
    exact RagIndex.mem_embedded_iff.mp (h.order.mem_iff.mp (List.mem_of_mem_take hi))
  · intro k hk
    rw [List.length_map, List.length_range] at hk
    rw [List.getElem_map, List.getElem_range, (hslot k hk).1, (hslot k hk).2,
      h.paired k (by omega)]
    exact ⟨rfl, rfl⟩
  · intro k m hkm hm
    rw [hcount] at hm
    rw [(hslot m hm).1, (hslot k (hkm.trans hm)).1]
    exact h.antitone k m hkm (by omega)
  · intro i hi hhas hnot k hk
    rw [hcount] at hk
    -- the chunk stands behind the cut
    obtain ⟨m, hm, rfl⟩ :=
      List.mem_map.mp (h.order.mem_iff.mpr (RagIndex.mem_embedded_iff.mpr ⟨hi, hhas⟩))
    have hmn : n ≤ m := by
      by_contra hlt
      exact hnot (List.mem_map_of_mem (List.mem_range.mpr (by omega)))
    have hmlt := List.mem_range.mp hm
    have hle := h.antitone k m (by omega) hmlt
    rw [h.paired m hmlt] at hle
    rw [(hslot k hk).1]
    exact hle

theorem returnsBest_of_count_eq_zero [LinearOrder S] (hzero : idx.count = 0) (topK : ℕ)
    (result : RagResult S) :
    RagReturnsBest ragCosineSimilarity idx queryEmbedding topK
      { result with chunkCount := 0 } [] := by
  have hnone : idx.embedded = [] := by
    rw [RagIndex.embedded, hzero]
    rfl
  refine ⟨?_, Nat.zero_le _, rfl, List.nodup_nil, ?_, ?_, ?_, ?_⟩
  · rw [hnone]
    exact (Nat.min_zero topK).symm
  · exact fun i hi ↦ nomatch hi
  · exact fun k hk ↦ absurd hk (Nat.not_lt_zero k)
  · exact fun k m _ hm ↦ absurd hm (Nat.not_lt_zero m)
  · exact fun i hi ↦ by omega

/-- The search returns the best chunks, whatever the array held before. -/
theorem ragIndexSearch_returnsBest [LinearOrder S]
    (ragCosineSimilarity : Embedding → Embedding → S) (idx : RagIndex)
    (queryEmbedding : Embedding) (rest : ℕ → ScoredChunk S) (topK : ℕ) (result : RagResult S)
    (hcount : idx.count ≤ 256) (htop : topK ≤ 10) :
    (ragIndexSearch ragCosineSimilarity idx queryEmbedding rest topK result).1 = 0 ∧
      ∃ picked, RagReturnsBest ragCosineSimilarity idx queryEmbedding topK
        (ragIndexSearch ragCosineSimilarity idx queryEmbedding rest topK result).2 picked := by
  unfold ragIndexSearch
  split_ifs with hzero
  · exact ⟨rfl, [], returnsBest_of_count_eq_zero hzero topK result⟩
  · have hlen : (ragScores ragCosineSimilarity idx queryEmbedding).length =
        idx.embedded.length := by
      rw [ragScores_eq _ _ hcount, List.length_map]
    have hmin : (if topK < idx.embedded.length then topK else idx.embedded.length) =
        min topK idx.embedded.length := by
      split_ifs <;> omega
    have hbest := (sortedScores ragCosineSimilarity queryEmbedding hcount rest).returnsBest
      result htop rfl
    dsimp only
    rw [hlen] at hbest ⊢
    rw [hmin]
    exact ⟨rfl, _, hbest⟩

/-- Two chunks, the second of which is the better one. -/
def twoChunks : RagIndex :=
  ragIndexAfter (fun document ↦ Vector.replicate _ (document.headD 0))
    [.add [97] none 0, .add [98] none 0]

def firstByte (_ e : Embedding) : ℕ := (e.toList.headD 0).toNat

theorem ragIndexSearch_returnsBest_two :
    twoChunks.count ≤ 256 ∧ 1 ≤ 10 ∧
      ∃ picked, RagReturnsBest firstByte twoChunks RagChunk.zero.embedding 1
        (ragIndexSearch firstByte twoChunks RagChunk.zero.embedding
          (fun _ ↦ ⟨0, 0⟩) 1 ⟨fun _ ↦ Vector.replicate _ 0, 0, fun _ ↦ 0⟩).2 picked :=
  ⟨by decide, by decide, (ragIndexSearch_returnsBest firstByte twoChunks RagChunk.zero.embedding
    (fun _ ↦ ⟨0, 0⟩) 1 ⟨fun _ ↦ Vector.replicate _ 0, 0, fun _ ↦ 0⟩
    (by decide) (by decide)).2⟩

end Search

end DoctorClaw
