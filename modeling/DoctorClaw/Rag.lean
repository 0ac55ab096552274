import DoctorClaw.Lib.Binary
import Mathlib.Data.List.Induction
import Mathlib.Logic.Function.Basic

/-!
# The RAG index

An index holds up to 256 chunks.  `rag_index_save` writes the number of chunks
and then the fields of each chunk, and `rag_index_load` reads them back field by
field.  The embedding of a text is a parameter; the 384 doubles of an embedding
are the bytes they are stored in.
-/

namespace DoctorClaw

open CString Binary

def ragMaxChunks : ℕ := 256

def ragChunkSize : ℕ := 512

def ragDocumentSize : ℕ := 16384

def ragSourceSize : ℕ := 256

def ragEmbeddingDim : ℕ := 384

/-- `sizeof(size_t)`, `sizeof(uint64_t)` and `sizeof(double)`. -/
def wordSize : ℕ := 8

abbrev Embedding := Vector UInt8 (ragEmbeddingDim * wordSize)

/-- `rag_chunk_t`. -/
structure RagChunk where
  document : Vector UInt8 ragDocumentSize
  source : Vector UInt8 ragSourceSize
  timestamp : UInt64
  embedding : Embedding
  embeddingDim : ℕ
  hasEmbedding : Bool

/-- `rag_index_t`.  Only the chunks below 256 exist. -/
structure RagIndex where
  chunks : ℕ → RagChunk
  count : ℕ

def RagChunk.zero : RagChunk where
  document := Vector.replicate _ 0
  source := Vector.replicate _ 0
  timestamp := 0
  embedding := Vector.replicate _ 0
  embeddingDim := 0
  hasEmbedding := false

def ragIndexInit : RagIndex := ⟨fun _ ↦ RagChunk.zero, 0⟩

section Add

variable (computeEmbedding : Bytes → Embedding)

/-- The common body of the two functions that add a chunk: what is returned,
and the index afterwards.  `source` is `none` for a null pointer, and `now` is
the reading of the clock. -/
def ragIndexPut (idx : RagIndex) (document : Bytes) (source : Option Bytes) (now : UInt64)
    (embedding : Embedding) : ℤ × RagIndex :=
  if ragMaxChunks ≤ idx.count then (-1, idx)
  else
    let chunk := idx.chunks idx.count
    let chunk :=
      { document := store chunk.document document
        source := source.elim chunk.source (store chunk.source)
        timestamp := now
        embedding := embedding
        hasEmbedding := true
        embeddingDim := ragEmbeddingDim }
    (0, ⟨Function.update idx.chunks idx.count chunk, idx.count + 1⟩)

def ragIndexAdd (idx : RagIndex) (document : Bytes) (source : Option Bytes) (now : UInt64) :
    ℤ × RagIndex :=
  ragIndexPut idx document source now (computeEmbedding document)

def ragIndexAddWithEmbedding (idx : RagIndex) (document : Bytes) (source : Option Bytes)
    (embedding : Option Embedding) (now : UInt64) : ℤ × RagIndex :=
  ragIndexPut idx document source now (embedding.getD (computeEmbedding document))

inductive RagCall
  | add (document : Bytes) (source : Option Bytes) (now : UInt64)
  | addWithEmbedding (document : Bytes) (source : Option Bytes) (embedding : Option Embedding)
      (now : UInt64)

def RagCall.perform (idx : RagIndex) : RagCall → ℤ × RagIndex
  | add document source now => ragIndexAdd computeEmbedding idx document source now
  | addWithEmbedding document source embedding now =>
      ragIndexAddWithEmbedding computeEmbedding idx document source embedding now

/-- The index that the calls build. -/
def ragIndexAfter (calls : List RagCall) : RagIndex :=
  calls.foldl (fun idx call ↦ (call.perform computeEmbedding idx).2) ragIndexInit

end Add

/-! ## The file -/

/-- `fwrite` of the length of a string and of the string with its
terminator. -/
def writeString {size : ℕ} (buffer : Vector UInt8 size) : Bytes :=
  encode wordSize ((ofBuffer buffer.toList).length + 1) ++
    buffer.toList.take ((ofBuffer buffer.toList).length + 1)

def RagChunk.write (chunk : RagChunk) : Bytes :=
  writeString chunk.document ++ writeString chunk.source ++
    encode wordSize chunk.timestamp.toNat ++ [if chunk.hasEmbedding then 1 else 0] ++
    chunk.embedding.toList

def ragIndexSave (idx : RagIndex) : Bytes :=
  encode wordSize idx.count ++ (List.range idx.count).flatMap fun i ↦ (idx.chunks i).write

/-- The bytes that `doc_len` and `src_len` hold before they are read. -/
structure LoadJunk where
  docLen : Vector UInt8 wordSize
  srcLen : Vector UInt8 wordSize

/-- `fread` of a length into an uninitialized word and of that many bytes into
a buffer; `none` is a store past the end of the buffer. -/
def readString {size : ℕ} (junk : Vector UInt8 wordSize) (buffer : Vector UInt8 size)
    (file : Bytes) : Option (Vector UInt8 size × Bytes) :=
  let (word, file) := fread wordSize file
  let (text, file) := fread (decode (overwrite junk.toList word)) file
  if text.length ≤ size then some (readInto buffer text, file) else none

def readWord (old : UInt64) (file : Bytes) : UInt64 × Bytes :=
  let (word, file) := fread wordSize file
  (UInt64.ofNat (decode (overwrite (encode wordSize old.toNat) word)), file)

/-- One round of the loop. -/
def RagChunk.read (junk : LoadJunk) (chunk : RagChunk) (file : Bytes) : Option (RagChunk × Bytes) :=
  (readString junk.docLen chunk.document file).bind fun (document, file) ↦
    (readString junk.srcLen chunk.source file).map fun (source, file) ↦
      let (timestamp, file) := readWord chunk.timestamp file
      let (flag, file) := fread 1 file
      let (embedding, file) := fread (ragEmbeddingDim * wordSize) file
      ({ document, source, timestamp
         hasEmbedding := flag.head?.elim chunk.hasEmbedding fun b ↦ b ≠ 0
         embedding := readInto chunk.embedding embedding
         embeddingDim := ragEmbeddingDim }, file)

/-- `rounds` rounds of the loop from chunk `i` on. -/
def readChunks (junk : ℕ → LoadJunk) :
    ℕ → ℕ → (ℕ → RagChunk) → Bytes → Option ((ℕ → RagChunk) × Bytes)
  | 0, _, chunks, file => some (chunks, file)
  | rounds + 1, i, chunks, file =>
      ((chunks i).read (junk i) file).bind fun (chunk, file) ↦
        readChunks junk rounds (i + 1) (Function.update chunks i chunk) file

/-- What is returned, and the index afterwards.  The file is `none` when it
cannot be opened; the result is `none` when a store leaves its buffer. -/
def ragIndexLoad (junk : ℕ → LoadJunk) (idx : RagIndex) : Option Bytes → Option (ℤ × RagIndex)
  | none => some (0, idx)
  | some file =>
      let (word, file) := fread wordSize file
      if word.length < wordSize then some (-1, idx)
      else if ragMaxChunks < decode word then some (-1, idx)
      else (readChunks junk (decode word) 0 idx.chunks file).map fun (chunks, _) ↦
        (0, ⟨chunks, decode word⟩)

/-! ## Reading what was written -/

variable {chunk old : RagChunk} {chunks : ℕ → RagChunk} {rest : Bytes}

/-- Both strings of the chunk end inside their buffers. -/
structure RagChunk.Terminated (chunk : RagChunk) : Prop where
  document : (0 : UInt8) ∈ chunk.document.toList
  source : (0 : UInt8) ∈ chunk.source.toList

/-- What a file keeps of a chunk. -/
def RagChunk.kept (chunk : RagChunk) : Bytes × Bytes × UInt64 × Bool × Embedding :=
  (ofBuffer chunk.document.toList, ofBuffer chunk.source.toList, chunk.timestamp,
    chunk.hasEmbedding, chunk.embedding)

theorem readString_write {size : ℕ} {buffer : Vector UInt8 size} (hsize : size < 2 ^ 64)
    (hzero : (0 : UInt8) ∈ buffer.toList) (junk : Vector UInt8 wordSize) (old : Vector UInt8 size)
    (rest : Bytes) :
    readString junk old (writeString buffer ++ rest) =
      some (readInto old (ofBuffer buffer.toList ++ [0]), rest) := by
  have hlt := length_ofBuffer_lt hzero
  rw [Vector.length_toList] at hlt
  have hword : (encode wordSize ((ofBuffer buffer.toList).length + 1)).length = wordSize :=
    length_encode _ _
  have hover : overwrite junk.toList (encode wordSize ((ofBuffer buffer.toList).length + 1)) =
      encode wordSize ((ofBuffer buffer.toList).length + 1) :=
    overwrite_of_length_le (by rw [hword, Vector.length_toList])
  have hlen : decode (encode wordSize ((ofBuffer buffer.toList).length + 1)) =
      (ofBuffer buffer.toList).length + 1 :=
    decode_encode (show _ < 256 ^ 8 by omega)
  have htext : (ofBuffer buffer.toList ++ [0]).length = (ofBuffer buffer.toList).length + 1 := by
    rw [List.length_append, List.length_singleton]
  rw [readString, writeString, take_length_ofBuffer hzero, List.append_assoc, fread_append hword]
  simp only [hover, hlen, fread_append htext]
  rw [if_pos (by omega)]

theorem readWord_write (old value : UInt64) (rest : Bytes) :
    readWord old (encode wordSize value.toNat ++ rest) = (value, rest) := by
  have hword : ∀ v : UInt64, (encode wordSize v.toNat).length = wordSize :=
    fun v ↦ length_encode _ _
  have hover : overwrite (encode wordSize old.toNat) (encode wordSize value.toNat) =
      encode wordSize value.toNat :=
    overwrite_of_length_le (by rw [hword, hword])
  rw [readWord, fread_append (hword value)]
  simp only [hover]
  have hvalue : decode (encode wordSize value.toNat) = value.toNat :=
    decode_encode (show _ < 256 ^ 8 from value.toNat_lt)
  rw [hvalue, UInt64.ofNat_toNat]

/-- A chunk that was written is read back, whatever the slot held before. -/
theorem RagChunk.read_write (hchunk : chunk.Terminated) (junk : LoadJunk) (old : RagChunk)
    (rest : Bytes) :
    ∃ chunk', old.read junk (chunk.write ++ rest) = some (chunk', rest) ∧
      chunk'.kept = chunk.kept := by
  have hdoc : ofBuffer (readInto old.document (ofBuffer chunk.document.toList ++ [0])).toList =
      ofBuffer chunk.document.toList :=
    ofBuffer_readInto (zero_notMem_ofBuffer _)
      (by simpa using length_ofBuffer_lt hchunk.document) _
  have hsrc : ofBuffer (readInto old.source (ofBuffer chunk.source.toList ++ [0])).toList =
      ofBuffer chunk.source.toList :=
    ofBuffer_readInto (zero_notMem_ofBuffer _) (by simpa using length_ofBuffer_lt hchunk.source) _
  have hflag : ([if chunk.hasEmbedding then 1 else 0] : Bytes).length = 1 := rfl
  have hembedding : chunk.embedding.toList.length = ragEmbeddingDim * wordSize :=
    chunk.embedding.length_toList
  have hbool : decide ((if chunk.hasEmbedding then (1 : UInt8) else 0) ≠ 0) =
      chunk.hasEmbedding := by
    cases chunk.hasEmbedding <;> decide
  simp only [RagChunk.read, RagChunk.write, List.append_assoc,
    readString_write (by decide) hchunk.document, readString_write (by decide) hchunk.source,
    Option.bind_some, Option.map_some, readWord_write, fread_append hflag, fread_append hembedding]
  refine ⟨_, rfl, ?_⟩
  simp only [RagChunk.kept, hdoc, hsrc, readInto_toList, List.head?_cons, Option.elim_some, hbool]

/-- The loop reads a list of written chunks into consecutive slots and leaves
the slots in front of them alone. -/
theorem readChunks_write (cs : List RagChunk) (hcs : ∀ c ∈ cs, c.Terminated)
    (junk : ℕ → LoadJunk) (i : ℕ) (chunks : ℕ → RagChunk) (rest : Bytes) :
    ∃ chunks', readChunks junk cs.length i chunks (cs.flatMap RagChunk.write ++ rest) =
        some (chunks', rest) ∧
      ((List.range cs.length).map fun k ↦ (chunks' (i + k)).kept) = cs.map RagChunk.kept ∧
      ∀ k < i, chunks' k = chunks k := by
  induction cs generalizing i chunks with
  | nil => exact ⟨chunks, rfl, rfl, fun k _ ↦ rfl⟩
  | cons c cs ih =>
      obtain ⟨c', hread, hkept⟩ :=
        RagChunk.read_write (hcs c List.mem_cons_self) (junk i) (chunks i)
          (cs.flatMap RagChunk.write ++ rest)
      obtain ⟨chunks', hrun, hlist, hframe⟩ := ih (fun c hc ↦ hcs c (List.mem_cons_of_mem _ hc))
        (i + 1) (Function.update chunks i c')
      refine ⟨chunks', ?_, ?_, fun k hk ↦ ?_⟩
      · rw [List.flatMap_cons, List.append_assoc, List.length_cons, readChunks, hread]
        exact hrun
      · have hfirst : (chunks' i).kept = c.kept := by
          rw [hframe i (Nat.lt_succ_self i), Function.update_self, hkept]
        rw [List.length_cons, List.range_succ_eq_map, List.map_cons, List.map_map, List.map_cons,
          Nat.add_zero, hfirst, ← hlist]
        refine congrArg _ (List.map_congr_left fun k _ ↦ ?_)
        change (chunks' (i + (k + 1))).kept = (chunks' (i + 1 + k)).kept
        rw [Nat.add_assoc, Nat.add_comm 1 k]
      · rw [hframe k (hk.trans (Nat.lt_succ_self i)), Function.update_of_ne hk.ne]

/-! ## Indexes that are built by adding chunks -/

structure RagIndexBuilt (idx : RagIndex) : Prop where
  count_le : idx.count ≤ ragMaxChunks
  terminated : ∀ i, (idx.chunks i).Terminated

theorem ragIndexBuilt_init : RagIndexBuilt ragIndexInit := by
  refine ⟨Nat.zero_le _, fun i ↦ ⟨?_, ?_⟩⟩
  · change (0 : UInt8) ∈ (Vector.replicate ragDocumentSize (0 : UInt8)).toList
    rw [Vector.toList_replicate]
    exact List.mem_replicate.mpr ⟨by decide, rfl⟩
  · change (0 : UInt8) ∈ (Vector.replicate ragSourceSize (0 : UInt8)).toList
    rw [Vector.toList_replicate]
    exact List.mem_replicate.mpr ⟨by decide, rfl⟩

theorem RagIndexBuilt.put {idx : RagIndex} (h : RagIndexBuilt idx) (document : Bytes)
    (source : Option Bytes) (now : UInt64) (embedding : Embedding) :
    RagIndexBuilt (ragIndexPut idx document source now embedding).2 := by
  unfold ragIndexPut
  split_ifs with hfull
  · exact h
  · refine ⟨Nat.lt_of_not_le hfull, fun i ↦ ?_⟩
    by_cases hi : i = idx.count
    · subst hi
      change RagChunk.Terminated (Function.update idx.chunks idx.count _ idx.count)
      rw [Function.update_self]
      refine ⟨zero_mem_store (by decide) _ _, ?_⟩
      cases source with
      | none => exact (h.terminated idx.count).source
      | some source => exact zero_mem_store (by decide) _ _
    · change RagChunk.Terminated (Function.update idx.chunks idx.count _ i)
      rw [Function.update_of_ne hi]
      exact h.terminated i

theorem ragIndexBuilt_after (computeEmbedding : Bytes → Embedding) (calls : List RagCall) :
    RagIndexBuilt (ragIndexAfter computeEmbedding calls) := by
  induction calls using List.reverseRecOn with
  | nil => exact ragIndexBuilt_init
  | append_singleton calls call ih =>
      have happ : ragIndexAfter computeEmbedding (calls ++ [call]) =
          (call.perform computeEmbedding (ragIndexAfter computeEmbedding calls)).2 := by
        simp [ragIndexAfter]
      rw [happ]
      cases call with
      | add document source now => exact ih.put _ _ _ _
      | addWithEmbedding document source embedding now => exact ih.put _ _ _ _

def RagIndex.records (idx : RagIndex) : List (Bytes × Bytes × UInt64 × Bool × Embedding) :=
  (List.range idx.count).map fun i ↦ (idx.chunks i).kept

/-- Saving an index and loading the file gives the same chunks in the same
order. -/
theorem ragIndexLoad_save (computeEmbedding : Bytes → Embedding) (calls : List RagCall)
    (junk : ℕ → LoadJunk) :
    ∃ idx, ragIndexLoad junk ragIndexInit
        (some (ragIndexSave (ragIndexAfter computeEmbedding calls))) = some (0, idx) ∧
      idx.count = (ragIndexAfter computeEmbedding calls).count ∧
      idx.records = (ragIndexAfter computeEmbedding calls).records := by
  have hbuilt := ragIndexBuilt_after computeEmbedding calls
  generalize ragIndexAfter computeEmbedding calls = saved at hbuilt
  have hword : (encode wordSize saved.count).length = wordSize := length_encode _ _
  have hcount : decode (encode wordSize saved.count) = saved.count := by
    have hle := hbuilt.count_le
    unfold ragMaxChunks at hle
    exact decode_encode (show _ < 256 ^ 8 by omega)
  obtain ⟨chunks, hrun, hlist, -⟩ := readChunks_write ((List.range saved.count).map saved.chunks)
    (fun c hc ↦ by
      obtain ⟨i, -, rfl⟩ := List.mem_map.mp hc
      exact hbuilt.terminated i) junk 0 ragIndexInit.chunks []
  rw [List.length_map, List.length_range, List.append_nil, List.flatMap_map] at hrun
  refine ⟨⟨chunks, saved.count⟩, ?_, rfl, ?_⟩
  · simp only [ragIndexLoad, ragIndexSave, fread_append hword, hcount, hword]
    rw [if_neg (lt_irrefl _), if_neg (not_lt.mpr hbuilt.count_le), hrun]
    rfl
  · rw [List.length_map, List.length_range, List.map_map] at hlist
    simp only [Nat.zero_add] at hlist
    exact hlist

end DoctorClaw
