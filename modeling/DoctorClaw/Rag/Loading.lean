import DoctorClaw.Rag

/-!
# Loading any file as a RAG index

`rag_index_load` looks at the first word of the file only.  Behind it no read
is checked and no length is compared with its buffer, so that it returns 0 for
every file with a count of at most 256.  Nor does it terminate a string that
fills its buffer.
-/

namespace DoctorClaw

open CString Binary

/-! ## Well-formed files -/

/-- A length and a string of that many bytes, which fits into a buffer of
`size` bytes: the string, and the rest of the file. -/
def takeString (size : ℕ) (file : Bytes) : Option (Bytes × Bytes) :=
  let word := file.take wordSize
  let text := (file.drop wordSize).take (decode word)
  if word.length = wordSize ∧ text.length = decode word ∧ decode word ≤ size then
    some (text, file.drop (wordSize + decode word))
  else none

/-- The bytes of a record behind its strings. -/
def recordTail : ℕ := wordSize + 1 + ragEmbeddingDim * wordSize

/-- The document and the source of a record, and the rest of the file. -/
def takeRecord (file : Bytes) : Option ((Bytes × Bytes) × Bytes) :=
  (takeString ragDocumentSize file).bind fun (document, file) ↦
    (takeString ragSourceSize file).bind fun (source, file) ↦
      if recordTail ≤ file.length then some ((document, source), file.drop recordTail) else none

def takeRecords : ℕ → Bytes → Option (List (Bytes × Bytes))
  | 0, _ => some []
  | n + 1, file => (takeRecord file).bind fun (texts, file) ↦
      (takeRecords n file).map fun records ↦ texts :: records

/-- The number in the first word of the file. -/
def recordCount (file : Bytes) : ℕ := decode (file.take wordSize)

def fileRecords (file : Bytes) : Option (List (Bytes × Bytes)) :=
  takeRecords (recordCount file) (file.drop wordSize)

/-- The file has a count, and that many whole records whose strings fit their
buffers. -/
structure RagFileConsistent (file : Bytes) : Prop where
  word : wordSize ≤ file.length
  count : recordCount file ≤ ragMaxChunks
  records : (fileRecords file).isSome

/-- A string that is read into the buffer has a terminator, or finds one behind
it in the buffer. -/
def TerminatedIn {size : ℕ} (text : Bytes) (buffer : Vector UInt8 size) : Prop :=
  (0 : UInt8) ∈ text ∨ (0 : UInt8) ∈ buffer.toList.drop text.length

/-- So do the strings of each record. -/
def RagFileTerminated (idx : RagIndex) (file : Bytes) : Prop :=
  ∀ records, fileRecords file = some records → ∀ i texts, records[i]? = some texts →
    TerminatedIn texts.1 (idx.chunks i).document ∧ TerminatedIn texts.2 (idx.chunks i).source

/-- In a cleared buffer a string that does not fill it is terminated. -/
theorem terminatedIn_zero {size : ℕ} {text : Bytes} :
    TerminatedIn text (Vector.replicate size 0) ↔ (0 : UInt8) ∈ text ∨ text.length < size := by
  rw [TerminatedIn, Vector.toList_replicate, List.drop_replicate, List.mem_replicate]
  refine or_congr_right ?_
  rw [and_iff_left rfl, Nat.sub_ne_zero_iff_lt]

/-- For an index that was initialized, as the agent's is. -/
theorem ragFileTerminated_init (file : Bytes) :
    RagFileTerminated ragIndexInit file ↔
      ∀ records, fileRecords file = some records → ∀ (i : ℕ) (texts : Bytes × Bytes),
        records[i]? = some texts → ((0 : UInt8) ∈ texts.1 ∨ texts.1.length < ragDocumentSize) ∧
            ((0 : UInt8) ∈ texts.2 ∨ texts.2.length < ragSourceSize) := by
  refine forall_congr' fun records ↦ imp_congr_right fun _ ↦ ?_
  refine forall_congr' fun i ↦ forall_congr' fun texts ↦ imp_congr_right fun _ ↦ ?_
  exact and_congr terminatedIn_zero terminatedIn_zero

/-- Whatever the uninitialized lengths are, no store leaves its buffer, loaded
strings are terminated, and an inconsistent file is refused. -/
def RagLoadSafe (idx : RagIndex) (file : Bytes) : Prop :=
  ∀ junk, ∃ ret idx', ragIndexLoad junk idx (some file) = some (ret, idx') ∧
    (ret = 0 → ∀ i < idx'.count, (idx'.chunks i).Terminated) ∧
    (¬ RagFileConsistent file → ret = -1 ∧ idx'.count = idx.count)

/-! ## Files that were saved -/

theorem takeString_write {size : ℕ} {buffer : Vector UInt8 size} (hsize : size < 2 ^ 64)
    (hzero : (0 : UInt8) ∈ buffer.toList) (rest : Bytes) :
    takeString size (writeString buffer ++ rest) =
      some (ofBuffer buffer.toList ++ [0], rest) := by
  have hlt := length_ofBuffer_lt hzero
  rw [Vector.length_toList] at hlt
  have hword : (encode wordSize ((ofBuffer buffer.toList).length + 1)).length = wordSize :=
    length_encode _ _
  have hlen : decode (encode wordSize ((ofBuffer buffer.toList).length + 1)) =
      (ofBuffer buffer.toList).length + 1 :=
    decode_encode (show _ < 256 ^ 8 by omega)
  have htext : (ofBuffer buffer.toList ++ [0]).length = (ofBuffer buffer.toList).length + 1 := by
    rw [List.length_append, List.length_singleton]
  rw [writeString, take_length_ofBuffer hzero, List.append_assoc, takeString]
  simp only [List.take_left' hword, List.drop_left' hword, hlen, List.take_left' htext]
  rw [if_pos ⟨hword, htext, hlt⟩, ← List.drop_drop, List.drop_left' hword,
    List.drop_left' htext]

theorem takeRecord_write {chunk : RagChunk} (hchunk : chunk.Terminated) (rest : Bytes) :
    takeRecord (chunk.write ++ rest) =
      some ((ofBuffer chunk.document.toList ++ [0], ofBuffer chunk.source.toList ++ [0]),
        rest) := by
  have hword : (encode wordSize chunk.timestamp.toNat).length = wordSize := length_encode _ _
  have htail : (encode wordSize chunk.timestamp.toNat ++
      ([if chunk.hasEmbedding then 1 else 0] ++ chunk.embedding.toList)).length = recordTail := by
    rw [List.length_append, List.length_append, hword, Vector.length_toList, List.length_singleton,
      recordTail, Nat.add_assoc]
  have hsplit : encode wordSize chunk.timestamp.toNat ++
      ([if chunk.hasEmbedding then 1 else 0] ++ (chunk.embedding.toList ++ rest)) =
        (encode wordSize chunk.timestamp.toNat ++
          ([if chunk.hasEmbedding then 1 else 0] ++ chunk.embedding.toList)) ++ rest := by
    simp only [List.append_assoc]
  have hlen : recordTail ≤ ((encode wordSize chunk.timestamp.toNat ++
      ([if chunk.hasEmbedding then 1 else 0] ++ chunk.embedding.toList)) ++ rest).length := by
    rw [List.length_append, htail]
    exact Nat.le_add_right _ _
  simp only [RagChunk.write, List.append_assoc, takeRecord]
  rw [takeString_write (by decide) hchunk.document, Option.bind_some]
  dsimp only
  rw [takeString_write (by decide) hchunk.source, Option.bind_some]
  dsimp only
  rw [hsplit, if_pos hlen, List.drop_left' htail]

theorem takeRecords_write {cs : List RagChunk} (hcs : ∀ c ∈ cs, c.Terminated) (rest : Bytes) :
    (takeRecords cs.length (cs.flatMap RagChunk.write ++ rest)).isSome := by
  induction cs with
  | nil => rfl
  | cons c cs ih =>
      rw [List.forall_mem_cons] at hcs
      rw [List.flatMap_cons, List.append_assoc, List.length_cons, takeRecords,
        takeRecord_write hcs.1, Option.bind_some]
      dsimp only
      rw [Option.isSome_map]
      exact ih hcs.2

/-- A file that was saved is not refused. -/
theorem ragFileConsistent_save (computeEmbedding : Bytes → Embedding) (calls : List RagCall) :
    RagFileConsistent (ragIndexSave (ragIndexAfter computeEmbedding calls)) := by
  have hbuilt := ragIndexBuilt_after computeEmbedding calls
  generalize ragIndexAfter computeEmbedding calls = saved at hbuilt
  have hword : (encode wordSize saved.count).length = wordSize := length_encode _ _
  have hcount : decode (encode wordSize saved.count) = saved.count := by
    have hle := hbuilt.count_le
    unfold ragMaxChunks at hle
    exact decode_encode (show _ < 256 ^ 8 by omega)
  have hrecords : recordCount (ragIndexSave saved) = saved.count := by
    rw [recordCount, ragIndexSave, List.take_left' hword, hcount]
  refine ⟨?_, hrecords ▸ hbuilt.count_le, ?_⟩
  · rw [ragIndexSave, List.length_append, hword]
    exact Nat.le_add_right _ _
  · have htake := @takeRecords_write ((List.range saved.count).map saved.chunks)
      (fun c hc ↦ by
        obtain ⟨i, -, rfl⟩ := List.mem_map.mp hc
        exact hbuilt.terminated i) []
    rw [List.length_map, List.length_range, List.flatMap_map, List.append_nil] at htake
    rw [fileRecords, hrecords, ragIndexSave, List.drop_left' hword]
    exact htake

/-! ## The reader on a well-formed record -/

variable {file rest : Bytes} {size : ℕ}

theorem zero_mem_readInto_iff {text : Bytes} (hfit : text.length ≤ size)
    (buffer : Vector UInt8 size) :
    (0 : UInt8) ∈ (readInto buffer text).toList ↔ TerminatedIn text buffer := by
  rw [toList_readInto hfit, overwrite, List.mem_append, TerminatedIn]

theorem readString_of_take {text : Bytes} (h : takeString size file = some (text, rest))
    (junk : Vector UInt8 wordSize) (buffer : Vector UInt8 size) :
    text.length ≤ size ∧ readString junk buffer file = some (readInto buffer text, rest) := by
  unfold takeString at h
  simp only at h
  split_ifs at h with hok
  obtain ⟨hword, htext, hle⟩ := hok
  obtain ⟨rfl, rfl⟩ := Prod.mk.inj (Option.some.inj h)
  have hover : overwrite junk.toList (file.take wordSize) = file.take wordSize :=
    overwrite_of_length_le (by rw [hword, Vector.length_toList])
  have hfit : ((file.drop wordSize).take (decode (file.take wordSize))).length ≤ size := by
    rw [htext]
    exact hle
  refine ⟨hfit, ?_⟩
  simp only [readString, fread, hover]
  rw [if_pos hfit, List.drop_drop]

/-- The chunk is terminated if its strings are. -/
theorem RagChunk.read_of_take {texts : Bytes × Bytes} (h : takeRecord file = some (texts, rest))
    (junk : LoadJunk) (chunk : RagChunk) :
    ∃ chunk', chunk.read junk file = some (chunk', rest) ∧
      (chunk'.Terminated ↔
        TerminatedIn texts.1 chunk.document ∧ TerminatedIn texts.2 chunk.source) := by
  unfold takeRecord at h
  obtain ⟨⟨document, file₁⟩, hdoc, h⟩ := Option.bind_eq_some_iff.mp h
  obtain ⟨⟨source, file₂⟩, hsrc, h⟩ := Option.bind_eq_some_iff.mp h
  dsimp only at h
  split_ifs at h
  obtain ⟨rfl, rfl⟩ := Prod.mk.inj (Option.some.inj h)
  obtain ⟨hfitDoc, hreadDoc⟩ := readString_of_take hdoc junk.docLen chunk.document
  obtain ⟨hfitSrc, hreadSrc⟩ := readString_of_take hsrc junk.srcLen chunk.source
  simp only [RagChunk.read, hreadDoc, hreadSrc, Option.bind_some, Option.map_some, readWord, fread,
    List.drop_drop]
  refine ⟨_, rfl, ?_⟩
  rw [← zero_mem_readInto_iff hfitDoc, ← zero_mem_readInto_iff hfitSrc]
  exact ⟨fun h ↦ ⟨h.document, h.source⟩, fun h ↦ ⟨h.1, h.2⟩⟩

theorem readChunks_of_take {n : ℕ} {records : List (Bytes × Bytes)}
    (h : takeRecords n file = some records) (junk : ℕ → LoadJunk) (i : ℕ)
    (chunks : ℕ → RagChunk) :
    records.length = n ∧ ∃ chunks' rest, readChunks junk n i chunks file = some (chunks', rest) ∧
      (∀ k texts, records[k]? = some texts → ((chunks' (i + k)).Terminated ↔
        TerminatedIn texts.1 (chunks (i + k)).document ∧
          TerminatedIn texts.2 (chunks (i + k)).source)) ∧
      ∀ k < i, chunks' k = chunks k := by
  induction n generalizing file records i chunks with
  | zero =>
      obtain rfl := Option.some.inj h
      exact ⟨rfl, chunks, file, rfl, fun k texts hk ↦ by simp at hk, fun k _ ↦ rfl⟩
  | succ n ih =>
      obtain ⟨⟨texts, rest⟩, htake, h⟩ := Option.bind_eq_some_iff.mp h
      obtain ⟨others, hothers, rfl⟩ := Option.map_eq_some_iff.mp h
      obtain ⟨chunk, hread, hchunk⟩ := RagChunk.read_of_take htake (junk i) (chunks i)
      obtain ⟨hlen, chunks', rest', hrun, hterm, hframe⟩ := ih hothers (i + 1)
        (Function.update chunks i chunk)
      refine ⟨congrArg (· + 1) hlen, chunks', rest', ?_, fun k texts' hk ↦ ?_, fun k hk ↦ ?_⟩
      · rw [readChunks, hread]
        exact hrun
      · cases k with
        | zero =>
            obtain rfl := Option.some.inj hk
            rw [Nat.add_zero, hframe i (Nat.lt_succ_self i), Function.update_self]
            exact hchunk
        | succ k =>
            have hk' := hterm k texts' hk
            rwa [Function.update_of_ne (by omega), Nat.add_assoc, Nat.add_comm 1 k] at hk'
      · rw [hframe k (hk.trans (Nat.lt_succ_self i)), Function.update_of_ne hk.ne]

/-! ## All files -/

theorem length_take_word : (file.take wordSize).length < wordSize ↔ file.length < wordSize := by
  rw [List.length_take]
  omega

theorem ragIndexLoad_eq (junk : ℕ → LoadJunk) (idx : RagIndex) (file : Bytes) :
    ragIndexLoad junk idx (some file) =
      if (file.take wordSize).length < wordSize then some (-1, idx)
      else if ragMaxChunks < recordCount file then some (-1, idx)
      else (readChunks junk (recordCount file) 0 idx.chunks (file.drop wordSize)).map fun p ↦
        (0, ⟨p.1, recordCount file⟩) :=
  rfl

/-- A file is refused for its first word, and then nothing is stored. -/
theorem ragIndexLoad_refused (h : file.length < wordSize ∨ ragMaxChunks < recordCount file)
    (junk : ℕ → LoadJunk) (idx : RagIndex) :
    ragIndexLoad junk idx (some file) = some (-1, idx) := by
  rw [ragIndexLoad_eq]
  split_ifs with hshort hmany
  · rfl
  · rfl
  · exact absurd h (not_or.mpr ⟨mt length_take_word.mpr hshort, hmany⟩)

/-- Every other file is read, and the function returns 0. -/
theorem ragIndexLoad_read (hword : wordSize ≤ file.length)
    (hcount : recordCount file ≤ ragMaxChunks) (junk : ℕ → LoadJunk) (idx : RagIndex) :
    ragIndexLoad junk idx (some file) =
      (readChunks junk (recordCount file) 0 idx.chunks (file.drop wordSize)).map fun p ↦
        (0, ⟨p.1, recordCount file⟩) := by
  rw [ragIndexLoad_eq, if_neg (mt length_take_word.mp (not_lt.mpr hword)),
    if_neg (not_lt.mpr hcount)]

/-- A consistent file is loaded. -/
theorem RagFileConsistent.load {file : Bytes} (hok : RagFileConsistent file)
    (junk : ℕ → LoadJunk) (idx : RagIndex) :
    ∃ chunks, ragIndexLoad junk idx (some file) = some (0, ⟨chunks, recordCount file⟩) ∧
      ((∀ i < recordCount file, (chunks i).Terminated) ↔ RagFileTerminated idx file) := by
  obtain ⟨records, hrecords⟩ := Option.isSome_iff_exists.mp hok.records
  obtain ⟨hlen, chunks, rest, hrun, hterm, -⟩ := readChunks_of_take hrecords junk 0 idx.chunks
  refine ⟨chunks, ?_, ?_⟩
  · rw [ragIndexLoad_read hok.word hok.count, hrun]
    rfl
  · simp only [Nat.zero_add] at hterm
    constructor
    · intro hall records' hsame i texts htexts
      obtain rfl := Option.some.inj (hrecords.symm.trans hsame)
      obtain ⟨hi, -⟩ := List.getElem?_eq_some_iff.mp htexts
      exact (hterm i texts htexts).mp (hall i (hlen ▸ hi))
    · intro hall i hi
      have htexts := List.getElem?_eq_getElem (hlen.symm ▸ hi)
      exact (hterm i _ htexts).mpr (hall records hrecords i _ htexts)

/-- Loading is safe exactly for the files it refuses and for consistent ones
with terminated strings: a truncated record or an excessive length behind a
fair count is not noticed, and neither is a missing terminator. -/
theorem ragIndexLoad_safe_iff (idx : RagIndex) (file : Bytes) :
    RagLoadSafe idx file ↔
      file.length < wordSize ∨ ragMaxChunks < recordCount file ∨
        (RagFileConsistent file ∧ RagFileTerminated idx file) := by
  have junk : ℕ → LoadJunk := fun _ ↦ ⟨Vector.replicate _ 0, Vector.replicate _ 0⟩
  constructor
  · intro h
    by_cases hword : file.length < wordSize
    · exact .inl hword
    by_cases hcount : ragMaxChunks < recordCount file
    · exact .inr (.inl hcount)
    rw [not_lt] at hword hcount
    obtain ⟨ret, idx', hrun, hall, hret⟩ := h junk
    have hread := hrun
    rw [ragIndexLoad_read hword hcount, Option.map_eq_some_iff] at hread
    obtain ⟨p, -, hp⟩ := hread
    have hzero : 0 = ret := congrArg Prod.fst hp
    have hok : RagFileConsistent file := by
      by_contra hbad
      have hminus := (hret hbad).1
      omega
    obtain ⟨chunks, hload, hterm⟩ := hok.load junk idx
    obtain ⟨-, rfl⟩ := Prod.mk.inj (Option.some.inj (hload.symm.trans hrun))
    exact .inr (.inr ⟨hok, hterm.mp (hall hzero.symm)⟩)
  · rw [← or_assoc]
    rintro (hrefused | ⟨hok, hterm⟩) junk
    · refine ⟨-1, idx, ragIndexLoad_refused hrefused junk idx, fun h ↦ absurd h (by decide), ?_⟩
      exact fun _ ↦ ⟨rfl, rfl⟩
    · obtain ⟨chunks, hload, hall⟩ := hok.load junk idx
      exact ⟨0, _, hload, fun _ ↦ hall.mpr hterm, fun hbad ↦ absurd hok hbad⟩

/-- A file that ends behind a count of one. -/
def truncatedFile : Bytes := encode wordSize 1

/-- It is loaded as an index with one chunk. -/
theorem truncatedFile_not_refused : ¬ RagLoadSafe ragIndexInit truncatedFile := by
  intro h
  have hbad : ¬ RagFileConsistent truncatedFile := fun hok ↦ absurd hok.records (by decide)
  obtain ⟨ret, idx', hrun, -, hret⟩ := h fun _ ↦ ⟨Vector.replicate _ 0, Vector.replicate _ 0⟩
  rw [ragIndexLoad_read (by decide) (by decide), Option.map_eq_some_iff] at hrun
  obtain ⟨p, -, hp⟩ := hrun
  have hcount : recordCount truncatedFile = idx'.count :=
    congrArg (fun r : ℤ × RagIndex ↦ r.2.count) hp
  rw [(hret hbad).2] at hcount
  exact absurd hcount (by decide)

end DoctorClaw
