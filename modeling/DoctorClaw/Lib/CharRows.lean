import DoctorClaw.Lib.CString

/-!
# Tables of strings

A table `char t[rows][width]` is one stretch of memory, row after row.  A
string that fills its row has no terminator in it, and a reader that starts
there goes on into the next row.
-/

namespace CharRows

open CString

/-- `memcpy` of `src` to an offset. -/
def poke (memory : Bytes) (offset : ℕ) (src : Bytes) : Bytes :=
  memory.take offset ++ src ++ memory.drop (offset + src.length)

/-- A zeroed row after at most `width` bytes of the string and its terminator
have been copied there. -/
def row (width : ℕ) (s : Bytes) : Bytes :=
  (s ++ [0]).take width ++ List.replicate (width - (s.length + 1)) 0

/-- The memory of a table whose first rows have been filled. -/
def table (width rows : ℕ) (names : List Bytes) : Bytes :=
  names.flatMap (row width) ++ List.replicate (width * (rows - names.length)) 0

section Memory

variable {width rows : ℕ} {names : List Bytes} {s : Bytes}

theorem length_row (width : ℕ) (s : Bytes) : (row width s).length = width := by
  rw [row, List.length_append, List.length_take, List.length_append, List.length_replicate,
    List.length_singleton]
  omega

theorem length_flatMap_row (width : ℕ) (names : List Bytes) :
    (names.flatMap (row width)).length = width * names.length := by
  induction names with
  | nil => rfl
  | cons s names ih =>
      rw [List.flatMap_cons, List.length_append, length_row, ih, List.length_cons, Nat.mul_succ,
        Nat.add_comm]

theorem table_cons (s : Bytes) (names : List Bytes) (rows : ℕ) :
    table width (rows + 1) (s :: names) = row width s ++ table width rows names := by
  rw [table, table, List.flatMap_cons, List.append_assoc, List.length_cons,
    Nat.add_sub_add_right]

theorem drop_table {i : ℕ} (hi : i ≤ names.length) :
    (table width rows names).drop (width * i) = table width (rows - i) (names.drop i) := by
  obtain ⟨front, behind, rfl, rfl⟩ : ∃ front behind, names = front ++ behind ∧ i = front.length :=
    ⟨names.take i, names.drop i, (List.take_append_drop i names).symm,
      (List.length_take_of_le hi).symm⟩
  have hlen := length_flatMap_row width front
  rw [table, List.flatMap_append, List.append_assoc, List.drop_left' hlen, List.drop_left, table,
    List.length_append, Nat.sub_sub]

/-- Copying a name to the next row fills it. -/
theorem poke_table (h : names.length < rows) :
    poke (table width rows names) (width * names.length) ((s ++ [0]).take width) =
      table width rows (names ++ [s]) := by
  have hlen := length_flatMap_row width names
  have hsplit : width * (rows - names.length) = width + width * (rows - (names.length + 1)) := by
    rw [show rows - names.length = rows - (names.length + 1) + 1 by omega, Nat.mul_succ,
      Nat.add_comm]
  have hcopied : ((s ++ [0]).take width).length = min width (s.length + 1) := by
    rw [List.length_take, List.length_append, List.length_singleton]
  have hpad : width * (rows - names.length) - min width (s.length + 1) =
      width - (s.length + 1) + width * (rows - (names.length + 1)) := by omega
  rw [poke, table, List.take_left' hlen, ← List.drop_drop, List.drop_left' hlen,
    List.drop_replicate, hcopied, hpad, ← List.replicate_append_replicate, table,
    List.flatMap_append, List.flatMap_singleton, row, List.length_append, List.length_singleton]
  simp only [List.append_assoc]

/-! ## Reading a row -/

theorem ofBuffer_row_of_lt (hs : (0 : UInt8) ∉ s) (h : s.length < width) (behind : Bytes) :
    ofBuffer (row width s ++ behind) = s := by
  have hlen : (s ++ [0]).length ≤ width := by
    rw [List.length_append, List.length_singleton]
    omega
  rw [row, List.take_of_length_le hlen, List.append_assoc, List.append_assoc]
  exact ofBuffer_append_zero hs _

/-- A name that fills its row runs into what stands behind. -/
theorem ofBuffer_row_of_le (hs : (0 : UInt8) ∉ s) (h : width ≤ s.length) (behind : Bytes) :
    ofBuffer (row width s ++ behind) = s.take width ++ ofBuffer behind := by
  have hfree : (0 : UInt8) ∉ s.take width := fun hmem ↦ hs (List.mem_of_mem_take hmem)
  rw [row, List.take_append_of_le_length h, Nat.sub_eq_zero_of_le (by omega), List.replicate_zero,
    List.append_nil, ofBuffer_append hfree]

theorem ofBuffer_table_nil (h : 0 < width * rows) (behind : Bytes) :
    ofBuffer (table width rows [] ++ behind) = [] := by
  obtain ⟨n, hn⟩ : ∃ n, width * rows = n + 1 := ⟨width * rows - 1, by omega⟩
  have htable : table width rows [] = 0 :: List.replicate n 0 := by
    rw [table, List.length_nil, Nat.sub_zero, hn, List.replicate_succ]
    rfl
  rw [htable]
  rfl

end Memory

end CharRows
