import DoctorClaw.Lib.Strtok

/-!
# The lines of a file

What `fgets` returns until the end of the file.  A line end always ends a line,
so a file is read piece by piece; a piece that is longer than the buffer is
returned in several parts.
-/

namespace CString

/-- There is no line end but perhaps at the end. -/
def OneLine (s : Bytes) : Prop := (10 : UInt8) ∉ s.dropLast

instance : DecidablePred OneLine := fun _ ↦ inferInstanceAs (Decidable (_ ∉ _))

theorem oneLine_of_notMem {s : Bytes} (h : (10 : UInt8) ∉ s) : OneLine s := fun hmem ↦
  h (List.dropLast_subset s hmem)

theorem OneLine.of_isInfix {s t : Bytes} (ht : OneLine t) (h : s <:+: t) : OneLine s := by
  obtain ⟨before, behind, rfl⟩ := h
  intro hmem
  apply ht
  rcases List.eq_nil_or_concat behind with rfl | ⟨behind, c, rfl⟩
  · have hne : s ≠ [] := fun hs ↦ by simp [hs] at hmem
    rw [List.append_nil, List.dropLast_append_of_ne_nil hne]
    exact List.mem_append_right _ hmem
  · rw [List.concat_eq_append, ← List.append_assoc, List.dropLast_concat]
    exact List.mem_append_left _ (List.mem_append_right _ (List.dropLast_subset s hmem))

section Fgets

variable {size : ℕ} {file : Bytes}

theorem fgets_fst_append_snd (size : ℕ) (file : Bytes) :
    (fgets size file).1 ++ (fgets size file).2 = file := by
  rw [fgets, ← List.append_assoc, List.take_append_drop, List.take_append_drop]

theorem length_fgets_fst_le (size : ℕ) (file : Bytes) : (fgets size file).1.length ≤ size - 1 :=
  (List.length_take_le' _ _).trans (List.length_take_le _ _)

theorem oneLine_fgets_fst (size : ℕ) (file : Bytes) : OneLine (fgets size file).1 := by
  generalize hchunk : file.take (size - 1) = chunk
  have hfst : (fgets size file).1 =
      chunk.take ((chunk.takeWhile fun c ↦ decide (c ≠ 10)).length + 1) := by rw [← hchunk]; rfl
  intro hmem
  rw [hfst, List.dropLast_eq_take, List.take_take] at hmem
  have hpre : chunk.take (chunk.takeWhile fun c ↦ decide (c ≠ 10)).length =
      chunk.takeWhile fun c ↦ decide (c ≠ 10) :=
    (List.prefix_iff_eq_take.mp (List.takeWhile_prefix _)).symm
  have hsub : (10 : UInt8) ∈ chunk.take (chunk.takeWhile fun c ↦ decide (c ≠ 10)).length := by
    refine (List.take_prefix_take_left ?_).subset hmem
    rw [List.length_take]
    omega
  rw [hpre] at hsub
  simpa using List.mem_takeWhile_imp hsub

/-- The line goes on until the buffer is full or a line end has been stored. -/
theorem le_length_fgets_fst (size : ℕ) {front behind : Bytes} (hfront : (10 : UInt8) ∉ front)
    (hbehind : behind ≠ []) :
    min (size - 1) (front.length + 1) ≤ (fgets size (front ++ behind)).1.length := by
  have hpos := List.length_pos_iff.mpr hbehind
  have hfree : ∀ c ∈ front.take (size - 1), decide (c ≠ 10) = true := fun c hc ↦ by
    simpa using fun h : c = 10 ↦ hfront (h ▸ List.mem_of_mem_take hc)
  have hrun : min (size - 1) front.length ≤
      (((front ++ behind).take (size - 1)).takeWhile fun c ↦ decide (c ≠ 10)).length := by
    rw [List.take_append, List.takeWhile_append_of_pos hfree, List.length_append, List.length_take]
    omega
  simp only [fgets, List.length_take, List.length_append]
  omega

theorem fgets_ne_nil (hsize : 2 ≤ size) (hfile : file ≠ []) : (fgets size file).1 ≠ [] := by
  have hlen := le_length_fgets_fst size (show (10 : UInt8) ∉ [] from List.not_mem_nil) hfile
  rw [List.nil_append, List.length_nil] at hlen
  exact List.length_pos_iff.mp (by omega)

/-- What follows a line end does not change the line. -/
theorem fgets_append {t : Bytes} (ht : t.getLast? = some 10) (rest : Bytes) :
    fgets size (t ++ rest) = ((fgets size t).1, (fgets size t).2 ++ rest) := by
  have hmem : (10 : UInt8) ∈ t := List.mem_of_getLast? ht
  by_cases hlen : size - 1 ≤ t.length
  · simp only [fgets, List.take_append_of_le_length hlen, List.drop_append_of_le_length hlen,
      List.append_assoc]
  · have hpart : (t.takeWhile fun c ↦ decide (c ≠ 10)).length < t.length := by
      refine lt_of_le_of_ne (List.takeWhile_prefix _).length_le fun heq ↦ ?_
      have hall := List.takeWhile_eq_self_iff.mp ((List.takeWhile_prefix _).eq_of_length heq)
      simpa using hall 10 hmem
    have hwhile : ((t ++ rest.take (size - 1 - t.length)).takeWhile fun c ↦ decide (c ≠ 10)) =
        t.takeWhile fun c ↦ decide (c ≠ 10) := by
      rw [List.takeWhile_append, if_neg (Nat.ne_of_lt hpart)]
    simp only [fgets, List.take_append, List.take_of_length_le (show t.length ≤ size - 1 by omega),
      List.drop_append, List.drop_of_length_le (show t.length ≤ size - 1 by omega), hwhile]
    rw [← List.take_append, ← List.drop_append, List.take_append_of_le_length hpart,
      List.drop_append_of_le_length hpart]
    simp

/-! ## The whole file -/

def fileLines (size : ℕ) (file : Bytes) : List Bytes := fgetsLines size file.length file

theorem fgetsLines_congr (hsize : 2 ≤ size) {fuel fuel' : ℕ} (h : file.length ≤ fuel)
    (h' : file.length ≤ fuel') : fgetsLines size fuel file = fgetsLines size fuel' file := by
  induction fuel generalizing fuel' file with
  | zero =>
      obtain rfl : file = [] := List.length_eq_zero_iff.mp (by omega)
      cases fuel' <;> rfl
  | succ fuel ih =>
      cases file with
      | nil => cases fuel' <;> rfl
      | cons c file =>
          have hsplit := congrArg List.length (fgets_fst_append_snd size (c :: file))
          have hpos := List.length_pos_iff.mpr (fgets_ne_nil hsize (List.cons_ne_nil c file))
          rw [List.length_append, List.length_cons] at hsplit
          rw [List.length_cons] at h h'
          obtain ⟨fuel', rfl⟩ : ∃ k, fuel' = k + 1 := ⟨fuel' - 1, by omega⟩
          have hrest := ih (show (fgets size (c :: file)).2.length ≤ fuel by omega)
            (show (fgets size (c :: file)).2.length ≤ fuel' by omega)
          rw [fgetsLines, fgetsLines, hrest]

theorem fileLines_nil (size : ℕ) : fileLines size [] = [] := rfl

theorem fileLines_eq (hsize : 2 ≤ size) (hfile : file ≠ []) :
    fileLines size file = (fgets size file).1 :: fileLines size (fgets size file).2 := by
  have hsplit := congrArg List.length (fgets_fst_append_snd size file)
  have hpos := List.length_pos_iff.mpr (fgets_ne_nil hsize hfile)
  rw [List.length_append] at hsplit
  obtain ⟨c, file, rfl⟩ := List.exists_cons_of_ne_nil hfile
  rw [List.length_cons] at hsplit
  rw [fileLines, List.length_cons, fgetsLines,
    fgetsLines_congr hsize (show (fgets size (c :: file)).2.length ≤ file.length by omega) le_rfl]
  rfl

/-- A file is read up to a line end and then from there. -/
theorem fileLines_append (hsize : 2 ≤ size) {t : Bytes} (ht : ∀ c ∈ t.getLast?, c = 10)
    (rest : Bytes) : fileLines size (t ++ rest) = fileLines size t ++ fileLines size rest := by
  induction hn : t.length using Nat.strong_induction_on generalizing t with
  | _ n ih =>
      by_cases hne : t = []
      · rw [hne, fileLines_nil, List.nil_append, List.nil_append]
      · have hlast : t.getLast? = some 10 := by
          rw [List.getLast?_eq_some_getLast hne, ht _ (List.getLast?_eq_some_getLast hne)]
        have hsplit := fgets_fst_append_snd size t
        have hpos := List.length_pos_iff.mpr (fgets_ne_nil hsize hne)
        have hlen := congrArg List.length hsplit
        rw [List.length_append] at hlen
        have hsnd : ∀ c ∈ (fgets size t).2.getLast?, c = 10 := by
          intro c hc
          have hback : t.getLast? = some c := by rw [← hsplit, List.getLast?_append, hc]; rfl
          exact ht c hback
        rw [fileLines_eq hsize (by simp [hne]), fgets_append hlast, fileLines_eq hsize hne,
          ih _ (by omega) hsnd rfl, List.cons_append]

theorem fileLines_flatMap (hsize : 2 ≤ size) (lines : List Bytes) :
    fileLines size (lines.flatMap fun line ↦ line ++ [10]) =
      lines.flatMap fun line ↦ fileLines size (line ++ [10]) := by
  induction lines with
  | nil => rfl
  | cons line lines ih =>
      rw [List.flatMap_cons, fileLines_append hsize (by simp), ih, List.flatMap_cons]

theorem mem_fileLines {line : Bytes} (h : line ∈ fileLines size file) :
    line <:+: file ∧ line.length ≤ size - 1 ∧ OneLine line := by
  have hrun : ∀ fuel file, line ∈ fgetsLines size fuel file →
      line <:+: file ∧ line.length ≤ size - 1 ∧ OneLine line := by
    intro fuel
    induction fuel with
    | zero => exact fun file hmem ↦ absurd hmem (by cases file <;> exact List.not_mem_nil)
    | succ fuel ih =>
        intro file hmem
        cases file with
        | nil => exact absurd hmem List.not_mem_nil
        | cons c file =>
            have hsplit := fgets_fst_append_snd size (c :: file)
            rcases List.mem_cons.mp hmem with rfl | hmem
            · exact ⟨(List.prefix_iff_exists_append_eq.mpr ⟨_, hsplit⟩).isInfix,
                length_fgets_fst_le _ _, oneLine_fgets_fst _ _⟩
            · obtain ⟨hpart, hrest⟩ := ih _ hmem
              exact ⟨hpart.trans ⟨_, [], by rw [List.append_nil]; exact hsplit⟩, hrest⟩
  exact hrun _ _ h

/-- A text that begins without a line end and does not much exceed the buffer
is read as one line that has this beginning, and perhaps a short rest. -/
theorem mem_fileLines_front {front value : Bytes} (hfront : (10 : UInt8) ∉ front)
    (hvalue : OneLine value) (hsize : front.length < size) (hsize' : 2 ≤ size)
    (hlen : front.length + value.length ≤ size + 1) {line : Bytes}
    (h : line ∈ fileLines size (front ++ value ++ [10])) :
    (∃ rest, line = front ++ rest) ∨ line.length ≤ 3 := by
  have hsplit := fgets_fst_append_snd size (front ++ value ++ [10])
  obtain ⟨behind, hbehind, htext, hshort⟩ : ∃ behind, behind ≠ [] ∧
      front ++ value ++ [10] = front ++ value.dropLast ++ behind ∧ behind.length ≤ 2 := by
    rcases List.eq_nil_or_concat value with rfl | ⟨value, c, rfl⟩
    · exact ⟨[10], by simp, by simp, by simp⟩
    · exact ⟨[c, 10], by simp, by simp, by simp⟩
  have hfree : (10 : UInt8) ∉ front ++ value.dropLast := by
    rw [List.mem_append, not_or]
    exact ⟨hfront, hvalue⟩
  have hfst := le_length_fgets_fst size hfree hbehind
  rw [← htext, List.length_append] at hfst
  have htotal := congrArg List.length htext
  have hparts := congrArg List.length hsplit
  simp only [List.length_append, List.length_singleton] at htotal hparts
  rw [fileLines_eq hsize' (by simp)] at h
  rcases List.mem_cons.mp h with rfl | h
  · left
    have hstart : front <+: front ++ value ++ [10] := ⟨value ++ [10], by simp⟩
    obtain ⟨rest, hrest⟩ := List.prefix_of_prefix_length_le hstart ⟨_, hsplit⟩ (by omega)
    exact ⟨rest, hrest.symm⟩
  · right
    have hle := (mem_fileLines h).1.length_le
    omega

end Fgets

end CString
