import DoctorClaw.Lib.CString

/-!
# Reading lines and tokens

`fgets` returns at most `size - 1` bytes, up to and including the next line
end.  `strtok` skips the delimiters in front, returns the bytes up to the next
delimiter and goes on behind it, so it never returns an empty token and never
one with a delimiter in it.
-/

namespace CString

/-! ## Lines -/

/-- One `fgets`: the line it stores and the rest of the file. -/
def fgets (size : ℕ) (file : Bytes) : Bytes × Bytes :=
  let chunk := file.take (size - 1)
  let n := (chunk.takeWhile fun c ↦ decide (c ≠ 10)).length + 1
  (chunk.take n, chunk.drop n ++ file.drop (size - 1))

def fgetsLines (size : ℕ) : ℕ → Bytes → List Bytes
  | 0, _ => []
  | _ + 1, [] => []
  | fuel + 1, c :: file =>
      (fgets size (c :: file)).1 :: fgetsLines size fuel (fgets size (c :: file)).2

theorem fgets_line {size : ℕ} {line : Bytes} (hline : (10 : UInt8) ∉ line)
    (hsize : line.length + 1 < size) (rest : Bytes) :
    fgets size (line ++ 10 :: rest) = (line ++ [10], rest) := by
  have hchunk : (line ++ 10 :: rest).take (size - 1) =
      line ++ 10 :: rest.take (size - 1 - (line.length + 1)) := by
    rw [List.take_append, List.take_of_length_le (by omega)]
    congr 1
    rw [show size - 1 - line.length = size - 1 - (line.length + 1) + 1 by omega,
      List.take_succ_cons]
  have hdrop : (line ++ 10 :: rest).drop (size - 1) = rest.drop (size - 1 - (line.length + 1)) := by
    rw [List.drop_append, List.drop_of_length_le (by omega), List.nil_append,
      show size - 1 - line.length = size - 1 - (line.length + 1) + 1 by omega, List.drop_succ_cons]
  simp only [fgets, hchunk, takeWhile_ne_append hline, hdrop]
  simp [List.take_append, List.drop_append]

/-- A file made of short lines is read back line by line. -/
theorem fgetsLines_flatMap_of_le {size : ℕ} {lines : List Bytes}
    (hlines : ∀ line ∈ lines, (10 : UInt8) ∉ line ∧ line.length + 1 < size) {fuel : ℕ}
    (hfuel : lines.length ≤ fuel) :
    fgetsLines size fuel (lines.flatMap fun line ↦ line ++ [10]) =
      lines.map fun line ↦ line ++ [10] := by
  induction lines generalizing fuel with
  | nil => cases fuel <;> rfl
  | cons line lines ih =>
      obtain ⟨fuel, rfl⟩ : ∃ k, fuel = k + 1 := ⟨fuel - 1, by simp at hfuel; omega⟩
      obtain ⟨hline, hsize⟩ := hlines line List.mem_cons_self
      have hrest := ih (fun l hl ↦ hlines l (List.mem_cons_of_mem _ hl))
        (show lines.length ≤ fuel by simpa using hfuel)
      have hfile : ((line :: lines).flatMap fun line ↦ line ++ [10]) =
          line ++ 10 :: (lines.flatMap fun line ↦ line ++ [10]) := by simp
      obtain ⟨c, file, hcons⟩ : ∃ c file,
          line ++ 10 :: (lines.flatMap fun line ↦ line ++ [10]) = c :: file :=
        List.exists_cons_of_ne_nil (by simp)
      rw [hfile, hcons, fgetsLines, ← hcons, fgets_line hline hsize, hrest, List.map_cons]

theorem length_le_length_flatMap (lines : List Bytes) :
    lines.length ≤ (lines.flatMap fun line ↦ line ++ [10]).length := by
  induction lines with
  | nil => simp
  | cons line lines ih =>
      rw [List.flatMap_cons, List.length_append, List.length_append, List.length_cons,
        List.length_singleton]
      omega

theorem fgetsLines_flatMap {size : ℕ} {lines : List Bytes}
    (hlines : ∀ line ∈ lines, (10 : UInt8) ∉ line ∧ line.length + 1 < size) :
    fgetsLines size (lines.flatMap fun line ↦ line ++ [10]).length
        (lines.flatMap fun line ↦ line ++ [10]) =
      lines.map fun line ↦ line ++ [10] :=
  fgetsLines_flatMap_of_le hlines (length_le_length_flatMap lines)

/-! ## Tokens -/

/-- The next token, and the position behind it. -/
def strtok (delims s : Bytes) : Option Bytes × Bytes :=
  let s := s.dropWhile fun c ↦ decide (c ∈ delims)
  if s = [] then (none, [])
  else (some (s.takeWhile fun c ↦ decide (c ∉ delims)),
    (s.dropWhile fun c ↦ decide (c ∉ delims)).drop 1)

section Token

variable {delims tok : Bytes} (hne : tok ≠ []) (htok : ∀ c ∈ tok, c ∉ delims)
include hne htok

theorem dropWhile_delims_append (rest : Bytes) :
    (tok ++ rest).dropWhile (fun c ↦ decide (c ∈ delims)) = tok ++ rest := by
  obtain ⟨c, tok, rfl⟩ := List.exists_cons_of_ne_nil hne
  rw [List.cons_append, List.dropWhile_cons_of_neg]
  simpa using htok c List.mem_cons_self

theorem strtok_append {d : UInt8} (hd : d ∈ delims) (rest : Bytes) :
    strtok delims (tok ++ d :: rest) = (some tok, rest) := by
  have hall : ∀ c ∈ tok, decide (c ∉ delims) = true := fun c hc ↦ by simpa using htok c hc
  simp only [strtok, dropWhile_delims_append hne htok]
  rw [if_neg (by simp), List.takeWhile_append_of_pos hall, List.dropWhile_append_of_pos hall,
    List.takeWhile_cons_of_neg (by simpa using hd), List.dropWhile_cons_of_neg (by simpa using hd),
    List.append_nil, List.drop_one, List.tail_cons]

/-- The last token. -/
theorem strtok_self : strtok delims tok = (some tok, []) := by
  have hskip := dropWhile_delims_append hne htok []
  rw [List.append_nil] at hskip
  have hall : ∀ c ∈ tok, decide (c ∉ delims) = true := fun c hc ↦ by simpa using htok c hc
  simp only [strtok, hskip, if_neg hne]
  rw [List.takeWhile_eq_self_iff.mpr hall, List.dropWhile_eq_nil_iff.mpr hall, List.drop_nil]

end Token

theorem strtok_eq_some {delims s tok rest : Bytes} (h : strtok delims s = (some tok, rest)) :
    tok ≠ [] ∧ ∀ c ∈ tok, c ∉ delims := by
  simp only [strtok] at h
  split_ifs at h with hs
  · simp at h
  · simp only [Prod.mk.injEq, Option.some.injEq] at h
    obtain ⟨rfl, -⟩ := h
    obtain ⟨c, s', hcons⟩ := List.exists_cons_of_ne_nil hs
    have hc : ¬ decide (c ∈ delims) = true := by
      have hhead := List.dropWhile_get_zero_not (fun c ↦ decide (c ∈ delims)) s
        (by rw [hcons]; simp)
      simpa [hcons] using hhead
    refine ⟨?_, fun x hx ↦ by simpa using List.mem_takeWhile_imp hx⟩
    rw [hcons, List.takeWhile_cons_of_pos (by simpa using hc)]
    simp

/-! ## All tokens -/

/-- The non-empty stretches between the delimiters. -/
def words (delims s : Bytes) : List Bytes :=
  (s.splitOnP fun c ↦ decide (c ∈ delims)).filter fun w ↦ decide (w ≠ [])

theorem words_dropWhile (delims s : Bytes) :
    words delims (s.dropWhile fun c ↦ decide (c ∈ delims)) = words delims s := by
  induction s with
  | nil => rfl
  | cons c s ih =>
      by_cases hc : c ∈ delims
      · rw [List.dropWhile_cons_of_pos (by simpa using hc), ih]
        simp [words, List.splitOnP_cons_eq_if_modifyHead, hc]
      · rw [List.dropWhile_cons_of_neg (by simpa using hc)]

theorem words_eq_singleton {delims tok : Bytes} (hne : tok ≠ []) (htok : ∀ c ∈ tok, c ∉ delims) :
    words delims tok = [tok] := by
  have hsplit : tok.splitOnP (fun c ↦ decide (c ∈ delims)) = [tok] :=
    List.splitOnP_eq_singleton fun c hc ↦ by simpa using htok c hc
  simp [words, hsplit, hne]

theorem words_append (delims a b : Bytes) {d : UInt8} (hd : d ∈ delims) :
    words delims (a ++ d :: b) = words delims a ++ words delims b := by
  rw [words, List.splitOnP_append_cons _ _ (by simpa using hd), List.filter_append]
  rfl

theorem words_of_strtok_none {delims s rest : Bytes} (h : strtok delims s = (none, rest)) :
    words delims s = [] := by
  rw [← words_dropWhile]
  simp only [strtok] at h
  split_ifs at h with hs
  · rw [hs]
    rfl
  · simp at h

/-- `strtok` returns the first word and leaves the others. -/
theorem words_of_strtok_some {delims s tok rest : Bytes} (h : strtok delims s = (some tok, rest)) :
    words delims s = tok :: words delims rest := by
  obtain ⟨hne, htok⟩ := strtok_eq_some h
  rw [← words_dropWhile]
  simp only [strtok] at h
  split_ifs at h with hs
  · simp at h
  · generalize s.dropWhile (fun c ↦ decide (c ∈ delims)) = t at h
    simp only [Prod.mk.injEq, Option.some.injEq] at h
    obtain ⟨htake, hdrop⟩ := h
    have hsplit := @List.takeWhile_append_dropWhile _ (fun c ↦ decide (c ∉ delims)) t
    rw [htake] at hsplit
    cases hmore : t.dropWhile fun c ↦ decide (c ∉ delims) with
    | nil =>
        rw [hmore] at hsplit hdrop
        rw [← hsplit, List.append_nil, words_eq_singleton hne htok, ← hdrop]
        rfl
    | cons d more =>
        have hd : d ∈ delims := by
          have hhead := List.head?_dropWhile_not (fun c ↦ decide (c ∉ delims)) t
          rw [hmore] at hhead
          simpa using hhead
        rw [hmore] at hsplit hdrop
        rw [← hsplit, words_append _ _ _ hd, words_eq_singleton hne htok, ← hdrop, List.drop_one,
          List.tail_cons, List.singleton_append]

end CString
