import DoctorClaw.Config.Lines
import DoctorClaw.Lib.BufferWriter
import DoctorClaw.Lib.CellReader

/-!
# How a line of a configuration file is read

The loops of `parse_ini_line` over the bytes of a line.  The loop over a quoted
value steps over the byte behind a backslash without looking at it, and when
the line ends with the backslash that byte is the terminator.
-/

namespace DoctorClaw

open CString Interaction CellReader

/-! ## The loops -/

/-- `if (len >= size) len = size - 1`. -/
def clipped (len size : ℕ) : ℕ := if size ≤ len then BufferWriter.sizeSub size 1 else len

/-- The cell behind a quoted text. -/
def quotedEnd : ℕ → ℕ → Reader ℕ ℕ
  | 0, _ => .halt
  | n + 1, vend => do
      let c ← byte vend
      if c = 0 ∨ c = 34 then .ret vend
      else quotedEnd n (if c = 92 then vend + 2 else vend + 1)

def skipSpaces (rounds start : ℕ) : Reader ℕ ℕ :=
  scan (fun c ↦ c == 0 || !isspace c) id rounds start

/-- The value of an assignment, from the cell behind the equals sign. -/
def iniValueAt (rounds valueLen start : ℕ) : Reader ℕ Bytes := do
  let val ← skipSpaces rounds start
  let c ← byte val
  if c = 34 then
    let vend ← quotedEnd rounds (val + 1)
    let value ← copy id (clipped (vend - (val + 1)) valueLen) (val + 1)
    .ret (ofBuffer value)
  else
    let vlen ← strlen id rounds val
    let value ← copy id (clipped vlen valueLen) val
    .ret (trim value)

/-- A header, from its opening bracket on. -/
def iniSectionAt (rounds sectionLen : ℕ) (sectionName : Bytes) (line : ℕ) :
    Reader ℕ (ℤ × IniLine) := do
  let stop ← CellReader.strchr 93 id rounds line
  match stop with
  | none => .ret (0, ⟨sectionName, [], []⟩)
  | some stop =>
      if 0 < sectionLen then
        let name ← copy id (clipped (stop - line - 1) sectionLen) (line + 1)
        .ret (0, ⟨trim name, [], []⟩)
      else .ret (0, ⟨sectionName, [], []⟩)

def iniAssignmentAt (rounds keyLen valueLen : ℕ) (sectionName : Bytes) (line : ℕ) :
    Reader ℕ (ℤ × IniLine) := do
  let eq ← CellReader.strchr 61 id rounds line
  match eq with
  | none => .ret (0, ⟨sectionName, [], []⟩)
  | some eq =>
      let key ← copy id (clipped (eq - line) keyLen) line
      let value ← iniValueAt rounds valueLen (eq + 1)
      .ret (1, ⟨sectionName, trim key, value⟩)

/-- The return value of `parse_ini_line` and the buffers after it. -/
def parseIniLineAt (rounds sectionLen keyLen valueLen : ℕ) (sectionName : Bytes) :
    Reader ℕ (ℤ × IniLine) := do
  let line ← skipSpaces rounds 0
  let c ← byte line
  if c = 35 ∨ c = 59 ∨ c = 0 then .ret (0, ⟨sectionName, [], []⟩)
  else if c = 91 then iniSectionAt rounds sectionLen sectionName line
  else iniAssignmentAt rounds keyLen valueLen sectionName line

/-! ## Quoted values -/

/-- The loop over a quoted value meets a backslash that ends the line. -/
def escapesEnd : Bytes → Bool
  | [] => false
  | [c] => c == 92
  | c :: d :: rest =>
      if c = 34 then false
      else if c = 92 then escapesEnd rest
      else escapesEnd (d :: rest)

theorem clipped_of_pos {len size : ℕ} (hsize : 0 < size) :
    clipped len size = min len (size - 1) := by
  unfold clipped BufferWriter.sizeSub
  split_ifs <;> omega

section Reading

variable {mem : ℕ → UInt8} {inside : ℕ → Prop} {s : Bytes} {i n : ℕ}

theorem gives_skipSpaces (hs : StringAt mem inside id i s) (hn : s.length < n) {Q : ℕ → Prop} :
    Gives mem inside Q (skipSpaces n i) ↔ Q (i + (s.takeWhile isspace).length) := by
  have hsame : (fun c : UInt8 ↦ !(c == 0 || !isspace c)) = isspace := by
    funext c
    by_cases hc : c = 0
    · subst hc
      rfl
    · rw [beq_false_of_ne hc, Bool.false_or, Bool.not_not]
  have hle := (List.takeWhile_prefix (l := s) isspace).length_le
  rw [skipSpaces, hs.gives_scan (by rfl), hsame]
  exact and_iff_right (by omega)

theorem stringAt_dropWhile (hs : StringAt mem inside id i s) :
    StringAt mem inside id (i + (s.takeWhile isspace).length) (s.dropWhile isspace) := by
  rw [← List.takeWhile_append_dropWhile (p := isspace) (l := s)] at hs
  exact hs.behind

theorem gives_quotedEnd_succ (hs : StringAt mem inside id i s) {Q : ℕ → Prop} :
    Gives mem inside Q (quotedEnd (n + 1) i) ↔
      Gives mem inside Q (if s.head?.getD 0 = 0 ∨ s.head?.getD 0 = 34 then .ret i
        else quotedEnd n (if s.head?.getD 0 = 92 then i + 2 else i + 1)) :=
  hs.gives_byte

/-- The loop ends inside the line except behind a last backslash, where it goes
on with the cell behind the terminator. -/
theorem gives_quotedEnd (hs : StringAt mem inside id i s) (hn : s.length < n)
    (hout : ¬ inside (i + s.length + 1)) {Q : ℕ → Prop} :
    Gives mem inside Q (quotedEnd n i) ↔
      escapesEnd s = false ∧ Q (i + (quotedText s).length) := by
  induction s using quotedText.induct generalizing i n with
  | case1 =>
      obtain ⟨n, rfl⟩ : ∃ m, n = m + 1 := ⟨n - 1, by omega⟩
      rw [gives_quotedEnd_succ hs]
      simp [quotedText, escapesEnd]
  | case2 =>
      obtain ⟨n, rfl⟩ : ∃ m, n = m + 1 := ⟨n - 1, by omega⟩
      rw [gives_quotedEnd_succ hs]
      simp [quotedText, escapesEnd]
  | case3 c hc =>
      rw [List.length_singleton] at hn hout
      obtain ⟨n, rfl⟩ : ∃ m, n = m + 2 := ⟨n - 2, by omega⟩
      rw [gives_quotedEnd_succ hs, List.head?_cons, Option.getD_some,
        if_neg (not_or.mpr ⟨hs.2.2.1, hc⟩), quotedText, if_neg hc, escapesEnd]
      split_ifs with hslash
      -- the cell behind the terminator is looked at
      · refine iff_of_false (fun h ↦ hout h.1) ?_
        simp [hslash]
      · rw [gives_quotedEnd_succ hs.2.2.2]
        simp [hslash]
  | case4 d rest =>
      obtain ⟨n, rfl⟩ : ∃ m, n = m + 1 := ⟨n - 1, by omega⟩
      rw [gives_quotedEnd_succ hs]
      simp [quotedText, escapesEnd]
  | case5 d rest hc ih =>
      rw [List.length_cons, List.length_cons] at hn hout
      obtain ⟨n, rfl⟩ : ∃ m, n = m + 1 := ⟨n - 1, by omega⟩
      have hrest : StringAt mem inside id (i + 2) rest := hs.2.2.2.2.2.2
      have hout' : ¬ inside (i + 2 + rest.length + 1) := by
        rwa [Nat.add_assoc i 2, Nat.add_comm 2]
      rw [gives_quotedEnd_succ hs, List.head?_cons, Option.getD_some,
        if_neg (not_or.mpr ⟨hs.2.2.1, hc⟩), if_pos rfl, ih hrest (by omega) hout', quotedText,
        if_neg hc, if_pos rfl, escapesEnd, if_neg hc, if_pos rfl, List.length_cons,
        List.length_cons, Nat.add_assoc, Nat.add_comm 2]
  | case6 c d rest hc hc' ih =>
      rw [List.length_cons] at hn hout
      obtain ⟨n, rfl⟩ : ∃ m, n = m + 1 := ⟨n - 1, by omega⟩
      have hout' : ¬ inside (i + 1 + (d :: rest).length + 1) := by
        rwa [Nat.add_assoc i 1, Nat.add_comm 1]
      rw [gives_quotedEnd_succ hs, List.head?_cons, Option.getD_some,
        if_neg (not_or.mpr ⟨hs.2.2.1, hc⟩), if_neg hc', ih hs.2.2.2 (by omega) hout', quotedText,
        if_neg hc, if_neg hc', escapesEnd, if_neg hc, if_neg hc', List.length_cons, Nat.add_assoc,
        Nat.add_comm 1]

/-- The copy of the first bytes of a string, clipped to a buffer. -/
theorem gives_copy_clipped (hs : StringAt mem inside id i s) {front : Bytes} (hfront : front <+: s)
    {size len : ℕ} (hlen : len = front.length) (hsize : 0 < size) {Q : Bytes → Prop} :
    Gives mem inside Q (copy id (clipped len size) i) ↔ Q (cut size front) := by
  have hle := hfront.length_le
  have hclip : clipped len size = min (size - 1) front.length := by
    rw [clipped_of_pos hsize, hlen, min_comm]
  rw [hclip, hs.gives_copy (by omega), ← List.take_take, ← List.prefix_iff_eq_take.mp hfront]
  rfl

theorem getD_head?_eq_iff {b : UInt8} (hb : b ≠ 0) : s.head?.getD 0 = b ↔ s.head? = some b := by
  cases s with
  | nil => simp [hb.symm]
  | cons c s => simp

end Reading

/-- The text behind the equals sign is a quoted value that a backslash leads out
of. -/
def quotesTerminator (text : Bytes) : Bool :=
  let val := text.dropWhile isspace
  decide (val.head? = some 34) && escapesEnd (val.drop 1)

section Lines

variable {mem : ℕ → UInt8} {inside : ℕ → Prop} {i n sectionLen keyLen valueLen : ℕ}

theorem gives_iniValueAt {text : Bytes} (hs : StringAt mem inside id i text)
    (hn : text.length < n) (hsize : 0 < valueLen) (hout : ¬ inside (i + text.length + 1))
    {Q : Bytes → Prop} :
    Gives mem inside Q (iniValueAt n valueLen i) ↔
      quotesTerminator text = false ∧ Q (iniValue valueLen text) := by
  have hlen := congrArg List.length (List.takeWhile_append_dropWhile (p := isspace) (l := text))
  rw [List.length_append] at hlen
  have hval := stringAt_dropWhile hs
  have hshort : (text.dropWhile isspace).length < n := by omega
  have hbeyond : ¬ inside (i + (text.takeWhile isspace).length +
      (text.dropWhile isspace).length + 1) := by rwa [Nat.add_assoc i, hlen]
  rw [iniValueAt, gives_bind, gives_skipSpaces hs hn, iniValue, quotesTerminator]
  generalize text.dropWhile isspace = val at hval hshort hbeyond ⊢
  generalize i + (text.takeWhile isspace).length = start at hval hbeyond ⊢
  refine hval.gives_byte.trans ?_
  by_cases hquote : val.head? = some 34
  · obtain ⟨q, rfl⟩ : ∃ q, val = 34 :: q := List.head?_eq_some_iff.mp hquote
    have hq := hval.2.2.2
    rw [List.length_cons] at hshort hbeyond
    have hend : ¬ inside (start + 1 + q.length + 1) := by
      rwa [Nat.add_assoc start 1, Nat.add_comm 1]
    have hnul : (0 : UInt8) ∉ cut valueLen (quotedText q) := fun h0 ↦
      hq.zero_notMem ((quotedText_isPrefix q).subset (List.mem_of_mem_take h0))
    rw [List.head?_cons, Option.getD_some, if_pos rfl, if_pos rfl, gives_bind,
      gives_quotedEnd hq (by omega) hend, gives_bind,
      gives_copy_clipped hq (quotedText_isPrefix q) (Nat.add_sub_cancel_left _ _) hsize, gives_ret,
      List.drop_one, List.tail_cons, ofBuffer_eq_self hnul]
    simp
  · have hplain : ¬ val.head?.getD 0 = 34 := by rwa [getD_head?_eq_iff (by decide)]
    rw [if_neg hplain, if_neg hquote, gives_bind, hval.gives_strlen, and_iff_right hshort,
      gives_bind, gives_copy_clipped hval List.prefix_rfl rfl hsize, gives_ret,
      decide_eq_false hquote, Bool.false_and]
    exact (and_iff_right rfl).symm

theorem gives_iniSectionAt {s sectionName : Bytes} {start : ℕ}
    (hs : StringAt mem inside id start (91 :: s)) (hn : (91 :: s).length < n)
    (hsection : 0 < sectionLen) {Q : ℤ × IniLine → Prop} :
    Gives mem inside Q (iniSectionAt n sectionLen sectionName start) ↔
      Q (if (93 : UInt8) ∈ 91 :: s then
          (0, ⟨trim (cut sectionLen (s.takeWhile fun c ↦ decide (c ≠ 93))), [], []⟩)
        else (0, ⟨sectionName, [], []⟩)) := by
  have hle := (List.takeWhile_prefix (l := 91 :: s) fun c ↦ decide (c ≠ 93)).length_le
  rw [iniSectionAt, gives_bind, hs.gives_strchr (by decide), and_iff_right (by omega)]
  by_cases hclose : (93 : UInt8) ∈ 91 :: s
  · have hlen : start + ((91 :: s).takeWhile fun c ↦ decide (c ≠ 93)).length - start - 1 =
        (s.takeWhile fun c ↦ decide (c ≠ 93)).length := by
      rw [List.takeWhile_cons_of_pos (by decide), List.length_cons]
      omega
    rw [if_pos hclose, if_pos hclose]
    dsimp only
    rw [if_pos hsection, gives_bind,
      gives_copy_clipped hs.2.2.2 (List.takeWhile_prefix _) hlen hsection, gives_ret]
  · rw [if_neg hclose, if_neg hclose, gives_ret]

theorem gives_iniAssignmentAt {s sectionName : Bytes} {start : ℕ}
    (hs : StringAt mem inside id start s) (hn : s.length < n) (hkey : 0 < keyLen)
    (hvalue : 0 < valueLen) (hout : ¬ inside (start + s.length + 1)) {Q : ℤ × IniLine → Prop} :
    Gives mem inside Q (iniAssignmentAt n keyLen valueLen sectionName start) ↔
      if (61 : UInt8) ∈ s then
        quotesTerminator ((s.dropWhile fun c ↦ decide (c ≠ 61)).drop 1) = false ∧
          Q (1, ⟨sectionName, trim (cut keyLen (s.takeWhile fun c ↦ decide (c ≠ 61))),
            iniValue valueLen ((s.dropWhile fun c ↦ decide (c ≠ 61)).drop 1)⟩)
      else Q (0, ⟨sectionName, [], []⟩) := by
  have hle := (List.takeWhile_prefix (l := s) fun c ↦ decide (c ≠ 61)).length_le
  rw [iniAssignmentAt, gives_bind, hs.gives_strchr (by decide), and_iff_right (by omega)]
  by_cases heq : (61 : UInt8) ∈ s
  · obtain ⟨name, text, rfl, hname⟩ := List.eq_append_cons_of_mem heq
    have htext := (hs.behind).2.2.2
    rw [List.length_append, List.length_cons] at hn hout
    have hbeyond : ¬ inside (start + name.length + 1 + text.length + 1) := by
      rwa [Nat.add_assoc (start + name.length) 1, Nat.add_comm 1, Nat.add_assoc start]
    rw [if_pos heq, if_pos heq, takeWhile_ne_append hname, dropWhile_ne_append hname,
      List.drop_one, List.tail_cons, gives_bind,
      gives_copy_clipped hs (List.prefix_append _ _) (Nat.add_sub_cancel_left _ _) hkey, gives_bind,
      gives_iniValueAt htext (by omega) hvalue hbeyond]
    rfl
  · rw [if_neg heq, if_neg heq, gives_ret]

/-- The line is an assignment of a value that a backslash leads out of. -/
def leavesLine (line : Bytes) : Bool :=
  let rest := line.dropWhile isspace
  decide (rest.head? ≠ some 35 ∧ rest.head? ≠ some 59 ∧ rest.head? ≠ some 91 ∧
      (61 : UInt8) ∈ rest) &&
    quotesTerminator ((rest.dropWhile fun c ↦ decide (c ≠ 61)).drop 1)

theorem gives_parseIniLineAt {line sectionName : Bytes} (hs : StringAt mem inside id 0 line)
    (hn : line.length < n) (hsection : 0 < sectionLen) (hkey : 0 < keyLen) (hvalue : 0 < valueLen)
    (hout : ¬ inside (line.length + 1)) {Q : IniLine → Prop} :
    Gives mem inside (fun r ↦ Q r.2) (parseIniLineAt n sectionLen keyLen valueLen sectionName) ↔
      leavesLine line = false ∧
        Q (parseIniLine sectionLen keyLen valueLen line sectionName) := by
  have hlen := congrArg List.length (List.takeWhile_append_dropWhile (p := isspace) (l := line))
  rw [List.length_append] at hlen
  have hrest := stringAt_dropWhile hs
  rw [Nat.zero_add] at hrest
  have hshort : (line.dropWhile isspace).length < n := by omega
  have hbeyond : ¬ inside ((line.takeWhile isspace).length +
      (line.dropWhile isspace).length + 1) := by rwa [hlen]
  rw [parseIniLineAt, gives_bind, gives_skipSpaces hs hn, parseIniLine, leavesLine, Nat.zero_add]
  generalize line.dropWhile isspace = rest at hrest hshort hbeyond ⊢
  generalize (line.takeWhile isspace).length = start at hrest hbeyond ⊢
  refine hrest.gives_byte.trans ?_
  cases rest with
  | nil => simp
  | cons c s =>
      have hc : c ≠ 0 := hrest.2.2.1
      rw [List.head?_cons, Option.getD_some]
      by_cases hnone : c = 35 ∨ c = 59
      · rw [if_pos (by tauto), gives_ret]
        rcases hnone with rfl | rfl <;> simp
      · rw [if_neg (by tauto)]
        obtain ⟨hhash, hsemi⟩ := not_or.mp hnone
        by_cases hbracket : c = 91
        · subst hbracket
          rw [if_pos rfl, gives_iniSectionAt hrest hshort hsection]
          by_cases hclose : (93 : UInt8) ∈ s <;> simp [hclose]
        · rw [if_neg hbracket, gives_iniAssignmentAt hrest hshort hkey hvalue hbeyond]
          by_cases heq : (61 : UInt8) ∈ c :: s
          · rw [if_pos heq, if_neg (by simp [hhash, hsemi]), if_neg (by simpa using hbracket),
              if_neg (not_not.mpr heq)]
            simp [hhash, hsemi, hbracket, heq]
          · rw [if_neg heq, if_neg (by simp [hhash, hsemi]), if_neg (by simpa using hbracket),
              if_pos heq]
            simp [heq]

end Lines

/-! ## Lines that are left -/

/-- What the loop over a quoted value takes at a time. -/
def IsQuotedPiece (u : Bytes) : Prop := (∃ c, u = [c] ∧ c ≠ 34 ∧ c ≠ 92) ∨ ∃ d, u = [92, d]

theorem escapesEnd_iff {s : Bytes} :
    escapesEnd s = true ↔
      ∃ pieces : List Bytes, (∀ u ∈ pieces, IsQuotedPiece u) ∧ s = pieces.flatten ++ [92] := by
  constructor
  · intro h
    induction s using escapesEnd.induct with
    | case1 => cases h
    | case2 c =>
        obtain rfl : c = 92 := by simpa [escapesEnd] using h
        exact ⟨[], List.forall_mem_nil _, rfl⟩
    | case3 d rest => simp [escapesEnd] at h
    | case4 d rest hc ih =>
        obtain ⟨pieces, hpieces, rfl⟩ := ih (by simpa [escapesEnd] using h)
        exact ⟨[92, d] :: pieces, List.forall_mem_cons.mpr ⟨.inr ⟨d, rfl⟩, hpieces⟩, rfl⟩
    | case5 c d rest hc hc' ih =>
        obtain ⟨pieces, hpieces, hrest⟩ := ih (by simpa [escapesEnd, hc, hc'] using h)
        refine ⟨[c] :: pieces, List.forall_mem_cons.mpr ⟨.inl ⟨c, rfl, hc, hc'⟩, hpieces⟩, ?_⟩
        rw [hrest]
        rfl
  · rintro ⟨pieces, hpieces, rfl⟩
    induction pieces with
    | nil => rfl
    | cons u pieces ih =>
        rw [List.forall_mem_cons] at hpieces
        have hrest := ih hpieces.2
        rcases hpieces.1 with ⟨c, rfl, hc, hc'⟩ | ⟨d, rfl⟩
        · obtain ⟨d, rest, htail⟩ := List.exists_cons_of_ne_nil
            (List.append_ne_nil_of_right_ne_nil pieces.flatten (List.cons_ne_nil (92 : UInt8) []))
          rw [List.flatten_cons, List.append_assoc, htail, List.singleton_append, escapesEnd,
            if_neg hc, if_neg hc', ← htail]
          exact hrest
        · rw [List.flatten_cons, List.append_assoc, List.cons_append, List.cons_append,
            List.nil_append, escapesEnd, if_neg (by decide), if_pos rfl]
          exact hrest

/-- An assignment of a value in quotes that are not closed, whose last byte is a
backslash that no other backslash hides. -/
def EndsInOpenEscape (line : Bytes) : Prop :=
  ∃ (before name blanks : Bytes) (pieces : List Bytes),
    line = before ++ (name ++ 61 :: (blanks ++ 34 :: (pieces.flatten ++ [92]))) ∧
      (∀ c ∈ before, isspace c = true) ∧
      (∀ c ∈ name.head?, isspace c = false ∧ c ≠ 35 ∧ c ≠ 59 ∧ c ≠ 91) ∧ (61 : UInt8) ∉ name ∧
      (∀ c ∈ blanks, isspace c = true) ∧ ∀ u ∈ pieces, IsQuotedPiece u

theorem leavesLine_iff {line : Bytes} : leavesLine line = true ↔ EndsInOpenEscape line := by
  unfold leavesLine quotesTerminator
  dsimp only
  rw [Bool.and_eq_true, Bool.and_eq_true, decide_eq_true_iff, decide_eq_true_iff, escapesEnd_iff]
  constructor
  · rintro ⟨⟨hhash, hsemi, hbracket, heq⟩, hquote, pieces, hpieces, htext⟩
    obtain ⟨name, text, hrest, hname⟩ := List.eq_append_cons_of_mem heq
    have hspace := List.head?_dropWhile_not isspace line
    have hbehind : ((line.dropWhile isspace).dropWhile fun c ↦ decide (c ≠ 61)).drop 1 = text := by
      rw [hrest, dropWhile_ne_append hname]
      rfl
    rw [hbehind] at hquote htext
    obtain ⟨q, hq⟩ := List.head?_eq_some_iff.mp hquote
    rw [hq, List.drop_one, List.tail_cons] at htext
    refine ⟨line.takeWhile isspace, name, text.takeWhile isspace, pieces, ?_,
      fun c hc ↦ List.mem_takeWhile_imp hc, ?_, hname, fun c hc ↦ List.mem_takeWhile_imp hc,
      hpieces⟩
    · rw [← htext, ← hq, List.takeWhile_append_dropWhile, ← hrest,
        List.takeWhile_append_dropWhile]
    · intro c hc
      have hhead : (line.dropWhile isspace).head? = some c := by
        rw [hrest, List.head?_append, hc, Option.some_or]
      rw [hhead] at hspace hhash hsemi hbracket
      refine ⟨by simpa using hspace, ?_, ?_, ?_⟩
      · exact fun h ↦ hhash (by rw [h])
      · exact fun h ↦ hsemi (by rw [h])
      · exact fun h ↦ hbracket (by rw [h])
  · rintro ⟨before, name, blanks, pieces, rfl, hbefore, hstart, hname, hblanks, hpieces⟩
    generalize hvalue : pieces.flatten ++ [92] = value
    have hhead : ∀ c ∈ (name ++ 61 :: (blanks ++ 34 :: value)).head?,
        isspace c = false ∧ c ≠ 35 ∧ c ≠ 59 ∧ c ≠ 91 := by
      cases name with
      | nil =>
          intro c hc
          obtain rfl : 61 = c := Option.some.inj hc
          decide
      | cons b name => exact hstart
    have hne {b : UInt8} (hb : ∀ c : UInt8, c ≠ 35 ∧ c ≠ 59 ∧ c ≠ 91 → c ≠ b) :
        (name ++ 61 :: (blanks ++ 34 :: value)).head? ≠ some b :=
      fun h ↦ hb b (hhead b h).2 rfl
    have hquote : (blanks ++ 34 :: value).dropWhile isspace = 34 :: value := by
      apply dropWhile_isspace_append hblanks
      rintro c ⟨⟩
      decide
    rw [dropWhile_isspace_append hbefore fun c hc ↦ (hhead c hc).1, dropWhile_ne_append hname,
      List.drop_one, List.tail_cons, hquote]
    refine ⟨⟨hne fun c hc ↦ hc.1, hne fun c hc ↦ hc.2.1, hne fun c hc ↦ hc.2.2, ?_⟩, rfl,
      pieces, hpieces, hvalue.symm⟩
    exact List.mem_append_right _ List.mem_cons_self

theorem parseIniLine_isInfix (sectionLen keyLen valueLen : ℕ) (line sectionName : Bytes) :
    (parseIniLine sectionLen keyLen valueLen line sectionName).key <:+: line ∧
      (parseIniLine sectionLen keyLen valueLen line sectionName).value <:+: line := by
  have hnil : ([] : Bytes) <:+: line := List.nil_infix
  have hstart : line.dropWhile isspace <:+: line := (List.dropWhile_suffix _).isInfix
  unfold parseIniLine
  dsimp only
  split_ifs
  · exact ⟨hnil, hnil⟩
  · exact ⟨hnil, hnil⟩
  · exact ⟨hnil, hnil⟩
  · refine ⟨((trim_isInfix _).trans (List.take_prefix _ _).isInfix).trans
      ((List.takeWhile_prefix _).isInfix.trans hstart), ?_⟩
    exact (iniValue_isInfix _ _).trans
      ((List.drop_suffix _ _).isInfix.trans ((List.dropWhile_suffix _).isInfix.trans hstart))
  · exact ⟨hnil, hnil⟩

section Memory

variable {line sectionName : Bytes} {behind : ℕ → UInt8}
  {sectionLen keyLen valueLen rounds : ℕ}

theorem gives_line_iff (hline : (0 : UInt8) ∉ line) (hsection : 0 < sectionLen)
    (hkey : 0 < keyLen) (hvalue : 0 < valueLen) (hrounds : line.length < rounds) :
    Gives (followed (line ++ [0]) behind) (· ≤ line.length)
        (fun r ↦ r.2.key <:+: line ∧ r.2.value <:+: line)
        (parseIniLineAt rounds sectionLen keyLen valueLen sectionName) ↔
      leavesLine line = false := by
  have hs := stringAt_start hline behind
  have hout : ¬ line.length + 1 ≤ line.length := by omega
  have hparts := parseIniLine_isInfix sectionLen keyLen valueLen line sectionName
  exact (gives_parseIniLineAt hs hrounds hsection hkey hvalue hout
    (Q := fun r ↦ r.key <:+: line ∧ r.value <:+: line)).trans (and_iff_left hparts)

end Memory

/-- Whatever stands behind the terminator, a line is parsed without looking at
it, and into a key and a value that are parts of the line, except when the line
ends with the backslash of an open quoted value. -/
theorem ini_line_stays_inside_iff (line sectionName : Bytes) (behind : ℕ → UInt8)
    (sectionLen keyLen valueLen rounds : ℕ) (hline : (0 : UInt8) ∉ line)
    (hsection : 0 < sectionLen) (hkey : 0 < keyLen) (hvalue : 0 < valueLen)
    (hrounds : line.length < rounds) :
    Gives (followed (line ++ [0]) behind) (· ≤ line.length)
        (fun r ↦ r.2.key <:+: line ∧ r.2.value <:+: line)
        (parseIniLineAt rounds sectionLen keyLen valueLen sectionName) ↔
      ¬ EndsInOpenEscape line := by
  rw [gives_line_iff hline hsection hkey hvalue hrounds, ← leavesLine_iff, Bool.not_eq_true]

/-- The buffers of `config_load` and a path in quotes. -/
theorem ini_line_stays_inside_iff_quoted :
    Gives (followed (ascii "data_dir = \"C:\\\\data\"\n" ++ [0]) fun _ ↦ 120) (· ≤ 22)
      (fun r ↦ r.2.key <:+: ascii "data_dir = \"C:\\\\data\"\n" ∧
        r.2.value <:+: ascii "data_dir = \"C:\\\\data\"\n")
      (parseIniLineAt 1024 64 128 1024 (ascii "paths")) := by
  have hinside : ¬ EndsInOpenEscape (ascii "data_dir = \"C:\\\\data\"\n") := by
    rw [← leavesLine_iff]
    decide
  exact (ini_line_stays_inside_iff (ascii "data_dir = \"C:\\\\data\"\n") (ascii "paths")
    (fun _ ↦ 120) 64 128 1024 1024 (by decide) (by decide) (by decide) (by decide)
    (by decide)).mpr hinside

/-- The last line of a file, without a newline, may end so. -/
theorem ini_line_leaves_itself :
    ¬ ∀ (line sectionName : Bytes) (behind : ℕ → UInt8)
      (sectionLen keyLen valueLen rounds : ℕ), (0 : UInt8) ∉ line → 0 < sectionLen →
      0 < keyLen → 0 < valueLen → line.length < rounds →
      Gives (followed (line ++ [0]) behind) (· ≤ line.length)
        (fun r ↦ r.2.key <:+: line ∧ r.2.value <:+: line)
        (parseIniLineAt rounds sectionLen keyLen valueLen sectionName) := by
  intro h
  have hline := h (ascii "data_dir=\"\\") [] (fun _ ↦ 120) 64 128 1024 1024 (by decide) (by decide)
    (by decide) (by decide) (by decide)
  rw [gives_line_iff (by decide) (by decide) (by decide) (by decide) (by decide)] at hline
  exact absurd hline (by decide)

end DoctorClaw
