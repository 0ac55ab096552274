import DoctorClaw.Lib.Trim

/-!
# The lines of a configuration file

`parse_ini_line` reads a section header or an assignment.  Values may stand in
double quotes, which are taken off without undoing any escape.
-/

namespace DoctorClaw

open CString

/-- The text up to the closing quote; a backslash hides the byte behind it.
What stands behind the terminator of the text cannot be seen in the value. -/
def quotedText : Bytes → Bytes
  | [] => []
  | [c] => if c = 34 then [] else [c]
  | c :: d :: rest =>
      if c = 34 then []
      else if c = 92 then c :: d :: quotedText rest
      else c :: quotedText (d :: rest)

/-- The buffers after `parse_ini_line`.  A line without an assignment leaves the
key empty. -/
structure IniLine where
  sectionName : Bytes
  key : Bytes
  value : Bytes
  deriving DecidableEq

/-- The value of an assignment, from the text behind the equals sign. -/
def iniValue (valueLen : ℕ) (text : Bytes) : Bytes :=
  let val := text.dropWhile isspace
  if val.head? = some 34 then cut valueLen (quotedText (val.drop 1)) else trim (cut valueLen val)

def parseIniLine (sectionLen keyLen valueLen : ℕ) (line sectionName : Bytes) : IniLine :=
  let line := line.dropWhile isspace
  if line = [] ∨ line.head? = some 35 ∨ line.head? = some 59 then ⟨sectionName, [], []⟩
  else if line.head? = some 91 then
    if (93 : UInt8) ∈ line then
      ⟨trim (cut sectionLen ((line.drop 1).takeWhile fun c ↦ decide (c ≠ 93))), [], []⟩
    else ⟨sectionName, [], []⟩
  else if (61 : UInt8) ∉ line then ⟨sectionName, [], []⟩
  else
    ⟨sectionName, trim (cut keyLen (line.takeWhile fun c ↦ decide (c ≠ 61))),
      iniValue valueLen ((line.dropWhile fun c ↦ decide (c ≠ 61)).drop 1)⟩

/-! ## What a line can do -/

section Parts

variable {sectionLen keyLen valueLen : ℕ} {line sectionName : Bytes}

theorem quotedText_isPrefix (s : Bytes) : quotedText s <+: s := by
  induction s using quotedText.induct with
  | case1 => exact List.prefix_rfl
  | case2 => exact List.nil_prefix
  | case3 c hc =>
      rw [quotedText, if_neg hc]
  | case4 d rest =>
      rw [quotedText, if_pos rfl]
      exact List.nil_prefix
  | case5 d rest hc ih =>
      rw [quotedText, if_neg hc, if_pos rfl]
      exact (List.prefix_cons_inj _).mpr ((List.prefix_cons_inj _).mpr ih)
  | case6 c d rest hc hc' ih =>
      rw [quotedText, if_neg hc, if_neg hc']
      exact (List.prefix_cons_inj _).mpr ih

theorem iniValue_isInfix (valueLen : ℕ) (text : Bytes) : iniValue valueLen text <:+: text := by
  have hval : text.dropWhile isspace <:+: text := (List.dropWhile_suffix _).isInfix
  unfold iniValue
  dsimp only
  split_ifs
  · have hquoted := (List.take_prefix (valueLen - 1) _).trans
      (quotedText_isPrefix ((text.dropWhile isspace).drop 1))
    exact (hquoted.isInfix.trans (List.drop_suffix _ _).isInfix).trans hval
  · exact ((trim_isInfix _).trans (List.take_prefix _ _).isInfix).trans hval

/-- A line is no assignment and may name a section, or it is an assignment. -/
theorem parseIniLine_cases (sectionLen keyLen valueLen : ℕ) (line sectionName : Bytes) :
    ((parseIniLine sectionLen keyLen valueLen line sectionName).key = [] ∧
      ((parseIniLine sectionLen keyLen valueLen line sectionName).sectionName = sectionName ∨
        (parseIniLine sectionLen keyLen valueLen line sectionName).sectionName.length ≤
          line.length)) ∨
    ∃ name text, name ++ 61 :: text <:+ line ∧
      parseIniLine sectionLen keyLen valueLen line sectionName =
        ⟨sectionName, trim (cut keyLen name), iniValue valueLen text⟩ := by
  have hstart : line.dropWhile isspace <:+ line := List.dropWhile_suffix _
  generalize hrest : line.dropWhile isspace = rest at hstart
  rw [parseIniLine, hrest]
  split_ifs with hnone hheader hend heq
  · exact .inl ⟨rfl, .inl rfl⟩
  · refine .inl ⟨rfl, .inr ?_⟩
    have hlen := (trim_isInfix (cut sectionLen
      ((rest.drop 1).takeWhile fun c ↦ decide (c ≠ 93)))).length_le
    have hcut := (List.take_prefix (sectionLen - 1)
      ((rest.drop 1).takeWhile fun c ↦ decide (c ≠ 93))).length_le
    have hname := (List.takeWhile_prefix (l := rest.drop 1) fun c ↦ decide (c ≠ 93)).length_le
    exact hlen.trans (hcut.trans (hname.trans ((List.drop_suffix _ _).length_le.trans
      hstart.length_le)))
  · exact .inl ⟨rfl, .inl rfl⟩
  · refine .inr ⟨_, _, ?_, rfl⟩
    obtain ⟨name, text, rfl, hname⟩ := List.eq_append_cons_of_mem heq
    rw [takeWhile_ne_append hname, dropWhile_ne_append hname]
    exact hstart
  · exact .inl ⟨rfl, .inl rfl⟩

end Parts

/-! ## Written lines -/

/-- A key as the writer puts it in front of the equals sign. -/
structure IsIniKey (key : Bytes) : Prop where
  trimmed : IsTrimmed key
  nonempty : key ≠ []
  equals : (61 : UInt8) ∉ key
  start : key.head? ≠ some 35 ∧ key.head? ≠ some 59 ∧ key.head? ≠ some 91
  length : key.length ≤ 100

instance : DecidablePred IsIniKey := fun key ↦
  decidable_of_iff (IsTrimmed key ∧ key ≠ [] ∧ (61 : UInt8) ∉ key ∧
      (key.head? ≠ some 35 ∧ key.head? ≠ some 59 ∧ key.head? ≠ some 91) ∧ key.length ≤ 100)
    ⟨fun h ↦ ⟨h.1, h.2.1, h.2.2.1, h.2.2.2.1, h.2.2.2.2⟩,
      fun h ↦ ⟨h.trimmed, h.nonempty, h.equals, h.start, h.length⟩⟩

def settingText (key value : Bytes) : Bytes := key ++ ascii " = " ++ value

section Written

variable {key value sectionName : Bytes} {sectionLen keyLen valueLen : ℕ}

theorem parseIniLine_comment (rest : Bytes) :
    parseIniLine sectionLen keyLen valueLen (35 :: rest) sectionName = ⟨sectionName, [], []⟩ := by
  rw [parseIniLine, List.dropWhile_cons_of_neg (by decide)]
  simp

theorem parseIniLine_blank {line : Bytes} (hline : ∀ c ∈ line, isspace c = true) :
    parseIniLine sectionLen keyLen valueLen line sectionName = ⟨sectionName, [], []⟩ := by
  rw [parseIniLine, List.dropWhile_eq_nil_iff.mpr hline]
  simp

/-- A header names the section up to its first bracket. -/
theorem parseIniLine_header {name : Bytes} (hname : (93 : UInt8) ∉ name) (rest : Bytes) :
    parseIniLine sectionLen keyLen valueLen (91 :: (name ++ 93 :: rest)) sectionName =
      ⟨trim (cut sectionLen name), [], []⟩ := by
  have hmem : (93 : UInt8) ∈ 91 :: (name ++ 93 :: rest) := by simp
  rw [parseIniLine, List.dropWhile_cons_of_neg (by decide), if_neg (by simp), if_pos (by simp),
    if_pos hmem, List.drop_one, List.tail_cons,
    takeWhile_ne_append hname]

/-- A line that begins like an assignment is split at its first equals sign. -/
theorem parseIniLine_assignment {c : UInt8} {name rest : Bytes} (hname : name.head? = some c)
    (hc : isspace c = false ∧ c ≠ 35 ∧ c ≠ 59 ∧ c ≠ 91) (hneq : (61 : UInt8) ∉ name) :
    parseIniLine sectionLen keyLen valueLen (name ++ 61 :: rest) sectionName =
      ⟨sectionName, trim (cut keyLen name), iniValue valueLen rest⟩ := by
  obtain ⟨hspace, hhash, hsemi, hbracket⟩ := hc
  obtain ⟨tail, rfl⟩ : ∃ tail, name = c :: tail := by
    cases name with
    | nil => cases hname
    | cons d tail => exact ⟨tail, by rw [Option.some.inj hname]⟩
  have hstart : (c :: tail ++ 61 :: rest).dropWhile isspace = c :: tail ++ 61 :: rest :=
    List.dropWhile_cons_of_neg (by simp [hspace])
  have hhead : (c :: tail ++ 61 :: rest).head? = some c := rfl
  have hmem : ¬ (61 : UInt8) ∉ c :: tail ++ 61 :: rest :=
    not_not.mpr (List.mem_append_right _ List.mem_cons_self)
  rw [parseIniLine, hstart, hhead, if_neg (by simp [hhash, hsemi]), if_neg (by simp [hbracket]),
    if_neg hmem, takeWhile_ne_append hneq, dropWhile_ne_append hneq]
  rfl

/-- The key of a written line is recognised, whatever stands behind the sign. -/
theorem parseIniLine_setting (hkey : IsIniKey key) (hlen : 102 ≤ keyLen) (rest : Bytes) :
    parseIniLine sectionLen keyLen valueLen (settingText key rest) sectionName =
      ⟨sectionName, key, iniValue valueLen (32 :: rest)⟩ := by
  have hklen := hkey.length
  have htext : settingText key rest = (key ++ [32]) ++ 61 :: 32 :: rest := by
    have hsep : ascii " = " = [32, 61, 32] := by decide
    simp [settingText, hsep]
  obtain ⟨c, hc⟩ : ∃ c, key.head? = some c :=
    ⟨_, List.head?_eq_some_head hkey.nonempty⟩
  have hname : (key ++ [32]).head? = some c := by
    rw [List.head?_append_of_ne_nil _ hkey.nonempty, hc]
  have hneq : (61 : UInt8) ∉ key ++ [32] := by
    rw [List.mem_append, not_or]
    exact ⟨hkey.equals, by decide⟩
  have hkeyPart : trim (cut keyLen (key ++ [32])) = key := by
    have hblank : ∀ d ∈ ([32] : Bytes), isspace d = true := List.forall_mem_singleton.mpr rfl
    rw [cut_of_lt (by rw [List.length_append, List.length_singleton]; omega)]
    simpa using trim_append hkey.trimmed (fun _ h ↦ absurd h List.not_mem_nil) hblank
  obtain ⟨hhash, hsemi, hbracket⟩ := hkey.start
  rw [hc] at hhash hsemi hbracket
  rw [htext, parseIniLine_assignment hname ⟨hkey.trimmed.1 c hc, ?_, ?_, ?_⟩ hneq, hkeyPart]
  · exact fun h ↦ hhash (by rw [h])
  · exact fun h ↦ hsemi (by rw [h])
  · exact fun h ↦ hbracket (by rw [h])

/-- A value that is written as it is and read as it is. -/
structure IsIniValue (value : Bytes) : Prop where
  trimmed : IsTrimmed value
  unquoted : value.head? ≠ some 34
  newline : (10 : UInt8) ∉ value
  nul : (0 : UInt8) ∉ value
  length : value.length ≤ 900

theorem iniValue_written (hvalue : IsIniValue value) (hlen : 902 ≤ valueLen) :
    iniValue valueLen (32 :: (value ++ [10])) = value := by
  have hvlen := hvalue.length
  have hnl : ∀ d ∈ ([10] : Bytes), isspace d = true := List.forall_mem_singleton.mpr rfl
  have hnone : ∀ d ∈ ([] : Bytes), isspace d = true := fun _ h ↦ absurd h List.not_mem_nil
  unfold iniValue
  rw [List.dropWhile_cons_of_pos (by decide)]
  dsimp only
  by_cases hne : value = []
  · have hdrop : ([10] : Bytes).dropWhile isspace = [] := by decide
    rw [hne, List.nil_append, hdrop, if_neg (by simp), cut, List.take_nil]
    rfl
  · have hhead : (value ++ [10]).head? = value.head? := List.head?_append_of_ne_nil _ hne
    have hdrop : (value ++ [10]).dropWhile isspace = value ++ [10] :=
      dropWhile_isspace_append hnone (hhead ▸ hvalue.trimmed.1)
    rw [hdrop, hhead, if_neg hvalue.unquoted, cut_of_lt (by simp; omega)]
    simpa using trim_append hvalue.trimmed hnone hnl

end Written

end DoctorClaw
