import DoctorClaw.Tools.Files
import DoctorClaw.Tools.Services

/-!
# Tools with several parameters

`parse_string_param` hands out one static buffer, so a tool that looks up
several parameters before it uses them reads the last one in the place of all.
A parameter keeps its value only when the value is the same as that of the key
looked up last, which for most tools is an option that is usually not there.

On an object of plain members the scanner finds a name in quotes, whether it
stands there as a key or as a value, and takes the next value behind a colon,
without the blanks around it.
-/

namespace DoctorClaw

open Interaction Command

/-! ## Objects of plain members -/

/-- No quote, comma, brace, backslash or colon. -/
def isPlainByte (c : UInt8) : Bool :=
  c ≠ 0 && c ≠ 34 && c ≠ 44 && c ≠ 58 && c ≠ 92 && c ≠ 123 && c ≠ 125

structure ParamObject where
  members : List (Bytes × Bytes)
  key_plain : ∀ m ∈ members, m.1.all isPlainByte = true
  value_plain : ∀ m ∈ members, m.2.all isPlainByte = true
  value_ne : ∀ m ∈ members, m.2 ≠ []
  keys_nodup : (members.map Prod.fst).Nodup

/-- The members, up to the closing brace. -/
def renderParams : List (Bytes × Bytes) → Bytes
  | [] => [125]
  | m :: ms =>
      34 :: (m.1 ++ 34 :: 58 :: 34 :: (m.2 ++ 34 ::
        (if ms = [] then [125] else 44 :: renderParams ms)))

namespace ParamObject

def text (o : ParamObject) : Bytes := 123 :: renderParams o.members

/-- The value given for the key. -/
def value (o : ParamObject) (key : String) : Option Bytes :=
  (o.members.find? fun m ↦ m.1 = ascii key).map Prod.snd

end ParamObject

/-- The value behind the first place where the name stands. -/
def valueBehind (name : Bytes) : List (Bytes × Bytes) → Option Bytes
  | [] => none
  | m :: ms =>
      if m.1 = name then some m.2
      else if m.2 = name then ms.head?.map Prod.snd
      else valueBehind name ms

/-- A value as the scanner stores it. -/
def trimmed (v : Bytes) : Bytes :=
  ((v.dropWhile (· = 32)).take (paramValueSize - 1)).rdropWhile (· = 32)

/-- What the scanner stores for a key. -/
def ParamObject.found (o : ParamObject) (key : String) : Bytes :=
  ((valueBehind (ascii key) o.members).map trimmed).getD []

/-! ## The scanner -/

theorem plain_ne {s : Bytes} (hs : s.all isPlainByte = true) {c : UInt8} (hc : c ∈ s) :
    c ≠ 34 ∧ c ≠ 44 ∧ c ≠ 58 ∧ c ≠ 123 ∧ c ≠ 125 := by
  have hplain := List.all_eq_true.mp hs c hc
  simp only [isPlainByte, Bool.and_eq_true, decide_eq_true_eq] at hplain
  obtain ⟨⟨⟨⟨⟨⟨-, h34⟩, h44⟩, h58⟩, -⟩, h123⟩, h125⟩ := hplain
  exact ⟨h34, h44, h58, h123, h125⟩

theorem quote_notMem_plain {s : Bytes} (hs : s.all isPlainByte = true) : (34 : UInt8) ∉ s :=
  fun h ↦ (plain_ne hs h).1 rfl

theorem colon_notMem_plain {s : Bytes} (hs : s.all isPlainByte = true) : (58 : UInt8) ∉ s :=
  fun h ↦ (plain_ne hs h).2.2.1 rfl

/-- What follows a value in a rendered object. -/
def Ends (rest : Bytes) : Prop := rest = [125] ∨ ∃ more, rest = 44 :: more

theorem dropWhile_isValueLead {v : Bytes} (hv : v.all isPlainByte = true) :
    v.dropWhile isValueLead = v.dropWhile fun c ↦ decide (c = 32) := by
  induction v with
  | nil => rfl
  | cons c v ih =>
      rw [List.all_cons, Bool.and_eq_true] at hv
      obtain ⟨h34, -, -, h123, h125⟩ := plain_ne (s := [c]) (by simpa using hv.1) List.mem_cons_self
      by_cases hc : c = 32
      · rw [List.dropWhile_cons_of_pos (by rw [hc]; rfl),
          List.dropWhile_cons_of_pos (by simpa using hc), ih hv.2]
      · rw [List.dropWhile_cons_of_neg, List.dropWhile_cons_of_neg (by simpa using hc)]
        simp [isValueLead, hc, h34, h123, h125]

theorem rdropWhile_blank {v : Bytes} (hv : (34 : UInt8) ∉ v) :
    v.rdropWhile (fun c ↦ c == 32 || c == 34) = v.rdropWhile fun c ↦ decide (c = 32) := by
  induction v using List.reverseRecOn with
  | nil => rfl
  | append_singleton v c ih =>
      rw [List.mem_append, not_or] at hv
      have hc : c ≠ 34 := fun h ↦ hv.2 (h ▸ List.mem_singleton_self _)
      by_cases hblank : c = 32
      · rw [List.rdropWhile_concat_pos _ _ _ (by simp [hblank]),
          List.rdropWhile_concat_pos _ _ _ (by simp [hblank]), ih hv.1]
      · rw [List.rdropWhile_concat_neg _ _ _ (by simp [hblank, hc]),
          List.rdropWhile_concat_neg _ _ _ (by simp [hblank])]

theorem paramValue_quoted {v : Bytes} (hv : v.all isPlainByte = true) {rest : Bytes}
    (hrest : Ends rest) : paramValue (34 :: (v ++ 34 :: rest)) = trimmed v := by
  rw [paramValue, trimmed, List.dropWhile_cons_of_pos rfl, List.dropWhile_append,
    dropWhile_isValueLead hv]
  cases hblank : v.dropWhile fun c ↦ decide (c = 32) with
  | nil =>
      -- a blank value is skipped together with its closing quote
      have hnothing :
          ((34 :: rest).dropWhile isValueLead).takeWhile (fun c ↦ !isValueEnd c) = [] := by
        rcases hrest with rfl | ⟨more, rfl⟩ <;> rfl
      simp only [List.isEmpty_nil, if_true, hnothing]
      rfl
  | cons c w =>
      have hmem : ∀ b ∈ c :: w, b ≠ 34 ∧ b ≠ 44 ∧ b ≠ 125 := by
        intro b hb
        rw [← hblank] at hb
        obtain ⟨h34, h44, -, -, h125⟩ := plain_ne hv ((List.dropWhile_suffix _).subset hb)
        exact ⟨h34, h44, h125⟩
      have htake : (c :: w ++ 34 :: rest).takeWhile (fun c ↦ !isValueEnd c) = c :: w := by
        rw [List.takeWhile_append_of_pos, List.takeWhile_cons_of_neg (by decide), List.append_nil]
        intro b hb
        obtain ⟨h34, h44, h125⟩ := hmem b hb
        simp [isValueEnd, h34, h44, h125]
      simp only [List.isEmpty_cons, Bool.false_eq_true, if_false, htake]
      exact rdropWhile_blank fun h ↦ (hmem _ (List.mem_of_mem_take h)).1 rfl

section Search

variable {name : Bytes} (hname : name.all isPlainByte = true) (hne : name ≠ [])

include hname

theorem strstr_skip_word {s : Bytes} (hs : s.all isPlainByte = true) (hdiff : s ≠ name)
    (t : Bytes) :
    CString.strstr ([34] ++ name ++ [34]) (34 :: (s ++ 34 :: t)) =
      CString.strstr ([34] ++ name ++ [34]) (34 :: t) := by
  rw [CString.strstr_cons_of_not,
    CString.strstr_append_of_notMem (c := 34) rfl (quote_notMem_plain hs)]
  intro hprefix
  have hword : name ++ [34] <+: s ++ 34 :: t := (List.cons_prefix_cons.mp hprefix).2
  have hsame := CString.eq_of_quoted_prefix (quote_notMem_plain hname) (quote_notMem_plain hs) hword
  exact hdiff hsame.symm

include hne

theorem strstr_skip_mark {c : UInt8} (hc : isPlainByte c = false) (h34 : c ≠ 34) (t : Bytes) :
    CString.strstr ([34] ++ name ++ [34]) (34 :: c :: t) =
      CString.strstr ([34] ++ name ++ [34]) t := by
  obtain ⟨b, more, rfl⟩ := List.exists_cons_of_ne_nil hne
  have hb : isPlainByte b = true := List.all_eq_true.mp hname b List.mem_cons_self
  rw [CString.strstr_cons_of_not, CString.strstr_cons_of_not]
  · exact fun hprefix ↦ h34 (List.cons_prefix_cons.mp hprefix).1.symm
  · intro hprefix
    have hhead := (List.cons_prefix_cons.mp (List.cons_prefix_cons.mp hprefix).2).1
    rw [hhead, hc] at hb
    cases hb

/-- The search for a name in quotes stops at the first key or value that is the
name. -/
theorem strchr_strstr_renderParams {ms : List (Bytes × Bytes)}
    (hkeys : ∀ m ∈ ms, m.1.all isPlainByte = true)
    (hvalues : ∀ m ∈ ms, m.2.all isPlainByte = true) :
    (valueBehind name ms = none ∧
      (CString.strstr ([34] ++ name ++ [34]) (renderParams ms)).bind (CString.strchr 58) = none) ∨
    ∃ v rest, valueBehind name ms = some v ∧ v.all isPlainByte = true ∧ Ends rest ∧
      (CString.strstr ([34] ++ name ++ [34]) (renderParams ms)).bind (CString.strchr 58) =
        some (58 :: 34 :: (v ++ 34 :: rest)) := by
  have hfound (s t : Bytes) (hs : s = name) :
      CString.strstr ([34] ++ name ++ [34]) (34 :: (s ++ 34 :: t)) = some (34 :: (s ++ 34 :: t)) :=
    CString.strstr_of_isPrefix ⟨t, by simp [hs]⟩
  induction ms with
  | nil =>
      refine .inl ⟨rfl, ?_⟩
      have hnone : CString.strstr ([34] ++ name ++ [34]) [125] = none := by
        rw [CString.strstr_cons_of_not]
        · rfl
        · exact fun hprefix ↦ absurd (List.cons_prefix_cons.mp hprefix).1 (by decide)
      rw [renderParams, hnone, Option.bind_none]
  | cons m ms ih =>
      rw [List.forall_mem_cons] at hkeys hvalues
      have hends : Ends (if ms = [] then [125] else 44 :: renderParams ms) := by
        split_ifs
        · exact .inl rfl
        · exact .inr ⟨_, rfl⟩
      rw [renderParams, valueBehind]
      by_cases hkey : m.1 = name
      · refine .inr ⟨m.2, _, if_pos hkey, hvalues.1, hends, ?_⟩
        rw [hfound _ _ hkey, Option.bind_some]
        have hcolon := CString.strchr_append (c := 58) (s := 34 :: (m.1 ++ [34]))
          (by simp [colon_notMem_plain hkeys.1])
        simpa using hcolon _
      · rw [if_neg hkey, strstr_skip_word hname hkeys.1 hkey,
          strstr_skip_mark hname hne (by decide) (by decide)]
        by_cases hvalue : m.2 = name
        · rw [if_pos hvalue, hfound _ _ hvalue, Option.bind_some]
          cases ms with
          | nil =>
              refine .inl ⟨rfl, CString.strchr_eq_none ?_⟩
              simp [colon_notMem_plain hvalues.1]
          | cons m' ms =>
              rw [List.forall_mem_cons] at hkeys hvalues
              have hends' : Ends (if ms = [] then [125] else 44 :: renderParams ms) := by
                split_ifs
                · exact .inl rfl
                · exact .inr ⟨_, rfl⟩
              refine .inr ⟨m'.2, _, rfl, hvalues.2.1, hends', ?_⟩
              have hcolon := CString.strchr_append (c := 58)
                (s := 34 :: (m.2 ++ 34 :: 44 :: 34 :: (m'.1 ++ [34])))
                (by simp [colon_notMem_plain hvalues.1, colon_notMem_plain hkeys.2.1])
              rw [if_neg (List.cons_ne_nil _ _), renderParams]
              simpa using hcolon _
        · rw [if_neg hvalue, strstr_skip_word hname hvalues.1 hvalue]
          split_ifs with hlast
          · rw [strstr_skip_mark hname hne (by decide) (by decide), hlast]
            exact .inl ⟨rfl, rfl⟩
          · rw [strstr_skip_mark hname hne (by decide) (by decide)]
            exact ih hkeys.2 hvalues.2

theorem strstr_colon_renderParams {ms : List (Bytes × Bytes)}
    (hkeys : ∀ m ∈ ms, m.1.all isPlainByte = true)
    (hvalues : ∀ m ∈ ms, m.2.all isPlainByte = true) :
    CString.strstr (name ++ [58]) (renderParams ms) = none := by
  have hneedle : name ++ [58] ≠ [] := by simp
  have hquote : (34 : UInt8) ∉ name ++ [58] := by simp [quote_notMem_plain hname]
  have hnone {s : Bytes} (hs : (58 : UInt8) ∉ s) : CString.strstr (name ++ [58]) s = none := by
    rw [← Option.not_isSome_iff_eq_none, CString.strstr_isSome_iff]
    exact fun hfound ↦ hs (hfound.subset (by simp))
  have hcolon : CString.strstr (name ++ [58]) [58] = none := by
    rw [← Option.not_isSome_iff_eq_none, CString.strstr_isSome_iff]
    intro hinfix
    have hlen := hinfix.length_le
    have hpos := List.length_pos_iff.mpr hne
    rw [List.length_append, List.length_singleton] at hlen
    omega
  have hskip {s t : Bytes} (hs : CString.strstr (name ++ [58]) s = none) :
      CString.strstr (name ++ [58]) (s ++ 34 :: t) = CString.strstr (name ++ [58]) t := by
    rw [CString.strstr_append_cons hneedle hquote, hs]
    rfl
  have hopen (t : Bytes) : CString.strstr (name ++ [58]) (34 :: t) =
      CString.strstr (name ++ [58]) t := hskip (s := []) (hnone (by simp))
  have hmark (t : Bytes) : CString.strstr (name ++ [58]) (58 :: 34 :: t) =
      CString.strstr (name ++ [58]) t := hskip hcolon
  induction ms with
  | nil => exact hnone (by decide)
  | cons m ms ih =>
      rw [List.forall_mem_cons] at hkeys hvalues
      rw [renderParams, hopen, hskip (hnone (colon_notMem_plain hkeys.1)), hmark,
        hskip (hnone (colon_notMem_plain hvalues.1))]
      split_ifs
      · exact hnone (by decide)
      · rw [CString.strstr_cons_of_not, ih hkeys.2 hvalues.2]
        obtain ⟨b, more, rfl⟩ := List.exists_cons_of_ne_nil hne
        intro hprefix
        have hb := (plain_ne hname List.mem_cons_self).2.1
        exact hb (List.cons_prefix_cons.mp hprefix).1

/-- What the scanner leaves in its buffer for an object of plain members. -/
theorem paramBuffer_text (o : ParamObject) :
    paramBuffer o.text name = ((valueBehind name o.members).map trimmed).getD [] := by
  have hquoted : CString.strstr ([34] ++ name ++ [34]) o.text =
      CString.strstr ([34] ++ name ++ [34]) (renderParams o.members) := by
    rw [ParamObject.text, CString.strstr_cons_of_not]
    exact fun hprefix ↦ absurd (List.cons_prefix_cons.mp hprefix).1 (by decide)
  have hcolon : CString.strstr (name ++ [58]) o.text = none := by
    rw [ParamObject.text, CString.strstr_cons_of_not,
      strstr_colon_renderParams hname hne o.key_plain o.value_plain]
    obtain ⟨b, more, rfl⟩ := List.exists_cons_of_ne_nil hne
    intro hprefix
    exact (plain_ne hname List.mem_cons_self).2.2.2.1 (List.cons_prefix_cons.mp hprefix).1
  have hfind : (findParam o.text name).bind (CString.strchr 58) =
      (CString.strstr ([34] ++ name ++ [34]) (renderParams o.members)).bind
        (CString.strchr 58) := by
    rw [findParam, hquoted]
    cases CString.strstr ([34] ++ name ++ [34]) (renderParams o.members) with
    | none => simp [hcolon]
    | some found => rfl
  rw [paramBuffer, hfind]
  rcases strchr_strstr_renderParams hname hne o.key_plain o.value_plain with
    ⟨hbehind, hnone⟩ | ⟨v, rest, hbehind, hv, hends, hsome⟩
  · simp only [hbehind, hnone, Option.map_none, Option.getD_none]
  · simp only [hbehind, hsome, List.tail_cons, paramValue_quoted hv hends, Option.map_some,
      Option.getD_some]

end Search

/-! ## The tools -/

inductive SeveralParams
  | write | edit | cp | mv | setenv | gitCommit

namespace SeveralParams

def keys : SeveralParams → List String
  | write => ["path", "content"]
  | edit => ["path", "find", "replace"]
  | cp => ["src", "dest"]
  | mv => ["src", "dest"]
  | setenv => ["name", "value"]
  | gitCommit => ["path", "message"]

def execute (params : Bytes) (r : ToolResult) : SeveralParams → ToolM Outcome
  | write => toolFileWriteExecute params r
  | edit => toolEditExecute params r
  | cp => toolCpExecute params r
  | mv => toolMvExecute params r
  | setenv => toolSetenvExecute params r
  | gitCommit => toolGitCommitExecute params r

/-- The key that is looked up last. -/
def lastKey (params : Bytes) : SeveralParams → String
  | write => if hasParam params "content" then "append"
      else if hasParam params "text" then "text" else "data"
  | edit => "replace"
  | cp => "recursive"
  | mv => "destination"
  | setenv => "value"
  | gitCommit => "add_all"

/-- What the parameters of a tool read once it has looked them all up, or
`none` if it then gives up. -/
def arguments (params : Bytes) (tool : SeveralParams) : Option (List Bytes) :=
  let buffer := paramBuffer params (ascii (tool.lastKey params))
  let pointer (key : String) := paramPointer params key buffer
  match tool with
  | write => (pointer "path").map fun path ↦
      [path, (pointer "content" <|> pointer "text" <|> pointer "data").getD []]
  | edit => (pointer "path").bind fun path ↦ (pointer "find").map fun find ↦
      [path, find, (pointer "replace").getD []]
  | cp => (pointer "src").bind fun src ↦
      (pointer "dest" <|> pointer "destination").map fun destination ↦ [src, destination]
  | mv => (pointer "src").bind fun src ↦
      (pointer "dest" <|> pointer "destination").map fun destination ↦ [src, destination]
  | setenv => (pointer "name").map fun name ↦ [name, (pointer "value").getD []]
  | gitCommit => (pointer "message").map fun message ↦
      [(pointer "path").getD (ascii "."), message]

/-- A tool with given values for its parameters.  Its options are read from the
parameters as the tool does. -/
def act (params : Bytes) (r : ToolResult) (tool : SeveralParams) (values : List Bytes) :
    ToolM Outcome :=
  let buffer := paramBuffer params (ascii (tool.lastKey params))
  let option (key : String) := isTrue (paramPointer params key buffer)
  match tool, values with
  | write, [path, content] => do
      let opened ← Sys.fopenWrite path (option "append")
      if opened then do
        Sys.fwrite content
        succeedWith r (ascii "Written " ++ Decimal.printNat content.length ++ ascii " bytes to " ++
          path)
      else
        let e ← Sys.strerror
        failWith r (ascii "Could not write file: " ++ path ++ ascii " (" ++ e ++ ascii ")")
  | edit, [path, find, replace] => do
      match ← Sys.fopenRead path with
      | none =>
          let e ← Sys.strerror
          failWith r (ascii "Could not open file: " ++ e)
      | some file =>
        let content := CString.ofBuffer (file.take (editBufferSize - 1))
        match editContent find (some replace) content with
        | none => .halt
        | some output =>
          let opened ← Sys.fopenWrite path false
          if opened then do
            Sys.fwrite output
            succeedWith r (ascii "Applied edit to " ++ path)
          else
            let e ← Sys.strerror
            failWith r (ascii "Could not write file: " ++ e)
  | cp, [src, destination] => do
      let cmd := if option "recursive" then lit "cp -R " ++ arg src ++ lit " " ++ arg destination
        else lit "cp " ++ arg src ++ lit " " ++ arg destination
      let code ← Sys.system (Command.cut 4096 cmd)
      if code ≠ 0 then do
        let e ← Sys.strerror
        failWith r (ascii "Failed to copy: " ++ e)
      else succeedWith r (ascii "Copied " ++ src ++ ascii " to " ++ destination)
  | mv, [src, destination] => do
      let moved ← Sys.rename src destination
      if moved then succeedWith r (ascii "Moved " ++ src ++ ascii " to " ++ destination)
      else
        let e ← Sys.strerror
        failWith r (ascii "Failed to move: " ++ e)
  | setenv, [name, value] => do
      let done ← Sys.setenv name value
      if done then succeedWith r (ascii "Set " ++ name ++ [61] ++ value)
      else
        let e ← Sys.strerror
        failWith r (ascii "Failed to set environment variable: " ++ e)
  | gitCommit, [path, message] =>
      let path : Command := path.map fun c ↦ (c, hasParam params "path")
      let cmd := if option "add_all" then
          lit "cd " ++ path ++ lit " && git add -A && git commit -m \"" ++ arg message ++ lit "\""
        else lit "cd " ++ path ++ lit " && git commit -m \"" ++ arg message ++ lit "\""
      systemReport r (Command.cut 4096 cmd)
        (fun ret ↦ ascii "Git commit failed with code " ++ Decimal.printInt ret)
        (ascii "Commit successful")
  | _, _ => .halt

theorem eq_some_of_getD_ne {p : Option Bytes} (h : p.getD [] ≠ []) : p = some (p.getD []) := by
  cases p with
  | none => exact absurd rfl h
  | some v => rfl

theorem execute_of_arguments {params : Bytes} {tool : SeveralParams} {values : List Bytes}
    (h : tool.arguments params = some values) (hne : ∀ v ∈ values, v ≠ []) (r : ToolResult) :
    tool.execute params r = tool.act params r values := by
  cases tool with
  | write =>
      simp only [arguments, lastKey, Option.map_eq_some_iff] at h
      obtain ⟨path, hpath, rfl⟩ := h
      have hcontent := eq_some_of_getD_ne (hne _ (List.mem_cons_of_mem _ List.mem_cons_self))
      simp only [execute, toolFileWriteExecute, act, lastKey, hpath]
      rw [hcontent]
      rfl
  | edit =>
      simp only [arguments, lastKey, Option.bind_eq_some_iff, Option.map_eq_some_iff] at h
      obtain ⟨path, hpath, find, hfind, rfl⟩ := h
      have hreplace := eq_some_of_getD_ne
        (hne _ (List.mem_cons_of_mem _ (List.mem_cons_of_mem _ List.mem_cons_self)))
      simp only [execute, toolEditExecute, act, hpath, hfind]
      rw [hreplace]
      rfl
  | cp =>
      simp only [arguments, lastKey, Option.bind_eq_some_iff, Option.map_eq_some_iff] at h
      obtain ⟨src, hsrc, destination, hdest, rfl⟩ := h
      simp only [execute, toolCpExecute, act, lastKey, hsrc, hdest]
      rfl
  | mv =>
      simp only [arguments, lastKey, Option.bind_eq_some_iff, Option.map_eq_some_iff] at h
      obtain ⟨src, hsrc, destination, hdest, rfl⟩ := h
      simp only [execute, toolMvExecute, act, hsrc, hdest]
  | setenv =>
      simp only [arguments, lastKey, Option.map_eq_some_iff] at h
      obtain ⟨name, hname, rfl⟩ := h
      simp only [execute, toolSetenvExecute, act, hname]
  | gitCommit =>
      simp only [arguments, lastKey, Option.map_eq_some_iff] at h
      obtain ⟨message, hmessage, rfl⟩ := h
      simp only [execute, toolGitCommitExecute, act, lastKey, hmessage]
      cases hpath : hasParam params "path" <;> simp [paramPointer, hpath, arg, lit]

/-- The tool runs with exactly these values for its parameters. -/
def ActsWith (params : Bytes) (tool : SeveralParams) (values : List Bytes) : Prop :=
  tool.arguments params = some values ∧ ∀ r, tool.execute params r = tool.act params r values

end SeveralParams

/-! ## Values that are kept -/

def isPlainName (key : String) : Bool := (ascii key).all isPlainByte && ascii key ≠ []

theorem paramBuffer_key (o : ParamObject) {key : String} (h : isPlainName key = true) :
    paramBuffer o.text (ascii key) = o.found key := by
  rw [isPlainName, Bool.and_eq_true, decide_eq_true_eq] at h
  exact paramBuffer_text h.1 h.2 o

theorem hasParam_key (o : ParamObject) {key : String} (h : isPlainName key = true) :
    hasParam o.text key = decide (o.found key ≠ []) := by
  rw [hasParam, paramBuffer_key o h]

/-- The key that the write tool looks up last. -/
def ParamObject.lastWriteKey (o : ParamObject) : String :=
  if o.found "content" ≠ [] then "append" else if o.found "text" ≠ [] then "text" else "data"

/-- Every parameter is found, and its value is what is found for the key that is
looked up last. -/
def SeveralParams.Keeps (o : ParamObject) : SeveralParams → Prop
  | .write =>
      o.found "path" ≠ [] ∧
        (o.found "content" ≠ [] ∨ o.found "text" ≠ [] ∨ o.found "data" ≠ []) ∧
        o.value "path" = some (o.found o.lastWriteKey) ∧
        o.value "content" = some (o.found o.lastWriteKey)
  | .edit =>
      o.found "path" ≠ [] ∧ o.found "find" ≠ [] ∧ o.value "path" = some (o.found "replace") ∧
        o.value "find" = some (o.found "replace") ∧ o.value "replace" = some (o.found "replace")
  | .cp =>
      o.found "src" ≠ [] ∧ (o.found "dest" ≠ [] ∨ o.found "destination" ≠ []) ∧
        o.value "src" = some (o.found "recursive") ∧ o.value "dest" = some (o.found "recursive")
  | .mv =>
      o.found "src" ≠ [] ∧ (o.found "dest" ≠ [] ∨ o.found "destination" ≠ []) ∧
        o.value "src" = some (o.found "destination") ∧
        o.value "dest" = some (o.found "destination")
  | .setenv =>
      o.found "name" ≠ [] ∧ o.value "name" = some (o.found "value") ∧
        o.value "value" = some (o.found "value")
  | .gitCommit =>
      o.found "message" ≠ [] ∧ o.value "message" = some (o.found "add_all") ∧
        o.value "path" = some (if o.found "path" = [] then ascii "." else o.found "add_all")

theorem ParamObject.value_ne_nil {o : ParamObject} {key : String} {v : Bytes}
    (h : o.value key = some v) : v ≠ [] := by
  obtain ⟨m, hm, rfl⟩ := Option.map_eq_some_iff.mp h
  exact o.value_ne m (List.mem_of_find?_eq_some hm)

theorem values_of_two {o : ParamObject} {k k' : String} {values : List Bytes}
    (h : [k, k'].map o.value = values.map some) :
    ∃ v v', values = [v, v'] ∧ o.value k = some v ∧ o.value k' = some v' ∧ v ≠ [] ∧ v' ≠ [] := by
  obtain ⟨v, v', rfl⟩ := List.length_eq_two.mp (by simpa using (congrArg List.length h).symm)
  simp only [List.map_cons, List.map_nil, List.cons.injEq, and_true] at h
  exact ⟨v, v', rfl, h.1, h.2, o.value_ne_nil h.1, o.value_ne_nil h.2⟩

theorem values_of_three {o : ParamObject} {k k' k'' : String} {values : List Bytes}
    (h : [k, k', k''].map o.value = values.map some) :
    ∃ v v' v'', values = [v, v', v''] ∧ o.value k = some v ∧ o.value k' = some v' ∧
      o.value k'' = some v'' ∧ v'' ≠ [] := by
  obtain ⟨v, v', v'', rfl⟩ := List.length_eq_three.mp (by simpa using (congrArg List.length h).symm)
  simp only [List.map_cons, List.map_nil, List.cons.injEq, and_true] at h
  exact ⟨v, v', v'', rfl, h.1, h.2.1, h.2.2, o.value_ne_nil h.2.2⟩

theorem srcDest_eq_some_iff {a b c buffer src dest : Bytes} :
    ((if decide (a ≠ []) = true then some buffer else none).bind fun s ↦
        ((if decide (b ≠ []) = true then some buffer else none) <|>
          if decide (c ≠ []) = true then some buffer else none).map fun d ↦ [s, d]) =
      some [src, dest] ↔
    a ≠ [] ∧ (b ≠ [] ∨ c ≠ []) ∧ some src = some buffer ∧ some dest = some buffer := by
  by_cases ha : a = []
  · simp [ha]
  by_cases hb : b = []
  · by_cases hc : c = []
    · simp [ha, hb, hc]
    · simp [ha, hb, hc, @eq_comm _ src, @eq_comm _ dest]
  · simp [ha, hb, @eq_comm _ src, @eq_comm _ dest]

theorem arguments_iff_keeps (o : ParamObject) (tool : SeveralParams) {values : List Bytes}
    (hgiven : tool.keys.map o.value = values.map some) :
    tool.arguments o.text = some values ↔ tool.Keeps o := by
  cases tool with
  | write =>
      obtain ⟨path, content, rfl, hpath, hcontent, hne, hne'⟩ := values_of_two hgiven
      simp (disch := decide) only [SeveralParams.arguments, SeveralParams.lastKey, paramPointer,
        hasParam_key, SeveralParams.Keeps, ParamObject.lastWriteKey, hpath, hcontent]
      by_cases hfound : o.found "path" = []
      · simp [hfound]
      by_cases hkey : o.found "content" = []
      · by_cases htext : o.found "text" = []
        · by_cases hdata : o.found "data" = []
          · simp [hfound, hkey, htext, hdata, hne'.symm]
          · simp (disch := decide) [hfound, hkey, htext, hdata, paramBuffer_key, @eq_comm _ path,
              @eq_comm _ content]
        · simp (disch := decide) [hfound, hkey, htext, paramBuffer_key, @eq_comm _ path,
            @eq_comm _ content]
      · simp (disch := decide) [hfound, hkey, paramBuffer_key, @eq_comm _ path, @eq_comm _ content]
  | edit =>
      obtain ⟨path, find, replace, rfl, hpath, hfind, hreplace, hne⟩ := values_of_three hgiven
      simp (disch := decide) only [SeveralParams.arguments, SeveralParams.lastKey, paramPointer,
        hasParam_key, paramBuffer_key, SeveralParams.Keeps, hpath, hfind, hreplace]
      by_cases hfound : o.found "path" = []
      · simp [hfound]
      by_cases hfound' : o.found "find" = []
      · simp [hfound, hfound']
      by_cases hfound'' : o.found "replace" = []
      · simp [hfound, hfound', hfound'', hne, hne.symm]
      · simp [hfound, hfound', hfound'', @eq_comm _ path, @eq_comm _ find, @eq_comm _ replace]
  | cp =>
      obtain ⟨src, dest, rfl, hsrc, hdest, -, -⟩ := values_of_two hgiven
      simp (disch := decide) only [SeveralParams.arguments, SeveralParams.lastKey, paramPointer,
        hasParam_key, paramBuffer_key, SeveralParams.Keeps, hsrc, hdest]
      exact srcDest_eq_some_iff
  | mv =>
      obtain ⟨src, dest, rfl, hsrc, hdest, -, -⟩ := values_of_two hgiven
      simp (disch := decide) only [SeveralParams.arguments, SeveralParams.lastKey, paramPointer,
        hasParam_key, paramBuffer_key, SeveralParams.Keeps, hsrc, hdest]
      exact srcDest_eq_some_iff
  | setenv =>
      obtain ⟨name, value, rfl, hname, hvalue, -, hne⟩ := values_of_two hgiven
      simp (disch := decide) only [SeveralParams.arguments, SeveralParams.lastKey, paramPointer,
        hasParam_key, paramBuffer_key, SeveralParams.Keeps, hname, hvalue]
      by_cases hfound : o.found "name" = []
      · simp [hfound]
      by_cases hfound' : o.found "value" = []
      · simp [hfound, hfound', hne, hne.symm]
      · simp [hfound, hfound', @eq_comm _ name, @eq_comm _ value]
  | gitCommit =>
      obtain ⟨path, message, rfl, hpath, hmessage, -, -⟩ := values_of_two hgiven
      simp (disch := decide) only [SeveralParams.arguments, SeveralParams.lastKey, paramPointer,
        hasParam_key, paramBuffer_key, SeveralParams.Keeps, hpath, hmessage]
      by_cases hfound : o.found "message" = []
      · simp [hfound]
      by_cases hfound' : o.found "path" = []
      · simp [hfound, hfound', @eq_comm _ path, @eq_comm _ message, and_comm]
      · simp [hfound, hfound', @eq_comm _ path, @eq_comm _ message, and_comm]

/-- A tool acts with the values given for its parameters exactly when they are
all the value of the key it looks up last. -/
theorem several_params_kept_iff (o : ParamObject) (tool : SeveralParams) {values : List Bytes}
    (hgiven : tool.keys.map o.value = values.map some) :
    tool.ActsWith o.text values ↔ tool.Keeps o := by
  have hne : ∀ v ∈ values, v ≠ [] := by
    intro v hv
    have hmem : some v ∈ tool.keys.map o.value := hgiven ▸ List.mem_map_of_mem hv
    obtain ⟨key, -, hkey⟩ := List.mem_map.mp hmem
    exact o.value_ne_nil hkey
  constructor
  · exact fun h ↦ (arguments_iff_keeps o tool hgiven).mp h.1
  · intro h
    have harguments := (arguments_iff_keeps o tool hgiven).mpr h
    exact ⟨harguments, SeveralParams.execute_of_arguments harguments hne⟩

def sameNameAndValue : ParamObject where
  members := [(ascii "name", ascii "LANG"), (ascii "value", ascii "LANG")]
  key_plain := by decide
  value_plain := by decide
  value_ne := by decide
  keys_nodup := by decide

theorem setenv_keeps_same_values :
    SeveralParams.setenv.ActsWith sameNameAndValue.text [ascii "LANG", ascii "LANG"] :=
  (several_params_kept_iff sameNameAndValue .setenv (by decide)).mpr
    ⟨by decide, by decide, by decide⟩

def pathAndContent : ParamObject where
  members := [(ascii "path", ascii "notes.txt"), (ascii "content", ascii "hello")]
  key_plain := by decide
  value_plain := by decide
  value_ne := by decide
  keys_nodup := by decide

/-- A path and a content are both read as the option `append`, which is not
there. -/
theorem write_loses_path_and_content :
    ¬ ∀ (o : ParamObject) (tool : SeveralParams) (values : List Bytes),
      tool.keys.map o.value = values.map some → tool.ActsWith o.text values := by
  intro h
  have hwrite := (h pathAndContent .write [ascii "notes.txt", ascii "hello"] (by decide)).1
  exact absurd hwrite (by decide +kernel)

end DoctorClaw
