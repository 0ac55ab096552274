import DoctorClaw.AgentTools.Invocation

/-!
# Tools offered to the model

`g_default_tools` offers seven tools with string parameters.
`agent_execute_tool_by_name` takes the arguments apart with `sscanf`, prints
them anew for `tools_execute`, and the implementation there parses them a
second time.

The three layers agree only for `shell`, `zsh` and `network`, and there only
on arguments that are printed without white space, start with the command and
hold no text that reads as a parameter `command`.  `read_file` and `http_get`
are no names of the dispatcher, and the two memory tools never see their
values.
-/

namespace DoctorClaw

/-! ## The memory tools -/

theorem paramPointer_eq_some {params buffer v : Bytes} {key : String}
    (h : paramPointer params key buffer = some v) : hasParam params key = true ∧ v = buffer := by
  unfold paramPointer at h
  split_ifs at h with hparam
  exact ⟨hparam, (Option.some.inj h).symm⟩

theorem memoryRecallArgs_eq_some {params : Bytes} {a : Bytes × Bytes}
    (h : memoryRecallArgs params = some a) : a.2 = paramBuffer params (ascii "namespace") := by
  obtain ⟨query, hquery, rfl⟩ := Option.map_eq_some_iff.mp h
  exact (paramPointer_eq_some hquery).2

theorem memoryStoreArgs_eq_some {params : Bytes} {a : Bytes × Bytes × Bytes}
    (h : memoryStoreArgs params = some a) :
    hasParam params "content" = true ∧ a.2.1 = paramBuffer params (ascii "namespace") ∧
      a.2.2 = paramBuffer params (ascii "namespace") := by
  unfold memoryStoreArgs at h
  dsimp only at h
  split at h
  · rename_i key content hkey hcontent
    obtain rfl := Option.some.inj h
    obtain ⟨hparam, hvalue⟩ := paramPointer_eq_some hcontent
    exact ⟨hparam, (paramPointer_eq_some hkey).2, hvalue⟩
  · cases h

theorem not_invokes_memoryRecall (g : ToolState) {o : ArgsObject}
    (hsat : o.Satisfies .memoryRecall) : ¬ Invokes g .memoryRecall o := by
  rintro ⟨params, hcall, hinvoked⟩
  have hscan := (oneArgument_eq_ok.mp hcall).1
  rw [scanString_opening hsat List.mem_cons_self (by decide)] at hscan
  split_ifs at hscan with hopen
  have hparams : o.value (ascii "query") = params := Option.some.inj hscan
  obtain ⟨a, hargs, hvalues⟩ := Option.map_eq_some_iff.mp
    (show (memoryRecallArgs params).map (fun a ↦ (Tool.memoryRecall, [a.2])) =
      some (.memoryRecall, [o.value (ascii "query")]) from hinvoked)
  have hsame : a.2 = params := by simpa [hparams] using hvalues
  rw [memoryRecallArgs_eq_some hargs] at hsame
  have hshort := length_paramBuffer_lt (hparams ▸ hopen.2) (ascii "namespace")
  rw [hsame] at hshort
  omega

theorem length_paramValue_quoted (post rest : Bytes) :
    (paramValue (post ++ 34 :: 44 :: rest)).length ≤ post.length := by
  refine (paramValue_isPrefix _).length_le.trans ?_
  rw [List.dropWhile_append]
  split_ifs with hlead
  · simp [isValueLead, isValueEnd]
  · rw [List.takeWhile_append]
    split_ifs with hend
    · rw [List.length_append]
      simp [isValueEnd]
      exact (List.dropWhile_suffix _).length_le
    · exact ((List.takeWhile_prefix _).length_le).trans (List.dropWhile_suffix _).length_le

theorem storeCmd_eq {k : Bytes} (hk : k.length ≤ 255) :
    storeCmd k k = ascii "\x7b\"key\":" ++ (34 :: (k ++ 34 :: (ascii ",\"value\":" ++
      (34 :: (k ++ 34 :: [125]))))) := by
  have hlit : (ascii "\x7b\"key\":\"").length = 8 ∧ (ascii "\",\"value\":\"").length = 11 ∧
      (ascii "\"\x7d").length = 2 := ⟨rfl, rfl, rfl⟩
  rw [storeCmd, CString.cut_of_lt]
  · simp only [List.append_assoc]
    rfl
  · simp only [List.length_append, hlit.1, hlit.2.1, hlit.2.2]
    omega

theorem strstr_quoted_storeCmd {k : Bytes} (hk : (34 : UInt8) ∉ k) (hne : k ≠ ascii "namespace") :
    CString.strstr (ascii "\"namespace\"") (ascii "\x7b\"key\":" ++ (34 :: (k ++ 34 ::
      (ascii ",\"value\":" ++ (34 :: (k ++ 34 :: [125])))))) = none := by
  have hnot (rest : Bytes) : ¬ ascii "\"namespace\"" <+: 34 :: (k ++ 34 :: rest) := by
    intro hprefix
    have hword : ascii "namespace" ++ [34] <+: k ++ 34 :: rest :=
      (List.cons_prefix_cons.mp hprefix).2
    exact hne (CString.eq_of_quoted_prefix (by decide) hk hword).symm
  have hstep (rest : Bytes) : CString.strstr (ascii "\"namespace\"") (34 :: (k ++ 34 :: rest)) =
      CString.strstr (ascii "\"namespace\"") (34 :: rest) := by
    rw [CString.strstr_cons_of_not (hnot rest), CString.strstr_append_of_notMem (c := 34) rfl hk]
  rw [CString.strstr_of_skips (by decide), hstep,
    show (34 : UInt8) :: (ascii ",\"value\":" ++ (34 :: (k ++ 34 :: [125]))) =
      ascii "\",\"value\":" ++ (34 :: (k ++ 34 :: [125])) from rfl,
    CString.strstr_of_skips (by decide), hstep]
  decide

theorem findParam_storeCmd {k : Bytes} (hk : (34 : UInt8) ∉ k) (hlen : k.length ≤ 255)
    (hne : k ≠ ascii "namespace") :
    findParam (storeCmd k k) (ascii "namespace") =
      (CString.strstr (ascii "namespace:") k).map fun found ↦
        found ++ 34 :: 44 :: (ascii "\"value\":" ++ (34 :: (k ++ 34 :: [125]))) := by
  have hquoted := strstr_quoted_storeCmd hk hne
  have hsplit (t : Bytes) : CString.strstr (ascii "namespace:") (k ++ 34 :: t) =
      ((CString.strstr (ascii "namespace:") k).map (· ++ 34 :: t)).or
        (CString.strstr (ascii "namespace:") t) :=
    CString.strstr_append_cons (by decide) (by decide) k t
  have hsecond : CString.strstr (ascii "namespace:") (ascii ",\"value\":\"" ++ (k ++ 34 :: [125])) =
      (CString.strstr (ascii "namespace:") k).map (· ++ 34 :: [125]) := by
    rw [CString.strstr_of_skips (by decide), hsplit]
    exact Option.or_none
  rw [findParam, storeCmd_eq hlen, show [34] ++ ascii "namespace" ++ [34] = ascii "\"namespace\""
    from rfl, hquoted]
  change CString.strstr (ascii "namespace:") (ascii "\x7b\"key\":\"" ++ (k ++ 34 ::
    (ascii ",\"value\":\"" ++ (k ++ 34 :: [125])))) = _
  rw [CString.strstr_of_skips (by decide), hsplit, hsecond]
  cases CString.strstr (ascii "namespace:") k <;> rfl

/-- The value found for `namespace` is never the key and the value at once. -/
theorem paramBuffer_storeCmd_ne {k : Bytes} (hne : k ≠ []) (hk : (34 : UInt8) ∉ k)
    (hlen : k.length ≤ 255) (hcontent : hasParam (storeCmd k k) "content" = true) :
    paramBuffer (storeCmd k k) (ascii "namespace") ≠ k := by
  by_cases hspace : k = ascii "namespace"
  · subst hspace
    have hnone : hasParam (storeCmd (ascii "namespace") (ascii "namespace")) "content" = false := by
      decide +kernel
    rw [hnone] at hcontent
    cases hcontent
  · rw [paramBuffer, findParam_storeCmd hk hlen hspace]
    cases hfound : CString.strstr (ascii "namespace:") k with
    | none => exact hne.symm
    | some found =>
        obtain ⟨⟨post, rfl⟩, hsuffix⟩ := CString.strstr_eq_some hfound
        have hcolon (t : Bytes) : CString.strchr 58 (ascii "namespace:" ++ post ++ t) =
            some (58 :: (post ++ t)) := by
          rw [List.append_assoc]
          exact CString.strchr_append (s := ascii "namespace") (by decide) _
        rw [Option.map_some, Option.bind_some, hcolon]
        intro (heq : paramValue (post ++ 34 :: 44 :: _) = k)
        have hshort := length_paramValue_quoted post
          (ascii "\"value\":" ++ (34 :: (k ++ 34 :: [125])))
        have hlong := hsuffix.length_le
        have hten : (ascii "namespace:").length = 10 := rfl
        rw [List.length_append, hten] at hlong
        rw [heq] at hshort
        omega

theorem scanString_isPrefix {literal s : Bytes} {width : ℕ} {found : Bytes × Bytes}
    (h : scanString literal width s = some found) : literal <+: s := by
  unfold scanString at h
  split_ifs at h with hprefix
  exact hprefix

theorem scanString_second {o : ArgsObject} (hsat : o.Satisfies .memoryStore) {m : Member}
    {ms : List Member} (hms : o.members = m :: ms) (hkey : m.key = ascii "key")
    {found : Bytes × Bytes}
    (h : scanString (ascii "\",\"value\":\"") 4095 (34 :: (m.trail ++ o.tail)) = some found) :
    found.1 = o.value (ascii "value") := by
  have hcomma : 44 :: (34 :: (ascii "value" ++ [34, 58, 34])) <+: m.trail ++ o.tail :=
    (List.cons_prefix_cons.mp (scanString_isPrefix h)).2
  have htrail : m.trail = [] :=
    blank_eq_nil (fun b hb ↦ m.blank b (by simp [hb])) rfl hcomma
  rw [htrail, List.nil_append] at hcomma h
  cases ms with
  | nil =>
      rw [ArgsObject.tail, hms] at hcomma
      have hbrace := (List.cons_prefix_cons.mp hcomma).1
      cases hbrace
  | cons m₂ ms =>
      obtain ⟨rest, hrest⟩ : ∃ rest, o.tail = 44 :: (m₂.render ++ rest) := by
        rw [ArgsObject.tail, hms]
        cases ms with
        | nil => exact ⟨125 :: o.after, rfl⟩
        | cons m₃ ms =>
            exact ⟨44 :: (renderMembers (m₃ :: ms) ++ 125 :: o.after), by simp [renderMembers]⟩
      rw [hrest] at hcomma h
      obtain ⟨hkey₂, htext⟩ :=
        Member.of_opening (by decide) (List.cons_prefix_cons.mp hcomma).2
      have hlen : m₂.value.length < 4096 := by
        refine hsat.length_lt (p := ("value", 4096)) (by decide) ?_ hkey₂
        rw [hms]
        simp
      have hvalue : o.value (ascii "value") = m₂.value := by
        have hne : m.key ≠ ascii "value" := by rw [hkey]; decide
        simp [ArgsObject.value, hms, hne, hkey₂]
      rw [htext] at h
      have hscan : scanString (ascii "\",\"value\":\"") 4095 (ascii "\",\"value\":\"" ++
          (m₂.value ++ 34 :: (m₂.trail ++ rest))) = some found := h
      rw [scanString_value m₂.value_noquote (Nat.le_of_lt_succ hlen)] at hscan
      split_ifs at hscan
      rw [hvalue]
      exact (congrArg Prod.fst (Option.some.inj hscan)).symm

theorem agentToolCall_memoryStore {args params : Bytes}
    (h : agentToolCall DefaultTool.memoryStore.name args =
      .ok (DefaultTool.memoryStore.name, params)) :
    ∃ key value rest, scanString (opening (ascii "key")) 255 args = some (key, rest) ∧
      (scanString (ascii "\",\"value\":\"") 4095 rest).map Prod.fst = some value ∧
      params = storeCmd key value := by
  unfold agentToolCall at h
  iterate 5 rw [if_neg (by decide)] at h
  rw [if_pos (by decide)] at h
  split at h
  · rename_i key rest hfirst
    split at h
    · rename_i value rest' hsecond
      refine ⟨key, value, rest, hfirst, by rw [hsecond]; rfl, ?_⟩
      exact (congrArg Prod.snd (Except.ok.inj h)).symm
    · cases h
  · cases h

theorem not_invokes_memoryStore (g : ToolState) {o : ArgsObject}
    (hsat : o.Satisfies .memoryStore) : ¬ Invokes g .memoryStore o := by
  rintro ⟨params, hcall, hinvoked⟩
  obtain ⟨a, hargs, hvalues⟩ := Option.map_eq_some_iff.mp
    (show (memoryStoreArgs params).map (fun a ↦ (Tool.memoryStore, [a.2.1, a.2.2])) =
      some (.memoryStore, [o.value (ascii "key"), o.value (ascii "value")]) from hinvoked)
  obtain ⟨hcontent, hkey, hvalue⟩ := memoryStoreArgs_eq_some hargs
  obtain ⟨key, value, rest, hfirst, hsecond, rfl⟩ := agentToolCall_memoryStore hcall
  obtain ⟨m, ms, hms, hmkey, hrender⟩ :=
    ArgsObject.of_opening (by decide) (scanString_isPrefix hfirst)
  have hlen : m.value.length < 256 := by
    refine hsat.length_lt (p := ("key", 256)) (by decide) ?_ hmkey
    rw [hms]
    exact List.mem_cons_self
  rw [hrender, scanString_value m.value_noquote (Nat.le_of_lt_succ hlen)] at hfirst
  split_ifs at hfirst with hnil
  obtain ⟨rfl, rfl⟩ : m.value = key ∧ 34 :: (m.trail ++ o.tail) = rest := by simpa using hfirst
  obtain ⟨found, hfound, hfst⟩ := Option.map_eq_some_iff.mp hsecond
  have hscanned : value = o.value (ascii "value") :=
    hfst.symm.trans (scanString_second hsat hms hmkey hfound)
  have hgiven : o.value (ascii "key") = m.value := hmkey ▸ ArgsObject.value_cons hms
  obtain ⟨-, hone, htwo⟩ : True ∧ a.2.1 = o.value (ascii "key") ∧ a.2.2 = o.value (ascii "value") := by
    simpa using hvalues
  have hsame : value = m.value := by
    rw [hscanned, ← htwo, hvalue, ← hkey, hone, hgiven]
  rw [hsame] at hcontent hkey
  refine paramBuffer_storeCmd_ne hnil m.value_noquote (Nat.le_of_lt_succ hlen) hcontent ?_
  rw [← hkey, hone, hgiven]

/-! ## The main result -/

/-- A tool that is offered works, on given arguments, exactly when it runs a
command that the arguments start with and that is passed on unchanged. -/
theorem default_tools_work_iff (libc : Libc) (g : ToolState) (t : DefaultTool) (o : ArgsObject)
    (hsat : o.Satisfies t) :
    Invokes g t o ∧ ReportsFailure libc g t o ↔
      (t = .shell ∨ t = .zsh ∨ t = .network) ∧ t.tool.gate g = none ∧
        opening (ascii "command") <+: o.render ∧ o.value (ascii "command") ≠ [] ∧
          hasParam (o.value (ascii "command")) "command" = false := by
  constructor
  · rintro ⟨hinvokes, -⟩
    have hshell : t.IsShell := by
      cases t with
      | shell => exact .inl rfl
      | zsh => exact .inr (.inl rfl)
      | network => exact .inr (.inr rfl)
      | readFile =>
          obtain ⟨params, -, hinvoked⟩ := hinvokes
          cases hinvoked
      | httpGet =>
          obtain ⟨params, -, hinvoked⟩ := hinvokes
          cases hinvoked
      | memoryStore => exact absurd hinvokes (not_invokes_memoryStore g hsat)
      | memoryRecall => exact absurd hinvokes (not_invokes_memoryRecall g hsat)
    exact ⟨hshell, (hshell.invokes_iff g hsat).mp hinvokes⟩
  · rintro ⟨hshell, hargs⟩
    have ht : t.IsShell := hshell
    exact ⟨(ht.invokes_iff g hsat).mpr hargs, ht.reportsFailure libc g o⟩

def ArgsObject.single (key value : Bytes) (hkey : ∀ c ∈ key, c ∉ ([34, 92] : Bytes))
    (hvalue : ∀ c ∈ value, c ∉ ([34, 92] : Bytes)) : ArgsObject where
  before := []
  members := [⟨key, value, [], [], [], [], hkey, hvalue, by simp⟩]
  after := []
  blank := by simp
  keys_nodup := by simp

theorem ArgsObject.single_satisfies {t : DefaultTool} {p : String × ℕ} (hp : t.params = [p])
    {value : Bytes} (hkey : ∀ c ∈ ascii p.1, c ∉ ([34, 92] : Bytes))
    (hvalue : ∀ c ∈ value, c ∉ ([34, 92] : Bytes)) (hlen : value.length < p.2) :
    (ArgsObject.single (ascii p.1) value hkey hvalue).Satisfies t := by
  intro q hq
  rw [hp, List.mem_singleton] at hq
  subst hq
  exact ⟨_, List.mem_cons_self, rfl, hlen⟩

def lsArguments : ArgsObject := .single (ascii "command") (ascii "ls") (by decide +kernel)
  (by decide +kernel)

theorem default_tools_work_shell :
    Invokes .init .shell lsArguments ∧ ReportsFailure noLibc .init .shell lsArguments :=
  (default_tools_work_iff noLibc .init .shell lsArguments
    (ArgsObject.single_satisfies (p := ("command", 1024)) rfl _ _ (by decide))).mpr
    ⟨.inl rfl, rfl, ⟨ascii "ls\"\x7d", rfl⟩, by decide, by decide⟩

def pathArguments : ArgsObject := .single (ascii "path") (ascii "a") (by decide +kernel)
  (by decide +kernel)

/-- `read_file` runs nothing, fails and answers that it succeeded. -/
theorem read_file_does_not_work :
    pathArguments.Satisfies .readFile ∧ ¬ Invokes .init .readFile pathArguments ∧
      ¬ ReportsFailure noLibc .init .readFile pathArguments := by
  refine ⟨ArgsObject.single_satisfies (p := ("path", 1024)) rfl _ _ (by decide), ?_, ?_⟩
  · rintro ⟨params, -, hinvoked⟩
    cases hinvoked
  · intro h
    exact h (ascii "a") rfl (fun _ c ↦ c.emptyReply)
      { ToolResult.zero with name := ascii "read_file" } rfl rfl

end DoctorClaw
