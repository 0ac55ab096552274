import DoctorClaw.AgentTools.Invocation
import DoctorClaw.Lib.Escape

/-!
# The command of a shell call

A command goes through two readers that know nothing of each other.  `sscanf`
takes the bytes up to the first quote and leaves the escapes in them, and the
shell tool then looks for a parameter `command` in the text of the command
itself.  A command arrives as it was sent when it needs no escape and names no
such parameter.
-/

namespace DoctorClaw

open Interaction

/-! ## Calls of the shell -/

structure CommandString where
  text : Bytes
  length_pos : 0 < text.length
  length_le : text.length ≤ 1000
  nul : (0 : UInt8) ∉ text
  newline : (10 : UInt8) ∉ text

/-- The arguments of the call, the command escaped as JSON asks for. -/
def commandArgs (c : Bytes) : Bytes :=
  opening (ascii "command") ++ (Escape.escape Escape.quotes c ++ ascii "\"\x7d")

def Call.shellText : Call → Option Bytes
  | .runWithTimeout cmd _ _ => some cmd.text
  | _ => none

/-- The commands that a program passes to `run_with_timeout`. -/
def shellTexts {α : Type} (p : ToolM α) (env : Env Call Call.Reply) : List Bytes :=
  (p.run env []).1.filterMap Call.shellText

/-- The command has nothing to escape, and behind the first `command:` in it
there is at most a comma. -/
structure SentAsIs (c : Bytes) : Prop where
  quote : (34 : UInt8) ∉ c
  slash : (92 : UInt8) ∉ c
  key : ∀ found, CString.strstr (ascii "command:") c = some found →
    ∀ b ∈ ((found.drop 8).dropWhile isValueLead).head?, b = 44

theorem text_arg (c : Bytes) : (Command.arg c).text = c := by
  simp [Command.arg, Command.text, Function.comp_def]

theorem shellTexts_runChecked (policy : Option SecurityPolicy) (shell : Option Bytes) (timeout : ℤ)
    (command : Bytes) (env : Env Call Call.Reply) :
    shellTexts (runChecked policy shell timeout command) env =
      if command.length < shellMaxInput ∧ command ≠ [] ∧ isDangerousCommand command = false ∧
          checkShellPolicy policy command = true then [command] else [] := by
  unfold runChecked
  by_cases hlong : shellMaxInput ≤ command.length
  · rw [if_pos hlong, if_neg (fun h ↦ absurd h.1 (Nat.not_lt.mpr hlong))]
    rfl
  by_cases hempty : command = []
  · rw [if_neg hlong, if_pos hempty, if_neg (fun h ↦ h.2.1 hempty)]
    rfl
  by_cases hdanger : isDangerousCommand command = true
  · rw [if_neg hlong, if_neg hempty, if_pos hdanger, if_neg (fun h ↦ by simp [hdanger] at h)]
    rfl
  rw [if_neg hlong, if_neg hempty, if_neg hdanger]
  by_cases hpolicy : checkShellPolicy policy command = true
  · rw [if_pos hpolicy, if_pos ⟨Nat.not_le.mp hlong, hempty, Bool.eq_false_iff.mpr hdanger, hpolicy⟩]
    have hquiet (reply : ℤ × Bytes) (past : List Call) :
        ((shellOutcome reply.1 reply.2).run env past).1 = [] := by
      unfold shellOutcome
      split
      · rfl
      · simp only
        split <;> rfl
    simp only [shellTexts, Sys.passedDangerCheck, Sys.runWithTimeout, Prog.run_perform_bind, hquiet,
      List.filterMap_cons, List.filterMap_nil, Call.shellText, text_arg]
  · rw [if_neg hpolicy, if_neg (fun h ↦ hpolicy h.2.2.2)]
    rfl

/-- The agent and the dispatcher add no command of their own. -/
theorem shellTexts_agentExecuteToolByName (libc : Libc) {g : ToolState}
    (hgate : Tool.shell.gate g = none) {args params : Bytes}
    (hargs : agentToolCall (ascii "shell") args = .ok (ascii "shell", params)) (size : ℕ)
    (env : Env Call Call.Reply) :
    shellTexts (agentExecuteToolByName libc g (ascii "shell") args size) env =
      shellTexts (runChecked g.shellPolicy none (shellTimeout params) (shellCommand params)) env := by
  have hnamed : toolNamed (ascii "shell") = some .shell := rfl
  have hrun : ((agentExecuteToolByName libc g (ascii "shell") args size).run env []).1 =
      ((runChecked g.shellPolicy none (shellTimeout params) (shellCommand params)).run env []).1 := by
    simp only [agentExecuteToolByName, hargs, toolsExecute, hnamed, hgate]
    rw [← Prog.run_bind_ret_calls env [] _ settle]
    exact Prog.run_bind_ret_calls env [] _ _
  rw [shellTexts, hrun, ← shellTexts]

/-! ## The first reader -/

/-- What `sscanf` reads of the command. -/
def scannedCommand (c : Bytes) : Bytes :=
  ((Escape.escape Escape.quotes c ++ ascii "\"\x7d").takeWhile (· ≠ 34)).take 1023

theorem scannedCommand_ne_nil {c : Bytes} (hc : c ≠ []) : scannedCommand c ≠ [] := by
  obtain ⟨b, s, rfl⟩ := List.exists_cons_of_ne_nil hc
  rw [scannedCommand, Escape.escape_cons, Escape.escapeByte, Escape.quotes]
  by_cases hb : b = 34 ∨ b = 92
  · simp [hb]
  · have h34 : b ≠ 34 := fun h ↦ hb (.inl h)
    rw [if_neg hb, List.singleton_append, List.cons_append,
      List.takeWhile_cons_of_pos (by simpa using h34)]
    simp

theorem agentToolCall_commandArgs {c : Bytes} (hc : c ≠ []) :
    agentToolCall (ascii "shell") (commandArgs c) = .ok (ascii "shell", scannedCommand c) := by
  apply (DefaultTool.IsShell.agentToolCall (t := .shell) (.inl rfl) _ _).mpr
  rw [scanString, commandArgs, if_pos (List.prefix_append _ _), List.drop_left]
  have hne := scannedCommand_ne_nil hc
  unfold scannedCommand at hne ⊢
  simp only [if_neg hne, Option.map_some]

theorem quote_notMem_scannedCommand (c : Bytes) : (34 : UInt8) ∉ scannedCommand c := by
  intro h
  have hne := List.mem_takeWhile_imp (List.mem_of_mem_take h)
  simp at hne

theorem scannedCommand_of_quote_notMem {c : Bytes} (hc : (34 : UInt8) ∉ c) :
    scannedCommand c = (Escape.escape Escape.quotes c).take 1023 := by
  have hnone : (34 : UInt8) ∉ Escape.escape Escape.quotes c :=
    Escape.notMem_escape (by decide) (fun _ ↦ Escape.eq_of_quotes) hc
  rw [scannedCommand, show ascii "\"\x7d" = 34 :: ascii "\x7d" from rfl,
    CString.takeWhile_ne_append hnone]

/-! ## The second reader -/

theorem shellCommand_isInfix (params : Bytes) : shellCommand params <:+: params := by
  unfold shellCommand parseStringParam
  split_ifs with h
  · exact List.infix_rfl
  · obtain ⟨pre, post, hparams, hpart⟩ := paramBuffer_infix h
    rw [Option.getD_some]
    exact hpart.trans (hparams ▸ (List.suffix_append_of_suffix (List.suffix_cons 58 post)).isInfix)

/-- With a backslash to be doubled, no part of what is read is the command: the
whole is longer, and a value leaves out a colon. -/
theorem shellCommand_ne_of_slash {c : Bytes} (hlen : c.length ≤ 1000) (hquote : (34 : UInt8) ∉ c)
    (hslash : (92 : UInt8) ∈ c) : shellCommand (scannedCommand c) ≠ c := by
  have hscan := scannedCommand_of_quote_notMem hquote
  have hlonger := @Escape.length_lt_escape Escape.quotes _ _ hslash rfl
  intro heq
  unfold shellCommand parseStringParam at heq
  split_ifs at heq with h
  · rw [Option.getD_none] at heq
    have hlength := congrArg List.length heq
    rw [hscan, List.length_take] at hlength
    omega
  · rw [Option.getD_some] at heq
    obtain ⟨pre, post, hparams, hpart⟩ := paramBuffer_infix h
    rw [heq] at hpart
    have hstart : (pre ++ 58 :: post).Sublist (Escape.escape Escape.quotes c) := by
      rw [← hparams, hscan]
      exact (List.take_prefix _ _).sublist
    have hcolon := (hstart.filter fun b ↦ decide (b ≠ 92)).length_le
    have hshorter := (hpart.sublist.filter fun b ↦ decide (b ≠ 92)).length_le
    rw [Escape.filter_escape_quotes] at hcolon
    simp only [List.filter_append, List.length_append] at hcolon
    rw [List.filter_cons_of_pos (by decide), List.length_cons] at hcolon
    omega

theorem paramValue_eq_nil_iff (rest : Bytes) :
    paramValue rest = [] ↔ ∀ b ∈ (rest.dropWhile isValueLead).head?, b = 44 := by
  have hhead := List.head?_dropWhile_not isValueLead rest
  unfold paramValue
  cases hrest : rest.dropWhile isValueLead with
  | nil => simp
  | cons b more =>
      have hlead : (b ≠ 32 ∧ b ≠ 34) ∧ b ≠ 125 := by
        rw [hrest] at hhead
        simp only [List.head?_cons, isValueLead, Bool.or_eq_false_iff, beq_eq_false_iff_ne] at hhead
        exact ⟨hhead.1.1, hhead.2⟩
      simp only [List.head?_cons, Option.mem_def, Option.some.injEq, forall_eq']
      constructor
      · intro hnil
        by_contra hcomma
        have hend : isValueEnd b = false := by
          simp only [isValueEnd, Bool.or_eq_false_iff, beq_eq_false_iff_ne]
          exact ⟨⟨hcomma, hlead.1.2⟩, hlead.2⟩
        rw [List.takeWhile_cons_of_pos (by simp [hend]), paramValueSize, List.take_succ_cons,
          List.rdropWhile_eq_nil_iff] at hnil
        have hfirst := hnil b List.mem_cons_self
        simp [hlead.1] at hfirst
      · rintro rfl
        rw [List.takeWhile_cons_of_neg (by decide)]
        rfl

/-- Without a quote only `command:` can be taken for a parameter. -/
theorem hasParam_command_iff {c : Bytes} (hquote : (34 : UInt8) ∉ c) :
    hasParam c "command" = false ↔
      ∀ found, CString.strstr (ascii "command:") c = some found →
        ∀ b ∈ ((found.drop 8).dropWhile isValueLead).head?, b = 44 := by
  have hquoted : CString.strstr ([34] ++ ascii "command" ++ [34]) c = none := by
    rw [← Option.not_isSome_iff_eq_none, CString.strstr_isSome_iff]
    exact fun hpart ↦ hquote (hpart.subset (by decide))
  have hbuffer : paramBuffer c (ascii "command") =
      (((CString.strstr (ascii "command:") c).bind (CString.strchr 58)).map fun rest ↦
        paramValue rest.tail).getD [] := by
    have hfind : findParam c (ascii "command") = CString.strstr (ascii "command:") c := by
      rw [findParam, hquoted]
      rfl
    rw [paramBuffer, hfind]
    cases (CString.strstr (ascii "command:") c).bind (CString.strchr 58) <;> rfl
  rw [hasParam, decide_eq_false_iff_not, ne_eq, not_not, hbuffer]
  cases hfound : CString.strstr (ascii "command:") c with
  | none => simp
  | some found =>
      obtain ⟨⟨rest, rfl⟩, -⟩ := CString.strstr_eq_some hfound
      have hcolon : CString.strchr 58 (ascii "command:" ++ rest) = some (58 :: rest) :=
        CString.strchr_append (s := ascii "command") (by decide) rest
      simp only [Option.bind_some, hcolon, Option.map_some, Option.getD_some, List.tail_cons,
        Option.some.injEq, forall_eq', paramValue_eq_nil_iff]
      rfl

/-! ## The command that is run -/

theorem shellCommand_scannedCommand_iff (c : CommandString) :
    shellCommand (scannedCommand c.text) = c.text ↔ SentAsIs c.text := by
  have hne : c.text ≠ [] := List.length_pos_iff.mp c.length_pos
  have hplain (hquote : (34 : UInt8) ∉ c.text) (hslash : (92 : UInt8) ∉ c.text) :
      scannedCommand c.text = c.text := by
    have hlen := c.length_le
    rw [scannedCommand_of_quote_notMem hquote, Escape.escape_eq_self, List.take_of_length_le]
    · omega
    · exact fun b hb ↦ Escape.quotes_eq_none (fun h ↦ hquote (h ▸ hb)) fun h ↦ hslash (h ▸ hb)
  constructor
  · intro h
    have hquote : (34 : UInt8) ∉ c.text := by
      intro hmem
      rw [← h] at hmem
      exact quote_notMem_scannedCommand c.text ((shellCommand_isInfix _).subset hmem)
    have hslash : (92 : UInt8) ∉ c.text := fun hmem ↦
      shellCommand_ne_of_slash c.length_le hquote hmem h
    rw [hplain hquote hslash, shellCommand_eq_self hne, hasParam_command_iff hquote] at h
    exact ⟨hquote, hslash, h⟩
  · rintro ⟨hquote, hslash, hkey⟩
    rw [hplain hquote hslash, shellCommand_eq_self hne, hasParam_command_iff hquote]
    exact hkey

/-- A command that passes the checks is run as it was sent exactly when it
needs no escape and names no parameter. -/
theorem shell_runs_command_iff (libc : Libc) (g : ToolState) (c : CommandString)
    (hgate : Tool.shell.gate g = none) (hdanger : isDangerousCommand c.text = false)
    (hpolicy : checkShellPolicy g.shellPolicy c.text = true) (size : ℕ)
    (env : Env Call Call.Reply) :
    shellTexts (agentExecuteToolByName libc g (ascii "shell") (commandArgs c.text) size) env =
        [c.text] ↔ SentAsIs c.text := by
  have hne : c.text ≠ [] := List.length_pos_iff.mp c.length_pos
  have hlen := c.length_le
  rw [shellTexts_agentExecuteToolByName libc hgate (agentToolCall_commandArgs hne),
    shellTexts_runChecked, ← shellCommand_scannedCommand_iff]
  constructor
  · intro h
    split_ifs at h
    exact List.singleton_inj.mp h
  · intro h
    rw [h, if_pos]
    exact ⟨by unfold shellMaxInput; omega, hne, hdanger, hpolicy⟩

def listFiles : CommandString :=
  ⟨ascii "ls -l", by decide, by decide, by decide, by decide⟩

theorem shell_runs_listFiles :
    shellTexts (agentExecuteToolByName noLibc .init (ascii "shell") (commandArgs (ascii "ls -l")) 8192)
      (fun _ c ↦ c.emptyReply) = [ascii "ls -l"] := by
  refine (shell_runs_command_iff noLibc .init listFiles rfl (by decide +kernel) rfl 8192 _).mpr ?_
  refine ⟨by decide, by decide, fun found h ↦ ?_⟩
  have hnone : CString.strstr (ascii "command:") (ascii "ls -l") = none := by decide
  rw [show listFiles.text = ascii "ls -l" from rfl, hnone] at h
  cases h

def echoQuoted : CommandString :=
  ⟨ascii "echo \"a\"", by decide, by decide, by decide, by decide⟩

/-- A command with a quote in it is run up to the quote, with a backslash at
its end. -/
theorem shell_cuts_quoted_command :
    ¬ ∀ (libc : Libc) (g : ToolState) (c : CommandString), Tool.shell.gate g = none →
      isDangerousCommand c.text = false → checkShellPolicy g.shellPolicy c.text = true →
        ∀ (size : ℕ) (env : Env Call Call.Reply),
          shellTexts (agentExecuteToolByName libc g (ascii "shell") (commandArgs c.text) size) env =
            [c.text] := by
  intro h
  have hruns := h noLibc .init echoQuoted rfl (by decide +kernel) rfl 8192 fun _ c ↦ c.emptyReply
  rw [shellTexts_agentExecuteToolByName noLibc rfl (agentToolCall_commandArgs (by decide)),
    shellTexts_runChecked] at hruns
  exact absurd hruns (by decide +kernel)

end DoctorClaw
