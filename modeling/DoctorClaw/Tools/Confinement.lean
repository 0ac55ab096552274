import DoctorClaw.Tools.Execute
import DoctorClaw.Tools.Isolation
import DoctorClaw.Tools.Parameters

/-!
# The workspace and the tools that change files

Only `file_read` looks at the workspace.  The tools that change files hand
their paths on as they are, and `is_path_in_workspace` is never called, so a
tool stays inside the workspace exactly when the path it was given does.

Which path that is depends on the parameter that is looked up last.  It makes
`mv` rename a path to itself, which changes nothing, and leaves `rm -rf` only
the name `true`.
-/

namespace DoctorClaw

open Interaction Command

/-! ## What a call changes -/

/-- The file system, as far as the tools rely on it: the canonical form of a
path, and the paths that the shell creates, changes or removes when it runs a
command. -/
structure FileSystem where
  canonical : Bytes → Bytes
  changedBy : Bytes → Set Bytes

/-- The path of a call; the empty path names no file. -/
def named (path : Bytes) : Set Bytes := {p | p = path ∧ p ≠ []}

/-- The paths that a call creates, changes or removes when it succeeds.  A path
renamed to itself stays as it is. -/
def Call.changes (fs : FileSystem) : Call → Set Bytes
  | .fopenWrite path _ => named path
  | .mkdir path _ => named path
  | .rename src dest => if src = dest then ∅ else named src ∪ named dest
  | .unlink path => named path
  | .rmdir path => named path
  | .system cmd => fs.changedBy cmd.text
  | .popen cmd => fs.changedBy cmd.text
  | .runWithTimeout cmd _ _ => fs.changedBy cmd.text
  | _ => ∅

/-- What the paths below a directory begin with; only the root ends with a slash. -/
def belowDir (dir : Bytes) : Bytes := if dir.getLast? = some 47 then dir else dir ++ [47]

/-- The canonical form of the path is that of the workspace or lies below it. -/
def FileSystem.Inside (fs : FileSystem) (workspace path : Bytes) : Prop :=
  fs.canonical path = fs.canonical workspace ∨
    belowDir (fs.canonical workspace) <+: fs.canonical path

/-- Whatever the environment replies, the program changes only paths inside the
workspace. -/
def StaysInside (fs : FileSystem) (workspace : Bytes) {α : Type} (p : ToolM α) : Prop :=
  ∀ (env : Env Call Call.Reply) (c : Call), c ∈ (p.run env []).1 →
    ∀ path ∈ c.changes fs, fs.Inside workspace path

def ToolState.setWorkspace (g : ToolState) (dir : Bytes) : ToolState :=
  { g with workspaceDir := CString.cut workspaceSize dir }

def mutatingTools : List Tool := [.fileWrite, .edit, .rm, .mkdir, .cp, .mv]

/-! ## The paths of the tools -/

def copyCommand (params : Bytes) : Command :=
  let buffer := paramBuffer params (ascii "recursive")
  let recursive := isTrue (paramPointer params "recursive" buffer)
  Command.cut 4096 ((if recursive then lit "cp -R " else lit "cp ") ++ arg buffer ++ lit " " ++
    arg buffer)

section Keeps

variable (fs : FileSystem) (workspace : Bytes)

/-- A path that is empty or inside the workspace. -/
def FileSystem.Harmless (path : Bytes) : Prop := path ≠ [] → fs.Inside workspace path

/-- The parameters name only paths inside the workspace. -/
def Tool.KeepsInside (params : Bytes) : Tool → Prop
  | .fileWrite => hasParam params "path" →
      fs.Harmless workspace (paramBuffer params (ascii (SeveralParams.write.lastKey params)))
  | .edit => hasParam params "path" → hasParam params "find" →
      fs.Harmless workspace (paramBuffer params (ascii "replace"))
  | .rm => hasParam params "path" →
      fs.Harmless workspace (paramBuffer params (ascii "force")) ∧
        (hasParam params "recursive" → paramBuffer params (ascii "force") = ascii "true" →
          ∀ path ∈ fs.changedBy (ascii "rm -rf true"), fs.Inside workspace path)
  | .mkdir => hasParam params "path" →
      fs.Harmless workspace (paramBuffer params (ascii "mode"))
  | .cp => hasParam params "src" → (hasParam params "dest" ∨ hasParam params "destination") →
      ∀ path ∈ fs.changedBy (copyCommand params).text, fs.Inside workspace path
  | _ => True

end Keeps

theorem forall_named_iff {fs : FileSystem} {workspace path : Bytes} :
    (∀ p ∈ named path, fs.Inside workspace p) ↔ fs.Harmless workspace path := by
  constructor
  · exact fun h hne ↦ h path ⟨rfl, hne⟩
  · rintro h p ⟨rfl, hne⟩
    exact h hne

/-- The call changes only paths inside the workspace. -/
def Call.Confined (fs : FileSystem) (workspace : Bytes) (c : Call) : Prop :=
  ∀ path ∈ c.changes fs, fs.Inside workspace path

/-- Staying inside is a rule about the calls of a program. -/
theorem staysInside_iff_follows (fs : FileSystem) (workspace : Bytes) {α : Type} (p : ToolM α) :
    StaysInside fs workspace p ↔ p.Follows (fun _ ↦ Call.Confined fs workspace) [] := by
  rw [follows_iff_run]
  constructor
  · intro h env pre c post hrun
    exact h env c (by simp [hrun])
  · intro h env c hc
    obtain ⟨pre, post, hrun⟩ := List.append_of_mem hc
    exact h env pre c post hrun

section Tools

variable {fs : FileSystem} {workspace params : Bytes} {r : ToolResult}

theorem Call.confined_of_quiet {c : Call} (hc : c.changes fs = ∅) : c.Confined fs workspace := by
  intro path hpath
  rw [hc] at hpath
  exact hpath.elim

theorem follows_failWith_strerror (message : Bytes → Bytes) (past : List Call) :
    (Sys.strerror >>= fun e ↦ failWith r (message e)).Follows
      (fun _ ↦ Call.Confined fs workspace) past :=
  follows_perform (Call.confined_of_quiet rfl) fun _ ↦ trivial

/-- The rest of the program changes nothing. -/
theorem follows_last_change {α : Type} {c : Call} {f : c.Reply → ToolM α} {past : List Call}
    (hrest : ∀ reply past, (f reply).Follows (fun _ ↦ Call.Confined fs workspace) past) :
    (Prog.perform c >>= f).Follows (fun _ ↦ Call.Confined fs workspace) past ↔
      c.Confined fs workspace := by
  rw [follows_perform_iff]
  exact and_iff_left fun reply ↦ hrest reply _

theorem confined_fileWrite :
    (toolFileWriteExecute params r).Follows (fun _ ↦ Call.Confined fs workspace) [] ↔
      Tool.KeepsInside fs workspace params .fileWrite := by
  unfold toolFileWriteExecute
  simp only [Tool.KeepsInside, paramPointer]
  by_cases hpath : hasParam params "path" = true
  · simp only [hpath, if_true, true_imp_iff]
    refine (follows_last_change ?_).trans forall_named_iff
    intro opened past
    apply follows_ite
    · intro _
      split
      · exact follows_perform (Call.confined_of_quiet rfl) fun _ ↦ trivial
      · trivial
    · exact fun _ ↦ follows_failWith_strerror _ past
  · simp [hpath, failWith]

theorem confined_mkdir :
    (toolMkdirExecute params r).Follows (fun _ ↦ Call.Confined fs workspace) [] ↔
      Tool.KeepsInside fs workspace params .mkdir := by
  unfold toolMkdirExecute
  simp only [Tool.KeepsInside, paramPointer]
  by_cases hpath : hasParam params "path" = true
  · simp only [hpath, if_true, true_imp_iff]
    refine (follows_last_change ?_).trans forall_named_iff
    intro made past
    exact follows_ite (fun _ ↦ trivial) fun _ ↦ follows_failWith_strerror _ past
  · simp [hpath, failWith]

/-- Both pointers are to the buffer of the key looked up last. -/
theorem confined_mv :
    (toolMvExecute params r).Follows (fun _ ↦ Call.Confined fs workspace) [] ↔
      Tool.KeepsInside fs workspace params .mv := by
  refine iff_of_true ?_ trivial
  simp only [toolMvExecute, paramPointer_orElse]
  cases hsrc : hasParam params "src" with
  | false => simp [paramPointer_of_false hsrc, failWith]
  | true =>
      cases hasParam params "dest" || hasParam params "destination" with
      | false => simp [paramPointer_of_true hsrc, failWith]
      | true =>
          simp only [paramPointer_of_true hsrc, if_true]
          refine (follows_last_change ?_).mpr (Call.confined_of_quiet (if_pos rfl))
          intro moved past
          exact follows_ite (fun _ ↦ trivial) fun _ ↦ follows_failWith_strerror _ past

theorem confined_cp :
    (toolCpExecute params r).Follows (fun _ ↦ Call.Confined fs workspace) [] ↔
      Tool.KeepsInside fs workspace params .cp := by
  simp only [toolCpExecute, Tool.KeepsInside, paramPointer_orElse, ← Bool.or_eq_true]
  cases hsrc : hasParam params "src" with
  | false => simp [paramPointer_of_false hsrc, failWith]
  | true =>
      cases hasParam params "dest" || hasParam params "destination" with
      | false => simp [paramPointer_of_true hsrc, failWith]
      | true =>
          have hcommand (b : Bool) (x : Command) :
              (if b = true then lit "cp -R " ++ x else lit "cp " ++ x) =
                (if b = true then lit "cp -R " else lit "cp ") ++ x := by
            cases b <;> rfl
          simp only [paramPointer_of_true hsrc, if_true, true_imp_iff, List.append_assoc, hcommand]
          refine (follows_last_change ?_).trans ?_
          · intro code past
            exact follows_ite (fun _ ↦ follows_failWith_strerror _ past) fun _ ↦ trivial
          · simp only [copyCommand, List.append_assoc]
            rfl

theorem confined_edit :
    (toolEditExecute params r).Follows (fun _ ↦ Call.Confined fs workspace) [] ↔
      Tool.KeepsInside fs workspace params .edit := by
  unfold toolEditExecute
  simp only [Tool.KeepsInside, paramPointer]
  by_cases hpath : hasParam params "path" = true
  · by_cases hfind : hasParam params "find" = true
    · simp only [hpath, hfind, if_true, true_imp_iff]
      constructor
      · intro h hne
        -- an empty file is written back, whatever is looked for in it
        have hempty := (follows_perform_iff.mp h).2 (some [])
        simp only [List.take_nil, CString.ofBuffer, List.takeWhile_nil,
          editContent_nil hne] at hempty
        exact hempty.1 _ ⟨rfl, hne⟩
      · intro h
        refine follows_perform (Call.confined_of_quiet rfl) fun file ↦ ?_
        cases file with
        | none => exact follows_failWith_strerror _ _
        | some file =>
            simp only
            split
            · trivial
            · refine (follows_last_change ?_).mpr (forall_named_iff.mpr h)
              intro opened past
              apply follows_ite
              · exact fun _ ↦ follows_perform (Call.confined_of_quiet rfl) fun _ ↦ trivial
              · exact fun _ ↦ follows_failWith_strerror _ past
    · simp [hpath, hfind, failWith]
  · simp [hpath, failWith]

theorem confined_rm :
    (toolRmExecute params r).Follows (fun _ ↦ Call.Confined fs workspace) [] ↔
      Tool.KeepsInside fs workspace params .rm := by
  have hfinish (path : Bytes) (removed : Bool) (past : List Call) :
      (if removed = true then succeedWith r (ascii "Removed: " ++ path)
        else Sys.strerror >>= fun e ↦ failWith r (ascii "Failed to remove: " ++ e)).Follows
        (fun _ ↦ Call.Confined fs workspace) past :=
    follows_ite (fun _ ↦ trivial) fun _ ↦ follows_failWith_strerror _ past
  unfold toolRmExecute
  simp only [Tool.KeepsInside]
  by_cases hpath : hasParam params "path" = true
  · have hpointer (buffer : Bytes) : paramPointer params "path" buffer = some buffer := if_pos hpath
    simp only [hpath, hpointer, true_imp_iff]
    constructor
    · intro h
      have hstat := (follows_perform_iff.mp h).2
      refine ⟨?_, fun hrecursive htrue ↦ ?_⟩
      · have hfile := hstat (some ⟨false, true, 0, 0, [], [], []⟩)
        simp only [Bool.false_eq_true, if_false] at hfile
        exact forall_named_iff.mp hfile.1
      · have hdir := hstat (some ⟨true, false, 0, 0, [], [], []⟩)
        simp only [htrue, paramPointer, hrecursive, if_true, isTrue, decide_true] at hdir
        exact hdir.1
    · rintro ⟨hharmless, hcommand⟩
      refine follows_perform (Call.confined_of_quiet rfl) fun st ↦ ?_
      cases st with
      | none => exact follows_ite (fun _ ↦ trivial) fun _ ↦ trivial
      | some st =>
          refine follows_ite (fun _ ↦ follows_ite (fun htrue ↦ ?_) fun _ ↦ ?_) fun _ ↦ ?_
          · have hboth : hasParam params "recursive" = true ∧
                paramBuffer params (ascii "force") = ascii "true" := by
              simpa [isTrue, paramPointer] using htrue
            have hremoved := hcommand hboth.1 hboth.2
            rw [hboth.2]
            exact follows_perform hremoved fun code ↦ hfinish _ _ _
          · exact follows_perform (forall_named_iff.mpr hharmless) fun removed ↦ hfinish _ removed _
          · exact follows_perform (forall_named_iff.mpr hharmless) fun removed ↦ hfinish _ removed _
  · simp [paramPointer, hpath, failWith]

/-- A tool stays inside the workspace exactly when its parameters do. -/
theorem tool_stays_inside_iff (libc : Libc) (g : ToolState) (fs : FileSystem)
    (workspace params : Bytes) (r : ToolResult) {tool : Tool} (htool : tool ∈ mutatingTools) :
    StaysInside fs workspace (tool.execute libc (g.setWorkspace workspace) params r) ↔
      tool.KeepsInside fs workspace params := by
  rw [staysInside_iff_follows]
  simp only [mutatingTools, List.mem_cons, List.not_mem_nil, or_false] at htool
  rcases htool with rfl | rfl | rfl | rfl | rfl | rfl
  · exact confined_fileWrite
  · exact confined_edit
  · exact confined_rm
  · exact confined_mkdir
  · exact confined_cp
  · exact confined_mv

end Tools

/-- A file system without links, where commands do nothing. -/
def plainFileSystem : FileSystem := ⟨id, fun _ ↦ ∅⟩

theorem write_inside_workspace :
    StaysInside plainFileSystem (ascii "/work")
      (Tool.execute noLibc (ToolState.init.setWorkspace (ascii "/work"))
        (ascii "\x7b\"path\":\"/work/a\",\"text\":\"/work/a\"\x7d") .zero .fileWrite) := by
  refine (tool_stays_inside_iff noLibc .init plainFileSystem _ _ _ (by decide)).mpr ?_
  intro _ _
  right
  decide +kernel

/-- A file outside the workspace is opened for writing. -/
theorem write_leaves_workspace :
    ¬ ∀ (libc : Libc) (g : ToolState) (fs : FileSystem) (workspace params : Bytes) (r : ToolResult),
      ∀ tool ∈ mutatingTools,
        StaysInside fs workspace (tool.execute libc (g.setWorkspace workspace) params r) := by
  intro h
  have hwrite := h noLibc .init plainFileSystem (ascii "/work")
    (ascii "\x7b\"path\":\"/etc/motd\",\"text\":\"/etc/motd\"\x7d") .zero .fileWrite (by decide)
  rw [staysInside_iff_follows, Tool.execute, confined_fileWrite] at hwrite
  have hinside := hwrite (by decide +kernel) (by decide +kernel)
  rcases hinside with heq | hbelow
  · exact absurd heq (by decide +kernel)
  · exact absurd hbelow (by decide +kernel)

end DoctorClaw
