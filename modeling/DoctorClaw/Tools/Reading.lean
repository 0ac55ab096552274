import DoctorClaw.Tools.Confinement

/-!
# The workspace and the tool that reads files

`tool_file_read_execute` compares the canonical path with as many bytes of the
workspace as it has.  A file next to the workspace passes when its name goes
on where the name of the workspace ends.
-/

namespace DoctorClaw

open Interaction

/-- The workspace itself, or a path below it. -/
def InWorkspace (workspace path : Bytes) : Prop := path = workspace ∨ workspace ++ [47] <+: path

def requestedPath (params : Bytes) : Option Bytes :=
  parseStringParam params (ascii "path") <|> parseStringParam params (ascii "file")

/-- The file that the parameters request, as `realpath` resolves it. -/
def Resolves (params : Bytes) (env : Env Call Call.Reply) (path canonicalPath : Bytes) : Prop :=
  requestedPath params = some path ∧ env [] (.realpath path) = some canonicalPath

/-- A file that is there, is not too large and can be opened. -/
def ReadableFile (env : Env Call Call.Reply) (path canonicalPath : Bytes) : Prop :=
  (∃ st, env [.realpath path] (.stat canonicalPath) = some st ∧ st.isDir = false ∧
    st.size ≤ maxFileSize) ∧
  ∃ file, env [.realpath path, .stat canonicalPath] (.fopenRead canonicalPath) = some file

def ReadsFile (workspaceDir params : Bytes) (env : Env Call Call.Reply) : Prop :=
  ∃ r, ((toolFileReadExecute workspaceDir params).run env []).2 = some (true, r)

theorem not_succeeds_failWith (env : Env Call Call.Reply) (past : List Call) (r : ToolResult)
    (s : Bytes) : ¬ ∃ r', ((failWith r s).run env past).2 = some (true, r') := by
  rintro ⟨r', h⟩
  exact Bool.noConfusion (Prod.ext_iff.mp (Option.some.inj h)).1

theorem not_succeeds_strerror (env : Env Call Call.Reply) (past : List Call)
    (message : Bytes → Bytes) :
    ¬ ∃ r', ((Sys.strerror >>= fun e ↦ failWith .zero (message e)).run env past).2 =
      some (true, r') :=
  not_succeeds_failWith env (past ++ [.strerror]) _ _

theorem succeeds_succeedWith (env : Env Call Call.Reply) (past : List Call) (r : ToolResult)
    (s : Bytes) : ∃ r', ((succeedWith r s).run env past).2 = some (true, r') := ⟨_, rfl⟩

/-- A file that can be opened is read. -/
theorem succeeds_fopenRead (env : Env Call Call.Reply) (past : List Call) (path : Bytes)
    (message text : Bytes → Bytes) :
    (∃ r, ((Sys.fopenRead path >>= fun
        | none => Sys.strerror >>= fun e ↦ failWith .zero (message e)
        | some file => succeedWith .zero (text file)).run env past).2 = some (true, r)) ↔
      ∃ file, env past (.fopenRead path) = some file := by
  rw [Sys.fopenRead, Prog.run_perform_bind]
  cases env past (.fopenRead path) with
  | none =>
      refine iff_of_false (not_succeeds_strerror _ _ _) ?_
      rintro ⟨_, h⟩
      cases h
  | some file =>
      exact iff_of_true (succeeds_succeedWith env (past ++ [.fopenRead path]) _ _) ⟨file, rfl⟩

/-- What the tool checks. -/
theorem readsFile_iff {workspaceDir params : Bytes} (hdir : workspaceDir ≠ [])
    (env : Env Call Call.Reply) :
    ReadsFile workspaceDir params env ↔
      ∃ path canonicalPath, Resolves params env path canonicalPath ∧
        workspaceDir <+: canonicalPath ∧ ReadableFile env path canonicalPath := by
  unfold ReadsFile toolFileReadExecute Resolves requestedPath
  cases parseStringParam params (ascii "path") <|> parseStringParam params (ascii "file") with
  | none =>
      refine iff_of_false (not_succeeds_failWith _ _ _ _) ?_
      rintro ⟨_, _, ⟨h, -⟩, -⟩
      cases h
  | some path =>
      simp only [Sys.realpath, Prog.run_perform_bind]
      cases hreal : env [] (.realpath path) with
      | none =>
          refine iff_of_false (not_succeeds_failWith _ _ _ _) ?_
          rintro ⟨_, _, ⟨h, hc⟩, -⟩
          cases h
          cases hreal.symm.trans hc
      | some c =>
          have hresolves : (∃ p c', (some path = some p ∧ env [] (.realpath p) = some c') ∧
              workspaceDir <+: c' ∧ ReadableFile env p c') ↔
                workspaceDir <+: c ∧ ReadableFile env path c := by
            constructor
            · rintro ⟨_, _, ⟨hp, hc⟩, h⟩
              cases hp
              cases hreal.symm.trans hc
              exact h
            · exact fun h ↦ ⟨path, c, ⟨rfl, hreal⟩, h⟩
          rw [hresolves]
          by_cases hfront : workspaceDir <+: c
          · rw [and_iff_right hfront]
            simp only [hfront, not_true, and_false, if_false, Sys.stat, Prog.run_perform_bind,
              List.nil_append]
            cases hstat : env [.realpath path] (.stat c) with
            | none =>
                refine iff_of_false (not_succeeds_strerror _ _ _) ?_
                rintro ⟨⟨_, hst, -⟩, -⟩
                cases hstat.symm.trans hst
            | some st =>
                have hsame : ∀ {st'}, env [.realpath path] (.stat c) = some st' → st = st' :=
                  fun h ↦ Option.some.inj (hstat.symm.trans h)
                simp only
                by_cases hisDir : st.isDir = true
                · rw [if_pos hisDir]
                  refine iff_of_false (not_succeeds_failWith _ _ _ _) ?_
                  rintro ⟨⟨_, hst, hfile, -⟩, -⟩
                  simp [← hsame hst, hisDir] at hfile
                by_cases hsize : maxFileSize < st.size
                · rw [if_neg hisDir, if_pos hsize]
                  refine iff_of_false (not_succeeds_failWith _ _ _ _) ?_
                  rintro ⟨⟨_, hst, -, hle⟩, -⟩
                  rw [← hsame hst] at hle
                  omega
                · have hregular : ∃ st', env [.realpath path] (.stat c) = some st' ∧
                      st'.isDir = false ∧ st'.size ≤ maxFileSize :=
                    ⟨st, hstat, by simpa using hisDir, by omega⟩
                  rw [if_neg hisDir, if_neg hsize, ReadableFile, and_iff_right hregular]
                  exact succeeds_fopenRead env _ c _ _
          · simp only [hdir, hfront, ne_eq, not_false_iff, and_self, if_true, false_and]
            exact iff_of_false (not_succeeds_failWith _ _ _ _) id

/-! ## Confinement -/

/-- The path begins with as much of the workspace as is stored, and is neither
the workspace nor below it. -/
def PassesBeside (workspace path : Bytes) : Prop :=
  CString.cut workspaceSize workspace <+: path ∧ ¬ InWorkspace workspace path

/-- The tool reads inside of the workspace, unless the requested file is
readable and its canonical path passes beside the workspace. -/
theorem read_is_confined_iff (g : ToolState) {workspace : Bytes} (hworkspace : workspace ≠ [])
    (params : Bytes) (env : Env Call Call.Reply) :
    (ReadsFile (g.setWorkspace workspace).workspaceDir params env →
        ∃ path canonicalPath, Resolves params env path canonicalPath ∧
          InWorkspace workspace canonicalPath) ↔
      ¬ ∃ path canonicalPath, Resolves params env path canonicalPath ∧
        ReadableFile env path canonicalPath ∧ PassesBeside workspace canonicalPath := by
  have hdir : CString.cut workspaceSize workspace ≠ [] := by
    obtain ⟨c, rest, rfl⟩ := List.exists_cons_of_ne_nil hworkspace
    exact List.cons_ne_nil c _
  rw [ToolState.setWorkspace, readsFile_iff hdir]
  constructor
  · rintro h ⟨path, c, hc, hreadable, hfront, hbeside⟩
    obtain ⟨path', c', hc', hinside⟩ := h ⟨path, c, hc, hfront, hreadable⟩
    obtain rfl : path = path' := Option.some.inj (hc.1.symm.trans hc'.1)
    obtain rfl : c = c' := Option.some.inj (hc.2.symm.trans hc'.2)
    exact hbeside hinside
  · rintro h ⟨path, c, hc, hfront, hreadable⟩
    refine ⟨path, c, hc, ?_⟩
    by_contra hbeside
    exact h ⟨path, c, hc, hreadable, hfront, hbeside⟩

/-- A world where one path resolves, to a small file. -/
def oneFileEnv (path : Bytes) : Env Call Call.Reply
  | _, .realpath p => if p = path then some path else none
  | _, .stat _ => some ⟨false, true, 420, 3, [], [], []⟩
  | _, .fopenRead _ => some (ascii "key")
  | _, c => c.emptyReply

theorem read_is_confined_iff_below :
    ascii "/ws" ≠ [] ∧
      ((ReadsFile (ToolState.init.setWorkspace (ascii "/ws")).workspaceDir
            (ascii "\x7b\"path\":\"/ws/a\"\x7d") (oneFileEnv (ascii "/ws/a")) →
          ∃ path canonicalPath, Resolves (ascii "\x7b\"path\":\"/ws/a\"\x7d")
            (oneFileEnv (ascii "/ws/a")) path canonicalPath ∧
            InWorkspace (ascii "/ws") canonicalPath) ↔
        ¬ ∃ path canonicalPath, Resolves (ascii "\x7b\"path\":\"/ws/a\"\x7d")
          (oneFileEnv (ascii "/ws/a")) path canonicalPath ∧
          ReadableFile (oneFileEnv (ascii "/ws/a")) path canonicalPath ∧
          PassesBeside (ascii "/ws") canonicalPath) :=
  ⟨by decide, read_is_confined_iff .init (by decide) _ _⟩

/-- Absolute, without empty components, dots and a slash at the end. -/
def Canonical (path : Bytes) : Prop :=
  path.head? = some 47 ∧
    ∀ part ∈ path.tail.splitOn 47, part ≠ [] ∧ part ≠ ascii "." ∧ part ≠ ascii ".."

/-- A file of the directory `/ws-evil` is read. -/
theorem read_is_not_confined :
    ¬ ∀ (g : ToolState) (workspace params : Bytes) (env : Env Call Call.Reply),
      Canonical workspace →
      (∀ past path canonicalPath, env past (.realpath path) = some canonicalPath →
        Canonical canonicalPath) →
      ReadsFile (g.setWorkspace workspace).workspaceDir params env →
      ∃ path canonicalPath, Resolves params env path canonicalPath ∧
        InWorkspace workspace canonicalPath := by
  intro h
  have hcanonical : Canonical (ascii "/ws") ∧ Canonical (ascii "/ws-evil/key") := by
    unfold Canonical
    decide
  have hpath : requestedPath (ascii "\x7b\"path\":\"/ws-evil/key\"\x7d") =
      some (ascii "/ws-evil/key") := by decide +kernel
  have hbeside : PassesBeside (ascii "/ws") (ascii "/ws-evil/key") := by
    unfold PassesBeside InWorkspace
    decide
  have hrealpath : ∀ past path canonicalPath,
      oneFileEnv (ascii "/ws-evil/key") past (.realpath path) = some canonicalPath →
        Canonical canonicalPath := by
    intro past path canonicalPath hc
    rw [oneFileEnv] at hc
    split_ifs at hc
    exact Option.some.inj hc ▸ hcanonical.2
  have hreadable : ReadableFile (oneFileEnv (ascii "/ws-evil/key")) (ascii "/ws-evil/key")
      (ascii "/ws-evil/key") := ⟨⟨_, rfl, rfl, by decide⟩, _, rfl⟩
  have hresolves : oneFileEnv (ascii "/ws-evil/key") [] (.realpath (ascii "/ws-evil/key")) =
      some (ascii "/ws-evil/key") := by rw [oneFileEnv, if_pos rfl]
  obtain ⟨path, c, hc, hinside⟩ := h .init (ascii "/ws") (ascii "\x7b\"path\":\"/ws-evil/key\"\x7d")
    (oneFileEnv (ascii "/ws-evil/key")) hcanonical.1 hrealpath
    ((readsFile_iff (by decide) _).mpr ⟨_, _, ⟨hpath, hresolves⟩, hbeside.1, hreadable⟩)
  obtain rfl : ascii "/ws-evil/key" = path := Option.some.inj (hpath.symm.trans hc.1)
  obtain rfl : ascii "/ws-evil/key" = c := Option.some.inj (hresolves.symm.trans hc.2)
  exact hbeside.2 hinside

end DoctorClaw
