import DoctorClaw.Tools.GateRule

/-!
# The tools that leak

Which tools break the rule of the gate once they run, and on which parameters.
`parse_string_param` returns one static buffer, so that what a command shows
is decided by the key that was parsed last.
-/

namespace DoctorClaw

open Interaction Command

/-- When a tool breaks the rule once it runs.  A tool of the first kind puts a
parameter into a command unchecked; with none of its text there, the command
is a fixed one.  The last two change files themselves, as `mv` would if its two
pointers were not to one buffer. -/
def Tool.leaks (changes : Bytes → Bool) (locked : Bool) (params : Bytes) (tool : Tool) : Bool :=
  let has := hasParam params
  let fixed (command : String) : Bool := locked && changes (ascii command)
  match tool with
  | .cp => has "src" && (has "dest" || has "destination") && (has "recursive" || fixed "cp  ")
  | .screenshot => has "delay" || fixed (if has "output" then "sleep 1 && screencapture -x "
      else "sleep 1 && screencapture -x screenshot.png")
  | .gitClone => has "url" && (has "directory" || fixed "git clone ")
  | .gitPull => has "branch" ||
      fixed (if has "path" then "cd  && git pull" else "cd . && git pull")
  | .gitCommit => has "message" && (has "add_all" ||
      fixed (if has "path" then "cd  && git commit -m \"\"" else "cd . && git commit -m \"\""))
  | .gitOperations => has "operation" && (has "path" || fixed "cd . && git  2>&1")
  | .cronAdd => has "schedule" && has "command" &&
      (has "name" || fixed "(crontab -l 2>/dev/null; echo \" \") | crontab -")
  | .cronList => fixed "crontab -l 2>/dev/null"
  | .cronRemove => has "line" ||
      fixed (if has "name" then "crontab -l | grep -v '# $' | crontab -" else "crontab -r")
  | .cronRun => has "command"
  | .cronUpdate => has "job_id" && has "schedule" &&
      (has "command" || fixed "crontab -l 2>/dev/null | sed 's/.*.*/ /' | crontab -")
  | .schedule => has "command"
  | .browserOpen => has "url" && (has "headless" ||
      fixed "open '' 2>/dev/null || xdg-open '' 2>/dev/null || echo 'No browser found'")
  | .browser => has "url" &&
      let selector := paramBuffer params (ascii "selector")
      if has "action" && selector = ascii "click" then fixed clickNotice
      else if has "action" && selector = ascii "fill" then fixed fillNotice
      else has "selector" || fixed "curl -s -L '' | head -1000"
  | .hardwareBoardInfo => fixed "system_profiler SPHardwareDataType 2>/dev/null"
  | .rm => has "path" && has "recursive" && paramBuffer params (ascii "force") = ascii "true"
  | .mkdir => locked && has "path" && has "mode"
  | .edit => locked && has "path" && has "find" && has "replace"
  | _ => false

variable {changes : Bytes → Bool} {locked : Bool} {past : List Call} {params : Bytes}
  {r : ToolResult}

theorem paramPointer_self (key : String) :
    paramPointer params key (paramBuffer params (ascii key)) =
      if paramBuffer params (ascii key) = [] then none
      else some (paramBuffer params (ascii key)) := by
  simp [paramPointer, hasParam]

theorem follows_cp : (toolCpExecute params r).Follows (GateRule changes locked) [] ↔
    Tool.leaks changes locked params .cp = false := by
  simp only [toolCpExecute, Tool.leaks, paramPointer_orElse]
  cases hsrc : hasParam params "src" with
  | false => simp [paramPointer_of_false hsrc, failWith]
  | true =>
      cases hasParam params "dest" || hasParam params "destination" with
      | false => simp [paramPointer_of_true hsrc, failWith]
      | true =>
          simp only [paramPointer_of_true hsrc, if_true, Bool.true_and, paramPointer_self]
          rw [follows_system _ (by simp)]
          · unfold hasParam
            generalize paramBuffer params (ascii "recursive") = s
            refine leaks_iff (by rintro rfl; rfl) fun hs ↦ ?_
            by_cases hr : isTrue (if s = [] then none else some s) = true
            · rw [if_pos hr]
              exact leaks_cut (lit "cp -R ") (lit " " ++ arg s) (by simp) (by decide) hs
            · rw [if_neg hr]
              exact leaks_cut (lit "cp ") (lit " " ++ arg s) (by simp) (by decide) hs
          · intro ret past
            exact follows_ite (fun _ ↦ follows_perform rfl fun _ ↦ trivial) fun _ ↦ trivial

theorem follows_systemReport {cmd : Command} {failed : ℤ → Bytes} {done : Bytes} :
    (systemReport r cmd failed done).Follows (GateRule changes locked) [] ↔
      Command.leaks changes locked cmd = false := by
  refine follows_system (fun ret past ↦ ?_) (by simp)
  exact follows_ite (fun _ ↦ trivial) fun _ ↦ trivial

theorem follows_screenshot : (toolScreenshotExecute params r).Follows (GateRule changes locked) [] ↔
    Tool.leaks changes locked params .screenshot = false := by
  simp only [toolScreenshotExecute, Tool.leaks]
  rw [follows_system _ (by simp)]
  · generalize hasParam params "output" = output
    unfold hasParam
    generalize paramBuffer params (ascii "delay") = s
    refine leaks_iff (fun hs ↦ ?_) fun hs ↦ ?_
    · subst hs
      cases output <;> rfl
    · rw [if_pos (by simpa using hs), List.append_assoc, List.append_assoc]
      exact leaks_cut (lit "sleep ") _ rfl (by decide) (Decimal.printInt_ne_nil _)
  · exact fun ret past ↦ follows_ite (fun _ ↦ trivial) fun _ ↦ trivial

theorem follows_gitClone : (toolGitCloneExecute params r).Follows (GateRule changes locked) [] ↔
    Tool.leaks changes locked params .gitClone = false := by
  simp only [toolGitCloneExecute, Tool.leaks]
  cases hurl : hasParam params "url" with
  | false => simp [paramPointer_of_false hurl, failWith]
  | true =>
      simp only [paramPointer_of_true hurl, Bool.true_and, paramPointer_self, follows_systemReport]
      unfold hasParam
      generalize paramBuffer params (ascii "directory") = s
      refine leaks_iff (by rintro rfl; rfl) fun hs ↦ ?_
      rw [if_neg hs]
      exact leaks_cut (lit "git clone ") (lit " " ++ arg s) (by simp) (by decide) hs

theorem follows_gitPull : (toolGitPullExecute params r).Follows (GateRule changes locked) [] ↔
    Tool.leaks changes locked params .gitPull = false := by
  simp only [toolGitPullExecute, Tool.leaks, paramPointer_self, follows_systemReport]
  generalize hasParam params "path" = path
  unfold hasParam
  generalize paramBuffer params (ascii "branch") = s
  refine leaks_iff (fun hs ↦ ?_) fun hs ↦ ?_
  · subst hs
    cases path <;> rfl
  · rw [if_neg hs]
    cases path with
    | true =>
        exact leaks_cut (lit "cd ") (lit " && git pull origin " ++ arg s) (by simp) (by decide) hs
    | false => exact leaks_cut (lit "cd . && git pull origin ") [] (by simp; rfl) (by decide) hs

theorem follows_gitCommit : (toolGitCommitExecute params r).Follows (GateRule changes locked) [] ↔
    Tool.leaks changes locked params .gitCommit = false := by
  simp only [toolGitCommitExecute, Tool.leaks]
  cases hmessage : hasParam params "message" with
  | false => simp [paramPointer_of_false hmessage, failWith]
  | true =>
      simp only [paramPointer_of_true hmessage, Bool.true_and, paramPointer_self,
        follows_systemReport]
      generalize hasParam params "path" = path
      unfold hasParam
      generalize paramBuffer params (ascii "add_all") = s
      refine leaks_iff (fun hs ↦ ?_) fun hs ↦ ?_
      · subst hs
        cases path <;> rfl
      · generalize isTrue (if s = [] then none else some s) = addAll
        cases path with
        | true =>
            cases addAll <;> exact leaks_cut (lit "cd ") _ (by simp; rfl) (by decide) hs
        | false =>
            cases addAll with
            | true =>
                exact leaks_cut (lit "cd . && git add -A && git commit -m \"") (lit "\"")
                  (by simp; rfl) (by decide) hs
            | false =>
                exact leaks_cut (lit "cd . && git commit -m \"") (lit "\"") (by simp; rfl)
                  (by decide) hs

theorem gitOperation_eq (operation : Bytes) (path : Command) :
    ∃ tail, gitOperation params operation path = lit "cd " ++ path ++ tail := by
  have hite {b : Prop} {_ : Decidable b} {x y : Command} (hx : ∃ tail, x = lit "cd " ++ path ++ tail)
      (hy : ∃ tail, y = lit "cd " ++ path ++ tail) :
      ∃ tail, (if b then x else y) = lit "cd " ++ path ++ tail := by
    split_ifs
    · exact hx
    · exact hy
  have hthree (x y z : Command) : ∃ tail, lit "cd " ++ path ++ x ++ y ++ z = lit "cd " ++ path ++ tail :=
    ⟨x ++ (y ++ z), (List.append_assoc _ _ _).trans (List.append_assoc _ _ _)⟩
  refine hite ⟨_, rfl⟩ (hite ⟨_, rfl⟩ (hite (hthree _ _ _) (hite ⟨_, rfl⟩ ?_)))
  refine hite ⟨_, rfl⟩ (hite ⟨_, rfl⟩ (hite ⟨_, rfl⟩ ?_))
  exact hite ⟨_, rfl⟩ (hite ⟨_, rfl⟩ (hite ⟨_, rfl⟩ (hthree _ _ _)))

theorem leaks_gitOperation {s : Bytes} (hs : s ≠ []) :
    Command.leaks changes locked (Command.cut 4096 (gitOperation params s (arg s))) = true := by
  obtain ⟨tail, htail⟩ : ∃ tail, gitOperation params s (arg s) = lit "cd " ++ arg s ++ tail :=
    gitOperation_eq s (arg s)
  rw [htail]
  exact leaks_cut (lit "cd ") tail (List.append_assoc _ _ _) (by decide) hs

theorem follows_gitOperations :
    (toolGitOperationsExecute params r).Follows (GateRule changes locked) [] ↔
      Tool.leaks changes locked params .gitOperations = false := by
  simp only [toolGitOperationsExecute, Tool.leaks]
  cases hoperation : hasParam params "operation" with
  | false => simp [paramPointer_of_false hoperation, failWith]
  | true =>
      simp only [paramPointer_of_true hoperation, Bool.true_and]
      rw [follows_popen _ (by simp)]
      · rw [show hasParam params "path" = decide (paramBuffer params (ascii "path") ≠ []) from rfl]
        generalize paramBuffer params (ascii "path") = s
        refine leaks_iff (by rintro rfl; rfl) fun hs ↦ ?_
        rw [if_pos (by simpa using hs)]
        exact leaks_gitOperation hs
      · intro pipe past
        cases pipe with
        | none => trivial
        | some data => exact follows_ite (fun _ ↦ trivial) fun _ ↦ trivial

theorem follows_cronAdd : (toolCronAddExecute params r).Follows (GateRule changes locked) [] ↔
    Tool.leaks changes locked params .cronAdd = false := by
  simp only [toolCronAddExecute, Tool.leaks]
  cases hschedule : hasParam params "schedule" with
  | false => simp [paramPointer_of_false hschedule, failWith]
  | true =>
      cases hcommand : hasParam params "command" with
      | false => simp [paramPointer_of_false hcommand, failWith]
      | true =>
          simp only [paramPointer_of_true hschedule, paramPointer_of_true hcommand, Bool.true_and,
            paramPointer_self, follows_systemReport]
          unfold hasParam
          generalize paramBuffer params (ascii "name") = s
          refine leaks_iff (by rintro rfl; rfl) fun hs ↦ ?_
          obtain ⟨b, s, rfl⟩ := List.exists_cons_of_ne_nil hs
          have hentry : ∃ rest, Command.cut 4096 (arg (b :: s) ++ lit " " ++ arg (b :: s) ++
              lit " # " ++ arg (b :: s)) = arg [b] ++ rest := ⟨_, rfl⟩
          obtain ⟨rest, hrest⟩ := hentry
          rw [if_neg hs, hrest]
          exact leaks_cut (s := [b]) (lit "(crontab -l 2>/dev/null; echo \"")
            (rest ++ lit "\") | crontab -") (by simp) (by decide) (by simp)

theorem follows_cronList : (toolCronListExecute r).Follows (GateRule changes locked) [] ↔
    Tool.leaks changes locked params .cronList = false := by
  unfold toolCronListExecute
  rw [follows_popen _ (by simp)]
  · rfl
  · intro pipe past
    cases pipe with
    | none => trivial
    | some data => exact follows_ite (fun _ ↦ trivial) fun _ ↦ trivial

theorem follows_cronRemove : (toolCronRemoveExecute params r).Follows (GateRule changes locked) [] ↔
    Tool.leaks changes locked params .cronRemove = false := by
  have hfinish (success : Bool) : Quiet (if success then succeedWith r (ascii "Cron jobs removed")
      else .ret (true, { r with success := false })) :=
    fun past ↦ follows_ite (fun _ ↦ trivial) fun _ ↦ trivial
  simp only [toolCronRemoveExecute, Tool.leaks]
  cases hline : hasParam params "line" with
  | true =>
      have hs : paramBuffer params (ascii "line") ≠ [] := by simpa [hasParam] using hline
      have hleak : Command.leaks changes locked (Command.cut 256 (lit "crontab -l | sed -e '" ++
          arg (paramBuffer params (ascii "line")) ++ lit "d' | crontab -")) = true :=
        leaks_cut (lit "crontab -l | sed -e '") (lit "d' | crontab -") (by simp) (by decide) hs
      simp only [paramPointer_of_true hline]
      rw [follows_system (fun ret ↦ hfinish _) (by simp), hleak]
      simp
  | false =>
      have hs : paramBuffer params (ascii "line") = [] := by simpa [hasParam] using hline
      cases hname : hasParam params "name" with
      | true =>
          simp only [paramPointer_of_false hline, paramPointer_of_true hname, hs]
          rw [follows_system (fun ret ↦ hfinish _) (by simp)]
          rfl
      | false =>
          simp only [paramPointer_of_false hline, paramPointer_of_false hname]
          rw [follows_system _ (by simp)]
          · rfl
          · exact fun ret past ↦ follows_ite (fun _ ↦ trivial) fun _ ↦ trivial

theorem leaks_arg {s : Bytes} (hs : s ≠ []) : Command.leaks changes locked (arg s) = true := by
  obtain ⟨b, s, rfl⟩ := List.exists_cons_of_ne_nil hs
  exact leaks_of_fromParams rfl

theorem follows_cronRun : (toolCronRunExecute params r).Follows (GateRule changes locked) [] ↔
    Tool.leaks changes locked params .cronRun = false := by
  simp only [toolCronRunExecute, Tool.leaks, parseStringParam, hasParam]
  generalize paramBuffer params (ascii "command") = s
  by_cases hs : s = []
  · simp [hs, failWith]
  · rw [if_neg hs]
    change (Sys.system (arg s) >>= _).Follows _ _ ↔ _
    rw [follows_system _ (by simp), leaks_arg hs]
    · simp [hs]
    · exact fun ret past ↦ follows_ite (fun _ ↦ trivial) fun _ ↦ trivial

theorem follows_cronUpdate : (toolCronUpdateExecute params r).Follows (GateRule changes locked) [] ↔
    Tool.leaks changes locked params .cronUpdate = false := by
  have hfinish (jobId : Bytes) (ret : ℤ) : Quiet
      (if ret = 0 then succeedWith r (ascii "Updated cron job: " ++ jobId)
        else failWith r (ascii "Failed to update cron job")) :=
    fun past ↦ follows_ite (fun _ ↦ trivial) fun _ ↦ trivial
  simp only [toolCronUpdateExecute, Tool.leaks]
  cases hjob : hasParam params "job_id" with
  | false => simp [paramPointer_of_false hjob, failWith]
  | true =>
      cases hschedule : hasParam params "schedule" with
      | false =>
          simp [paramPointer_of_true hjob, paramPointer_of_false hschedule, failWith]
      | true =>
          cases hcommand : hasParam params "command" with
          | false =>
              have hs : paramBuffer params (ascii "command") = [] := by
                simpa [hasParam] using hcommand
              simp only [paramPointer_of_true hjob, paramPointer_of_true hschedule,
                paramPointer_of_false hcommand, hs]
              rw [follows_system (hfinish _) (by simp)]
              rfl
          | true =>
              have hs : paramBuffer params (ascii "command") ≠ [] := by
                simpa [hasParam] using hcommand
              simp only [paramPointer_of_true hjob, paramPointer_of_true hschedule,
                paramPointer_of_true hcommand]
              generalize paramBuffer params (ascii "command") = s at hs
              rw [follows_system (hfinish _) (by simp), leaks_cut
                (lit "(crontab -l 2>/dev/null | grep -v '^#.*") _ (by simp; rfl) (by decide) hs]
              simp

theorem follows_schedule : (toolScheduleExecute params r).Follows (GateRule changes locked) [] ↔
    Tool.leaks changes locked params .schedule = false := by
  simp only [toolScheduleExecute, Tool.leaks]
  cases hcommand : hasParam params "command" with
  | false => simp [paramPointer_of_false hcommand, failWith]
  | true =>
      have hs : paramBuffer params (ascii "command") ≠ [] := by simpa [hasParam] using hcommand
      simp only [paramPointer_of_true hcommand]
      generalize paramBuffer params (ascii "command") = s at hs
      rw [follows_system _ (by simp)]
      · split_ifs
        · rw [leaks_cut (lit "sleep ") _ (by simp; rfl) (by decide) (Decimal.printInt_ne_nil _)]
          simp
        · simp [leaks_arg hs]
      · exact fun _ _ ↦ trivial

theorem follows_browserOpen :
    (toolBrowserOpenExecute params r).Follows (GateRule changes locked) [] ↔
      Tool.leaks changes locked params .browserOpen = false := by
  simp only [toolBrowserOpenExecute, Tool.leaks]
  cases hurl : hasParam params "url" with
  | false => simp [paramPointer_of_false hurl, failWith]
  | true =>
      simp only [paramPointer_of_true hurl, Bool.true_and, paramPointer_self]
      rw [follows_popen _ (by simp)]
      · unfold hasParam
        generalize paramBuffer params (ascii "headless") = s
        refine leaks_iff (by rintro rfl; rfl) fun hs ↦ ?_
        by_cases hheadless : isTrue (if s = [] then none else some s) = true
        · rw [if_pos hheadless]
          exact leaks_cut (lit "open -a 'Google Chrome' --args --headless --disable-gpu '") _
            (by simp; rfl) (by decide) hs
        · rw [if_neg hheadless]
          exact leaks_cut (lit "open '") _ (by simp; rfl) (by decide) hs
      · intro pipe past
        cases pipe <;> trivial

theorem leaks_browserAction {s : Bytes} (hs : s ≠ []) {action : Bytes}
    (hclick : action ≠ ascii "click") (hfill : action ≠ ascii "fill") :
    Command.leaks changes locked (Command.cut 2048 (browserAction action s)) = true := by
  unfold browserAction
  simp only [List.append_assoc]
  split_ifs
  · exact leaks_cut (lit "curl -s -L '") _ rfl (by decide) hs
  · exact leaks_cut (lit "webkit2png '") _ rfl (by decide) hs
  · exact leaks_cut (lit "curl -s '") _ rfl (by decide) hs
  · exact leaks_cut (lit "curl -s '") _ rfl (by decide) hs
  · exact leaks_cut (lit "curl -s -L '") _ rfl (by decide) hs

theorem browserAction_click (s : Bytes) : Command.cut 2048 (browserAction (ascii "click") s) =
    (ascii clickNotice).map fun c ↦ (c, false) := rfl

theorem browserAction_fill (s : Bytes) : Command.cut 2048 (browserAction (ascii "fill") s) =
    (ascii fillNotice).map fun c ↦ (c, false) := rfl

theorem follows_browser : (toolBrowserExecute params r).Follows (GateRule changes locked) [] ↔
    Tool.leaks changes locked params .browser = false := by
  simp only [toolBrowserExecute, Tool.leaks]
  cases hurl : hasParam params "url" with
  | false => simp [paramPointer_of_false hurl, failWith]
  | true =>
      simp only [paramPointer_of_true hurl, Bool.true_and]
      rw [follows_popen _ (by simp)]
      · rw [show hasParam params "selector" =
          decide (paramBuffer params (ascii "selector") ≠ []) from rfl]
        generalize paramBuffer params (ascii "selector") = s
        cases haction : hasParam params "action" with
        | false =>
            rw [paramPointer_of_false haction]
            refine leaks_iff (by rintro rfl; rfl) fun hs ↦ ?_
            exact leaks_browserAction hs (by decide) (by decide)
        | true =>
            rw [paramPointer_of_true haction, Option.getD_some]
            by_cases hclick : s = ascii "click"
            · rw [hclick, browserAction_click, leaks_fixed]
              rfl
            · by_cases hfill : s = ascii "fill"
              · rw [hfill, browserAction_fill, leaks_fixed]
                rfl
              · simp only [hclick, hfill, decide_false, Bool.and_false]
                refine leaks_iff (by rintro rfl; rfl) fun hs ↦ ?_
                exact leaks_browserAction hs hclick hfill
      · intro pipe past
        cases pipe with
        | none => trivial
        | some data => exact follows_ite (fun _ ↦ trivial) fun _ ↦ trivial

theorem follows_hardwareBoardInfo :
    (toolHardwareBoardInfoExecute r).Follows (GateRule changes locked) [] ↔
      Tool.leaks changes locked params .hardwareBoardInfo = false := by
  have hsecond {f : Option Bytes → ToolM Outcome} (hsome : ∀ data, Quiet (f (some data)))
      (hnone : Quiet (f none)) :
      (Sys.popen (lit "system_profiler SPHardwareDataType 2>/dev/null") >>= f).Follows
        (GateRule changes locked) [.fopenRead (ascii "/proc/cpuinfo")] ↔
        Tool.leaks changes locked params .hardwareBoardInfo = false := by
    rw [follows_popen (by rintro (_ | data); exacts [hnone, hsome data]) (by simp)]
    rfl
  constructor
  · intro h
    refine (hsecond ?_ ?_).mp (h.2 none)
    · exact fun _ _ ↦ trivial
    · exact fun _ ↦ trivial
  · intro h
    refine follows_perform (GateRule.of_quiet rfl) fun file ↦ ?_
    cases file with
    | none =>
        refine (hsecond ?_ ?_).mpr h
        · exact fun _ _ ↦ trivial
        · exact fun _ ↦ trivial
    | some data => trivial

theorem GateRule.of_open {c : Call} (hopen : locked = false) (hc : c.shellCommand? = none) :
    GateRule changes locked past c :=
  ⟨fun h ↦ by simp [hopen] at h, fun h ↦ by simp [hopen] at h, fun _ h ↦ by simp [hc] at h⟩

theorem gateRule_change {c : Call} (hc : c.shellCommand? = none)
    (hfile : c.changesFile changes = true) :
    GateRule changes locked past c ↔ locked = false := by
  constructor
  · intro h
    by_contra hlocked
    have hno := h.no_change (by simpa using hlocked)
    simp [hfile] at hno
  · exact fun hopen ↦ GateRule.of_open hopen hc

theorem quiet_rmFinish (path : Bytes) (removed : Bool) :
    Quiet (if removed = true then succeedWith r (ascii "Removed: " ++ path)
      else do
        let e ← Sys.strerror
        failWith r (ascii "Failed to remove: " ++ e)) :=
  fun _ ↦ follows_ite (fun _ ↦ trivial) fun _ ↦ follows_perform rfl fun _ ↦ trivial

theorem follows_rm (hopen : locked = false) :
    (toolRmExecute params r).Follows (GateRule changes locked) [] ↔
      Tool.leaks changes locked params .rm = false := by
  simp only [toolRmExecute, Tool.leaks]
  cases hpath : hasParam params "path" with
  | false => simp [paramPointer_of_false hpath, failWith]
  | true =>
      simp only [paramPointer_of_true hpath, Bool.true_and]
      generalize paramBuffer params (ascii "force") = s
      constructor
      · intro h
        by_contra hleak
        obtain ⟨hrecursive, rfl⟩ : hasParam params "recursive" = true ∧ s = ascii "true" := by
          simpa using hleak
        have hdir := (follows_perform_iff.mp h).2 (some ⟨true, false, 0, 0, [], [], []⟩)
        rw [paramPointer_of_true hrecursive] at hdir
        have hrm := (follows_system (fun _ ↦ quiet_rmFinish _ _) (by simp)).mp hdir
        rw [leaks_cut (s := ascii "true") (lit "rm -rf ") [] (by simp) (by decide) (by decide)] at hrm
        cases hrm
      · intro hleak
        have hflat : isTrue (paramPointer params "recursive" s) = false := by
          cases hrecursive : hasParam params "recursive" with
          | false => simp [paramPointer_of_false hrecursive, isTrue]
          | true => simpa [paramPointer_of_true hrecursive, isTrue, hrecursive] using hleak
        refine follows_perform (GateRule.of_quiet rfl) fun st ↦ ?_
        cases st with
        | none => exact follows_ite (fun _ ↦ trivial) fun _ ↦ trivial
        | some st =>
            rw [hflat]
            exact follows_ite
              (fun _ ↦ follows_perform (GateRule.of_open hopen rfl) fun _ ↦
                follows_of_quiet (quiet_rmFinish _ _))
              fun _ ↦ follows_perform (GateRule.of_open hopen rfl) fun _ ↦
                follows_of_quiet (quiet_rmFinish _ _)

theorem follows_mkdir : (toolMkdirExecute params r).Follows (GateRule changes locked) [] ↔
    Tool.leaks changes locked params .mkdir = false := by
  simp only [toolMkdirExecute, Tool.leaks]
  cases hpath : hasParam params "path" with
  | false => simp [paramPointer_of_false hpath, failWith]
  | true =>
      simp only [paramPointer_of_true hpath, Bool.and_true]
      cases hmode : hasParam params "mode" with
      | false =>
          have hs : paramBuffer params (ascii "mode") = [] := by simpa [hasParam] using hmode
          rw [hs, Bool.and_false]
          refine iff_of_true (follows_perform (.of_unchanged rfl rfl) fun made ↦ ?_) rfl
          exact follows_ite (fun _ ↦ trivial) fun _ ↦
            follows_perform (GateRule.of_quiet rfl) fun _ ↦ trivial
      | true =>
          have hs : paramBuffer params (ascii "mode") ≠ [] := by simpa [hasParam] using hmode
          rw [Bool.and_true]
          constructor
          · exact fun h ↦ (gateRule_change (c := .mkdir _ _) rfl (decide_eq_true hs)).mp h.1
          · intro hopen
            refine follows_perform (GateRule.of_open hopen rfl) fun made ↦ ?_
            exact follows_ite (fun _ ↦ trivial) fun _ ↦
              follows_perform (GateRule.of_quiet rfl) fun _ ↦ trivial

/-- Both pointers are to one buffer, so that a path is renamed to itself. -/
theorem follows_mv : (toolMvExecute params r).Follows (GateRule changes locked) [] := by
  simp only [toolMvExecute, paramPointer_orElse]
  cases hsrc : hasParam params "src" with
  | false => simp [paramPointer_of_false hsrc, failWith]
  | true =>
      cases hasParam params "dest" || hasParam params "destination" with
      | false => simp [paramPointer_of_true hsrc, failWith]
      | true =>
          simp only [paramPointer_of_true hsrc, if_true]
          have hsame : (Call.rename (paramBuffer params (ascii "destination"))
              (paramBuffer params (ascii "destination"))).changesFile changes = false :=
            decide_eq_false (not_not.mpr rfl)
          refine follows_perform (.of_unchanged rfl hsame) fun moved ↦ ?_
          exact follows_ite (fun _ ↦ trivial) fun _ ↦
            follows_perform (GateRule.of_quiet rfl) fun _ ↦ trivial

/-- Without a text to find and one to put in its place the loop never ends. -/
theorem editLoop_nil (fuel : ℕ) (p : Bytes) : editLoop [] none fuel [] p = none := by
  induction fuel with
  | zero => rfl
  | succ fuel ih =>
      rw [editLoop, CString.strstr_of_isPrefix List.nil_prefix]
      simpa [appendFitting, editBufferSize] using ih

theorem follows_edit : (toolEditExecute params r).Follows (GateRule changes locked) [] ↔
    Tool.leaks changes locked params .edit = false := by
  simp only [toolEditExecute, Tool.leaks]
  cases hpath : hasParam params "path" with
  | false => simp [paramPointer_of_false hpath, failWith]
  | true =>
      cases hfind : hasParam params "find" with
      | false => simp [paramPointer_of_true hpath, paramPointer_of_false hfind, failWith]
      | true =>
          simp only [paramPointer_of_true hpath, paramPointer_of_true hfind, Bool.and_true,
            paramPointer_self]
          unfold hasParam
          generalize paramBuffer params (ascii "replace") = s
          constructor
          · intro h
            by_contra hleak
            obtain ⟨hlocked, hs⟩ : locked = true ∧ s ≠ [] := by simpa using hleak
            have hempty := (follows_perform_iff.mp h).2 (some [])
            simp only [CString.ofBuffer, List.take_nil, List.takeWhile_nil,
              editContent_nil hs] at hempty
            have hopen := (gateRule_change rfl rfl).mp hempty.1
            simp [hlocked] at hopen
          · intro hleak
            refine follows_perform (GateRule.of_quiet rfl) fun file ↦ ?_
            cases file with
            | none => exact follows_perform (GateRule.of_quiet rfl) fun _ ↦ trivial
            | some file =>
                dsimp only
                cases hedit : editContent s (if s = [] then none else some s)
                    (CString.ofBuffer (file.take (editBufferSize - 1))) with
                | none => trivial
                | some output =>
                    have hopen : locked = false := by
                      by_contra hlocked
                      have hs : s = [] := by
                        rw [Bool.not_eq_false] at hlocked
                        simpa [hlocked] using hleak
                      rw [hs, if_pos rfl, editContent, editLoop_nil] at hedit
                      cases hedit
                    refine follows_perform (GateRule.of_open hopen rfl) fun opened ↦ ?_
                    exact follows_ite
                      (fun _ ↦ follows_perform (GateRule.of_open hopen rfl) fun _ ↦ trivial)
                      fun _ ↦ follows_perform (GateRule.of_quiet rfl) fun _ ↦ trivial

theorem follows_runChecked (hopen : locked = false) (policy : Option SecurityPolicy)
    (shell : Option Bytes) (timeout : ℤ) (command : Bytes) :
    (runChecked policy shell timeout command).Follows (GateRule changes locked) [] := by
  have houtcome (status : ℤ) (output : Bytes) : Quiet (shellOutcome status output) := by
    intro past
    exact follows_ite (fun _ ↦ trivial) fun _ ↦ follows_ite (fun _ ↦ trivial) fun _ ↦ trivial
  unfold runChecked
  refine follows_ite (fun _ ↦ trivial) fun _ ↦ follows_ite (fun _ ↦ trivial) fun _ ↦ ?_
  refine follows_ite (fun _ ↦ trivial) fun _ ↦ follows_perform (GateRule.of_quiet rfl) fun _ ↦ ?_
  refine follows_ite (fun _ ↦ ?_) fun _ ↦ trivial
  refine follows_perform ?_ fun reply ↦ follows_of_quiet (houtcome _ _)
  have htext : Command.text (arg command) = command := by simp [Command.text, arg, Function.comp_def]
  refine ⟨fun h ↦ by simp [hopen] at h, fun h ↦ by simp [hopen] at h, ?_⟩
  rintro cmd hcmd -
  obtain rfl : arg command = cmd := Option.some.inj hcmd
  simp [htext]

theorem follows_fileWrite (hopen : locked = false) :
    (toolFileWriteExecute params r).Follows (GateRule changes locked) [] := by
  simp only [toolFileWriteExecute]
  generalize paramBuffer params _ = s
  split
  · trivial
  · refine follows_perform (GateRule.of_open hopen rfl) fun opened ↦ ?_
    refine follows_ite (fun _ ↦ ?_) fun _ ↦
      follows_perform (GateRule.of_quiet rfl) fun _ ↦ trivial
    split
    · exact follows_perform (GateRule.of_open hopen rfl) fun _ ↦ trivial
    · trivial

end DoctorClaw
