import DoctorClaw.ConfigFiles.Managers
import DoctorClaw.Lib.ProcessTable

/-!
# Services and their processes

The table of the service manager with the state of each service's process, and
what its operations ask of the system: `service_start` forks, `service_stop`
signals and waits, and `service_unregister` and `service_manager_free` signal
and forget.  That a child ended by itself, or that its `execl` failed, is not
noticed: its service stays running until it is stopped.
-/

namespace DoctorClaw

open CString ProcessTable

/-- `service_state_t`. -/
inductive ServiceState
  | unknown
  | stopped
  | starting
  | running
  | stopping
  | failed
  deriving DecidableEq

/-- `service_t`. -/
structure ServiceProcess extends Service where
  state : ServiceState
  pid : ℤ
  startedAt : UInt64
  lastExit : UInt64
  exitCode : ℤ

def ServiceProcess.zero : ServiceProcess := ⟨Service.zero, .unknown, 0, 0, 0, 0⟩

/-- `service_manager_t`. -/
abbrev ServiceTable := SlotArray ServiceProcess

namespace ServiceTable

def init : ServiceTable := ⟨fun _ ↦ ServiceProcess.zero, 0⟩

/-- What the files of the manager say of it. -/
def services (mgr : ServiceTable) : ServiceManager := mgr.map ServiceProcess.toService

def find (mgr : ServiceTable) (name : Bytes) : Option ℕ := SlotArray.find mgr fun s ↦ s.name = name

/-- `service_register`. -/
def register (mgr : ServiceTable) (name executable : Bytes) (args : Option Bytes) :
    ℤ × ServiceTable :=
  if 32 ≤ mgr.count then (-1, mgr)
  else (0, mgr.extend fun old ↦
    { name := cut 64 name
      executable := cut 512 executable
      args := args.elim old.args (cut 1024)
      enabled := false
      state := .stopped
      pid := 0
      startedAt := 0
      lastExit := 0
      exitCode := 0 })

/-- `service_unregister`: what it returns, the services afterwards and the calls
to the system. -/
def unregister (mgr : ServiceTable) (name : Bytes) : ℤ × ServiceTable × List Call :=
  match mgr.find name with
  | some i =>
      (0, mgr.removeAt i,
        if (mgr.slot i).state = .running then [.kill (mgr.slot i).pid] else [])
  | none => (-1, mgr, [])

/-- `service_start` in the parent; the child becomes the program or exits.
`fork` is what the system answers. -/
def start (mgr : ServiceTable) (name : Bytes) (fork : ℤ) (now : UInt64) :
    ℤ × ServiceTable × List Call :=
  match mgr.find name with
  | some i =>
      if (mgr.slot i).state = .running then (0, mgr, [])
      else if fork < 0 then
        (-1, mgr.modifyAt i fun s ↦ { s with state := .failed }, [.fork fork])
      else (0, mgr.modifyAt i fun s ↦ { s with pid := fork, state := .running, startedAt := now },
        [.fork fork])
  | none => (-1, mgr, [])

/-- `service_stop`; `exit` is the exit status of a process that was not ended by
a signal. -/
def stop (mgr : ServiceTable) (name : Bytes) (exit : Option UInt8) (now : UInt64) :
    ℤ × ServiceTable × List Call :=
  match mgr.find name with
  | some i =>
      if (mgr.slot i).state ≠ .running then (0, mgr, [])
      else (0, mgr.modifyAt i fun s ↦
          { s with
            state := .stopped
            lastExit := now
            exitCode := exit.elim (-1) fun code ↦ code.toNat
            pid := 0 },
        [.kill (mgr.slot i).pid, .waitpid (mgr.slot i).pid])
  | none => (-1, mgr, [])

/-- `service_restart`. -/
def restart (mgr : ServiceTable) (name : Bytes) (exit : Option UInt8) (fork : ℤ) (now : UInt64) :
    ℤ × ServiceTable × List Call :=
  let (_, stopped, calls) := mgr.stop name exit now
  let (result, started, more) := stopped.start name fork now
  (result, started, calls ++ more)

/-- `service_enable` and `service_disable`. -/
def setEnabled (enabled : Bool) (mgr : ServiceTable) (name : Bytes) : ℤ × ServiceTable :=
  match mgr.find name with
  | some i => (0, mgr.modifyAt i fun s ↦ { s with enabled := enabled })
  | none => (-1, mgr)

def runningPids (mgr : ServiceTable) : List ℤ :=
  (mgr.entries.filter fun s ↦ s.state = .running).map ServiceProcess.pid

/-- `service_manager_free`. -/
def free (mgr : ServiceTable) : ServiceTable × List Call := (init, mgr.runningPids.map .kill)

end ServiceTable

/-- A call to the manager with the answers that the system gives it. -/
inductive ServiceAction
  | register (name executable : Bytes) (args : Option Bytes)
  | unregister (name : Bytes)
  | start (name : Bytes) (fork : ℤ) (now : UInt64)
  | stop (name : Bytes) (exit : Option UInt8) (now : UInt64)
  | restart (name : Bytes) (exit : Option UInt8) (fork : ℤ) (now : UInt64)
  | setEnabled (enabled : Bool) (name : Bytes)
  | free

def ServiceAction.perform (mgr : ServiceTable) : ServiceAction → ServiceTable × List Call
  | register name executable args => ((mgr.register name executable args).2, [])
  | unregister name => (mgr.unregister name).2
  | start name fork now => (mgr.start name fork now).2
  | stop name exit now => (mgr.stop name exit now).2
  | restart name exit fork now => (mgr.restart name exit fork now).2
  | setEnabled enabled name => ((mgr.setEnabled enabled name).2, [])
  | free => mgr.free

/-- The services after some calls, and all that was asked of the system. -/
def performAll (mgr : ServiceTable) : List ServiceAction → ServiceTable × List Call
  | [] => (mgr, [])
  | action :: rest =>
      let (mgr', calls) := action.perform mgr
      let (last, more) := performAll mgr' rest
      (last, calls ++ more)

/-! ## The files see the same services -/

namespace ServiceTable

theorem services_register (mgr : ServiceTable) (name executable : Bytes) (args : Option Bytes) :
    (mgr.register name executable args).2.services =
      (serviceRegister mgr.services name executable args).2 := by
  have hcount : mgr.services.count = mgr.count := rfl
  unfold register serviceRegister
  rw [hcount]
  split_ifs
  · rfl
  · dsimp only [services]
    exact SlotArray.map_extend fun old ↦ rfl

theorem services_unregister (mgr : ServiceTable) (name : Bytes) :
    (mgr.unregister name).2.1.services = (serviceUnregister mgr.services name).2 := by
  have hfind : (mgr.services.find fun s ↦ s.name = name) = mgr.find name := rfl
  unfold unregister serviceUnregister
  rw [hfind]
  cases mgr.find name with
  | none => rfl
  | some i => exact SlotArray.map_removeAt i

theorem services_setEnabled (enabled : Bool) (mgr : ServiceTable) (name : Bytes) :
    (mgr.setEnabled enabled name).2.services =
      (serviceSetEnabled enabled mgr.services name).2 := by
  have hfind : (mgr.services.find fun s ↦ s.name = name) = mgr.find name := rfl
  unfold setEnabled serviceSetEnabled
  rw [hfind]
  cases mgr.find name with
  | none => rfl
  | some i =>
      dsimp only [services]
      apply SlotArray.map_modifyAt
      exact fun s ↦ rfl

theorem services_start (mgr : ServiceTable) (name : Bytes) (fork : ℤ) (now : UInt64) :
    (mgr.start name fork now).2.1.services = mgr.services := by
  unfold start
  split
  · split_ifs
    · rfl
    · dsimp only [services]
      apply SlotArray.map_modifyAt_of_eq
      exact fun s ↦ rfl
    · dsimp only [services]
      apply SlotArray.map_modifyAt_of_eq
      exact fun s ↦ rfl
  · rfl

theorem services_stop (mgr : ServiceTable) (name : Bytes) (exit : Option UInt8) (now : UInt64) :
    (mgr.stop name exit now).2.1.services = mgr.services := by
  unfold stop
  split
  · split_ifs
    · rfl
    · dsimp only [services]
      apply SlotArray.map_modifyAt_of_eq
      exact fun s ↦ rfl
  · rfl

theorem services_restart (mgr : ServiceTable) (name : Bytes) (exit : Option UInt8) (fork : ℤ)
    (now : UInt64) : (mgr.restart name exit fork now).2.1.services = mgr.services := by
  unfold restart
  exact (services_start _ _ _ _).trans (services_stop _ _ _ _)

end ServiceTable

/-- The action on the services without their processes. -/
def ServiceAction.performUnstarted (mgr : ServiceManager) : ServiceAction → ServiceManager
  | register name executable args => (serviceRegister mgr name executable args).2
  | unregister name => (serviceUnregister mgr name).2
  | setEnabled enabled name => (serviceSetEnabled enabled mgr name).2
  | start _ _ _ => mgr
  | stop _ _ _ => mgr
  | restart _ _ _ _ => mgr
  | free => serviceManagerInit

theorem ServiceAction.services_perform (mgr : ServiceTable) (action : ServiceAction) :
    (action.perform mgr).1.services = action.performUnstarted mgr.services := by
  cases action with
  | register name executable args => exact mgr.services_register name executable args
  | unregister name => exact mgr.services_unregister name
  | start name fork now => exact mgr.services_start name fork now
  | stop name exit now => exact mgr.services_stop name exit now
  | restart name exit fork now => exact mgr.services_restart name exit fork now
  | setEnabled enabled name => exact mgr.services_setEnabled enabled name
  | free => rfl

/-- What a run leaves in the file does not depend on the processes. -/
theorem services_performAll (mgr : ServiceTable) (actions : List ServiceAction) :
    (performAll mgr actions).1.services =
      actions.foldl ServiceAction.performUnstarted mgr.services := by
  induction actions generalizing mgr with
  | nil => rfl
  | cons action rest ih =>
      rw [List.foldl_cons, ← action.services_perform mgr]
      exact ih _

namespace ServiceTable

variable {mgr : ServiceTable} {t : Table}

/-! ## The running services are the unsignalled children -/

/-- The number of running services with a process number. -/
def running (mgr : ServiceTable) (pid : ℤ) : ℕ := mgr.runningPids.count pid

/-- Each child that was neither signalled nor waited for is the process of
exactly one service in state running, and each such service has one. -/
def Owns (mgr : ServiceTable) (t : Table) : Prop := ∀ pid, mgr.running pid = unsignalled t pid

def runs (pid : ℤ) (s : ServiceProcess) : Prop := s.state = .running ∧ s.pid = pid

instance (pid : ℤ) : DecidablePred (runs pid) := fun _ ↦ inferInstanceAs (Decidable (_ ∧ _))

theorem running_eq_countP (mgr : ServiceTable) (pid : ℤ) :
    mgr.running pid = mgr.entries.countP fun s ↦ runs pid s := by
  rw [running, runningPids, List.count, List.countP_map, List.countP_filter]
  refine List.countP_congr fun s _ ↦ ?_
  simp [runs, and_comm]

theorem running_modifyAt {i : ℕ} (hi : i < mgr.count) (f : ServiceProcess → ServiceProcess)
    (pid : ℤ) :
    running (mgr.modifyAt i f) pid + (if runs pid (mgr.slot i) then 1 else 0) =
      mgr.running pid + if runs pid (f (mgr.slot i)) then 1 else 0 := by
  obtain ⟨before, after, hentries, -, hmodify⟩ := mgr.exists_around hi
  rw [running_eq_countP, running_eq_countP, hmodify, hentries]
  simp only [List.countP_append, List.countP_cons, decide_eq_true_eq]
  omega

theorem running_removeAt {i : ℕ} (hi : i < mgr.count) (pid : ℤ) :
    running (mgr.removeAt i) pid + (if runs pid (mgr.slot i) then 1 else 0) =
      mgr.running pid := by
  obtain ⟨before, after, hentries, hremove, -⟩ := mgr.exists_around hi
  rw [running_eq_countP, running_eq_countP, hremove, hentries]
  simp only [List.countP_append, List.countP_cons, decide_eq_true_eq]
  omega

theorem running_register (mgr : ServiceTable) (name executable : Bytes) (args : Option Bytes)
    (pid : ℤ) : (mgr.register name executable args).2.running pid = mgr.running pid := by
  unfold register
  split_ifs
  · rfl
  · rw [running_eq_countP, running_eq_countP, SlotArray.entries_extend, List.countP_append,
      List.countP_singleton]
    simp [runs]

theorem Owns.started (h : mgr.Owns t) {i : ℕ} (hi : i < mgr.count)
    (hrunning : (mgr.slot i).state = .running) : t (mgr.slot i).pid = some .started := by
  refine unsignalled_eq_one.mp (le_antisymm unsignalled_le_one ?_)
  rw [← h, ← running_removeAt hi, if_pos ⟨hrunning, rfl⟩]
  exact Nat.le_add_left _ _

/-- What the calls leave behind when the system answers them. -/
def Kept (t : Table) (result : ServiceTable × List Call) : Prop :=
  Throughout Call.Proper t result.2 ∧ result.1.Owns (applyAll t result.2)

theorem not_runs {s : ServiceProcess} (h : s.state ≠ .running) (pid : ℤ) : ¬runs pid s :=
  fun hruns ↦ h hruns.1

/-- A service that is not running before nor after is changed. -/
theorem Owns.modifyAt (h : mgr.Owns t) {i : ℕ} (hi : i < mgr.count)
    {f : ServiceProcess → ServiceProcess} (hold : (mgr.slot i).state ≠ .running)
    (hnew : (f (mgr.slot i)).state ≠ .running) : Owns (SlotArray.modifyAt mgr i f) t := by
  intro pid
  have hcount := running_modifyAt hi f pid
  rw [if_neg (not_runs hold pid), if_neg (not_runs hnew pid)] at hcount
  exact hcount.trans (h pid)

theorem Owns.register (h : mgr.Owns t) (name executable : Bytes) (args : Option Bytes) :
    (mgr.register name executable args).2.Owns t :=
  fun pid ↦ (running_register mgr name executable args pid).trans (h pid)

theorem Owns.setEnabled (h : mgr.Owns t) (enabled : Bool) (name : Bytes) :
    (mgr.setEnabled enabled name).2.Owns t := by
  unfold ServiceTable.setEnabled
  split
  case h_1 i hfind =>
      intro pid
      have hcount := running_modifyAt (SlotArray.lt_count_of_find hfind)
        (fun s ↦ { s with enabled := enabled }) pid
      exact (Nat.add_right_cancel hcount).trans (h pid)
  case h_2 => exact h

theorem Owns.unregister (h : mgr.Owns t) (name : Bytes) : Kept t (mgr.unregister name).2 := by
  unfold ServiceTable.unregister
  split
  case h_1 i hfind =>
      have hi := SlotArray.lt_count_of_find hfind
      dsimp only
      split_ifs with hrunning
      · have hstarted := h.started hi hrunning
        refine ⟨⟨hstarted, trivial⟩, fun pid ↦ ?_⟩
        have hcount := running_removeAt hi pid
        have hkill := @unsignalled_kill _ pid _ hstarted
        have hruns : runs pid (mgr.slot i) ↔ (mgr.slot i).pid = pid := and_iff_right hrunning
        simp only [hruns] at hcount
        rw [h pid, ← hkill] at hcount
        exact Nat.add_right_cancel hcount
      · refine ⟨trivial, fun pid ↦ ?_⟩
        have hcount := running_removeAt hi pid
        rw [if_neg (not_runs hrunning pid)] at hcount
        exact hcount.trans (h pid)
  case h_2 => exact ⟨trivial, h⟩

theorem Owns.start (h : mgr.Owns t) (name : Bytes) (fork : ℤ) (now : UInt64)
    (hfork : Throughout Call.Fresh t (mgr.start name fork now).2.2) :
    Kept t (mgr.start name fork now).2 := by
  revert hfork
  unfold ServiceTable.start
  split
  case h_1 i hfind =>
      have hi := SlotArray.lt_count_of_find hfind
      split_ifs with hrunning hfailed
      · exact fun _ ↦ ⟨trivial, h⟩
      · refine fun _ ↦ ⟨⟨trivial, trivial⟩, ?_⟩
        rw [applyAll_cons, applyAll_nil, apply_fork_failed hfailed]
        exact h.modifyAt hi hrunning (fun heq ↦ ServiceState.noConfusion heq)
      · rintro ⟨⟨hzero, hnone⟩, -⟩
        refine ⟨⟨trivial, trivial⟩, fun pid ↦ ?_⟩
        have hcount := running_modifyAt hi
          (fun s ↦ { s with pid := fork, state := .running, startedAt := now }) pid
        have hpos : 0 < fork := lt_of_le_of_ne (not_lt.mp hfailed) (Ne.symm hzero)
        rw [if_neg (not_runs hrunning pid)] at hcount
        rw [applyAll_cons, applyAll_nil, unsignalled_fork hpos hnone, ← h pid]
        refine hcount.trans (congrArg _ (if_congr ?_ rfl rfl))
        exact and_iff_right rfl
  case h_2 => exact fun _ ↦ ⟨trivial, h⟩

theorem Owns.stop (h : mgr.Owns t) (name : Bytes) (exit : Option UInt8) (now : UInt64) :
    Kept t (mgr.stop name exit now).2 := by
  unfold ServiceTable.stop
  split
  case h_1 i hfind =>
      have hi := SlotArray.lt_count_of_find hfind
      split_ifs with hstopped
      · exact ⟨trivial, h⟩
      · have hrunning : (mgr.slot i).state = .running := not_not.mp hstopped
        have hstarted := h.started hi hrunning
        have hsignalled : (Call.kill (mgr.slot i).pid).apply t (mgr.slot i).pid = some .signalled :=
          Function.update_self _ _ _
        refine ⟨⟨hstarted, hsignalled, trivial⟩, fun pid ↦ ?_⟩
        have hcount := running_modifyAt hi
          (fun s ↦ { s with
            state := .stopped
            lastExit := now
            exitCode := exit.elim (-1) fun code ↦ code.toNat
            pid := 0 }) pid
        have hkill := @unsignalled_kill _ pid _ hstarted
        have hruns : runs pid (mgr.slot i) ↔ (mgr.slot i).pid = pid := and_iff_right hrunning
        simp only [hruns] at hcount
        rw [h pid, ← hkill,
          if_neg (not_runs (fun heq ↦ ServiceState.noConfusion heq) pid)] at hcount
        rw [applyAll_cons, applyAll_cons, applyAll_nil, unsignalled_waitpid hsignalled]
        exact Nat.add_right_cancel hcount
  case h_2 => exact ⟨trivial, h⟩

theorem Owns.restart (h : mgr.Owns t) (name : Bytes) (exit : Option UInt8) (fork : ℤ)
    (now : UInt64) (hfork : Throughout Call.Fresh t (mgr.restart name exit fork now).2.2) :
    Kept t (mgr.restart name exit fork now).2 := by
  obtain ⟨hproper, howns⟩ := h.stop name exit now
  obtain ⟨-, hmore⟩ := throughout_append.mp hfork
  obtain ⟨hproper', howns'⟩ := howns.start name fork now hmore
  refine ⟨throughout_append.mpr ⟨hproper, hproper'⟩, ?_⟩
  change Owns _ (applyAll t (_ ++ _))
  rw [applyAll_append]
  exact howns'

theorem Owns.free (h : mgr.Owns t) : Kept t mgr.free := by
  obtain ⟨hproper, hnone⟩ := throughout_kill h
  exact ⟨hproper, fun pid ↦ (hnone pid).symm⟩

/-! ## No process is left to be waited for -/

theorem start_allWaited (h : AllWaited t) (mgr : ServiceTable) (name : Bytes) (fork : ℤ)
    (now : UInt64) : AllWaited (applyAll t (mgr.start name fork now).2.2) := by
  unfold ServiceTable.start
  split
  · split_ifs
    · exact h
    · exact h.fork fork
    · exact h.fork fork
  · exact h

theorem stop_allWaited (h : AllWaited t) (mgr : ServiceTable) (name : Bytes)
    (exit : Option UInt8) (now : UInt64) :
    AllWaited (applyAll t (mgr.stop name exit now).2.2) := by
  unfold ServiceTable.stop
  split
  · split_ifs
    · exact h
    · exact h.kill_waitpid _
  · exact h

theorem restart_allWaited (h : AllWaited t) (mgr : ServiceTable) (name : Bytes)
    (exit : Option UInt8) (fork : ℤ) (now : UInt64) :
    AllWaited (applyAll t (mgr.restart name exit fork now).2.2) := by
  change AllWaited (applyAll t (_ ++ _))
  rw [applyAll_append]
  exact start_allWaited (stop_allWaited h mgr name exit now) _ _ _ _

end ServiceTable

open ServiceTable

variable {mgr : ServiceTable} {t : Table}

theorem ServiceAction.kept (h : mgr.Owns t) (action : ServiceAction)
    (hfork : Throughout Call.Fresh t (action.perform mgr).2) : Kept t (action.perform mgr) := by
  cases action with
  | register name executable args => exact ⟨trivial, h.register name executable args⟩
  | unregister name => exact h.unregister name
  | start name fork now => exact h.start name fork now hfork
  | stop name exit now => exact h.stop name exit now
  | restart name exit fork now => exact h.restart name exit fork now hfork
  | setEnabled enabled name => exact ⟨trivial, h.setEnabled enabled name⟩
  | free => exact h.free

/-- The calls that signal a process without waiting for it. -/
def ServiceAction.Forgets : ServiceAction → Prop
  | unregister _ => True
  | free => True
  | _ => False

theorem ServiceAction.allWaited (h : AllWaited t) {action : ServiceAction}
    (hwaits : ¬action.Forgets) : AllWaited (applyAll t (action.perform mgr).2) := by
  cases action with
  | register name executable args => exact h
  | unregister name => exact (hwaits trivial).elim
  | start name fork now => exact start_allWaited h mgr name fork now
  | stop name exit now => exact stop_allWaited h mgr name exit now
  | restart name exit fork now => exact restart_allWaited h mgr name exit fork now
  | setEnabled enabled name => exact h
  | free => exact (hwaits trivial).elim

theorem performAll_kept {actions : List ServiceAction} (h : mgr.Owns t)
    (hfork : Throughout Call.Fresh t (performAll mgr actions).2) :
    Kept t (performAll mgr actions) := by
  induction actions generalizing mgr t with
  | nil => exact ⟨trivial, h⟩
  | cons action rest ih =>
      obtain ⟨hfirst, hmore⟩ := throughout_append.mp hfork
      obtain ⟨hproper, howns⟩ := action.kept h hfirst
      obtain ⟨hproper', howns'⟩ := ih howns hmore
      refine ⟨throughout_append.mpr ⟨hproper, hproper'⟩, ?_⟩
      change Owns _ (applyAll t (_ ++ _))
      rw [applyAll_append]
      exact howns'

theorem performAll_allWaited {actions : List ServiceAction} (h : AllWaited t)
    (hwaits : ∀ action ∈ actions, ¬action.Forgets) :
    AllWaited (applyAll t (performAll mgr actions).2) := by
  induction actions generalizing mgr t with
  | nil => exact h
  | cons action rest ih =>
      obtain ⟨hfirst, hrest⟩ := List.forall_mem_cons.mp hwaits
      change AllWaited (applyAll t (_ ++ _))
      rw [applyAll_append]
      exact ih (action.allWaited h hfirst) hrest

/-- In every run of the manager, a signal goes only to a child that it started,
that it has not waited for and that it has not signalled before, and the
children neither signalled nor waited for, ended or not, are the processes of
the services in state running, one each.  Without `service_unregister` and
`service_manager_free` no signalled child is left that was not waited for. -/
theorem services_own_their_processes (actions : List ServiceAction)
    (hfork : Throughout Call.Fresh noChildren (performAll ServiceTable.init actions).2) :
    let (mgr, calls) := performAll ServiceTable.init actions
    Throughout Call.Proper noChildren calls ∧
      (∀ pid, mgr.running pid = unsignalled (applyAll noChildren calls) pid) ∧
      ((∀ action ∈ actions, ¬action.Forgets) → AllWaited (applyAll noChildren calls)) := by
  have hinit : ServiceTable.init.Owns noChildren := fun pid ↦ rfl
  obtain ⟨hproper, howns⟩ := performAll_kept hinit hfork
  have hnone : AllWaited noChildren := fun pid heq ↦ by cases heq
  exact ⟨hproper, howns, performAll_allWaited hnone⟩

/-- The service is restarted under the number of the process that was waited
for. -/
def restartedService : List ServiceAction :=
  [.register (ascii "web") (ascii "/bin/web") none, .start (ascii "web") 7 1,
    .restart (ascii "web") (some 0) 7 2, .start (ascii "job") 8 3, .unregister (ascii "web")]

theorem services_own_their_processes_after_restart :
    let (mgr, calls) := performAll ServiceTable.init restartedService
    Throughout Call.Proper noChildren calls ∧
      (∀ pid, mgr.running pid = unsignalled (applyAll noChildren calls) pid) ∧
      ((∀ action ∈ restartedService, ¬action.Forgets) → AllWaited (applyAll noChildren calls)) :=
  services_own_their_processes restartedService (by decide +kernel)

end DoctorClaw
