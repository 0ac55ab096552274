import DoctorClaw.Migration.Calls

/-!
# Rolling a migration back

A rollback takes away every file of the destination that is not hidden, whether
the migration has put it there or not, and brings nothing back.
-/

namespace DoctorClaw

open CString

/-- The hidden files of a directory are the ones of `dest`, and it holds regular
files only. -/
structure KeepsHidden (dest dir : Directory Bytes Node) : Prop where
  hidden : ∀ name, isHidden name = true → dir.lookup name = dest.lookup name
  regular : ∀ name node, dir.lookup name = some node → ∃ content, node = .file content

theorem KeepsHidden.put {dest dir : Directory Bytes Node} (h : KeepsHidden dest dir) {name : Bytes}
    (hname : isHidden name = false) (content : Bytes) :
    KeepsHidden dest (dir.put name (.file content)) := by
  constructor
  · intro name' hhidden
    have hne : name' ≠ name := by
      rintro rfl
      exact Bool.false_ne_true (hname ▸ hhidden)
    rw [Directory.lookup_put, if_neg hne]
    exact h.hidden name' hhidden
  · intro name' node hnode
    rw [Directory.lookup_put] at hnode
    split_ifs at hnode
    · cases hnode
      exact ⟨content, rfl⟩
    · exact h.regular name' node hnode

/-- What a step of the copying does not change. -/
structure CopyInv (mig : Migration) (dest : Directory Bytes Node) (s : Migration × Disk) :
    Prop where
  paths : s.1.SamePaths mig
  kept : ∃ dir, s.2 mig.destPath = some dir ∧ KeepsHidden dest dir

variable {env : MigrationEnv} {mig : Migration} {dest : Directory Bytes Node}

theorem Disk.write_kept {disk : Disk} {path name : Bytes} (hname : isHidden name = false)
    (h : ∃ dir, disk path = some dir ∧ KeepsHidden dest dir) (content : Bytes) :
    ∃ dir, disk.write path name content path = some dir ∧ KeepsHidden dest dir := by
  obtain ⟨dir, hdir, hkeeps⟩ := h
  refine ⟨dir.put name (.file content), ?_, hkeeps.put hname content⟩
  rw [Disk.write, Function.update_self, hdir]
  rfl

theorem Disk.create_eq_some {disk disk' : Disk} {path name : Bytes}
    (h : disk.create env path name = some disk') : disk' = disk.write path name [] := by
  unfold Disk.create at h
  split at h
  next => cases h
  next =>
    split at h
    next => cases h
    next =>
      split_ifs at h
      exact (Option.some.inj h).symm

theorem CopyInv.copyFile {s : Migration × Disk} (h : CopyInv mig dest s) (name : Bytes) :
    CopyInv mig dest (copyFile env s name) := by
  refine ⟨(copyFile_samePaths env s name).trans h.paths, ?_⟩
  unfold DoctorClaw.copyFile
  by_cases hhidden : isHidden name = true
  · rw [if_pos hhidden]
    exact h.kept
  rw [if_neg hhidden]
  split
  next => exact h.kept
  next =>
    split
    next => exact h.kept
    next disk hcreate =>
      have hname : isHidden name = false := Bool.eq_false_iff.mpr hhidden
      have hkept : ∃ dir, disk mig.destPath = some dir ∧ KeepsHidden dest dir := by
        rw [Disk.create_eq_some hcreate, h.paths.destPath]
        exact Disk.write_kept hname h.kept []
      split_ifs
      · dsimp only
        rw [h.paths.destPath]
        exact Disk.write_kept hname hkept _
      · exact hkept

theorem CopyInv.foldl {s : Migration × Disk} (h : CopyInv mig dest s) (names : List Bytes) :
    CopyInv mig dest (names.foldl (DoctorClaw.copyFile env) s) := by
  induction names generalizing s with
  | nil => exact h
  | cons name names ih => exact ih (h.copyFile name)

theorem CopyInv.migrationCopyFiles {s : Migration × Disk} (h : CopyInv mig dest s)
    (env : MigrationEnv) : CopyInv mig dest (migrationCopyFiles env s.1 s.2) := by
  unfold DoctorClaw.migrationCopyFiles
  split
  · exact h
  · exact h.foldl _

theorem migrationExecute_kept (env : MigrationEnv) {mgr : MigrationManager} {name : Bytes} {i : ℕ}
    {disk : Disk} (hfound : mgr.toExecute name = some (mig, i)) (hcopies : mig.importsJson = false)
    (hdest : disk mig.destPath = some dest) (hkeeps : KeepsHidden dest dest) :
    ∃ mig', (migrationExecute env mgr name disk).manager = mgr.set i mig' ∧
      CopyInv mig dest (mig', (migrationExecute env mgr name disk).disk) := by
  have hscan : (migrationScanDirectory disk (mig.enter .scanning)).2.SamePaths mig :=
    (migrationScanDirectory_samePaths disk _).trans ⟨rfl, rfl⟩
  unfold migrationExecute
  rw [hfound]
  dsimp only
  rw [hcopies]
  simp only [Bool.false_eq_true, if_false]
  split_ifs
  · exact ⟨_, rfl, hscan, dest, hdest, hkeeps⟩
  · have hscanned : CopyInv mig dest
        ((migrationScanDirectory disk (mig.enter .scanning)).2.enter .migrating, disk) :=
      ⟨hscan.enter .migrating, dest, hdest, hkeeps⟩
    obtain ⟨hpaths, hkept⟩ := hscanned.migrationCopyFiles env
    exact ⟨_, rfl, hpaths.enter .completed, hkept⟩

/-! ### Removing what is not hidden -/

theorem Disk.remove_regular {dir : Directory Bytes Node} {disk : Disk} {path : Bytes}
    (hdir : disk path = some dir) (hkeeps : KeepsHidden dest dir) {name : Bytes}
    (hname : isHidden name = false) :
    ∃ dir', disk.remove path name path = some dir' ∧ KeepsHidden dest dir' ∧
      ∀ name', dir'.lookup name' = if name' = name then none else dir.lookup name' := by
  have hlookup : disk.lookup path name = dir.lookup name := by
    rw [Disk.lookup, hdir]
    rfl
  cases hnode : dir.lookup name with
  | none =>
      refine ⟨dir, ?_, hkeeps, fun name' ↦ ?_⟩
      · rw [Disk.remove, hlookup, hnode]
        exact hdir
      · split_ifs with heq
        · rw [heq, hnode]
        · rfl
  | some node =>
      obtain ⟨content, rfl⟩ := hkeeps.regular name node hnode
      refine ⟨dir.remove name, ?_, ⟨fun name' hhidden ↦ ?_, fun name' node hnode' ↦ ?_⟩,
        dir.lookup_remove name⟩
      · rw [Disk.remove, hlookup, hnode]
        dsimp only
        rw [Function.update_self, hdir]
        rfl
      · have hne : name' ≠ name := by
          rintro rfl
          exact Bool.false_ne_true (hname ▸ hhidden)
        rw [Directory.lookup_remove, if_neg hne]
        exact hkeeps.hidden name' hhidden
      · rw [Directory.lookup_remove] at hnode'
        split_ifs at hnode'
        exact hkeeps.regular name' node hnode'

theorem remove_names {dir : Directory Bytes Node} {disk : Disk} {path : Bytes}
    (hdir : disk path = some dir) (hkeeps : KeepsHidden dest dir) (names : List Bytes) :
    ∃ dir', (names.foldl (fun disk name ↦
        if isHidden name then disk else disk.remove path name) disk) path = some dir' ∧
      ∀ name, dir'.lookup name =
        if name ∈ names ∧ isHidden name = false then none else dir.lookup name := by
  induction names generalizing disk dir with
  | nil => exact ⟨dir, hdir, by simp⟩
  | cons name names ih =>
      rw [List.foldl_cons]
      by_cases hname : isHidden name = true
      · rw [if_pos hname]
        obtain ⟨dir', hdir', hlookup⟩ := ih hdir hkeeps
        refine ⟨dir', hdir', fun name' ↦ ?_⟩
        rw [hlookup]
        by_cases heq : name' = name
        · simp [heq, hname]
        · simp [heq]
      · rw [Bool.not_eq_true] at hname
        rw [hname]
        obtain ⟨dir₁, hdir₁, hkeeps₁, hlookup₁⟩ := Disk.remove_regular hdir hkeeps hname
        obtain ⟨dir', hdir', hlookup⟩ := ih hdir₁ hkeeps₁
        refine ⟨dir', hdir', fun name' ↦ ?_⟩
        rw [hlookup, hlookup₁]
        by_cases heq : name' = name
        · simp [heq, hname]
        · simp [heq]

/-- What is on disk after a migration was executed and rolled back. -/
def rolledBack (env : MigrationEnv) (mgr : MigrationManager) (name name' : Bytes) (disk : Disk) :
    Disk :=
  (migrationRollback (migrationExecute env mgr name disk).manager name'
    (migrationExecute env mgr name disk).disk).2.2

/-- A directory has the files that it had, with the same contents. -/
def SameFiles (disk disk' : Disk) (path : Bytes) : Prop :=
  ∀ name, disk'.lookup path name = disk.lookup path name

theorem rolledBack_lookup {mgr : MigrationManager} {name name' : Bytes} {i : ℕ} {disk : Disk}
    (hexecute : mgr.toExecute name = some (mig, i)) (hsource : mgr.bySource name' = some (mig, i))
    (hcopies : mig.importsJson = false) (hdest : disk mig.destPath = some dest)
    (hregular : ∀ name node, dest.lookup name = some node → ∃ content, node = .file content)
    (file : Bytes) :
    (rolledBack env mgr name name' disk).lookup mig.destPath file =
      if isHidden file = true then dest.lookup file else none := by
  obtain ⟨mig', hmgr, hinv⟩ :=
    migrationExecute_kept env hexecute hcopies hdest ⟨fun _ _ ↦ rfl, hregular⟩
  have hfind : MigrationManager.bySource (mgr.set i mig') name' = some (mig', i) :=
    MigrationManager.locate_set hsource (by rw [hinv.paths.sourcePath])
  have hpath : mig'.destPath = mig.destPath := hinv.paths.destPath
  obtain ⟨dir, hdir, hkeeps⟩ : ∃ dir, (migrationExecute env mgr name disk).disk mig.destPath =
      some dir ∧ KeepsHidden dest dir := hinv.kept
  obtain ⟨dir', hdir', hlookup⟩ := remove_names hdir hkeeps dir.names
  have hafter : (rolledBack env mgr name name' disk).lookup mig.destPath file =
      dir'.lookup file := by
    rw [rolledBack, migrationRollback, hmgr, hfind]
    dsimp only
    rw [hpath, hdir, Disk.lookup]
    dsimp only
    rw [hdir']
    rfl
  rw [hafter, hlookup]
  by_cases hhidden : isHidden file = true
  · simp [hhidden, hkeeps.hidden file hhidden]
  · rw [if_neg hhidden]
    split_ifs with hmem
    · rfl
    · rw [Directory.lookup_eq_none_iff]
      exact fun h ↦ hmem ⟨h, Bool.eq_false_iff.mpr hhidden⟩

/-- A rollback takes away everything that is not hidden, whether the migration
has put it there or not. -/
theorem destination_restored_iff {mgr : MigrationManager} {name name' : Bytes} {i : ℕ} {disk : Disk}
    (hexecute : mgr.toExecute name = some (mig, i)) (hsource : mgr.bySource name' = some (mig, i))
    (hcopies : mig.importsJson = false) (hdest : disk mig.destPath = some dest)
    (hregular : ∀ name node, dest.lookup name = some node → ∃ content, node = .file content) :
    SameFiles disk (rolledBack env mgr name name' disk) mig.destPath ↔
      ∀ name ∈ dest.names, isHidden name = true := by
  have hbefore : ∀ file, disk.lookup mig.destPath file = dest.lookup file := by
    intro file
    rw [Disk.lookup, hdest]
    rfl
  constructor
  · intro hsame file hfile
    by_contra hhidden
    have hgone := hsame file
    rw [rolledBack_lookup hexecute hsource hcopies hdest hregular, if_neg hhidden, hbefore] at hgone
    exact (Directory.lookup_eq_none_iff dest file).mp hgone.symm hfile
  · intro hall file
    rw [rolledBack_lookup hexecute hsource hcopies hdest hregular, hbefore]
    split_ifs with hhidden
    · rfl
    · exact ((Directory.lookup_eq_none_iff dest file).mpr fun hfile ↦
        hhidden (hall file hfile)).symm

/-- A migration of one directory into another. -/
def copyMigration : Migration where
  source := .llamacpp
  state := .pending
  sourcePath := ascii "/old"
  destPath := ascii "/new"
  itemsScanned := 0
  itemsMigrated := 0
  itemsFailed := 0
  error := []

/-- Everything can be opened. -/
def openEnv : MigrationEnv where
  opensRead _ _ := true
  opensWrite _ _ := true
  readFile _ := none
  mallocs := true
  initsMemory _ := true
  stores _ := true
  time _ := 0

def directoryOf (name : String) (content : String) : Directory Bytes Node :=
  Directory.empty.put (ascii name) (.file (ascii content))

/-- One file to be copied, and one file in the directory it is copied to. -/
def oneFileEach (kept : String) : Disk := fun path ↦
  if path = ascii "/old" then some (directoryOf "model.bin" "weights")
  else if path = ascii "/new" then some (directoryOf kept "notes")
  else none

example :
    (migrationExecute openEnv [copyMigration] (ascii "/old") (oneFileEach ".keep")).disk.lookup
      (ascii "/new") (ascii "model.bin") = some (.file (ascii "weights")) := by decide

theorem hiddenFile_restored :
    SameFiles (oneFileEach ".keep")
        (rolledBack openEnv [copyMigration] (ascii "/old") (ascii "/old") (oneFileEach ".keep"))
        (ascii "/new") ↔
      ∀ name ∈ (directoryOf ".keep" "notes").names, isHidden name = true := by
  have hregular : ∀ name node, (directoryOf ".keep" "notes").lookup name = some node →
      ∃ content, node = .file content := by
    intro name node hnode
    rw [directoryOf, Directory.lookup_put] at hnode
    split_ifs at hnode
    · exact ⟨_, (Option.some.inj hnode).symm⟩
    · cases hnode
  exact @destination_restored_iff openEnv copyMigration (directoryOf ".keep" "notes")
    [copyMigration] (ascii "/old") (ascii "/old") 0 (oneFileEach ".keep") rfl rfl rfl rfl hregular

theorem keepFile_not_restored :
    ¬ SameFiles (oneFileEach "keep.txt")
      (rolledBack openEnv [copyMigration] (ascii "/old") (ascii "/old") (oneFileEach "keep.txt"))
      (ascii "/new") := fun h ↦
  absurd (h (ascii "keep.txt")) (by decide)

end DoctorClaw
