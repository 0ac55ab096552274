import DoctorClaw.Migration
import Mathlib.Data.List.Induction

/-!
# Managers

What a manager is after any sequence of calls: its 16 places are enough, the
paths of its migrations fit their buffers, and no call changes a path.
-/

namespace DoctorClaw

open CString

variable {mgr : MigrationManager} {mig mig' : Migration}

/-! ## No call changes a path -/

structure Migration.SamePaths (mig' mig : Migration) : Prop where
  sourcePath : mig'.sourcePath = mig.sourcePath
  destPath : mig'.destPath = mig.destPath

theorem Migration.SamePaths.refl (mig : Migration) : mig.SamePaths mig := ⟨rfl, rfl⟩

theorem Migration.SamePaths.trans {a b c : Migration} (hab : a.SamePaths b) (hbc : b.SamePaths c) :
    a.SamePaths c :=
  ⟨hab.sourcePath.trans hbc.sourcePath, hab.destPath.trans hbc.destPath⟩

theorem Migration.SamePaths.enter (h : mig'.SamePaths mig) (state : MigrationState) :
    (mig'.enter state).SamePaths mig :=
  ⟨h.sourcePath, h.destPath⟩

theorem importLoop_samePaths (env : MigrationEnv) (p : Bytes) (mig : Migration)
    (items : List (MigrationItem × Bool)) : (importLoop env p mig items).1.SamePaths mig := by
  fun_induction importLoop env p mig items with
  | case1 p mig items h => exact .refl mig
  | case2 p mig items key value p' h item stored ih =>
      refine ih.trans ?_
      unfold Migration.count
      split
      · exact ⟨rfl, rfl⟩
      · exact ⟨rfl, rfl⟩

theorem migrationImportGenericJson_samePaths (env : MigrationEnv) (mig : Migration) :
    (migrationImportGenericJson env mig).2.1.SamePaths mig := by
  unfold migrationImportGenericJson
  split
  · exact ⟨rfl, rfl⟩
  · split_ifs
    · exact ⟨rfl, rfl⟩
    · exact importLoop_samePaths _ _ _ _
    · exact ⟨rfl, rfl⟩
    · exact .refl mig

theorem migrationScanDirectory_samePaths (disk : Disk) (mig : Migration) :
    (migrationScanDirectory disk mig).2.SamePaths mig := by
  unfold migrationScanDirectory
  split
  · exact ⟨rfl, rfl⟩
  next dir hopen =>
    clear hopen
    dsimp only
    induction dir.names generalizing mig with
    | nil => exact .refl mig
    | cons name names ih =>
        rw [List.foldl_cons]
        split_ifs
        · exact ih mig
        · exact (ih { mig with itemsScanned := mig.itemsScanned + 1 }).trans ⟨rfl, rfl⟩

theorem copyFile_samePaths (env : MigrationEnv) (s : Migration × Disk) (name : Bytes) :
    (copyFile env s name).1.SamePaths s.1 := by
  unfold copyFile
  by_cases hhidden : isHidden name = true
  · rw [if_pos hhidden]
    exact .refl s.1
  rw [if_neg hhidden]
  split
  · exact .refl s.1
  · split
    · exact .refl s.1
    · split_ifs
      · exact ⟨rfl, rfl⟩
      · exact .refl s.1

theorem migrationCopyFiles_samePaths (env : MigrationEnv) (mig : Migration) (disk : Disk) :
    (migrationCopyFiles env mig disk).1.SamePaths mig := by
  unfold migrationCopyFiles
  split
  · exact .refl mig
  next dir hopen =>
    clear hopen
    suffices h : ∀ s : Migration × Disk, (dir.names.foldl (copyFile env) s).1.SamePaths s.1 from
      h (mig, disk)
    induction dir.names with
    | nil => exact fun s ↦ .refl s.1
    | cons name names ih => exact fun s ↦ (ih _).trans (copyFile_samePaths env s name)

/-- The manager after a call that changes one migration and keeps its paths. -/
def MigrationManager.Revises (mgr mgr' : MigrationManager) : Prop :=
  mgr' = mgr ∨ ∃ i mig mig', mgr[i]? = some mig ∧ mig'.SamePaths mig ∧ mgr' = mgr.set i mig'

theorem migrationExecute_revises (env : MigrationEnv) (mgr : MigrationManager) (name : Bytes)
    (disk : Disk) : mgr.Revises (migrationExecute env mgr name disk).manager := by
  unfold migrationExecute
  split
  · exact .inl rfl
  next mig i hfound =>
    have hget := (MigrationManager.locate_eq_some hfound).2.1
    have himport : (migrationImportGenericJson env mig.started).2.1.SamePaths mig :=
      (migrationImportGenericJson_samePaths env mig.started).trans ⟨rfl, rfl⟩
    have hscan : (migrationScanDirectory disk (mig.enter .scanning)).2.SamePaths mig :=
      (migrationScanDirectory_samePaths disk _).trans ⟨rfl, rfl⟩
    have hset : ∀ mig', mig'.SamePaths mig → mgr.Revises (mgr.set i mig') :=
      fun mig' hpaths ↦ .inr ⟨i, mig, mig', hget, hpaths, rfl⟩
    dsimp only
    split_ifs
    · exact hset _ himport
    · exact hset _ (himport.enter .completed)
    · exact hset _ hscan
    · have hcopy := migrationCopyFiles_samePaths env
        ((migrationScanDirectory disk (mig.enter .scanning)).2.enter .migrating) disk
      apply hset
      exact (hcopy.trans (hscan.enter .migrating)).enter .completed

theorem migrationRollback_revises (mgr : MigrationManager) (name : Bytes) (disk : Disk) :
    mgr.Revises (migrationRollback mgr name disk).2.1 := by
  unfold migrationRollback
  split
  · exact .inl rfl
  next mig i hfound =>
    have hget := (MigrationManager.locate_eq_some hfound).2.1
    split
    · exact .inl rfl
    · exact .inr ⟨i, mig, { mig with state := .pending, itemsMigrated := 0 }, hget, ⟨rfl, rfl⟩, rfl⟩

/-! ## Managers that are built by calls -/

inductive MigrationCall
  | add (source : MigrationSource) (sourcePath destPath : Bytes)
  | execute (env : MigrationEnv) (name : Bytes) (disk : Disk)
  | rollback (name : Bytes) (disk : Disk)

def MigrationCall.perform (mgr : MigrationManager) : MigrationCall → MigrationManager
  | add source sourcePath destPath => (migrationAdd mgr source sourcePath destPath).2
  | execute env name disk => (migrationExecute env mgr name disk).manager
  | rollback name disk => (migrationRollback mgr name disk).2.1

def managerAfter (calls : List MigrationCall) : MigrationManager :=
  calls.foldl MigrationCall.perform []

structure MigrationManager.Built (mgr : MigrationManager) : Prop where
  length : mgr.length ≤ migrationMax
  sourcePath : ∀ mig ∈ mgr, mig.sourcePath.length < migrationPathSize
  destPath : ∀ mig ∈ mgr, mig.destPath.length < migrationPathSize

theorem MigrationManager.Built.revises {mgr' : MigrationManager} (h : mgr.Built)
    (hrevises : mgr.Revises mgr') : mgr'.Built := by
  obtain rfl | ⟨i, mig, mig', hget, hpaths, rfl⟩ := hrevises
  · exact h
  have hmem := List.mem_of_getElem? hget
  refine ⟨?_, fun m hm ↦ ?_, fun m hm ↦ ?_⟩
  · rw [List.length_set]
    exact h.length
  · obtain hm | rfl := List.mem_or_eq_of_mem_set hm
    · exact h.sourcePath m hm
    · rw [hpaths.sourcePath]
      exact h.sourcePath mig hmem
  · obtain hm | rfl := List.mem_or_eq_of_mem_set hm
    · exact h.destPath m hm
    · rw [hpaths.destPath]
      exact h.destPath mig hmem

theorem MigrationManager.Built.add (h : mgr.Built) (source : MigrationSource)
    (sourcePath destPath : Bytes) :
    MigrationManager.Built (migrationAdd mgr source sourcePath destPath).2 := by
  unfold migrationAdd
  split_ifs with hfull
  · exact h
  have hcut : ∀ path, (cut migrationPathSize path).length < migrationPathSize :=
    length_cut_lt (by decide)
  refine ⟨?_, fun m hm ↦ ?_, fun m hm ↦ ?_⟩
  · rw [List.length_append, List.length_singleton]
    exact Nat.lt_of_not_le hfull
  · obtain hm | hm := List.mem_append.mp hm
    · exact h.sourcePath m hm
    · rw [List.mem_singleton.mp hm]
      exact hcut sourcePath
  · obtain hm | hm := List.mem_append.mp hm
    · exact h.destPath m hm
    · rw [List.mem_singleton.mp hm]
      exact hcut destPath

theorem built_managerAfter (calls : List MigrationCall) : (managerAfter calls).Built := by
  induction calls using List.reverseRecOn with
  | nil => exact ⟨Nat.zero_le _, by simp [managerAfter], by simp [managerAfter]⟩
  | append_singleton calls call ih =>
      have happ : managerAfter (calls ++ [call]) = call.perform (managerAfter calls) := by
        simp [managerAfter]
      rw [happ]
      cases call with
      | add source sourcePath destPath => exact ih.add source sourcePath destPath
      | execute env name disk => exact ih.revises (migrationExecute_revises env _ name disk)
      | rollback name disk => exact ih.revises (migrationRollback_revises _ name disk)

/-- The buffers that a file's path is printed to cut nothing off it. -/
theorem cut_filePath {path name : Bytes} (hpath : path.length < migrationPathSize)
    (hname : name.length ≤ 255) : cut 1024 (path ++ 47 :: name) = path ++ 47 :: name := by
  apply cut_of_lt
  rw [List.length_append, List.length_cons]
  unfold migrationPathSize at hpath
  omega

/-- After a rollback the status is pending, and nothing counts as migrated. -/
theorem migrationStatus_rollback {name : Bytes} {disk : Disk}
    (h : (migrationRollback mgr name disk).1 = 0) :
    ∃ mig, migrationStatus mgr name = some mig ∧
      migrationStatus (migrationRollback mgr name disk).2.1 name =
        some { mig with state := .pending, itemsMigrated := 0 } := by
  unfold migrationRollback at h ⊢
  split at h
  · cases h
  next mig i hfound =>
    split at h
    · cases h
    next dir hdir =>
      have hset : MigrationManager.bySource
          (mgr.set i { mig with state := .pending, itemsMigrated := 0 }) name =
            some ({ mig with state := .pending, itemsMigrated := 0 }, i) :=
        MigrationManager.locate_set hfound rfl
      refine ⟨mig, ?_, ?_⟩
      · rw [migrationStatus, hfound]
        rfl
      · rw [migrationStatus, hset]
        rfl

end DoctorClaw
