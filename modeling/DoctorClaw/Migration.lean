import DoctorClaw.Lib.Directory
import DoctorClaw.Migration.KeyValues
import Mathlib.Logic.Function.Basic

/-!
# Migrations

A migration imports a JSON export into the memory, or copies the files of one
directory into another; rolling it back removes files from the latter.  Entries
whose name begins with a dot are passed over.
-/

namespace DoctorClaw

open CString Json

def migrationPathSize : ℕ := 512

def migrationMax : ℕ := 16

inductive MigrationSource
  | claude
  | openai
  | ollama
  | llamacpp
  | generic
  | none
  deriving DecidableEq

inductive MigrationState
  | pending
  | scanning
  | migrating
  | completed
  | failed
  deriving DecidableEq

/-- `migration_t`. -/
structure Migration where
  source : MigrationSource
  state : MigrationState
  sourcePath : Bytes
  destPath : Bytes
  itemsScanned : ℕ
  itemsMigrated : ℕ
  itemsFailed : ℕ
  error : Bytes

abbrev MigrationManager := List Migration

def migrationAdd (mgr : MigrationManager) (source : MigrationSource) (sourcePath destPath : Bytes) :
    ℤ × MigrationManager :=
  if migrationMax ≤ mgr.length then (-1, mgr)
  else
    (0, mgr ++ [{ source := source
                  state := .pending
                  sourcePath := cut migrationPathSize sourcePath
                  destPath := cut migrationPathSize destPath
                  itemsScanned := 0
                  itemsMigrated := 0
                  itemsFailed := 0
                  error := [] }])

/-! ## Files -/

inductive Node
  | file (content : Bytes)
  | subdirectory (isEmpty : Bool)
  deriving DecidableEq

/-- The directories by their paths. -/
abbrev Disk := Bytes → Option (Directory Bytes Node)

/-- What is decided outside the program: which files can be opened in a
directory, and everything that the import of an export depends on. -/
structure MigrationEnv where
  opensRead : Bytes → Bytes → Bool
  opensWrite : Bytes → Bytes → Bool
  /-- The content of a file, if it can be opened. -/
  readFile : Bytes → Option Bytes
  mallocs : Bool
  initsMemory : Bytes → Bool
  /-- Whether `memory_store` returns 0 the `n`th time it is called. -/
  stores : ℕ → Bool
  time : ℕ → UInt64

def Disk.lookup (disk : Disk) (path name : Bytes) : Option Node :=
  (disk path).bind fun dir ↦ dir.lookup name

/-- The regular file of a directory. -/
def Disk.file (disk : Disk) (path name : Bytes) : Option Bytes :=
  match disk.lookup path name with
  | some (.file content) => some content
  | _ => none

def Disk.write (disk : Disk) (path name content : Bytes) : Disk :=
  Function.update disk path ((disk path).map fun dir ↦ dir.put name (.file content))

/-- `fopen` for writing: the file is created, or it loses its content. -/
def Disk.create (env : MigrationEnv) (disk : Disk) (path name : Bytes) : Option Disk :=
  match disk path with
  | none => none
  | some dir =>
      match dir.lookup name with
      | some (.subdirectory _) => none
      | _ => if env.opensWrite path name then some (disk.write path name []) else none

def Disk.remove (disk : Disk) (path name : Bytes) : Disk :=
  match disk.lookup path name with
  | none | some (.subdirectory false) => disk
  | _ => Function.update disk path ((disk path).map fun dir ↦ dir.remove name)

def isHidden (name : Bytes) : Bool := name.head? == some 46

/-! ## Importing an export -/

structure MigrationItem where
  key : Bytes
  value : Bytes
  timestamp : UInt64
  deriving DecidableEq

def Migration.fail (mig : Migration) (error : Bytes) : Migration :=
  { mig with error := error, state := .failed }

def Migration.count (mig : Migration) (stored : Bool) : Migration :=
  let mig := { mig with itemsScanned := mig.itemsScanned + 1 }
  if stored then { mig with itemsMigrated := mig.itemsMigrated + 1 }
  else { mig with itemsFailed := mig.itemsFailed + 1 }

/-- The state of the import: the migration, and the items handed to
`memory_store` with whether it took them. -/
def importLoop (env : MigrationEnv) (p : Bytes) (mig : Migration)
    (items : List (MigrationItem × Bool)) : Migration × List (MigrationItem × Bool) :=
  match _ : parseOneKv p migrationKeyLen migrationValueLen with
  | none => (mig, items)
  | some ((key, value), p) =>
      let item :=
        { key := cut migrationKeyLen key
          value := cut migrationValueLen value
          timestamp := env.time items.length }
      let stored := env.stores items.length
      importLoop env p (mig.count stored) (items ++ [(item, stored)])
termination_by p.length
decreasing_by exact length_parseOneKv_lt ‹_›

/-- What is returned, the migration, and the items handed to `memory_store`. -/
def migrationImportGenericJson (env : MigrationEnv) (mig : Migration) :
    ℤ × Migration × List (MigrationItem × Bool) :=
  match env.readFile mig.sourcePath with
  | none => (-1, mig.fail (ascii "Cannot open JSON file"), [])
  | some content =>
      if content.length = 0 ∨ 1024 * 1024 < content.length then
        (-1, mig.fail (ascii "Invalid file size"), [])
      else if ¬ env.mallocs then (-1, mig, [])
      else if ¬ env.initsMemory (cut migrationPathSize (mig.destPath ++ ascii "/memory.db")) then
        (-1, mig.fail (ascii "Memory init failed"), [])
      else (0, importLoop env (ofBuffer content) mig [])

/-! ## Copying a directory -/

def migrationScanDirectory (disk : Disk) (mig : Migration) : ℤ × Migration :=
  match disk mig.sourcePath with
  | none => (-1, mig.fail (ascii "Cannot open source directory"))
  | some dir =>
      (0, dir.names.foldl (fun mig name ↦
        if isHidden name then mig else { mig with itemsScanned := mig.itemsScanned + 1 }) mig)

/-- The body of the loop over the source directory. -/
def copyFile (env : MigrationEnv) (s : Migration × Disk) (name : Bytes) : Migration × Disk :=
  if isHidden name then s
  else
    match s.2.file s.1.sourcePath name with
    | none => s
    | some _ =>
        match s.2.create env s.1.destPath name with
        | none => s
        | some disk =>
            if env.opensRead s.1.sourcePath name then
              -- the source may be the file that was just emptied
              ({ s.1 with itemsMigrated := s.1.itemsMigrated + 1 },
                disk.write s.1.destPath name ((disk.file s.1.sourcePath name).getD []))
            else (s.1, disk)

def migrationCopyFiles (env : MigrationEnv) (mig : Migration) (disk : Disk) : Migration × Disk :=
  match disk mig.sourcePath with
  | none => (mig, disk)
  | some dir => dir.names.foldl (copyFile env) (mig, disk)

/-! ## Migrating and rolling back -/

/-- The first migration with a property, and its place. -/
def MigrationManager.locate (mgr : MigrationManager) (p : Migration → Bool) :
    Option (Migration × ℕ) :=
  (mgr.findIdx? p).bind fun i ↦ mgr[i]?.map fun mig ↦ (mig, i)

/-- The migration that `migration_execute` finds. -/
def MigrationManager.toExecute (mgr : MigrationManager) (name : Bytes) : Option (Migration × ℕ) :=
  mgr.locate fun mig ↦ name <+: mig.sourcePath || name <+: mig.destPath

/-- The migration that `migration_status` and `migration_rollback` find. -/
def MigrationManager.bySource (mgr : MigrationManager) (name : Bytes) : Option (Migration × ℕ) :=
  mgr.locate fun mig ↦ name <+: mig.sourcePath

def Migration.importsJson (mig : Migration) : Bool :=
  (mig.source = .generic || mig.source = .ollama || mig.source = .claude || mig.source = .openai) &&
    decide (ascii ".json" <:+ mig.sourcePath)

structure MigrationResult where
  code : ℤ
  manager : MigrationManager
  disk : Disk
  items : List (MigrationItem × Bool)

def Migration.enter (mig : Migration) (state : MigrationState) : Migration :=
  { mig with state := state }

/-- The migration when an import begins. -/
def Migration.started (mig : Migration) : Migration :=
  { mig with state := .migrating, itemsScanned := 0, itemsMigrated := 0, itemsFailed := 0 }

def migrationExecute (env : MigrationEnv) (mgr : MigrationManager) (name : Bytes) (disk : Disk) :
    MigrationResult :=
  match mgr.toExecute name with
  | none => ⟨-1, mgr, disk, []⟩
  | some (mig, i) =>
      if mig.importsJson then
        let (code, mig, items) := migrationImportGenericJson env mig.started
        if code ≠ 0 then ⟨-1, mgr.set i mig, disk, items⟩
        else ⟨0, mgr.set i (mig.enter .completed), disk, items⟩
      else
        let (code, mig) := migrationScanDirectory disk (mig.enter .scanning)
        if code ≠ 0 then ⟨-1, mgr.set i mig, disk, []⟩
        else
          let (mig, disk) := migrationCopyFiles env (mig.enter .migrating) disk
          ⟨0, mgr.set i (mig.enter .completed), disk, []⟩

def migrationStatus (mgr : MigrationManager) (name : Bytes) : Option Migration :=
  (mgr.bySource name).map Prod.fst

def migrationRollback (mgr : MigrationManager) (name : Bytes) (disk : Disk) :
    ℤ × MigrationManager × Disk :=
  match mgr.bySource name with
  | none => (-1, mgr, disk)
  | some (mig, i) =>
      match disk mig.destPath with
      | none => (-1, mgr, disk)
      | some dir =>
          (0, mgr.set i { mig with state := .pending, itemsMigrated := 0 },
            dir.names.foldl (fun disk name ↦
              if isHidden name then disk else disk.remove mig.destPath name) disk)

/-! ## Finding a migration -/

theorem MigrationManager.locate_eq_some {mgr : MigrationManager} {p : Migration → Bool}
    {mig : Migration} {i : ℕ} (h : mgr.locate p = some (mig, i)) :
    mgr.findIdx? p = some i ∧ mgr[i]? = some mig ∧ p mig = true := by
  obtain ⟨j, hfind, h⟩ := Option.bind_eq_some_iff.mp h
  obtain ⟨mig', hget, heq⟩ := Option.map_eq_some_iff.mp h
  cases heq
  obtain ⟨hlt, hp, -⟩ := List.findIdx?_eq_some_iff_getElem.mp hfind
  obtain ⟨_, hmig⟩ := List.getElem?_eq_some_iff.mp hget
  exact ⟨hfind, hget, hmig ▸ hp⟩

/-- A migration is found again after it has changed in something else. -/
theorem MigrationManager.locate_set {mgr : MigrationManager} {p : Migration → Bool}
    {mig mig' : Migration} {i : ℕ} (h : mgr.locate p = some (mig, i)) (hp : p mig' = p mig) :
    MigrationManager.locate (mgr.set i mig') p = some (mig', i) := by
  obtain ⟨hfind, hget, -⟩ := locate_eq_some h
  obtain ⟨hlt, hmig⟩ := List.getElem?_eq_some_iff.mp hget
  have hmap : (mgr.set i mig').map p = mgr.map p := by
    have hlt' : i < (mgr.map p).length := by rwa [List.length_map]
    have hself : p mig' = (mgr.map p)[i] := by rw [hp, List.getElem_map, hmig]
    rw [List.map_set, hself, List.set_getElem_self]
  have hfind' : (mgr.set i mig').findIdx? p = some i := by
    have hsame := congrArg (List.findIdx? id) hmap
    rw [List.findIdx?_map, List.findIdx?_map] at hsame
    exact hsame.trans hfind
  rw [locate, hfind', Option.bind_some, List.getElem?_set_self hlt]
  rfl

end DoctorClaw
