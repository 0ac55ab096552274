import DoctorClaw.Lib.Run
import DoctorClaw.Memories.Files

/-!
# The memory refines a partial function

Every call on the database is a step of a partial function from keys to items.
Items come back as they were stored, until they are replaced, deleted, cleared
or older than a cleaning-up allows.  Importing a file stores one item, which
has the names of the members for its key and value.
-/

namespace DoctorClaw

open CString UniqueKeys Transition

/-- The calls, with what SQLite, the clock and the files contribute. -/
inductive MemoryCall
  | store (item : SqliteItem) (works : Bool)
  | recallKey (key : Bytes) (works : Bool)
  | delete (key : Bytes) (works : Bool)
  | clear (works : Bool)
  | hygiene (maxAgeDays : Int32) (now : Int64) (hnow : 0 ≤ now.toInt) (fails : Bool)
  | stats (countWorks sizeWorks : Bool)
  | list (works : Bool)
  | exportJson (works opens : Bool)
  | importJson (file : Option Bytes) (now : ℕ → UInt64) (works : ℕ → Bool)

inductive MemoryAnswer
  | code (result : ℤ)
  | item (out : Option SqliteItem)
  | stats (totalItems : Int32) (totalSize : UInt64)
  | items (out : Option (List SqliteItem))
  | file (result : ℤ) (text : Option Bytes)

/-- One call on the rows.  There is no step where the age overflows. -/
inductive SqliteStep (base : SqliteBase) :
    List MemoryRow → MemoryCall × MemoryAnswer → List MemoryRow → Prop
  | store {rows : List MemoryRow} (item : SqliteItem) (works : Bool) :
      SqliteStep base rows (.store item works, .code (memoryStore rows item works).1)
        (memoryStore rows item works).2
  | recallKey {rows : List MemoryRow} (key : Bytes) (works : Bool) :
      SqliteStep base rows (.recallKey key works, .item (memoryRecall rows key works)) rows
  | delete {rows : List MemoryRow} (key : Bytes) (works : Bool) :
      SqliteStep base rows (.delete key works, .code (memoryDelete rows key works).1)
        (memoryDelete rows key works).2
  | clear {rows : List MemoryRow} (works : Bool) :
      SqliteStep base rows (.clear works, .code (memoryClear rows works).1)
        (memoryClear rows works).2
  | hygiene {rows rows' : List MemoryRow} {result : ℤ} (maxAgeDays : Int32) (now : Int64)
      (hnow : 0 ≤ now.toInt) (fails : Bool)
      (hrun : memoryHygieneRun true fails rows maxAgeDays now = some (result, rows')) :
      SqliteStep base rows (.hygiene maxAgeDays now hnow fails, .code result) rows'
  | stats {rows : List MemoryRow} (countWorks sizeWorks : Bool) :
      SqliteStep base rows (.stats countWorks sizeWorks,
        .stats (memoryGetStats base rows countWorks sizeWorks).1
          (memoryGetStats base rows countWorks sizeWorks).2) rows
  | list {rows : List MemoryRow} (works : Bool) :
      SqliteStep base rows (.list works, .items (memoryList base rows works)) rows
  | exportJson {rows : List MemoryRow} (works opens : Bool) :
      SqliteStep base rows (.exportJson works opens,
        .file (memoryExportJson base rows works opens).1
          (memoryExportJson base rows works opens).2) rows
  | importJson {rows : List MemoryRow} (file : Option Bytes) (now : ℕ → UInt64)
      (works : ℕ → Bool) :
      SqliteStep base rows (.importJson file now works,
        .code (memoryImportJson rows file now works).1) (memoryImportJson rows file now works).2

/-! ## The partial function -/

/-- Whether the clean-up takes an item away: when it is older than the age, and
always when the age reaches back before the epoch. -/
def SqliteItem.Outdated (maxAgeDays : Int32) (now : Int64) (item : SqliteItem) : Prop :=
  now.toInt < 86400 * maxAgeDays.toInt ∨ item.row.Expired maxAgeDays now

instance (maxAgeDays : Int32) (now : Int64) (item : SqliteItem) :
    Decidable (item.Outdated maxAgeDays now) := inferInstanceAs (Decidable (_ ∨ _))

def namedItem (timestamp : UInt64) : SqliteItem :=
  .print (ascii "key") (ascii "value") timestamp []

/-- One call on a partial function. -/
inductive MemoriesStep (base : SqliteBase) :
    Memories → MemoryCall × MemoryAnswer → Memories → Prop
  | stored {m : Memories} (item : SqliteItem) :
      MemoriesStep base m (.store item true, .code 0) (Function.update m item.key (some item))
  | notStored {m : Memories} (item : SqliteItem) :
      MemoriesStep base m (.store item false, .code (-1)) m
  | recalled {m : Memories} (key : Bytes) :
      MemoriesStep base m (.recallKey key true, .item (m key)) m
  | notRecalled {m : Memories} (key : Bytes) :
      MemoriesStep base m (.recallKey key false, .item none) m
  | deleted {m : Memories} (key : Bytes) :
      MemoriesStep base m (.delete key true, .code 0) (Function.update m key none)
  | notDeleted {m : Memories} (key : Bytes) :
      MemoriesStep base m (.delete key false, .code (-1)) m
  | cleared {m : Memories} :
      MemoriesStep base m (.clear true, .code 0) fun _ ↦ none
  | notCleared {m : Memories} :
      MemoriesStep base m (.clear false, .code 0) m
  | cleaned {m : Memories} (maxAgeDays : Int32) (now : Int64) (hnow : 0 ≤ now.toInt)
      (hpos : 0 < maxAgeDays.toInt) (hdays : maxAgeDays.toInt ≤ 24855) :
      MemoriesStep base m (.hygiene maxAgeDays now hnow false, .code 0)
        fun key ↦ (m key).filter fun item ↦ ¬ item.Outdated maxAgeDays now
  | notCleaned {m : Memories} (maxAgeDays : Int32) (now : Int64) (hnow : 0 ≤ now.toInt)
      (fails : Bool) (h : fails = true ∨ maxAgeDays.toInt ≤ 0) :
      MemoriesStep base m (.hygiene maxAgeDays now hnow fails, .code (-1)) m
  | counted {m : Memories} (countWorks sizeWorks : Bool) :
      MemoriesStep base m (.stats countWorks sizeWorks,
        .stats (if countWorks then Int32.ofNat {key | (m key).isSome}.ncard else 0)
          (if sizeWorks then
            UInt64.ofNat (∑ᶠ key, (m key).elim 0 fun item ↦ base.textLength item.value)
          else 0)) m
  | listed {m : Memories} {items : List SqliteItem} (hitems : NewestOf m items) :
      MemoriesStep base m (.list true, .items (some items)) m
  | notListed {m : Memories} :
      MemoriesStep base m (.list false, .items none) m
  | exported {m : Memories} {items : List SqliteItem} (hitems : NewestOf m items)
      (hne : items ≠ []) :
      MemoriesStep base m (.exportJson true true, .file 0 (some (exportedText items))) m
  | exportedNothing {m : Memories} (opens : Bool) (hempty : ∀ key, m key = none) :
      MemoriesStep base m (.exportJson true opens, .file 0 none) m
  | notExported {m : Memories} (works opens : Bool)
      (h : works = false ∨ opens = false ∧ ∃ key, m key ≠ none) :
      MemoriesStep base m (.exportJson works opens, .file (-1) none) m
  | imported {m m' : Memories} (file : Bytes) (now : ℕ → UInt64) (works : ℕ → Bool) (n : ℕ)
      (h : m' = m ∨ ∃ i < n, m' = Function.update m (ascii "key") (some (namedItem (now i)))) :
      MemoriesStep base m (.importJson (some file) now works, .code n) m'
  | notImported {m : Memories} (now : ℕ → UInt64) (works : ℕ → Bool) :
      MemoriesStep base m (.importJson none now works, .code (-1)) m

variable {base : SqliteBase} {rows : List MemoryRow} {m : Memories}

theorem Holds.clean (h : Holds rows m) {maxAgeDays : Int32} {now : Int64}
    (hpos : 0 < maxAgeDays.toInt) (hdays : maxAgeDays.toInt ≤ 24855) (hnow : 0 ≤ now.toInt) :
    Holds (deleteOlder (hygieneCutoff now (maxAgeDays.toInt * 86400)) rows)
      fun key ↦ (m key).filter fun item ↦ ¬ item.Outdated maxAgeDays now := by
  by_cases hepoch : 86400 * maxAgeDays.toInt ≤ now.toInt
  · rw [deleteOlder_eq hpos hdays hepoch]
    have hkept := h.filter fun row ↦ ¬ row.Expired maxAgeDays now
    simpa only [SqliteItem.Outdated, not_lt.mpr hepoch, false_or] using hkept
  · rw [deleteOlder_eq_nil hpos hdays hnow (by omega)]
    have hnone : (fun key ↦ (m key).filter fun item ↦ ¬ item.Outdated maxAgeDays now) =
        fun _ ↦ none := by
      funext key
      rw [Option.filter_eq_none_iff]
      intro item _ hkept
      exact of_decide_eq_true hkept (.inl (by omega))
    rw [hnone]
    exact holds_nil

theorem Holds.storePairs (h : Holds rows m) (now : ℕ → UInt64) (works : ℕ → Bool) (i n : ℕ) :
    ∃ m', Holds (storePairs now works i (List.replicate n (ascii "key", ascii "value")) rows) m' ∧
      (m' = m ∨ ∃ j < i + n, m' = Function.update m (ascii "key") (some (namedItem (now j)))) := by
  induction n generalizing i rows m with
  | zero => exact ⟨m, h, .inl rfl⟩
  | succ n ih =>
      rw [List.replicate_succ, DoctorClaw.storePairs]
      by_cases hworks : works i = true
      · rw [memoryStore, if_pos hworks]
        obtain ⟨m', hholds, hm'⟩ := ih (h.store (namedItem (now i))) (i + 1)
        refine ⟨m', hholds, .inr ?_⟩
        rcases hm' with rfl | ⟨j, hj, rfl⟩
        · exact ⟨i, by omega, rfl⟩
        · exact ⟨j, by omega, Function.update_idem _ _ _⟩
      · rw [memoryStore, if_neg hworks]
        obtain ⟨m', hholds, hm'⟩ := ih h (i + 1)
        refine ⟨m', hholds, hm'.imp_right ?_⟩
        rintro ⟨j, hj, rfl⟩
        exact ⟨j, by omega, rfl⟩

theorem Holds.eq_none_of_newestOf (h : Holds rows m) (hnewest : NewestOf m []) (key : Bytes) :
    m key = none := by
  rw [Option.eq_none_iff_forall_ne_some]
  intro item hitem
  have hstored : m item.key = some item := by rw [h.key_eq hitem, hitem]
  exact absurd (hnewest.rest item hstored List.not_mem_nil).1 (by decide)

theorem Holds.step {rows' : List MemoryRow} {label : MemoryCall × MemoryAnswer} (h : Holds rows m)
    (hstep : SqliteStep base rows label rows') :
    ∃ m', MemoriesStep base m label m' ∧ Holds rows' m' := by
  cases hstep with
  | store item works =>
      cases works with
      | true => exact ⟨_, .stored item, h.store item⟩
      | false => exact ⟨m, .notStored item, h⟩
  | recallKey key works =>
      cases works with
      | true =>
          rw [h.memoryRecall_eq]
          exact ⟨m, .recalled key, h⟩
      | false => exact ⟨m, .notRecalled key, h⟩
  | delete key works =>
      cases works with
      | true => exact ⟨_, .deleted key, h.delete key⟩
      | false => exact ⟨m, .notDeleted key, h⟩
  | clear works =>
      cases works with
      | true => exact ⟨_, .cleared, holds_nil⟩
      | false => exact ⟨m, .notCleared, h⟩
  | hygiene maxAgeDays now hnow fails hrun =>
      by_cases hpos : 0 < maxAgeDays.toInt
      · by_cases hdays : maxAgeDays.toInt ≤ 24855
        · cases fails with
          | true =>
              rw [memoryHygieneRun, if_neg (by omega), maxAgeSeconds_eq hpos, if_pos hdays] at hrun
              obtain ⟨rfl, rfl⟩ := Prod.mk.inj (Option.some.inj hrun)
              exact ⟨m, .notCleaned maxAgeDays now hnow true (.inl rfl), h⟩
          | false =>
              rw [memoryHygieneRun_eq hpos hdays] at hrun
              obtain ⟨rfl, rfl⟩ := Prod.mk.inj (Option.some.inj hrun)
              exact ⟨_, .cleaned maxAgeDays now hnow hpos hdays, h.clean hpos hdays hnow⟩
        · rw [memoryHygieneRun, if_neg (by omega), maxAgeSeconds_eq hpos, if_neg hdays] at hrun
          cases hrun
      · rw [memoryHygieneRun, if_pos (by omega)] at hrun
        obtain ⟨rfl, rfl⟩ := Prod.mk.inj (Option.some.inj hrun)
        exact ⟨m, .notCleaned maxAgeDays now hnow fails (.inr (by omega)), h⟩
  | stats countWorks sizeWorks =>
      refine ⟨m, ?_, h⟩
      rw [memoryGetStats, ← h.ncard, ← h.finsum fun row ↦ base.textLength row.value]
      exact .counted countWorks sizeWorks
  | list works =>
      cases works with
      | true => exact ⟨m, .listed h.newestOf, h⟩
      | false => exact ⟨m, .notListed, h⟩
  | exportJson works opens =>
      refine ⟨m, ?_, h⟩
      cases works with
      | false => exact .notExported false opens (.inl rfl)
      | true =>
          have hnewest : NewestOf m
              (((base.orderByNewest rows).take memoryListLimit).map MemoryRow.item) := h.newestOf
          rw [memoryExportJson, memoryList, if_pos rfl]
          split
          · next hlist => cases hlist
          · next hlist =>
              rw [Option.some.inj hlist] at hnewest
              exact .exportedNothing opens (h.eq_none_of_newestOf hnewest)
          · next items hne hlist =>
              rw [Option.some.inj hlist] at hnewest
              cases opens with
              | true => exact .exported hnewest hne
              | false =>
                  obtain ⟨item, hitem⟩ := List.exists_mem_of_ne_nil items hne
                  have hstored := hnewest.stored item hitem
                  exact .notExported true false (.inr ⟨rfl, item.key, by simp [hstored]⟩)
  | importJson file now works =>
      cases file with
      | none => exact ⟨m, .notImported now works, h⟩
      | some file =>
          rw [memoryImportJson]
          dsimp only
          rw [importedPairs_eq_replicate]
          obtain ⟨m', hholds, hm'⟩ := h.storePairs now works 0
            (importedPairs (importedContent file)).length
          rw [Nat.zero_add] at hm'
          rw [List.length_replicate]
          exact ⟨m', .imported file now works _ hm', hholds⟩

/-- In every run of calls on a new database the answers are those of a partial
function from keys to items, and the rows are its items. -/
theorem memory_refines_partial_function {ls : List (MemoryCall × MemoryAnswer)}
    (hrun : Run (SqliteStep base) [] ls rows) :
    ∃ m, Run (MemoriesStep base) (fun _ ↦ none) ls m ∧ Holds rows m := by
  obtain ⟨m, hm, hholds⟩ :
      ∃ m, Run (MemoriesStep base) (fun _ ↦ none) (ls.map id) m ∧ Holds rows m :=
    hrun.simulation id holds_nil fun _ _ _ _ h hstep ↦ h.step hstep
  rw [List.map_id] at hm
  exact ⟨m, hm, hholds⟩

/-- The file of one item, imported into the database that it came from. -/
theorem memory_refines_partial_function_after_import :
    let item : SqliteItem := .print (ascii "user") (ascii "Ada") 5 []
    let file := exportedText [item]
    ∃ rows m, Run (SqliteStep sqliteBase) [] [(.store item true, .code 0),
        (.importJson (some file) (fun _ ↦ 7) (fun _ ↦ true), .code 1)] rows ∧
      Run (MemoriesStep sqliteBase) (fun _ ↦ none) [(.store item true, .code 0),
        (.importJson (some file) (fun _ ↦ 7) (fun _ ↦ true), .code 1)] m ∧ Holds rows m := by
  intro item file
  have hplain : ∀ item' ∈ [item], item'.Plain := by
    intro item' hitem'
    rw [List.mem_singleton.mp hitem']
    exact ⟨by decide, by decide, by decide, by decide⟩
  have hpairs : importedPairs (importedContent file) = [(ascii "key", ascii "value")] := by
    rw [importedContent_exportedText hplain (by decide), importedPairs_exportedText hplain]
    rfl
  have hstored : SqliteStep sqliteBase [] (.store item true, .code 0) _ := .store item true
  have hrun := (Run.nil.snoc hstored).snoc (.importJson (some file) (fun _ ↦ 7) fun _ ↦ true)
  rw [memoryImportJson, hpairs] at hrun
  obtain ⟨m, hm, hholds⟩ := memory_refines_partial_function hrun
  exact ⟨_, m, hrun, hm, hholds⟩

/-! ## Exporting and importing -/

theorem replace_namedItem (h : ∀ row ∈ rows, row.key = ascii "key") (timestamp : UInt64) :
    replace MemoryRow.key rows (namedItem timestamp).row = [(namedItem timestamp).row] := by
  have hkey : (namedItem timestamp).row.key = ascii "key" := cut_of_lt (by decide)
  rw [replace, List.filter_eq_nil_iff.mpr, List.nil_append]
  intro row hrow hne
  exact of_decide_eq_true hne ((h row hrow).trans hkey.symm)

theorem storePairs_replicate (now : ℕ → UInt64) (i n : ℕ)
    (h : ∀ row ∈ rows, row.key = ascii "key") :
    storePairs now (fun _ ↦ true) i (List.replicate (n + 1) (ascii "key", ascii "value")) rows =
      [(namedItem (now (i + n))).row] := by
  induction n generalizing i rows with
  | zero => exact replace_namedItem h (now i)
  | succ n ih =>
      have hstored : (memoryStore rows (namedItem (now i)) true).2 = [(namedItem (now i)).row] :=
        replace_namedItem h (now i)
      rw [List.replicate_succ, storePairs]
      change storePairs now _ (i + 1) _ (memoryStore rows (namedItem (now i)) true).2 = _
      rw [hstored, ih (i + 1), Nat.add_right_comm, Nat.add_assoc]
      intro row hrow
      rw [List.mem_singleton.mp hrow]
      exact cut_of_lt (by decide)

/-- What was exported is not restored: importing the file into a new database
leaves one item, with the names of the members. -/
theorem exported_memories_are_not_restored (base : SqliteBase) {rows : List MemoryRow}
    (hplain : ∀ row ∈ rows, row.item.Plain)
    {text : Bytes} (hexport : memoryExportJson base rows true true = (0, some text))
    (hsize : text.length < importBufferSize) (now : ℕ → UInt64) :
    memoryImportJson [] (some text) now (fun _ ↦ true) =
      (((min memoryListLimit rows.length : ℕ) : ℤ),
        [(namedItem (now (min memoryListLimit rows.length - 1))).row]) := by
  have hlist : memoryList base rows true =
      some (((base.orderByNewest rows).take memoryListLimit).map MemoryRow.item) := rfl
  have hlength : (((base.orderByNewest rows).take memoryListLimit).map MemoryRow.item).length =
      min memoryListLimit rows.length := by
    rw [List.length_map, List.length_take, (base.perm_orderByNewest rows).length_eq]
  have hitems : ∀ item ∈ ((base.orderByNewest rows).take memoryListLimit).map MemoryRow.item,
      item.Plain := by
    intro item hitem
    obtain ⟨row, hrow, rfl⟩ := List.mem_map.mp hitem
    exact hplain row ((base.perm_orderByNewest rows).mem_iff.mp (List.mem_of_mem_take hrow))
  rw [memoryExportJson, hlist] at hexport
  generalize ((base.orderByNewest rows).take memoryListLimit).map MemoryRow.item = items at *
  cases items with
  | nil => cases hexport
  | cons item items =>
      obtain rfl : exportedText (item :: items) = text := by
        simpa using congrArg Prod.snd hexport
      rw [memoryImportJson, ← hlength]
      rw [importedContent_exportedText hitems hsize, importedPairs_exportedText hitems,
        List.length_replicate, List.length_cons,
        storePairs_replicate now 0 items.length (fun _ h ↦ absurd h List.not_mem_nil)]
      simp

def twoItems : List SqliteItem :=
  [.print (ascii "user") (ascii "Ada") 5 [], .print (ascii "city") (ascii "Rome") 6 []]

theorem exported_memories_are_not_restored_two :
    memoryImportJson [] (some (exportedText twoItems.reverse)) (fun i ↦ 7 + UInt64.ofNat i)
      (fun _ ↦ true) = (2, [(namedItem 8).row]) := by
  have hplain : ∀ row ∈ twoItems.map SqliteItem.row, row.item.Plain := by
    intro row hrow
    obtain ⟨item, hitem, rfl⟩ := List.mem_map.mp hrow
    rw [item.item_row]
    rcases List.mem_pair.mp hitem with rfl | rfl
    · exact ⟨by decide, by decide, by decide, by decide⟩
    · exact ⟨by decide, by decide, by decide, by decide⟩
  exact exported_memories_are_not_restored sqliteBase hplain (by decide +kernel)
    (by decide +kernel) _

end DoctorClaw
