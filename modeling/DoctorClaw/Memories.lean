import DoctorClaw.Lib.UniqueKeys
import DoctorClaw.Retention
import Mathlib.Data.List.Sort

/-!
# The memory in SQLite

With the SQLite backend the functions of `memory.c` work on the rows of one
table, whose key is its primary key.  The statements are modelled by their
meaning on the rows, and each of them can fail, in which case it changes
nothing.  What SQLite leaves open is a parameter: the order of rows with equal
timestamps, and what `LENGTH` makes of texts that are not UTF-8.
-/

namespace DoctorClaw

open CString UniqueKeys

def maxMemoryKey : ℕ := 256

def maxMemoryValue : ℕ := 16384

def memoryMetadataSize : ℕ := 1024

/-- The fields of `memory_item_t` that go into the table. -/
structure SqliteItem where
  key : Bytes
  value : Bytes
  timestamp : UInt64
  metadata : Bytes
  key_lt : key.length < maxMemoryKey
  value_lt : value.length < maxMemoryValue
  metadata_lt : metadata.length < memoryMetadataSize
  deriving DecidableEq

/-- An item whose arrays the texts are printed into. -/
def SqliteItem.print (key value : Bytes) (timestamp : UInt64) (metadata : Bytes) : SqliteItem where
  key := cut maxMemoryKey key
  value := cut maxMemoryValue value
  timestamp := timestamp
  metadata := cut memoryMetadataSize metadata
  key_lt := length_cut_lt (by decide) key
  value_lt := length_cut_lt (by decide) value
  metadata_lt := length_cut_lt (by decide) metadata

def SqliteItem.row (item : SqliteItem) : MemoryRow :=
  ⟨item.key, item.value, item.timestamp.toInt64, item.metadata⟩

def MemoryRow.item (row : MemoryRow) : SqliteItem :=
  .print row.key row.value row.timestamp.toUInt64 row.metadata

@[simp] theorem SqliteItem.item_row (item : SqliteItem) : item.row.item = item := by
  obtain ⟨key, value, timestamp, metadata, hkey, hvalue, hmetadata⟩ := item
  simp only [row, MemoryRow.item, print, cut_of_lt hkey, cut_of_lt hvalue, cut_of_lt hmetadata,
    UInt64.toUInt64_toInt64]

@[simp] theorem SqliteItem.row_key (item : SqliteItem) : item.row.key = item.key := rfl

theorem SqliteItem.row_injective : Function.Injective SqliteItem.row :=
  Function.LeftInverse.injective item_row

/-- The order `timestamp DESC`. -/
def MemoryRow.Newer (row row' : MemoryRow) : Prop := row'.timestamp.toInt ≤ row.timestamp.toInt

instance : DecidableRel MemoryRow.Newer := fun _ _ ↦ inferInstanceAs (Decidable (_ ≤ _))

instance : Std.Total MemoryRow.Newer := ⟨fun _ _ ↦ le_total _ _⟩

instance : IsTrans MemoryRow MemoryRow.Newer := ⟨fun _ _ _ h h' ↦ le_trans h' h⟩

def SqliteItem.Newer (item item' : SqliteItem) : Prop := item.row.Newer item'.row

structure SqliteBase where
  orderByNewest : List MemoryRow → List MemoryRow
  perm_orderByNewest : ∀ rows, (orderByNewest rows).Perm rows
  pairwise_orderByNewest : ∀ rows, (orderByNewest rows).Pairwise MemoryRow.Newer
  textLength : Bytes → ℕ

/-! ## The functions -/

variable (base : SqliteBase) (rows : List MemoryRow)

/-- `INSERT OR REPLACE`. -/
def memoryStore (item : SqliteItem) (works : Bool) : ℤ × List MemoryRow :=
  if works then (0, replace MemoryRow.key rows item.row) else (-1, rows)

/-- The item, where 0 is returned. -/
def memoryRecall (key : Bytes) (works : Bool) : Option SqliteItem :=
  if works then (lookup MemoryRow.key rows key).map MemoryRow.item else none

def memoryDelete (key : Bytes) (works : Bool) : ℤ × List MemoryRow :=
  if works then (0, delete MemoryRow.key rows key) else (-1, rows)

/-- The result of the statement is not looked at. -/
def memoryClear (works : Bool) : ℤ × List MemoryRow := (0, if works then [] else rows)

/-- The number of items and the size of the values, each 0 where its query
fails. -/
def memoryGetStats (countWorks sizeWorks : Bool) : Int32 × UInt64 :=
  (if countWorks then Int32.ofNat rows.length else 0,
    if sizeWorks then UInt64.ofNat (rows.map fun row ↦ base.textLength row.value).sum else 0)

def memoryListLimit : ℕ := 100

/-- The items, where 0 is returned. -/
def memoryList (works : Bool) : Option (List SqliteItem) :=
  if works then some (((base.orderByNewest rows).take memoryListLimit).map MemoryRow.item) else none

/-! ## The memory as a partial function -/

abbrev Memories := Bytes → Option SqliteItem

/-- The rows are the items of a partial function. -/
structure Holds (rows : List MemoryRow) (m : Memories) : Prop where
  nodup : (rows.map MemoryRow.key).Nodup
  lookup : ∀ key, lookup MemoryRow.key rows key = (m key).map SqliteItem.row

variable {base rows} {m : Memories}

theorem holds_nil : Holds [] fun _ ↦ none := ⟨List.nodup_nil, fun _ ↦ rfl⟩

namespace Holds

theorem key_eq (h : Holds rows m) {key : Bytes} {item : SqliteItem} (hitem : m key = some item) :
    item.key = key := by
  have hrow : UniqueKeys.lookup MemoryRow.key rows key = some item.row := by
    rw [h.lookup, hitem, Option.map_some]
  exact ((lookup_eq_some_iff h.nodup).mp hrow).2

theorem mem_iff (h : Holds rows m) (row : MemoryRow) :
    row ∈ rows ↔ ∃ item, m item.key = some item ∧ item.row = row := by
  constructor
  · intro hrow
    have hlookup := (lookup_eq_some_iff h.nodup).mpr ⟨hrow, rfl⟩
    rw [h.lookup, Option.map_eq_some_iff] at hlookup
    obtain ⟨item, hitem, rfl⟩ := hlookup
    exact ⟨item, hitem, rfl⟩
  · rintro ⟨item, hitem, rfl⟩
    have hlookup : UniqueKeys.lookup MemoryRow.key rows item.key = some item.row := by
      rw [h.lookup, hitem, Option.map_some]
    exact ((lookup_eq_some_iff h.nodup).mp hlookup).1

theorem store (h : Holds rows m) (item : SqliteItem) :
    Holds (replace MemoryRow.key rows item.row) (Function.update m item.key (some item)) := by
  refine ⟨nodup_replace h.nodup _, fun key ↦ ?_⟩
  rw [lookup_replace h.nodup, SqliteItem.row_key]
  by_cases hkey : key = item.key
  · subst hkey
    simp
  · rw [Function.update_of_ne hkey, Function.update_of_ne hkey, h.lookup]

theorem filter (h : Holds rows m) (p : MemoryRow → Bool) :
    Holds (rows.filter p) fun key ↦ (m key).filter fun item ↦ p item.row := by
  refine ⟨nodup_filter h.nodup p, fun key ↦ ?_⟩
  rw [lookup_filter h.nodup, h.lookup]
  cases m key with
  | none => rfl
  | some item => simp only [Option.map_some, Option.filter_some]; split_ifs <;> rfl

theorem delete (h : Holds rows m) (key : Bytes) :
    Holds (delete MemoryRow.key rows key) (Function.update m key none) := by
  refine ⟨nodup_filter h.nodup _, fun key' ↦ ?_⟩
  rw [lookup_delete h.nodup]
  by_cases hkey : key' = key
  · subst hkey
    simp
  · rw [Function.update_of_ne hkey, Function.update_of_ne hkey, h.lookup]

theorem memoryRecall_eq (h : Holds rows m) (key : Bytes) : memoryRecall rows key true = m key := by
  rw [memoryRecall, if_pos rfl, h.lookup, Option.map_map]
  cases m key with
  | none => rfl
  | some item => exact congrArg some item.item_row

theorem ncard (h : Holds rows m) : {key | (m key).isSome}.ncard = rows.length := by
  rw [← ncard_keys h.nodup]
  congr 1
  ext key
  rw [Set.mem_ofPred_eq, Set.mem_ofPred_eq, h.lookup, Option.isSome_map]

theorem finsum (h : Holds rows m) (f : MemoryRow → ℕ) :
    ∑ᶠ key, (m key).elim 0 (fun item ↦ f item.row) = (rows.map f).sum := by
  rw [← finsum_rows h.nodup]
  congr 1
  funext key
  rw [h.lookup]
  cases m key <;> rfl

end Holds

/-- Rows that were inserted later come first, and the bytes that continue a
character are not counted. -/
def sqliteBase : SqliteBase where
  orderByNewest := List.insertionSort MemoryRow.Newer
  perm_orderByNewest := List.perm_insertionSort _
  pairwise_orderByNewest := List.pairwise_insertionSort _
  textLength s := s.countP fun c ↦ c &&& 192 ≠ 128

/-- The newest items, at most as many as are listed. -/
structure NewestOf (m : Memories) (items : List SqliteItem) : Prop where
  stored : ∀ item ∈ items, m item.key = some item
  distinct : (items.map SqliteItem.key).Nodup
  sorted : items.Pairwise SqliteItem.Newer
  length_le : items.length ≤ memoryListLimit
  rest : ∀ item, m item.key = some item → item ∉ items →
    items.length = memoryListLimit ∧ ∀ listed ∈ items, listed.Newer item

theorem Holds.newestOf (h : Holds rows m) :
    NewestOf m (((base.orderByNewest rows).take memoryListLimit).map MemoryRow.item) := by
  have hperm := base.perm_orderByNewest rows
  have hsorted := base.pairwise_orderByNewest rows
  obtain ⟨items, hitems⟩ : ∃ items : List SqliteItem,
      base.orderByNewest rows = items.map SqliteItem.row := by
    refine ⟨(base.orderByNewest rows).map MemoryRow.item, ?_⟩
    rw [List.map_map]
    conv_lhs => rw [← List.map_id (base.orderByNewest rows)]
    apply List.map_congr_left
    intro row hrow
    obtain ⟨item, -, rfl⟩ := (h.mem_iff row).mp (hperm.mem_iff.mp hrow)
    simp
  have hstored : ∀ item, item ∈ items ↔ m item.key = some item := by
    intro item
    rw [← List.mem_map_of_injective SqliteItem.row_injective, ← hitems, hperm.mem_iff, h.mem_iff]
    constructor
    · rintro ⟨item', hitem', heq⟩
      rwa [SqliteItem.row_injective heq] at hitem'
    · exact fun hitem ↦ ⟨item, hitem, rfl⟩
  have hdistinct : (items.map SqliteItem.key).Nodup := by
    have hnodup := (hperm.map MemoryRow.key).nodup_iff.mpr h.nodup
    rwa [hitems, List.map_map] at hnodup
  have hnewest : items.Pairwise SqliteItem.Newer := by
    rw [hitems, List.pairwise_map] at hsorted
    exact hsorted
  have hmap : ((base.orderByNewest rows).take memoryListLimit).map MemoryRow.item =
      items.take memoryListLimit := by
    rw [hitems, ← List.map_take, List.map_map]
    conv_rhs => rw [← List.map_id (items.take memoryListLimit)]
    exact List.map_congr_left fun item _ ↦ item.item_row
  rw [hmap]
  refine ⟨fun item hitem ↦ (hstored item).mp (List.mem_of_mem_take hitem),
    hdistinct.sublist ((List.take_sublist _ _).map _), hnewest.sublist (List.take_sublist _ _),
    List.length_take_le _ _, fun item hitem hnot ↦ ?_⟩
  rw [← List.take_append_drop memoryListLimit items] at hnewest
  have hlate : item ∈ items.drop memoryListLimit := by
    have hmem := (hstored item).mpr hitem
    rw [← List.take_append_drop memoryListLimit items] at hmem
    exact (List.mem_append.mp hmem).resolve_left hnot
  refine ⟨?_, fun listed hlisted ↦ (List.pairwise_append.mp hnewest).2.2 listed hlisted item hlate⟩
  have hlen := List.length_pos_of_mem hlate
  rw [List.length_drop] at hlen
  rw [List.length_take]
  omega

end DoctorClaw
