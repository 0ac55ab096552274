import DoctorClaw.Migration

/-!
# Importing a JSON export

The import reports success when its parser fails, so that a member it does not
understand is lost together with all that follow it.
-/

namespace DoctorClaw

open CString Json

variable {env : MigrationEnv}

/-! ## The items of a text -/

/-- The buffers of an item cut nothing off a pair. -/
theorem cut_of_parseOneKv {s rest : Bytes} {key value : Bytes}
    (h : parseOneKv s migrationKeyLen migrationValueLen = some ((key, value), rest)) :
    cut migrationKeyLen key = key ∧ cut migrationValueLen value = value := by
  obtain ⟨s₁, -, h⟩ := Option.bind_eq_some_iff.mp h
  obtain ⟨s₂, -, h⟩ := Option.bind_eq_some_iff.mp h
  obtain ⟨s₃, -, heq⟩ := Option.map_eq_some_iff.mp h
  cases heq
  have hkey := (length_takeKey_le (migrationKeyLen - 1) s₁).1
  have hvalue := (length_takeValue_le (migrationValueLen - 1) s₃).1
  exact ⟨cut_of_lt (lt_of_le_of_lt hkey (by decide)), cut_of_lt (lt_of_le_of_lt hvalue (by decide))⟩

/-- What is handed to `memory_store`, from its `n`th call on. -/
def importedItems (env : MigrationEnv) : ℕ → List (Bytes × Bytes) → List (MigrationItem × Bool)
  | _, [] => []
  | n, (key, value) :: pairs =>
      ({ key := key, value := value, timestamp := env.time n }, env.stores n) ::
        importedItems env (n + 1) pairs

def itemPair (e : MigrationItem × Bool) : Bytes × Bytes := (e.1.key, e.1.value)

theorem map_itemPair_importedItems (env : MigrationEnv) (n : ℕ) (pairs : List (Bytes × Bytes)) :
    (importedItems env n pairs).map itemPair = pairs := by
  induction pairs generalizing n with
  | nil => rfl
  | cons pair pairs ih => exact congrArg (List.cons pair) (ih (n + 1))

/-- The migration after these items. -/
def Migration.counted (mig : Migration) (items : List (MigrationItem × Bool)) : Migration :=
  { mig with
    itemsScanned := mig.itemsScanned + items.length
    itemsMigrated := mig.itemsMigrated + items.countP fun e ↦ e.2
    itemsFailed := mig.itemsFailed + items.countP fun e ↦ !e.2 }

theorem Migration.counted_cons (mig : Migration) (e : MigrationItem × Bool)
    (items : List (MigrationItem × Bool)) :
    (mig.count e.2).counted items = mig.counted (e :: items) := by
  obtain ⟨item, stored⟩ := e
  cases stored with
  | false => simp [count, counted, Nat.add_assoc, Nat.add_comm 1]
  | true => simp [count, counted, Nat.add_assoc, Nat.add_comm 1]

theorem importLoop_eq (env : MigrationEnv) (p : Bytes) (mig : Migration)
    (items : List (MigrationItem × Bool)) :
    importLoop env p mig items =
      (mig.counted (importedItems env items.length (keyValues p)),
        items ++ importedItems env items.length (keyValues p)) := by
  fun_induction importLoop env p mig items with
  | case1 p mig items h =>
      rw [keyValues_of_none h]
      simp [importedItems, Migration.counted]
  | case2 p mig items key value p' h item stored ih =>
      obtain ⟨hkey, hvalue⟩ := cut_of_parseOneKv h
      rw [ih, keyValues_of_some h, List.length_append, List.length_singleton, importedItems,
        ← Migration.counted_cons, List.append_assoc]
      have hitem : item = { key := key, value := value, timestamp := env.time items.length } := by
        simp only [item, hkey, hvalue]
      rw [hitem]
      rfl

/-! ## What is lost -/

/-- Every member is among the items under its own key and with its own value, or
`memory_store` has refused an item in its place, and the numbers say so. -/
structure Accounted (o : FlatObject) (mig : Migration) (items : List (MigrationItem × Bool)) :
    Prop where
  scanned : mig.itemsScanned = o.members.length
  total : mig.itemsMigrated + mig.itemsFailed = mig.itemsScanned
  failed : mig.itemsFailed = items.countP fun e ↦ !e.2
  member : ∀ (n : ℕ) (m : Member), o.members[n]? = some m →
    ∃ e, items[n]? = some e ∧ (e.2 = true → itemPair e = pairOf m)

/-- A migration that was completed accounts for every member. -/
def MigrationResult.Accounts (r : MigrationResult) (i : ℕ) (o : FlatObject) : Prop :=
  ∀ mig, r.manager[i]? = some mig → r.code = 0 → mig.state = .completed → Accounted o mig r.items

/-- The export is read, and the memory is opened. -/
structure ReadsExport (env : MigrationEnv) (mig : Migration) (content : Bytes) : Prop where
  importsJson : mig.importsJson = true
  readFile : env.readFile mig.sourcePath = some content
  size : content.length ≤ 1024 * 1024
  mallocs : env.mallocs = true
  initsMemory :
    env.initsMemory (cut migrationPathSize (mig.destPath ++ ascii "/memory.db")) = true

variable {mgr : MigrationManager} {name : Bytes} {mig : Migration} {i : ℕ} {disk : Disk}

theorem migrationExecute_of_readsExport {content : Bytes} (hne : content ≠ [])
    (hfound : mgr.toExecute name = some (mig, i)) (h : ReadsExport env mig content) :
    migrationExecute env mgr name disk =
      ⟨0, mgr.set i ((mig.started.counted
          (importedItems env 0 (keyValues (ofBuffer content)))).enter .completed),
        disk, importedItems env 0 (keyValues (ofBuffer content))⟩ := by
  have hsize : ¬ (content.length = 0 ∨ 1024 * 1024 < content.length) := by
    have hpos := List.length_pos_iff.mpr hne
    have hle := h.size
    omega
  have himport : migrationImportGenericJson env mig.started =
      (0, mig.started.counted (importedItems env 0 (keyValues (ofBuffer content))),
        importedItems env 0 (keyValues (ofBuffer content))) := by
    have hread : env.readFile mig.started.sourcePath = some content := h.readFile
    have hmemory : env.initsMemory
        (cut migrationPathSize (mig.started.destPath ++ ascii "/memory.db")) = true := h.initsMemory
    rw [migrationImportGenericJson, hread]
    dsimp only
    rw [if_neg hsize, if_neg (not_not.mpr h.mallocs), if_neg (not_not.mpr hmemory), importLoop_eq]
    rfl
  rw [migrationExecute, hfound]
  dsimp only
  rw [if_pos h.importsJson, himport]
  rfl

theorem stored_importedItems (hstores : ∀ n, env.stores n = true) (n : ℕ)
    (pairs : List (Bytes × Bytes)) : ∀ e ∈ importedItems env n pairs, e.2 = true := by
  induction pairs generalizing n with
  | nil => simp [importedItems]
  | cons pair pairs ih => exact List.forall_mem_cons.mpr ⟨hstores n, ih (n + 1)⟩

/-- Nothing gets lost when the items are the members. -/
theorem accounted_of_map_eq {o : FlatObject} {items : List (MigrationItem × Bool)}
    (h : items.map itemPair = o.members.map pairOf) (mig : Migration) :
    Accounted o ((mig.started.counted items).enter .completed) items := by
  have hlen := congrArg List.length h
  rw [List.length_map, List.length_map] at hlen
  have hcount := List.length_eq_countP_add_countP (fun e : MigrationItem × Bool ↦ e.2) (l := items)
  refine ⟨?_, ?_, ?_, fun n m hm ↦ ?_⟩
  · simp [Migration.enter, Migration.counted, Migration.started, hlen]
  · simp only [Migration.enter, Migration.counted, Migration.started, Nat.zero_add]
    simpa using hcount.symm
  · simp [Migration.enter, Migration.counted, Migration.started]
  · have hget := congrArg (fun l ↦ l[n]?) h
    rw [List.getElem?_map, List.getElem?_map, hm, Option.map_some] at hget
    obtain ⟨e, he, hpair⟩ := Option.map_eq_some_iff.mp hget
    exact ⟨e, he, fun _ ↦ hpair⟩

/-- When `memory_store` takes everything, the items have to be the members. -/
theorem map_eq_of_accounted {o : FlatObject} {items : List (MigrationItem × Bool)}
    (hstored : ∀ e ∈ items, e.2 = true)
    (h : Accounted o ((mig.started.counted items).enter .completed) items) :
    items.map itemPair = o.members.map pairOf := by
  have hlen : items.length = o.members.length := by
    have hscanned := h.scanned
    simpa [Migration.enter, Migration.counted, Migration.started] using hscanned
  refine List.ext_getElem? fun n ↦ ?_
  rw [List.getElem?_map, List.getElem?_map]
  cases hm : o.members[n]? with
  | none =>
      rw [List.getElem?_eq_none_iff] at hm
      rw [List.getElem?_eq_none (by omega)]
      rfl
  | some m =>
      obtain ⟨e, he, hpair⟩ := h.member n m hm
      rw [he, Option.map_some, Option.map_some, hpair (hstored e (List.mem_of_getElem? he))]

theorem accounts_iff {o : FlatObject} (hfound : mgr.toExecute name = some (mig, i))
    (h : ReadsExport env mig o.text) :
    (∀ stores : ℕ → Bool,
        (migrationExecute { env with stores := stores } mgr name disk).Accounts i o) ↔
      AllLegible o.members := by
  have hne : o.text ≠ [] := by simp [FlatObject.text]
  have hi : i < mgr.length := (List.getElem?_eq_some_iff.mp
    (MigrationManager.locate_eq_some hfound).2.1).1
  have hrun : ∀ stores : ℕ → Bool,
      migrationExecute { env with stores := stores } mgr name disk =
        ⟨0, mgr.set i ((mig.started.counted
          (importedItems { env with stores := stores } 0 (keyValues o.text))).enter .completed),
          disk, importedItems { env with stores := stores } 0 (keyValues o.text)⟩ := by
    intro stores
    have hreads : ReadsExport { env with stores := stores } mig o.text :=
      ⟨h.importsJson, h.readFile, h.size, h.mallocs, h.initsMemory⟩
    rw [migrationExecute_of_readsExport hne hfound hreads, ofBuffer_eq_self o.zero_notMem_text]
  rw [← keyValues_flatObject_iff]
  constructor
  · intro hall
    have haccounts := hall fun _ ↦ true
    rw [hrun] at haccounts
    have haccounted := haccounts _ (List.getElem?_set_self hi) rfl rfl
    rw [← map_itemPair_importedItems { env with stores := fun _ ↦ true } 0 (keyValues o.text)]
    exact map_eq_of_accounted (stored_importedItems (fun _ ↦ rfl) 0 _) haccounted
  · intro hpairs stores
    rw [hrun]
    intro mig' hmig' _ _
    dsimp only at hmig'
    rw [List.getElem?_set_self hi] at hmig'
    cases hmig'
    exact accounted_of_map_eq ((map_itemPair_importedItems _ 0 _).trans hpairs) mig

/-- The members of a flat object are all accounted for, whatever `memory_store`
returns, exactly when the parser understands all of them. -/
theorem exportedMembers_accounted_iff {text : Bytes} {members : List (Bytes × Value)}
    (hparse : parse text = some (.object members))
    (hscalar : ∀ p ∈ members, p.2.isScalar = true) (hfound : mgr.toExecute name = some (mig, i))
    (h : ReadsExport env mig text) :
    (∃ o : FlatObject, o.text = text ∧ o.members.map Member.entry = members) ∧
      ∀ o : FlatObject, o.text = text → o.members.map Member.entry = members →
        ((∀ stores : ℕ → Bool,
            (migrationExecute { env with stores := stores } mgr name disk).Accounts i o) ↔
          AllLegible o.members) := by
  refine ⟨exists_flatObject hparse hscalar, ?_⟩
  rintro o rfl -
  exact accounts_iff hfound h

def exportMigration : Migration where
  source := .generic
  state := .pending
  sourcePath := ascii "/export.json"
  destPath := ascii "/workspace"
  itemsScanned := 0
  itemsMigrated := 0
  itemsFailed := 0
  error := []

/-- Every file has this content, and nothing fails. -/
def exportEnv (text : Bytes) : MigrationEnv where
  opensRead _ _ := true
  opensWrite _ _ := true
  readFile _ := some text
  mallocs := true
  initsMemory _ := true
  stores _ := true
  time _ := 0

theorem stringMember_accounted :
    (∃ o : FlatObject, o.text = ascii "\x7b\"a\":\"b\"\x7d" ∧
        o.members.map Member.entry = [(ascii "a", .string (ascii "b"))]) ∧
      ∀ o : FlatObject, o.text = ascii "\x7b\"a\":\"b\"\x7d" →
        o.members.map Member.entry = [(ascii "a", .string (ascii "b"))] →
        ((∀ stores : ℕ → Bool,
            (migrationExecute { exportEnv (ascii "\x7b\"a\":\"b\"\x7d") with stores := stores }
              [exportMigration] (ascii "/export.json") fun _ ↦ none).Accounts 0 o) ↔
          AllLegible o.members) := by
  have hscalar : ∀ p ∈ [(ascii "a", Value.string (ascii "b"))], p.2.isScalar = true := by
    simp [Value.isScalar]
  have hreads : ReadsExport (exportEnv (ascii "\x7b\"a\":\"b\"\x7d")) exportMigration
      (ascii "\x7b\"a\":\"b\"\x7d") := ⟨rfl, rfl, by decide, rfl, rfl⟩
  exact exportedMembers_accounted_iff rfl hscalar rfl hreads

/-- A member whose value is a number. -/
def numberMember : Member where
  before := ⟨[], rfl⟩
  lead := ⟨[], rfl⟩
  rawKey := ascii "a"
  key := ascii "a"
  key_eq := rfl
  beforeColon := ⟨[], rfl⟩
  afterColon := ⟨[], rfl⟩
  value := .other (ascii "1") (.number (ascii "1")) ⟨[], rfl⟩

def numberObject : FlatObject where
  lead := ⟨[], rfl⟩
  members := [numberMember]
  last := ⟨[], rfl⟩
  trail := ⟨[], rfl⟩

/-- The number is passed over, and the import is completed. -/
theorem numberMember_lost :
    numberObject.text = ascii "\x7b\"a\":1\x7d" ∧
      ¬ ∀ stores : ℕ → Bool,
        (migrationExecute { exportEnv numberObject.text with stores := stores } [exportMigration]
          (ascii "/export.json") fun _ ↦ none).Accounts 0 numberObject := by
  have hreads : ReadsExport (exportEnv numberObject.text) exportMigration numberObject.text :=
    ⟨rfl, rfl, by decide, rfl, rfl⟩
  refine ⟨rfl, fun h ↦ ?_⟩
  have hlegible := (accounts_iff rfl hreads).mp h
  obtain hwhole | hright := hlegible.last numberMember rfl
  · exact hwhole
  · exact hright

end DoctorClaw
