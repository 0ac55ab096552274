import DoctorClaw.Lib.Decimal
import DoctorClaw.Memories

/-!
# Exported and imported memories

`memory_export_json` writes the listed items one member a line.
`memory_import_json` looks for `"key":` and `"value":`, and then reads the text
between the first two quotes, which are those of the name that it has found.
-/

namespace DoctorClaw

open CString

/-! ## Exporting -/

def exportedMembers (item : SqliteItem) : Bytes :=
  ascii "  \x7b\n" ++
    (ascii "    \"key\": \"" ++ item.key ++ ascii "\",\n") ++
    (ascii "    \"value\": \"" ++ item.value ++ ascii "\",\n") ++
    (ascii "    \"timestamp\": " ++ Decimal.printNat item.timestamp.toNat ++ ascii ",\n") ++
    (ascii "    \"metadata\": \"" ++ item.metadata ++ ascii "\"\n")

/-- The loop over the items, of which the last one has no comma. -/
def exportedItems : List SqliteItem → Bytes
  | [] => []
  | [item] => exportedMembers item ++ ascii "  \x7d\n"
  | item :: item' :: items =>
      exportedMembers item ++ ascii "  \x7d,\n" ++ exportedItems (item' :: items)

def exportedText (items : List SqliteItem) : Bytes :=
  ascii "[\n" ++ exportedItems items ++ ascii "]\n"

/-- What is returned, and the file that is written; `opens` is the success of
`fopen`. -/
def memoryExportJson (base : SqliteBase) (rows : List MemoryRow) (works opens : Bool) :
    ℤ × Option Bytes :=
  match memoryList base rows works with
  | none => (-1, none)
  | some [] => (0, none)
  | some items => if opens then (0, some (exportedText items)) else (-1, none)

/-! ## Importing -/

/-- Find the needle, and read the text between the first two quotes from there
on.  The rest begins behind the second one. -/
def readQuoted (needle p : Bytes) : Option (Bytes × Bytes) :=
  match (strstr needle p).bind (strchr 34) with
  | some (_ :: start) =>
      match strchr 34 start with
      | some (_ :: rest) => some (start.takeWhile (· ≠ 34), rest)
      | _ => none
  | _ => none

def keyNeedle : Bytes := ascii "\"key\":"

def valueNeedle : Bytes := ascii "\"value\":"

theorem readQuoted_eq {name tail : Bytes} (hname : (34 : UInt8) ∉ name) (p : Bytes) :
    readQuoted (34 :: (name ++ 34 :: tail)) p =
      (strstr (34 :: (name ++ 34 :: tail)) p).map fun s ↦ (name, s.drop (name.length + 2)) := by
  cases hs : strstr (34 :: (name ++ 34 :: tail)) p with
  | none => rw [readQuoted, hs]; rfl
  | some s =>
      obtain ⟨rest, rfl⟩ := (strstr_eq_some hs).1
      have hquote : strchr 34 (34 :: (name ++ 34 :: tail) ++ rest) =
          some (34 :: (name ++ 34 :: (tail ++ rest))) := by simp [strchr]
      have hclose : strchr 34 (name ++ 34 :: (tail ++ rest)) = some (34 :: (tail ++ rest)) :=
        strchr_append hname (tail ++ rest)
      have htext : (name ++ 34 :: (tail ++ rest)).takeWhile (· ≠ 34) = name :=
        takeWhile_ne_append hname _
      rw [readQuoted, hs, Option.bind_some, hquote]
      dsimp only
      rw [hclose, Option.map_some]
      dsimp only
      rw [htext]
      simp

theorem readQuoted_lt {needle p text rest : Bytes} (h : readQuoted needle p = some (text, rest)) :
    rest.length < p.length := by
  unfold readQuoted at h
  split at h
  · next start hstart =>
      obtain ⟨s, hs, hopen⟩ := Option.bind_eq_some_iff.mp hstart
      split at h
      · next rest' hclose =>
          obtain ⟨-, rfl⟩ := Prod.mk.inj (Option.some.inj h)
          have hs' := (strstr_eq_some hs).2.length_le
          obtain ⟨-, -, hopen'⟩ := strchr_eq_some hopen
          obtain ⟨-, -, hclose'⟩ := strchr_eq_some hclose
          have hopen' := hopen'.length_le
          have hclose' := hclose'.length_le
          simp only [List.length_cons] at hopen' hclose'
          omega
      · cases h
  · cases h

/-- The keys and values of the loop. -/
def importedPairs (p : Bytes) : List (Bytes × Bytes) :=
  match _ : readQuoted keyNeedle p with
  | none => []
  | some (key, rest) =>
      match _ : readQuoted valueNeedle rest with
      | none => []
      | some (value, rest') => (key, value) :: importedPairs rest'
termination_by p.length
decreasing_by
  exact (readQuoted_lt ‹readQuoted valueNeedle _ = _›).trans
    (readQuoted_lt ‹readQuoted keyNeedle _ = _›)

def importBufferSize : ℕ := 65536

/-- What is in the buffer: a file is read up to its size, and searched up to the
first NUL. -/
def importedContent (file : Bytes) : Bytes := ofBuffer (file.take (importBufferSize - 1))

/-- Store the pairs, the first one being the `i`-th of the file. -/
def storePairs (now : ℕ → UInt64) (works : ℕ → Bool) :
    ℕ → List (Bytes × Bytes) → List MemoryRow → List MemoryRow
  | _, [], rows => rows
  | i, pair :: pairs, rows =>
      storePairs now works (i + 1) pairs
        (memoryStore rows (.print pair.1 pair.2 (now i) []) (works i)).2

/-- The file is `none` where it cannot be opened. -/
def memoryImportJson (rows : List MemoryRow) (file : Option Bytes) (now : ℕ → UInt64)
    (works : ℕ → Bool) : ℤ × List MemoryRow :=
  match file with
  | none => (-1, rows)
  | some file =>
      let pairs := importedPairs (importedContent file)
      (pairs.length, storePairs now works 0 pairs rows)

/-! ## What is imported -/

theorem keyNeedle_eq : keyNeedle = 34 :: (ascii "key" ++ [34, 58]) := by decide

theorem valueNeedle_eq : valueNeedle = 34 :: (ascii "value" ++ [34, 58]) := by decide

theorem readQuoted_key (p : Bytes) :
    readQuoted keyNeedle p = (strstr keyNeedle p).map fun s ↦ (ascii "key", s.drop 5) := by
  rw [keyNeedle_eq]
  exact readQuoted_eq (by decide) p

theorem readQuoted_value (p : Bytes) :
    readQuoted valueNeedle p = (strstr valueNeedle p).map fun s ↦ (ascii "value", s.drop 7) := by
  rw [valueNeedle_eq]
  exact readQuoted_eq (by decide) p

/-- Whatever stands in a file, the names of the members are taken for their
texts. -/
theorem importedPairs_forall (p : Bytes) :
    ∀ pair ∈ importedPairs p, pair = (ascii "key", ascii "value") := by
  fun_induction importedPairs p with
  | case1 => exact fun pair hpair ↦ absurd hpair List.not_mem_nil
  | case2 => exact fun pair hpair ↦ absurd hpair List.not_mem_nil
  | case3 p key rest hkey value rest' hvalue ih =>
      rw [readQuoted_key, Option.map_eq_some_iff] at hkey
      rw [readQuoted_value, Option.map_eq_some_iff] at hvalue
      obtain ⟨_, -, hkey⟩ := hkey
      obtain ⟨_, -, hvalue⟩ := hvalue
      intro pair hpair
      rcases List.mem_cons.mp hpair with rfl | hpair
      · exact Prod.ext (congrArg Prod.fst hkey).symm (congrArg Prod.fst hvalue).symm
      · exact ih pair hpair

theorem importedPairs_eq_replicate (p : Bytes) :
    importedPairs p = List.replicate (importedPairs p).length (ascii "key", ascii "value") :=
  List.eq_replicate_iff.mpr ⟨rfl, importedPairs_forall p⟩

/-! ## Importing what was exported -/

/-- A quoted text that a comma or a newline follows is not the name that is
looked for. -/
theorem strstr_quotedText {name v : Bytes} {c : UInt8} (hname : (34 : UInt8) ∉ name)
    (hv : (34 : UInt8) ∉ v) (hcolon : c ≠ 58) (hfirst : name.head? ≠ some c)
    (hne : name ≠ []) (t : Bytes) :
    strstr (34 :: (name ++ [34, 58])) (34 :: (v ++ 34 :: c :: t)) =
      strstr (34 :: (name ++ [34, 58])) (c :: t) := by
  have hopen : ¬ 34 :: (name ++ [34, 58]) <+: 34 :: (v ++ 34 :: c :: t) := by
    intro hp
    have hp := (List.cons_prefix_cons.mp hp).2
    obtain rfl : name = v := by
      apply eq_of_quoted_prefix hname hv
      exact ((List.prefix_append_right_inj name).mpr ⟨[58], rfl⟩).trans hp
    rw [List.prefix_append_right_inj, List.cons_prefix_cons, List.cons_prefix_cons] at hp
    exact hcolon hp.2.1.symm
  have hclose : ¬ 34 :: (name ++ [34, 58]) <+: 34 :: c :: t := by
    intro hp
    obtain ⟨b, name, rfl⟩ := List.exists_cons_of_ne_nil hne
    rw [List.cons_append, List.cons_prefix_cons, List.cons_prefix_cons] at hp
    exact hfirst (congrArg some hp.2.1)
  rw [strstr_cons_of_not hopen, strstr_append_of_notMem rfl hv, strstr_cons_of_not hclose]

theorem importedPairs_congr {p p' : Bytes} (h : strstr keyNeedle p = strstr keyNeedle p') :
    importedPairs p = importedPairs p' := by
  have hread : readQuoted keyNeedle p = readQuoted keyNeedle p' := by
    rw [readQuoted_key, readQuoted_key, h]
  rw [importedPairs, importedPairs, hread]

theorem importedPairs_literal {lit : Bytes} (h : skips keyNeedle lit = true) (p : Bytes) :
    importedPairs (lit ++ p) = importedPairs p :=
  importedPairs_congr (strstr_of_skips h p)

/-- No text of the item has a quote, or a NUL, which no C string has. -/
structure SqliteItem.Plain (item : SqliteItem) : Prop where
  key : (34 : UInt8) ∉ item.key
  value : (34 : UInt8) ∉ item.value
  metadata : (34 : UInt8) ∉ item.metadata
  nul : (0 : UInt8) ∉ item.key ++ item.value ++ item.metadata

/-- What stands behind the name of the value. -/
def SqliteItem.behindValue (item : SqliteItem) (rest : Bytes) : Bytes :=
  34 :: (item.value ++ 34 :: 44 :: (ascii "\n    \"timestamp\": " ++
    (Decimal.printNat item.timestamp.toNat ++ (ascii ",\n    \"metadata\": " ++
      34 :: (item.metadata ++ 34 :: 10 :: rest)))))

theorem exportedMembers_append (item : SqliteItem) (rest : Bytes) :
    exportedMembers item ++ rest =
      ascii "  \x7b\n" ++ (ascii "    " ++ (keyNeedle ++ (32 :: 34 :: (item.key ++
        34 :: 44 :: (ascii "\n    " ++ (valueNeedle ++ 32 :: item.behindValue rest)))))) := by
  have hkey : ascii "    \"key\": \"" = ascii "    " ++ (keyNeedle ++ [32, 34]) := by decide
  have hvalue : ascii "    \"value\": \"" = ascii "    " ++ (valueNeedle ++ [32, 34]) := by decide
  have hend : ascii "\",\n" = [34, 44, 10] := by decide
  have hline : ascii "\n    " = 10 :: ascii "    " := by decide
  have htimestamp : ascii "\n    \"timestamp\": " = 10 :: ascii "    \"timestamp\": " := by decide
  have hmetadata : ascii ",\n    \"metadata\": " ++ [34] =
      ascii ",\n" ++ ascii "    \"metadata\": \"" := by decide
  have hlast : ascii "\"\n" = [34, 10] := by decide
  rw [exportedMembers, SqliteItem.behindValue, List.append_cons (ascii ",\n    \"metadata\": "),
    hmetadata, hkey, hvalue, hend, hline, htimestamp, hlast]
  simp only [List.append_assoc, List.cons_append, List.nil_append]

theorem readQuoted_key_append (t : Bytes) :
    readQuoted keyNeedle (keyNeedle ++ t) = some (ascii "key", 58 :: t) := by
  rw [readQuoted_key, strstr_of_isPrefix (List.prefix_append _ _), Option.map_some]
  rfl

/-- Behind the name of a key, the name of its value is found next. -/
theorem readQuoted_value_append {key : Bytes} (hkey : (34 : UInt8) ∉ key) (t : Bytes) :
    readQuoted valueNeedle
        (58 :: 32 :: 34 :: (key ++ 34 :: 44 :: (ascii "\n    " ++ (valueNeedle ++ t)))) =
      some (ascii "value", 58 :: t) := by
  have hfound : strstr valueNeedle
      (58 :: 32 :: 34 :: (key ++ 34 :: 44 :: (ascii "\n    " ++ (valueNeedle ++ t)))) =
        some (valueNeedle ++ t) := by
    calc strstr valueNeedle
          (58 :: 32 :: 34 :: (key ++ 34 :: 44 :: (ascii "\n    " ++ (valueNeedle ++ t))))
      _ = strstr valueNeedle (34 :: (key ++ 34 :: 44 :: (ascii "\n    " ++ (valueNeedle ++ t)))) :=
          strstr_of_skips (show skips valueNeedle [58, 32] = true by decide) _
      _ = strstr valueNeedle (44 :: (ascii "\n    " ++ (valueNeedle ++ t))) := by
          rw [valueNeedle_eq]
          exact strstr_quotedText (by decide) hkey (by decide) (by decide) (by decide) _
      _ = strstr valueNeedle (valueNeedle ++ t) :=
          strstr_of_skips (show skips valueNeedle (44 :: ascii "\n    ") = true by decide) _
      _ = some (valueNeedle ++ t) := strstr_of_isPrefix (List.prefix_append _ _)
  rw [readQuoted_value, hfound, Option.map_some]
  rfl

theorem importedPairs_behindValue {item : SqliteItem} (h : item.Plain) (rest : Bytes) :
    importedPairs (58 :: 32 :: item.behindValue rest) = importedPairs rest := by
  have hdigits : (34 : UInt8) ∉ Decimal.printNat item.timestamp.toNat :=
    Decimal.notMem_printNat (by decide) _
  have hquoted : ∀ {v : Bytes} {c : UInt8}, (34 : UInt8) ∉ v → c ≠ 58 →
      (ascii "key").head? ≠ some c → ∀ t, strstr keyNeedle (34 :: (v ++ 34 :: c :: t)) = strstr keyNeedle (c :: t) := by
    intro v c hv hcolon hfirst t
    rw [keyNeedle_eq]
    exact strstr_quotedText (by decide) hv hcolon hfirst (by decide) t
  rw [SqliteItem.behindValue]
  calc importedPairs (58 :: 32 :: 34 :: _)
    _ = importedPairs (34 :: (item.value ++ 34 :: 44 :: (ascii "\n    \"timestamp\": " ++
          (Decimal.printNat item.timestamp.toNat ++ (ascii ",\n    \"metadata\": " ++
            34 :: (item.metadata ++ 34 :: 10 :: rest)))))) :=
        importedPairs_literal (show skips keyNeedle [58, 32] = true by decide) _
    _ = importedPairs (44 :: (ascii "\n    \"timestamp\": " ++
          (Decimal.printNat item.timestamp.toNat ++ (ascii ",\n    \"metadata\": " ++
            34 :: (item.metadata ++ 34 :: 10 :: rest))))) :=
        importedPairs_congr (hquoted h.value (by decide) (by decide) _)
    _ = importedPairs (Decimal.printNat item.timestamp.toNat ++ (ascii ",\n    \"metadata\": " ++
            34 :: (item.metadata ++ 34 :: 10 :: rest))) :=
        importedPairs_literal
          (show skips keyNeedle (44 :: ascii "\n    \"timestamp\": ") = true by decide) _
    _ = importedPairs (ascii ",\n    \"metadata\": " ++
            34 :: (item.metadata ++ 34 :: 10 :: rest)) :=
        importedPairs_congr (strstr_append_of_notMem rfl hdigits _)
    _ = importedPairs (34 :: (item.metadata ++ 34 :: 10 :: rest)) :=
        importedPairs_literal (by decide) _
    _ = importedPairs (10 :: rest) :=
        importedPairs_congr (hquoted h.metadata (by decide) (by decide) _)
    _ = importedPairs rest := importedPairs_literal (show skips keyNeedle [10] = true by decide) _

theorem importedPairs_members {item : SqliteItem} (h : item.Plain) (rest : Bytes) :
    importedPairs (exportedMembers item ++ rest) =
      (ascii "key", ascii "value") :: importedPairs rest := by
  rw [exportedMembers_append, importedPairs_literal (by decide), importedPairs_literal (by decide),
    importedPairs, readQuoted_key_append]
  dsimp only
  rw [readQuoted_value_append h.key]
  exact congrArg _ (importedPairs_behindValue h rest)

theorem importedPairs_items {items : List SqliteItem} (h : ∀ item ∈ items, item.Plain)
    (rest : Bytes) :
    importedPairs (exportedItems items ++ rest) =
      List.replicate items.length (ascii "key", ascii "value") ++ importedPairs rest := by
  induction items with
  | nil => rfl
  | cons item items ih =>
      obtain ⟨hitem, hitems⟩ := List.forall_mem_cons.mp h
      cases items with
      | nil =>
          rw [exportedItems, List.append_assoc, importedPairs_members hitem,
            importedPairs_literal (by decide)]
          rfl
      | cons item' items =>
          rw [exportedItems, List.append_assoc, List.append_assoc, importedPairs_members hitem,
            importedPairs_literal (by decide), ih hitems]
          rfl

/-- As many pairs are imported as items were exported, and each is the same. -/
theorem importedPairs_exportedText {items : List SqliteItem} (h : ∀ item ∈ items, item.Plain) :
    importedPairs (exportedText items) =
      List.replicate items.length (ascii "key", ascii "value") := by
  have hend : importedPairs (ascii "]\n") = [] := by
    rw [importedPairs, readQuoted_key, strstr_eq_none (by decide)]
    rfl
  rw [exportedText, List.append_assoc, importedPairs_literal (by decide), importedPairs_items h,
    hend, List.append_nil]

theorem nul_notMem_exportedMembers {item : SqliteItem} (h : item.Plain) :
    (0 : UInt8) ∉ exportedMembers item := by
  have hlits : (0 : UInt8) ∉ ascii "  \x7b\n" ∧ (0 : UInt8) ∉ ascii "    \"key\": \"" ∧
      (0 : UInt8) ∉ ascii "    \"value\": \"" ∧ (0 : UInt8) ∉ ascii "    \"timestamp\": " ∧
      (0 : UInt8) ∉ ascii "    \"metadata\": \"" ∧ (0 : UInt8) ∉ ascii "\",\n" ∧
      (0 : UInt8) ∉ ascii ",\n" ∧ (0 : UInt8) ∉ ascii "\"\n" := by decide
  have hdigits : (0 : UInt8) ∉ Decimal.printNat item.timestamp.toNat :=
    Decimal.notMem_printNat (by decide) _
  have hnul := h.nul
  rw [List.mem_append, List.mem_append] at hnul
  push Not at hnul
  simp only [exportedMembers, List.mem_append, not_or]
  tauto

theorem nul_notMem_exportedItems {items : List SqliteItem} (h : ∀ item ∈ items, item.Plain) :
    (0 : UInt8) ∉ exportedItems items := by
  have hlits : (0 : UInt8) ∉ ascii "  \x7d\n" ∧ (0 : UInt8) ∉ ascii "  \x7d,\n" := by decide
  induction items with
  | nil => exact List.not_mem_nil
  | cons item items ih =>
      obtain ⟨hitem, hitems⟩ := List.forall_mem_cons.mp h
      cases items with
      | nil =>
          rw [exportedItems, List.mem_append, not_or]
          exact ⟨nul_notMem_exportedMembers hitem, hlits.1⟩
      | cons item' items =>
          rw [exportedItems, List.mem_append, List.mem_append, not_or, not_or]
          exact ⟨⟨nul_notMem_exportedMembers hitem, hlits.2⟩, ih hitems⟩

theorem importedContent_exportedText {items : List SqliteItem} (h : ∀ item ∈ items, item.Plain)
    (hsize : (exportedText items).length < importBufferSize) :
    importedContent (exportedText items) = exportedText items := by
  have hlits : (0 : UInt8) ∉ ascii "[\n" ∧ (0 : UInt8) ∉ ascii "]\n" := by decide
  have hnul : (0 : UInt8) ∉ exportedText items := by
    rw [exportedText, List.mem_append, List.mem_append, not_or, not_or]
    exact ⟨⟨hlits.1, nul_notMem_exportedItems h⟩, hlits.2⟩
  rw [importedContent, List.take_of_length_le (by omega), ofBuffer_eq_self hnul]

end DoctorClaw
