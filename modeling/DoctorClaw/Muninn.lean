import DoctorClaw.Lib.Decimal
import DoctorClaw.Lib.Ranking
import DoctorClaw.Lib.Strtok
import Mathlib.Analysis.Complex.Exponential

/-!
# The engram store

`muninn.c` keeps engrams in an SQLite table, a full-text index over their
texts and a table of weights between engrams that were activated together.
Its statements are modelled by their meaning on the rows, which are listed in
the order of their ids.

SQLite itself is a parameter where the meaning of a statement leaves room: the
integer that a text bound to an id is compared as, and the order of fallback
rows with equal times and counts.  Which rows a full-text query matches is an
argument of each activation.  Scores may lie in any linear order; confidences
and weights are exact.
-/

namespace DoctorClaw

open Ranking

/-! ## Rows and engrams -/

inductive MuninnState
  | active | archived | softDeleted | paused | completed | cancelled
  deriving DecidableEq

inductive MuninnType
  | fact | decision | observation | preference | task
  deriving DecidableEq

/-- A row of `muninn_engrams`. -/
structure EngramRow where
  id : ℕ
  vault : Bytes
  concept : Bytes
  content : Bytes
  confidence : ℚ
  accessCount : ℕ
  lastAccessSec : Int64
  createdSec : Int64
  state : MuninnState
  type : MuninnType
  tags : Bytes
  deriving DecidableEq

/-- The struct `muninn_engram_t`. -/
structure Engram where
  id : Bytes
  vault : Bytes
  concept : Bytes
  content : Bytes
  confidence : ℚ
  accessCount : UInt32
  lastAccessSec : UInt64
  createdSec : UInt64
  state : MuninnState
  type : MuninnType
  tags : List Bytes
  deriving DecidableEq

def muninnTagMax : ℕ := 8

def muninnTagLen : ℕ := 64

/-- The loop over the tokens between commas, for at most `n` tags. -/
def parseTags : ℕ → Bytes → List Bytes
  | 0, _ => []
  | n + 1, s =>
    match CString.strtok [44] s with
    | (none, _) => []
    | (some tok, rest) =>
        CString.cut muninnTagLen (tok.rdropWhile fun c ↦ c == 32 || c == 9) :: parseTags n rest

def engramFromRow (row : EngramRow) : Engram where
  id := CString.cut 32 (Decimal.printNat row.id)
  vault := CString.cut 128 row.vault
  concept := CString.cut 512 row.concept
  content := CString.cut 16384 row.content
  confidence := row.confidence
  accessCount := UInt32.ofNat row.accessCount
  lastAccessSec := row.lastAccessSec.toUInt64
  createdSec := row.createdSec.toUInt64
  state := row.state
  type := row.type
  tags := parseTags muninnTagMax (CString.cut 512 row.tags)

/-- The condition `state = 0 OR state = 4`. -/
def EngramRow.visible (row : EngramRow) : Bool :=
  row.state = .active || row.state = .completed

/-- The order `last_access_sec DESC, access_count DESC`. -/
def EngramRow.moreRecent (row row' : EngramRow) : Prop :=
  row'.lastAccessSec < row.lastAccessSec ∨
    row.lastAccessSec = row'.lastAccessSec ∧ row'.accessCount ≤ row.accessCount

instance : DecidableRel EngramRow.moreRecent := fun _ _ ↦ inferInstanceAs (Decidable (_ ∨ _))

/-- What the store is built on: `integerOf` is the integer that a text is
compared as with an id, and `score` is `temporal_priority` of the count and the
two times, times the confidence. -/
structure MuninnBase (S : Type*) where
  integerOf : Bytes → Option ℕ
  integerOf_printNat : ∀ n, integerOf (Decimal.printNat n) = some n
  orderByRecency : List EngramRow → List EngramRow
  perm_orderByRecency : ∀ rows, (orderByRecency rows).Perm rows
  pairwise_orderByRecency : ∀ rows, (orderByRecency rows).Pairwise EngramRow.moreRecent
  score : UInt32 → UInt64 → UInt64 → ℚ → S

/-! ## The store -/

/-- The two tables.  `sequence` is the largest id ever given out. -/
structure Muninn where
  rows : List EngramRow
  sequence : ℕ
  weight : ℕ → ℕ → Option ℚ
  pairwise_id : rows.Pairwise fun row row' ↦ row.id < row'.id
  id_le : ∀ row ∈ rows, row.id ≤ sequence
  sequence_lt : sequence < 2 ^ 63

def muninnInit : Muninn := ⟨[], 0, fun _ _ ↦ none, .nil, by simp, by decide⟩

def Muninn.find (m : Muninn) (id : ℕ) : Option EngramRow := m.rows.find? fun row ↦ row.id = id

/-- An `UPDATE` that does not touch the id. -/
def Muninn.update (m : Muninn) (p : EngramRow → Bool) (f : EngramRow → EngramRow)
    (hf : ∀ row, (f row).id = row.id) : Muninn where
  rows := m.rows.map fun row ↦ if p row then f row else row
  sequence := m.sequence
  weight := m.weight
  pairwise_id := by
    refine List.pairwise_map.mpr (m.pairwise_id.imp fun {row row'} h ↦ ?_)
    split_ifs <;> simpa only [hf] using h
  id_le := by
    intro row hrow
    obtain ⟨old, hold, rfl⟩ := List.mem_map.mp hrow
    have hle := m.id_le old hold
    split_ifs <;> simpa only [hf] using hle
  sequence_lt := m.sequence_lt

def tagsBufSize : ℕ := muninnTagMax * (muninnTagLen + 2)

/-- The buffer after the tag `tag` has been appended to the tags before it. -/
def joinTag (buf : Option Bytes) (tag : Bytes) : Option Bytes :=
  let text := (buf.map (· ++ [44])).getD []
  some (text ++ tag.take (tagsBufSize - text.length - 1))

def joinTags (tags : List Bytes) : Bytes := ((tags.take muninnTagMax).foldl joinTag none).getD []

/-- The row that `muninn_write` inserts. -/
def EngramRow.make (id : ℕ) (vault concept content : Bytes) (tags : List Bytes) (now : UInt64) :
    EngramRow where
  id := id
  vault := vault
  concept := concept
  content := content
  confidence := 4 / 5
  accessCount := 0
  lastAccessSec := now.toInt64
  createdSec := now.toInt64
  state := .active
  type := .fact
  tags := joinTags tags

/-- The store with the new engram, and the text written to `out_id`.  The call fails
for a buffer without room, and the insertion when the last id has been given out. -/
def muninnWrite (m : Muninn) (vault concept content : Bytes) (tags : List Bytes) (idSize : ℕ)
    (now : UInt64) : Option (Muninn × Bytes) :=
  if h : idSize ≠ 0 ∧ m.sequence + 1 < 2 ^ 63 then
    some ({
      rows := m.rows ++ [.make (m.sequence + 1) vault concept content tags now]
      sequence := m.sequence + 1
      weight := m.weight
      pairwise_id := by
        refine List.pairwise_append.mpr ⟨m.pairwise_id, List.pairwise_singleton _ _, ?_⟩
        intro old hold new hnew
        obtain rfl := List.mem_singleton.mp hnew
        exact Nat.lt_succ_of_le (m.id_le old hold)
      id_le := by
        intro old hold
        rcases List.mem_append.mp hold with hold | hold
        · exact (m.id_le old hold).trans (Nat.le_succ _)
        · exact (congrArg EngramRow.id (List.mem_singleton.mp hold)).le
      sequence_lt := h.2 }, CString.cut idSize (Decimal.printNat (m.sequence + 1)))
  else none

section Operations

variable {S : Type*} (base : MuninnBase S)

def muninnRead (m : Muninn) (vault id : Bytes) : Option Engram :=
  (m.rows.find? fun row ↦ some row.id = base.integerOf id && row.vault == vault &&
    row.visible).map engramFromRow

def Muninn.recordAccess (m : Muninn) (p : EngramRow → Bool) (now : UInt64) : Muninn :=
  m.update p
    (fun row ↦ { row with accessCount := row.accessCount + 1, lastAccessSec := now.toInt64 })
    fun _ ↦ rfl

def muninnRecordAccess (m : Muninn) (vault id : Bytes) (now : UInt64) : Muninn :=
  m.recordAccess (fun row ↦ some row.id = base.integerOf id && row.vault == vault) now

def muninnReinforce (m : Muninn) (id : Bytes) (delta : ℚ) : Muninn :=
  m.update (fun row ↦ some row.id = base.integerOf id)
    (fun row ↦ { row with confidence := min 1 (row.confidence + delta) }) fun _ ↦ rfl

def muninnContradict (m : Muninn) (id : Bytes) : Muninn :=
  m.update (fun row ↦ some row.id = base.integerOf id)
    (fun row ↦ { row with confidence := max 0 (row.confidence - 1 / 10) }) fun _ ↦ rfl

def muninnSoftDelete (m : Muninn) (vault id : Bytes) : Muninn :=
  m.update (fun row ↦ some row.id = base.integerOf id && row.vault == vault)
    (fun row ↦ { row with state := .softDeleted }) fun _ ↦ rfl

end Operations

/-! ## Activation -/

def maxActivateCandidates : ℕ := 256

def muninnActivateMax : ℕ := 64

def activateTop (topN : ℕ) : ℕ :=
  if topN = 0 ∨ muninnActivateMax < topN then muninnActivateMax else topN

/-- The rows that the full-text query yields, which reads no vault. -/
def Muninn.ftsRows (m : Muninn) (matched : ℕ → Bool) : List EngramRow :=
  (m.rows.filter fun row ↦ matched row.id).take maxActivateCandidates

/-- One upsert into `muninn_associations`. -/
def strengthen (weight : ℕ → ℕ → Option ℚ) (fromId toId : ℕ) : ℕ → ℕ → Option ℚ := fun a b ↦
  if a = fromId ∧ b = toId then
    some (((weight a b).map fun w ↦ min 1 (w + 1 / 50)).getD (1 / 50))
  else weight a b

/-- The pairs of different ids, in the order of the two loops. -/
def hebbianPairs (ids : List ℕ) : List (ℕ × ℕ) :=
  ids.flatMap fun a ↦ (ids.filter fun b ↦ a ≠ b).map fun b ↦ (a, b)

section Activation

variable {S : Type*} [LinearOrder S] (base : MuninnBase S)

def EngramRow.score (now : UInt64) (row : EngramRow) : S :=
  base.score (UInt32.ofNat row.accessCount) row.lastAccessSec.toUInt64 now row.confidence

/-- The rows of the vault by recency, for a query that yields nothing. -/
def Muninn.fallbackRows (m : Muninn) (vault : Bytes) : List EngramRow :=
  (base.orderByRecency (m.rows.filter fun row ↦ row.vault == vault && row.visible)).take
    maxActivateCandidates

def Muninn.candidateIds (m : Muninn) (vault : Bytes) (matched : ℕ → Bool) : List ℕ :=
  if m.ftsRows matched = [] then (m.fallbackRows base vault).map EngramRow.id
  else (m.ftsRows matched).map EngramRow.id

/-- The candidates that `row_sql` finds in the vault. -/
def Muninn.scored (m : Muninn) (vault : Bytes) (matched : ℕ → Bool) : List EngramRow :=
  (m.candidateIds base vault matched).filterMap fun id ↦
    (m.find id).filter fun row ↦ row.vault == vault

def Muninn.returnedRows (m : Muninn) (vault : Bytes) (matched : ℕ → Bool) (topN : ℕ)
    (now : UInt64) : List EngramRow :=
  ((sortDescending (EngramRow.score base now) (m.scored base vault matched)).take
    (activateTop topN)).filterMap fun row ↦ m.find row.id

def muninnActivate (m : Muninn) (vault : Bytes) (matched : ℕ → Bool) (topN : ℕ) (now : UInt64) :
    Muninn × List Engram :=
  let returned := m.returnedRows base vault matched topN now
  let ids := returned.map EngramRow.id
  let accessed := ids.foldl (fun m id ↦ m.recordAccess (fun row ↦ row.id = id) now) m
  ({ accessed with weight := (hebbianPairs ids).foldl (fun w p ↦ strengthen w p.1 p.2) m.weight },
    returned.map engramFromRow)

end Activation

/-! ## Histories -/

inductive MuninnEvent
  | write (vault concept content : Bytes) (tags : List Bytes) (idSize : ℕ) (now : UInt64)
  | reinforce (id : Bytes) (delta : ℚ)
  | contradict (id : Bytes)
  | recordAccess (vault id : Bytes) (now : UInt64)
  | softDelete (vault id : Bytes)
  | activate (vault : Bytes) (matched : ℕ → Bool) (topN : ℕ) (now : UInt64)

section Histories

variable {S : Type*} [LinearOrder S] (base : MuninnBase S)

def Muninn.step (m : Muninn) : MuninnEvent → Muninn
  | .write vault concept content tags idSize now =>
      ((muninnWrite m vault concept content tags idSize now).map Prod.fst).getD m
  | .reinforce id delta => muninnReinforce base m id delta
  | .contradict id => muninnContradict base m id
  | .recordAccess vault id now => muninnRecordAccess base m vault id now
  | .softDelete vault id => muninnSoftDelete base m vault id
  | .activate vault matched topN now => (muninnActivate base m vault matched topN now).1

/-- The store after a history that starts with an empty table. -/
def muninnAfter (evs : List MuninnEvent) : Muninn := evs.foldl (Muninn.step base) muninnInit

end Histories

/-! ## Lookups -/

section Lookups

variable {m : Muninn} {row : EngramRow}

theorem Muninn.nodup_id (m : Muninn) : (m.rows.map EngramRow.id).Nodup :=
  List.pairwise_map.mpr (m.pairwise_id.imp fun h ↦ h.ne)

theorem Muninn.eq_of_id_eq {row' : EngramRow} (hrow : row ∈ m.rows) (hrow' : row' ∈ m.rows)
    (h : row.id = row'.id) : row = row' :=
  List.inj_on_of_nodup_map m.nodup_id hrow hrow' h

/-- A query that fixes the id finds its row or nothing. -/
theorem Muninn.find?_id (hrow : row ∈ m.rows) {p : EngramRow → Bool} :
    m.rows.find? (fun r ↦ r.id = row.id && p r) = if p row then some row else none := by
  split_ifs with hp
  · cases hfind : m.rows.find? fun r ↦ r.id = row.id && p r with
    | none => simpa [hp] using List.find?_eq_none.mp hfind row hrow
    | some found =>
        have hfound := List.find?_some hfind
        simp only [Bool.and_eq_true, decide_eq_true_eq] at hfound
        rw [Muninn.eq_of_id_eq (List.mem_of_find?_eq_some hfind) hrow hfound.1]
  · refine List.find?_eq_none.mpr fun r hr ↦ ?_
    simp only [Bool.and_eq_true, decide_eq_true_eq, not_and]
    rintro hid hpr
    exact hp (Muninn.eq_of_id_eq hr hrow hid ▸ hpr)

theorem Muninn.find_id (hrow : row ∈ m.rows) : m.find row.id = some row := by
  simpa [Muninn.find] using Muninn.find?_id hrow (p := fun _ ↦ true)

theorem Muninn.id_engramFromRow (hrow : row ∈ m.rows) :
    (engramFromRow row).id = Decimal.printNat row.id := by
  have hlt : row.id < 10 ^ 19 :=
    (m.id_le row hrow).trans_lt (m.sequence_lt.trans (by decide))
  have hlen := Decimal.length_printNat_le (by decide) hlt
  exact CString.cut_of_lt (by omega)

theorem muninnRead_id {S : Type*} (base : MuninnBase S) (hrow : row ∈ m.rows) (vault : Bytes) :
    muninnRead base m vault (engramFromRow row).id =
      if row.vault = vault ∧ row.visible then some (engramFromRow row) else none := by
  have hfind := Muninn.find?_id hrow (p := fun r ↦ r.vault == vault && r.visible)
  rw [muninnRead, Muninn.id_engramFromRow hrow, base.integerOf_printNat]
  simp only [Option.some.injEq, Bool.and_assoc]
  rw [hfind, apply_ite (Option.map engramFromRow)]
  simp

section Candidates

variable {S : Type*} (base : MuninnBase S) (m : Muninn) (vault : Bytes) (matched : ℕ → Bool)

theorem Muninn.filterMap_find {l : List EngramRow} (hl : ∀ row ∈ l, row ∈ m.rows) :
    (l.map EngramRow.id).filterMap (fun id ↦ (m.find id).filter fun row ↦ row.vault == vault) =
      l.filter fun row ↦ row.vault == vault := by
  rw [List.filterMap_map, ← List.filterMap_eq_filter]
  refine List.filterMap_congr fun row hrow ↦ ?_
  rw [Function.comp_apply, Muninn.find_id (hl row hrow), Option.filter_some]
  rfl

theorem Muninn.mem_of_mem_ftsRows (h : row ∈ m.ftsRows matched) : row ∈ m.rows :=
  List.mem_of_mem_filter (List.mem_of_mem_take h)

theorem Muninn.mem_of_mem_fallbackRows (h : row ∈ m.fallbackRows base vault) :
    row ∈ m.rows ∧ row.vault = vault ∧ row.visible = true := by
  have hmem := (base.perm_orderByRecency _).mem_iff.mp (List.mem_of_mem_take h)
  simpa using hmem

/-- The matches of the vault that the full-text query leaves. -/
def Muninn.vaultMatches : List EngramRow :=
  (m.ftsRows matched).filter fun row ↦ row.vault == vault

theorem Muninn.scored_eq : m.scored base vault matched =
    if m.ftsRows matched = [] then m.fallbackRows base vault else m.vaultMatches vault matched := by
  unfold scored candidateIds
  split_ifs with h
  · rw [m.filterMap_find vault fun row hrow ↦ (m.mem_of_mem_fallbackRows base vault hrow).1]
    refine List.filter_eq_self.mpr fun row hrow ↦ ?_
    simpa using (m.mem_of_mem_fallbackRows base vault hrow).2.1
  · rw [m.filterMap_find vault fun row hrow ↦ m.mem_of_mem_ftsRows matched hrow]
    rfl

theorem Muninn.mem_rows_of_mem_scored (h : row ∈ m.scored base vault matched) :
    row ∈ m.rows ∧ row.vault = vault := by
  rw [m.scored_eq] at h
  split_ifs at h
  · exact ⟨(m.mem_of_mem_fallbackRows base vault h).1, (m.mem_of_mem_fallbackRows base vault h).2.1⟩
  · have hmem := List.mem_filter.mp h
    exact ⟨m.mem_of_mem_ftsRows matched hmem.1, by simpa using hmem.2⟩

theorem Muninn.returnedRows_eq [LinearOrder S] (topN : ℕ) (now : UInt64) :
    m.returnedRows base vault matched topN now =
      (sortDescending (EngramRow.score base now) (m.scored base vault matched)).take
        (activateTop topN) := by
  unfold returnedRows
  refine (List.filterMap_congr fun row hrow ↦ ?_).trans List.filterMap_some
  have hscored := (perm_sortDescending _ _).mem_iff.mp (List.mem_of_mem_take hrow)
  exact Muninn.find_id (m.mem_rows_of_mem_scored base vault matched hscored).1

theorem Muninn.mem_rows_of_mem_returnedRows [LinearOrder S] {topN : ℕ} {now : UInt64}
    (h : row ∈ m.returnedRows base vault matched topN now) :
    row ∈ m.scored base vault matched ∧ row ∈ m.rows ∧ row.vault = vault := by
  rw [m.returnedRows_eq] at h
  have hscored := (perm_sortDescending _ _).mem_iff.mp (List.mem_of_mem_take h)
  exact ⟨hscored, m.mem_rows_of_mem_scored base vault matched hscored⟩

theorem Muninn.pairwise_vaultMatches :
    (m.vaultMatches vault matched).Pairwise fun row row' ↦ row.id < row'.id := by
  refine m.pairwise_id.sublist ?_
  exact List.filter_sublist.trans ((List.take_sublist _ _).trans List.filter_sublist)

end Candidates

end Lookups

/-! ## The score over the reals -/

noncomputable def temporalPriority (accessCount : UInt32) (lastAccessSec nowSec : UInt64) : ℝ :=
  let lastAccessSec := if lastAccessSec = 0 then nowSec else lastAccessSec
  let daysAgo : ℝ := (nowSec - lastAccessSec).toNat / 86400
  let decay := Real.exp (-0.693 * daysAgo / 7)
  (1 + accessCount).toNat * decay

/-- Digits are compared as the number they write, and no other text as an id. -/
def integerOfDigits (s : Bytes) : Option ℕ :=
  if s ≠ [] ∧ s.all Decimal.isDigit then some (Decimal.digitsValue 0 s) else none

theorem integerOfDigits_printNat (n : ℕ) : integerOfDigits (Decimal.printNat n) = some n := by
  have hdigits : (Decimal.printNat n).all Decimal.isDigit = true :=
    List.all_eq_true.mpr fun _ hb ↦ Decimal.isDigit_of_mem_printNat hb
  rw [integerOfDigits, if_pos ⟨Decimal.printNat_ne_nil n, hdigits⟩, Decimal.digitsValue_printNat]

instance : Std.Total EngramRow.moreRecent := ⟨fun row row' ↦ by
  unfold EngramRow.moreRecent
  grind⟩

instance : IsTrans EngramRow EngramRow.moreRecent := ⟨fun a b c hab hbc ↦ by
  unfold EngramRow.moreRecent at *
  grind⟩

noncomputable def realBase : MuninnBase ℝ where
  integerOf := integerOfDigits
  integerOf_printNat := integerOfDigits_printNat
  orderByRecency := List.insertionSort EngramRow.moreRecent
  perm_orderByRecency := List.perm_insertionSort _
  pairwise_orderByRecency := List.pairwise_insertionSort _
  score accessCount lastAccessSec now confidence :=
    temporalPriority accessCount lastAccessSec now * confidence

end DoctorClaw
