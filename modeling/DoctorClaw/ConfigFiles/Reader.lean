import DoctorClaw.Lib.Scanf
import DoctorClaw.Lib.Strtok

/-!
# Files of `key = value` lines

`auth_load`, `skills_load` and `service_manager_load` read their files in the
same way: they scan each line with `%127[^=] = %511[^\n]`, skip the blanks in
front of the key and compare it with the keys they know.  The blank that the
writers put in front of the equals sign belongs to the key.
-/

namespace DoctorClaw

open CString Scanf

def configLineSize : ℕ := 1024

/-- The key without the blanks in front of it, and the value. -/
def scanAssignment (line : Bytes) : Option (Bytes × Bytes) :=
  (scanSpacedPair 127 511 line).map fun p ↦ (p.1.dropWhile fun c ↦ decide (c = 32), p.2)

/-- The assignments of a file; lines that begin with one of the bytes in `skip`
are passed over. -/
def readAssignments (skip : List UInt8) (file : Bytes) : List (Bytes × Bytes) :=
  ((fgetsLines configLineSize file.length file).map ofBuffer).filterMap fun line ↦
    if line.head?.any fun c ↦ decide (c ∈ skip) then none else scanAssignment line

def assignLine (key : String) (value : Bytes) : Bytes := ascii key ++ ascii " = " ++ value

/-- A text that a line has room for. -/
structure IsFieldText (s : Bytes) : Prop where
  newline : (10 : UInt8) ∉ s
  nul : (0 : UInt8) ∉ s
  length : s.length ≤ 511

instance : DecidablePred IsFieldText := fun s ↦
  decidable_of_iff ((10 : UInt8) ∉ s ∧ (0 : UInt8) ∉ s ∧ s.length ≤ 511)
    ⟨fun h ↦ ⟨h.1, h.2.1, h.2.2⟩, fun h ↦ ⟨h.newline, h.nul, h.length⟩⟩

theorem IsFieldText.nil : IsFieldText [] := ⟨List.not_mem_nil, List.not_mem_nil, Nat.zero_le _⟩

theorem IsFieldText.cut {s : Bytes} (h : IsFieldText s) (size : ℕ) : IsFieldText (cut size s) where
  newline := fun hmem ↦ h.newline (List.mem_of_mem_take hmem)
  nul := fun hmem ↦ h.nul (List.mem_of_mem_take hmem)
  length := (List.length_take_le' _ _).trans h.length

/-- A line that `fgets` reads at once, and from which no key is scanned that is
free of blanks and colons. -/
structure IsForeignLine (line : Bytes) : Prop where
  newline : (10 : UInt8) ∉ line
  length : line.length + 1 < configLineSize
  key : ∀ p, scanAssignment (ofBuffer (line ++ [10])) = some p →
    (32 : UInt8) ∈ p.1 ∨ (58 : UInt8) ∈ p.1

theorem isForeignLine_of_none {line : Bytes} (hnl : (10 : UInt8) ∉ line)
    (hlen : line.length + 1 < configLineSize)
    (hnone : scanAssignment (ofBuffer (line ++ [10])) = none) : IsForeignLine line :=
  ⟨hnl, hlen, fun p hp ↦ by
    rw [hnone] at hp
    cases hp⟩

/-- Words that a written line may begin with. -/
def IsLineWord (word : Bytes) : Prop :=
  word.head?.any (fun c ↦ decide (c ≠ 32)) ∧ (61 : UInt8) ∉ word ∧ (10 : UInt8) ∉ word ∧
    (0 : UInt8) ∉ word ∧ word.length ≤ 100

instance : DecidablePred IsLineWord := fun _ ↦ inferInstanceAs (Decidable (_ ∧ _ ∧ _ ∧ _ ∧ _))

theorem scanAssignment_key {line : Bytes} {p : Bytes × Bytes} (h : scanAssignment line = some p) :
    p.1 = ((line.takeWhile fun c ↦ decide (c ≠ 61)).take 127).dropWhile
      fun c ↦ decide (c = 32) := by
  obtain ⟨q, hq, rfl⟩ := Option.map_eq_some_iff.mp h
  exact congrArg _ (scanSpacedPair_key hq)

/-- A key that is scanned from a line begins with the word of the line. -/
theorem isPrefix_scanned {word rest : Bytes} (hword : IsLineWord word) {p : Bytes × Bytes}
    (h : scanAssignment (word ++ rest) = some p) : word <+: p.1 := by
  obtain ⟨hhead, heq, -, -, hlen⟩ := hword
  have htake : (word ++ rest).takeWhile (fun c ↦ decide (c ≠ 61)) =
      word ++ rest.takeWhile fun c ↦ decide (c ≠ 61) :=
    List.takeWhile_append_of_pos fun c hc ↦ decide_eq_true fun h61 ↦ heq (h61 ▸ hc)
  rw [scanAssignment_key h, htake, List.take_append, List.take_of_length_le (by omega)]
  cases word with
  | nil => cases hhead
  | cons c word =>
      have hc : c ≠ 32 := by simpa using hhead
      rw [List.cons_append, List.dropWhile_cons_of_neg (by simpa using hc)]
      exact List.prefix_append (c :: word) _

/-- A line that begins with a word in which there is a blank or a colon. -/
theorem isForeignLine_append {word value : Bytes} (hword : IsLineWord word)
    (hmark : (32 : UInt8) ∈ word ∨ (58 : UInt8) ∈ word) (hnl : (10 : UInt8) ∉ value)
    (hnul : (0 : UInt8) ∉ value) (hlen : value.length ≤ 600) : IsForeignLine (word ++ value) := by
  have hwlen := hword.2.2.2.2
  refine ⟨by simp [hword.2.2.1, hnl], ?_, fun p hp ↦ ?_⟩
  · rw [List.length_append]
    unfold configLineSize
    omega
  · rw [ofBuffer_eq_self (by simp [hword.2.2.2.1, hnul]), List.append_assoc] at hp
    have hstart := isPrefix_scanned hword hp
    exact hmark.imp (fun h ↦ hstart.subset h) fun h ↦ hstart.subset h

/-- The key that is scanned from a written assignment ends with a blank. -/
theorem isForeignLine_assign {key : String} {value : Bytes}
    (hkey : IsLineWord (ascii key ++ [32])) (hvalue : IsFieldText value) :
    IsForeignLine (assignLine key value) := by
  have hvlen := hvalue.length
  have hsep : ascii " = " = [32] ++ [61, 32] := by decide
  rw [assignLine, hsep, ← List.append_assoc, List.append_assoc]
  refine isForeignLine_append hkey (.inl (by simp)) ?_ ?_ ?_
  · simp [hvalue.newline]
  · simp [hvalue.nul]
  · simp only [List.length_append, List.length_cons, List.length_nil]
    omega

/-- No key the readers know is scanned from a file of foreign lines. -/
theorem readAssignments_foreign {lines : List Bytes} (hlines : ∀ line ∈ lines, IsForeignLine line)
    (skip : List UInt8) {p : Bytes × Bytes}
    (hp : p ∈ readAssignments skip (lines.flatMap fun line ↦ line ++ [10])) :
    (32 : UInt8) ∈ p.1 ∨ (58 : UInt8) ∈ p.1 := by
  rw [readAssignments, fgetsLines_flatMap fun line hline ↦
    ⟨(hlines line hline).newline, (hlines line hline).length⟩, List.map_map,
    List.mem_filterMap] at hp
  obtain ⟨text, htext, hp⟩ := hp
  obtain ⟨line, hline, rfl⟩ := List.mem_map.mp htext
  split_ifs at hp
  exact (hlines line hline).key p hp

/-- Known keys are words. -/
theorem ne_of_foreign {p : Bytes × Bytes} (hp : (32 : UInt8) ∈ p.1 ∨ (58 : UInt8) ∈ p.1)
    {key : Bytes} (hkey : (32 : UInt8) ∉ key ∧ (58 : UInt8) ∉ key) : p.1 ≠ key := by
  rintro rfl
  exact hp.elim hkey.1 hkey.2

/-- A reader that passes over keys it does not know is left where it was. -/
theorem foldl_foreign {σ : Type*} {assign : σ → Bytes × Bytes → σ}
    (hassign : ∀ s p, (32 : UInt8) ∈ p.1 ∨ (58 : UInt8) ∈ p.1 → assign s p = s) {lines : List Bytes}
    (hlines : ∀ line ∈ lines, IsForeignLine line) (skip : List UInt8) (s : σ) :
    (readAssignments skip (lines.flatMap fun line ↦ line ++ [10])).foldl assign s = s :=
  List.foldlRecOn _ assign (motive := fun s' ↦ s' = s) rfl fun s' hs' p hp ↦ by
    rw [hassign s' p (readAssignments_foreign hlines skip hp), hs']

end DoctorClaw
