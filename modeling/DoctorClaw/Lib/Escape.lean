import DoctorClaw.Lib.CString

/-!
# Escaping with a backslash

A table says which bytes are escaped, and by which letter behind the backslash.
A text that is escaped and closed by a quote can be read back, up to the first
quote that is not escaped, once the quote and the backslash are in the table and
the letters can be undone.
-/

namespace Escape

def escapeByte (table : UInt8 → Option UInt8) (c : UInt8) : Bytes :=
  match table c with
  | some e => [92, e]
  | none => [c]

def escape (table : UInt8 → Option UInt8) (s : Bytes) : Bytes := s.flatMap (escapeByte table)

/-- The text up to the first quote that is not escaped, with its escapes undone,
and what follows the quote. -/
def readQuoted (undo : UInt8 → Option UInt8) : Bytes → Option (Bytes × Bytes)
  | [] => none
  | c :: rest =>
      if c = 34 then some ([], rest)
      else if c = 92 then
        match rest with
        | [] => none
        | e :: rest =>
            (undo e).bind fun b ↦ (readQuoted undo rest).map fun p ↦ (b :: p.1, p.2)
      else (readQuoted undo rest).map fun p ↦ (c :: p.1, p.2)

variable {table undo : UInt8 → Option UInt8}

theorem escape_cons (table : UInt8 → Option UInt8) (c : UInt8) (s : Bytes) :
    escape table (c :: s) = escapeByte table c ++ escape table s := rfl

theorem escape_eq_self {s : Bytes} (h : ∀ c ∈ s, table c = none) : escape table s = s := by
  induction s with
  | nil => rfl
  | cons c s ih =>
      rw [List.forall_mem_cons] at h
      rw [escape_cons, escapeByte, h.1, ih h.2]
      rfl

theorem length_escapeByte (table : UInt8 → Option UInt8) (c : UInt8) :
    1 ≤ (escapeByte table c).length ∧ (escapeByte table c).length ≤ 2 := by
  unfold escapeByte
  split <;> simp

theorem length_le_escape (table : UInt8 → Option UInt8) (s : Bytes) :
    s.length ≤ (escape table s).length := by
  induction s with
  | nil => exact Nat.le_refl _
  | cons c s ih =>
      have hbyte := length_escapeByte table c
      rw [escape_cons, List.length_append, List.length_cons]
      omega

theorem length_escape_le (table : UInt8 → Option UInt8) (s : Bytes) :
    (escape table s).length ≤ 2 * s.length := by
  induction s with
  | nil => exact Nat.le_refl _
  | cons c s ih =>
      have hbyte := length_escapeByte table c
      rw [escape_cons, List.length_append, List.length_cons]
      omega

theorem length_lt_escape {s : Bytes} {c : UInt8} (hc : c ∈ s) (h : (table c).isSome) :
    s.length < (escape table s).length := by
  obtain ⟨pre, post, rfl⟩ := List.append_of_mem hc
  obtain ⟨e, he⟩ := Option.isSome_iff_exists.mp h
  have hpre := length_le_escape table pre
  have hpost := length_le_escape table post
  have hsplit : escape table (pre ++ c :: post) =
      escape table pre ++ (92 :: e :: escape table post) := by
    simp [escape, escapeByte, he]
  rw [hsplit]
  simp only [List.length_append, List.length_cons]
  omega

/-- A byte that stands for no other one is in the escaped text only when it was
there before. -/
theorem notMem_escape {c : UInt8} (hc : c ≠ 92) (hletter : ∀ b, table b = some c → b = c)
    {s : Bytes} (hs : c ∉ s) : c ∉ escape table s := by
  intro h
  obtain ⟨b, hb, hmem⟩ := List.mem_flatMap.mp h
  have hne : b ≠ c := fun heq ↦ hs (heq ▸ hb)
  unfold escapeByte at hmem
  cases hbyte : table b with
  | none =>
      rw [hbyte] at hmem
      exact hne (List.mem_singleton.mp hmem).symm
  | some e =>
      rw [hbyte, List.mem_cons, List.mem_singleton] at hmem
      rcases hmem with h92 | rfl
      · exact hc h92
      · exact hne (hletter b hbyte)

theorem escape_append (table : UInt8 → Option UInt8) (s t : Bytes) :
    escape table (s ++ t) = escape table s ++ escape table t := List.flatMap_append

theorem escape_replicate_slash (hslash : table 92 = some 92) (k : ℕ) :
    escape table (List.replicate k 92) = List.replicate (k + k) 92 := by
  induction k with
  | zero => rfl
  | succ k ih =>
      rw [List.replicate_succ, escape_cons, escapeByte, hslash, ih,
        show k + 1 + (k + 1) = k + k + 1 + 1 by omega, List.replicate_succ, List.replicate_succ]
      rfl

/-- With a backslash in front the text can only be backslashes. -/
theorem eq_replicate_of_isPrefix (hslash : table 92 = some 92) {s : Bytes} {k : ℕ}
    (h : s <+: List.replicate (k + 1) 92 ++ escape table s) : s = List.replicate s.length 92 := by
  induction s generalizing k with
  | nil => rfl
  | cons c s ih =>
      rw [List.replicate_succ, List.cons_append, List.cons_prefix_cons] at h
      obtain ⟨rfl, hrest⟩ := h
      have hmore : List.replicate k 92 ++ escape table (92 :: s) =
          List.replicate (k + 1 + 1) 92 ++ escape table s := by
        simp [escape_cons, escapeByte, hslash, List.replicate_succ', List.append_assoc]
      rw [hmore] at hrest
      rw [List.length_cons, List.replicate_succ, ← ih hrest]

/-- A text is the start of what it is escaped to exactly when it has nothing to
escape but backslashes at its end. -/
theorem isPrefix_escape_iff (hslash : table 92 = some 92) {s : Bytes} :
    s <+: escape table s ↔
      ∃ x k, s = x ++ List.replicate k 92 ∧ ∀ c ∈ x, table c = none := by
  constructor
  · intro h
    induction s with
    | nil => exact ⟨[], 0, rfl, List.forall_mem_nil _⟩
    | cons c s ih =>
        rw [escape_cons, escapeByte] at h
        cases hc : table c with
        | none =>
            rw [hc] at h
            obtain ⟨x, k, rfl, hx⟩ := ih (List.cons_prefix_cons.mp h).2
            exact ⟨c :: x, k, rfl, List.forall_mem_cons.mpr ⟨hc, hx⟩⟩
        | some e =>
            rw [hc] at h
            obtain ⟨rfl, hrest⟩ := List.cons_prefix_cons.mp h
            have he : e = 92 := by
              rw [hslash, Option.some.injEq] at hc
              exact hc.symm
            have hall : s = List.replicate s.length 92 :=
              eq_replicate_of_isPrefix hslash (k := 0) (by simpa [he] using hrest)
            refine ⟨[], s.length + 1, ?_, List.forall_mem_nil _⟩
            rw [List.nil_append, List.replicate_succ, ← hall]
  · rintro ⟨x, k, rfl, hx⟩
    rw [escape_append, escape_eq_self hx, List.prefix_append_right_inj,
      escape_replicate_slash hslash]
    exact ⟨List.replicate k 92, List.replicate_append_replicate⟩

theorem readQuoted_quote (undo : UInt8 → Option UInt8) (rest : Bytes) :
    readQuoted undo (34 :: rest) = some ([], rest) := by
  rw [readQuoted.eq_def]
  rfl

theorem readQuoted_slash {e b : UInt8} (h : undo e = some b) (rest : Bytes) :
    readQuoted undo (92 :: e :: rest) =
      (readQuoted undo rest).map fun p ↦ (b :: p.1, p.2) := by
  rw [readQuoted.eq_def]
  exact congrArg (Option.bind · _) h

theorem readQuoted_cons {c : UInt8} (h34 : c ≠ 34) (h92 : c ≠ 92) (rest : Bytes) :
    readQuoted undo (c :: rest) = (readQuoted undo rest).map fun p ↦ (c :: p.1, p.2) := by
  rw [readQuoted.eq_def]
  exact (if_neg h34).trans (if_neg h92)

/-- Reading gives back what was escaped. -/
theorem readQuoted_escape (hundo : ∀ c e, table c = some e → undo e = some c)
    (hquote : (table 34).isSome) (hslash : (table 92).isSome) (s rest : Bytes) :
    readQuoted undo (escape table s ++ 34 :: rest) = some (s, rest) := by
  induction s with
  | nil => exact readQuoted_quote undo rest
  | cons c s ih =>
      rw [escape_cons, escapeByte]
      cases hc : table c with
      | some e =>
          simp only [List.cons_append, List.nil_append]
          rw [readQuoted_slash (hundo c e hc), ih, Option.map_some]
      | none =>
          have h34 : c ≠ 34 := by
            rintro rfl
            rw [hc] at hquote
            cases hquote
          have h92 : c ≠ 92 := by
            rintro rfl
            rw [hc] at hslash
            cases hslash
          simp only [List.cons_append, List.nil_append]
          rw [readQuoted_cons h34 h92, ih, Option.map_some]

/-! ## Quotes and backslashes -/

def quotes (c : UInt8) : Option UInt8 := if c = 34 ∨ c = 92 then some c else none

theorem quotes_eq_none {c : UInt8} (h34 : c ≠ 34) (h92 : c ≠ 92) : quotes c = none := by
  simp [quotes, h34, h92]

theorem escape_quotes_cons (c : UInt8) (s : Bytes) :
    escape quotes (c :: s) =
      if c = 34 ∨ c = 92 then 92 :: c :: escape quotes s else c :: escape quotes s := by
  rw [escape_cons, escapeByte, quotes]
  split_ifs <;> rfl

/-- Doubling the backslashes leaves the other bytes. -/
theorem filter_escape_quotes (s : Bytes) :
    (escape quotes s).filter (fun c ↦ decide (c ≠ 92)) = s.filter fun c ↦ decide (c ≠ 92) := by
  induction s with
  | nil => rfl
  | cons c s ih =>
      rw [escape_cons, List.filter_append, ih, ← List.singleton_append, List.filter_append]
      congr 1
      unfold escapeByte quotes
      split_ifs with hc
      · rcases hc with rfl | rfl <;> rfl
      · rfl

theorem eq_of_quotes {b c : UInt8} (h : quotes b = some c) : b = c := by
  unfold quotes at h
  split_ifs at h
  exact Option.some.inj h

end Escape
