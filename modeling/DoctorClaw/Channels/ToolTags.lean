import DoctorClaw.Channels
import Mathlib.Logic.Relation

/-!
# Stripping tool tags

`strip_tool_calls` looks for a closing bracket behind every tag it meets.  Without
one it goes on behind the terminator of the text.  What is left of a text when its
tags are cut out is not scanned again, so that it can spell a tag itself.
-/

namespace DoctorClaw

open Relation

/-! ## What is read -/

/-- The bytes that `strncmp` reads at `i`, as long as they agree with the
pattern. -/
def strncmpReads : Bytes → Bytes → ℕ → List ℕ
  | p :: ps, c :: mem, i => i :: if c = p then strncmpReads ps mem (i + 1) else []
  | _, _, _ => []

/-- The comparisons with the three tags, up to the first that agrees. -/
def toolTagReads (mem : Bytes) (i : ℕ) : List ℕ :=
  if mem.head? = some 60 then
    strncmpReads (ascii "<tool_call") mem i ++
      if (ascii "<tool_call").isPrefixOf mem then []
      else strncmpReads (ascii "</tool_call") mem i ++
        if (ascii "</tool_call").isPrefixOf mem then []
        else strncmpReads (ascii "<tool_code") mem i
  else []

/-- The loop that looks for the closing bracket. -/
def closingReads : Bytes → ℕ → List ℕ
  | [], i => [i]
  | c :: mem, i => i :: if c = 0 ∨ c = 62 then [] else closingReads mem (i + 1)

/-- The indices that `strip_tool_calls` reads, in the rounds of
`stripToolCallsFrom`. -/
def stripToolCallsReads : ℕ → Bytes → ℕ → ℕ → List ℕ
  | 0, _, _, _ => []
  | _ + 1, [], i, _ => [i]
  | fuel + 1, c :: mem, i, j =>
      i :: if c = 0 ∨ 8191 ≤ j then []
        else toolTagReads (c :: mem) i ++
          if isToolTag (c :: mem) then
            closingReads (c :: mem) i ++
              stripToolCallsReads fuel
                (((c :: mem).dropWhile fun c ↦ c != 0 && c != 62).drop 1)
                (i + ((c :: mem).takeWhile fun c ↦ c != 0 && c != 62).length + 1) j
          else stripToolCallsReads fuel mem (i + 1) (j + 1)

def toolTags : List Bytes := [ascii "<tool_call>", ascii "</tool_call>", ascii "<tool_code>"]

/-- No byte behind the terminator is read, the buffer has room for what is
written, and no tag is left. -/
structure StripsSafely (content behind : Bytes) : Prop where
  reads : ∀ i ∈ stripToolCallsReads (content.length + behind.length + 2)
    (content ++ 0 :: behind) 0 0, i ≤ content.length
  writes : (stripToolCalls content behind).length + 1 ≤ 8192
  no_tag : ∀ tag ∈ toolTags, ¬ tag <:+: stripToolCalls content behind

/-! ## Scanning a text -/

/-- The rest of a text with `kept` bytes of it kept so far. -/
structure TagScan where
  kept : ℕ
  text : Bytes

/-- The rest behind the next closing bracket. -/
def behindTag (s : Bytes) : Bytes := (s.dropWhile fun c ↦ c != 0 && c != 62).drop 1

/-- One round, in a text whose tags are closed. -/
inductive TagScan.Step : TagScan → TagScan → Prop
  | keep {j c s} : j < 8191 → isToolTag (c :: s) = false → Step ⟨j, c :: s⟩ ⟨j + 1, s⟩
  | skip {j s} : j < 8191 → isToolTag s = true → (62 : UInt8) ∈ s → Step ⟨j, s⟩ ⟨j, behindTag s⟩

abbrev TagScan.Reaches : TagScan → TagScan → Prop := ReflTransGen TagScan.Step

/-- A tag here is closed. -/
def TagScan.Closed (x : TagScan) : Prop :=
  x.kept < 8191 → isToolTag x.text = true → (62 : UInt8) ∈ x.text

/-- Every tag that the scan of the text meets is closed. -/
def TagsClosed (content : Bytes) : Prop :=
  ∀ x, TagScan.Reaches ⟨0, content⟩ x → x.Closed

/-- The bytes of `w` follow each other in the text, with nothing but closed tags
between them. -/
inductive Spells : Bytes → Bytes → Prop
  | nil (s) : Spells [] s
  | keep {w c s} : isToolTag (c :: s) = false → Spells w s → Spells (c :: w) (c :: s)
  | skip {w s} : isToolTag s = true → (62 : UInt8) ∈ s → Spells w (behindTag s) → Spells w s

/-- Somewhere in the part of the text that is kept a tag is spelled. -/
def SpellsTag (content : Bytes) : Prop :=
  ∃ x, TagScan.Reaches ⟨0, content⟩ x ∧
    ∃ tag ∈ toolTags, x.kept + tag.length ≤ 8191 ∧ Spells tag x.text

/-- The rounds of a scan that meets closed tags only. -/
inductive ClosedScan : ℕ → Bytes → Prop
  | full {j s} : 8191 ≤ j → ClosedScan j s
  | nil (j) : ClosedScan j []
  | keep {j c s} : j < 8191 → isToolTag (c :: s) = false → ClosedScan (j + 1) s →
      ClosedScan j (c :: s)
  | skip {j s} : j < 8191 → isToolTag s = true → (62 : UInt8) ∈ s → ClosedScan j (behindTag s) →
      ClosedScan j s

/-! ## The memory behind a text -/

section Memory

variable {s behind w : Bytes} {c : UInt8} {fuel i j : ℕ}

theorem isPrefixOf_append_zero {p : Bytes} (hp : (0 : UInt8) ∉ p) (s behind : Bytes) :
    p.isPrefixOf (s ++ 0 :: behind) = p.isPrefixOf s := by
  induction p generalizing s with
  | nil => cases s <;> rfl
  | cons b p ih =>
      obtain ⟨hb, hp⟩ := not_or.mp (mt List.mem_cons.mpr hp)
      cases s with
      | nil => simp [List.isPrefixOf, beq_eq_false_iff_ne.mpr (Ne.symm hb)]
      | cons c s => rw [List.cons_append, List.isPrefixOf, List.isPrefixOf, ih hp]

/-- The memory behind the terminator does not make a tag. -/
theorem isToolTag_append_zero (s behind : Bytes) :
    isToolTag (s ++ 0 :: behind) = isToolTag s := by
  unfold isToolTag
  rw [isPrefixOf_append_zero (by decide), isPrefixOf_append_zero (by decide),
    isPrefixOf_append_zero (by decide)]

theorem isToolTag_nil : isToolTag [] = false := by decide

theorem behindTag_append_zero_of_mem (hs : (0 : UInt8) ∉ s) (h : (62 : UInt8) ∈ s)
    (behind : Bytes) : behindTag (s ++ 0 :: behind) = behindTag s ++ 0 :: behind := by
  induction s with
  | nil => cases h
  | cons c s ih =>
      obtain ⟨hc, hs⟩ := not_or.mp (mt List.mem_cons.mpr hs)
      by_cases hclose : c = 62
      · subst hclose
        rfl
      · have hgo : (c != 0 && c != 62) = true := by
          simp [Ne.symm hc, hclose]
        have hstep : ∀ mem, behindTag (c :: mem) = behindTag mem := fun mem ↦ by
          rw [behindTag, List.dropWhile_cons_of_pos (p := fun c ↦ c != 0 && c != 62) hgo, behindTag]
        rw [List.cons_append, hstep, hstep]
        exact ih hs ((List.mem_cons.mp h).resolve_left (Ne.symm hclose))

theorem behindTag_append_zero_of_notMem (hs : (0 : UInt8) ∉ s) (h : (62 : UInt8) ∉ s)
    (behind : Bytes) : behindTag (s ++ 0 :: behind) = behind := by
  have hgo : ∀ c ∈ s, (c != 0 && c != 62) = true := by
    intro c hc
    have hzero : c ≠ 0 := fun heq ↦ hs (heq ▸ hc)
    have hclose : c ≠ 62 := fun heq ↦ h (heq ▸ hc)
    simp [hzero, hclose]
  unfold behindTag
  rw [List.dropWhile_append_of_pos hgo]
  rfl

theorem behindTag_suffix (s : Bytes) : behindTag s <:+ s :=
  (List.drop_suffix _ _).trans (List.dropWhile_suffix _)

theorem length_behindTag_lt (h : s ≠ []) : (behindTag s).length < s.length := by
  have hle := (List.dropWhile_suffix fun c ↦ c != 0 && c != 62 : _ <:+ s).length_le
  have hpos := List.length_pos_iff.mpr h
  rw [behindTag, List.length_drop]
  omega

/-! ## Rounds of the loop -/

theorem closedScan_of_closed (h : ∀ x, TagScan.Reaches ⟨j, s⟩ x → x.Closed) :
    ClosedScan j s := by
  induction hn : s.length using Nat.strong_induction_on generalizing s j with
  | h n ih =>
      subst hn
      by_cases hj : j < 8191
      · cases s with
        | nil => exact .nil j
        | cons c s =>
            cases htag : isToolTag (c :: s) with
            | false =>
                have hrest : ∀ x, TagScan.Reaches ⟨j + 1, s⟩ x → x.Closed :=
                  fun x hx ↦ h x (hx.head (.keep hj htag))
                exact .keep hj htag (ih s.length (Nat.lt_succ_self _) hrest rfl)
            | true =>
                have hclose := h ⟨j, c :: s⟩ .refl hj htag
                have hrest : ∀ x, TagScan.Reaches ⟨j, behindTag (c :: s)⟩ x → x.Closed :=
                  fun x hx ↦ h x (hx.head (.skip hj htag hclose))
                have hlt := length_behindTag_lt (List.cons_ne_nil c s)
                exact .skip hj htag hclose (ih _ hlt hrest rfl)
      · exact .full (not_lt.mp hj)

theorem stripToolCallsFrom_end (fuel : ℕ) (behind : Bytes) (j : ℕ) :
    stripToolCallsFrom fuel (0 :: behind) j = [] := by
  cases fuel with
  | zero => rfl
  | succ fuel => rw [stripToolCallsFrom, if_pos (.inl rfl)]

theorem stripToolCallsFrom_full (h : 8191 ≤ j) (fuel : ℕ) (mem : Bytes) :
    stripToolCallsFrom fuel mem j = [] := by
  cases fuel with
  | zero => rfl
  | succ fuel =>
      cases mem with
      | nil => rfl
      | cons c mem => rw [stripToolCallsFrom, if_pos (.inr h)]

theorem stripToolCallsFrom_keep (hc : c ≠ 0) (hj : j < 8191) (htag : isToolTag (c :: s) = false) :
    stripToolCallsFrom (fuel + 1) (c :: s ++ 0 :: behind) j =
      c :: stripToolCallsFrom fuel (s ++ 0 :: behind) (j + 1) := by
  have hmem := isToolTag_append_zero (c :: s) behind
  rw [htag, List.cons_append] at hmem
  rw [List.cons_append, stripToolCallsFrom, if_neg (by simp [hc, hj]), hmem,
    if_neg Bool.false_ne_true]

theorem stripToolCallsFrom_skip (hs : (0 : UInt8) ∉ s) (hj : j < 8191)
    (htag : isToolTag s = true) :
    stripToolCallsFrom (fuel + 1) (s ++ 0 :: behind) j =
      stripToolCallsFrom fuel (behindTag (s ++ 0 :: behind)) j := by
  cases s with
  | nil => exact absurd htag (by decide)
  | cons c s =>
      have hc : c ≠ 0 := fun h ↦ hs (h ▸ List.mem_cons_self)
      have hmem := isToolTag_append_zero (c :: s) behind
      rw [htag, List.cons_append] at hmem
      rw [List.cons_append, stripToolCallsFrom, if_neg (by simp [hc, hj]), if_pos hmem]
      rfl

theorem length_stripToolCallsFrom (fuel : ℕ) (mem : Bytes) (j : ℕ) :
    (stripToolCallsFrom fuel mem j).length ≤ 8191 - j := by
  induction fuel generalizing mem j with
  | zero => exact Nat.zero_le _
  | succ fuel ih =>
      cases mem with
      | nil => exact Nat.zero_le _
      | cons c mem =>
          rw [stripToolCallsFrom]
          split_ifs with hstop htag
          · exact Nat.zero_le _
          · exact ih _ j
          · obtain ⟨-, hj⟩ := not_or.mp hstop
            have hle := ih mem (j + 1)
            rw [List.length_cons]
            omega

end Memory

/-! ## What is left -/

section Output

variable {s behind w : Bytes} {fuel j : ℕ}

theorem Spells.isPrefix (h : Spells w s) (hs : (0 : UInt8) ∉ s)
    (hlen : j + w.length ≤ 8191) (hfuel : s.length < fuel) :
    w <+: stripToolCallsFrom fuel (s ++ 0 :: behind) j := by
  induction h generalizing fuel j with
  | nil s => exact List.nil_prefix
  | @keep w c s htag _ ih =>
      rw [List.length_cons] at hlen hfuel
      obtain ⟨hc, hs⟩ := not_or.mp (mt List.mem_cons.mpr hs)
      obtain ⟨fuel, rfl⟩ : ∃ n, fuel = n + 1 := ⟨fuel - 1, by omega⟩
      rw [stripToolCallsFrom_keep (Ne.symm hc) (by omega) htag]
      exact List.cons_prefix_cons.mpr ⟨rfl, ih hs (by omega) (by omega)⟩
  | @skip w s htag hclose _ ih =>
      have hne : s ≠ [] := List.ne_nil_of_mem hclose
      have hlt := length_behindTag_lt hne
      have hrest : (0 : UInt8) ∉ behindTag s := fun h ↦ hs ((behindTag_suffix s).mem h)
      obtain ⟨fuel, rfl⟩ : ∃ n, fuel = n + 1 := ⟨fuel - 1, by omega⟩
      by_cases hj : j < 8191
      · rw [stripToolCallsFrom_skip hs hj htag, behindTag_append_zero_of_mem hs hclose]
        exact ih hrest hlen (by omega)
      · have hnil : w = [] := List.length_eq_zero_iff.mp (by omega)
        rw [hnil]
        exact List.nil_prefix

/-- A scan without unclosed tags keeps what the text spells. -/
theorem spells_of_isPrefix (hs : (0 : UInt8) ∉ s) (hscan : ClosedScan j s)
    (hfuel : s.length < fuel) (h : w <+: stripToolCallsFrom fuel (s ++ 0 :: behind) j) :
    Spells w s := by
  induction hscan generalizing fuel w with
  | full hj =>
      rw [stripToolCallsFrom_full hj, List.prefix_nil] at h
      rw [h]
      exact .nil _
  | nil j =>
      rw [List.nil_append, stripToolCallsFrom_end, List.prefix_nil] at h
      rw [h]
      exact .nil []
  | @keep j c s hj htag _ ih =>
      obtain ⟨fuel, rfl⟩ : ∃ n, fuel = n + 1 := ⟨fuel - 1, by omega⟩
      obtain ⟨hc, hrest⟩ := not_or.mp (mt List.mem_cons.mpr hs)
      rw [stripToolCallsFrom_keep (Ne.symm hc) hj htag, List.prefix_cons_iff] at h
      rcases h with rfl | ⟨t, rfl, ht⟩
      · exact .nil _
      · exact .keep htag (ih hrest (Nat.lt_of_succ_lt_succ hfuel) ht)
  | @skip j s hj htag hclose _ ih =>
      obtain ⟨fuel, rfl⟩ : ∃ n, fuel = n + 1 := ⟨fuel - 1, by omega⟩
      have hlt := length_behindTag_lt (List.ne_nil_of_mem hclose)
      rw [stripToolCallsFrom_skip hs hj htag, behindTag_append_zero_of_mem hs hclose] at h
      exact .skip htag hclose
        (ih (fun h ↦ hs ((behindTag_suffix _).mem h)) (by omega) h)

/-- A tag is left exactly when the text spells it somewhere. -/
theorem isInfix_stripToolCallsFrom_iff (hw : w ≠ []) (hs : (0 : UInt8) ∉ s)
    (hscan : ClosedScan j s) (hfuel : s.length < fuel) :
    w <:+: stripToolCallsFrom fuel (s ++ 0 :: behind) j ↔
      ∃ x, TagScan.Reaches ⟨j, s⟩ x ∧ x.kept + w.length ≤ 8191 ∧ Spells w x.text := by
  constructor
  · intro h
    induction hscan generalizing fuel with
    | full hj =>
        rw [stripToolCallsFrom_full hj] at h
        exact absurd (List.infix_nil.mp h) hw
    | nil j =>
        rw [List.nil_append, stripToolCallsFrom_end] at h
        exact absurd (List.infix_nil.mp h) hw
    | @keep j c s hj htag hscan ih =>
        have hlen := h.length_le.trans (length_stripToolCallsFrom fuel _ j)
        obtain ⟨fuel, rfl⟩ : ∃ n, fuel = n + 1 := ⟨fuel - 1, by omega⟩
        obtain ⟨hc, hrest⟩ := not_or.mp (mt List.mem_cons.mpr hs)
        have hkept : stripToolCallsFrom (fuel + 1) (c :: s ++ 0 :: behind) j =
            c :: stripToolCallsFrom fuel (s ++ 0 :: behind) (j + 1) :=
          stripToolCallsFrom_keep (Ne.symm hc) hj htag
        rw [hkept] at h
        rcases List.infix_cons_iff.mp h with hpre | hlater
        · rw [← hkept] at hpre
          exact ⟨⟨j, c :: s⟩, .refl, by dsimp only; omega,
            spells_of_isPrefix hs (.keep hj htag hscan) hfuel hpre⟩
        · obtain ⟨x, hx, hx'⟩ := ih hrest (Nat.lt_of_succ_lt_succ hfuel) hlater
          exact ⟨x, hx.head (.keep hj htag), hx'⟩
    | @skip j s hj htag hclose _ ih =>
        obtain ⟨fuel, rfl⟩ : ∃ n, fuel = n + 1 := ⟨fuel - 1, by omega⟩
        have hlt := length_behindTag_lt (List.ne_nil_of_mem hclose)
        rw [stripToolCallsFrom_skip hs hj htag, behindTag_append_zero_of_mem hs hclose] at h
        obtain ⟨x, hx, hx'⟩ := ih (fun h ↦ hs ((behindTag_suffix _).mem h)) (by omega) h
        exact ⟨x, hx.head (.skip hj htag hclose), hx'⟩
  · rintro ⟨x, hx, hlen, hspells⟩
    clear hscan
    generalize hy : (⟨j, s⟩ : TagScan) = y at hx
    induction hx using ReflTransGen.head_induction_on generalizing s j fuel with
    | refl =>
        subst hy
        exact (hspells.isPrefix hs hlen hfuel).isInfix
    | head hstep _ ih =>
        subst hy
        obtain ⟨fuel, rfl⟩ : ∃ n, fuel = n + 1 := ⟨fuel - 1, by omega⟩
        cases hstep with
        | @keep _ c s hj htag =>
            obtain ⟨hc, hrest⟩ := not_or.mp (mt List.mem_cons.mpr hs)
            rw [stripToolCallsFrom_keep (Ne.symm hc) hj htag]
            exact List.infix_cons (ih hrest (Nat.lt_of_succ_lt_succ hfuel) rfl)
        | skip hj htag hclose =>
            have hlt := length_behindTag_lt (List.ne_nil_of_mem hclose)
            rw [stripToolCallsFrom_skip hs hj htag, behindTag_append_zero_of_mem hs hclose]
            exact ih (fun h ↦ hs ((behindTag_suffix _).mem h)) (by omega) rfl

theorem length_stripToolCallsFrom_le (hs : (0 : UInt8) ∉ s) (hscan : ClosedScan j s)
    (hfuel : s.length < fuel) :
    (stripToolCallsFrom fuel (s ++ 0 :: behind) j).length ≤ s.length := by
  induction hscan generalizing fuel with
  | full hj =>
      rw [stripToolCallsFrom_full hj]
      exact Nat.zero_le _
  | nil j => rw [List.nil_append, stripToolCallsFrom_end]
  | @keep j c s hj htag _ ih =>
      obtain ⟨fuel, rfl⟩ : ∃ n, fuel = n + 1 := ⟨fuel - 1, by omega⟩
      obtain ⟨hc, hrest⟩ := not_or.mp (mt List.mem_cons.mpr hs)
      rw [stripToolCallsFrom_keep (Ne.symm hc) hj htag]
      exact Nat.succ_le_succ (ih hrest (Nat.lt_of_succ_lt_succ hfuel))
  | @skip j s hj htag hclose _ ih =>
      obtain ⟨fuel, rfl⟩ : ∃ n, fuel = n + 1 := ⟨fuel - 1, by omega⟩
      have hlt := length_behindTag_lt (List.ne_nil_of_mem hclose)
      rw [stripToolCallsFrom_skip hs hj htag, behindTag_append_zero_of_mem hs hclose]
      exact (ih (fun h ↦ hs ((behindTag_suffix _).mem h)) (by omega)).trans hlt.le

/-- What stands behind a text whose tags are closed does not matter. -/
theorem stripToolCallsFrom_behind (hs : (0 : UInt8) ∉ s) (hscan : ClosedScan j s) {fuel' : ℕ}
    (hfuel : s.length < fuel) (hfuel' : s.length < fuel') (behind' : Bytes) :
    stripToolCallsFrom fuel (s ++ 0 :: behind) j =
      stripToolCallsFrom fuel' (s ++ 0 :: behind') j := by
  induction hscan generalizing fuel fuel' with
  | full hj => rw [stripToolCallsFrom_full hj, stripToolCallsFrom_full hj]
  | nil j => rw [List.nil_append, List.nil_append, stripToolCallsFrom_end, stripToolCallsFrom_end]
  | @keep j c s hj htag _ ih =>
      obtain ⟨fuel, rfl⟩ : ∃ n, fuel = n + 1 := ⟨fuel - 1, by omega⟩
      obtain ⟨fuel', rfl⟩ : ∃ n, fuel' = n + 1 := ⟨fuel' - 1, by omega⟩
      obtain ⟨hc, hrest⟩ := not_or.mp (mt List.mem_cons.mpr hs)
      rw [stripToolCallsFrom_keep (Ne.symm hc) hj htag,
        stripToolCallsFrom_keep (Ne.symm hc) hj htag,
        ih hrest (Nat.lt_of_succ_lt_succ hfuel) (Nat.lt_of_succ_lt_succ hfuel')]
  | @skip j s hj htag hclose _ ih =>
      obtain ⟨fuel, rfl⟩ : ∃ n, fuel = n + 1 := ⟨fuel - 1, by omega⟩
      obtain ⟨fuel', rfl⟩ : ∃ n, fuel' = n + 1 := ⟨fuel' - 1, by omega⟩
      have hlt := length_behindTag_lt (List.ne_nil_of_mem hclose)
      rw [stripToolCallsFrom_skip hs hj htag, stripToolCallsFrom_skip hs hj htag,
        behindTag_append_zero_of_mem hs hclose, behindTag_append_zero_of_mem hs hclose]
      exact ih (fun h ↦ hs ((behindTag_suffix _).mem h)) (by omega) (by omega)

theorem stripToolCalls_behind {content : Bytes} (hzero : (0 : UInt8) ∉ content)
    (hclosed : TagsClosed content) (behind behind' : Bytes) :
    stripToolCalls content behind = stripToolCalls content behind' :=
  stripToolCallsFrom_behind hzero (closedScan_of_closed hclosed) (by omega) (by omega) behind'

theorem length_stripToolCallsFrom_replicate {n : ℕ} (hfuel : n < fuel) :
    (stripToolCallsFrom fuel (List.replicate n 97) j).length = min n (8191 - j) := by
  induction n generalizing fuel j with
  | zero =>
      obtain ⟨fuel, rfl⟩ : ∃ n, fuel = n + 1 := ⟨fuel - 1, by omega⟩
      rw [Nat.zero_min]
      rfl
  | succ n ih =>
      obtain ⟨fuel, rfl⟩ : ∃ n, fuel = n + 1 := ⟨fuel - 1, by omega⟩
      by_cases hj : j < 8191
      · have htag : isToolTag (97 :: List.replicate n 97) = false := rfl
        rw [List.replicate_succ, stripToolCallsFrom, if_neg (by simp [hj]), htag,
          if_neg Bool.false_ne_true, List.length_cons, ih (Nat.lt_of_succ_lt_succ hfuel)]
        omega
      · rw [stripToolCallsFrom_full (not_lt.mp hj), List.length_nil]
        omega

/-- Behind an unclosed tag the memory behind the text is kept. -/
theorem le_length_stripToolCallsFrom {x : TagScan} (hx : TagScan.Reaches ⟨j, s⟩ x)
    (hopen : ¬ x.Closed) (hs : (0 : UInt8) ∉ s) {n : ℕ} (hfuel : s.length + n < fuel) :
    min n (8191 - j) ≤
      (stripToolCallsFrom fuel (s ++ 0 :: List.replicate n 97) j).length := by
  generalize hy : (⟨j, s⟩ : TagScan) = y at hx
  induction hx using ReflTransGen.head_induction_on generalizing s j fuel with
  | refl =>
      subst hy
      unfold TagScan.Closed at hopen
      push Not at hopen
      obtain ⟨hj, htag, hclose⟩ := hopen
      have hne : s ≠ [] := by
        rintro rfl
        exact Bool.false_ne_true (isToolTag_nil.symm.trans htag)
      have hpos := List.length_pos_iff.mpr hne
      obtain ⟨fuel, rfl⟩ : ∃ n, fuel = n + 1 := ⟨fuel - 1, by omega⟩
      rw [stripToolCallsFrom_skip hs hj htag, behindTag_append_zero_of_notMem hs hclose,
        length_stripToolCallsFrom_replicate (by omega)]
  | head hstep _ ih =>
      subst hy
      obtain ⟨fuel, rfl⟩ : ∃ n, fuel = n + 1 := ⟨fuel - 1, by omega⟩
      cases hstep with
      | @keep _ c s hj htag =>
          obtain ⟨hc, hrest⟩ := not_or.mp (mt List.mem_cons.mpr hs)
          have hroom : s.length + n < fuel := by
            rw [List.length_cons] at hfuel
            omega
          have hlater := ih hrest hroom rfl
          rw [stripToolCallsFrom_keep (Ne.symm hc) hj htag, List.length_cons]
          omega
      | skip hj htag hclose =>
          have hlt := length_behindTag_lt (List.ne_nil_of_mem hclose)
          rw [stripToolCallsFrom_skip hs hj htag, behindTag_append_zero_of_mem hs hclose]
          exact ih (fun h ↦ hs ((behindTag_suffix _).mem h)) (by omega) rfl

end Output

/-! ## What is read of a text -/

section Reads

variable {s behind : Bytes} {c : UInt8} {fuel i j k : ℕ}

/-- A comparison ends at the terminator, which no pattern has. -/
theorem le_of_mem_strncmpReads {p : Bytes} (hp : (0 : UInt8) ∉ p)
    (h : k ∈ strncmpReads p (s ++ 0 :: behind) i) : k ≤ i + s.length := by
  induction p generalizing s i with
  | nil => cases h
  | cons b p ih =>
      obtain ⟨hb, hp⟩ := not_or.mp (mt List.mem_cons.mpr hp)
      cases s with
      | nil =>
          rw [List.nil_append, strncmpReads, if_neg hb, List.mem_singleton] at h
          rw [h, List.length_nil, Nat.add_zero]
      | cons c s =>
          rw [List.cons_append, strncmpReads, List.mem_cons] at h
          rw [List.length_cons]
          rcases h with rfl | h
          · omega
          · split_ifs at h
            · have hle := ih hp h
              omega
            · cases h

theorem le_of_mem_toolTagReads (h : k ∈ toolTagReads (s ++ 0 :: behind) i) :
    k ≤ i + s.length := by
  unfold toolTagReads at h
  split_ifs at h with hfirst hopen hclose
  · rw [List.append_nil] at h
    exact le_of_mem_strncmpReads (by decide) h
  · rw [List.append_nil, List.mem_append] at h
    exact h.elim (le_of_mem_strncmpReads (by decide)) (le_of_mem_strncmpReads (by decide))
  · rw [List.mem_append, List.mem_append] at h
    rcases h with h | h | h <;> exact le_of_mem_strncmpReads (by decide) h
  · cases h

theorem le_of_mem_closingReads (h : k ∈ closingReads (s ++ 0 :: behind) i) :
    k ≤ i + s.length := by
  induction s generalizing i with
  | nil =>
      rw [List.nil_append, closingReads, if_pos (.inl rfl), List.mem_singleton] at h
      rw [h, List.length_nil, Nat.add_zero]
  | cons c s ih =>
      rw [List.cons_append, closingReads, List.mem_cons] at h
      rw [List.length_cons]
      rcases h with rfl | h
      · omega
      · split_ifs at h
        · cases h
        · have hle := ih h
          omega

theorem length_takeWhile_behindTag (s behind : Bytes) :
    ((s ++ 0 :: behind).takeWhile fun c ↦ c != 0 && c != 62).length + 1 +
      (behindTag (s ++ 0 :: behind)).length = s.length + 1 + behind.length := by
  have hsplit := congrArg List.length
    (List.takeWhile_append_dropWhile (p := fun c : UInt8 ↦ c != 0 && c != 62)
      (l := s ++ 0 :: behind))
  have hne : (s ++ 0 :: behind).dropWhile (fun c ↦ c != 0 && c != 62) ≠ [] := by
    intro hnil
    have hall := List.dropWhile_eq_nil_iff.mp hnil 0
      (List.mem_append_right s List.mem_cons_self)
    exact absurd hall (by decide)
  have hpos := List.length_pos_iff.mpr hne
  rw [List.length_append, List.length_append, List.length_cons] at hsplit
  rw [behindTag, List.length_drop]
  omega

theorem stripToolCallsReads_stop (h : c = 0 ∨ 8191 ≤ j) (mem : Bytes) :
    stripToolCallsReads (fuel + 1) (c :: mem) i j = [i] := by
  rw [stripToolCallsReads, if_pos h]

theorem stripToolCallsReads_keep (hc : c ≠ 0) (hj : j < 8191)
    (htag : isToolTag (c :: s) = false) :
    stripToolCallsReads (fuel + 1) (c :: s ++ 0 :: behind) i j =
      i :: (toolTagReads (c :: s ++ 0 :: behind) i ++
        stripToolCallsReads fuel (s ++ 0 :: behind) (i + 1) (j + 1)) := by
  have hmem := isToolTag_append_zero (c :: s) behind
  rw [htag, List.cons_append] at hmem
  rw [List.cons_append, stripToolCallsReads, if_neg (by simp [hc, hj]), hmem,
    if_neg Bool.false_ne_true]

theorem stripToolCallsReads_skip (hs : (0 : UInt8) ∉ s) (hj : j < 8191)
    (htag : isToolTag s = true) :
    stripToolCallsReads (fuel + 1) (s ++ 0 :: behind) i j =
      i :: (toolTagReads (s ++ 0 :: behind) i ++ (closingReads (s ++ 0 :: behind) i ++
        stripToolCallsReads fuel (behindTag (s ++ 0 :: behind))
          (i + ((s ++ 0 :: behind).takeWhile fun c ↦ c != 0 && c != 62).length + 1) j)) := by
  cases s with
  | nil => exact absurd htag (by decide)
  | cons c s =>
      have hc : c ≠ 0 := fun h ↦ hs (h ▸ List.mem_cons_self)
      have hmem := isToolTag_append_zero (c :: s) behind
      rw [htag, List.cons_append] at hmem
      rw [List.cons_append, stripToolCallsReads, if_neg (by simp [hc, hj]), if_pos hmem]
      rfl

/-- As long as the tags are closed, nothing behind the terminator is read. -/
theorem le_of_mem_stripToolCallsReads (hs : (0 : UInt8) ∉ s) (hscan : ClosedScan j s)
    (hfuel : s.length < fuel) (h : k ∈ stripToolCallsReads fuel (s ++ 0 :: behind) i j) :
    k ≤ i + s.length := by
  induction hscan generalizing fuel i with
  | @full j s hj =>
      obtain ⟨fuel, rfl⟩ : ∃ n, fuel = n + 1 := ⟨fuel - 1, by omega⟩
      obtain ⟨c, mem, hmem⟩ := List.exists_cons_of_ne_nil
        (List.append_ne_nil_of_right_ne_nil s (List.cons_ne_nil 0 behind))
      rw [hmem, stripToolCallsReads_stop (.inr hj), List.mem_singleton] at h
      rw [h]
      exact Nat.le_add_right i _
  | nil j =>
      obtain ⟨fuel, rfl⟩ : ∃ n, fuel = n + 1 := ⟨fuel - 1, by omega⟩
      rw [List.nil_append, stripToolCallsReads_stop (.inl rfl), List.mem_singleton] at h
      rw [h, List.length_nil, Nat.add_zero]
  | @keep j c s hj htag _ ih =>
      obtain ⟨fuel, rfl⟩ : ∃ n, fuel = n + 1 := ⟨fuel - 1, by omega⟩
      obtain ⟨hc, hrest⟩ := not_or.mp (mt List.mem_cons.mpr hs)
      rw [stripToolCallsReads_keep (Ne.symm hc) hj htag, List.mem_cons, List.mem_append] at h
      rcases h with rfl | h | h
      · exact Nat.le_add_right k _
      · exact le_of_mem_toolTagReads h
      · have hle := ih hrest (Nat.lt_of_succ_lt_succ hfuel) h
        rw [List.length_cons]
        omega
  | @skip j s hj htag hclose _ ih =>
      obtain ⟨fuel, rfl⟩ : ∃ n, fuel = n + 1 := ⟨fuel - 1, by omega⟩
      have hlt := length_behindTag_lt (List.ne_nil_of_mem hclose)
      have hnext := length_takeWhile_behindTag s behind
      rw [stripToolCallsReads_skip hs hj htag, List.mem_cons, List.mem_append,
        List.mem_append] at h
      rw [behindTag_append_zero_of_mem hs hclose] at h hnext
      rw [List.length_append, List.length_cons (a := 0)] at hnext
      rcases h with rfl | h | h | h
      · exact Nat.le_add_right k _
      · exact le_of_mem_toolTagReads h
      · exact le_of_mem_closingReads h
      · have hle := ih (fun h ↦ hs ((behindTag_suffix _).mem h)) (by omega) h
        omega

/-- Behind an unclosed tag the byte after the terminator is read. -/
theorem mem_stripToolCallsReads {x : TagScan} (hx : TagScan.Reaches ⟨j, s⟩ x)
    (hopen : ¬ x.Closed) (hs : (0 : UInt8) ∉ s) (hfuel : s.length < fuel) (behind : Bytes) :
    i + s.length + 1 ∈ stripToolCallsReads fuel (s ++ 0 :: behind) i j := by
  generalize hy : (⟨j, s⟩ : TagScan) = y at hx
  induction hx using ReflTransGen.head_induction_on generalizing s i j fuel with
  | refl =>
      subst hy
      unfold TagScan.Closed at hopen
      push Not at hopen
      obtain ⟨hj, htag, hclose⟩ := hopen
      have hne : s ≠ [] := by
        rintro rfl
        exact Bool.false_ne_true (isToolTag_nil.symm.trans htag)
      have hpos := List.length_pos_iff.mpr hne
      have hnext := length_takeWhile_behindTag s behind
      obtain ⟨fuel, rfl⟩ : ∃ n, fuel = n + 2 := ⟨fuel - 2, by omega⟩
      rw [stripToolCallsReads_skip hs hj htag]
      rw [behindTag_append_zero_of_notMem hs hclose] at hnext ⊢
      have hindex : i + ((s ++ 0 :: behind).takeWhile fun c ↦ c != 0 && c != 62).length + 1 =
          i + s.length + 1 := by omega
      rw [hindex]
      refine List.mem_cons_of_mem _ (List.mem_append_right _ (List.mem_append_right _ ?_))
      cases behind <;> exact List.mem_cons_self
  | head hstep _ ih =>
      subst hy
      obtain ⟨fuel, rfl⟩ : ∃ n, fuel = n + 1 := ⟨fuel - 1, by omega⟩
      cases hstep with
      | @keep _ c s hj htag =>
          obtain ⟨hc, hrest⟩ := not_or.mp (mt List.mem_cons.mpr hs)
          rw [stripToolCallsReads_keep (Ne.symm hc) hj htag]
          refine List.mem_cons_of_mem _ (List.mem_append_right _ ?_)
          have hmem := ih (i := i + 1) hrest (Nat.lt_of_succ_lt_succ hfuel) rfl
          rwa [Nat.add_assoc i 1, Nat.add_comm 1] at hmem
      | skip hj htag hclose =>
          have hlt : (behindTag s).length < fuel :=
            (length_behindTag_lt (List.ne_nil_of_mem hclose)).trans_le (Nat.le_of_lt_succ hfuel)
          have hnext := length_takeWhile_behindTag s behind
          rw [stripToolCallsReads_skip hs hj htag]
          rw [behindTag_append_zero_of_mem hs hclose] at hnext ⊢
          rw [List.length_append, List.length_cons] at hnext
          refine List.mem_cons_of_mem _ (List.mem_append_right _ (List.mem_append_right _ ?_))
          have hmem := ih
            (i := i + ((s ++ 0 :: behind).takeWhile fun c ↦ c != 0 && c != 62).length + 1)
            (fun h ↦ hs ((behindTag_suffix _).mem h)) hlt rfl
          have hindex : i + s.length + 1 =
              i + ((s ++ 0 :: behind).takeWhile fun c ↦ c != 0 && c != 62).length + 1 +
                (behindTag s).length + 1 := by omega
          rwa [hindex]

end Reads

/-! ## Which texts are stripped safely -/

/-- A text is stripped safely exactly when each of its tags is closed and it does
not spell a tag. -/
theorem stripToolCalls_safe_iff {content : Bytes} (h : (0 : UInt8) ∉ content) (behind : Bytes) :
    StripsSafely content behind ↔ TagsClosed content ∧ ¬ SpellsTag content := by
  have hfuel : content.length < content.length + behind.length + 2 := by omega
  have htags : ∀ tag ∈ toolTags, tag ≠ [] := by decide
  have hleft (hclosed : TagsClosed content) {tag : Bytes} (htag : tag ∈ toolTags) :
      tag <:+: stripToolCalls content behind ↔
        ∃ x, TagScan.Reaches ⟨0, content⟩ x ∧ x.kept + tag.length ≤ 8191 ∧ Spells tag x.text :=
    isInfix_stripToolCallsFrom_iff (htags tag htag) h (closedScan_of_closed hclosed) hfuel
  constructor
  · intro hsafe
    have hclosed : TagsClosed content := by
      intro x hx
      by_contra hopen
      have hread := mem_stripToolCallsReads (i := 0) hx hopen h hfuel behind
      have hle := hsafe.reads _ hread
      omega
    refine ⟨hclosed, ?_⟩
    rintro ⟨x, hx, tag, htag, hlen, hspells⟩
    exact hsafe.no_tag tag htag ((hleft hclosed htag).mpr ⟨x, hx, hlen, hspells⟩)
  · rintro ⟨hclosed, hspells⟩
    refine ⟨fun i hi ↦ ?_, ?_, fun tag htag hinfix ↦ ?_⟩
    · have hle := le_of_mem_stripToolCallsReads h (closedScan_of_closed hclosed) hfuel hi
      omega
    · have hle := length_stripToolCallsFrom (content.length + behind.length + 2)
        (content ++ 0 :: behind) 0
      unfold stripToolCalls
      omega
    · obtain ⟨x, hx, hlen, hspell⟩ := (hleft hclosed htag).mp hinfix
      exact hspells ⟨x, hx, tag, htag, hlen, hspell⟩

theorem stripToolCalls_safe_iff_closed_tag :
    (0 : UInt8) ∉ ascii "<tool_call>x" ∧
      (StripsSafely (ascii "<tool_call>x") [] ↔
        TagsClosed (ascii "<tool_call>x") ∧ ¬ SpellsTag (ascii "<tool_call>x")) :=
  ⟨by decide, stripToolCalls_safe_iff (by decide) []⟩

/-- A tag without a bracket, and one that is spelled around another one. -/
theorem tags_not_stripped_safely :
    ¬ StripsSafely (ascii "<tool_call") [] ∧
      ¬ StripsSafely (ascii "<tool_<tool_call>call>") [] := by
  refine ⟨fun h ↦ absurd (h.reads 11 (by decide)) (by decide), fun h ↦ ?_⟩
  exact h.no_tag (ascii "<tool_call>") (by decide) ⟨[], [], by decide⟩

end DoctorClaw
