import DoctorClaw.Lib.BufferWriter
import DoctorClaw.Lib.FirstByKey
import DoctorClaw.Lib.CellReader

/-!
# Skills that are scouted

`skillforge_scout_dedup` rids the results of a search of repeated URLs, and
`contains_word` looks for the names of malware in the lower-cased name and
description of a result.
-/

namespace DoctorClaw

open Interaction CellReader

/-! ## Results without repetitions -/

inductive ScoutSource
  | github
  | clawhub
  | huggingface
  deriving DecidableEq

structure ScoutResult where
  name : Bytes
  url : Bytes
  description : Bytes
  stars : UInt64
  language : Option Bytes
  updatedAt : Bytes
  source : ScoutSource
  owner : Bytes
  hasLicense : Bool

/-- The array of results and `*count` after the two passes. -/
def skillforgeScoutDedup (results : ℕ → ScoutResult) (count : ℕ) : (ℕ → ScoutResult) × ℕ :=
  FirstByKey.dedup ScoutResult.url results count

/-- What is left are the results whose URL no earlier result has, in the order
they were in, and there are as many of them as URLs. -/
theorem scout_dedup_keeps_first_results (results : ℕ → ScoutResult) (count : ℕ) :
    let out := skillforgeScoutDedup results count
    (List.range out.2).map out.1 =
        ((List.range count).filter fun i ↦
          decide (∀ j < i, (results j).url ≠ (results i).url)).map results ∧
      out.2 = ((Finset.range count).image fun i ↦ (results i).url).card :=
  ⟨FirstByKey.dedup_front, FirstByKey.dedup_count⟩

/-! ## The search for a word -/

/-- An ASCII letter or digit. -/
def isWordByte (c : UInt8) : Bool :=
  (97 ≤ c && c ≤ 122) || (65 ≤ c && c ≤ 90) || (48 ≤ c && c ≤ 57)

def beforeOk (i : ℕ) : Reader ℕ Bool :=
  if i = 0 then .ret true
  else do
    let c ← byte (i - 1)
    .ret (!isWordByte c)

/-- The index behind the word is of type `size_t`. -/
def afterOk (haystackLen wordLen i : ℕ) : Reader ℕ Bool :=
  if haystackLen ≤ (i + wordLen) % 2 ^ 64 then .ret true
  else do
    let c ← byte ((i + wordLen) % 2 ^ 64)
    .ret (!isWordByte c)

/-- One round of the loop of `contains_word`. -/
def wordMatches (haystackLen : ℕ) (word : Bytes) (i : ℕ) : Reader ℕ Bool := do
  let before ← beforeOk i
  let after ← afterOk haystackLen word.length i
  if before && after then agrees id id i word else .ret false

/-- `i` is of type `size_t`, and so is the difference that bounds it. -/
def wordLoop (haystackLen : ℕ) (word : Bytes) : ℕ → ℕ → Reader ℕ Bool
  | 0, _ => .halt
  | n + 1, i =>
      if i ≤ BufferWriter.sizeSub haystackLen word.length then do
        let found ← wordMatches haystackLen word i
        if found then .ret true else wordLoop haystackLen word n ((i + 1) % 2 ^ 64)
      else .ret false

def containsWord (rounds : ℕ) (word : Bytes) : Reader ℕ Bool := do
  let haystackLen ← strlen id rounds 0
  wordLoop haystackLen word rounds 0

/-! ## One position -/

/-- The word stands at position `i`, with no letter or digit next to it. -/
def WordAt (haystack word : Bytes) (i : ℕ) : Prop :=
  ((i = 0 ∨ isWordByte (haystack.getD (i - 1) 0) = false) ∧
      isWordByte (haystack.getD (i + word.length) 0) = false) ∧
    word <+: haystack.drop i

section Position

variable {mem : ℕ → UInt8} {inside : ℕ → Prop} {haystack word : Bytes} {i n : ℕ}

theorem WordAt.le (h : WordAt haystack word i) (hne : word ≠ []) :
    i + word.length ≤ haystack.length := by
  have hpos := List.length_pos_iff.mpr hne
  have hle := h.2.length_le
  rw [List.length_drop] at hle
  omega

theorem stringAt_cell (hs : StringAt mem inside id 0 haystack) (hi : i ≤ haystack.length) :
    inside i ∧ mem i = haystack.getD i 0 := by
  have hcell := hs.getD hi
  rwa [Nat.zero_add] at hcell

theorem gives_beforeOk (hs : StringAt mem inside id 0 haystack) (hi : i ≤ haystack.length + 1)
    {Q : Bool → Prop} :
    Gives mem inside Q (beforeOk i) ↔
      Q (decide (i = 0 ∨ isWordByte (haystack.getD (i - 1) 0) = false)) := by
  by_cases h0 : i = 0
  · simp [beforeOk, h0]
  · obtain ⟨hin, hmem⟩ := stringAt_cell (i := i - 1) hs (by omega)
    rw [beforeOk, if_neg h0, gives_byte, and_iff_right hin, hmem, gives_ret]
    simp [h0]

theorem gives_afterOk (hs : StringAt mem inside id 0 haystack) {wordLen : ℕ}
    (hwrap : i + wordLen < 2 ^ 64) {Q : Bool → Prop} :
    Gives mem inside Q (afterOk haystack.length wordLen i) ↔
      Q (decide (isWordByte (haystack.getD (i + wordLen) 0) = false)) := by
  rw [afterOk, Nat.mod_eq_of_lt hwrap]
  by_cases hend : haystack.length ≤ i + wordLen
  · rw [if_pos hend, List.getD_eq_getElem?_getD, List.getElem?_eq_none hend]
    exact Iff.rfl
  · obtain ⟨hin, hmem⟩ := stringAt_cell (i := i + wordLen) hs (by omega)
    rw [if_neg hend, gives_byte, and_iff_right hin, hmem, gives_ret]
    simp

/-- Up to the end of the haystack a round looks at nothing behind it. -/
theorem gives_wordMatches (hs : StringAt mem inside id 0 haystack) (hi : i ≤ haystack.length)
    (hword : (0 : UInt8) ∉ word) (hwrap : i + word.length < 2 ^ 64) :
    Gives mem inside (fun found ↦ found = true ↔ WordAt haystack word i)
      (wordMatches haystack.length word i) := by
  have hat := hs.drop hi
  rw [Nat.zero_add] at hat
  rw [wordMatches, gives_bind, gives_beforeOk hs (by omega), gives_bind, gives_afterOk hs hwrap,
    ← Bool.decide_and]
  by_cases hok : (i = 0 ∨ isWordByte (haystack.getD (i - 1) 0) = false) ∧
      isWordByte (haystack.getD (i + word.length) 0) = false
  · rw [decide_eq_true hok, if_pos rfl, hat.gives_agrees hword, decide_eq_true_iff]
    exact (and_iff_right hok).symm
  · rw [decide_eq_false hok, if_neg Bool.false_ne_true, gives_ret]
    exact iff_of_false Bool.false_ne_true fun h ↦ hok h.1

end Position

/-! ## The loop -/

section Loop

variable {mem : ℕ → UInt8} {inside : ℕ → Prop} {haystack word : Bytes} {i n : ℕ}

theorem gives_wordLoop (hs : StringAt mem inside id 0 haystack) (hword : (0 : UInt8) ∉ word)
    (hne : word ≠ []) (hle : word.length ≤ haystack.length) (hlen : haystack.length < 2 ^ 63)
    (hi : i ≤ haystack.length - word.length + 1)
    (hn : haystack.length - word.length + 1 < i + n) :
    Gives mem inside (fun found ↦ found = true ↔ ∃ k, i ≤ k ∧ WordAt haystack word k)
      (wordLoop haystack.length word n i) := by
  have hpos := List.length_pos_iff.mpr hne
  induction n generalizing i with
  | zero => omega
  | succ n ih =>
      rw [wordLoop, BufferWriter.sizeSub, if_pos hle]
      split_ifs with hin
      · have hround := gives_wordMatches hs (by omega) hword (i := i) (by omega)
        have hrest := ih (i := i + 1) (by omega) (by omega)
        rw [gives_bind, Nat.mod_eq_of_lt (by omega)]
        refine hround.mono fun found hfound ↦ ?_
        cases found with
        | true =>
            rw [if_pos rfl, gives_ret]
            exact iff_of_true rfl ⟨i, le_rfl, hfound.mp rfl⟩
        | false =>
            rw [if_neg Bool.false_ne_true]
            refine hrest.mono fun found hlater ↦ hlater.trans ?_
            constructor
            · rintro ⟨k, hk, hat⟩
              exact ⟨k, by omega, hat⟩
            · rintro ⟨k, hk, hat⟩
              have hki : k ≠ i := by
                rintro rfl
                exact Bool.false_ne_true (hfound.mpr hat)
              exact ⟨k, by omega, hat⟩
      · rw [gives_ret]
        refine iff_of_false Bool.false_ne_true ?_
        rintro ⟨k, hk, hat⟩
        have hend := hat.le hne
        omega

/-- The difference of the lengths wraps around for a longer word.  It stands
nowhere, so that the loop gets behind the terminator and looks at what is
there. -/
theorem not_gives_wordLoop (hs : StringAt mem inside id 0 haystack) (hword : (0 : UInt8) ∉ word)
    (hlong : haystack.length < word.length) (hlen : word.length < 2 ^ 63)
    (hout : ¬ inside (haystack.length + 1)) (hi : i ≤ haystack.length + 1) {Q : Bool → Prop} :
    ¬ Gives mem inside Q (wordLoop haystack.length word n i) := by
  have hne : word ≠ [] := List.length_pos_iff.mp (by omega)
  induction n generalizing i with
  | zero => exact not_false
  | succ n ih =>
      have hbound : i ≤ BufferWriter.sizeSub haystack.length word.length := by
        rw [BufferWriter.sizeSub, if_neg (by omega)]
        omega
      rw [wordLoop, if_pos hbound, gives_bind]
      by_cases hend : i ≤ haystack.length
      · intro h
        obtain ⟨found, hfound, hnext⟩ := (gives_wordMatches hs hend hword (by omega)).value h
        cases found with
        | true =>
            have hfits := (hfound.mp rfl).le hne
            omega
        | false =>
            rw [if_neg Bool.false_ne_true, Nat.mod_eq_of_lt (by omega)] at hnext
            exact ih (by omega) hnext
      · obtain rfl : i = haystack.length + 1 := by omega
        obtain ⟨b, word, rfl⟩ := List.exists_cons_of_ne_nil hne
        have hbefore : isWordByte (haystack.getD haystack.length 0) = false := by
          rw [List.getD_eq_getElem?_getD, List.getElem?_eq_none le_rfl]
          rfl
        have hafter : isWordByte
            (haystack.getD (haystack.length + 1 + (b :: word).length) 0) = false := by
          rw [List.getD_eq_getElem?_getD, List.getElem?_eq_none (by omega)]
          rfl
        rw [wordMatches, gives_bind, gives_beforeOk hs le_rfl, gives_bind,
          gives_afterOk hs (by omega), Nat.add_sub_cancel, decide_eq_true (.inr hbefore),
          decide_eq_true hafter]
        exact fun h ↦ hout h.1

end Loop

/-! ## Whole words -/

/-- The word occurs with no letter or digit directly before or behind it. -/
def OccursAsWord (word haystack : Bytes) : Prop :=
  ∃ pre post, haystack = pre ++ (word ++ post) ∧
    (∀ c ∈ pre.getLast?, isWordByte c = false) ∧ ∀ c ∈ post.head?, isWordByte c = false

theorem wordAt_append_iff {pre word post : Bytes} :
    WordAt (pre ++ (word ++ post)) word pre.length ↔
      (∀ c ∈ pre.getLast?, isWordByte c = false) ∧ ∀ c ∈ post.head?, isWordByte c = false := by
  have hbefore : pre.length = 0 ∨
      isWordByte ((pre ++ (word ++ post)).getD (pre.length - 1) 0) = false ↔
        ∀ c ∈ pre.getLast?, isWordByte c = false := by
    rcases List.eq_nil_or_concat pre with rfl | ⟨init, c, rfl⟩
    · simp
    · simp
  have hafter : isWordByte ((pre ++ (word ++ post)).getD (pre.length + word.length) 0) = false ↔
      ∀ c ∈ post.head?, isWordByte c = false := by
    cases post with
    | nil => simp [isWordByte]
    | cons c post => simp
  have hstands : word <+: (pre ++ (word ++ post)).drop pre.length := by
    rw [List.drop_left]
    exact List.prefix_append _ _
  rw [WordAt, hbefore, hafter]
  exact and_iff_left hstands

theorem exists_wordAt_iff {haystack word : Bytes} (hne : word ≠ []) :
    (∃ i, WordAt haystack word i) ↔ OccursAsWord word haystack := by
  constructor
  · rintro ⟨i, hat⟩
    have hle := hat.le hne
    obtain ⟨rest, hrest⟩ := hat.2
    obtain ⟨pre, post, rfl, rfl⟩ : ∃ pre post, pre ++ (word ++ post) = haystack ∧ pre.length = i :=
      ⟨haystack.take i, rest, by rw [hrest, List.take_append_drop],
        List.length_take_of_le (by omega)⟩
    exact ⟨pre, post, rfl, wordAt_append_iff.mp hat⟩
  · rintro ⟨pre, post, rfl, hboundary⟩
    exact ⟨pre.length, wordAt_append_iff.mpr hboundary⟩

section Haystack

variable {haystack word : Bytes} {behind : ℕ → UInt8} {rounds : ℕ}

theorem gives_containsWord (hhaystack : (0 : UInt8) ∉ haystack) (hword : (0 : UInt8) ∉ word)
    (hne : word ≠ []) (hlen : haystack.length < 2 ^ 63) (hle : word.length ≤ haystack.length)
    (hrounds : haystack.length < rounds) :
    Gives (followed (haystack ++ [0]) behind) (· ≤ haystack.length)
      (fun found ↦ found = true ↔ OccursAsWord word haystack) (containsWord rounds word) := by
  have hpos := List.length_pos_iff.mpr hne
  have hs := stringAt_start hhaystack behind
  have hloop := gives_wordLoop (n := rounds) (i := 0) hs hword hne hle hlen (by omega) (by omega)
  rw [containsWord, gives_bind, hs.gives_strlen]
  refine ⟨hrounds, hloop.mono fun found hfound ↦ ?_⟩
  simpa only [Nat.zero_le, true_and, exists_wordAt_iff hne] using hfound

theorem not_gives_containsWord (hhaystack : (0 : UInt8) ∉ haystack) (hword : (0 : UInt8) ∉ word)
    (hlen : word.length < 2 ^ 63) (hlong : haystack.length < word.length) {Q : Bool → Prop} :
    ¬ Gives (followed (haystack ++ [0]) behind) (· ≤ haystack.length) Q
      (containsWord rounds word) := by
  have hs := stringAt_start hhaystack behind
  have hout : ¬ haystack.length + 1 ≤ haystack.length := by omega
  rw [containsWord, gives_bind, hs.gives_strlen]
  exact fun h ↦ not_gives_wordLoop hs hword hlong hlen hout (Nat.zero_le _) h.2

end Haystack

/-- Whatever stands behind the haystack, `contains_word` finds whole words and
looks at nothing behind the terminator exactly if the word is no longer than
the haystack. -/
theorem contains_word_stays_inside_iff (haystack word : Bytes) (behind : ℕ → UInt8) (rounds : ℕ)
    (hhaystack : (0 : UInt8) ∉ haystack) (hword : (0 : UInt8) ∉ word) (hne : word ≠ [])
    (hhaystackLen : haystack.length < 2 ^ 63) (hwordLen : word.length < 2 ^ 63)
    (hrounds : haystack.length < rounds) :
    Gives (followed (haystack ++ [0]) behind) (· ≤ haystack.length)
        (fun found ↦ found = true ↔ OccursAsWord word haystack) (containsWord rounds word) ↔
      word.length ≤ haystack.length := by
  constructor
  · intro h
    by_contra hlong
    exact not_gives_containsWord hhaystack hword hwordLen (Nat.lt_of_not_le hlong) h
  · intro hle
    exact gives_containsWord hhaystack hword hne hhaystackLen hle hrounds

theorem contains_word_stays_inside_iff_hack :
    Gives (followed (ascii "chackhack hack!" ++ [0]) fun _ ↦ 120) (· ≤ 15)
      (fun found ↦ found = true ↔ OccursAsWord (ascii "hack") (ascii "chackhack hack!"))
      (containsWord 16 (ascii "hack")) :=
  (contains_word_stays_inside_iff (ascii "chackhack hack!") (ascii "hack") (fun _ ↦ 120) 16
    (by decide) (by decide) (by decide) (by decide) (by decide) (by decide)).mpr (by decide)

/-- A skill of the name `go` is looked up behind its name. -/
theorem contains_word_leaves_haystack :
    ¬ ∀ (haystack word : Bytes) (behind : ℕ → UInt8) (rounds : ℕ), (0 : UInt8) ∉ haystack →
      (0 : UInt8) ∉ word → word ≠ [] → haystack.length < 2 ^ 63 → word.length < 2 ^ 63 →
      haystack.length < rounds →
      Gives (followed (haystack ++ [0]) behind) (· ≤ haystack.length)
        (fun found ↦ found = true ↔ OccursAsWord word haystack) (containsWord rounds word) := by
  intro h
  have hgo := h (ascii "go") (ascii "malware") (fun _ ↦ 0) 16 (by decide) (by decide) (by decide)
    (by decide) (by decide) (by decide)
  exact not_gives_containsWord (by decide) (by decide) (by decide) (by decide) hgo

end DoctorClaw
