import DoctorClaw.Lib.CString
import DoctorClaw.Lib.RoundRobin
import Mathlib.Algebra.Group.Nat.Defs
import Mathlib.Data.Nat.Find

/-!
# The response cache

`memory.c` keeps prompts and responses in 100 slots.  A set writes the next
slot in turn, whatever the others hold; a get takes the first slot, from slot 0
on, with the prompt.  The same prompt may stand in several slots, and which of
its responses is returned depends on where the table has wrapped around.
-/

namespace DoctorClaw

open CString

def cacheSize : ℕ := 100

def cachePromptSize : ℕ := 2048

def cacheResponseSize : ℕ := 4096

/-- `g_cache_prompts` and `g_cache_responses` slot by slot, and
`g_cache_count`. -/
abbrev ResponseCache := RoundRobin (Bytes × Bytes)

def emptyCache : ResponseCache := ⟨fun _ ↦ ([], []), 0⟩

/-- The response as it is copied into the buffer of the caller; `none` is
`-1`. -/
def memoryResponseCacheGet (cache : ResponseCache) (prompt : Bytes) (responseSize : ℕ) :
    Option Bytes :=
  ((List.range cacheSize).find? fun i ↦ (cache.slots i).1 ≠ [] ∧ (cache.slots i).1 = prompt).map
    fun i ↦ cut responseSize (cache.slots i).2

/-- `none` is the overflow of the `int` counter. -/
def memoryResponseCacheSet (cache : ResponseCache) (prompt response : Bytes) :
    Option ResponseCache :=
  if cache.count < 2 ^ 31 - 1 then
    some
      { slots := Function.update cache.slots (cache.count % cacheSize)
          (cut cachePromptSize prompt, cut cacheResponseSize response)
        count := cache.count + 1 }
  else none

def cacheAfter (sets : List (Bytes × Bytes)) : Option ResponseCache :=
  sets.foldlM (fun cache s ↦ memoryResponseCacheSet cache s.1 s.2) emptyCache

/-- The response of the most recent set of the prompt among the last 100
sets. -/
def recentResponse (prompt : Bytes) (sets : List (Bytes × Bytes)) : Option Bytes :=
  ((sets.reverse.take cacheSize).find? fun s ↦ s.1 = prompt).map Prod.snd

def SetFits (s : Bytes × Bytes) : Prop :=
  0 < s.1.length ∧ s.1.length < cachePromptSize ∧ s.2.length < cacheResponseSize

instance : DecidablePred SetFits := fun _ ↦ inferInstanceAs (Decidable (_ ∧ _ ∧ _))

/-- The sets have been made, and a get returns the most recent response. -/
def CacheFresh (sets : List (Bytes × Bytes)) : Prop :=
  ∃ cache, cacheAfter sets = some cache ∧
    ∀ prompt : Bytes, 0 < prompt.length → prompt.length < cachePromptSize →
      ∀ responseSize, cacheResponseSize ≤ responseSize →
        memoryResponseCacheGet cache prompt responseSize = recentResponse prompt sets

/-- Set number `i`, one of the last 100, is of the prompt. -/
structure RecentSet (sets : List (Bytes × Bytes)) (prompt : Bytes) (i : ℕ) (response : Bytes) :
    Prop where
  set_eq : sets[i]? = some (prompt, response)
  recent : sets.length ≤ i + cacheSize

/-- Of the recent sets of a prompt, the one in the lowest slot has the response
of the latest one. -/
def LowestSlotLatest (sets : List (Bytes × Bytes)) : Prop :=
  ∀ prompt i response j response', RecentSet sets prompt i response →
    RecentSet sets prompt j response' →
    (∀ k r, RecentSet sets prompt k r → i % cacheSize ≤ k % cacheSize ∧ k ≤ j) →
      response = response'

/-! ## The table -/

variable {sets : List (Bytes × Bytes)} {cache : ResponseCache} {prompt response : Bytes}
  {i j responseSize : ℕ}

theorem cacheAfter_append (sets : List (Bytes × Bytes)) (s : Bytes × Bytes) :
    cacheAfter (sets ++ [s]) = (cacheAfter sets).bind fun cache ↦
      memoryResponseCacheSet cache s.1 s.2 := by
  simp [cacheAfter, List.foldlM_append]

theorem cacheAfter_eq (hfits : ∀ s ∈ sets, SetFits s) :
    cacheAfter sets = if sets.length < 2 ^ 31 then
      some (RoundRobin.fill cacheSize (fun _ ↦ ([], [])) sets) else none := by
  induction sets using List.reverseRecOn with
  | nil => rfl
  | append_singleton sets s ih =>
      have hlast : SetFits s := hfits s (by simp)
      rw [cacheAfter_append, ih fun s hs ↦ hfits s (List.mem_append_left _ hs),
        List.length_append, List.length_singleton]
      by_cases hlen : sets.length < 2 ^ 31
      · rw [if_pos hlen, Option.bind_some, memoryResponseCacheSet, RoundRobin.count_fill,
          cut_of_lt hlast.2.1, cut_of_lt hlast.2.2]
        by_cases hlen' : sets.length + 1 < 2 ^ 31
        · rw [if_pos hlen', if_pos (by omega), RoundRobin.fill_append_singleton, RoundRobin.put,
            RoundRobin.count_fill]
        · rw [if_neg hlen', if_neg (by omega)]
      · rw [if_neg hlen, if_neg (by omega)]
        rfl

abbrev filledCache (sets : List (Bytes × Bytes)) : ResponseCache :=
  RoundRobin.fill cacheSize (fun _ ↦ ([], [])) sets

theorem RecentSet.slot_eq (h : RecentSet sets prompt i response) :
    (filledCache sets).slots (i % cacheSize) = (prompt, response) :=
  RoundRobin.slots_fill h.set_eq h.recent

theorem RecentSet.lt (h : RecentSet sets prompt i response) : i < sets.length :=
  (List.getElem?_eq_some_iff.mp h.set_eq).1

/-- The slots in which a get finds the prompt. -/
theorem slot_matches_iff (hprompt : prompt ≠ []) {k : ℕ} (hk : k < cacheSize) :
    ((filledCache sets).slots k).1 ≠ [] ∧ ((filledCache sets).slots k).1 = prompt ↔
      ∃ i response, RecentSet sets prompt i response ∧ i % cacheSize = k := by
  constructor
  · rintro ⟨hne, rfl⟩
    rcases RoundRobin.slot_cases sets hk with ⟨i, s, hset, hrecent, rfl⟩ | hempty
    · rw [RoundRobin.slots_fill hset hrecent]
      exact ⟨i, s.2, ⟨hset, hrecent⟩, rfl⟩
    · rw [RoundRobin.slots_fill_empty hempty hk] at hne
      exact absurd rfl hne
  · rintro ⟨i, response, hset, rfl⟩
    rw [hset.slot_eq]
    exact ⟨hprompt, rfl⟩

theorem get_of_lowest (hfits : ∀ s ∈ sets, SetFits s) (hsize : cacheResponseSize ≤ responseSize)
    (hset : RecentSet sets prompt i response)
    (hlow : ∀ k r, RecentSet sets prompt k r → i % cacheSize ≤ k % cacheSize) :
    memoryResponseCacheGet (filledCache sets) prompt responseSize = some response := by
  have hfit : SetFits (prompt, response) := hfits _ (List.mem_of_getElem? hset.set_eq)
  have hprompt : prompt ≠ [] := List.ne_nil_of_length_pos hfit.1
  have hfind : ((List.range cacheSize).find? fun k ↦ ((filledCache sets).slots k).1 ≠ [] ∧
      ((filledCache sets).slots k).1 = prompt) = some (i % cacheSize) := by
    have hk : i % cacheSize < cacheSize := Nat.mod_lt _ (by decide)
    rw [List.find?_range_eq_some]
    refine ⟨?_, List.mem_range.mpr hk, fun k hlt ↦ ?_⟩
    · exact decide_eq_true ((slot_matches_iff hprompt hk).mpr ⟨i, response, hset, rfl⟩)
    · have hne : ¬ (((filledCache sets).slots k).1 ≠ [] ∧
          ((filledCache sets).slots k).1 = prompt) := by
        rw [slot_matches_iff hprompt (hlt.trans hk)]
        rintro ⟨j, r, hj, rfl⟩
        exact absurd (hlow j r hj) (by omega)
      rw [decide_eq_false hne, Bool.not_false]
  rw [memoryResponseCacheGet, hfind, Option.map_some, hset.slot_eq,
    cut_of_lt (hfit.2.2.trans_le hsize)]

theorem get_of_not_recent (hprompt : prompt ≠ []) (h : ∀ i r, ¬ RecentSet sets prompt i r) :
    memoryResponseCacheGet (filledCache sets) prompt responseSize = none := by
  have hfind : ((List.range cacheSize).find? fun k ↦ ((filledCache sets).slots k).1 ≠ [] ∧
      ((filledCache sets).slots k).1 = prompt) = none := by
    refine List.find?_eq_none.mpr fun k hk hmatch ↦ ?_
    obtain ⟨i, r, hset, -⟩ := (slot_matches_iff hprompt (List.mem_range.mp hk)).mp
      (of_decide_eq_true hmatch)
    exact h i r hset
  rw [memoryResponseCacheGet, hfind, Option.map_none]

/-! ## The most recent set -/

/-- The last 100 sets, oldest first. -/
theorem mem_recent_iff {s : Bytes × Bytes} {n : ℕ} (hn : sets.length ≤ n + cacheSize) :
    s ∈ sets.drop n → ∃ i, n ≤ i ∧ RecentSet sets s.1 i s.2 := by
  intro hs
  obtain ⟨k, hk⟩ := List.mem_iff_getElem?.mp hs
  rw [List.getElem?_drop] at hk
  exact ⟨n + k, Nat.le_add_right n k, hk, by omega⟩

theorem recentResponse_of_latest (hset : RecentSet sets prompt j response)
    (hlast : ∀ k r, RecentSet sets prompt k r → k ≤ j) :
    recentResponse prompt sets = some response := by
  obtain ⟨hlt, hget⟩ := List.getElem?_eq_some_iff.mp hset.set_eq
  have hrecent := hset.recent
  obtain ⟨e, he⟩ := Nat.exists_eq_add_of_le (show sets.length - cacheSize ≤ j by omega)
  have hsplit : sets.drop (sets.length - cacheSize) =
      (sets.drop (sets.length - cacheSize)).take e ++ (prompt, response) :: sets.drop (j + 1) := by
    conv_lhs => rw [← List.take_append_drop e (sets.drop (sets.length - cacheSize))]
    rw [List.drop_drop, ← he, List.drop_eq_getElem_cons hlt, hget]
  have hpost : (sets.drop (j + 1)).reverse.find? (fun s ↦ decide (s.1 = prompt)) = none := by
    refine List.find?_eq_none.mpr fun s hs heq ↦ ?_
    obtain ⟨k, hk, hset'⟩ := mem_recent_iff (by omega) (List.mem_reverse.mp hs)
    rw [of_decide_eq_true heq] at hset'
    have hle := hlast k s.2 hset'
    omega
  rw [recentResponse, List.take_reverse, hsplit, List.reverse_append, List.reverse_cons,
    List.append_assoc, List.find?_append, hpost]
  simp

theorem recentResponse_of_not_recent (h : ∀ i r, ¬ RecentSet sets prompt i r) :
    recentResponse prompt sets = none := by
  rw [recentResponse, List.take_reverse]
  refine Option.map_eq_none_iff.mpr (List.find?_eq_none.mpr fun s hs heq ↦ ?_)
  obtain ⟨i, -, hset⟩ := mem_recent_iff (by omega) (List.mem_reverse.mp hs)
  rw [of_decide_eq_true heq] at hset
  exact h i s.2 hset

theorem exists_lowest (h : RecentSet sets prompt i response) :
    ∃ i response, RecentSet sets prompt i response ∧
      ∀ k r, RecentSet sets prompt k r → i % cacheSize ≤ k % cacheSize := by
  have hex : ∃ m i response, RecentSet sets prompt i response ∧ i % cacheSize = m :=
    ⟨_, i, response, h, rfl⟩
  classical
  obtain ⟨i', response', h', hm⟩ := Nat.find_spec hex
  refine ⟨i', response', h', fun k r hk ↦ ?_⟩
  rw [hm]
  exact Nat.find_min' hex ⟨k, r, hk, rfl⟩

theorem exists_latest (h : RecentSet sets prompt i response) :
    ∃ j response, RecentSet sets prompt j response ∧ ∀ k r, RecentSet sets prompt k r → k ≤ j := by
  have hex : ∃ m j response, RecentSet sets prompt j response ∧ sets.length - j = m :=
    ⟨_, i, response, h, rfl⟩
  classical
  obtain ⟨j, response', h', hm⟩ := Nat.find_spec hex
  refine ⟨j, response', h', fun k r hk ↦ ?_⟩
  have hmin := Nat.find_min' hex ⟨k, r, hk, rfl⟩
  have hlt := hk.lt
  omega

/-- The cache is fresh exactly while the counter has not overflowed and, of
the recent sets of each prompt, the one in the lowest slot has the latest
response. -/
theorem responseCache_fresh_iff (hfits : ∀ s ∈ sets, SetFits s) :
    CacheFresh sets ↔ sets.length < 2 ^ 31 ∧ LowestSlotLatest sets := by
  unfold CacheFresh
  rw [cacheAfter_eq hfits]
  constructor
  · rintro ⟨cache, hcache, hget⟩
    split_ifs at hcache with hlen
    obtain rfl := Option.some.inj hcache
    refine ⟨hlen, fun prompt i response j response' hi hj hbound ↦ ?_⟩
    have hfit : SetFits (prompt, response) := hfits _ (List.mem_of_getElem? hi.set_eq)
    have heq := hget prompt hfit.1 hfit.2.1 cacheResponseSize le_rfl
    rw [get_of_lowest hfits le_rfl hi fun k r hk ↦ (hbound k r hk).1,
      recentResponse_of_latest hj fun k r hk ↦ (hbound k r hk).2] at heq
    exact Option.some.inj heq
  · rintro ⟨hlen, hlow⟩
    rw [if_pos hlen]
    refine ⟨_, rfl, fun prompt hpos _ responseSize hsize ↦ ?_⟩
    by_cases hex : ∃ i response, RecentSet sets prompt i response
    · obtain ⟨i₀, response₀, h₀⟩ := hex
      obtain ⟨i, response, hi, hmin⟩ := exists_lowest h₀
      obtain ⟨j, response', hj, hmax⟩ := exists_latest h₀
      rw [get_of_lowest hfits hsize hi hmin, recentResponse_of_latest hj hmax,
        hlow prompt i response j response' hi hj fun k r hk ↦ ⟨hmin k r hk, hmax k r hk⟩]
    · simp only [not_exists] at hex
      rw [get_of_not_recent (List.ne_nil_of_length_pos hpos) hex, recentResponse_of_not_recent hex]

def repeatedSets : List (Bytes × Bytes) :=
  [(ascii "hi", ascii "hello"), (ascii "bye", ascii "hello"), (ascii "hi", ascii "hello")]

/-- A prompt that is set twice to the same response. -/
theorem repeatedSets_fresh : CacheFresh repeatedSets := by
  have hresponse : ∀ s ∈ repeatedSets, s.2 = ascii "hello" := by simp [repeatedSets]
  refine (responseCache_fresh_iff (by decide)).mpr
    ⟨by decide, fun prompt i response j response' hi hj _ ↦ ?_⟩
  exact (hresponse _ (List.mem_of_getElem? hi.set_eq)).trans
    (hresponse _ (List.mem_of_getElem? hj.set_eq)).symm

def changedSets : List (Bytes × Bytes) :=
  [(ascii "hi", ascii "hello"), (ascii "hi", ascii "good day")]

/-- A prompt that is set to another response: the first one is still
returned. -/
theorem changed_response_hidden :
    (∀ s ∈ changedSets, SetFits s) ∧ ¬ CacheFresh changedSets := by
  refine ⟨by decide, ?_⟩
  rintro ⟨cache, hcache, hget⟩
  have heq := hget (ascii "hi") (by decide) (by decide) 4096 (by decide)
  obtain rfl := Option.some.inj hcache
  exact absurd heq (by decide)

end DoctorClaw
