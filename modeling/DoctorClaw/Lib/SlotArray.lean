import Mathlib.Data.List.Range
import Mathlib.Logic.Function.Basic
import Mathlib.Tactic.Common

/-!
# Arrays of slots with a count

The entries stand in the slots below the count.  An insertion fills the next
slot, which may keep some of its old content, and a deletion moves the entries
behind it one slot down.  A property that every slot has, used or not, is kept.
-/

structure SlotArray (α : Type*) where
  slot : ℕ → α
  count : ℕ

namespace SlotArray

variable {α : Type*} {P : α → Prop} {a : SlotArray α}

def entries (a : SlotArray α) : List α := (List.range a.count).map a.slot

/-- The first used slot whose content passes the test. -/
def find (a : SlotArray α) (p : α → Bool) : Option ℕ :=
  (List.range a.count).find? fun i ↦ p (a.slot i)

/-- Use the next slot, changing its content by `f`. -/
def extend (a : SlotArray α) (f : α → α) : SlotArray α :=
  ⟨Function.update a.slot a.count (f (a.slot a.count)), a.count + 1⟩

def modifyAt (a : SlotArray α) (i : ℕ) (f : α → α) : SlotArray α :=
  ⟨Function.update a.slot i (f (a.slot i)), a.count⟩

def removeAt (a : SlotArray α) (i : ℕ) : SlotArray α :=
  ⟨fun j ↦ if i ≤ j ∧ j + 1 < a.count then a.slot (j + 1) else a.slot j, a.count - 1⟩

/-- Change the used slots. -/
def modifyAll (a : SlotArray α) (f : α → α) : SlotArray α :=
  ⟨fun j ↦ if j < a.count then f (a.slot j) else a.slot j, a.count⟩

/-- All slots have the property. -/
def All (P : α → Prop) (a : SlotArray α) : Prop := ∀ i, P (a.slot i)

theorem All.of_mem (h : a.All P) {x : α} (hx : x ∈ a.entries) : P x := by
  obtain ⟨i, -, rfl⟩ := List.mem_map.mp hx
  exact h i

theorem All.update (h : a.All P) {x : α} (hx : P x) (i n : ℕ) :
    All P ⟨Function.update a.slot i x, n⟩ := by
  intro j
  change P (Function.update a.slot i x j)
  by_cases hj : j = i
  · rw [hj, Function.update_self]
    exact hx
  · rw [Function.update_of_ne hj]
    exact h j

theorem All.extend (h : a.All P) {f : α → α} (hf : ∀ x, P x → P (f x)) : (a.extend f).All P :=
  h.update (hf _ (h _)) _ _

theorem All.modifyAt (h : a.All P) {f : α → α} (hf : ∀ x, P x → P (f x)) (i : ℕ) :
    (a.modifyAt i f).All P :=
  h.update (hf _ (h _)) _ _

theorem All.removeAt (h : a.All P) (i : ℕ) : (a.removeAt i).All P := by
  intro j
  change P (if i ≤ j ∧ j + 1 < a.count then a.slot (j + 1) else a.slot j)
  split_ifs
  · exact h (j + 1)
  · exact h j

theorem All.modifyAll (h : a.All P) {f : α → α} (hf : ∀ x, P x → P (f x)) :
    (a.modifyAll f).All P := by
  intro j
  change P (if j < a.count then f (a.slot j) else a.slot j)
  split_ifs
  · exact hf _ (h j)
  · exact h j

/-! ## The entries after an operation -/

theorem length_entries (a : SlotArray α) : a.entries.length = a.count := by
  rw [entries, List.length_map, List.length_range]

theorem entries_extend (a : SlotArray α) (f : α → α) :
    (a.extend f).entries = a.entries ++ [f (a.slot a.count)] := by
  unfold entries extend
  dsimp only
  rw [List.range_succ, List.map_append, List.map_singleton, Function.update_self]
  congr 1
  refine List.map_congr_left fun i hi ↦ Function.update_of_ne ?_ _ _
  exact (List.mem_range.mp hi).ne

theorem entries_modifyAll (a : SlotArray α) (f : α → α) :
    (a.modifyAll f).entries = a.entries.map f := by
  unfold entries modifyAll
  rw [List.map_map]
  exact List.map_congr_left fun i hi ↦ if_pos (List.mem_range.mp hi)

theorem entries_removeAt {i : ℕ} (hi : i < a.count) :
    (a.removeAt i).entries = a.entries.eraseIdx i := by
  have hcount : (a.removeAt i).count = a.count - 1 := rfl
  apply List.ext_getElem
  · rw [length_entries, List.length_eraseIdx, length_entries, if_pos hi, hcount]
  · intro j hj hj'
    rw [length_entries, hcount] at hj
    simp only [entries, removeAt, List.getElem_map, List.getElem_range, List.getElem_eraseIdx]
    split_ifs with hif hlt hlt
    · omega
    · rfl
    · rfl
    · omega

theorem entries_modifyAt (a : SlotArray α) (i : ℕ) (f : α → α) :
    (a.modifyAt i f).entries = a.entries.set i (f (a.slot i)) := by
  apply List.ext_getElem
  · rw [List.length_set, length_entries, length_entries]
    rfl
  · intro j hj hj'
    simp only [entries, modifyAt, List.getElem_map, List.getElem_range, List.getElem_set]
    by_cases h : i = j
    · rw [if_pos h, h, Function.update_self]
    · rw [if_neg h, Function.update_of_ne (Ne.symm h)]

/-- The entries around a used slot, before and after it is changed or
removed. -/
theorem exists_around {i : ℕ} (hi : i < a.count) :
    ∃ before after, a.entries = before ++ a.slot i :: after ∧
      (a.removeAt i).entries = before ++ after ∧
      ∀ f, (a.modifyAt i f).entries = before ++ f (a.slot i) :: after := by
  have hlen : i < a.entries.length := (length_entries a).symm ▸ hi
  refine ⟨a.entries.take i, a.entries.drop (i + 1), ?_, ?_, fun f ↦ ?_⟩
  · have hget : a.entries[i] = a.slot i := by simp [entries]
    rw [← hget, ← List.drop_eq_getElem_cons hlen, List.take_append_drop]
  · rw [entries_removeAt hi, List.eraseIdx_eq_take_drop_succ]
  · rw [entries_modifyAt, List.set_eq_take_append_cons_drop, if_pos hlen]

theorem lt_count_of_find {p : α → Bool} {i : ℕ} (h : a.find p = some i) : i < a.count := by
  rw [find, List.find?_range_eq_some] at h
  exact List.mem_range.mp h.2.1

theorem find_eq_findIdx? (a : SlotArray α) (p : α → Bool) :
    a.find p = a.entries.findIdx? p := by
  apply Option.ext
  intro i
  simp only [find, List.find?_range_eq_some, List.findIdx?_eq_some_iff_getElem,
    List.mem_range, entries, List.getElem_map, List.getElem_range, List.length_map,
    List.length_range]
  constructor
  · rintro ⟨hp, hi, hbefore⟩
    exact ⟨hi, hp, fun j hj ↦ by simpa using hbefore j hj⟩
  · rintro ⟨hi, hp, hbefore⟩
    exact ⟨hp, hi, fun j hj ↦ by simpa using hbefore j hj⟩

/-- Removing the slot that is found removes the first entry that passes the
test. -/
theorem entries_removeAt_of_find {p : α → Bool} {i : ℕ} (h : a.find p = some i) :
    (a.removeAt i).entries = a.entries.eraseP p := by
  rw [entries_removeAt (lt_count_of_find h), List.eraseP_eq_eraseIdx, ← find_eq_findIdx?, h]

theorem eraseP_entries_of_find {p : α → Bool} (h : a.find p = none) :
    a.entries.eraseP p = a.entries := by
  rw [List.eraseP_eq_eraseIdx, ← find_eq_findIdx?, h]

/-! ## Arrays of parts -/

def map {β : Type*} (g : α → β) (a : SlotArray α) : SlotArray β := ⟨g ∘ a.slot, a.count⟩

variable {β : Type*} {g : α → β}

theorem map_update {x : α} {i n : ℕ} :
    map g ⟨Function.update a.slot i x, n⟩ = ⟨Function.update (g ∘ a.slot) i (g x), n⟩ := by
  unfold map
  rw [Function.comp_update]

theorem map_extend {f : α → α} {f' : β → β} (h : ∀ x, g (f x) = f' (g x)) :
    (a.extend f).map g = (a.map g).extend f' := map_update.trans (by rw [h]; rfl)

theorem map_modifyAt {f : α → α} {f' : β → β} (h : ∀ x, g (f x) = f' (g x)) (i : ℕ) :
    (a.modifyAt i f).map g = (a.map g).modifyAt i f' := map_update.trans (by rw [h]; rfl)

/-- A change that the part does not see. -/
theorem map_modifyAt_of_eq {f : α → α} (h : ∀ x, g (f x) = g x) (i : ℕ) :
    (a.modifyAt i f).map g = a.map g := by
  refine map_update.trans ?_
  rw [h]
  exact congrArg (SlotArray.mk · a.count) (Function.update_eq_self i (g ∘ a.slot))

theorem map_removeAt (i : ℕ) : (a.removeAt i).map g = (a.map g).removeAt i := by
  unfold map removeAt
  congr 1
  funext j
  exact apply_ite g _ _ _

theorem entries_eq_nil_iff : a.entries = [] ↔ a.count = 0 := by
  rw [entries, List.map_eq_nil_iff, List.range_eq_nil]

end SlotArray
