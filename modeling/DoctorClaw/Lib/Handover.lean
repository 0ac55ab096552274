import Mathlib.Data.List.Nodup
import Mathlib.Logic.Function.Basic
import Mathlib.Tactic.Common

/-!
# Addresses that are handed over

An address is allocated, waits in a queue, is taken by one of several holders
and freed by it.  Every address in use has one owner, so that none is freed
twice and none is used after it was freed, and none is lost.
-/

namespace Handover

variable {ι β W : Type*}

/-- Every allocated address waits in the queue or is held, and has one owner. -/
structure Owned (queue : List ι) (held : W → Option ι) (heap : ι → Option β) : Prop where
  nodup : queue.Nodup
  held_inj : ∀ {w w' a}, held w = some a → held w' = some a → w = w'
  held_notMem : ∀ {w a}, held w = some a → a ∉ queue
  allocated : ∀ a, heap a ≠ none ↔ a ∈ queue ∨ ∃ w, held w = some a

variable {queue : List ι} {held : W → Option ι} {heap : ι → Option β} {w : W} {a : ι}

theorem Owned.start : Owned ([] : List ι) (fun _ : W ↦ none) (fun _ ↦ (none : Option β)) where
  nodup := .nil
  held_inj := fun h ↦ by cases h
  held_notMem := fun h ↦ by cases h
  allocated := fun a ↦ by simp

section Steps

variable [DecidableEq ι]

theorem Owned.push (h : Owned queue held heap) (hfresh : heap a = none) (b : β) :
    Owned (queue ++ [a]) held (Function.update heap a (some b)) := by
  have hfree : ¬(a ∈ queue ∨ ∃ w, held w = some a) := fun howned ↦
    (h.allocated a).mpr howned hfresh
  have hqueue : a ∉ queue := fun hmem ↦ hfree (.inl hmem)
  refine ⟨?_, h.held_inj, fun {w a'} hheld hmem ↦ ?_, fun a' ↦ ?_⟩
  · exact List.nodup_append.mpr ⟨h.nodup, List.nodup_singleton a, fun x hx y hy heq ↦
      hqueue (by rwa [← List.mem_singleton.mp hy, ← heq])⟩
  · rcases List.mem_append.mp hmem with hmem | hmem
    · exact h.held_notMem hheld hmem
    · obtain rfl := List.mem_singleton.mp hmem
      exact hfree (.inr ⟨w, hheld⟩)
  · by_cases ha : a' = a
    · subst ha
      simp
    · rw [Function.update_of_ne ha, h.allocated a', List.mem_append, List.mem_singleton]
      simp [ha]

variable [DecidableEq W] (h : Owned queue held heap)

include h

omit [DecidableEq ι] in
theorem Owned.pop {rest : List ι} (hqueue : queue = a :: rest) (hidle : held w = none) :
    Owned rest (Function.update held w (some a)) heap := by
  subst hqueue
  obtain ⟨hhead, hrest⟩ := List.nodup_cons.mp h.nodup
  have hnot : ∀ {w' : W}, held w' ≠ some a := fun hheld ↦
    h.held_notMem hheld List.mem_cons_self
  have hcases : ∀ {w' a'}, Function.update held w (some a) w' = some a' →
      w' = w ∧ a' = a ∨ held w' = some a' := by
    intro w' a' hheld
    by_cases hw : w' = w
    · subst hw
      rw [Function.update_self] at hheld
      exact .inl ⟨rfl, (Option.some.inj hheld).symm⟩
    · rw [Function.update_of_ne hw] at hheld
      exact .inr hheld
  refine ⟨hrest, fun {w₁ w₂ a'} h₁ h₂ ↦ ?_, fun {w' a'} hheld hmem ↦ ?_, fun a' ↦ ?_⟩
  · rcases hcases h₁ with ⟨hw₁, ha₁⟩ | hold₁
    · rcases hcases h₂ with ⟨hw₂, -⟩ | hold₂
      · exact hw₁.trans hw₂.symm
      · exact (hnot (ha₁ ▸ hold₂)).elim
    · rcases hcases h₂ with ⟨-, ha₂⟩ | hold₂
      · exact (hnot (ha₂ ▸ hold₁)).elim
      · exact h.held_inj hold₁ hold₂
  · rcases hcases hheld with ⟨-, rfl⟩ | hheld
    · exact hhead hmem
    · exact h.held_notMem hheld (List.mem_cons_of_mem a hmem)
  · rw [h.allocated a', List.mem_cons]
    constructor
    · rintro ((rfl | hmem) | ⟨w', hheld⟩)
      · exact .inr ⟨w, Function.update_self _ _ _⟩
      · exact .inl hmem
      · refine .inr ⟨w', ?_⟩
        rw [Function.update_of_ne fun hw ↦ by rw [hw, hidle] at hheld; cases hheld]
        exact hheld
    · rintro (hmem | ⟨w', hheld⟩)
      · exact .inl (.inr hmem)
      · rcases hcases hheld with ⟨-, rfl⟩ | hheld
        · exact .inl (.inl rfl)
        · exact .inr ⟨w', hheld⟩

theorem Owned.free (hheld : held w = some a) :
    Owned queue (Function.update held w none) (Function.update heap a none) := by
  have hcases : ∀ {w' a'}, Function.update held w none w' = some a' →
      w' ≠ w ∧ held w' = some a' := by
    intro w' a' hheld'
    by_cases hw : w' = w
    · subst hw
      rw [Function.update_self] at hheld'
      cases hheld'
    · rw [Function.update_of_ne hw] at hheld'
      exact ⟨hw, hheld'⟩
  refine ⟨h.nodup, fun h₁ h₂ ↦ h.held_inj (hcases h₁).2 (hcases h₂).2,
    fun hheld' ↦ h.held_notMem (hcases hheld').2, fun a' ↦ ?_⟩
  by_cases ha : a' = a
  · subst ha
    rw [Function.update_self]
    refine iff_of_false (fun hne ↦ hne rfl) ?_
    rintro (hmem | ⟨w', hheld'⟩)
    · exact h.held_notMem hheld hmem
    · obtain ⟨hw, hheld'⟩ := hcases hheld'
      exact hw (h.held_inj hheld' hheld)
  · rw [Function.update_of_ne ha, h.allocated a']
    refine or_congr Iff.rfl ⟨?_, ?_⟩
    · rintro ⟨w', hheld'⟩
      refine ⟨w', ?_⟩
      rw [Function.update_of_ne fun hw ↦ ha (by
        rw [hw, hheld] at hheld'; exact (Option.some.inj hheld').symm)]
      exact hheld'
    · rintro ⟨w', hheld'⟩
      exact ⟨w', (hcases hheld').2⟩

end Steps

end Handover
