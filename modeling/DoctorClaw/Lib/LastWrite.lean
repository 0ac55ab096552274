import Mathlib.Data.List.Induction
import Mathlib.Tactic.Common

/-!
# The last write

A part of a state that some events overwrite and the others leave alone has
the value of the last event that wrote it.
-/

namespace LastWrite

variable {σ ε α : Type*} {write : ε → Option α}

/-- The value of the last event that writes one. -/
def lastWrite (write : ε → Option α) (events : List ε) : Option α :=
  (events.filterMap write).getLast?

theorem lastWrite_append_singleton (events : List ε) (e : ε) :
    lastWrite write (events ++ [e]) = (write e).or (lastWrite write events) := by
  unfold lastWrite
  cases he : write e with
  | none => simp [he]
  | some v => simp [he]

theorem lastWrite_cons (e : ε) (events : List ε) :
    lastWrite write (e :: events) = (lastWrite write events).or (write e) := by
  unfold lastWrite
  cases he : write e with
  | none => simp [he]
  | some v => cases h : (events.filterMap write).getLast? <;> simp [he, List.getLast?_cons, h]

theorem lastWrite_eq_none {events : List ε} (h : ∀ e ∈ events, write e = none) :
    lastWrite write events = none := by
  rw [lastWrite, List.filterMap_eq_nil_iff.mpr h]
  rfl

theorem get_foldl {step : σ → ε → σ} {get : σ → α}
    (h : ∀ s e, get (step s e) = (write e).getD (get s)) (events : List ε) (s : σ) :
    get (events.foldl step s) = (lastWrite write events).getD (get s) := by
  induction events using List.reverseRecOn with
  | nil => rfl
  | append_singleton events e ih =>
      rw [List.foldl_append, List.foldl_cons, List.foldl_nil, h, ih, lastWrite_append_singleton]
      cases write e with
      | none => rfl
      | some v => rfl

end LastWrite
