import DoctorClaw.Lib.Run
import Mathlib.Data.Nat.ModEq
import Mathlib.Logic.Function.Basic

/-!
# Bounded first-in first-out queues and their ring buffers

The abstract queue is a list with a capacity.  The ring stores the same
elements in a circular array addressed by `head`, `tail` and `count`.  A view
of the ring reads any function of the slot number along the occupied arc, so
that a value and a ghost mark kept beside it are read the same way.
-/

namespace BoundedQueue

open Transition

variable {α : Type*}

inductive Event (α : Type*)
  | push (a : α)
  | pop (a : α)
  | idle

inductive Step (capacity : ℕ) : List α → Event α → List α → Prop
  | push {q : List α} {a : α} (h : q.length < capacity) :
      Step capacity q (.push a) (q ++ [a])
  | pop {q : List α} {a : α} : Step capacity (a :: q) (.pop a) q
  | idle {q : List α} : Step capacity q .idle q

def pushed : Event α → Option α
  | .push a => some a
  | _ => none

def popped : Event α → Option α
  | .pop a => some a
  | _ => none

/-- First in, first out: what was pushed is what was popped followed by what
is still queued. -/
theorem pushes_eq_pops_append {capacity : ℕ} {evs : List (Event α)} {q : List α}
    (h : Run (Step capacity) [] evs q) :
    evs.filterMap pushed = evs.filterMap popped ++ q := by
  induction h with
  | nil => rfl
  | snoc _ hlast ih =>
      cases hlast with
      | push hroom => simp [pushed, popped, ih]
      | pop => simp [pushed, popped, ih]
      | idle => simpa [List.filterMap_cons, pushed, popped] using ih

end BoundedQueue

/-- A circular array.  Only the `capacity` slots below the capacity exist;
their initial content is arbitrary. -/
structure RingBuffer (α : Type*) where
  slots : ℕ → α
  capacity : ℕ
  head : ℕ
  tail : ℕ
  count : ℕ

namespace RingBuffer

variable {α β : Type*}

structure WF (r : RingBuffer α) : Prop where
  count_le : r.count ≤ r.capacity
  head_lt : r.head < r.capacity
  tail_eq : r.tail = (r.head + r.count) % r.capacity

def index (r : RingBuffer α) (i : ℕ) : ℕ := (r.head + i) % r.capacity

/-- Read `f` along the occupied arc, oldest slot first. -/
def view (r : RingBuffer α) (f : ℕ → β) : List β := (List.range r.count).map fun i ↦ f (r.index i)

def put (r : RingBuffer α) (a : α) : RingBuffer α :=
  { r with
    slots := Function.update r.slots r.tail a
    tail := (r.tail + 1) % r.capacity
    count := r.count + 1 }

def drop (r : RingBuffer α) : RingBuffer α :=
  { r with
    head := (r.head + 1) % r.capacity
    count := r.count - 1 }

@[simp] theorem length_view (r : RingBuffer α) (f : ℕ → β) : (r.view f).length = r.count := by
  simp [view]

theorem WF.capacity_pos {r : RingBuffer α} (h : r.WF) : 0 < r.capacity := by
  have := h.head_lt
  omega

theorem WF.tail_lt {r : RingBuffer α} (h : r.WF) : r.tail < r.capacity := by
  rw [h.tail_eq]
  exact Nat.mod_lt _ h.capacity_pos

theorem WF.put {r : RingBuffer α} (h : r.WF) (hroom : r.count < r.capacity) (a : α) :
    (r.put a).WF where
  count_le := hroom
  head_lt := h.head_lt
  tail_eq := by
    change (r.tail + 1) % r.capacity = (r.head + (r.count + 1)) % r.capacity
    rw [h.tail_eq, Nat.mod_add_mod, Nat.add_assoc]

theorem WF.drop {r : RingBuffer α} (h : r.WF) (hne : 0 < r.count) : r.drop.WF where
  count_le := by
    have := h.count_le
    change r.count - 1 ≤ r.capacity
    omega
  head_lt := Nat.mod_lt _ h.capacity_pos
  tail_eq := by
    change r.tail = ((r.head + 1) % r.capacity + (r.count - 1)) % r.capacity
    rw [h.tail_eq, Nat.mod_add_mod]
    congr 1
    omega

theorem WF.index_ne_tail {r : RingBuffer α} (h : r.WF) (hroom : r.count < r.capacity) {i : ℕ}
    (hi : i < r.count) : r.index i ≠ r.tail := by
  intro heq
  have hmod : r.head + i ≡ r.head + r.count [MOD r.capacity] := by
    rw [Nat.ModEq, ← h.tail_eq]
    exact heq
  have hdvd : r.capacity ∣ r.head + r.count - (r.head + i) :=
    (Nat.modEq_iff_dvd' (by omega)).mp hmod
  have hle := Nat.le_of_dvd (by omega) hdvd
  omega

/-- Writing at the tail appends the written value to the view, whatever else
is read through the updated function. -/
theorem WF.view_put {r : RingBuffer α} (h : r.WF) (hroom : r.count < r.capacity) (a : α)
    (f : ℕ → β) (b : β) :
    (r.put a).view (Function.update f r.tail b) = r.view f ++ [b] := by
  have hold : ∀ i ∈ List.range r.count,
      Function.update f r.tail b ((r.put a).index i) = f (r.index i) := by
    intro i hi
    exact Function.update_of_ne (h.index_ne_tail hroom (List.mem_range.mp hi)) _ _
  have hnew : (r.put a).index r.count = r.tail := h.tail_eq.symm
  calc
    (r.put a).view (Function.update f r.tail b) =
        (List.range (r.count + 1)).map
          (fun i ↦ Function.update f r.tail b ((r.put a).index i)) := rfl
    _ = (List.range r.count).map (fun i ↦ Function.update f r.tail b ((r.put a).index i)) ++
          [b] := by
      rw [List.range_succ, List.map_append, List.map_singleton, hnew, Function.update_self]
    _ = r.view f ++ [b] := by
      rw [List.map_congr_left hold]
      rfl

theorem WF.view_eq_cons {r : RingBuffer α} (h : r.WF) (hne : 0 < r.count) (f : ℕ → β) :
    r.view f = f r.head :: r.drop.view f := by
  obtain ⟨n, hn⟩ : ∃ n, r.count = n + 1 := ⟨r.count - 1, by omega⟩
  have hfirst : r.index 0 = r.head := Nat.mod_eq_of_lt h.head_lt
  have hshift : ∀ i, r.index (i + 1) = r.drop.index i := by
    intro i
    change (r.head + (i + 1)) % r.capacity = ((r.head + 1) % r.capacity + i) % r.capacity
    rw [Nat.mod_add_mod]
    congr 1
    omega
  have hcount : r.drop.count = n := by
    change r.count - 1 = n
    omega
  unfold view
  rw [hn, hcount, List.range_succ_eq_map, List.map_cons, List.map_map, hfirst]
  simp only [Function.comp_def, Nat.succ_eq_add_one, hshift]

end RingBuffer
