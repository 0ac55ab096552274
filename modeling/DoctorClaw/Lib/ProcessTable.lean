import Mathlib.Algebra.Order.Group.Int
import Mathlib.Logic.Function.Basic
import Mathlib.Tactic.Common

/-!
# The children of a process

What a process asks of the system about its children, and the children that it
has not waited for yet.  A signal is proper when it goes to a child that has
not been signalled before: never to a stranger, and never twice.  Waiting is
proper after the signal.

A child can end by itself at any time.  Nothing here depends on it: until it is
waited for, an ended child keeps its number, and a signal to it is lost.
-/

namespace ProcessTable

/-- `fork` carries the answer that the parent gets. -/
inductive Call
  | fork (answer : ℤ)
  | kill (pid : ℤ)
  | waitpid (pid : ℤ)
  deriving DecidableEq

/-- `started` is a child that was not signalled, whether it still runs or has
ended by itself. -/
inductive Phase
  | started
  | signalled
  deriving DecidableEq

/-- The children that have not been waited for. -/
abbrev Table := ℤ → Option Phase

def noChildren : Table := fun _ ↦ none

def Call.apply (t : Table) : Call → Table
  | fork answer => if 0 < answer then Function.update t answer (some .started) else t
  | kill pid => Function.update t pid (some .signalled)
  | waitpid pid => Function.update t pid none

def Call.Proper (t : Table) : Call → Prop
  | fork _ => True
  | kill pid => t pid = some .started
  | waitpid pid => t pid = some .signalled

/-- The system gives a new child a number that no child bears, and the parent
never sees the zero that the child itself gets. -/
def Call.Fresh (t : Table) : Call → Prop
  | fork answer => answer ≠ 0 ∧ t answer = none
  | kill _ => True
  | waitpid _ => True

instance (t : Table) : DecidablePred (Call.Fresh t) := fun call ↦
  match call with
  | .fork _ => inferInstanceAs (Decidable (_ ∧ _))
  | .kill _ => inferInstanceAs (Decidable True)
  | .waitpid _ => inferInstanceAs (Decidable True)

def applyAll (t : Table) (calls : List Call) : Table := calls.foldl Call.apply t

/-- The property holds of each call in the table that it meets. -/
def Throughout (P : Table → Call → Prop) : Table → List Call → Prop
  | _, [] => True
  | t, call :: rest => P t call ∧ Throughout P (call.apply t) rest

instance instDecidableThroughout (P : Table → Call → Prop) [∀ t, DecidablePred (P t)] :
    (t : Table) → (calls : List Call) → Decidable (Throughout P t calls)
  | _, [] => inferInstanceAs (Decidable True)
  | t, call :: rest =>
      have := instDecidableThroughout P (call.apply t) rest
      inferInstanceAs (Decidable (P t call ∧ Throughout P (call.apply t) rest))

/-- No child waits to be waited for. -/
def AllWaited (t : Table) : Prop := ∀ pid, t pid ≠ some .signalled

variable {P : Table → Call → Prop} {t : Table} {pid : ℤ}

theorem apply_fork {answer : ℤ} (hpos : 0 < answer) :
    (Call.fork answer).apply t = Function.update t answer (some .started) := if_pos hpos

theorem apply_fork_failed {answer : ℤ} (hneg : answer < 0) : (Call.fork answer).apply t = t :=
  if_neg hneg.not_gt

theorem apply_kill : (Call.kill pid).apply t = Function.update t pid (some .signalled) := rfl

theorem apply_waitpid : (Call.waitpid pid).apply t = Function.update t pid none := rfl

@[simp] theorem throughout_nil : Throughout P t [] := trivial

@[simp] theorem throughout_cons {call : Call} {rest : List Call} :
    Throughout P t (call :: rest) ↔ P t call ∧ Throughout P (call.apply t) rest := Iff.rfl

@[simp] theorem applyAll_nil : applyAll t [] = t := rfl

@[simp] theorem applyAll_cons {call : Call} {rest : List Call} :
    applyAll t (call :: rest) = applyAll (call.apply t) rest := rfl

theorem applyAll_append (calls more : List Call) :
    applyAll t (calls ++ more) = applyAll (applyAll t calls) more := List.foldl_append

theorem throughout_append {calls more : List Call} :
    Throughout P t (calls ++ more) ↔
      Throughout P t calls ∧ Throughout P (applyAll t calls) more := by
  induction calls generalizing t with
  | nil => simp
  | cons call rest ih =>
      rw [List.cons_append, throughout_cons, throughout_cons, ih, and_assoc, applyAll_cons]

/-- The number of children with a number that were neither waited for nor
signalled, which is one or zero. -/
def unsignalled (t : Table) (pid : ℤ) : ℕ := if t pid = some .started then 1 else 0

theorem unsignalled_eq_one : unsignalled t pid = 1 ↔ t pid = some .started := by simp [unsignalled]

theorem unsignalled_le_one : unsignalled t pid ≤ 1 := by
  unfold unsignalled
  split_ifs <;> omega

theorem unsignalled_fork {answer : ℤ} (hpos : 0 < answer) (hnone : t answer = none) :
    unsignalled ((Call.fork answer).apply t) pid =
      unsignalled t pid + if answer = pid then 1 else 0 := by
  unfold unsignalled
  rw [apply_fork hpos]
  by_cases h : answer = pid
  · subst h
    rw [Function.update_self, hnone]
    simp
  · rw [Function.update_of_ne (Ne.symm h), if_neg h]
    exact (Nat.add_zero _).symm

theorem unsignalled_kill {p : ℤ} (hstarted : t p = some .started) :
    unsignalled ((Call.kill p).apply t) pid + (if p = pid then 1 else 0) = unsignalled t pid := by
  unfold unsignalled
  rw [apply_kill]
  by_cases h : p = pid
  · subst h
    rw [Function.update_self, hstarted]
    simp
  · rw [Function.update_of_ne (Ne.symm h), if_neg h]
    exact Nat.add_zero _

theorem unsignalled_waitpid {p : ℤ} (hsignalled : t p = some .signalled) :
    unsignalled ((Call.waitpid p).apply t) pid = unsignalled t pid := by
  unfold unsignalled
  rw [apply_waitpid]
  by_cases h : p = pid
  · subst h
    rw [Function.update_self, hsignalled]
    simp
  · rw [Function.update_of_ne (Ne.symm h)]

theorem AllWaited.fork (h : AllWaited t) (answer : ℤ) :
    AllWaited ((Call.fork answer).apply t) := by
  unfold Call.apply
  dsimp only
  split_ifs
  · intro pid
    rw [Function.update_apply]
    split_ifs
    · exact fun heq ↦ by cases heq
    · exact h pid
  · exact h

theorem AllWaited.kill_waitpid (h : AllWaited t) (p : ℤ) :
    AllWaited ((Call.waitpid p).apply ((Call.kill p).apply t)) := by
  intro pid
  rw [apply_waitpid, apply_kill, Function.update_idem, Function.update_apply]
  split_ifs
  · exact fun heq ↦ by cases heq
  · exact h pid

/-- To signal every unsignalled child once, each from a list without repetition,
is proper and leaves none of them unsignalled. -/
theorem throughout_kill {pids : List ℤ} (hcount : ∀ pid, pids.count pid = unsignalled t pid) :
    Throughout Call.Proper t (pids.map .kill) ∧
      ∀ pid, unsignalled (applyAll t (pids.map .kill)) pid = 0 := by
  induction pids generalizing t with
  | nil => exact ⟨trivial, fun pid ↦ (hcount pid).symm⟩
  | cons p rest ih =>
      have hstarted : t p = some .started := by
        refine unsignalled_eq_one.mp (le_antisymm unsignalled_le_one ?_)
        rw [← hcount p, List.count_cons_self]
        exact Nat.le_add_left _ _
      have hrest : ∀ pid, rest.count pid = unsignalled ((Call.kill p).apply t) pid := fun pid ↦ by
        have h := hcount pid
        rw [← unsignalled_kill hstarted, List.count_cons] at h
        simpa using h
      obtain ⟨hproper, hnone⟩ := ih hrest
      exact ⟨⟨hstarted, hproper⟩, hnone⟩

end ProcessTable
