import DoctorClaw.Muninn.Associations
import DoctorClaw.Lib.InsertionSort

/-!
# The order of activated engrams

The candidates of a vault are scored into an array, which is sorted in place.
The first of them are then loaded again by their ids, so an activation returns
the best candidates, better ones first.
-/

namespace DoctorClaw

open Ranking

section Activation

variable {S : Type*} [LinearOrder S] (base : MuninnBase S) (m : Muninn)

end Activation

end DoctorClaw
