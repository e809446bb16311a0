import NetworkSimulator.Proofs.ExitSilence
import NetworkSimulator.Proofs.NetworkQuiescence
import Mathlib.Algebra.Group.Action.Defs
import Mathlib.Tactic.Ring

/-! How much traffic a network without faulty processes makes. Every process
sends each kind of message at most once for a value, and only values that some
process owns, so a run cannot be longer than all of that. -/

namespace NetworkSimulator.Bracha
variable {process_number : Nat} {number_of_msg_per_process : Nat}

section Kind
variable {kind : MsgValueType → Msg} (named : ∀ value, (kind value).value = value) {msgs : List Msg}
  {values : Finset MsgValueType}
include named

end Kind

namespace Net
variable {net : Net process_number}

end Net

end NetworkSimulator.Bracha
