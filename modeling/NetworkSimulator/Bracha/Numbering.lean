import NetworkSimulator.Bracha.Node

/-! The `usize` arithmetic behind the numbers of a node's messages, as it is meant:
an expression that leaves the range has no value. The release build wraps instead. -/

namespace NetworkSimulator.Bracha

/-- A result that a 64-bit `usize` holds. -/
def usize (n : Nat) : Option Nat := if n < UInt64.size then some n else none

def checked_add (m n : Nat) : Option Nat := usize (m + n)

def checked_sub (m n : Nat) : Option Nat := if n ≤ m then some (m - n) else none

def checked_mul (m n : Nat) : Option Nat := usize (m * n)

namespace Config
variable (config : Config)

/-- `k * process_number + id` -/
def checkedValue (k : Nat) : Option Nat := do
  let product ← checked_mul k config.process_number
  checked_add product config.id

/-- `number_of_msg_per_process * process_number` -/
def exitCount : Option Nat := checked_mul config.number_of_msg_per_process config.process_number

/-- `(number_of_msg_per_process * process_number) - 50` -/
def checkedWindow : Option Nat := do
  let count ← config.exitCount
  checked_sub count 50

end Config

/-- The delivery branch, with every `usize` expression in the order it is evaluated. -/
def Node.checkedDeliver (config : Config) (node : Node) (value : MsgValueType) : Option Node := do
  let window ← config.checkedWindow
  let node := { node with
    msgs_delivered := insert value node.msgs_delivered
    stdout := if Int32.ofNat window < value then node.stdout ++ [value] else node.stdout }
  let newest ← checked_sub node.current_msg_id_to_send 1
  let own ← config.checkedValue newest
  if value = Int32.ofNat own then
    if node.current_msg_id_to_send ≤ config.number_of_msg_per_process then
      let next ← config.checkedValue node.current_msg_id_to_send
      let value := Int32.ofNat next
      let current_msg_id_to_send ← checked_add node.current_msg_id_to_send 1
      let count ← checked_add ((node.counter_initial_msgs value).getD 0) 1
      some ({ node with
        current_msg_id_to_send
        counter_initial_msgs := Function.update node.counter_initial_msgs value (some count) }.broadcast (.Initial value))
    else some node
  else some node

end NetworkSimulator.Bracha
