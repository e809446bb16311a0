import Mathlib.Algebra.Order.Ring.Nat
import Mathlib.Data.Finset.Card
import Mathlib.Logic.Function.Basic

/-! One Bracha node: the message handler of `bracha_broadcast/node/src/main.rs`.
Hash maps are partial functions, so every `get(..).unwrap()` stays visible as a
lookup that could fail. -/

namespace NetworkSimulator.Bracha

abbrev MsgValueType := Int32

inductive Msg where
  | Initial (v : MsgValueType)
  | Echo (v : MsgValueType)
  | Ready (v : MsgValueType)
  deriving DecidableEq, Repr

inductive MsgState where
  | SentEcho
  | SentReady
  deriving DecidableEq, Repr

/-- What a process reads from its arguments and its configuration file. -/
structure Config where
  id : Nat
  process_number : Nat
  number_of_msg_per_process : Nat

namespace Config
variable (config : Config)

def max_byzantin_process_number : Nat := config.process_number / 3

def echoQuorum : Nat := (config.process_number + config.max_byzantin_process_number) / 2

/-- `(k * process_number + id) as i32`, with the truncation of the cast. -/
def ownValue (k : Nat) : MsgValueType := Int32.ofNat (k * config.process_number + config.id)

/-- `((number_of_msg_per_process * process_number) - 50) as i32`; the unsigned
subtraction wraps in the release build the run scripts deploy. -/
def printedFrom : MsgValueType :=
  Int32.ofNat (UInt64.ofNat (config.number_of_msg_per_process * config.process_number) - 50).toNat

end Config

/-- The variables of `main`. The counters are natural numbers; `Process` has them
in the types of the source, where the `i32` Ready counter wraps once a node has
handled 2^31 - 1 copies of one Ready. `broadcasts` lists the messages handed to
`broadcast`; `handled` is a history variable that no computation reads. -/
structure Node where
  current_msg_id_to_send : Nat := 1
  counter_initial_msgs : MsgValueType → Option Nat := fun _ => none
  counter_echo_msgs : MsgValueType → Option Nat := fun _ => none
  counter_ready_msgs : MsgValueType → Option Nat := fun _ => none
  msgs_states : MsgValueType → Option MsgState := fun _ => none
  msgs_delivered : Finset MsgValueType := ∅
  stdout : List MsgValueType := []
  broadcasts : List Msg := []
  handled : List Msg := []

/-- `*counter.entry(value).or_insert(0) += 1` -/
def bump (counter : MsgValueType → Option Nat) (value : MsgValueType) : MsgValueType → Option Nat :=
  Function.update counter value (some ((counter value).getD 0 + 1))

namespace Node

def record (node : Node) (msg : Msg) : Node := { node with handled := node.handled ++ [msg] }

def broadcast (node : Node) (msg : Msg) : Node := { node with broadcasts := node.broadcasts ++ [msg] }

def sendEcho (node : Node) (value : MsgValueType) : Node :=
  { node with
    msgs_states := Function.update node.msgs_states value (some .SentEcho)
    counter_echo_msgs := bump node.counter_echo_msgs value }.broadcast (.Echo value)

def sendReady (node : Node) (value : MsgValueType) : Node :=
  { node with
    msgs_states := Function.update node.msgs_states value (some .SentReady)
    counter_ready_msgs := bump node.counter_ready_msgs value }.broadcast (.Ready value)

def sendInitial (config : Config) (node : Node) : Node :=
  let value := config.ownValue node.current_msg_id_to_send
  { node with
    current_msg_id_to_send := node.current_msg_id_to_send + 1
    counter_initial_msgs := bump node.counter_initial_msgs value }.broadcast (.Initial value)

/-- The delivery branch. A delivered own value releases the next Initial. -/
def deliver (config : Config) (node : Node) (value : MsgValueType) : Node :=
  let node := { node with
    msgs_delivered := insert value node.msgs_delivered
    stdout := if config.printedFrom < value then node.stdout ++ [value] else node.stdout }
  if value = config.ownValue (node.current_msg_id_to_send - 1) then
    if node.current_msg_id_to_send ≤ config.number_of_msg_per_process then node.sendInitial config else node
  else node

def handleInitial (node : Node) (value : MsgValueType) : Option Node := do
  let node := { node with counter_initial_msgs := bump node.counter_initial_msgs value }
  let count ← node.counter_initial_msgs value
  if 0 ≤ count ∧ node.msgs_states value = none then some (node.sendEcho value) else some node

def handleEcho (config : Config) (node : Node) (value : MsgValueType) : Option Node := do
  let node := { node with counter_echo_msgs := bump node.counter_echo_msgs value }
  let count ← node.counter_echo_msgs value
  let node := if config.echoQuorum ≤ count ∧ node.msgs_states value = none then node.sendEcho value else node
  let count ← node.counter_echo_msgs value
  if config.echoQuorum ≤ count then
    let state ← node.msgs_states value
    if state = .SentEcho then some (node.sendReady value) else some node
  else some node

def handleReady (config : Config) (node : Node) (value : MsgValueType) : Option Node := do
  let node := { node with counter_ready_msgs := bump node.counter_ready_msgs value }
  let count ← node.counter_ready_msgs value
  let node :=
    if config.max_byzantin_process_number + 1 ≤ count ∧ node.msgs_states value = none then node.sendEcho value else node
  let count ← node.counter_ready_msgs value
  let node ←
    if config.max_byzantin_process_number + 1 ≤ count then do
      let state ← node.msgs_states value
      if state = .SentEcho then some (node.sendReady value) else some node
    else some node
  let count ← node.counter_ready_msgs value
  if 2 * config.max_byzantin_process_number + 1 ≤ count then
    let state ← node.msgs_states value
    if state = .SentReady then some (node.deliver config value) else some node
  else some node

/-- One `Ok(msg)` of the stream deserializer. `none` is a failed `unwrap`. -/
def handle (config : Config) (node : Node) (msg : Msg) : Option Node :=
  match msg with
  | .Initial value => (node.record msg).handleInitial value
  | .Echo value => (node.record msg).handleEcho config value
  | .Ready value => (node.record msg).handleReady config value

/-- The test that ends a pass of the main loop. The product of two `usize` wraps
in the release build. -/
def finished (config : Config) (node : Node) : Bool :=
  node.msgs_delivered.card == config.number_of_msg_per_process * config.process_number % 2 ^ 64

end Node
end NetworkSimulator.Bracha
