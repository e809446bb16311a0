import NetworkSimulator.Bracha.Node

/-! The message handler again, with the counters and thresholds in the integer
types of the source: `usize` for Initials and Echoes, `i32` for Readies. The
release build that the run scripts deploy lets them wrap. -/

namespace NetworkSimulator.Bracha

structure Process where
  current_msg_id_to_send : Nat := 1
  counter_initial_msgs : MsgValueType → Option UInt64 := fun _ => none
  counter_echo_msgs : MsgValueType → Option UInt64 := fun _ => none
  counter_ready_msgs : MsgValueType → Option Int32 := fun _ => none
  msgs_states : MsgValueType → Option MsgState := fun _ => none
  msgs_delivered : Finset MsgValueType := ∅
  stdout : List MsgValueType := []
  broadcasts : List Msg := []
  handled : List Msg := []

/-- `*counter.entry(value).or_insert(0) += 1` in the type of the counter. -/
def increment {α : Type} [Add α] [OfNat α 0] [OfNat α 1] (counter : MsgValueType → Option α) (value : MsgValueType) :
    MsgValueType → Option α :=
  Function.update counter value (some ((counter value).getD 0 + 1))

namespace Process

def record (process : Process) (msg : Msg) : Process := { process with handled := process.handled ++ [msg] }

def broadcast (process : Process) (msg : Msg) : Process := { process with broadcasts := process.broadcasts ++ [msg] }

def sendEcho (process : Process) (value : MsgValueType) : Process :=
  { process with
    msgs_states := Function.update process.msgs_states value (some .SentEcho)
    counter_echo_msgs := increment process.counter_echo_msgs value }.broadcast (.Echo value)

def sendReady (process : Process) (value : MsgValueType) : Process :=
  { process with
    msgs_states := Function.update process.msgs_states value (some .SentReady)
    counter_ready_msgs := increment process.counter_ready_msgs value }.broadcast (.Ready value)

def sendInitial (config : Config) (process : Process) : Process :=
  let value := config.ownValue process.current_msg_id_to_send
  { process with
    current_msg_id_to_send := process.current_msg_id_to_send + 1
    counter_initial_msgs := increment process.counter_initial_msgs value }.broadcast (.Initial value)

def deliver (config : Config) (process : Process) (value : MsgValueType) : Process :=
  let process := { process with
    msgs_delivered := insert value process.msgs_delivered
    stdout := if config.printedFrom < value then process.stdout ++ [value] else process.stdout }
  if value = config.ownValue (process.current_msg_id_to_send - 1) then
    if process.current_msg_id_to_send ≤ config.number_of_msg_per_process then process.sendInitial config else process
  else process

/-- Reception of a message counts it before anything is tested. -/
def countInitial (process : Process) (value : MsgValueType) : Process :=
  { process with counter_initial_msgs := increment process.counter_initial_msgs value }
def countEcho (process : Process) (value : MsgValueType) : Process :=
  { process with counter_echo_msgs := increment process.counter_echo_msgs value }
def countReady (process : Process) (value : MsgValueType) : Process :=
  { process with counter_ready_msgs := increment process.counter_ready_msgs value }

def handleInitial (process : Process) (value : MsgValueType) : Option Process := do
  let process := process.countInitial value
  let count ← process.counter_initial_msgs value
  if 0 ≤ count ∧ process.msgs_states value = none then some (process.sendEcho value) else some process

def handleEcho (config : Config) (process : Process) (value : MsgValueType) : Option Process := do
  let process := process.countEcho value
  let count ← process.counter_echo_msgs value
  let process :=
    if UInt64.ofNat config.echoQuorum ≤ count ∧ process.msgs_states value = none then process.sendEcho value else process
  let count ← process.counter_echo_msgs value
  if UInt64.ofNat config.echoQuorum ≤ count then
    let state ← process.msgs_states value
    if state = .SentEcho then some (process.sendReady value) else some process
  else some process

/-- `max_byzantin_process_number as i32`. The threshold of a delivery leaves the
type from 3 * 2^30 processes on. -/
def handleReady (config : Config) (process : Process) (value : MsgValueType) : Option Process := do
  let max_byzantin_process_number := Int32.ofNat config.max_byzantin_process_number
  let process := process.countReady value
  let count ← process.counter_ready_msgs value
  let process :=
    if max_byzantin_process_number + 1 ≤ count ∧ process.msgs_states value = none then process.sendEcho value else process
  let count ← process.counter_ready_msgs value
  let process ←
    if max_byzantin_process_number + 1 ≤ count then do
      let state ← process.msgs_states value
      if state = .SentEcho then some (process.sendReady value) else some process
    else some process
  let count ← process.counter_ready_msgs value
  if 2 * max_byzantin_process_number + 1 ≤ count then
    let state ← process.msgs_states value
    if state = .SentReady then some (process.deliver config value) else some process
  else some process

/-- One `Ok(msg)` of the stream deserializer. `none` is a failed `unwrap`. -/
def handle (config : Config) (process : Process) (msg : Msg) : Option Process :=
  match msg with
  | .Initial value => (process.record msg).handleInitial value
  | .Echo value => (process.record msg).handleEcho config value
  | .Ready value => (process.record msg).handleReady config value

/-- What the first pass of the main loop leaves for the handler. -/
def start (config : Config) : Process := sendInitial config {}

end Process
end NetworkSimulator.Bracha
