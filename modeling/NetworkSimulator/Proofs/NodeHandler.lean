import NetworkSimulator.Bracha.Node
import Mathlib.Tactic.SplitIfs

/-! What one message does to a node. Every lookup of the handler succeeds, so
each branch has a total description in terms of three transitions. -/

namespace NetworkSimulator.Bracha

/-- The state recorded for a value decides what is still to be sent. -/
def Node.advance (node : Node) (value : MsgValueType) : Node :=
  match node.msgs_states value with
  | none => (node.sendEcho value).sendReady value
  | some .SentEcho => node.sendReady value
  | some .SentReady => node

def Node.echoCount (node : Node) (value : MsgValueType) : Nat := (node.counter_echo_msgs value).getD 0

def Node.readyCount (node : Node) (value : MsgValueType) : Nat := (node.counter_ready_msgs value).getD 0

@[simp] theorem bump_same (counter : MsgValueType → Option Nat) (value : MsgValueType) :
    bump counter value value = some ((counter value).getD 0 + 1) := by simp [bump]

theorem bump_other (counter : MsgValueType → Option Nat) {value other : MsgValueType} (different : other ≠ value) :
    bump counter value other = counter other := by simp [bump, different]

namespace Node
variable (config : Config) (node : Node) (value : MsgValueType)

/-- Reception of a message counts it before anything is tested. -/
def countInitial : Node := { node with counter_initial_msgs := bump node.counter_initial_msgs value }
def countEcho : Node := { node with counter_echo_msgs := bump node.counter_echo_msgs value }
def countReady : Node := { node with counter_ready_msgs := bump node.counter_ready_msgs value }

theorem handleInitial_eq : node.handleInitial value =
    some (if node.msgs_states value = none then (node.countInitial value).sendEcho value else node.countInitial value) := by
  simp only [handleInitial, bump_same, Option.bind_eq_bind, Option.bind_some, Nat.zero_le, true_and, countInitial]
  split <;> rfl

theorem handleEcho_eq : node.handleEcho config value =
    some (if config.echoQuorum ≤ node.echoCount value + 1 then (node.countEcho value).advance value
      else node.countEcho value) := by
  simp only [handleEcho, bump_same, Option.bind_eq_bind, Option.bind_some, echoCount]
  by_cases reached : config.echoQuorum ≤ (node.counter_echo_msgs value).getD 0 + 1
  · rcases state : node.msgs_states value with _ | (_ | _)
    · have further : config.echoQuorum ≤ (node.counter_echo_msgs value).getD 0 + 1 + 1 := by omega
      simp [reached, further, state, sendEcho, sendReady, broadcast, advance, countEcho]
    · simp [reached, state, advance, countEcho]
    · simp [reached, state, advance, countEcho]
  · simp [reached, countEcho]

theorem handleReady_eq : node.handleReady config value =
    some (if config.max_byzantin_process_number + 1 ≤ node.readyCount value + 1 then
      let advanced := (node.countReady value).advance value
      if 2 * config.max_byzantin_process_number + 1 ≤ advanced.readyCount value then advanced.deliver config value
      else advanced
    else node.countReady value) := by
  simp only [handleReady, bump_same, Option.bind_eq_bind, Option.bind_some, readyCount]
  by_cases reached : config.max_byzantin_process_number + 1 ≤ (node.counter_ready_msgs value).getD 0 + 1
  · rcases state : node.msgs_states value with _ | (_ | _)
    all_goals
      simp only [reached, state, sendEcho, sendReady, broadcast, advance, countReady, Function.update_self, bump_same,
        Option.bind_some, Option.getD_some, reduceCtorEq, and_self, and_false, if_true, if_false]
      split <;> rfl
  · have short : ¬ 2 * config.max_byzantin_process_number + 1 ≤ (node.counter_ready_msgs value).getD 0 + 1 := by omega
    simp only [reached, short, countReady, false_and, if_false, bump_same, Option.bind_some]

theorem countReady_readyCount : (node.countReady value).readyCount value = node.readyCount value + 1 := by
  simp only [readyCount, countReady, bump_same, Option.getD_some]

theorem advance_readyCount_le : (node.advance value).readyCount value ≤ node.readyCount value + 1 := by
  unfold advance
  split
  all_goals simp [sendEcho, sendReady, broadcast, readyCount]

/-- No `unwrap` of a map lookup in the handler fails. -/
theorem handle_total (msg : Msg) : ∃ next, node.handle config msg = some next := by
  cases msg with
  | Initial value => exact ⟨_, handleInitial_eq _ value⟩
  | Echo value => exact ⟨_, handleEcho_eq config _ value⟩
  | Ready value => exact ⟨_, handleReady_eq config _ value⟩

end Node
end NetworkSimulator.Bracha
