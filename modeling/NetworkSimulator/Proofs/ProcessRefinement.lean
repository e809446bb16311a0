import NetworkSimulator.Bracha.Process
import NetworkSimulator.Library.Machine
import NetworkSimulator.Proofs.NodeSending

/-! The handler with machine integers against the one with natural numbers. As
long as the thresholds fit their types they agree on everything a node decides:
a counter can wrap only once its value has been delivered, and from then on it
can only keep the delivery branch from being entered again. The thresholds fit
below 3 * 2^30 processes; a process holds one `i32` descriptor for each peer. -/

namespace NetworkSimulator.Bracha

section
variable {α : Type} [Add α] [OfNat α 0] [OfNat α 1] (counter : MsgValueType → Option α)

@[simp] theorem increment_same (value : MsgValueType) : increment counter value value = some ((counter value).getD 0 + 1) := by
  simp [increment]

theorem increment_other {value other : MsgValueType} (different : other ≠ value) :
    increment counter value other = counter other := by simp [increment, different]

end

/-- A process and a node that count the same, up to the width of the counters,
and print the same until a counter leaves its type. -/
structure Matches (process : Process) (node : Node) : Prop where
  current : process.current_msg_id_to_send = node.current_msg_id_to_send
  states : process.msgs_states = node.msgs_states
  delivered : process.msgs_delivered = node.msgs_delivered
  broadcasts : process.broadcasts = node.broadcasts
  handled : process.handled = node.handled
  echoes : ∀ value, (process.counter_echo_msgs value).getD 0 = UInt64.ofNat (node.echoCount value)
  readies : ∀ value, (process.counter_ready_msgs value).getD 0 = Int32.ofNat (node.readyCount value)
  lines : ∀ value, node.readyCount value < 2 ^ 31 → process.stdout.count value = node.stdout.count value

namespace Matches
variable {process : Process} {node : Node} (same : Matches process node)
include same

theorem record (msg : Msg) : Matches (process.record msg) (node.record msg) :=
  { same with handled := congrArg (· ++ [msg]) same.handled }

theorem countInitial (value : MsgValueType) : Matches (process.countInitial value) (node.countInitial value) := { same with }

private theorem echoes_bumped (value other : MsgValueType) : ((increment process.counter_echo_msgs value) other).getD 0 =
    UInt64.ofNat (((bump node.counter_echo_msgs value) other).getD 0) := by
  by_cases own : other = value
  · subst own
    rw [increment_same, bump_same, Option.getD_some, Option.getD_some, UInt64.ofNat_add]
    exact congrArg (· + 1) (same.echoes other)
  · rw [increment_other _ own, bump_other _ own]
    exact same.echoes other

private theorem readies_bumped (value other : MsgValueType) : ((increment process.counter_ready_msgs value) other).getD 0 =
    Int32.ofNat (((bump node.counter_ready_msgs value) other).getD 0) := by
  by_cases own : other = value
  · subst own
    rw [increment_same, bump_same, Option.getD_some, Option.getD_some, Int32.ofNat_add]
    exact congrArg (· + 1) (same.readies other)
  · rw [increment_other _ own, bump_other _ own]
    exact same.readies other

private theorem lines_bumped (value other : MsgValueType) (small : ((bump node.counter_ready_msgs value) other).getD 0 < 2 ^ 31) :
    process.stdout.count other = node.stdout.count other := by
  apply same.lines
  unfold Node.readyCount
  by_cases own : other = value
  · subst own
    rw [bump_same, Option.getD_some] at small
    omega
  · rwa [bump_other _ own] at small

theorem countEcho (value : MsgValueType) : Matches (process.countEcho value) (node.countEcho value) :=
  { same with echoes := same.echoes_bumped value }

theorem countReady (value : MsgValueType) : Matches (process.countReady value) (node.countReady value) :=
  { same with
    readies := same.readies_bumped value
    lines := same.lines_bumped value }

theorem sendEcho (value : MsgValueType) : Matches (process.sendEcho value) (node.sendEcho value) :=
  { same with
    states := by simp only [Process.sendEcho, Node.sendEcho, Process.broadcast, Node.broadcast, same.states]
    broadcasts := by simp only [Process.sendEcho, Node.sendEcho, Process.broadcast, Node.broadcast, same.broadcasts]
    echoes := same.echoes_bumped value }

theorem sendReady (value : MsgValueType) : Matches (process.sendReady value) (node.sendReady value) :=
  { same with
    states := by simp only [Process.sendReady, Node.sendReady, Process.broadcast, Node.broadcast, same.states]
    broadcasts := by simp only [Process.sendReady, Node.sendReady, Process.broadcast, Node.broadcast, same.broadcasts]
    readies := same.readies_bumped value
    lines := same.lines_bumped value }

theorem sendInitial (config : Config) : Matches (process.sendInitial config) (node.sendInitial config) :=
  { same with
    current := congrArg (· + 1) same.current
    broadcasts := by simp only [Process.sendInitial, Node.sendInitial, Process.broadcast, Node.broadcast, same.broadcasts, same.current] }

theorem deliver (config : Config) (value : MsgValueType) : Matches (process.deliver config value) (node.deliver config value) := by
  have inserted : Matches
      { process with
        msgs_delivered := insert value process.msgs_delivered
        stdout := if config.printedFrom < value then process.stdout ++ [value] else process.stdout }
      { node with
        msgs_delivered := insert value node.msgs_delivered
        stdout := if config.printedFrom < value then node.stdout ++ [value] else node.stdout } :=
    { same with
      delivered := congrArg (insert value) same.delivered
      lines := by
        intro other small
        have before := same.lines other small
        dsimp only
        split
        · rw [List.count_append, List.count_append, before]
        · exact before }
  by_cases own : value = config.ownValue (node.current_msg_id_to_send - 1)
  · have newest : value = config.ownValue (process.current_msg_id_to_send - 1) := by rwa [same.current]
    by_cases remaining : node.current_msg_id_to_send ≤ config.number_of_msg_per_process
    · have further : process.current_msg_id_to_send ≤ config.number_of_msg_per_process := by rwa [same.current]
      simp only [Process.deliver, Node.deliver, if_pos own, if_pos newest, if_pos remaining, if_pos further]
      exact inserted.sendInitial config
    · have last : ¬ process.current_msg_id_to_send ≤ config.number_of_msg_per_process := by rwa [same.current]
      simp only [Process.deliver, Node.deliver, if_pos own, if_pos newest, if_neg remaining, if_neg last]
      exact inserted
  · have foreign : ¬ value = config.ownValue (process.current_msg_id_to_send - 1) := by rwa [same.current]
    simp only [Process.deliver, Node.deliver, if_neg own, if_neg foreign]
    exact inserted

end Matches

/-- The state recorded for a value decides what is still to be sent. -/
def Process.advance (process : Process) (value : MsgValueType) : Process :=
  match process.msgs_states value with
  | none => (process.sendEcho value).sendReady value
  | some .SentEcho => process.sendReady value
  | some .SentReady => process

theorem Matches.advance {process : Process} {node : Node} (same : Matches process node) (value : MsgValueType) :
    Matches (process.advance value) (node.advance value) := by
  have states := congrFun same.states value
  rcases state : node.msgs_states value with _ | (_ | _)
  all_goals
    rw [state] at states
    simp only [Process.advance, Node.advance, states, state]
  · exact (same.sendEcho value).sendReady value
  · exact same.sendReady value
  · exact same

section
variable {config : Config} (fits : config.process_number < 3 * 2 ^ 30)
include fits

theorem tolerated_fits : config.max_byzantin_process_number < 2 ^ 30 := by
  unfold Config.max_byzantin_process_number
  omega

theorem echo_test {count : Nat} (small : count < 2 ^ 64) :
    UInt64.ofNat config.echoQuorum ≤ UInt64.ofNat count ↔ config.echoQuorum ≤ count := by
  have quorum : config.echoQuorum < UInt64.size := by
    unfold Config.echoQuorum Config.max_byzantin_process_number
    simp only [UInt64.size]
    omega
  rw [UInt64.ofNat_le_iff quorum, UInt64.toNat_ofNat_of_lt' small]

theorem ready_test {count : Nat} (small : count < 2 ^ 31) :
    Int32.ofNat config.max_byzantin_process_number + 1 ≤ Int32.ofNat count ↔ config.max_byzantin_process_number + 1 ≤ count := by
  have tolerated := tolerated_fits fits
  exact Int32.ofNat_add config.max_byzantin_process_number 1 ▸ Int32.ofNat_le_iff_le (by omega) small

theorem delivery_test {count : Nat} (small : count < 2 ^ 31) :
    2 * Int32.ofNat config.max_byzantin_process_number + 1 ≤ Int32.ofNat count ↔
      2 * config.max_byzantin_process_number + 1 ≤ count := by
  have tolerated := tolerated_fits fits
  rw [← Int32.ofNat_le_iff_le (by omega) small, Int32.ofNat_add, Int32.ofNat_mul]
  rfl

variable {process : Process} {value : MsgValueType} {count : Nat}

omit fits in
theorem Process.handleInitial_eq (process : Process) (value : MsgValueType) : process.handleInitial value =
    some (if process.msgs_states value = none then (process.countInitial value).sendEcho value else process.countInitial value) := by
  have unsigned (count : UInt64) : 0 ≤ count := UInt64.zero_le
  simp only [handleInitial, countInitial, increment_same, Option.bind_eq_bind, Option.bind_some, unsigned, true_and]
  split <;> rfl

/-- A wrapped Echo counter belongs to a value that has nothing left to send. -/
theorem Process.handleEcho_eq (counted : (process.counter_echo_msgs value).getD 0 = UInt64.ofNat count)
    (small : process.msgs_states value ≠ some .SentReady → count + 2 < 2 ^ 64) : process.handleEcho config value =
    some (if config.echoQuorum ≤ count + 1 then (process.countEcho value).advance value else process.countEcho value) := by
  have next : UInt64.ofNat count + 1 = UInt64.ofNat (count + 1) := (UInt64.ofNat_add count 1).symm
  have last : UInt64.ofNat (count + 1) + 1 = UInt64.ofNat (count + 2) := (UInt64.ofNat_add (count + 1) 1).symm
  rcases state : process.msgs_states value with _ | (_ | _)
  all_goals simp only [handleEcho, countEcho, increment_same, Option.bind_eq_bind, Option.bind_some, counted, next, state]
  · have room := small (by simp [state])
    have next_small : count + 1 < 2 ^ 64 := by omega
    have test := echo_test fits next_small
    have again := echo_test fits room
    by_cases reached : config.echoQuorum ≤ count + 1
    · have further : config.echoQuorum ≤ count + 2 := by omega
      simp only [test, reached, and_self, if_true, advance, state]
      simp only [sendEcho, sendReady, broadcast, increment_same, Option.getD_some, counted, next, last, again, further, if_true, Option.bind_some,
        Function.update_self]
    · simp only [test, reached, false_and, if_false, increment_same, counted, next, Option.bind_some]
  · have room := small (by simp [state])
    have next_small : count + 1 < 2 ^ 64 := by omega
    have test := echo_test fits next_small
    by_cases reached : config.echoQuorum ≤ count + 1
    · simp only [test, reached, reduceCtorEq, and_false, if_false, if_true, increment_same, counted, next, Option.bind_some, state, advance]
    · simp only [test, reached, false_and, if_false, increment_same, counted, next, Option.bind_some]
  · simp only [reduceCtorEq, and_false, if_false, increment_same, counted, next, Option.bind_some, state, ite_self, advance]

/-- The last test is left in the type of the counter, which can wrap. -/
theorem Process.handleReady_eq (counted : (process.counter_ready_msgs value).getD 0 = Int32.ofNat count)
    (small : process.msgs_states value ≠ some .SentReady → count + 2 < 2 ^ 31) : process.handleReady config value =
    some (if config.max_byzantin_process_number + 1 ≤ count + 1 then
      let advanced := (process.countReady value).advance value
      if 2 * Int32.ofNat config.max_byzantin_process_number + 1 ≤ (advanced.counter_ready_msgs value).getD 0 then
        advanced.deliver config value
      else advanced
    else process.countReady value) := by
  have tolerated := tolerated_fits fits
  have next : Int32.ofNat count + 1 = Int32.ofNat (count + 1) := (Int32.ofNat_add count 1).symm
  have short (early : ¬ config.max_byzantin_process_number + 1 ≤ count + 1) :
      ¬ 2 * Int32.ofNat config.max_byzantin_process_number + 1 ≤ Int32.ofNat (count + 1) := by
    rw [delivery_test fits (by omega)]
    omega
  rcases state : process.msgs_states value with _ | (_ | _)
  all_goals simp only [handleReady, countReady, increment_same, Option.bind_eq_bind, Option.bind_some, counted, next, state]
  · have room := small (by simp [state])
    have next_small : count + 1 < 2 ^ 31 := by omega
    have test := ready_test fits next_small
    by_cases reached : config.max_byzantin_process_number + 1 ≤ count + 1
    · simp only [test, reached, and_self, if_true, advance, state]
      simp only [sendEcho, sendReady, broadcast, increment_same, Option.getD_some, counted, next, test, reached, if_true,
        Option.bind_some, Function.update_self]
      split <;> rfl
    · simp only [test, reached, false_and, if_false, increment_same, counted, next, Option.bind_some, short reached]
  · have room := small (by simp [state])
    have next_small : count + 1 < 2 ^ 31 := by omega
    have test := ready_test fits next_small
    by_cases reached : config.max_byzantin_process_number + 1 ≤ count + 1
    · simp only [test, reached, reduceCtorEq, and_false, if_false, if_true, increment_same, counted, next, Option.bind_some, state, advance]
      simp only [sendReady, broadcast, increment_same, Option.getD_some, counted, next, Option.bind_some, Function.update_self,
        if_true]
      split <;> rfl
    · simp only [test, reached, false_and, if_false, increment_same, counted, next, Option.bind_some, short reached]
  · simp only [reduceCtorEq, and_false, if_false, increment_same, counted, next, Option.bind_some, state, ite_self, if_true, advance,
      Option.getD_some]
    by_cases reached : config.max_byzantin_process_number + 1 ≤ count + 1
    · simp only [reached, if_true]
      split <;> rfl
    · simp only [reached, if_false, short reached]

end

/-- What a process makes of a message, in terms of the node it matches. Only the
delivery branch may be left out, for a value that is already delivered. -/
inductive Handles (config : Config) (node : Node) (msg : Msg) (next : Node) : Prop where
  | full (handled : node.handle config msg = some next)
  | counted (value : MsgValueType) (ready : msg = .Ready value) (delivered : value ∈ node.msgs_delivered)
      (wrapped : 2 ^ 31 ≤ node.readyCount value + 1) (result : next = (node.record msg).countReady value)

section
variable {config : Config} {node next : Node} {msg : Msg} (handles : Handles config node msg next)
include handles

theorem Handles.ledger (valid : Node.Valid config node) (other : MsgValueType) : next.ledger other =
    if other = msg.value then (node.ledger other).on config msg else node.ledger other := by
  cases handles with
  | full handled => exact Node.handle_ledger config node other handled
  | counted value ready delivered wrapped result =>
    subst ready result
    rw [Node.ready_counted]
    by_cases own : other = value
    · subst own
      rw [if_pos rfl, Msg.value, if_pos rfl]
      exact ((valid.ledgers other).onReady_delivered delivered).symm
    · rw [if_neg own, Msg.value, if_neg own]

theorem Handles.moved : Node.Moved config node msg next := by
  cases handles with
  | full handled => exact Node.handle_moved handled
  | counted value ready delivered wrapped result =>
    subst result
    exact .stayed rfl rfl fun member => Or.inl member

theorem Handles.valid (valid : Node.Valid config node) : Node.Valid config next :=
  valid.moved (handles.ledger valid) handles.moved

theorem Handles.handled : next.handled = node.handled ++ [msg] := by
  cases handles with
  | full handled => exact Node.handle_handled handled
  | counted value ready delivered wrapped result =>
    subst result
    rfl

theorem Handles.appended : node.broadcasts <+: next.broadcasts := by
  cases handles with
  | full handled => exact Node.handle_appended handled
  | counted value ready delivered wrapped result =>
    subst result
    exact List.prefix_rfl

end

section
variable {config : Config} (fits : config.process_number < 3 * 2 ^ 30) {node : Node} (valid : Node.Valid config node)
  (value : MsgValueType)
include fits valid

/-- A Ready counter this high has long passed the threshold of a delivery. -/
private theorem wrapped_delivered
    (high : 2 ^ 31 ≤ (((node.record (.Ready value)).countReady value).advance value).readyCount value) :
    ((node.record (.Ready value)).countReady value).advance value = (node.record (.Ready value)).countReady value ∧
      value ∈ node.msgs_delivered := by
  have tolerated := tolerated_fits fits
  have ledger := valid.ledgers value
  have counted := Node.countReady_readyCount (node.record (.Ready value)) value
  have before : (node.record (.Ready value)).readyCount value = (node.ledger value).readyCount := rfl
  have settled : node.msgs_states value = some .SentReady := by
    apply Classical.byContradiction
    intro unsettled
    have small := (ledger.unsettled unsettled).2
    have grown := Node.advance_readyCount_le ((node.record (.Ready value)).countReady value) value
    omega
  have only_counted : ((node.record (.Ready value)).countReady value).advance value = (node.record (.Ready value)).countReady value := by
    have state : ((node.record (.Ready value)).countReady value).msgs_states value = some .SentReady := settled
    rw [Node.advance, state]
  refine ⟨only_counted, ledger.delivered_iff.mpr ?_⟩
  rw [only_counted, counted] at high
  have received := ledger.ready_counted
  have sent := ledger.ready_sent
  split at sent <;> omega

variable {process : Process} (same : Matches process node)
include same

private theorem Matches.handleReady : ∃ next after, process.handle config (.Ready value) = some next ∧ Matches next after ∧
    Handles config node (.Ready value) after := by
  have tolerated := tolerated_fits fits
  have recorded := same.record (.Ready value)
  have advanced := (recorded.countReady value).advance value
  have ledger := valid.ledgers value
  have unready (unsettled : node.msgs_states value ≠ some .SentReady) :
      (node.record (.Ready value)).readyCount value ≤ config.max_byzantin_process_number := (ledger.unsettled unsettled).2
  have total := Process.handleReady_eq fits (recorded.readies value) (by
    intro unsettled
    rw [recorded.states] at unsettled
    have small := unready unsettled
    omega)
  have ideal := Node.handleReady_eq config (node.record (.Ready value)) value
  by_cases reached : config.max_byzantin_process_number + 1 ≤ (node.record (.Ready value)).readyCount value + 1
  · rw [if_pos reached] at total ideal
    simp only [advanced.readies value] at total ideal
    generalize result : ((node.record (.Ready value)).countReady value).advance value = middle at advanced total ideal
    by_cases room : middle.readyCount value < 2 ^ 31
    · simp only [delivery_test fits room] at total
      by_cases enough : 2 * config.max_byzantin_process_number + 1 ≤ middle.readyCount value
      · simp only [enough, if_true] at total ideal
        exact ⟨_, _, total, advanced.deliver config value, .full ideal⟩
      · simp only [enough, if_false] at total ideal
        exact ⟨_, _, total, advanced, .full ideal⟩
    · have high := Nat.le_of_not_lt room
      rw [← result] at high
      obtain ⟨only_counted, delivered⟩ := wrapped_delivered fits valid value high
      rw [result] at only_counted high
      have enough : 2 * config.max_byzantin_process_number + 1 ≤ middle.readyCount value := by omega
      simp only [enough, if_true] at ideal
      by_cases wrapped : 2 * Int32.ofNat config.max_byzantin_process_number + 1 ≤ Int32.ofNat (middle.readyCount value)
      · simp only [wrapped, if_true] at total
        exact ⟨_, _, total, advanced.deliver config value, .full ideal⟩
      · simp only [wrapped, if_false] at total
        have wide : 2 ^ 31 ≤ node.readyCount value + 1 := by
          rwa [only_counted, Node.countReady_readyCount] at high
        exact ⟨_, _, total, advanced, .counted value rfl delivered wide only_counted⟩
  · rw [if_neg reached] at total ideal
    exact ⟨_, _, total, recorded.countReady value, .full ideal⟩

/-- One message: the process does not fail, and it still matches a node. -/
theorem Matches.handle (msg : Msg) :
    ∃ next after, process.handle config msg = some next ∧ Matches next after ∧ Handles config node msg after := by
  have recorded := same.record msg
  cases msg with
  | Initial value =>
    refine ⟨_, _, Process.handleInitial_eq _ value, ?_, .full (Node.handleInitial_eq _ value)⟩
    rw [recorded.states]
    split
    · exact (recorded.countInitial value).sendEcho value
    · exact recorded.countInitial value
  | Echo value =>
    have quorum : config.echoQuorum ≤ 2 * config.process_number := by
      unfold Config.echoQuorum Config.max_byzantin_process_number
      omega
    refine ⟨_, _, Process.handleEcho_eq fits (recorded.echoes value) ?_, ?_, .full (Node.handleEcho_eq config _ value)⟩
    · intro unsettled
      rw [recorded.states] at unsettled
      have small : (node.record (.Echo value)).echoCount value ≤ config.echoQuorum + 1 :=
        ((valid.ledgers value).unsettled unsettled).1
      omega
    · split
      · exact (recorded.countEcho value).advance value
      · exact recorded.countEcho value
  | Ready value => exact Matches.handleReady fits valid value same

end

/-- A process after the messages it has received, and the node it matches. -/
structure Follows (config : Config) (msgs : List Msg) (process : Process) (node : Node) : Prop where
  same : Matches process node
  valid : Node.Valid config node
  handled : node.handled = msgs

section
variable {config : Config}

theorem Follows.start (config : Config) : Follows config [] (Process.start config) (({} : Node).sendInitial config) := by
  have empty : Matches {} {} := by constructor <;> simp [Node.echoCount, Node.readyCount]
  exact ⟨empty.sendInitial config, (Node.Valid.initial config).sendInitial rfl, rfl⟩

variable (fits : config.process_number < 3 * 2 ^ 30)
include fits

theorem Follows.step {msgs : List Msg} {process : Process} {node : Node} (follows : Follows config msgs process node) (msg : Msg) :
    ∃ next after, process.handle config msg = some next ∧ Handles config node msg after ∧
      Follows config (msgs ++ [msg]) next after := by
  obtain ⟨next, after, taken, same, handles⟩ := follows.same.handle fits follows.valid msg
  exact ⟨next, after, taken, handles, same, handles.valid follows.valid, by rw [handles.handled, follows.handled]⟩

/-- No sequence of messages makes a process fail. An invariant of the nodes may
speak of the messages received so far. -/
theorem run_follows_history (holds : List Msg → Node → Prop) (start : holds [] (({} : Node).sendInitial config))
    (preserved : ∀ past node msg after, Node.Valid config node → node.handled = past → holds past node →
      Handles config node msg after → holds (past ++ [msg]) after) (msgs : List Msg) :
    ∃ process node, Machine.run (Process.handle config) (Process.start config) msgs = some process ∧
      Follows config msgs process node ∧ holds msgs node := by
  induction msgs using List.reverseRecOn with
  | nil => exact ⟨_, _, rfl, Follows.start config, start⟩
  | append_singleton past msg ih =>
    obtain ⟨process, node, ran, follows, held⟩ := ih
    obtain ⟨next, after, taken, handles, later⟩ := follows.step fits msg
    exact ⟨next, after, Machine.run_snoc ran taken, later, preserved past node msg after follows.valid follows.handled held handles⟩

theorem run_follows (msgs : List Msg) : ∃ process node,
    Machine.run (Process.handle config) (Process.start config) msgs = some process ∧ Follows config msgs process node := by
  obtain ⟨process, node, ran, follows, _⟩ := run_follows_history fits (fun _ _ => True) trivial (fun _ _ _ _ _ _ _ _ => trivial) msgs
  exact ⟨process, node, ran, follows⟩

theorem follows_run {msgs : List Msg} {process : Process}
    (ran : Machine.run (Process.handle config) (Process.start config) msgs = some process) : ∃ node, Follows config msgs process node := by
  obtain ⟨final, node, same, follows⟩ := run_follows fits msgs
  cases ran.symm.trans same
  exact ⟨node, follows⟩

end

/-! What a matched node says about the process. -/

namespace Follows
variable {config : Config} {msgs : List Msg} {process : Process} {node : Node} (follows : Follows config msgs process node)
  (value : MsgValueType)
include follows

theorem ledger : (node.ledger value).Valid config.echoQuorum config.max_byzantin_process_number := follows.valid.ledgers value

theorem echo_counter : (process.counter_echo_msgs value).getD 0 =
    UInt64.ofNat (msgs.count (.Echo value) + process.broadcasts.count (.Echo value)) := by
  have counted := (follows.ledger value).echo_counted
  simp only [Node.ledger, follows.handled, ← follows.same.broadcasts] at counted
  rw [follows.same.echoes value, counted]

theorem ready_counter : (process.counter_ready_msgs value).getD 0 =
    Int32.ofNat (msgs.count (.Ready value) + process.broadcasts.count (.Ready value)) := by
  have counted := (follows.ledger value).ready_counted
  simp only [Node.ledger, follows.handled, ← follows.same.broadcasts] at counted
  rw [follows.same.readies value, counted]

theorem echo_sent : process.broadcasts.count (.Echo value) = if process.msgs_states value = none then 0 else 1 := by
  rw [follows.same.broadcasts, follows.same.states]
  exact (follows.ledger value).echo_sent

theorem ready_sent : process.broadcasts.count (.Ready value) = if process.msgs_states value = some .SentReady then 1 else 0 := by
  rw [follows.same.broadcasts, follows.same.states]
  exact (follows.ledger value).ready_sent

theorem echo_broadcast : .Echo value ∈ process.broadcasts ↔ process.msgs_states value ≠ none := by
  rw [← List.count_pos_iff, follows.echo_sent value]
  split
  next absent => exact iff_of_false (Nat.lt_irrefl 0) fun present => present absent
  next present => exact iff_of_true Nat.zero_lt_one present

theorem ready_broadcast : .Ready value ∈ process.broadcasts ↔ process.msgs_states value = some .SentReady := by
  rw [← List.count_pos_iff, follows.ready_sent value]
  split
  next settled => exact iff_of_true Nat.zero_lt_one settled
  next unsettled => exact iff_of_false (Nat.lt_irrefl 0) unsettled

theorem delivered_iff : value ∈ process.msgs_delivered ↔
    max 1 (2 * config.max_byzantin_process_number) ≤ msgs.count (.Ready value) := by
  rw [follows.same.delivered, ← follows.handled]
  exact (follows.ledger value).delivered_iff

theorem delivered_settled (delivered : value ∈ process.msgs_delivered) : process.msgs_states value = some .SentReady := by
  rw [follows.same.delivered] at delivered
  rw [follows.same.states]
  exact (follows.ledger value).delivered_readied delivered

end Follows

/-- 2^31 - 1 Readies and the process's own make the counter negative. -/
theorem readies_wrap {config : Config} (fits : config.process_number < 3 * 2 ^ 30) (value : MsgValueType) :
    ∃ process, Machine.run (Process.handle config) (Process.start config) (List.replicate (2 ^ 31 - 1) (.Ready value)) = some process ∧
      value ∈ process.msgs_delivered ∧ process.broadcasts.count (.Ready value) = 1 ∧
      ((process.counter_ready_msgs value).getD 0).toInt = -2 ^ 31 := by
  obtain ⟨process, node, ran, follows⟩ := run_follows fits (List.replicate (2 ^ 31 - 1) (.Ready value))
  have received : (List.replicate (2 ^ 31 - 1) (Msg.Ready value)).count (.Ready value) = 2 ^ 31 - 1 := List.count_replicate_self
  have delivered : value ∈ process.msgs_delivered := by
    have tolerated := tolerated_fits fits
    rw [follows.delivered_iff value, received]
    omega
  have sent := follows.ready_sent value
  rw [if_pos (follows.delivered_settled value delivered)] at sent
  refine ⟨process, ran, delivered, sent, ?_⟩
  rw [follows.ready_counter value, received, sent]
  decide

end NetworkSimulator.Bracha
