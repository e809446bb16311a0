import NetworkSimulator.Proofs.ProcessRefinement
import Mathlib.Logic.Relation

/-! The state machine of one value. Echo and Ready leave a process at most once
and in this order, whatever it receives, and a message only moves the value it
is about. -/

namespace NetworkSimulator.Bracha

/-- The two transitions of `msgs_states`. -/
inductive MsgState.Next : Option MsgState → Option MsgState → Prop where
  | echo : Next none (some .SentEcho)
  | ready : Next (some .SentEcho) (some .SentReady)

def MsgState.Moves : Option MsgState → Option MsgState → Prop := Relation.ReflTransGen MsgState.Next

/-- Every Ready stands behind the Echo of its value. -/
def EchoFirst (broadcasts : List Msg) : Prop :=
  ∀ value before after, broadcasts = before ++ .Ready value :: after → .Echo value ∈ before

theorem EchoFirst.concat {broadcasts : List Msg} {msg : Msg} (ordered : EchoFirst broadcasts)
    (echoed : ∀ value, msg = .Ready value → .Echo value ∈ broadcasts) : EchoFirst (broadcasts ++ [msg]) := by
  intro value before after split
  rcases List.eq_nil_or_concat after with rfl | ⟨init, last, rfl⟩
  · obtain ⟨rfl, same⟩ := List.append_inj' split rfl
    exact echoed value (List.singleton_inj.mp same)
  · rw [List.concat_eq_append, ← List.cons_append, ← List.append_assoc] at split
    obtain ⟨front, _⟩ := List.append_inj' split rfl
    exact ordered value before init front

/-- The order of a node's broadcasts, and what keeps it. -/
structure Ordered (node : Node) : Prop where
  first : EchoFirst node.broadcasts
  echoed : ∀ value, node.msgs_states value ≠ none → .Echo value ∈ node.broadcasts

namespace Ordered
variable {node : Node} (ordered : Ordered node) (value : MsgValueType)
include ordered

theorem sendEcho : Ordered (node.sendEcho value) where
  first := ordered.first.concat fun _ no => by cases no
  echoed := by
    intro other present
    by_cases own : other = value
    · subst own
      exact List.mem_append_right _ (List.mem_singleton_self _)
    · rw [show (node.sendEcho value).msgs_states other = node.msgs_states other from Function.update_of_ne own _ _] at present
      exact List.mem_append_left _ (ordered.echoed other present)

theorem sendReady (echoed : node.msgs_states value ≠ none) : Ordered (node.sendReady value) where
  first := ordered.first.concat fun other same => by
    cases same
    exact ordered.echoed value echoed
  echoed := by
    intro other present
    apply List.mem_append_left
    by_cases own : other = value
    · subst own
      exact ordered.echoed other echoed
    · rw [show (node.sendReady value).msgs_states other = node.msgs_states other from Function.update_of_ne own _ _] at present
      exact ordered.echoed other present

theorem advance : Ordered (node.advance value) := by
  unfold Node.advance
  split
  next => exact (ordered.sendEcho value).sendReady value (by simp [Node.sendEcho, Node.broadcast])
  next echoed => exact ordered.sendReady value (by simp [echoed])
  next => exact ordered

theorem sendInitial (config : Config) : Ordered (node.sendInitial config) where
  first := ordered.first.concat fun _ no => by cases no
  echoed := fun other present => List.mem_append_left _ (ordered.echoed other present)

theorem deliver (config : Config) : Ordered (node.deliver config value) := by
  have delivered : Ordered { node with
      msgs_delivered := insert value node.msgs_delivered
      stdout := if config.printedFrom < value then node.stdout ++ [value] else node.stdout } := ⟨ordered.first, ordered.echoed⟩
  unfold Node.deliver
  simp only
  split
  · split
    · exact delivered.sendInitial config
    · exact delivered
  · exact delivered

theorem handle {config : Config} {msg : Msg} {next : Node} (handled : node.handle config msg = some next) : Ordered next := by
  cases msg with
  | Initial value =>
    rw [Node.handle, Node.handleInitial_eq, Option.some.injEq] at handled
    subst handled
    have counted : Ordered ((node.record (.Initial value)).countInitial value) := ⟨ordered.first, ordered.echoed⟩
    split
    · exact counted.sendEcho value
    · exact counted
  | Echo value =>
    rw [Node.handle, Node.handleEcho_eq, Option.some.injEq] at handled
    subst handled
    have counted : Ordered ((node.record (.Echo value)).countEcho value) := ⟨ordered.first, ordered.echoed⟩
    split
    · exact counted.advance value
    · exact counted
  | Ready value =>
    rw [Node.handle, Node.handleReady_eq, Option.some.injEq] at handled
    subst handled
    have counted : Ordered ((node.record (.Ready value)).countReady value) := ⟨ordered.first, ordered.echoed⟩
    split
    · simp only
      split
      · exact (counted.advance value).deliver value config
      · exact counted.advance value
    · exact counted

theorem handles {config : Config} {msg : Msg} {next : Node} (handles : Handles config node msg next) : Ordered next := by
  cases handles with
  | full handled => exact ordered.handle handled
  | counted value ready delivered wrapped result =>
    subst result
    exact ⟨ordered.first, ordered.echoed⟩

end Ordered

/-- A message moves the state of its value along the two transitions. -/
theorem Ledger.on_moves (config : Config) (ledger : Ledger) (msg : Msg) : MsgState.Moves ledger.state (ledger.on config msg).state := by
  have echo : MsgState.Moves none (some .SentEcho) := .single .echo
  have ready : MsgState.Moves (some .SentEcho) (some .SentReady) := .single .ready
  have settles (state : Option MsgState) : MsgState.Moves state (some .SentReady) := by
    rcases state with _ | (_ | _)
    · exact echo.trans ready
    · exact ready
    · exact .refl
  cases msg with
  | Initial _ =>
    rw [Ledger.on, Ledger.onInitial_state]
    split
    next absent =>
      rw [absent]
      exact echo
    next => exact .refl
  | Echo _ =>
    rw [Ledger.on, Ledger.onEcho_state]
    split
    · exact settles _
    · exact .refl
  | Ready _ =>
    rw [Ledger.on, Ledger.onReady_state]
    split
    · exact settles _
    · exact .refl

/-- What happens between two processes concerns one value only. -/
structure Process.Confined (value : MsgValueType) (before after : Process) : Prop where
  current : after.current_msg_id_to_send = before.current_msg_id_to_send
  initials : ∀ other, other ≠ value → after.counter_initial_msgs other = before.counter_initial_msgs other
  echoes : ∀ other, other ≠ value → after.counter_echo_msgs other = before.counter_echo_msgs other
  readies : ∀ other, other ≠ value → after.counter_ready_msgs other = before.counter_ready_msgs other
  states : ∀ other, other ≠ value → after.msgs_states other = before.msgs_states other
  delivered : ∀ other, other ≠ value → (other ∈ after.msgs_delivered ↔ other ∈ before.msgs_delivered)
  sent : ∀ msg, msg.value ≠ value → after.broadcasts.count msg = before.broadcasts.count msg

namespace Process
variable (process : Process) (value : MsgValueType)

theorem Confined.refl : Confined value process process := by constructor <;> simp

variable {value} in
theorem Confined.trans {first middle last : Process} (before : Confined value first middle) (after : Confined value middle last) :
    Confined value first last where
  current := after.current.trans before.current
  initials := fun other apart => (after.initials other apart).trans (before.initials other apart)
  echoes := fun other apart => (after.echoes other apart).trans (before.echoes other apart)
  readies := fun other apart => (after.readies other apart).trans (before.readies other apart)
  states := fun other apart => (after.states other apart).trans (before.states other apart)
  delivered := fun other apart => (after.delivered other apart).trans (before.delivered other apart)
  sent := fun msg apart => (after.sent msg apart).trans (before.sent msg apart)

theorem record_confined (msg : Msg) : Confined value process (process.record msg) := by constructor <;> simp [record]

theorem countInitial_confined : Confined value process (process.countInitial value) :=
  { Confined.refl process value with initials := fun _ apart => increment_other _ apart }

theorem countEcho_confined : Confined value process (process.countEcho value) :=
  { Confined.refl process value with echoes := fun _ apart => increment_other _ apart }

theorem countReady_confined : Confined value process (process.countReady value) :=
  { Confined.refl process value with readies := fun _ apart => increment_other _ apart }

theorem sent_other {msg broadcast : Msg} (own : broadcast.value = value) (apart : msg.value ≠ value) :
    (process.broadcasts ++ [broadcast]).count msg = process.broadcasts.count msg := by
  have different : broadcast ≠ msg := fun same => apart (same ▸ own)
  rw [List.count_append, List.count_singleton, if_neg (by simpa using different), Nat.add_zero]

theorem sendEcho_confined : Confined value process (process.sendEcho value) :=
  { Confined.refl process value with
    echoes := fun _ apart => increment_other _ apart
    states := fun _ apart => Function.update_of_ne apart _ _
    sent := fun _ apart => sent_other process value rfl apart }

theorem sendReady_confined : Confined value process (process.sendReady value) :=
  { Confined.refl process value with
    readies := fun _ apart => increment_other _ apart
    states := fun _ apart => Function.update_of_ne apart _ _
    sent := fun _ apart => sent_other process value rfl apart }

/-- Only the Initial that a delivery releases is about another value. -/
theorem deliver_confined (config : Config) : ∃ middle, Confined value process middle ∧
    (process.deliver config value = middle ∨ process.deliver config value = middle.sendInitial config) := by
  have inserted : Confined value process { process with
      msgs_delivered := insert value process.msgs_delivered
      stdout := if config.printedFrom < value then process.stdout ++ [value] else process.stdout } :=
    { Confined.refl process value with delivered := fun other apart => by simp [apart] }
  refine ⟨_, inserted, ?_⟩
  unfold deliver
  simp only
  split
  · split
    · exact Or.inr rfl
    · exact Or.inl rfl
  · exact Or.inl rfl

section
variable {process value} {config : Config} {before next : Process} (confined : Confined value before process)
include confined

/-- Every branch that sends an Echo has the same shape, whatever it tests. -/
theorem Confined.echoed (test : Prop) [Decidable test] : Confined value before (if test then process.sendEcho value else process) := by
  split
  · exact confined.trans (sendEcho_confined process value)
  · exact confined

theorem Confined.readied {state : MsgState}
    (sent : (if state = .SentEcho then some (process.sendReady value) else some process) = some next) : Confined value before next := by
  split at sent
  all_goals cases sent
  · exact confined.trans (sendReady_confined process value)
  · exact confined

end

theorem handleInitial_confined {process next : Process} {value : MsgValueType} (handled : process.handleInitial value = some next) :
    Confined value process next := by
  rw [handleInitial_eq] at handled
  cases handled
  have counted := countInitial_confined process value
  split
  · exact counted.trans (sendEcho_confined _ value)
  · exact counted

theorem handleEcho_confined {config : Config} {process next : Process} {value : MsgValueType}
    (handled : process.handleEcho config value = some next) : Confined value process next := by
  simp only [handleEcho, Option.bind_eq_bind, Option.bind_eq_some_iff] at handled
  obtain ⟨count, _, again, _, rest⟩ := handled
  have echoed := (countEcho_confined process value).echoed
    (UInt64.ofNat config.echoQuorum ≤ count ∧ (process.countEcho value).msgs_states value = none)
  split at rest
  next =>
    obtain ⟨state, _, sent⟩ := Option.bind_eq_some_iff.mp rest
    exact echoed.readied sent
  next =>
    cases rest
    exact echoed

theorem Confined.finished {config : Config} {before advanced next : Process} {value : MsgValueType}
    (confined : Confined value before advanced)
    (rest : ((advanced.counter_ready_msgs value).bind fun count =>
      if 2 * Int32.ofNat config.max_byzantin_process_number + 1 ≤ count then
        (advanced.msgs_states value).bind fun state =>
          if state = .SentReady then some (advanced.deliver config value) else some advanced
      else some advanced) = some next) :
    ∃ middle, Confined value before middle ∧ (next = middle ∨ next = middle.sendInitial config) := by
  obtain ⟨count, _, rest⟩ := Option.bind_eq_some_iff.mp rest
  split at rest
  next =>
    obtain ⟨state, _, delivered⟩ := Option.bind_eq_some_iff.mp rest
    split at delivered
    all_goals cases delivered
    · obtain ⟨middle, inserted, released⟩ := deliver_confined advanced value config
      exact ⟨middle, confined.trans inserted, released⟩
    · exact ⟨advanced, confined, Or.inl rfl⟩
  next =>
    cases rest
    exact ⟨advanced, confined, Or.inl rfl⟩

theorem handleReady_confined {config : Config} {process next : Process} {value : MsgValueType}
    (handled : process.handleReady config value = some next) :
    ∃ middle, Confined value process middle ∧ (next = middle ∨ next = middle.sendInitial config) := by
  simp only [handleReady, Option.bind_eq_bind] at handled
  obtain ⟨count, _, handled⟩ := Option.bind_eq_some_iff.mp handled
  obtain ⟨again, _, handled⟩ := Option.bind_eq_some_iff.mp handled
  have echoed := (countReady_confined process value).echoed
    (Int32.ofNat config.max_byzantin_process_number + 1 ≤ count ∧ (process.countReady value).msgs_states value = none)
  split at handled
  next =>
    obtain ⟨state, _, handled⟩ := Option.bind_eq_some_iff.mp handled
    split at handled
    · exact (echoed.trans (sendReady_confined _ value)).finished handled
    · exact echoed.finished handled
  next => exact echoed.finished handled

/-- A message only concerns its own value, and at most releases the next Initial. -/
theorem handle_confined {config : Config} {process next : Process} {msg : Msg} (handled : process.handle config msg = some next) :
    ∃ middle, Confined msg.value process middle ∧ (next = middle ∨ next = middle.sendInitial config) := by
  have recorded := record_confined process msg.value msg
  cases msg with
  | Initial value => exact ⟨next, recorded.trans (handleInitial_confined handled), Or.inl rfl⟩
  | Echo value => exact ⟨next, recorded.trans (handleEcho_confined handled), Or.inl rfl⟩
  | Ready value =>
    obtain ⟨middle, confined, released⟩ := handleReady_confined handled
    exact ⟨middle, recorded.trans confined, released⟩

end Process

/-- What a process has made of the values in the messages it has received, and
what it will make of the next message. -/
structure StateMachine (config : Config) (msgs : List Msg) (process : Process) : Prop where
  echo_once : ∀ value, process.broadcasts.count (.Echo value) ≤ 1
  ready_once : ∀ value, process.broadcasts.count (.Ready value) ≤ 1
  echo_first : EchoFirst process.broadcasts
  echoed : ∀ value, .Echo value ∈ process.broadcasts ↔ process.msgs_states value ≠ none
  readied : ∀ value, .Ready value ∈ process.broadcasts ↔ process.msgs_states value = some .SentReady
  echo_counter : ∀ value, (process.counter_echo_msgs value).getD 0 =
    UInt64.ofNat (msgs.count (.Echo value) + process.broadcasts.count (.Echo value))
  ready_counter : ∀ value, (process.counter_ready_msgs value).getD 0 =
    Int32.ofNat (msgs.count (.Ready value) + process.broadcasts.count (.Ready value))
  because : ∀ value, .Ready value ∈ process.broadcasts →
    config.echoQuorum ≤ msgs.count (.Echo value) + process.broadcasts.count (.Echo value) ∨
      config.max_byzantin_process_number + 1 ≤ msgs.count (.Ready value)
  delivered : ∀ value ∈ process.msgs_delivered, process.msgs_states value = some .SentReady
  next : ∀ msg, ∃ next, process.handle config msg = some next ∧
    (∀ value, MsgState.Moves (process.msgs_states value) (next.msgs_states value)) ∧
    ∃ middle, Process.Confined msg.value process middle ∧ (next = middle ∨ next = middle.sendInitial config)

section
variable {config : Config} {msgs : List Msg} {process : Process} {node : Node} (follows : Follows config msgs process node)
include follows

theorem Follows.because {value : MsgValueType} (sent : .Ready value ∈ process.broadcasts) :
    config.echoQuorum ≤ msgs.count (.Echo value) + process.broadcasts.count (.Echo value) ∨
      config.max_byzantin_process_number + 1 ≤ msgs.count (.Ready value) := by
  have settled := (follows.ready_broadcast value).mp sent
  have echoed := follows.echo_sent value
  rw [settled, if_neg (by simp)] at echoed
  have state : (node.ledger value).state = some .SentReady := by
    rw [follows.same.states] at settled
    exact settled
  rw [echoed, ← follows.handled]
  exact ((follows.ledger value).readied_because state).imp_left And.right

theorem Follows.stateMachine (fits : config.process_number < 3 * 2 ^ 30) (ordered : Ordered node) : StateMachine config msgs process where
  echo_once value := by
    rw [follows.echo_sent value]
    split <;> omega
  ready_once value := by
    rw [follows.ready_sent value]
    split <;> omega
  echo_first := follows.same.broadcasts ▸ ordered.first
  echoed := follows.echo_broadcast
  readied := follows.ready_broadcast
  echo_counter := follows.echo_counter
  ready_counter := follows.ready_counter
  because _ := follows.because
  delivered := follows.delivered_settled
  next msg := by
    obtain ⟨next, after, taken, handles, later⟩ := follows.step fits msg
    refine ⟨next, taken, ?_, Process.handle_confined taken⟩
    intro value
    have moved := congrArg Ledger.state (handles.ledger follows.valid value)
    rw [follows.same.states, later.same.states]
    change MsgState.Moves (node.ledger value).state (after.ledger value).state
    rw [moved]
    split
    · exact Ledger.on_moves config _ msg
    · exact .refl

end

/-- Whatever a process receives, every value goes through the two transitions at
most once, its counters count what was received and sent, and no lookup fails. -/
theorem value_state_machine {config : Config} (fits : config.process_number < 3 * 2 ^ 30) (msgs : List Msg) :
    ∃ process, Machine.run (Process.handle config) (Process.start config) msgs = some process ∧ StateMachine config msgs process := by
  have start : Ordered (({} : Node).sendInitial config) := by
    apply Ordered.sendInitial
    constructor
    · intro value before after split
      exact absurd split.symm (List.append_ne_nil_of_right_ne_nil _ (List.cons_ne_nil _ _))
    · exact fun value present => absurd rfl present
  obtain ⟨process, node, ran, follows, ordered⟩ := run_follows_history fits (fun _ node => Ordered node) start
    (fun _ _ _ _ _ _ ordered handles => ordered.handles handles) msgs
  exact ⟨process, ran, follows.stateMachine fits ordered⟩

theorem value_state_machine_four : ∃ process,
    Machine.run (Process.handle ⟨0, 4, 1⟩) (Process.start ⟨0, 4, 1⟩) [.Ready 7, .Initial 5, .Ready 7] = some process ∧
      StateMachine ⟨0, 4, 1⟩ [.Ready 7, .Initial 5, .Ready 7] process :=
  value_state_machine (by decide) _

/-- Among 3 * 2^30 processes the threshold of a delivery is negative in its type,
and the first Ready looks up a state that is not there. Among four the counter of
a value wraps after 2^31 - 1 Readies. -/
theorem first_ready_fails : (Process.start ⟨0, 3 * 2 ^ 30, 1⟩).handle ⟨0, 3 * 2 ^ 30, 1⟩ (.Ready 5) = none ∧
    ∃ process, Machine.run (Process.handle ⟨0, 4, 1⟩) (Process.start ⟨0, 4, 1⟩) (List.replicate (2 ^ 31 - 1) (.Ready 5)) = some process ∧
      ((process.counter_ready_msgs 5).getD 0).toInt ≠ (List.replicate (2 ^ 31 - 1) (Msg.Ready 5)).count (.Ready 5) + 1 := by
  refine ⟨by decide +kernel, ?_⟩
  obtain ⟨process, ran, _, _, wrapped⟩ := @readies_wrap ⟨0, 4, 1⟩ (by decide) 5
  refine ⟨process, ran, ?_⟩
  rw [wrapped, List.count_replicate_self]
  decide

end NetworkSimulator.Bracha
