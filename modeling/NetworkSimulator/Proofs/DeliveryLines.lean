import NetworkSimulator.Proofs.FaultFree
import NetworkSimulator.Proofs.ProcessRefinement

/-! What a process prints. The delivery branch is taken again by every further
Ready, so a value among the last ones has a line for each of them, until the
counter of the value leaves its type. -/

namespace NetworkSimulator.Bracha
variable {process_number : Nat} {number_of_msg_per_process : Nat} {faulty : Finset (Fin process_number)}

namespace Node
variable {config : Config} {node next : Node} {value : MsgValueType}

private theorem advance_stdout (node : Node) (value : MsgValueType) : (node.advance value).stdout = node.stdout := by
  unfold advance
  split <;> rfl

private theorem advance_delivered (node : Node) (value : MsgValueType) :
    (node.advance value).msgs_delivered = node.msgs_delivered := by
  unfold advance
  split <;> rfl

private theorem deliver_stdout (config : Config) (node : Node) (value : MsgValueType) :
    (node.deliver config value).stdout = (if config.printedFrom < value then node.stdout ++ [value] else node.stdout) ∧
      value ∈ (node.deliver config value).msgs_delivered := by
  unfold deliver
  simp only
  split
  · split
    · exact ⟨rfl, Finset.mem_insert_self _ _⟩
    · exact ⟨rfl, Finset.mem_insert_self _ _⟩
  · exact ⟨rfl, Finset.mem_insert_self _ _⟩

/-- A Ready whose value is delivered afterwards has gone through the delivery branch. -/
theorem Valid.ready_stdout (valid : node.Valid config) (handled : node.handle config (.Ready value) = some next) :
    next.stdout = if value ∈ next.msgs_delivered ∧ config.printedFrom < value then node.stdout ++ [value] else node.stdout := by
  have ledger := valid.ledgers value
  have counted := ledger.ready_counted
  rw [Node.handle, handleReady_eq, Option.some.injEq] at handled
  have count : (node.record (.Ready value)).readyCount value = (node.ledger value).readyCount := rfl
  -- What the node has delivered already needs no more than one further Ready.
  have again (delivered : value ∈ node.msgs_delivered) :
      config.max_byzantin_process_number + 1 ≤ (node.record (.Ready value)).readyCount value + 1 ∧
        2 * config.max_byzantin_process_number + 1 ≤
          (((node.record (.Ready value)).countReady value).advance value).readyCount value := by
    have received := ledger.delivered_iff.mp delivered
    have state : node.msgs_states value = some .SentReady := ledger.delivered_readied delivered
    have settled : ((node.record (.Ready value)).countReady value).advance value = (node.record (.Ready value)).countReady value := by
      simp [advance, record, countReady, state]
    have sent := ledger.ready_sent
    have known : (node.ledger value).state = some .SentReady := state
    rw [if_pos known] at sent
    rw [settled, countReady_readyCount, count]
    omega
  subst handled
  by_cases reached : config.max_byzantin_process_number + 1 ≤ (node.record (.Ready value)).readyCount value + 1
  · by_cases enough : 2 * config.max_byzantin_process_number + 1 ≤
        (((node.record (.Ready value)).countReady value).advance value).readyCount value
    · obtain ⟨printed, member⟩ := deliver_stdout config (((node.record (.Ready value)).countReady value).advance value) value
      have before : (((node.record (.Ready value)).countReady value).advance value).stdout = node.stdout := advance_stdout _ _
      rw [if_pos reached, if_pos enough, printed, before]
      simp only [member, true_and]
    · have kept : (((node.record (.Ready value)).countReady value).advance value).msgs_delivered = node.msgs_delivered :=
        advance_delivered _ _
      have absent : value ∉ node.msgs_delivered := fun member => enough (again member).2
      rw [if_pos reached, if_neg enough, kept, if_neg fun both => absent both.1]
      exact advance_stdout _ _
  · have absent : value ∉ node.msgs_delivered := fun member => reached (again member).1
    rw [if_neg reached, if_neg fun both => absent both.1]
    rfl

theorem other_stdout {msg : Msg} (handled : node.handle config msg = some next) (other : msg ≠ .Ready msg.value) :
    next.stdout = node.stdout := by
  cases msg with
  | Initial value =>
    rw [handle, handleInitial_eq, Option.some.injEq] at handled
    subst handled
    split <;> rfl
  | Echo value =>
    rw [handle, handleEcho_eq, Option.some.injEq] at handled
    subst handled
    split
    · exact advance_stdout _ _
    · rfl
  | Ready value => exact absurd rfl other

/-- A line for each Ready from the threshold on. -/
def Printed (config : Config) (node : Node) (value : MsgValueType) : Prop :=
  node.stdout.count value = if config.printedFrom < value then
    node.handled.count (.Ready value) + 1 - max 1 (2 * config.max_byzantin_process_number) else 0

theorem Printed.handle {other : MsgValueType} (printed : node.Printed config other) (valid : node.Valid config) {msg : Msg}
    (handled : node.handle config msg = some next) : next.Printed config other := by
  unfold Printed at printed ⊢
  have grown := handle_handled handled
  by_cases ready : msg = .Ready other
  · subst ready
    have after := (valid.handle handled).ledgers other
    have count : (next.ledger other).readies = node.handled.count (.Ready other) + 1 := by
      change next.handled.count (.Ready other) = _
      rw [grown, List.count_append, List.count_singleton_self]
    have delivered : other ∈ next.msgs_delivered ↔ max 1 (2 * config.max_byzantin_process_number) ≤
        node.handled.count (.Ready other) + 1 := count ▸ after.delivered_iff
    have lines := valid.ready_stdout handled
    rw [grown, List.count_append, List.count_singleton_self, lines]
    by_cases window : config.printedFrom < other
    · rw [if_pos window] at printed ⊢
      by_cases enough : max 1 (2 * config.max_byzantin_process_number) ≤ node.handled.count (.Ready other) + 1
      · rw [if_pos ⟨delivered.mpr enough, window⟩, List.count_append, List.count_singleton_self, printed]
        omega
      · rw [if_neg fun both => enough (delivered.mp both.1), printed]
        omega
    · rw [if_neg window] at printed ⊢
      rw [if_neg fun both => window both.2, printed]
  · have quiet : next.stdout.count other = node.stdout.count other := by
      by_cases kind : msg = .Ready msg.value
      · rw [kind] at handled
        have different : msg.value ≠ other := fun same => ready (kind.trans (congrArg _ same))
        rw [valid.ready_stdout handled]
        split
        · rw [List.count_append, List.count_singleton, beq_eq_false_iff_ne.mpr different]
          rfl
        · rfl
      · rw [other_stdout handled kind]
    rw [quiet, grown, List.count_append, List.count_singleton, beq_eq_false_iff_ne.mpr ready]
    exact printed

end Node

namespace Net

theorem Step.printed {net next : Net process_number} {action : Action process_number}
    (valid : net.Valid number_of_msg_per_process faulty)
    (printed : ∀ k value, (net.nodes k).Printed (processConfig number_of_msg_per_process k) value)
    (taken : Step number_of_msg_per_process faulty net action next) (k : Fin process_number) (value : MsgValueType) :
    (next.nodes k).Printed (processConfig number_of_msg_per_process k) value := by
  cases taken with
  | @start i correct running first =>
    by_cases same : k = i
    · subst same
      simp only [advance, Function.update_self]
      exact printed k value
    · simp only [advance, Function.update_of_ne same]
      exact printed k value
  | @receive i j last msg rest node correct running started head handled =>
    by_cases same : k = i
    · subst same
      simp only [endPass, advance, Function.update_self]
      exact (printed k value).handle (valid.nodes k) handled
    · simp only [endPass, advance, consume, Function.update_of_ne same]
      exact printed k value
  | forge byzantine => exact printed k value

end Net

theorem Node.Valid.readyCount_le {config : Config} {node : Node} (valid : node.Valid config) (value : MsgValueType) :
    node.readyCount value ≤ node.handled.count (.Ready value) + 1 := by
  have counted : node.readyCount value = node.handled.count (.Ready value) + node.broadcasts.count (.Ready value) :=
    (valid.ledgers value).ready_counted
  have sent : node.broadcasts.count (.Ready value) = if node.msgs_states value = some .SentReady then 1 else 0 :=
    (valid.ledgers value).ready_sent
  split at sent <;> omega

/-- The lines of a process with machine integers, whatever it has received. -/
theorem Process.printed {config : Config} (fits : config.process_number < 3 * 2 ^ 30) {msgs : List Msg} {process : Process}
    (ran : Machine.run (Process.handle config) (Process.start config) msgs = some process) {value : MsgValueType}
    (few : msgs.count (.Ready value) < 2 ^ 31 - 1) :
    process.stdout.count value = if config.printedFrom < value then
      msgs.count (.Ready value) + 1 - max 1 (2 * config.max_byzantin_process_number) else 0 := by
  -- The node printed for every value whose counter has stayed in its type.
  obtain ⟨final, node, same, follows, printed⟩ := run_follows_history fits
    (fun msgs node => ∀ value, msgs.count (.Ready value) < 2 ^ 31 - 1 → node.Printed config value)
    (fun value _ => by simp [Node.Printed, Node.sendInitial, Node.broadcast])
    (fun past node msg after valid handled before handles value few => by
      have prior := before value (Nat.lt_of_le_of_lt ((List.sublist_append_left past [msg]).count_le _) few)
      cases handles with
      | full taken => exact prior.handle valid taken
      | counted other ready delivered wrapped result =>
        subst ready result
        have different : other ≠ value := by
          intro equal
          subst equal
          have count := valid.readyCount_le other
          rw [handled] at count
          rw [List.count_append, List.count_singleton_self] at few
          omega
        simpa [Node.Printed, Node.record, Node.countReady, List.count_append, List.count_singleton, different] using prior) msgs
  cases ran.symm.trans same
  have count := follows.valid.readyCount_le value
  rw [follows.handled] at count
  have lines := printed value few
  rw [Node.Printed, follows.handled] at lines
  rw [follows.same.lines value (by omega), lines]

end NetworkSimulator.Bracha
