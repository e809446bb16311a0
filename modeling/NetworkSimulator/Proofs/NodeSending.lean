import NetworkSimulator.Library.Mesh
import NetworkSimulator.Proofs.ValueLedger

/-! What a node has put on its streams. Messages are only ever appended, and an
Initial leaves only at the start or from inside a delivery. -/

namespace NetworkSimulator.Bracha

def initialValues (msgs : List Msg) : List MsgValueType :=
  msgs.filterMap fun msg => match msg with
    | .Initial value => some value
    | _ => none

theorem initialValues_append (first last : List Msg) :
    initialValues (first ++ last) = initialValues first ++ initialValues last := List.filterMap_append

theorem mem_initialValues {msgs : List Msg} {value : MsgValueType} :
    value ∈ initialValues msgs ↔ .Initial value ∈ msgs := by
  simp only [initialValues, List.mem_filterMap]
  constructor
  · intro found
    obtain ⟨msg, member, same⟩ := found
    cases msg <;> simp_all
  · exact fun member => ⟨_, member, rfl⟩

/-- The number of a message, when the last of all fits a positive 32-bit integer. -/
theorem Config.ownValue_toInt {config : Config} {rounds round : Nat} (inside : config.id < config.process_number) (high : round ≤ rounds)
    (fits : rounds * config.process_number + config.process_number - 1 ≤ 2 ^ 31 - 1) :
    (config.ownValue round).toInt = round * config.process_number + config.id := by
  have upper : round * config.process_number ≤ rounds * config.process_number := Nat.mul_le_mul_right _ high
  rw [ownValue, Int32.toInt_ofNat_of_lt (by omega), Int.natCast_add, Int.natCast_mul]

noncomputable instance : Fintype MsgValueType :=
  Fintype.ofInjective (fun value : MsgValueType => value.toBitVec.toFin) fun _ _ same =>
    Int32.toBitVec_inj.mp (BitVec.eq_of_toFin_eq same)

/-- How many messages a value still entitles a node to broadcast. -/
def MsgState.unsent : Option MsgState → Nat
  | none => 2
  | some .SentEcho => 1
  | some .SentReady => 0

namespace Node
variable (config : Config) (node : Node) (value : MsgValueType)

noncomputable def unsent : Nat := ∑ value, MsgState.unsent (node.msgs_states value)

private theorem unsent_update (state : MsgState) (less : MsgState.unsent (node.msgs_states value) = MsgState.unsent (some state) + 1) :
    ∑ other, MsgState.unsent (node.msgs_states other) =
      ∑ other, MsgState.unsent (Function.update node.msgs_states value (some state) other) + 1 := by
  apply Mesh.sum_changed (Finset.mem_univ value) (by simpa using less)
  intro other different
  simp [different]

/-- The transitions that leave deliveries and the sending position alone. -/
structure Quiet (before after : Node) : Prop where
  current : after.current_msg_id_to_send = before.current_msg_id_to_send
  delivered : after.msgs_delivered = before.msgs_delivered
  initials : initialValues after.broadcasts = initialValues before.broadcasts
  appended : before.broadcasts <+: after.broadcasts
  handled : after.handled = before.handled
  spent : after.broadcasts.length + after.unsent = before.broadcasts.length + before.unsent

theorem Quiet.refl : Quiet node node := ⟨rfl, rfl, rfl, List.prefix_rfl, rfl, rfl⟩

theorem Quiet.trans {first middle last : Node} (before : Quiet first middle) (after : Quiet middle last) :
    Quiet first last :=
  ⟨after.current.trans before.current, after.delivered.trans before.delivered, after.initials.trans before.initials,
    before.appended.trans after.appended, after.handled.trans before.handled, after.spent.trans before.spent⟩

theorem sendEcho_quiet (absent : node.msgs_states value = none) : Quiet node (node.sendEcho value) := by
  refine ⟨rfl, rfl, by simp [initialValues, sendEcho, broadcast], List.prefix_append _ _, rfl, ?_⟩
  have spent := unsent_update node value .SentEcho (by simp [absent, MsgState.unsent])
  simp only [sendEcho, broadcast, unsent, List.length_append, List.length_singleton, spent]
  omega

theorem sendReady_quiet (echoed : node.msgs_states value = some .SentEcho) : Quiet node (node.sendReady value) := by
  refine ⟨rfl, rfl, by simp [initialValues, sendReady, broadcast], List.prefix_append _ _, rfl, ?_⟩
  have spent := unsent_update node value .SentReady (by simp [echoed, MsgState.unsent])
  simp only [sendReady, broadcast, unsent, List.length_append, List.length_singleton, spent]
  omega

theorem advance_quiet : Quiet node (node.advance value) := by
  unfold advance
  split
  next absent => exact (sendEcho_quiet node value absent).trans (sendReady_quiet _ value (by simp [sendEcho, broadcast]))
  next echoed => exact sendReady_quiet node value echoed
  next => exact Quiet.refl node

/-- Everything a reception can do to the sending position. The two cases differ
in whether it delivered the node's newest value before the last round. -/
inductive Moved (before : Node) (msg : Msg) (after : Node) : Prop where
  | stayed
      (current : after.current_msg_id_to_send = before.current_msg_id_to_send)
      (initials : initialValues after.broadcasts = initialValues before.broadcasts)
      (waiting : config.ownValue (before.current_msg_id_to_send - 1) ∈ after.msgs_delivered →
        config.ownValue (before.current_msg_id_to_send - 1) ∈ before.msgs_delivered ∨
          config.number_of_msg_per_process < before.current_msg_id_to_send)
  | released
      (current : after.current_msg_id_to_send = before.current_msg_id_to_send + 1)
      (initials : initialValues after.broadcasts =
        initialValues before.broadcasts ++ [config.ownValue before.current_msg_id_to_send])
      (remaining : before.current_msg_id_to_send ≤ config.number_of_msg_per_process)
      (own : msg = .Ready (config.ownValue (before.current_msg_id_to_send - 1)))
      (delivered : config.ownValue (before.current_msg_id_to_send - 1) ∈ after.msgs_delivered)

variable {config node} {next : Node} {msg : Msg}

private theorem Quiet.moved (quiet : Quiet (node.record msg) next) : Moved config node msg next :=
  .stayed quiet.current quiet.initials fun member => Or.inl (by rwa [quiet.delivered] at member)

private theorem deliver_moved {middle : Node} (quiet : Quiet (node.record (.Ready value)) middle) :
    Moved config node (.Ready value) (middle.deliver config value) := by
  have current : middle.current_msg_id_to_send = node.current_msg_id_to_send := quiet.current
  have delivered : middle.msgs_delivered = node.msgs_delivered := quiet.delivered
  have initials : initialValues middle.broadcasts = initialValues node.broadcasts := quiet.initials
  by_cases own : value = config.ownValue (node.current_msg_id_to_send - 1)
  · by_cases remaining : node.current_msg_id_to_send ≤ config.number_of_msg_per_process
    · have released : middle.deliver config value = ({ middle with
          msgs_delivered := insert value middle.msgs_delivered
          stdout := if config.printedFrom < value then middle.stdout ++ [value] else middle.stdout } : Node).sendInitial config := by
        simp only [deliver, current, own, remaining, if_true]
      rw [released]
      refine .released (congrArg (· + 1) current) ?_ remaining (by rw [own]) ?_
      · simp only [sendInitial, broadcast, initialValues_append, initials, current]
        rfl
      · simp [sendInitial, broadcast, own]
    · refine .stayed ?_ ?_ fun _ => Or.inr (by omega)
      all_goals simp [deliver, current, own, remaining, initials]
  · refine .stayed ?_ ?_ fun member => Or.inl ?_
    · simp [deliver, current, own]
    · simp [deliver, current, own, initials]
    · simpa [deliver, current, own, delivered, Ne.symm own] using member

/-- A reception counts, may advance its value, and may then deliver it. -/
theorem handle_cases (handled : node.handle config msg = some next) :
    ∃ middle, Quiet (node.record msg) middle ∧
      (next = middle ∨ ∃ value, msg = .Ready value ∧ next = middle.deliver config value) := by
  cases msg with
  | Initial value =>
    rw [handle, handleInitial_eq, Option.some.injEq] at handled
    subst handled
    have counted : Quiet (node.record (.Initial value)) ((node.record (.Initial value)).countInitial value) :=
      ⟨rfl, rfl, rfl, List.prefix_rfl, rfl, rfl⟩
    split
    next absent => exact ⟨_, counted.trans (sendEcho_quiet _ value absent), Or.inl rfl⟩
    next => exact ⟨_, counted, Or.inl rfl⟩
  | Echo value =>
    rw [handle, handleEcho_eq, Option.some.injEq] at handled
    subst handled
    have counted : Quiet (node.record (.Echo value)) ((node.record (.Echo value)).countEcho value) :=
      ⟨rfl, rfl, rfl, List.prefix_rfl, rfl, rfl⟩
    split
    · exact ⟨_, counted.trans (advance_quiet _ value), Or.inl rfl⟩
    · exact ⟨_, counted, Or.inl rfl⟩
  | Ready value =>
    rw [handle, handleReady_eq, Option.some.injEq] at handled
    subst handled
    have counted : Quiet (node.record (.Ready value)) ((node.record (.Ready value)).countReady value) :=
      ⟨rfl, rfl, rfl, List.prefix_rfl, rfl, rfl⟩
    have advanced := counted.trans (advance_quiet _ value)
    split
    · simp only
      split
      · exact ⟨_, advanced, Or.inr ⟨value, rfl, rfl⟩⟩
      · exact ⟨_, advanced, Or.inl rfl⟩
    · exact ⟨_, counted, Or.inl rfl⟩

theorem handle_moved (handled : node.handle config msg = some next) : Moved config node msg next := by
  obtain ⟨middle, quiet, rfl | ⟨value, rfl, rfl⟩⟩ := handle_cases handled
  · exact quiet.moved
  · exact deliver_moved value quiet

theorem handle_started (handled : node.handle config msg = some next) :
    node.current_msg_id_to_send ≤ next.current_msg_id_to_send := by
  cases handle_moved handled with
  | stayed current | released current => omega

/-- The Initials a process may still broadcast, with its Echoes and Readies. -/
noncomputable def budget (config : Config) (node : Node) : Nat :=
  max 1 config.number_of_msg_per_process + 1 - node.current_msg_id_to_send + node.unsent

private theorem sendInitial_spent (remaining : node.current_msg_id_to_send ≤ max 1 config.number_of_msg_per_process) :
    (node.sendInitial config).broadcasts.length + budget config (node.sendInitial config) =
      node.broadcasts.length + budget config node := by
  have same : (node.sendInitial config).unsent = node.unsent := rfl
  simp only [budget, same]
  simp only [sendInitial, broadcast, List.length_append, List.length_singleton]
  omega

private theorem deliver_appended (middle : Node) :
    middle.broadcasts <+: (middle.deliver config value).broadcasts ∧
      (middle.deliver config value).handled = middle.handled ∧
      (middle.deliver config value).broadcasts.length + budget config (middle.deliver config value) =
        middle.broadcasts.length + budget config middle := by
  unfold deliver
  simp only
  split
  · split
    next remaining => exact ⟨List.prefix_append _ _, rfl, sendInitial_spent (Nat.le_trans remaining (Nat.le_max_right _ _))⟩
    next => exact ⟨List.prefix_rfl, rfl, rfl⟩
  · exact ⟨List.prefix_rfl, rfl, rfl⟩

theorem handle_appended (handled : node.handle config msg = some next) : node.broadcasts <+: next.broadcasts := by
  obtain ⟨middle, quiet, rfl | ⟨value, rfl, rfl⟩⟩ := handle_cases handled
  · exact quiet.appended
  · exact quiet.appended.trans (deliver_appended value middle).1

theorem handle_handled (handled : node.handle config msg = some next) : next.handled = node.handled ++ [msg] := by
  obtain ⟨middle, quiet, rfl | ⟨value, rfl, rfl⟩⟩ := handle_cases handled
  · exact quiet.handled
  · exact (deliver_appended value middle).2.1.trans quiet.handled

private theorem Quiet.spent_budget (quiet : Quiet (node.record msg) next) :
    next.broadcasts.length + budget config next = node.broadcasts.length + budget config node := by
  have current : next.current_msg_id_to_send = node.current_msg_id_to_send := quiet.current
  have spent : next.broadcasts.length + next.unsent = node.broadcasts.length + node.unsent := quiet.spent
  simp only [budget, current]
  omega

/-- Every broadcast is paid from the budget, whatever is received. -/
theorem handle_spent (handled : node.handle config msg = some next) :
    next.broadcasts.length + budget config next = node.broadcasts.length + budget config node := by
  obtain ⟨middle, quiet, rfl | ⟨value, rfl, rfl⟩⟩ := handle_cases handled
  · exact quiet.spent_budget
  · exact (deliver_appended value middle).2.2.trans quiet.spent_budget

/-- The facts about one node that survive any sequence of receptions. -/
structure Valid (config : Config) (node : Node) : Prop where
  ledgers : ∀ value, (node.ledger value).Valid config.echoQuorum config.max_byzantin_process_number
  started : 1 ≤ node.current_msg_id_to_send
  bounded : node.current_msg_id_to_send ≤ max 1 config.number_of_msg_per_process + 1
  initials : initialValues node.broadcasts = (List.range' 1 (node.current_msg_id_to_send - 1)).map config.ownValue

theorem Valid.initial (config : Config) : Valid config {} := by
  refine ⟨fun value => ?_, Nat.le_refl _, by simp, rfl⟩
  constructor <;> simp [ledger, echoCount, readyCount]

/-- Both senders of Initials go through here: the loop's first pass and a delivery. -/
private theorem initials_extend (start : 1 ≤ node.current_msg_id_to_send)
    (initials : initialValues node.broadcasts = (List.range' 1 (node.current_msg_id_to_send - 1)).map config.ownValue) :
    initialValues node.broadcasts ++ [config.ownValue node.current_msg_id_to_send] =
      (List.range' 1 (node.current_msg_id_to_send + 1 - 1)).map config.ownValue := by
  obtain ⟨sent, position⟩ : ∃ sent, node.current_msg_id_to_send = sent + 1 := ⟨_, (Nat.sub_add_cancel start).symm⟩
  simp only [initials, position, Nat.add_sub_cancel, List.range'_1_concat, List.map_append, List.map_singleton]
  rw [Nat.add_comm 1 sent]

theorem start_spent (config : Config) (first : node.current_msg_id_to_send = 1) :
    (node.sendInitial config).broadcasts.length + budget config (node.sendInitial config) =
      node.broadcasts.length + budget config node :=
  sendInitial_spent (first ▸ Nat.le_max_left _ _)

theorem Valid.sendInitial (valid : Valid config node) (first : node.current_msg_id_to_send = 1) :
    Valid config (node.sendInitial config) := by
  refine ⟨fun value => ?_, ?_, ?_, ?_⟩
  · rw [sendInitial_ledger]
    exact valid.ledgers value
  · exact Nat.le_add_left _ _
  · simp only [Node.sendInitial, broadcast]
    omega
  · exact (initialValues_append _ _).trans (initials_extend valid.started valid.initials)

/-- Validity only looks at the ledgers and at the sending position. -/
theorem Valid.moved (valid : Valid config node)
    (ledger : ∀ value, next.ledger value = if value = msg.value then (node.ledger value).on config msg else node.ledger value)
    (moved : Moved config node msg next) : Valid config next := by
  have ledgers (value : MsgValueType) :
      (next.ledger value).Valid config.echoQuorum config.max_byzantin_process_number := by
    rw [ledger value]
    split
    · cases msg with
      | Initial _ => exact (valid.ledgers value).onInitial
      | Echo _ => exact (valid.ledgers value).onEcho
      | Ready _ => exact (valid.ledgers value).onReady
    · exact valid.ledgers value
  have started := valid.started
  have bounded := valid.bounded
  cases moved with
  | stayed current initials waiting =>
    exact ⟨ledgers, by omega, by omega, by rw [initials, current, valid.initials]⟩
  | released current initials remaining own delivered =>
    refine ⟨ledgers, by omega, by omega, ?_⟩
    rw [initials, current, initials_extend started valid.initials]

theorem Valid.handle (valid : Valid config node) (handled : node.handle config msg = some next) : Valid config next :=
  valid.moved (fun value => handle_ledger config node value handled) (handle_moved handled)

theorem Valid.initial_mem (valid : Valid config node) {value : MsgValueType} :
    .Initial value ∈ node.broadcasts ↔
      ∃ k, 1 ≤ k ∧ k < node.current_msg_id_to_send ∧ config.ownValue k = value := by
  rw [← mem_initialValues, valid.initials]
  simp only [List.mem_map, List.mem_range'_1]
  constructor
  · intro found
    obtain ⟨k, ⟨low, high⟩, same⟩ := found
    exact ⟨k, low, by omega, same⟩
  · intro found
    obtain ⟨k, low, high, same⟩ := found
    exact ⟨k, ⟨low, by omega⟩, same⟩

end Node
end NetworkSimulator.Bracha
