import NetworkSimulator.Proofs.ProcessRefinement

/-! Which Readies are enabled and never sent. The echo threshold is tested when an
Echo arrives, but not when an Initial makes the process count its own Echo. -/

namespace NetworkSimulator.Bracha
variable {config : Config}

/-- An Echo arrived after an Initial of the same value. -/
def Followed (msgs : List Msg) (value : MsgValueType) : Prop := [Msg.Initial value, Msg.Echo value].Sublist msgs

theorem followed_concat {past : List Msg} {msg : Msg} {value : MsgValueType} :
    Followed (past ++ [msg]) value ↔ Followed past value ∨ (msg = .Echo value ∧ .Initial value ∈ past) := by
  constructor
  · intro found
    obtain ⟨front, back, split, before, last⟩ := List.sublist_append_iff.mp found
    rcases front with _ | ⟨first, _ | ⟨second, rest⟩⟩
    · rw [List.nil_append] at split
      subst split
      exact absurd last.length_le (by simp)
    · obtain ⟨rfl, rfl⟩ := List.cons.inj split
      exact Or.inr ⟨(List.mem_singleton.mp (last.subset List.mem_cons_self)).symm, before.subset List.mem_cons_self⟩
    · obtain ⟨rfl, tail⟩ := List.cons.inj split
      obtain ⟨rfl, ends⟩ := List.cons.inj tail
      obtain ⟨rfl, rfl⟩ := List.append_eq_nil_iff.mp ends.symm
      exact Or.inl before
  · intro found
    rcases found with before | ⟨rfl, initial⟩
    · exact before.trans (List.sublist_append_left _ _)
    · exact (List.singleton_sublist.mpr initial).append (List.Sublist.refl [Msg.Echo value])

/-- A value is settled by its Readies, by its Echoes, or by one Echo less if one
of them found the process's own Echo counted already. -/
def Settled (config : Config) (msgs : List Msg) (value : MsgValueType) : Prop :=
  config.max_byzantin_process_number + 1 ≤ msgs.count (.Ready value) ∨ config.echoQuorum ≤ msgs.count (.Echo value) ∨
    (Followed msgs value ∧ config.echoQuorum ≤ msgs.count (.Echo value) + 1)

theorem settled_other {past : List Msg} {msg : Msg} {value : MsgValueType} (other : value ≠ msg.value) :
    Settled config (past ++ [msg]) value ↔ Settled config past value := by
  have different (kind : Msg) (about : kind.value = value) : (past ++ [msg]).count kind = past.count kind := by
    have apart : msg ≠ kind := fun same => other (same ▸ about.symm)
    rw [List.count_append, List.count_singleton, if_neg (by simpa using apart), Nat.add_zero]
  have unfollowed : ¬ (msg = .Echo value ∧ .Initial value ∈ past) := fun found => other (found.1 ▸ rfl)
  simp only [Settled, different (.Ready value) rfl, different (.Echo value) rfl, followed_concat, unfollowed, or_false]

section
variable {past : List Msg} {node : Node} {value : MsgValueType} (valid : Node.Valid config node) (handled : node.handled = past)
  (settled : node.msgs_states value = some .SentReady ↔ Settled config past value)
include valid handled settled

/-- One message about the value. Each kind of message has its own test, and the
Initial has none. -/
private theorem settled_own {msg : Msg} {after : Node} (handles : Handles config node msg after) (own : value = msg.value) :
    after.msgs_states value = some .SentReady ↔ Settled config (past ++ [msg]) value := by
  obtain ⟨echoCounted, readyCounted, echoSent, readySent, initialEchoed, echoes, readies, delivered, echoed, readied⟩ := valid.ledgers value
  have moved := congrArg Ledger.state (handles.ledger valid value)
  rw [if_pos own] at moved
  have state : (after.ledger value).state = after.msgs_states value := rfl
  have before : (node.ledger value).state = node.msgs_states value := rfl
  have known : (node.ledger value).initials = past.count (.Initial value) ∧ (node.ledger value).echoes = past.count (.Echo value) ∧
      (node.ledger value).readies = past.count (.Ready value) := by simp only [Node.ledger, handled, and_self]
  have seen : .Initial value ∈ past ↔ 0 < past.count (.Initial value) := List.count_pos_iff.symm
  have followed : Followed past value → .Initial value ∈ past := fun found => found.subset List.mem_cons_self
  cases msg with
  | Initial other =>
    obtain rfl : other = value := own.symm
    rw [Ledger.on, Ledger.onInitial_state, state, before] at moved
    simp only [Settled, followed_concat, List.count_append, List.count_singleton, beq_iff_eq, reduceCtorEq, if_false,
      false_and, or_false, Nat.add_zero] at settled ⊢
    grind
  | Echo other =>
    obtain rfl : other = value := own.symm
    rw [Ledger.on, Ledger.onEcho_state, state, before] at moved
    simp only [Settled, followed_concat, List.count_append, List.count_singleton, beq_iff_eq, reduceCtorEq, if_true, if_false,
      true_and, Nat.add_zero] at settled ⊢
    grind
  | Ready other =>
    obtain rfl : other = value := own.symm
    rw [Ledger.on, Ledger.onReady_state, state, before] at moved
    simp only [Settled, followed_concat, List.count_append, List.count_singleton, beq_iff_eq, reduceCtorEq, if_true, if_false,
      false_and, or_false, Nat.add_zero] at settled ⊢
    grind

theorem settled_handles {msg : Msg} {after : Node} (handles : Handles config node msg after) :
    after.msgs_states value = some .SentReady ↔ Settled config (past ++ [msg]) value := by
  by_cases own : value = msg.value
  · exact settled_own valid handled settled handles own
  · have kept := congrArg Ledger.state (handles.ledger valid value)
    rw [if_neg own] at kept
    rw [settled_other own, ← settled]
    exact Eq.congr_left kept

end

section
variable (several : 2 ≤ config.process_number)
include several

theorem echoQuorum_pos : 1 ≤ config.echoQuorum := by
  unfold Config.echoQuorum
  omega

/-- When a process has broadcast a Ready, in terms of what it has received. -/
theorem run_settled (fits : config.process_number < 3 * 2 ^ 30) (msgs : List Msg) : ∃ process node,
    Machine.run (Process.handle config) (Process.start config) msgs = some process ∧ Follows config msgs process node ∧
      ∀ value, node.msgs_states value = some .SentReady ↔ Settled config msgs value := by
  apply run_follows_history fits (fun msgs node => ∀ value, node.msgs_states value = some .SentReady ↔ Settled config msgs value)
  · intro value
    have quorum := echoQuorum_pos several
    have unfollowed : ¬ Followed [] value := fun found => by cases found
    have absent : (({} : Node).sendInitial config).msgs_states value = none := rfl
    rw [absent]
    simp only [reduceCtorEq, Settled, List.count_nil, unfollowed, false_and, or_false, false_iff]
    omega
  · exact fun _ _ _ _ valid handled settled handles value => settled_handles valid handled (settled value) handles

end

/-- The test of step 2 holds for the counters as they stand. -/
def Process.Enabled (config : Config) (process : Process) (value : MsgValueType) : Prop :=
  UInt64.ofNat config.echoQuorum ≤ (process.counter_echo_msgs value).getD 0 ∨
    Int32.ofNat config.max_byzantin_process_number + 1 ≤ (process.counter_ready_msgs value).getD 0

/-- One Echo less than the quorum came, and all of them before the Initial that
made the process echo. -/
def Missed (config : Config) (msgs : List Msg) (value : MsgValueType) : Prop :=
  .Initial value ∈ msgs ∧ msgs.count (.Echo value) + 1 = config.echoQuorum ∧
    msgs.count (.Ready value) ≤ config.max_byzantin_process_number ∧ ¬ Followed msgs value

/-- For one value, an enabled Ready is unsent exactly where it was missed. -/
private theorem enabled_sent_iff (fits : config.process_number < 3 * 2 ^ 30) {msgs : List Msg} {process : Process} {node : Node}
    (follows : Follows config msgs process node) {value : MsgValueType} (quorum : 1 ≤ config.echoQuorum)
    (settled : node.msgs_states value = some .SentReady ↔ Settled config msgs value) :
    (process.Enabled config value → .Ready value ∈ process.broadcasts) ↔ ¬ Missed config msgs value := by
  obtain ⟨echoCounted, readyCounted, echoSent, readySent, initialEchoed, _, _, _, echoed, _⟩ := follows.ledger value
  have known : (node.ledger value).initials = msgs.count (.Initial value) ∧ (node.ledger value).echoes = msgs.count (.Echo value) ∧
      (node.ledger value).readies = msgs.count (.Ready value) := by simp only [Node.ledger, follows.handled, and_self]
  have state : (node.ledger value).state = node.msgs_states value := rfl
  have seen : .Initial value ∈ msgs ↔ 0 < msgs.count (.Initial value) := List.count_pos_iff.symm
  rw [state] at echoSent readySent initialEchoed echoed
  have sent := follows.ready_broadcast value
  rw [follows.same.states] at sent
  rw [sent, settled]
  by_cases done : Settled config msgs value
  · have unmissed : ¬ Missed config msgs value := by
      intro missed
      obtain ⟨_, short, few, unfollowed⟩ := missed
      rcases done with readies | echoes | ⟨followed, _⟩
      · omega
      · omega
      · exact unfollowed followed
    simp only [done, implies_true, unmissed, not_false_eq_true]
  · have unready : node.msgs_states value ≠ some .SentReady := fun same => done (settled.mp same)
    obtain ⟨echoRoom, readyRoom⟩ := (follows.ledger value).unsettled unready
    have tolerated := tolerated_fits fits
    have bounded : config.echoQuorum ≤ 2 * config.process_number := by
      unfold Config.echoQuorum Config.max_byzantin_process_number
      omega
    have echoes : UInt64.ofNat config.echoQuorum ≤ UInt64.ofNat (node.echoCount value) ↔ config.echoQuorum ≤ node.echoCount value := by
      apply echo_test fits
      change (node.ledger value).echoCount < 2 ^ 64
      omega
    have readies : Int32.ofNat config.max_byzantin_process_number + 1 ≤ Int32.ofNat (node.readyCount value) ↔
        config.max_byzantin_process_number + 1 ≤ node.readyCount value := by
      apply ready_test fits
      change (node.ledger value).readyCount < 2 ^ 31
      omega
    have enabled : process.Enabled config value ↔ config.echoQuorum ≤ (node.ledger value).echoCount := by
      rw [Process.Enabled, follows.same.echoes value, follows.same.readies value, echoes, readies]
      exact or_iff_left (Nat.not_le_of_lt (Nat.lt_succ_of_le readyRoom))
    simp only [Settled, not_or, not_and] at done
    simp only [enabled, Settled, Missed]
    grind

/-- Every enabled Ready has been sent, unless the Echoes that complete the
quorum together with the process's own were all there before the Initial. -/
theorem enabled_readies_sent_iff (several : 2 ≤ config.process_number) (fits : config.process_number < 3 * 2 ^ 30) (msgs : List Msg) :
    ∃ process, Machine.run (Process.handle config) (Process.start config) msgs = some process ∧
      ((∀ value, process.Enabled config value → .Ready value ∈ process.broadcasts) ↔ ∀ value, ¬ Missed config msgs value) := by
  obtain ⟨process, node, ran, follows, settled⟩ := run_settled several fits msgs
  refine ⟨process, ran, ?_⟩
  apply forall_congr'
  intro value
  exact enabled_sent_iff fits follows (echoQuorum_pos several) (settled value)

theorem enabled_readies_sent_four : ∃ process,
    Machine.run (Process.handle ⟨0, 4, 1⟩) (Process.start ⟨0, 4, 1⟩) [.Initial 5, .Echo 5] = some process ∧
      ((∀ value, process.Enabled ⟨0, 4, 1⟩ value → .Ready value ∈ process.broadcasts) ↔
        ∀ value, ¬ Missed ⟨0, 4, 1⟩ [.Initial 5, .Echo 5] value) :=
  enabled_readies_sent_iff (by decide) (by decide) _

/-- The same two messages the other way round leave two Echoes counted, which is
the quorum of four processes, and no Ready sent. -/
theorem early_echo_unready : ∃ process,
    Machine.run (Process.handle ⟨0, 4, 1⟩) (Process.start ⟨0, 4, 1⟩) [.Echo 5, .Initial 5] = some process ∧
      process.Enabled ⟨0, 4, 1⟩ 5 ∧ .Ready 5 ∉ process.broadcasts := by
  refine ⟨_, rfl, Or.inl ?_, ?_⟩ <;> decide +kernel

end NetworkSimulator.Bracha
