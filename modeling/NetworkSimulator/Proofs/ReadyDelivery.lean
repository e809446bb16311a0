import NetworkSimulator.Proofs.ProcessRefinement

/-! What a process delivers depends on the Readies it has received and on nothing
else. Its own Ready never completes a count between two receptions. -/

namespace NetworkSimulator.Bracha
variable {config : Config}

/-- A counter that has not wrapped shows its count. -/
theorem Follows.ready_counter_toInt {msgs : List Msg} {process : Process} {node : Node}
    (follows : Follows config msgs process node) {value : MsgValueType}
    (below : msgs.count (.Ready value) + process.broadcasts.count (.Ready value) < 2 ^ 31) :
    ((process.counter_ready_msgs value).getD 0).toInt = msgs.count (.Ready value) + process.broadcasts.count (.Ready value) := by
  rw [follows.ready_counter value, Int32.toInt_ofNat_of_lt below, Int.natCast_add]

/-- A wrapped counter can only show less than its count. -/
theorem Follows.ready_counter_le {msgs : List Msg} {process : Process} {node : Node}
    (follows : Follows config msgs process node) (value : MsgValueType) :
    ((process.counter_ready_msgs value).getD 0).toInt ≤ msgs.count (.Ready value) + process.broadcasts.count (.Ready value) := by
  by_cases below : msgs.count (.Ready value) + process.broadcasts.count (.Ready value) < 2 ^ 31
  · exact (follows.ready_counter_toInt below).le
  · have top := Int32.toInt_lt ((process.counter_ready_msgs value).getD 0)
    omega

section
variable {msgs : List Msg} {process : Process} {node : Node} (follows : Follows config msgs process node)
  (tolerant : 3 ≤ config.process_number) {value : MsgValueType}
include follows tolerant

theorem Follows.delivered_iff_readies :
    value ∈ process.msgs_delivered ↔ 2 * config.max_byzantin_process_number ≤ msgs.count (.Ready value) := by
  have one : 1 ≤ config.max_byzantin_process_number := Nat.div_pos tolerant (by omega)
  rw [follows.delivered_iff value, Nat.max_eq_right (by omega)]

theorem Follows.delivered_of_counter
    (reached : 2 * config.max_byzantin_process_number + 1 ≤ ((process.counter_ready_msgs value).getD 0).toInt) :
    value ∈ process.msgs_delivered := by
  have shown := follows.ready_counter_le value
  have sent := follows.ready_sent value
  apply (follows.delivered_iff_readies tolerant).mpr
  split at sent <;> omega

theorem Follows.counter_of_delivered (delivered : value ∈ process.msgs_delivered) (below : msgs.count (.Ready value) < 2 ^ 31 - 1) :
    2 * config.max_byzantin_process_number + 1 ≤ ((process.counter_ready_msgs value).getD 0).toInt := by
  have received := (follows.delivered_iff_readies tolerant).mp delivered
  have sent := follows.ready_sent value
  rw [if_pos (follows.delivered_settled value delivered)] at sent
  rw [follows.ready_counter_toInt (by omega), sent]
  omega

end

/-- Delivery after some messages, by the Readies among them and by the counters. -/
structure DeliversByReadies (config : Config) (msgs : List Msg) (process : Process) : Prop where
  received : ∀ value, value ∈ process.msgs_delivered ↔ 2 * config.max_byzantin_process_number ≤ msgs.count (.Ready value)
  counted : ∀ value, msgs.count (.Ready value) < 2 ^ 31 - 1 → (value ∈ process.msgs_delivered ↔
    2 * config.max_byzantin_process_number + 1 ≤ ((process.counter_ready_msgs value).getD 0).toInt)
  reached : ∀ past rest before value, msgs = past ++ rest →
    Machine.run (Process.handle config) (Process.start config) past = some before →
      2 * config.max_byzantin_process_number + 1 ≤ ((before.counter_ready_msgs value).getD 0).toInt → value ∈ process.msgs_delivered
  reordered : ∀ other final, msgs.Perm other → Machine.run (Process.handle config) (Process.start config) other = some final →
    final.msgs_delivered = process.msgs_delivered

/-- A value is delivered once 2t Readies for it have been received, in whatever
order and with whatever other messages. -/
theorem delivers_by_readies (tolerant : 3 ≤ config.process_number) (fits : config.process_number < 3 * 2 ^ 30) (msgs : List Msg) :
    ∃ process, Machine.run (Process.handle config) (Process.start config) msgs = some process ∧
      DeliversByReadies config msgs process := by
  obtain ⟨process, node, ran, follows⟩ := run_follows fits msgs
  refine ⟨process, ran, ?_, ?_, ?_, ?_⟩
  · exact fun value => follows.delivered_iff_readies tolerant
  · intro value below
    constructor
    · exact fun delivered => follows.counter_of_delivered tolerant delivered below
    · exact follows.delivered_of_counter tolerant
  · intro past rest before value split reachedPast reached
    obtain ⟨earlier, followsPast⟩ := follows_run fits reachedPast
    have received := (followsPast.delivered_iff_readies tolerant).mp (followsPast.delivered_of_counter tolerant reached)
    apply (follows.delivered_iff_readies tolerant).mpr
    rw [split, List.count_append]
    omega
  · intro other final same ranOther
    obtain ⟨last, followsOther⟩ := follows_run fits ranOther
    apply Finset.ext
    intro value
    rw [followsOther.delivered_iff_readies tolerant, follows.delivered_iff_readies tolerant, same.count_eq]

theorem delivers_by_readies_four : ∃ process,
    Machine.run (Process.handle ⟨0, 4, 1⟩) (Process.start ⟨0, 4, 1⟩) [.Ready 7, .Echo 5, .Ready 7] = some process ∧
      DeliversByReadies ⟨0, 4, 1⟩ [.Ready 7, .Echo 5, .Ready 7] process :=
  delivers_by_readies (by decide) (by decide) _

/-- Two Readies deliver a value among three processes, and 2^31 - 1 of them make
its counter negative. With 3 * 2^30 processes the threshold itself is negative,
and the first Ready looks up a state that is not there. -/
theorem ready_counter_wraps : (∃ process,
    Machine.run (Process.handle ⟨0, 3, 1⟩) (Process.start ⟨0, 3, 1⟩) (List.replicate (2 ^ 31 - 1) (.Ready 5)) = some process ∧
      5 ∈ process.msgs_delivered ∧ ¬ 2 * (3 / 3) + 1 ≤ ((process.counter_ready_msgs 5).getD 0).toInt) ∧
    (Process.start ⟨0, 3 * 2 ^ 30, 1⟩).handle ⟨0, 3 * 2 ^ 30, 1⟩ (.Ready 5) = none := by
  obtain ⟨process, ran, delivered, _, wrapped⟩ := @readies_wrap ⟨0, 3, 1⟩ (by decide) 5
  refine ⟨⟨process, ran, delivered, ?_⟩, by decide +kernel⟩
  rw [wrapped]
  decide

end NetworkSimulator.Bracha
