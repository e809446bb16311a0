import NetworkSimulator.Proofs.ProcessRefinement

/-! Closed-loop sending: a process releases its next Initial from inside the
delivery of its newest one, however often that delivery is entered again. -/

namespace NetworkSimulator.Bracha
variable {config : Config}

/-- A delivery is settled by the Readies received so far, and these only grow. -/
theorem Handles.delivered_subset {node next : Node} {msg : Msg} (handles : Handles config node msg next)
    (valid : Node.Valid config node) : node.msgs_delivered ⊆ next.msgs_delivered := by
  intro value delivered
  have received := (valid.ledgers value).delivered_iff.mp delivered
  apply ((handles.valid valid).ledgers value).delivered_iff.mpr
  simp only [Node.ledger, handles.handled, List.count_append] at received ⊢
  omega

/-- Every own value but the newest has been delivered. -/
def Node.Released (config : Config) (node : Node) : Prop :=
  ∀ k, 1 ≤ k → k + 1 < node.current_msg_id_to_send → config.ownValue k ∈ node.msgs_delivered

theorem Handles.released {node next : Node} {msg : Msg} (handles : Handles config node msg next) (valid : Node.Valid config node)
    (released : node.Released config) : next.Released config := by
  intro k one before
  have kept := handles.delivered_subset valid
  cases handles.moved with
  | stayed current initials waiting =>
    rw [current] at before
    exact kept (released k one before)
  | released current initials remaining own delivered =>
    rw [current] at before
    by_cases newest : k + 1 = node.current_msg_id_to_send
    · obtain rfl : k = node.current_msg_id_to_send - 1 := by omega
      exact delivered
    · exact kept (released k one (by omega))

/-- The Initials of a process that has entered `rounds` rounds. -/
structure InRound (config : Config) (process : Process) (rounds : Nat) : Prop where
  bounded : rounds ≤ config.number_of_msg_per_process
  position : process.current_msg_id_to_send = rounds + 1
  sent : (initialValues process.broadcasts).map Int32.toInt =
    (List.range' 1 rounds).map fun k : Nat => (config.id + k * config.process_number : Int)
  once : (initialValues process.broadcasts).Nodup
  delivered : ∀ k : Nat, 1 ≤ k → ∀ own next : MsgValueType, own.toInt = config.id + k * config.process_number →
    next.toInt = config.id + (k + 1) * config.process_number → .Initial next ∈ process.broadcasts → own ∈ process.msgs_delivered

section
variable (inside : config.id < config.process_number)
  (fits : config.number_of_msg_per_process * config.process_number + config.process_number - 1 ≤ 2 ^ 31 - 1)
include inside fits

/-- Different rounds have different numbers. -/
theorem ownValue_round {j k : Nat} (low : j ≤ config.number_of_msg_per_process)
    (same : (config.ownValue j).toInt = config.id + k * config.process_number) : j = k := by
  rw [Config.ownValue_toInt inside low fits, Int.add_comm] at same
  have numbers : j * config.process_number = k * config.process_number := by exact_mod_cast Int.add_left_cancel same
  exact Nat.eq_of_mul_eq_mul_right (Nat.zero_lt_of_lt inside) numbers

variable {msgs : List Msg} {process : Process} {node : Node} (follows : Follows config msgs process node)
  (released : node.Released config) (rounds : 1 ≤ config.number_of_msg_per_process)
include follows released rounds

theorem Follows.inRound : InRound config process (process.current_msg_id_to_send - 1) := by
  obtain ⟨ledgers, started, bounded, initials⟩ := follows.valid
  rw [← follows.same.current] at started bounded initials
  rw [← follows.same.broadcasts] at initials
  have last : process.current_msg_id_to_send - 1 ≤ config.number_of_msg_per_process := by omega
  have entered (k : Nat) (member : k ∈ List.range' 1 (process.current_msg_id_to_send - 1)) :
      k ≤ config.number_of_msg_per_process := by
    have upper := (List.mem_range'_1.mp member).2
    omega
  have numbers : (initialValues process.broadcasts).map Int32.toInt =
      (List.range' 1 (process.current_msg_id_to_send - 1)).map fun k : Nat => (config.id + k * config.process_number : Int) := by
    rw [initials, List.map_map]
    apply List.map_congr_left
    intro k member
    exact (Config.ownValue_toInt inside (entered k member) fits).trans (Int.add_comm _ _)
  refine ⟨last, by omega, numbers, ?_, ?_⟩
  · rw [initials]
    apply List.Nodup.map_on _ List.nodup_range'
    intro j first k second same
    apply ownValue_round inside fits (entered j first)
    rw [same, Config.ownValue_toInt inside (entered k second) fits, Int.add_comm]
  · intro k one own next value newer sent
    rw [← mem_initialValues, initials] at sent
    obtain ⟨j, member, rfl⟩ := List.mem_map.mp sent
    obtain rfl : j = k + 1 := ownValue_round inside fits (entered j member) (by exact_mod_cast newer)
    have before := (List.mem_range'_1.mp member).2
    have number := Config.ownValue_toInt inside (Nat.le_of_succ_le (entered _ member)) fits
    have same : own = config.ownValue k := by
      apply Int32.toInt_inj.mp
      rw [value, number, Int.add_comm]
    rw [same, follows.same.delivered]
    apply released k one
    rw [← follows.same.current]
    omega

end

/-- The Initials of a process come in the order of its rounds, each once, and
each after the delivery of the one before, whatever its peers send. -/
theorem sends_in_rounds (inside : config.id < config.process_number) (rounds : 1 ≤ config.number_of_msg_per_process)
    (fits : config.number_of_msg_per_process * config.process_number + config.process_number - 1 ≤ 2 ^ 31 - 1) (msgs : List Msg) :
    ∃ process, Machine.run (Process.handle config) (Process.start config) msgs = some process ∧
      InRound config process (process.current_msg_id_to_send - 1) := by
  have few : config.process_number < 3 * 2 ^ 30 := by
    have one : 1 * config.process_number ≤ config.number_of_msg_per_process * config.process_number := Nat.mul_le_mul_right _ rounds
    omega
  obtain ⟨process, node, ran, follows, released⟩ := run_follows_history few (fun _ node => node.Released config)
    (by
      intro k one before
      have first : (({} : Node).sendInitial config).current_msg_id_to_send = 2 := rfl
      omega)
    (fun _ _ _ _ valid _ released handles => handles.released valid released) msgs
  exact ⟨process, ran, follows.inRound inside fits released rounds⟩

/-- Two Readies deliver the first value of process 1 among four, and one more
does not release another Initial. -/
theorem sends_in_rounds_four : ∃ process,
    Machine.run (Process.handle ⟨1, 4, 3⟩) (Process.start ⟨1, 4, 3⟩) [.Ready 5, .Ready 5, .Ready 5] = some process ∧
      InRound ⟨1, 4, 3⟩ process (process.current_msg_id_to_send - 1) :=
  sends_in_rounds (by decide) (by decide) (by decide) _

end NetworkSimulator.Bracha
