import NetworkSimulator.Proofs.NetworkRounds

/-! Runs without faulty processes. Nothing but broadcast values is delivered in
any state, and a network with nothing left to read has delivered all of them. -/

namespace NetworkSimulator.Bracha
variable {process_number number_of_msg_per_process : Nat}

theorem mem_values_iff {faulty : Finset (Fin process_number)} {value : MsgValueType}
    (fits : number_of_msg_per_process * process_number + process_number - 1 ≤ 2 ^ 31 - 1) :
    value ∈ Net.values number_of_msg_per_process faulty ↔
      ∃ k, 1 ≤ k ∧ k ≤ number_of_msg_per_process ∧ ∃ j ∉ faulty, value.toInt = k * process_number + j := by
  simp only [Net.values, Finset.mem_image, Finset.mem_product, Finset.mem_Icc, Finset.mem_compl, Prod.exists]
  constructor
  · intro found
    obtain ⟨k, j, ⟨⟨low, high⟩, correct⟩, rfl⟩ := found
    exact ⟨k, low, high, j, correct, ownValue_toInt high fits⟩
  · intro found
    obtain ⟨k, low, high, j, correct, same⟩ := found
    exact ⟨k, j, ⟨⟨low, high⟩, correct⟩, Int32.toInt_inj.mp ((ownValue_toInt high fits).trans same.symm)⟩

open Net in
/-- In every state, delivered values were broadcast by their owners. In every
state where all processes have started and nothing sent to a running one is
unread, each process has delivered exactly the values of all rounds. -/
theorem fault_free_delivery (many : 2 ≤ process_number) (rounds : 1 ≤ number_of_msg_per_process)
    (fits : number_of_msg_per_process * process_number + process_number - 1 ≤ 2 ^ 31 - 1)
    {net : Net process_number} (reached : Reachable number_of_msg_per_process ∅ net) :
    (∀ i, ∀ value ∈ (net.nodes i).msgs_delivered, ∃ owner : Fin process_number,
        value.toInt % process_number = owner ∧ .Initial value ∈ (net.nodes owner).broadcasts) ∧
      ((∀ i, (net.nodes i).current_msg_id_to_send ≠ 1) → (∀ i, net.left i = false → ∀ j, net.channels j i = []) → ∀ i,
        (∀ value, value ∈ (net.nodes i).msgs_delivered ↔
          ∃ k, 1 ≤ k ∧ k ≤ number_of_msg_per_process ∧ ∃ j : Fin process_number, value.toInt = k * process_number + j) ∧
        (net.nodes i).finished (processConfig number_of_msg_per_process i) = true) := by
  have valid := reached.valid
  have silent := reached.silent
  have genuine := reached.genuine silent
  have within : number_of_msg_per_process * process_number ≤ 2 ^ 32 := by omega
  refine ⟨fun i value delivered => ?_, fun begun drained i => ?_⟩
  · obtain ⟨owner, sent⟩ := valid.delivered_announced silent genuine delivered
    refine ⟨owner, ?_, sent⟩
    exact valid.sender_owner (by rwa [Nat.max_eq_right rounds]) sent
  · have complete := valid.complete silent genuine (reached.waiting rounds within silent) many rounds
      (by omega) (by rw [Finset.card_empty]; omega) (fun k _ => begun k) (fun k _ running j _ => drained k running j)
      (fun k member => absurd member (Finset.notMem_empty k)) (Finset.notMem_empty i)
    refine ⟨fun value => ?_, ?_⟩
    · rw [complete, mem_values_iff fits]
      simp
    · have all : (net.nodes i).msgs_delivered.card = number_of_msg_per_process * process_number := by
        rw [complete, card_values within, Finset.card_empty, Nat.sub_zero]
      simp only [Node.finished, processConfig, all, beq_iff_eq]
      omega

set_option maxRecDepth 10000 in
theorem fault_free_delivery_two : ∃ net : Net 2, Reachable 1 ∅ net ∧
    ∀ i, (∀ value, value ∈ (net.nodes i).msgs_delivered ↔
        ∃ k, 1 ≤ k ∧ k ≤ 1 ∧ ∃ j : Fin 2, value.toInt = (k : Nat) * (2 : Nat) + j) ∧
      (net.nodes i).finished (processConfig 1 i) = true := by
  obtain ⟨net, ran, begun, drained⟩ : ∃ net : Net 2,
      Machine.run (Net.step 1 ∅) {} [.start 0, .start 1, .receive 0 1 true, .receive 1 0 true, .receive 0 1 true,
        .receive 1 0 true, .receive 0 1 true, .receive 0 1 true, .receive 1 0 true, .receive 0 1 true,
        .receive 1 0 true, .receive 1 0 true] = some net ∧
      (∀ i, (net.nodes i).current_msg_id_to_send ≠ 1) ∧ ∀ i, net.left i = false → ∀ j, net.channels j i = [] := by
    refine ⟨_, rfl, ?_, ?_⟩ <;> decide
  exact ⟨net, ⟨_, ran⟩, (fault_free_delivery (by decide) (by decide) (by decide) ⟨_, ran⟩).2 begun drained⟩

end NetworkSimulator.Bracha
