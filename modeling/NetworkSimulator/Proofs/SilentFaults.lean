import NetworkSimulator.Proofs.NetworkGenuine
import NetworkSimulator.Proofs.NetworkQuiescence

/-! Validity when faulty processes only keep silent. The remaining processes
meet the three thresholds on their own exactly when the silent ones are fewer
than a third, which `process_number / 3` does not ensure. -/

namespace NetworkSimulator.Bracha
variable {process_number : Nat} {number_of_msg_per_process : Nat} {faulty : Finset (Fin process_number)}

namespace Net

theorem Valid.readiers_correct {net : Net process_number} (valid : net.Valid number_of_msg_per_process faulty)
    (value : MsgValueType) : net.readiers value ⊆ faultyᶜ := by
  intro j ready
  rw [mem_readiers] at ready
  exact Finset.mem_compl.mpr fun member => by simp [valid.idle j member] at ready

/-- With a full third silent, the others together never reach the delivery threshold. -/
theorem Valid.undelivered {net : Net process_number} (valid : net.Valid number_of_msg_per_process faulty)
    (silent : net.Silent) (third : 3 * faulty.card = process_number) {i : Fin process_number} (correct : i ∉ faulty)
    (value : MsgValueType) : value ∉ (net.nodes i).msgs_delivered := by
  intro delivered
  have received : max 1 (2 * (process_number / 3)) ≤ ((net.nodes i).ledger value).readies :=
    (valid.ledger i value).delivered_iff.mp delivered
  have sent := valid.handled_le (i := i) (· == .Ready value)
  rw [valid.sentTo_ready, silent i] at sent
  have others : ((net.readiers value).erase i).card ≤ process_number - faulty.card - 1 := by
    calc ((net.readiers value).erase i).card ≤ (faultyᶜ.erase i).card :=
          Finset.card_le_card (Finset.erase_subset_erase i (valid.readiers_correct value))
      _ = process_number - faulty.card - 1 := by
          rw [Finset.card_erase_of_mem (Finset.mem_compl.mpr correct), Finset.card_compl, Fintype.card_fin]
  have readies : ((net.nodes i).ledger value).readies = (net.nodes i).handled.countP (· == .Ready value) := rfl
  simp only [List.countP_nil] at sent
  have inside := i.isLt
  omega

end Net

open Net in
/-- Values of correct processes reach every correct process whatever the order
of receptions if and only if the silent processes are fewer than a third. For
at least one message per process, and a number of messages that fits 64 bits,
this also holds when what was sent to a process that has left its loop is
discarded. -/
theorem silent_faults_validity (many : 2 ≤ process_number) (tolerated : faulty.card ≤ process_number / 3) :
    ((∀ net : Net process_number, Reachable number_of_msg_per_process faulty net → net.Silent → net.Quiescent faulty →
        net.AllDelivered faulty) ↔ 3 * faulty.card < process_number) ∧
      (3 * faulty.card < process_number → 1 ≤ number_of_msg_per_process → number_of_msg_per_process * process_number < 2 ^ 64 →
        ∀ net : Net process_number, Reachable number_of_msg_per_process faulty net → net.Silent → net.Drained faulty →
          net.AllDelivered faulty) := by
  refine ⟨⟨fun delivers => ?_, fun few net reached silent quiet owner _ value sent i correct => ?_⟩,
    fun few rounds unwrapped net reached silent drained => ?_⟩
  · by_contra full
    have third : 3 * faulty.card = process_number := by omega
    obtain ⟨actions, net, _, ran, ⟨valid, silent, running⟩, settled⟩ :=
      quiesce number_of_msg_per_process faulty (fun _ => True) false
        (fun net => net.Valid number_of_msg_per_process faulty ∧ net.Silent ∧ ∀ i, net.left i = false)
        (fun _ _ _ driven kept taken => ⟨kept.1.step taken, fun i => taken.forged_driven driven i ▸ kept.2.1 i,
          fun i => (taken.left_driven driven i).trans (kept.2.2 i)⟩)
        {} ⟨.initial, fun _ => rfl, fun _ => rfl⟩
    have finished (i : Fin process_number) (correct : i ∉ faulty) :
        (net.nodes i).current_msg_id_to_send ≠ 1 ∧ ∀ j, net.channels j i = [] := by
      rcases settled i trivial correct with left | done
      · simp [running i] at left
      · exact done
    obtain ⟨owner, correct⟩ : ∃ owner, owner ∉ faulty := by
      by_contra none
      push Not at none
      have all : faulty = Finset.univ := Finset.eq_univ_of_forall none
      rw [all, Finset.card_univ, Fintype.card_fin] at third
      omega
    have started := (valid.nodes owner).started
    have sent : .Initial ((processConfig number_of_msg_per_process owner).ownValue 1) ∈ (net.nodes owner).broadcasts :=
      (valid.nodes owner).initial_mem.mpr ⟨1, Nat.le_refl _, by have := (finished owner correct).1; omega, rfl⟩
    exact valid.undelivered silent third correct _ (delivers net ⟨actions, ran⟩ silent
      (fun i correct j _ => (finished i correct).2 j) owner correct _ sent owner correct)
  · exact reached.valid.delivered_everywhere many few (fun i correct => Or.inl (quiet i correct)) sent i correct
  · exact fun owner _ value sent i correct =>
      reached.valid.drained_delivered silent (reached.genuine silent) many rounds unwrapped few drained sent i correct

theorem silent_faults_validity_four :
    (∀ net : Net 4, Reachable 1 {3} net → net.Silent → net.Quiescent {3} → net.AllDelivered {3}) ∧
      ∀ net : Net 4, Reachable 1 {3} net → net.Silent → net.Drained {3} → net.AllDelivered {3} := by
  have both := @silent_faults_validity 4 1 {3} (by decide) (by decide)
  exact ⟨both.1.mpr (by decide), both.2 (by decide) (by decide) (by decide)⟩

set_option maxRecDepth 10000 in
/-- Three processes, the last one silent: each of the others echoes the
Initial it receives, and then both wait for a second Echo. -/
theorem silent_third_blocks_three : ({2} : Finset (Fin 3)).card ≤ (processConfig 1 (0 : Fin 3)).max_byzantin_process_number ∧
    ∃ net : Net 3, Reachable 1 {2} net ∧ net.Silent ∧ net.Quiescent {2} ∧
      .Initial 3 ∈ (net.nodes 0).broadcasts ∧ 3 ∉ (net.nodes 1).msgs_delivered ∧ ¬ net.AllDelivered {2} := by
  obtain ⟨net, ran, silent, quiet, sent, missing⟩ : ∃ net : Net 3,
      Machine.run (Net.step 1 {2}) {} [.start 0, .start 1, .receive 0 1 true, .receive 1 0 true, .receive 0 1 true,
        .receive 1 0 true] = some net ∧
      (∀ i, net.forged i = []) ∧ (∀ i, i ∉ ({2} : Finset (Fin 3)) → ∀ j, j ∉ ({2} : Finset (Fin 3)) → net.channels j i = []) ∧
      .Initial 3 ∈ (net.nodes 0).broadcasts ∧ 3 ∉ (net.nodes 1).msgs_delivered := by
    refine ⟨_, rfl, ?_, ?_, ?_, ?_⟩ <;> decide
  exact ⟨by decide, net, ⟨_, ran⟩, silent, quiet, sent, missing,
    fun delivered => missing (delivered 0 (by decide) 3 sent 1 (by decide))⟩

end NetworkSimulator.Bracha
