import NetworkSimulator.Proofs.NetworkForgery

/-! Integrity of deliveries. The handler asks neither who sent an Initial nor
how often one peer repeats an Echo or a Ready, so a value its owner never
broadcast stays undelivered only while the forged copies are few. -/

namespace NetworkSimulator.Bracha
variable {process_number number_of_msg_per_process : Nat} {faulty : Finset (Fin process_number)}

namespace Net

/-- What faulty processes have sent about the value would not move a process
even if each copy were the vote of a different peer. -/
def Restrained (faulty : Finset (Fin process_number)) (net : Net process_number) (value : MsgValueType) : Prop :=
  ∀ k, k ∉ faulty → .Initial value ∉ net.forged k ∧
    (net.forged k).count (.Echo value) < max 1 ((process_number + process_number / 3) / 2) ∧
    (net.forged k).count (.Ready value) ≤ process_number / 3

/-- A single faulty process leaves room for two correct ones. -/
theorem two_correct (tolerated : faulty.card ≤ process_number / 3) {f : Fin process_number} (byzantine : f ∈ faulty) :
    ∃ i k, i ∉ faulty ∧ k ∉ faulty ∧ i ≠ k := by
  have some_faulty : 0 < faulty.card := Finset.card_pos.mpr ⟨f, byzantine⟩
  have several : 1 < faultyᶜ.card := by
    rw [Finset.card_compl, Fintype.card_fin]
    omega
  obtain ⟨i, first, k, second, different⟩ := Finset.one_lt_card.mp several
  exact ⟨i, k, Finset.mem_compl.mp first, Finset.mem_compl.mp second, different⟩

/-- Enough copies of one Ready from one faulty peer are a delivery, of any
value and before any other process has even started. -/
theorem forged_delivery (number_of_msg_per_process : Nat) {f i : Fin process_number} (byzantine : f ∈ faulty)
    (correct : i ∉ faulty) (value : MsgValueType) :
    ∃ net : Net process_number, Reachable number_of_msg_per_process faulty net ∧ value ∈ (net.nodes i).msgs_delivered ∧
      (∀ k, k ≠ i → net.nodes k = {}) ∧ (∀ k, k ≠ i → net.forged k = []) ∧ ∀ k, net.left k = false := by
  have started := step_iff.mpr (@Step.start process_number number_of_msg_per_process faulty {} i correct rfl rfl)
  have empty : (({} : Net process_number).advance i (Node.sendInitial (processConfig number_of_msg_per_process i) {})).channels
      f i = [] := by
    have apart : f ≠ i := fun same => correct (same ▸ byzantine)
    simp [advance, Mesh.post, apart]
  obtain ⟨actions, net, ran, handled, forged, others, left⟩ := inject number_of_msg_per_process _ byzantine correct rfl
    (by simp [advance, Node.sendInitial, Node.broadcast]) empty (.Ready value) (max 1 (2 * (process_number / 3)))
  have reached : Reachable number_of_msg_per_process faulty net :=
    ⟨.start i :: actions, (Machine.run_cons_iff _).mpr ⟨_, started, ran⟩⟩
  have received : max 1 (2 * (process_number / 3)) ≤ (net.nodes i).handled.count (.Ready value) := by
    rw [handled, List.count_append, List.count_replicate_self]
    exact Nat.le_add_left _ _
  refine ⟨net, reached, (reached.valid.ledger i value).delivered_iff.mpr received, fun k other => ?_,
    fun k other => ?_, fun k => ?_⟩
  · simp [others k other, advance, other]
  · simp [forged, advance, other]
  · simp [left, advance]

end Net

open Net in
/-- No correct process delivers a value whose correct owner has not broadcast
it, in any run where the faulty processes restrain themselves as above and the
values do not overflow. One faulty process that does not is enough, whatever
the size of the network. -/
theorem integrity_restrained (tolerated : faulty.card ≤ process_number / 3) :
    (∀ net : Net process_number, Reachable number_of_msg_per_process faulty net →
        max 1 number_of_msg_per_process * process_number + process_number - 1 ≤ 2 ^ 31 - 1 →
        ∀ value : MsgValueType, ∀ owner : Fin process_number, value.toInt % process_number = owner → owner ∉ faulty →
          .Initial value ∉ (net.nodes owner).broadcasts → net.Restrained faulty value →
            ∀ i, i ∉ faulty → value ∉ (net.nodes i).msgs_delivered) ∧
      (faulty.Nonempty → max 1 number_of_msg_per_process * process_number + process_number - 1 ≤ 2 ^ 31 - 1 →
        ∃ net : Net process_number, Reachable number_of_msg_per_process faulty net ∧
          ∃ value : MsgValueType, ∃ owner : Fin process_number, value.toInt % process_number = owner ∧ owner ∉ faulty ∧
            .Initial value ∉ (net.nodes owner).broadcasts ∧ ∃ i, i ∉ faulty ∧ value ∈ (net.nodes i).msgs_delivered) := by
  constructor
  · intro net reached fits value owner owns _ unsent restrained i correct delivered
    have valid := reached.valid
    have unsupported : net.Unsupported faulty ∅ value := by
      constructor
      · intro sender sent
        have same : (sender : Int) = owner := (valid.sender_owner fits sent).symm.trans owns
        have equal : sender = owner := Fin.ext (by omega)
        exact unsent (equal ▸ sent)
      · exact fun k correct _ => (restrained k correct).1
      · exact fun k correct _ => (restrained k correct).2.1
      · exact fun k correct _ => (restrained k correct).2.2
    have unheard := reached.unheard unsupported i (Finset.notMem_empty i)
    have ready : (net.nodes i).msgs_states value = some .SentReady := (valid.ledger i value).delivered_readied delivered
    rw [unheard] at ready
    cases ready
  · intro found fits
    obtain ⟨f, byzantine⟩ := found
    obtain ⟨owner, i, correct, target, different⟩ := two_correct tolerated byzantine
    obtain ⟨net, reached, delivered, idle, _, _⟩ := forged_delivery number_of_msg_per_process byzantine target
      ((processConfig number_of_msg_per_process owner).ownValue 1)
    refine ⟨net, reached, _, owner, ownValue_owner (Nat.le_max_left _ _) fits, correct, ?_, i, target, delivered⟩
    simp [idle owner different]

set_option maxRecDepth 10000 in
/-- One Echo and one Ready of process 2 for the value 4 deliver nothing. More do. -/
theorem integrity_restrained_three :
    (∃ net : Net 3, Machine.run (Net.step 1 {2}) {} [.start 0, .forge 2 0 (.Echo 4), .forge 2 0 (.Ready 4), .receive 0 2 true,
        .receive 0 2 true] = some net ∧ ∀ i, i ∉ ({2} : Finset (Fin 3)) → 4 ∉ (net.nodes i).msgs_delivered) ∧
    ∃ net : Net 3, Reachable 1 {2} net ∧
      ∃ value : MsgValueType, ∃ owner : Fin 3, value.toInt % (3 : Nat) = owner ∧ owner ∉ ({2} : Finset (Fin 3)) ∧
        .Initial value ∉ (net.nodes owner).broadcasts ∧ ∃ i, i ∉ ({2} : Finset (Fin 3)) ∧ value ∈ (net.nodes i).msgs_delivered := by
  obtain ⟨spared, forged⟩ := @integrity_restrained 3 1 {2} (by decide)
  obtain ⟨net, ran, unsent, restrained⟩ : ∃ net : Net 3,
      Machine.run (Net.step 1 {2}) {} [.start 0, .forge 2 0 (.Echo 4), .forge 2 0 (.Ready 4), .receive 0 2 true,
        .receive 0 2 true] = some net ∧ .Initial 4 ∉ (net.nodes 1).broadcasts ∧
      ∀ k, k ∉ ({2} : Finset (Fin 3)) → .Initial 4 ∉ net.forged k ∧ (net.forged k).count (.Echo 4) < max 1 ((3 + 3 / 3) / 2) ∧
        (net.forged k).count (.Ready 4) ≤ 3 / 3 := by
    refine ⟨_, rfl, ?_, ?_⟩ <;> decide
  exact ⟨⟨net, ran, spared net ⟨_, ran⟩ (by decide) 4 1 (by decide) (by decide) unsent restrained⟩,
    forged (by decide) (by decide)⟩

set_option maxRecDepth 10000 in
/-- Two copies of one Ready from process 2 make process 0 deliver value 4,
which process 1 has not broadcast. -/
theorem two_readies_forge_four : ({2} : Finset (Fin 3)).card ≤ (processConfig 1 (0 : Fin 3)).max_byzantin_process_number ∧
    ∃ net : Net 3, Reachable 1 {2} net ∧ (4 : MsgValueType).toInt = 1 * 3 + (1 : Fin 3) ∧
      (1 : Fin 3) ∉ ({2} : Finset (Fin 3)) ∧ .Initial 4 ∉ (net.nodes 1).broadcasts ∧ 4 ∈ (net.nodes 0).msgs_delivered := by
  obtain ⟨net, ran, unsent, delivered⟩ : ∃ net : Net 3,
      Machine.run (Net.step 1 {2}) {} [.start 0, .forge 2 0 (.Ready 4), .forge 2 0 (.Ready 4), .receive 0 2 true,
        .receive 0 2 true] = some net ∧ .Initial 4 ∉ (net.nodes 1).broadcasts ∧ 4 ∈ (net.nodes 0).msgs_delivered := by
    refine ⟨_, rfl, ?_, ?_⟩ <;> decide
  exact ⟨by decide, net, ⟨_, ran⟩, by decide, by decide, unsent, delivered⟩

end NetworkSimulator.Bracha
