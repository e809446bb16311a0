import NetworkSimulator.Proofs.NetworkQuorums

/-! Correct processes cannot keep each other busy for ever. Every broadcast is
paid from a finite budget, so any set of processes can be run until it has
nothing left to read. -/

namespace NetworkSimulator.Bracha
variable {process_number : Nat} {number_of_msg_per_process : Nat} {faulty : Finset (Fin process_number)}

/-- Steps of the chosen processes, all with or all without an exit test after
each message. -/
def Drives (active : Fin process_number → Prop) (exits : Bool) : Action process_number → Prop
  | .start i => active i
  | .receive i _ last => active i ∧ last = exits
  | .forge _ _ _ => False

namespace Net

noncomputable def potential (number_of_msg_per_process : Nat) (net : Net process_number) : Nat :=
  ∑ i, Mesh.inFlight net.channels Finset.univ (fun _ => true) i +
    process_number * ∑ i, (net.nodes i).budget (processConfig number_of_msg_per_process i)

private theorem budget_advance {net : Net process_number} {i : Fin process_number} {node : Node}
    (appended : (net.nodes i).broadcasts <+: node.broadcasts)
    (spent : node.broadcasts.length + node.budget (processConfig number_of_msg_per_process i) =
      (net.nodes i).broadcasts.length + (net.nodes i).budget (processConfig number_of_msg_per_process i)) :
    ∑ k, (net.nodes k).budget (processConfig number_of_msg_per_process k) =
      ∑ k, ((net.advance i node).nodes k).budget (processConfig number_of_msg_per_process k) +
        (node.broadcasts.drop (net.nodes i).broadcasts.length).length := by
  refine Mesh.sum_changed (Finset.mem_univ i) ?_ fun k different => by simp [advance, different]
  have longer := appended.length_le
  simp only [advance, Function.update_self, List.length_drop]
  omega

/-- Broadcasting to all others costs the budget at least what it adds to the load. -/
private theorem potential_advance (net : Net process_number) {i : Fin process_number} {node : Node}
    (appended : (net.nodes i).broadcasts <+: node.broadcasts)
    (spent : node.broadcasts.length + node.budget (processConfig number_of_msg_per_process i) =
      (net.nodes i).broadcasts.length + (net.nodes i).budget (processConfig number_of_msg_per_process i)) :
    (net.advance i node).potential number_of_msg_per_process +
      (node.broadcasts.drop (net.nodes i).broadcasts.length).length ≤ net.potential number_of_msg_per_process := by
  have paid := budget_advance appended spent
  have load := Mesh.load_post net.channels (fun _ => true) i
    (node.broadcasts.drop (net.nodes i).broadcasts.length)
  simp only [List.countP_true, Fintype.card_fin] at load
  have same : (net.advance i node).channels =
      Mesh.post net.channels i (node.broadcasts.drop (net.nodes i).broadcasts.length) := rfl
  unfold potential
  rw [paid, Nat.mul_add, same]
  omega

theorem Step.potential_lt {net next : Net process_number} {action : Action process_number}
    {active : Fin process_number → Prop} {exits : Bool} (driven : Drives active exits action)
    (taken : Step number_of_msg_per_process faulty net action next) :
    next.potential number_of_msg_per_process < net.potential number_of_msg_per_process := by
  cases taken with
  | @start i correct running first =>
    have paid := potential_advance net (List.prefix_append _ _)
      (Node.start_spent (processConfig number_of_msg_per_process i) first)
    simp only [Node.sendInitial, Node.broadcast, List.drop_left, List.length_singleton] at paid
    exact paid
  | @receive i j last msg rest node correct running started head handled =>
    have paid := potential_advance (net.consume j i rest)
      (Node.handle_appended handled) (Node.handle_spent handled)
    have consumed : net.potential number_of_msg_per_process =
        (net.consume j i rest).potential number_of_msg_per_process + 1 := by
      have load := Mesh.load_take (fun _ => true) head rfl
      simp only [potential, consume, load]
      omega
    have same : (((net.consume j i rest).advance i node).endPass i
        (last && node.finished (processConfig number_of_msg_per_process i))).potential number_of_msg_per_process =
        ((net.consume j i rest).advance i node).potential number_of_msg_per_process := rfl
    omega
  | forge byzantine => exact False.elim driven

theorem Step.forged_driven {net next : Net process_number} {action : Action process_number}
    {active : Fin process_number → Prop} {exits : Bool} (driven : Drives active exits action)
    (taken : Step number_of_msg_per_process faulty net action next) (i : Fin process_number) :
    next.forged i = net.forged i := by
  cases taken with
  | start | receive => rfl
  | forge => exact False.elim driven

theorem Step.left_driven {net next : Net process_number} {action : Action process_number}
    {active : Fin process_number → Prop} (driven : Drives active false action)
    (taken : Step number_of_msg_per_process faulty net action next) (i : Fin process_number) : next.left i = net.left i := by
  cases taken with
  | start => rfl
  | @receive k j last msg rest node correct active started head handled =>
    have same : last = false := driven.2
    subst same
    simp [endPass, advance, consume]
  | forge => exact False.elim driven

/-- Without exit tests nobody leaves. -/
theorem left_driven_run (active : Fin process_number → Prop) {net final : Net process_number}
    {actions : List (Action process_number)} (driven : ∀ action ∈ actions, Drives active false action)
    (ran : Machine.run (Net.step number_of_msg_per_process faulty) net actions = some final) (i : Fin process_number) :
    final.left i = net.left i := by
  induction actions generalizing net with
  | nil =>
    cases ran
    rfl
  | cons action rest ih =>
    obtain ⟨middle, taken, later⟩ := (Machine.run_cons_iff _).mp ran
    rw [ih (fun other member => driven other (List.mem_cons_of_mem _ member)) later]
    exact (step_iff.mp taken).left_driven (driven action List.mem_cons_self) i

/-- What is left when the chosen processes have nothing to do. -/
def Settled (active : Fin process_number → Prop) (faulty : Finset (Fin process_number)) (net : Net process_number) : Prop :=
  ∀ i, active i → i ∉ faulty →
    net.left i = true ∨ (net.nodes i).current_msg_id_to_send ≠ 1 ∧ ∀ j, net.channels j i = []

theorem settled_of_stuck {net : Net process_number} {active : Fin process_number → Prop} {exits : Bool}
    (stuck : ∀ action, Drives active exits action → net.step number_of_msg_per_process faulty action = none) :
    net.Settled active faulty := by
  intro i chosen correct
  by_cases left : net.left i = true
  · exact Or.inl left
  have running : net.left i = false := Bool.eq_false_iff.mpr left
  have started : (net.nodes i).current_msg_id_to_send ≠ 1 := by
    intro first
    have none := stuck (.start i) chosen
    rw [step_iff.mpr (.start correct running first)] at none
    cases none
  refine Or.inr ⟨started, fun j => ?_⟩
  cases head : net.channels j i with
  | nil => rfl
  | cons msg rest =>
    obtain ⟨node, handled⟩ := Node.handle_total (processConfig number_of_msg_per_process i) (net.nodes i) msg
    have none := stuck (.receive i j exits) ⟨chosen, rfl⟩
    rw [step_iff.mpr (.receive correct running started head handled)] at none
    cases none

/-- Running the chosen processes alone ends with each of them having left its
loop or read everything, and keeps any invariant of their steps. -/
theorem quiesce (number_of_msg_per_process : Nat) (faulty : Finset (Fin process_number))
    (active : Fin process_number → Prop) (exits : Bool) (holds : Net process_number → Prop)
    (preserved : ∀ net action next, Drives active exits action → holds net →
      Step number_of_msg_per_process faulty net action next → holds next)
    (net : Net process_number) (start : holds net) :
    ∃ actions final, (∀ action ∈ actions, Drives active exits action) ∧
      Machine.run (Net.step number_of_msg_per_process faulty) net actions = some final ∧ holds final ∧
        final.Settled active faulty := by
  obtain ⟨actions, final, driven, ran, kept, stuck⟩ :=
    Machine.exhaust (Net.step number_of_msg_per_process faulty) (Drives active exits)
      (potential number_of_msg_per_process)
      (fun state action next chosen prior taken => preserved state action next chosen prior (step_iff.mp taken))
      (fun state action next chosen _ taken => (step_iff.mp taken).potential_lt chosen) net start
  exact ⟨actions, final, driven, ran, kept, settled_of_stuck stuck⟩

end Net
end NetworkSimulator.Bracha
