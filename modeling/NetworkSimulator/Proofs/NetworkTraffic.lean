import NetworkSimulator.Bracha.Network
import NetworkSimulator.Proofs.NodeSending

/-! Conservation of messages. Whatever a process has handled or is about to
read was broadcast by another process or forged by a faulty one, and nothing is
lost or repeated on the way. -/

namespace NetworkSimulator.Bracha
variable {process_number : Nat} {number_of_msg_per_process : Nat} {faulty : Finset (Fin process_number)}

namespace Net

/-- Everything a step can do. -/
inductive Step (number_of_msg_per_process : Nat) (faulty : Finset (Fin process_number)) (net : Net process_number) :
    Action process_number → Net process_number → Prop where
  | start {i} (correct : i ∉ faulty) (running : net.left i = false) (first : (net.nodes i).current_msg_id_to_send = 1) :
      Step number_of_msg_per_process faulty net (.start i)
        (net.advance i ((net.nodes i).sendInitial (processConfig number_of_msg_per_process i)))
  | receive {i j last msg rest node} (correct : i ∉ faulty) (running : net.left i = false)
      (started : (net.nodes i).current_msg_id_to_send ≠ 1) (head : net.channels j i = msg :: rest)
      (handled : (net.nodes i).handle (processConfig number_of_msg_per_process i) msg = some node) :
      Step number_of_msg_per_process faulty net (.receive i j last)
        (((net.consume j i rest).advance i node).endPass i
          (last && node.finished (processConfig number_of_msg_per_process i)))
  | forge {f i msg} (byzantine : f ∈ faulty) : Step number_of_msg_per_process faulty net (.forge f i msg) (net.forge f i msg)

theorem step_iff {net next : Net process_number} {action : Action process_number} :
    net.step number_of_msg_per_process faulty action = some next ↔ Step number_of_msg_per_process faulty net action next := by
  constructor
  · intro taken
    cases action with
    | start i =>
      simp only [step] at taken
      split at taken
      next guard => cases taken; exact .start guard.1 guard.2.1 guard.2.2
      next => cases taken
    | receive i j last =>
      simp only [step] at taken
      split at taken
      next guard =>
        cases head : net.channels j i with
        | nil => simp [head] at taken
        | cons msg rest =>
          simp only [head, Option.bind_eq_bind, Option.bind_eq_some_iff] at taken
          obtain ⟨node, handled, same⟩ := taken
          cases same
          exact .receive guard.1 guard.2.1 guard.2.2 head handled
      next => cases taken
    | forge f i msg =>
      simp only [step] at taken
      split at taken
      next guard => cases taken; exact .forge guard
      next => cases taken
  · intro taken
    cases taken with
    | start correct running first => simp [step, correct, running, first]
    | receive correct running started head handled => simp [step, correct, running, started, head, handled]
    | forge byzantine => simp [step, byzantine]

/-- What the other processes have broadcast so far, as seen by `i`. -/
def sentTo (net : Net process_number) (selected : Msg → Bool) (i : Fin process_number) : Nat :=
  ∑ j ∈ Finset.univ.erase i, (net.nodes j).broadcasts.countP selected

structure Valid (number_of_msg_per_process : Nat) (faulty : Finset (Fin process_number)) (net : Net process_number) : Prop where
  nodes : ∀ i, (net.nodes i).Valid (processConfig number_of_msg_per_process i)
  idle : ∀ f ∈ faulty, net.nodes f = {}
  conserved : ∀ i selected, (net.nodes i).handled.countP selected + Mesh.inFlight net.channels Finset.univ selected i =
    net.sentTo selected i + (net.forged i).countP selected
  authentic : ∀ i selected, Mesh.inFlight net.channels faulty selected i ≤ (net.forged i).countP selected
  exited : ∀ i, net.left i = true → (net.nodes i).msgs_delivered.card = number_of_msg_per_process * process_number % 2 ^ 64

theorem Valid.initial : Valid number_of_msg_per_process faulty ({} : Net process_number) := by
  refine ⟨fun i => .initial _, fun _ _ => rfl, fun i selected => ?_, fun i selected => ?_,
    fun i left => by cases left⟩
  all_goals simp [sentTo, Mesh.inFlight]

theorem sentTo_advance {net : Net process_number} {i : Fin process_number} {node : Node}
    (appended : (net.nodes i).broadcasts <+: node.broadcasts) (selected : Msg → Bool) (k : Fin process_number) :
    (net.advance i node).sentTo selected k = net.sentTo selected k +
      if k = i then 0 else (node.broadcasts.drop (net.nodes i).broadcasts.length).countP selected := by
  obtain ⟨written, extended⟩ := appended
  by_cases same : k = i
  · subst same
    rw [if_pos rfl, Nat.add_zero]
    apply Finset.sum_congr rfl
    intro j member
    simp [advance, Finset.ne_of_mem_erase member]
  · have inside : i ∈ Finset.univ.erase k := Finset.mem_erase.mpr ⟨Ne.symm same, Finset.mem_univ i⟩
    rw [if_neg same]
    refine Mesh.sum_changed inside ?_ fun j different => by simp [advance, different]
    simp [advance, ← extended, List.countP_append]

/-- The accounting of one process becoming another node, having just handled
`taken` messages that are no longer on its streams. -/
private theorem conserved_advance {before net : Net process_number} {i : Fin process_number} {node : Node} (taken : List Msg)
    (handled : node.handled = (before.nodes i).handled ++ taken)
    (appended : (before.nodes i).broadcasts <+: node.broadcasts)
    (nodes : net.nodes = before.nodes) (forged : net.forged = before.forged)
    (moved : ∀ k selected, Mesh.inFlight before.channels Finset.univ selected k =
      Mesh.inFlight net.channels Finset.univ selected k + if k = i then taken.countP selected else 0)
    (conserved : ∀ k selected, (before.nodes k).handled.countP selected +
      Mesh.inFlight before.channels Finset.univ selected k = before.sentTo selected k + (before.forged k).countP selected)
    (k : Fin process_number) (selected : Msg → Bool) :
    ((net.advance i node).nodes k).handled.countP selected +
      Mesh.inFlight (net.advance i node).channels Finset.univ selected k =
      (net.advance i node).sentTo selected k + ((net.advance i node).forged k).countP selected := by
  have balance := conserved k selected
  have traffic := moved k selected
  have sent : net.sentTo selected k = before.sentTo selected k := by simp only [sentTo, nodes]
  rw [sentTo_advance (by rwa [nodes])]
  simp only [advance, Mesh.inFlight_post, sent, forged]
  by_cases same : k = i
  · subst same
    simp only [if_true, Function.update_self, handled, List.countP_append, ne_eq, not_true, false_and, if_false] at traffic ⊢
    omega
  · simp only [same, if_false, Function.update_of_ne, ne_eq, not_false_eq_true, nodes, Finset.mem_univ, and_self,
      if_true] at traffic ⊢
    omega

theorem Valid.step {net next : Net process_number} {action : Action process_number}
    (valid : net.Valid number_of_msg_per_process faulty)
    (taken : Step number_of_msg_per_process faulty net action next) : next.Valid number_of_msg_per_process faulty := by
  cases taken with
  | @start i correct running first =>
    refine ⟨fun k => ?_, fun f member => ?_, ?_, fun k selected => ?_, fun k left => ?_⟩
    · by_cases same : k = i
      · subst same
        simpa only [advance, Function.update_self] using (valid.nodes k).sendInitial first
      · simpa only [advance, Function.update_of_ne same] using valid.nodes k
    · have different : f ≠ i := fun same => correct (same ▸ member)
      simpa only [advance, Function.update_of_ne different] using valid.idle f member
    · exact conserved_advance [] (by simp [Node.sendInitial, Node.broadcast]) (List.prefix_append _ _) rfl rfl
        (by simp) valid.conserved
    · simpa [advance, Mesh.inFlight_post, correct] using valid.authentic k selected
    · have different : k ≠ i := fun same => by simp [advance, same, running] at left
      simpa only [advance, Function.update_of_ne different] using valid.exited k left
  | @receive i j last msg rest node correct running started head handled =>
    refine ⟨fun k => ?_, fun f member => ?_, ?_, fun k selected => ?_, fun k left => ?_⟩
    · by_cases same : k = i
      · subst same
        simpa only [endPass, advance, Function.update_self] using (valid.nodes k).handle handled
      · simpa only [endPass, advance, consume, Function.update_of_ne same] using valid.nodes k
    · have different : f ≠ i := fun same => correct (same ▸ member)
      simpa only [endPass, advance, consume, Function.update_of_ne different] using valid.idle f member
    · refine conserved_advance [msg] (Node.handle_handled handled) (Node.handle_appended handled) rfl rfl
        (fun k selected => ?_) valid.conserved
      rw [Mesh.inFlight_take _ _ head]
      by_cases same : k = i <;> simp [same, consume, List.countP_singleton]
    · have fewer := Mesh.inFlight_take faulty selected head k
      have bounded := valid.authentic k selected
      simp only [endPass, advance, consume, Mesh.inFlight_post, correct, and_false, if_false]
      omega
    · by_cases same : k = i
      · subst same
        have finished : last = true ∧ node.finished (processConfig number_of_msg_per_process k) = true := by
          simpa [endPass, advance, consume, running] using left
        simpa [endPass, advance, Node.finished, processConfig] using finished.2
      · have before : net.left k = true := by simpa [endPass, advance, consume, same] using left
        simpa [endPass, advance, consume, same] using valid.exited k before
  | @forge f i msg byzantine =>
    have forged (k : Fin process_number) (selected : Msg → Bool) : ((net.forge f i msg).forged k).countP selected =
        (net.forged k).countP selected + if k = i ∧ selected msg then 1 else 0 := by
      by_cases same : k = i
      · subst same; simp [forge, List.countP_singleton]
      · simp [forge, same]
    refine ⟨valid.nodes, valid.idle, fun k selected => ?_, fun k selected => ?_, valid.exited⟩
    · have balance := valid.conserved k selected
      have sent : (net.forge f i msg).sentTo selected k = net.sentTo selected k := rfl
      rw [forged, sent]
      simp only [forge, Mesh.inFlight_push, Finset.mem_univ, true_and]
      omega
    · have bounded := valid.authentic k selected
      rw [forged]
      simp only [forge, Mesh.inFlight_push, byzantine, true_and]
      omega

end Net

theorem Reachable.valid {net : Net process_number} (reached : Reachable number_of_msg_per_process faulty net) :
    net.Valid number_of_msg_per_process faulty :=
  Machine.Reachable.invariant _ reached Net.Valid.initial fun _ _ _ valid taken => valid.step (Net.step_iff.mp taken)

end NetworkSimulator.Bracha
