import NetworkSimulator.Proofs.NetworkQuiescence
import NetworkSimulator.Proofs.NetworkRounds

/-! What forged messages can and cannot do. A value nobody broadcast stays
unheard of wherever the forged copies remain below the thresholds. A process
accepts any number of copies of one message from the same faulty peer. -/

namespace NetworkSimulator.Bracha
variable {process_number number_of_msg_per_process : Nat} {faulty : Finset (Fin process_number)}

namespace Net

theorem Step.forged {net next : Net process_number} {action : Action process_number}
    (taken : Step number_of_msg_per_process faulty net action next) (k : Fin process_number) :
    net.forged k <+: next.forged k := by
  cases taken with
  | start | receive => exact List.prefix_rfl
  | @forge f i msg byzantine =>
    by_cases same : k = i
    · subst same
      simpa only [Net.forge, Function.update_self] using List.prefix_append _ _
    · simp [Net.forge, same]

theorem Step.handled {net next : Net process_number} {action : Action process_number}
    (taken : Step number_of_msg_per_process faulty net action next) (k : Fin process_number) :
    (net.nodes k).handled <+: (next.nodes k).handled := by
  cases taken with
  | @start i correct running first =>
    by_cases same : k = i
    · subst same
      simp [advance, Node.sendInitial, Node.broadcast]
    · simp [advance, same]
  | @receive i j last msg rest node correct running started head handled =>
    by_cases same : k = i
    · subst same
      simpa only [endPass, advance, Function.update_self, Node.handle_handled handled] using List.prefix_append _ _
    · simp [endPass, advance, consume, same]
  | forge byzantine => exact List.prefix_rfl

/-- A delivered value stays delivered: deliveries are a count of what was handled. -/
theorem Valid.delivered_mono {net next : Net process_number} (valid : net.Valid number_of_msg_per_process faulty)
    (later : next.Valid number_of_msg_per_process faulty) {i : Fin process_number} {value : MsgValueType}
    (handled : (net.nodes i).handled <+: (next.nodes i).handled) (delivered : value ∈ (net.nodes i).msgs_delivered) :
    value ∈ (next.nodes i).msgs_delivered := by
  have received := (valid.ledger i value).delivered_iff.mp delivered
  have more : (net.nodes i).handled.count (.Ready value) ≤ (next.nodes i).handled.count (.Ready value) :=
    handled.sublist.count_le _
  exact (later.ledger i value).delivered_iff.mpr (received.trans more)

/-- Nobody has broadcast the value, and what was forged about it stays below
each threshold. The processes set aside may say anything once. -/
structure Unsupported (net : Net process_number) (faulty aside : Finset (Fin process_number)) (value : MsgValueType) : Prop where
  unannounced : ∀ owner, .Initial value ∉ (net.nodes owner).broadcasts
  initials : ∀ k, k ∉ faulty → k ∉ aside → .Initial value ∉ net.forged k
  echoes : ∀ k, k ∉ faulty → k ∉ aside →
    (net.forged k).count (.Echo value) + aside.card < max 1 ((process_number + process_number / 3) / 2)
  readies : ∀ k, k ∉ faulty → k ∉ aside → (net.forged k).count (.Ready value) + aside.card ≤ process_number / 3

theorem Step.unsupported {net next : Net process_number} {action : Action process_number}
    {aside : Finset (Fin process_number)} {value : MsgValueType}
    (taken : Step number_of_msg_per_process faulty net action next) (unsupported : next.Unsupported faulty aside value) :
    net.Unsupported faulty aside value := by
  constructor
  · intro owner sent
    exact unsupported.unannounced owner ((taken.broadcasts owner).subset sent)
  · intro k correct other member
    exact unsupported.initials k correct other ((taken.forged k).subset member)
  · intro k correct other
    have fewer := (taken.forged k).sublist.count_le (.Echo value)
    have bounded := unsupported.echoes k correct other
    omega
  · intro k correct other
    have fewer := (taken.forged k).sublist.count_le (.Ready value)
    have bounded := unsupported.readies k correct other
    omega

/-- One process cannot be the first outside `aside` to take up the value. -/
private theorem Valid.unheard {net : Net process_number} (valid : net.Valid number_of_msg_per_process faulty)
    {aside : Finset (Fin process_number)} {value : MsgValueType} (unsupported : net.Unsupported faulty aside value)
    {k : Fin process_number} (other : k ∉ aside)
    (unheard : ∀ j, j ≠ k → j ∉ aside → (net.nodes j).msgs_states value = none) :
    (net.nodes k).msgs_states value = none := by
  by_cases correct : k ∈ faulty
  · simp [valid.idle k correct]
  apply Classical.byContradiction
  intro heard
  have within : (net.echoers value).erase k ⊆ aside := by
    intro j member
    obtain ⟨different, echoed⟩ := Finset.mem_erase.mp member
    apply Classical.byContradiction
    intro outside
    exact mem_echoers.mp echoed (unheard j different outside)
  have ready_within : (net.readiers value).erase k ⊆ aside := by
    intro j member
    obtain ⟨different, ready⟩ := Finset.mem_erase.mp member
    exact within (Finset.mem_erase.mpr ⟨different, mem_echoers.mpr (by simp [mem_readiers.mp ready])⟩)
  have initials : ((net.nodes k).ledger value).initials ≤ net.sentTo (· == .Initial value) k +
      (net.forged k).count (.Initial value) := valid.handled_le _
  have echoes : ((net.nodes k).ledger value).echoes ≤ net.sentTo (· == .Echo value) k +
      (net.forged k).count (.Echo value) := valid.handled_le _
  have readies : ((net.nodes k).ledger value).readies ≤ net.sentTo (· == .Ready value) k +
      (net.forged k).count (.Ready value) := valid.handled_le _
  have silent : net.sentTo (· == .Initial value) k = 0 := by
    refine Finset.sum_eq_zero fun j _ => List.countP_eq_zero.mpr fun msg sent same => ?_
    exact unsupported.unannounced j (beq_iff_eq.mp same ▸ sent)
  rw [silent, List.count_eq_zero.mpr (unsupported.initials k correct other)] at initials
  rw [valid.sentTo_echo] at echoes
  rw [valid.sentTo_ready] at readies
  have few_echoes := unsupported.echoes k correct other
  have few_readies := unsupported.readies k correct other
  have echo_card := Finset.card_le_card within
  have ready_card := Finset.card_le_card ready_within
  rcases (valid.ledger k value).echoed_because heard with initial | quorum | amplified
  all_goals omega

theorem Step.nodes_other {net next : Net process_number} {action : Action process_number}
    (taken : Step number_of_msg_per_process faulty net action next) :
    ∃ i, ∀ j, j ≠ i → next.nodes j = net.nodes j := by
  cases taken with
  | @start i correct running first =>
    exact ⟨i, fun j different => by simp [advance, different]⟩
  | @receive i j last msg rest node correct running started head handled =>
    exact ⟨i, fun k different => by simp [endPass, advance, consume, different]⟩
  | @forge f i msg byzantine => exact ⟨i, fun _ _ => rfl⟩

end Net

/-- Without support a value is unheard of in the whole run. -/
theorem Reachable.unheard {net : Net process_number} (reached : Reachable number_of_msg_per_process faulty net)
    {aside : Finset (Fin process_number)} {value : MsgValueType} (unsupported : net.Unsupported faulty aside value)
    (k : Fin process_number) (other : k ∉ aside) : (net.nodes k).msgs_states value = none := by
  obtain ⟨actions, ran⟩ := reached
  refine Machine.run_history (fun _ net => net.Unsupported faulty aside value →
      ∀ k, k ∉ aside → (net.nodes k).msgs_states value = none) (fun _ _ _ => rfl) ?_ actions net ran unsupported k other
  intro past state action next before prior taken unsupported
  have step := Net.step_iff.mp taken
  have earlier := prior (step.unsupported unsupported)
  have valid : next.Valid number_of_msg_per_process faulty := Reachable.valid ⟨_, Machine.run_snoc before taken⟩
  obtain ⟨i, others⟩ := step.nodes_other
  have unmoved (j : Fin process_number) (different : j ≠ i) (outside : j ∉ aside) :
      (next.nodes j).msgs_states value = none := by
    rw [others j different]
    exact earlier j outside
  intro k outside
  by_cases same : k = i
  · subst same
    exact valid.unheard unsupported outside unmoved
  · exact unmoved k same outside

namespace Net

/-- What a faulty peer achieves by repeating itself: the process handles every
copy, and nothing else moves. -/
theorem inject (number_of_msg_per_process : Nat) (net : Net process_number) {f i : Fin process_number} (byzantine : f ∈ faulty)
    (correct : i ∉ faulty)
    (running : net.left i = false) (started : 2 ≤ (net.nodes i).current_msg_id_to_send) (empty : net.channels f i = [])
    (msg : Msg) (copies : Nat) :
    ∃ actions final, Machine.run (Net.step number_of_msg_per_process faulty) net actions = some final ∧
      (final.nodes i).handled = (net.nodes i).handled ++ List.replicate copies msg ∧
      final.forged = Function.update net.forged i (net.forged i ++ List.replicate copies msg) ∧
      (∀ k, k ≠ i → final.nodes k = net.nodes k) ∧ final.left = net.left := by
  induction copies generalizing net with
  | zero => exact ⟨[], net, rfl, by simp, by simp, fun _ _ => rfl, rfl⟩
  | succ copies ih =>
    obtain ⟨node, handled⟩ := Node.handle_total (processConfig number_of_msg_per_process i) (net.nodes i) msg
    have different : f ≠ i := fun same => correct (same ▸ byzantine)
    have forged : net.step number_of_msg_per_process faulty (.forge f i msg) = some (net.forge f i msg) :=
      step_iff.mpr (.forge byzantine)
    have head : (net.forge f i msg).channels f i = msg :: [] := by simp [Net.forge, Mesh.push, empty]
    have begun : ((net.forge f i msg).nodes i).current_msg_id_to_send ≠ 1 := Nat.ne_of_gt started
    have received := step_iff.mpr (@Step.receive _ number_of_msg_per_process faulty (net.forge f i msg) i f false msg [] node
      correct running begun head handled)
    have advanced : 2 ≤ node.current_msg_id_to_send := by
      cases Node.handle_moved handled with
      | stayed current => exact current ▸ started
      | released current => omega
    have drained : Mesh.post (Mesh.take (net.forge f i msg).channels f i []) i
        (node.broadcasts.drop (net.nodes i).broadcasts.length) f i = [] := by
      simp [Mesh.post, Mesh.take, different]
    obtain ⟨actions, final, ran, more, recorded, others, left⟩ := ih
      ((((net.forge f i msg).consume f i []).advance i node).endPass i false) (by simpa [endPass, advance, consume, Net.forge] using running)
      (by simpa [endPass, advance] using advanced) drained
    have taken : Machine.run (Net.step number_of_msg_per_process faulty) net
        (.forge f i msg :: .receive i f false :: actions) = some final :=
      (Machine.run_cons_iff _).mpr ⟨_, forged, (Machine.run_cons_iff _).mpr ⟨_, received, ran⟩⟩
    refine ⟨_, final, taken, ?_, ?_, fun k other => ?_, ?_⟩
    · rw [more]
      simp [endPass, advance, Node.handle_handled handled, List.replicate_succ]
    · rw [recorded]
      simp [endPass, advance, consume, Net.forge, List.replicate_succ]
    · rw [others k other]
      simp [endPass, advance, consume, Net.forge, other]
    · rw [left]
      simp [endPass, advance, consume, Net.forge]

end Net
end NetworkSimulator.Bracha
