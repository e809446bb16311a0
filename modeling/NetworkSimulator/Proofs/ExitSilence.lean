import NetworkSimulator.Bracha.Cluster
import NetworkSimulator.Proofs.NetworkRounds

/-! Networks of up to three processes. A process can leave only with the Ready
of every other one for every value, so those still running have nothing left
to broadcast and never meet a closed stream. -/

namespace NetworkSimulator.Bracha
variable {process_number number_of_msg_per_process : Nat}

theorem card_msg_values_le (set : Finset MsgValueType) : set.card ≤ 2 ^ 32 := by
  have bounded := Fintype.card_le_of_injective (fun value : MsgValueType => value.toBitVec.toFin) fun _ _ same =>
    Int32.toBitVec_inj.mp (BitVec.eq_of_toFin_eq same)
  rw [Fintype.card_fin] at bounded
  exact set.card_le_univ.trans bounded

/-- No value is echoed or readied twice. -/
theorem Node.Valid.sent_once {config : Config} {node : Node} (valid : node.Valid config) (value : MsgValueType) :
    node.broadcasts.count (.Echo value) ≤ 1 ∧ node.broadcasts.count (.Ready value) ≤ 1 := by
  have echo : node.broadcasts.count (.Echo value) = if node.msgs_states value = none then 0 else 1 :=
    (valid.ledgers value).echo_sent
  have ready : node.broadcasts.count (.Ready value) = if node.msgs_states value = some .SentReady then 1 else 0 :=
    (valid.ledgers value).ready_sent
  constructor
  · rw [echo]
    split <;> omega
  · rw [ready]
    split <;> omega

theorem Node.Valid.unechoed {config : Config} {node : Node} (valid : node.Valid config) {value : MsgValueType}
    (unheard : node.msgs_states value = none) : .Echo value ∉ node.broadcasts := by
  have echo : node.broadcasts.count (.Echo value) = if node.msgs_states value = none then 0 else 1 :=
    (valid.ledgers value).echo_sent
  rw [if_pos unheard] at echo
  exact List.count_eq_zero.mp echo

theorem Node.Valid.readied {config : Config} {node : Node} (valid : node.Valid config) {value : MsgValueType}
    (ready : node.msgs_states value = some .SentReady) :
    node.broadcasts.count (.Echo value) = 1 ∧ node.broadcasts.count (.Ready value) = 1 := by
  have echo : node.broadcasts.count (.Echo value) = if node.msgs_states value = none then 0 else 1 :=
    (valid.ledgers value).echo_sent
  have readySent : node.broadcasts.count (.Ready value) = if node.msgs_states value = some .SentReady then 1 else 0 :=
    (valid.ledgers value).ready_sent
  simp [echo, readySent, ready]

namespace Net

/-- What an exit in a small network says about everybody else. -/
theorem Valid.exit_readied {net : Net process_number} (valid : net.Valid number_of_msg_per_process ∅) (silent : net.Silent)
    (genuine : net.Genuine) (many : 2 ≤ process_number) (small : process_number ≤ 3) (rounds : 1 ≤ number_of_msg_per_process)
    (unwrapped : number_of_msg_per_process * process_number < 2 ^ 64) {p k : Fin process_number} (left : net.left p = true)
    (other : k ≠ p) {value : MsgValueType}
    (numbered : value ∈ values number_of_msg_per_process (∅ : Finset (Fin process_number))) :
    (net.nodes k).msgs_states value = some .SentReady := by
  rw [← valid.left_delivered silent genuine rounds unwrapped left] at numbered
  have received : max 1 (2 * (process_number / 3)) ≤ ((net.nodes p).ledger value).readies :=
    (valid.ledger p value).delivered_iff.mp numbered
  have origins : ((net.nodes p).ledger value).readies ≤ net.sentTo (· == .Ready value) p +
      (net.forged p).countP (· == .Ready value) := valid.handled_le _
  rw [valid.sentTo_ready, silent p, List.countP_nil] at origins
  have everyone : (net.readiers value).erase p = Finset.univ.erase p := by
    apply Finset.eq_of_subset_of_card_le (Finset.erase_subset_erase p (Finset.subset_univ _))
    rw [Finset.card_erase_of_mem (Finset.mem_univ p), Finset.card_univ, Fintype.card_fin]
    omega
  have member : k ∈ (net.readiers value).erase p := by simp [everyone, other]
  exact mem_readiers.mp (Finset.mem_of_mem_erase member)

/-- After an exit in a small network no step broadcasts anything. -/
theorem Step.silent_after_exit {net next : Net process_number} {action : Action process_number}
    (taken : Step number_of_msg_per_process ∅ net action next) (valid : net.Valid number_of_msg_per_process ∅)
    (silent : net.Silent) (genuine : net.Genuine) (many : 2 ≤ process_number) (small : process_number ≤ 3)
    (rounds : 1 ≤ number_of_msg_per_process) (fits : number_of_msg_per_process * process_number ≤ 2 ^ 32)
    {p k : Fin process_number} (left : net.left p = true) (other : k ≠ p) :
    (next.nodes k).broadcasts = (net.nodes k).broadcasts := by
  have later := valid.step taken
  obtain ⟨output, extended⟩ := taken.broadcasts k
  cases output with
  | nil => rw [← extended, List.append_nil]
  | cons out rest =>
    have sent : out ∈ (next.nodes k).broadcasts := by simp [← extended]
    have numbered : out.value ∈ values number_of_msg_per_process ∅ :=
      later.announced_mem rounds (genuine.step valid silent taken k out sent)
    have before := (valid.nodes k).readied (valid.exit_readied silent genuine many small rounds (by omega) left other numbered)
    have after := (later.nodes k).sent_once out.value
    rw [← extended] at after
    cases out with
    | Echo value =>
      simp only [Msg.value, List.count_append, List.count_cons_self] at before after
      omega
    | Ready value =>
      simp only [Msg.value, List.count_append, List.count_cons_self] at before after
      omega
    | Initial value =>
      have position := valid.last_round_begun silent genuine rounds fits (Finset.notMem_empty k)
        (valid.left_delivered silent genuine rounds (by omega) left)
      have bounded : (next.nodes k).current_msg_id_to_send ≤ max 1 number_of_msg_per_process + 1 := (later.nodes k).bounded
      have longer := congrArg List.length (later.nodes k).initials
      have earlier := congrArg List.length (valid.nodes k).initials
      rw [← extended, initialValues_append] at longer
      simp only [List.length_append, List.length_map, List.length_range'] at longer earlier
      have nonempty : 1 ≤ (initialValues (.Initial value :: rest)).length := by simp [initialValues]
      omega

end Net

/-- Where nobody can meet a closed stream, a cluster is a network. -/
theorem Cluster.reachable_small {cluster : Cluster process_number}
    (reached : Machine.Reachable (Cluster.step number_of_msg_per_process) {} cluster) (many : 2 ≤ process_number)
    (rounds : 1 ≤ number_of_msg_per_process)
    (safe : process_number ≤ 3 ∧ number_of_msg_per_process * process_number < 2 ^ 64 ∨
      2 ^ 32 < number_of_msg_per_process * process_number % 2 ^ 64) :
    (∀ i, cluster.panicked i = false) ∧ Reachable number_of_msg_per_process ∅ cluster.net := by
  refine Machine.Reachable.invariant (fun cluster => (∀ i, cluster.panicked i = false) ∧
    Reachable number_of_msg_per_process ∅ cluster.net) reached ⟨fun _ => rfl, [], rfl⟩ ?_
  intro state event next kept taken
  obtain ⟨calm, plain⟩ := kept
  cases event with
  | act action =>
    simp only [Cluster.step, calm, Bool.false_eq_true, if_false, Option.map_eq_some_iff] at taken
    obtain ⟨net, advanced, rfl⟩ := taken
    obtain ⟨actions, ran⟩ := plain
    exact ⟨calm, ⟨_, Machine.run_snoc ran advanced⟩⟩
  | fail action written reachedPeers =>
    simp only [Cluster.step, calm, Bool.false_eq_true, if_false, Option.bind_eq_bind, Option.bind_eq_some_iff] at taken
    obtain ⟨net, advanced, msg, written, failed⟩ := taken
    split at failed
    next closed =>
      obtain ⟨q, other, gone, _⟩ := closed
      have left : state.net.left q = true := by simpa [Cluster.closed, calm] using gone
      have valid := plain.valid
      have exited := valid.exited q left
      have bounded := card_msg_values_le (state.net.nodes q).msgs_delivered
      obtain ⟨small, unwrapped⟩ : process_number ≤ 3 ∧ number_of_msg_per_process * process_number < 2 ^ 64 :=
        safe.resolve_right (by omega)
      rw [Nat.mod_eq_of_lt unwrapped] at exited
      have fits : number_of_msg_per_process * process_number ≤ 2 ^ 32 := by omega
      have silent := plain.silent
      have quiet := (Net.step_iff.mp advanced).silent_after_exit valid silent (plain.genuine silent) many small rounds fits
        left (Ne.symm other)
      simp [quiet] at written
    next => cases failed

end NetworkSimulator.Bracha
