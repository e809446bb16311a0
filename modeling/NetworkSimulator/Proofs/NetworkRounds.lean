import NetworkSimulator.Proofs.NetworkGenuine

/-! The rounds of a network without forged messages. While the 32-bit values
number every message differently, a process is always waiting for its newest
value, so a network with nothing left to read has finished every round. -/

namespace NetworkSimulator.Bracha
variable {process_number : Nat} {number_of_msg_per_process : Nat} {faulty : Finset (Fin process_number)}

theorem ofNat_eq_iff {x y : Nat} : Int32.ofNat x = Int32.ofNat y ↔ x % 2 ^ 32 = y % 2 ^ 32 := by
  rw [← Int32.toBitVec_inj, ← BitVec.toNat_inj]
  simp

/-- The numbers of all rounds are consecutive, so they stay different modulo
2^32 exactly as long as there are no more than 2^32 of them. -/
theorem ownValue_injective (fits : number_of_msg_per_process * process_number ≤ 2 ^ 32) {j k : Fin process_number}
    {first second : Nat} (low : 1 ≤ first ∧ 1 ≤ second)
    (high : first ≤ number_of_msg_per_process ∧ second ≤ number_of_msg_per_process)
    (same : (processConfig number_of_msg_per_process j).ownValue first =
      (processConfig number_of_msg_per_process k).ownValue second) : j = k ∧ first = second := by
  have insideJ := j.isLt
  have insideK := k.isLt
  have upperJ : first * process_number ≤ number_of_msg_per_process * process_number := Nat.mul_le_mul_right _ high.1
  have upperK : second * process_number ≤ number_of_msg_per_process * process_number := Nat.mul_le_mul_right _ high.2
  have lowerJ : 1 * process_number ≤ first * process_number := Nat.mul_le_mul_right _ low.1
  have lowerK : 1 * process_number ≤ second * process_number := Nat.mul_le_mul_right _ low.2
  have congruent : (first * process_number + j) % 2 ^ 32 = (second * process_number + k) % 2 ^ 32 := ofNat_eq_iff.mp same
  have equal : first * process_number + j = second * process_number + k := by omega
  have rounds : first = second := by
    have quotient := congrArg (· / process_number) equal
    simpa [Nat.mul_add_div (Nat.zero_lt_of_lt insideJ), Nat.mul_comm _ process_number, Nat.div_eq_of_lt insideJ,
      Nat.div_eq_of_lt insideK] using quotient
  subst rounds
  exact ⟨Fin.ext (by omega), rfl⟩

theorem ownValue_toInt {rounds round : Nat} {i : Fin process_number} (high : round ≤ rounds)
    (fits : rounds * process_number + process_number - 1 ≤ 2 ^ 31 - 1) :
    ((processConfig number_of_msg_per_process i).ownValue round).toInt = round * process_number + i :=
  Config.ownValue_toInt i.isLt high fits

theorem ownValue_owner {rounds round : Nat} {i : Fin process_number} (high : round ≤ rounds)
    (fits : rounds * process_number + process_number - 1 ≤ 2 ^ 31 - 1) :
    ((processConfig number_of_msg_per_process i).ownValue round).toInt % process_number = i := by
  have inside := i.isLt
  rw [ownValue_toInt high fits, Int.add_comm, Int.add_mul_emod_self_right]
  exact Int.emod_eq_of_lt (by omega) (by omega)

namespace Net

/-- Whoever broadcasts a value is the process its number names. -/
theorem Valid.sender_owner {net : Net process_number} (valid : net.Valid number_of_msg_per_process faulty)
    (fits : max 1 number_of_msg_per_process * process_number + process_number - 1 ≤ 2 ^ 31 - 1) {value : MsgValueType}
    {sender : Fin process_number} (sent : .Initial value ∈ (net.nodes sender).broadcasts) :
    value.toInt % process_number = sender := by
  obtain ⟨k, low, before, rfl⟩ := (valid.nodes sender).initial_mem.mp sent
  have bounded : (net.nodes sender).current_msg_id_to_send ≤ max 1 number_of_msg_per_process + 1 := (valid.nodes sender).bounded
  exact ownValue_owner (by omega) fits

theorem card_values (fits : number_of_msg_per_process * process_number ≤ 2 ^ 32) :
    (values number_of_msg_per_process faulty).card = number_of_msg_per_process * (process_number - faulty.card) := by
  rw [values, Finset.card_image_of_injOn, Finset.card_product, Nat.card_Icc, Finset.card_compl, Fintype.card_fin,
    Nat.add_sub_cancel]
  intro first inside second other same
  simp only [Finset.coe_product, Set.mem_prod, Finset.mem_coe, Finset.mem_Icc] at inside other
  obtain ⟨owner, round⟩ := ownValue_injective fits ⟨inside.1.1, other.1.1⟩ ⟨inside.1.2, other.1.2⟩ same
  exact Prod.ext round owner

/-- A numbered value in circulation has been sent by its owner. -/
theorem Valid.announced_sent {net : Net process_number} (valid : net.Valid number_of_msg_per_process faulty)
    (rounds : 1 ≤ number_of_msg_per_process) (fits : number_of_msg_per_process * process_number ≤ 2 ^ 32)
    {owner : Fin process_number} {round : Nat} (low : 1 ≤ round) (high : round ≤ number_of_msg_per_process)
    (announced : net.Announced ((processConfig number_of_msg_per_process owner).ownValue round)) :
    round < (net.nodes owner).current_msg_id_to_send := by
  obtain ⟨sender, sent⟩ := announced
  obtain ⟨k, one, before, same⟩ := (valid.nodes sender).initial_mem.mp sent
  have bounded : (net.nodes sender).current_msg_id_to_send ≤ max 1 number_of_msg_per_process + 1 := (valid.nodes sender).bounded
  obtain ⟨rfl, rfl⟩ := ownValue_injective fits ⟨one, low⟩ ⟨by omega, high⟩ same
  exact before

def lastValue (number_of_msg_per_process : Nat) (d : Fin process_number) : MsgValueType :=
  (processConfig number_of_msg_per_process d).ownValue number_of_msg_per_process

theorem lastValue_mem (rounds : 1 ≤ number_of_msg_per_process) {d : Fin process_number} (correct : d ∉ faulty) :
    lastValue number_of_msg_per_process d ∈ values number_of_msg_per_process faulty :=
  Finset.mem_image.mpr ⟨(number_of_msg_per_process, d), by simp [rounds, correct], rfl⟩

/-- Who has delivered every value knows that every process has begun its last round. -/
theorem Valid.last_round_begun {net : Net process_number} (valid : net.Valid number_of_msg_per_process faulty)
    (silent : net.Silent) (genuine : net.Genuine) (rounds : 1 ≤ number_of_msg_per_process)
    (fits : number_of_msg_per_process * process_number ≤ 2 ^ 32) {p d : Fin process_number} (correct : d ∉ faulty)
    (complete : (net.nodes p).msgs_delivered = values number_of_msg_per_process faulty) :
    number_of_msg_per_process < (net.nodes d).current_msg_id_to_send := by
  have delivered : lastValue number_of_msg_per_process d ∈ (net.nodes p).msgs_delivered := by
    rw [complete]
    exact lastValue_mem rounds correct
  exact valid.announced_sent rounds fits rounds (Nat.le_refl _) (valid.delivered_announced silent genuine delivered)

/-- No process has delivered its newest value and stayed in that round. -/
def Waiting (number_of_msg_per_process : Nat) (net : Net process_number) : Prop :=
  ∀ i, 2 ≤ (net.nodes i).current_msg_id_to_send →
    (processConfig number_of_msg_per_process i).ownValue ((net.nodes i).current_msg_id_to_send - 1) ∈
      (net.nodes i).msgs_delivered → number_of_msg_per_process < (net.nodes i).current_msg_id_to_send

theorem Waiting.step {net next : Net process_number} {action : Action process_number}
    (rounds : 1 ≤ number_of_msg_per_process) (fits : number_of_msg_per_process * process_number ≤ 2 ^ 32)
    (valid : net.Valid number_of_msg_per_process faulty) (silent : net.Silent) (genuine : net.Genuine)
    (waiting : net.Waiting number_of_msg_per_process)
    (taken : Step number_of_msg_per_process faulty net action next) : next.Waiting number_of_msg_per_process := by
  intro k started delivered
  have unsent (i : Fin process_number) (low : 1 ≤ (net.nodes i).current_msg_id_to_send)
      (high : (net.nodes i).current_msg_id_to_send ≤ number_of_msg_per_process) :
      (processConfig number_of_msg_per_process i).ownValue (net.nodes i).current_msg_id_to_send ∉
        (net.nodes i).msgs_delivered := fun member =>
    Nat.lt_irrefl _ (valid.announced_sent rounds fits low high (valid.delivered_announced silent genuine member))
  cases taken with
  | @start i correct running first =>
    by_cases same : k = i
    · subst same
      simp only [advance, Function.update_self, Node.sendInitial, Node.broadcast, first, Nat.add_sub_cancel] at delivered
      have absent := unsent k (by omega) (by omega)
      rw [first] at absent
      exact absurd delivered absent
    · simp only [advance, Function.update_of_ne same] at started delivered ⊢
      exact waiting k started delivered
  | @receive i j last msg rest node correct running active head handled =>
    by_cases same : k = i
    · subst same
      simp only [endPass, advance, Function.update_self] at started delivered ⊢
      have begun := (valid.nodes k).started
      cases Node.handle_moved handled with
      | stayed current initials kept =>
        rw [current] at delivered ⊢
        rcases kept delivered with before | beyond
        · exact waiting k (by omega) before
        · exact beyond
      | released current initials remaining own done =>
        rw [current, Nat.add_sub_cancel] at delivered
        have round : 1 ≤ (net.nodes k).current_msg_id_to_send - 1 := by omega
        have different : (processConfig number_of_msg_per_process k).ownValue (net.nodes k).current_msg_id_to_send ≠ msg.value := by
          rw [own]
          intro equal
          have collision := ownValue_injective fits ⟨begun, round⟩
            ⟨remaining, Nat.le_trans (Nat.sub_le _ _) remaining⟩ equal
          omega
        have ledger := Node.handle_ledger _ _ ((processConfig number_of_msg_per_process k).ownValue
          (net.nodes k).current_msg_id_to_send) handled
        rw [if_neg different] at ledger
        have before := (congrArg Ledger.delivered ledger).mp delivered
        exact absurd before (unsent k begun remaining)
    · simp only [endPass, advance, consume, Function.update_of_ne same] at started delivered ⊢
      exact waiting k started delivered
  | forge byzantine => exact waiting k started delivered

/-- With nothing left to read, every round of every present process is complete.
Absent ones must have sent all they have on their own account. -/
theorem Valid.complete {net : Net process_number} (valid : net.Valid number_of_msg_per_process faulty)
    (silent : net.Silent) (genuine : net.Genuine) (waiting : net.Waiting number_of_msg_per_process)
    (many : 2 ≤ process_number) (rounds : 1 ≤ number_of_msg_per_process)
    (unwrapped : number_of_msg_per_process * process_number < 2 ^ 64) {absent : Finset (Fin process_number)} (few : 3 * absent.card < process_number)
    (begun : ∀ i, i ∉ absent → (net.nodes i).current_msg_id_to_send ≠ 1)
    (drained : ∀ i, i ∉ absent → net.left i = false → net.CaughtUp faulty i)
    (spoken : ∀ i, i ∈ absent → i ∉ faulty → number_of_msg_per_process < (net.nodes i).current_msg_id_to_send)
    {i : Fin process_number} (present : i ∉ absent) :
    (net.nodes i).msgs_delivered = values number_of_msg_per_process faulty := by
  have delivered {owner : Fin process_number} {value : MsgValueType} (sent : .Initial value ∈ (net.nodes owner).broadcasts) :=
    valid.drained_delivered silent genuine many rounds unwrapped few drained sent
  have current (owner : Fin process_number) (correct : owner ∉ faulty) :
      number_of_msg_per_process < (net.nodes owner).current_msg_id_to_send := by
    by_cases here : owner ∈ absent
    · exact spoken owner here correct
    have started := (valid.nodes owner).started
    have left_first := begun owner here
    have newest : .Initial ((processConfig number_of_msg_per_process owner).ownValue
        ((net.nodes owner).current_msg_id_to_send - 1)) ∈ (net.nodes owner).broadcasts :=
      (valid.nodes owner).initial_mem.mpr ⟨_, by omega, by omega, rfl⟩
    exact waiting owner (by omega) (delivered newest owner here)
  apply Finset.Subset.antisymm
  · intro value member
    exact valid.announced_mem rounds (valid.delivered_announced silent genuine member)
  · intro value member
    obtain ⟨⟨k, owner⟩, inside, rfl⟩ := Finset.mem_image.mp member
    simp only [Finset.mem_product, Finset.mem_Icc, Finset.mem_compl] at inside
    have beyond := current owner inside.2
    exact delivered ((valid.nodes owner).initial_mem.mpr ⟨k, inside.1.1, by omega, rfl⟩) i present

end Net

theorem Reachable.waiting {net : Net process_number} (reached : Reachable number_of_msg_per_process faulty net)
    (rounds : 1 ≤ number_of_msg_per_process) (fits : number_of_msg_per_process * process_number ≤ 2 ^ 32)
    (silent : net.Silent) : net.Waiting number_of_msg_per_process := by
  obtain ⟨actions, ran⟩ := reached
  refine Machine.run_history (fun _ net => net.Silent → net.Waiting number_of_msg_per_process)
    (fun _ i started => by simp at started) (fun past state action next before prior taken silent => ?_) actions net ran silent
  have step := Net.step_iff.mp taken
  have quiet := step.silent silent
  have earlier : Reachable number_of_msg_per_process faulty state := ⟨past, before⟩
  exact (prior quiet).step rounds fits earlier.valid quiet (earlier.genuine quiet) step

/-- Only faulty processes forge. -/
theorem Reachable.silent {net : Net process_number} (reached : Reachable number_of_msg_per_process ∅ net) : net.Silent := by
  apply Machine.Reachable.invariant Net.Silent reached (fun _ => rfl)
  intro state action next silent taken
  cases Net.step_iff.mp taken with
  | start | receive => exact silent
  | forge byzantine => simp at byzantine

end NetworkSimulator.Bracha
