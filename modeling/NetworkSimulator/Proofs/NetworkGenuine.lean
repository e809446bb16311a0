import NetworkSimulator.Proofs.NetworkQuorums
import Mathlib.Data.Finset.Prod
import Mathlib.Order.Interval.Finset.Nat

/-! Without forged messages every value in circulation was announced by the
process that owns its number. This also bounds what can ever be delivered, and
so what a process that left its loop must have seen. -/

namespace NetworkSimulator.Bracha
variable {process_number : Nat} {number_of_msg_per_process : Nat} {faulty : Finset (Fin process_number)}

/-- Only a delivery sends an Initial; anything else sent concerns the value received. -/
theorem Node.handle_sends {config : Config} {node next : Node} {msg out : Msg} (handled : node.handle config msg = some next)
    (sent : out ∈ next.broadcasts) : out ∈ node.broadcasts ∨ out.value = msg.value ∨ ∃ value, out = .Initial value := by
  cases out with
  | Initial value => exact Or.inr (Or.inr ⟨value, rfl⟩)
  | Echo value =>
    by_cases same : value = msg.value
    · exact Or.inr (Or.inl same)
    · have ledger := handle_ledger config node value handled
      rw [if_neg same] at ledger
      have count : next.broadcasts.count (.Echo value) = node.broadcasts.count (.Echo value) := congrArg Ledger.echoSent ledger
      exact Or.inl (List.count_pos_iff.mp (count ▸ List.count_pos_iff.mpr sent))
  | Ready value =>
    by_cases same : value = msg.value
    · exact Or.inr (Or.inl same)
    · have ledger := handle_ledger config node value handled
      rw [if_neg same] at ledger
      have count : next.broadcasts.count (.Ready value) = node.broadcasts.count (.Ready value) := congrArg Ledger.readySent ledger
      exact Or.inl (List.count_pos_iff.mp (count ▸ List.count_pos_iff.mpr sent))

namespace Net

def Silent (net : Net process_number) : Prop := ∀ i, net.forged i = []

def Announced (net : Net process_number) (value : MsgValueType) : Prop := ∃ owner, .Initial value ∈ (net.nodes owner).broadcasts

def Genuine (net : Net process_number) : Prop := ∀ j, ∀ msg ∈ (net.nodes j).broadcasts, net.Announced msg.value

theorem Step.broadcasts {net next : Net process_number} {action : Action process_number}
    (taken : Step number_of_msg_per_process faulty net action next) (k : Fin process_number) :
    (net.nodes k).broadcasts <+: (next.nodes k).broadcasts := by
  cases taken with
  | @start i correct running first =>
    by_cases same : k = i
    · subst same
      simpa only [advance, Function.update_self, Node.sendInitial, Node.broadcast] using List.prefix_append _ _
    · simp [advance, same]
  | @receive i j last msg rest node correct running started head handled =>
    by_cases same : k = i
    · subst same
      simpa only [endPass, advance, Function.update_self] using Node.handle_appended handled
    · simp [endPass, advance, consume, same]
  | forge byzantine => exact List.prefix_rfl

theorem Step.announced {net next : Net process_number} {action : Action process_number} {value : MsgValueType}
    (taken : Step number_of_msg_per_process faulty net action next) (announced : net.Announced value) : next.Announced value := by
  obtain ⟨owner, sent⟩ := announced
  exact ⟨owner, (taken.broadcasts owner).subset sent⟩

theorem Step.silent {net next : Net process_number} {action : Action process_number}
    (taken : Step number_of_msg_per_process faulty net action next) (silent : next.Silent) : net.Silent := by
  intro i
  cases taken with
  | start | receive => exact silent i
  | @forge f k msg byzantine =>
    by_cases same : i = k
    · subst same
      simpa [Net.forge] using silent i
    · simpa [Net.forge, same] using silent i

/-- Handled or still under way, a message of a silent network has a sender. -/
theorem Valid.sender {net : Net process_number} (valid : net.Valid number_of_msg_per_process faulty) (silent : net.Silent)
    {i : Fin process_number} {msg : Msg}
    (arrives : msg ∈ (net.nodes i).handled ∨ ∃ j, msg ∈ net.channels j i) : ∃ k, k ≠ i ∧ msg ∈ (net.nodes k).broadcasts := by
  have balance := valid.conserved i (· == msg)
  simp only [silent i, List.countP_nil, Nat.add_zero] at balance
  have positive : net.sentTo (· == msg) i ≠ 0 := by
    rcases arrives with handled | ⟨j, waiting⟩
    · have counted : 0 < (net.nodes i).handled.countP (· == msg) := List.countP_pos_iff.mpr ⟨msg, handled, by simp⟩
      omega
    · have counted := Mesh.inFlight_pos (· == msg) (Finset.mem_univ j) waiting (by simp)
      omega
  obtain ⟨k, member, sent⟩ := Finset.exists_ne_zero_of_sum_ne_zero positive
  obtain ⟨found, present, same⟩ := List.countP_pos_iff.mp (Nat.pos_of_ne_zero sent)
  exact ⟨k, Finset.ne_of_mem_erase member, (beq_iff_eq.mp same) ▸ present⟩

theorem Genuine.step {net next : Net process_number} {action : Action process_number} (genuine : net.Genuine)
    (valid : net.Valid number_of_msg_per_process faulty) (silent : net.Silent)
    (taken : Step number_of_msg_per_process faulty net action next) : next.Genuine := by
  intro k out sent
  have kept (before : out ∈ (net.nodes k).broadcasts) : next.Announced out.value := taken.announced (genuine k out before)
  have own (value : MsgValueType) (initial : out = .Initial value) : next.Announced out.value := by
    subst initial
    exact ⟨k, sent⟩
  cases taken with
  | @start i correct running first =>
    by_cases same : k = i
    · subst same
      simp only [advance, Function.update_self, Node.sendInitial, Node.broadcast, List.mem_append, List.mem_singleton] at sent
      exact sent.elim kept (own _)
    · simp only [advance, Function.update_of_ne same] at sent
      exact kept sent
  | @receive i j last msg rest node correct running started head handled =>
    by_cases same : k = i
    · subst same
      simp only [endPass, advance, Function.update_self] at sent
      rcases Node.handle_sends handled sent with before | value | ⟨value, initial⟩
      · exact kept before
      · obtain ⟨sender, _, origin⟩ := valid.sender silent (Or.inr ⟨j, head ▸ List.mem_cons_self⟩)
        rw [value]
        exact Step.announced (.receive correct running started head handled) (genuine sender msg origin)
      · exact own value initial
    · simp only [endPass, advance, consume, Function.update_of_ne same] at sent
      exact kept sent
  | forge byzantine => exact kept sent

theorem Valid.delivered_announced {net : Net process_number} (valid : net.Valid number_of_msg_per_process faulty)
    (silent : net.Silent) (genuine : net.Genuine) {i : Fin process_number} {value : MsgValueType}
    (delivered : value ∈ (net.nodes i).msgs_delivered) : net.Announced value := by
  have received : max 1 (2 * (process_number / 3)) ≤ ((net.nodes i).ledger value).readies :=
    (valid.ledger i value).delivered_iff.mp delivered
  have handled : .Ready value ∈ (net.nodes i).handled := List.count_pos_iff.mp (Nat.lt_of_lt_of_le (by omega) received)
  obtain ⟨k, _, sent⟩ := valid.sender silent (Or.inl handled)
  exact genuine k _ sent

/-- Every value the correct processes number among themselves. -/
def values (number_of_msg_per_process : Nat) (faulty : Finset (Fin process_number)) : Finset MsgValueType :=
  (Finset.Icc 1 number_of_msg_per_process ×ˢ faultyᶜ).image fun number =>
    (processConfig number_of_msg_per_process number.2).ownValue number.1

theorem card_values_le : (values number_of_msg_per_process faulty).card ≤
    number_of_msg_per_process * (process_number - faulty.card) := by
  apply Finset.card_image_le.trans
  rw [Finset.card_product, Nat.card_Icc, Finset.card_compl, Fintype.card_fin, Nat.add_sub_cancel]

theorem Valid.announced_mem {net : Net process_number} (valid : net.Valid number_of_msg_per_process faulty)
    (rounds : 1 ≤ number_of_msg_per_process) {value : MsgValueType} (announced : net.Announced value) :
    value ∈ values number_of_msg_per_process faulty := by
  obtain ⟨owner, sent⟩ := announced
  have correct : owner ∉ faulty := fun member => by simp [valid.idle owner member] at sent
  obtain ⟨k, low, high, same⟩ := (valid.nodes owner).initial_mem.mp sent
  have bounded := (valid.nodes owner).bounded
  simp only [processConfig] at bounded
  exact Finset.mem_image.mpr ⟨(k, owner), by simp [correct]; omega, same⟩

/-- A process that has delivered everything leaves no room for a silent one. -/
theorem Valid.full_delivered {net : Net process_number} (valid : net.Valid number_of_msg_per_process faulty)
    (silent : net.Silent) (genuine : net.Genuine) (rounds : 1 ≤ number_of_msg_per_process) {i : Fin process_number}
    (full : (net.nodes i).msgs_delivered.card = number_of_msg_per_process * process_number) :
    (net.nodes i).msgs_delivered = values number_of_msg_per_process faulty := by
  have inside : (net.nodes i).msgs_delivered ⊆ values number_of_msg_per_process faulty :=
    fun value delivered => valid.announced_mem rounds (valid.delivered_announced silent genuine delivered)
  apply Finset.eq_of_subset_of_card_le inside
  calc (values number_of_msg_per_process faulty).card ≤ number_of_msg_per_process * (process_number - faulty.card) :=
        card_values_le
    _ ≤ number_of_msg_per_process * process_number := Nat.mul_le_mul_left _ (Nat.sub_le _ _)
    _ = (net.nodes i).msgs_delivered.card := full.symm

/-- Where the product of the exit test does not wrap, a process leaves with everything delivered. -/
theorem Valid.left_delivered {net : Net process_number} (valid : net.Valid number_of_msg_per_process faulty)
    (silent : net.Silent) (genuine : net.Genuine) (rounds : 1 ≤ number_of_msg_per_process)
    (unwrapped : number_of_msg_per_process * process_number < 2 ^ 64) {i : Fin process_number}
    (left : net.left i = true) : (net.nodes i).msgs_delivered = values number_of_msg_per_process faulty := by
  have exited := valid.exited i left
  rw [Nat.mod_eq_of_lt unwrapped] at exited
  exact valid.full_delivered silent genuine rounds exited

/-- No message between correct processes is waiting to be handled. -/
def Quiescent (faulty : Finset (Fin process_number)) (net : Net process_number) : Prop :=
  ∀ i, i ∉ faulty → net.CaughtUp faulty i

/-- The same, when what was sent to a process that has left counts as discarded. -/
def Drained (faulty : Finset (Fin process_number)) (net : Net process_number) : Prop :=
  ∀ i, i ∉ faulty → net.left i = false → net.CaughtUp faulty i

/-- Every value a correct process has broadcast is delivered by all correct ones. -/
def AllDelivered (faulty : Finset (Fin process_number)) (net : Net process_number) : Prop :=
  ∀ owner, owner ∉ faulty → ∀ value, .Initial value ∈ (net.nodes owner).broadcasts →
    ∀ i, i ∉ faulty → value ∈ (net.nodes i).msgs_delivered

/-- Below a third of absent processes the loops never stop short: a process
that has left its loop needs nothing of what was sent to it since. -/
theorem Valid.drained_delivered {net : Net process_number} (valid : net.Valid number_of_msg_per_process faulty)
    (silent : net.Silent) (genuine : net.Genuine) (many : 2 ≤ process_number) (rounds : 1 ≤ number_of_msg_per_process)
    (unwrapped : number_of_msg_per_process * process_number < 2 ^ 64) {absent : Finset (Fin process_number)} (few : 3 * absent.card < process_number)
    (drained : ∀ i, i ∉ absent → net.left i = false → net.CaughtUp faulty i) {owner : Fin process_number}
    {value : MsgValueType} (sent : .Initial value ∈ (net.nodes owner).broadcasts) (i : Fin process_number)
    (present : i ∉ absent) : value ∈ (net.nodes i).msgs_delivered := by
  refine valid.delivered_everywhere many few (fun k here => ?_) sent i present
  cases left : net.left k with
  | false => exact Or.inl (drained k here left)
  | true =>
    apply Or.inr
    rw [valid.left_delivered silent genuine rounds unwrapped left]
    exact valid.announced_mem rounds ⟨owner, sent⟩

end Net

theorem Reachable.genuine {net : Net process_number} (reached : Reachable number_of_msg_per_process faulty net)
    (silent : net.Silent) : net.Genuine := by
  obtain ⟨actions, ran⟩ := reached
  refine Machine.run_history (fun _ net => net.Silent → net.Genuine) (fun _ _ _ member => by cases member)
    (fun past state action next before prior taken silent => ?_) actions net ran silent
  have step := Net.step_iff.mp taken
  have quiet := step.silent silent
  exact (prior quiet).step (Reachable.valid ⟨past, before⟩) quiet step

end NetworkSimulator.Bracha
