import NetworkSimulator.Proofs.NetworkTraffic
import Mathlib.Algebra.BigOperators.Ring.Finset

/-! From messages to thresholds. The receptions of a process are bounded by who
has sent what, in both directions once nothing from a correct process is under
way to it. -/

namespace NetworkSimulator.Bracha
variable {process_number : Nat} {number_of_msg_per_process : Nat} {faulty : Finset (Fin process_number)}

namespace Net
variable {net : Net process_number} {i : Fin process_number} {value : MsgValueType}

def echoers (net : Net process_number) (value : MsgValueType) : Finset (Fin process_number) :=
  Finset.univ.filter fun j => (net.nodes j).msgs_states value ≠ none

def readiers (net : Net process_number) (value : MsgValueType) : Finset (Fin process_number) :=
  Finset.univ.filter fun j => (net.nodes j).msgs_states value = some .SentReady

theorem mem_echoers {j : Fin process_number} : j ∈ net.echoers value ↔ (net.nodes j).msgs_states value ≠ none := by
  simp [echoers]

theorem mem_readiers {j : Fin process_number} : j ∈ net.readiers value ↔ (net.nodes j).msgs_states value = some .SentReady := by
  simp [readiers]

/-- Process `i` has handled everything correct processes have sent it. -/
def CaughtUp (faulty : Finset (Fin process_number)) (net : Net process_number) (i : Fin process_number) : Prop :=
  ∀ j, j ∉ faulty → net.channels j i = []

theorem Valid.ledger (valid : net.Valid number_of_msg_per_process faulty) (i : Fin process_number) (value : MsgValueType) :
    ((net.nodes i).ledger value).Valid ((process_number + process_number / 3) / 2) (process_number / 3) :=
  (valid.nodes i).ledgers value

theorem Valid.handled_le (valid : net.Valid number_of_msg_per_process faulty) (selected : Msg → Bool) :
    (net.nodes i).handled.countP selected ≤ net.sentTo selected i + (net.forged i).countP selected := by
  have balance := valid.conserved i selected
  omega

theorem Valid.le_handled (valid : net.Valid number_of_msg_per_process faulty) (caught : net.CaughtUp faulty i)
    (selected : Msg → Bool) : net.sentTo selected i ≤ (net.nodes i).handled.countP selected := by
  have balance := valid.conserved i selected
  have forged := valid.authentic i selected
  have split := Mesh.inFlight_split net.channels selected faulty i
  have empty : Mesh.inFlight net.channels faultyᶜ selected i = 0 :=
    Mesh.inFlight_empty selected fun j member => caught j (Finset.mem_compl.mp member)
  omega

/-- A message each process of a set has broadcast once, and no other at all. -/
private theorem sentTo_once {selected : Msg → Bool} {set : Finset (Fin process_number)}
    (once : ∀ j, (net.nodes j).broadcasts.countP selected = if j ∈ set then 1 else 0) (i : Fin process_number) :
    net.sentTo selected i = (set.erase i).card := by
  simp only [sentTo, once, Finset.sum_boole, Nat.cast_id]
  congr 1
  ext j
  simp [and_comm]

theorem Valid.sentTo_echo (valid : net.Valid number_of_msg_per_process faulty) (i : Fin process_number) (value : MsgValueType) :
    net.sentTo (· == .Echo value) i = ((net.echoers value).erase i).card := by
  refine sentTo_once (fun j => ?_) i
  have sent : (net.nodes j).broadcasts.countP (· == .Echo value) =
      if (net.nodes j).msgs_states value = none then 0 else 1 := (valid.ledger j value).echo_sent
  simp [sent, mem_echoers]

theorem Valid.sentTo_ready (valid : net.Valid number_of_msg_per_process faulty) (i : Fin process_number) (value : MsgValueType) :
    net.sentTo (· == .Ready value) i = ((net.readiers value).erase i).card := by
  refine sentTo_once (fun j => ?_) i
  have sent : (net.nodes j).broadcasts.countP (· == .Ready value) =
      if (net.nodes j).msgs_states value = some .SentReady then 1 else 0 := (valid.ledger j value).ready_sent
  simp [sent, mem_readiers]

theorem sentTo_pos {selected : Msg → Bool} {j : Fin process_number} {msg : Msg} (other : j ≠ i)
    (sent : msg ∈ (net.nodes j).broadcasts) (chosen : selected msg = true) : 0 < net.sentTo selected i :=
  Nat.lt_of_lt_of_le (List.countP_pos_iff.mpr ⟨msg, sent, chosen⟩)
    (Finset.single_le_sum (f := fun j => (net.nodes j).broadcasts.countP selected) (fun _ _ => Nat.zero_le _)
      (Finset.mem_erase.mpr ⟨other, Finset.mem_univ j⟩))

/-- All present processes but one outnumber every quorum when less than a third is absent. -/
private theorem quorums_met {faults : Nat} (many : 2 ≤ process_number) (few : 3 * faults < process_number) :
    let others := process_number - faults - 1
    0 < others ∧ (process_number + process_number / 3) / 2 ≤ others ∧ max 1 (2 * (process_number / 3)) ≤ others := by
  omega

theorem card_present_erase (absent : Finset (Fin process_number)) (set : Finset (Fin process_number))
    (present : ∀ j, j ∉ absent → j ≠ i → j ∈ set) : process_number - absent.card - 1 ≤ (set.erase i).card := by
  have inside : absentᶜ.erase i ⊆ set.erase i := by
    intro j member
    obtain ⟨different, member⟩ := Finset.mem_erase.mp member
    exact Finset.mem_erase.mpr ⟨different, present j (Finset.mem_compl.mp member) different⟩
  calc process_number - absent.card - 1 = absentᶜ.card - 1 := by rw [Finset.card_compl, Fintype.card_fin]
    _ ≤ (absentᶜ.erase i).card := Finset.pred_card_le_card_erase
    _ ≤ (set.erase i).card := Finset.card_le_card inside

/-- A value once broadcast is delivered by every process but a few absent ones,
as soon as each of the others has caught up or is already done with the value. -/
theorem Valid.delivered_everywhere (valid : net.Valid number_of_msg_per_process faulty) (many : 2 ≤ process_number)
    {absent : Finset (Fin process_number)} (few : 3 * absent.card < process_number)
    (settled : ∀ i, i ∉ absent → net.CaughtUp faulty i ∨ value ∈ (net.nodes i).msgs_delivered)
    {owner : Fin process_number} (sent : .Initial value ∈ (net.nodes owner).broadcasts)
    (i : Fin process_number) (present : i ∉ absent) : value ∈ (net.nodes i).msgs_delivered := by
  obtain ⟨some_other, quorum, enough⟩ := quorums_met many few
  have done (j : Fin process_number) (delivered : value ∈ (net.nodes j).msgs_delivered) :
      (net.nodes j).msgs_states value = some .SentReady := (valid.ledger j value).delivered_readied delivered
  have receivers_echo (j : Fin process_number) (present : j ∉ absent) (other : j ≠ owner) : j ∈ net.echoers value := by
    rw [mem_echoers]
    rcases settled j present with caught | delivered
    · have received := valid.le_handled caught (· == .Initial value)
      exact (valid.ledger j value).initial_echoed
        (Nat.lt_of_lt_of_le (sentTo_pos (Ne.symm other) sent (by simp)) received)
    · simp [done j delivered]
  -- The owner never handles its own Initial: it echoes on the echoes of all others.
  have echoed_readies (j : Fin process_number) (present : j ∉ absent)
      (echoes : process_number - absent.card - 1 ≤ ((net.echoers value).erase j).card) : j ∈ net.readiers value := by
    rw [mem_readiers]
    rcases settled j present with caught | delivered
    · have received := valid.le_handled caught (· == .Echo value)
      rw [valid.sentTo_echo] at received
      exact (valid.ledger j value).echoes_readied (Nat.lt_of_lt_of_le some_other (echoes.trans received))
        (quorum.trans (echoes.trans received))
    · exact done j delivered
  have all_echo (j : Fin process_number) (present : j ∉ absent) : j ∈ net.echoers value := by
    by_cases same : j = owner
    · subst same
      have ready := mem_readiers.mp (echoed_readies j present (card_present_erase absent _ receivers_echo))
      simp [mem_echoers, ready]
    · exact receivers_echo j present same
  have all_ready (j : Fin process_number) (present : j ∉ absent) : j ∈ net.readiers value :=
    echoed_readies j present (card_present_erase absent _ fun k present _ => all_echo k present)
  rcases settled i present with caught | delivered
  · have received := valid.le_handled caught (· == .Ready value)
    rw [valid.sentTo_ready] at received
    have readies := card_present_erase absent (net.readiers value) fun k present (_ : k ≠ i) => all_ready k present
    exact (valid.ledger i value).delivered_iff.mpr (enough.trans (readies.trans received))
  · exact delivered

end Net
end NetworkSimulator.Bracha
