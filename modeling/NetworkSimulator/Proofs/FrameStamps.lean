import NetworkSimulator.Proofs.SliceEffects
import NetworkSimulator.Proofs.VirtualTime

/-! The timestamps of the frames a slice pushes, and the order they keep in the
queues as long as no slice stamps a frame after its own end. -/

namespace NetworkSimulator.Simulator
variable {VM_NUMBER : Nat} {links : Links VM_NUMBER}

/-- The virtual time at which a pass reads a frame for some VM. -/
def Poll.stamp (links : Links VM_NUMBER) (current_vm_index : Fin VM_NUMBER) (clock start : Nat) (next : Poll) : Option Nat :=
  if ∃ i, received links current_vm_index clock start next.packet i ≠ [] then
    next.packet.map fun reading => virtual_time clock start reading.1
  else none

def Slice.stamps (links : Links VM_NUMBER) (current_vm_index : Fin VM_NUMBER) (clock : Nat) (slice : Slice) : List Nat :=
  slice.polls.filterMap (Poll.stamp links current_vm_index clock slice.start_exec_time)

private theorem received_stamp {current_vm_index i : Fin VM_NUMBER} {clock start : Nat} {next : Poll} {frame : FrameToDeliver}
    (member : frame ∈ received links current_vm_index clock start next.packet i) :
    ∃ stamp, Poll.stamp links current_vm_index clock start next = some stamp ∧
      frame.delivery_timestamp_ns = delayed stamp (links.inter_vm_delays_ms i current_vm_index) := by
  have some_vm : ∃ i, received links current_vm_index clock start next.packet i ≠ [] := ⟨i, List.ne_nil_of_mem member⟩
  cases packet : next.packet with
  | none =>
    rw [packet] at member
    cases member
  | some reading =>
    rw [packet] at member
    refine ⟨virtual_time clock start reading.1, ?_, copies_stamp member⟩
    rw [Poll.stamp, if_pos some_vm, packet, Option.map_some]

theorem arrivals_stamp {current_vm_index i : Fin VM_NUMBER} {clock : Nat} {slice : Slice} {frame : FrameToDeliver}
    (member : frame ∈ arrivals links current_vm_index clock slice.start_exec_time slice.polls i) :
    ∃ stamp ∈ slice.stamps links current_vm_index clock,
      frame.delivery_timestamp_ns = delayed stamp (links.inter_vm_delays_ms i current_vm_index) := by
  obtain ⟨next, listed, copy⟩ := List.mem_flatMap.mp member
  obtain ⟨stamp, read, same⟩ := received_stamp copy
  exact ⟨stamp, List.mem_filterMap.mpr ⟨next, listed, read⟩, same⟩

/-- Frames read in order are due in order on every link. -/
theorem arrivals_sorted {current_vm_index i : Fin VM_NUMBER} {clock start : Nat} {polls : List Poll}
    (ordered : (polls.filterMap (Poll.stamp links current_vm_index clock start)).Pairwise (· ≤ ·)) :
    (arrivals links current_vm_index clock start polls i).Pairwise fun a b => a.delivery_timestamp_ns ≤ b.delivery_timestamp_ns := by
  induction polls with
  | nil => exact List.Pairwise.nil
  | cons next polls ih =>
    have split : arrivals links current_vm_index clock start (next :: polls) i =
        received links current_vm_index clock start next.packet i ++ arrivals links current_vm_index clock start polls i := rfl
    rw [split, List.pairwise_append]
    refine ⟨?_, ?_, ?_⟩
    · apply List.pairwise_of_forall_mem_list
      intro a first b last
      obtain ⟨stamp, read, same⟩ := received_stamp first
      obtain ⟨other, again, equal⟩ := received_stamp last
      cases read.symm.trans again
      exact (same.trans equal.symm).le
    · apply ih
      exact ordered.sublist ((List.sublist_cons_self next polls).filterMap _)
    · intro a first b last
      obtain ⟨stamp, read, same⟩ := received_stamp first
      obtain ⟨later, listed, copy⟩ := List.mem_flatMap.mp last
      obtain ⟨other, again, equal⟩ := received_stamp copy
      rw [same, equal]
      apply delayed_mono
      rw [List.filterMap_cons_some read] at ordered
      exact (List.pairwise_cons.mp ordered).1 other (List.mem_filterMap.mpr ⟨later, listed, again⟩)

/-- A stamp is computed from a reading of the pass. -/
theorem Poll.stamp_reading {current_vm_index : Fin VM_NUMBER} {clock start stamp : Nat} {next : Poll}
    (read : Poll.stamp links current_vm_index clock start next = some stamp) :
    ∃ now ∈ next.readings, stamp = virtual_time clock start now := by
  rw [Poll.stamp] at read
  split at read
  · obtain ⟨reading, packet, rfl⟩ := Option.map_eq_some_iff.mp read
    refine ⟨reading.1, List.mem_append_left _ ?_, rfl⟩
    rw [packet]
    exact List.mem_singleton_self _
  · cases read

theorem Slice.stamp_ge {current_vm_index : Fin VM_NUMBER} {clock stamp : Nat} {slice : Slice}
    (read : stamp ∈ slice.stamps links current_vm_index clock) : Binary64.round clock ≤ stamp := by
  obtain ⟨next, _, found⟩ := List.mem_filterMap.mp read
  obtain ⟨now, _, rfl⟩ := Poll.stamp_reading found
  exact clock_le_virtual_time clock slice.start_exec_time now

private theorem passes_sublist (slice : Slice) : (slice.polls.flatMap Poll.readings).Sublist slice.readings := by
  have split : slice.polls = slice.polls.dropLast ++ slice.polls.getLast?.toList := by
    rcases List.eq_nil_or_concat slice.polls with none | ⟨early, last, same⟩
    · rw [none]
      rfl
    · rw [same, List.concat_eq_append, List.dropLast_concat, List.getLast?_concat, Option.toList_some]
  have both : slice.polls.flatMap Poll.readings =
      slice.polls.dropLast.flatMap Poll.readings ++ slice.polls.getLast?.toList.flatMap Poll.readings := by
    rw [← List.flatMap_append, ← split]
  rw [both, Slice.readings]
  exact (List.sublist_cons_self _ _).append (List.sublist_cons_self _ _)

private theorem stamps_sorted {current_vm_index : Fin VM_NUMBER} {clock start : Nat} {polls : List Poll}
    (passes : (polls.flatMap Poll.readings).Pairwise (· ≤ ·)) :
    (polls.filterMap (Poll.stamp links current_vm_index clock start)).Pairwise (· ≤ ·) := by
  induction polls with
  | nil => exact List.Pairwise.nil
  | cons next polls ih =>
    rw [List.flatMap_cons, List.pairwise_append] at passes
    obtain ⟨_, rest, across⟩ := passes
    cases read : Poll.stamp links current_vm_index clock start next with
    | none =>
      rw [List.filterMap_cons_none read]
      exact ih rest
    | some stamp =>
      rw [List.filterMap_cons_some read, List.pairwise_cons]
      refine ⟨fun later listed => ?_, ih rest⟩
      obtain ⟨pass, after, found⟩ := List.mem_filterMap.mp listed
      obtain ⟨now, first, rfl⟩ := Poll.stamp_reading read
      obtain ⟨afterwards, second, rfl⟩ := Poll.stamp_reading found
      exact virtual_time_mono clock start (across now first afterwards (List.mem_flatMap.mpr ⟨pass, after, second⟩))

theorem Slice.stamps_sorted {current_vm_index : Fin VM_NUMBER} {clock : Nat} {slice : Slice}
    (monotone : slice.readings.Pairwise (· ≤ ·)) : (slice.stamps links current_vm_index clock).Pairwise (· ≤ ·) :=
  Simulator.stamps_sorted (monotone.sublist (passes_sublist slice))

/-- Every queue is sorted, and holds nothing due after the sender's clock and the
delay of the link. -/
def Ordered (links : Links VM_NUMBER) (state : State VM_NUMBER) : Prop :=
  ∀ i j, (state.inter_vm_queues i j).Pairwise (fun a b => a.delivery_timestamp_ns ≤ b.delivery_timestamp_ns) ∧
    ∀ frame ∈ state.inter_vm_queues i j,
      frame.delivery_timestamp_ns ≤ delayed (state.virtual_clocks_ns j) (links.inter_vm_delays_ms i j)

section
variable {state next : State VM_NUMBER} {vm : Fin VM_NUMBER} {slice : Slice} (iteration : Iteration links state vm slice next)
include iteration

theorem Iteration.ordered (before : Ordered links state)
    (forward : state.virtual_clocks_ns vm ≤ slice.virtual_end_time_ns)
    (in_order : (slice.stamps links vm (state.virtual_clocks_ns vm)).Pairwise (· ≤ ·))
    (accounted : ∀ stamp ∈ slice.stamps links vm (state.virtual_clocks_ns vm),
      Binary64.round (state.virtual_clocks_ns vm) ≤ stamp ∧ stamp ≤ slice.virtual_end_time_ns) :
    Ordered links next := by
  intro i j
  obtain ⟨sorted, early⟩ := before i j
  have suffix := iteration.remaining_suffix i j
  rw [iteration.queues, iteration.clocks]
  by_cases current : j = vm
  · subst current
    rw [if_pos rfl, Function.update_self]
    refine ⟨List.pairwise_append.mpr ⟨sorted.sublist suffix.sublist, arrivals_sorted in_order, ?_⟩, ?_⟩
    · intro old waiting new pushed
      obtain ⟨stamp, read, same⟩ := arrivals_stamp pushed
      calc old.delivery_timestamp_ns ≤ delayed (state.virtual_clocks_ns j) _ := early old (suffix.mem waiting)
        _ = delayed (Binary64.round (state.virtual_clocks_ns j)) _ := (delayed_round _ _).symm
        _ ≤ delayed stamp _ := delayed_mono (accounted stamp read).1 _
        _ = new.delivery_timestamp_ns := same.symm
    · intro frame member
      rcases List.mem_append.mp member with waiting | pushed
      · exact (early frame (suffix.mem waiting)).trans (delayed_mono forward _)
      · obtain ⟨stamp, read, same⟩ := arrivals_stamp pushed
        rw [same]
        exact delayed_mono (accounted stamp read).2 _
  · rw [if_neg current, Function.update_of_ne current]
    exact ⟨sorted.sublist suffix.sublist, fun frame member => early frame (suffix.mem member)⟩

end
end NetworkSimulator.Simulator
