import NetworkSimulator.Library.Machine
import NetworkSimulator.Proofs.FrameStamps

/-! Conservative lookahead. A slice ends where another VM could still send to the
chosen one, so a VM is ahead of the others by a link delay and one overshoot. -/

namespace NetworkSimulator.Simulator
variable {VM_NUMBER : Nat} {links : Links VM_NUMBER}

/-- The slice of a VM stops at most `eps` after its end, its frames are stamped in
order while it runs, and what it computes stays exact. -/
def Contained (links : Links VM_NUMBER) (eps : Nat) (state : State VM_NUMBER) (vm : Fin VM_NUMBER) (slice : Slice) : Prop :=
  ∀ limit ∈ end_of_time_slice_ns links state.virtual_clocks_ns vm,
    slice.virtual_end_time_ns ≤ limit + eps ∧
    (state.virtual_clocks_ns vm :: slice.stamps links vm (state.virtual_clocks_ns vm) ++ [slice.virtual_end_time_ns]).Pairwise (· ≤ ·) ∧
    ∀ i, slice.virtual_end_time_ns + links.inter_vm_delays_ms i vm * 1000000 < 2 ^ 53

instance (eps : Nat) (state : State VM_NUMBER) (vm : Fin VM_NUMBER) (slice : Slice) : Decidable (Contained links eps state vm slice) :=
  inferInstanceAs (Decidable (∀ limit ∈ end_of_time_slice_ns _ _ vm, _ ∧ _ ∧ _))

/-- The VMs in `ran` are no more than a link delay and `eps` ahead of the others,
and nothing waits for them that was due more than `eps` ago. -/
def Punctual (links : Links VM_NUMBER) (eps : Nat) (ran : Fin VM_NUMBER → Prop) (state : State VM_NUMBER) : Prop :=
  ∀ i, ran i → ∀ j, j ≠ i →
    state.virtual_clocks_ns i ≤ state.virtual_clocks_ns j + links.inter_vm_delays_ms i j * 1000000 + eps ∧
    ∀ frame ∈ state.inter_vm_queues i j, state.virtual_clocks_ns i ≤ frame.delivery_timestamp_ns + eps

structure Lookahead (links : Links VM_NUMBER) (eps : Nat) (ran : Fin VM_NUMBER → Prop) (state : State VM_NUMBER) : Prop where
  exact_times : ∀ i j, state.virtual_clocks_ns j + links.inter_vm_delays_ms i j * 1000000 < 2 ^ 53
  ordered : Ordered links state
  punctual : Punctual links eps ran state

/-- Without any frame waiting only the clocks matter. -/
theorem Lookahead.start {eps : Nat} {ran : Fin VM_NUMBER → Prop} {state : State VM_NUMBER}
    (small : ∀ i j, state.virtual_clocks_ns j + links.inter_vm_delays_ms i j * 1000000 < 2 ^ 53)
    (empty : ∀ i j, state.inter_vm_queues i j = [])
    (ahead : ∀ i, ran i → ∀ j, j ≠ i →
      state.virtual_clocks_ns i ≤ state.virtual_clocks_ns j + links.inter_vm_delays_ms i j * 1000000 + eps) :
    Lookahead links eps ran state := by
  refine ⟨small, fun i j => ?_, fun i started j other => ⟨ahead i started j other, ?_⟩⟩
  · rw [empty i j]
    exact ⟨List.Pairwise.nil, fun _ none => nomatch none⟩
  · rw [empty i j]
    exact fun _ none => nomatch none

section
variable {eps : Nat} {state next : State VM_NUMBER} {vm : Fin VM_NUMBER} {slice : Slice}
  (iteration : Iteration links state vm slice next) (contained : Contained links eps state vm slice)
include iteration contained

private theorem Iteration.forward : state.virtual_clocks_ns vm ≤ slice.virtual_end_time_ns := by
  obtain ⟨_, times, _⟩ := contained iteration.limit iteration.bound
  exact (List.pairwise_cons.mp times).1 _ (List.mem_append_right _ (List.mem_singleton_self _))

private theorem Iteration.stamp_between {stamp : Nat} (read : stamp ∈ slice.stamps links vm (state.virtual_clocks_ns vm)) :
    state.virtual_clocks_ns vm ≤ stamp ∧ stamp ≤ slice.virtual_end_time_ns := by
  obtain ⟨_, times, _⟩ := contained iteration.limit iteration.bound
  obtain ⟨after_start, rest⟩ := List.pairwise_cons.mp times
  exact ⟨after_start stamp (List.mem_append_left _ read),
    (List.pairwise_append.mp rest).2.2 stamp read _ (List.mem_singleton_self _)⟩

variable {ran : Fin VM_NUMBER → Prop} (before : Lookahead links eps ran state)
include before

private theorem Iteration.exact_times (i j : Fin VM_NUMBER) :
    next.virtual_clocks_ns j + links.inter_vm_delays_ms i j * 1000000 < 2 ^ 53 := by
  obtain ⟨_, _, small⟩ := contained iteration.limit iteration.bound
  rw [iteration.clocks]
  by_cases current : j = vm
  · subst current
    rw [Function.update_self]
    exact small i
  · rw [Function.update_of_ne current]
    exact before.exact_times i j

private theorem Iteration.ordered_contained : Ordered links next := by
  obtain ⟨_, times, _⟩ := contained iteration.limit iteration.bound
  refine iteration.ordered before.ordered (iteration.forward contained) ?_ ?_
  · exact (List.pairwise_append.mp (List.pairwise_cons.mp times).2).1
  · intro stamp read
    obtain ⟨after_start, before_end⟩ := iteration.stamp_between contained read
    have small : state.virtual_clocks_ns vm < 2 ^ 53 := by
      have own := before.exact_times vm vm
      omega
    rw [Binary64.round_small small]
    exact ⟨after_start, before_end⟩

/-- The chosen VM takes everything due in the slice, and the slice ends before
any frame that is still to be sent to it. -/
private theorem Iteration.punctual_chosen (least : ∀ i, state.virtual_clocks_ns vm ≤ state.virtual_clocks_ns i)
    {j : Fin VM_NUMBER} (other : j ≠ vm) :
    next.virtual_clocks_ns vm ≤ next.virtual_clocks_ns j + links.inter_vm_delays_ms vm j * 1000000 + eps ∧
    ∀ frame ∈ next.inter_vm_queues vm j, next.virtual_clocks_ns vm ≤ frame.delivery_timestamp_ns + eps := by
  obtain ⟨overshoot, _, _⟩ := contained iteration.limit iteration.bound
  have reach := limit_le (least j) (before.exact_times vm j) iteration.bound other
  rw [iteration.clocks, Function.update_self, Function.update_of_ne other, iteration.queues, if_neg other,
    iteration.remaining_self]
  refine ⟨by omega, fun frame waiting => ?_⟩
  have later := iteration.extraction.rest_above (fun k => (before.ordered vm k).1) waiting
  omega

/-- The other VMs only see the clock of the chosen one advance, and new frames
that are due a link delay after its start. -/
private theorem Iteration.punctual_other {i j : Fin VM_NUMBER} (waits : i ≠ vm) (started : ran i) (other : j ≠ i) :
    next.virtual_clocks_ns i ≤ next.virtual_clocks_ns j + links.inter_vm_delays_ms i j * 1000000 + eps ∧
    ∀ frame ∈ next.inter_vm_queues i j, next.virtual_clocks_ns i ≤ frame.delivery_timestamp_ns + eps := by
  obtain ⟨ahead, due⟩ := before.punctual i started j other
  rw [iteration.clocks, Function.update_of_ne waits, iteration.queues, iteration.remaining_other waits]
  by_cases current : j = vm
  · subst current
    have forward := iteration.forward contained
    rw [Function.update_self, if_pos rfl]
    refine ⟨by omega, fun frame member => ?_⟩
    rcases List.mem_append.mp member with waiting | pushed
    · exact due frame waiting
    · obtain ⟨stamp, read, same⟩ := arrivals_stamp pushed
      obtain ⟨after_start, before_end⟩ := iteration.stamp_between contained read
      have small := iteration.exact_times contained before i j
      rw [iteration.clocks, Function.update_self] at small
      rw [same, delayed_small (by omega)]
      omega
  · rw [Function.update_of_ne current, if_neg current]
    exact ⟨ahead, due⟩

theorem Iteration.lookahead (least : ∀ i, state.virtual_clocks_ns vm ≤ state.virtual_clocks_ns i) :
    Lookahead links eps (fun i => i = vm ∨ ran i) next where
  exact_times := iteration.exact_times contained before
  ordered := iteration.ordered_contained contained before
  punctual := by
    intro i started j other
    by_cases current : i = vm
    · subst current
      exact iteration.punctual_chosen contained before least other
    · exact iteration.punctual_other contained before current (started.resolve_left current) other

end

theorem bounded_lateness {eps : Nat} {initial final : State VM_NUMBER} {slices : List Slice}
    (fresh : ∀ i j, initial.inter_vm_queues i j = [] ∧ initial.scheduled i = false)
    (small : ∀ i j, initial.virtual_clocks_ns j + links.inter_vm_delays_ms i j * 1000000 < 2 ^ 53)
    (every : Machine.Every (step links)
      (fun state slice => ∀ vm ∈ current_vm_index state.virtual_clocks_ns, Contained links eps state vm slice) initial slices)
    (ran : Machine.run (step links) initial slices = some final) : Punctual links eps (final.scheduled · = true) final := by
  have start : Lookahead links eps (initial.scheduled · = true) initial := by
    apply Lookahead.start small (fun i j => (fresh i j).1)
    intro i scheduled
    rw [(fresh i i).2] at scheduled
    cases scheduled
  have lookahead := every.invariant (fun state => Lookahead links eps (state.scheduled · = true) state) start (by
    intro state slice next before contained taken
    obtain ⟨vm, chosen, ⟨iteration⟩⟩ := step_iteration taken
    have after := iteration.lookahead (contained vm chosen) before (current_vm_index_le chosen)
    have scheduled (i : Fin VM_NUMBER) : next.scheduled i = true ↔ i = vm ∨ state.scheduled i = true := by
      rw [iteration.scheduled]
      by_cases current : i = vm <;> simp [current]
    simpa only [scheduled] using after) ran
  exact lookahead.punctual

private def asymmetric : Links 2 where
  inter_vm_delays_ms := ![![0, 2], ![5, 0]]

private def skewed : State 2 where
  virtual_clocks_ns := ![3000000, 0]

private def broadcasts : List Slice :=
  [{ start_exec_time := 0, stop_time := 8300000, virtual_end_time_ns := 8200000, polls :=
      [{ packet := some (1500000, some (List.replicate 6 255)), current_ts := 1600000 },
        { qmp_line := some "timestamp STOP", current_ts := 8400000 }] },
    { start_exec_time := 9000000, stop_time := 19000000, virtual_end_time_ns := 10300000, polls :=
      [{ packet := some (10000000, some (List.replicate 6 255)), current_ts := 10000000 },
        { qmp_line := some "timestamp STOP", current_ts := 20000000 }] }]

set_option maxRecDepth 20000 in
/-- Both slices overshoot, by 0.2 and by 0.1 ms. -/
theorem bounded_lateness_two : ∃ final : State 2, Machine.run (step asymmetric) skewed broadcasts = some final ∧
    (∀ i, final.scheduled i = true) ∧ final.inter_vm_queues 1 0 ≠ [] ∧ Punctual asymmetric 300000 (final.scheduled · = true) final :=
  ⟨_, rfl, by decide, by decide, @bounded_lateness _ _ _ skewed _ broadcasts (by decide) (by decide) (by decide) rfl⟩

end NetworkSimulator.Simulator
