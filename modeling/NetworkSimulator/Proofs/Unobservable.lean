import NetworkSimulator.Proofs.BoundedLateness
import NetworkSimulator.Proofs.FrameConservation
import NetworkSimulator.Simulator.ExactSlice

/-! Running the VMs one at a time is unobservable. Lookahead keeps every frame
from being late, so at all times before its clock a VM has been handed just what
its links deliver, and what it emits follows from that. -/

namespace NetworkSimulator.Simulator
variable {VM_NUMBER : Nat} {links : Links VM_NUMBER} {process : Process VM_NUMBER}

theorem atTime_append (first last : List (Nat × List UInt8)) (time : Nat) :
    atTime (first ++ last) time = atTime first time ++ atTime last time := by
  simp only [atTime, List.filter_append, List.map_append]

theorem mem_atTime {frames : List (Nat × List UInt8)} {time : Nat} {data : List UInt8} :
    data ∈ atTime frames time ↔ (time, data) ∈ frames := by
  simp only [atTime, List.mem_map, List.mem_filter, decide_eq_true_eq, Prod.exists]
  constructor
  · intro found
    obtain ⟨stamp, bytes, ⟨member, rfl⟩, rfl⟩ := found
    exact member
  · intro member
    exact ⟨time, data, ⟨member, rfl⟩, rfl⟩

theorem mem_copies {j i : Fin VM_NUMBER} {time : Nat} {data : List UInt8} {frame : FrameToDeliver} :
    frame ∈ copies links j time (some data) i ↔ links.Reaches j i data ∧ frame = FrameToDeliver.stamp links j i time data := by
  simp only [copies, Links.Reaches]
  split
  next short =>
    constructor
    · intro none
      cases none
    · intro found
      obtain ⟨⟨long, _⟩, _⟩ := found
      omega
  next long =>
    rw [List.mem_append]
    constructor
    · intro found
      rcases found with broadcast | addressed
      · split at broadcast
        next sends => exact ⟨⟨by omega, Or.inl sends⟩, List.mem_singleton.mp broadcast⟩
        next => cases broadcast
      · split at addressed
        next found => exact ⟨⟨by omega, Or.inr found⟩, List.mem_singleton.mp addressed⟩
        next => cases addressed
    · intro found
      rcases found with ⟨⟨_, broadcast | addressed⟩, rfl⟩
      · left
        rw [if_pos broadcast]
        exact List.mem_singleton_self _
      · right
        rw [if_pos addressed]
        exact List.mem_singleton_self _

private theorem mem_received {vm i : Fin VM_NUMBER} {clock start : Nat} {next : Poll} {frame : FrameToDeliver} :
    frame ∈ received links vm clock start next.packet i ↔ ∃ time data, Poll.read clock start next = some (time, data) ∧
      links.Reaches vm i data ∧ frame = FrameToDeliver.stamp links vm i time data := by
  cases packet : next.packet with
  | none => simp [received, Poll.read, packet]
  | some reading =>
    obtain ⟨packet_time, read⟩ := reading
    cases read with
    | none => simp [received, copies, Poll.read, packet]
    | some data =>
      have read : Poll.read clock start next = some (virtual_time clock start packet_time, data) := by
        simp only [Poll.read, packet, Option.bind_eq_bind, Option.bind_some]
      simp only [received, mem_copies, read, Option.some.injEq, Prod.mk.injEq]
      constructor
      · intro copy
        exact ⟨_, _, ⟨rfl, rfl⟩, copy⟩
      · intro found
        obtain ⟨_, _, ⟨rfl, rfl⟩, copy⟩ := found
        exact copy

/-- The frames pushed in a slice are the copies of the frames read in it. -/
theorem mem_news {state : State VM_NUMBER} {vm i : Fin VM_NUMBER} {slice : Slice} {frame : FrameToDeliver} :
    frame ∈ slice.news links state vm i ↔ ∃ time data, (time, data) ∈ slice.reads (state.virtual_clocks_ns vm) ∧
      links.Reaches vm i data ∧ frame = FrameToDeliver.stamp links vm i time data := by
  simp only [Slice.news, arrivals, List.mem_flatMap, mem_received, Slice.reads, List.mem_filterMap]
  constructor
  · intro found
    obtain ⟨next, listed, time, data, read, copy⟩ := found
    exact ⟨time, data, ⟨next, listed, read⟩, copy⟩
  · intro found
    obtain ⟨time, data, ⟨next, listed, read⟩, copy⟩ := found
    exact ⟨next, listed, time, data, read, copy⟩

/-- A frame that is pushed is one that is read. -/
private theorem stamp_read {vm : Fin VM_NUMBER} {clock start stamp : Nat} {next : Poll}
    (pushed : Poll.stamp links vm clock start next = some stamp) : (Poll.read clock start next).map Prod.fst = some stamp := by
  rw [Poll.stamp] at pushed
  split at pushed
  next sends =>
    obtain ⟨i, nonempty⟩ := sends
    obtain ⟨frame, copy⟩ := List.exists_mem_of_ne_nil _ nonempty
    obtain ⟨time, data, read, _⟩ := mem_received.mp copy
    obtain ⟨reading, packet, rfl⟩ := Option.map_eq_some_iff.mp pushed
    simp only [Poll.read, packet, Option.bind_eq_bind, Option.bind_some, Option.bind_eq_some_iff] at read ⊢
    obtain ⟨bytes, found, same⟩ := read
    rw [found, Option.bind_some, Option.map_some]
  next => cases pushed

private theorem stamps_sublist {vm : Fin VM_NUMBER} {clock : Nat} {slice : Slice} :
    (slice.stamps links vm clock).Sublist ((slice.reads clock).map Prod.fst) := by
  rw [Slice.stamps, Slice.reads, List.map_filterMap]
  induction slice.polls with
  | nil => exact List.Sublist.refl _
  | cons next polls ih =>
    cases pushed : Poll.stamp links vm clock slice.start_exec_time next with
    | none =>
      rw [List.filterMap_cons_none pushed]
      exact ih.trans ((List.sublist_cons_self next polls).filterMap _)
    | some stamp =>
      rw [List.filterMap_cons_some pushed,
        List.filterMap_cons_some (f := fun pass => (Poll.read clock slice.start_exec_time pass).map Prod.fst) (stamp_read pushed)]
      exact ih.cons_cons stamp

private theorem Exact.read_between {state next : State VM_NUMBER} {vm : Fin VM_NUMBER} {slice : Slice} {limit : Nat}
    (exact : Exact links process state vm slice limit next) {time : Nat} {data : List UInt8}
    (read : (time, data) ∈ slice.reads (state.virtual_clocks_ns vm)) : state.virtual_clocks_ns vm ≤ time ∧ time < limit := by
  have emitted := exact.emits time
  split at emitted
  next within => exact within
  next outside =>
    have present := mem_atTime.mpr read
    rw [emitted] at present
    cases present

def Logged.log (logged : Logged VM_NUMBER) (i : Fin VM_NUMBER) (time : Nat) : List (List UInt8) := atTime (logged.emitted i) time

/-- No VM addresses a frame to itself. -/
def Process.Outward (process : Process VM_NUMBER) (links : Links VM_NUMBER) : Prop :=
  ∀ j time seen, ∀ data ∈ process j time seen, links.mac_to_vm_index (hexStr (data.take 6)) ≠ some j

/-- The state of a run of exact slices: every VM has done what its process says
until its clock, and every link holds or has handed over what was sent on it. -/
structure Tracks (links : Links VM_NUMBER) (process : Process VM_NUMBER) (start : Nat) (logged : Logged VM_NUMBER) : Prop where
  lookahead : Lookahead links 0 (fun _ => True) logged.state
  started : ∀ i, start ≤ logged.state.virtual_clocks_ns i
  conserved : Conserved logged.state
  sent : ∀ i j frame, frame ∈ logged.state.pushed i j ↔ ∃ time data, data ∈ logged.log j time ∧ links.Reaches j i data ∧
    frame = FrameToDeliver.stamp links j i time data
  nothing : ∀ j time, time < start ∨ logged.state.virtual_clocks_ns j ≤ time → logged.log j time = []
  emits : ∀ j time, start ≤ time → time < logged.state.virtual_clocks_ns j →
    logged.log j time = process j time {arrival ∈ logged.state.handed j | arrival.1 < time}

section
variable {start : Nat} {logged : Logged VM_NUMBER} (tracks : Tracks links process start logged)
include tracks

/-- What a VM has emitted it has emitted before its clock. -/
private theorem Tracks.before_clock {j : Fin VM_NUMBER} {time : Nat} {data : List UInt8} (emitted : data ∈ logged.log j time) :
    start ≤ time ∧ time < logged.state.virtual_clocks_ns j := by
  constructor
  · apply Nat.le_of_not_lt
    intro early
    rw [tracks.nothing j time (Or.inl early)] at emitted
    cases emitted
  · apply Nat.lt_of_not_le
    intro late
    rw [tracks.nothing j time (Or.inr late)] at emitted
    cases emitted

private theorem Tracks.stamp_exact {i j : Fin VM_NUMBER} {time : Nat} {data : List UInt8} (emitted : data ∈ logged.log j time) :
    (FrameToDeliver.stamp links j i time data).delivery_timestamp_ns = time + links.inter_vm_delays_ms i j * 1000000 := by
  have before := (tracks.before_clock emitted).2
  have small := tracks.lookahead.exact_times i j
  exact delayed_small (by omega)

private theorem Tracks.not_self (outward : process.Outward links) {j : Fin VM_NUMBER} {time : Nat} {data : List UInt8}
    (emitted : data ∈ logged.log j time) : ¬ links.Reaches j j data := by
  intro found
  rcases found with ⟨_, broadcast | addressed⟩
  · exact broadcast.2 rfl
  · obtain ⟨after, before⟩ := tracks.before_clock emitted
    rw [tracks.emits j time after before] at emitted
    exact outward j time _ data emitted addressed

/-- No frame waits for a VM that has come past it. -/
private theorem Tracks.waiting_due (outward : process.Outward links) {i j : Fin VM_NUMBER} {frame : FrameToDeliver}
    (waiting : frame ∈ logged.state.inter_vm_queues i j) : logged.state.virtual_clocks_ns i ≤ frame.delivery_timestamp_ns := by
  have other : j ≠ i := by
    intro same
    subst same
    have pushed : frame ∈ logged.state.pushed j j := by
      rw [tracks.conserved j j]
      exact List.mem_append_right _ waiting
    obtain ⟨time, data, emitted, reaches, _⟩ := (tracks.sent j j frame).mp pushed
    exact tracks.not_self outward emitted reaches
  exact (tracks.lookahead.punctual i trivial j other).2 frame waiting

/-- What has been handed to a VM before a time is what its links deliver. -/
theorem Tracks.handed_eq (outward : process.Outward links) {i : Fin VM_NUMBER} {time : Nat}
    (within : time ≤ logged.state.virtual_clocks_ns i) :
    {arrival ∈ logged.state.handed i | arrival.1 < time} = (reference links process).arrivals logged.log i time := by
  apply Set.Subset.antisymm
  · intro arrival found
    obtain ⟨⟨delivery, written, rfl⟩, early⟩ := found
    have pushed : delivery.frame ∈ logged.state.pushed i delivery.sender := by
      rw [tracks.conserved i delivery.sender]
      exact List.mem_append_left _ (Merge.mem_taken.mpr (List.mem_map_of_mem written))
    obtain ⟨sent, data, emitted, reaches, same⟩ := (tracks.sent i delivery.sender delivery.frame).mp pushed
    refine ⟨early, sent, ?_, ?_, ?_⟩
    · rw [same]
      exact tracks.stamp_exact emitted
    · rw [same]
      exact emitted
    · rw [same]
      exact reaches
  · intro found given
    obtain ⟨due, sender, data⟩ := found
    obtain ⟨early, sent, arrives, emitted, reaches⟩ := given
    have stamped : (FrameToDeliver.stamp links sender i sent data).delivery_timestamp_ns = due :=
      (tracks.stamp_exact emitted).trans arrives.symm
    have pushed := (tracks.sent i sender _).mpr ⟨sent, data, emitted, reaches, rfl⟩
    rw [tracks.conserved i sender] at pushed
    refine ⟨?_, early⟩
    rcases List.mem_append.mp pushed with written | waiting
    · obtain ⟨delivery, listed, same⟩ := List.mem_map.mp (Merge.mem_taken.mp written)
      cases congrArg Prod.fst same
      have frame : delivery.frame = _ := congrArg Prod.snd same
      refine ⟨delivery, listed, ?_⟩
      rw [frame, stamped]
      rfl
    · have late := tracks.waiting_due outward waiting
      have in_time : due < time := early
      omega

end

section
variable {state next : State VM_NUMBER} {vm : Fin VM_NUMBER} {slice : Slice} (iteration : Iteration links state vm slice next)
  (exact : Exact links process state vm slice iteration.limit next)
include exact

/-- An exact slice does not overshoot. -/
private theorem Exact.contained
    (small : ∀ i, slice.virtual_end_time_ns + links.inter_vm_delays_ms i vm * 1000000 < 2 ^ 53) :
    Contained links 0 state vm slice := by
  intro limit bound
  cases iteration.bound.symm.trans bound
  have between (stamp : Nat) (pushed : stamp ∈ slice.stamps links vm (state.virtual_clocks_ns vm)) :
      state.virtual_clocks_ns vm ≤ stamp ∧ stamp < iteration.limit := by
    obtain ⟨⟨time, data⟩, read, rfl⟩ := List.mem_map.mp (stamps_sublist.mem pushed)
    exact exact.read_between read
  have forward := clock_le_limit iteration.bound
  refine ⟨exact.ends.le, ?_, small⟩
  rw [exact.ends, List.pairwise_append, List.pairwise_cons]
  refine ⟨⟨fun stamp pushed => (between stamp pushed).1, exact.in_order.sublist stamps_sublist⟩, List.pairwise_singleton _ _, ?_⟩
  intro time before last same
  cases List.mem_singleton.mp same
  rcases List.mem_cons.mp before with rfl | pushed
  · exact forward
  · exact (between time pushed).2.le

/-- And it discards nothing. -/
private theorem Exact.nothing_discarded : iteration.discarded = [] := by
  have written := exact.hands_over
  rw [iteration.written, Function.update_self, List.append_cancel_left_eq, ← iteration.merged] at written
  have entries : iteration.sent.map Delivery.entry = iteration.picks := by
    rw [written, List.map_map]
    exact List.map_id _
  have split := iteration.deque
  rw [entries] at split
  exact List.self_eq_append_right.mp split

end

/-- The log after a slice. -/
private def Logged.after (logged : Logged VM_NUMBER) (vm : Fin VM_NUMBER) (slice : Slice) (next : State VM_NUMBER) : Logged VM_NUMBER :=
  ⟨next, Function.update logged.emitted vm (logged.emitted vm ++ slice.reads (logged.state.virtual_clocks_ns vm))⟩

private theorem Logged.after_self (logged : Logged VM_NUMBER) (vm : Fin VM_NUMBER) (slice : Slice) (next : State VM_NUMBER)
    (time : Nat) : (logged.after vm slice next).log vm time =
      logged.log vm time ++ atTime (slice.reads (logged.state.virtual_clocks_ns vm)) time := by
  simp only [Logged.log, Logged.after, Function.update_self, atTime_append]

private theorem Logged.after_other (logged : Logged VM_NUMBER) {vm j : Fin VM_NUMBER} (slice : Slice) (next : State VM_NUMBER)
    (other : j ≠ vm) (time : Nat) : (logged.after vm slice next).log j time = logged.log j time := by
  simp only [Logged.log, Logged.after, Function.update_of_ne other]

section
variable {start : Nat} {logged : Logged VM_NUMBER} {next : State VM_NUMBER} {vm : Fin VM_NUMBER} {slice : Slice}
  (iteration : Iteration links logged.state vm slice next)
include iteration

private theorem Iteration.handed_other {j : Fin VM_NUMBER} (other : j ≠ vm) : next.handed j = logged.state.handed j := by
  simp only [State.handed, iteration.written, Function.update_of_ne other]

variable (tracks : Tracks links process start logged)
include tracks

/-- A slice hands over nothing that was due before its start. -/
private theorem Iteration.handed_before (outward : process.Outward links) {time : Nat}
    (before : time ≤ logged.state.virtual_clocks_ns vm) :
    {arrival ∈ next.handed vm | arrival.1 < time} = {arrival ∈ logged.state.handed vm | arrival.1 < time} := by
  apply Set.Subset.antisymm
  · intro arrival found
    obtain ⟨⟨delivery, written, rfl⟩, early⟩ := found
    rw [iteration.written, Function.update_self] at written
    rcases List.mem_append.mp written with already | now
    · exact ⟨⟨delivery, already, rfl⟩, early⟩
    · exfalso
      have picked : delivery.entry ∈ iteration.picks := by
        rw [iteration.deque]
        exact List.mem_append_left _ (List.mem_map_of_mem now)
      have due := tracks.waiting_due outward (iteration.extraction.mem_queue picked)
      have in_time : delivery.frame.delivery_timestamp_ns < time := early
      omega
  · intro arrival found
    obtain ⟨⟨delivery, written, rfl⟩, early⟩ := found
    refine ⟨⟨delivery, ?_, rfl⟩, early⟩
    rw [iteration.written, Function.update_self]
    exact List.mem_append_left _ written

variable (exact : Exact links process logged.state vm slice iteration.limit next)
include exact

private theorem Iteration.tracks_sent (i j : Fin VM_NUMBER) (frame : FrameToDeliver) :
    frame ∈ next.pushed i j ↔ ∃ time data, data ∈ (logged.after vm slice next).log j time ∧ links.Reaches j i data ∧
      frame = FrameToDeliver.stamp links j i time data := by
  rw [iteration.pushed]
  by_cases current : j = vm
  · subst current
    simp only [if_true, List.mem_append, tracks.sent, mem_news, Logged.after_self, mem_atTime]
    constructor
    · intro found
      rcases found with ⟨time, data, emitted, copy⟩ | ⟨time, data, read, copy⟩
      · exact ⟨time, data, Or.inl emitted, copy⟩
      · exact ⟨time, data, Or.inr read, copy⟩
    · intro found
      rcases found with ⟨time, data, emitted | read, copy⟩
      · exact Or.inl ⟨time, data, emitted, copy⟩
      · exact Or.inr ⟨time, data, read, copy⟩
  · simp only [if_neg current, tracks.sent, logged.after_other slice next current]

private theorem Iteration.tracks_nothing (j : Fin VM_NUMBER) (time : Nat)
    (outside : time < start ∨ next.virtual_clocks_ns j ≤ time) : (logged.after vm slice next).log j time = [] := by
  rw [iteration.clocks] at outside
  by_cases current : j = vm
  · subst current
    have started := tracks.started j
    have forward := clock_le_limit iteration.bound
    rw [Function.update_self, exact.ends] at outside
    rw [Logged.after_self, tracks.nothing j time (by omega), exact.emits, if_neg (by omega), List.append_nil]
  · rw [Function.update_of_ne current] at outside
    rw [logged.after_other slice next current]
    exact tracks.nothing j time outside

private theorem Iteration.tracks_emits (outward : process.Outward links) (j : Fin VM_NUMBER) (time : Nat) (after : start ≤ time)
    (before : time < next.virtual_clocks_ns j) :
    (logged.after vm slice next).log j time = process j time {arrival ∈ next.handed j | arrival.1 < time} := by
  rw [iteration.clocks] at before
  by_cases current : j = vm
  · subst current
    rw [Function.update_self, exact.ends] at before
    rw [Logged.after_self, exact.emits]
    rcases Nat.lt_or_ge time (logged.state.virtual_clocks_ns j) with earlier | now
    · rw [if_neg (by omega), List.append_nil, tracks.emits j time after earlier, iteration.handed_before tracks outward earlier.le]
    · rw [tracks.nothing j time (Or.inr now), if_pos ⟨now, before⟩, List.nil_append]
  · rw [Function.update_of_ne current] at before
    rw [logged.after_other slice next current, iteration.handed_other current]
    exact tracks.emits j time after before

private theorem Iteration.tracks_after (outward : process.Outward links)
    (least : ∀ i, logged.state.virtual_clocks_ns vm ≤ logged.state.virtual_clocks_ns i)
    (small : ∀ i, slice.virtual_end_time_ns + links.inter_vm_delays_ms i vm * 1000000 < 2 ^ 53) :
    Tracks links process start (logged.after vm slice next) where
  lookahead := by
    have after := iteration.lookahead (exact.contained iteration small) tracks.lookahead least
    simp only [or_true] at after
    exact after
  started := by
    intro i
    have forward := clock_le_limit iteration.bound
    have started := tracks.started i
    simp only [Logged.after, iteration.clocks]
    by_cases current : i = vm
    · subst current
      rw [Function.update_self, exact.ends]
      omega
    · rw [Function.update_of_ne current]
      exact started
  conserved := (iteration.conserved_iff tracks.conserved).mpr (exact.nothing_discarded iteration)
  sent := iteration.tracks_sent tracks exact
  nothing := iteration.tracks_nothing tracks exact
  emits := iteration.tracks_emits tracks exact outward

end

theorem stepBy_iff {choose : (Fin VM_NUMBER → Nat) → Option (Fin VM_NUMBER)} {logged final : Logged VM_NUMBER} {slice : Slice} :
    stepBy choose links logged slice = some final ↔ ∃ vm, choose logged.state.virtual_clocks_ns = some vm ∧
      ∃ next, time_slice links logged.state vm slice = some next ∧ logged.after vm slice next = final := by
  simp only [stepBy, Option.bind_eq_bind, Option.bind_eq_some_iff, Option.some.injEq, Logged.after]

/-- The main loop is the one that chooses the first VM with the least clock. -/
theorem stepBy_step (logged : Logged VM_NUMBER) (slice : Slice) :
    (stepBy current_vm_index links logged slice).map Logged.state = step links logged.state slice := by
  simp only [stepBy, step, Option.bind_eq_bind, Option.map_bind, Function.comp_def, Option.map_some, Option.bind_fun_some]

theorem Tracks.start {start : Nat} (small : ∀ i j, start + links.inter_vm_delays_ms i j * 1000000 < 2 ^ 53) :
    Tracks links process start ⟨{ virtual_clocks_ns := fun _ => start }, fun _ => []⟩ where
  lookahead := by
    apply Lookahead.start small (fun _ _ => rfl)
    intro i _ j _
    rw [Nat.add_zero]
    exact Nat.le_add_right _ _
  started _ := Nat.le_refl _
  conserved _ _ := rfl
  sent i j frame := by
    constructor
    · intro none
      cases none
    · intro found
      obtain ⟨_, _, none, _⟩ := found
      cases none
  nothing _ _ _ := rfl
  emits j time after before := absurd after (Nat.not_le.mpr before)

theorem Tracks.causal {start : Nat} {logged : Logged VM_NUMBER} (tracks : Tracks links process start logged)
    (outward : process.Outward links) :
    Lockstep.Causal (reference links process) start logged.state.virtual_clocks_ns logged.log where
  emits j time after before := by
    rw [tracks.emits j time after before, tracks.handed_eq outward before.le]
    rfl
  nothing := tracks.nothing
  lookahead i j other := by
    have ahead := (tracks.lookahead.punctual i trivial j other.symm).1
    rw [Nat.add_zero] at ahead
    exact ahead

/-- Whichever VM is chosen among those with the least clock: what VM `i` has
emitted, and what it has been handed that was due before its clock, is what it
emits and gets when all VMs advance together. -/
theorem one_at_a_time_unobservable {choose : (Fin VM_NUMBER → Nat) → Option (Fin VM_NUMBER)} {start : Nat}
    {slices : List Slice} {final : Logged VM_NUMBER}
    (least : ∀ virtual_clocks_ns vm, choose virtual_clocks_ns = some vm → ∀ i, virtual_clocks_ns vm ≤ virtual_clocks_ns i)
    (outward : process.Outward links) (small : ∀ i j, start + links.inter_vm_delays_ms i j * 1000000 < 2 ^ 53)
    (every : Machine.Every (stepBy choose links) (fun logged slice => ∀ vm ∈ choose logged.state.virtual_clocks_ns,
      ExactSlice links process logged.state vm slice ∧
        ∀ i, slice.virtual_end_time_ns + links.inter_vm_delays_ms i vm * 1000000 < 2 ^ 53)
      ⟨{ virtual_clocks_ns := fun _ => start }, fun _ => []⟩ slices)
    (ran : Machine.run (stepBy choose links) ⟨{ virtual_clocks_ns := fun _ => start }, fun _ => []⟩ slices = some final)
    (i : Fin VM_NUMBER) :
    let ticks := final.state.virtual_clocks_ns i - start
    final.log i = (reference links process).together start ticks i ∧
      {arrival ∈ final.state.handed i | arrival.1 < final.state.virtual_clocks_ns i} =
        (reference links process).arrivals ((reference links process).together start ticks) i (final.state.virtual_clocks_ns i) := by
  intro ticks
  have tracks := every.invariant (Tracks links process start) (Tracks.start small) (by
    intro logged slice next tracks exact taken
    obtain ⟨vm, chosen, reached, sliced, rfl⟩ := stepBy_iff.mp taken
    obtain ⟨iteration⟩ := time_slice_iteration sliced
    obtain ⟨exact, small⟩ := exact vm chosen
    exact iteration.tracks_after tracks (exact _ iteration.bound _ sliced) outward (least _ vm chosen) small) ran
  have causal := tracks.causal outward
  have started := tracks.started i
  constructor
  · funext time
    rcases Nat.lt_or_ge time (final.state.virtual_clocks_ns i) with before | after
    · exact causal.eq_together before (by omega)
    · rw [tracks.nothing i time (Or.inr after), Lockstep.together_outside (Or.inr (by omega))]
  · rw [tracks.handed_eq outward (Nat.le_refl _)]
    exact causal.arrivals_eq (Nat.le_refl _) (by omega)

private def near : Links 2 where
  inter_vm_delays_ms := fun _ _ => 1
  mac_to_vm_index := fun mac => if mac = "52:54:00:00:00:01" then some (Fin.last 1) else none

private def greeting : List UInt8 := [0x52, 0x54, 0, 0, 0, 1]

/-- VM 0 sends one frame to VM 1, when it starts. -/
private def greet (start : Nat) : Process 2 := fun j time _ => if j.val = 0 ∧ time = start then [greeting] else []

/-- A slice of each VM; both are `late` ns longer than the delay says. -/
private def greetSlices (start late : Nat) : List Slice :=
  [{ start_exec_time := 0, stop_time := 1000000 + late, virtual_end_time_ns := start + (1000000 + late), polls :=
      [{ packet := some (0, some greeting) }, { qmp_line := some "timestamp STOP", current_ts := 1000000 + late }] },
    { start_exec_time := 0, stop_time := 2000000 + late, virtual_end_time_ns := start + (2000000 + late), polls :=
      [{ current_ts := 1000000 + late }, { qmp_line := some "timestamp STOP", current_ts := 2000000 + late }] }]

private theorem greet_outward (start : Nat) : (greet start).Outward near := by
  intro j time seen data emitted
  simp only [greet] at emitted
  split at emitted
  next first =>
    cases List.mem_singleton.mp emitted
    intro same
    have mac : near.mac_to_vm_index (hexStr (greeting.take 6)) = some (Fin.last 1) := by decide
    cases mac.symm.trans same
    exact absurd first.1 (by decide)
  next => cases emitted

/-- That a slice is exact can be computed when nobody answers. -/
private def GreetSlice (start : Nat) (state : State 2) (vm : Fin 2) (slice : Slice) : Prop :=
  ∀ limit ∈ end_of_time_slice_ns near state.virtual_clocks_ns vm, ∀ next ∈ time_slice near state vm slice,
    slice.virtual_end_time_ns = limit ∧
    slice.reads (state.virtual_clocks_ns vm) =
      (if vm.val = 0 ∧ state.virtual_clocks_ns vm ≤ start ∧ start < limit then [(start, greeting)] else []) ∧
    next.written vm = state.written vm ++ (state.begin vm limit).deque_to_deliver.map fun entry =>
      ⟨entry.1, entry.2, entry.2.delivery_timestamp_ns⟩

private instance (start : Nat) (state : State 2) (vm : Fin 2) (slice : Slice) : Decidable (GreetSlice start state vm slice) :=
  inferInstanceAs (Decidable (∀ limit ∈ end_of_time_slice_ns _ _ vm, ∀ next ∈ time_slice _ _ vm _, _ ∧ _ ∧ _ = _))

private theorem GreetSlice.exact {start : Nat} {state : State 2} {vm : Fin 2} {slice : Slice} (greets : GreetSlice start state vm slice) :
    ExactSlice near (greet start) state vm slice := by
  intro limit bound next taken
  obtain ⟨ends, reads, hands_over⟩ := greets limit bound next taken
  refine ⟨ends, ?_, fun time => ?_, hands_over⟩
  · rw [reads]
    split
    · exact List.pairwise_singleton _ _
    · exact List.Pairwise.nil
  · rw [reads, greet]
    by_cases now : time = start
    · subst now
      split <;> grind [atTime]
    · split <;> grind [atTime]

set_option maxRecDepth 20000 in
theorem one_at_a_time_unobservable_two : ∃ final : Logged 2,
    Machine.run (stepBy current_vm_index near) ⟨{ virtual_clocks_ns := fun _ => 0 }, fun _ => []⟩ (greetSlices 0 0) = some final ∧
    final.state.virtual_clocks_ns 1 = 2000000 ∧ (final.state.written 1).length = 1 ∧
    {arrival ∈ final.state.handed 1 | arrival.1 < 2000000} =
      (reference near (greet 0)).arrivals ((reference near (greet 0)).together 0 2000000) 1 2000000 := by
  have greets : Machine.Every (stepBy current_vm_index near)
      (fun logged slice => ∀ vm ∈ current_vm_index logged.state.virtual_clocks_ns, GreetSlice 0 logged.state vm slice ∧
        ∀ i, slice.virtual_end_time_ns + near.inter_vm_delays_ms i vm * 1000000 < 2 ^ 53)
      ⟨{ virtual_clocks_ns := fun _ => 0 }, fun _ => []⟩ (greetSlices 0 0) := by decide +kernel
  refine ⟨_, rfl, rfl, rfl, ?_⟩
  exact (one_at_a_time_unobservable (fun _ _ => current_vm_index_le) (greet_outward 0) (by decide)
    (greets.imp fun _ _ met vm chosen => ⟨(met vm chosen).1.exact, (met vm chosen).2⟩) rfl 1).2

set_option maxRecDepth 20000 in
/-- A frame sent at 2^54 - 2 is due 10^6 ns later, which is no binary64 value. -/
theorem rounded_arrival_observable : ∃ (process : Process 2) (final : Logged 2), process.Outward near ∧
    (∀ i j, 1 ≤ near.inter_vm_delays_ms i j) ∧
    Machine.Every (stepBy current_vm_index near)
      (fun logged slice => ∀ vm ∈ current_vm_index logged.state.virtual_clocks_ns, ExactSlice near process logged.state vm slice)
      ⟨{ virtual_clocks_ns := fun _ => 2 ^ 54 - 2 }, fun _ => []⟩ (greetSlices (2 ^ 54 - 2) 2) ∧
    Machine.run (stepBy current_vm_index near) ⟨{ virtual_clocks_ns := fun _ => 2 ^ 54 - 2 }, fun _ => []⟩
      (greetSlices (2 ^ 54 - 2) 2) = some final ∧
    {arrival ∈ final.state.handed 1 | arrival.1 < final.state.virtual_clocks_ns 1} ≠
      (reference near process).arrivals ((reference near process).together (2 ^ 54 - 2)
        (final.state.virtual_clocks_ns 1 - (2 ^ 54 - 2))) 1 (final.state.virtual_clocks_ns 1) := by
  have greets : Machine.Every (stepBy current_vm_index near)
      (fun logged slice => ∀ vm ∈ current_vm_index logged.state.virtual_clocks_ns, GreetSlice (2 ^ 54 - 2) logged.state vm slice)
      ⟨{ virtual_clocks_ns := fun _ => 2 ^ 54 - 2 }, fun _ => []⟩ (greetSlices (2 ^ 54 - 2) 2) := by decide +kernel
  obtain ⟨final, ran, late, clock⟩ : ∃ final : Logged 2,
      Machine.run (stepBy current_vm_index near) ⟨{ virtual_clocks_ns := fun _ => 2 ^ 54 - 2 }, fun _ => []⟩
        (greetSlices (2 ^ 54 - 2) 2) = some final ∧
      (∀ delivery ∈ final.state.written 1, delivery.frame.delivery_timestamp_ns = 2 ^ 54 + 1000000) ∧
      final.state.virtual_clocks_ns 1 = 2 ^ 54 + 2000000 := by
    refine ⟨_, rfl, ?_, ?_⟩ <;> decide +kernel
  refine ⟨greet (2 ^ 54 - 2), final, greet_outward _, by decide, greets.imp fun _ _ met vm chosen => (met vm chosen).exact, ran, ?_⟩
  rw [clock]
  intro same
  have present : ((2 ^ 54 - 2 + 1000000, 0, greeting) : Nat × Fin 2 × List UInt8) ∈
      (reference near (greet (2 ^ 54 - 2))).arrivals ((reference near (greet (2 ^ 54 - 2))).together (2 ^ 54 - 2)
        (2 ^ 54 + 2000000 - (2 ^ 54 - 2))) 1 (2 ^ 54 + 2000000) := by
    refine ⟨by decide, 2 ^ 54 - 2, rfl, ?_, by decide, Or.inr (by decide)⟩
    rw [Lockstep.together_emit (Nat.le_refl _) (by omega)]
    exact List.mem_singleton_self greeting
  rw [← same] at present
  obtain ⟨⟨delivery, written, arrives⟩, _⟩ := present
  have due := late delivery written
  have equal := congrArg Prod.fst arrives
  simp only at equal
  omega

end NetworkSimulator.Simulator
