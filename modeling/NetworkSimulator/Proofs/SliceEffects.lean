import NetworkSimulator.Proofs.FrameMerge

/-! What one iteration of the main loop can do: it moves the due frames into the
deque, writes a part of the deque, and appends what it reads to one column of the
queues. Everything later is derived from `Iteration`. -/

namespace NetworkSimulator.Simulator
variable {VM_NUMBER : Nat} {links : Links VM_NUMBER}

/-- The frames pushed for VM `i` after a read. -/
def copies (links : Links VM_NUMBER) (current_vm_index : Fin VM_NUMBER) (packet_virtual_time_ns : Nat) (read : Option (List UInt8))
    (i : Fin VM_NUMBER) : List FrameToDeliver :=
  match read with
  | none => []
  | some data =>
    let frame := FrameToDeliver.stamp links current_vm_index i packet_virtual_time_ns data
    let dest_mac := hexStr (data.take 6)
    if data.length < 6 then []
    else (if dest_mac = "ff:ff:ff:ff:ff:ff" ∧ i ≠ current_vm_index then [frame] else []) ++
      (if links.mac_to_vm_index dest_mac = some i then [frame] else [])

theorem copies_stamp {current_vm_index : Fin VM_NUMBER} {packet_virtual_time_ns : Nat} {read : Option (List UInt8)}
    {i : Fin VM_NUMBER} {frame : FrameToDeliver} (copy : frame ∈ copies links current_vm_index packet_virtual_time_ns read i) :
    frame.delivery_timestamp_ns = delayed packet_virtual_time_ns (links.inter_vm_delays_ms i current_vm_index) := by
  cases read with
  | none => cases copy
  | some data =>
    simp only [copies] at copy
    split at copy
    · cases copy
    · rcases List.mem_append.mp copy with broadcast | addressed
      · split at broadcast
        · cases List.mem_singleton.mp broadcast
          rfl
        · cases broadcast
      · split at addressed
        · cases List.mem_singleton.mp addressed
          rfl
        · cases addressed

/-- Push a list of frames of VM `j` for every VM. -/
def State.extend (state : State VM_NUMBER) (j : Fin VM_NUMBER) (news : Fin VM_NUMBER → List FrameToDeliver) : State VM_NUMBER :=
  { state with
    inter_vm_queues := fun i k => if k = j then state.inter_vm_queues i k ++ news i else state.inter_vm_queues i k
    pushed := fun i k => if k = j then state.pushed i k ++ news i else state.pushed i k }

/-- Write frames to the TAP of VM `i`. -/
def State.write (state : State VM_NUMBER) (i : Fin VM_NUMBER) (sent : List (Delivery VM_NUMBER)) : State VM_NUMBER :=
  { state with written := Function.update state.written i (state.written i ++ sent) }

theorem State.extend_nil (state : State VM_NUMBER) (j : Fin VM_NUMBER) : state.extend j (fun _ => []) = state := by
  simp only [State.extend, List.append_nil, ite_self]

theorem State.extend_extend (state : State VM_NUMBER) (j : Fin VM_NUMBER) (first last : Fin VM_NUMBER → List FrameToDeliver) :
    (state.extend j first).extend j last = state.extend j (fun i => first i ++ last i) := by
  simp only [State.extend, State.mk.injEq, true_and, and_true]
  constructor
  all_goals
    funext i k
    split <;> simp only [List.append_assoc]

theorem State.write_nil (state : State VM_NUMBER) (i : Fin VM_NUMBER) : state.write i [] = state := by
  simp only [State.write, List.append_nil, Function.update_eq_self]

theorem State.write_write (state : State VM_NUMBER) (i : Fin VM_NUMBER) (first last : List (Delivery VM_NUMBER)) :
    (state.write i first).write i last = state.write i (first ++ last) := by
  simp only [State.write, Function.update_self, Function.update_idem, List.append_assoc]

theorem State.write_extend (state : State VM_NUMBER) (i j : Fin VM_NUMBER) (sent : List (Delivery VM_NUMBER))
    (news : Fin VM_NUMBER → List FrameToDeliver) : (state.write i sent).extend j news = (state.extend j news).write i sent := rfl

theorem State.push_extend (state : State VM_NUMBER) (j : Fin VM_NUMBER) (receives : Fin VM_NUMBER → Bool)
    (frame : Fin VM_NUMBER → FrameToDeliver) :
    state.push j receives frame = state.extend j (fun i => if receives i then [frame i] else []) := by
  simp only [State.push, State.extend, State.mk.injEq, true_and, and_true]
  constructor
  all_goals
    funext i k
    by_cases column : k = j <;> by_cases received : receives i = true <;> simp [column, received]

private theorem push_broadcast (state : State VM_NUMBER) (j : Fin VM_NUMBER) (broadcast : Prop) [Decidable broadcast]
    (frame : Fin VM_NUMBER → FrameToDeliver) :
    (if broadcast then state.push j (· ≠ j) frame else state) =
      state.extend j (fun i => if broadcast ∧ i ≠ j then [frame i] else []) := by
  split
  next sends =>
    rw [State.push_extend]
    simp only [decide_eq_true_eq, sends, true_and]
  next silent =>
    simp only [silent, false_and, if_false, State.extend_nil]

theorem dispatch_extend {state next : State VM_NUMBER} {current_vm_index : Fin VM_NUMBER} {packet_virtual_time_ns : Nat}
    {read : Option (List UInt8)} (done : dispatch links state current_vm_index packet_virtual_time_ns read = some next) :
    next = state.extend current_vm_index (copies links current_vm_index packet_virtual_time_ns read) := by
  cases read with
  | none =>
    simp only [dispatch] at done
    split at done
    · cases done
    · cases done
      exact (State.extend_nil state current_vm_index).symm
  | some data =>
    simp only [dispatch] at done
    split at done
    next long =>
      have copied : copies links current_vm_index packet_virtual_time_ns (some data) = fun i =>
          (if hexStr (data.take 6) = "ff:ff:ff:ff:ff:ff" ∧ i ≠ current_vm_index then
            [FrameToDeliver.stamp links current_vm_index i packet_virtual_time_ns data] else []) ++
          (if links.mac_to_vm_index (hexStr (data.take 6)) = some i then
            [FrameToDeliver.stamp links current_vm_index i packet_virtual_time_ns data] else []) := by
        funext i
        simp only [copies, if_neg (Nat.not_lt.mpr long)]
      rw [push_broadcast] at done
      rw [copied, ← State.extend_extend]
      cases found : links.mac_to_vm_index (hexStr (data.take 6)) with
      | none =>
        simp only [found, Option.some.injEq] at done
        simp only [reduceCtorEq, if_false, State.extend_nil]
        exact done.symm
      | some dest_vm_index =>
        simp only [found, Option.some.injEq] at done
        rw [← done, State.push_extend]
        simp only [decide_eq_true_eq, Option.some.injEq, @eq_comm _ dest_vm_index]
    next short =>
      cases done
      have ignored : copies links current_vm_index packet_virtual_time_ns (some data) = fun _ => [] := by
        funext i
        simp only [copies, if_pos (Nat.lt_of_not_le short)]
      rw [ignored, State.extend_nil]

/-- The frames a pass of the polling loop pushes for VM `i`. -/
def received (links : Links VM_NUMBER) (current_vm_index : Fin VM_NUMBER) (clock start : Nat) (packet : Option (Nat × Option (List UInt8)))
    (i : Fin VM_NUMBER) : List FrameToDeliver :=
  match packet with
  | none => []
  | some (packet_time, read) => copies links current_vm_index (virtual_time clock start packet_time) read i

theorem receive_extend {state next : State VM_NUMBER} {current_vm_index : Fin VM_NUMBER} {start : Nat}
    {packet : Option (Nat × Option (List UInt8))} (done : receive links state current_vm_index start packet = some next) :
    next = state.extend current_vm_index
      (received links current_vm_index (state.virtual_clocks_ns current_vm_index) start packet) := by
  cases packet with
  | none =>
    cases done
    exact (State.extend_nil state current_vm_index).symm
  | some reading => exact dispatch_extend done

/-- The deque is cut where the binary search says. -/
def due (current_virtual_time_estimation_ns : Nat) (deque_to_deliver : List (Fin VM_NUMBER × FrameToDeliver)) : Nat :=
  Search.upperBound (fun entry => decide (current_virtual_time_estimation_ns < entry.2.delivery_timestamp_ns)) deque_to_deliver

def deliveries (current_virtual_time_estimation_ns : Nat) (deque_to_deliver : List (Fin VM_NUMBER × FrameToDeliver)) :
    List (Delivery VM_NUMBER) :=
  (deque_to_deliver.take (due current_virtual_time_estimation_ns deque_to_deliver)).map fun entry =>
    ⟨entry.1, entry.2, current_virtual_time_estimation_ns⟩

theorem poll_effect {current_vm_index : Fin VM_NUMBER} {start : Nat} {running after : Running VM_NUMBER} {next : Poll}
    (done : poll links current_vm_index start running next = some after) :
    let clock := running.state.virtual_clocks_ns current_vm_index
    let estimate := virtual_time clock start next.current_ts
    after.state = (running.state.extend current_vm_index (received links current_vm_index clock start next.packet)).write
      current_vm_index (deliveries estimate running.deque_to_deliver) ∧
    after.deque_to_deliver = running.deque_to_deliver.drop (due estimate running.deque_to_deliver) := by
  intro clock estimate
  simp only [poll, Option.bind_eq_bind, Option.bind_eq_some_iff] at done
  obtain ⟨state, taken, delivered⟩ := done
  cases receive_extend taken
  split at delivered
  next idle =>
    cases delivered
    have none_due : deliveries estimate running.deque_to_deliver = [] := by
      simp only [deliveries, idle, List.take_nil, List.map_nil]
    refine ⟨?_, ?_⟩
    · rw [none_due, State.write_nil]
    · simp only [idle, List.drop_nil]
  next =>
    cases delivered
    exact ⟨rfl, rfl⟩

theorem listen_cons_iff {current_vm_index : Fin VM_NUMBER} {start : Nat} {running final : Running VM_NUMBER} {next : Poll}
    {polls : List Poll} :
    listen links current_vm_index start running (next :: polls) = some final ↔
      running.has_got_stop_event = false ∧ ∃ middle, poll links current_vm_index start running next = some middle ∧
        listen links current_vm_index start middle polls = some final := by
  rw [listen]
  cases running.has_got_stop_event with
  | true => simp only [if_true, reduceCtorEq, Bool.true_eq_false, false_and]
  | false => simp only [Bool.false_eq_true, if_false, true_and, Option.bind_eq_bind, Option.bind_eq_some_iff]

def arrivals (links : Links VM_NUMBER) (current_vm_index : Fin VM_NUMBER) (clock start : Nat) (polls : List Poll) (i : Fin VM_NUMBER) :
    List FrameToDeliver :=
  polls.flatMap fun next => received links current_vm_index clock start next.packet i

def Delivery.entry (delivery : Delivery VM_NUMBER) : Fin VM_NUMBER × FrameToDeliver := (delivery.sender, delivery.frame)

def Delivery.Due (delivery : Delivery VM_NUMBER) : Prop :=
  delivery.frame.delivery_timestamp_ns ≤ delivery.current_virtual_time_estimation_ns

/-- A deque the binary search can search. -/
def Sorted (deque_to_deliver : List (Fin VM_NUMBER × FrameToDeliver)) : Prop :=
  deque_to_deliver.Pairwise fun a b => a.2.delivery_timestamp_ns ≤ b.2.delivery_timestamp_ns

theorem deliveries_entries (estimate : Nat) (deque_to_deliver : List (Fin VM_NUMBER × FrameToDeliver)) :
    (deliveries estimate deque_to_deliver).map Delivery.entry ++ deque_to_deliver.drop (due estimate deque_to_deliver) =
      deque_to_deliver := by
  have entries : (deliveries estimate deque_to_deliver).map Delivery.entry =
      deque_to_deliver.take (due estimate deque_to_deliver) := by
    rw [deliveries, List.map_map]
    exact List.map_id _
  rw [entries, List.take_append_drop]

/-- From a sorted deque only frames that are due are written. -/
theorem deliveries_due {estimate : Nat} {deque_to_deliver : List (Fin VM_NUMBER × FrameToDeliver)}
    (sorted : Sorted deque_to_deliver) {delivery : Delivery VM_NUMBER}
    (member : delivery ∈ deliveries estimate deque_to_deliver) : delivery.Due := by
  have boundary : due estimate deque_to_deliver = _ := Search.upperBound_sorted sorted estimate
  obtain ⟨entry, early, rfl⟩ := List.mem_map.mp member
  rw [boundary, ← List.prefix_iff_eq_take.mp (List.takeWhile_prefix _)] at early
  exact Nat.le_of_ble_eq_true (by simpa using List.mem_takeWhile_imp early)

/-- Where every frame is due, all are written, in whatever order they are. -/
theorem due_all {estimate : Nat} {deque_to_deliver : List (Fin VM_NUMBER × FrameToDeliver)}
    (all : ∀ entry ∈ deque_to_deliver, entry.2.delivery_timestamp_ns ≤ estimate) :
    deque_to_deliver.drop (due estimate deque_to_deliver) = [] := by
  have boundary : due estimate deque_to_deliver = deque_to_deliver.length :=
    Search.upperBound_all fun entry member => decide_eq_false (Nat.not_lt.mpr (all entry member))
  rw [boundary, List.drop_length]

theorem listen_effect {current_vm_index : Fin VM_NUMBER} {start : Nat} {running final : Running VM_NUMBER} {polls : List Poll}
    (ran : listen links current_vm_index start running polls = some final) :
    ∃ sent : List (Delivery VM_NUMBER),
      final.state = (running.state.extend current_vm_index
        (arrivals links current_vm_index (running.state.virtual_clocks_ns current_vm_index) start polls)).write current_vm_index sent ∧
      running.deque_to_deliver = sent.map Delivery.entry ++ final.deque_to_deliver ∧
      (Sorted running.deque_to_deliver → ∀ delivery ∈ sent, delivery.Due) ∧
      ∀ delivery ∈ sent, ∃ next ∈ polls, delivery.current_virtual_time_estimation_ns =
        virtual_time (running.state.virtual_clocks_ns current_vm_index) start next.current_ts := by
  induction polls generalizing running with
  | nil =>
    rw [listen] at ran
    split at ran
    · cases ran
      refine ⟨[], ?_, rfl, ?_, ?_⟩
      · rw [State.write_nil]
        exact (State.extend_nil _ _).symm
      · intro _ delivery none
        cases none
      · intro delivery none
        cases none
    · cases ran
  | cons next polls ih =>
    obtain ⟨_, middle, polled, later⟩ := listen_cons_iff.mp ran
    obtain ⟨state, deque⟩ := poll_effect polled
    obtain ⟨sent, final_state, final_deque, final_due, final_estimates⟩ := ih later
    let estimate := virtual_time (running.state.virtual_clocks_ns current_vm_index) start next.current_ts
    have entries := deliveries_entries estimate running.deque_to_deliver
    have same_clock : middle.state.virtual_clocks_ns = running.state.virtual_clocks_ns := by
      rw [state]
      rfl
    refine ⟨deliveries estimate running.deque_to_deliver ++ sent, ?_, ?_, ?_, ?_⟩
    · rw [final_state, state, State.write_extend, State.extend_extend, State.write_write]
      rfl
    · rw [List.map_append, List.append_assoc, ← final_deque, deque]
      exact entries.symm
    · intro sorted delivery member
      rcases List.mem_append.mp member with now | afterwards
      · exact deliveries_due sorted now
      · refine final_due ?_ delivery afterwards
        rw [deque]
        exact List.Pairwise.drop sorted
    · intro delivery member
      rcases List.mem_append.mp member with now | afterwards
      · obtain ⟨entry, _, rfl⟩ := List.mem_map.mp now
        exact ⟨next, List.mem_cons_self, rfl⟩
      · obtain ⟨pass, listed, same⟩ := final_estimates delivery afterwards
        rw [same_clock] at same
        exact ⟨pass, List.mem_cons_of_mem next listed, same⟩

/-- The pass that reads STOP still delivers, so it empties a deque that is due. -/
theorem listen_flushes {current_vm_index : Fin VM_NUMBER} {start : Nat} {running final : Running VM_NUMBER} {polls : List Poll}
    {last : Poll} (ran : listen links current_vm_index start running polls = some final) (stop : polls.getLast? = some last)
    (all : ∀ entry ∈ running.deque_to_deliver, entry.2.delivery_timestamp_ns ≤
      virtual_time (running.state.virtual_clocks_ns current_vm_index) start last.current_ts) :
    final.deque_to_deliver = [] := by
  induction polls generalizing running with
  | nil => cases stop
  | cons next polls ih =>
    obtain ⟨_, middle, polled, later⟩ := listen_cons_iff.mp ran
    obtain ⟨state, deque⟩ := poll_effect polled
    have same_clock : middle.state.virtual_clocks_ns = running.state.virtual_clocks_ns := by
      rw [state]
      rfl
    cases polls with
    | nil =>
      cases stop
      rw [listen] at later
      split at later
      · cases later
        rw [deque]
        exact due_all all
      · cases later
    | cons second rest =>
      apply ih later stop
      intro entry member
      rw [deque] at member
      rw [same_clock]
      exact all entry (List.mem_of_mem_drop member)

/-- What the slice of a VM pushes for VM `i`. -/
def Slice.news (links : Links VM_NUMBER) (state : State VM_NUMBER) (vm : Fin VM_NUMBER) (slice : Slice) (i : Fin VM_NUMBER) :
    List FrameToDeliver :=
  arrivals links vm (state.virtual_clocks_ns vm) slice.start_exec_time slice.polls i

/-- One iteration of the main loop: the end of the slice, the frames merged and
those left in the queues, the frames written and those discarded with the deque,
and the last pass. -/
structure Iteration (links : Links VM_NUMBER) (state : State VM_NUMBER) (vm : Fin VM_NUMBER) (slice : Slice)
    (next : State VM_NUMBER) where
  limit : Nat
  picks : List (Fin VM_NUMBER × FrameToDeliver)
  rest : Fin VM_NUMBER → List FrameToDeliver
  sent : List (Delivery VM_NUMBER)
  discarded : List (Fin VM_NUMBER × FrameToDeliver)
  last : Poll
  bound : end_of_time_slice_ns links state.virtual_clocks_ns vm = some limit
  merged : picks = (state.begin vm limit).deque_to_deliver
  extraction : Merge.Extraction FrameToDeliver.delivery_timestamp_ns limit (state.inter_vm_queues vm) picks rest
  deque : picks = sent.map Delivery.entry ++ discarded
  prompt : Sorted picks → ∀ delivery ∈ sent, delivery.Due
  estimates : ∀ delivery ∈ sent, ∃ pass ∈ slice.polls, delivery.current_virtual_time_estimation_ns =
    virtual_time (state.virtual_clocks_ns vm) slice.start_exec_time pass.current_ts
  stop : slice.polls.getLast? = some last
  flushed : (∀ entry ∈ picks, entry.2.delivery_timestamp_ns ≤
    virtual_time (state.virtual_clocks_ns vm) slice.start_exec_time last.current_ts) → discarded = []
  result : next = ((({ state with inter_vm_queues := Function.update state.inter_vm_queues vm rest } : State VM_NUMBER).extend
    vm (slice.news links state vm)).write vm sent).finish vm slice.virtual_end_time_ns

theorem time_slice_iteration {state next : State VM_NUMBER} {vm : Fin VM_NUMBER} {slice : Slice}
    (taken : time_slice links state vm slice = some next) : Nonempty (Iteration links state vm slice next) := by
  simp only [time_slice, Option.bind_eq_bind, Option.bind_eq_some_iff, Option.some.injEq] at taken
  obtain ⟨limit, bound, running, ran, rfl⟩ := taken
  have extraction := merge_extraction limit (Nat.lt_succ_self (frames (state.inter_vm_queues vm)))
  obtain ⟨sent, final_state, deque, prompt, estimates⟩ := listen_effect ran
  obtain ⟨last, stop⟩ : ∃ last, slice.polls.getLast? = some last := by
    cases passes : slice.polls with
    | nil =>
      rw [passes] at ran
      cases ran
    | cons first rest => exact ⟨_, List.getLast?_eq_some_getLast (List.cons_ne_nil first rest)⟩
  refine ⟨⟨limit, _, _, sent, running.deque_to_deliver, last, bound, rfl, extraction, deque, prompt, estimates, stop,
    listen_flushes ran stop, ?_⟩⟩
  rw [final_state]
  rfl

theorem step_iteration {state next : State VM_NUMBER} {slice : Slice} (taken : step links state slice = some next) :
    ∃ vm, current_vm_index state.virtual_clocks_ns = some vm ∧ Nonempty (Iteration links state vm slice next) := by
  obtain ⟨vm, chosen, ran⟩ := Option.bind_eq_some_iff.mp taken
  exact ⟨vm, chosen, time_slice_iteration ran⟩

section
variable {state next : State VM_NUMBER} {vm : Fin VM_NUMBER} {slice : Slice} (iteration : Iteration links state vm slice next)
include iteration

theorem Iteration.clocks : next.virtual_clocks_ns = Function.update state.virtual_clocks_ns vm slice.virtual_end_time_ns :=
  congrArg State.virtual_clocks_ns iteration.result

theorem Iteration.scheduled : next.scheduled = Function.update state.scheduled vm true :=
  congrArg State.scheduled iteration.result

theorem Iteration.written : next.written = Function.update state.written vm (state.written vm ++ iteration.sent) :=
  congrArg State.written iteration.result

theorem Iteration.pushed (i j : Fin VM_NUMBER) :
    next.pushed i j = if j = vm then state.pushed i j ++ slice.news links state vm i else state.pushed i j :=
  congrArg (fun (reached : State VM_NUMBER) => reached.pushed i j) iteration.result

/-- What is left of a queue, before the slice pushes to it. -/
def Iteration.remaining (i j : Fin VM_NUMBER) : List FrameToDeliver :=
  Function.update state.inter_vm_queues vm iteration.rest i j

theorem Iteration.queues (i j : Fin VM_NUMBER) : next.inter_vm_queues i j =
    if j = vm then iteration.remaining i j ++ slice.news links state vm i else iteration.remaining i j :=
  congrArg (fun (reached : State VM_NUMBER) => reached.inter_vm_queues i j) iteration.result

theorem Iteration.remaining_self (j : Fin VM_NUMBER) : iteration.remaining vm j = iteration.rest j := by
  rw [remaining, Function.update_self]

theorem Iteration.remaining_other {i : Fin VM_NUMBER} (other : i ≠ vm) (j : Fin VM_NUMBER) :
    iteration.remaining i j = state.inter_vm_queues i j := by
  rw [remaining, Function.update_of_ne other]

/-- Merging only shortens queues, at the front. -/
theorem Iteration.remaining_suffix (i j : Fin VM_NUMBER) : iteration.remaining i j <:+ state.inter_vm_queues i j := by
  by_cases same : i = vm
  · subst same
    rw [iteration.remaining_self, iteration.extraction.split j]
    exact List.suffix_append _ _
  · rw [iteration.remaining_other same]

end
end NetworkSimulator.Simulator
