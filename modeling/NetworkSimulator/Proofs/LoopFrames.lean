import NetworkSimulator.Proofs.FrameConservation
import NetworkSimulator.Proofs.LoopStamps

/-! Each link is a channel that may lose frames and does nothing else to them. What
has been written to a TAP is, in its order, a part of what has been read from the
other one, at any moment of the simulation. The rest is in the queue, in the deque
or in a deque that was left at the end of its slice. -/

namespace NetworkSimulator.Simulator
variable {VM_NUMBER : Nat} {monitor : Monitor} {links : Links VM_NUMBER}

/-- What a frame from the TAP of VM `j` is sent to VM `i` as. -/
def Links.addressed (links : Links VM_NUMBER) (i j : Fin VM_NUMBER) (data : List UInt8) : List (List UInt8) :=
  (copies links j 0 (some data) i).map FrameToDeliver.data

theorem copies_data_addressed (i j : Fin VM_NUMBER) (packet_virtual_time_ns : Nat) (data : List UInt8) :
    (copies links j packet_virtual_time_ns (some data) i).map FrameToDeliver.data = links.addressed i j data := by
  simp only [Links.addressed, copies]
  split
  · rfl
  · split <;> split <;> rfl

/-- A frame leaves the deque when it is written. -/
theorem written_deliver (running : Running VM_NUMBER) (current_vm_index : Fin VM_NUMBER) (estimate : Nat) (i j : Fin VM_NUMBER) :
    ((running.deliver current_vm_index estimate).state.written_from i j ++
      if i = current_vm_index then Merge.taken (running.deliver current_vm_index estimate).deque_to_deliver j else []) =
    running.state.written_from i j ++ if i = current_vm_index then Merge.taken running.deque_to_deliver j else [] := by
  have written : (running.deliver current_vm_index estimate).state.written = Function.update running.state.written current_vm_index
      (running.state.written current_vm_index ++ deliveries estimate running.deque_to_deliver) := rfl
  have deque : (running.deliver current_vm_index estimate).deque_to_deliver =
      running.deque_to_deliver.drop (due estimate running.deque_to_deliver) := rfl
  rw [State.written_from, written]
  by_cases own : i = current_vm_index
  · subst own
    rw [Function.update_self, if_pos rfl, if_pos rfl, deque, List.map_append, Merge.taken_append, List.append_assoc,
      ← Merge.taken_append, deliveries_entries]
    rfl
  · rw [Function.update_of_ne own, if_neg own, if_neg own]
    rfl

namespace MainLoop
variable {loop next : MainLoop VM_NUMBER} {event : Event VM_NUMBER}

/-- The frame that an event reads from the TAP of VM `j`. -/
def tapped (j : Fin VM_NUMBER) (loop : MainLoop VM_NUMBER) : Event VM_NUMBER → List (List UInt8)
  | .receive (some data) => if loop.underway.any fun underway => decide (underway.current_vm_index = j) then [data] else []
  | _ => []

/-- The frames from VM `j` in the deque of VM `i`. -/
def waiting (loop : MainLoop VM_NUMBER) (i j : Fin VM_NUMBER) : List FrameToDeliver :=
  loop.underway.elim [] fun underway => if i = underway.current_vm_index then Merge.taken underway.running.deque_to_deliver j else []

/-- The frames from VM `j` that are in the deque of VM `i` when the iteration ends:
the deque goes out of scope. -/
def dropped (monitor : Monitor) (links : Links VM_NUMBER) (i j : Fin VM_NUMBER) (loop : MainLoop VM_NUMBER) (event : Event VM_NUMBER) :
    List FrameToDeliver :=
  if (loop.step monitor links event).any (·.underway.isNone) then loop.waiting i j else []

/-- What has been pushed and is not in the queue has been written, is in the deque
or was lost. -/
def Channel (loop : MainLoop VM_NUMBER) (i j : Fin VM_NUMBER) (lost : List FrameToDeliver) : Prop :=
  ∃ front, loop.current.pushed i j = front ++ loop.current.inter_vm_queues i j ∧
    (loop.current.written_from i j ++ loop.waiting i j).Sublist front ∧
    front.Perm (loop.current.written_from i j ++ loop.waiting i j ++ lost)

variable {lost : List FrameToDeliver}

/-- Where nothing is pushed or merged only the deque gives frames away. -/
theorem Channel.same {i j : Fin VM_NUMBER} (channel : loop.Channel i j lost)
    (pushed : next.current.pushed i j = loop.current.pushed i j)
    (queue : next.current.inter_vm_queues i j = loop.current.inter_vm_queues i j)
    (written : next.current.written_from i j ++ next.waiting i j = loop.current.written_from i j ++ loop.waiting i j) :
    next.Channel i j lost := by
  obtain ⟨front, split, held, whole⟩ := channel
  exact ⟨front, by rw [pushed, queue, split], by rwa [written], by rwa [written]⟩

theorem waiting_underway {underway : Underway VM_NUMBER} (active : loop.underway = some underway) (i j : Fin VM_NUMBER) :
    loop.waiting i j = if i = underway.current_vm_index then Merge.taken underway.running.deque_to_deliver j else [] := by
  rw [waiting, active, Option.elim_some]

theorem waiting_idle (idle : loop.underway = none) (i j : Fin VM_NUMBER) : loop.waiting i j = [] := by
  rw [waiting, idle, Option.elim_none]

/-- Within an iteration. -/
theorem Channel.proceed {i j : Fin VM_NUMBER} (channel : loop.Channel i j lost) {underway : Underway VM_NUMBER}
    (active : loop.underway = some underway) {world : World VM_NUMBER} {after : Underway VM_NUMBER}
    (same : after.current_vm_index = underway.current_vm_index ∧ after.running.deque_to_deliver = underway.running.deque_to_deliver ∧
      after.running.state = underway.running.state) : (loop.proceed after world).Channel i j lost := by
  obtain ⟨current, deque, state⟩ := same
  have now : (loop.proceed after world).current = loop.current := by
    rw [current_underway active, ← state]
    rfl
  have held : (loop.proceed after world).waiting i j = loop.waiting i j := by
    rw [waiting_underway active, ← current, ← deque]
    rfl
  apply channel.same
  · rw [now]
  · rw [now]
  · rw [now, held]

/-- Nothing is lost where no iteration ends. -/
theorem Channel.keep {i j : Fin VM_NUMBER} (channel : next.Channel i j lost)
    (still : next.underway = none → loop.underway = none) :
    next.Channel i j (lost ++ if next.underway.isNone then loop.waiting i j else []) := by
  split
  next ended =>
    rw [waiting_idle (still (Option.isNone_iff_eq_none.mp ended)), List.append_nil]
    exact channel
  next =>
    rw [List.append_nil]
    exact channel

theorem Channel.within {i j : Fin VM_NUMBER} (channel : next.Channel i j lost) {underway : Underway VM_NUMBER}
    (active : next.underway = some underway) : next.Channel i j (lost ++ if next.underway.isNone then loop.waiting i j else []) := by
  rw [active, Option.isNone_some, if_neg Bool.false_ne_true, List.append_nil]
  exact channel

theorem Channel.step {i j : Fin VM_NUMBER} (channel : loop.Channel i j lost) (taken : Step monitor links loop event next) :
    next.Channel i j (lost ++ if next.underway.isNone then loop.waiting i j else []) := by
  cases taken with
  | beside allowed moved => exact Channel.keep channel id
  | elapse elapsed ticks => exact Channel.keep channel id
  | @begin vm duration limit idle control chosen found bound =>
    refine Channel.within ?_ rfl
    obtain ⟨front, split, held, whole⟩ := channel
    rw [current_idle idle] at split held whole
    rw [waiting_idle idle, List.append_nil] at held whole
    have extraction := merge_extraction limit (Nat.lt_succ_self (frames (loop.state.inter_vm_queues vm)))
    by_cases own : i = vm
    · -- What is merged leaves the queues for the deque.
      subst own
      refine ⟨front ++ Merge.taken (loop.state.begin i limit).deque_to_deliver j, ?_, ?_, ?_⟩
      · change loop.state.pushed i j = _ ++ Function.update loop.state.inter_vm_queues i _ i j
        rw [split, Function.update_self, List.append_assoc]
        exact congrArg _ (extraction.split j)
      · rw [waiting_underway rfl, if_pos rfl]
        exact held.append_right _
      · rw [waiting_underway rfl, if_pos rfl]
        refine (whole.append_right _).trans ?_
        rw [List.append_assoc, List.append_assoc]
        exact List.perm_append_comm.append_left _
    · refine ⟨front, ?_, ?_, ?_⟩
      · change loop.state.pushed i j = front ++ Function.update loop.state.inter_vm_queues vm _ i j
        rw [Function.update_of_ne own]
        exact split
      · rw [waiting_underway rfl, if_neg own, List.append_nil]
        exact held
      · rw [waiting_underway rfl, if_neg own, List.append_nil]
        exact whole
  | command active pass sent => exact Channel.within (channel.proceed active ⟨rfl, rfl, rfl⟩) rfl
  | poll active pass tested => exact Channel.within (channel.proceed active ⟨rfl, rfl, rfl⟩) rfl
  | stress active pass sent => exact Channel.within (channel.proceed active ⟨rfl, rfl, rfl⟩) rfl
  | ready tap active pass selected => exact Channel.within (channel.proceed active ⟨rfl, rfl, rfl⟩) rfl
  | quiet tap active pass => exact Channel.within (channel.proceed active ⟨rfl, rfl, rfl⟩) rfl
  | boot idle returned =>
    refine Channel.keep (channel.same ?_ ?_ ?_) id
    all_goals simp only [current, waiting, idle, Option.elim_none]
    rfl
  | answer active pass read returned => exact Channel.within (channel.proceed active ⟨rfl, rfl, rfl⟩) rfl
  | clock active pass returned stored =>
    -- The deque goes out of scope.
    obtain ⟨front, split, held, whole⟩ := channel
    rw [current_underway active] at split held whole
    refine ⟨front, split, ?_, ?_⟩
    · rw [waiting_idle rfl, List.append_nil]
      exact (List.sublist_append_left _ _).trans held
    · rw [waiting_idle rfl, List.append_nil, Option.isNone_none, if_pos rfl]
      refine whole.trans ?_
      rw [List.append_assoc]
      exact List.perm_append_comm.append_left _
  | other active pass returned waiting => exact Channel.keep channel id
  | @receive underway qmp_line state read active pass received =>
    refine Channel.within ?_ rfl
    obtain ⟨front, split, held, whole⟩ := channel
    rw [current_underway active] at split held whole
    rw [waiting_underway active] at held whole
    cases receive_extend received
    refine ⟨front, ?_, ?_, ?_⟩
    · change (State.extend _ _ _).pushed i j = front ++ (State.extend _ _ _).inter_vm_queues i j
      simp only [State.extend, split]
      split
      · exact List.append_assoc ..
      · rfl
    · rw [waiting_underway rfl]
      exact held
    · rw [waiting_underway rfl]
      exact whole
  | @deliver underway qmp_line packet active pass =>
    refine Channel.within ?_ rfl
    by_cases empty : underway.running.deque_to_deliver = []
    · apply channel.proceed active
      simp only [empty, if_true, and_self]
    · obtain ⟨front, split, held, whole⟩ := channel
      rw [current_underway active] at split held whole
      rw [waiting_underway active] at held whole
      have more := written_deliver underway.running underway.current_vm_index
        (virtual_time (underway.running.state.virtual_clocks_ns underway.current_vm_index) underway.start_exec_time loop.now) i j
      rw [if_neg empty]
      rw [← more] at held whole
      exact ⟨front, split, held, whole⟩

/-- What a step reads from the TAP of VM `j` is what it pushes. -/
theorem tapped_pushed (taken : loop.step monitor links event = some next) (i j : Fin VM_NUMBER) :
    (next.current.pushed i j).map FrameToDeliver.data =
      (loop.current.pushed i j).map FrameToDeliver.data ++ (loop.tapped j event).flatMap (links.addressed i j) := by
  by_cases receives : ∃ read, event = .receive read
  · obtain ⟨read, rfl⟩ := receives
    obtain ⟨underway, active, taken⟩ := Option.bind_eq_some_iff.mp taken
    split at taken
    next qmp_line pass =>
      obtain ⟨state, received, same⟩ := Option.bind_eq_some_iff.mp taken
      cases same
      change (state.pushed i j).map FrameToDeliver.data = _
      rw [receive_pushed active received i j]
      cases read with
      | none =>
        split
        · simp [copies, tapped]
        · simp [tapped]
      | some data =>
        simp only [tapped, active, Option.any_some, decide_eq_true_eq, eq_comm (a := underway.current_vm_index)]
        split
        · rw [List.map_append, copies_data_addressed, List.flatMap_singleton]
        · rw [List.flatMap_nil, List.append_nil]
    next => cases taken
  · have silent : loop.tapped j event = [] := by
      unfold tapped
      split
      next data => exact absurd ⟨_, rfl⟩ receives
      next => rfl
    rcases (step_cases taken).pushed with same | ⟨_, _, read, _, _, same, _⟩
    · rw [silent, same, List.flatMap_nil, List.append_nil]
    · exact absurd ⟨read, same⟩ receives

end MainLoop

/-- Frames are neither invented nor changed, doubled or put in another order. What
the TAP of VM `i` has been given from VM `j` and what waits in the deque are a part
of what was read from the TAP of VM `j` for it, in front of what the queue holds.
The other part is what was in the deque when an iteration ended. -/
theorem frames_in_order {running : Fin VM_NUMBER → Bool} {virtual_clock_ns : Fin VM_NUMBER → Nat} {now : Nat}
    {events : List (Event VM_NUMBER)} {loop : MainLoop VM_NUMBER}
    (ran : Machine.run (MainLoop.step monitor links) (.start running virtual_clock_ns now) events = some loop) (i j : Fin VM_NUMBER) :
    ∃ front, (Machine.outputs (MainLoop.step monitor links) (MainLoop.tapped j) (.start running virtual_clock_ns now) events).flatMap
        (links.addressed i j) = (front ++ loop.current.inter_vm_queues i j).map FrameToDeliver.data ∧
      (loop.current.written_from i j ++ loop.waiting i j).Sublist front ∧
      front.Perm (loop.current.written_from i j ++ loop.waiting i j ++
        Machine.outputs (MainLoop.step monitor links) (MainLoop.dropped monitor links i j) (.start running virtual_clock_ns now) events) := by
  have known : loop.Channel i j (Machine.outputs (MainLoop.step monitor links) (MainLoop.dropped monitor links i j)
        (.start running virtual_clock_ns now) events) ∧
      (loop.current.pushed i j).map FrameToDeliver.data =
        (Machine.outputs (MainLoop.step monitor links) (MainLoop.tapped j) (.start running virtual_clock_ns now) events).flatMap
          (links.addressed i j) := by
    apply Machine.run_history (fun events (loop : MainLoop VM_NUMBER) =>
      loop.Channel i j (Machine.outputs (MainLoop.step monitor links) (MainLoop.dropped monitor links i j)
        (.start running virtual_clock_ns now) events) ∧
      (loop.current.pushed i j).map FrameToDeliver.data = (Machine.outputs (MainLoop.step monitor links) (MainLoop.tapped j)
        (.start running virtual_clock_ns now) events).flatMap (links.addressed i j)) _ _ events loop ran
    · exact ⟨⟨[], rfl, List.Sublist.refl _, List.Perm.refl _⟩, rfl⟩
    · intro past loop event next before held taken
      obtain ⟨channel, pushed⟩ := held
      constructor
      · rw [Machine.outputs_snoc before, MainLoop.dropped, taken, Option.any_some]
        exact channel.step (MainLoop.step_cases taken)
      · rw [MainLoop.tapped_pushed taken, pushed, Machine.outputs_snoc before, List.flatMap_append]
  obtain ⟨⟨front, split, held, whole⟩, pushed⟩ := known
  exact ⟨front, by rw [← pushed, split], held, whole⟩

theorem frames_in_order_two : ∃ loop, Machine.run (MainLoop.step threeTimes tenApart) (.start (fun _ => false) (fun _ => 0) 5)
      (twoBoots ++ twoSlices) = some loop ∧ loop.current.pushed 1 0 ≠ [] ∧
    ∃ front, (Machine.outputs (MainLoop.step threeTimes tenApart) (MainLoop.tapped 0) (.start (fun _ => false) (fun _ => 0) 5)
        (twoBoots ++ twoSlices)).flatMap (tenApart.addressed 1 0) =
          (front ++ loop.current.inter_vm_queues 1 0).map FrameToDeliver.data ∧
      (loop.current.written_from 1 0 ++ loop.waiting 1 0).Sublist front ∧
      front.Perm (loop.current.written_from 1 0 ++ loop.waiting 1 0 ++
        Machine.outputs (MainLoop.step threeTimes tenApart) (MainLoop.dropped threeTimes tenApart 1 0)
          (.start (fun _ => false) (fun _ => 0) 5) (twoBoots ++ twoSlices)) := by
  obtain ⟨loop, ran, _, idle, pushed⟩ := twoSlices_run
  refine ⟨loop, ran, ?_, frames_in_order ran 1 0⟩
  rwa [MainLoop.current_idle (Option.isNone_iff_eq_none.mp idle)]

end NetworkSimulator.Simulator
