import NetworkSimulator.Proofs.LoopProgress

/-! The estimate that frames are stamped with. It starts before the command of the
slice is sent, so it is never behind the clock of the machine that sends. -/

namespace NetworkSimulator.Simulator
variable {VM_NUMBER : Nat} {monitor : Monitor} {links : Links VM_NUMBER}

/-- Polling leaves the clocks alone. -/
theorem Underway.Valid.clocks {state : State VM_NUMBER} {underway : Underway VM_NUMBER} (valid : underway.Valid links state) :
    underway.running.state.virtual_clocks_ns = state.virtual_clocks_ns := by
  obtain ⟨limit, running, _, ran, _, reads⟩ := valid.passes
  have polled : running.state.virtual_clocks_ns = state.virtual_clocks_ns := by
    apply Machine.run_invariant (fun (running : Running VM_NUMBER) => running.state.virtual_clocks_ns = state.virtual_clocks_ns) rfl _ ran
    intro before poll after same taken
    rw [Simulator.pass] at taken
    split at taken
    next => cases taken
    next =>
      rw [(poll_effect taken).1]
      exact same
  rw [← polled]
  cases pass : underway.pass with
  | receiving qmp_line =>
    rw [pass] at reads
    rw [← Option.some.inj reads]
  | delivering qmp_line packet =>
    simp only [pass, Pass.reads, Option.bind_eq_bind, Option.bind_eq_some_iff, Option.some.injEq] at reads
    obtain ⟨after, received, same⟩ := reads
    rw [← same, receive_extend received]
    rfl
  | _ =>
    rw [pass] at reads
    rw [← Option.some.inj reads]

theorem copies_data {current_vm_index i : Fin VM_NUMBER} {packet_virtual_time_ns : Nat} {read : Option (List UInt8)} {frame : FrameToDeliver}
    (copy : frame ∈ copies links current_vm_index packet_virtual_time_ns read i) : read = some frame.data := by
  cases read with
  | none => cases copy
  | some data =>
    simp only [copies] at copy
    split at copy
    · cases copy
    · rcases List.mem_append.mp copy with broadcast | addressed
      · split at broadcast
        · cases List.mem_singleton.mp broadcast
          rfl
        · cases broadcast
      · split at addressed
        · cases List.mem_singleton.mp addressed
          rfl
        · cases addressed

namespace MainLoop
variable {booted virtual_clock_ns : Fin VM_NUMBER → Nat} {now : Nat} {loop next : MainLoop VM_NUMBER} {event : Event VM_NUMBER}

/-- The queues as they are at the moment. -/
def current (loop : MainLoop VM_NUMBER) : State VM_NUMBER := loop.underway.elim loop.state fun underway => underway.running.state

theorem current_underway {underway : Underway VM_NUMBER} (active : loop.underway = some underway) :
    loop.current = underway.running.state := by
  rw [current, active, Option.elim_some]

theorem current_idle (idle : loop.underway = none) : loop.current = loop.state := by
  rw [current, idle, Option.elim_none]

/-- A frame read is pushed for those it is addressed to. -/
theorem receive_pushed {underway : Underway VM_NUMBER} (active : loop.underway = some underway) {read : Option (List UInt8)}
    {state : State VM_NUMBER} (received : Simulator.receive links underway.running.state underway.current_vm_index
      underway.start_exec_time (some (loop.now, read)) = some state) (i j : Fin VM_NUMBER) :
    state.pushed i j = if j = underway.current_vm_index then loop.current.pushed i j ++
      copies links j (virtual_time (underway.running.state.virtual_clocks_ns j) underway.start_exec_time loop.now) read i
    else loop.current.pushed i j := by
  rw [current_underway active, receive_extend received]
  by_cases own : j = underway.current_vm_index
  · subst own
    simp only [State.extend, if_true]
    rfl
  · simp only [State.extend, if_neg own]

/-- Frames are pushed when they are read from a TAP. -/
theorem Step.pushed (taken : Step monitor links loop event next) :
    next.current.pushed = loop.current.pushed ∨ ∃ underway qmp_line read, loop.underway = some underway ∧
      underway.pass = .receiving qmp_line ∧ event = .receive read ∧ ∀ i j,
        next.current.pushed i j = if j = underway.current_vm_index then loop.current.pushed i j ++
          copies links j (virtual_time (underway.running.state.virtual_clocks_ns j) underway.start_exec_time loop.now) read i
        else loop.current.pushed i j := by
  cases taken with
  | beside allowed moved => exact Or.inl rfl
  | elapse elapsed ticks => exact Or.inl rfl
  | begin idle control chosen found bound =>
    rw [current_idle idle]
    exact Or.inl rfl
  | command active pass sent =>
    rw [current_underway active]
    exact Or.inl rfl
  | poll active pass tested =>
    rw [current_underway active]
    exact Or.inl rfl
  | stress active pass sent =>
    rw [current_underway active]
    exact Or.inl rfl
  | ready tap active pass selected =>
    rw [current_underway active]
    exact Or.inl rfl
  | quiet tap active pass =>
    rw [current_underway active]
    exact Or.inl rfl
  | boot idle returned =>
    left
    simp only [current, idle, Option.elim_none]
  | answer active pass read returned =>
    rw [current_underway active]
    exact Or.inl rfl
  | clock active pass returned stored =>
    rw [current_underway active]
    exact Or.inl rfl
  | other active pass returned waiting => exact Or.inl rfl
  | @receive underway qmp_line state read active pass received =>
    refine Or.inr ⟨underway, qmp_line, read, active, pass, rfl, fun i j => ?_⟩
    exact receive_pushed active received i j
  | deliver active pass =>
    rw [current_underway active]
    left
    change (if _ then _ else _ : Running VM_NUMBER).state.pushed = _
    split <;> rfl

theorem Chronological.stop_time (chronological : loop.Chronological) {underway : Underway VM_NUMBER} (active : loop.underway = some underway)
    (stopped : underway.running.has_got_stop_event) : underway.stop_time ≤ loop.now := by
  apply chronological.2
  rw [readings_underway active]
  apply List.mem_append_right
  cases pass : underway.pass with
  | stopped => simp [Underway.readings, pass, Slice.readings, Underway.slice]
  | _ =>
    rw [Underway.readings_of pass (by simp), if_pos stopped]
    simp

/-- The machine is never ahead of the estimate. -/
theorem Paced.estimate (held : Paced links virtual_clock_ns now booted loop) (valid : Valid monitor links booted loop)
    (chronological : loop.Chronological) {underway : Underway VM_NUMBER} (active : loop.underway = some underway)
    (small : ∀ i, virtual_clock_ns i + (loop.now - now) < 2 ^ 53) :
    (loop.world.connections underway.current_vm_index).virtual_clock_ns ≤
      virtual_time (underway.running.state.virtual_clocks_ns underway.current_vm_index) underway.start_exec_time loop.now := by
  obtain ⟨own, _, _⟩ := valid.underway underway active
  have within := (held.underway underway active).within
  have started := (held.underway underway active).started
  obtain ⟨later, high⟩ := held.began underway active
  have reached := high underway.current_vm_index
  have fits := small underway.current_vm_index
  have limit : (if underway.running.has_got_stop_event then underway.stop_time else loop.now) ≤ loop.now := by
    split
    next stopped => exact chronological.stop_time active stopped
    next => exact le_rfl
  have room : loop.now - underway.start_exec_time + loop.state.virtual_clocks_ns underway.current_vm_index < 2 ^ 53 := by omega
  rw [own.clocks, virtual_time, Binary64.round_small (lt_of_le_of_lt (Nat.le_add_right _ _) room),
    Binary64.round_small (lt_of_le_of_lt (Nat.le_add_left _ _) room), Binary64.round_small room]
  omega

end MainLoop

/-- A frame that some step of a run read from the TAP of VM `j`, with what held then. -/
def SentWhen (monitor : Monitor) (links : Links VM_NUMBER) (start : MainLoop VM_NUMBER) (events : List (Event VM_NUMBER))
    (j : Fin VM_NUMBER) (frame : FrameToDeliver) (holds : MainLoop VM_NUMBER → Prop) : Prop :=
  ∃ past rest loop underway, events = past ++ .receive (some frame.data) :: rest ∧
    Machine.run (MainLoop.step monitor links) start past = some loop ∧
    loop.underway = some underway ∧ underway.current_vm_index = j ∧ holds loop

/-- Due for VM `i` no earlier than the clock of VM `j` at the time and the delay of the link. -/
def SentInTime (monitor : Monitor) (links : Links VM_NUMBER) (start : MainLoop VM_NUMBER) (events : List (Event VM_NUMBER))
    (i j : Fin VM_NUMBER) (frame : FrameToDeliver) : Prop :=
  SentWhen monitor links start events j frame fun loop =>
    delayed (loop.world.connections j).virtual_clock_ns (links.inter_vm_delays_ms i j) ≤ frame.delivery_timestamp_ns

/-- Every frame is a copy of one that was read. -/
theorem pushed_sent {start final : MainLoop VM_NUMBER} {events : List (Event VM_NUMBER)}
    (ran : Machine.run (MainLoop.step monitor links) start events = some final) (i j : Fin VM_NUMBER)
    (fresh : start.current.pushed i j = []) (holds : FrameToDeliver → MainLoop VM_NUMBER → Prop)
    (copied : ∀ past rest qmp_line read loop underway frame, events = past ++ .receive read :: rest →
      Machine.run (MainLoop.step monitor links) start past = some loop → loop.underway = some underway →
      underway.pass = .receiving qmp_line → underway.current_vm_index = j →
      frame ∈ copies links j (virtual_time (underway.running.state.virtual_clocks_ns j) underway.start_exec_time loop.now) read i →
      holds frame loop) :
    ∀ frame ∈ final.current.pushed i j, SentWhen monitor links start events j frame (holds frame) := by
  revert copied
  apply Machine.run_history (fun events (final : MainLoop VM_NUMBER) => (∀ (past rest : List (Event VM_NUMBER)) qmp_line read loop underway
    frame, events = past ++ .receive read :: rest → Machine.run (MainLoop.step monitor links) start past = some loop →
    loop.underway = some underway → underway.pass = .receiving qmp_line → underway.current_vm_index = j →
    frame ∈ copies links j (virtual_time (underway.running.state.virtual_clocks_ns j) underway.start_exec_time loop.now) read i →
    holds frame loop) → ∀ frame ∈ final.current.pushed i j, SentWhen monitor links start events j frame (holds frame)) _ _ events final ran
  · intro _ frame none
    rw [fresh] at none
    cases none
  · intro past loop event next before known taken copied frame pushed
    have old (member : frame ∈ loop.current.pushed i j) : SentWhen monitor links start (past ++ [event]) j frame (holds frame) := by
      have sent : SentWhen monitor links start past j frame (holds frame) := by
        refine known (fun front rest qmp_line read earlier underway frame split => ?_) frame member
        apply copied front (rest ++ [event])
        rw [split, List.append_assoc, List.cons_append]
      obtain ⟨front, rest, earlier, underway, split, found⟩ := sent
      exact ⟨front, rest ++ [event], earlier, underway, by rw [split, List.append_assoc, List.cons_append], found⟩
    rcases (MainLoop.step_cases taken).pushed with same | ⟨underway, qmp_line, read, active, pass, rfl, more⟩
    · rw [same] at pushed
      exact old pushed
    · rw [more] at pushed
      by_cases own : j = underway.current_vm_index
      · rw [if_pos own] at pushed
        rcases List.mem_append.mp pushed with member | copy
        · exact old member
        · have held := copied past [] qmp_line read loop underway frame rfl before active pass own.symm copy
          obtain rfl := copies_data copy
          exact ⟨past, [], loop, underway, rfl, before, active, own.symm, held⟩
      · rw [if_neg own] at pushed
        exact old pushed

/-- Time does not go back. -/
theorem run_forward {start final : MainLoop VM_NUMBER} {events : List (Event VM_NUMBER)}
    (ran : Machine.run (MainLoop.step monitor links) start events = some final) : start.now ≤ final.now := by
  apply Machine.run_invariant (fun loop : MainLoop VM_NUMBER => start.now ≤ loop.now) le_rfl _ ran
  intro loop event next before taken
  rcases (MainLoop.step_cases taken).timeless with ⟨elapsed, ticks, _, rfl⟩ | ⟨time, _⟩
  · exact before.trans (Nat.le_add_right _ _)
  · exact before.trans_eq time.symm

/-- No frame is ever stamped too early for the machine it was read from. -/
theorem frames_never_early (documented : monitor.Documented) {running : Fin VM_NUMBER → Bool} {virtual_clock_ns : Fin VM_NUMBER → Nat}
    {now : Nat} {events : List (Event VM_NUMBER)} {loop : MainLoop VM_NUMBER} (paced : ∀ event ∈ events, event.Paced)
    (ran : Machine.run (MainLoop.step monitor links) (.start running virtual_clock_ns now) events = some loop)
    (small : ∀ i, virtual_clock_ns i + (loop.now - now) < 2 ^ 53) (i j : Fin VM_NUMBER) :
    ∀ frame ∈ loop.current.pushed i j, SentInTime monitor links (.start running virtual_clock_ns now) events i j frame := by
  refine pushed_sent ran i j rfl (fun frame loop =>
    delayed (loop.world.connections j).virtual_clock_ns (links.inter_vm_delays_ms i j) ≤ frame.delivery_timestamp_ns) ?_
  intro past rest qmp_line read earlier underway frame split before active pass own copy
  subst own
  rw [split] at paced ran
  obtain ⟨middle, again, later⟩ := (Machine.run_append_iff _).mp ran
  obtain rfl := Option.some.inj (before.symm.trans again)
  have forward := run_forward later
  obtain ⟨booted, valid, held⟩ := MainLoop.run_paced documented (fun event member => paced event (List.mem_append_left _ member)) before
  have chronological := (MainLoop.run_valid documented before).2
  rw [copies_stamp copy]
  refine delayed_mono (held.estimate valid chronological active fun k => ?_) _
  have fits := small k
  omega

theorem frames_never_early_two : ∃ loop, Machine.run (MainLoop.step threeTimes tenApart) (.start (fun _ => false) (fun _ => 0) 5)
      (twoBoots ++ twoSlices) = some loop ∧ loop.current.pushed 1 0 ≠ [] ∧
    ∀ frame ∈ loop.current.pushed 1 0,
      SentInTime threeTimes tenApart (.start (fun _ => false) (fun _ => 0) 5) (twoBoots ++ twoSlices) 1 0 frame := by
  obtain ⟨loop, ran, brief, idle, pushed⟩ := twoSlices_run
  refine ⟨loop, ran, ?_, frames_never_early threeTimes_documented twoSlices_paced ran (fun i => ?_) 1 0⟩
  · rwa [MainLoop.current_idle (Option.isNone_iff_eq_none.mp idle)]
  · rw [brief]
    decide

end NetworkSimulator.Simulator
