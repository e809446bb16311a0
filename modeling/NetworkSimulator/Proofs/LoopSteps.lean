import NetworkSimulator.Library.Machine
import NetworkSimulator.Simulator.MainLoop

/-! What one step of the main loop can do, and the polling loop as a machine whose
passes can be counted one by one. -/

namespace NetworkSimulator.Simulator
variable {VM_NUMBER : Nat} {monitor : Monitor} {links : Links VM_NUMBER}

/-- One pass, as long as STOP has not been read. -/
def pass (links : Links VM_NUMBER) (current_vm_index : Fin VM_NUMBER) (start_exec_time : Nat) (running : Running VM_NUMBER) (next : Poll) :
    Option (Running VM_NUMBER) :=
  if running.has_got_stop_event then none else poll links current_vm_index start_exec_time running next

/-- The polling loop is done once its passes have been made and the last one has
read STOP. -/
theorem listen_iff {current_vm_index : Fin VM_NUMBER} {start_exec_time : Nat} {running final : Running VM_NUMBER} {polls : List Poll} :
    listen links current_vm_index start_exec_time running polls = some final ↔
      Machine.run (pass links current_vm_index start_exec_time) running polls = some final ∧ final.has_got_stop_event := by
  induction polls generalizing running with
  | nil =>
    rw [listen, Machine.run_nil]
    constructor
    · intro done
      split at done
      · cases done
        exact ⟨rfl, ‹_›⟩
      · cases done
    · intro found
      obtain ⟨same, stopped⟩ := found
      cases same
      exact if_pos stopped
  | cons next polls ih =>
    rw [listen, Machine.run_cons, pass]
    split
    · simp
    · simp only [Option.bind_eq_bind, Option.bind_eq_some_iff, ih]
      constructor
      · intro found
        obtain ⟨middle, polled, ran, stopped⟩ := found
        exact ⟨⟨middle, polled, ran⟩, stopped⟩
      · intro found
        obtain ⟨⟨middle, polled, ran⟩, stopped⟩ := found
        exact ⟨middle, polled, ran, stopped⟩

namespace MainLoop

/-- The steps of the world that go on beside those of an iteration, or make up the
boot slices. -/
def Beside (loop : MainLoop VM_NUMBER) : Action VM_NUMBER → Prop
  | .execute _ _ | .event _ _ | .stop _ _ | .read _ => True
  | .send => loop.underway = none ∧ loop.world.control ≠ .choose ∨ ∃ underway, loop.underway = some underway ∧ underway.pass = .stopped
  | .tick _ _ | .poll | .ready | .line => False

/-- All that a step can do, with the conditions it is taken under. -/
inductive Step (monitor : Monitor) (links : Links VM_NUMBER) (loop : MainLoop VM_NUMBER) : Event VM_NUMBER → MainLoop VM_NUMBER → Prop
  | beside {event : Event VM_NUMBER} {action : Action VM_NUMBER} {world : World VM_NUMBER} (allowed : loop.Beside action)
      (taken : loop.world.step monitor links action = some world) (named : ∀ i text, action = .stop i text → event = .stop i text) :
      Step monitor links loop event { loop with world }
  | elapse (elapsed : Nat) (ticks : Fin VM_NUMBER → Nat) :
      Step monitor links loop (.elapse elapsed ticks) { loop with world := loop.world.elapse ticks, now := loop.now + elapsed }
  | begin {vm : Fin VM_NUMBER} {duration limit : Nat} (idle : loop.underway = none) (control : loop.world.control = .choose)
      (chosen : current_vm_index loop.state.virtual_clocks_ns = some vm)
      (found : duration_to_run_ns links loop.state.virtual_clocks_ns vm = some duration)
      (bound : end_of_time_slice_ns links loop.state.virtual_clocks_ns vm = some limit) :
      Step monitor links loop .begin { loop with
        underway := some {
          current_vm_index := vm
          start_exec_time := loop.now
          duration_to_run_ns := duration
          running := loop.state.begin vm limit } }
  | command {underway : Underway VM_NUMBER} {world : World VM_NUMBER} (current : loop.underway = some underway)
      (pass : underway.pass = .starting) (sent : loop.world.send links = some world) :
      Step monitor links loop .send (loop.proceed { underway with pass := .polling } world)
  | poll {underway : Underway VM_NUMBER} {later : Pass} (current : loop.underway = some underway) (pass : underway.pass = .polling)
      (tested : later = if underway.overdue loop.now then .stressing else .selecting) :
      Step monitor links loop .poll (loop.proceed { underway with pass := later } loop.world)
  | stress {underway : Underway VM_NUMBER} {world : World VM_NUMBER} (current : loop.underway = some underway)
      (pass : underway.pass = .stressing) (sent : loop.world.poll = some world) :
      Step monitor links loop .send (loop.proceed { underway with pass := .selecting } world)
  | ready {underway : Underway VM_NUMBER} {world : World VM_NUMBER} (tap : Bool) (current : loop.underway = some underway)
      (pass : underway.pass = .selecting) (selected : loop.world.ready = some world) :
      Step monitor links loop (.select true tap) (loop.proceed { underway with pass := .answering tap } world)
  | quiet {underway : Underway VM_NUMBER} (tap : Bool) (current : loop.underway = some underway) (pass : underway.pass = .selecting) :
      Step monitor links loop (.select false tap) (loop.proceed { underway with pass := .tap none tap } loop.world)
  | boot {world : World VM_NUMBER} (idle : loop.underway = none) (returned : loop.world.line monitor = some world) :
      Step monitor links loop .line { loop with world, state := { loop.state with virtual_clocks_ns := world.virtual_clocks_ns } }
  | answer {underway : Underway VM_NUMBER} {world : World VM_NUMBER} {tap : Bool} {response : List Char} {connection : Connection}
      (current : loop.underway = some underway) (pass : underway.pass = .answering tap)
      (read : (loop.world.connections underway.current_vm_index).read_line = some (response, connection))
      (returned : loop.world.line monitor = some world) :
      Step monitor links loop .line (loop.proceed { underway with
        running := { underway.running with
          has_got_stop_event := underway.running.has_got_stop_event || isStopEvent response }
        pass := .tap (some (String.ofList response)) tap
        stop_time := if underway.running.has_got_stop_event || isStopEvent response then loop.now else underway.stop_time } world)
  | clock {underway : Underway VM_NUMBER} {world : World VM_NUMBER} (current : loop.underway = some underway)
      (pass : underway.pass = .stopped) (returned : loop.world.line monitor = some world) (stored : world.control = .choose) :
      Step monitor links loop .line { loop with
        world
        state := underway.running.state.finish underway.current_vm_index (world.virtual_clocks_ns underway.current_vm_index)
        underway := none
        slices := loop.slices ++ [underway.slice (world.virtual_clocks_ns underway.current_vm_index)] }
  | other {underway : Underway VM_NUMBER} {world : World VM_NUMBER} (current : loop.underway = some underway)
      (pass : underway.pass = .stopped) (returned : loop.world.line monitor = some world) (waiting : world.control ≠ .choose) :
      Step monitor links loop .line { loop with world }
  | receive {underway : Underway VM_NUMBER} {qmp_line : Option String} {state : State VM_NUMBER} (read : Option (List UInt8))
      (current : loop.underway = some underway) (pass : underway.pass = .receiving qmp_line)
      (received : Simulator.receive links underway.running.state underway.current_vm_index underway.start_exec_time
        (some (loop.now, read)) = some state) :
      Step monitor links loop (.receive read) (loop.proceed { underway with
        running := { underway.running with state }
        pass := .delivering qmp_line (some (loop.now, read)) } loop.world)
  | deliver {underway : Underway VM_NUMBER} {qmp_line : Option String} {packet : Option (Nat × Option (List UInt8))}
      (current : loop.underway = some underway) (pass : underway.pass = .delivering qmp_line packet) :
      Step monitor links loop .deliver (loop.proceed { underway with
        running := if underway.running.deque_to_deliver = [] then underway.running
          else underway.running.deliver underway.current_vm_index
            (virtual_time (underway.running.state.virtual_clocks_ns underway.current_vm_index) underway.start_exec_time loop.now)
        pass := if underway.running.has_got_stop_event then .stopped else .polling
        polls := underway.polls ++ [{ qmp_line, packet, current_ts := loop.now }] } loop.world)

variable {loop next : MainLoop VM_NUMBER} {event : Event VM_NUMBER} {action : Action VM_NUMBER}

theorem tested_cases {underway : Underway VM_NUMBER} {later : Pass}
    (tested : later = if underway.overdue loop.now then .stressing else .selecting) : later = .stressing ∨ later = .selecting := by
  split at tested
  · exact Or.inl tested
  · exact Or.inr tested

private theorem Step.acted (taken : loop.act monitor links action = some next) (allowed : loop.Beside action)
    (named : ∀ i text, action = .stop i text → event = .stop i text) : Step monitor links loop event next := by
  obtain ⟨world, moved, same⟩ := Option.bind_eq_some_iff.mp taken
  cases same
  exact .beside allowed moved named

private theorem Step.sent (taken : loop.send monitor links = some next) : Step monitor links loop .send next := by
  unfold send at taken
  split at taken
  next => cases taken
  next idle early => exact Step.acted taken (Or.inl ⟨idle, early⟩) nofun
  next underway current =>
    split at taken
    next pass =>
      obtain ⟨world, sent, same⟩ := Option.bind_eq_some_iff.mp taken
      cases same
      exact .command current pass sent
    next pass =>
      obtain ⟨world, sent, same⟩ := Option.bind_eq_some_iff.mp taken
      cases same
      exact .stress current pass sent
    next pass => exact Step.acted taken (Or.inr ⟨underway, current, pass⟩) nofun
    next => cases taken

private theorem Step.selected {qmp tap : Bool} (taken : loop.select qmp tap = some next) :
    Step monitor links loop (.select qmp tap) next := by
  obtain ⟨underway, current, taken⟩ := Option.bind_eq_some_iff.mp taken
  split at taken
  next pass =>
    cases qmp with
    | true =>
      obtain ⟨world, selected, same⟩ := Option.bind_eq_some_iff.mp taken
      cases same
      exact .ready tap current pass selected
    | false =>
      cases taken
      exact .quiet tap current pass
  next => cases taken

private theorem Step.returned (taken : loop.line monitor = some next) : Step monitor links loop .line next := by
  unfold line at taken
  split at taken
  next idle =>
    obtain ⟨world, returned, same⟩ := Option.bind_eq_some_iff.mp taken
    cases same
    exact .boot idle returned
  next underway current =>
    split at taken
    next tap pass =>
      simp only [Option.bind_eq_bind, Option.bind_eq_some_iff] at taken
      obtain ⟨⟨response, connection⟩, read, world, returned, same⟩ := taken
      cases same
      exact .answer current pass read returned
    next pass =>
      obtain ⟨world, returned, taken⟩ := Option.bind_eq_some_iff.mp taken
      split at taken
      next stored =>
        cases taken
        exact .clock current pass returned stored
      next waiting =>
        cases taken
        exact .other current pass returned waiting
    next => cases taken

theorem step_cases (taken : loop.step monitor links event = some next) : Step monitor links loop event next := by
  cases event with
  | execute i text => exact Step.acted taken trivial nofun
  | event i text => exact Step.acted taken trivial nofun
  | stop i text =>
    refine Step.acted taken trivial fun j other same => ?_
    cases same
    rfl
  | read count => exact Step.acted taken trivial nofun
  | elapse elapsed ticks =>
    cases taken
    exact .elapse elapsed ticks
  | begin =>
    change loop.begin links = some next at taken
    unfold begin at taken
    split at taken
    next idle control =>
      simp only [Option.bind_eq_bind, Option.bind_eq_some_iff] at taken
      obtain ⟨vm, chosen, duration, found, limit, bound, same⟩ := taken
      cases same
      exact .begin idle control chosen found bound
    next => cases taken
  | send => exact Step.sent taken
  | poll =>
    obtain ⟨underway, current, taken⟩ := Option.bind_eq_some_iff.mp taken
    split at taken
    next pass =>
      cases taken
      exact .poll current pass rfl
    next => cases taken
  | select qmp tap => exact Step.selected taken
  | line => exact Step.returned taken
  | receive read =>
    obtain ⟨underway, current, taken⟩ := Option.bind_eq_some_iff.mp taken
    split at taken
    next qmp_line pass =>
      obtain ⟨state, received, same⟩ := Option.bind_eq_some_iff.mp taken
      cases same
      exact .receive read current pass received
    next => cases taken
  | deliver =>
    obtain ⟨underway, current, taken⟩ := Option.bind_eq_some_iff.mp taken
    split at taken
    next qmp_line packet pass =>
      cases taken
      exact .deliver current pass
    next => cases taken

end MainLoop
end NetworkSimulator.Simulator
