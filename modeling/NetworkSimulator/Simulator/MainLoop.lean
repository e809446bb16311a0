import NetworkSimulator.Simulator.Monitor
import NetworkSimulator.Simulator.Slice

/-! The whole of `main` at work: its variables, the machines behind their monitors
and the clock of the host, each of which moves on its own. A slice is no longer
an input. It is put together from what the polling loop reads on its way. -/

namespace NetworkSimulator.Simulator
variable {VM_NUMBER : Nat}

/-- Where an iteration of the main loop is. `stressing` is about to send the dummy
command; behind `select` stands what the pass has read so far. -/
inductive Pass where
  | starting
  | polling
  | stressing
  | selecting
  | answering (tap : Bool)
  | receiving (qmp_line : Option String)
  | delivering (qmp_line : Option String) (packet : Option (Nat × Option (List UInt8)))
  | stopped

/-- `FD_ISSET(tap_fd, &fds)` -/
def Pass.tap (qmp_line : Option String) : Bool → Pass
  | true => .receiving qmp_line
  | false => .delivering qmp_line none

/-- The variables of an iteration. The passes of its polling loop and the time at
which STOP was read are history. -/
structure Underway (VM_NUMBER : Nat) where
  current_vm_index : Fin VM_NUMBER
  start_exec_time : Nat
  duration_to_run_ns : Nat
  running : Running VM_NUMBER
  pass : Pass := .starting
  polls : List Poll := []
  stop_time : Nat := 0

def Underway.slice (underway : Underway VM_NUMBER) (virtual_end_time_ns : Nat) : Slice where
  start_exec_time := underway.start_exec_time
  polls := underway.polls
  stop_time := underway.stop_time
  virtual_end_time_ns := virtual_end_time_ns

/-- `select_time_diff_ms > duration_to_run_ns/1e6`. A whole number is above another
number where it is above its integer part. -/
def Underway.overdue (underway : Underway VM_NUMBER) (select_time : Nat) : Bool :=
  let select_time_diff_ms := Binary64.truncatedQuotient (Binary64.round (select_time - underway.start_exec_time)) 1000000
  decide (Binary64.truncatedQuotient (Binary64.round underway.duration_to_run_ns) 1000000 < select_time_diff_ms)

/-- `now` is what `CLOCK_MONOTONIC` reads. The slices that came to their end are
history. -/
structure MainLoop (VM_NUMBER : Nat) where
  world : World VM_NUMBER
  state : State VM_NUMBER := { virtual_clocks_ns := fun _ => 0 }
  now : Nat
  underway : Option (Underway VM_NUMBER) := none
  slices : List Slice := []

/-- What the monitors do and the passage of time, then the steps of `main`. A read
from a TAP yields the bytes of a frame or an error. -/
inductive Event (VM_NUMBER : Nat) where
  | execute (i : Fin VM_NUMBER) (text : List Char)
  | event (i : Fin VM_NUMBER) (text : List Char)
  | stop (i : Fin VM_NUMBER) (text : List Char)
  | elapse (elapsed : Nat) (ticks : Fin VM_NUMBER → Nat)
  | begin
  | send
  | poll
  | select (qmp tap : Bool)
  | read (count : Nat)
  | line
  | receive (read : Option (List UInt8))
  | deliver

/-- Each machine that runs advances its clock by its own amount. -/
def World.elapse (world : World VM_NUMBER) (ticks : Fin VM_NUMBER → Nat) : World VM_NUMBER :=
  { world with connections := fun i => (world.connections i).tick (ticks i) }

namespace MainLoop
variable (monitor : Monitor) (links : Links VM_NUMBER) (loop : MainLoop VM_NUMBER)

/-- A step of the world that touches nothing else. -/
def act (action : Action VM_NUMBER) : Option (MainLoop VM_NUMBER) := do
  let world ← loop.world.step monitor links action
  some { loop with world }

/-- The iteration goes on, and maybe the world with it. -/
def proceed (underway : Underway VM_NUMBER) (world : World VM_NUMBER) : MainLoop VM_NUMBER :=
  { loop with world, underway := some underway }

/-- The machine is chosen and its frames are merged before the start time is read. -/
def begin : Option (MainLoop VM_NUMBER) :=
  match loop.underway, loop.world.control with
  | none, .choose => do
    let current_vm_index ← current_vm_index loop.state.virtual_clocks_ns
    let duration_to_run_ns ← duration_to_run_ns links loop.state.virtual_clocks_ns current_vm_index
    let end_of_time_slice_ns ← end_of_time_slice_ns links loop.state.virtual_clocks_ns current_vm_index
    some { loop with
      underway := some {
        current_vm_index
        start_exec_time := loop.now
        duration_to_run_ns
        running := loop.state.begin current_vm_index end_of_time_slice_ns } }
  | _, _ => none

/-- In the main loop `run-time-slice` is sent in front of the polling loop and
`get-virtual-clock-ns` behind it, or in a pass as the dummy command. -/
def send : Option (MainLoop VM_NUMBER) :=
  match loop.underway, loop.world.control with
  | none, .choose => none
  | none, _ => loop.act monitor links .send
  | some underway, _ =>
    match underway.pass with
    | .starting => do
      let world ← loop.world.send links
      some (loop.proceed { underway with pass := .polling } world)
    | .stressing => do
      let world ← loop.world.poll
      some (loop.proceed { underway with pass := .selecting } world)
    | .stopped => loop.act monitor links .send
    | _ => none

/-- The head of a pass reads the clock to see whether the slice has probably ended. -/
def poll : Option (MainLoop VM_NUMBER) := do
  let underway ← loop.underway
  match underway.pass with
  | .polling => some (loop.proceed { underway with pass := if underway.overdue loop.now then .stressing else .selecting } loop.world)
  | _ => none

/-- `select` returns, possibly because its time is over. -/
def select (qmp tap : Bool) : Option (MainLoop VM_NUMBER) := do
  let underway ← loop.underway
  match underway.pass with
  | .selecting =>
    if qmp then do
      let world ← loop.world.ready
      some (loop.proceed { underway with pass := .answering tap } world)
    else some (loop.proceed { underway with pass := .tap none tap } loop.world)
  | _ => none

/-- `read_line` returns. In the boot slices the clocks are stored one by one; the
one stored in the main loop ends the iteration. -/
def line : Option (MainLoop VM_NUMBER) :=
  match loop.underway with
  | none => do
    let world ← loop.world.line monitor
    some { loop with world, state := { loop.state with virtual_clocks_ns := world.virtual_clocks_ns } }
  | some underway =>
    match underway.pass with
    | .answering tap => do
      let (response, _) ← (loop.world.connections underway.current_vm_index).read_line
      let world ← loop.world.line monitor
      let has_got_stop_event := underway.running.has_got_stop_event || isStopEvent response
      some (loop.proceed { underway with
        running := { underway.running with has_got_stop_event }
        pass := .tap (some (String.ofList response)) tap
        stop_time := if has_got_stop_event then loop.now else underway.stop_time } world)
    | .stopped => do
      let world ← loop.world.line monitor
      match world.control with
      | .choose =>
        let virtual_end_time_ns := world.virtual_clocks_ns underway.current_vm_index
        some { loop with
          world
          state := underway.running.state.finish underway.current_vm_index virtual_end_time_ns
          underway := none
          slices := loop.slices ++ [underway.slice virtual_end_time_ns] }
      | _ => some { loop with world }
    | _ => none

def receive (read : Option (List UInt8)) : Option (MainLoop VM_NUMBER) := do
  let underway ← loop.underway
  match underway.pass with
  | .receiving qmp_line => do
    let packet := some (loop.now, read)
    let state ← Simulator.receive links underway.running.state underway.current_vm_index underway.start_exec_time packet
    some (loop.proceed { underway with
      running := { underway.running with state }
      pass := .delivering qmp_line packet } loop.world)
  | _ => none

/-- The end of a pass. -/
def deliver : Option (MainLoop VM_NUMBER) := do
  let underway ← loop.underway
  match underway.pass with
  | .delivering qmp_line packet =>
    let current_virtual_time_estimation_ns :=
      virtual_time (underway.running.state.virtual_clocks_ns underway.current_vm_index) underway.start_exec_time loop.now
    some (loop.proceed { underway with
      running := if underway.running.deque_to_deliver = [] then underway.running
        else underway.running.deliver underway.current_vm_index current_virtual_time_estimation_ns
      pass := if underway.running.has_got_stop_event then .stopped else .polling
      polls := underway.polls ++ [{ qmp_line, packet, current_ts := loop.now }] } loop.world)
  | _ => none

def step (loop : MainLoop VM_NUMBER) : Event VM_NUMBER → Option (MainLoop VM_NUMBER)
  | .execute i text => loop.act monitor links (.execute i text)
  | .event i text => loop.act monitor links (.event i text)
  | .stop i text => loop.act monitor links (.stop i text)
  | .elapse elapsed ticks => some { loop with world := loop.world.elapse ticks, now := loop.now + elapsed }
  | .begin => loop.begin links
  | .send => loop.send monitor links
  | .poll => loop.poll
  | .select qmp tap => loop.select qmp tap
  | .read count => loop.act monitor links (.read count)
  | .line => loop.line monitor
  | .receive read => loop.receive links read
  | .deliver => loop.deliver

def start (running : Fin VM_NUMBER → Bool) (virtual_clock_ns : Fin VM_NUMBER → Nat) (now : Nat) : MainLoop VM_NUMBER where
  world := World.start running virtual_clock_ns
  now := now

end MainLoop
end NetworkSimulator.Simulator
