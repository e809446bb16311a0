import NetworkSimulator.Library.Lines
import NetworkSimulator.Simulator.Schedule

/-! The simulator and the QMP monitors of its virtual machines: the connections
that `network_simulator/src/main.cpp` opens, the commands it sends over them and
the lines it reads back, against the commands of `qemu_modif/qmp-cmds.c`. Either
side may take any number of steps between two steps of the other. -/

namespace NetworkSimulator.Simulator
variable {VM_NUMBER : Nat}

inductive Command where
  | qmp_capabilities
  | run_time_slice (duration_ms : Nat)
  | get_virtual_clock_ns
  deriving DecidableEq

/-- What a line of a monitor is about: the clock it reports, the STOP event, or
anything else (the greeting, an empty reply, another event). -/
inductive Kind where
  | time (time : Nat)
  | stop
  | other
  deriving DecidableEq

/-- QEMU's own output and the JSON parser are not part of the repository: which
texts a monitor writes for a line, and `doc["return"]["time"].get_uint64()`. -/
structure Monitor where
  writes : Kind → List Char → Bool
  get_time : List Char → Option Nat

/-- A line with the number of slices its monitor had begun when it was written. -/
structure Line where
  kind : Kind
  text : List Char
  slice : Nat
  deriving DecidableEq

def isStopEvent (response : List Char) : Bool :=
  decide ("timestamp".toList <:+: response) && decide ("STOP".toList <:+: response)

def isTimeReply (response : List Char) : Bool :=
  decide ("return".toList <:+: response) && decide ("time".toList <:+: response)

/-- One virtual machine as seen from both ends of its connection: the monitor,
with the commands it has yet to process; the socket towards the simulator; and
the simulator's entry of `qmp_socket_to_buffers`. The other fields are history:
the lines written and not taken out of the buffer, the slices asked for and
begun, the clock at each STOP, the lines taken for a STOP and for a clock, and
the clocks stored. -/
structure Connection where
  commands : List Command := []
  running : Bool
  virtual_clock_ns : Nat
  timers : List Nat := []
  socket : List Char := []
  buffer : List Char := []
  lines : List Line := []
  asked : Nat := 0
  slices : Nat := 0
  frozen : List Nat := []
  stops_read : List Line := []
  times_read : List Line := []
  stored : List Nat := []

namespace Connection
variable (monitor : Monitor) (connection : Connection)

/-! The end of the monitor. -/

def write (kind : Kind) (text : List Char) : Option Connection :=
  if monitor.writes kind text then
    some { connection with
      socket := connection.socket ++ (text ++ ['\n'])
      lines := connection.lines ++ [⟨kind, text, connection.slices⟩] }
  else none

/-- `qmp_cont`, then a timer on the virtual clock. -/
def qmp_run_time_slice (duration_ms : Nat) : Connection :=
  { connection with
    running := true
    timers := connection.timers ++ [delayed connection.virtual_clock_ns duration_ms]
    slices := connection.slices + 1 }

/-- The monitor takes its commands in the order they were sent. -/
def execute (text : List Char) : Option Connection :=
  match connection.commands with
  | [] => none
  | .qmp_capabilities :: commands => { connection with commands }.write monitor .other text
  | .run_time_slice duration_ms :: commands => ({ connection with commands }.qmp_run_time_slice duration_ms).write monitor .other text
  | .get_virtual_clock_ns :: commands => { connection with commands }.write monitor (.time connection.virtual_clock_ns) text

/-- `stop_vm_bh`, some time after the timer has expired: the clock is frozen
before the event is written. -/
def stop_vm_bh (text : List Char) : Option Connection :=
  match connection.timers with
  | [] => none
  | expire_time :: timers =>
    if expire_time ≤ connection.virtual_clock_ns then
      { connection with
        timers
        running := false
        frozen := connection.frozen ++ [connection.virtual_clock_ns] }.write monitor .stop text
    else none

/-- The virtual clock only advances while the machine runs. -/
def tick (elapsed : Nat) : Connection :=
  if connection.running then { connection with virtual_clock_ns := connection.virtual_clock_ns + elapsed } else connection

/-! The end of the simulator. -/

def send (command : Command) : Connection :=
  { connection with
    commands := connection.commands ++ [command]
    asked := match command with
      | .run_time_slice _ => connection.asked + 1
      | _ => connection.asked }

/-- One `read` inside `read_line`, of at most `sizeof(BUFF_SIZE)` characters. The
buffer is extended by a C string. -/
def read (count : Nat) : Option Connection :=
  if '\n' ∈ connection.buffer then none
  else if 1 ≤ count ∧ count ≤ 4 ∧ count ≤ connection.socket.length then
    some { connection with
      buffer := connection.buffer ++ (connection.socket.take count).takeWhile (· ≠ '\x00')
      socket := connection.socket.drop count }
  else none

/-- The end of `read_line`: the first line of the buffer. -/
def read_line : Option (List Char × Connection) := do
  let (response, buffer) ← Lines.first '\n' connection.buffer
  some (response, { connection with buffer, lines := connection.lines.tail })

end Connection

/-- Where `main` is. The loops over the machines keep those still to come; in the
main loop nothing is left of them. -/
inductive Control (VM_NUMBER : Nat) where
  | negotiate (i : Fin VM_NUMBER) (rest : List (Fin VM_NUMBER))
  | negotiated (i : Fin VM_NUMBER) (rest : List (Fin VM_NUMBER))
  | boot (i : Fin VM_NUMBER) (rest : List (Fin VM_NUMBER))
  | booted (i : Fin VM_NUMBER) (rest : List (Fin VM_NUMBER))
  | await (i : Fin VM_NUMBER) (rest : List (Fin VM_NUMBER))
  | query (i : Fin VM_NUMBER) (rest : List (Fin VM_NUMBER))
  | answer (i : Fin VM_NUMBER) (rest : List (Fin VM_NUMBER))
  | choose
  | listen (i : Fin VM_NUMBER)
  | receive (i : Fin VM_NUMBER)
  | terminated

namespace Control

/-- The second loop of the boot slice, then the main loop. -/
def awaitNext : List (Fin VM_NUMBER) → Control VM_NUMBER
  | [] => .choose
  | i :: rest => .await i rest

def bootNext : List (Fin VM_NUMBER) → Control VM_NUMBER
  | [] => awaitNext (List.finRange VM_NUMBER)
  | i :: rest => .boot i rest

def negotiateNext : List (Fin VM_NUMBER) → Control VM_NUMBER
  | [] => bootNext (List.finRange VM_NUMBER)
  | i :: rest => .negotiate i rest

/-- The connection whose `read_line` is being executed. -/
def reading : Control VM_NUMBER → Option (Fin VM_NUMBER)
  | .negotiated i _ | .booted i _ | .await i _ | .answer i _ | .receive i => some i
  | _ => none

end Control

structure World (VM_NUMBER : Nat) where
  connections : Fin VM_NUMBER → Connection
  control : Control VM_NUMBER
  virtual_clocks_ns : Fin VM_NUMBER → Nat := fun _ => 0

inductive Action (VM_NUMBER : Nat) where
  | execute (i : Fin VM_NUMBER) (text : List Char)
  | event (i : Fin VM_NUMBER) (text : List Char)
  | stop (i : Fin VM_NUMBER) (text : List Char)
  | tick (i : Fin VM_NUMBER) (elapsed : Nat)
  | send
  | poll
  | ready
  | read (count : Nat)
  | line

namespace World
variable (monitor : Monitor) (links : Links VM_NUMBER) (world : World VM_NUMBER)

/-- A connection changes, and `main` goes on. -/
def goto (i : Fin VM_NUMBER) (connection : Connection) (control : Control VM_NUMBER) : World VM_NUMBER :=
  { world with connections := Function.update world.connections i connection, control }

/-- The commands on the way of `main`. The duration of a slice is the one the
main loop computes for the machine it chooses. -/
def send : Option (World VM_NUMBER) :=
  match world.control with
  | .negotiate i rest => some (world.goto i ((world.connections i).send .qmp_capabilities) (.negotiated i rest))
  | .boot i rest => some (world.goto i ((world.connections i).send (.run_time_slice 10000)) (.booted i rest))
  | .query i rest => some (world.goto i ((world.connections i).send .get_virtual_clock_ns) (.answer i rest))
  | .choose => do
    let i ← current_vm_index world.virtual_clocks_ns
    let duration ← duration_to_run_ns links world.virtual_clocks_ns i
    some (world.goto i ((world.connections i).send (.run_time_slice (commanded_duration_ms duration))) (.listen i))
  | _ => none

/-- The dummy command of the polling loop. -/
def poll : Option (World VM_NUMBER) :=
  match world.control with
  | .listen i => some (world.goto i ((world.connections i).send .get_virtual_clock_ns) (.listen i))
  | _ => none

/-- `FD_ISSET(qmp_socket, &fds)` -/
def ready : Option (World VM_NUMBER) :=
  match world.control with
  | .listen i => if (world.connections i).socket = [] then none else some { world with control := .receive i }
  | _ => none

def read (count : Nat) : Option (World VM_NUMBER) := do
  let i ← world.control.reading
  let connection ← (world.connections i).read count
  some (world.goto i connection world.control)

/-- `read_line` returns. The first line of the history is recorded with what the
response is taken for. -/
def line : Option (World VM_NUMBER) := do
  let i ← world.control.reading
  let line := (world.connections i).lines.head?.toList
  let (response, connection) ← (world.connections i).read_line
  match world.control with
  | .negotiated _ rest => some (world.goto i connection (.negotiateNext rest))
  | .booted _ rest => some (world.goto i connection (.bootNext rest))
  | .await _ rest =>
    if isStopEvent response then
      some (world.goto i { connection with stops_read := connection.stops_read ++ line } (.query i rest))
    else some (world.goto i connection (.await i rest))
  | .receive _ =>
    if isStopEvent response then
      some (world.goto i { connection with stops_read := connection.stops_read ++ line } (.query i []))
    else some (world.goto i connection (.listen i))
  | .answer _ rest =>
    if isTimeReply response then
      match monitor.get_time response with
      | some virtual_end_time_ns =>
        some { world.goto i { connection with
            times_read := connection.times_read ++ line
            stored := connection.stored ++ [virtual_end_time_ns] } (.awaitNext rest) with
          virtual_clocks_ns := Function.update world.virtual_clocks_ns i virtual_end_time_ns }
      | none => some (world.goto i connection .terminated)
    else some (world.goto i connection (.answer i rest))
  | _ => none

/-- The monitor of one machine takes a step. -/
def serve (i : Fin VM_NUMBER) (connection : Option Connection) : Option (World VM_NUMBER) :=
  connection.map fun connection => world.goto i connection world.control

def step (world : World VM_NUMBER) : Action VM_NUMBER → Option (World VM_NUMBER)
  | .execute i text => world.serve i ((world.connections i).execute monitor text)
  | .event i text => world.serve i ((world.connections i).write monitor .other text)
  | .stop i text => world.serve i ((world.connections i).stop_vm_bh monitor text)
  | .tick i elapsed => world.serve i (some ((world.connections i).tick elapsed))
  | .send => world.send links
  | .poll => world.poll
  | .ready => world.ready
  | .read count => world.read count
  | .line => world.line monitor

/-- The monitors wait for their connections; whether the machines already run and
what their clocks say is left open. -/
def start (running : Fin VM_NUMBER → Bool) (virtual_clock_ns : Fin VM_NUMBER → Nat) : World VM_NUMBER where
  connections i := { running := running i, virtual_clock_ns := virtual_clock_ns i }
  control := .negotiateNext (List.finRange VM_NUMBER)

end World
end NetworkSimulator.Simulator
