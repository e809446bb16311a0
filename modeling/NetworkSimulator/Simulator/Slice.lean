import NetworkSimulator.Library.Deque
import NetworkSimulator.Simulator.Schedule

/-! The second half of the main loop: one time slice, from the start time to the
clock QEMU reports. What the simulator reads from outside is its input. -/

namespace NetworkSimulator.Simulator
variable {VM_NUMBER : Nat}

def hexmap : List Char := "0123456789abcdef".toList

def hexStr (data : List UInt8) : String :=
  String.ofList (data.flatMap fun (byte : UInt8) =>
    [hexmap.getD ((byte &&& 0xF0) >>> 4).toNat ' ', hexmap.getD (byte &&& 0x0F).toNat ' ', ':']).dropLast

/-- One pass of the polling loop. Times are readings of `CLOCK_MONOTONIC` in
nanoseconds; a readable TAP yields its time and the bytes read, or an error. -/
structure Poll where
  qmp_line : Option String := none
  packet : Option (Nat × Option (List UInt8)) := none
  current_ts : Nat := 0

/-- `stop_time` is when STOP is read, in the last pass; no clock is read there. -/
structure Slice where
  start_exec_time : Nat
  polls : List Poll
  stop_time : Nat := 0
  virtual_end_time_ns : Nat

def Poll.stops (poll : Poll) : Bool :=
  poll.qmp_line.any fun response => decide ("timestamp".toList <:+: response.toList) && decide ("STOP".toList <:+: response.toList)

/-- Time elapsed since `start`, added in double arithmetic to the clock of a VM. -/
def virtual_time (clock start now : Nat) : Nat := Binary64.round (Binary64.round (now - start) + Binary64.round clock)

def FrameToDeliver.stamp (links : Links VM_NUMBER) (current_vm_index i : Fin VM_NUMBER) (packet_virtual_time_ns : Nat)
    (data : List UInt8) : FrameToDeliver where
  delivery_timestamp_ns := delayed packet_virtual_time_ns (links.inter_vm_delays_ms i current_vm_index)
  data := data

/-- Push a frame of VM `j` for every VM in `receives`. -/
def State.push (state : State VM_NUMBER) (j : Fin VM_NUMBER) (receives : Fin VM_NUMBER → Bool)
    (frame : Fin VM_NUMBER → FrameToDeliver) : State VM_NUMBER :=
  { state with
    inter_vm_queues := fun i k =>
      if k = j ∧ receives i then state.inter_vm_queues i k ++ [frame i] else state.inter_vm_queues i k
    pushed := fun i k => if k = j ∧ receives i then state.pushed i k ++ [frame i] else state.pushed i k }

variable (links : Links VM_NUMBER)

/-- A frame read from the TAP of the current VM. After an error the length is the
largest `size_t` and the buffer is zero; copying that much is the end of it. -/
def dispatch (state : State VM_NUMBER) (current_vm_index : Fin VM_NUMBER) (packet_virtual_time_ns : Nat) :
    Option (List UInt8) → Option (State VM_NUMBER)
  | none => if (links.mac_to_vm_index (hexStr (List.replicate 6 0))).isSome then none else some state
  | some data =>
    if 6 ≤ data.length then
      let frame (i : Fin VM_NUMBER) := FrameToDeliver.stamp links current_vm_index i packet_virtual_time_ns data
      let dest_mac := hexStr (data.take 6)
      let state := if dest_mac = "ff:ff:ff:ff:ff:ff" then state.push current_vm_index (· ≠ current_vm_index) frame else state
      match links.mac_to_vm_index dest_mac with
      | some dest_vm_index => some (state.push current_vm_index (· = dest_vm_index) frame)
      | none => some state
    else some state

/-- The branch of the TAP, with the time it is found readable. -/
def receive (state : State VM_NUMBER) (current_vm_index : Fin VM_NUMBER) (start_exec_time : Nat) :
    Option (Nat × Option (List UInt8)) → Option (State VM_NUMBER)
  | none => some state
  | some (packet_time, read) =>
    dispatch links state current_vm_index (virtual_time (state.virtual_clocks_ns current_vm_index) start_exec_time packet_time) read

/-- The variables of the polling loop. -/
structure Running (VM_NUMBER : Nat) where
  state : State VM_NUMBER
  deque_to_deliver : List (Fin VM_NUMBER × FrameToDeliver)
  has_got_stop_event : Bool := false

/-- Write the frames before the first one not to send. -/
def Running.deliver (running : Running VM_NUMBER) (current_vm_index : Fin VM_NUMBER)
    (current_virtual_time_estimation_ns : Nat) : Running VM_NUMBER :=
  let first_frame_to_not_send := Search.upperBound
    (fun entry => decide (current_virtual_time_estimation_ns < entry.2.delivery_timestamp_ns)) running.deque_to_deliver
  { running with
    state := { running.state with
      written := Function.update running.state.written current_vm_index (running.state.written current_vm_index ++
        (running.deque_to_deliver.take first_frame_to_not_send).map fun entry =>
          ⟨entry.1, entry.2, current_virtual_time_estimation_ns⟩) }
    deque_to_deliver := running.deque_to_deliver.drop first_frame_to_not_send }

/-- The same loop as it stands in the code, where `it` walks over the deque that is
popped under it. -/
def Running.deliver_frames (current_vm_index : Fin VM_NUMBER) (running : Running VM_NUMBER)
    (current_virtual_time_estimation_ns : Nat) : Option (Running VM_NUMBER) := do
  let deque_to_deliver : Deque (Fin VM_NUMBER × FrameToDeliver) := { items := running.deque_to_deliver }
  let first_frame_to_not_send_it := deque_to_deliver.start + Search.upperBound
    (fun entry => decide (current_virtual_time_estimation_ns < entry.2.delivery_timestamp_ns)) running.deque_to_deliver
  let (sent, rest) ← Deque.consume first_frame_to_not_send_it (running.deque_to_deliver.length + 1) deque_to_deliver
    deque_to_deliver.start
  some { running with
    state := { running.state with
      written := Function.update running.state.written current_vm_index (running.state.written current_vm_index ++
        sent.map fun entry => ⟨entry.1, entry.2, current_virtual_time_estimation_ns⟩) }
    deque_to_deliver := rest.items }

def poll (current_vm_index : Fin VM_NUMBER) (start_exec_time : Nat) (running : Running VM_NUMBER) (poll : Poll) :
    Option (Running VM_NUMBER) := do
  let running := { running with has_got_stop_event := running.has_got_stop_event || poll.stops }
  let state ← receive links running.state current_vm_index start_exec_time poll.packet
  let running := { running with state }
  if running.deque_to_deliver = [] then some running
  else some (running.deliver current_vm_index
    (virtual_time (state.virtual_clocks_ns current_vm_index) start_exec_time poll.current_ts))

/-- `while(!has_got_stop_event)` over the passes of a slice, which end with the
one that reads the STOP event. -/
def listen (current_vm_index : Fin VM_NUMBER) (start_exec_time : Nat) : Running VM_NUMBER → List Poll → Option (Running VM_NUMBER)
  | running, [] => if running.has_got_stop_event then some running else none
  | running, next :: polls =>
    if running.has_got_stop_event then none
    else do
      let running ← poll links current_vm_index start_exec_time running next
      listen current_vm_index start_exec_time running polls

/-- What the merge leaves the polling loop to start with. -/
def State.begin (state : State VM_NUMBER) (current_vm_index : Fin VM_NUMBER) (end_of_time_slice_ns : Nat) : Running VM_NUMBER :=
  let (deque_to_deliver, rest) := merge end_of_time_slice_ns (frames (state.inter_vm_queues current_vm_index) + 1)
    (state.inter_vm_queues current_vm_index)
  { state := { state with inter_vm_queues := Function.update state.inter_vm_queues current_vm_index rest }
    deque_to_deliver }

/-- The deque goes out of scope; the clock becomes what QEMU reports. -/
def State.finish (state : State VM_NUMBER) (current_vm_index : Fin VM_NUMBER) (virtual_end_time_ns : Nat) : State VM_NUMBER :=
  { state with
    virtual_clocks_ns := Function.update state.virtual_clocks_ns current_vm_index virtual_end_time_ns
    scheduled := Function.update state.scheduled current_vm_index true }

/-- What the main loop does with the VM it has chosen. -/
def time_slice (state : State VM_NUMBER) (current_vm_index : Fin VM_NUMBER) (slice : Slice) : Option (State VM_NUMBER) := do
  let end_of_time_slice_ns ← end_of_time_slice_ns links state.virtual_clocks_ns current_vm_index
  let running ← listen links current_vm_index slice.start_exec_time (state.begin current_vm_index end_of_time_slice_ns) slice.polls
  some (running.state.finish current_vm_index slice.virtual_end_time_ns)

/-- One iteration of the main loop. -/
def step (state : State VM_NUMBER) (slice : Slice) : Option (State VM_NUMBER) := do
  let current_vm_index ← current_vm_index state.virtual_clocks_ns
  time_slice links state current_vm_index slice

def Poll.readings (poll : Poll) : List Nat := (poll.packet.map Prod.fst).toList ++ [poll.current_ts]

/-- The times of a slice in the order in which they are read. -/
def Slice.readings (slice : Slice) : List Nat :=
  slice.start_exec_time :: slice.polls.dropLast.flatMap Poll.readings ++
    slice.stop_time :: slice.polls.getLast?.toList.flatMap Poll.readings

end NetworkSimulator.Simulator
