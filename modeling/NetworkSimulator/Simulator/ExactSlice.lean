import NetworkSimulator.Library.Lockstep
import NetworkSimulator.Simulator.Slice

/-! VMs as deterministic processes, and slices measured without error. The loop is
the one of `Slice`; the choice among the VMs with the least clock is left open. -/

namespace NetworkSimulator.Simulator
variable {VM_NUMBER : Nat}

def Poll.read (clock start_exec_time : Nat) (poll : Poll) : Option (Nat × List UInt8) := do
  let (packet_time, read) ← poll.packet
  let data ← read
  some (virtual_time clock start_exec_time packet_time, data)

/-- The frames read from the TAP of the VM that runs, with their virtual times. -/
def Slice.reads (clock : Nat) (slice : Slice) : List (Nat × List UInt8) :=
  slice.polls.filterMap (Poll.read clock slice.start_exec_time)

/-- The simulator together with what each VM has emitted, and when. -/
structure Logged (VM_NUMBER : Nat) where
  state : State VM_NUMBER
  emitted : Fin VM_NUMBER → List (Nat × List UInt8) := fun _ => []

/-- One iteration of the main loop, with any way to choose the VM. -/
def stepBy (choose : (Fin VM_NUMBER → Nat) → Option (Fin VM_NUMBER)) (links : Links VM_NUMBER) (logged : Logged VM_NUMBER)
    (slice : Slice) : Option (Logged VM_NUMBER) := do
  let current_vm_index ← choose logged.state.virtual_clocks_ns
  let state ← time_slice links logged.state current_vm_index slice
  some ⟨state, Function.update logged.emitted current_vm_index
    (logged.emitted current_vm_index ++ slice.reads (logged.state.virtual_clocks_ns current_vm_index))⟩

def atTime (frames : List (Nat × List UInt8)) (time : Nat) : List (List UInt8) :=
  (frames.filter fun frame => frame.1 = time).map Prod.snd

/-- The frames handed to a VM: when they were due, from whom, and their bytes. -/
def State.handed (state : State VM_NUMBER) (i : Fin VM_NUMBER) : Set (Nat × Fin VM_NUMBER × List UInt8) :=
  {arrival | ∃ delivery ∈ state.written i,
    arrival = (delivery.frame.delivery_timestamp_ns, delivery.sender, delivery.frame.data)}

/-- What a VM emits at a virtual time, by the frames handed to it before. -/
abbrev Process (VM_NUMBER : Nat) := Fin VM_NUMBER → Nat → Set (Nat × Fin VM_NUMBER × List UInt8) → List (List UInt8)

/-- The VM runs from its clock to the end of the slice, every frame it emits is
stamped with its own virtual time, and every frame of the deque is handed over
when it is due. -/
structure Exact (links : Links VM_NUMBER) (process : Process VM_NUMBER) (state : State VM_NUMBER) (vm : Fin VM_NUMBER) (slice : Slice)
    (end_of_time_slice_ns : Nat) (next : State VM_NUMBER) : Prop where
  ends : slice.virtual_end_time_ns = end_of_time_slice_ns
  in_order : ((slice.reads (state.virtual_clocks_ns vm)).map Prod.fst).Pairwise (· ≤ ·)
  emits : ∀ time, atTime (slice.reads (state.virtual_clocks_ns vm)) time =
    if state.virtual_clocks_ns vm ≤ time ∧ time < end_of_time_slice_ns then
      process vm time {arrival ∈ next.handed vm | arrival.1 < time}
    else []
  hands_over : next.written vm = state.written vm ++ (state.begin vm end_of_time_slice_ns).deque_to_deliver.map fun entry =>
    ⟨entry.1, entry.2, entry.2.delivery_timestamp_ns⟩

def ExactSlice (links : Links VM_NUMBER) (process : Process VM_NUMBER) (state : State VM_NUMBER) (vm : Fin VM_NUMBER)
    (slice : Slice) : Prop :=
  ∀ limit ∈ end_of_time_slice_ns links state.virtual_clocks_ns vm, ∀ next ∈ time_slice links state vm slice,
    Exact links process state vm slice limit next

/-- VM `i` gets a frame of VM `j`. -/
def Links.Reaches (links : Links VM_NUMBER) (j i : Fin VM_NUMBER) (data : List UInt8) : Prop :=
  6 ≤ data.length ∧ ((hexStr (data.take 6) = "ff:ff:ff:ff:ff:ff" ∧ i ≠ j) ∨ links.mac_to_vm_index (hexStr (data.take 6)) = some i)

/-- The VMs as they are without the simulator: each on its own machine, with the
delays of the links in between. -/
def reference (links : Links VM_NUMBER) (process : Process VM_NUMBER) : Lockstep.System (Fin VM_NUMBER) (List UInt8) where
  emit := process
  delay i j := links.inter_vm_delays_ms i j * 1000000
  reaches := links.Reaches

end NetworkSimulator.Simulator
