import NetworkSimulator.Library.Binary64
import NetworkSimulator.Library.Search
import Mathlib.Data.List.FinRange
import Mathlib.Data.List.Infix
import Mathlib.Logic.Function.Basic

/-! The state of `network_simulator/src/main.cpp` and the first half of its main
loop: which VM runs next, until when, and with which frames to deliver. -/

namespace NetworkSimulator.Simulator

structure FrameToDeliver where
  delivery_timestamp_ns : Nat
  data : List UInt8
  deriving DecidableEq, Repr

/-- What the two configuration files say. -/
structure Links (VM_NUMBER : Nat) where
  inter_vm_delays_ms : Fin VM_NUMBER → Fin VM_NUMBER → Nat
  mac_to_vm_index : String → Option (Fin VM_NUMBER) := fun _ => none

/-- A frame written to a TAP, with its sender and the reading it was due at. -/
structure Delivery (VM_NUMBER : Nat) where
  sender : Fin VM_NUMBER
  frame : FrameToDeliver
  current_virtual_time_estimation_ns : Nat
  deriving DecidableEq

/-- `inter_vm_queues i j` holds the frames to VM `i` from VM `j`. The last three
fields are history: every frame ever pushed, every frame written to the TAP of
VM `i`, and which VMs have had a slice. -/
structure State (VM_NUMBER : Nat) where
  virtual_clocks_ns : Fin VM_NUMBER → Nat
  inter_vm_queues : Fin VM_NUMBER → Fin VM_NUMBER → List FrameToDeliver := fun _ _ => []
  pushed : Fin VM_NUMBER → Fin VM_NUMBER → List FrameToDeliver := fun _ _ => []
  written : Fin VM_NUMBER → List (Delivery VM_NUMBER) := fun _ => []
  scheduled : Fin VM_NUMBER → Bool := fun _ => false

variable {VM_NUMBER : Nat}

/-- `time + delay*1e6` in double arithmetic. -/
def delayed (time delay : Nat) : Nat := Binary64.round (Binary64.round time + Binary64.round (delay * 1000000))

/-- `std::min_element` over the clocks. -/
def current_vm_index (virtual_clocks_ns : Fin VM_NUMBER → Nat) : Option (Fin VM_NUMBER) :=
  Search.minElement virtual_clocks_ns (List.finRange VM_NUMBER)

def min_virtual_clock (virtual_clocks_ns : Fin VM_NUMBER → Nat) : Option Nat :=
  (current_vm_index virtual_clocks_ns).map virtual_clocks_ns

section
variable (links : Links VM_NUMBER) (virtual_clocks_ns : Fin VM_NUMBER → Nat) (current_vm_index : Fin VM_NUMBER)

def duration (vm_index : Fin VM_NUMBER) : Nat :=
  Binary64.round (delayed (virtual_clocks_ns vm_index) (links.inter_vm_delays_ms current_vm_index vm_index) -
    Binary64.round (virtual_clocks_ns current_vm_index))

def durations_to_run_ns : List Nat :=
  ((List.finRange VM_NUMBER).filter fun vm_index => vm_index ≠ current_vm_index ∨ VM_NUMBER = 1).map
    (duration links virtual_clocks_ns current_vm_index)

def duration_to_run_ns : Option Nat := Search.minElement id (durations_to_run_ns links virtual_clocks_ns current_vm_index)

def end_of_time_slice_ns : Option Nat := do
  let duration ← duration_to_run_ns links virtual_clocks_ns current_vm_index
  some (virtual_clocks_ns current_vm_index + duration)

/-- The argument of `run-time-slice`, `(int)(duration_to_run_ns/1e6)`. -/
def duration_ms (duration_to_run_ns : Nat) : Nat := duration_to_run_ns / 1000000

/-- The same argument with the division in double arithmetic, and the cast where
it is defined: an `int` holds less than 2^31 ms. -/
def commanded_duration_ms (duration_to_run_ns : Nat) : Nat :=
  Binary64.truncatedQuotient (Binary64.round duration_to_run_ns) 1000000

end

section
variable (queues : Fin VM_NUMBER → List FrameToDeliver) (end_of_time_slice_ns : Nat)

/-- The body of the inner `for` of the merge. Only the first candidate is compared
with the end of the slice; the others have to be earlier than the best so far. -/
def visit (min_queue : Option (Fin VM_NUMBER × FrameToDeliver)) (j : Fin VM_NUMBER) : Option (Fin VM_NUMBER × FrameToDeliver) :=
  match queues j, min_queue with
  | [], _ => min_queue
  | front :: _, some (_, least) => if front.delivery_timestamp_ns < least.delivery_timestamp_ns then some (j, front) else min_queue
  | front :: _, none => if front.delivery_timestamp_ns ≤ end_of_time_slice_ns then some (j, front) else none

def min_queue : Option (Fin VM_NUMBER × FrameToDeliver) :=
  (List.finRange VM_NUMBER).foldl (visit queues end_of_time_slice_ns) none

end

/-- The `while` of the merge, for at most `fuel` frames: `deque_to_deliver`, each
frame with its sender, and what stays in the queues. -/
def merge (end_of_time_slice_ns : Nat) : Nat → (Fin VM_NUMBER → List FrameToDeliver) →
    List (Fin VM_NUMBER × FrameToDeliver) × (Fin VM_NUMBER → List FrameToDeliver)
  | 0, queues => ([], queues)
  | fuel + 1, queues =>
    match min_queue queues end_of_time_slice_ns with
    | none => ([], queues)
    | some (j, frame) =>
      let (deque_to_deliver, rest) := merge end_of_time_slice_ns fuel (Function.update queues j (queues j).tail)
      ((j, frame) :: deque_to_deliver, rest)

/-- No more frames can be taken than there are. -/
def frames (queues : Fin VM_NUMBER → List FrameToDeliver) : Nat :=
  ((List.finRange VM_NUMBER).map fun j => (queues j).length).sum

end NetworkSimulator.Simulator
