import NetworkSimulator.Bracha.Node
import NetworkSimulator.Library.Machine
import NetworkSimulator.Library.Mesh

/-! Processes running `main` over one FIFO stream per ordered pair. A step is
one message taken from a stream, so any order of receptions is a run. -/

namespace NetworkSimulator.Bracha

/-- `channels j i` is what `j` has written to `i` and `i` has not handled.
A process that has left its loop reads nothing more, so what is sent to it
stays there. `forged` records what faulty processes have sent to each one. -/
structure Net (process_number : Nat) where
  nodes : Fin process_number → Node := fun _ => {}
  left : Fin process_number → Bool := fun _ => false
  channels : Mesh.Channels (Fin process_number) Msg := fun _ _ => []
  forged : Fin process_number → List Msg := fun _ => []

/-- `last` says that the message ends this pass of the main loop, which is
where the exit test stands. -/
inductive Action (process_number : Nat) where
  | start (i : Fin process_number)
  | receive (i j : Fin process_number) (last : Bool)
  | forge (f i : Fin process_number) (msg : Msg)
  deriving DecidableEq

variable {process_number : Nat}

def processConfig (number_of_msg_per_process : Nat) (i : Fin process_number) : Config where
  id := i
  process_number := process_number
  number_of_msg_per_process := number_of_msg_per_process

namespace Net

/-- Node `i` has become `node`; what it broadcast meanwhile is on its streams. -/
def advance (net : Net process_number) (i : Fin process_number) (node : Node) : Net process_number :=
  { net with
    nodes := Function.update net.nodes i node
    channels := Mesh.post net.channels i (node.broadcasts.drop (net.nodes i).broadcasts.length) }

def consume (net : Net process_number) (j i : Fin process_number) (rest : List Msg) : Net process_number :=
  { net with channels := Mesh.take net.channels j i rest }

/-- The end of a pass of the main loop, with or without leaving it. -/
def endPass (net : Net process_number) (i : Fin process_number) (exits : Bool) : Net process_number :=
  { net with left := Function.update net.left i (net.left i || exits) }

def forge (net : Net process_number) (f i : Fin process_number) (msg : Msg) : Net process_number :=
  { net with
    channels := Mesh.push net.channels f i msg
    forged := Function.update net.forged i (net.forged i ++ [msg]) }

variable (number_of_msg_per_process : Nat) (faulty : Finset (Fin process_number))

/-- Correct processes take messages in any order; faulty ones write anything
to anyone at any time. -/
def step (net : Net process_number) : Action process_number → Option (Net process_number)
  | .start i =>
    if i ∉ faulty ∧ net.left i = false ∧ (net.nodes i).current_msg_id_to_send = 1 then
      some (net.advance i ((net.nodes i).sendInitial (processConfig number_of_msg_per_process i)))
    else none
  | .receive i j last =>
    if i ∉ faulty ∧ net.left i = false ∧ (net.nodes i).current_msg_id_to_send ≠ 1 then
      match net.channels j i with
      | [] => none
      | msg :: rest => do
        let node ← (net.nodes i).handle (processConfig number_of_msg_per_process i) msg
        let exits := last && node.finished (processConfig number_of_msg_per_process i)
        some (((net.consume j i rest).advance i node).endPass i exits)
    else none
  | .forge f i msg => if f ∈ faulty then some (net.forge f i msg) else none

end Net

/-- States some run reaches from the connected, idle mesh. -/
def Reachable (number_of_msg_per_process : Nat) (faulty : Finset (Fin process_number)) (net : Net process_number) : Prop :=
  Machine.Reachable (Net.step number_of_msg_per_process faulty) {} net

end NetworkSimulator.Bracha
