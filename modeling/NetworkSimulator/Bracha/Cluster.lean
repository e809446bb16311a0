import NetworkSimulator.Bracha.Network

/-! Processes whose peers can be gone. A process that has left its loop closes
its streams, and from then on `broadcast` may fail at a write to it; every
caller unwraps the result, so the process panics in the middle of a broadcast. -/

namespace NetworkSimulator.Bracha
variable {process_number : Nat}

def Action.actor : Action process_number → Fin process_number
  | .start i | .receive i _ _ | .forge i _ _ => i

structure Cluster (process_number : Nat) where
  net : Net process_number := {}
  panicked : Fin process_number → Bool := fun _ => false

/-- `fail` is a step whose process completes `written` broadcasts and panics in
the next one, after writing it to the peers in `reached`. -/
inductive Event (process_number : Nat) where
  | act (action : Action process_number)
  | fail (action : Action process_number) (written : Nat) (reached : Fin process_number → Bool)

namespace Cluster

def closed (cluster : Cluster process_number) (q : Fin process_number) : Bool :=
  cluster.net.left q || cluster.panicked q

/-- What the panicking process `i` has written: whole broadcasts, and one that
stopped at a closed stream. Its own variables are not read again. -/
def abort (cluster : Cluster process_number) (i : Fin process_number) (complete : List Msg) (msg : Msg)
    (reached : Fin process_number → Bool) : Cluster process_number where
  net := { cluster.net with
    channels := fun j k =>
      if j = i ∧ k ≠ i then cluster.net.channels j k ++ complete ++ (if reached k then [msg] else [])
      else cluster.net.channels j k }
  panicked := Function.update cluster.panicked i true

/-- All processes are correct: what a run contains of `forge` is never enabled. -/
def step (number_of_msg_per_process : Nat) (cluster : Cluster process_number) :
    Event process_number → Option (Cluster process_number)
  | .act action =>
    if cluster.panicked action.actor then none
    else (cluster.net.step number_of_msg_per_process ∅ action).map fun net => { cluster with net }
  | .fail action written reached =>
    if cluster.panicked action.actor then none
    else do
      let i := action.actor
      let net ← cluster.net.step number_of_msg_per_process ∅ action
      let output := (net.nodes i).broadcasts.drop (cluster.net.nodes i).broadcasts.length
      let msg ← output[written]?
      if ∃ q, q ≠ i ∧ cluster.closed q = true ∧ reached q = false then
        some (cluster.abort i (output.take written) msg reached)
      else none

end Cluster
end NetworkSimulator.Bracha
