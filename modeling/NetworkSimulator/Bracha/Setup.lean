import Mathlib.Data.Fin.Basic
import Mathlib.Data.List.Defs
import Mathlib.Logic.Function.Basic

/-! How the processes connect, before the main loop of
`bracha_broadcast/node/src/main.rs`. Each binds its listener, connects to those
after it in the list, one at a time, and accepts until it has all its streams. -/

namespace NetworkSimulator.Bracha

/-- Where a process is. `connecting i` is the inner `loop` that tries `addresses[i]`. -/
inductive Phase (process_number : Nat) where
  | unbound
  | connecting (i : Fin process_number)
  | accepting
  | running
  deriving DecidableEq

/-- `tcp_streams`: a stream is given by the number of its connection. -/
abbrev StreamMap := List (String × Nat)

/-- `insert` on a hash map replaces the value of its key. -/
def StreamMap.insert (tcp_streams : StreamMap) (addr : String) (stream : Nat) : StreamMap :=
  (addr, stream) :: tcp_streams.filter (·.1 ≠ addr)

/-- `incoming i` holds the connections that the listener of `i` has not accepted
yet, with the address of the peer. `connections` is history: who has connected to
whom, in order. -/
structure Setup (process_number : Nat) where
  phase : Fin process_number → Phase process_number := fun _ => .unbound
  tcp_streams : Fin process_number → StreamMap := fun _ => []
  incoming : Fin process_number → List (String × Nat) := fun _ => []
  connections : List (Fin process_number × Fin process_number) := []

/-- `refused` is an attempt to connect before the peer has bound its listener.
`accept` takes any of the connections that wait, as they may arrive in any order. -/
inductive SetupAction (process_number : Nat) where
  | bind (id : Fin process_number)
  | connect (id : Fin process_number)
  | refused (id : Fin process_number)
  | accept (id : Fin process_number) (position : Nat)

/-- Everything but an attempt that fails. -/
def SetupAction.Advances {process_number : Nat} : SetupAction process_number → Prop
  | .refused _ => False
  | _ => True

variable {process_number : Nat}

/-- The process that does it. -/
def SetupAction.actor : SetupAction process_number → Fin process_number
  | .bind id => id
  | .connect id => id
  | .refused id => id
  | .accept id _ => id

instance : DecidablePred (@SetupAction.Advances process_number)
  | .bind _ => isTrue trivial
  | .connect _ => isTrue trivial
  | .refused _ => isFalse id
  | .accept _ _ => isTrue trivial

namespace Setup

/-- The head of the loop over the peers, and the test that follows it. -/
def peers_from (i : Nat) (tcp_streams : StreamMap) : Phase process_number :=
  if inside : i < process_number then .connecting ⟨i, inside⟩
  else if tcp_streams.length < process_number - 1 then .accepting
  else .running

/-- `addresses` lists the IP of every process. -/
def step (addresses : Fin process_number → String) (setup : Setup process_number) :
    SetupAction process_number → Option (Setup process_number)
  | .bind id =>
    if setup.phase id = .unbound then
      some { setup with phase := Function.update setup.phase id (peers_from (id + 1) (setup.tcp_streams id)) }
    else none
  | .connect id =>
    match setup.phase id with
    | .connecting i =>
      if setup.phase i = .unbound then none
      else
        let stream := setup.connections.length
        let tcp_streams := (setup.tcp_streams id).insert (addresses i) stream
        some {
          phase := Function.update setup.phase id (peers_from (i + 1) tcp_streams)
          tcp_streams := Function.update setup.tcp_streams id tcp_streams
          incoming := Function.update setup.incoming i (setup.incoming i ++ [(addresses id, stream)])
          connections := setup.connections ++ [(id, i)] }
    | _ => none
  | .refused id =>
    match setup.phase id with
    | .connecting i => if setup.phase i = .unbound then some setup else none
    | _ => none
  | .accept id position =>
    if setup.phase id = .accepting then do
      let (addr, stream) ← (setup.incoming id)[position]?
      let tcp_streams := (setup.tcp_streams id).insert addr stream
      some { setup with
        phase := if tcp_streams.length = process_number - 1 then Function.update setup.phase id .running else setup.phase
        tcp_streams := Function.update setup.tcp_streams id tcp_streams
        incoming := Function.update setup.incoming id ((setup.incoming id).eraseIdx position) }
    else none

end Setup
end NetworkSimulator.Bracha
