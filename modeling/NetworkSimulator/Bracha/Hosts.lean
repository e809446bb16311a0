import NetworkSimulator.Bracha.Network
import NetworkSimulator.Bracha.Wire
import NetworkSimulator.Library.Framing

/-! Processes joined by byte streams. A step is one blocking call of `main` and
what the process does with its result: the first Initial, a `select`, one `read`
with the messages it completes, or the exit test behind the last `read` of a
pass. No call returns an error. -/

namespace NetworkSimulator.Bracha
open Framing
variable {process_number : Nat} {σ : Type}

/-- A call of `broadcast`: the message, and how many of its bytes each stream takes. -/
abbrev Call (process_number : Nat) := Msg × (Fin process_number → Nat)

/-- `streams j i` is what `j` has written to `i` and `i` has not read, and
`recv_buffers j i` is where `i` keeps what it has read of it. A pass of the loop
lists the streams that `select` found ready and that are still to be read. -/
structure Hosts (process_number : Nat) where
  nodes : Fin process_number → Node := fun _ => {}
  left : Fin process_number → Bool := fun _ => false
  streams : Fin process_number → Fin process_number → List UInt8 := fun _ _ => []
  recv_buffers : Fin process_number → Fin process_number → List UInt8 := fun _ _ => []
  passes : Fin process_number → Option (List (Fin process_number)) := fun _ => none

inductive SystemCall (process_number : Nat) where
  | start (i : Fin process_number) (calls : List (Call process_number))
  | select (i : Fin process_number) (ready : List (Fin process_number))
  | read (i : Fin process_number) (n : Nat) (calls : List (Call process_number))
  | endPass (i : Fin process_number)

/-- What `write` returns to process `i`: for each of its peers a count that is
positive and at most the length of the message. -/
def Accepted (i : Fin process_number) (msgs : List Msg) (calls : List (Call process_number)) : Prop :=
  calls.map Prod.fst = msgs ∧ ∀ call ∈ calls, ∀ k, k ≠ i → 1 ≤ call.2 k ∧ call.2 k ≤ call.1.serialized.length

instance (i : Fin process_number) (msgs : List Msg) (calls : List (Call process_number)) :
    Decidable (Accepted i msgs calls) := instDecidableAnd

/-- Every write of the step meets a condition on the message and on the count. -/
def SystemCall.Writes (allowed : Msg × Nat → Prop) : SystemCall process_number → Prop
  | .start i calls | .read i _ calls => ∀ call ∈ calls, ∀ k, k ≠ i → allowed (call.1, call.2 k)
  | .select _ _ | .endPass _ => True

instance (allowed : Msg × Nat → Prop) [DecidablePred allowed] : DecidablePred (@SystemCall.Writes process_number allowed)
  | .start _ calls | .read _ _ calls => List.decidableBAll _ calls
  | .select _ _ | .endPass _ => isTrue trivial

namespace Hosts

/-- Node `i` has become `node`; what it broadcast meanwhile is on its streams, as
far as they took it. -/
def advance (hosts : Hosts process_number) (i : Fin process_number) (node : Node) (calls : List (Call process_number)) :
    Hosts process_number :=
  { hosts with
    nodes := Function.update hosts.nodes i node
    streams := fun j k =>
      if j = i ∧ k ≠ i then hosts.streams j k ++ calls.flatMap fun call => call.1.serialized.take (call.2 k)
      else hosts.streams j k }

/-- Process `i` has taken `n` bytes from the stream of `j` and keeps `recv_buffer`. -/
def consume (hosts : Hosts process_number) (j i : Fin process_number) (n : Nat) (recv_buffer : List UInt8) :
    Hosts process_number :=
  { hosts with
    streams := fun a b => if a = j ∧ b = i then (hosts.streams a b).drop n else hosts.streams a b
    recv_buffers := fun a b => if a = j ∧ b = i then recv_buffer else hosts.recv_buffers a b }

def resume (hosts : Hosts process_number) (i : Fin process_number) (ready : List (Fin process_number)) :
    Hosts process_number :=
  { hosts with passes := Function.update hosts.passes i (some ready) }

/-- The end of a pass of the main loop, with or without leaving it. -/
def endPass (hosts : Hosts process_number) (i : Fin process_number) (exits : Bool) : Hosts process_number :=
  { hosts with
    left := Function.update hosts.left i (hosts.left i || exits)
    passes := Function.update hosts.passes i none }

/-- `select` reports a stream that holds bytes or that its peer has closed. -/
def ready (hosts : Hosts process_number) (i j : Fin process_number) : Bool :=
  hosts.streams j i ≠ [] || hosts.left j

variable (de : StreamDeserializer σ) (number_of_msg_per_process : Nat)

def step (hosts : Hosts process_number) : SystemCall process_number → Option (Hosts process_number)
  | .start i calls =>
    if hosts.left i = false ∧ hosts.passes i = none ∧ (hosts.nodes i).current_msg_id_to_send = 1 then
      let node := (hosts.nodes i).sendInitial (processConfig number_of_msg_per_process i)
      if Accepted i (node.broadcasts.drop (hosts.nodes i).broadcasts.length) calls then some (hosts.advance i node calls)
      else none
    else none
  | .select i ready =>
    if hosts.left i = false ∧ hosts.passes i = none ∧ (hosts.nodes i).current_msg_id_to_send ≠ 1 ∧ ready ≠ [] ∧
        ready.Pairwise (· < ·) ∧ (ready.all fun j => j ≠ i && hosts.ready i j) = true then
      some (hosts.resume i ready)
    else none
  | .read i n calls =>
    match hosts.passes i with
    | some (j :: ready) =>
      -- `temp_recv_buffer` has 200 bytes, and only a closed stream yields none.
      if n ≤ 200 ∧ n ≤ (hosts.streams j i).length ∧ (n = 0 → hosts.streams j i = []) then do
        let temp_recv_buffer := (hosts.streams j i).take n
        let endpoint : Endpoint := { node := hosts.nodes i, recv_buffer := hosts.recv_buffers j i }
        let next ← endpoint.receive de (processConfig number_of_msg_per_process i)
          ((hosts.recv_buffers j i ++ temp_recv_buffer).length + 2) temp_recv_buffer
        if Accepted i (next.node.broadcasts.drop (hosts.nodes i).broadcasts.length) calls then
          some (((hosts.consume j i n next.recv_buffer).advance i next.node calls).resume i ready)
        else none
      else none
    | _ => none
  | .endPass i =>
    match hosts.passes i with
    | some [] =>
      some (hosts.endPass i ((hosts.nodes i).finished (processConfig number_of_msg_per_process i)))
    | _ => none

end Hosts

/-- What can follow on a stream after a write that was cut short. -/
def Torn (text : List UInt8) : Prop :=
  ∃ write later, ¬ Complete Msg.serialized write ∧ (∀ other ∈ write :: later, 1 ≤ other.2) ∧
    text <+: (write :: later).flatMap (taken Msg.serialized)

/-- What the JSON grammar and the derived type say about such a text: there is
no message in it. -/
def StreamDeserializer.Refuses (de : StreamDeserializer σ) (reads : σ → List UInt8 → Nat → Prop) : Prop :=
  ∀ s slice k, reads s slice k → slice.drop k ≠ [] → Torn (slice.drop k) →
    ∃ s' : σ, de.next s = (some (.error ()), s') ∧ (de.next s').1 = none

end NetworkSimulator.Bracha
