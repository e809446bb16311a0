import NetworkSimulator.Bracha.Wire

/-! `broadcast` over the non-blocking streams of a process. What each `write`
returns is its input: the number of bytes the stream took, or an error. -/

namespace NetworkSimulator.Bracha

/-- The streams by address, in the order in which the map is iterated, each as
the bytes put on it. -/
abbrev TcpStreams := List (String × List UInt8)

/-- One `write` for every stream, until one of them fails. The count it returns
is dropped. -/
def broadcast (msg : Msg) (write : String → Except Unit Nat) : TcpStreams → Except Unit Unit × TcpStreams
  | [] => (.ok (), [])
  | (addr, stream) :: tcp_streams =>
    match write addr with
    | .error e => (.error e, (addr, stream) :: tcp_streams)
    | .ok n =>
      let (result, rest) := broadcast msg write tcp_streams
      (result, (addr, stream ++ msg.serialized.take n) :: rest)

/-- `broadcast(..).unwrap()`, which ends the process on an error. -/
def broadcast_unwrap (tcp_streams : TcpStreams) (call : Msg × (String → Except Unit Nat)) : Option TcpStreams :=
  match broadcast call.1 call.2 tcp_streams with
  | (.ok (), rest) => some rest
  | (.error _, _) => none

end NetworkSimulator.Bracha
