import NetworkSimulator.Library.Lines
import Mathlib.Logic.Function.Basic

/-! `read_line` of `network_simulator/src/helpers.h` as a whole: what it returns and
leaves behind, for the pieces in which `read` hands over what arrives. -/

namespace NetworkSimulator.Simulator

/-- `sizeof(BUFF_SIZE)`, the size of an `int`. -/
def sizeof_BUFF_SIZE : Nat := 4

/-- What one `read` puts into `recv_buff`. -/
structure Chunk where
  bytes : List Char
  nonempty : bytes ≠ []
  bound : bytes.length ≤ sizeof_BUFF_SIZE

/-- `recv_buff` is zeroed before and appended as a C string. -/
def Chunk.c_string (chunk : Chunk) : List Char := chunk.bytes.takeWhile (· ≠ '\x00')

/-- The `while` of `read_line`, over the pieces still to be read. -/
def fill : List Char → List Chunk → Option (List Char × List Chunk)
  | buffer, [] => if '\n' ∈ buffer then some (buffer, []) else none
  | buffer, recv_buff :: arriving =>
    if '\n' ∈ buffer then some (buffer, recv_buff :: arriving) else fill (buffer ++ recv_buff.c_string) arriving

/-- The sockets, by file descriptor. `responses` is history: what the calls on a
socket have returned. -/
structure Reader where
  qmp_socket_to_buffers : Int → List Char := fun _ => []
  arriving : Int → List Chunk
  responses : Int → List (List Char) := fun _ => []

/-- A call that returns. It blocks where the pieces hold no newline. -/
def Reader.read_line (reader : Reader) (socket : Int) : Option Reader := do
  let (buffer, arriving) ← fill (reader.qmp_socket_to_buffers socket) (reader.arriving socket)
  let (response, buffer) ← Lines.first '\n' buffer
  some {
    qmp_socket_to_buffers := Function.update reader.qmp_socket_to_buffers socket buffer
    arriving := Function.update reader.arriving socket arriving
    responses := Function.update reader.responses socket (reader.responses socket ++ [response]) }

end NetworkSimulator.Simulator
