import NetworkSimulator.Simulator.Slice
import NetworkSimulator.Simulator.Startup

/-! The names that `network_simulator/start.py` gives to the parts of VM `i`: on the
command line of QEMU, and in the `config.txt` that the simulator reads. -/

namespace NetworkSimulator.Simulator

/-- `format(i, "02x")` -/
def format_02x (i : Nat) : List Char :=
  List.replicate (2 - (Nat.toDigits 16 i).length) '0' ++ Nat.toDigits 16 i

/-- `text[-2:]` -/
def last_two (text : List Char) : List Char := text.drop (text.length - 2)

/-- `mac=` of the `e1000` device. -/
def mac (i : Nat) : List Char := "52:55:00:d1:55:".toList ++ last_two (format_02x i)

/-- `-qmp tcp:localhost:` -/
def qmp_port (i : Nat) : Nat := 4444 + i

def tap_interface (VM_COUNT i : Nat) : List Char := "tap".toList ++ Nat.toDigits 10 (VM_COUNT + i)

def config_line (VM_COUNT i : Nat) : List Char :=
  Nat.toDigits 10 (4444 + i) ++ ' ' :: ("52:55:00:d1:55:".toList ++ last_two (format_02x i)) ++
    ' ' :: ("tap".toList ++ Nat.toDigits 10 (VM_COUNT + i))

def config_txt (VM_COUNT : Nat) : List Char := (List.range VM_COUNT).flatMap fun i => config_line VM_COUNT i ++ ['\n']

/-- The byte of two hexadecimal digits. -/
def hex_byte : List Char → Option UInt8
  | [high, low] =>
    if high ∈ hexmap ∧ low ∈ hexmap then some (UInt8.ofNat (16 * hexmap.idxOf high + hexmap.idxOf low)) else none
  | _ => none

/-- The bytes of a MAC in its usual notation, which is how QEMU takes it. -/
def mac_bytes (text : List Char) : Option (List UInt8) := (text.splitOn ':').mapM hex_byte

end NetworkSimulator.Simulator
