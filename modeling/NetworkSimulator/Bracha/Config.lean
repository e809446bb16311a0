import NetworkSimulator.Bracha.Setup
import NetworkSimulator.Library.Scanner

/-! The file that tells the processes about each other. The scripts under
`bracha_broadcast/run` write it, and `main.rs` reads it before it does anything else. -/

namespace NetworkSimulator.Bracha
open Scanner

abbrev Ipv4Addr := List.Vector (Fin 256) 4

structure SocketAddrV4 where
  ip : Ipv4Addr
  port : Fin 65536
  deriving DecidableEq

def Ipv4Addr.to_string (ip : Ipv4Addr) : List Char := ['.'].intercalate (ip.toList.map fun (octet : Fin 256) => Nat.toDigits 10 octet)

def read_ipv4_addr : Reader Char Ipv4Addr := groups '.' (read_number (some 3) false 256) 4 0

def read_port (text : List Char) : Option (Fin 65536 × List Char) := do
  let text ← given ':' text
  read_number none true 65536 text

/-- `SocketAddrV4::from_str`, which leaves nothing of the line. -/
def SocketAddrV4.from_str (line : List Char) : Option SocketAddrV4 := do
  let (ip, text) ← read_ipv4_addr line
  let (port, text) ← read_port text
  if text = [] then some { ip, port } else none

/-- What `main` takes from the file. `usize` has 64 bits. -/
structure ConfigTxt where
  number_of_msg_per_process : Fin (2 ^ 64)
  addresses : List SocketAddrV4
  deriving DecidableEq

/-- The head of `main`, where each `unwrap` of a failure is a panic. -/
def read_config (contents : List Char) : Option ConfigTxt :=
  match lines contents with
  | [] => none
  | first :: lines => do
    let number_of_msg_per_process ← parse (2 ^ 64) first
    let addresses ← lines.mapM SocketAddrV4.from_str
    some { number_of_msg_per_process, addresses }

/-- How `tcp_streams` names the processes. -/
def ConfigTxt.names (config : ConfigTxt) (i : Fin config.addresses.length) : String := String.ofList (config.addresses.get i).ip.to_string

/-- The file both scripts write. -/
def write_config (number_msg_to_broadcast : Nat) (addresses : List (List Char × Nat)) : List Char :=
  Nat.toDigits 10 number_msg_to_broadcast ++ '\n' :: addresses.flatMap fun (addr, port) =>
    addr ++ ':' :: (Nat.toDigits 10 port ++ ['\n'])

def port_number : Nat := 42512

/-- The addresses of `bracha_broadcast_sim.py`. -/
def sim_addresses (NUMBER_VM : Nat) : List (List Char × Nat) :=
  (List.range NUMBER_VM).map fun i => ("192.168.15.".toList ++ Nat.toDigits 10 i, port_number)

end NetworkSimulator.Bracha
