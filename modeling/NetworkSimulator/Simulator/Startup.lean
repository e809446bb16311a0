import NetworkSimulator.Library.Text
import NetworkSimulator.Simulator.Schedule

/-! What `network_simulator/src/main.cpp` makes of its two configuration files before
the main loop. An exception or an early `return` is `none`. -/

namespace NetworkSimulator.Simulator

/-- The vectors that the loop over the config file fills. A socket is given by the
port that it is connected to. -/
structure Startup where
  mac_to_vm_index : String → Option Nat := fun _ => none
  tap_fds : List Int := []
  qmp_sockets : List UInt16 := []

/-- The loop body. `tun_alloc` opens the TAP of a name, in the kernel. -/
def configure (tun_alloc : List Char → Int) (startup : Startup) (config_line : List Char) : Option Startup := do
  let (port_string, ss_line) := Text.extract config_line
  let (mac, ss_line) := Text.extract ss_line
  let (tap_interface, _) := Text.extract ss_line
  let port ← Text.stoi port_string
  let tap_fd := tun_alloc tap_interface
  if tap_fd < 0 then none
  else some {
    mac_to_vm_index := Function.update startup.mac_to_vm_index (String.ofList mac) (some startup.tap_fds.length)
    tap_fds := startup.tap_fds ++ [tap_fd]
    qmp_sockets := startup.qmp_sockets ++ [UInt16.ofInt port] }

def read_config (tun_alloc : List Char → Int) (config_file : List Char) : Option Startup :=
  (Text.getlines '\n' config_file).foldlM (configure tun_alloc) {}

def Startup.VM_NUMBER (startup : Startup) : Nat := startup.qmp_sockets.length

def split_string (s : List Char) (del : Char) : List (List Char) := Text.getlines del s

/-- `push_back( std::stoi(delay) )`, into a vector of `uint32_t`. -/
def read_delay (delay : List Char) : Option UInt32 := (Text.stoi delay).map UInt32.ofInt

/-- `inter_vm_delays_ms`, a row for each line and an entry for each token. -/
def read_delays (delays_file : List Char) : Option (List (List UInt32)) :=
  (Text.getlines '\n' delays_file).mapM fun delays_line => (split_string delays_line ' ').mapM read_delay

/-- `inter_vm_delays_ms[i][j]`, where there is one. -/
def delay_at (inter_vm_delays_ms : List (List UInt32)) (i j : Nat) : Option UInt32 :=
  inter_vm_delays_ms[i]?.bind (·[j]?)

/-- What the main loop indexes from then on. -/
def Startup.links (startup : Startup) (inter_vm_delays_ms : List (List UInt32)) : Links startup.VM_NUMBER where
  inter_vm_delays_ms i j := ((delay_at inter_vm_delays_ms i j).getD 0).toNat
  mac_to_vm_index mac := do
    let vm_index ← startup.mac_to_vm_index mac
    if inside : vm_index < startup.VM_NUMBER then some ⟨vm_index, inside⟩ else none

end NetworkSimulator.Simulator
