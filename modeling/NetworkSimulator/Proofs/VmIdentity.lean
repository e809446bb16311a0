import NetworkSimulator.Library.Table
import NetworkSimulator.Proofs.HexStrings
import NetworkSimulator.Proofs.SliceEffects
import NetworkSimulator.Simulator.Launcher

/-! The launcher and the simulator agree on which VM is which, as long as the last
byte of the MAC can tell the VMs apart. -/

namespace NetworkSimulator.Simulator

theorem toDigits_last (n : Nat) : ∃ front, Nat.toDigits 16 n = front ++ [Nat.digitChar (n % 16)] := by
  rw [Nat.toDigits_eq_if (by decide)]
  split
  next short => exact ⟨[], by rw [Nat.mod_eq_of_lt short, List.nil_append]⟩
  next => exact ⟨_, rfl⟩

/-- The last two hexadecimal digits, whether or not there are two. -/
theorem last_two_format (i : Nat) : last_two (format_02x i) = [Nat.digitChar (i / 16 % 16), Nat.digitChar (i % 16)] := by
  by_cases short : i < 16
  · have digits : Nat.toDigits 16 i = [Nat.digitChar i] := Nat.toDigits_of_lt_base short
    simp [last_two, format_02x, digits, Nat.div_eq_of_lt short, Nat.mod_eq_of_lt short]
  · obtain ⟨front, shape⟩ := toDigits_last (i / 16)
    have digits : Nat.toDigits 16 i = front ++ [Nat.digitChar (i / 16 % 16), Nat.digitChar (i % 16)] := by
      rw [Nat.toDigits_of_base_le (by decide) (Nat.le_of_not_lt short), shape, List.append_assoc, List.singleton_append]
    have long : 2 - (Nat.toDigits 16 i).length = 0 := by
      rw [digits, List.length_append]
      exact Nat.sub_eq_zero_of_le (Nat.le_add_left _ _)
    rw [last_two, format_02x, long, digits, List.replicate_zero, List.nil_append, List.length_append]
    exact List.drop_left

theorem digitChar_solid : ∀ n < 16, Nat.digitChar n ≠ ':' ∧ Text.isspace (Nat.digitChar n) = false := by
  decide

/-- The bytes that all MACs begin with. -/
def mac_prefix : List UInt8 := [0x52, 0x55, 0x00, 0xd1, 0x55]

/-- The bytes of the MAC of VM `i`. -/
def mac_of (i : Nat) : List UInt8 := mac_prefix ++ [UInt8.ofNat i]

def prefix_fields : List (List Char) := [['5', '2'], ['5', '5'], ['0', '0'], ['d', '1'], ['5', '5']]

theorem mac_eq (i : Nat) :
    mac i = Lines.written ':' prefix_fields ++ [Nat.digitChar (i / 16 % 16), Nat.digitChar (i % 16)] := by
  have fixed : "52:55:00:d1:55:".toList = Lines.written ':' prefix_fields := by decide
  change "52:55:00:d1:55:".toList ++ last_two (format_02x i) = _
  rw [last_two_format, fixed]

/-- `hexStr` writes what the launcher wrote. -/
theorem hexStr_mac_of (i : Nat) : hexStr (mac_of i) = String.ofList (mac i) := by
  have fixed : mac_prefix.flatMap hex_digits = Lines.written ':' prefix_fields := by decide
  have last : hex_digits (UInt8.ofNat i) = [Nat.digitChar (i / 16 % 16), Nat.digitChar (i % 16)] ++ [':'] := by
    have high : i % 256 / 16 = i / 16 % 16 := by omega
    have low : i % 256 % 16 = i % 16 := by omega
    rw [hex_digits_eq, UInt8.toNat_ofNat', high, low]
    rfl
  change String.ofList ((mac_of i).flatMap hex_digits).dropLast = _
  rw [mac_of, List.flatMap_append, fixed, List.flatMap_singleton, last, ← List.append_assoc, List.dropLast_concat, mac_eq]

theorem mac_bytes_mac (i : Nat) : mac_bytes (mac i) = some (mac_of i) := by
  obtain ⟨_, highDigit, highValue⟩ := digitChar_hexmap (i / 16 % 16) (Nat.mod_lt _ (by decide))
  obtain ⟨_, lowDigit, lowValue⟩ := digitChar_hexmap (i % 16) (Nat.mod_lt _ (by decide))
  have highField := (digitChar_solid (i / 16 % 16) (Nat.mod_lt _ (by decide))).1
  have lowField := (digitChar_solid (i % 16) (Nat.mod_lt _ (by decide))).1
  have byte : hex_byte [Nat.digitChar (i / 16 % 16), Nat.digitChar (i % 16)] = some (UInt8.ofNat i) := by
    have value : UInt8.ofNat (16 * (i / 16 % 16) + i % 16) = UInt8.ofNat i := by
      apply UInt8.toNat_inj.mp
      rw [UInt8.toNat_ofNat', UInt8.toNat_ofNat']
      omega
    simp only [hex_byte, highDigit, lowDigit, and_self, if_true, highValue, lowValue, value]
  have fields : (mac i).splitOn ':' = prefix_fields ++ [[Nat.digitChar (i / 16 % 16), Nat.digitChar (i % 16)]] := by
    rw [mac_eq, Lines.splitOn_written (by decide), List.splitOn_eq_singleton]
    simp [highField.symm, lowField.symm]
  rw [mac_bytes, fields]
  simp only [prefix_fields, List.cons_append, List.nil_append, List.mapM_cons, List.mapM_nil, byte]
  rfl

theorem mac_solid (i : Nat) : ∀ c ∈ mac i, Text.isspace c = false := by
  have fixed : ∀ c ∈ Lines.written ':' prefix_fields, Text.isspace c = false := by
    simp [Lines.written, prefix_fields, Text.isspace]
  have high := (digitChar_solid (i / 16 % 16) (Nat.mod_lt _ (by decide))).2
  have low := (digitChar_solid (i % 16) (Nat.mod_lt _ (by decide))).2
  intro c member
  rw [mac_eq] at member
  rcases List.mem_append.mp member with first | last
  · exact fixed c first
  · simp only [List.mem_cons, List.not_mem_nil, or_false] at last
    rcases last with rfl | rfl
    · exact high
    · exact low

theorem digits_solid (n : Nat) : ∀ c ∈ Nat.toDigits 10 n, Text.isspace c = false :=
  fun c member => Text.isspace_digit (Text.toDigits_isDigit n c member)

theorem tap_interface_solid (VM_COUNT i : Nat) : ∀ c ∈ tap_interface VM_COUNT i, Text.isspace c = false := by
  have fixed : ∀ c ∈ "tap".toList, Text.isspace c = false := by simp [Text.isspace]
  intro c member
  rcases List.mem_append.mp member with first | last
  · exact fixed c first
  · exact digits_solid _ c last

/-- The three words of a line, which the config file has as the command line of QEMU. -/
theorem config_line_eq (VM_COUNT i : Nat) : config_line VM_COUNT i =
    Nat.toDigits 10 (qmp_port i) ++ ' ' :: (mac i ++ ' ' :: tap_interface VM_COUNT i) := by
  change Nat.toDigits 10 (qmp_port i) ++ ' ' :: mac i ++ ' ' :: tap_interface VM_COUNT i = _
  rw [List.append_assoc, List.cons_append]

theorem config_line_newline (VM_COUNT i : Nat) : '\n' ∉ config_line VM_COUNT i := by
  have solid {word : List Char} (whole : ∀ c ∈ word, Text.isspace c = false) : '\n' ∉ word :=
    fun member => absurd (whole '\n' member) (by decide)
  rw [config_line_eq]
  simp [solid (digits_solid _), solid (mac_solid i), solid (tap_interface_solid VM_COUNT i)]

/-- One line, one VM. -/
theorem configure_config_line {tun_alloc : List Char → Int} {VM_COUNT i : Nat} (small : qmp_port i < 2 ^ 31)
    (opened : 0 ≤ tun_alloc (tap_interface VM_COUNT i)) (startup : Startup) :
    configure tun_alloc startup (config_line VM_COUNT i) = some {
      mac_to_vm_index := Function.update startup.mac_to_vm_index (String.ofList (mac i)) (some startup.tap_fds.length)
      tap_fds := startup.tap_fds ++ [tun_alloc (tap_interface VM_COUNT i)]
      qmp_sockets := startup.qmp_sockets ++ [UInt16.ofInt (qmp_port i)] } := by
  have space : ∀ rest : List Char, ∀ c ∈ (' ' :: rest).head?, Text.isspace c = true := by
    intro rest c head
    cases head
    rfl
  have port := Text.extract_word Nat.toDigits_ne_nil (digits_solid (qmp_port i)) (space (mac i ++ ' ' :: tap_interface VM_COUNT i))
  have name := Text.extract_word (by simp [mac_eq]) (mac_solid i) (space (tap_interface VM_COUNT i))
  have tap := @Text.extract_word _ [] (by simp [tap_interface]) (tap_interface_solid VM_COUNT i) (by simp)
  rw [List.append_nil] at tap
  simp only [configure, config_line_eq, port, Text.extract_blank (by decide : Text.isspace ' ' = true), name, tap,
    Text.stoi_toDigits small, Option.bind_eq_bind, Option.bind_some]
  rw [if_neg (Int.not_lt.mpr opened)]

/-- What the loop has after the first `count` lines. -/
def configured (tun_alloc : List Char → Int) (VM_COUNT count : Nat) : Startup where
  mac_to_vm_index := Table.filled ((List.range count).map fun i => (String.ofList (mac i), i))
  tap_fds := (List.range count).map fun i => tun_alloc (tap_interface VM_COUNT i)
  qmp_sockets := (List.range count).map fun i => UInt16.ofInt (qmp_port i)

theorem config_txt_lines (VM_COUNT : Nat) :
    Text.getlines '\n' (config_txt VM_COUNT) = (List.range VM_COUNT).map (config_line VM_COUNT) := by
  have whole : ∀ line ∈ (List.range VM_COUNT).map (config_line VM_COUNT), '\n' ∉ line := by
    intro line member
    obtain ⟨i, _, rfl⟩ := List.mem_map.mp member
    exact config_line_newline VM_COUNT i
  have written := Text.getlines_written whole
  rw [Lines.written, List.flatMap_map] at written
  exact written

section
variable {tun_alloc : List Char → Int} {VM_COUNT : Nat}
  (opened : ∀ i < VM_COUNT, 0 ≤ tun_alloc (tap_interface VM_COUNT i))
include opened

theorem configure_lines (small : VM_COUNT + 4444 ≤ 2 ^ 31) {count : Nat} (inside : count ≤ VM_COUNT) :
    ((List.range count).map (config_line VM_COUNT)).foldlM (configure tun_alloc) {} =
      some (configured tun_alloc VM_COUNT count) := by
  induction count with
  | zero => rfl
  | succ count ih =>
    have port : qmp_port count < 2 ^ 31 := by
      rw [qmp_port]
      omega
    rw [List.range_succ, List.map_append, List.foldlM_append, ih (Nat.le_of_succ_le inside), Option.bind_eq_bind,
      Option.bind_some, List.map_singleton, List.foldlM_cons, configure_config_line port (opened count inside)]
    simp [configured, List.range_succ, Table.filled_concat]

theorem read_config_txt (small : VM_COUNT + 4444 ≤ 2 ^ 31) :
    read_config tun_alloc (config_txt VM_COUNT) = some (configured tun_alloc VM_COUNT VM_COUNT) := by
  rw [read_config, config_txt_lines]
  exact configure_lines opened small (Nat.le_refl _)

end

/-- Every VM has its own QMP port, TAP and MAC at its index, and a frame to its MAC
goes to no other VM. -/
structure Agreed (tun_alloc : List Char → Int) (VM_COUNT : Nat) (startup : Startup) : Prop where
  vms : startup.VM_NUMBER = VM_COUNT ∧ startup.tap_fds.length = VM_COUNT
  ports : ∀ i < VM_COUNT, startup.qmp_sockets[i]?.map UInt16.toNat = some (qmp_port i)
  taps : ∀ i < VM_COUNT, startup.tap_fds[i]? = some (tun_alloc (tap_interface VM_COUNT i))
  macs : ∀ i < VM_COUNT, ∃ bytes, mac_bytes (mac i) = some bytes ∧ bytes.length = 6 ∧
    startup.mac_to_vm_index (hexStr bytes) = some i ∧
    ∀ j < VM_COUNT, mac_bytes (mac j) = some bytes → j = i
  routed : ∀ i < VM_COUNT, ∀ (inter_vm_delays_ms : List (List UInt32)) (state next : State startup.VM_NUMBER)
    (current_vm_index : Fin startup.VM_NUMBER) (packet_virtual_time_ns : Nat) (data : List UInt8),
    mac_bytes (mac i) = some (data.take 6) →
    dispatch (startup.links inter_vm_delays_ms) state current_vm_index packet_virtual_time_ns (some data) = some next →
      ∀ j : Fin startup.VM_NUMBER, j.val ≠ i → next.inter_vm_queues j = state.inter_vm_queues j

/-- With more VMs the MAC of VM 0 is used again. -/
theorem Agreed.small {tun_alloc : List Char → Int} {VM_COUNT : Nat} {startup : Startup}
    (agreed : Agreed tun_alloc VM_COUNT startup) : VM_COUNT ≤ 256 := by
  apply Nat.le_of_not_lt
  intro many
  obtain ⟨bytes, first, _, _, unique⟩ := agreed.macs 0 (by omega)
  have again : mac_bytes (mac 256) = some bytes := by
    rw [mac_bytes_mac] at first ⊢
    exact first
  exact absurd (unique 256 many again) (by decide)

theorem mac_injective {i j : Nat} (first : i < 256) (second : j < 256) (same : mac_of i = mac_of j) : i = j := by
  have bytes := List.append_cancel_left same
  have values := congrArg UInt8.toNat (List.cons.inj bytes).1
  rw [UInt8.toNat_ofNat', UInt8.toNat_ofNat', Nat.mod_eq_of_lt first, Nat.mod_eq_of_lt second] at values
  exact values

theorem mac_of_text {i j : Nat} (same : mac i = mac j) : mac_of i = mac_of j := by
  have bytes := mac_bytes_mac i
  rw [same, mac_bytes_mac j] at bytes
  exact (Option.some.inj bytes).symm

theorem hexStr_mac_ne_broadcast (i : Nat) : hexStr (mac_of i) ≠ "ff:ff:ff:ff:ff:ff" := by
  intro same
  have chars := congrArg String.toList same
  rw [hexStr_mac_of, String.toList_ofList, mac_eq] at chars
  simp [Lines.written, prefix_fields] at chars

section
variable {tun_alloc : List Char → Int} {VM_COUNT : Nat} (few : VM_COUNT ≤ 256)
include few

/-- No entry takes the place of another. -/
theorem configured_lookup {i : Nat} (inside : i < VM_COUNT) :
    (configured tun_alloc VM_COUNT VM_COUNT).mac_to_vm_index (hexStr (mac_of i)) = some i := by
  have distinct : (((List.range VM_COUNT).map fun i => (String.ofList (mac i), i)).map Prod.fst).Nodup := by
    rw [List.map_map]
    apply List.Nodup.map_on _ List.nodup_range
    intro i first j second same
    apply mac_injective
    · exact Nat.lt_of_lt_of_le (List.mem_range.mp first) few
    · exact Nat.lt_of_lt_of_le (List.mem_range.mp second) few
    · exact mac_of_text (String.ofList_injective same)
  rw [hexStr_mac_of]
  exact (Table.filled_eq_some_iff distinct).mpr (List.mem_map.mpr ⟨i, List.mem_range.mpr inside, rfl⟩)

theorem configured_routed {i : Nat} (inside : i < VM_COUNT) {inter_vm_delays_ms : List (List UInt32)}
    {state next : State (configured tun_alloc VM_COUNT VM_COUNT).VM_NUMBER}
    {current_vm_index : Fin (configured tun_alloc VM_COUNT VM_COUNT).VM_NUMBER} {packet_virtual_time_ns : Nat} {data : List UInt8}
    (address : mac_of i = data.take 6)
    (sent : dispatch ((configured tun_alloc VM_COUNT VM_COUNT).links inter_vm_delays_ms) state current_vm_index
      packet_virtual_time_ns (some data) = some next)
    {j : Fin (configured tun_alloc VM_COUNT VM_COUNT).VM_NUMBER} (other : j.val ≠ i) :
    next.inter_vm_queues j = state.inter_vm_queues j := by
  have unaddressed : ((configured tun_alloc VM_COUNT VM_COUNT).links inter_vm_delays_ms).mac_to_vm_index
      (hexStr (mac_of i)) ≠ some j := by
    intro routed
    simp only [Startup.links, configured_lookup few inside, Option.bind_eq_bind, Option.bind_some] at routed
    split at routed
    · cases routed
      exact other rfl
    · cases routed
  rw [dispatch_extend sent]
  funext k
  simp [State.extend, copies, unaddressed, ← address, hexStr_mac_ne_broadcast]

theorem configured_agreed : Agreed tun_alloc VM_COUNT (configured tun_alloc VM_COUNT VM_COUNT) where
  vms := by simp [Startup.VM_NUMBER, configured]
  ports := by
    intro i inside
    have port : ((UInt16.ofInt (qmp_port i : Int)).toNat) = qmp_port i := by
      change (UInt16.ofNat ((qmp_port i : Int) % 2 ^ 16).toNat).toNat = qmp_port i
      rw [UInt16.toNat_ofNat', qmp_port]
      omega
    simp [configured, List.getElem?_range inside, port]
  taps := by
    intro i inside
    simp [configured, List.getElem?_range inside]
  macs := by
    intro i inside
    refine ⟨mac_of i, mac_bytes_mac i, rfl, configured_lookup few inside, ?_⟩
    intro j other same
    rw [mac_bytes_mac] at same
    apply mac_injective
    · exact Nat.lt_of_lt_of_le other few
    · exact Nat.lt_of_lt_of_le inside few
    · exact Option.some.inj same
  routed := by
    intro i inside inter_vm_delays_ms state next current_vm_index packet_virtual_time_ns data address sent j other
    rw [mac_bytes_mac, Option.some.injEq] at address
    exact configured_routed few inside address sent other

end

/-- The two programs agree exactly on the counts that one byte can tell apart. -/
theorem vm_identity_iff {tun_alloc : List Char → Int} {VM_COUNT : Nat}
    (opened : ∀ i < VM_COUNT, 0 ≤ tun_alloc (tap_interface VM_COUNT i)) :
    (∃ startup, read_config tun_alloc (config_txt VM_COUNT) = some startup ∧ Agreed tun_alloc VM_COUNT startup) ↔
      VM_COUNT ≤ 256 := by
  constructor
  · intro found
    obtain ⟨startup, _, agreed⟩ := found
    exact agreed.small
  · intro few
    exact ⟨_, read_config_txt opened (by omega), configured_agreed few⟩

/-- Descriptors that tell the TAPs of a launch apart. -/
private def descriptor (tap_interface : List Char) : Int := 3 + Nat.ofDigitChars 10 (tap_interface.drop 3) 0

private theorem descriptor_tap (VM_COUNT i : Nat) : descriptor (tap_interface VM_COUNT i) = 3 + (VM_COUNT + i) := by
  simp [descriptor, tap_interface, Nat.ofDigitChars_ten_toDigits]

theorem vm_identity_iff_two : (∃ startup, read_config descriptor (config_txt 2) = some startup ∧
    Agreed descriptor 2 startup) ↔ 2 ≤ 256 :=
  vm_identity_iff fun i _ => by rw [descriptor_tap]; omega

/-- VM 256 takes the MAC of VM 0. -/
theorem not_vm_identity_257 : ¬ ∀ (tun_alloc : List Char → Int) (VM_COUNT : Nat), 1 ≤ VM_COUNT →
    (∀ i < VM_COUNT, 0 ≤ tun_alloc (tap_interface VM_COUNT i)) →
    ∃ startup, read_config tun_alloc (config_txt VM_COUNT) = some startup ∧ Agreed tun_alloc VM_COUNT startup := by
  intro claimed
  obtain ⟨startup, _, agreed⟩ := claimed descriptor 257 (by decide) (fun i _ => by rw [descriptor_tap]; omega)
  exact absurd agreed.small (by decide)

end NetworkSimulator.Simulator
