import NetworkSimulator.Bracha.Config
import NetworkSimulator.Proofs.FullMesh

/-! What the file may contain, and what the processes make of the one that the
script of the simulation writes. -/

namespace NetworkSimulator.Bracha
open Scanner

/-- One line for one address. Zeros may come in front of the port only. -/
def SocketAddrV4.Spelled (addr : SocketAddrV4) (line : List Char) : Prop :=
  ∃ zeros, line = addr.ip.to_string ++ ':' :: (List.replicate zeros '0' ++ Nat.toDigits 10 addr.port)

theorem separated_digits {n : Nat} {values : List.Vector (Fin 256) n} {token : List Char} :
    Separated '.' (fun (value : Fin 256) token => token = Nat.toDigits 10 value) values token ↔
      token = ['.'].intercalate (values.toList.map fun (octet : Fin 256) => Nat.toDigits 10 octet) := by
  have printed (tokens : List (List Char)) :
      List.Forall₂ (fun (value : Fin 256) token => token = Nat.toDigits 10 value) values.toList tokens ↔
        tokens = values.toList.map fun (octet : Fin 256) => Nat.toDigits 10 octet := by
    have equal := congrFun (congrFun (@List.forall₂_eq_eq_eq (List Char)) tokens) (values.toList.map fun (octet : Fin 256) => Nat.toDigits 10 octet)
    rw [← equal, List.forall₂_map_right_iff]
    exact ⟨List.Forall₂.flip, List.Forall₂.flip⟩
  simp only [Separated, printed, exists_eq_left]

/-- Octets are printed without zeros in front, and read only so. -/
theorem accepts_ipv4_addr : Accepts read_ipv4_addr (fun ip token => token = ip.to_string) (fun rest => ∀ c ∈ rest.head?, c.isDigit = false) := by
  have octets := @accepts_number 256 3 (by decide) (by decide)
  have dotted := @Accepts.groups _ _ _ _ _ _ octets '.' (by simp) 3 0
  intro text ip rest
  rw [read_ipv4_addr, dotted]
  refine exists_congr fun token => and_congr_right fun _ => and_congr_left fun _ => ?_
  simp only [separated_digits, Nat.lt_irrefl, if_false, List.nil_append]
  exact exists_eq_left'

theorem from_str_iff {line : List Char} {addr : SocketAddrV4} : SocketAddrV4.from_str line = some addr ↔ addr.Spelled line := by
  simp only [SocketAddrV4.from_str, read_port, Option.bind_eq_bind, Option.bind_eq_some_iff, Prod.exists, accepts_ipv4_addr _ _ _,
    given_iff, accepts_leading_zeros 65536 _ _ _, Option.ite_none_right_eq_some, Option.some.injEq]
  constructor
  · rintro ⟨ip, text, ⟨_, rfl, rfl, _⟩, port, rest, ⟨_, rfl, _, rfl, ⟨zeros, rfl⟩, _⟩, rfl, rfl⟩
    exact ⟨zeros, by rw [List.append_nil]⟩
  · rintro ⟨zeros, rfl⟩
    exact ⟨addr.ip, _, ⟨_, rfl, rfl, by simp⟩, addr.port, [], ⟨_, rfl, _, (List.append_nil _).symm, ⟨zeros, rfl⟩, by simp⟩, rfl, rfl⟩

theorem Ipv4Addr.to_string_chars {ip : Ipv4Addr} : ∀ c ∈ ip.to_string, c.isDigit = true ∨ c = '.' := by
  intro c member
  rcases mem_intercalate member with dot | ⟨octet, listed, digit⟩
  · exact Or.inr (List.mem_singleton.mp dot)
  · obtain ⟨value, _, rfl⟩ := List.mem_map.mp listed
    exact Or.inl (Text.toDigits_isDigit value c digit)

/-- The characters of an address. -/
theorem SocketAddrV4.Spelled.chars {addr : SocketAddrV4} {line : List Char} (spelled : addr.Spelled line) :
    ∀ c ∈ line, c.isDigit = true ∨ c = '.' ∨ c = ':' := by
  obtain ⟨zeros, rfl⟩ := spelled
  intro c member
  rcases List.mem_append.mp member with ip | rest
  · exact (Ipv4Addr.to_string_chars c ip).imp_right Or.inl
  · rcases List.mem_cons.mp rest with rfl | port
    · exact Or.inr (Or.inr rfl)
    · exact Or.inl (zeros_isDigit _ _ c port)

theorem plain_char {c : Char} (shown : c.isDigit = true ∨ c = '.' ∨ c = ':' ∨ c = '+') : c ≠ '\n' ∧ c ≠ '\r' := by
  constructor
  all_goals
    rintro rfl
    simp at shown

/-- The files that give a configuration. -/
def ConfigTxt.Spelled (config : ConfigTxt) (contents : List Char) : Prop :=
  ∃ plus zeros rest, (plus = [] ∨ plus = ['+']) ∧ List.Forall₂ SocketAddrV4.Spelled config.addresses rest ∧
    Terminated ((plus ++ (List.replicate zeros '0' ++ Nat.toDigits 10 config.number_of_msg_per_process)) :: rest) contents

theorem mapM_from_str {lines : List (List Char)} {addresses : List SocketAddrV4} :
    lines.mapM SocketAddrV4.from_str = some addresses ↔ List.Forall₂ SocketAddrV4.Spelled addresses lines := by
  have equal := congrFun (congrFun (@List.forall₂_eq_eq_eq (Option SocketAddrV4)) (lines.map SocketAddrV4.from_str)) (addresses.map some)
  rw [Text.mapM_eq_some_iff, ← equal, List.forall₂_map_left_iff, List.forall₂_map_right_iff]
  simp only [from_str_iff]
  exact ⟨List.Forall₂.flip, List.Forall₂.flip⟩

theorem read_config_lines {contents first : List Char} {rest : List (List Char)} {config : ConfigTxt} (shape : lines contents = first :: rest) :
    read_config contents = some config ↔
      parse (2 ^ 64) first = some config.number_of_msg_per_process ∧ rest.mapM SocketAddrV4.from_str = some config.addresses := by
  rw [read_config, shape]
  simp only [Option.bind_eq_bind, Option.bind_eq_some_iff, Option.some.injEq]
  constructor
  · rintro ⟨number, parsed, addresses, found, rfl⟩
    exact ⟨parsed, found⟩
  · rintro ⟨parsed, found⟩
    exact ⟨_, parsed, _, found, rfl⟩

theorem read_config_iff {contents : List Char} {config : ConfigTxt} : read_config contents = some config ↔ config.Spelled contents := by
  constructor
  · intro read
    cases shape : lines contents with
    | nil =>
      rw [read_config, shape] at read
      cases read
    | cons first rest =>
      obtain ⟨parsed, found⟩ := (read_config_lines shape).mp read
      obtain ⟨plus, zeros, sign, rfl⟩ := parse_iff.mp parsed
      refine ⟨plus, zeros, rest, sign, mapM_from_str.mp found, ?_⟩
      have terminated := terminated_lines contents
      rwa [shape] at terminated
  · rintro ⟨plus, zeros, rest, sign, spelled, terminated⟩
    have plain : ∀ line ∈ (plus ++ (List.replicate zeros '0' ++ Nat.toDigits 10 config.number_of_msg_per_process)) :: rest,
        ∀ c ∈ line, c ≠ '\n' ∧ c ≠ '\r' := by
      intro line member c inside
      apply plain_char
      rcases List.mem_cons.mp member with rfl | later
      · rcases List.mem_append.mp inside with first | number
        · rcases sign with rfl | rfl
          · cases first
          · exact Or.inr (Or.inr (Or.inr (List.mem_singleton.mp first)))
        · exact Or.inl (zeros_isDigit _ _ c number)
      · obtain ⟨addr, found⟩ := Option.ne_none_iff_exists'.mp (Text.mapM_exists_iff.mp ⟨_, mapM_from_str.mpr spelled⟩ line later)
        rcases (from_str_iff.mp found).chars c inside with digit | dot | colon
        · exact Or.inl digit
        · exact Or.inr (Or.inl dot)
        · exact Or.inr (Or.inr (Or.inl colon))
    exact (read_config_lines ((lines_iff plain).mpr terminated)).mpr ⟨parse_iff.mpr ⟨plus, zeros, sign, rfl⟩, mapM_from_str.mpr spelled⟩

/-- The lines that the scripts write. -/
def address_line (address : List Char × Nat) : List Char := address.1 ++ ':' :: Nat.toDigits 10 address.2

theorem write_config_terminated (number : Nat) (addresses : List (List Char × Nat)) :
    Terminated (Nat.toDigits 10 number :: addresses.map address_line) (write_config number addresses) := by
  refine .newline _ ?_
  induction addresses with
  | nil => exact .nil
  | cons address addresses ih =>
    have first := Terminated.newline (address_line address) ih
    simpa [address_line] using first

/-- A configuration as the scripts would write it. -/
def ConfigTxt.write (config : ConfigTxt) : List Char :=
  write_config config.number_of_msg_per_process (config.addresses.map fun addr => (addr.ip.to_string, addr.port.val))

theorem ConfigTxt.write_spelled (config : ConfigTxt) : config.Spelled config.write := by
  refine ⟨[], 0, _, Or.inl rfl, ?_, write_config_terminated _ _⟩
  rw [List.map_map, List.forall₂_map_right_iff, List.forall₂_same]
  exact fun addr _ => ⟨0, rfl⟩

/-- Which files give a configuration, and which one; the file written for a
configuration gives it back. -/
theorem config_file_round_trip (config : ConfigTxt) :
    (∀ contents, read_config contents = some config ↔ config.Spelled contents) ∧ read_config config.write = some config := by
  constructor
  · intro contents
    exact read_config_iff
  · apply read_config_iff.mpr
    exact config.write_spelled

example : (read_config "+5\r\n10.0.0.1:042512".toList).map (fun config => config.addresses.map fun addr => (addr.ip.to_string, addr.port.val)) =
    some [("10.0.0.1".toList, 42512)] := by decide +kernel

/-! The file of the simulation. -/

/-- The address of VM `i` among the VMs. -/
def sim_name (i : Nat) : List Char := "192.168.15.".toList ++ Nat.toDigits 10 i

theorem no_colon {text : List Char} (shown : ∀ c ∈ text, c.isDigit = true ∨ c = '.') : ':' ∉ text := by
  intro inside
  have colon := shown ':' inside
  simp at colon

theorem no_dot (n : Nat) : '.' ∉ Nat.toDigits 10 n := by
  intro inside
  have digit := Text.toDigits_isDigit n '.' inside
  cases digit

theorem sim_name_chars (i : Nat) : ∀ c ∈ sim_name i, c.isDigit = true ∨ c = '.' := by
  have net : ∀ c ∈ "192.168.15.".toList, c.isDigit = true ∨ c = '.' := by simp
  exact List.forall_mem_append.mpr ⟨net, fun c digit => Or.inl (Text.toDigits_isDigit i c digit)⟩

theorem toDigits_injective : Function.Injective (Nat.toDigits 10) := by
  intro a b same
  have value := congrArg (Nat.ofDigitChars 10 · 0) same
  simpa [Nat.ofDigitChars_ten_toDigits] using value

/-- The dot in front of what follows an octet. -/
theorem after_octet {n : Nat} {values : List.Vector (Fin 256) (n + 2)} {octet : Nat} {text : List Char}
    (spelled : Separated '.' (fun (value : Fin 256) token => token = Nat.toDigits 10 value) values (Nat.toDigits 10 octet ++ '.' :: text)) :
    Separated '.' (fun (value : Fin 256) token => token = Nat.toDigits 10 value) values.tail text := by
  obtain ⟨first, rest, same, rfl, others⟩ := separated_succ.mp spelled
  obtain ⟨_, rfl⟩ := Framing.delimited_split (no_dot _) (no_dot _) same
  exact others

/-- The number of a VM has to be an octet. -/
theorem sim_address {addr : SocketAddrV4} {i port : Nat} (spelled : addr.Spelled (address_line (sim_name i, port))) :
    i < 256 ∧ addr.ip.to_string = sim_name i := by
  obtain ⟨zeros, same⟩ := spelled
  obtain ⟨ip, _⟩ := Framing.delimited_split (no_colon (sim_name_chars i)) (no_colon Ipv4Addr.to_string_chars) same
  refine ⟨?_, ip.symm⟩
  have octets := separated_digits.mpr ip
  have split : sim_name i = Nat.toDigits 10 192 ++ '.' :: (Nat.toDigits 10 168 ++ '.' :: (Nat.toDigits 10 15 ++ '.' :: Nat.toDigits 10 i)) := rfl
  rw [split] at octets
  have last := separated_one.mp (after_octet (after_octet (after_octet octets)))
  rw [toDigits_injective last]
  exact Fin.isLt _

/-- The address of a VM as it is read. -/
def sim_addr (i : Nat) : SocketAddrV4 where
  ip := ⟨[Fin.ofNat 256 192, Fin.ofNat 256 168, Fin.ofNat 256 15, Fin.ofNat 256 i], rfl⟩
  port := Fin.ofNat 65536 port_number

theorem sim_addr_written {i : Nat} (small : i < 256) : ((sim_addr i).ip.to_string, (sim_addr i).port.val) = (sim_name i, port_number) := by
  have octet : (Fin.ofNat 256 i).val = i := Nat.mod_eq_of_lt small
  refine Prod.ext ?_ rfl
  change ['.'].intercalate [Nat.toDigits 10 192, Nat.toDigits 10 168, Nat.toDigits 10 15, Nat.toDigits 10 (Fin.ofNat 256 i).val] = sim_name i
  simp only [octet, List.intercalate_cons_cons, List.intercalate_singleton]
  rfl

theorem sim_config_lines (number NUMBER_VM : Nat) : lines (write_config number (sim_addresses NUMBER_VM)) =
    Nat.toDigits 10 number :: (List.range NUMBER_VM).map fun i => address_line (sim_name i, port_number) := by
  have terminated := write_config_terminated number (sim_addresses NUMBER_VM)
  rw [sim_addresses, List.map_map] at terminated
  refine (lines_iff (List.forall_mem_cons.mpr ⟨fun c digit => ?_, ?_⟩)).mpr terminated
  · exact plain_char (Or.inl (Text.toDigits_isDigit number c digit))
  · intro line member c inside
    obtain ⟨i, _, rfl⟩ := List.mem_map.mp member
    apply plain_char
    rcases List.mem_append.mp inside with name | rest
    · exact (sim_name_chars i c name).imp_right Or.inl
    · rcases List.mem_cons.mp rest with rfl | digit
      · exact Or.inr (Or.inr (Or.inl rfl))
      · exact Or.inl (Text.toDigits_isDigit _ c digit)

section
variable {number NUMBER_VM : Nat} {config : ConfigTxt} (read : read_config (write_config number (sim_addresses NUMBER_VM)) = some config)
include read

theorem sim_config_read : config.number_of_msg_per_process.val = number ∧ config.addresses.length = NUMBER_VM := by
  obtain ⟨parsed, found⟩ := (read_config_lines (sim_config_lines number NUMBER_VM)).mp read
  have length := Text.mapM_length found
  rw [List.length_map, List.length_range] at length
  exact ⟨parse_toDigits.mp parsed, length⟩

theorem sim_config_address {i : Nat} (inside : i < config.addresses.length) : i < 256 ∧ config.addresses[i].ip.to_string = sim_name i := by
  obtain ⟨_, found⟩ := (read_config_lines (sim_config_lines number NUMBER_VM)).mp read
  obtain ⟨_, length⟩ := sim_config_read read
  have stands := Text.mapM_getElem? found i
  rw [List.getElem?_eq_getElem inside, List.getElem?_map, List.getElem?_range (inside.trans_eq length), Option.map_some, Option.bind_some] at stands
  exact sim_address (from_str_iff.mp stands.symm)

theorem sim_config_names (i : Fin config.addresses.length) : config.names i = String.ofList (sim_name i) :=
  congrArg String.ofList (sim_config_address read i.isLt).2

theorem sim_config_distinct : Function.Injective config.names := by
  intro i j same
  rw [sim_config_names read, sim_config_names read] at same
  have texts := String.ofList_injective same
  exact Fin.ext (toDigits_injective (List.append_cancel_left texts))

end

/-- What the processes of the simulation make of the file written for them: it is
read for up to 256 VMs, and whichever way set-up goes, each that gets through has
one stream for each of the others under the address of that VM. -/
theorem sim_config_mesh (number NUMBER_VM : Nat) :
    ((∃ config, read_config (write_config number (sim_addresses NUMBER_VM)) = some config) ↔ number < 2 ^ 64 ∧ NUMBER_VM ≤ 256) ∧
    ∀ config, read_config (write_config number (sim_addresses NUMBER_VM)) = some config →
      config.number_of_msg_per_process.val = number ∧ config.addresses.length = NUMBER_VM ∧
      ∀ setup, Machine.Reachable (Setup.step config.names) {} setup → ∀ i, setup.phase i = .running →
        (setup.tcp_streams i).length = NUMBER_VM - 1 ∧
        ∀ j, j ≠ i → String.ofList (sim_name j) ∈ (setup.tcp_streams i).map Prod.fst := by
  refine ⟨⟨?_, ?_⟩, fun config read => ?_⟩
  · rintro ⟨config, read⟩
    obtain ⟨number_read, length⟩ := sim_config_read read
    refine ⟨number_read ▸ Fin.isLt _, Nat.le_of_not_lt fun more => ?_⟩
    exact absurd (sim_config_address read (length ▸ more)).1 (Nat.lt_irrefl 256)
  · rintro ⟨fits, few⟩
    let config : ConfigTxt := { number_of_msg_per_process := ⟨number, fits⟩, addresses := (List.range NUMBER_VM).map sim_addr }
    refine ⟨config, ?_⟩
    have same : config.write = write_config number (sim_addresses NUMBER_VM) := by
      refine congrArg (write_config number) ?_
      rw [List.map_map, sim_addresses, List.map_inj_left]
      exact fun i listed => sim_addr_written ((List.mem_range.mp listed).trans_le few)
    rw [← same]
    exact read_config_iff.mpr config.write_spelled
  · obtain ⟨number_read, length⟩ := sim_config_read read
    have distinct := sim_config_distinct read
    refine ⟨number_read, length, fun setup reached i running => ?_⟩
    have valid : setup.Valid config.names := reached.invariant (Setup.Valid config.names) (Setup.valid_initial config.names)
      fun _ _ _ valid done => valid.step distinct done
    refine ⟨(valid.full running).trans (congrArg (· - 1) length), fun j other => ?_⟩
    obtain ⟨⟨peer, stream⟩, listed, rfl⟩ := List.mem_map.mp (valid.peers running j other)
    rw [← sim_config_names read]
    exact List.mem_map_of_mem ((valid.mem_streams running).mpr ⟨_, listed, rfl⟩)

private def two_vms : ConfigTxt where
  number_of_msg_per_process := ⟨50, by decide⟩
  addresses := [sim_addr 0, sim_addr 1]

private def two_started : List (SetupAction two_vms.addresses.length) :=
  [.bind ⟨0, Nat.two_pos⟩, .bind ⟨1, Nat.one_lt_two⟩, .connect ⟨0, Nat.two_pos⟩, .accept ⟨1, Nat.one_lt_two⟩ 0]

/-- VM 0 has its stream to VM 1. -/
theorem sim_config_mesh_two : read_config (write_config 50 (sim_addresses 2)) = some two_vms ∧
    ∃ setup, Machine.run (Setup.step two_vms.names) {} two_started = some setup ∧
      String.ofList (sim_name 1) ∈ (setup.tcp_streams ⟨0, Nat.two_pos⟩).map Prod.fst := by
  have read : read_config (write_config 50 (sim_addresses 2)) = some two_vms := by decide +kernel
  obtain ⟨_, mesh⟩ := sim_config_mesh 50 2
  obtain ⟨_, _, streams⟩ := mesh two_vms read
  have other : (⟨1, Nat.one_lt_two⟩ : Fin two_vms.addresses.length) ≠ ⟨0, Nat.two_pos⟩ :=
    fun same => Nat.one_ne_zero (congrArg Fin.val same)
  exact ⟨read, _, rfl, (streams _ ⟨two_started, rfl⟩ ⟨0, Nat.two_pos⟩ rfl).2 ⟨1, Nat.one_lt_two⟩ other⟩

end NetworkSimulator.Bracha
