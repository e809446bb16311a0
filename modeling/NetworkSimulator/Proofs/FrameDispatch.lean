import NetworkSimulator.Library.Table
import NetworkSimulator.Proofs.HexStrings
import NetworkSimulator.Proofs.SliceEffects
import NetworkSimulator.Proofs.VirtualTime

/-! Which VMs get a frame. The destination is compared as text, which stands for
its six bytes, and a frame is pushed once for each VM it is for. -/

namespace NetworkSimulator.Simulator
variable {VM_NUMBER : Nat}

/-- A frame read from the TAP of `current_vm_index` is for VM `i`. -/
def Addressed (macs : Fin VM_NUMBER → List UInt8) (current_vm_index i : Fin VM_NUMBER) (data : List UInt8) : Prop :=
  6 ≤ data.length ∧ (data.take 6 = List.replicate 6 255 ∧ i ≠ current_vm_index ∨ data.take 6 = macs i)

instance (macs : Fin VM_NUMBER → List UInt8) (current_vm_index i : Fin VM_NUMBER) (data : List UInt8) :
    Decidable (Addressed macs current_vm_index i data) :=
  inferInstanceAs (Decidable (_ ∧ (_ ∨ _)))

/-- The table that the config file makes of these MACs. -/
def macTable (macs : Fin VM_NUMBER → List UInt8) : String → Option (Fin VM_NUMBER) :=
  Table.filled ((List.finRange VM_NUMBER).map fun i => (hexStr (macs i), i))

section
variable {macs : Fin VM_NUMBER → List UInt8} (six : ∀ i, (macs i).length = 6) (distinct : Function.Injective macs)
include six

theorem macTable_none {address : List UInt8} (length : address.length = 6) (unknown : ∀ i, macs i ≠ address) :
    macTable macs (hexStr address) = none := by
  cases found : macTable macs (hexStr address) with
  | none => rfl
  | some i =>
    obtain ⟨j, _, entry⟩ := List.mem_map.mp (Table.mem_of_filled found)
    obtain ⟨text, _⟩ := Prod.mk.inj entry
    exact absurd (hexStr_injective ((six j).trans length.symm) text) (unknown j)

include distinct

theorem macTable_eq_some_iff {address : List UInt8} (length : address.length = 6) {i : Fin VM_NUMBER} :
    macTable macs (hexStr address) = some i ↔ address = macs i := by
  have keys : (((List.finRange VM_NUMBER).map fun i => (hexStr (macs i), i)).map Prod.fst).Nodup := by
    rw [List.map_map]
    apply List.Nodup.map _ (List.nodup_finRange VM_NUMBER)
    exact fun i j same => distinct (hexStr_injective ((six i).trans (six j).symm) same)
  rw [macTable, Table.filled_eq_some_iff keys, List.mem_map]
  constructor
  · intro found
    obtain ⟨j, _, entry⟩ := found
    obtain ⟨text, rfl⟩ := Prod.mk.inj entry
    exact (hexStr_injective ((six j).trans length.symm) text).symm
  · intro same
    exact ⟨i, List.mem_finRange i, by rw [same]⟩

end

section
variable {links : Links VM_NUMBER} {macs : Fin VM_NUMBER → List UInt8} (six : ∀ i, (macs i).length = 6)
  (table : links.mac_to_vm_index = macTable macs)
include six table

/-- A failed read finds no VM with the MAC of the zeroed buffer. -/
theorem dispatch_exists (nonzero : ∀ i, macs i ≠ List.replicate 6 0) (state : State VM_NUMBER) (current_vm_index : Fin VM_NUMBER)
    (packet_virtual_time_ns : Nat) (read : Option (List UInt8)) :
    ∃ next, dispatch links state current_vm_index packet_virtual_time_ns read = some next := by
  cases read with
  | none =>
    have unknown : links.mac_to_vm_index (hexStr (List.replicate 6 0)) = none := by
      rw [table]
      exact macTable_none six rfl nonzero
    refine ⟨state, ?_⟩
    simp only [dispatch, unknown, Option.isSome_none, Bool.false_eq_true, if_false]
  | some data =>
    simp only [dispatch]
    split
    · split
      · exact ⟨_, rfl⟩
      · exact ⟨_, rfl⟩
    · exact ⟨_, rfl⟩

variable (distinct : Function.Injective macs)
include distinct

/-- The two branches never push to the same VM. -/
theorem copies_addressed (unicast : ∀ i, macs i ≠ List.replicate 6 255) (current_vm_index i : Fin VM_NUMBER)
    (packet_virtual_time_ns : Nat) (data : List UInt8) :
    copies links current_vm_index packet_virtual_time_ns (some data) i =
      if Addressed macs current_vm_index i data then
        [FrameToDeliver.stamp links current_vm_index i packet_virtual_time_ns data] else [] := by
  by_cases short : data.length < 6
  · have unaddressed : ¬ Addressed macs current_vm_index i data := fun addressed => absurd addressed.1 (Nat.not_le.mpr short)
    rw [if_neg unaddressed]
    simp only [copies, if_pos short]
  · have length : (data.take 6).length = 6 := by
      rw [List.length_take]
      omega
    have known : links.mac_to_vm_index (hexStr (data.take 6)) = some i ↔ data.take 6 = macs i := by
      rw [table]
      exact macTable_eq_some_iff six distinct length
    have broadcast : hexStr (data.take 6) = "ff:ff:ff:ff:ff:ff" ↔ data.take 6 = List.replicate 6 255 := by
      constructor
      · exact fun text => hexStr_injective (length.trans (by decide)) (text.trans (by decide))
      · intro same
        rw [same]
        decide
    simp only [copies, if_neg short, known, broadcast, Addressed, Nat.le_of_not_lt short, true_and]
    by_cases all : data.take 6 = List.replicate 6 255
    · have other : data.take 6 ≠ macs i := fun same => unicast i (same.symm.trans all)
      simp only [all, true_and, if_neg (all ▸ other), List.append_nil, or_iff_left (all ▸ other)]
    · simp only [all, false_and, if_false, List.nil_append, false_or]

end

/-- A frame goes once into the queue of every VM it is for, due a link delay after it
was read, and nothing else changes. -/
theorem dispatch_exact {links : Links VM_NUMBER} {macs : Fin VM_NUMBER → List UInt8} (six : ∀ i, (macs i).length = 6)
    (distinct : Function.Injective macs) (unicast : ∀ i, macs i ≠ List.replicate 6 0 ∧ macs i ≠ List.replicate 6 255)
    (table : links.mac_to_vm_index = macTable macs) (state : State VM_NUMBER) (current_vm_index : Fin VM_NUMBER)
    (packet_virtual_time_ns : Nat) (read : Option (List UInt8)) :
    ∃ next, dispatch links state current_vm_index packet_virtual_time_ns read = some next ∧
      (∀ i data, read = some data → Addressed macs current_vm_index i data →
        next.inter_vm_queues i current_vm_index = state.inter_vm_queues i current_vm_index ++
          [{ delivery_timestamp_ns := delayed packet_virtual_time_ns (links.inter_vm_delays_ms i current_vm_index), data }]) ∧
      (∀ i, (∀ data, read = some data → ¬ Addressed macs current_vm_index i data) →
        next.inter_vm_queues i current_vm_index = state.inter_vm_queues i current_vm_index) ∧
      (∀ i j, j ≠ current_vm_index → next.inter_vm_queues i j = state.inter_vm_queues i j) ∧
      (next.virtual_clocks_ns = state.virtual_clocks_ns ∧ next.written = state.written) ∧
      (∀ delay, packet_virtual_time_ns + delay * 1000000 < 2 ^ 53 →
        delayed packet_virtual_time_ns delay = packet_virtual_time_ns + delay * 1000000) ∧
      ∀ first second : List UInt8, first.length = second.length → hexStr first = hexStr second → first = second := by
  obtain ⟨next, sent⟩ := dispatch_exists six table (fun i => (unicast i).1) state current_vm_index packet_virtual_time_ns read
  have result := dispatch_extend sent
  refine ⟨next, sent, ?_, ?_, ?_, ?_, fun delay small => delayed_small small, fun _ _ => hexStr_injective⟩
  · intro i data found addressed
    have pushed := copies_addressed six table distinct (fun i => (unicast i).2) current_vm_index i packet_virtual_time_ns data
    rw [if_pos addressed] at pushed
    rw [result, found]
    simp only [State.extend, if_true, pushed]
    rfl
  · intro i unaddressed
    rw [result]
    simp only [State.extend, if_true]
    cases read with
    | none => exact List.append_nil _
    | some data =>
      rw [copies_addressed six table distinct (fun i => (unicast i).2), if_neg (unaddressed data rfl), List.append_nil]
  · intro i j other
    rw [result]
    simp only [State.extend, if_neg other]
  · rw [result]
    exact ⟨rfl, rfl⟩

private def two_macs : Fin 2 → List UInt8 := ![[82, 85, 0, 209, 85, 0], [82, 85, 0, 209, 85, 1]]

private def two_links : Links 2 where
  inter_vm_delays_ms := ![![0, 2], ![5, 0]]
  mac_to_vm_index := macTable two_macs

/-- A frame of VM 1 to VM 0. -/
theorem dispatch_exact_two : ∃ next,
    dispatch two_links { virtual_clocks_ns := ![0, 0] } 1 1000 (some [82, 85, 0, 209, 85, 0, 8, 6]) = some next ∧
      next.inter_vm_queues 0 1 = [{ delivery_timestamp_ns := 2001000, data := [82, 85, 0, 209, 85, 0, 8, 6] }] ∧
      next.inter_vm_queues 1 1 = [] := by
  obtain ⟨next, sent, pushed, kept, _⟩ := @dispatch_exact 2 two_links two_macs (by decide) (by decide) (by decide) rfl
    { virtual_clocks_ns := ![0, 0] } 1 1000 (some [82, 85, 0, 209, 85, 0, 8, 6])
  refine ⟨next, sent, ?_, ?_⟩
  · exact (pushed 0 _ rfl (by decide)).trans (by decide +kernel)
  · apply kept 1
    intro data read
    cases read
    decide

end NetworkSimulator.Simulator
