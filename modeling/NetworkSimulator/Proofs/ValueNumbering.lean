import NetworkSimulator.Bracha.Numbering
import NetworkSimulator.Proofs.NetworkRounds

/-! The numbers of the messages are exact as long as the last one is an `i32`, and
the print window is one as long as there are 50 messages to print. -/

namespace NetworkSimulator.Bracha

theorem usize_eq_some_iff {n result : Nat} : usize n = some result ↔ n < 2 ^ 64 ∧ n = result := by
  rw [usize, Option.ite_none_right_eq_some, Option.some.injEq]
  exact Iff.rfl

theorem checked_sub_eq_some_iff {m n result : Nat} : checked_sub m n = some result ↔ n ≤ m ∧ m - n = result := by
  rw [checked_sub, Option.ite_none_right_eq_some, Option.some.injEq]

namespace Config
variable {config : Config}

theorem checkedValue_eq_some_iff {k number : Nat} : config.checkedValue k = some number ↔
    k * config.process_number + config.id < 2 ^ 64 ∧ k * config.process_number + config.id = number := by
  simp only [checkedValue, checked_mul, checked_add, Option.bind_eq_bind, Option.bind_eq_some_iff, usize_eq_some_iff]
  constructor
  · intro found
    obtain ⟨product, ⟨_, same⟩, sum⟩ := found
    cases same
    exact sum
  · intro found
    exact ⟨_, ⟨Nat.lt_of_le_of_lt (Nat.le_add_right _ _) found.1, rfl⟩, found⟩

theorem checkedWindow_eq_some_iff {window : Nat} : config.checkedWindow = some window ↔
    (50 ≤ config.number_of_msg_per_process * config.process_number ∧
      config.number_of_msg_per_process * config.process_number < 2 ^ 64) ∧
    config.number_of_msg_per_process * config.process_number - 50 = window := by
  simp only [checkedWindow, exitCount, checked_mul, Option.bind_eq_bind, Option.bind_eq_some_iff, usize_eq_some_iff,
    checked_sub_eq_some_iff]
  constructor
  · intro found
    obtain ⟨count, ⟨small, same⟩, enough, difference⟩ := found
    cases same
    exact ⟨⟨enough, small⟩, difference⟩
  · intro found
    obtain ⟨⟨enough, small⟩, difference⟩ := found
    exact ⟨_, ⟨small, rfl⟩, enough, difference⟩

/-- In range the wrapping subtraction of the release build is the same. -/
theorem printedFrom_eq {window : Nat} (found : config.checkedWindow = some window) :
    config.printedFrom = Int32.ofNat window := by
  obtain ⟨⟨enough, small⟩, same⟩ := checkedWindow_eq_some_iff.mp found
  have difference : (UInt64.ofNat (config.number_of_msg_per_process * config.process_number) - 50).toNat = window := by
    have ordered : (50 : UInt64) ≤ UInt64.ofNat (config.number_of_msg_per_process * config.process_number) := by
      rw [UInt64.le_iff_toNat_le, UInt64.toNat_ofNat_of_lt' small]
      exact enough
    rw [UInt64.toNat_sub_of_le _ _ ordered, UInt64.toNat_ofNat_of_lt' small]
    exact same
  rw [printedFrom, difference]

end Config

/-- Where every expression is in range, the node does what the wrapping one does. -/
theorem Node.checkedDeliver_deliver {config : Config} {node next : Node} {value : MsgValueType}
    (done : node.checkedDeliver config value = some next) : node.deliver config value = next := by
  simp only [checkedDeliver, Option.bind_eq_bind, Option.bind_eq_some_iff] at done
  obtain ⟨window, printed, newest, earlier, own, numbered, branch⟩ := done
  obtain ⟨_, rfl⟩ := checked_sub_eq_some_iff.mp earlier
  obtain ⟨_, rfl⟩ := Config.checkedValue_eq_some_iff.mp numbered
  simp only [deliver, Config.printedFrom_eq printed, Config.ownValue]
  split at branch
  next same =>
    rw [if_pos same]
    split at branch
    next more =>
      rw [if_pos more]
      simp only [Option.bind_eq_some_iff] at branch
      obtain ⟨number, found, current, advanced, count, counted, result⟩ := branch
      obtain ⟨_, rfl⟩ := Config.checkedValue_eq_some_iff.mp found
      obtain ⟨_, rfl⟩ := usize_eq_some_iff.mp advanced
      obtain ⟨_, rfl⟩ := usize_eq_some_iff.mp counted
      exact Option.some.inj result
    next last =>
      rw [if_neg last]
      exact Option.some.inj branch
  next other =>
    rw [if_neg other]
    exact Option.some.inj branch

/-- No message has been counted so often that the counter is full. -/
def Node.Countable (node : Node) : Prop :=
  ∀ value count, node.counter_initial_msgs value = some count → count + 1 < 2 ^ 64

theorem Node.checkedDeliver_isSome {config : Config} {node : Node} {value : MsgValueType}
    (inside : config.id < config.process_number)
    (enough : 50 ≤ config.number_of_msg_per_process * config.process_number)
    (fits : config.number_of_msg_per_process * config.process_number + config.id < 2 ^ 31)
    (started : 1 ≤ node.current_msg_id_to_send)
    (bounded : node.current_msg_id_to_send ≤ config.number_of_msg_per_process + 1) (countable : node.Countable) :
    (node.checkedDeliver config value).isSome = true := by
  have window := Config.checkedWindow_eq_some_iff.mpr ⟨⟨enough, by omega⟩, rfl⟩
  have newest := checked_sub_eq_some_iff.mpr ⟨started, rfl⟩
  have numbered {k : Nat} (sent : k ≤ config.number_of_msg_per_process) :
      config.checkedValue k = some (k * config.process_number + config.id) := by
    have upper : k * config.process_number ≤ config.number_of_msg_per_process * config.process_number :=
      Nat.mul_le_mul_right _ sent
    exact Config.checkedValue_eq_some_iff.mpr ⟨by omega, rfl⟩
  have earlier := numbered (k := node.current_msg_id_to_send - 1) (by omega)
  simp only [checkedDeliver, window, newest, earlier, Option.bind_eq_bind, Option.bind_some]
  split
  · split
    next more =>
      have rounds : config.number_of_msg_per_process ≤ config.number_of_msg_per_process * config.process_number :=
        Nat.le_mul_of_pos_right _ (Nat.zero_lt_of_lt inside)
      have advanced : checked_add node.current_msg_id_to_send 1 = some (node.current_msg_id_to_send + 1) :=
        usize_eq_some_iff.mpr ⟨by omega, rfl⟩
      have counted (next : MsgValueType) : checked_add ((node.counter_initial_msgs next).getD 0) 1 =
          some ((node.counter_initial_msgs next).getD 0 + 1) := by
        apply usize_eq_some_iff.mpr ⟨_, rfl⟩
        cases found : node.counter_initial_msgs next with
        | none => decide
        | some count => exact countable next count found
      simp only [numbered more, advanced, counted, Option.bind_some, Option.isSome_some]
    · rfl
  · rfl

/-- The numbers of the messages of process `i` and of all processes mean what they
say, and a delivery never leaves the range of `usize`. -/
structure ExactNumbering {process_number : Nat} (number_of_msg_per_process : Nat) (i : Fin process_number) : Prop where
  unchanged : ∀ k, 1 ≤ k → k ≤ number_of_msg_per_process →
    ((processConfig number_of_msg_per_process i).ownValue k).toInt = k * process_number + i
  distinct : ∀ (first second : Nat) (j l : Fin process_number),
    1 ≤ first ∧ 1 ≤ second → first ≤ number_of_msg_per_process ∧ second ≤ number_of_msg_per_process →
    (processConfig number_of_msg_per_process j).ownValue first = (processConfig number_of_msg_per_process l).ownValue second →
      j = l ∧ first = second
  counted : (processConfig number_of_msg_per_process i).exitCount =
    some (@Net.values process_number number_of_msg_per_process ∅).card
  in_range : ∀ (node : Node) (value : MsgValueType),
    2 ≤ node.current_msg_id_to_send → node.current_msg_id_to_send ≤ number_of_msg_per_process + 1 → node.Countable →
      (node.checkedDeliver (processConfig number_of_msg_per_process i) value).isSome = true

theorem exactNumbering_iff {process_number number_of_msg_per_process : Nat} (i : Fin process_number)
    (messages : 1 ≤ number_of_msg_per_process) : ExactNumbering number_of_msg_per_process i ↔
      50 ≤ number_of_msg_per_process * process_number ∧ number_of_msg_per_process * process_number + i < 2 ^ 31 := by
  constructor
  · intro exact_numbers
    constructor
    · obtain ⟨next, done⟩ := Option.isSome_iff_exists.mp
        (exact_numbers.in_range { current_msg_id_to_send := 2 } 0 (Nat.le_refl _) (by simpa using messages)
          fun _ _ none => nomatch none)
      obtain ⟨window, printed, _⟩ := Option.bind_eq_some_iff.mp done
      exact (Config.checkedWindow_eq_some_iff.mp printed).1.1
    · have last := exact_numbers.unchanged number_of_msg_per_process messages (Nat.le_refl _)
      have bounded := Int32.toInt_lt ((processConfig number_of_msg_per_process i).ownValue number_of_msg_per_process)
      rw [last] at bounded
      exact_mod_cast bounded
  · intro condition
    obtain ⟨enough, fits⟩ := condition
    have small : number_of_msg_per_process * process_number ≤ 2 ^ 32 := by omega
    refine ⟨?_, ?_, ?_, ?_⟩
    · intro k _ high
      have upper : k * process_number ≤ number_of_msg_per_process * process_number := Nat.mul_le_mul_right _ high
      have below : k * process_number + i < 2 ^ 31 := by omega
      change (Int32.ofNat (k * process_number + i)).toInt = _
      rw [Int32.toInt_ofNat_of_lt below, Int.natCast_add, Int.natCast_mul]
    · intro first second j l low high same
      exact ownValue_injective small low high same
    · apply usize_eq_some_iff.mpr
      rw [Net.card_values small, Finset.card_empty, Nat.sub_zero]
      exact ⟨by change number_of_msg_per_process * process_number < 2 ^ 64; omega, rfl⟩
    · intro node value started bounded countable
      exact Node.checkedDeliver_isSome i.isLt enough fits (by omega) bounded countable

/-- Ten messages of five processes are just enough. -/
theorem exactNumbering_iff_five : ExactNumbering 10 (4 : Fin 5) ↔ 50 ≤ 10 * 5 ∧ 10 * 5 + (4 : Fin 5).val < 2 ^ 31 :=
  exactNumbering_iff 4 (by decide)

/-- With one message of each of four processes there are no 50 last ones. -/
theorem not_exactNumbering_four : ¬ ∀ (process_number number_of_msg_per_process : Nat) (i : Fin process_number),
    1 ≤ number_of_msg_per_process → ExactNumbering number_of_msg_per_process i := by
  intro claimed
  have delivered := (claimed 4 1 0 (Nat.le_refl 1)).in_range { current_msg_id_to_send := 2 } 4 (Nat.le_refl _) (Nat.le_refl _)
    fun _ _ none => nomatch none
  cases delivered

end NetworkSimulator.Bracha
