import NetworkSimulator.Simulator.Startup

/-! The latency file. The loop that reads it converts every token on its own and
looks at nothing else, so it keeps what the file says only where the file is a
matrix of natural numbers. -/

namespace NetworkSimulator.Simulator

/-- The text of a token, by the number of its line and its number in the line. -/
def token_at (delays_file : List Char) (i j : Nat) : Option (List Char) :=
  (delays_file.splitOn '\n')[i]?.bind fun line => (line.splitOn ' ')[j]?

/-- The matrix covers the VMs, and every entry is the number written in its place. -/
structure Means (delays_file : List Char) (VM_NUMBER : Nat) (inter_vm_delays_ms : List (List UInt32)) : Prop where
  rows : VM_NUMBER ≤ inter_vm_delays_ms.length
  columns : ∀ i row, i < VM_NUMBER → inter_vm_delays_ms[i]? = some row → VM_NUMBER ≤ row.length
  entries : ∀ i j stored, delay_at inter_vm_delays_ms i j = some stored →
    ∃ token, token_at delays_file i j = some token ∧ Text.numeral token = some (stored.toNat : ℚ)

def delays_tokens (delays_file : List Char) : List (List Char) :=
  (Text.getlines '\n' delays_file).flatMap (split_string · ' ')

/-- Enough lines of enough tokens, each of them a natural number. -/
structure Tabulated (delays_file : List Char) (VM_NUMBER : Nat) : Prop where
  rows : VM_NUMBER ≤ (Text.getlines '\n' delays_file).length
  columns : ∀ i line, i < VM_NUMBER → (Text.getlines '\n' delays_file)[i]? = some line →
    VM_NUMBER ≤ (split_string line ' ').length
  numbers : ∀ token ∈ delays_tokens delays_file, ∃ n : ℕ, Text.numeral token = some (n : ℚ)

section
variable {delays_file : List Char} {VM_NUMBER : Nat} {inter_vm_delays_ms : List (List UInt32)}

theorem read_delay_ne_none {token : List Char} : read_delay token ≠ none ↔ Text.stoi token ≠ none := by
  rw [read_delay, Ne, Option.map_eq_none_iff]

/-- Only a token can keep the file from being read. -/
theorem read_delays_exists_iff : (∃ inter_vm_delays_ms, read_delays delays_file = some inter_vm_delays_ms) ↔
    ∀ token ∈ delays_tokens delays_file, Text.stoi token ≠ none := by
  rw [read_delays, Text.mapM_exists_iff]
  constructor
  · intro rows token member
    obtain ⟨line, listed, inside⟩ := List.mem_flatMap.mp member
    have entries := Text.mapM_exists_iff.mp (Option.ne_none_iff_exists'.mp (rows line listed))
    exact read_delay_ne_none.mp (entries token inside)
  · intro accepted line listed
    apply Option.ne_none_iff_exists'.mpr
    apply Text.mapM_exists_iff.mpr
    intro token inside
    exact read_delay_ne_none.mpr (accepted token (List.mem_flatMap.mpr ⟨line, listed, inside⟩))

variable (read : read_delays delays_file = some inter_vm_delays_ms)
include read

theorem read_delays_row {i : Nat} {line : List Char} (found : (Text.getlines '\n' delays_file)[i]? = some line) :
    ∃ row, inter_vm_delays_ms[i]? = some row ∧ (split_string line ' ').mapM read_delay = some row := by
  have all := Text.mapM_exists_iff.mp ⟨_, read⟩
  obtain ⟨row, done⟩ := Option.ne_none_iff_exists'.mp (all line (List.mem_of_getElem? found))
  have stands := Text.mapM_getElem? read i
  rw [found, Option.bind_some, done] at stands
  exact ⟨row, stands, done⟩

/-- Every entry is read from the token in its place. -/
theorem read_delays_entry {i j : Nat} {stored : UInt32} (entry : delay_at inter_vm_delays_ms i j = some stored) :
    ∃ token, token_at delays_file i j = some token ∧ token ∈ delays_tokens delays_file ∧ read_delay token = some stored := by
  obtain ⟨row, placed, value⟩ := Option.bind_eq_some_iff.mp entry
  have stands := Text.mapM_getElem? read i
  rw [placed] at stands
  obtain ⟨line, found, done⟩ := Option.bind_eq_some_iff.mp stands.symm
  have inside := Text.mapM_getElem? done j
  rw [value] at inside
  obtain ⟨token, written, converted⟩ := Option.bind_eq_some_iff.mp inside.symm
  refine ⟨token, ?_, ?_, converted⟩
  · exact Option.bind_eq_some_iff.mpr ⟨line, Text.getlines_getElem? found, Text.getlines_getElem? written⟩
  · exact List.mem_flatMap.mpr ⟨line, List.mem_of_getElem? found, List.mem_of_getElem? written⟩

/-- And every token is read into an entry. -/
theorem read_delays_token {token : List Char} (member : token ∈ delays_tokens delays_file) :
    ∃ i j stored, delay_at inter_vm_delays_ms i j = some stored ∧ token_at delays_file i j = some token := by
  obtain ⟨line, listed, inside⟩ := List.mem_flatMap.mp member
  obtain ⟨i, found⟩ := List.mem_iff_getElem?.mp listed
  obtain ⟨j, written⟩ := List.mem_iff_getElem?.mp inside
  obtain ⟨row, placed, done⟩ := read_delays_row read found
  have all := Text.mapM_exists_iff.mp ⟨_, done⟩
  obtain ⟨stored, converted⟩ := Option.ne_none_iff_exists'.mp (all token inside)
  have stands := Text.mapM_getElem? done j
  rw [written, Option.bind_some, converted] at stands
  exact ⟨i, j, stored, Option.bind_eq_some_iff.mpr ⟨row, placed, stands⟩,
    Option.bind_eq_some_iff.mpr ⟨line, Text.getlines_getElem? found, Text.getlines_getElem? written⟩⟩

end

/-- A natural number that `stoi` accepts is stored as it is written. -/
theorem read_delay_numeral {token : List Char} {stored : UInt32} {n : ℕ} (converted : read_delay token = some stored)
    (written : Text.numeral token = some (n : ℚ)) : stored.toNat = n := by
  obtain ⟨value, read, rfl⟩ := Option.map_eq_some_iff.mp converted
  obtain ⟨_, upper⟩ := Text.stoi_range read
  obtain rfl := Text.stoi_numeral read written
  have small : n < 2 ^ 32 := by omega
  change (UInt32.ofNat ((n : Int) % 2 ^ 32).toNat).toNat = n
  rw [UInt32.toNat_ofNat']
  omega

/-- Then the main loop works with the numbers of the file. -/
theorem Means.links {delays_file : List Char} {startup : Startup} {inter_vm_delays_ms : List (List UInt32)}
    (means : Means delays_file startup.VM_NUMBER inter_vm_delays_ms) (i j : Fin startup.VM_NUMBER) :
    ∃ token, token_at delays_file i j = some token ∧
      Text.numeral token = some ((startup.links inter_vm_delays_ms).inter_vm_delays_ms i j : ℚ) := by
  have row_inside : i.val < inter_vm_delays_ms.length := Nat.lt_of_lt_of_le i.isLt means.rows
  have placed := List.getElem?_eq_getElem row_inside
  have entry_inside : j.val < inter_vm_delays_ms[i.val].length :=
    Nat.lt_of_lt_of_le j.isLt (means.columns i _ i.isLt placed)
  have stored : delay_at inter_vm_delays_ms i j = some inter_vm_delays_ms[i.val][j.val] :=
    Option.bind_eq_some_iff.mpr ⟨_, placed, List.getElem?_eq_getElem entry_inside⟩
  obtain ⟨token, place, number⟩ := means.entries i j _ stored
  refine ⟨token, place, ?_⟩
  simp only [number, Startup.links, stored, Option.getD_some]

theorem latency_file_iff (delays_file : List Char) (VM_NUMBER : Nat) :
    (∀ inter_vm_delays_ms, read_delays delays_file = some inter_vm_delays_ms →
      Means delays_file VM_NUMBER inter_vm_delays_ms) ↔
    (∃ token ∈ delays_tokens delays_file, Text.stoi token = none) ∨ Tabulated delays_file VM_NUMBER := by
  constructor
  · intro meant
    by_cases refused : ∃ token ∈ delays_tokens delays_file, Text.stoi token = none
    · exact Or.inl refused
    · push Not at refused
      obtain ⟨inter_vm_delays_ms, read⟩ := read_delays_exists_iff.mpr refused
      obtain ⟨rows, columns, entries⟩ := meant inter_vm_delays_ms read
      refine Or.inr ⟨?_, ?_, ?_⟩
      · rw [← Text.mapM_length read]
        exact rows
      · intro i line inside found
        obtain ⟨row, placed, done⟩ := read_delays_row read found
        rw [← Text.mapM_length done]
        exact columns i row inside placed
      · intro token member
        obtain ⟨i, j, stored, entry, place⟩ := read_delays_token read member
        obtain ⟨same, written, number⟩ := entries i j stored entry
        cases place.symm.trans written
        exact ⟨stored.toNat, number⟩
  · intro condition inter_vm_delays_ms read
    rcases condition with ⟨token, member, refused⟩ | tabulated
    · exact absurd refused (read_delays_exists_iff.mp ⟨_, read⟩ token member)
    · refine ⟨?_, ?_, ?_⟩
      · rw [Text.mapM_length read]
        exact tabulated.rows
      · intro i row inside placed
        have stands := Text.mapM_getElem? read i
        rw [placed] at stands
        obtain ⟨line, found, done⟩ := Option.bind_eq_some_iff.mp stands.symm
        rw [Text.mapM_length done]
        exact tabulated.columns i line inside found
      · intro i j stored entry
        obtain ⟨token, place, member, converted⟩ := read_delays_entry read entry
        obtain ⟨n, written⟩ := tabulated.numbers token member
        refine ⟨token, place, ?_⟩
        rw [read_delay_numeral converted written, written]

/-- A delay of one and a half milliseconds becomes one. -/
theorem not_latency_file_fraction : ¬ ∀ (delays_file : List Char) (VM_NUMBER : Nat) (inter_vm_delays_ms : List (List UInt32)),
    read_delays delays_file = some inter_vm_delays_ms → Means delays_file VM_NUMBER inter_vm_delays_ms := by
  intro claimed
  have read : read_delays "0 1.5\n1 0\n".toList = some [[0, 1], [1, 0]] := by decide +kernel
  obtain ⟨token, place, number⟩ := (claimed "0 1.5\n1 0\n".toList 2 [[0, 1], [1, 0]] read).entries 0 1 1 rfl
  have token_eq : token_at "0 1.5\n1 0\n".toList 0 1 = some "1.5".toList := by decide +kernel
  have value : Text.numeral "1.5".toList = some (3 / 2) := by decide +kernel
  cases token_eq.symm.trans place
  have same : (3 / 2 : ℚ) = (1 : ℕ) := Option.some.inj (value.symm.trans number)
  norm_num at same

end NetworkSimulator.Simulator
