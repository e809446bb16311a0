import NetworkSimulator.Bracha.Hosts
import NetworkSimulator.Proofs.WireReader

/-! The deserializer for exactly the compact form finds no message behind a
write that was cut short. A message has its second opening brace in front of the
field name, and no write begins with that. -/

namespace NetworkSimulator.Bracha
open Framing

/-- The bytes between the two opening braces of a message. -/
def Msg.tag : Msg → List UInt8
  | .Initial _ => ascii "\"Initial\":"
  | .Echo _ => ascii "\"Echo\":"
  | .Ready _ => ascii "\"Ready\":"

theorem Msg.serialized_tag (msg : Msg) :
    msg.serialized = 123 :: (msg.tag ++ 123 :: 34 :: 118 :: 34 :: 58 :: (number msg.value ++ [125, 125])) := by
  cases msg with
  | Initial v | Echo v | Ready v => rw [serialized_eq]; rfl

theorem Msg.tag_free (msg : Msg) : 123 ∉ msg.tag := by
  cases msg with
  | Initial v | Echo v | Ready v => simp [tag, ascii]

theorem Msg.tag_begins (msg : Msg) : ∃ kind rest, msg.tag = 34 :: kind :: rest ∧ kind ≠ 118 := by
  cases msg with
  | Initial v | Echo v | Ready v => exact ⟨_, _, rfl, by decide⟩

theorem opening_not_mem_number (v : MsgValueType) : 123 ∉ number v := by
  have digits (n : Nat) : 123 ∉ decimal n := by
    intro member
    have high : (123 : UInt8).toNat < 58 := (decimal_digit member).2
    revert high
    decide
  unfold number
  split
  · rw [ascii_minus, List.mem_append, List.mem_singleton]
    intro found
    rcases found with sign | digit
    · revert sign
      decide
    · exact digits _ digit
  · exact digits _

/-- Where a message has an opening brace again, the field name follows. -/
theorem Msg.second_brace {msg : Msg} {before after : List UInt8} (nonempty : before ≠ [])
    (split : msg.serialized = before ++ 123 :: after) : ∃ rest, after = 34 :: 118 :: rest := by
  obtain ⟨first, before, rfl⟩ := List.exists_cons_of_ne_nil nonempty
  rw [msg.serialized_tag, List.cons_append, List.cons.injEq] at split
  have tail : 123 ∉ (34 :: 118 :: 34 :: 58 :: (number msg.value ++ [125, 125]) : List UInt8) := by
    have digits := opening_not_mem_number msg.value
    simp [digits]
  rcases List.append_eq_append_iff.mp split.2 with ⟨more, same, rest⟩ | ⟨more, same, rest⟩
  · cases more with
    | nil =>
      cases rest
      exact ⟨_, rfl⟩
    | cons brace more =>
      rw [List.cons_append, List.cons.injEq] at rest
      exact absurd (rest.2 ▸ List.mem_append_right more List.mem_cons_self) tail
  · cases more with
    | nil =>
      cases rest
      exact ⟨_, rfl⟩
    | cons brace more =>
      rw [List.cons_append, List.cons.injEq] at rest
      have inside : 123 ∈ msg.tag := by
        rw [same, ← rest.1]
        exact List.mem_append_right before List.mem_cons_self
      exact absurd inside msg.tag_free

/-- Every write begins with an opening brace. -/
theorem writes_head {writes : List (Msg × Nat)} (positive : ∀ write ∈ writes, 1 ≤ write.2) {byte : UInt8} {text : List UInt8}
    (begins : byte :: text <+: writes.flatMap (taken Msg.serialized)) : byte = 123 := by
  cases writes with
  | nil => simp at begins
  | cons write writes =>
    obtain ⟨count, size⟩ := Nat.exists_eq_add_of_le' (positive write List.mem_cons_self)
    simp only [List.flatMap_cons, taken, size, Msg.serialized_tag, List.take_succ_cons, List.cons_append,
      List.cons_prefix_cons] at begins
    exact begins.1

/-- A sequence of writes never begins like the second half of a message. -/
theorem writes_begin {writes : List (Msg × Nat)} (positive : ∀ write ∈ writes, 1 ≤ write.2) {rest : List UInt8} :
    ¬ 123 :: 34 :: 118 :: rest <+: writes.flatMap (taken Msg.serialized) := by
  intro begins
  cases writes with
  | nil => simp at begins
  | cons write writes =>
    obtain ⟨first, others⟩ := List.forall_mem_cons.mp positive
    obtain ⟨kind, tail, tag, other⟩ := write.1.tag_begins
    simp only [List.flatMap_cons, taken, Msg.serialized_tag, tag, List.cons_append] at begins
    -- The write took one byte, two, or enough to show its kind.
    rcases size : write.2 with _ | _ | _ | count
    · omega
    all_goals
      simp only [size, List.take_succ_cons, List.take_zero, List.cons_append, List.nil_append, List.cons_prefix_cons] at begins
    · exact absurd (writes_head others begins.2) (by decide)
    · exact absurd (writes_head others begins.2.2) (by decide)
    · exact other begins.2.2.1.symm

theorem Torn.no_message {text : List UInt8} (torn : Torn text) (msg : Msg) : ¬ msg.serialized <+: text := by
  intro whole
  obtain ⟨write, later, short, positive, cut⟩ := torn
  obtain ⟨first, others⟩ := List.forall_mem_cons.mp positive
  have begins := whole.trans cut
  rw [List.flatMap_cons] at begins
  rcases List.prefix_or_prefix_of_prefix begins (List.prefix_append _ _) with inside | beyond
  · have same := serialized_prefixFree _ _ (inside.trans (List.take_prefix _ _))
    subst same
    have longer := inside.length_le
    rw [taken, List.length_take] at longer
    exact short (by unfold Complete; omega)
  · obtain ⟨rest, split⟩ := beyond
    rw [← split] at begins
    have follows := (List.prefix_append_right_inj _).mp begins
    cases rest with
    | nil =>
      rw [List.append_nil] at split
      have same := serialized_prefixFree msg write.1 (split ▸ List.take_prefix _ _)
      have length := congrArg List.length split
      rw [taken, List.length_take, same] at length
      exact short (by unfold Complete; omega)
    | cons byte rest =>
      have nonempty : taken Msg.serialized write ≠ [] := by
        have positive := List.length_pos_iff.mpr write.1.serialized_ne_nil
        apply List.ne_nil_of_length_pos
        rw [taken, List.length_take]
        omega
      have opened := writes_head others follows
      subst opened
      obtain ⟨after, rfl⟩ := Msg.second_brace nonempty split.symm
      exact writes_begin others follows

theorem reader_refuses : reader.Refuses Reader.Reads := by
  intro s slice k same nonempty torn
  subst same
  have refused : readMsg (slice.drop k) = none := by
    cases read : readMsg (slice.drop k) with
    | none => rfl
    | some msg => exact absurd (readMsg_starts read) (torn.no_message msg)
  exact ⟨{ slice, offset := k, failed := true }, by simp [reader, Reader.next, nonempty, refused],
    by simp [reader, Reader.next]⟩

end NetworkSimulator.Bracha
