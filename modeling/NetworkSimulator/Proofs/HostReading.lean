import NetworkSimulator.Bracha.Hosts
import NetworkSimulator.Proofs.WireRoundTrip

/-! One read of a stream on which writes may have been cut short. The messages
before the first short write are handled; nothing behind it ever is. -/

namespace NetworkSimulator.Bracha
open Framing
variable {σ : Type} {de : StreamDeserializer σ} {reads : σ → List UInt8 → Nat → Prop} {config : Config}

/-- The stream deserializer yields no further message. -/
def Stops (de : StreamDeserializer σ) (s : σ) : Prop :=
  (de.next s).1 = none ∨ ∃ s', de.next s = (some (.error ()), s') ∧ (de.next s').1 = none

theorem process_stops {s : σ} (stops : Stops de s) (fuel : Nat) (node : Node) (k : Nat) :
    process de config (fuel + 2) s node k = some (node, k) := by
  rcases stops with ended | ⟨s', failed, ended⟩
  · obtain ⟨s', next⟩ : ∃ s', de.next s = (none, s') := ⟨_, Prod.ext ended rfl⟩
    simp [process, next]
  · obtain ⟨s'', next⟩ : ∃ s'', de.next s' = (none, s'') := ⟨_, Prod.ext ended rfl⟩
    simp [process, failed, next]

/-- The inner loop over whole messages and a rest without one. -/
theorem process_msgs (documented : de.Documented reads) {slice rest : List UInt8}
    (rest_stops : ∀ s k, reads s slice k → slice.drop k = rest → Stops de s) (msgs : List Msg) {s : σ} {k fuel : Nat}
    {node : Node} (at_offset : reads s slice k) (remaining : slice.drop k = msgs.flatMap Msg.serialized ++ rest)
    (enough : msgs.length + 2 ≤ fuel) :
    ∃ final, msgs.foldlM (Node.handle config) node = some final ∧
      process de config fuel s node k = some (final, k + (msgs.flatMap Msg.serialized).length) := by
  induction msgs generalizing s k fuel node with
  | nil =>
    obtain ⟨fuel, rfl⟩ := Nat.exists_eq_add_of_le' enough
    exact ⟨node, rfl, process_stops (rest_stops s k at_offset remaining) (fuel + 0) node k⟩
  | cons msg msgs ih =>
    obtain ⟨fuel, rfl⟩ : ∃ more, fuel = more + 1 := ⟨fuel - 1, by simp at enough; omega⟩
    rw [List.flatMap_cons, List.append_assoc] at remaining
    obtain ⟨found, s', next, begins, advanced, offset⟩ := documented.value s slice k at_offset
      ⟨msg, remaining ▸ List.prefix_append _ _⟩
    have same : found = msg := serialized_prefixFree.first (remaining ▸ begins)
    subst same
    obtain ⟨after, handled⟩ := Node.handle_total config node found
    have dropped : slice.drop (k + found.serialized.length) = msgs.flatMap Msg.serialized ++ rest := by
      rw [← List.drop_drop, remaining, List.drop_left]
    obtain ⟨final, folded, processed⟩ : ∃ final, msgs.foldlM (Node.handle config) after = some final ∧
        process de config fuel s' after (k + found.serialized.length) =
          some (final, k + found.serialized.length + (msgs.flatMap Msg.serialized).length) :=
      ih advanced dropped (by simp at enough; omega)
    refine ⟨final, by simp [List.foldlM_cons, handled, folded], ?_⟩
    simp only [process, next, handled, Option.bind_eq_bind, Option.bind_some, offset, processed, List.flatMap_cons,
      List.length_append, Nat.add_assoc]

/-- Whatever a reader is left with, the deserializer finds no message in it. -/
theorem held_stops (documented : de.Documented reads) (refuses : de.Refuses reads) {rest : List UInt8}
    {pending : List (Msg × Nat)} (held : Held Msg.serialized rest pending) (positive : ∀ write ∈ pending, 1 ≤ write.2)
    {s : σ} {slice : List UInt8} {k : Nat} (at_offset : reads s slice k) (remaining : slice.drop k = rest) : Stops de s := by
  by_cases empty : rest = []
  · exact Or.inl (documented.ended s slice k at_offset (remaining.trans empty))
  · apply Or.inr
    cases pending with
    | nil => exact absurd held empty
    | cons write later =>
      by_cases complete : Complete Msg.serialized write
      · obtain ⟨begins, proper⟩ := held.1 complete
        apply documented.incomplete s slice k at_offset (remaining ▸ empty) ⟨write.1, remaining ▸ begins⟩
        intro msg whole
        rw [remaining] at whole
        have same := serialized_prefixFree _ _ (whole.trans begins)
        subst same
        exact proper (begins.eq_of_length_le whole.length_le)
      · apply refuses s slice k at_offset (remaining ▸ empty)
        exact ⟨write, later, complete, positive, remaining ▸ held.2 complete⟩

/-- A read hands the completed messages to the node and keeps the rest. -/
theorem receive_held (documented : de.Documented reads) (refuses : de.Refuses reads) {node : Node}
    {recv_buffer chunk rest : List UInt8} {msgs : List Msg} {pending : List (Msg × Nat)}
    (cut : recv_buffer ++ chunk = msgs.flatMap Msg.serialized ++ rest) (held : Held Msg.serialized rest pending)
    (positive : ∀ write ∈ pending, 1 ≤ write.2) {fuel : Nat} (enough : (recv_buffer ++ chunk).length + 2 ≤ fuel) :
    ∃ final, msgs.foldlM (Node.handle config) node = some final ∧
      Endpoint.receive de config fuel { node, recv_buffer } chunk = some { node := final, recv_buffer := rest } := by
  have bounded : (msgs.flatMap Msg.serialized).length ≤ (recv_buffer ++ chunk).length := by
    rw [cut, List.length_append]
    exact Nat.le_add_right _ _
  have short : msgs.length + 2 ≤ fuel := by
    have counted := length_le_flatMap msgs
    omega
  have created := documented.created (recv_buffer ++ chunk)
  have begins : (recv_buffer ++ chunk).drop 0 = msgs.flatMap Msg.serialized ++ rest := cut
  obtain ⟨final, handled, processed⟩ : ∃ final, msgs.foldlM (Node.handle config) node = some final ∧
      process de config fuel (de.from_slice (recv_buffer ++ chunk)) node 0 =
        some (final, 0 + (msgs.flatMap Msg.serialized).length) :=
    process_msgs documented (fun s k at_offset remaining => held_stops documented refuses held positive at_offset remaining)
      msgs created begins short
  refine ⟨final, handled, ?_⟩
  simp only [Endpoint.receive, processed, Option.bind_eq_bind, Option.bind_some, Nat.zero_add, bounded, if_true]
  rw [cut, List.drop_left]

end NetworkSimulator.Bracha
