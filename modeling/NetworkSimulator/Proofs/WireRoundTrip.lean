import NetworkSimulator.Library.Machine
import NetworkSimulator.Proofs.NodeSending
import NetworkSimulator.Proofs.WireReader

/-! The receive loop against the sender's text. However the stream is cut into
reads, a process handles the messages written to it, and its buffer holds the
beginning of the next one. -/

namespace NetworkSimulator.Bracha
open Framing
variable {σ : Type} {de : StreamDeserializer σ} {reads : σ → List UInt8 → Nat → Prop} {config : Config}

/-- The inner loop over a slice of whole messages and a partial one: it stops
after one call for each message, one for the rest and one for the end. -/
theorem process_slice (documented : de.Documented reads) {slice rest : List UInt8} {pending : List Msg}
    (part : Partial Msg.serialized rest pending) (msgs : List Msg) {s : σ} {k fuel : Nat} {node : Node}
    (at_offset : reads s slice k) (remaining : slice.drop k = msgs.flatMap Msg.serialized ++ rest)
    (enough : msgs.length + 2 ≤ fuel) :
    ∃ final, msgs.foldlM (Node.handle config) node = some final ∧
      process de config fuel s node k = some (final, k + (msgs.flatMap Msg.serialized).length) := by
  induction msgs generalizing s k fuel node with
  | nil =>
    obtain ⟨fuel, rfl⟩ : ∃ more, fuel = more + 2 := ⟨fuel - 2, by simp at enough; omega⟩
    refine ⟨node, rfl, ?_⟩
    rw [List.flatMap_nil, List.nil_append] at remaining
    by_cases empty : rest = []
    · have ended := documented.ended s slice k at_offset (remaining.trans empty)
      obtain ⟨s', next⟩ : ∃ s', de.next s = (none, s') := ⟨_, Prod.ext ended rfl⟩
      simp [process, next]
    · have cut : ∃ msg : Msg, slice.drop k <+: msg.serialized := by
        cases pending with
        | nil => exact absurd part empty
        | cons next later => exact ⟨next, remaining ▸ part.1⟩
      obtain ⟨s', failed, stopped⟩ := documented.incomplete s slice k at_offset (remaining ▸ empty) cut
        fun msg => remaining ▸ part.incomplete serialized_prefixFree Msg.serialized_ne_nil msg
      obtain ⟨s'', next⟩ : ∃ s'', de.next s' = (none, s'') := ⟨_, Prod.ext stopped rfl⟩
      simp [process, failed, next]
  | cons msg msgs ih =>
    obtain ⟨fuel, rfl⟩ : ∃ more, fuel = more + 1 := ⟨fuel - 1, by simp at enough; omega⟩
    rw [List.flatMap_cons, List.append_assoc] at remaining
    obtain ⟨found, s', next, begins, advanced, offset⟩ := documented.value s slice k at_offset
      ⟨msg, remaining ▸ List.prefix_append _ _⟩
    have same : found = msg := serialized_prefixFree.first (remaining ▸ begins)
    subst same
    obtain ⟨after, handled⟩ := Node.handle_total config node found
    have dropped : slice.drop (k + found.serialized.length) = msgs.flatMap Msg.serialized ++ rest := by
      rw [← List.drop_drop, remaining, List.drop_left]
    obtain ⟨final, folded, processed⟩ : ∃ final, msgs.foldlM (Node.handle config) after = some final ∧
        process de config fuel s' after (k + found.serialized.length) =
          some (final, k + found.serialized.length + (msgs.flatMap Msg.serialized).length) :=
      ih advanced dropped (by simp at enough; omega)
    refine ⟨final, by simp [List.foldlM_cons, handled, folded], ?_⟩
    simp only [process, next, handled, Option.bind_eq_bind, Option.bind_some, offset, processed, List.flatMap_cons,
      List.length_append, Nat.add_assoc]

theorem handle_all_handled {node final : Node} {msgs : List Msg} (handled : msgs.foldlM (Node.handle config) node = some final) :
    final.handled = node.handled ++ msgs := by
  induction msgs generalizing node with
  | nil =>
    cases handled
    rw [List.append_nil]
  | cons msg msgs ih =>
    rw [List.foldlM_cons, Option.bind_eq_bind, Option.bind_eq_some_iff] at handled
    obtain ⟨after, first, later⟩ := handled
    rw [ih later, Node.handle_handled first, List.append_assoc, List.singleton_append]

/-- Where an endpoint stands in the sender's text. -/
structure InStep (config : Config) (start : Node) (msgs : List Msg) (text : List UInt8) (endpoint : Endpoint)
    (complete pending : List Msg) : Prop where
  split : msgs = complete ++ pending
  handled : complete.foldlM (Node.handle config) start = some endpoint.node
  cut : text = complete.flatMap Msg.serialized ++ endpoint.recv_buffer
  part : Partial Msg.serialized endpoint.recv_buffer pending

theorem length_le_flatMap (msgs : List Msg) : msgs.length ≤ (msgs.flatMap Msg.serialized).length := by
  induction msgs with
  | nil => exact Nat.le_refl _
  | cons msg msgs ih =>
    have positive := List.length_pos_iff.mpr msg.serialized_ne_nil
    rw [List.length_cons, List.flatMap_cons, List.length_append]
    omega

/-- One read keeps an endpoint in step. -/
theorem InStep.receive (documented : de.Documented reads) {start : Node} {msgs complete pending : List Msg}
    {text chunk : List UInt8} {endpoint : Endpoint} (step : InStep config start msgs text endpoint complete pending)
    (within : text ++ chunk <+: msgs.flatMap Msg.serialized) {fuel : Nat}
    (enough : (msgs.flatMap Msg.serialized).length + 2 ≤ fuel) :
    ∃ next more later, endpoint.receive de config fuel chunk = some next ∧
      InStep config start msgs (text ++ chunk) next (complete ++ more) later := by
  have ahead : endpoint.recv_buffer ++ chunk <+: pending.flatMap Msg.serialized := by
    rw [step.cut, step.split, List.flatMap_append, List.append_assoc] at within
    exact (List.prefix_append_right_inj _).mp within
  obtain ⟨more, later, rest, split, cut, part⟩ := split_prefix pending _ ahead
  have short : more.length + 2 ≤ fuel := by
    have counted := length_le_flatMap msgs
    rw [step.split, split] at counted enough
    simp only [List.length_append] at counted enough
    omega
  have created := documented.created (endpoint.recv_buffer ++ chunk)
  obtain ⟨node, handled, processed⟩ : ∃ final, more.foldlM (Node.handle config) endpoint.node = some final ∧
      process de config fuel (de.from_slice (endpoint.recv_buffer ++ chunk)) endpoint.node 0 =
        some (final, 0 + (more.flatMap Msg.serialized).length) :=
    process_slice documented part more created (by rw [List.drop_zero, cut]) short
  refine ⟨{ node, recv_buffer := rest }, more, later, ?_, ?_, ?_, ?_, part⟩
  · have bounded : (more.flatMap Msg.serialized).length ≤ (endpoint.recv_buffer ++ chunk).length := by
      rw [cut, List.length_append]
      exact Nat.le_add_right _ _
    simp only [Endpoint.receive, processed, Option.bind_eq_bind, Option.bind_some, Nat.zero_add, bounded, if_true]
    rw [cut, List.drop_left]
  · rw [step.split, split, List.append_assoc]
  · rw [List.foldlM_append, step.handled]
    exact handled
  · rw [step.cut, List.append_assoc, cut, List.flatMap_append, List.append_assoc]

/-- The process handles exactly the messages sent, in order and once each. After
every read its buffer is what follows the last complete message, a proper
beginning of the next one, and after the last read it is empty. -/
theorem wire_round_trip (documented : de.Documented reads) (msgs : List Msg) (chunks : List (List UInt8))
    (cut : chunks.flatten = msgs.flatMap Msg.serialized) (start : Node) {fuel : Nat}
    (enough : (msgs.flatMap Msg.serialized).length + 2 ≤ fuel) :
    ∀ past future, chunks = past ++ future → ∃ endpoint complete pending,
      Machine.run (Endpoint.receive de config fuel) { node := start } past = some endpoint ∧
        msgs = complete ++ pending ∧ complete.foldlM (Node.handle config) start = some endpoint.node ∧
        endpoint.node.handled = start.handled ++ complete ∧
        past.flatten = complete.flatMap Msg.serialized ++ endpoint.recv_buffer ∧
        Partial Msg.serialized endpoint.recv_buffer pending ∧
        (future = [] → complete = msgs ∧ endpoint.recv_buffer = []) := by
  have in_step (past : List (List UInt8)) (within : past.flatten <+: msgs.flatMap Msg.serialized) :
      ∃ endpoint complete pending, Machine.run (Endpoint.receive de config fuel) { node := start } past = some endpoint ∧
        InStep config start msgs past.flatten endpoint complete pending := by
    induction past using List.reverseRecOn with
    | nil =>
      refine ⟨_, [], msgs, rfl, rfl, rfl, rfl, ?_⟩
      cases msgs with
      | nil => rfl
      | cons next later => exact ⟨List.nil_prefix, Ne.symm next.serialized_ne_nil⟩
    | append_singleton past chunk ih =>
      rw [List.flatten_append, List.flatten_singleton] at within ⊢
      obtain ⟨endpoint, complete, pending, ran, step⟩ := ih ((List.prefix_append _ _).trans within)
      obtain ⟨next, more, later, received, advanced⟩ := step.receive documented within enough
      exact ⟨next, complete ++ more, later, Machine.run_snoc ran received, advanced⟩
  intro past future split
  have within : past.flatten <+: msgs.flatMap Msg.serialized := by
    rw [← cut, split, List.flatten_append]
    exact List.prefix_append _ _
  obtain ⟨endpoint, complete, pending, ran, step⟩ := in_step past within
  refine ⟨endpoint, complete, pending, ran, step.split, step.handled, handle_all_handled step.handled, step.cut, step.part, ?_⟩
  intro last
  have whole : complete.flatMap Msg.serialized ++ endpoint.recv_buffer =
      complete.flatMap Msg.serialized ++ pending.flatMap Msg.serialized := by
    rw [← step.cut, ← List.flatMap_append, ← step.split, ← cut, split, last, List.append_nil]
  have leftover := List.append_cancel_left whole
  have part := step.part
  cases pending with
  | nil => exact ⟨by rw [step.split, List.append_nil], part⟩
  | cons next later =>
    rw [leftover, List.flatMap_cons] at part
    have shorter := part.1.length_le
    have same : later.flatMap Msg.serialized = [] := by
      apply List.eq_nil_of_length_eq_zero
      rw [List.length_append] at shorter
      omega
    exact absurd (by rw [same, List.append_nil]) part.2

theorem wire_round_trip_two : ∃ endpoint, Machine.run (Endpoint.receive reader ⟨0, 3, 4⟩ 100) { node := {} }
      [ascii "\x7b\"Ini", ascii "tial\":\x7b\"v\":-", ascii "5\x7d\x7d\x7b\"Ready\":\x7b\"v\":1", ascii "2\x7d\x7d"] = some endpoint ∧
    endpoint.node.handled = [.Initial (-5), .Ready 12] ∧ endpoint.recv_buffer = [] := by
  obtain ⟨endpoint, complete, pending, ran, _, _, handled, _, _, last⟩ :=
    wire_round_trip reader_documented [.Initial (-5), .Ready 12]
      [ascii "\x7b\"Ini", ascii "tial\":\x7b\"v\":-", ascii "5\x7d\x7d\x7b\"Ready\":\x7b\"v\":1", ascii "2\x7d\x7d"]
      (by decide) {} (by decide : _ ≤ 100) _ [] (List.append_nil _).symm
  obtain ⟨rfl, empty⟩ := last rfl
  exact ⟨endpoint, ran, handled, empty⟩

end NetworkSimulator.Bracha
