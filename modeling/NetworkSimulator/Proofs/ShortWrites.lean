import NetworkSimulator.Proofs.HostLinks
import NetworkSimulator.Proofs.TornMessages
import NetworkSimulator.Proofs.TornReader

/-! From `broadcast` at one end of a stream to the handler at the other. The
receiver gets the messages up to the first one that was not written whole, and
keeps everything behind it in its buffer. -/

namespace NetworkSimulator.Bracha
open Framing
variable {σ : Type} {de : StreamDeserializer σ} {reads : σ → List UInt8 → Nat → Prop} {config : Config}
  {allowed : Msg × Nat → Prop}

/-- Reading a stream to its end, in any pieces. -/
theorem Link.run (documented : de.Documented reads) (refuses : de.Refuses reads) {msgs : List Msg} {recv_buffer : List UInt8}
    {chunks : List (List UInt8)} {writes : List (Msg × Nat)} (link : Link allowed msgs recv_buffer chunks.flatten writes)
    (node : Node) {fuel : Nat} (enough : (recv_buffer ++ chunks.flatten).length + 2 ≤ fuel) :
    ∃ complete pending endpoint, writes = complete ++ pending ∧ (∀ write ∈ complete, Complete Msg.serialized write) ∧
      Machine.run (Endpoint.receive de config fuel) { node, recv_buffer } chunks = some endpoint ∧
      (complete.map Prod.fst).foldlM (Node.handle config) node = some endpoint.node ∧
      Link allowed (pending.map Prod.fst) endpoint.recv_buffer [] pending := by
  induction chunks generalizing msgs recv_buffer writes node with
  | nil => exact ⟨[], writes, { node, recv_buffer }, rfl, by simp, rfl, rfl, link.msgs ▸ link⟩
  | cons chunk chunks ih =>
    rw [List.flatten_cons] at link enough
    obtain ⟨complete, pending, rest, split, wholes, cut, after⟩ := link.read chunk.length
    rw [List.take_left] at cut
    rw [List.drop_left] at after
    rw [← List.append_assoc, List.length_append] at enough
    obtain ⟨middle, handled, received⟩ : ∃ middle, (complete.map Prod.fst).foldlM (Node.handle config) node = some middle ∧
        Endpoint.receive de config fuel { node, recv_buffer } chunk = some { node := middle, recv_buffer := rest } :=
      receive_held documented refuses cut after.held after.positive (by omega)
    have shorter : rest.length ≤ (recv_buffer ++ chunk).length := by
      rw [cut, List.length_append]
      exact Nat.le_add_left _ _
    obtain ⟨more, remaining, endpoint, splitAgain, wholesAgain, ran, folded, last⟩ := ih after middle
      (by rw [List.length_append]; omega)
    refine ⟨complete ++ more, remaining, endpoint, ?_, ?_, (Machine.run_cons_iff _).mpr ⟨_, received, ran⟩, ?_, last⟩
    · rw [split, splitAgain, List.append_assoc]
    · intro write member
      exact (List.mem_append.mp member).elim (wholes write) (wholesAgain write)
    · rw [List.map_append, List.foldlM_append, handled]
      exact folded

/-- The stream took the whole message of a call of `broadcast`. -/
def tookAll (addr : String) (call : Msg × (String → Except Unit Nat)) : Bool :=
  (put addr call).length == call.1.serialized.length

def asWrite (addr : String) (call : Msg × (String → Except Unit Nat)) : Msg × Nat := (call.1, (put addr call).length)

theorem taken_asWrite (addr : String) (call : Msg × (String → Except Unit Nat)) :
    taken Msg.serialized (asWrite addr call) = put addr call := by
  have begins : put addr call <+: call.1.serialized := by
    unfold put
    split
    · exact List.nil_prefix
    · exact List.take_prefix _ _
  exact (List.prefix_iff_eq_take.mp begins).symm

theorem complete_asWrite (addr : String) (call : Msg × (String → Except Unit Nat)) :
    Complete Msg.serialized (asWrite addr call) ↔ tookAll addr call = true := by
  have bounded := put_length_le addr call
  simp only [Complete, asWrite, tookAll, beq_iff_eq]
  omega

/-- Whatever the receiver's reads return, it handles exactly the messages in front
of the first one that its stream did not take whole, and its buffer holds all
bytes from there on. -/
theorem short_write_silences (documented : de.Documented reads) (refuses : de.Refuses reads) {before after : TcpStreams}
    {calls : List (Msg × (String → Except Unit Nat))} (counts : ∀ call ∈ calls, Counts before call)
    (ran : Machine.run broadcast_unwrap before calls = some after) {addr : String} (fresh : (addr, []) ∈ before)
    (start : Node) :
    ∃ text, (addr, text) ∈ after ∧ ∀ (chunks : List (List UInt8)) (fuel : Nat), chunks.flatten = text → text.length + 2 ≤ fuel →
      ∃ endpoint, Machine.run (Endpoint.receive de config fuel) { node := start } chunks = some endpoint ∧
        endpoint.node.handled = start.handled ++ (calls.takeWhile (tookAll addr)).map Prod.fst ∧
        endpoint.recv_buffer = (calls.dropWhile (tookAll addr)).flatMap (put addr) := by
  obtain ⟨written, returned⟩ := broadcasts_put ran
  refine ⟨calls.flatMap (put addr), ?_, fun chunks fuel cut enough => ?_⟩
  · rw [written]
    exact List.mem_map.mpr ⟨(addr, []), fresh, rfl⟩
  have positive : ∀ write ∈ calls.map (asWrite addr), 1 ≤ write.2 := by
    intro write member
    obtain ⟨call, present, rfl⟩ := List.mem_map.mp member
    obtain ⟨n, took⟩ := returned call present _ fresh
    have counted := counts call present _ fresh n took
    simp only [asWrite, put, took, List.length_take]
    omega
  have link : Link (fun _ => True) ((calls.map (asWrite addr)).map Prod.fst) [] chunks.flatten (calls.map (asWrite addr)) := by
    refine ⟨rfl, positive, fun _ _ => trivial, ?_, ?_⟩
    · rw [cut, List.nil_append, List.flatMap_map]
      exact (List.flatMap_congr fun call _ => taken_asWrite addr call).symm
    · have nothing : Held Msg.serialized [] [] := rfl
      exact nothing.append _ Msg.serialized_ne_nil
  have room : ([] ++ chunks.flatten).length + 2 ≤ fuel := by
    rw [List.nil_append, cut]
    exact enough
  obtain ⟨complete, pending, endpoint, split, wholes, read, handled, last⟩ :=
    @Link.run σ de reads config _ documented refuses _ _ _ _ link start fuel room
  obtain ⟨front, back, rfl, rfl, rfl⟩ := List.map_eq_append_iff.mp split
  have fronts : ∀ call ∈ front, tookAll addr call = true := fun call member =>
    (complete_asWrite addr call).mp (wholes _ (List.mem_map_of_mem member))
  have stops : back.takeWhile (tookAll addr) = [] ∧ back.dropWhile (tookAll addr) = back := by
    cases back with
    | nil => exact ⟨rfl, rfl⟩
    | cons call later =>
      have short : ¬ tookAll addr call = true := fun whole => last.stopped ((complete_asWrite addr call).mpr whole)
      simp [short]
  refine ⟨endpoint, read, ?_, ?_⟩
  · rw [handle_all_handled handled, List.map_map, List.takeWhile_append_of_pos fronts, stops.1, List.append_nil]
    rfl
  · have text := last.text
    rw [List.append_nil, List.flatMap_map] at text
    rw [text, List.dropWhile_append_of_pos fronts, stops.2]
    exact List.flatMap_congr fun call _ => taken_asWrite addr call

/-- An Echo, three bytes of a Ready and another Echo. -/
theorem short_write_silences_echo : ∃ endpoint, Machine.run (Endpoint.receive reader ⟨0, 3, 4⟩ 100) { node := {} }
      [ascii "\x7b\"Echo\":\x7b\"v\":4", ascii "\x7d\x7d\x7b\"R\x7b\"Echo\"", ascii ":\x7b\"v\":5\x7d\x7d"] = some endpoint ∧
    endpoint.node.handled = [.Echo 4] ∧ endpoint.recv_buffer = ascii "\x7b\"R\x7b\"Echo\":\x7b\"v\":5\x7d\x7d" := by
  let calls : List (Msg × (String → Except Unit Nat)) :=
    [(.Echo 4, fun _ => .ok 16), (.Ready 4, fun _ => .ok 3), (.Echo 5, fun _ => .ok 16)]
  have counts : ∀ call ∈ calls, Counts [("10.0.0.2", [])] call := by
    intro call member stream _ n took
    simp only [calls, List.mem_cons, List.not_mem_nil, or_false] at member
    rcases member with rfl | rfl | rfl
    all_goals
      cases took
      exact ⟨by decide, by decide +kernel⟩
  obtain ⟨text, inside, silences⟩ := @short_write_silences _ reader _ ⟨0, 3, 4⟩ reader_documented reader_refuses
    [("10.0.0.2", [])] _ calls counts rfl "10.0.0.2" List.mem_cons_self {}
  have written : text = ascii "\x7b\"Echo\":\x7b\"v\":4\x7d\x7d\x7b\"R\x7b\"Echo\":\x7b\"v\":5\x7d\x7d" := by
    have same := (Prod.mk.inj (List.mem_singleton.mp inside)).2
    rw [same]
    decide +kernel
  have cut : [ascii "\x7b\"Echo\":\x7b\"v\":4", ascii "\x7d\x7d\x7b\"R\x7b\"Echo\"", ascii ":\x7b\"v\":5\x7d\x7d"].flatten = text := by
    rw [written]
    decide
  have room : text.length + 2 ≤ 100 := by
    rw [written]
    decide
  obtain ⟨endpoint, ran, handled, kept⟩ := silences _ 100 cut room
  refine ⟨endpoint, ran, handled.trans ?_, kept.trans ?_⟩
  · decide +kernel
  · decide +kernel

end NetworkSimulator.Bracha
