import NetworkSimulator.Proofs.HostReading
import NetworkSimulator.Proofs.NetworkTraffic

/-! One stream against the messages it carries: the bytes that are not read yet,
the ones kept in the buffer, and the writes both come from. -/

namespace NetworkSimulator.Bracha
open Framing
variable {process_number : Nat} {σ : Type} {de : StreamDeserializer σ} {reads : σ → List UInt8 → Nat → Prop}
  {number_of_msg_per_process : Nat} {allowed : Msg × Nat → Prop}

/-- The writes of the messages that are still to be handled, each of an allowed
kind, make up what the reader keeps and what it has not read. -/
structure Link (allowed : Msg × Nat → Prop) (msgs : List Msg) (recv_buffer stream : List UInt8) (writes : List (Msg × Nat)) :
    Prop where
  msgs : msgs = writes.map Prod.fst
  positive : ∀ write ∈ writes, 1 ≤ write.2
  allowed : ∀ write ∈ writes, allowed write
  text : recv_buffer ++ stream = writes.flatMap (taken Msg.serialized)
  held : Held Msg.serialized recv_buffer writes

namespace Link
variable {msgs : List Msg} {recv_buffer stream : List UInt8} {writes : List (Msg × Nat)}

theorem empty (allowed : Msg × Nat → Prop) : Link allowed [] [] [] [] := by
  refine ⟨rfl, ?_, ?_, rfl, rfl⟩
  all_goals simp

/-- More writes of the sender stand behind everything else. -/
theorem append (link : Link allowed msgs recv_buffer stream writes) {more : List (Msg × Nat)}
    (positive : ∀ write ∈ more, 1 ≤ write.2) (kept : ∀ write ∈ more, allowed write) :
    Link allowed (msgs ++ more.map Prod.fst) recv_buffer (stream ++ more.flatMap (taken Msg.serialized)) (writes ++ more) := by
  refine ⟨?_, ?_, ?_, ?_, link.held.append more Msg.serialized_ne_nil⟩
  · rw [link.msgs, List.map_append]
  · intro write member
    exact (List.mem_append.mp member).elim (link.positive write) (positive write)
  · intro write member
    exact (List.mem_append.mp member).elim (link.allowed write) (kept write)
  · rw [← List.append_assoc, link.text, List.flatMap_append]

/-- A read completes some messages, all written whole, and leaves a link for the others. -/
theorem read (link : Link allowed msgs recv_buffer stream writes) (n : Nat) :
    ∃ complete pending rest, writes = complete ++ pending ∧ (∀ write ∈ complete, Complete Msg.serialized write) ∧
      recv_buffer ++ stream.take n = (complete.map Prod.fst).flatMap Msg.serialized ++ rest ∧
      Link allowed (pending.map Prod.fst) rest (stream.drop n) pending := by
  have begins : recv_buffer ++ stream.take n <+: writes.flatMap (taken Msg.serialized) := by
    rw [← link.text]
    exact (List.prefix_append_right_inj _).mpr (List.take_prefix _ _)
  obtain ⟨complete, pending, rest, split, wholes, cut, held⟩ := split_writes writes _ begins
  refine ⟨complete, pending, rest, split, wholes, cut, rfl, ?_, ?_, ?_, held⟩
  · intro write member
    exact link.positive write (split ▸ List.mem_append_right complete member)
  · intro write member
    exact link.allowed write (split ▸ List.mem_append_right complete member)
  · have text : recv_buffer ++ stream.take n ++ stream.drop n = writes.flatMap (taken Msg.serialized) := by
      rw [List.append_assoc, List.take_append_drop, link.text]
    rw [cut, split, List.flatMap_append, flatMap_taken wholes, List.append_assoc] at text
    exact List.append_cancel_left text

/-- A reader that has read everything has come to the first write cut short. -/
theorem stopped {write : Msg × Nat} {later : List (Msg × Nat)}
    (link : Link allowed msgs recv_buffer [] (write :: later)) : ¬ Complete Msg.serialized write := by
  intro whole
  obtain ⟨begins, proper⟩ := link.held.1 whole
  have text := link.text
  rw [List.append_nil, List.flatMap_cons, taken_whole whole] at text
  have longer := begins.length_le
  have length := congrArg List.length text
  rw [List.length_append] at length
  exact proper (begins.eq_of_length (by omega))

/-- With every write whole, such a reader has handled every message. -/
theorem drained (link : Link allowed msgs recv_buffer [] writes) (whole : ∀ write ∈ writes, Complete Msg.serialized write) :
    msgs = [] := by
  rw [link.msgs]
  cases writes with
  | nil => rfl
  | cons write later => exact absurd (whole write List.mem_cons_self) link.stopped

end Link

/-- The network of messages that a state of the byte streams stands for. Some
processes may be taken to have left already, although they are still on their
way to the exit test. -/
structure Image (allowed : Msg × Nat → Prop) (hosts : Hosts process_number) (exits : Fin process_number → Bool)
    (net : Net process_number) : Prop where
  nodes : net.nodes = hosts.nodes
  left : ∀ i, net.left i = (hosts.left i || exits i)
  links : ∀ j i, ∃ writes, Link allowed (net.channels j i) (hosts.recv_buffers j i) (hosts.streams j i) writes

namespace Image
variable {hosts : Hosts process_number} {exits : Fin process_number → Bool} {net : Net process_number}

theorem initial : Image allowed ({} : Hosts process_number) (fun _ => false) {} :=
  ⟨rfl, fun _ => rfl, fun _ _ => ⟨[], .empty allowed⟩⟩

theorem advance (image : Image allowed hosts exits net) {i : Fin process_number} {node : Node} {calls : List (Call process_number)}
    (accepted : Accepted i (node.broadcasts.drop (hosts.nodes i).broadcasts.length) calls)
    (writes : ∀ call ∈ calls, ∀ k, k ≠ i → allowed (call.1, call.2 k)) :
    Image allowed (hosts.advance i node calls) exits (net.advance i node) := by
  obtain ⟨msgs, counts⟩ := accepted
  refine ⟨by simp only [Net.advance, Hosts.advance, image.nodes], image.left, fun a b => ?_⟩
  obtain ⟨before, link⟩ := image.links a b
  simp only [Net.advance, Hosts.advance, Mesh.post]
  by_cases sent : a = i ∧ b ≠ i
  · rw [if_pos sent, if_pos sent, image.nodes, ← msgs]
    have positive : ∀ write ∈ calls.map fun call => (call.1, call.2 b), 1 ≤ write.2 := by
      intro write member
      obtain ⟨call, present, rfl⟩ := List.mem_map.mp member
      exact (counts call present b sent.2).1
    have kept : ∀ write ∈ calls.map fun call => (call.1, call.2 b), allowed write := by
      intro write member
      obtain ⟨call, present, rfl⟩ := List.mem_map.mp member
      exact writes call present b sent.2
    have more := link.append positive kept
    rw [List.map_map, List.flatMap_map] at more
    exact ⟨_, more⟩
  · rw [if_neg sent, if_neg sent]
    exact ⟨before, link⟩

/-- What a process reads and handles, the process of the network handles. -/
theorem consume (documented : de.Documented reads) (refuses : de.Refuses reads) (image : Image allowed hosts exits net)
    {config : Config} {i j : Fin process_number} {n : Nat} {next : Endpoint}
    (received : Endpoint.receive de config ((hosts.recv_buffers j i ++ (hosts.streams j i).take n).length + 2)
      { node := hosts.nodes i, recv_buffer := hosts.recv_buffers j i } ((hosts.streams j i).take n) = some next) :
    ∃ done later, net.channels j i = done ++ later ∧ done.foldlM (Node.handle config) (net.nodes i) = some next.node ∧
      Image allowed (hosts.consume j i n next.recv_buffer) exits (net.consume j i later) := by
  obtain ⟨writes, link⟩ := image.links j i
  obtain ⟨complete, pending, rest, split, _, cut, after⟩ := link.read n
  obtain ⟨final, handled, result⟩ : ∃ final, (complete.map Prod.fst).foldlM (Node.handle config) (hosts.nodes i) = some final ∧
      Endpoint.receive de config ((hosts.recv_buffers j i ++ (hosts.streams j i).take n).length + 2)
        { node := hosts.nodes i, recv_buffer := hosts.recv_buffers j i } ((hosts.streams j i).take n) =
          some { node := final, recv_buffer := rest } :=
    receive_held documented refuses cut after.held after.positive (Nat.le_refl _)
  rw [received, Option.some.injEq] at result
  subst result
  refine ⟨complete.map Prod.fst, pending.map Prod.fst, by rw [link.msgs, split, List.map_append],
    by rw [image.nodes]; exact handled, image.nodes, image.left, fun a b => ?_⟩
  simp only [Net.consume, Hosts.consume, Mesh.take]
  by_cases here : a = j ∧ b = i
  · obtain ⟨rfl, rfl⟩ := here
    simp only [and_self, if_true]
    exact ⟨pending, after⟩
  · simp only [here, if_false]
    exact image.links a b

end Image
end NetworkSimulator.Bracha
