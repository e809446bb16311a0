import NetworkSimulator.Proofs.HostLinks
import NetworkSimulator.Proofs.TornReader

/-! Byte streams against messages. However `select` chooses, however the streams
are cut into reads and whatever each `write` takes, the nodes do what they do in
the network of messages; a write cut short only stops its stream for ever. -/

namespace NetworkSimulator.Bracha
open Framing
variable {process_number : Nat} {σ : Type} {de : StreamDeserializer σ} {reads : σ → List UInt8 → Nat → Prop}
  {number_of_msg_per_process : Nat} {allowed : Msg × Nat → Prop}

theorem handle_all_appended {config : Config} {node final : Node} {msgs : List Msg}
    (handled : msgs.foldlM (Node.handle config) node = some final) : node.broadcasts <+: final.broadcasts := by
  induction msgs generalizing node with
  | nil =>
    cases handled
    exact List.prefix_rfl
  | cons msg msgs ih =>
    rw [List.foldlM_cons, Option.bind_eq_bind, Option.bind_eq_some_iff] at handled
    obtain ⟨after, first, later⟩ := handled
    exact (Node.handle_appended first).trans (ih later)

theorem handle_all_started {config : Config} {node final : Node} {msgs : List Msg}
    (handled : msgs.foldlM (Node.handle config) node = some final) :
    node.current_msg_id_to_send ≤ final.current_msg_id_to_send := by
  induction msgs generalizing node with
  | nil =>
    cases handled
    exact Nat.le_refl _
  | cons msg msgs ih =>
    rw [List.foldlM_cons, Option.bind_eq_bind, Option.bind_eq_some_iff] at handled
    obtain ⟨after, first, later⟩ := handled
    exact (Node.handle_started first).trans (ih later)

namespace Net

theorem consume_nothing (net : Net process_number) (j i : Fin process_number) :
    (net.consume j i (net.channels j i)).advance i (net.nodes i) = net := by
  have channels : Mesh.post (Mesh.take net.channels j i (net.channels j i)) i [] = net.channels := by
    funext a b
    by_cases here : a = j ∧ b = i
    · simp [Mesh.post, Mesh.take, here]
    · simp [Mesh.post, Mesh.take, here]
  cases net
  simp only [consume, advance, List.drop_length, Function.update_eq_self] at channels ⊢
  rw [channels]

/-- Two receptions from one stream, taken together. -/
private theorem consume_twice (net : Net process_number) (j i : Fin process_number) {node final : Node} (middle later : List Msg)
    (first : (net.nodes i).broadcasts <+: node.broadcasts) (second : node.broadcasts <+: final.broadcasts) (exits : Bool) :
    ((((((net.consume j i middle).advance i node).endPass i false).consume j i later).advance i final).endPass i exits) =
      ((net.consume j i later).advance i final).endPass i exits := by
  obtain ⟨before, same⟩ := first
  obtain ⟨after, extended⟩ := second
  have channels : Mesh.post (Mesh.take (Mesh.post (Mesh.take net.channels j i middle) i before) j i later) i after =
      Mesh.post (Mesh.take net.channels j i later) i (before ++ after) := by
    funext a b
    by_cases here : a = j ∧ b = i
    · simp [Mesh.post, Mesh.take, here]
    · by_cases sent : a = i ∧ b ≠ i
      · simp [Mesh.post, Mesh.take, sent]
      · simp [Mesh.post, Mesh.take, here, sent]
  have sentFirst : node.broadcasts.drop (net.nodes i).broadcasts.length = before := by rw [← same, List.drop_left]
  have sentSecond : final.broadcasts.drop node.broadcasts.length = after := by rw [← extended, List.drop_left]
  have sentBoth : final.broadcasts.drop (net.nodes i).broadcasts.length = before ++ after := by
    rw [← extended, ← same, List.append_assoc, List.drop_left]
  simp only [consume, advance, endPass, Function.update_self, Function.update_idem, Bool.or_false, sentFirst, sentSecond,
    sentBoth, channels]

/-- A process takes several messages from one stream. The exit test stands
behind the last of them. -/
theorem run_receive {net : Net process_number} {i j : Fin process_number} {msgs later : List Msg} {final : Node}
    {exits : Bool} (running : net.left i = false) (started : 2 ≤ (net.nodes i).current_msg_id_to_send)
    (head : net.channels j i = msgs ++ later) (nonempty : msgs ≠ [])
    (handled : msgs.foldlM (Node.handle (processConfig number_of_msg_per_process i)) (net.nodes i) = some final)
    (leaves : exits = true → final.finished (processConfig number_of_msg_per_process i) = true) :
    ∃ actions, Machine.run (Net.step number_of_msg_per_process ∅) net actions =
      some (((net.consume j i later).advance i final).endPass i exits) := by
  induction msgs generalizing net with
  | nil => exact absurd rfl nonempty
  | cons msg msgs ih =>
    rw [List.foldlM_cons, Option.bind_eq_bind, Option.bind_eq_some_iff] at handled
    obtain ⟨node, first, rest⟩ := handled
    cases msgs with
    | nil =>
      obtain rfl : node = final := Option.some.inj rest
      have taken : net.step number_of_msg_per_process ∅ (.receive i j exits) = some (((net.consume j i later).advance i node).endPass i
          (exits && node.finished (processConfig number_of_msg_per_process i))) :=
        step_iff.mpr (.receive (Finset.notMem_empty i) running (by omega) head first)
      refine ⟨[.receive i j exits], ?_⟩
      have tested : (exits && node.finished (processConfig number_of_msg_per_process i)) = exits := by
        cases exits with
        | false => rfl
        | true => exact leaves rfl
      rw [Machine.run_cons, taken, tested]
      rfl
    | cons next msgs =>
      have taken : net.step number_of_msg_per_process ∅ (.receive i j false) =
          some (((net.consume j i (next :: msgs ++ later)).advance i node).endPass i false) :=
        step_iff.mpr (.receive (Finset.notMem_empty i) running (by omega) head first)
      have position := Node.handle_started first
      obtain ⟨actions, ran⟩ : ∃ actions, Machine.run (Net.step number_of_msg_per_process ∅)
          (((net.consume j i (next :: msgs ++ later)).advance i node).endPass i false) actions = some
            ((((((net.consume j i (next :: msgs ++ later)).advance i node).endPass i false).consume j i later).advance i final).endPass i
              exits) := ih
        (by simp [endPass, advance, consume, running]) (by simp [endPass, advance, consume]; omega)
        (by simp [endPass, advance, consume, Mesh.post_self, Mesh.take]) (List.cons_ne_nil _ _)
        (by simpa [endPass, advance, consume] using rest)
      refine ⟨.receive i j false :: actions, (Machine.run_cons_iff _).mpr ⟨_, taken, ?_⟩⟩
      rw [ran, consume_twice net j i _ later (Node.handle_appended first) (handle_all_appended rest)]

end Net

namespace Hosts

/-- Everything a step can do. -/
inductive Step (de : StreamDeserializer σ) (number_of_msg_per_process : Nat) (hosts : Hosts process_number) :
    SystemCall process_number → Hosts process_number → Prop where
  | start {i calls} (running : hosts.left i = false) (idle : hosts.passes i = none)
      (first : (hosts.nodes i).current_msg_id_to_send = 1)
      (accepted : Accepted i (((hosts.nodes i).sendInitial (processConfig number_of_msg_per_process i)).broadcasts.drop
        (hosts.nodes i).broadcasts.length) calls) :
      Step de number_of_msg_per_process hosts (.start i calls)
        (hosts.advance i ((hosts.nodes i).sendInitial (processConfig number_of_msg_per_process i)) calls)
  | select {i ready} (running : hosts.left i = false) (idle : hosts.passes i = none)
      (started : (hosts.nodes i).current_msg_id_to_send ≠ 1) (nonempty : ready ≠ []) (ordered : ready.Pairwise (· < ·))
      (found : ∀ j ∈ ready, j ≠ i ∧ hosts.ready i j = true) :
      Step de number_of_msg_per_process hosts (.select i ready) (hosts.resume i ready)
  | read {i j n calls ready next} (pass : hosts.passes i = some (j :: ready)) (short : n ≤ 200)
      (available : n ≤ (hosts.streams j i).length) (closed : n = 0 → hosts.streams j i = [])
      (received : Endpoint.receive de (processConfig number_of_msg_per_process i)
        ((hosts.recv_buffers j i ++ (hosts.streams j i).take n).length + 2)
        { node := hosts.nodes i, recv_buffer := hosts.recv_buffers j i } ((hosts.streams j i).take n) = some next)
      (accepted : Accepted i (next.node.broadcasts.drop (hosts.nodes i).broadcasts.length) calls) :
      Step de number_of_msg_per_process hosts (.read i n calls)
        (((hosts.consume j i n next.recv_buffer).advance i next.node calls).resume i ready)
  | endPass {i} (pass : hosts.passes i = some []) :
      Step de number_of_msg_per_process hosts (.endPass i)
        (hosts.endPass i ((hosts.nodes i).finished (processConfig number_of_msg_per_process i)))

theorem step_iff {hosts next : Hosts process_number} {call : SystemCall process_number} :
    hosts.step de number_of_msg_per_process call = some next ↔ Step de number_of_msg_per_process hosts call next := by
  constructor
  · intro taken
    cases call with
    | start i calls =>
      simp only [step] at taken
      split at taken
      next guard =>
        split at taken
        next accepted => cases taken; exact .start guard.1 guard.2.1 guard.2.2 accepted
        next => cases taken
      next => cases taken
    | select i ready =>
      simp only [step] at taken
      split at taken
      next guard =>
        cases taken
        exact .select guard.1 guard.2.1 guard.2.2.1 guard.2.2.2.1 guard.2.2.2.2.1 (by simpa using guard.2.2.2.2.2)
      next => cases taken
    | read i n calls =>
      simp only [step] at taken
      split at taken
      next j ready pass =>
        split at taken
        next guard =>
          simp only [Option.bind_eq_bind, Option.bind_eq_some_iff] at taken
          obtain ⟨endpoint, received, rest⟩ := taken
          split at rest
          next accepted => cases rest; exact .read pass guard.1 guard.2.1 guard.2.2 received accepted
          next => cases rest
        next => cases taken
      next => cases taken
    | endPass i =>
      simp only [step] at taken
      split at taken
      next pass => cases taken; exact .endPass pass
      next => cases taken
  · intro taken
    cases taken with
    | start running idle first accepted => simp [step, running, idle, first, accepted]
    | select running idle started nonempty ordered found =>
      simp only [step]
      rw [if_pos ⟨running, idle, started, nonempty, ordered, by simpa using found⟩]
    | read pass short available closed received accepted =>
      simp only [step, pass]
      rw [if_pos ⟨short, available, closed⟩]
      simp only [received, Option.bind_eq_bind, Option.bind_some, accepted, if_true]
    | endPass pass => simp [step, pass]

/-- Processes that have delivered everything in the pass they are in, and so are
on their way to the exit test that lets them leave. -/
def Leaving (number_of_msg_per_process : Nat) (hosts : Hosts process_number) (exits : Fin process_number → Bool) : Prop :=
  ∀ i, exits i = true → hosts.passes i ≠ none ∧ (hosts.nodes i).finished (processConfig number_of_msg_per_process i) = true

/-- Each state stands for one of the network, in which any of the leaving
processes can be taken to have left. -/
structure Valid (allowed : Msg × Nat → Prop) (number_of_msg_per_process : Nat) (hosts : Hosts process_number) : Prop where
  idle : ∀ i, hosts.passes i = none → hosts.left i = false →
    (hosts.nodes i).finished (processConfig number_of_msg_per_process i) = false
  gone : ∀ i, hosts.left i = true → hosts.passes i = none
  begun : ∀ i ready, hosts.passes i = some ready → (hosts.nodes i).current_msg_id_to_send ≠ 1
  image : ∀ exits, hosts.Leaving number_of_msg_per_process exits →
    ∃ net, Reachable number_of_msg_per_process ∅ net ∧ Image allowed hosts exits net

theorem Valid.initial (allowed : Msg × Nat → Prop) (tested : number_of_msg_per_process * process_number % 2 ^ 64 ≠ 0) :
    Valid allowed number_of_msg_per_process ({} : Hosts process_number) := by
  refine ⟨fun i _ _ => ?_, fun _ _ => rfl, fun i ready pass => ?_, fun exits leaving => ?_⟩
  · simpa [Node.finished, processConfig] using tested.symm
  · cases pass
  · have nobody : exits = fun _ => false := by
      funext i
      cases leaves : exits i with
      | false => rfl
      | true => exact absurd rfl (leaving i leaves).1
    rw [nobody]
    exact ⟨{}, ⟨[], rfl⟩, .initial⟩

variable {hosts next : Hosts process_number}

theorem Leaving.stays {exits : Fin process_number → Bool} (leaving : hosts.Leaving number_of_msg_per_process exits)
    {i : Fin process_number} (idle : hosts.passes i = none) : exits i = false := by
  cases leaves : exits i with
  | false => rfl
  | true => exact absurd idle (leaving i leaves).1

theorem Valid.running (valid : hosts.Valid allowed number_of_msg_per_process) {i : Fin process_number}
    {ready : List (Fin process_number)} (pass : hosts.passes i = some ready) : hosts.left i = false := by
  cases left : hosts.left i with
  | false => rfl
  | true =>
    have idle := valid.gone i left
    rw [pass] at idle
    cases idle

private theorem Valid.start (valid : hosts.Valid allowed number_of_msg_per_process) {i : Fin process_number}
    {calls : List (Call process_number)} (running : hosts.left i = false) (idle : hosts.passes i = none)
    (first : (hosts.nodes i).current_msg_id_to_send = 1)
    (accepted : Accepted i (((hosts.nodes i).sendInitial (processConfig number_of_msg_per_process i)).broadcasts.drop
      (hosts.nodes i).broadcasts.length) calls)
    (writes : ∀ call ∈ calls, ∀ k, k ≠ i → allowed (call.1, call.2 k)) :
    (hosts.advance i ((hosts.nodes i).sendInitial (processConfig number_of_msg_per_process i)) calls).Valid allowed
      number_of_msg_per_process := by
  have delivered (k : Fin process_number) :
      ((Function.update hosts.nodes i ((hosts.nodes i).sendInitial (processConfig number_of_msg_per_process i))) k).finished
        (processConfig number_of_msg_per_process k) = (hosts.nodes k).finished (processConfig number_of_msg_per_process k) := by
    by_cases same : k = i
    · subst same
      simp [Node.finished, Node.sendInitial, Node.broadcast]
    · rw [Function.update_of_ne same]
  refine ⟨fun k none active => ?_, valid.gone, fun k ready pass => ?_, fun exits leaving => ?_⟩
  · exact (delivered k).trans (valid.idle k none active)
  · have other : k ≠ i := by
      intro same
      rw [same] at pass
      exact absurd (idle.symm.trans pass) (by simp)
    simpa only [advance, Function.update_of_ne other] using valid.begun k ready pass
  · have before : hosts.Leaving number_of_msg_per_process exits := fun k leaves =>
      ⟨(leaving k leaves).1, (delivered k).symm.trans (leaving k leaves).2⟩
    obtain ⟨net, reached, image⟩ := valid.image exits before
    have active : net.left i = false := by rw [image.left, running, before.stays idle, Bool.or_false]
    have fresh : (net.nodes i).current_msg_id_to_send = 1 := by rw [image.nodes, first]
    have taken : net.step number_of_msg_per_process ∅ (.start i) =
        some (net.advance i ((net.nodes i).sendInitial (processConfig number_of_msg_per_process i))) :=
      Net.step_iff.mpr (.start (Finset.notMem_empty i) active fresh)
    rw [image.nodes] at taken
    exact ⟨_, reached.extend (Machine.run_snoc (Machine.run_nil _ net) taken), image.advance accepted writes⟩

private theorem Valid.select (valid : hosts.Valid allowed number_of_msg_per_process) {i : Fin process_number}
    {ready : List (Fin process_number)} (running : hosts.left i = false) (idle : hosts.passes i = none)
    (started : (hosts.nodes i).current_msg_id_to_send ≠ 1) :
    (hosts.resume i ready).Valid allowed number_of_msg_per_process := by
  have other {k : Fin process_number} (different : k ≠ i) : (hosts.resume i ready).passes k = hosts.passes k := by
    simp [resume, different]
  refine ⟨fun k none active => ?_, fun k left => ?_, fun k found pass => ?_, fun exits leaving => ?_⟩
  · have different : k ≠ i := by
      intro same
      simp [resume, same] at none
    exact valid.idle k ((other different).symm.trans none) active
  · have different : k ≠ i := by
      intro same
      subst same
      exact absurd (running.symm.trans left) (by simp)
    exact (other different).trans (valid.gone k left)
  · by_cases same : k = i
    · subst same
      exact started
    · exact valid.begun k found ((other same).symm.trans pass)
  · have before : hosts.Leaving number_of_msg_per_process exits := by
      intro k leaves
      obtain ⟨within, done⟩ := leaving k leaves
      have different : k ≠ i := by
        intro same
        subst same
        exact absurd ((valid.idle k idle running).symm.trans done) (by simp)
      exact ⟨fun none => within ((other different).trans none), done⟩
    obtain ⟨net, reached, image⟩ := valid.image exits before
    exact ⟨net, reached, image.nodes, image.left, image.links⟩

private theorem Valid.read (documented : de.Documented reads) (refuses : de.Refuses reads)
    (valid : hosts.Valid allowed number_of_msg_per_process) {i j : Fin process_number} {n : Nat}
    {calls : List (Call process_number)} {ready : List (Fin process_number)} {endpoint : Endpoint}
    (pass : hosts.passes i = some (j :: ready))
    (received : Endpoint.receive de (processConfig number_of_msg_per_process i)
      ((hosts.recv_buffers j i ++ (hosts.streams j i).take n).length + 2)
      { node := hosts.nodes i, recv_buffer := hosts.recv_buffers j i } ((hosts.streams j i).take n) = some endpoint)
    (accepted : Accepted i (endpoint.node.broadcasts.drop (hosts.nodes i).broadcasts.length) calls)
    (writes : ∀ call ∈ calls, ∀ k, k ≠ i → allowed (call.1, call.2 k)) :
    (((hosts.consume j i n endpoint.recv_buffer).advance i endpoint.node calls).resume i ready).Valid allowed
      number_of_msg_per_process := by
  have active := valid.running pass
  obtain ⟨past, before, viewed⟩ := valid.image (fun _ => false) fun _ leaves => by cases leaves
  have positions := before.valid.nodes i
  rw [viewed.nodes] at positions
  obtain ⟨first, _, _, folded, _⟩ := viewed.consume documented refuses received
  rw [viewed.nodes] at folded
  have started : (hosts.nodes i).current_msg_id_to_send ≠ 1 := valid.begun i _ pass
  refine ⟨fun k none running => ?_, fun k left => ?_, fun k found within => ?_, fun exits leaving => ?_⟩
  · have different : k ≠ i := by
      intro same
      simp [resume, same] at none
    simp only [resume, advance, consume, Function.update_of_ne different] at none running ⊢
    exact valid.idle k none running
  · have different : k ≠ i := by
      intro same
      subst same
      exact absurd (active.symm.trans left) (by simp)
    simp only [resume, advance, consume, Function.update_of_ne different] at left ⊢
    exact valid.gone k left
  · by_cases same : k = i
    · subst same
      have later := handle_all_started folded
      have sent := positions.started
      simp only [resume, advance, consume, Function.update_self]
      omega
    · simp only [resume, advance, consume, Function.update_of_ne same] at within ⊢
      exact valid.begun k found within
  · have elsewhere (k : Fin process_number) (different : k ≠ i) (leaves : exits k = true) : hosts.passes k ≠ none ∧
        (hosts.nodes k).finished (processConfig number_of_msg_per_process k) = true := by
      have done := leaving k leaves
      simp only [resume, advance, consume, Function.update_of_ne different] at done
      exact done
    by_cases silent : endpoint.node = hosts.nodes i
    · -- The read completed no message, so the network stands still.
      have before : hosts.Leaving number_of_msg_per_process exits := by
        intro k leaves
        by_cases same : k = i
        · subst same
          have done := (leaving k leaves).2
          simp only [resume, advance, consume, Function.update_self, silent] at done
          exact ⟨by rw [pass]; simp, done⟩
        · exact elsewhere k same leaves
      obtain ⟨net, reached, image⟩ := valid.image exits before
      obtain ⟨done, later, split, handled, consumed⟩ := image.consume documented refuses received
      have nothing : done = [] := by
        have grown := handle_all_handled handled
        rw [silent, image.nodes] at grown
        exact List.append_cancel_left (grown.symm.trans (List.append_nil _).symm)
      subst nothing
      have unmoved := net.consume_nothing j i
      rw [split, List.nil_append, image.nodes, ← silent] at unmoved
      have after := consumed.advance accepted writes
      rw [unmoved] at after
      exact ⟨net, reached, after.nodes, after.left, after.links⟩
    · -- The last message completed is the one behind which the pass ends.
      have before : hosts.Leaving number_of_msg_per_process (Function.update exits i false) := by
        intro k leaves
        by_cases same : k = i
        · simp [same] at leaves
        · rw [Function.update_of_ne same] at leaves
          exact elsewhere k same leaves
      obtain ⟨net, reached, image⟩ := valid.image _ before
      obtain ⟨done, later, split, handled, consumed⟩ := image.consume documented refuses received
      have some_message : done ≠ [] := by
        intro nothing
        subst nothing
        exact silent ((Option.some.inj handled).symm.trans (by rw [image.nodes]))
      have running : net.left i = false := by rw [image.left, active, Function.update_self, Bool.or_false]
      have position : 2 ≤ (net.nodes i).current_msg_id_to_send := by
        have sent := positions.started
        rw [image.nodes]
        omega
      have tested : exits i = true → endpoint.node.finished (processConfig number_of_msg_per_process i) = true := by
        intro leaves
        have done := (leaving i leaves).2
        simp only [resume, advance, consume, Function.update_self] at done
        exact done
      obtain ⟨actions, ran⟩ := Net.run_receive running position split some_message handled tested
      have after := consumed.advance accepted writes
      refine ⟨_, reached.extend ran, after.nodes, fun k => ?_, after.links⟩
      by_cases same : k = i
      · subst same
        have exited := after.left k
        rw [Function.update_self, Bool.or_false] at exited
        simp only [Net.endPass, Function.update_self, exited, resume]
      · have kept := after.left k
        rw [Function.update_of_ne same] at kept
        simpa only [Net.endPass, Function.update_of_ne same, resume] using kept

private theorem Valid.endPass (valid : hosts.Valid allowed number_of_msg_per_process) {i : Fin process_number}
    (pass : hosts.passes i = some []) :
    (hosts.endPass i ((hosts.nodes i).finished (processConfig number_of_msg_per_process i))).Valid allowed
      number_of_msg_per_process := by
  have active := valid.running pass
  refine ⟨fun k idle running => ?_, fun k left => ?_, fun k found within => ?_, fun exits leaving => ?_⟩
  · by_cases same : k = i
    · subst same
      simp only [Hosts.endPass, Function.update_self, active, Bool.false_or] at running
      exact running
    · simp only [Hosts.endPass, Function.update_of_ne same] at idle running
      exact valid.idle k idle running
  · by_cases same : k = i
    · subst same
      exact Function.update_self _ _ _
    · simp only [Hosts.endPass, Function.update_of_ne same] at left ⊢
      exact valid.gone k left
  · have different : k ≠ i := by
      intro same
      simp [Hosts.endPass, same] at within
    simp only [Hosts.endPass, Function.update_of_ne different] at within
    exact valid.begun k found within
  · have idle : exits i = false := leaving.stays (Function.update_self _ _ _)
    have before : hosts.Leaving number_of_msg_per_process
        (Function.update exits i ((hosts.nodes i).finished (processConfig number_of_msg_per_process i))) := by
      intro k leaves
      by_cases same : k = i
      · subst same
        rw [Function.update_self] at leaves
        exact ⟨by rw [pass]; simp, leaves⟩
      · rw [Function.update_of_ne same] at leaves
        have within := leaving k leaves
        simp only [Hosts.endPass, Function.update_of_ne same] at within
        exact within
    obtain ⟨net, reached, image⟩ := valid.image _ before
    refine ⟨net, reached, image.nodes, fun k => ?_, image.links⟩
    rw [image.left k]
    by_cases same : k = i
    · subst same
      simp only [Hosts.endPass, Function.update_self, idle, Bool.or_false]
    · simp only [Hosts.endPass, Function.update_of_ne same]

theorem Valid.step (documented : de.Documented reads) (refuses : de.Refuses reads)
    (valid : hosts.Valid allowed number_of_msg_per_process) {call : SystemCall process_number} (writes : call.Writes allowed)
    (taken : Step de number_of_msg_per_process hosts call next) : next.Valid allowed number_of_msg_per_process := by
  cases taken with
  | start running idle first accepted => exact valid.start running idle first accepted writes
  | select running idle started => exact valid.select running idle started
  | read pass _ _ _ received accepted => exact valid.read documented refuses pass received accepted writes
  | endPass pass => exact valid.endPass pass

theorem Valid.run (documented : de.Documented reads) (refuses : de.Refuses reads) (tested : number_of_msg_per_process * process_number % 2 ^ 64 ≠ 0)
    {calls : List (SystemCall process_number)}
    (every : Machine.Every (Hosts.step de number_of_msg_per_process) (fun _ call => call.Writes allowed) {} calls)
    (ran : Machine.run (Hosts.step de number_of_msg_per_process) {} calls = some hosts) :
    hosts.Valid allowed number_of_msg_per_process :=
  every.invariant _ (.initial allowed tested)
    (fun _ _ _ valid writes taken => valid.step documented refuses writes (step_iff.mp taken)) ran

end Hosts

/-- Every state that the processes reach over byte streams, whatever `select` and
the reads return and however few bytes the writes take, has the nodes and the
exits of a state of the network of messages. On each stream the messages still
to be handled are those of the network, as far as they were written. The exit
test must not be met before anything is delivered. -/
theorem streams_refine_messages (documented : de.Documented reads) (refuses : de.Refuses reads)
    (tested : number_of_msg_per_process * process_number % 2 ^ 64 ≠ 0) {hosts : Hosts process_number}
    (reached : Machine.Reachable (Hosts.step de number_of_msg_per_process) {} hosts) :
    ∃ net, Reachable number_of_msg_per_process ∅ net ∧ net.nodes = hosts.nodes ∧ net.left = hosts.left ∧
      ∀ j i, ∃ writes : List (Msg × Nat), net.channels j i = writes.map Prod.fst ∧
        hosts.recv_buffers j i ++ hosts.streams j i = writes.flatMap (taken Msg.serialized) ∧
        Held Msg.serialized (hosts.recv_buffers j i) writes := by
  have valid : hosts.Valid (fun _ => True) number_of_msg_per_process :=
    reached.invariant _ (.initial _ tested) fun _ call _ valid taken =>
      valid.step documented refuses (by cases call <;> simp [SystemCall.Writes]) (Hosts.step_iff.mp taken)
  obtain ⟨net, found, image⟩ := valid.image (fun _ => false) fun _ leaves => by cases leaves
  refine ⟨net, found, image.nodes, funext fun i => ?_, fun j i => ?_⟩
  · rw [image.left, Bool.or_false]
  · obtain ⟨writes, link⟩ := image.links j i
    exact ⟨writes, link.msgs, link.text, link.held⟩

/-- A stream that takes five bytes of an Initial: what follows stays in the buffer
of its reader, and the nodes are those of a network that never delivers it. -/
theorem streams_refine_messages_torn : ∃ hosts : Hosts 2,
    Machine.run (Hosts.step reader 1) {} [.start 0 [(.Initial 2, fun _ => 5)], .start 1 [(.Initial 3, fun _ => 19)],
      .select 1 [0], .read 1 5 [], .endPass 1, .select 0 [1], .read 0 19 [(.Echo 3, fun _ => 16)], .endPass 0,
      .select 1 [0], .read 1 16 []] = some hosts ∧
    hosts.recv_buffers 0 1 = ascii "\x7b\"Ini\x7b\"Echo\":\x7b\"v\":3\x7d\x7d" ∧
    ∃ net, Reachable 1 ∅ net ∧ net.nodes = hosts.nodes := by
  have torn : (Machine.run (Hosts.step reader 1) ({} : Hosts 2) [.start 0 [(.Initial 2, fun _ => 5)],
      .start 1 [(.Initial 3, fun _ => 19)], .select 1 [0], .read 1 5 [], .endPass 1, .select 0 [1],
      .read 0 19 [(.Echo 3, fun _ => 16)], .endPass 0, .select 1 [0], .read 1 16 []]).map (fun hosts => hosts.recv_buffers 0 1) =
        some (ascii "\x7b\"Ini\x7b\"Echo\":\x7b\"v\":3\x7d\x7d") := by decide +kernel
  obtain ⟨hosts, ran, kept⟩ := Option.map_eq_some_iff.mp torn
  obtain ⟨net, reached, same, _⟩ := streams_refine_messages reader_documented reader_refuses (by decide) ⟨_, ran⟩
  exact ⟨hosts, ran, kept, net, reached, same⟩

end NetworkSimulator.Bracha
