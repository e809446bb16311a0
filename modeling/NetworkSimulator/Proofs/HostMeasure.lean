import NetworkSimulator.Proofs.HostRefinement
import NetworkSimulator.Proofs.MessageCount

/-! What the steps of processes joined by byte streams use up. Bytes are written
only from a bounded number of broadcasts, and a pass of the loop that finds any
byte reads one. -/

namespace NetworkSimulator.Bracha
open Framing
variable {process_number : Nat} {σ : Type} {de : StreamDeserializer σ} {reads : σ → List UInt8 → Nat → Prop}
  {number_of_msg_per_process : Nat}

namespace Hosts
variable {hosts next : Hosts process_number} {i j : Fin process_number}

/-- Bytes on their way to one process. -/
def load (hosts : Hosts process_number) (i : Fin process_number) : Nat := ∑ j, (hosts.streams j i).length

/-- Some stream of the pass holds bytes. -/
def pending (hosts : Hosts process_number) (i : Fin process_number) (ready : List (Fin process_number)) : Bool :=
  ready.any fun j => hosts.streams j i ≠ []

/-- A `select` that finds nothing but closed streams. -/
def fruitless (hosts : Hosts process_number) : SystemCall process_number → Bool
  | .select i ready => !hosts.pending i ready
  | _ => false

/-- How far a process is from its next `select`. A pass with a byte to read is
nearer than the `select` before it. -/
def phase (hosts : Hosts process_number) (i : Fin process_number) : Nat :=
  match hosts.passes i with
  | none => if hosts.left i then 0 else process_number + 2
  | some ready => ready.length + 1 + if hosts.pending i ready then 0 else process_number + 2

/-- The messages a process may still broadcast. -/
def unsent (number_of_msg_per_process : Nat) (hosts : Hosts process_number) (i : Fin process_number) : Nat :=
  number_of_msg_per_process * (2 * process_number + 1) - (hosts.nodes i).broadcasts.length

/-- The bytes that can still be read, with one to spare for each message and stream. -/
def stock (number_of_msg_per_process : Nat) (hosts : Hosts process_number) : Nat :=
  ∑ i, hosts.load i + 30 * process_number * ∑ i, hosts.unsent number_of_msg_per_process i

def measure (number_of_msg_per_process : Nat) (hosts : Hosts process_number) : Nat :=
  (process_number + 2) * hosts.stock number_of_msg_per_process + ∑ i, hosts.phase i

/-- A pass looks at each stream at most once, and none of those to come has become
unreadable since `select` reported it. -/
def Listed (hosts : Hosts process_number) : Prop :=
  ∀ i ready, hosts.passes i = some ready → ready.Pairwise (· < ·) ∧ ∀ j ∈ ready, hosts.ready i j = true

theorem Listed.initial : Listed ({} : Hosts process_number) := fun _ _ pass => by cases pass

theorem Listed.length_le (listed : hosts.Listed) {ready : List (Fin process_number)} (pass : hosts.passes i = some ready) :
    ready.length ≤ process_number := by
  have distinct : ready.Nodup := (listed i ready pass).1.imp Fin.ne_of_lt
  simpa using distinct.length_le_card

/-- What a write adds to a stream keeps it readable. -/
private theorem streams_advance (node : Node) (calls : List (Call process_number)) {k : Fin process_number} (a : Fin process_number)
    (holds : hosts.streams a k ≠ []) : (hosts.advance i node calls).streams a k ≠ [] := by
  simp only [advance]
  split
  · simp [holds]
  · exact holds

theorem Listed.consume (listed : hosts.Listed) {n : Nat} {ready : List (Fin process_number)} {recv_buffer : List UInt8}
    (pass : hosts.passes i = some (j :: ready)) : ((hosts.consume j i n recv_buffer).resume i ready).Listed := by
  intro k rest now
  by_cases same : k = i
  · subst same
    obtain rfl : ready = rest := by simpa [resume] using now
    obtain ⟨ordered, found⟩ := listed k _ pass
    obtain ⟨first, others⟩ := List.pairwise_cons.mp ordered
    refine ⟨others, fun a member => ?_⟩
    have different : a ≠ j := Ne.symm (Fin.ne_of_lt (first a member))
    simpa [Hosts.ready, resume, Hosts.consume, different] using found a (List.mem_cons_of_mem j member)
  · have before : hosts.passes k = some rest := by simpa [resume, Hosts.consume, same] using now
    obtain ⟨ordered, found⟩ := listed k rest before
    exact ⟨ordered, fun a member => by simpa [Hosts.ready, resume, Hosts.consume, same] using found a member⟩

theorem Listed.advance (listed : hosts.Listed) (node : Node) (calls : List (Call process_number)) :
    (hosts.advance i node calls).Listed := by
  intro k ready now
  obtain ⟨ordered, found⟩ := listed k ready now
  refine ⟨ordered, fun a member => ?_⟩
  have before := found a member
  simp only [Hosts.ready, Bool.or_eq_true, decide_eq_true_eq] at before ⊢
  exact before.imp_left (streams_advance node calls a)

theorem Listed.step (listed : hosts.Listed) {call : SystemCall process_number}
    (taken : Step de number_of_msg_per_process hosts call next) : next.Listed := by
  cases taken with
  | start running idle first accepted => exact listed.advance _ _
  | @select i ready running idle started nonempty ordered found =>
    intro k rest now
    by_cases same : k = i
    · subst same
      obtain rfl : ready = rest := by simpa [resume] using now
      exact ⟨ordered, fun a member => (found a member).2⟩
    · exact listed k rest (by simpa [resume, same] using now)
  | @read i j n calls ready endpoint pass short available closed received accepted =>
    exact (listed.consume pass).advance endpoint.node calls
  | @endPass i pass =>
    intro k rest now
    have different : k ≠ i := by
      intro same
      simp [Hosts.endPass, same] at now
    simp only [Hosts.endPass, Function.update_of_ne different] at now
    obtain ⟨ordered, found⟩ := listed k rest now
    refine ⟨ordered, fun a member => ?_⟩
    have before := found a member
    simp only [Hosts.ready, Bool.or_eq_true, decide_eq_true_eq] at before ⊢
    apply before.imp_right
    intro left
    by_cases same : a = i
    · subst same
      simp [Hosts.endPass, left]
    · simpa [Hosts.endPass, same] using left

end Hosts
end NetworkSimulator.Bracha
