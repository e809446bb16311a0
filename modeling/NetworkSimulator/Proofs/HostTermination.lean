import NetworkSimulator.Proofs.FaultFree
import NetworkSimulator.Proofs.HostMeasure
import NetworkSimulator.Proofs.TornReader

/-! Processes that write every message whole come to an end. Until all have left,
somebody can go on; what they do costs bytes, and the bytes are limited. Only
the `select`s on streams that exited peers have closed can be repeated at will. -/

namespace NetworkSimulator.Bracha
open Framing
variable {process_number : Nat} {σ : Type} {de : StreamDeserializer σ} {reads : σ → List UInt8 → Nat → Prop}
  {number_of_msg_per_process : Nat}

/-- The calls of `broadcast` on streams that take everything. -/
def wholeCalls (process_number : Nat) (msgs : List Msg) : List (Call process_number) :=
  msgs.map fun msg => (msg, fun _ => msg.serialized.length)

theorem wholeCalls_accepted (i : Fin process_number) (msgs : List Msg) : Accepted i msgs (wholeCalls process_number msgs) := by
  constructor
  · simp [wholeCalls, Function.comp_def]
  · intro call member k _
    obtain ⟨msg, _, rfl⟩ := List.mem_map.mp member
    exact ⟨List.length_pos_iff.mpr msg.serialized_ne_nil, Nat.le_refl _⟩

theorem wholeCalls_complete (i : Fin process_number) (msgs : List Msg) :
    ∀ call ∈ wholeCalls process_number msgs, ∀ k, k ≠ i → Complete Msg.serialized (call.1, call.2 k) := by
  intro call member k _
  obtain ⟨msg, _, rfl⟩ := List.mem_map.mp member
  exact Nat.le_refl _

namespace Hosts
variable {hosts next : Hosts process_number} {allowed : Msg × Nat → Prop}

/-- Some step is possible that writes everything and is not a fruitless `select`. -/
def CanGoOn (de : StreamDeserializer σ) (number_of_msg_per_process : Nat) (hosts : Hosts process_number) : Prop :=
  ∃ call next, call.Writes (Complete Msg.serialized) ∧ hosts.step de number_of_msg_per_process call = some next ∧
    hosts.fruitless call = false

/-- A process that finds nothing to do waits in `select` with nothing to read. -/
theorem Valid.enabled (documented : de.Documented reads) (refuses : de.Refuses reads)
    (valid : hosts.Valid allowed number_of_msg_per_process) {i : Fin process_number} (running : hosts.left i = false)
    (stuck : ¬ hosts.CanGoOn de number_of_msg_per_process) :
    hosts.passes i = none ∧ (hosts.nodes i).current_msg_id_to_send ≠ 1 ∧ ∀ j, j ≠ i → hosts.streams j i = [] := by
  cases pass : hosts.passes i with
  | none =>
    have started : (hosts.nodes i).current_msg_id_to_send ≠ 1 := by
      intro first
      exact stuck ⟨.start i (wholeCalls _ _), _, wholeCalls_complete i _,
        step_iff.mpr (.start running pass first (wholeCalls_accepted i _)), rfl⟩
    refine ⟨rfl, started, fun j other => ?_⟩
    by_contra bytes
    have found : ∀ a ∈ [j], a ≠ i ∧ hosts.ready i a = true := by simp [other, Hosts.ready, bytes]
    exact stuck ⟨.select i [j], _, trivial, step_iff.mpr (.select running pass started (List.cons_ne_nil j [])
      (List.pairwise_singleton _ j) found), by simp [fruitless, pending, bytes]⟩
  | some ready =>
    cases ready with
    | nil => exact absurd ⟨.endPass i, _, trivial, step_iff.mpr (.endPass pass), rfl⟩ stuck
    | cons j ready =>
      obtain ⟨net, _, image⟩ := valid.image (fun _ => false) fun _ leaves => by cases leaves
      obtain ⟨writes, link⟩ := image.links j i
      obtain ⟨n, short, available, closed⟩ : ∃ n, n ≤ 200 ∧ n ≤ (hosts.streams j i).length ∧ (n = 0 → hosts.streams j i = []) := by
        cases hosts.streams j i with
        | nil => exact ⟨0, by omega, Nat.le_refl _, fun _ => rfl⟩
        | cons byte bytes => exact ⟨1, by omega, by simp, fun zero => by cases zero⟩
      obtain ⟨complete, _, rest, _, _, cut, after⟩ := link.read n
      obtain ⟨final, _, received⟩ : ∃ final,
          (complete.map Prod.fst).foldlM (Node.handle (processConfig number_of_msg_per_process i)) (hosts.nodes i) = some final ∧
          Endpoint.receive de (processConfig number_of_msg_per_process i)
            ((hosts.recv_buffers j i ++ (hosts.streams j i).take n).length + 2)
            { node := hosts.nodes i, recv_buffer := hosts.recv_buffers j i } ((hosts.streams j i).take n) =
              some { node := final, recv_buffer := rest } :=
        receive_held documented refuses cut after.held after.positive (Nat.le_refl _)
      exact absurd ⟨.read i n (wholeCalls _ _), _, wholeCalls_complete i _,
        step_iff.mpr (.read pass short available closed received (wholeCalls_accepted i _)), rfl⟩ stuck

end Hosts

end NetworkSimulator.Bracha
