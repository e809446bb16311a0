import NetworkSimulator.Library.Merge
import NetworkSimulator.Library.Mesh
import NetworkSimulator.Simulator.Slice
import Mathlib.Algebra.BigOperators.Fin

/-! The merge loop takes exactly the due frames: it is a bounded merge of the
sender queues, whatever order their timestamps are in. -/

namespace NetworkSimulator.Simulator
variable {VM_NUMBER : Nat}

/-- What holds of the first frames of the queues visited so far. -/
def Heads (queues : Fin VM_NUMBER → List FrameToDeliver) (visited : Fin VM_NUMBER → Prop) (bound : FrameToDeliver → Prop) : Prop :=
  ∀ j front rest, visited j → queues j = front :: rest → bound front

section
variable {queues : Fin VM_NUMBER → List FrameToDeliver} {visited : Fin VM_NUMBER → Prop} {bound weaker : FrameToDeliver → Prop}
  (heads : Heads queues visited bound) {j : Fin VM_NUMBER}
include heads

theorem Heads.imp (implies : ∀ front, bound front → weaker front) : Heads queues visited weaker := by
  intro k front rest before head
  exact implies front (heads k front rest before head)

theorem Heads.visit_nil (empty : queues j = []) : Heads queues (fun k => visited k ∨ k = j) bound := by
  intro k front rest reached head
  cases reached with
  | inl before => exact heads k front rest before head
  | inr now =>
    subst now
    rw [empty] at head
    cases head

theorem Heads.visit_cons {first : FrameToDeliver} {tail : List FrameToDeliver} (present : queues j = first :: tail)
    (met : bound first) : Heads queues (fun k => visited k ∨ k = j) bound := by
  intro k front rest reached head
  cases reached with
  | inl before => exact heads k front rest before head
  | inr now =>
    subst now
    cases present.symm.trans head
    exact met

end

/-- What the best candidate is among the queues visited so far. -/
def Candidate (queues : Fin VM_NUMBER → List FrameToDeliver) (limit : Nat) (visited : Fin VM_NUMBER → Prop) :
    Option (Fin VM_NUMBER × FrameToDeliver) → Prop
  | none => Heads queues visited (limit < ·.delivery_timestamp_ns)
  | some (j, least) => (∃ rest, queues j = least :: rest) ∧ least.delivery_timestamp_ns ≤ limit ∧
      Heads queues visited (least.delivery_timestamp_ns ≤ ·.delivery_timestamp_ns)

private theorem Candidate.after_visit {queues : Fin VM_NUMBER → List FrameToDeliver} {limit : Nat} {visited : Fin VM_NUMBER → Prop}
    {best : Option (Fin VM_NUMBER × FrameToDeliver)} (candidate : Candidate queues limit visited best) (j : Fin VM_NUMBER) :
    Candidate queues limit (fun k => visited k ∨ k = j) (visit queues limit best j) := by
  cases head : queues j with
  | nil =>
    rw [show visit queues limit best j = best by simp only [visit, head]]
    cases best with
    | none => exact Heads.visit_nil candidate head
    | some found => exact ⟨candidate.1, candidate.2.1, candidate.2.2.visit_nil head⟩
  | cons first tail =>
    cases best with
    | none =>
      have above : Heads queues visited (limit < ·.delivery_timestamp_ns) := candidate
      simp only [visit, head]
      split
      next within =>
        have later := above.imp fun front beyond => (Nat.lt_of_le_of_lt within beyond).le
        exact ⟨⟨tail, head⟩, within, later.visit_cons head (Nat.le_refl _)⟩
      next beyond => exact above.visit_cons head (Nat.lt_of_not_le beyond)
    | some found =>
      obtain ⟨present, within, least⟩ := candidate
      simp only [visit, head]
      split
      next less =>
        have later := least.imp fun front above => less.le.trans above
        exact ⟨⟨tail, head⟩, less.le.trans within, later.visit_cons head (Nat.le_refl _)⟩
      next kept => exact ⟨present, within, least.visit_cons head (Nat.le_of_not_lt kept)⟩

theorem min_queue_candidate (queues : Fin VM_NUMBER → List FrameToDeliver) (limit : Nat) :
    Candidate queues limit (fun _ => True) (min_queue queues limit) := by
  have fold (js : List (Fin VM_NUMBER)) (visited : Fin VM_NUMBER → Prop) (best : Option (Fin VM_NUMBER × FrameToDeliver))
      (candidate : Candidate queues limit visited best) :
      Candidate queues limit (fun k => visited k ∨ k ∈ js) (js.foldl (visit queues limit) best) := by
    induction js generalizing visited best with
    | nil => simpa only [List.not_mem_nil, or_false, List.foldl_nil] using candidate
    | cons j js ih =>
      have later := ih _ _ (candidate.after_visit j)
      simpa only [List.foldl_cons, List.mem_cons, or_assoc] using later
  have all := fold (List.finRange VM_NUMBER) (fun _ => False) none (fun _ _ _ no => no.elim)
  simpa only [min_queue, List.mem_finRange, or_true] using all

theorem frames_pop {queues : Fin VM_NUMBER → List FrameToDeliver} {j : Fin VM_NUMBER} {front : FrameToDeliver}
    {rest : List FrameToDeliver} (head : queues j = front :: rest) :
    frames queues = frames (Function.update queues j rest) + 1 := by
  simp only [frames, ← Fin.sum_univ_def]
  apply Mesh.sum_changed (Finset.mem_univ j) (by simp [head])
  intro k different
  rw [Function.update_of_ne different]

/-- With fuel for one more frame than there are, the loop runs to its end. -/
theorem merge_extraction (limit : Nat) {fuel : Nat} {queues : Fin VM_NUMBER → List FrameToDeliver}
    (enough : frames queues < fuel) :
    Merge.Extraction FrameToDeliver.delivery_timestamp_ns limit queues (merge limit fuel queues).1 (merge limit fuel queues).2 := by
  induction fuel generalizing queues with
  | zero => omega
  | succ fuel ih =>
    have candidate := min_queue_candidate queues limit
    rw [merge]
    cases found : min_queue queues limit with
    | none =>
      rw [found] at candidate
      exact .done fun j front rest head => candidate j front rest trivial head
    | some pick =>
      obtain ⟨j, front⟩ := pick
      rw [found] at candidate
      obtain ⟨⟨rest, head⟩, within, least⟩ := candidate
      have popped : (queues j).tail = rest := by rw [head, List.tail_cons]
      have fewer := frames_pop head
      simp only [popped]
      exact .next head within (fun k y tail same => least k y tail trivial same) (ih (by omega))

end NetworkSimulator.Simulator
