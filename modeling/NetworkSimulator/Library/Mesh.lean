import Mathlib.Algebra.BigOperators.Group.Finset.Basic
import Mathlib.Algebra.BigOperators.Group.Finset.Piecewise
import Mathlib.Algebra.BigOperators.Ring.Finset
import Mathlib.Algebra.Order.BigOperators.Group.Finset
import Mathlib.Data.Fintype.BigOperators

/-! FIFO channels between every ordered pair of parties, and what each operation
does to the number of messages under way to one of them. A predicate selects
the messages counted, so one lemma serves a single message and the whole load. -/

namespace Mesh
universe u v
variable {ι : Type u} {μ : Type v} [DecidableEq ι]

/-- `channels j i` holds what `j` has sent to `i`, oldest first. -/
abbrev Channels (ι : Type u) (μ : Type v) := ι → ι → List μ

/-- One party sends the same messages to every other. -/
def post (channels : Channels ι μ) (i : ι) (msgs : List μ) : Channels ι μ :=
  fun j k => if j = i ∧ k ≠ i then channels j k ++ msgs else channels j k

/-- Party `i` takes the oldest message from `j`, leaving `rest`. -/
def take (channels : Channels ι μ) (j i : ι) (rest : List μ) : Channels ι μ :=
  fun a b => if a = j ∧ b = i then rest else channels a b

/-- One message to a single party. -/
def push (channels : Channels ι μ) (f i : ι) (msg : μ) : Channels ι μ :=
  fun a b => if a = f ∧ b = i then channels a b ++ [msg] else channels a b

theorem post_same (channels : Channels ι μ) {i k : ι} (msgs : List μ) (different : k ≠ i) :
    post channels i msgs i k = channels i k ++ msgs := by simp [post, different]

theorem post_self (channels : Channels ι μ) (i j : ι) (msgs : List μ) : post channels i msgs j i = channels j i := by
  simp [post]

theorem post_other (channels : Channels ι μ) {i j : ι} (k : ι) (msgs : List μ) (different : j ≠ i) :
    post channels i msgs j k = channels j k := by simp [post, different]

theorem take_other (channels : Channels ι μ) {j i a b : ι} (rest : List μ) (different : a ≠ j ∨ b ≠ i) :
    take channels j i rest a b = channels a b := by
  rcases different with different | different <;> simp [take, different]

/-- A sum moves by what its one changed term moves. -/
theorem sum_changed {terms : Finset ι} {before after : ι → Nat} {i : ι} {change : Nat} (inside : i ∈ terms)
    (changed : after i = before i + change) (same : ∀ j, j ≠ i → after j = before j) :
    ∑ j ∈ terms, after j = ∑ j ∈ terms, before j + change := by
  rw [← Finset.add_sum_erase _ after inside, ← Finset.add_sum_erase _ before inside, changed,
    Finset.sum_congr rfl fun j member => same j (Finset.ne_of_mem_erase member), Nat.add_right_comm]

omit [DecidableEq ι] in
theorem sum_unchanged {terms : Finset ι} {before after : ι → Nat} {i : ι} (outside : i ∉ terms)
    (same : ∀ j, j ≠ i → after j = before j) : ∑ j ∈ terms, after j = ∑ j ∈ terms, before j :=
  Finset.sum_congr rfl fun j member => same j (fun equal => outside (equal ▸ member))

/-- Selected messages from some senders that `i` has not taken yet. -/
def inFlight (channels : Channels ι μ) (senders : Finset ι) (selected : μ → Bool) (i : ι) : Nat :=
  ∑ j ∈ senders, (channels j i).countP selected

variable (channels : Channels ι μ) (senders : Finset ι) (selected : μ → Bool)

theorem inFlight_post (i k : ι) (msgs : List μ) :
    inFlight (post channels i msgs) senders selected k =
      inFlight channels senders selected k + if k ≠ i ∧ i ∈ senders then msgs.countP selected else 0 := by
  by_cases same : k = i
  · subst same
    simp [inFlight, post_self]
  · have others (j : ι) (different : j ≠ i) :
        (post channels i msgs j k).countP selected = (channels j k).countP selected := by
      rw [post_other _ _ _ different]
    by_cases inside : i ∈ senders
    · rw [if_pos ⟨same, inside⟩]
      exact sum_changed inside (by simp [post_same _ _ same]) others
    · rw [if_neg (fun both => inside both.2)]
      exact sum_unchanged inside others

variable {channels} in
theorem inFlight_take {j i : ι} {msg : μ} {rest : List μ} (head : channels j i = msg :: rest) (k : ι) :
    inFlight channels senders selected k =
      inFlight (take channels j i rest) senders selected k + if k = i ∧ j ∈ senders ∧ selected msg then 1 else 0 := by
  by_cases same : k = i
  · subst same
    have others (other : ι) (different : other ≠ j) :
        (channels other k).countP selected = (take channels j k rest other k).countP selected := by
      rw [take_other _ _ (Or.inl different)]
    by_cases inside : j ∈ senders
    · refine sum_changed inside ?_ others
      simp [take, head, List.countP_cons, inside]
    · rw [if_neg (fun all => inside all.2.1)]
      exact sum_unchanged inside others
  · have unchanged : inFlight (take channels j i rest) senders selected k = inFlight channels senders selected k := by
      simp [inFlight, take, same]
    simp [unchanged, same]

theorem inFlight_push (f i k : ι) (msg : μ) :
    inFlight (push channels f i msg) senders selected k =
      inFlight channels senders selected k + if k = i ∧ f ∈ senders ∧ selected msg then 1 else 0 := by
  by_cases same : k = i
  · subst same
    have others (other : ι) (different : other ≠ f) :
        (push channels f k msg other k).countP selected = (channels other k).countP selected := by simp [push, different]
    by_cases inside : f ∈ senders
    · refine sum_changed inside ?_ others
      simp [push, List.countP_append, List.countP_singleton, inside]
    · rw [if_neg (fun all => inside all.2.1)]
      exact sum_unchanged inside others
  · simp [inFlight, push, same]

variable {channels senders}

omit [DecidableEq ι] in
theorem inFlight_empty {i : ι} (empty : ∀ j ∈ senders, channels j i = []) : inFlight channels senders selected i = 0 :=
  Finset.sum_eq_zero fun j member => by simp [empty j member]

variable {selected}

omit [DecidableEq ι] in
theorem inFlight_pos (selected : μ → Bool) {j i : ι} {msg : μ} (sender : j ∈ senders) (member : msg ∈ channels j i)
    (chosen : selected msg = true) : 0 < inFlight channels senders selected i :=
  Nat.lt_of_lt_of_le (List.countP_pos_iff.mpr ⟨msg, member, chosen⟩)
    (Finset.single_le_sum (f := fun j => (channels j i).countP selected) (fun _ _ => Nat.zero_le _) sender)

/-- The whole mesh holds one copy more for each receiver. -/
theorem load_post [Fintype ι] (channels : Channels ι μ) (selected : μ → Bool) (i : ι) (msgs : List μ) :
    ∑ k, inFlight (post channels i msgs) Finset.univ selected k + msgs.countP selected =
      ∑ k, inFlight channels Finset.univ selected k + Fintype.card ι * msgs.countP selected := by
  have copies : ∑ _k : ι, msgs.countP selected =
      ∑ k : ι, (if k ≠ i then msgs.countP selected else 0) + msgs.countP selected :=
    sum_changed (Finset.mem_univ i) (by simp) fun k different => by simp [different]
  simp only [inFlight_post, Finset.mem_univ, and_true, Finset.sum_add_distrib, Nat.add_assoc, ← copies,
    Finset.sum_const, Finset.card_univ, nsmul_eq_mul, Nat.cast_id]

theorem load_take [Fintype ι] (selected : μ → Bool) {j i : ι} {msg : μ} {rest : List μ} (head : channels j i = msg :: rest)
    (chosen : selected msg = true) : ∑ k, inFlight channels Finset.univ selected k =
      ∑ k, inFlight (take channels j i rest) Finset.univ selected k + 1 := by
  refine sum_changed (Finset.mem_univ i) ?_ fun k different => ?_
  all_goals rw [inFlight_take Finset.univ selected head]
  · simp [chosen]
  · simp [different]

theorem inFlight_split [Fintype ι] (channels : Channels ι μ) (selected : μ → Bool) (part : Finset ι) (i : ι) :
    inFlight channels Finset.univ selected i = inFlight channels part selected i + inFlight channels partᶜ selected i :=
  (Finset.sum_add_sum_compl part _).symm

end Mesh
