import Mathlib.Data.Set.Basic

/-! Parties that exchange delayed values, each one a function of the time and of
what has reached it before. Their joint execution is what all do when they
advance together; parties that advance on their own repeat it, as long as none
runs past what another could still send to it. -/

namespace Lockstep
universe u v

/-- `delay i j` is the delay of a value to party `i` from party `j`, and
`reaches j i x` says that `i` gets `x` when `j` emits it. -/
structure System (ι : Type u) (β : Type v) where
  emit : ι → Nat → Set (Nat × ι × β) → List β
  delay : ι → ι → Nat
  reaches : ι → ι → β → Prop

variable {ι : Type u} {β : Type v} (system : System ι β)

/-- What reaches a party before a time, by a log of what each party emitted at
each time: when, from whom and what. -/
def System.arrivals (log : ι → Nat → List β) (i : ι) (time : Nat) : Set (Nat × ι × β) :=
  {arrival | arrival.1 < time ∧ ∃ sent, arrival.1 = sent + system.delay i arrival.2.1 ∧
    arrival.2.2 ∈ log arrival.2.1 sent ∧ system.reaches arrival.2.1 i arrival.2.2}

/-- The log when all parties have advanced together by a number of ticks. -/
def System.together (start : Nat) : Nat → ι → Nat → List β
  | 0, _, _ => []
  | ticks + 1, j, time =>
    if time = start + ticks then system.emit j time (system.arrivals (System.together start ticks) j time)
    else System.together start ticks j time

variable {system} {start ticks : Nat} {i j : ι} {time : Nat}

theorem together_outside (outside : time < start ∨ start + ticks ≤ time) : system.together start ticks j time = [] := by
  induction ticks with
  | zero => rfl
  | succ ticks ih =>
    rw [System.together, if_neg (by omega)]
    exact ih (by omega)

/-- Later ticks leave what happened before them as it is. -/
theorem together_add (before : time < start + ticks) (more : Nat) :
    system.together start (ticks + more) j time = system.together start ticks j time := by
  induction more with
  | zero => rfl
  | succ more ih =>
    rw [← Nat.add_assoc, System.together, if_neg (by omega)]
    exact ih

private theorem arrivals_subset {log other : ι → Nat → List β}
    (agree : ∀ j sent, sent + system.delay i j < time → log j sent = other j sent) :
    system.arrivals log i time ⊆ system.arrivals other i time := by
  intro arrival found
  obtain ⟨early, sent, due, emitted, reaches⟩ := found
  refine ⟨early, sent, due, ?_, reaches⟩
  rw [← agree arrival.2.1 sent (by omega)]
  exact emitted

/-- Only what was sent early enough to arrive matters. -/
theorem arrivals_congr {log other : ι → Nat → List β}
    (agree : ∀ j sent, sent + system.delay i j < time → log j sent = other j sent) :
    system.arrivals log i time = system.arrivals other i time :=
  Set.Subset.antisymm (arrivals_subset agree) (arrivals_subset fun j sent early => (agree j sent early).symm)

/-- At every tick, every party emits what has reached it says. -/
theorem together_emit (after : start ≤ time) (before : time < start + ticks) :
    system.together start ticks j time = system.emit j time (system.arrivals (system.together start ticks) j time) := by
  obtain ⟨passed, rfl⟩ := Nat.exists_eq_add_of_le after
  obtain ⟨more, rfl⟩ : ∃ more, ticks = passed + 1 + more := ⟨ticks - (passed + 1), by omega⟩
  rw [together_add (by omega), System.together, if_pos rfl]
  congr 1
  apply arrivals_congr
  intro k sent early
  rw [Nat.add_assoc, together_add (by omega)]

/-- A log kept by parties that have come to different times. -/
structure Causal (system : System ι β) (start : Nat) (horizon : ι → Nat) (log : ι → Nat → List β) : Prop where
  emits : ∀ j time, start ≤ time → time < horizon j → log j time = system.emit j time (system.arrivals log j time)
  nothing : ∀ j time, time < start ∨ horizon j ≤ time → log j time = []
  lookahead : ∀ i j, i ≠ j → horizon i ≤ horizon j + system.delay i j

variable {horizon : ι → Nat} {log : ι → Nat → List β} (causal : Causal system start horizon log)
include causal

/-- What arrives in time was sent by a party that had already come past it. -/
private theorem Causal.sent_before {sent : Nat} (within : time ≤ horizon i) (early : sent + system.delay i j < time) :
    sent < horizon j := by
  by_cases same : i = j
  · subst same
    omega
  · have ahead := causal.lookahead i j same
    omega

/-- The parties have done what they do when they advance together. The induction
is on the time, over all parties at once. -/
theorem Causal.eq_together (within : time < horizon i) (reached : time < start + ticks) :
    log i time = system.together start ticks i time := by
  induction time using Nat.strongRecOn generalizing i with
  | ind time ih =>
    rcases Nat.lt_or_ge time start with before | after
    · rw [causal.nothing i time (Or.inl before), together_outside (Or.inl before)]
    · rw [causal.emits i time after within, together_emit after reached]
      congr 1
      apply arrivals_congr
      intro j sent early
      exact ih sent (by omega) (causal.sent_before within.le early) (by omega)

theorem Causal.arrivals_eq (within : time ≤ horizon i) (reached : time ≤ start + ticks) :
    system.arrivals log i time = system.arrivals (system.together start ticks) i time := by
  apply arrivals_congr
  intro j sent early
  exact causal.eq_together (causal.sent_before within early) (by omega)

end Lockstep
