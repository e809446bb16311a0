import NetworkSimulator.Library.Mesh
import NetworkSimulator.Proofs.FullMesh

/-! Set-up comes to an end. Every step but a failed attempt binds a listener or adds
a stream to a map, and with all listeners bound and all maps full nobody is left. -/

namespace NetworkSimulator.Bracha
variable {process_number : Nat}

namespace Setup

/-- What a process has behind it: its listener, and the streams it holds. -/
def effort (setup : Setup process_number) (i : Fin process_number) : Nat :=
  (if setup.phase i = .unbound then 0 else 1) + (setup.tcp_streams i).length

def work (setup : Setup process_number) : Nat := ∑ i, setup.effort i

section
variable {addresses : Fin process_number → String} {setup : Setup process_number} (valid : setup.Valid addresses)
include valid

theorem Valid.effort_le (i : Fin process_number) : setup.effort i ≤ process_number := by
  have bound := valid.length_le i
  have inside := i.isLt
  unfold effort
  split <;> omega

/-- Nothing is left to do for a process that is done, and only for such a one. -/
theorem Valid.effort_iff (i : Fin process_number) : setup.effort i = process_number ↔ setup.phase i = .running := by
  have inside := i.isLt
  cases phase : setup.phase i with
  | unbound =>
    have bound := valid.length_le i
    simp only [effort, phase, if_true, reduceCtorEq, iff_false]
    omega
  | connecting p =>
    obtain ⟨below, new⟩ := valid.turn phase
    have room := valid.room below new
    simp only [effort, phase, reduceCtorEq, if_false, iff_false]
    omega
  | accepting =>
    have missing := valid.fewer phase
    simp only [effort, phase, reduceCtorEq, if_false, iff_false]
    omega
  | running =>
    have full := valid.full phase
    simp only [effort, phase, reduceCtorEq, if_false, iff_true]
    omega

omit valid in
theorem whole : ∑ _i : Fin process_number, process_number = process_number * process_number := by
  rw [Finset.sum_const_nat fun _ _ => rfl, Finset.card_univ, Fintype.card_fin]

theorem Valid.work_le : setup.work ≤ process_number * process_number := by
  rw [work, ← whole]
  exact Finset.sum_le_sum fun i _ => valid.effort_le i

theorem Valid.work_iff : setup.work = process_number * process_number ↔ ∀ i, setup.phase i = .running := by
  rw [work, ← whole, Finset.sum_eq_sum_iff_of_le fun i _ => valid.effort_le i]
  constructor
  · intro done i
    exact (valid.effort_iff i).mp (done i (Finset.mem_univ i))
  · intro done i _
    exact (valid.effort_iff i).mpr (done i)

end

section
variable {addresses : Fin process_number → String} (distinct : Function.Injective addresses) {setup next : Setup process_number}
  (valid : setup.Valid addresses) {action : SetupAction process_number}
include distinct valid

/-- A step that advances has one process do one more thing. -/
theorem Valid.step_effort (advances : action.Advances) (done : setup.step addresses action = some next) :
    next.effort action.actor = setup.effort action.actor + 1 ∧
      ∀ i, i ≠ action.actor → next.effort i = setup.effort i := by
  cases action with
  | bind id =>
    simp only [Setup.step, Option.ite_none_right_eq_some, Option.some.injEq] at done
    obtain ⟨unbound, rfl⟩ := done
    constructor
    · simp only [effort, SetupAction.actor, Function.update_self, unbound, peers_from_bound, if_true, if_false]
      omega
    · intro i (other : i ≠ id)
      simp only [effort, Function.update_of_ne other]
  | connect id =>
    cases phase : setup.phase id with
    | connecting p =>
      simp only [Setup.step, phase, Option.ite_none_left_eq_some, Option.some.injEq] at done
      obtain ⟨_, rfl⟩ := done
      obtain ⟨below, new⟩ := valid.turn phase
      simp only [StreamMap.insert_new (valid.fresh distinct below new)]
      constructor
      · simp only [effort, SetupAction.actor, Function.update_self, phase, peers_from_bound, reduceCtorEq, if_false,
          List.length_cons]
        omega
      · intro i (other : i ≠ id)
        simp only [effort, Function.update_of_ne other]
    | unbound => simp [Setup.step, phase] at done
    | accepting => simp [Setup.step, phase] at done
    | running => simp [Setup.step, phase] at done
  | refused id => cases advances
  | accept id position =>
    simp only [Setup.step, Option.ite_none_right_eq_some, Option.bind_eq_bind, Option.bind_eq_some_iff, Option.some.injEq] at done
    obtain ⟨accepting, ⟨addr, stream⟩, taken, rfl⟩ := done
    simp only [StreamMap.insert_new (valid.unseen distinct taken)]
    constructor
    · simp only [effort, SetupAction.actor, Function.update_self, accepting, reduceCtorEq, if_false, List.length_cons]
      split
      · simp [Nat.add_assoc]
      · simp [accepting, Nat.add_assoc]
    · intro i (other : i ≠ id)
      simp only [effort, Function.update_of_ne other]
      split
      · rw [Function.update_of_ne other]
      · rfl

theorem Valid.step_work (done : setup.step addresses action = some next) :
    next.work = setup.work + if action.Advances then 1 else 0 := by
  by_cases advances : action.Advances
  · obtain ⟨more, others⟩ := valid.step_effort distinct advances done
    rw [if_pos advances]
    exact Mesh.sum_changed (Finset.mem_univ _) more others
  · rw [if_neg advances]
    cases action with
    | refused id =>
      simp only [Setup.step] at done
      split at done
      · split at done
        · cases done
          rfl
        · cases done
      · cases done
    | bind id => exact absurd trivial advances
    | connect id => exact absurd trivial advances
    | accept id position => exact absurd trivial advances

end
end Setup

variable {addresses : Fin process_number → String}

/-- The steps that advance are counted by the work done: there are never more than
one for each process and each of its peers, and as many exactly when all are done. -/
theorem setup_steps (distinct : Function.Injective addresses) {actions : List (SetupAction process_number)} {setup : Setup process_number}
    (ran : Machine.run (Setup.step addresses) {} actions = some setup) :
    actions.countP (SetupAction.Advances ·) ≤ process_number * process_number ∧
      (actions.countP (SetupAction.Advances ·) = process_number * process_number ↔ ∀ i, setup.phase i = .running) := by
  have history : setup.Valid addresses ∧ setup.work = actions.countP (SetupAction.Advances ·) := by
    apply Machine.run_history (fun (past : List (SetupAction process_number)) (setup : Setup process_number) =>
      setup.Valid addresses ∧ setup.work = past.countP (SetupAction.Advances ·)) _ _ actions setup ran
    · refine ⟨Setup.valid_initial addresses, ?_⟩
      exact Finset.sum_eq_zero fun _ _ => rfl
    · intro past setup action next _ before done
      obtain ⟨valid, counted⟩ := before
      refine ⟨valid.step distinct done, ?_⟩
      rw [valid.step_work distinct done, counted, List.countP_append, List.countP_singleton]
      simp only [decide_eq_true_eq]
  obtain ⟨valid, counted⟩ := history
  rw [← counted]
  exact ⟨valid.work_le, valid.work_iff⟩

theorem setup_steps_two : ∃ setup, Machine.run (Setup.step two_addresses) {}
      [.bind 0, .refused 0, .bind 1, .connect 0, .accept 1 0] = some setup ∧ ∀ i, setup.phase i = .running := by
  have distinct : Function.Injective two_addresses := by decide
  obtain ⟨setup, ran⟩ : ∃ setup, Machine.run (Setup.step two_addresses) {}
      [.bind 0, .refused 0, .bind 1, .connect 0, .accept 1 0] = some setup := ⟨_, rfl⟩
  exact ⟨setup, ran, (setup_steps distinct ran).2.mp (by decide)⟩

/-- From every state that set-up comes to, steps that advance lead to its end. -/
theorem setup_completes (distinct : Function.Injective addresses) {setup : Setup process_number}
    (reached : Machine.Reachable (Setup.step addresses) {} setup) :
    ∃ actions final, (∀ action ∈ actions, action.Advances) ∧ Machine.run (Setup.step addresses) setup actions = some final ∧
      ∀ i, final.phase i = .running := by
  have valid : setup.Valid addresses := reached.invariant (Setup.Valid addresses) (Setup.valid_initial addresses)
    fun _ _ _ valid done => valid.step distinct done
  obtain ⟨actions, final, advancing, ran, still, stuck⟩ :=
    Machine.exhaust (Setup.step addresses) SetupAction.Advances (fun setup => process_number * process_number - setup.work)
      (fun _ _ _ _ valid done => valid.step distinct done)
      (fun before action next advances valid done => by
        have more := valid.step_work distinct done
        have bound := (valid.step distinct done).work_le
        rw [if_pos advances] at more
        omega) setup valid
  refine ⟨actions, final, advancing, ran, ?_⟩
  intro i
  apply Classical.byContradiction
  intro unfinished
  obtain ⟨action, next, advances, done, _⟩ := still.progress unfinished
  rw [stuck action advances] at done
  cases done

/-- Process 1 has yet to start. -/
theorem setup_completes_two : ∃ setup, Machine.run (Setup.step two_addresses) {} [.bind 0, .refused 0] = some setup ∧
    ∃ actions final, (∀ action ∈ actions, action.Advances) ∧
      Machine.run (Setup.step two_addresses) setup actions = some final ∧ ∀ i, final.phase i = .running := by
  have distinct : Function.Injective two_addresses := by decide
  exact ⟨_, rfl, setup_completes distinct ⟨[.bind 0, .refused 0], rfl⟩⟩

end NetworkSimulator.Bracha
