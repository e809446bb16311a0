import Mathlib.Data.List.Induction
import Mathlib.Tactic.Push

/-! Partial step functions and their finite runs. A step that is not enabled
yields no state, so a run lists only actions the machine really took. -/

namespace Machine
universe u v
variable {σ : Type u} {α : Type v} (step : σ → α → Option σ)

def run (state : σ) (actions : List α) : Option σ := actions.foldlM step state

def Reachable (initial state : σ) : Prop := ∃ actions, run step initial actions = some state

@[simp] theorem run_nil (state : σ) : run step state [] = some state := rfl

theorem run_cons (state : σ) (action : α) (actions : List α) :
    run step state (action :: actions) = (step state action).bind (run step · actions) := rfl

theorem run_cons_iff {state final : σ} {action : α} {actions : List α} :
    run step state (action :: actions) = some final ↔
      ∃ middle, step state action = some middle ∧ run step middle actions = some final := by
  rw [run_cons, Option.bind_eq_some_iff]

theorem run_append_iff {state final : σ} {first last : List α} :
    run step state (first ++ last) = some final ↔
      ∃ middle, run step state first = some middle ∧ run step middle last = some final := by
  simp only [run, List.foldlM_append, Option.bind_eq_bind, Option.bind_eq_some_iff]

theorem run_snoc_iff {state final : σ} {actions : List α} {action : α} :
    run step state (actions ++ [action]) = some final ↔
      ∃ middle, run step state actions = some middle ∧ step middle action = some final := by
  simp only [run_append_iff, run_cons_iff, run_nil, Option.some.injEq, exists_eq_right]

variable {step}

theorem run_append {state middle final : σ} {first last : List α}
    (before : run step state first = some middle) (after : run step middle last = some final) :
    run step state (first ++ last) = some final :=
  (run_append_iff step).mpr ⟨middle, before, after⟩

theorem run_snoc {state middle final : σ} {actions : List α} {action : α}
    (before : run step state actions = some middle) (taken : step middle action = some final) :
    run step state (actions ++ [action]) = some final :=
  (run_snoc_iff step).mpr ⟨middle, before, taken⟩

theorem Reachable.initial (state : σ) : Reachable step state state := ⟨[], rfl⟩

theorem Reachable.extend {initial middle final : σ} {actions : List α}
    (reached : Reachable step initial middle) (ran : run step middle actions = some final) :
    Reachable step initial final := by
  obtain ⟨before, prior⟩ := reached
  exact ⟨before ++ actions, run_append prior ran⟩

/-- An invariant may speak of the actions taken so far. Every induction over a
run goes through this rule. -/
theorem run_history {initial : σ} (holds : List α → σ → Prop) (start : holds [] initial)
    (preserved : ∀ past state action next, run step initial past = some state → holds past state →
      step state action = some next → holds (past ++ [action]) next) :
    ∀ actions final, run step initial actions = some final → holds actions final := by
  intro actions
  induction actions using List.reverseRecOn with
  | nil =>
    intro final ran
    cases ran
    exact start
  | append_singleton past action ih =>
    intro final ran
    obtain ⟨middle, before, taken⟩ := (run_snoc_iff step).mp ran
    exact preserved past middle action final before (ih middle before) taken

theorem run_invariant {initial final : σ} {actions : List α} (holds : σ → Prop) (start : holds initial)
    (preserved : ∀ state action next, holds state → step state action = some next → holds next)
    (ran : run step initial actions = some final) : holds final :=
  run_history (fun _ state => holds state) start
    (fun _ state action next _ prior taken => preserved state action next prior taken) actions final ran

theorem Reachable.invariant {initial final : σ} (holds : σ → Prop) (reached : Reachable step initial final)
    (start : holds initial)
    (preserved : ∀ state action next, holds state → step state action = some next → holds next) :
    holds final := by
  obtain ⟨actions, ran⟩ := reached
  exact run_invariant holds start preserved ran

/-- A condition that a run brings about is brought about by one of its steps. -/
theorem run_crossing {initial final : σ} {actions : List α} (holds : σ → Prop) (before : ¬ holds initial)
    (ran : run step initial actions = some final) (after : holds final) :
    ∃ past action rest state next, actions = past ++ action :: rest ∧ run step initial past = some state ∧ ¬ holds state ∧
      step state action = some next ∧ holds next := by
  induction actions generalizing initial with
  | nil =>
    cases ran
    exact absurd after before
  | cons action rest ih =>
    obtain ⟨middle, taken, later⟩ := (run_cons_iff step).mp ran
    by_cases arrived : holds middle
    · exact ⟨[], action, rest, initial, middle, rfl, rfl, before, taken, arrived⟩
    · obtain ⟨past, crossing, remainder, state, next, split, reached, earlier, crossed, held⟩ := ih arrived later
      exact ⟨action :: past, crossing, remainder, state, next, by rw [split, List.cons_append],
        (run_cons_iff step).mpr ⟨middle, taken, reached⟩, earlier, crossed, held⟩

/-- Every step of the run meets a condition on the state it is taken in. -/
def Every (step : σ → α → Option σ) (allowed : σ → α → Prop) : σ → List α → Prop
  | _, [] => True
  | state, action :: actions => allowed state action ∧ ∀ next ∈ step state action, Every step allowed next actions

instance Every.decidable (step : σ → α → Option σ) (allowed : σ → α → Prop) [∀ state action, Decidable (allowed state action)] :
    ∀ (state : σ) (actions : List α), Decidable (Every step allowed state actions)
  | _, [] => isTrue trivial
  | _, _ :: actions => @instDecidableAnd _ _ _ (@Option.decidableForallMem _ _ (fun next => Every.decidable step allowed next actions) _)

theorem Every.snoc_iff {allowed : σ → α → Prop} {initial : σ} {actions : List α} {action : α} :
    Every step allowed initial (actions ++ [action]) ↔
      Every step allowed initial actions ∧
        ∀ state, run step initial actions = some state → allowed state action := by
  induction actions generalizing initial with
  | nil => simp [Every]
  | cons first actions ih =>
    simp only [List.cons_append, Every, ih, run_cons_iff]
    constructor
    · intro found
      obtain ⟨met, later⟩ := found
      refine ⟨⟨met, fun next taken => (later next taken).1⟩, ?_⟩
      intro state found
      obtain ⟨middle, taken, ran⟩ := found
      exact (later middle taken).2 state ran
    · intro found
      obtain ⟨⟨met, later⟩, last⟩ := found
      exact ⟨met, fun next taken => ⟨later next taken, fun state ran => last state ⟨next, taken, ran⟩⟩⟩

/-- Only steps that meet the condition have to preserve the invariant. -/
theorem Every.history {allowed : σ → α → Prop} {initial : σ} (holds : List α → σ → Prop) (start : holds [] initial)
    (preserved : ∀ past state action next, run step initial past = some state → holds past state →
      allowed state action → step state action = some next → holds (past ++ [action]) next) :
    ∀ actions final, Every step allowed initial actions → run step initial actions = some final →
      holds actions final := by
  intro actions
  induction actions using List.reverseRecOn with
  | nil =>
    intro final _ ran
    cases ran
    exact start
  | append_singleton past action ih =>
    intro final every ran
    obtain ⟨middle, before, taken⟩ := (run_snoc_iff step).mp ran
    obtain ⟨earlier, last⟩ := Every.snoc_iff.mp every
    exact preserved past middle action final before (ih middle earlier before) (last middle before) taken

theorem Every.invariant {allowed : σ → α → Prop} {initial final : σ} {actions : List α} (holds : σ → Prop)
    (every : Every step allowed initial actions) (start : holds initial)
    (preserved : ∀ state action next, holds state → allowed state action → step state action = some next → holds next)
    (ran : run step initial actions = some final) : holds final :=
  Every.history (fun _ state => holds state) start
    (fun _ state action next _ prior met taken => preserved state action next prior met taken) actions final every ran

theorem Every.imp {allowed weaker : σ → α → Prop} {initial : σ} {actions : List α}
    (every : Every step allowed initial actions) (implies : ∀ state action, allowed state action → weaker state action) :
    Every step weaker initial actions := by
  induction actions generalizing initial with
  | nil => trivial
  | cons action actions ih =>
    obtain ⟨met, later⟩ := every
    exact ⟨implies initial action met, fun next taken => ih (later next taken)⟩

theorem Every.and {allowed other : σ → α → Prop} {initial : σ} {actions : List α} (every : Every step allowed initial actions)
    (again : Every step other initial actions) : Every step (fun state action => allowed state action ∧ other state action) initial actions := by
  induction actions generalizing initial with
  | nil => trivial
  | cons action actions ih =>
    obtain ⟨met, later⟩ := every
    obtain ⟨held, rest⟩ := again
    exact ⟨⟨met, held⟩, fun next taken => ih (later next taken) (rest next taken)⟩

theorem Every.prior {allowed : σ → α → Prop} {initial : σ} {first last : List α} (every : Every step allowed initial (first ++ last)) :
    Every step allowed initial first := by
  induction first generalizing initial with
  | nil => trivial
  | cons action first ih =>
    obtain ⟨met, later⟩ := every
    exact ⟨met, fun next taken => ih (later next taken)⟩

/-- A condition on the actions alone. -/
theorem Every.of_forall {allowed : α → Prop} {initial : σ} {actions : List α} (all : ∀ action ∈ actions, allowed action) :
    Every step (fun _ action => allowed action) initial actions := by
  induction actions generalizing initial with
  | nil => trivial
  | cons action actions ih =>
    obtain ⟨met, later⟩ := List.forall_mem_cons.mp all
    exact ⟨met, fun _ _ => ih later⟩

/-- What the steps of a run put out, in order. -/
def outputs {β : Type*} (step : σ → α → Option σ) (output : σ → α → List β) : σ → List α → List β
  | _, [] => []
  | state, action :: actions => output state action ++ (step state action).elim [] fun next => outputs step output next actions

theorem outputs_snoc {β : Type*} {output : σ → α → List β} {initial middle : σ} {actions : List α} {action : α}
    (ran : run step initial actions = some middle) :
    outputs step output initial (actions ++ [action]) = outputs step output initial actions ++ output middle action := by
  induction actions generalizing initial with
  | nil =>
    cases ran
    rw [List.nil_append, outputs, outputs, List.nil_append]
    cases step middle action <;> exact List.append_nil _
  | cons first actions ih =>
    obtain ⟨next, taken, rest⟩ := (run_cons_iff step).mp ran
    simp only [List.cons_append, outputs, taken, Option.elim_some, ih rest, List.append_assoc]

/-- How many steps of one kind a run takes. -/
def occurrences (step : σ → α → Option σ) (kind : σ → α → Bool) : σ → List α → Nat
  | _, [] => 0
  | state, action :: actions =>
    (if kind state action = true then 1 else 0) + (step state action).elim 0 fun next => occurrences step kind next actions

/-- Steps of one kind may raise a measure by a limited amount; all others lower
it. So only steps of that kind can make a run long. -/
theorem Every.length_le {allowed : σ → α → Prop} {kind : σ → α → Bool} {holds : σ → Prop} (measure : σ → Nat) (raise : Nat)
    (preserved : ∀ state action next, holds state → allowed state action → step state action = some next → holds next)
    (lowers : ∀ state action next, holds state → allowed state action → step state action = some next →
      kind state action = false → measure next < measure state)
    (raises : ∀ state action next, holds state → allowed state action → step state action = some next →
      kind state action = true → measure next ≤ measure state + raise)
    {initial final : σ} {actions : List α} (every : Every step allowed initial actions) (start : holds initial)
    (ran : run step initial actions = some final) :
    actions.length + measure final ≤ measure initial + (raise + 1) * occurrences step kind initial actions := by
  induction actions generalizing initial with
  | nil =>
    cases ran
    simp [occurrences]
  | cons action actions ih =>
    obtain ⟨middle, taken, later⟩ := (run_cons_iff step).mp ran
    obtain ⟨met, rest⟩ := every
    have remaining := ih (rest middle taken) (preserved initial action middle start met taken) later
    rw [occurrences, taken, Option.elim_some, Nat.mul_add, List.length_cons]
    cases chosen : kind initial action with
    | false =>
      have lower := lowers initial action middle start met taken chosen
      rw [if_neg Bool.false_ne_true]
      omega
    | true =>
      have higher := raises initial action middle start met taken chosen
      rw [if_pos rfl]
      omega

/-- Actions of one kind that each lower a measure are exhausted after finitely
many steps. The actions taken and the invariant they keep are both reported. -/
theorem exhaust (step : σ → α → Option σ) (kind : α → Prop) {holds : σ → Prop} (measure : σ → Nat)
    (preserved : ∀ state action next, kind action → holds state → step state action = some next → holds next)
    (lowers : ∀ state action next, kind action → holds state → step state action = some next →
      measure next < measure state)
    (state : σ) (start : holds state) :
    ∃ actions final, (∀ action ∈ actions, kind action) ∧ run step state actions = some final ∧ holds final ∧
      ∀ action, kind action → step final action = none := by
  induction bound : measure state using Nat.strongRecOn generalizing state with
  | ind size ih =>
    by_cases stuck : ∀ action, kind action → step state action = none
    · exact ⟨[], state, by simp, rfl, start, stuck⟩
    · push Not at stuck
      obtain ⟨action, allowed, enabled⟩ := stuck
      obtain ⟨next, taken⟩ := Option.ne_none_iff_exists'.mp enabled
      have smaller := lowers state action next allowed start taken
      obtain ⟨actions, final, kinds, ran, kept, done⟩ :=
        ih (measure next) (by omega) next (preserved state action next allowed start taken) rfl
      refine ⟨action :: actions, final, ?_, (run_cons_iff step).mpr ⟨next, taken, ran⟩, kept, done⟩
      intro other member
      rcases List.mem_cons.mp member with rfl | later
      · exact allowed
      · exact kinds other later

/-- Where a step that lowers a measure is always at hand, such steps lead to the
goal. The other steps may raise it. -/
theorem descend {β : Type*} {lower : β → β → Prop} (founded : WellFounded lower) (step : σ → α → Option σ) (kind : α → Prop)
    {holds goal : σ → Prop} (measure : σ → β) (progress : ∀ state, holds state → ¬ goal state →
      ∃ action next, kind action ∧ step state action = some next ∧ holds next ∧ lower (measure next) (measure state))
    (state : σ) (start : holds state) :
    ∃ actions final, (∀ action ∈ actions, kind action) ∧ run step state actions = some final ∧ holds final ∧ goal final := by
  induction bound : measure state using founded.induction generalizing state with
  | h value ih =>
    by_cases arrived : goal state
    · exact ⟨[], state, by simp, rfl, start, arrived⟩
    · obtain ⟨action, next, allowed, taken, kept, less⟩ := progress state start arrived
      obtain ⟨actions, final, kinds, ran, held, reached⟩ := ih (measure next) (bound ▸ less) next kept rfl
      exact ⟨action :: actions, final, List.forall_mem_cons.mpr ⟨allowed, kinds⟩,
        (run_cons_iff step).mpr ⟨next, taken, ran⟩, held, reached⟩

end Machine
