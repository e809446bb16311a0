import NetworkSimulator.Library.Text
import NetworkSimulator.Proofs.LoopMeasure
import NetworkSimulator.Proofs.LoopProgress

/-! The simulator is never stuck. Wherever it stands, the monitors can answer what
it waits for, and one slice after the other comes to its end. -/

namespace NetworkSimulator.Simulator
variable {VM_NUMBER : Nat} {monitor : Monitor} {links : Links VM_NUMBER}

namespace Control

theorem awaitNext_seated (rest : List (Fin VM_NUMBER)) (i : Fin VM_NUMBER) : awaitNext rest ≠ .listen i ∧ awaitNext rest ≠ .receive i := by
  cases rest <;> exact ⟨by simp [awaitNext], by simp [awaitNext]⟩

theorem bootNext_seated (rest : List (Fin VM_NUMBER)) (i : Fin VM_NUMBER) : bootNext rest ≠ .listen i ∧ bootNext rest ≠ .receive i := by
  cases rest with
  | nil => exact awaitNext_seated _ i
  | cons j rest => exact ⟨by simp [bootNext], by simp [bootNext]⟩

theorem negotiateNext_seated (rest : List (Fin VM_NUMBER)) (i : Fin VM_NUMBER) :
    negotiateNext rest ≠ .listen i ∧ negotiateNext rest ≠ .receive i := by
  cases rest with
  | nil => exact bootNext_seated _ i
  | cons j rest => exact ⟨by simp [negotiateNext], by simp [negotiateNext]⟩

end Control

namespace World
variable {world after : World VM_NUMBER}

theorem send_seated (early : world.control ≠ .choose) (sent : world.send links = some after) (i : Fin VM_NUMBER) :
    after.control ≠ .listen i ∧ after.control ≠ .receive i := by
  unfold World.send at sent
  split at sent
  next => cases sent; exact ⟨by simp [World.goto], by simp [World.goto]⟩
  next => cases sent; exact ⟨by simp [World.goto], by simp [World.goto]⟩
  next => cases sent; exact ⟨by simp [World.goto], by simp [World.goto]⟩
  next control => exact absurd control early
  next => cases sent

/-- Only the line of an iteration leads back to its polling loop. -/
theorem line_seated (seated : ∀ i, world.control ≠ .listen i ∧ world.control ≠ .receive i) (returned : world.line monitor = some after)
    (i : Fin VM_NUMBER) : after.control ≠ .listen i ∧ after.control ≠ .receive i := by
  simp only [World.line, Option.bind_eq_bind, Option.bind_eq_some_iff] at returned
  obtain ⟨j, _, ⟨response, connection⟩, _, returned⟩ := returned
  split at returned
  next => cases returned; exact Control.negotiateNext_seated _ i
  next => cases returned; exact Control.bootNext_seated _ i
  next => split at returned <;> cases returned <;> exact ⟨by simp [World.goto], by simp [World.goto]⟩
  next first control => exact absurd control (seated first).2
  next =>
    split at returned
    next =>
      split at returned <;> cases returned
      · exact Control.awaitNext_seated _ i
      · exact ⟨by simp [World.goto], by simp [World.goto]⟩
    next => cases returned; exact ⟨by simp [World.goto], by simp [World.goto]⟩
  next => cases returned

/-- Time that passes for one machine. -/
theorem elapse_one (world : World VM_NUMBER) (i : Fin VM_NUMBER) (elapsed : Nat) :
    world.elapse (Function.update (fun _ => 0) i elapsed) = world.goto i ((world.connections i).tick elapsed) world.control := by
  have connections : (fun j => (world.connections j).tick (Function.update (fun _ => 0) i elapsed j)) =
      Function.update world.connections i ((world.connections i).tick elapsed) := by
    funext j
    by_cases same : j = i
    · subst same
      rw [Function.update_self, Function.update_self]
    · rw [Function.update_of_ne same, Function.update_of_ne same, Connection.tick_zero]
  rw [elapse, goto, connections]

end World

namespace MainLoop
variable {booted : Fin VM_NUMBER → Nat} {loop next : MainLoop VM_NUMBER} {event : Event VM_NUMBER}

/-- Only an iteration listens to a machine. -/
def Seated (loop : MainLoop VM_NUMBER) : Prop :=
  loop.underway = none → ∀ i, loop.world.control ≠ .listen i ∧ loop.world.control ≠ .receive i

theorem Seated.step (seated : loop.Seated) (taken : Step monitor links loop event next) : next.Seated := by
  cases taken with
  | @beside event action world allowed moved =>
    intro idle i
    obtain ⟨_, _, rfl | ⟨same, _⟩⟩ := beside_kept allowed moved
    · have early : loop.world.control ≠ .choose := by
        rcases allowed with ⟨_, early⟩ | ⟨underway, current, _⟩
        · exact early
        · rw [current] at idle
          cases idle
      exact World.send_seated early moved i
    · change world.control ≠ .listen i ∧ world.control ≠ .receive i
      rw [same]
      exact seated idle i
  | elapse elapsed ticks => exact seated
  | begin idle control chosen found bound => exact fun none => nomatch none
  | command current pass sent => exact fun none => nomatch none
  | poll current pass tested => exact fun none => nomatch none
  | stress current pass sent => exact fun none => nomatch none
  | ready tap current pass selected => exact fun none => nomatch none
  | quiet tap current pass => exact fun none => nomatch none
  | boot idle returned => exact fun _ i => World.line_seated (seated idle) returned i
  | answer current pass read returned => exact fun none => nomatch none
  | clock current pass returned stored =>
    intro _ i
    rw [stored]
    exact ⟨by simp, by simp⟩
  | other current pass returned waiting =>
    intro idle
    change _ = none at idle
    rw [current] at idle
    cases idle
  | receive read current pass received => exact fun none => nomatch none
  | deliver current pass => exact fun none => nomatch none

/-- What makes the simulator go on. -/
structure Sound (monitor : Monitor) (links : Links VM_NUMBER) (loop : MainLoop VM_NUMBER) : Prop where
  valid : ∃ booted, Valid monitor links booted loop
  lively : loop.world.Lively
  seated : loop.Seated

theorem Sound.start (monitor : Monitor) (links : Links VM_NUMBER) (running : Fin VM_NUMBER → Bool) (virtual_clock_ns : Fin VM_NUMBER → Nat)
    (now : Nat) : Sound monitor links (start running virtual_clock_ns now) where
  valid := ⟨_, Valid.start monitor links running virtual_clock_ns now⟩
  lively := World.Lively.start running virtual_clock_ns
  seated _ := Control.negotiateNext_seated _

theorem Sound.step (documented : monitor.Documented) (sound : Sound monitor links loop) (taken : loop.step monitor links event = some next) :
    Sound monitor links next := by
  obtain ⟨booted, valid⟩ := sound.valid
  have cases := step_cases taken
  obtain ⟨later, kept, _⟩ := valid.step documented cases
  refine ⟨⟨later, kept⟩, ?_, sound.seated.step cases⟩
  have lively := sound.lively
  cases cases with
  | beside allowed moved => exact lively.step documented valid.world moved
  | elapse elapsed ticks => exact lively.elapse ticks
  | begin idle control chosen found bound => exact lively
  | command current pass sent => exact lively.send sent
  | poll current pass tested => exact lively
  | stress current pass sent => exact lively.poll sent
  | ready tap current pass selected => exact lively.ready selected
  | quiet tap current pass => exact lively
  | boot idle returned => exact lively.line documented valid.world returned
  | answer current pass read returned => exact lively.line documented valid.world returned
  | clock current pass returned stored => exact lively.line documented valid.world returned
  | other current pass returned waiting => exact lively.line documented valid.world returned
  | receive read current pass received => exact lively
  | deliver current pass => exact lively

/-- The slices that have begun. -/
def begun (loop : MainLoop VM_NUMBER) : Nat := loop.slices.length + loop.underway.elim 0 fun _ => 1

theorem begun_step (taken : loop.step monitor links event = some next) : loop.begun ≤ next.begun := by
  have stay {underway : Underway VM_NUMBER} (current : loop.underway = some underway) : loop.begun = loop.slices.length + 1 := by
    rw [begun, current, Option.elim_some]
  cases step_cases taken with
  | beside allowed moved => exact le_rfl
  | elapse elapsed ticks => exact le_rfl
  | begin idle control chosen found bound =>
    rw [begun, idle]
    exact Nat.le_succ _
  | command current pass sent => exact (stay current).le
  | poll current pass tested => exact (stay current).le
  | stress current pass sent => exact (stay current).le
  | ready tap current pass selected => exact (stay current).le
  | quiet tap current pass => exact (stay current).le
  | boot idle returned => exact le_rfl
  | answer current pass read returned => exact (stay current).le
  | @clock underway world current pass returned stored =>
    rw [stay current]
    change _ ≤ (loop.slices ++ [underway.slice _]).length + (none : Option (Underway VM_NUMBER)).elim 0 fun _ => 1
    rw [List.length_append]
    exact le_rfl
  | other current pass returned waiting => exact le_rfl
  | receive read current pass received => exact (stay current).le
  | deliver current pass => exact (stay current).le

end MainLoop

/-- The steps to the next line. -/
def Pass.rank : Pass → Nat
  | .receiving _ => 6
  | .delivering _ _ => 5
  | .polling => 4
  | .stressing => 3
  | .selecting => 2
  | .answering _ => 1
  | .starting | .stopped => 0

namespace MainLoop
variable {loop next : MainLoop VM_NUMBER}

def stage (loop : MainLoop VM_NUMBER) : Nat := loop.underway.elim 0 fun _ => loop.world.stage

/-- The work to be done. On the way to the last line of a slice there is none. -/
def toil (loop : MainLoop VM_NUMBER) : Nat := if loop.stage = 1 then 0 else loop.world.work

def rest (loop : MainLoop VM_NUMBER) : Nat := loop.world.unread + loop.underway.elim 0 (·.pass.rank)

def measure (loop : MainLoop VM_NUMBER) : Nat × Nat × Nat := (loop.stage, loop.toil, loop.rest)

def Lower : Nat × Nat × Nat → Nat × Nat × Nat → Prop := Prod.Lex (· < ·) (Prod.Lex (· < ·) (· < ·))

theorem lower_founded : WellFounded Lower := (Prod.lex Nat.lt_wfRel (Prod.lex Nat.lt_wfRel Nat.lt_wfRel)).wf

theorem lower_stage (less : next.stage < loop.stage) : Lower next.measure loop.measure := .left _ _ less

theorem lower_work (calm : loop.stage ≠ 1) (most : next.stage ≤ loop.stage) (less : next.world.work < loop.world.work) :
    Lower next.measure loop.measure := by
  rcases most.lt_or_eq with fewer | same
  · exact lower_stage fewer
  · have toil : next.toil < loop.toil := by
      rw [MainLoop.toil, MainLoop.toil, same, if_neg calm, if_neg calm]
      exact less
    rw [measure, measure, same]
    exact .right _ (.left _ _ toil)

theorem lower_rest (most : next.stage ≤ loop.stage) (work : next.stage ≠ 1 → next.world.work ≤ loop.world.work)
    (less : next.rest < loop.rest) : Lower next.measure loop.measure := by
  rcases most.lt_or_eq with fewer | same
  · exact lower_stage fewer
  · have toil : next.toil ≤ loop.toil := by
      by_cases last : next.stage = 1
      · rw [MainLoop.toil, if_pos last]
        exact Nat.zero_le _
      · rw [MainLoop.toil, MainLoop.toil, ← same, if_neg last, if_neg last]
        exact work last
    rw [measure, measure, same]
    rcases toil.lt_or_eq with fewer | equal
    · exact .right _ (.left _ _ fewer)
    · rw [equal]
      exact .right _ (.right _ less)

theorem stage_idle (idle : loop.underway = none) : loop.stage = 0 := by
  rw [stage, idle]
  rfl

theorem stage_underway {underway : Underway VM_NUMBER} (current : loop.underway = some underway) : loop.stage = loop.world.stage := by
  rw [stage, current]
  rfl

theorem stage_served (calm : loop.stage ≠ 1) (i : Fin VM_NUMBER) (connection : Connection) :
    ({ loop with world := loop.world.goto i connection loop.world.control } : MainLoop VM_NUMBER).stage ≤ loop.stage := by
  unfold stage at calm ⊢
  cases current : loop.underway with
  | none => exact le_rfl
  | some underway =>
    rw [current] at calm
    exact World.stage_served calm i connection

theorem stage_kept {i : Fin VM_NUMBER} {connection : Connection} (same : connection.Settled ↔ (loop.world.connections i).Settled) :
    ({ loop with world := loop.world.goto i connection loop.world.control } : MainLoop VM_NUMBER).stage = loop.stage := by
  unfold stage
  rw [World.stage_kept same]

/-- A step towards the next choice of a machine. -/
def Ahead (monitor : Monitor) (links : Links VM_NUMBER) (loop : MainLoop VM_NUMBER) : Prop :=
  ∃ event next, event.Paced ∧ loop.step monitor links event = some next ∧ Lower next.measure loop.measure

/-- As long as a monitor is busy it takes the next step, or time passes. -/
theorem ahead_busy (speaks : monitor.Speaks) (sound : Sound monitor links loop) (calm : loop.stage ≠ 1) {i : Fin VM_NUMBER}
    (busy : ¬ (loop.world.connections i).Quiet) : Ahead monitor links loop := by
  have served {action : Action VM_NUMBER} {connection : Connection} (less : connection.work < (loop.world.connections i).work)
      (taken : loop.world.step monitor links action = some (loop.world.goto i connection loop.world.control)) :
      ∃ next, loop.act monitor links action = some next ∧ Lower next.measure loop.measure :=
    ⟨_, Option.bind_eq_some_iff.mpr ⟨_, taken, rfl⟩, lower_work calm (stage_served calm i connection) (World.serve_work less)⟩
  by_cases commands : (loop.world.connections i).commands = []
  · have set : (loop.world.connections i).timers ≠ [] := fun none => busy ⟨commands, none⟩
    obtain ⟨expire_time, timers, armed⟩ := List.exists_cons_of_ne_nil set
    by_cases reached : expire_time ≤ (loop.world.connections i).virtual_clock_ns
    · obtain ⟨text, connection, stopped⟩ := Connection.stop_exists speaks armed reached
      have taken : loop.world.step monitor links (.stop i text) = some (loop.world.goto i connection loop.world.control) := by
        rw [World.step, stopped]
        rfl
      obtain ⟨next, acts, lower⟩ := served (Connection.stop_work stopped) taken
      exact ⟨.stop i text, next, trivial, acts, lower⟩
    · obtain ⟨booted, valid⟩ := sound.valid
      have single := (valid.world.connections i).stage.timers_le
      rw [armed] at single
      obtain rfl : timers = [] := List.length_eq_zero_iff.mp (Nat.le_zero.mp (Nat.le_of_succ_le_succ single))
      have less := Connection.tick_work (sound.lively.armed i set) armed (Nat.lt_of_not_le reached)
      refine ⟨.elapse (expire_time - (loop.world.connections i).virtual_clock_ns)
        (Function.update (fun _ => 0) i (expire_time - (loop.world.connections i).virtual_clock_ns)), _, fun j => ?_, rfl, ?_⟩
      · by_cases same : j = i
        · subst same
          rw [Function.update_self]
        · rw [Function.update_of_ne same]
          exact Nat.zero_le _
      · rw [World.elapse_one]
        exact lower_work calm (stage_served calm i _) (World.serve_work less)
  · obtain ⟨text, connection, executed⟩ := Connection.execute_exists speaks commands
    have taken : loop.world.step monitor links (.execute i text) = some (loop.world.goto i connection loop.world.control) := by
      rw [World.step, executed]
      rfl
    obtain ⟨next, acts, lower⟩ := served (Connection.execute_work executed) taken
    exact ⟨.execute i text, next, trivial, acts, lower⟩

variable (documented : monitor.Documented) (sound : Sound monitor links loop)

include sound in
/-- The reader waits for a line that has been written: it reads on, or returns it. -/
theorem ahead_reading {i : Fin VM_NUMBER} (reading : loop.world.control.reading = some i)
    (waiting : (loop.world.connections i).lines ≠ []) :
    Ahead monitor links loop ∨ (∃ response connection, (loop.world.connections i).read_line = some (response, connection)) ∧
      ∃ world, loop.world.line monitor = some world ∧ world.work ≤ loop.world.work ∧ world.unread + 6 = loop.world.unread := by
  obtain ⟨booted, valid⟩ := sound.valid
  rcases (valid.world.connections i).framed.reads waiting with ⟨response, connection, read⟩ | ⟨connection, read, work, unread, settled⟩
  · obtain ⟨world, returned⟩ : ∃ world, loop.world.line monitor = some world := World.line_exists reading read
    exact Or.inr ⟨⟨response, connection, read⟩, world, returned, World.line_measure reading waiting returned⟩
  · left
    have taken : loop.world.step monitor links (.read 1) = some (loop.world.goto i connection loop.world.control) := by
      simp only [World.step, World.read, reading, read, Option.bind_eq_bind, Option.bind_some]
    refine ⟨.read 1, _, trivial, Option.bind_eq_some_iff.mpr ⟨_, taken, rfl⟩, ?_⟩
    obtain ⟨same, less⟩ := World.read_measure work unread
    exact lower_rest (stage_kept settled).le (fun _ => same.le) (Nat.add_lt_add_right less _)

include sound in
/-- Outside an iteration `main` sends its commands and waits for their lines. -/
theorem ahead_idle (quiet : ∀ i, (loop.world.connections i).Quiet) (idle : loop.underway = none) (early : loop.world.control ≠ .choose) :
    Ahead monitor links loop := by
  obtain ⟨booted, valid⟩ := sound.valid
  have resting {next : MainLoop VM_NUMBER} (same : next.underway = none) : next.stage ≤ loop.stage := (stage_idle same).trans_le (Nat.zero_le _)
  have calm : loop.stage ≠ 1 := by
    rw [stage_idle idle]
    exact Nat.zero_ne_one
  have wait {i : Fin VM_NUMBER} (reading : loop.world.control.reading = some i) : Ahead monitor links loop := by
    rcases ahead_reading sound reading (valid.world.waiting sound.lively (quiet i) reading) with ahead | ⟨_, world, returned, work, unread⟩
    · exact ahead
    · refine ⟨.line, { loop with world, state := { loop.state with virtual_clocks_ns := world.virtual_clocks_ns } }, trivial, ?_, ?_⟩
      · simp only [step, line, idle, returned, Option.bind_eq_bind, Option.bind_some]
      · have less : world.unread < loop.world.unread := by omega
        exact lower_rest (resting idle) (fun _ => work) (Nat.add_lt_add_right less _)
  have command {world : World VM_NUMBER} (sent : loop.world.send links = some world) : Ahead monitor links loop := by
    refine ⟨.send, { loop with world }, trivial, ?_, lower_work calm (resting idle) (World.send_work early sent)⟩
    have acts : loop.act monitor links .send = some { loop with world } := Option.bind_eq_some_iff.mpr ⟨world, sent, rfl⟩
    change loop.send monitor links = _
    unfold send
    split
    next control => exact absurd control early
    next => exact acts
    next other =>
      rw [idle] at other
      cases other
  cases control : loop.world.control with
  | negotiate i rest => exact command (by rw [World.send, control])
  | boot i rest => exact command (by rw [World.send, control])
  | query i rest => exact command (World.send_query control)
  | negotiated i rest => exact wait (by rw [control]; rfl)
  | booted i rest => exact wait (by rw [control]; rfl)
  | await i rest => exact wait (by rw [control]; rfl)
  | answer i rest => exact wait (by rw [control]; rfl)
  | choose => exact absurd control early
  | listen i => exact absurd control (sound.seated idle i).1
  | receive i => exact absurd control (sound.seated idle i).2
  | terminated =>
    have ordered := valid.world.ordered
    rw [control] at ordered
    cases ordered

/-- Some machine bounds the slice, if only the one that is chosen. -/
theorem duration_exists (links : Links VM_NUMBER) (virtual_clocks_ns : Fin VM_NUMBER → Nat) (vm : Fin VM_NUMBER) :
    ∃ duration, duration_to_run_ns links virtual_clocks_ns vm = some duration := by
  by_cases several : 2 ≤ VM_NUMBER
  · exact duration_to_run_ns_exists several links virtual_clocks_ns vm
  · have inside := vm.isLt
    have listed : duration links virtual_clocks_ns vm vm ∈ durations_to_run_ns links virtual_clocks_ns vm :=
      List.mem_map_of_mem (List.mem_filter.mpr ⟨List.mem_finRange vm, decide_eq_true (Or.inr (by omega))⟩)
    exact Search.minElement_exists id (List.ne_nil_of_mem listed)

section
variable {underway : Underway VM_NUMBER} (current : loop.underway = some underway)

theorem rest_underway (current : loop.underway = some underway) : loop.rest = loop.world.unread + underway.pass.rank := by
  rw [rest, current]
  rfl

/-- A step of the iteration, and of its reader maybe. -/
theorem ahead_proceed (current : loop.underway = some underway) {event : Event VM_NUMBER} {later : Underway VM_NUMBER}
    {world : World VM_NUMBER} (taken : loop.step monitor links event = some (loop.proceed later world)) (paced : event.Paced)
    (stage : world.stage ≤ loop.world.stage) (work : world.stage ≠ 1 → world.work ≤ loop.world.work)
    (unread : world.unread + later.pass.rank < loop.world.unread + underway.pass.rank) : Ahead monitor links loop := by
  refine ⟨event, loop.proceed later world, paced, taken, lower_rest ?_ work ?_⟩
  · rw [stage_underway current]
    exact stage
  · rw [rest_underway current]
    exact unread

/-- The pass goes on while the world does not. -/
theorem ahead_pass (current : loop.underway = some underway) {event : Event VM_NUMBER} {later : Underway VM_NUMBER}
    (taken : loop.step monitor links event = some (loop.proceed later loop.world)) (paced : event.Paced)
    (less : later.pass.rank < underway.pass.rank) : Ahead monitor links loop :=
  ahead_proceed current taken paced le_rfl (fun _ => le_rfl) (Nat.add_lt_add_left less _)

include sound current in
theorem ahead_starting (pass : underway.pass = .starting) : Ahead monitor links loop := by
  obtain ⟨booted, valid⟩ := sound.valid
  obtain ⟨own, place, _⟩ := valid.underway underway current
  simp only [Underway.At, pass] at place
  have chosen := own.chosen
  rw [valid.clocks] at chosen
  obtain ⟨duration, found⟩ := duration_exists links loop.world.virtual_clocks_ns underway.current_vm_index
  have commands : ∃ world, loop.world.send links = some world := by
    simp only [World.send, place, chosen, found, Option.bind_eq_bind, Option.bind_some]
    exact ⟨_, rfl⟩
  obtain ⟨world, sent⟩ := commands
  refine ⟨.send, loop.proceed { underway with pass := .polling } world, trivial, ?_, lower_stage ?_⟩
  · simp only [step, send, current, pass, sent, Option.bind_eq_bind, Option.bind_some]
  · obtain ⟨_, _, rfl⟩ := World.send_choose place chosen sent
    have three : loop.stage = 3 := by rw [stage_underway current, World.stage, place]
    rw [three, stage_underway rfl]
    refine (World.stage_listening (Or.inl rfl)).trans_lt ?_
    split <;> decide

include sound current in
/-- The monitor of the machine finishes its slice before `main` listens. -/
theorem ahead_unsettled (speaks : monitor.Speaks) {i : Fin VM_NUMBER}
    (place : loop.world.control = .listen i ∨ loop.world.control = .receive i) (unsettled : ¬ (loop.world.connections i).Settled) :
    Ahead monitor links loop := by
  have calm : loop.stage ≠ 1 := by
    rw [stage_underway current, World.stage_listening place, if_neg unsettled]
    decide
  exact ahead_busy speaks sound calm (mt Connection.Quiet.settled unsettled)

section
variable (settled : (loop.world.connections underway.current_vm_index).Settled)
include sound current settled

/-- The dummy command is not waited for. -/
theorem ahead_stressing (pass : underway.pass = .stressing) : Ahead monitor links loop := by
  obtain ⟨booted, valid⟩ := sound.valid
  obtain ⟨_, place, _⟩ := valid.underway underway current
  simp only [Underway.At, pass] at place
  have sent : loop.world.poll = some (loop.world.goto underway.current_vm_index
      ((loop.world.connections underway.current_vm_index).send .get_virtual_clock_ns) loop.world.control) := by
    rw [World.poll, place]
  have taken : loop.step monitor links .send = some (loop.proceed { underway with pass := .selecting }
      (loop.world.goto underway.current_vm_index ((loop.world.connections underway.current_vm_index).send .get_virtual_clock_ns)
        loop.world.control)) := by
    simp only [step, send, current, pass, sent, Option.bind_eq_bind, Option.bind_some]
  have stage := World.stage_kept (Connection.settled_send (loop.world.connections underway.current_vm_index) .get_virtual_clock_ns rfl)
  have one := World.stage_settled (Or.inl place) settled
  apply ahead_proceed current taken trivial stage.le (absurd (stage.trans one))
  rw [pass]
  rw [World.send_unread]
  exact Nat.add_lt_add_left (Nat.lt_succ_self 2) _

include documented in
theorem ahead_selecting (pass : underway.pass = .selecting) : Ahead monitor links loop := by
  obtain ⟨booted, valid⟩ := sound.valid
  obtain ⟨_, place, _⟩ := valid.underway underway current
  simp only [Underway.At, pass] at place
  have readable := valid.world.readable documented sound.lively settled place
  have taken : loop.step monitor links (.select true false) = some (loop.proceed { underway with pass := .answering false }
      { loop.world with control := .receive underway.current_vm_index }) := by
    simp only [step, select, current, pass, World.ready, place, readable, if_false, if_true, Option.bind_eq_bind, Option.bind_some]
  have one := World.stage_settled (Or.inl place) settled
  have later : World.stage { loop.world with control := .receive underway.current_vm_index } = 1 :=
    World.stage_settled (Or.inr rfl) settled
  apply ahead_proceed current taken trivial (later.trans one.symm).le (absurd later)
  rw [pass]
  exact Nat.lt_succ_self _

theorem ahead_answering {tap : Bool} (pass : underway.pass = .answering tap) : Ahead monitor links loop := by
  obtain ⟨booted, valid⟩ := sound.valid
  obtain ⟨_, place, _⟩ := valid.underway underway current
  simp only [Underway.At, pass] at place
  have reading : loop.world.control.reading = some underway.current_vm_index := by rw [place]; rfl
  have waiting := valid.world.stopping settled place
  rcases ahead_reading sound reading waiting with ahead | ⟨⟨response, connection, read⟩, world, returned, work, unread⟩
  · exact ahead
  · have taken : loop.step monitor links .line = some (loop.proceed { underway with
        running := { underway.running with has_got_stop_event := underway.running.has_got_stop_event || isStopEvent response }
        pass := .tap (some (String.ofList response)) tap
        stop_time := if underway.running.has_got_stop_event || isStopEvent response then loop.now else underway.stop_time } world) := by
      simp only [step, line, current, pass, read, returned, Option.bind_eq_bind, Option.bind_some]
    -- The line outweighs the rest of the pass.
    have rest : (Pass.tap (some (String.ofList response)) tap).rank ≤ 6 := by
      cases tap
      · exact Nat.le_succ 5
      · exact le_rfl
    have stage : world.stage ≤ loop.world.stage := by
      rw [World.stage_settled (Or.inr place) settled]
      exact World.line_stage place settled returned
    apply ahead_proceed current taken trivial stage (fun _ => work)
    rw [pass]
    change world.unread + (Pass.tap (some (String.ofList response)) tap).rank < loop.world.unread + 1
    omega

end

theorem stage_stopped {i : Fin VM_NUMBER} (current : loop.underway = some underway)
    (place : loop.world.control = .query i [] ∨ loop.world.control = .answer i []) : loop.stage = 0 := by
  rw [stage_underway current]
  rcases place with query | answer
  · rw [World.stage, query]
  · rw [World.stage, answer]

include sound current in
theorem ahead_stopped (quiet : ∀ i, (loop.world.connections i).Quiet) (pass : underway.pass = .stopped) : Ahead monitor links loop := by
  obtain ⟨booted, valid⟩ := sound.valid
  obtain ⟨_, place, _⟩ := valid.underway underway current
  simp only [Underway.At, pass] at place
  have after (world : World VM_NUMBER) : ({ loop with world } : MainLoop VM_NUMBER).stage = world.stage := stage_underway current
  rcases place with query | answer
  · obtain ⟨world, sent, later⟩ : ∃ world, loop.world.send links = some world ∧ world.stage = 0 := ⟨_, World.send_query query, rfl⟩
    have early : loop.world.control ≠ .choose := by
      rw [query]
      simp
    have acts : loop.act monitor links .send = some { loop with world } := Option.bind_eq_some_iff.mpr ⟨world, sent, rfl⟩
    refine ⟨.send, { loop with world }, trivial, ?_, lower_work ?_ ?_ (World.send_work early sent)⟩
    · simpa only [step, send, current, pass] using acts
    · rw [stage_stopped current (Or.inl query)]
      exact Nat.zero_ne_one
    · rw [after, later]
      exact Nat.zero_le _
  · have reading : loop.world.control.reading = some underway.current_vm_index := by
      rw [answer]
      rfl
    have waiting := valid.world.waiting sound.lively (quiet _) reading
    rcases ahead_reading sound reading waiting with ahead | ⟨_, world, returned, work, unread⟩
    · exact ahead
    · have less : world.unread < loop.world.unread := by omega
      by_cases stored : world.control = .choose
      · refine ⟨.line, { loop with
          world
          state := underway.running.state.finish underway.current_vm_index (world.virtual_clocks_ns underway.current_vm_index)
          underway := none
          slices := loop.slices ++ [underway.slice (world.virtual_clocks_ns underway.current_vm_index)] }, trivial, ?_, ?_⟩
        · simp only [step, line, current, pass, returned, stored, Option.bind_eq_bind, Option.bind_some]
        · refine lower_rest (Nat.zero_le _) (fun _ => work) ?_
          rw [rest_underway current, pass]
          exact less
      · refine ⟨.line, { loop with world }, trivial, ?_, lower_rest ?_ (fun _ => work) (Nat.add_lt_add_right less _)⟩
        · simp only [step, line, current, pass, returned, Option.bind_eq_bind, Option.bind_some]
        · rw [after]
          obtain ⟨_, _, _, ⟨_, _, rfl⟩ | ⟨later, rfl | rfl, rfl⟩⟩ := World.line_answer answer returned
          · exact absurd rfl stored
          · exact Nat.zero_le _
          · exact Nat.zero_le _

include documented sound in
/-- Within an iteration the slice is waited for, the pass goes on, or the clock is
asked for. -/
theorem ahead_underway (speaks : monitor.Speaks) (current : loop.underway = some underway) : Ahead monitor links loop := by
  obtain ⟨booted, valid⟩ := sound.valid
  obtain ⟨_, place, _⟩ := valid.underway underway current
  have settle (listening : loop.world.control = .listen underway.current_vm_index ∨ loop.world.control = .receive underway.current_vm_index)
      (settled : (loop.world.connections underway.current_vm_index).Settled → Ahead monitor links loop) : Ahead monitor links loop := by
    by_cases ended : (loop.world.connections underway.current_vm_index).Settled
    · exact settled ended
    · exact ahead_unsettled sound current speaks listening ended
  cases pass : underway.pass with
  | starting => exact ahead_starting sound current pass
  | polling =>
    have taken : loop.step monitor links .poll = some (loop.proceed { underway with
        pass := if underway.overdue loop.now then .stressing else .selecting } loop.world) := by
      simp only [step, poll, current, pass, Option.bind_eq_bind, Option.bind_some]
    apply ahead_pass current taken trivial
    rw [pass]
    dsimp only
    split <;> decide
  | stressing =>
    simp only [Underway.At, pass] at place
    exact settle (Or.inl place) fun settled => ahead_stressing sound current settled pass
  | selecting =>
    simp only [Underway.At, pass] at place
    exact settle (Or.inl place) fun settled => ahead_selecting documented sound current settled pass
  | answering tap =>
    simp only [Underway.At, pass] at place
    exact settle (Or.inr place) fun settled => ahead_answering sound current settled pass
  | receiving qmp_line =>
    -- An empty read is no frame.
    have taken : loop.step monitor links (.receive (some [])) = some (loop.proceed { underway with
        pass := .delivering qmp_line (some (loop.now, some [])) } loop.world) := by
      simp only [step, receive, current, pass, Simulator.receive, dispatch, List.length_nil, Option.bind_eq_bind, Option.bind_some]
      rfl
    apply ahead_pass current taken trivial
    rw [pass]
    exact Nat.lt_succ_self 5
  | delivering qmp_line packet =>
    have taken : ∃ later, loop.step monitor links .deliver = some (loop.proceed later loop.world) ∧
        (later.pass = .stopped ∨ later.pass = .polling) := by
      simp only [step, deliver, current, pass, Option.bind_eq_bind, Option.bind_some]
      refine ⟨_, rfl, ?_⟩
      dsimp only
      split
      · exact Or.inl rfl
      · exact Or.inr rfl
    obtain ⟨later, taken, rest⟩ := taken
    apply ahead_pass current taken trivial
    rw [pass]
    rcases rest with stopped | polling
    · rw [stopped]
      exact Nat.succ_pos 4
    · rw [polling]
      exact Nat.lt_succ_self 4
  | stopped =>
    by_cases quiet : ∀ i, (loop.world.connections i).Quiet
    · exact ahead_stopped sound current quiet pass
    · obtain ⟨i, busy⟩ := not_forall.mp quiet
      simp only [Underway.At, pass] at place
      exact ahead_busy speaks sound (by rw [stage_stopped current place]; decide) busy

end

/-- From anywhere `main` comes back to where it chooses a machine, and no slice that
has begun is given up. -/
theorem chooses (documented : monitor.Documented) (speaks : monitor.Speaks) (sound : Sound monitor links loop) :
    ∃ more final, (∀ event ∈ more, event.Paced) ∧ Machine.run (step monitor links) loop more = some final ∧
      (Sound monitor links final ∧ loop.begun ≤ final.begun) ∧ final.underway = none ∧ final.world.control = .choose := by
  refine Machine.descend lower_founded (step monitor links) Event.Paced measure ?_ loop ⟨sound, le_rfl⟩
  intro state held elsewhere
  obtain ⟨sound, counted⟩ := held
  have ahead : Ahead monitor links state := by
    cases current : state.underway with
    | some underway => exact ahead_underway documented sound speaks current
    | none =>
      by_cases quiet : ∀ i, (state.world.connections i).Quiet
      · exact ahead_idle sound quiet current fun control => elsewhere ⟨current, control⟩
      · obtain ⟨i, busy⟩ := not_forall.mp quiet
        exact ahead_busy speaks sound (by rw [stage_idle current]; decide) busy
  obtain ⟨event, next, paced, taken, lower⟩ := ahead
  exact ⟨event, next, paced, taken, ⟨sound.step documented taken, counted.trans (begun_step taken)⟩, lower⟩

/-- One slice more. -/
theorem another_slice (documented : monitor.Documented) (speaks : monitor.Speaks) (positive : 0 < VM_NUMBER)
    (sound : Sound monitor links loop) : ∃ more final, (∀ event ∈ more, event.Paced) ∧
      Machine.run (step monitor links) loop more = some final ∧ Sound monitor links final ∧
      loop.slices.length < final.slices.length := by
  obtain ⟨before, choosing, pacedBefore, ranBefore, ⟨soundBefore, begunBefore⟩, idle, control⟩ := chooses documented speaks sound
  have vms : List.finRange VM_NUMBER ≠ [] := List.ne_nil_of_mem (List.mem_finRange (⟨0, positive⟩ : Fin VM_NUMBER))
  obtain ⟨vm, chosen⟩ := Search.minElement_exists choosing.state.virtual_clocks_ns vms
  obtain ⟨duration, found⟩ := duration_exists links choosing.state.virtual_clocks_ns vm
  have bound : end_of_time_slice_ns links choosing.state.virtual_clocks_ns vm =
      some (choosing.state.virtual_clocks_ns vm + duration) := by
    simp only [end_of_time_slice_ns, found, Option.bind_eq_bind, Option.bind_some]
  have starts : ∃ underway, choosing.step monitor links .begin = some { choosing with underway := some underway } := by
    simp only [step, begin, idle, control, current_vm_index, chosen, found, bound, Option.bind_eq_bind, Option.bind_some]
    exact ⟨_, rfl⟩
  obtain ⟨underway, taken⟩ := starts
  obtain ⟨after, final, pacedAfter, ranAfter, ⟨soundAfter, begunAfter⟩, done, _⟩ :=
    chooses documented speaks (soundBefore.step documented taken)
  refine ⟨before ++ .begin :: after, final, ?_, ?_, soundAfter, ?_⟩
  · exact List.forall_mem_append.mpr ⟨pacedBefore, List.forall_mem_cons.mpr ⟨trivial, pacedAfter⟩⟩
  · exact Machine.run_append ranBefore ((Machine.run_cons_iff (step monitor links)).mpr ⟨_, taken, ranAfter⟩)
  · have count : choosing.slices.length + 1 ≤ final.slices.length + 0 := by
      rwa [begun, begun, done] at begunAfter
    rw [begun, begun, idle] at begunBefore
    change _ ≤ choosing.slices.length + 0 at begunBefore
    omega

end MainLoop

/-- From every state that the simulator can reach among its monitors it can go on
to any number of slices more, while no machine runs faster than the host. -/
theorem never_stuck (documented : monitor.Documented) (speaks : monitor.Speaks) (positive : 0 < VM_NUMBER)
    {running : Fin VM_NUMBER → Bool} {virtual_clock_ns : Fin VM_NUMBER → Nat} {now : Nat} {events : List (Event VM_NUMBER)}
    {loop : MainLoop VM_NUMBER}
    (ran : Machine.run (MainLoop.step monitor links) (.start running virtual_clock_ns now) events = some loop) (count : Nat) :
    ∃ more final, (∀ event ∈ more, event.Paced) ∧ Machine.run (MainLoop.step monitor links) loop more = some final ∧
      loop.slices.length + count ≤ final.slices.length := by
  have sound : loop.Sound monitor links := by
    apply Machine.run_invariant (MainLoop.Sound monitor links) (MainLoop.Sound.start monitor links running virtual_clock_ns now) _ ran
    exact fun _ _ _ sound taken => sound.step documented taken
  suffices reached : ∃ more final, (∀ event ∈ more, event.Paced) ∧ Machine.run (MainLoop.step monitor links) loop more = some final ∧
      final.Sound monitor links ∧ loop.slices.length + count ≤ final.slices.length by
    obtain ⟨more, final, paced, ran, _, enough⟩ := reached
    exact ⟨more, final, paced, ran, enough⟩
  induction count with
  | zero => exact ⟨[], loop, by simp, rfl, sound, le_rfl⟩
  | succ count ih =>
    obtain ⟨more, middle, paced, ran, kept, enough⟩ := ih
    obtain ⟨last, final, pacedLast, ranLast, soundLast, another⟩ := MainLoop.another_slice documented speaks positive kept
    exact ⟨more ++ last, final, List.forall_mem_append.mpr ⟨paced, pacedLast⟩, Machine.run_append ran ranLast, soundLast, by omega⟩

def timeOpening : List Char := "\x7b\"return\": \x7b\"time\": ".toList

def timeEnd : List Char := "\x7d\x7d\r".toList

def timeReply (time : Nat) : List Char := timeOpening ++ (Nat.toDigits 10 time ++ timeEnd)

/-- QEMU as far as the simulator can tell, for clocks of any size. -/
def anyTime : Monitor where
  writes
    | .time time, text => text = timeReply time
    | .stop, text => text = stopEvent
    | .other, text => text = emptyReply
  get_time text := Nat.ofDigitChars 10 (text.filter Char.isDigit) 0

theorem timeReply_reply (time : Nat) : ('\n' ∉ timeReply time ∧ '\x00' ∉ timeReply time) ∧ isTimeReply (timeReply time) ∧
    ¬ isStopEvent (timeReply time) ∧ anyTime.get_time (timeReply time) = some time := by
  have decimal := Text.toDigits_isDigit time
  have plain {c : Char} (special : c.isDigit = false) (fixed : c ∉ timeOpening ++ timeEnd) : c ∉ timeReply time := by
    intro member
    rw [timeReply, List.mem_append, List.mem_append] at member
    rcases member with front | digit | back
    · exact fixed (List.mem_append_left _ front)
    · rw [decimal c digit] at special
      cases special
    · exact fixed (List.mem_append_right _ back)
  have within {word : List Char} (found : word <:+: timeOpening) : word <:+: timeReply time :=
    found.trans (List.prefix_append _ _).isInfix
  refine ⟨⟨plain rfl (by decide +kernel), plain rfl (by decide +kernel)⟩, ?_, ?_, ?_⟩
  · exact Bool.and_eq_true_iff.mpr ⟨decide_eq_true (within (by decide +kernel)), decide_eq_true (within (by decide +kernel))⟩
  · intro stop
    have inside : "STOP".toList <:+: timeReply time := of_decide_eq_true (Bool.and_eq_true_iff.mp stop).2
    have absent : 'S' ∉ timeReply time := plain rfl (by decide +kernel)
    exact absent (inside.subset (by decide +kernel))
  · have front : timeOpening.filter Char.isDigit = [] := by decide +kernel
    have back : timeEnd.filter Char.isDigit = [] := by decide +kernel
    have digits : (timeReply time).filter Char.isDigit = Nat.toDigits 10 time := by
      rw [timeReply, List.filter_append, List.filter_append, front, back, List.nil_append, List.append_nil]
      exact List.filter_eq_self.mpr decimal
    change some (Nat.ofDigitChars 10 ((timeReply time).filter Char.isDigit) 0) = some time
    rw [digits, Nat.ofDigitChars_ten_toDigits]

theorem anyTime_documented : anyTime.Documented := by
  constructor
  · intro kind text written
    cases kind with
    | time time =>
      obtain rfl := of_decide_eq_true written
      exact (timeReply_reply time).1
    | stop =>
      obtain rfl := of_decide_eq_true written
      decide +kernel
    | other =>
      obtain rfl := of_decide_eq_true written
      decide +kernel
  · intro text written
    obtain rfl := of_decide_eq_true written
    decide +kernel
  · intro time text written
    obtain rfl := of_decide_eq_true written
    exact (timeReply_reply time).2
  · intro text written
    obtain rfl := of_decide_eq_true written
    decide +kernel

theorem anyTime_speaks : anyTime.Speaks := by
  intro kind
  cases kind with
  | time time => exact ⟨timeReply time, decide_eq_true rfl⟩
  | stop => exact ⟨stopEvent, by rw [anyTime, decide_eq_true_eq]⟩
  | other => exact ⟨emptyReply, by rw [anyTime, decide_eq_true_eq]⟩

theorem never_stuck_three : ∃ more final, (∀ event ∈ more, event.Paced) ∧
    Machine.run (MainLoop.step anyTime tenApart) (.start (fun _ => false) (fun _ => 0) 5) more = some final ∧
      0 + 3 ≤ final.slices.length :=
  never_stuck anyTime_documented anyTime_speaks (by decide) (Machine.run_nil (MainLoop.step anyTime tenApart) _) 3

end NetworkSimulator.Simulator
