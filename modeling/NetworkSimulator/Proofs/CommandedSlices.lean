import NetworkSimulator.Proofs.LoopWorld

/-! From the command of a slice to the clock that is stored: the command turns into
a timer, the timer into a STOP, and the machine stands still from then on. -/

namespace NetworkSimulator.Simulator

namespace Connection

/-- The slices among the commands not yet processed. -/
def begins (connection : Connection) : List Command := connection.commands.filter Command.begins

/-- A slice asked for at some clock is a command, then a timer, then over. -/
inductive Commanded (clock duration_ms : Nat) (connection : Connection) : Prop
  | sent (commands : connection.begins = [.run_time_slice duration_ms]) (timers : connection.timers = [])
      (still : connection.virtual_clock_ns = clock)
  | armed (commands : connection.begins = []) (timers : connection.timers = [delayed clock duration_ms])
  | expired (commands : connection.begins = []) (timers : connection.timers = [])
      (ran : delayed clock duration_ms ≤ connection.virtual_clock_ns)

/-- The machine itself, without what is on its way and what has been read. -/
def machine (connection : Connection) : List Command × List Nat × Nat × Bool × Nat :=
  (connection.begins, connection.timers, connection.virtual_clock_ns, connection.running, connection.slices)

/-- What can happen to a machine after its slice has been asked for. -/
inductive Serves (monitor : Monitor) (connection : Connection) : Connection → Prop
  | execute {text : List Char} {next : Connection} (executed : connection.execute monitor text = some next) : Serves monitor connection next
  | stop {text : List Char} {next : Connection} (stopped : connection.stop_vm_bh monitor text = some next) : Serves monitor connection next
  | other {next : Connection} (same : next.machine = connection.machine) : Serves monitor connection next

variable {monitor : Monitor} {connection next : Connection} {clock duration_ms : Nat}

theorem Serves.rest (monitor : Monitor) (connection : Connection) : connection.Serves monitor connection := .other rfl

theorem Serves.still (serves : connection.Serves monitor next) : next.virtual_clock_ns = connection.virtual_clock_ns := by
  cases serves with
  | execute executed =>
    obtain ⟨command, commands, socket, lines, _, rfl⟩ := execute_cases executed
    cases command <;> rfl
  | stop stopped =>
    obtain ⟨expire_time, timers, socket, lines, _, _, rfl⟩ := stop_cases stopped
    rfl
  | other same => exact congrArg (·.2.2.1) same

theorem begins_cons {command : Command} {commands : List Command} (first : connection.commands = command :: commands) :
    connection.begins = if command.begins then command :: commands.filter Command.begins else commands.filter Command.begins := by
  rw [begins, first, List.filter_cons]

theorem begins_send (connection : Connection) {command : Command} (plain : command.begins = false) :
    (connection.send command).begins = connection.begins := by
  change (connection.commands ++ [command]).filter Command.begins = _
  rw [List.filter_append, List.filter_singleton, plain]
  exact List.append_nil _

theorem Resting.begins (resting : connection.Resting) : connection.begins = [] := by
  have pending := resting.pending
  rw [Connection.pending, List.countP_eq_length_filter] at pending
  exact List.length_eq_zero_iff.mp pending

theorem sent_begins (connection : Connection) (duration_ms : Nat) (none : connection.begins = []) :
    (connection.send (.run_time_slice duration_ms)).begins = [.run_time_slice duration_ms] := by
  change (connection.commands ++ [_]).filter Command.begins = _
  rw [List.filter_append, ← begins, none]
  rfl

/-- Replies and other commands do not matter. -/
theorem Commanded.same (commanded : connection.Commanded clock duration_ms) (commands : next.begins = connection.begins)
    (timers : next.timers = connection.timers) (still : next.virtual_clock_ns = connection.virtual_clock_ns) :
    next.Commanded clock duration_ms := by
  cases commanded with
  | sent command none started => exact .sent (commands.trans command) (timers.trans none) (still.trans started)
  | armed none timer => exact .armed (commands.trans none) (timers.trans timer)
  | expired none gone ran => exact .expired (commands.trans none) (timers.trans gone) (ran.trans_eq still.symm)

theorem Commanded.execute (commanded : connection.Commanded clock duration_ms) {text : List Char}
    (executed : connection.execute monitor text = some next) : next.Commanded clock duration_ms := by
  obtain ⟨command, commands, socket, lines, first, rfl⟩ := execute_cases executed
  have split := begins_cons first
  cases command with
  | qmp_capabilities => exact commanded.same split.symm rfl rfl
  | get_virtual_clock_ns => exact commanded.same split.symm rfl rfl
  | run_time_slice other =>
    rw [show Command.begins (.run_time_slice other) = true from rfl, if_pos rfl] at split
    cases commanded with
    | sent command timers still =>
      -- The slice turns into a timer that counts from the clock it was asked for at.
      rw [split] at command
      obtain ⟨same, rest⟩ := List.cons.inj command
      cases same
      refine .armed rest ?_
      simp only [process, qmp_run_time_slice, timers, still, List.nil_append]
    | armed none _ =>
      rw [split] at none
      cases none
    | expired none _ _ =>
      rw [split] at none
      cases none

theorem Commanded.stop (commanded : connection.Commanded clock duration_ms) {text : List Char}
    (stopped : connection.stop_vm_bh monitor text = some next) : next.Commanded clock duration_ms := by
  obtain ⟨expire_time, rest, socket, lines, armed, reached, rfl⟩ := stop_cases stopped
  cases commanded with
  | armed commands timers =>
    rw [timers] at armed
    cases armed
    exact .expired commands rfl reached
  | sent _ timers _ =>
    rw [timers] at armed
    cases armed
  | expired _ timers _ =>
    rw [timers] at armed
    cases armed

theorem Commanded.serves (commanded : connection.Commanded clock duration_ms) (serves : connection.Serves monitor next) :
    next.Commanded clock duration_ms := by
  cases serves with
  | execute executed => exact commanded.execute executed
  | stop stopped => exact commanded.stop stopped
  | other same => exact commanded.same (congrArg (·.1) same) (congrArg (·.2.1) same) (congrArg (·.2.2.1) same)

theorem tick_clock (connection : Connection) (elapsed : Nat) : connection.virtual_clock_ns ≤ (connection.tick elapsed).virtual_clock_ns ∧
    (connection.tick elapsed).virtual_clock_ns ≤ connection.virtual_clock_ns + elapsed := by
  unfold Connection.tick
  split
  · exact ⟨Nat.le_add_right _ _, le_rfl⟩
  · exact ⟨le_rfl, Nat.le_add_right _ _⟩

theorem tick_stopped (stopped : connection.running = false) (elapsed : Nat) : connection.tick elapsed = connection := by
  rw [Connection.tick, stopped, if_neg Bool.false_ne_true]

theorem Commanded.tick (commanded : connection.Commanded clock duration_ms) (elapsed : Nat)
    (still : connection.timers = [] → connection.running = false) : (connection.tick elapsed).Commanded clock duration_ms := by
  cases commanded with
  | sent commands timers same =>
    rw [tick_stopped (still timers)]
    exact .sent commands timers same
  | armed commands timers =>
    refine .armed ?_ ?_
    · rw [← commands]
      unfold Connection.tick
      split <;> rfl
    · rw [← timers]
      unfold Connection.tick
      split <;> rfl
  | expired commands timers ran =>
    rw [tick_stopped (still timers)]
    exact .expired commands timers ran

/-- A machine at rest is past the end of its slice. -/
theorem Commanded.rested (commanded : connection.Commanded clock duration_ms) (pending : connection.pending = 0)
    (timers : connection.timers = []) : delayed clock duration_ms ≤ connection.virtual_clock_ns := by
  cases commanded with
  | sent commands _ _ =>
    rw [Connection.pending, List.countP_eq_length_filter] at pending
    rw [begins] at commands
    rw [commands] at pending
    cases pending
  | armed _ armed =>
    rw [timers] at armed
    cases armed
  | expired _ _ ran => exact ran

end Connection

variable {VM_NUMBER : Nat} {monitor : Monitor} {links : Links VM_NUMBER}

namespace World
variable {world after : World VM_NUMBER} {action : Action VM_NUMBER} {i : Fin VM_NUMBER}

/-- What a step of the world does to machine `j`. Only `stop_vm_bh` takes a timer away. -/
inductive Treats (monitor : Monitor) (world : World VM_NUMBER) (j : Fin VM_NUMBER) : Action VM_NUMBER → Connection → Prop
  | serve {action : Action VM_NUMBER} {next : Connection} (serves : (world.connections j).Serves monitor next)
      (asked : next.asked = (world.connections j).asked)
      (timers : (∃ text, action = .stop j text) ∨ (world.connections j).timers ⊆ next.timers) : Treats monitor world j action next
  | tick (elapsed : Nat) : Treats monitor world j (.tick j elapsed) ((world.connections j).tick elapsed)
  | boot {rest : List (Fin VM_NUMBER)} (control : world.control = .boot j rest) :
      Treats monitor world j .send ((world.connections j).send (.run_time_slice 10000))
  | command (duration : Nat) (control : world.control = .choose) :
      Treats monitor world j .send ((world.connections j).send (.run_time_slice duration))

/-- A step serves a machine, lets its time pass, or commands its next slice. -/
theorem step_machine (taken : world.step monitor links action = some after) (j : Fin VM_NUMBER) :
    Treats monitor world j action (after.connections j) := by
  have other {action : Action VM_NUMBER} {i : Fin VM_NUMBER} {connection : Connection} (control : Control VM_NUMBER)
      (own : j = i → Treats monitor world j action connection) :
      Treats monitor world j action ((world.goto i connection control).connections j) := by
    by_cases same : j = i
    · have treats := own same
      subst same
      rwa [goto_self]
    · rw [goto_other _ _ _ same]
      exact .serve (.rest monitor _) rfl (Or.inr (List.Subset.refl _))
  have plain {action : Action VM_NUMBER} {i : Fin VM_NUMBER} {command : Command} (control : Control VM_NUMBER)
      (begins : command.begins = false) :
      Treats monitor world j action ((world.goto i ((world.connections i).send command) control).connections j) := by
    refine other control fun same => ?_
    subst same
    refine .serve (.other ?_) ?_ (Or.inr (List.Subset.refl _))
    · rw [Connection.machine, Connection.begins_send _ begins]
      rfl
    · cases command with
      | run_time_slice duration => cases begins
      | _ => rfl
  cases action with
  | execute i text =>
    obtain ⟨connection, executed, rfl⟩ := Option.map_eq_some_iff.mp taken
    obtain ⟨command, commands, socket, lines, _, same⟩ := Connection.execute_cases executed
    refine other _ fun own => ?_
    subst own
    refine .serve (.execute executed) ?_ (Or.inr ?_)
    · rw [same]
      cases command <;> rfl
    · rw [same]
      cases command with
      | run_time_slice duration => exact List.subset_append_left _ _
      | _ => exact List.Subset.refl _
  | event i text =>
    obtain ⟨connection, written, rfl⟩ := Option.map_eq_some_iff.mp taken
    obtain ⟨_, rfl⟩ := Connection.write_iff.mp written
    refine other _ fun own => ?_
    subst own
    exact .serve (.other rfl) rfl (Or.inr (List.Subset.refl _))
  | stop i text =>
    obtain ⟨connection, stopped, rfl⟩ := Option.map_eq_some_iff.mp taken
    obtain ⟨expire_time, timers, socket, lines, _, _, same⟩ := Connection.stop_cases stopped
    refine other _ fun own => ?_
    subst own
    refine .serve (.stop stopped) ?_ (Or.inl ⟨text, rfl⟩)
    rw [same]
    rfl
  | tick i elapsed =>
    cases taken
    refine other _ fun own => ?_
    subst own
    exact .tick elapsed
  | read count =>
    simp only [World.step, World.read, Option.bind_eq_bind, Option.bind_eq_some_iff, Option.some.injEq] at taken
    obtain ⟨i, _, connection, read, rfl⟩ := taken
    obtain ⟨buffer, socket, rfl⟩ := Connection.read_cases read
    refine other _ fun own => ?_
    subst own
    exact .serve (.other rfl) rfl (Or.inr (List.Subset.refl _))
  | poll =>
    obtain ⟨i, _, rfl⟩ := poll_cases taken
    exact plain _ rfl
  | ready =>
    simp only [World.step, World.ready] at taken
    split at taken
    next => split at taken <;> cases taken; exact .serve (.rest monitor _) rfl (Or.inr (List.Subset.refl _))
    next => cases taken
  | line =>
    refine .serve (.other (line_kept Connection.machine (fun _ _ _ _ _ _ => rfl) taken j)) (line_asked taken j) (Or.inr ?_)
    rw [line_kept Connection.timers (fun _ _ _ _ _ _ => rfl) taken j]
    exact List.Subset.refl _
  | send =>
    simp only [World.step, World.send] at taken
    split at taken
    next =>
      cases taken
      exact plain _ rfl
    next i rest control =>
      cases taken
      refine other _ fun own => ?_
      subst own
      exact .boot control
    next =>
      cases taken
      exact plain _ rfl
    next control =>
      simp only [Option.bind_eq_bind, Option.bind_eq_some_iff, Option.some.injEq] at taken
      obtain ⟨i, _, duration, _, rfl⟩ := taken
      refine other _ fun own => ?_
      subst own
      exact .command _ control
    next => cases taken

theorem poll_serves (polled : world.poll = some after) (j : Fin VM_NUMBER) :
    (world.connections j).Serves monitor (after.connections j) := by
  obtain ⟨i, _, rfl⟩ := poll_cases polled
  by_cases same : j = i
  · subst same
    rw [goto_self]
    refine .other ?_
    rw [Connection.machine, Connection.begins_send _ rfl]
    rfl
  · rw [goto_other _ _ _ same]
    exact .rest monitor _

/-- Only time moves the clocks of the machines. -/
theorem step_clock (taken : world.step monitor links action = some after) (untimed : ∀ i elapsed, action ≠ .tick i elapsed)
    (j : Fin VM_NUMBER) : (after.connections j).virtual_clock_ns = (world.connections j).virtual_clock_ns := by
  have treats := step_machine taken j
  generalize after.connections j = next at treats ⊢
  cases treats with
  | serve serves asked timers => exact serves.still
  | tick elapsed => exact absurd rfl (untimed j elapsed)
  | boot control => rfl
  | command duration control => rfl

/-- A machine between two slices stands at the clock stored last. -/
theorem Valid.idle_clock (valid : world.Valid monitor) (idle : world.control.phase i = .idle) :
    world.virtual_clocks_ns i = (world.connections i).virtual_clock_ns := by
  have own := valid.connections i
  rw [idle] at own
  obtain ⟨rest, begun⟩ := own.stage
  obtain ⟨asked, frozen, settled⟩ := own.counted
  have clocks := rest.clocks
  have pending := rest.pending
  rw [rest.timers, List.length_nil] at frozen
  obtain ⟨_, last⟩ := settled (by omega) rest.timers
  have all : (world.connections i).stored = (world.connections i).frozen := own.recorded.stored.eq_of_length (by omega)
  rw [valid.clocks i, all, last, Option.getD_some]

/-- Once its timer is gone a machine that has begun a slice stands still. -/
theorem Valid.standing (valid : world.Valid monitor) (begun : (world.connections i).stored ≠ [])
    (timers : (world.connections i).timers = []) : (world.connections i).running = false := by
  obtain ⟨_, frozen, settled⟩ := (valid.connections i).counted
  have stored := (valid.connections i).recorded.stored.length_le
  have some_clock := List.length_pos_of_ne_nil begun
  exact (settled (by omega) timers).1

/-- A clock that is stored is the one its machine stands at. -/
theorem Valid.line_clock (valid : world.Valid monitor) (kept : after.Valid monitor) (returned : world.line monitor = some after)
    (j : Fin VM_NUMBER) :
    after.virtual_clocks_ns j = world.virtual_clocks_ns j ∨ after.virtual_clocks_ns j = (after.connections j).virtual_clock_ns := by
  by_cases answering : ∃ i rest, world.control = .answer i rest
  · obtain ⟨i, rest, control⟩ := answering
    have ordered := valid.ordered
    rw [control] at ordered
    obtain ⟨apart, _⟩ := List.nodup_cons.mp ordered
    obtain ⟨response, connection, _, ⟨time, times_read, rfl⟩ | ⟨later, _, rfl⟩⟩ := line_answer control returned
    · by_cases same : j = i
      · subst same
        right
        apply kept.idle_clock
        simp only [World.goto, Control.awaitNext_phase, apart, if_false]
      · exact Or.inl (Function.update_of_ne same ..)
    · exact Or.inl rfl
  · simp only [World.line, Option.bind_eq_bind, Option.bind_eq_some_iff] at returned
    obtain ⟨i, _, ⟨response, connection⟩, _, returned⟩ := returned
    left
    split at returned
    next => cases returned; rfl
    next => cases returned; rfl
    next => split at returned <;> cases returned <;> rfl
    next => split at returned <;> cases returned <;> rfl
    next first rest control => exact absurd ⟨first, rest, control⟩ answering
    next => cases returned

theorem send_clocks (sent : world.send links = some after) : after.virtual_clocks_ns = world.virtual_clocks_ns := by
  unfold World.send at sent
  split at sent
  next => cases sent; rfl
  next => cases sent; rfl
  next => cases sent; rfl
  next =>
    simp only [Option.bind_eq_bind, Option.bind_eq_some_iff, Option.some.injEq] at sent
    obtain ⟨i, _, duration, _, rfl⟩ := sent
    rfl
  next => cases sent

theorem send_stored (sent : world.send links = some after) (j : Fin VM_NUMBER) :
    (after.connections j).stored = (world.connections j).stored := by
  unfold World.send at sent
  split at sent
  next => cases sent; exact goto_kept Connection.stored _ (by rfl) j
  next => cases sent; exact goto_kept Connection.stored _ (by rfl) j
  next => cases sent; exact goto_kept Connection.stored _ (by rfl) j
  next =>
    simp only [Option.bind_eq_bind, Option.bind_eq_some_iff, Option.some.injEq] at sent
    obtain ⟨i, _, duration, _, rfl⟩ := sent
    exact goto_kept Connection.stored _ (by rfl) j
  next => cases sent

theorem ready_connections (selected : world.ready = some after) :
    after.connections = world.connections ∧ after.virtual_clocks_ns = world.virtual_clocks_ns := by
  unfold World.ready at selected
  split at selected
  next => split at selected <;> cases selected; exact ⟨rfl, rfl⟩
  next => cases selected

end World

end NetworkSimulator.Simulator
