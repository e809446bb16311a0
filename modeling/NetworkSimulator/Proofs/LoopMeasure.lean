import NetworkSimulator.Proofs.CommandedSlices
import NetworkSimulator.Proofs.LoopEnabled
import NetworkSimulator.Proofs.SliceRange
import Mathlib.Algebra.BigOperators.Fin

/-! What is left to do until `main` chooses a machine again. A monitor first processes
its commands and lets its timer expire; then its lines are read, one character after
the other, and `main` goes on. While it waits for a STOP that has been written, the
dummy commands that it sends on its way may stay where they are. -/

namespace NetworkSimulator.Simulator

namespace Connection
variable {monitor : Monitor} {connection next : Connection} {text : List Char}

/-- The work of the monitor. A command may become a timer that has yet to expire. -/
def work (connection : Connection) : Nat :=
  4 * connection.commands.length + 2 * connection.timers.length + connection.timers.countP (connection.virtual_clock_ns < ·)

/-- What is to be read. A line is worth more than what a pass does behind it. -/
def unread (connection : Connection) : Nat := 6 * connection.lines.length + connection.socket.length

/-- The monitor has nothing to do. -/
def Quiet (connection : Connection) : Prop := connection.commands = [] ∧ connection.timers = []

/-- The slices asked for are over, whatever else there is to do. -/
def Settled (connection : Connection) : Prop := connection.pending = 0 ∧ connection.timers = []

instance (connection : Connection) : Decidable connection.Settled := inferInstanceAs (Decidable (_ ∧ _))

theorem Quiet.settled (quiet : connection.Quiet) : connection.Settled := by
  refine ⟨?_, quiet.2⟩
  rw [pending, quiet.1, List.countP_nil]

theorem settled_send (connection : Connection) (command : Command) (plain : command.begins = false) :
    (connection.send command).Settled ↔ connection.Settled := by
  have same : (connection.send command).pending = connection.pending := by
    rw [pending, pending, List.countP_eq_length_filter, List.countP_eq_length_filter]
    exact congrArg List.length (begins_send connection plain)
  rw [Settled, Settled, same]
  rfl

/-- A STOP that is waited for has been written when the slice is over. -/
theorem Listening.written (listens : connection.Listening) (settled : connection.Settled) : 0 < stopsIn connection.lines := by
  have one := listens.one
  rw [settled.1, settled.2, List.length_nil] at one
  omega

theorem execute_work (executed : connection.execute monitor text = some next) : next.work < connection.work := by
  obtain ⟨command, commands, socket, lines, first, rfl⟩ := execute_cases executed
  have length : connection.commands.length = commands.length + 1 := congrArg List.length first
  cases command with
  | run_time_slice duration_ms =>
    have one : [delayed connection.virtual_clock_ns duration_ms].countP (connection.virtual_clock_ns < ·) ≤ 1 := List.countP_le_length
    change 4 * commands.length + 2 * (connection.timers ++ [_]).length +
      (connection.timers ++ [delayed connection.virtual_clock_ns duration_ms]).countP (connection.virtual_clock_ns < ·) < connection.work
    rw [List.countP_append, List.length_append, List.length_singleton, work]
    omega
  | qmp_capabilities =>
    change 4 * commands.length + 2 * connection.timers.length + connection.timers.countP (connection.virtual_clock_ns < ·) < connection.work
    rw [work]
    omega
  | get_virtual_clock_ns =>
    change 4 * commands.length + 2 * connection.timers.length + connection.timers.countP (connection.virtual_clock_ns < ·) < connection.work
    rw [work]
    omega

theorem stop_work (stopped : connection.stop_vm_bh monitor text = some next) : next.work < connection.work := by
  obtain ⟨expire_time, timers, socket, lines, armed, reached, rfl⟩ := stop_cases stopped
  change 4 * connection.commands.length + 2 * timers.length + timers.countP (connection.virtual_clock_ns < ·) < connection.work
  rw [work, armed, List.length_cons, List.countP_cons]
  omega

/-- A timer that is reached needs no more time. -/
theorem tick_work {expire_time : Nat} (running : connection.running = true) (timer : connection.timers = [expire_time])
    (ahead : connection.virtual_clock_ns < expire_time) :
    (connection.tick (expire_time - connection.virtual_clock_ns)).work < connection.work := by
  rw [tick, if_pos running]
  simp only [work, timer, List.countP_singleton, decide_eq_true_eq]
  rw [if_pos ahead, if_neg (by omega)]
  omega

theorem send_work (connection : Connection) (command : Command) : (connection.send command).work = connection.work + 4 := by
  change 4 * (connection.commands ++ [command]).length + 2 * connection.timers.length +
    connection.timers.countP (connection.virtual_clock_ns < ·) = connection.work + 4
  rw [List.length_append, List.length_singleton, work]
  omega

theorem tick_zero (connection : Connection) : connection.tick 0 = connection := by
  unfold tick
  split <;> rfl

theorem execute_exists (speaks : monitor.Speaks) (busy : connection.commands ≠ []) :
    ∃ text next, connection.execute monitor text = some next := by
  obtain ⟨command, commands, first⟩ := List.exists_cons_of_ne_nil busy
  have writes (kind : Kind) : ∃ text, monitor.writes kind text := speaks kind
  cases command with
  | qmp_capabilities =>
    obtain ⟨text, allowed⟩ := writes .other
    exact ⟨text, _, by simp only [execute, first, write, if_pos allowed]; rfl⟩
  | run_time_slice duration_ms =>
    obtain ⟨text, allowed⟩ := writes .other
    exact ⟨text, _, by simp only [execute, first, write, if_pos allowed]; rfl⟩
  | get_virtual_clock_ns =>
    obtain ⟨text, allowed⟩ := writes (.time connection.virtual_clock_ns)
    exact ⟨text, _, by simp only [execute, first, write, if_pos allowed]; rfl⟩

theorem stop_exists (speaks : monitor.Speaks) {expire_time : Nat} {timers : List Nat} (armed : connection.timers = expire_time :: timers)
    (reached : expire_time ≤ connection.virtual_clock_ns) : ∃ text next, connection.stop_vm_bh monitor text = some next := by
  obtain ⟨text, allowed⟩ := speaks .stop
  exact ⟨text, _, by simp only [stop_vm_bh, armed, if_pos reached, write, if_pos allowed]; rfl⟩

/-- A line that has been written and not taken is in the buffer, or there is
something to read. -/
theorem Framed.reads (framed : connection.Framed monitor) (waiting : connection.lines ≠ []) :
    (∃ response next, connection.read_line = some (response, next)) ∨
      ∃ next, connection.read 1 = some next ∧ next.work = connection.work ∧ next.unread < connection.unread ∧
        (next.Settled ↔ connection.Settled) := by
  by_cases whole : '\n' ∈ connection.buffer
  · obtain ⟨line, rest, found⟩ := Lines.first_exists whole
    exact Or.inl ⟨line, _, Option.bind_eq_some_iff.mpr ⟨(line, rest), found, rfl⟩⟩
  · right
    obtain ⟨line, lines, first⟩ := List.exists_cons_of_ne_nil waiting
    have ends : '\n' ∈ connection.buffer ++ connection.socket := by
      rw [framed.stream, first]
      simp [Lines.written]
    have coming : 1 ≤ connection.socket.length := List.length_pos_of_mem ((List.mem_append.mp ends).resolve_left whole)
    refine ⟨_, (if_neg whole).trans (if_pos ⟨le_rfl, by decide, coming⟩), rfl, ?_, Iff.rfl⟩
    simp only [unread, List.length_drop]
    omega

end Connection

variable {VM_NUMBER : Nat} {monitor : Monitor} {links : Links VM_NUMBER}

/-- The steps of `main` to the end of the slice, or of the boot slices. -/
def Control.rank : Control VM_NUMBER → Nat
  | .negotiate _ rest => 5 * VM_NUMBER + 2 * rest.length + 2
  | .negotiated _ rest => 5 * VM_NUMBER + 2 * rest.length + 1
  | .boot _ rest => 3 * VM_NUMBER + 2 * rest.length + 2
  | .booted _ rest => 3 * VM_NUMBER + 2 * rest.length + 1
  | .await _ rest => 3 * rest.length + 3
  | .query _ rest => 3 * rest.length + 2
  | .answer _ rest => 3 * rest.length + 1
  | .listen _ | .receive _ => 3
  | .choose | .terminated => 0

namespace Control

theorem awaitNext_rank (rest : List (Fin VM_NUMBER)) : (awaitNext rest).rank ≤ 3 * rest.length := by
  cases rest with
  | nil => exact le_rfl
  | cons i rest => exact le_rfl

theorem bootNext_rank (rest : List (Fin VM_NUMBER)) : (bootNext rest).rank ≤ 3 * VM_NUMBER + 2 * rest.length := by
  cases rest with
  | nil =>
    have first := awaitNext_rank (List.finRange VM_NUMBER)
    rwa [List.length_finRange] at first
  | cons i rest => exact le_rfl

theorem negotiateNext_rank (rest : List (Fin VM_NUMBER)) : (negotiateNext rest).rank ≤ 5 * VM_NUMBER + 2 * rest.length := by
  cases rest with
  | nil =>
    have first := bootNext_rank (List.finRange VM_NUMBER)
    rw [List.length_finRange] at first
    change (bootNext (List.finRange VM_NUMBER)).rank ≤ 5 * VM_NUMBER + 0
    omega
  | cons i rest => exact le_rfl

end Control

namespace World
variable {world after : World VM_NUMBER} {i : Fin VM_NUMBER}

def work (world : World VM_NUMBER) : Nat := 5 * world.control.rank + ∑ i, (world.connections i).work

def unread (world : World VM_NUMBER) : Nat := ∑ i, (world.connections i).unread

/-- A sum over the connections changes by what it changes at one of them. -/
theorem goto_sum (part : Connection → Nat) (world : World VM_NUMBER) (i : Fin VM_NUMBER) (connection : Connection)
    (control : Control VM_NUMBER) : ∑ j, part ((world.goto i connection control).connections j) + part (world.connections i) =
      ∑ j, part (world.connections j) + part connection := by
  have rest : ∑ j ∈ Finset.univ.erase i, part ((world.goto i connection control).connections j) =
      ∑ j ∈ Finset.univ.erase i, part (world.connections j) := by
    apply Finset.sum_congr rfl
    intro j member
    rw [goto_other world connection control (Finset.ne_of_mem_erase member)]
  have all := Finset.add_sum_erase Finset.univ (fun j => part (world.connections j)) (Finset.mem_univ i)
  have changed := Finset.add_sum_erase Finset.univ (fun j => part ((world.goto i connection control).connections j)) (Finset.mem_univ i)
  simp only [goto_self] at changed
  omega

theorem serve_work {connection : Connection} (less : connection.work < (world.connections i).work) :
    (world.goto i connection world.control).work < world.work := by
  have sum := goto_sum Connection.work world i connection world.control
  have same : (world.goto i connection world.control).control = world.control := rfl
  rw [work, work, same]
  omega

theorem read_measure {connection : Connection} (work : connection.work = (world.connections i).work)
    (less : connection.unread < (world.connections i).unread) :
    (world.goto i connection world.control).work = world.work ∧ (world.goto i connection world.control).unread < world.unread := by
  have engine := goto_sum Connection.work world i connection world.control
  have lines := goto_sum Connection.unread world i connection world.control
  have same : (world.goto i connection world.control).control = world.control := rfl
  rw [World.work, World.work, same, unread, unread]
  omega

/-- A command that is sent is not yet to be read. -/
theorem send_unread (world : World VM_NUMBER) (i : Fin VM_NUMBER) (command : Command) (control : Control VM_NUMBER) :
    (world.goto i ((world.connections i).send command) control).unread = world.unread := by
  have sum := goto_sum Connection.unread world i ((world.connections i).send command) control
  exact Nat.add_right_cancel sum

/-- A command is less work than the step of `main` behind it. -/
theorem send_work (early : world.control ≠ .choose) (sent : world.send links = some after) : after.work < world.work := by
  have command {i : Fin VM_NUMBER} {command : Command} {control : Control VM_NUMBER} (less : control.rank < world.control.rank) :
      (world.goto i ((world.connections i).send command) control).work < world.work := by
    have sum := goto_sum Connection.work world i ((world.connections i).send command) control
    have more := (world.connections i).send_work command
    change 5 * control.rank + _ < 5 * world.control.rank + _
    omega
  unfold World.send at sent
  split at sent
  next i rest control =>
    cases sent
    apply command
    rw [control]
    exact Nat.lt_succ_self _
  next i rest control =>
    cases sent
    apply command
    rw [control]
    exact Nat.lt_succ_self _
  next i rest control =>
    cases sent
    apply command
    rw [control]
    exact Nat.lt_succ_self _
  next control => exact absurd control early
  next => cases sent

theorem line_exists (reading : world.control.reading = some i) {response : List Char} {connection : Connection}
    (read : (world.connections i).read_line = some (response, connection)) : ∃ after, world.line monitor = some after := by
  simp only [World.line, reading, read, Option.bind_eq_bind, Option.bind_some]
  split
  next => exact ⟨_, rfl⟩
  next => exact ⟨_, rfl⟩
  next => split <;> exact ⟨_, rfl⟩
  next => split <;> exact ⟨_, rfl⟩
  next =>
    split
    next => split <;> exact ⟨_, rfl⟩
    next => exact ⟨_, rfl⟩
  next one two three four five =>
    cases control : world.control with
    | negotiated j rest => exact absurd control (one j rest)
    | booted j rest => exact absurd control (two j rest)
    | await j rest => exact absurd control (three j rest)
    | receive j => exact absurd control (four j)
    | answer j rest => exact absurd control (five j rest)
    | _ =>
      rw [control] at reading
      cases reading

/-- A line that is taken leads `main` on, or nowhere. -/
theorem line_measure (reading : world.control.reading = some i) (waiting : (world.connections i).lines ≠ [])
    (returned : world.line monitor = some after) : after.work ≤ world.work ∧ after.unread + 6 = world.unread := by
  simp only [World.line, reading, Option.bind_eq_bind, Option.bind_some, Option.bind_eq_some_iff] at returned
  obtain ⟨⟨response, connection⟩, read, returned⟩ := returned
  obtain ⟨⟨line, buffer⟩, _, same⟩ := Option.bind_eq_some_iff.mp read
  cases same
  have fewer : (world.connections i).lines.tail.length + 1 = (world.connections i).lines.length :=
    congrArg List.length (List.cons_head_tail waiting)
  have kept stops_read times_read stored {control : Control VM_NUMBER} (less : control.rank ≤ world.control.rank) :
      (world.goto i { world.connections i with buffer, lines := (world.connections i).lines.tail, stops_read, times_read, stored }
        control).work ≤ world.work ∧
      (world.goto i { world.connections i with buffer, lines := (world.connections i).lines.tail, stops_read, times_read, stored }
        control).unread + 6 = world.unread := by
    have engine := goto_sum Connection.work world i { world.connections i with
      buffer, lines := (world.connections i).lines.tail, stops_read, times_read, stored } control
    have lines := goto_sum Connection.unread world i { world.connections i with
      buffer, lines := (world.connections i).lines.tail, stops_read, times_read, stored } control
    change _ + Connection.work (world.connections i) = _ + Connection.work (world.connections i) at engine
    change _ + (6 * (world.connections i).lines.length + (world.connections i).socket.length) =
      _ + (6 * (world.connections i).lines.tail.length + (world.connections i).socket.length) at lines
    constructor
    · change 5 * control.rank + _ ≤ 5 * world.control.rank + _
      omega
    · rw [unread, unread]
      omega
  split at returned
  next first rest control =>
    cases returned
    apply kept
    rw [control]
    exact (Control.negotiateNext_rank rest).trans (Nat.le_succ _)
  next first rest control =>
    cases returned
    apply kept
    rw [control]
    exact (Control.bootNext_rank rest).trans (Nat.le_succ _)
  next first rest control =>
    split at returned <;> cases returned
    · apply kept
      rw [control]
      exact Nat.le_succ _
    · apply kept
      rw [control]
      exact le_rfl
  next first control =>
    split at returned <;> cases returned
    · apply kept
      rw [control]
      exact Nat.le_succ _
    · apply kept
      rw [control]
      exact le_rfl
  next first rest control =>
    split at returned
    next =>
      split at returned <;> cases returned
      · refine kept _ _ _ ?_
        rw [control]
        exact (Control.awaitNext_rank rest).trans (Nat.le_succ _)
      · exact kept _ _ _ (Nat.zero_le _)
    next =>
      cases returned
      apply kept
      rw [control]
      exact le_rfl
  next => cases returned

/-- What an iteration waits for: the command of its slice, the end of the slice, the
line that says so, and then what is left. -/
def stage (world : World VM_NUMBER) : Nat :=
  match world.control with
  | .choose => 3
  | .listen i | .receive i => if (world.connections i).Settled then 1 else 2
  | _ => 0

theorem stage_listening (place : world.control = .listen i ∨ world.control = .receive i) :
    world.stage = if (world.connections i).Settled then 1 else 2 := by
  rcases place with listen | receive
  · rw [stage, listen]
  · rw [stage, receive]

theorem stage_settled (place : world.control = .listen i ∨ world.control = .receive i) (settled : (world.connections i).Settled) :
    world.stage = 1 := by
  rw [stage_listening place, if_pos settled]

/-- A machine that is dealt with does not take an iteration back. -/
theorem stage_served (calm : world.stage ≠ 1) (i : Fin VM_NUMBER) (connection : Connection) :
    (world.goto i connection world.control).stage ≤ world.stage := by
  have served {j : Fin VM_NUMBER} (place : world.control = .listen j ∨ world.control = .receive j) :
      (world.goto i connection world.control).stage ≤ world.stage := by
    have after : (world.goto i connection world.control).stage = _ := stage_listening place
    rw [stage_listening place] at calm ⊢
    rw [after, if_neg fun settled => calm (if_pos settled)]
    split
    · exact Nat.le_succ 1
    · exact le_rfl
  cases control : world.control with
  | listen j => exact control ▸ served (Or.inl control)
  | receive j => exact control ▸ served (Or.inr control)
  | _ =>
    rw [stage, stage, control]
    exact le_rfl

theorem stage_kept {connection : Connection} (same : connection.Settled ↔ (world.connections i).Settled) :
    (world.goto i connection world.control).stage = world.stage := by
  have settled (j : Fin VM_NUMBER) : ((world.goto i connection world.control).connections j).Settled ↔ (world.connections j).Settled := by
    by_cases own : j = i
    · subst own
      rwa [goto_self]
    · rw [goto_other _ _ _ own]
  simp only [stage, settled]
  rfl

/-- The line that is read in a pass leads back to the polling loop or behind it. -/
theorem line_stage (place : world.control = .receive i) (settled : (world.connections i).Settled)
    (returned : world.line monitor = some after) : after.stage ≤ 1 := by
  obtain ⟨response, connection, stops_read, read, rfl⟩ := line_receive place returned
  obtain ⟨buffer, lines, rfl⟩ := Connection.read_line_cases read
  by_cases stop : isStopEvent response
  · rw [if_pos stop]
    exact Nat.zero_le 1
  · rw [if_neg stop]
    refine (stage_settled (Or.inl rfl) ?_).le
    rw [goto_self]
    exact settled

theorem lines_of_stops {lines : List Line} (stops : 0 < stopsIn lines) : lines ≠ [] := by
  rintro rfl
  exact absurd stops (Nat.lt_irrefl 0)

/-- The line of a slice that is over. -/
theorem Valid.stopping (valid : world.Valid monitor) (settled : (world.connections i).Settled) (control : world.control = .receive i) :
    (world.connections i).lines ≠ [] := by
  have own := (valid.connections i).stage
  rw [control] at own
  simp only [Control.phase, if_true] at own
  exact lines_of_stops (own.written settled)

/-- Where the monitors have done their part, what `main` waits for has been written. -/
theorem Valid.waiting (valid : world.Valid monitor) (lively : world.Lively) (quiet : (world.connections i).Quiet)
    (reading : world.control.reading = some i) : (world.connections i).lines ≠ [] := by
  have settled := quiet.settled
  obtain ⟨commands, timers⟩ := quiet
  have own := (valid.connections i).stage
  have answerable := lively.answerable
  unfold Answerable at answerable
  cases control : world.control with
  | negotiated j rest =>
    rw [control] at reading answerable
    cases reading
    exact answerable.resolve_left (not_not_intro commands)
  | booted j rest =>
    rw [control] at reading own
    cases reading
    simp only [Control.phase, if_true] at own
    obtain ⟨line, rest, same, _⟩ := own.2 settled.1
    rw [same]
    exact List.cons_ne_nil _ _
  | await j rest =>
    rw [control] at reading own
    cases reading
    simp only [Control.phase, true_or, if_true] at own
    exact lines_of_stops (own.written settled)
  | receive j =>
    rw [control] at reading
    cases reading
    exact valid.stopping settled control
  | answer j rest =>
    rw [control] at reading answerable
    cases reading
    rcases answerable with command | ⟨line, member, _⟩
    · rw [commands] at command
      cases command
    · exact List.ne_nil_of_mem member
  | _ =>
    rw [control] at reading
    cases reading

/-- What a STOP is written with does not fit into the rest of a line. -/
theorem Valid.readable (documented : monitor.Documented) (valid : world.Valid monitor) (lively : world.Lively)
    (settled : (world.connections i).Settled) (control : world.control = .listen i) : (world.connections i).socket ≠ [] := by
  have own := (valid.connections i).stage
  rw [control] at own
  simp only [Control.phase, if_true] at own
  obtain ⟨line, member, stop⟩ := List.countP_pos_iff.mp (own.written settled)
  have kind : line.kind = .stop := by simpa [Line.isStop] using stop
  have framed := (valid.connections i).framed
  have long : 4 ≤ line.text.length := by
    have event := (Line.isStopEvent_iff documented (framed.texts line member)).mpr kind
    unfold isStopEvent at event
    have inside : "STOP".toList <:+: line.text := of_decide_eq_true (Bool.and_eq_true_iff.mp event).2
    exact inside.length_le
  intro empty
  have short := lively.short i (by simp [control, Control.reading])
  have inside : (line.text ++ ['\n']).Sublist (Lines.written '\n' ((world.connections i).lines.map Line.text)) :=
    List.sublist_flatten_of_mem (List.mem_map_of_mem (List.mem_map_of_mem member))
  rw [← framed.stream, empty, List.append_nil] at inside
  have fits := inside.length_le
  rw [List.length_append] at fits
  omega

end World
end NetworkSimulator.Simulator
