import NetworkSimulator.Proofs.FrozenClock
import NetworkSimulator.Proofs.LoopSteps

/-! What the steps of the world change in one connection, as far as the main loop
depends on it: the commands and timers of a machine, its clock, and the clocks
stored. Sockets and buffers are left open. -/

namespace NetworkSimulator.Simulator

namespace Connection
variable {monitor : Monitor} {connection next : Connection} {text : List Char}

/-- A command that is processed, before the reply. -/
def process (connection : Connection) : Command → List Command → Connection
  | .run_time_slice duration_ms, commands => { connection with commands }.qmp_run_time_slice duration_ms
  | _, commands => { connection with commands }

theorem execute_cases (executed : connection.execute monitor text = some next) :
    ∃ command commands socket lines, connection.commands = command :: commands ∧
      next = { connection.process command commands with socket, lines } := by
  unfold Connection.execute at executed
  split at executed
  next => cases executed
  all_goals
    next first =>
    obtain ⟨_, rfl⟩ := write_iff.mp executed
    exact ⟨_, _, _, _, first, rfl⟩

theorem stop_cases (stopped : connection.stop_vm_bh monitor text = some next) :
    ∃ expire_time timers socket lines, connection.timers = expire_time :: timers ∧ expire_time ≤ connection.virtual_clock_ns ∧
      next = { connection.halted timers with socket, lines } := by
  unfold Connection.stop_vm_bh at stopped
  split at stopped
  next => cases stopped
  next expire_time timers armed =>
    split at stopped
    next expired =>
      obtain ⟨_, rfl⟩ := write_iff.mp stopped
      exact ⟨expire_time, timers, _, _, armed, expired, rfl⟩
    next => cases stopped

theorem read_cases {count : Nat} (read : connection.read count = some next) :
    ∃ buffer socket, next = { connection with buffer, socket } := by
  unfold Connection.read at read
  split at read
  next => cases read
  next =>
    split at read
    next =>
      cases read
      exact ⟨_, _, rfl⟩
    next => cases read

theorem tick_asked (connection : Connection) (elapsed : Nat) : (connection.tick elapsed).asked = connection.asked := by
  unfold Connection.tick
  split <;> rfl

theorem read_line_cases {response : List Char} (read : connection.read_line = some (response, next)) :
    ∃ buffer lines, next = { connection with buffer, lines } := by
  obtain ⟨_, _, same⟩ := Option.bind_eq_some_iff.mp read
  cases same
  exact ⟨_, _, rfl⟩

end Connection

variable {VM_NUMBER : Nat} {monitor : Monitor} {links : Links VM_NUMBER}

namespace World
variable {world after : World VM_NUMBER} {i : Fin VM_NUMBER}

theorem goto_self (world : World VM_NUMBER) (i : Fin VM_NUMBER) (connection : Connection) (control : Control VM_NUMBER) :
    (world.goto i connection control).connections i = connection := Function.update_self ..

theorem goto_other (world : World VM_NUMBER) {i j : Fin VM_NUMBER} (connection : Connection) (control : Control VM_NUMBER) (other : j ≠ i) :
    (world.goto i connection control).connections j = world.connections j := Function.update_of_ne other ..

/-- Something that a change of one connection keeps is kept of all of them. -/
theorem goto_kept {α : Type} (part : Connection → α) {connection : Connection} (control : Control VM_NUMBER)
    (same : part connection = part (world.connections i)) (j : Fin VM_NUMBER) :
    part ((world.goto i connection control).connections j) = part (world.connections j) := by
  by_cases current : j = i
  · subst current
    rw [goto_self, same]
  · rw [goto_other world connection control current]

theorem Valid.elapse (valid : Valid monitor world) (ticks : Fin VM_NUMBER → Nat) : Valid monitor (world.elapse ticks) where
  ordered := valid.ordered
  connections i := (valid.connections i).tick (ticks i)
  clocks i := (valid.clocks i).trans (by rw [World.elapse, Connection.tick_stored])

/-- The line that the polling loop reads. -/
theorem line_receive (control : world.control = .receive i) (returned : world.line monitor = some after) :
    ∃ response connection stops_read, (world.connections i).read_line = some (response, connection) ∧
      after = world.goto i { connection with stops_read } (if isStopEvent response then .query i [] else .listen i) := by
  simp only [World.line, control, Control.reading, Option.bind_eq_bind, Option.bind_some, Option.bind_eq_some_iff] at returned
  obtain ⟨⟨response, connection⟩, read, returned⟩ := returned
  by_cases stop : isStopEvent response
  · rw [if_pos stop] at returned
    cases returned
    exact ⟨response, connection, _, read, by rw [if_pos stop]⟩
  · rw [if_neg stop] at returned
    cases returned
    exact ⟨response, connection, connection.stops_read, read, by rw [if_neg stop]⟩

/-- The line that is read behind the polling loop stores a clock, or nothing. -/
theorem line_answer {rest : List (Fin VM_NUMBER)} (control : world.control = .answer i rest) (returned : world.line monitor = some after) :
    ∃ response connection, (world.connections i).read_line = some (response, connection) ∧
      ((∃ time times_read, after = { world.goto i { connection with times_read, stored := connection.stored ++ [time] } (.awaitNext rest) with
          virtual_clocks_ns := Function.update world.virtual_clocks_ns i time }) ∨
        ∃ later, (later = .terminated ∨ later = .answer i rest) ∧ after = world.goto i connection later) := by
  simp only [World.line, control, Control.reading, Option.bind_eq_bind, Option.bind_some, Option.bind_eq_some_iff] at returned
  obtain ⟨⟨response, connection⟩, read, returned⟩ := returned
  refine ⟨response, connection, read, ?_⟩
  split at returned
  next =>
    split at returned
    next time _ =>
      cases returned
      exact Or.inl ⟨time, _, rfl⟩
    next =>
      cases returned
      exact Or.inr ⟨_, Or.inl rfl, rfl⟩
  next =>
    cases returned
    exact Or.inr ⟨_, Or.inr rfl, rfl⟩

theorem line_reads (returned : world.line monitor = some after) : world.control ≠ .choose := by
  intro control
  simp only [World.line, control, Control.reading, Option.bind_eq_bind, Option.bind_none, reduceCtorEq] at returned

/-- Whatever is not in the buffer or about the lines stays. -/
theorem line_kept {α : Type} (part : Connection → α) (free : ∀ (connection : Connection) buffer lines stops_read times_read stored,
      part { connection with buffer, lines, stops_read, times_read, stored } = part connection)
    (returned : world.line monitor = some after) (j : Fin VM_NUMBER) : part (after.connections j) = part (world.connections j) := by
  simp only [World.line, Option.bind_eq_bind, Option.bind_eq_some_iff] at returned
  obtain ⟨i, _, ⟨response, connection⟩, read, returned⟩ := returned
  obtain ⟨buffer, lines, rfl⟩ := Connection.read_line_cases read
  have kept stops_read times_read stored (control : Control VM_NUMBER) : part ((world.goto i { world.connections i with
      buffer, lines, stops_read, times_read, stored } control).connections j) = part (world.connections j) :=
    goto_kept part control (free _ _ _ _ _ _) j
  split at returned
  next =>
    cases returned
    apply kept
  next =>
    cases returned
    apply kept
  next =>
    split at returned <;> cases returned
    all_goals apply kept
  next =>
    split at returned <;> cases returned
    all_goals apply kept
  next first remaining _ =>
    split at returned
    next =>
      split at returned <;> cases returned
      · exact kept _ _ _ (.awaitNext remaining)
      · exact kept _ _ _ .terminated
    next =>
      cases returned
      apply kept
  next => cases returned

theorem line_asked (returned : world.line monitor = some after) (j : Fin VM_NUMBER) :
    (after.connections j).asked = (world.connections j).asked :=
  line_kept Connection.asked (fun _ _ _ _ _ _ => rfl) returned j

/-- The command in front of the polling loop. -/
theorem send_choose (control : world.control = .choose) (chosen : current_vm_index world.virtual_clocks_ns = some i)
    (sent : world.send links = some after) : ∃ duration, duration_to_run_ns links world.virtual_clocks_ns i = some duration ∧
      after = world.goto i ((world.connections i).send (.run_time_slice (commanded_duration_ms duration))) (.listen i) := by
  simp only [World.send, control, chosen, Option.bind_eq_bind, Option.bind_some, Option.bind_eq_some_iff, Option.some.injEq] at sent
  obtain ⟨duration, found, rfl⟩ := sent
  exact ⟨duration, found, rfl⟩

theorem send_query {rest : List (Fin VM_NUMBER)} (control : world.control = .query i rest) :
    world.send links = some (world.goto i ((world.connections i).send .get_virtual_clock_ns) (.answer i rest)) := by
  simp only [World.send, control]

/-- The dummy command of the polling loop. -/
theorem poll_cases (polled : world.poll = some after) : ∃ i, world.control = .listen i ∧
    after = world.goto i ((world.connections i).send .get_virtual_clock_ns) world.control := by
  unfold World.poll at polled
  split at polled
  next i control =>
    cases polled
    exact ⟨i, control, by rw [control]⟩
  next => cases polled

/-- During the boot slices a machine is asked for one slice. -/
theorem Valid.send_once (valid : Valid monitor world) (early : world.control ≠ .choose) (sent : world.send links = some after)
    (once : ∀ i, (world.connections i).asked ≤ 1) (j : Fin VM_NUMBER) :
    after.control ≠ .choose ∧ (after.connections j).asked ≤ 1 := by
  unfold World.send at sent
  split at sent
  next i rest control =>
    cases sent
    refine ⟨by simp [World.goto], ?_⟩
    calc _ = (world.connections j).asked := goto_kept Connection.asked _ (by rfl) j
      _ ≤ 1 := once j
  next i rest control =>
    cases sent
    refine ⟨by simp [World.goto], ?_⟩
    by_cases current : j = i
    · subst current
      have own := (valid.connections j).stage
      rw [control] at own
      simp only [Control.phase, true_or, if_true] at own
      rw [goto_self]
      change (world.connections j).asked + 1 ≤ 1
      rw [own.2]
    · rw [goto_other _ _ _ current]
      exact once j
  next i rest control =>
    cases sent
    refine ⟨by simp [World.goto], ?_⟩
    calc _ = (world.connections j).asked := goto_kept Connection.asked _ (by rfl) j
      _ ≤ 1 := once j
  next control => exact absurd control early
  next => cases sent

/-- The one clock stored is both the first and the last. -/
theorem Valid.stored_once (valid : Valid monitor world) (once : (world.connections i).asked ≤ 1) :
    world.virtual_clocks_ns i = (world.connections i).stored.headD 0 ∧ (world.connections i).stored.tail = [] := by
  have few : (world.connections i).stored.length ≤ 1 := by
    have clocks := valid.connections i |>.recorded.stored.length_le
    have begun := (valid.connections i).counted.begun
    have asked := (valid.connections i).counted.asked
    omega
  rw [valid.clocks i]
  match stored : (world.connections i).stored with
  | [] => exact ⟨rfl, rfl⟩
  | [time] => exact ⟨rfl, rfl⟩
  | first :: second :: rest =>
    rw [stored] at few
    simp at few

end World
end NetworkSimulator.Simulator
