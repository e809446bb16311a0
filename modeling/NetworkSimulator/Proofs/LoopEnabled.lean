import NetworkSimulator.Proofs.LoopRefinement

/-! What keeps the simulator from waiting in vain: the line it waits for is on its
way or will be written, a timer is set only on a running machine, and while `select`
looks at the socket the buffer holds three characters at most. -/

namespace NetworkSimulator.Simulator

/-- QEMU has a text for every reply and every event. -/
def Monitor.Speaks (monitor : Monitor) : Prop := ∀ kind, ∃ text, monitor.writes kind text

namespace Connection
variable {monitor : Monitor} {connection next : Connection} {text : List Char}

/-- Some line is to come. -/
def Owes (connection : Connection) : Prop := connection.commands ≠ [] ∨ connection.lines ≠ []

/-- The reply to a `get-virtual-clock-ns` is to come. -/
def Reports (connection : Connection) : Prop :=
  .get_virtual_clock_ns ∈ connection.commands ∨ ∃ line ∈ connection.lines, ∃ time, line.kind = .time time

/-- A read takes no more than four characters, and none behind a newline. -/
def Trim (connection : Connection) : Prop := ∃ front back, connection.buffer = front ++ back ∧ '\n' ∉ front ∧ back.length ≤ 4

theorem trim_of_short (short : connection.buffer.length ≤ 3) : connection.Trim :=
  ⟨[], connection.buffer, rfl, List.not_mem_nil, by omega⟩

/-- What the side of the monitor keeps up. -/
structure Attends (connection next : Connection) : Prop where
  buffer : next.buffer = connection.buffer
  owes : connection.Owes → next.Owes
  reports : connection.Reports → next.Reports
  armed : (connection.timers ≠ [] → connection.running = true) → next.timers ≠ [] → next.running = true

theorem owes_written {lines : List Line} {line : Line} : lines ++ [line] ≠ [] :=
  List.append_ne_nil_of_right_ne_nil lines (List.cons_ne_nil line [])

/-- With a line more, unless the command was the one that is waited for. -/
theorem Reports.written (reports : connection.Reports) {line : Line} (commands : .get_virtual_clock_ns ∈ connection.commands →
      .get_virtual_clock_ns ∈ next.commands) (lines : next.lines = connection.lines ++ [line]) : next.Reports := by
  rcases reports with waiting | ⟨earlier, member, time, reports⟩
  · exact Or.inl (commands waiting)
  · refine Or.inr ⟨earlier, ?_, time, reports⟩
    rw [lines]
    exact List.mem_append_left _ member

theorem Attends.written {kind : Kind} (written : connection.write monitor kind text = some next) : connection.Attends next := by
  obtain ⟨_, rfl⟩ := write_iff.mp written
  exact ⟨rfl, fun _ => Or.inr owes_written, fun reports => reports.written id rfl, id⟩

theorem Attends.executed (executed : connection.execute monitor text = some next) : connection.Attends next := by
  unfold Connection.execute at executed
  split at executed
  next => cases executed
  next commands first =>
    obtain ⟨_, rfl⟩ := write_iff.mp executed
    refine ⟨rfl, fun _ => Or.inr owes_written, fun reports => reports.written (fun waiting => ?_) rfl, id⟩
    rw [first] at waiting
    exact (List.mem_cons.mp waiting).resolve_left (by simp)
  next duration_ms commands first =>
    obtain ⟨_, rfl⟩ := write_iff.mp executed
    refine ⟨rfl, fun _ => Or.inr owes_written, fun reports => reports.written (fun waiting => ?_) rfl, fun _ _ => rfl⟩
    rw [first] at waiting
    exact (List.mem_cons.mp waiting).resolve_left (by simp)
  next commands first =>
    obtain ⟨_, rfl⟩ := write_iff.mp executed
    exact ⟨rfl, fun _ => Or.inr owes_written, fun _ => Or.inr ⟨_, List.mem_append_right _ List.mem_cons_self, _, rfl⟩, id⟩

theorem Attends.stopped (stopped : connection.stop_vm_bh monitor text = some next) (single : connection.timers.length ≤ 1) :
    connection.Attends next := by
  unfold Connection.stop_vm_bh at stopped
  split at stopped
  next => cases stopped
  next expire_time timers armed =>
    split at stopped
    next =>
      rw [armed] at single
      have none : timers = [] := List.length_eq_zero_iff.mp (Nat.le_zero.mp (Nat.le_of_succ_le_succ single))
      obtain ⟨_, rfl⟩ := write_iff.mp stopped
      exact ⟨rfl, fun _ => Or.inr owes_written, fun reports => reports.written id rfl, fun _ more => absurd none more⟩
    next => cases stopped

theorem Attends.ticked (connection : Connection) (elapsed : Nat) : connection.Attends (connection.tick elapsed) := by
  unfold Connection.tick
  split
  · exact ⟨rfl, id, id, id⟩
  · exact ⟨rfl, id, id, id⟩

theorem Trim.read {count : Nat} (read : connection.read count = some next) : next.Trim := by
  unfold Connection.read at read
  split at read
  next => cases read
  next unfinished =>
    split at read
    next few =>
      cases read
      refine ⟨connection.buffer, _, rfl, unfinished, ?_⟩
      have taken := (List.takeWhile_sublist (p := (· ≠ '\x00')) (l := connection.socket.take count)).length_le
      have length := List.length_take_le count connection.socket
      omega
    next => cases read

/-- Behind the line that is taken there are three characters at most. -/
theorem Trim.read_line {response : List Char} (trim : connection.Trim) (read : connection.read_line = some (response, next)) :
    next.buffer.length ≤ 3 := by
  obtain ⟨⟨line, buffer⟩, found, same⟩ := Option.bind_eq_some_iff.mp read
  cases same
  obtain ⟨front, back, shape, unfinished, few⟩ := trim
  obtain ⟨split, _⟩ := Lines.first_split found
  rw [split] at shape
  obtain ⟨pending, _, rfl⟩ := Lines.newline_beyond unfinished shape
  rw [List.length_append, List.length_cons] at few
  change buffer.length ≤ 3
  omega

end Connection

variable {VM_NUMBER : Nat} {monitor : Monitor} {links : Links VM_NUMBER}

namespace Control

/-- Nothing else is waited for than a STOP, if anything. -/
def Plain : Control VM_NUMBER → Prop
  | .negotiated _ _ | .answer _ _ => False
  | _ => True

theorem awaitNext_plain (rest : List (Fin VM_NUMBER)) : (awaitNext rest).Plain := by
  cases rest <;> trivial

theorem bootNext_plain (rest : List (Fin VM_NUMBER)) : (bootNext rest).Plain := by
  cases rest with
  | nil => exact awaitNext_plain _
  | cons i rest => trivial

theorem negotiateNext_plain (rest : List (Fin VM_NUMBER)) : (negotiateNext rest).Plain := by
  cases rest with
  | nil => exact bootNext_plain _
  | cons i rest => trivial

end Control

namespace World
variable {world after : World VM_NUMBER} {i : Fin VM_NUMBER}

/-- What `main` waits for where it does not wait for a STOP. -/
def Answerable (world : World VM_NUMBER) : Prop :=
  match world.control with
  | .negotiated i _ => (world.connections i).Owes
  | .answer i _ => (world.connections i).Reports
  | _ => True

theorem answerable_of_plain (plain : world.control.Plain) : world.Answerable := by
  unfold Answerable
  cases control : world.control with
  | negotiated i rest =>
    rw [control] at plain
    cases plain
  | answer i rest =>
    rw [control] at plain
    cases plain
  | _ => trivial

structure Lively (world : World VM_NUMBER) : Prop where
  answerable : world.Answerable
  armed : ∀ i, (world.connections i).timers ≠ [] → (world.connections i).running = true
  trim : ∀ i, (world.connections i).Trim
  short : ∀ i, world.control.reading ≠ some i → (world.connections i).buffer.length ≤ 3

theorem Lively.start (running : Fin VM_NUMBER → Bool) (virtual_clock_ns : Fin VM_NUMBER → Nat) :
    Lively (World.start running virtual_clock_ns) where
  answerable := answerable_of_plain (Control.negotiateNext_plain _)
  armed _ set := absurd rfl set
  trim _ := Connection.trim_of_short (Nat.zero_le 3)
  short _ _ := Nat.zero_le 3

/-- The side of the monitors. -/
theorem Lively.attend (lively : world.Lively) (attends : ∀ j, (world.connections j).Attends (after.connections j))
    (control : after.control = world.control) : after.Lively where
  answerable := by
    have before := lively.answerable
    unfold Answerable at before ⊢
    rw [control]
    cases place : world.control with
    | negotiated i rest =>
      rw [place] at before
      exact (attends i).owes before
    | answer i rest =>
      rw [place] at before
      exact (attends i).reports before
    | _ => trivial
  armed j := (attends j).armed (lively.armed j)
  trim j := by
    obtain ⟨front, back, shape, rest⟩ := lively.trim j
    exact ⟨front, back, (attends j).buffer.trans shape, rest⟩
  short j apart := by
    rw [control] at apart
    rw [(attends j).buffer]
    exact lively.short j apart

theorem Lively.restored (lively : world.Lively) {virtual_clocks_ns : Fin VM_NUMBER → Nat} :
    Lively { world with virtual_clocks_ns } :=
  ⟨lively.answerable, lively.armed, lively.trim, lively.short⟩

theorem attends_goto {connection : Connection} {control : Control VM_NUMBER} (attends : (world.connections i).Attends connection)
    (j : Fin VM_NUMBER) : (world.connections j).Attends ((world.goto i connection control).connections j) := by
  by_cases same : j = i
  · subst same
    rwa [goto_self]
  · rw [goto_other _ _ _ same]
    exact ⟨rfl, id, id, id⟩

/-- The side of `main`: one connection, and the place. -/
theorem Lively.goto (lively : world.Lively) {connection : Connection} {control : Control VM_NUMBER}
    (answerable : (world.goto i connection control).Answerable) (timers : connection.timers = (world.connections i).timers)
    (running : connection.running = (world.connections i).running) (trim : connection.Trim)
    (short : control.reading ≠ some i → connection.buffer.length ≤ 3) (apart : ∀ j, j ≠ i → world.control.reading ≠ some j) :
    (world.goto i connection control).Lively where
  answerable := answerable
  armed j set := by
    by_cases same : j = i
    · subst same
      rw [goto_self] at set ⊢
      rw [timers] at set
      rw [running]
      exact lively.armed j set
    · rw [goto_other _ _ _ same] at set ⊢
      exact lively.armed j set
  trim j := by
    by_cases same : j = i
    · subst same
      rwa [goto_self]
    · rw [goto_other _ _ _ same]
      exact lively.trim j
  short j elsewhere := by
    by_cases same : j = i
    · subst same
      rw [goto_self]
      exact short elsewhere
    · rw [goto_other _ _ _ same]
      exact lively.short j (apart j same)

theorem Lively.elapse (lively : world.Lively) (ticks : Fin VM_NUMBER → Nat) : (world.elapse ticks).Lively :=
  lively.attend (fun j => .ticked (world.connections j) (ticks j)) rfl

theorem Lively.send (lively : world.Lively) (sent : world.send links = some after) : after.Lively := by
  have idle {i : Fin VM_NUMBER} (silent : world.control.reading = none) {command : Command} {control : Control VM_NUMBER}
      (answerable : (world.goto i ((world.connections i).send command) control).Answerable) :
      (world.goto i ((world.connections i).send command) control).Lively := by
    apply lively.goto answerable rfl rfl (lively.trim i)
    · intro _
      exact lively.short i (by rw [silent]; simp)
    · intro j _
      rw [silent]
      simp
  unfold World.send at sent
  split at sent
  next i rest control =>
    cases sent
    apply idle (by rw [control]; rfl)
    change ((world.goto i _ _).connections i).Owes
    rw [goto_self]
    exact Or.inl (List.append_ne_nil_of_right_ne_nil _ (List.cons_ne_nil _ _))
  next i rest control =>
    cases sent
    exact idle (by rw [control]; rfl) trivial
  next i rest control =>
    cases sent
    apply idle (by rw [control]; rfl)
    change ((world.goto i _ _).connections i).Reports
    rw [goto_self]
    exact Or.inl (List.mem_append_right _ List.mem_cons_self)
  next control =>
    simp only [Option.bind_eq_bind, Option.bind_eq_some_iff, Option.some.injEq] at sent
    obtain ⟨i, _, duration, _, rfl⟩ := sent
    exact idle (by rw [control]; rfl) trivial
  next => cases sent

theorem Lively.poll (lively : world.Lively) (polled : world.poll = some after) : after.Lively := by
  unfold World.poll at polled
  split at polled
  next i control =>
    cases polled
    have plain : (world.goto i ((world.connections i).send .get_virtual_clock_ns) (.listen i)).Answerable := trivial
    apply lively.goto plain rfl rfl (lively.trim i)
    · intro _
      exact lively.short i (by rw [control]; simp [Control.reading])
    · intro j _
      rw [control]
      simp [Control.reading]
  next => cases polled

theorem Lively.ready (lively : world.Lively) (selected : world.ready = some after) : after.Lively := by
  unfold World.ready at selected
  split at selected
  next i control =>
    split at selected
    next => cases selected
    next =>
      cases selected
      refine ⟨trivial, lively.armed, lively.trim, fun j _ => lively.short j ?_⟩
      rw [control]
      simp [Control.reading]
  next => cases selected

theorem Lively.read (lively : world.Lively) {count : Nat} (read : world.read count = some after) : after.Lively := by
  simp only [World.read, Option.bind_eq_bind, Option.bind_eq_some_iff, Option.some.injEq] at read
  obtain ⟨i, reading, connection, read, rfl⟩ := read
  have trim := Connection.Trim.read read
  obtain ⟨buffer, socket, rfl⟩ := Connection.read_cases read
  have answerable : (world.goto i { world.connections i with buffer, socket } world.control).Answerable := by
    have before := lively.answerable
    unfold Answerable at before ⊢
    cases control : world.control with
    | negotiated j rest =>
      rw [control] at before
      change ((world.goto i _ _).connections j).Owes
      by_cases same : j = i
      · subst same
        rw [goto_self]
        exact before
      · rwa [goto_other _ _ _ same]
    | answer j rest =>
      rw [control] at before
      change ((world.goto i _ _).connections j).Reports
      by_cases same : j = i
      · subst same
        rw [goto_self]
        exact before
      · rwa [goto_other _ _ _ same]
    | _ =>
      simp only [World.goto]
  apply lively.goto answerable rfl rfl trim
  · intro apart
    exact absurd reading apart
  · intro j other
    rw [reading]
    simpa using Ne.symm other

/-- A line that answers nothing leaves the answer to come. -/
theorem reports_tail {connection : Connection} {buffer : List Char} {line : Line} {rest : List Line} (reports : connection.Reports)
    (lines : connection.lines = line :: rest) (other : ∀ time, line.kind ≠ .time time) :
    Connection.Reports { connection with buffer, lines := rest } := by
  rcases reports with waiting | ⟨found, member, time, same⟩
  · exact Or.inl waiting
  · rw [lines] at member
    rcases List.mem_cons.mp member with rfl | later
    · exact absurd same (other time)
    · exact Or.inr ⟨found, later, time, same⟩

theorem Lively.line (documented : monitor.Documented) (lively : world.Lively) (valid : world.Valid monitor)
    (returned : world.line monitor = some after) : after.Lively := by
  simp only [World.line, Option.bind_eq_bind, Option.bind_eq_some_iff] at returned
  obtain ⟨i, reading, ⟨response, connection⟩, taken, returned⟩ := returned
  have few := (lively.trim i).read_line taken
  obtain ⟨buffer, line, rest, lines, rfl, rfl, allowed, _⟩ := (valid.connections i).framed.read_line documented taken
  have kept {stops_read times_read : List Line} {stored : List Nat} {control : Control VM_NUMBER}
      (answerable : (world.goto i { world.connections i with buffer, lines := rest, stops_read, times_read, stored } control).Answerable) :
      (world.goto i { world.connections i with buffer, lines := rest, stops_read, times_read, stored } control).Lively := by
    apply lively.goto answerable rfl rfl (Connection.trim_of_short few)
    · exact fun _ => few
    · intro j other
      rw [reading]
      simpa using Ne.symm other
  have plain {stops_read times_read : List Line} {stored : List Nat} {control : Control VM_NUMBER} (quiet : control.Plain) :
      (world.goto i { world.connections i with buffer, lines := rest, stops_read, times_read, stored } control).Lively :=
    kept (answerable_of_plain quiet)
  split at returned
  next =>
    cases returned
    exact plain (Control.negotiateNext_plain _)
  next =>
    cases returned
    exact plain (Control.bootNext_plain _)
  next =>
    split at returned
    · cases returned
      exact plain trivial
    · cases returned
      exact plain trivial
  next =>
    split at returned
    · cases returned
      exact plain trivial
    · cases returned
      exact plain trivial
  next first remaining control =>
    rw [control] at reading
    cases reading
    split at returned
    next =>
      split at returned
      · cases returned
        exact (plain (Control.awaitNext_plain remaining)).restored
      · cases returned
        exact plain trivial
    next other =>
      cases returned
      apply kept
      change ((world.goto i _ _).connections i).Reports
      rw [goto_self]
      have before := lively.answerable
      unfold Answerable at before
      rw [control] at before
      apply reports_tail before lines
      intro time reports
      have reply := documented.time_reply time line.text (reports ▸ allowed)
      exact other reply.1
  next => cases returned

/-- The invariant of all steps but those of time. -/
theorem Lively.step (documented : monitor.Documented) (lively : world.Lively) (valid : world.Valid monitor) {action : Action VM_NUMBER}
    (taken : world.step monitor links action = some after) : after.Lively := by
  cases action with
  | execute i text =>
    obtain ⟨connection, executed, rfl⟩ := Option.map_eq_some_iff.mp taken
    exact lively.attend (attends_goto (.executed executed)) rfl
  | event i text =>
    obtain ⟨connection, written, rfl⟩ := Option.map_eq_some_iff.mp taken
    exact lively.attend (attends_goto (.written written)) rfl
  | stop i text =>
    obtain ⟨connection, stopped, rfl⟩ := Option.map_eq_some_iff.mp taken
    exact lively.attend (attends_goto (.stopped stopped (valid.connections i).stage.timers_le)) rfl
  | tick i elapsed =>
    cases taken
    exact lively.attend (attends_goto (.ticked _ elapsed)) rfl
  | send => exact lively.send taken
  | poll => exact lively.poll taken
  | ready => exact lively.ready taken
  | read count => exact lively.read taken
  | line => exact lively.line documented valid taken

end World
end NetworkSimulator.Simulator
