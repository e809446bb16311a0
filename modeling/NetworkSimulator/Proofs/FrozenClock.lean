import NetworkSimulator.Library.Machine
import NetworkSimulator.Proofs.MonitorLines

/-! The clocks that the simulator stores. Whatever the order of its steps and
those of the monitors, the clock taken after a slice is the one the machine was
stopped at, and it comes from that slice. -/

namespace NetworkSimulator.Simulator

namespace Connection
variable {monitor : Monitor} {connection next : Connection} {phase : Phase}

/-! Steps of the simulator. -/

theorem Valid.send (valid : Valid monitor connection phase) (command : Command) (plain : command.begins = false) :
    Valid monitor (connection.send command) phase := by
  have same : (connection.commands ++ [command]).countP Command.begins = connection.pending := by
    rw [List.countP_append, List.countP_singleton, plain]
    rfl
  have sent := valid.commands same
  cases command with
  | qmp_capabilities => exact sent
  | run_time_slice duration_ms => cases plain
  | get_virtual_clock_ns => exact sent

/-- A slice is only asked for when nothing is left of the one before. -/
theorem Valid.send_slice (valid : Valid monitor connection phase) (rest : connection.Resting) (duration_ms : Nat) :
    Valid monitor (connection.send (.run_time_slice duration_ms)) .acking := by
  obtain ⟨clocks, stops, pending, timers, lines⟩ := rest
  have slice : (connection.send (.run_time_slice duration_ms)).pending = connection.pending + 1 := by
    rw [Connection.pending, Connection.send, List.countP_append]
    rfl
  refine ⟨{ valid.framed with }, ⟨?_, valid.counted.begun, valid.counted.settled⟩,
    { valid.recorded with }, ?_, ?_⟩
  · rw [slice]
    exact congrArg (· + 1) valid.counted.asked
  · refine ⟨congrArg (· + 1) clocks, congrArg (· + 1) stops, ?_, ?_, ?_⟩
    · rw [slice, pending]
      change 0 + 1 + connection.timers.length + stopsIn connection.lines = 1
      rw [timers, lines]
      rfl
    · intro line member stop
      rw [not_stop_of_stopsIn lines member] at stop
      cases stop
    · intro line member
      change line ∈ afterStop connection.lines at member
      rw [afterStop_nil lines] at member
      exact absurd member List.not_mem_nil
  · intro begun
    rw [slice] at begun
    cases begun

theorem Valid.listening (valid : Valid monitor connection .acking) : Valid monitor connection .listening :=
  { valid with stage := valid.stage.1 }

/-- No character on its way ends a C string. -/
theorem Framed.plain (documented : monitor.Documented) (framed : connection.Framed monitor) {char : Char}
    (member : char ∈ connection.socket) : char ≠ '\x00' := by
  have inside : char ∈ Lines.written '\n' (connection.lines.map Line.text) := by
    rw [← framed.stream]
    exact List.mem_append_right _ member
  obtain ⟨text, known, within⟩ := List.mem_flatMap.mp inside
  obtain ⟨line, present, rfl⟩ := List.mem_map.mp known
  intro zero
  subst zero
  rcases List.mem_append.mp within with printed | ending
  · exact (documented.one_line _ _ (framed.texts line present)).2 printed
  · exact absurd (List.mem_singleton.mp ending) (by decide)

theorem Valid.read (documented : monitor.Documented) (valid : Valid monitor connection phase) {count : Nat}
    (read : connection.read count = some next) : Valid monitor next phase := by
  unfold Connection.read at read
  split at read
  next => cases read
  next =>
    split at read
    next =>
      have whole : (connection.socket.take count).takeWhile (· ≠ '\x00') = connection.socket.take count :=
        List.takeWhile_eq_self_iff.mpr fun char member => by
          simpa using valid.framed.plain documented (List.mem_of_mem_take member)
      rw [whole] at read
      cases read
      refine ⟨⟨?_, valid.framed.texts⟩, { valid.counted with },
        { valid.recorded with }, ?_⟩
      · exact (Lines.arrived count).trans valid.framed.stream
      · have stage := valid.stage
        cases phase with
        | unbooted => exact ⟨{ stage.1 with }, stage.2⟩
        | acking => exact ⟨{ stage.1 with }, stage.2⟩
        | listening => exact { stage with }
        | querying => exact { stage with }
        | idle => exact ⟨{ stage.1 with }, stage.2⟩
    next => cases read

theorem read_stored {count : Nat} (read : connection.read count = some next) : next.stored = connection.stored := by
  unfold Connection.read at read
  split at read
  next => cases read
  next =>
    split at read
    next =>
      cases read
      rfl
    next => cases read

/-- What `read_line` returns is the text of the first line written and not yet taken. -/
theorem Framed.read_line (documented : monitor.Documented) (framed : connection.Framed monitor) {response : List Char}
    (read : connection.read_line = some (response, next)) : ∃ buffer line rest, connection.lines = line :: rest ∧
      next = { connection with buffer, lines := rest } ∧ response = line.text ∧ monitor.writes line.kind line.text ∧
      next.Framed monitor := by
  simp only [Connection.read_line, Option.bind_eq_bind, Option.bind_eq_some_iff] at read
  obtain ⟨⟨first, buffer⟩, found, same⟩ := read
  cases same
  have whole : ∀ text ∈ connection.lines.map Line.text, '\n' ∉ text := by
    intro text member
    obtain ⟨line, present, rfl⟩ := List.mem_map.mp member
    exact (documented.one_line _ _ (framed.texts line present)).1
  obtain ⟨others, split, stream⟩ := Lines.first_written whole framed.stream found
  obtain ⟨line, rest, lines, rfl, rfl⟩ := List.map_eq_cons_iff.mp split
  have texts := framed.texts
  rw [lines] at texts
  obtain ⟨allowed, later⟩ := List.forall_mem_cons.mp texts
  refine ⟨buffer, line, rest, lines, by rw [lines, List.tail_cons], rfl, allowed, ?_, ?_⟩
  · rw [lines, List.tail_cons]
    exact stream
  · rw [lines, List.tail_cons]
    exact later

section
variable {buffer : List Char} {line : Line} {rest : List Line} (lines : connection.lines = line :: rest)
include lines

theorem Resting.read_line (resting : connection.Resting) : Resting { connection with buffer, lines := rest } := by
  have none := resting.lines
  rw [lines, stopsIn_cons] at none
  exact { resting with lines := Nat.eq_zero_of_add_eq_zero_right none }

theorem Listening.read_line (listens : connection.Listening) (other : line.isStop = false) :
    Listening { connection with buffer, lines := rest } := by
  obtain ⟨clocks, stops, one, own, fresh⟩ := listens
  rw [lines] at one own fresh
  rw [stopsIn_cons, if_neg (by simp [other])] at one
  rw [afterStop_cons_other rest other] at fresh
  exact ⟨clocks, stops, one, (List.forall_mem_cons.mp own).2, fresh⟩

/-- The STOP that ends the loop is the one of the slice asked for last. -/
theorem Listening.stop (listens : connection.Listening) (stop : line.isStop) : line.slice = connection.asked ∧
    Querying { connection with buffer, lines := rest, stops_read := connection.stops_read ++ [line] } := by
  obtain ⟨clocks, stops, one, own, fresh⟩ := listens
  rw [lines] at one own fresh
  rw [stopsIn_cons, if_pos stop] at one
  rw [afterStop_cons_stop rest stop] at fresh
  have pending : connection.pending = 0 := by omega
  have timers : connection.timers = [] := List.length_eq_zero_iff.mp (by omega)
  have none : stopsIn rest = 0 := by omega
  refine ⟨(List.forall_mem_cons.mp own).1 stop, clocks, ?_, pending, timers, none, fresh⟩
  rw [List.length_append, List.length_singleton, stops]

theorem Querying.read_line (querying : connection.Querying) : Querying { connection with buffer, lines := rest } := by
  obtain ⟨clocks, stops, pending, timers, none, fresh⟩ := querying
  rw [lines] at none fresh
  rw [stopsIn_cons] at none
  exact ⟨clocks, stops, pending, timers, Nat.eq_zero_of_add_eq_zero_right none, (List.forall_mem_cons.mp fresh).2⟩

/-- The clock that is stored is the one of the last STOP. -/
theorem Querying.time (querying : connection.Querying) (counted : connection.Counted) {time : Nat} (reports : line.kind = .time time) :
    line.slice = connection.asked ∧ connection.frozen.getLast? = some time ∧ connection.frozen.length = connection.asked ∧
      Resting { connection with buffer, lines := rest, times_read := connection.times_read ++ [line], stored := connection.stored ++ [time] } := by
  obtain ⟨clocks, stops, pending, timers, none, fresh⟩ := querying
  obtain ⟨asked, begun, settled⟩ := counted
  rw [lines] at none fresh
  rw [stopsIn_cons] at none
  obtain ⟨rfl, own⟩ := (List.forall_mem_cons.mp fresh).1 time reports
  rw [timers, List.length_nil] at begun
  have last := (settled (by omega) timers).2
  refine ⟨own, last, by omega, ?_, stops, pending, timers, Nat.eq_zero_of_add_eq_zero_right none⟩
  rw [List.length_append, List.length_singleton, clocks]

end

/-- Only the stage looks at the lines. -/
theorem Valid.taken (valid : Valid monitor connection phase) {buffer : List Char} {rest : List Line} {later : Phase}
    (framed : Framed monitor { connection with buffer, lines := rest }) (stage : Stage { connection with buffer, lines := rest } later) :
    Valid monitor { connection with buffer, lines := rest } later where
  framed := framed
  counted := { valid.counted with }
  recorded := { valid.recorded with }
  stage := stage

theorem Recorded.stop (recorded : connection.Recorded) {line : Line} (stop : line.isStop)
    (own : line.slice = connection.stops_read.length + 1) : Recorded { connection with stops_read := connection.stops_read ++ [line] } := by
  refine ⟨?_, recorded.replies, recorded.values, recorded.stored⟩
  have kind : line.kind = .stop := by simpa [Line.isStop] using stop
  simp only [List.map_append, List.map_singleton, List.length_append, List.length_singleton, List.range'_1_concat, recorded.stops, kind, own]
  rw [Nat.add_comm]

theorem Recorded.time (recorded : connection.Recorded) {line : Line} {time : Nat} (reports : line.kind = .time time)
    (own : line.slice = connection.stored.length + 1) (last : connection.frozen.getLast? = some time)
    (next : connection.frozen.length = connection.stored.length + 1) :
    Recorded { connection with times_read := connection.times_read ++ [line], stored := connection.stored ++ [time] } := by
  have lengths : connection.times_read.length = connection.stored.length := by
    simpa using congrArg List.length recorded.values
  refine ⟨recorded.stops, ?_, ?_, ?_⟩
  · simp only [List.map_append, List.map_singleton, List.length_append, List.length_singleton, List.range'_1_concat, recorded.replies,
      own, lengths]
    rw [Nat.add_comm]
  · simp only [List.map_append, List.map_singleton, recorded.values, reports]
  · obtain ⟨front, same⟩ := List.getLast?_eq_some_iff.mp last
    have lengthsFront : connection.stored.length = front.length := by
      rw [same, List.length_append, List.length_singleton] at next
      omega
    have stored := recorded.stored
    rw [same] at stored
    have whole : connection.stored = front :=
      (List.prefix_of_prefix_length_le stored (List.prefix_append front [time]) lengthsFront.le).eq_of_length lengthsFront
    rw [same, whole]

end Connection

variable {VM_NUMBER : Nat}

namespace Control

/-- How far each connection is, by where `main` is. -/
def phase : Control VM_NUMBER → Fin VM_NUMBER → Phase
  | .negotiate _ _, _ | .negotiated _ _, _ => .unbooted
  | .boot i rest, j => if j = i ∨ j ∈ rest then .unbooted else .listening
  | .booted i rest, j => if j = i then .acking else if j ∈ rest then .unbooted else .listening
  | .await i rest, j => if j = i ∨ j ∈ rest then .listening else .idle
  | .query i rest, j | .answer i rest, j => if j = i then .querying else if j ∈ rest then .listening else .idle
  | .choose, _ | .terminated, _ => .idle
  | .listen i, j | .receive i, j => if j = i then .listening else .idle

/-- No loop comes to a machine twice, and `main` does not end. -/
def Ordered : Control VM_NUMBER → Prop
  | .boot i rest | .booted i rest | .await i rest | .query i rest | .answer i rest => (i :: rest).Nodup
  | .terminated => False
  | _ => True

theorem awaitNext_phase (rest : List (Fin VM_NUMBER)) (j : Fin VM_NUMBER) :
    (awaitNext rest).phase j = if j ∈ rest then .listening else .idle := by
  cases rest with
  | nil => rfl
  | cons i rest => simp only [awaitNext, phase, List.mem_cons]

theorem bootNext_phase (rest : List (Fin VM_NUMBER)) (j : Fin VM_NUMBER) :
    (bootNext rest).phase j = if j ∈ rest then .unbooted else .listening := by
  cases rest with
  | nil => simp only [bootNext, awaitNext_phase, List.mem_finRange, if_true, List.not_mem_nil, if_false]
  | cons i rest => simp only [bootNext, phase, List.mem_cons]

theorem negotiateNext_phase (rest : List (Fin VM_NUMBER)) (j : Fin VM_NUMBER) : (negotiateNext rest).phase j = .unbooted := by
  cases rest with
  | nil => simp only [negotiateNext, bootNext_phase, List.mem_finRange, if_true]
  | cons i rest => rfl

theorem awaitNext_ordered {rest : List (Fin VM_NUMBER)} (distinct : rest.Nodup) : (awaitNext rest).Ordered := by
  cases rest with
  | nil => trivial
  | cons i rest => exact distinct

theorem bootNext_ordered {rest : List (Fin VM_NUMBER)} (distinct : rest.Nodup) : (bootNext rest).Ordered := by
  cases rest with
  | nil => exact awaitNext_ordered (List.nodup_finRange VM_NUMBER)
  | cons i rest => exact distinct

theorem negotiateNext_ordered (rest : List (Fin VM_NUMBER)) : (negotiateNext rest).Ordered := by
  cases rest with
  | nil => exact bootNext_ordered (List.nodup_finRange VM_NUMBER)
  | cons i rest => trivial

end Control

namespace World
variable {monitor : Monitor} {links : Links VM_NUMBER} {world after : World VM_NUMBER} {i : Fin VM_NUMBER}

structure Valid (monitor : Monitor) (world : World VM_NUMBER) : Prop where
  ordered : world.control.Ordered
  connections : ∀ i, (world.connections i).Valid monitor (world.control.phase i)
  clocks : ∀ i, world.virtual_clocks_ns i = (world.connections i).stored.getLast?.getD 0

theorem Valid.start (monitor : Monitor) (running : Fin VM_NUMBER → Bool) (virtual_clock_ns : Fin VM_NUMBER → Nat) :
    Valid monitor (start running virtual_clock_ns) := by
  refine ⟨Control.negotiateNext_ordered _, fun i => ?_, fun i => rfl⟩
  rw [World.start, Control.negotiateNext_phase]
  exact Connection.Valid.initial monitor _ _

/-- One connection changes, and only its phase. -/
theorem Valid.goto (valid : Valid monitor world) {connection : Connection} {control : Control VM_NUMBER} (ordered : control.Ordered)
    (own : connection.Valid monitor (control.phase i)) (others : ∀ j, j ≠ i → control.phase j = world.control.phase j)
    (stored : connection.stored = (world.connections i).stored) : Valid monitor (world.goto i connection control) := by
  refine ⟨ordered, fun j => ?_, fun j => ?_⟩
  · by_cases same : j = i
    · subst same
      simpa only [World.goto, Function.update_self] using own
    · simp only [World.goto, Function.update_of_ne same, others j same]
      exact valid.connections j
  · by_cases same : j = i
    · subst same
      simpa only [World.goto, Function.update_self, stored] using valid.clocks j
    · simpa only [World.goto, Function.update_of_ne same] using valid.clocks j

theorem Valid.serve (valid : Valid monitor world) {connection : Option Connection} (served : world.serve i connection = some after)
    (kept : ∀ next, connection = some next → next.Valid monitor (world.control.phase i) ∧ next.stored = (world.connections i).stored) :
    Valid monitor after := by
  obtain ⟨next, found, rfl⟩ := Option.map_eq_some_iff.mp served
  obtain ⟨own, stored⟩ := kept next found
  exact valid.goto valid.ordered own (fun _ _ => rfl) stored

theorem Valid.send (valid : Valid monitor world) (sent : world.send links = some after) : Valid monitor after := by
  unfold World.send at sent
  split at sent
  next i rest control =>
    cases sent
    have own := (valid.connections i).send .qmp_capabilities rfl
    refine valid.goto trivial ?_ ?_ ?_
    · rwa [control] at own
    · exact fun j _ => by rw [control]; rfl
    · rfl
  next i rest control =>
    cases sent
    have ordered := valid.ordered
    have own := valid.connections i
    rw [control] at ordered own
    simp only [Control.phase, true_or, if_true] at own
    refine valid.goto ordered ?_ ?_ ?_
    · simp only [Control.phase, if_true]
      exact own.send_slice own.stage.1 _
    · intro j different
      simp only [control, Control.phase, different, if_false, false_or]
    · rfl
  next i rest control =>
    cases sent
    have ordered := valid.ordered
    have own := (valid.connections i).send .get_virtual_clock_ns rfl
    rw [control] at ordered own
    refine valid.goto ordered own ?_ ?_
    · exact fun j _ => by rw [control]; rfl
    · rfl
  next control =>
    simp only [Option.bind_eq_bind, Option.bind_eq_some_iff] at sent
    obtain ⟨i, _, duration, _, sent⟩ := sent
    cases sent
    have own := valid.connections i
    rw [control] at own
    refine valid.goto trivial ?_ ?_ ?_
    · simp only [Control.phase, if_true]
      exact (own.send_slice own.stage.1 _).listening
    · intro j different
      simp only [control, Control.phase, different, if_false]
    · rfl
  next => cases sent

theorem Valid.poll (valid : Valid monitor world) (polled : world.poll = some after) : Valid monitor after := by
  unfold World.poll at polled
  split at polled
  next i control =>
    cases polled
    have own := (valid.connections i).send .get_virtual_clock_ns rfl
    rw [control] at own
    refine valid.goto trivial own ?_ ?_
    · exact fun j _ => by rw [control]
    · rfl
  next => cases polled

theorem Valid.ready (valid : Valid monitor world) (selected : world.ready = some after) : Valid monitor after := by
  unfold World.ready at selected
  split at selected
  next i control =>
    split at selected
    next => cases selected
    next =>
      cases selected
      refine ⟨trivial, fun j => ?_, valid.clocks⟩
      have own := valid.connections j
      rwa [control] at own
  next => cases selected

variable (documented : monitor.Documented)
include documented

theorem Valid.read (valid : Valid monitor world) {count : Nat} (read : world.read count = some after) : Valid monitor after := by
  simp only [World.read, Option.bind_eq_bind, Option.bind_eq_some_iff] at read
  obtain ⟨i, _, next, taken, same⟩ := read
  cases same
  exact valid.goto valid.ordered ((valid.connections i).read documented taken) (fun _ _ => rfl) (Connection.read_stored taken)

/-- The loops that wait for a STOP event. -/
private theorem Valid.received (valid : Valid monitor world) {buffer : List Char} {line : Line} {rest : List Line}
    {remaining : List (Fin VM_NUMBER)} {control : Control VM_NUMBER} (lines : (world.connections i).lines = line :: rest)
    (allowed : monitor.writes line.kind line.text) (framed : Connection.Framed monitor { world.connections i with buffer, lines := rest })
    (waiting : world.control.phase i = .listening) (ordered : (i :: remaining).Nodup) (again : control.Ordered)
    (same : ∀ j, control.phase j = world.control.phase j) (others : ∀ j, j ≠ i → (Control.query i remaining).phase j = world.control.phase j)
    (returned : (if isStopEvent line.text then
        some (world.goto i { world.connections i with buffer, lines := rest, stops_read := (world.connections i).stops_read ++ [line] }
          (.query i remaining))
      else some (world.goto i { world.connections i with buffer, lines := rest } control)) = some after) : Valid monitor after := by
  have own := valid.connections i
  rw [waiting] at own
  by_cases stopped : isStopEvent line.text
  · rw [if_pos stopped] at returned
    cases returned
    have stop : line.isStop := by
      simpa [Line.isStop] using (Line.isStopEvent_iff documented allowed).mp stopped
    obtain ⟨asked, querying⟩ := Connection.Listening.stop lines own.stage stop
    have stops := own.stage.stops
    refine valid.goto ordered ⟨{ framed with }, { own.counted with }, ?_, ?_⟩ others rfl
    · have recorded := own.recorded.stop stop (by omega)
      exact { recorded with }
    · simp only [Control.phase, if_true]
      exact querying
  · rw [if_neg stopped] at returned
    cases returned
    have other : line.isStop = false := by
      simpa [Line.isStop] using mt (Line.isStopEvent_iff documented allowed).mpr stopped
    refine valid.goto again ?_ (fun j _ => same j) rfl
    rw [same i, waiting]
    exact own.taken framed (Connection.Listening.read_line lines own.stage other)

/-- The loops that wait for the clock. -/
private theorem Valid.answered (valid : Valid monitor world) {buffer : List Char} {line : Line} {rest : List Line}
    {remaining : List (Fin VM_NUMBER)} (lines : (world.connections i).lines = line :: rest)
    (allowed : monitor.writes line.kind line.text) (framed : Connection.Framed monitor { world.connections i with buffer, lines := rest })
    (control : world.control = .answer i remaining)
    (returned : (if isTimeReply line.text then
        match monitor.get_time line.text with
        | some virtual_end_time_ns =>
          some { world.goto i { world.connections i with
              buffer, lines := rest
              times_read := (world.connections i).times_read ++ [line]
              stored := (world.connections i).stored ++ [virtual_end_time_ns] } (.awaitNext remaining) with
            virtual_clocks_ns := Function.update world.virtual_clocks_ns i virtual_end_time_ns }
        | none => some (world.goto i { world.connections i with buffer, lines := rest } .terminated)
      else some (world.goto i { world.connections i with buffer, lines := rest } (.answer i remaining))) = some after) :
    Valid monitor after := by
  have own := valid.connections i
  have ordered := valid.ordered
  rw [control] at own ordered
  simp only [Control.phase, if_true] at own
  obtain ⟨apart, distinct⟩ := List.nodup_cons.mp ordered
  by_cases replied : isTimeReply line.text
  · obtain ⟨time, reports, parsed⟩ := (Line.isTimeReply_iff documented allowed).mp replied
    rw [if_pos replied, parsed] at returned
    cases returned
    obtain ⟨asked, last, begun, resting⟩ := Connection.Querying.time lines own.stage own.counted reports
    have clocks := own.stage.clocks
    have recorded := own.recorded.time reports (by omega) last (by omega)
    refine ⟨Control.awaitNext_ordered distinct, fun j => ?_, fun j => ?_⟩
    · by_cases same : j = i
      · subst same
        simp only [World.goto, Function.update_self, Control.awaitNext_phase, apart, if_false]
        refine ⟨{ framed with }, { own.counted with },
          { recorded with }, resting, ?_⟩
        exact clocks ▸ Nat.le_add_left 1 _
      · have kept := valid.connections j
        simp only [control, Control.phase, same, if_false] at kept
        simpa only [World.goto, Function.update_of_ne same, Control.awaitNext_phase] using kept
    · by_cases same : j = i
      · subst same
        simp only [World.goto, Function.update_self, List.getLast?_concat, Option.getD_some]
      · simpa only [World.goto, Function.update_of_ne same] using valid.clocks j
  · rw [if_neg replied] at returned
    cases returned
    refine valid.goto ordered ?_ (fun _ _ => by rw [control]) rfl
    simp only [Control.phase, if_true]
    exact own.taken framed (Connection.Querying.read_line lines own.stage)

theorem Valid.line (valid : Valid monitor world) (returned : world.line monitor = some after) : Valid monitor after := by
  simp only [World.line, Option.bind_eq_bind, Option.bind_eq_some_iff] at returned
  obtain ⟨i, reading, ⟨response, next⟩, taken, returned⟩ := returned
  have own := valid.connections i
  have ordered := valid.ordered
  obtain ⟨buffer, line, rest, lines, rfl, rfl, allowed, framed⟩ := own.framed.read_line documented taken
  rw [lines, List.head?_cons, Option.toList_some] at returned
  rcases control : world.control with ⟨j, remaining⟩ | ⟨j, remaining⟩ | ⟨j, remaining⟩ | ⟨j, remaining⟩ | ⟨j, remaining⟩ |
    ⟨j, remaining⟩ | ⟨j, remaining⟩ | _ | j | j | _
  all_goals
    rw [control] at reading returned ordered own
    cases reading
  · -- The reply to the negotiation, or the greeting before it.
    cases returned
    have kept : Connection.Valid monitor { world.connections i with buffer, lines := rest } .unbooted :=
      own.taken framed ⟨Connection.Resting.read_line lines own.stage.1, own.stage.2⟩
    refine valid.goto (Control.negotiateNext_ordered remaining) ?_ ?_ rfl
    · rwa [Control.negotiateNext_phase]
    · intro j _
      rw [Control.negotiateNext_phase, control]
      rfl
  · -- A line in front of the STOP of the boot slice.
    cases returned
    obtain ⟨apart, distinct⟩ := List.nodup_cons.mp ordered
    simp only [Control.phase, if_true] at own
    refine valid.goto (Control.bootNext_ordered distinct) ?_ ?_ rfl
    · rw [Control.bootNext_phase, if_neg apart]
      have other : line.isStop = false := by
        obtain ⟨listens, first⟩ := own.stage
        by_cases begun : (world.connections i).pending = 0
        · obtain ⟨front, others, same, plain⟩ := first begun
          rw [lines] at same
          exact (List.cons.inj same).1 ▸ plain
        · have one := listens.one
          exact not_stop_of_stopsIn (by omega) (lines ▸ List.mem_cons_self)
      exact own.taken framed (Connection.Listening.read_line lines own.stage.1 other)
    · intro j different
      rw [Control.bootNext_phase, control]
      simp only [Control.phase, different, if_false]
  · refine valid.received documented lines allowed framed ?_ ordered ordered ?_ ?_ returned
    · simp only [control, Control.phase, true_or, if_true]
    · exact fun j => by rw [control]
    · intro j different
      simp only [control, Control.phase, different, if_false, false_or]
  · exact valid.answered documented lines allowed framed control returned
  · refine valid.received documented lines allowed framed ?_ (List.nodup_singleton i) ?_ ?_ ?_ returned
    · simp only [control, Control.phase, if_true]
    · trivial
    · exact fun j => by rw [control]; rfl
    · intro j different
      simp only [control, Control.phase, different, if_false, List.not_mem_nil]

theorem Valid.step (valid : Valid monitor world) {action : Action VM_NUMBER} (taken : world.step monitor links action = some after) :
    Valid monitor after := by
  cases action with
  | execute i text =>
    exact valid.serve taken fun _ executed => ⟨(valid.connections i).execute executed, Connection.execute_stored executed⟩
  | event i text =>
    exact valid.serve taken fun _ written =>
      ⟨(valid.connections i).write (by simp) (fun _ reports => by cases reports) written, Connection.write_stored written⟩
  | stop i text =>
    exact valid.serve taken fun _ stopped => ⟨(valid.connections i).stop_vm_bh stopped, Connection.stop_stored stopped⟩
  | tick i elapsed =>
    apply valid.serve taken
    intro next ticked
    cases ticked
    exact ⟨(valid.connections i).tick elapsed, Connection.tick_stored _ elapsed⟩
  | send => exact valid.send taken
  | poll => exact valid.poll taken
  | ready => exact valid.ready taken
  | read count => exact valid.read documented taken
  | line => exact valid.line documented taken

end World

/-- What is known of the clock of one machine. The k-th clock stored is the one
frozen at the k-th STOP, and both were taken from lines of the k-th slice. -/
structure NeverStale (world : World VM_NUMBER) (i : Fin VM_NUMBER) : Prop where
  stops : (world.connections i).stops_read.map (fun line => (line.kind, line.slice)) =
    (List.range' 1 (world.connections i).stops_read.length).map fun slice => (Kind.stop, slice)
  replies : (world.connections i).times_read.map (fun line => line.slice) = List.range' 1 (world.connections i).times_read.length
  values : (world.connections i).times_read.map (fun line => line.kind) = (world.connections i).stored.map Kind.time
  stored : (world.connections i).stored <+: (world.connections i).frozen
  clock : world.virtual_clocks_ns i = (world.connections i).stored.getLast?.getD 0
  own : (world.connections i).frozen.length + (world.connections i).timers.length = (world.connections i).slices ∧
    (world.connections i).timers.length ≤ 1
  ended : world.control = .choose → 1 ≤ (world.connections i).slices ∧ (world.connections i).stored = (world.connections i).frozen ∧
    (world.connections i).frozen.length = (world.connections i).slices ∧ (world.connections i).running = false ∧
      world.virtual_clocks_ns i = (world.connections i).virtual_clock_ns

theorem Connection.Stage.timers_le {connection : Connection} {phase : Phase} (stage : connection.Stage phase) :
    connection.timers.length ≤ 1 := by
  have resting (rest : connection.Resting) : connection.timers.length ≤ 1 := by
    rw [rest.timers]
    exact Nat.zero_le 1
  have listening (listens : connection.Listening) : connection.timers.length ≤ 1 := by
    have one := listens.one
    omega
  cases phase with
  | unbooted => exact resting stage.1
  | acking => exact listening stage.1
  | listening => exact listening stage
  | querying =>
    rw [stage.timers]
    exact Nat.zero_le 1
  | idle => exact resting stage.1

theorem World.Valid.neverStale {monitor : Monitor} {world : World VM_NUMBER} (valid : world.Valid monitor) (i : Fin VM_NUMBER) :
    NeverStale world i := by
  have own := valid.connections i
  obtain ⟨asked, begun, settled⟩ := own.counted
  refine ⟨own.recorded.stops, own.recorded.replies, own.recorded.values, own.recorded.stored, valid.clocks i,
    ⟨begun, own.stage.timers_le⟩, ?_⟩
  intro control
  rw [control] at own
  obtain ⟨⟨clocks, _, pending, timers, _⟩, one⟩ := own.stage
  rw [timers, List.length_nil] at begun
  have all : (world.connections i).stored = (world.connections i).frozen :=
    own.recorded.stored.eq_of_length (by omega)
  obtain ⟨stopped, last⟩ := settled (by omega) timers
  refine ⟨by omega, all, begun, stopped, ?_⟩
  rw [valid.clocks i, all, last, Option.getD_some]

/-- In every interleaving of the simulator with its monitors, the clock stored for
a machine is the one it was frozen at, and no reply or event is taken for that of
another slice. The simulator never meets a reply it cannot read. -/
theorem clocks_never_stale {monitor : Monitor} (documented : monitor.Documented) (links : Links VM_NUMBER)
    (running : Fin VM_NUMBER → Bool) (virtual_clock_ns : Fin VM_NUMBER → Nat) (actions : List (Action VM_NUMBER)) (world : World VM_NUMBER)
    (ran : Machine.run (World.step monitor links) (World.start running virtual_clock_ns) actions = some world) :
    (∀ i, NeverStale world i) ∧ world.control ≠ .terminated := by
  have valid : world.Valid monitor :=
    Machine.run_invariant (World.Valid monitor) (World.Valid.start monitor running virtual_clock_ns)
      (fun _ _ _ prior taken => prior.step documented taken) ran
  refine ⟨valid.neverStale, fun ended => ?_⟩
  have ordered := valid.ordered
  rw [ended] at ordered
  exact ordered

/-- The lines that QEMU writes at a virtual clock of ten seconds and 7 ns. -/
private def tenSeconds : Monitor where
  writes
    | .time time, text => time = 10000000007 ∧ text = "\x7b\"return\": \x7b\"time\": 10000000007\x7d\x7d\r".toList
    | .stop, text => text = "\x7b\"timestamp\": \x7b\"seconds\": 1, \"microseconds\": 2\x7d, \"event\": \"STOP\"\x7d\r".toList
    | .other, text => text = "\x7b\"return\": \x7b\x7d\x7d\r".toList
  get_time text :=
    if text = "\x7b\"return\": \x7b\"time\": 10000000007\x7d\x7d\r".toList then some 10000000007 else none

private theorem tenSeconds_documented : tenSeconds.Documented := by
  constructor
  · intro kind text written
    cases kind with
    | time time =>
      obtain ⟨_, rfl⟩ := of_decide_eq_true written
      decide +kernel
    | stop =>
      obtain rfl := of_decide_eq_true written
      decide +kernel
    | other =>
      obtain rfl := of_decide_eq_true written
      decide +kernel
  · intro text written
    obtain rfl := of_decide_eq_true written
    decide +kernel
  · intro time text written
    obtain ⟨rfl, rfl⟩ := of_decide_eq_true written
    decide +kernel
  · intro text written
    obtain rfl := of_decide_eq_true written
    decide +kernel

/-- `read_line` of a line with so many characters, four at a time. -/
private def takes (length : Nat) : List (Action 1) :=
  List.flatten [List.replicate (length / 4) (.read 4), if length % 4 = 0 then [] else [.read (length % 4)], [.line]]

/-- The boot slice and one more slice of a single machine. In the second one a
poll is sent before the STOP and processed after it, and its reply is the one
that is stored. -/
private def polledSlice : List (Action 1) :=
  let reply := "\x7b\"return\": \x7b\x7d\x7d\r".toList
  let time := "\x7b\"return\": \x7b\"time\": 10000000007\x7d\x7d\r".toList
  let stop := "\x7b\"timestamp\": \x7b\"seconds\": 1, \"microseconds\": 2\x7d, \"event\": \"STOP\"\x7d\r".toList
  List.flatten [
    [.send, .execute 0 reply], takes 16,
    [.send, .execute 0 reply], takes 16, [.tick 0 10000000007, .stop 0 stop], takes 67, [.send, .execute 0 time], takes 35,
    [.send, .execute 0 reply, .poll, .stop 0 stop, .execute 0 time, .ready], takes 16, [.ready], takes 67, [.send], takes 35]

theorem clocks_never_stale_polled : ∃ world : World 1,
    Machine.run (World.step tenSeconds { inter_vm_delays_ms := fun _ _ => 0 }) (World.start (fun _ => false) fun _ => 0) polledSlice =
      some world ∧ (∀ i, NeverStale world i) ∧ world.control ≠ .terminated := by
  have returns : (Machine.run (World.step tenSeconds { inter_vm_delays_ms := fun _ _ => 0 }) (World.start (fun _ => false) fun _ => 0)
      polledSlice).isSome := by decide +kernel
  obtain ⟨world, ran⟩ := Option.isSome_iff_exists.mp returns
  exact ⟨world, ran, clocks_never_stale tenSeconds_documented _ (fun _ => false) (fun _ => 0) polledSlice world ran⟩

end NetworkSimulator.Simulator
