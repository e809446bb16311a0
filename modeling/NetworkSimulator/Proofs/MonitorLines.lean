import NetworkSimulator.Simulator.Monitor

/-! What can be on its way between the simulator and one monitor. A slice asked
for is at any moment a command, a timer or a STOP event, and everything written
after its STOP reports the frozen clock. -/

namespace NetworkSimulator.Simulator

/-- What the simulator relies on: QMP writes one line for every reply and event,
only the STOP event names itself, only `TimeInfo` replies have a time, and the
parser reads the time out of them. -/
structure Monitor.Documented (monitor : Monitor) : Prop where
  one_line : ∀ kind text, monitor.writes kind text → '\n' ∉ text ∧ '\x00' ∉ text
  stop_event : ∀ text, monitor.writes .stop text → isStopEvent text ∧ ¬ isTimeReply text
  time_reply : ∀ time text, monitor.writes (.time time) text →
    isTimeReply text ∧ ¬ isStopEvent text ∧ monitor.get_time text = some time
  other_line : ∀ text, monitor.writes .other text → ¬ isStopEvent text ∧ ¬ isTimeReply text

namespace Line

def isStop (line : Line) : Bool := decide (line.kind = .stop)

variable (monitor : Monitor)

/-- The substring tests tell the lines of a documented monitor apart. -/
theorem isStopEvent_iff {monitor : Monitor} (documented : monitor.Documented) {line : Line} (written : monitor.writes line.kind line.text) :
    isStopEvent line.text ↔ line.kind = .stop := by
  rcases line with ⟨time | _ | _, text, slice⟩
  · exact iff_of_false (documented.time_reply time text written).2.1 (by simp)
  · exact iff_of_true (documented.stop_event text written).1 rfl
  · exact iff_of_false (documented.other_line text written).1 (by simp)

theorem isTimeReply_iff {monitor : Monitor} (documented : monitor.Documented) {line : Line} (written : monitor.writes line.kind line.text) :
    isTimeReply line.text ↔ ∃ time, line.kind = .time time ∧ monitor.get_time line.text = some time := by
  rcases line with ⟨time | _ | _, text, slice⟩
  · obtain ⟨reply, _, parsed⟩ := documented.time_reply time text written
    exact iff_of_true reply ⟨time, rfl, parsed⟩
  · exact iff_of_false (documented.stop_event text written).2 (by simp)
  · exact iff_of_false (documented.other_line text written).2 (by simp)

end Line

def stopsIn (lines : List Line) : Nat := lines.countP Line.isStop

/-- The lines after the first STOP. -/
def afterStop (lines : List Line) : List Line := (lines.dropWhile fun line => !line.isStop).tail

section
variable {line : Line} {lines : List Line}

theorem stopsIn_concat (line : Line) (lines : List Line) :
    stopsIn (lines ++ [line]) = stopsIn lines + if line.isStop then 1 else 0 := by
  rw [stopsIn, List.countP_append, List.countP_singleton]
  rfl

theorem stopsIn_cons (line : Line) (lines : List Line) :
    stopsIn (line :: lines) = stopsIn lines + if line.isStop then 1 else 0 := List.countP_cons

theorem not_stop_of_stopsIn (none : stopsIn lines = 0) (member : line ∈ lines) : line.isStop = false := by
  simpa using List.countP_eq_zero.mp none line member

theorem first_plain {last : Line} (none : stopsIn lines = 0) (plain : last.isStop = false) :
    ∃ line rest, lines ++ [last] = line :: rest ∧ line.isStop = false := by
  cases lines with
  | nil => exact ⟨last, [], rfl, plain⟩
  | cons line others => exact ⟨line, others ++ [last], rfl, not_stop_of_stopsIn none List.mem_cons_self⟩

theorem afterStop_nil (none : stopsIn lines = 0) : afterStop lines = [] := by
  have dropped : lines.dropWhile (fun line => !line.isStop) = [] :=
    List.dropWhile_eq_nil_iff.mpr fun line member => by simp [not_stop_of_stopsIn none member]
  rw [afterStop, dropped, List.tail_nil]

theorem afterStop_cons_stop (lines : List Line) (stop : line.isStop) : afterStop (line :: lines) = lines := by
  rw [afterStop, List.dropWhile_cons_of_neg (by simp [stop]), List.tail_cons]

theorem afterStop_cons_other (lines : List Line) (other : line.isStop = false) : afterStop (line :: lines) = afterStop lines := by
  rw [afterStop, List.dropWhile_cons_of_pos (by simp [other])]
  rfl

/-- A line written last comes after a STOP only if there was one before it. -/
theorem mem_afterStop_concat {last : Line} (member : line ∈ afterStop (lines ++ [last])) :
    line ∈ afterStop lines ∨ (line = last ∧ 0 < stopsIn lines) := by
  induction lines with
  | nil =>
    rw [List.nil_append] at member
    by_cases stop : last.isStop
    · rw [afterStop_cons_stop [] stop] at member
      exact absurd member List.not_mem_nil
    · rw [afterStop_cons_other [] (by simpa using stop)] at member
      exact absurd member List.not_mem_nil
  | cons first lines ih =>
    rw [List.cons_append] at member
    by_cases stop : first.isStop
    · rw [afterStop_cons_stop _ stop, List.mem_append, List.mem_singleton] at member
      rw [afterStop_cons_stop _ stop, stopsIn_cons, if_pos stop]
      exact member.imp_right fun same => ⟨same, Nat.succ_pos _⟩
    · have other : first.isStop = false := by simpa using stop
      rw [afterStop_cons_other _ other] at member
      rw [afterStop_cons_other _ other, stopsIn_cons, if_neg stop, Nat.add_zero]
      exact ih member

end

def Command.begins : Command → Bool
  | .run_time_slice _ => true
  | _ => false

namespace Connection

/-- The slices among the commands not yet processed. -/
def pending (connection : Connection) : Nat := connection.commands.countP Command.begins

theorem pending_cons {connection : Connection} {command : Command} {commands : List Command} (first : connection.commands = command :: commands) :
    connection.pending = commands.countP Command.begins + if command.begins then 1 else 0 := by
  rw [pending, first, List.countP_cons]

/-- The characters on their way are the lines not yet taken. -/
structure Framed (monitor : Monitor) (connection : Connection) : Prop where
  stream : connection.buffer ++ connection.socket = Lines.written '\n' (connection.lines.map Line.text)
  texts : ∀ line ∈ connection.lines, monitor.writes line.kind line.text

/-- A machine whose timers have all expired is stopped at its last STOP. -/
structure Counted (connection : Connection) : Prop where
  asked : connection.slices + connection.pending = connection.asked
  begun : connection.frozen.length + connection.timers.length = connection.slices
  settled : 1 ≤ connection.slices → connection.timers = [] →
    connection.running = false ∧ connection.frozen.getLast? = some connection.virtual_clock_ns

/-- Every STOP and every clock was taken from the slice it was meant for. -/
structure Recorded (connection : Connection) : Prop where
  stops : connection.stops_read.map (fun line => (line.kind, line.slice)) =
    (List.range' 1 connection.stops_read.length).map fun slice => (Kind.stop, slice)
  replies : connection.times_read.map (fun line => line.slice) = List.range' 1 connection.times_read.length
  values : connection.times_read.map (fun line => line.kind) = connection.stored.map Kind.time
  stored : connection.stored <+: connection.frozen

/-- Clocks reported in this slice at the present value. -/
def Fresh (connection : Connection) (lines : List Line) : Prop :=
  ∀ line ∈ lines, ∀ time, line.kind = .time time → time = connection.virtual_clock_ns ∧ line.slice = connection.asked

/-- Nothing is under way. Replies may be left over, a STOP cannot. -/
structure Resting (connection : Connection) : Prop where
  clocks : connection.stored.length = connection.asked
  stops : connection.stops_read.length = connection.asked
  pending : connection.pending = 0
  timers : connection.timers = []
  lines : stopsIn connection.lines = 0

/-- A slice has been asked for and its STOP has not been read. -/
structure Listening (connection : Connection) : Prop where
  clocks : connection.stored.length + 1 = connection.asked
  stops : connection.stops_read.length + 1 = connection.asked
  one : connection.pending + connection.timers.length + stopsIn connection.lines = 1
  own : ∀ line ∈ connection.lines, line.isStop → line.slice = connection.asked
  fresh : connection.Fresh (afterStop connection.lines)

/-- The STOP has been read and the clock has not. -/
structure Querying (connection : Connection) : Prop where
  clocks : connection.stored.length + 1 = connection.asked
  stops : connection.stops_read.length = connection.asked
  pending : connection.pending = 0
  timers : connection.timers = []
  lines : stopsIn connection.lines = 0
  fresh : connection.Fresh connection.lines

end Connection

inductive Phase where
  | unbooted
  | acking
  | listening
  | querying
  | idle

namespace Connection

/-- The reply to the command of the boot slice is read before the loop that waits
for its STOP, so there has to be a line in front of that. -/
def Stage (connection : Connection) : Phase → Prop
  | .unbooted => connection.Resting ∧ connection.asked = 0
  | .acking => connection.Listening ∧ (connection.pending = 0 → ∃ line rest, connection.lines = line :: rest ∧ line.isStop = false)
  | .listening => connection.Listening
  | .querying => connection.Querying
  | .idle => connection.Resting ∧ 1 ≤ connection.asked

structure Valid (monitor : Monitor) (connection : Connection) (phase : Phase) : Prop where
  framed : connection.Framed monitor
  counted : connection.Counted
  recorded : connection.Recorded
  stage : connection.Stage phase

variable {monitor : Monitor} {connection next : Connection} {phase : Phase} {kind : Kind} {text : List Char}

theorem Valid.initial (monitor : Monitor) (running : Bool) (virtual_clock_ns : Nat) : Valid monitor { running, virtual_clock_ns } .unbooted where
  framed := ⟨rfl, fun _ member => absurd member List.not_mem_nil⟩
  counted := ⟨rfl, rfl, fun begun => absurd begun (Nat.not_succ_le_zero 0)⟩
  recorded := ⟨rfl, rfl, rfl, List.prefix_rfl⟩
  stage := ⟨⟨rfl, rfl, rfl, rfl, rfl⟩, rfl⟩

/-! Steps of the monitor. -/

theorem write_iff : connection.write monitor kind text = some next ↔ monitor.writes kind text ∧
    next = { connection with
      socket := connection.socket ++ (text ++ ['\n'])
      lines := connection.lines ++ [⟨kind, text, connection.slices⟩] } := by
  rw [write, Option.ite_none_right_eq_some, Option.some.injEq]
  exact and_congr_right fun _ => eq_comm

theorem Framed.write (framed : connection.Framed monitor) (written : connection.write monitor kind text = some next) :
    next.Framed monitor := by
  obtain ⟨allowed, rfl⟩ := write_iff.mp written
  constructor
  · rw [List.map_append, List.map_singleton, Lines.written_concat, ← framed.stream, List.append_assoc]
  · intro line member
    rcases List.mem_append.mp member with earlier | last
    · exact framed.texts line earlier
    · obtain rfl := List.mem_singleton.mp last
      exact allowed

/-- A line that is not a STOP fits in anywhere, provided a clock after the STOP
is the frozen one. -/
theorem Stage.write (stage : connection.Stage phase) (plain : kind ≠ .stop)
    (current : ∀ time, kind = .time time → connection.pending = 0 → connection.timers = [] →
      time = connection.virtual_clock_ns ∧ connection.slices = connection.asked)
    (written : connection.write monitor kind text = some next) : next.Stage phase := by
  obtain ⟨_, rfl⟩ := write_iff.mp written
  have other : (⟨kind, text, connection.slices⟩ : Line).isStop = false := by simpa [Line.isStop] using plain
  have stops : stopsIn (connection.lines ++ [⟨kind, text, connection.slices⟩]) = stopsIn connection.lines := by
    rw [stopsIn_concat, if_neg (by simp [other]), Nat.add_zero]
  have resting (rest : connection.Resting) : Resting { connection with
      socket := connection.socket ++ (text ++ ['\n'])
      lines := connection.lines ++ [⟨kind, text, connection.slices⟩] } :=
    { rest with lines := stops.trans rest.lines }
  have listening (listens : connection.Listening) : Listening { connection with
      socket := connection.socket ++ (text ++ ['\n'])
      lines := connection.lines ++ [⟨kind, text, connection.slices⟩] } := by
    obtain ⟨clocks, stopsRead, one, own, fresh⟩ := listens
    refine ⟨clocks, stopsRead, ?_, ?_, ?_⟩
    · exact (congrArg (connection.pending + connection.timers.length + ·) stops).trans one
    · intro line member stop
      rcases List.mem_append.mp member with earlier | last
      · exact own line earlier stop
      · obtain rfl := List.mem_singleton.mp last
        rw [other] at stop
        cases stop
    · intro line member time reports
      rcases mem_afterStop_concat member with earlier | ⟨rfl, stopped⟩
      · exact fresh line earlier time reports
      · exact current time reports (by omega) (List.length_eq_zero_iff.mp (by omega))
  cases phase with
  | unbooted => exact ⟨resting stage.1, stage.2⟩
  | acking =>
    refine ⟨listening stage.1, ?_⟩
    intro begun
    obtain ⟨line, rest, same, first⟩ := stage.2 begun
    exact ⟨line, rest ++ [⟨kind, text, connection.slices⟩], by rw [same, List.cons_append], first⟩
  | listening => exact listening stage
  | querying =>
    obtain ⟨clocks, stopsRead, pending, timers, lines, fresh⟩ := stage
    refine ⟨clocks, stopsRead, pending, timers, stops.trans lines, ?_⟩
    intro line member time reports
    rcases List.mem_append.mp member with earlier | last
    · exact fresh line earlier time reports
    · obtain rfl := List.mem_singleton.mp last
      exact current time reports pending timers
  | idle => exact ⟨resting stage.1, stage.2⟩

/-- Only the slices among the commands matter. -/
theorem Stage.commands (stage : connection.Stage phase) {commands : List Command}
    (same : commands.countP Command.begins = connection.pending) : Stage { connection with commands } phase := by
  have resting (rest : connection.Resting) : Resting { connection with commands } := { rest with pending := same.trans rest.pending }
  have listening (listens : connection.Listening) : Listening { connection with commands } :=
    { listens with one := (congrArg (· + connection.timers.length + stopsIn connection.lines) same).trans listens.one }
  cases phase with
  | unbooted => exact ⟨resting stage.1, stage.2⟩
  | acking => exact ⟨listening stage.1, fun begun => stage.2 (same.symm.trans begun)⟩
  | listening => exact listening stage
  | querying => exact { stage with pending := same.trans stage.pending }
  | idle => exact ⟨resting stage.1, stage.2⟩

theorem Valid.commands (valid : Valid monitor connection phase) {commands : List Command}
    (same : commands.countP Command.begins = connection.pending) : Valid monitor { connection with commands } phase where
  framed := { valid.framed with }
  counted := ⟨(congrArg (connection.slices + ·) same).trans valid.counted.asked, valid.counted.begun, valid.counted.settled⟩
  recorded := { valid.recorded with }
  stage := valid.stage.commands same

theorem Valid.write (valid : Valid monitor connection phase) (plain : kind ≠ .stop)
    (current : ∀ time, kind = .time time → time = connection.virtual_clock_ns)
    (written : connection.write monitor kind text = some next) : Valid monitor next phase := by
  have framed := valid.framed.write written
  have stage : next.Stage phase := by
    apply valid.stage.write plain _ written
    intro time reports pending _
    have asked := valid.counted.asked
    exact ⟨current time reports, by omega⟩
  obtain ⟨_, rfl⟩ := write_iff.mp written
  exact ⟨framed, { valid.counted with }, { valid.recorded with }, stage⟩

/-- A slice or its timer can only be under way while its STOP is awaited. -/
theorem Stage.listening (stage : connection.Stage phase) (busy : connection.pending ≠ 0 ∨ connection.timers ≠ []) :
    connection.Listening ∧ (phase = .acking ∨ phase = .listening) := by
  have working (pending : connection.pending = 0) (timers : connection.timers = []) : False :=
    busy.elim (fun more => more pending) fun more => more timers
  cases phase with
  | unbooted => exact (working stage.1.pending stage.1.timers).elim
  | acking => exact ⟨stage.1, Or.inl rfl⟩
  | listening => exact ⟨stage, Or.inr rfl⟩
  | querying => exact (working stage.pending stage.timers).elim
  | idle => exact (working stage.1.pending stage.1.timers).elim

/-- The slice turns from a command into a timer, with a reply in front of its STOP. -/
private theorem Valid.begin (valid : Valid monitor connection phase) {duration_ms : Nat} {commands : List Command}
    (first : connection.commands = .run_time_slice duration_ms :: commands)
    (written : ({ connection with commands }.qmp_run_time_slice duration_ms).write monitor .other text = some next) :
    Valid monitor next phase := by
  have slice : connection.pending = commands.countP Command.begins + 1 := pending_cons first
  obtain ⟨asked, begun, settled⟩ := valid.counted
  obtain ⟨⟨clocks, stops, one, own, fresh⟩, phases⟩ := valid.stage.listening (Or.inl (by omega))
  have none : stopsIn connection.lines = 0 := by omega
  have timers : connection.timers = [] := List.length_eq_zero_iff.mp (by omega)
  have rest : commands.countP Command.begins = 0 := by omega
  have listens : Listening ({ connection with commands }.qmp_run_time_slice duration_ms) := by
    refine ⟨clocks, stops, ?_, own, fresh⟩
    change commands.countP Command.begins + (connection.timers ++ [_]).length + stopsIn connection.lines = 1
    rw [rest, none, timers]
    rfl
  have waiting : Stage ({ connection with commands }.qmp_run_time_slice duration_ms) .listening := listens
  have stage : next.Listening := waiting.write (by simp) (fun _ reports => by cases reports) written
  have framed : Framed monitor ({ connection with commands }.qmp_run_time_slice duration_ms) :=
    { valid.framed with }
  refine ⟨framed.write written, ?_, ?_, ?_⟩
  · obtain ⟨_, rfl⟩ := write_iff.mp written
    refine ⟨?_, ?_, fun _ expired => absurd expired (List.append_ne_nil_of_right_ne_nil _ (List.cons_ne_nil _ _))⟩
    · change connection.slices + 1 + commands.countP Command.begins = connection.asked
      omega
    · change connection.frozen.length + (connection.timers ++ [_]).length = connection.slices + 1
      rw [List.length_append, List.length_singleton]
      omega
  · obtain ⟨_, rfl⟩ := write_iff.mp written
    exact { valid.recorded with }
  · rcases phases with rfl | rfl
    · obtain ⟨_, rfl⟩ := write_iff.mp written
      exact ⟨stage, fun _ => first_plain none rfl⟩
    · exact stage

theorem Valid.execute (valid : Valid monitor connection phase) (executed : connection.execute monitor text = some next) :
    Valid monitor next phase := by
  unfold Connection.execute at executed
  split at executed
  next => cases executed
  next commands first =>
    have same : connection.pending = commands.countP Command.begins := pending_cons first
    exact (valid.commands same.symm).write (by simp) (fun _ reports => by cases reports) executed
  next duration_ms commands first => exact valid.begin first executed
  next commands first =>
    have same : connection.pending = commands.countP Command.begins := pending_cons first
    exact (valid.commands same.symm).write (by simp) (fun _ reports => (Kind.time.inj reports).symm) executed

/-- The machine at the moment its timer has been dealt with. -/
def halted (connection : Connection) (timers : List Nat) : Connection :=
  { connection with timers, running := false, frozen := connection.frozen ++ [connection.virtual_clock_ns] }

/-- The timer turns into the STOP, the first one on its way. -/
private theorem Listening.halt (listens : connection.Listening) (counted : connection.Counted) {expire_time : Nat} {timers : List Nat}
    (armed : connection.timers = expire_time :: timers) (written : (connection.halted timers).write monitor .stop text = some next) :
    next.Listening := by
  obtain ⟨_, rfl⟩ := write_iff.mp written
  obtain ⟨asked, begun, settled⟩ := counted
  obtain ⟨clocks, stops, one, own, fresh⟩ := listens
  rw [armed, List.length_cons] at one
  have none : stopsIn connection.lines = 0 := by omega
  refine ⟨clocks, stops, ?_, ?_, ?_⟩
  · change connection.pending + timers.length + stopsIn (connection.lines ++ [_]) = 1
    rw [stopsIn_concat, if_pos (by rfl)]
    omega
  · intro line member stop
    rcases List.mem_append.mp member with earlier | last
    · exact own line earlier stop
    · obtain rfl := List.mem_singleton.mp last
      change connection.slices = connection.asked
      omega
  · intro line member
    rcases mem_afterStop_concat member with earlier | ⟨_, later⟩
    · change line ∈ afterStop connection.lines at earlier
      rw [afterStop_nil none] at earlier
      exact absurd earlier List.not_mem_nil
    · exact absurd none later.ne'

private theorem Counted.halt (counted : connection.Counted) {expire_time : Nat} {timers : List Nat}
    (armed : connection.timers = expire_time :: timers) : (connection.halted timers).Counted := by
  obtain ⟨asked, begun, settled⟩ := counted
  rw [armed, List.length_cons] at begun
  refine ⟨asked, ?_, fun _ _ => ⟨rfl, List.getLast?_concat⟩⟩
  change (connection.frozen ++ [connection.virtual_clock_ns]).length + timers.length = connection.slices
  rw [List.length_append, List.length_singleton]
  omega

/-- Behind the STOP the clock stays where it is. -/
theorem Valid.stop_vm_bh (valid : Valid monitor connection phase) (stopped : connection.stop_vm_bh monitor text = some next) :
    Valid monitor next phase := by
  unfold Connection.stop_vm_bh at stopped
  split at stopped
  next => cases stopped
  next expire_time timers armed =>
    split at stopped
    next =>
      obtain ⟨listens, phases⟩ := valid.stage.listening (Or.inr (by simp [armed]))
      have written : (connection.halted timers).write monitor .stop text = some next := stopped
      have framed : (connection.halted timers).Framed monitor := { valid.framed with }
      have stage : next.Listening := listens.halt valid.counted armed written
      have counted := valid.counted.halt armed
      have kept := framed.write written
      obtain ⟨_, rfl⟩ := write_iff.mp written
      refine ⟨kept, { counted with }, ?_, ?_⟩
      · exact { valid.recorded with stored := valid.recorded.stored.trans (List.prefix_append _ _) }
      · rcases phases with rfl | rfl
        · refine ⟨stage, fun begun => ?_⟩
          obtain ⟨line, rest, same, first⟩ := valid.stage.2 begun
          exact ⟨line, rest ++ [⟨.stop, text, connection.slices⟩], congrArg (· ++ _) same, first⟩
        · exact stage
    next => cases stopped

theorem Valid.tick (valid : Valid monitor connection phase) (elapsed : Nat) : Valid monitor (connection.tick elapsed) phase := by
  unfold Connection.tick
  split
  next running =>
    obtain ⟨asked, begun, settled⟩ := valid.counted
    have busy : ¬ (1 ≤ connection.slices ∧ connection.timers = []) := by
      intro idle
      have stopped := (settled idle.1 idle.2).1
      rw [running] at stopped
      cases stopped
    refine ⟨{ valid.framed with }, ⟨asked, begun, fun begins expired => absurd ⟨begins, expired⟩ busy⟩,
      { valid.recorded with }, ?_⟩
    have listening (listens : connection.Listening) :
        Listening { connection with virtual_clock_ns := connection.virtual_clock_ns + elapsed } := by
      have one := listens.one
      have clocks := listens.clocks
      have none : stopsIn connection.lines = 0 := by
        apply Nat.eq_zero_of_not_pos
        intro stopped
        exact busy ⟨by omega, List.length_eq_zero_iff.mp (by omega)⟩
      refine ⟨clocks, listens.stops, one, listens.own, ?_⟩
      intro line member
      rw [afterStop_nil none] at member
      exact absurd member List.not_mem_nil
    have stage := valid.stage
    cases phase with
    | unbooted => exact ⟨{ stage.1 with }, stage.2⟩
    | acking => exact ⟨listening stage.1, stage.2⟩
    | listening => exact listening stage
    | querying =>
      have clocks := stage.clocks
      have pending := stage.pending
      exact absurd ⟨by omega, stage.timers⟩ busy
    | idle => exact ⟨{ stage.1 with }, stage.2⟩
  next => exact valid

/-! The monitor does not store clocks. -/

theorem write_stored (written : connection.write monitor kind text = some next) : next.stored = connection.stored := by
  obtain ⟨_, rfl⟩ := write_iff.mp written
  rfl

theorem execute_stored (executed : connection.execute monitor text = some next) : next.stored = connection.stored := by
  unfold Connection.execute at executed
  split at executed
  next => cases executed
  all_goals
    have kept := write_stored executed
    exact kept

theorem stop_stored (stopped : connection.stop_vm_bh monitor text = some next) : next.stored = connection.stored := by
  unfold Connection.stop_vm_bh at stopped
  split at stopped
  next => cases stopped
  next =>
    split at stopped
    next =>
      have kept := write_stored stopped
      exact kept
    next => cases stopped

theorem tick_stored (connection : Connection) (elapsed : Nat) : (connection.tick elapsed).stored = connection.stored := by
  unfold Connection.tick
  split <;> rfl

end Connection
end NetworkSimulator.Simulator
