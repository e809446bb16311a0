import NetworkSimulator.Proofs.LoopWorld
import NetworkSimulator.Proofs.SliceEffects

/-! The main loop among its monitors refines the main loop over slices. However the
steps of both ends interleave, what an iteration has read makes up a slice, and
the clock QEMU reports at its end is the one the machine was stopped at. -/

namespace NetworkSimulator.Simulator
variable {VM_NUMBER : Nat} {monitor : Monitor} {links : Links VM_NUMBER}

/-- The clocks at the ends of the slices of VM `i`. -/
def ends (links : Links VM_NUMBER) : State VM_NUMBER → List Slice → Fin VM_NUMBER → List Nat
  | _, [], _ => []
  | state, slice :: slices, i =>
    (if current_vm_index state.virtual_clocks_ns = some i then [slice.virtual_end_time_ns] else []) ++
      (step links state slice).elim [] fun next => ends links next slices i

theorem ends_concat {initial final : State VM_NUMBER} {slices : List Slice} (ran : Machine.run (step links) initial slices = some final)
    (slice : Slice) (i : Fin VM_NUMBER) : ends links initial (slices ++ [slice]) i = ends links initial slices i ++
      if current_vm_index final.virtual_clocks_ns = some i then [slice.virtual_end_time_ns] else [] := by
  induction slices generalizing initial with
  | nil =>
    cases ran
    rw [List.nil_append, ends, ends, List.nil_append]
    cases step links final slice <;> exact List.append_nil _
  | cons first slices ih =>
    obtain ⟨middle, taken, later⟩ := (Machine.run_cons_iff (step links)).mp ran
    rw [List.cons_append, ends, ends, taken, Option.elim_some, Option.elim_some, ih later, List.append_assoc]

theorem Poll.stops_line (response : List Char) : Poll.stops { qmp_line := some (String.ofList response) } = isStopEvent response :=
  congrArg isStopEvent String.toList_ofList

/-- What the rest of a pass starts from, given what the pass has read. -/
def Pass.reads (links : Links VM_NUMBER) (current_vm_index : Fin VM_NUMBER) (start_exec_time : Nat) (running : Running VM_NUMBER) :
    Pass → Option (Running VM_NUMBER)
  | .receiving qmp_line =>
    some { running with has_got_stop_event := running.has_got_stop_event || Poll.stops { qmp_line } }
  | .delivering qmp_line packet => do
    let state ← receive links running.state current_vm_index start_exec_time packet
    some { running with state, has_got_stop_event := running.has_got_stop_event || Poll.stops { qmp_line } }
  | _ => some running

/-- The end of a pass makes it one of the polling loop over slices. -/
theorem poll_reads {vm : Fin VM_NUMBER} {start : Nat} {running middle : Running VM_NUMBER} {qmp_line : Option String}
    {packet : Option (Nat × Option (List UInt8))} (reads : (Pass.delivering qmp_line packet).reads links vm start running = some middle)
    (now : Nat) : poll links vm start running { qmp_line, packet, current_ts := now } =
      some (if middle.deque_to_deliver = [] then middle
        else middle.deliver vm (virtual_time (middle.state.virtual_clocks_ns vm) start now)) := by
  simp only [Pass.reads, Option.bind_eq_bind, Option.bind_eq_some_iff, Option.some.injEq] at reads
  obtain ⟨state, received, rfl⟩ := reads
  simp only [poll, received, Option.bind_eq_bind, Option.bind_some]
  split <;> rfl

/-- Where the world is meanwhile. -/
def Underway.At (underway : Underway VM_NUMBER) (control : Control VM_NUMBER) : Prop :=
  match underway.pass with
  | .starting => control = .choose
  | .polling | .stressing | .selecting => control = .listen underway.current_vm_index
  | .answering _ => control = .receive underway.current_vm_index
  | .receiving _ | .delivering _ _ =>
    control = if underway.running.has_got_stop_event then .query underway.current_vm_index [] else .listen underway.current_vm_index
  | .stopped => control = .query underway.current_vm_index [] ∨ control = .answer underway.current_vm_index []

/-- The passes made so far, from the state at the start of the iteration. -/
structure Underway.Valid (links : Links VM_NUMBER) (state : State VM_NUMBER) (underway : Underway VM_NUMBER) : Prop where
  chosen : Simulator.current_vm_index state.virtual_clocks_ns = some underway.current_vm_index
  passes : ∃ limit running, end_of_time_slice_ns links state.virtual_clocks_ns underway.current_vm_index = some limit ∧
    Machine.run (Simulator.pass links underway.current_vm_index underway.start_exec_time) (state.begin underway.current_vm_index limit)
      underway.polls = some running ∧
    (running.has_got_stop_event ↔ underway.pass = .stopped) ∧
    underway.pass.reads links underway.current_vm_index underway.start_exec_time running = some underway.running

namespace Underway
variable {state : State VM_NUMBER} {underway : Underway VM_NUMBER}

theorem Valid.starting {vm : Fin VM_NUMBER} {duration limit : Nat} (chosen : Simulator.current_vm_index state.virtual_clocks_ns = some vm)
    (bound : end_of_time_slice_ns links state.virtual_clocks_ns vm = some limit) (now : Nat) :
    Underway.Valid links state {
      current_vm_index := vm
      start_exec_time := now
      duration_to_run_ns := duration
      running := state.begin vm limit } where
  chosen := chosen
  passes := ⟨limit, _, bound, rfl, by simp [State.begin], rfl⟩

/-- Before the first line of a pass nothing has changed since the last pass. -/
theorem Valid.waiting (valid : underway.Valid links state) {pass : Pass} (same : underway.pass = pass) (early : pass ≠ .stopped)
    (idle : ∀ running, pass.reads links underway.current_vm_index underway.start_exec_time running = some running) :
    underway.running.has_got_stop_event = false ∧ ∃ limit,
      end_of_time_slice_ns links state.virtual_clocks_ns underway.current_vm_index = some limit ∧
      Machine.run (Simulator.pass links underway.current_vm_index underway.start_exec_time)
        (state.begin underway.current_vm_index limit) underway.polls = some underway.running := by
  obtain ⟨limit, running, bound, ran, stopped, reads⟩ := valid.passes
  rw [same, idle] at reads
  cases reads
  refine ⟨?_, limit, bound, ran⟩
  rw [same] at stopped
  simpa using mt stopped.mp early

/-- Up to `select` a pass changes nothing but its place. -/
theorem Valid.skip (valid : underway.Valid links state) {pass later : Pass} (same : underway.pass = pass)
    (early : pass ≠ .stopped ∧ later ≠ .stopped)
    (idle : ∀ running, pass.reads links underway.current_vm_index underway.start_exec_time running = some running ∧
      later.reads links underway.current_vm_index underway.start_exec_time running = some running) :
    Underway.Valid links state { underway with pass := later } := by
  obtain ⟨open_loop, limit, bound, ran⟩ := valid.waiting same early.1 fun running => (idle running).1
  exact ⟨valid.chosen, limit, underway.running, bound, ran, by simp [open_loop, early.2], (idle _).2⟩

/-- `select` has returned, and the line of the monitor has been read if there was one. -/
theorem Valid.tap (valid : underway.Valid links state) {pass : Pass} (same : underway.pass = pass) (early : pass ≠ .stopped)
    (idle : ∀ running, pass.reads links underway.current_vm_index underway.start_exec_time running = some running)
    (qmp_line : Option String) (tap : Bool) (stop_time : Nat) :
    Underway.Valid links state { underway with
      running := { underway.running with
        has_got_stop_event := underway.running.has_got_stop_event || Poll.stops { qmp_line } }
      pass := .tap qmp_line tap
      stop_time } := by
  obtain ⟨open_loop, limit, bound, ran⟩ := valid.waiting same early idle
  refine ⟨valid.chosen, limit, underway.running, bound, ran, ?_, ?_⟩
  · cases tap <;> simp [open_loop, Pass.tap]
  · cases tap <;> rfl

theorem tap_at {running : Running VM_NUMBER} {qmp_line : Option String} {tap : Bool} {stop_time : Nat} {control : Control VM_NUMBER} :
    Underway.At { underway with running, pass := .tap qmp_line tap, stop_time } control ↔
      control = if running.has_got_stop_event then .query underway.current_vm_index [] else .listen underway.current_vm_index := by
  cases tap <;> exact Iff.rfl

theorem Valid.receive (valid : underway.Valid links state) {qmp_line : Option String} (same : underway.pass = .receiving qmp_line)
    {now : Nat} {read : Option (List UInt8)} {after : State VM_NUMBER}
    (received : Simulator.receive links underway.running.state underway.current_vm_index underway.start_exec_time (some (now, read)) =
      some after) : Underway.Valid links state { underway with
        running := { underway.running with state := after }
        pass := .delivering qmp_line (some (now, read)) } := by
  obtain ⟨limit, running, bound, ran, stopped, reads⟩ := valid.passes
  rw [same] at stopped reads
  cases underway with
  | mk vm start current pass polls stop_time =>
    cases reads
    refine ⟨valid.chosen, limit, running, bound, ran, ?_, ?_⟩
    · simpa using stopped
    · simp only [Pass.reads, Option.bind_eq_bind] at received ⊢
      rw [received, Option.bind_some]

theorem Valid.deliver (valid : underway.Valid links state) {qmp_line : Option String} {packet : Option (Nat × Option (List UInt8))}
    (same : underway.pass = .delivering qmp_line packet) (now : Nat) : Underway.Valid links state { underway with
      running := if underway.running.deque_to_deliver = [] then underway.running
        else underway.running.deliver underway.current_vm_index
          (virtual_time (underway.running.state.virtual_clocks_ns underway.current_vm_index) underway.start_exec_time now)
      pass := if underway.running.has_got_stop_event then .stopped else .polling
      polls := underway.polls ++ [{ qmp_line, packet, current_ts := now }] } := by
  obtain ⟨limit, running, bound, ran, stopped, reads⟩ := valid.passes
  rw [same] at stopped reads
  have open_loop : running.has_got_stop_event = false := by simpa using stopped
  have polled := poll_reads reads now
  have passed : Simulator.pass links underway.current_vm_index underway.start_exec_time running { qmp_line, packet, current_ts := now } =
      poll links underway.current_vm_index underway.start_exec_time running { qmp_line, packet, current_ts := now } := by
    rw [Simulator.pass, open_loop, if_neg Bool.false_ne_true]
  rw [← passed] at polled
  refine ⟨valid.chosen, limit, _, bound, Machine.run_snoc ran polled, ?_, ?_⟩
  · have kept : (if underway.running.deque_to_deliver = [] then underway.running
        else underway.running.deliver underway.current_vm_index
          (virtual_time (underway.running.state.virtual_clocks_ns underway.current_vm_index) underway.start_exec_time now)).has_got_stop_event =
        underway.running.has_got_stop_event := by split <;> rfl
    rw [kept]
    cases underway.running.has_got_stop_event <;> simp
  · cases underway.running.has_got_stop_event <;> rfl

end Underway

namespace MainLoop

structure Valid (monitor : Monitor) (links : Links VM_NUMBER) (booted : Fin VM_NUMBER → Nat) (loop : MainLoop VM_NUMBER) : Prop where
  world : loop.world.Valid monitor
  clocks : loop.state.virtual_clocks_ns = loop.world.virtual_clocks_ns
  ran : Machine.run (Simulator.step links) { virtual_clocks_ns := booted } loop.slices = some loop.state
  ends : ∀ i, booted i = (loop.world.connections i).stored.headD 0 ∧
    (loop.world.connections i).stored.tail = ends links { virtual_clocks_ns := booted } loop.slices i
  booting : loop.underway = none → loop.world.control ≠ .choose → loop.slices = [] ∧ ∀ i, (loop.world.connections i).asked ≤ 1
  underway : ∀ underway, loop.underway = some underway → underway.Valid links loop.state ∧ underway.At loop.world.control ∧
    ∀ i, (loop.world.connections i).stored ≠ []

variable {booted : Fin VM_NUMBER → Nat} {loop next : MainLoop VM_NUMBER} {event : Event VM_NUMBER}

theorem Valid.start (monitor : Monitor) (links : Links VM_NUMBER) (running : Fin VM_NUMBER → Bool) (virtual_clock_ns : Fin VM_NUMBER → Nat)
    (now : Nat) : Valid monitor links (fun _ => 0) (start running virtual_clock_ns now) where
  world := World.Valid.start monitor running virtual_clock_ns
  clocks := rfl
  ran := rfl
  ends _ := ⟨rfl, rfl⟩
  booting _ _ := ⟨rfl, fun _ => Nat.zero_le 1⟩
  underway _ none := nomatch none

section
variable {action : Action VM_NUMBER} {world : World VM_NUMBER}

/-- Beside an iteration no clock is stored, and only a command of `main` moves it on. -/
theorem beside_kept (allowed : loop.Beside action) (taken : loop.world.step monitor links action = some world) :
    world.virtual_clocks_ns = loop.world.virtual_clocks_ns ∧
      (∀ i, (world.connections i).stored = (loop.world.connections i).stored) ∧
      (action = .send ∨ world.control = loop.world.control ∧ ∀ i, (world.connections i).asked = (loop.world.connections i).asked) := by
  cases action with
  | execute i text =>
    obtain ⟨connection, executed, rfl⟩ := Option.map_eq_some_iff.mp taken
    obtain ⟨command, commands, socket, lines, _, rfl⟩ := Connection.execute_cases executed
    refine ⟨rfl, ?_, Or.inr ⟨rfl, ?_⟩⟩
    · apply World.goto_kept Connection.stored
      cases command <;> rfl
    · apply World.goto_kept Connection.asked
      cases command <;> rfl
  | event i text =>
    obtain ⟨connection, written, rfl⟩ := Option.map_eq_some_iff.mp taken
    obtain ⟨_, rfl⟩ := Connection.write_iff.mp written
    exact ⟨rfl, World.goto_kept Connection.stored _ rfl, Or.inr ⟨rfl, World.goto_kept Connection.asked _ rfl⟩⟩
  | stop i text =>
    obtain ⟨connection, stopped, rfl⟩ := Option.map_eq_some_iff.mp taken
    obtain ⟨expire_time, timers, socket, lines, _, _, rfl⟩ := Connection.stop_cases stopped
    exact ⟨rfl, World.goto_kept Connection.stored _ rfl, Or.inr ⟨rfl, World.goto_kept Connection.asked _ rfl⟩⟩
  | read count =>
    simp only [World.step, World.read, Option.bind_eq_bind, Option.bind_eq_some_iff, Option.some.injEq] at taken
    obtain ⟨i, _, connection, read, rfl⟩ := taken
    obtain ⟨buffer, socket, rfl⟩ := Connection.read_cases read
    exact ⟨rfl, World.goto_kept Connection.stored _ rfl, Or.inr ⟨rfl, World.goto_kept Connection.asked _ rfl⟩⟩
  | send =>
    simp only [World.step, World.send] at taken
    split at taken
    next =>
      cases taken
      exact ⟨rfl, World.goto_kept Connection.stored _ rfl, Or.inl rfl⟩
    next =>
      cases taken
      exact ⟨rfl, World.goto_kept Connection.stored _ rfl, Or.inl rfl⟩
    next =>
      cases taken
      exact ⟨rfl, World.goto_kept Connection.stored _ rfl, Or.inl rfl⟩
    next =>
      simp only [Option.bind_eq_bind, Option.bind_eq_some_iff, Option.some.injEq] at taken
      obtain ⟨i, _, duration, _, rfl⟩ := taken
      exact ⟨rfl, World.goto_kept Connection.stored _ rfl, Or.inl rfl⟩
    next => cases taken
  | tick i elapsed => cases allowed
  | poll => cases allowed
  | ready => cases allowed
  | line => cases allowed

/-- What happens beside an iteration does not take its place away. -/
theorem beside_at (allowed : loop.Beside action) (taken : loop.world.step monitor links action = some world) {underway : Underway VM_NUMBER}
    (current : loop.underway = some underway) (place : underway.At loop.world.control) : underway.At world.control := by
  obtain ⟨_, _, rfl | ⟨same, _⟩⟩ := beside_kept allowed taken
  · rcases allowed with ⟨idle, _⟩ | ⟨other, again, pass⟩
    · rw [current] at idle
      cases idle
    · obtain rfl := Option.some.inj (current.symm.trans again)
      simp only [Underway.At, pass] at place ⊢
      rcases place with query | answer
      · rw [World.step, World.send_query query] at taken
        cases taken
        exact Or.inr rfl
      · rw [World.step, World.send, answer] at taken
        cases taken
  · rwa [same]

end

/-- Within an iteration only its own variables and the world change. -/
theorem Valid.proceed (valid : Valid monitor links booted loop) {underway : Underway VM_NUMBER} {world : World VM_NUMBER}
    (kept : world.Valid monitor) (clocks : world.virtual_clocks_ns = loop.world.virtual_clocks_ns)
    (stored : ∀ i, (world.connections i).stored = (loop.world.connections i).stored) (own : underway.Valid links loop.state)
    (place : underway.At world.control) (begun : ∀ i, (loop.world.connections i).stored ≠ []) :
    Valid monitor links booted (loop.proceed underway world) where
  world := kept
  clocks := valid.clocks.trans clocks.symm
  ran := valid.ran
  ends i := by
    change booted i = (world.connections i).stored.headD 0 ∧ (world.connections i).stored.tail = _
    rw [stored i]
    exact valid.ends i
  booting idle := nomatch idle
  underway := by
    intro other same
    cases same
    refine ⟨own, place, fun i => ?_⟩
    change (world.connections i).stored ≠ []
    rw [stored i]
    exact begun i

theorem Valid.stay (valid : Valid monitor links booted loop) {underway : Underway VM_NUMBER} {world : World VM_NUMBER}
    (current : loop.underway = some underway) (kept : world.Valid monitor) (clocks : world.virtual_clocks_ns = loop.world.virtual_clocks_ns)
    (stored : ∀ i, (world.connections i).stored = (loop.world.connections i).stored) (place : underway.At world.control) :
    Valid monitor links booted { loop with world } := by
  obtain ⟨own, _, begun⟩ := valid.underway underway current
  have same : ({ loop with world } : MainLoop VM_NUMBER) = loop.proceed underway world := by
    rw [MainLoop.proceed, ← current]
  rw [same]
  exact valid.proceed kept clocks stored own place begun

theorem Valid.beside (valid : Valid monitor links booted loop) {action : Action VM_NUMBER} {world : World VM_NUMBER}
    (allowed : loop.Beside action) (taken : loop.world.step monitor links action = some world) (kept : world.Valid monitor) :
    Valid monitor links booted { loop with world } := by
  obtain ⟨clocks, stored, moved⟩ := beside_kept allowed taken
  refine ⟨kept, valid.clocks.trans clocks.symm, valid.ran, fun i => ?_, fun idle early => ?_, fun underway current => ?_⟩
  · change booted i = (world.connections i).stored.headD 0 ∧ (world.connections i).stored.tail = _
    rw [stored i]
    exact valid.ends i
  · rcases moved with rfl | ⟨same, asked⟩
    · rcases allowed with ⟨_, before⟩ | ⟨underway, current, _⟩
      · obtain ⟨none, once⟩ := valid.booting idle before
        exact ⟨none, fun i => (valid.world.send_once before taken once i).2⟩
      · rw [current] at idle
        cases idle
    · change world.control ≠ .choose at early
      rw [same] at early
      obtain ⟨none, once⟩ := valid.booting idle early
      exact ⟨none, fun i => (asked i).trans_le (once i)⟩
  · obtain ⟨own, place, begun⟩ := valid.underway underway current
    refine ⟨own, beside_at allowed taken current place, fun i => ?_⟩
    change (world.connections i).stored ≠ []
    rw [stored i]
    exact begun i

/-- The clocks of the boot slices are where the main loop starts from. -/
theorem Valid.boot (valid : Valid monitor links booted loop) {world : World VM_NUMBER} (idle : loop.underway = none)
    (returned : loop.world.line monitor = some world) (kept : world.Valid monitor) :
    Valid monitor links world.virtual_clocks_ns
      { loop with world, state := { loop.state with virtual_clocks_ns := world.virtual_clocks_ns } } := by
  obtain ⟨none, once⟩ := valid.booting idle (World.line_reads returned)
  have later (i : Fin VM_NUMBER) : (world.connections i).asked ≤ 1 := (World.line_asked returned i).trans_le (once i)
  have ran := valid.ran
  rw [none] at ran
  refine ⟨kept, rfl, ?_, fun i => ?_, fun _ _ => ⟨none, later⟩, fun underway current => ?_⟩
  · simp only [none, Machine.run_nil, Option.some.injEq] at ran ⊢
    rw [← ran]
  · simp only [none]
    exact kept.stored_once (later i)
  · rw [idle] at current
    cases current

/-- When the machine is chosen every machine has had its boot slice. -/
theorem Valid.begin (valid : Valid monitor links booted loop) {vm : Fin VM_NUMBER} {duration limit : Nat} (control : loop.world.control = .choose)
    (chosen : current_vm_index loop.state.virtual_clocks_ns = some vm)
    (bound : end_of_time_slice_ns links loop.state.virtual_clocks_ns vm = some limit) :
    Valid monitor links booted { loop with
      underway := some {
        current_vm_index := vm
        start_exec_time := loop.now
        duration_to_run_ns := duration
        running := loop.state.begin vm limit } } := by
  apply valid.proceed valid.world rfl (fun _ => rfl) (.starting chosen bound loop.now) control
  intro i none
  have resting := (valid.world.connections i).stage
  rw [control] at resting
  obtain ⟨rest, asked⟩ := resting
  have clocks := rest.clocks
  rw [none, List.length_nil] at clocks
  omega

section
variable {underway : Underway VM_NUMBER} {world : World VM_NUMBER} (valid : Valid monitor links booted loop)
  (current : loop.underway = some underway) (kept : world.Valid monitor)
include valid current kept

theorem Valid.command (pass : underway.pass = .starting) (sent : loop.world.send links = some world) :
    Valid monitor links booted (loop.proceed { underway with pass := .polling } world) := by
  obtain ⟨own, place, begun⟩ := valid.underway underway current
  simp only [Underway.At, pass] at place
  have chosen := own.chosen
  rw [valid.clocks] at chosen
  obtain ⟨duration, _, rfl⟩ := World.send_choose place chosen sent
  exact valid.proceed kept rfl (World.goto_kept Connection.stored _ rfl) (own.skip pass (by simp) fun _ => ⟨rfl, rfl⟩) rfl begun

theorem Valid.stress (pass : underway.pass = .stressing) (sent : loop.world.poll = some world) :
    Valid monitor links booted (loop.proceed { underway with pass := .selecting } world) := by
  obtain ⟨own, place, begun⟩ := valid.underway underway current
  simp only [Underway.At, pass] at place
  obtain ⟨i, _, rfl⟩ := World.poll_cases sent
  exact valid.proceed kept rfl (World.goto_kept Connection.stored _ rfl) (own.skip pass (by simp) fun _ => ⟨rfl, rfl⟩) place begun

theorem Valid.ready (tap : Bool) (pass : underway.pass = .selecting) (selected : loop.world.ready = some world) :
    Valid monitor links booted (loop.proceed { underway with pass := .answering tap } world) := by
  obtain ⟨own, place, begun⟩ := valid.underway underway current
  simp only [Underway.At, pass] at place
  simp only [World.ready, place] at selected
  split at selected
  next => cases selected
  next =>
    cases selected
    exact valid.proceed kept rfl (fun _ => rfl) (own.skip pass (by simp) fun _ => ⟨rfl, rfl⟩) rfl begun

theorem Valid.answer {tap : Bool} {response : List Char} {connection : Connection} (pass : underway.pass = .answering tap)
    (read : (loop.world.connections underway.current_vm_index).read_line = some (response, connection))
    (returned : loop.world.line monitor = some world) : Valid monitor links booted (loop.proceed { underway with
      running := { underway.running with has_got_stop_event := underway.running.has_got_stop_event || isStopEvent response }
      pass := .tap (some (String.ofList response)) tap
      stop_time := if underway.running.has_got_stop_event || isStopEvent response then loop.now else underway.stop_time } world) := by
  obtain ⟨own, place, begun⟩ := valid.underway underway current
  simp only [Underway.At, pass] at place
  obtain ⟨again, next, stops_read, same, rfl⟩ := World.line_receive place returned
  obtain ⟨rfl, rfl⟩ := Prod.mk.inj (Option.some.inj (read.symm.trans same))
  obtain ⟨buffer, lines, rfl⟩ := Connection.read_line_cases read
  have open_loop := (own.waiting pass (by simp) fun _ => rfl).1
  apply valid.proceed kept rfl (World.goto_kept Connection.stored _ rfl) _ _ begun
  · rw [← Poll.stops_line]
    exact own.tap pass (by simp) (fun _ => rfl) _ tap _
  · apply Underway.tap_at.mpr
    rw [open_loop, Bool.false_or]
    rfl

theorem Valid.other (pass : underway.pass = .stopped) (returned : loop.world.line monitor = some world)
    (waiting : world.control ≠ .choose) : Valid monitor links booted { loop with world } := by
  obtain ⟨own, place, begun⟩ := valid.underway underway current
  simp only [Underway.At, pass] at place
  rcases place with query | answer
  · simp only [World.line, query, Control.reading, Option.bind_eq_bind, Option.bind_none, reduceCtorEq] at returned
  · obtain ⟨response, connection, read, ⟨time, times_read, rfl⟩ | ⟨later, rfl | rfl, rfl⟩⟩ := World.line_answer answer returned
    · exact absurd rfl waiting
    · -- A documented monitor never ends the run.
      cases kept.ordered
    · obtain ⟨buffer, lines, rfl⟩ := Connection.read_line_cases read
      apply valid.stay current kept rfl (World.goto_kept Connection.stored _ rfl)
      simp only [Underway.At, pass]
      exact Or.inr rfl

/-- The clock is stored: the passes are those of a whole slice. -/
theorem Valid.clock (pass : underway.pass = .stopped) (returned : loop.world.line monitor = some world) (stored : world.control = .choose) :
    Valid monitor links booted { loop with
      world
      state := underway.running.state.finish underway.current_vm_index (world.virtual_clocks_ns underway.current_vm_index)
      underway := none
      slices := loop.slices ++ [underway.slice (world.virtual_clocks_ns underway.current_vm_index)] } := by
  obtain ⟨own, place, begun⟩ := valid.underway underway current
  simp only [Underway.At, pass] at place
  rcases place with query | answer
  · simp only [World.line, query, Control.reading, Option.bind_eq_bind, Option.bind_none, reduceCtorEq] at returned
  · obtain ⟨response, connection, read, ⟨time, times_read, rfl⟩ | ⟨later, rfl | rfl, rfl⟩⟩ := World.line_answer answer returned
    · obtain ⟨buffer, lines, rfl⟩ := Connection.read_line_cases read
      obtain ⟨limit, running, bound, ran, stopped, reads⟩ := own.passes
      rw [pass] at stopped reads
      cases reads
      have reported : Function.update loop.world.virtual_clocks_ns underway.current_vm_index time underway.current_vm_index = time :=
        Function.update_self ..
      have listened := listen_iff.mpr ⟨ran, stopped.mpr rfl⟩
      have taken : Simulator.step links loop.state (underway.slice time) =
          some (underway.running.state.finish underway.current_vm_index time) := by
        rw [Simulator.step, own.chosen, Option.bind_eq_bind, Option.bind_some, time_slice, bound, Option.bind_eq_bind, Option.bind_some]
        change (listen links underway.current_vm_index underway.start_exec_time _ underway.polls).bind _ = _
        rw [listened]
        rfl
      obtain ⟨vm, chosen, ⟨iteration⟩⟩ := step_iteration taken
      obtain rfl := Option.some.inj (own.chosen.symm.trans chosen)
      simp only [reported]
      refine ⟨kept, ?_, Machine.run_snoc valid.ran taken, fun i => ?_, fun _ early => absurd rfl early, fun _ none => by cases none⟩
      · exact iteration.clocks.trans (congrArg (Function.update · underway.current_vm_index time) valid.clocks)
      · obtain ⟨first, later⟩ := valid.ends i
        have some_clock := begun i
        rw [ends_concat valid.ran, own.chosen, ← later]
        by_cases same : underway.current_vm_index = i
        · subst same
          simp only [World.goto, Function.update_self, if_true]
          rw [first, List.tail_append_of_ne_nil some_clock]
          refine ⟨?_, rfl⟩
          cases history : (loop.world.connections underway.current_vm_index).stored with
          | nil => exact absurd history some_clock
          | cons head rest => rfl
        · rw [if_neg fun equal => same (Option.some.inj equal), List.append_nil]
          simp only [World.goto, Function.update_of_ne (Ne.symm same)]
          exact ⟨first, trivial⟩
    · cases stored
    · cases stored

end

theorem Valid.step (documented : monitor.Documented) (valid : Valid monitor links booted loop) (taken : Step monitor links loop event next) :
    ∃ later, Valid monitor links later next ∧ (later = booted ∨ next.slices = []) := by
  have line {world : World VM_NUMBER} (returned : loop.world.line monitor = some world) : world.Valid monitor :=
    valid.world.line documented returned
  cases taken with
  | beside allowed moved => exact ⟨booted, valid.beside allowed moved (valid.world.step documented moved), Or.inl rfl⟩
  | elapse elapsed ticks =>
    have stored (i : Fin VM_NUMBER) : ((loop.world.elapse ticks).connections i).stored = (loop.world.connections i).stored :=
      Connection.tick_stored _ _
    have asked (i : Fin VM_NUMBER) : ((loop.world.elapse ticks).connections i).asked = (loop.world.connections i).asked :=
      Connection.tick_asked _ _
    refine ⟨booted, ⟨valid.world.elapse ticks, valid.clocks, valid.ran, ?_, ?_, ?_⟩, Or.inl rfl⟩
    · simpa only [stored] using valid.ends
    · intro idle early
      obtain ⟨none, once⟩ := valid.booting idle early
      exact ⟨none, fun i => (asked i).trans_le (once i)⟩
    · intro underway current
      obtain ⟨own, place, begun⟩ := valid.underway underway current
      exact ⟨own, place, fun i => by rw [stored i]; exact begun i⟩
  | begin idle control chosen found bound => exact ⟨booted, valid.begin control chosen bound, Or.inl rfl⟩
  | command current pass sent => exact ⟨booted, valid.command current (valid.world.send sent) pass sent, Or.inl rfl⟩
  | @poll underway later current pass tested =>
    obtain ⟨own, place, begun⟩ := valid.underway _ current
    simp only [Underway.At, pass] at place
    refine ⟨booted, ?_, Or.inl rfl⟩
    rcases tested_cases tested with rfl | rfl
    all_goals exact valid.proceed valid.world rfl (fun _ => rfl) (own.skip pass (by simp) fun _ => ⟨rfl, rfl⟩) place begun
  | stress current pass sent => exact ⟨booted, valid.stress current (valid.world.poll sent) pass sent, Or.inl rfl⟩
  | ready tap current pass selected => exact ⟨booted, valid.ready current (valid.world.ready selected) tap pass selected, Or.inl rfl⟩
  | @quiet underway tap current pass =>
    obtain ⟨own, place, begun⟩ := valid.underway _ current
    have open_loop := (own.waiting pass (by simp) fun _ => rfl).1
    have tapped := own.tap pass (by simp) (fun _ => rfl) none tap underway.stop_time
    have same : (underway.running.has_got_stop_event || Poll.stops { qmp_line := none }) = underway.running.has_got_stop_event :=
      Bool.or_false _
    rw [same] at tapped
    refine ⟨booted, valid.proceed valid.world rfl (fun _ => rfl) tapped ?_ begun, Or.inl rfl⟩
    simp only [Underway.At, pass] at place
    apply Underway.tap_at.mpr
    rw [open_loop]
    exact place
  | boot idle returned =>
    have early : loop.world.control ≠ .choose := World.line_reads returned
    exact ⟨_, valid.boot idle returned (line returned), Or.inr (valid.booting idle early).1⟩
  | answer current pass read returned => exact ⟨booted, valid.answer current (line returned) pass read returned, Or.inl rfl⟩
  | clock current pass returned stored => exact ⟨booted, valid.clock current (line returned) pass returned stored, Or.inl rfl⟩
  | other current pass returned waiting => exact ⟨booted, valid.other current (line returned) pass returned waiting, Or.inl rfl⟩
  | receive read current pass received =>
    obtain ⟨own, place, begun⟩ := valid.underway _ current
    refine ⟨booted, valid.proceed valid.world rfl (fun _ => rfl) (own.receive pass received) ?_ begun, Or.inl rfl⟩
    simpa only [Underway.At, pass] using place
  | @deliver underway qmp_line packet current pass =>
    obtain ⟨own, place, begun⟩ := valid.underway _ current
    refine ⟨booted, valid.proceed valid.world rfl (fun _ => rfl) (own.deliver pass loop.now) ?_ begun, Or.inl rfl⟩
    simp only [Underway.At, pass] at place
    simp only [Underway.At, place]
    cases underway.running.has_got_stop_event
    · rfl
    · exact Or.inl rfl

end MainLoop
end NetworkSimulator.Simulator
