import NetworkSimulator.Proofs.LoopStamps

/-! Conservative lookahead among the monitors. A machine is told to stop where
another one could still send to it, and it stops soon after, so a frame never
reaches a machine that is past it by more than that. -/

namespace NetworkSimulator.Simulator
variable {VM_NUMBER : Nat} {monitor : Monitor} {links : Links VM_NUMBER} {eps : Nat}

/-- QEMU deals with a timer no later than `eps` after it has expired. -/
def Event.Prompt (eps : Nat) (loop : MainLoop VM_NUMBER) : Event VM_NUMBER → Prop
  | .stop i _ => ∀ expire_time ∈ (loop.world.connections i).timers,
      (loop.world.connections i).virtual_clock_ns ≤ expire_time + eps
  | _ => True

instance (eps : Nat) (loop : MainLoop VM_NUMBER) : (event : Event VM_NUMBER) → Decidable (event.Prompt eps loop)
  | .stop _ _ => inferInstanceAs (Decidable (∀ _ ∈ _, _))
  | .execute _ _ | .event _ _ | .elapse _ _ | .begin | .send | .poll | .select _ _ | .read _ | .line | .receive _ | .deliver =>
    isTrue trivial

namespace Connection
variable {connection next : Connection} {clock duration_ms : Nat}

/-- A slice that is over has not taken more than `eps` too long. -/
def Ended (eps clock duration_ms : Nat) (connection : Connection) : Prop :=
  connection.begins = [] → connection.timers = [] → connection.virtual_clock_ns ≤ delayed clock duration_ms + eps

/-- The one step that ends a slice deals with its timer. -/
theorem Ended.serves (ended : connection.Ended eps clock duration_ms) (commanded : connection.Commanded clock duration_ms)
    (serves : connection.Serves monitor next)
    (prompt : (∀ expire_time ∈ connection.timers, connection.virtual_clock_ns ≤ expire_time + eps) ∨ connection.timers ⊆ next.timers) :
    next.Ended eps clock duration_ms := by
  intro commands timers
  rw [serves.still]
  cases commanded with
  | sent command none _ =>
    cases serves with
    | execute executed =>
      obtain ⟨first, rest, socket, lines, split, rfl⟩ := execute_cases executed
      have begins := begins_cons split
      cases first with
      | run_time_slice other => exact absurd timers (List.append_ne_nil_of_right_ne_nil _ (List.cons_ne_nil _ _))
      | _ =>
        rw [begins] at command
        change rest.filter Command.begins = [] at commands
        simp [Command.begins, commands] at command
    | stop stopped =>
      obtain ⟨_, _, _, _, armed, _⟩ := stop_cases stopped
      rw [none] at armed
      cases armed
    | other same =>
      have begins : next.begins = connection.begins := congrArg (·.1) same
      rw [commands, command] at begins
      cases begins
  | armed _ timer =>
    have present : delayed clock duration_ms ∈ connection.timers := by
      rw [timer]
      exact List.mem_singleton_self _
    rcases prompt with in_time | stays
    · exact in_time _ present
    · have later := stays present
      rw [timers] at later
      cases later
  | expired before gone _ => exact ended before gone

theorem Ended.tick (ended : connection.Ended eps clock duration_ms) (still : connection.timers = [] → connection.running = false)
    (elapsed : Nat) : (connection.tick elapsed).Ended eps clock duration_ms := by
  intro commands timers
  have same : (connection.tick elapsed).timers = connection.timers := by
    unfold Connection.tick
    split <;> rfl
  rw [same] at timers
  rw [tick_stopped (still timers)] at commands ⊢
  exact ended commands timers

/-- A machine that has not been told to run does not. -/
theorem Serves.unbegun (serves : connection.Serves monitor next) (frozen : connection.frozen.length + connection.timers.length = connection.slices)
    (unbegun : next.slices = 0) : connection.slices = 0 ∧ next.running = connection.running := by
  cases serves with
  | execute executed =>
    obtain ⟨command, commands, socket, lines, _, rfl⟩ := execute_cases executed
    cases command with
    | run_time_slice duration => cases unbegun
    | _ => exact ⟨unbegun, rfl⟩
  | stop stopped =>
    obtain ⟨expire_time, timers, socket, lines, armed, _, rfl⟩ := stop_cases stopped
    change connection.slices = 0 at unbegun
    rw [armed, List.length_cons] at frozen
    omega
  | other same =>
    exact ⟨(congrArg (·.2.2.2.2) same).symm.trans unbegun, congrArg (·.2.2.2.1) same⟩

end Connection

namespace World
variable {world after : World VM_NUMBER} {action : Action VM_NUMBER}

/-- A clock is stored for a machine that has come to rest. -/
theorem Valid.line_stored (valid : world.Valid monitor) (returned : world.line monitor = some after) (j : Fin VM_NUMBER) :
    (after.connections j).stored = (world.connections j).stored ∨
      ∃ time, (after.connections j).stored = (world.connections j).stored ++ [time] ∧ after.control.phase j = .idle := by
  have kept {i : Fin VM_NUMBER} buffer lines stops_read {control : Control VM_NUMBER} :
      ((world.goto i { world.connections i with buffer, lines, stops_read } control).connections j).stored =
        (world.connections j).stored := by
    apply goto_kept Connection.stored
    rfl
  by_cases answering : ∃ i rest, world.control = .answer i rest
  · obtain ⟨i, rest, control⟩ := answering
    have ordered := valid.ordered
    rw [control] at ordered
    obtain ⟨apart, _⟩ := List.nodup_cons.mp ordered
    obtain ⟨response, connection, read, ⟨time, times_read, rfl⟩ | ⟨later, _, rfl⟩⟩ := line_answer control returned
    · by_cases same : j = i
      · subst same
        obtain ⟨buffer, lines, rfl⟩ := Connection.read_line_cases read
        refine Or.inr ⟨time, congrArg Connection.stored (goto_self world j _ (.awaitNext rest)), ?_⟩
        simp only [World.goto, Control.awaitNext_phase, apart, if_false]
      · exact Or.inl (congrArg Connection.stored (goto_other world _ (.awaitNext rest) same))
    · obtain ⟨buffer, lines, rfl⟩ := Connection.read_line_cases read
      exact Or.inl (kept _ _ _)
  · simp only [World.line, Option.bind_eq_bind, Option.bind_eq_some_iff] at returned
    obtain ⟨i, _, ⟨response, connection⟩, read, returned⟩ := returned
    obtain ⟨buffer, lines, rfl⟩ := Connection.read_line_cases read
    left
    split at returned
    next => cases returned; exact kept _ _ _
    next => cases returned; exact kept _ _ _
    next => split at returned <;> cases returned <;> exact kept _ _ _
    next => split at returned <;> cases returned <;> exact kept _ _ _
    next first rest control => exact absurd ⟨first, rest, control⟩ answering
    next => cases returned

/-- What is known of the machines in the boot slices, when all start at one clock. -/
structure Leash (eps clock : Nat) (world : World VM_NUMBER) : Prop where
  fresh : ∀ i, (world.connections i).slices = 0 →
    (world.connections i).running = false ∧ (world.connections i).virtual_clock_ns = clock
  boot : ∀ i, (world.connections i).asked = 1 →
    (world.connections i).Commanded clock 10000 ∧ (world.connections i).Ended eps clock 10000

variable {clock : Nat}

/-- A machine without a timer stands still. -/
theorem Leash.still (leash : world.Leash eps clock) (valid : world.Valid monitor) {i : Fin VM_NUMBER}
    (timers : (world.connections i).timers = []) : (world.connections i).running = false := by
  by_cases begun : (world.connections i).slices = 0
  · exact (leash.fresh i begun).1
  · exact ((valid.connections i).counted.settled (Nat.pos_of_ne_zero begun) timers).1

theorem Leash.elapse (leash : world.Leash eps clock) (valid : world.Valid monitor) (ticks : Fin VM_NUMBER → Nat) :
    (world.elapse ticks).Leash eps clock where
  fresh i unbegun := by
    have same : ((world.connections i).tick (ticks i)).slices = (world.connections i).slices := by
      unfold Connection.tick
      split <;> rfl
    change ((world.connections i).tick (ticks i)).slices = 0 at unbegun
    rw [same] at unbegun
    obtain ⟨stopped, started⟩ := leash.fresh i unbegun
    change ((world.connections i).tick (ticks i)).running = false ∧ ((world.connections i).tick (ticks i)).virtual_clock_ns = clock
    rw [Connection.tick_stopped stopped]
    exact ⟨stopped, started⟩
  boot i once := by
    change ((world.connections i).tick (ticks i)).asked = 1 at once
    rw [Connection.tick_asked] at once
    obtain ⟨commanded, ended⟩ := leash.boot i once
    exact ⟨commanded.tick _ (leash.still valid), ended.tick (leash.still valid) _⟩

theorem Leash.step (leash : world.Leash eps clock) (valid : world.Valid monitor) (taken : world.step monitor links action = some after)
    (untimed : ∀ i elapsed, action ≠ .tick i elapsed) (prompt : ∀ i text, action = .stop i text →
      ∀ expire_time ∈ (world.connections i).timers, (world.connections i).virtual_clock_ns ≤ expire_time + eps) :
    after.Leash eps clock := by
  constructor
  · intro i unbegun
    have treats := step_machine taken i
    generalize after.connections i = next at treats unbegun ⊢
    cases treats with
    | serve serves asked timers =>
      obtain ⟨none, running⟩ := serves.unbegun (valid.connections i).counted.begun unbegun
      rw [running, serves.still]
      exact leash.fresh i none
    | tick elapsed => exact absurd rfl (untimed i elapsed)
    | boot control => exact leash.fresh i unbegun
    | command duration control => exact leash.fresh i unbegun
  · intro i once
    have treats := step_machine taken i
    generalize after.connections i = next at treats once ⊢
    cases treats with
    | serve serves asked timers =>
      obtain ⟨commanded, ended⟩ := leash.boot i (asked.symm.trans once)
      refine ⟨commanded.serves serves, ended.serves commanded serves (timers.imp_left fun stops => ?_)⟩
      obtain ⟨text, stops⟩ := stops
      exact prompt i text stops
    | tick elapsed => exact absurd rfl (untimed i elapsed)
    | @boot rest control =>
      have own := (valid.connections i).stage
      rw [control] at own
      simp only [Control.phase, true_or, if_true] at own
      obtain ⟨resting, none⟩ := own
      have asked := (valid.connections i).counted.asked
      have begins : (world.connections i).begins = [] := resting.begins
      have sent := Connection.sent_begins (world.connections i) 10000 begins
      refine ⟨.sent sent resting.timers (leash.fresh i (by omega)).2, fun done => ?_⟩
      rw [sent] at done
      cases done
    | command duration control =>
      have own := (valid.connections i).stage
      rw [control] at own
      obtain ⟨_, begun⟩ := own
      change (world.connections i).asked + 1 = 1 at once
      omega

end World

/-- No slice takes more than `eps` longer than commanded. -/
def Overshoot (links : Links VM_NUMBER) (eps : Nat) (state : State VM_NUMBER) (slice : Slice) : Prop :=
  ∀ vm ∈ current_vm_index state.virtual_clocks_ns, ∀ duration ∈ duration_to_run_ns links state.virtual_clocks_ns vm,
    slice.virtual_end_time_ns ≤ delayed (state.virtual_clocks_ns vm) (commanded_duration_ms duration) + eps

namespace MainLoop
variable {booted : Fin VM_NUMBER → Nat} {clock : Nat} {loop next : MainLoop VM_NUMBER} {event : Event VM_NUMBER}

/-- What a step does to the world. -/
theorem Step.world (taken : Step monitor links loop event next) : next.world = loop.world ∨
    (∃ elapsed ticks, event = .elapse elapsed ticks ∧ next.world = loop.world.elapse ticks) ∨
    ∃ action, loop.world.step monitor links action = some next.world ∧ (∀ i elapsed, action ≠ .tick i elapsed) ∧
      ∀ i text, action = .stop i text → event = .stop i text := by
  cases taken with
  | @beside event action world allowed stepped named =>
    refine Or.inr (Or.inr ⟨action, stepped, fun i elapsed same => ?_, named⟩)
    rw [same] at allowed
    exact allowed
  | elapse elapsed ticks => exact Or.inr (Or.inl ⟨elapsed, ticks, rfl, rfl⟩)
  | begin idle control chosen found bound => exact Or.inl rfl
  | command current pass sent => exact Or.inr (Or.inr ⟨.send, sent, nofun, nofun⟩)
  | poll current pass tested => exact Or.inl rfl
  | stress current pass sent => exact Or.inr (Or.inr ⟨.poll, sent, nofun, nofun⟩)
  | ready tap current pass selected => exact Or.inr (Or.inr ⟨.ready, selected, nofun, nofun⟩)
  | quiet tap current pass => exact Or.inl rfl
  | boot idle returned => exact Or.inr (Or.inr ⟨.line, returned, nofun, nofun⟩)
  | answer current pass read returned => exact Or.inr (Or.inr ⟨.line, returned, nofun, nofun⟩)
  | clock current pass returned stored => exact Or.inr (Or.inr ⟨.line, returned, nofun, nofun⟩)
  | other current pass returned waiting => exact Or.inr (Or.inr ⟨.line, returned, nofun, nofun⟩)
  | receive read current pass received => exact Or.inl rfl
  | deliver current pass => exact Or.inl rfl

theorem Step.leash (leash : loop.world.Leash eps clock) (valid : loop.world.Valid monitor) (taken : Step monitor links loop event next)
    (prompt : event.Prompt eps loop) : next.world.Leash eps clock := by
  rcases taken.world with same | ⟨elapsed, ticks, _, same⟩ | ⟨action, moved, untimed, named⟩
  · rwa [same]
  · rw [same]
    exact leash.elapse valid ticks
  · refine leash.step valid moved untimed fun i text stops => ?_
    rw [named i text stops] at prompt
    exact prompt

/-- A clock is stored for a machine that has come to rest. -/
theorem Step.stored (valid : loop.world.Valid monitor) (taken : Step monitor links loop event next) (j : Fin VM_NUMBER) :
    (next.world.connections j).stored = (loop.world.connections j).stored ∨
      ∃ time, (next.world.connections j).stored = (loop.world.connections j).stored ++ [time] ∧
        next.world.control.phase j = .idle := by
  cases taken with
  | beside allowed moved => exact Or.inl ((beside_kept allowed moved).2.1 j)
  | elapse elapsed ticks => exact Or.inl (Connection.tick_stored _ _)
  | begin idle control chosen found bound => exact Or.inl rfl
  | command current pass sent => exact Or.inl (World.send_stored sent j)
  | poll current pass tested => exact Or.inl rfl
  | stress current pass sent =>
    left
    obtain ⟨i, _, rfl⟩ := World.poll_cases sent
    apply World.goto_kept Connection.stored
    rfl
  | ready tap current pass selected => exact Or.inl (congrArg Connection.stored (congrFun (World.ready_connections selected).1 j))
  | quiet tap current pass => exact Or.inl rfl
  | boot idle returned => exact valid.line_stored returned j
  | answer current pass read returned => exact valid.line_stored returned j
  | clock current pass returned stored => exact valid.line_stored returned j
  | other current pass returned waiting => exact valid.line_stored returned j
  | receive read current pass received => exact Or.inl rfl
  | deliver current pass => exact Or.inl rfl

/-- The boot slice ends within `eps` of its end. -/
def Booted (eps clock : Nat) (loop : MainLoop VM_NUMBER) : Prop := ∀ i, (loop.world.connections i).stored ≠ [] →
  delayed clock 10000 ≤ (loop.world.connections i).stored.headD 0 ∧
    (loop.world.connections i).stored.headD 0 ≤ delayed clock 10000 + eps

theorem Booted.step (before : loop.Booted eps clock) (valid : loop.world.Valid monitor) (kept : next.world.Valid monitor)
    (leash : next.world.Leash eps clock) (taken : Step monitor links loop event next) : next.Booted eps clock := by
  intro i some_clock
  rcases taken.stored valid i with same | ⟨time, same, idle⟩
  · rw [same] at some_clock ⊢
    exact before i some_clock
  · by_cases first : (loop.world.connections i).stored = []
    · rw [first, List.nil_append] at same
      have standing := kept.idle_clock idle
      rw [kept.clocks, same] at standing
      have stage := (kept.connections i).stage
      rw [idle] at stage
      obtain ⟨resting, _⟩ := stage
      have clocks := resting.clocks
      rw [same] at clocks
      obtain ⟨commanded, ended⟩ := leash.boot i clocks.symm
      have low := commanded.rested resting.pending resting.timers
      have high := ended resting.begins resting.timers
      rw [same]
      rw [← standing] at low high
      exact ⟨low, high⟩
    · obtain ⟨head, rest, cons⟩ := List.exists_cons_of_ne_nil first
      have known := before i first
      rw [cons] at known
      rw [same, cons]
      exact known

/-- The current machine, once it has been told to run. -/
def Ends (links : Links VM_NUMBER) (eps : Nat) (loop : MainLoop VM_NUMBER) : Prop :=
  ∀ underway, loop.underway = some underway → underway.pass ≠ .starting →
    ∀ duration ∈ duration_to_run_ns links loop.state.virtual_clocks_ns underway.current_vm_index,
      (loop.world.connections underway.current_vm_index).Ended eps (loop.state.virtual_clocks_ns underway.current_vm_index)
        (commanded_duration_ms duration)

/-- An iteration goes on, or it has just sent its command. -/
theorem Step.continues (taken : Step monitor links loop event next) {underway : Underway VM_NUMBER} (current : next.underway = some underway)
    (begun : underway.pass ≠ .starting) : next.state = loop.state ∧ ∃ before, loop.underway = some before ∧
      before.current_vm_index = underway.current_vm_index ∧ (before.pass = .starting → loop.world.send links = some next.world) := by
  cases taken with
  | beside allowed moved => exact ⟨rfl, underway, current, rfl, fun start => absurd start begun⟩
  | elapse elapsed ticks => exact ⟨rfl, underway, current, rfl, fun start => absurd start begun⟩
  | begin idle control chosen found bound =>
    cases current
    exact absurd rfl begun
  | command active pass sent =>
    cases current
    exact ⟨rfl, _, active, rfl, fun _ => sent⟩
  | poll active pass tested =>
    cases current
    exact ⟨rfl, _, active, rfl, by simp [pass]⟩
  | stress active pass sent =>
    cases current
    exact ⟨rfl, _, active, rfl, by simp [pass]⟩
  | ready tap active pass selected =>
    cases current
    exact ⟨rfl, _, active, rfl, by simp [pass]⟩
  | quiet tap active pass =>
    cases current
    exact ⟨rfl, _, active, rfl, by simp [pass]⟩
  | boot idle returned =>
    change loop.underway = _ at current
    rw [idle] at current
    cases current
  | answer active pass read returned =>
    cases current
    exact ⟨rfl, _, active, rfl, by simp [pass]⟩
  | clock active pass returned stored => cases current
  | other active pass returned waiting => exact ⟨rfl, underway, current, rfl, fun start => absurd start begun⟩
  | receive read active pass received =>
    cases current
    exact ⟨rfl, _, active, rfl, by simp [pass]⟩
  | deliver active pass =>
    cases current
    exact ⟨rfl, _, active, rfl, by simp [pass]⟩

/-- Once the command has been sent `main` is in its polling loop or behind it. -/
theorem at_polling {underway : Underway VM_NUMBER} {control : Control VM_NUMBER} (place : underway.At control) (begun : underway.pass ≠ .starting) :
    (∀ i, control.phase i = if i = underway.current_vm_index then control.phase i else .idle) ∧
      control ≠ .choose ∧ ∀ i rest, control ≠ .boot i rest := by
  have polling : control = .listen underway.current_vm_index ∨ control = .receive underway.current_vm_index ∨
      control = .query underway.current_vm_index [] ∨ control = .answer underway.current_vm_index [] := by
    cases pass : underway.pass with
    | starting => exact absurd pass begun
    | polling =>
      simp only [Underway.At, pass] at place
      exact Or.inl place
    | stressing =>
      simp only [Underway.At, pass] at place
      exact Or.inl place
    | selecting =>
      simp only [Underway.At, pass] at place
      exact Or.inl place
    | answering tap =>
      simp only [Underway.At, pass] at place
      exact Or.inr (Or.inl place)
    | receiving qmp_line =>
      simp only [Underway.At, pass] at place
      rw [place]
      split
      · exact Or.inr (Or.inr (Or.inl rfl))
      · exact Or.inl rfl
    | delivering qmp_line packet =>
      simp only [Underway.At, pass] at place
      rw [place]
      split
      · exact Or.inr (Or.inr (Or.inl rfl))
      · exact Or.inl rfl
    | stopped =>
      simp only [Underway.At, pass] at place
      exact Or.inr (Or.inr place)
  rcases polling with rfl | rfl | rfl | rfl <;> exact ⟨fun i => by split <;> simp [Control.phase, *], by simp, by simp⟩

theorem Ends.step (before : loop.Ends links eps) (valid : Valid monitor links booted loop)
    (timed : ∀ underway, loop.underway = some underway → loop.Timed links underway) (leash : loop.world.Leash eps clock)
    (taken : Step monitor links loop event next) (prompt : event.Prompt eps loop) : next.Ends links eps := by
  intro underway current begun duration found
  obtain ⟨state, busy, active, same, start⟩ := taken.continues current begun
  rw [state, ← same] at found ⊢
  obtain ⟨own, place, _⟩ := valid.underway busy active
  by_cases starting : busy.pass = .starting
  · -- The command is still on its way.
    simp only [Underway.At, starting] at place
    have chosen := own.chosen
    rw [valid.clocks] at chosen
    obtain ⟨again, _, world⟩ := World.send_choose place chosen (start starting)
    have resting := (valid.world.connections busy.current_vm_index).stage
    rw [place] at resting
    intro none
    rw [world, World.goto_self, Connection.sent_begins _ _ resting.1.begins] at none
    cases none
  · obtain ⟨_, elsewhere, later⟩ := at_polling place starting
    have ended := before busy active starting duration found
    obtain ⟨again, known, commanded⟩ := (timed busy active).commanded starting
    obtain rfl := Option.some.inj (known.symm.trans found)
    rcases taken.world with same | ⟨elapsed, ticks, _, same⟩ | ⟨action, moved, untimed, named⟩
    · rwa [same]
    · rw [same]
      exact ended.tick (leash.still valid.world) _
    · have treats := World.step_machine moved busy.current_vm_index
      generalize next.world.connections busy.current_vm_index = machine at treats ⊢
      cases treats with
      | serve serves asked timers =>
        refine ended.serves commanded serves (timers.imp_left fun stops => ?_)
        obtain ⟨text, stops⟩ := stops
        rw [named _ text stops] at prompt
        exact prompt
      | tick elapsed => exact absurd rfl (untimed _ elapsed)
      | boot control => exact absurd control (later _ _)
      | command duration control => exact absurd control elsewhere

/-- What promptness leaves to be said of a run. -/
structure Prompted (links : Links VM_NUMBER) (eps clock : Nat) (booted : Fin VM_NUMBER → Nat) (loop : MainLoop VM_NUMBER) : Prop where
  leash : loop.world.Leash eps clock
  boot_slices : loop.Booted eps clock
  ends : loop.Ends links eps
  slices : Machine.Every (Simulator.step links) (Overshoot links eps) { virtual_clocks_ns := booted } loop.slices

theorem Prompted.start (links : Links VM_NUMBER) (eps clock now : Nat) :
    Prompted links eps clock (fun _ => 0) (start (fun _ => false) (fun _ => clock) now) where
  leash := ⟨fun _ _ => ⟨rfl, rfl⟩, fun _ once => nomatch once⟩
  boot_slices _ some_clock := absurd rfl some_clock
  ends _ none := nomatch none
  slices := trivial

theorem Prompted.step {later virtual_clock_ns : Fin VM_NUMBER → Nat} {now : Nat} (before : Prompted links eps clock booted loop)
    (valid : Valid monitor links booted loop) (held : Paced links virtual_clock_ns now booted loop) (kept : Valid monitor links later next)
    (same : later = booted ∨ next.slices = []) (taken : Step monitor links loop event next) (prompt : event.Prompt eps loop) :
    Prompted links eps clock later next := by
  have leash := taken.leash before.leash valid.world prompt
  refine ⟨leash, before.boot_slices.step valid.world kept.world leash taken,
    before.ends.step valid held.underway before.leash taken prompt, ?_⟩
  rcases same with rfl | none
  · cases taken with
    | @clock underway world current pass returned stored =>
      refine Machine.Every.snoc_iff.mpr ⟨before.slices, fun state ran => ?_⟩
      obtain rfl := Option.some.inj (valid.ran.symm.trans ran)
      obtain ⟨own, _, _⟩ := valid.underway underway current
      intro vm chosen duration found
      obtain rfl := Option.some.inj (own.chosen.symm.trans chosen)
      have begun : underway.pass ≠ .starting := by simp [pass]
      obtain ⟨again, known, commanded⟩ := (held.underway underway current).commanded begun
      obtain rfl := Option.some.inj (known.symm.trans found)
      have ended := (before.ends underway current begun again found).serves commanded (line_serves returned _)
        (Or.inr (by rw [World.line_kept Connection.timers (fun _ _ _ _ _ _ => rfl) returned]; exact List.Subset.refl _))
      have resting := (kept.world.connections underway.current_vm_index).stage
      change Connection.Stage _ (world.control.phase _) at resting
      have idle : world.control.phase underway.current_vm_index = .idle := by
        rw [stored]
        rfl
      rw [idle] at resting
      have standing := kept.world.idle_clock idle
      change world.virtual_clocks_ns underway.current_vm_index ≤ _
      rw [standing]
      exact ended resting.1.begins resting.1.timers
    | _ => exact before.slices
  · rw [none]
    trivial

end MainLoop

/-- No machine is ahead of another by more than what a frame takes to reach it and `eps`. -/
def Near (links : Links VM_NUMBER) (eps : Nat) (virtual_clocks_ns : Fin VM_NUMBER → Nat) : Prop :=
  ∀ i j, i ≠ j → virtual_clocks_ns i ≤ virtual_clocks_ns j + links.inter_vm_delays_ms i j * 1000000 + eps

theorem Iteration.near {state next : State VM_NUMBER} {vm : Fin VM_NUMBER} {slice : Slice} (iteration : Iteration links state vm slice next)
    (chosen : current_vm_index state.virtual_clocks_ns = some vm)
    (small : ∀ i j, state.virtual_clocks_ns j + links.inter_vm_delays_ms i j * 1000000 < 2 ^ 31 * 1000000)
    (credible : Plausible state slice) (overshoot : Overshoot links eps state slice) (before : Near links eps state.virtual_clocks_ns) :
    Near links eps next.virtual_clocks_ns := by
  obtain ⟨duration, found, same⟩ := Option.bind_eq_some_iff.mp iteration.bound
  have forward := (credible.2 vm chosen).1
  intro i j other
  rw [iteration.clocks]
  by_cases current : i = vm
  · subst current
    have behind := current_vm_index_le chosen j
    have fits := small i j
    have reach := limit_le behind (fits.trans (by decide)) iteration.bound other.symm
    have limit := Option.some.inj same
    change state.virtual_clocks_ns i + duration = iteration.limit at limit
    have short : duration_ms duration < 2 ^ 31 := by
      apply Nat.div_lt_of_lt_mul
      omega
    have whole : duration_ms duration * 1000000 ≤ duration := Nat.div_mul_le_self _ _
    have ended := overshoot i chosen duration found
    rw [commanded_duration_ms_eq (by omega) short, delayed_small (by omega)] at ended
    rw [Function.update_self, Function.update_of_ne other.symm]
    omega
  · rw [Function.update_of_ne current]
    have known := before i j other
    by_cases target : j = vm
    · -- The clock that is compared with only goes up.
      subst target
      rw [Function.update_self]
      omega
    · rwa [Function.update_of_ne target]

namespace MainLoop
variable {booted : Fin VM_NUMBER → Nat} {clock now : Nat} {loop : MainLoop VM_NUMBER}

theorem Prompted.near (prompted : Prompted links eps clock booted loop) (valid : Valid monitor links booted loop)
    (held : Paced links (fun _ => clock) now booted loop) (some_clock : ∀ i, (loop.world.connections i).stored ≠ [])
    (small : ∀ i j, clock + (loop.now - now) + links.inter_vm_delays_ms i j * 1000000 < 2 ^ 31 * 1000000) :
    Near links eps loop.state.virtual_clocks_ns := by
  have every := held.slices.and prompted.slices
  apply every.invariant (fun state => Near links eps state.virtual_clocks_ns) _ _ valid.ran
  · -- All boot slices end at the same time.
    intro i j _
    obtain ⟨_, high⟩ := prompted.boot_slices i (some_clock i)
    obtain ⟨low, _⟩ := prompted.boot_slices j (some_clock j)
    rw [← (valid.ends i).1] at high
    rw [← (valid.ends j).1] at low
    change booted i ≤ booted j + _ + eps
    omega
  · intro state slice next before met taken
    obtain ⟨⟨credible, _, bound⟩, overshoot⟩ := met
    obtain ⟨vm, chosen, ⟨iteration⟩⟩ := step_iteration taken
    refine iteration.near chosen (fun i j => ?_) credible overshoot before
    have fits := small i j
    have below := bound j
    omega

end MainLoop

end NetworkSimulator.Simulator
