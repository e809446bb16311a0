import NetworkSimulator.Proofs.CommandedSlices
import NetworkSimulator.Proofs.LinkOrder
import NetworkSimulator.Proofs.LoopReadings

/-! The clocks of the machines while the main loop runs. A machine runs as long as
it is told to and no longer than has passed on the host, so what the results on
slices ask of a slice is what the monitors do. -/

namespace NetworkSimulator.Simulator
variable {VM_NUMBER : Nat} {monitor : Monitor} {links : Links VM_NUMBER}

/-- `QEMU_CLOCK_VIRTUAL` counts the time of the host while the machine runs. -/
def Event.Paced : Event VM_NUMBER → Prop
  | .elapse elapsed ticks => ∀ i, ticks i ≤ elapsed
  | _ => True

instance : (event : Event VM_NUMBER) → Decidable event.Paced
  | .elapse _ _ => inferInstanceAs (Decidable (∀ _, _))
  | .execute _ _ | .event _ _ | .stop _ _ | .begin | .send | .poll | .select _ _ | .read _ | .line | .receive _ | .deliver =>
    isTrue trivial

/-- The machine has run for at least as long as it was commanded. -/
def Fulfilled (links : Links VM_NUMBER) (state : State VM_NUMBER) (slice : Slice) : Prop :=
  ∀ vm ∈ current_vm_index state.virtual_clocks_ns, ∀ duration ∈ duration_to_run_ns links state.virtual_clocks_ns vm,
    delayed (state.virtual_clocks_ns vm) (commanded_duration_ms duration) ≤ slice.virtual_end_time_ns

namespace MainLoop
variable {booted : Fin VM_NUMBER → Nat} {loop next : MainLoop VM_NUMBER} {event : Event VM_NUMBER} {action : Action VM_NUMBER}
  {world : World VM_NUMBER}

/-- A step is the passage of time, or it takes none. -/
theorem Step.timeless (taken : Step monitor links loop event next) :
    (∃ elapsed ticks, event = .elapse elapsed ticks ∧ next = { loop with world := loop.world.elapse ticks, now := loop.now + elapsed }) ∨
      (next.now = loop.now ∧
        ∀ i, (next.world.connections i).virtual_clock_ns = (loop.world.connections i).virtual_clock_ns) := by
  have line {world : World VM_NUMBER} (returned : loop.world.line monitor = some world) (i : Fin VM_NUMBER) :
      (world.connections i).virtual_clock_ns = (loop.world.connections i).virtual_clock_ns :=
    World.line_kept Connection.virtual_clock_ns (fun _ _ _ _ _ _ => rfl) returned i
  cases taken with
  | beside allowed moved =>
    refine Or.inr ⟨rfl, World.step_clock moved fun i elapsed same => ?_⟩
    rw [same] at allowed
    exact allowed
  | elapse elapsed ticks => exact Or.inl ⟨elapsed, ticks, rfl, rfl⟩
  | begin idle control chosen found bound => exact Or.inr ⟨rfl, fun _ => rfl⟩
  | command current pass sent =>
    have moved : loop.world.step monitor links .send = some _ := sent
    exact Or.inr ⟨rfl, World.step_clock moved (by simp)⟩
  | poll current pass tested => exact Or.inr ⟨rfl, fun _ => rfl⟩
  | stress current pass sent =>
    have moved : loop.world.step monitor links .poll = some _ := sent
    exact Or.inr ⟨rfl, World.step_clock moved (by simp)⟩
  | ready tap current pass selected =>
    have moved : loop.world.step monitor links .ready = some _ := selected
    exact Or.inr ⟨rfl, World.step_clock moved (by simp)⟩
  | quiet tap current pass => exact Or.inr ⟨rfl, fun _ => rfl⟩
  | boot idle returned => exact Or.inr ⟨rfl, line returned⟩
  | answer current pass read returned => exact Or.inr ⟨rfl, line returned⟩
  | clock current pass returned stored => exact Or.inr ⟨rfl, line returned⟩
  | other current pass returned waiting => exact Or.inr ⟨rfl, line returned⟩
  | receive read current pass received => exact Or.inr ⟨rfl, fun _ => rfl⟩
  | deliver current pass => exact Or.inr ⟨rfl, fun _ => rfl⟩

/-- An iteration keeps its start time, and the state it has begun in. -/
theorem Step.started (taken : Step monitor links loop event next) {underway : Underway VM_NUMBER} (current : next.underway = some underway) :
    next.state = loop.state ∧ (underway.start_exec_time = loop.now ∨
      ∃ before, loop.underway = some before ∧ underway.start_exec_time = before.start_exec_time) := by
  have goes_on {before later : Underway VM_NUMBER} (active : loop.underway = some before) (same : some later = some underway)
      (kept : later.start_exec_time = before.start_exec_time) : underway.start_exec_time = loop.now ∨
      ∃ before, loop.underway = some before ∧ underway.start_exec_time = before.start_exec_time := by
    cases same
    exact Or.inr ⟨before, active, kept⟩
  cases taken with
  | beside allowed moved => exact ⟨rfl, Or.inr ⟨underway, current, rfl⟩⟩
  | elapse elapsed ticks => exact ⟨rfl, Or.inr ⟨underway, current, rfl⟩⟩
  | begin idle control chosen found bound =>
    cases current
    exact ⟨rfl, Or.inl rfl⟩
  | command active pass sent => exact ⟨rfl, goes_on active current rfl⟩
  | poll active pass tested => exact ⟨rfl, goes_on active current rfl⟩
  | stress active pass sent => exact ⟨rfl, goes_on active current rfl⟩
  | ready tap active pass selected => exact ⟨rfl, goes_on active current rfl⟩
  | quiet tap active pass => exact ⟨rfl, goes_on active current rfl⟩
  | boot idle returned =>
    rw [idle] at current
    cases current
  | answer active pass read returned => exact ⟨rfl, goes_on active current rfl⟩
  | clock active pass returned stored => cases current
  | other active pass returned waiting => exact ⟨rfl, Or.inr ⟨underway, current, rfl⟩⟩
  | receive read active pass received => exact ⟨rfl, goes_on active current rfl⟩
  | deliver active pass => exact ⟨rfl, goes_on active current rfl⟩

/-- The clocks stored are not ahead of the machines. -/
def Behind (loop : MainLoop VM_NUMBER) : Prop := ∀ i, loop.world.virtual_clocks_ns i ≤ (loop.world.connections i).virtual_clock_ns

theorem Behind.step (behind : loop.Behind) (valid : loop.world.Valid monitor) (kept : next.world.Valid monitor)
    (taken : Step monitor links loop event next) : next.Behind := by
  intro i
  have forward : (loop.world.connections i).virtual_clock_ns ≤ (next.world.connections i).virtual_clock_ns := by
    rcases taken.timeless with ⟨elapsed, ticks, _, rfl⟩ | ⟨_, same⟩
    · exact (Connection.tick_clock _ _).1
    · exact (same i).ge
  have stored : next.world.virtual_clocks_ns i = loop.world.virtual_clocks_ns i ∨
      next.world.virtual_clocks_ns i = (next.world.connections i).virtual_clock_ns := by
    cases taken with
    | beside allowed moved => exact Or.inl (congrFun (beside_kept allowed moved).1 i)
    | command current pass sent => exact Or.inl (congrFun (World.send_clocks sent) i)
    | stress current pass sent =>
      obtain ⟨j, _, rfl⟩ := World.poll_cases sent
      exact Or.inl rfl
    | ready tap current pass selected => exact Or.inl (congrFun (World.ready_connections selected).2 i)
    | boot idle returned => exact valid.line_clock kept returned i
    | answer current pass read returned => exact valid.line_clock kept returned i
    | clock current pass returned stored => exact valid.line_clock kept returned i
    | other current pass returned waiting => exact valid.line_clock kept returned i
    | elapse elapsed ticks => exact Or.inl rfl
    | begin idle control chosen found bound => exact Or.inl rfl
    | poll current pass tested => exact Or.inl rfl
    | quiet tap current pass => exact Or.inl rfl
    | receive read current pass received => exact Or.inl rfl
    | deliver current pass => exact Or.inl rfl
  rcases stored with same | present
  · rw [same]
    exact (behind i).trans forward
  · exact present.le

/-- What the steps beside an iteration do to a machine. -/
theorem beside_serves (allowed : loop.Beside action) (taken : loop.world.step monitor links action = some world) {underway : Underway VM_NUMBER}
    (current : loop.underway = some underway) (place : underway.At loop.world.control) (j : Fin VM_NUMBER) :
    (loop.world.connections j).Serves monitor (world.connections j) := by
  have treats := World.step_machine taken j
  generalize world.connections j = next at treats ⊢
  -- No slice is commanded once STOP has been read.
  have ended (sent : loop.Beside .send) : loop.world.control = .query underway.current_vm_index [] ∨
      loop.world.control = .answer underway.current_vm_index [] := by
    rcases sent with ⟨idle, _⟩ | ⟨other, again, pass⟩
    · rw [current] at idle
      cases idle
    · obtain rfl := Option.some.inj (current.symm.trans again)
      simpa only [Underway.At, pass] using place
  cases treats with
  | serve serves asked timers => exact serves
  | tick elapsed => cases allowed
  | boot control =>
    have elsewhere := ended allowed
    simp [control] at elsewhere
  | command duration control =>
    have elsewhere := ended allowed
    simp [control] at elsewhere

/-- A machine whose slice is under way: it has not run for longer than has passed
since the start time, until STOP is read, and it runs for as long as commanded. -/
structure Timed (links : Links VM_NUMBER) (loop : MainLoop VM_NUMBER) (underway : Underway VM_NUMBER) : Prop where
  started : underway.start_exec_time ≤ loop.now
  within : (loop.world.connections underway.current_vm_index).virtual_clock_ns ≤
    loop.state.virtual_clocks_ns underway.current_vm_index +
      ((if underway.running.has_got_stop_event then underway.stop_time else loop.now) - underway.start_exec_time)
  commanded : underway.pass ≠ .starting → ∃ duration,
    duration_to_run_ns links loop.state.virtual_clocks_ns underway.current_vm_index = some duration ∧
    (loop.world.connections underway.current_vm_index).Commanded (loop.state.virtual_clocks_ns underway.current_vm_index)
      (commanded_duration_ms duration)

section
variable {underway : Underway VM_NUMBER}

/-- Within an iteration the limit is set by the reading at STOP or by the time it is. -/
theorem Timed.proceed (timed : loop.Timed links underway) {running : Running VM_NUMBER} {pass : Pass} {polls : List Poll} {stop_time : Nat}
    (limit : (if running.has_got_stop_event then stop_time else loop.now) =
      if underway.running.has_got_stop_event then underway.stop_time else loop.now)
    (clock : (world.connections underway.current_vm_index).virtual_clock_ns =
      (loop.world.connections underway.current_vm_index).virtual_clock_ns)
    (served : pass ≠ .starting → underway.pass ≠ .starting ∧
      (loop.world.connections underway.current_vm_index).Serves monitor (world.connections underway.current_vm_index)) :
    Timed links (loop.proceed { underway with running, pass, polls, stop_time } world) { underway with running, pass, polls, stop_time } where
  started := timed.started
  within := by
    change (world.connections underway.current_vm_index).virtual_clock_ns ≤ loop.state.virtual_clocks_ns underway.current_vm_index +
      ((if running.has_got_stop_event then stop_time else loop.now) - underway.start_exec_time)
    rw [limit, clock]
    exact timed.within
  commanded sent := by
    obtain ⟨before, serves⟩ := served sent
    obtain ⟨duration, found, commanded⟩ := timed.commanded before
    exact ⟨duration, found, commanded.serves serves⟩

theorem Timed.stay (timed : loop.Timed links underway)
    (clock : (world.connections underway.current_vm_index).virtual_clock_ns =
      (loop.world.connections underway.current_vm_index).virtual_clock_ns)
    (serves : (loop.world.connections underway.current_vm_index).Serves monitor (world.connections underway.current_vm_index)) :
    Timed links { loop with world } underway := by
  have moved : Timed links (loop.proceed underway world) underway :=
    @Timed.proceed _ monitor links loop world underway timed underway.running underway.pass underway.polls underway.stop_time rfl clock
      fun sent => ⟨sent, serves⟩
  exact ⟨moved.started, moved.within, moved.commanded⟩

/-- A machine whose STOP has been read stands still. -/
theorem Valid.standing (valid : Valid monitor links booted loop) (current : loop.underway = some underway)
    (stopped : underway.running.has_got_stop_event) : (loop.world.connections underway.current_vm_index).running = false := by
  obtain ⟨own, place, begun⟩ := valid.underway underway current
  apply valid.world.standing (begun _)
  have querying : loop.world.control.phase underway.current_vm_index = .querying := by
    cases pass : underway.pass with
    | starting => simp [(own.waiting pass (by simp) fun _ => rfl).1] at stopped
    | polling => simp [(own.waiting pass (by simp) fun _ => rfl).1] at stopped
    | stressing => simp [(own.waiting pass (by simp) fun _ => rfl).1] at stopped
    | selecting => simp [(own.waiting pass (by simp) fun _ => rfl).1] at stopped
    | answering tap => simp [(own.waiting pass (by simp) fun _ => rfl).1] at stopped
    | receiving qmp_line =>
      simp only [Underway.At, pass, stopped, if_true] at place
      simp only [place, Control.phase, if_true]
    | delivering qmp_line packet =>
      simp only [Underway.At, pass, stopped, if_true] at place
      simp only [place, Control.phase, if_true]
    | stopped =>
      simp only [Underway.At, pass] at place
      rcases place with query | answer
      · simp only [query, Control.phase, if_true]
      · simp only [answer, Control.phase, if_true]
  have stage := (valid.world.connections underway.current_vm_index).stage
  rw [querying] at stage
  exact stage.timers

theorem Timed.elapse (timed : loop.Timed links underway) (valid : Valid monitor links booted loop) (current : loop.underway = some underway)
    {elapsed : Nat} {ticks : Fin VM_NUMBER → Nat} (paced : ∀ i, ticks i ≤ elapsed) :
    Timed links { loop with world := loop.world.elapse ticks, now := loop.now + elapsed } underway where
  started := timed.started.trans (Nat.le_add_right _ _)
  within := by
    have within := timed.within
    change ((loop.world.connections underway.current_vm_index).tick (ticks underway.current_vm_index)).virtual_clock_ns ≤
      loop.state.virtual_clocks_ns underway.current_vm_index +
        ((if underway.running.has_got_stop_event then underway.stop_time else loop.now + elapsed) - underway.start_exec_time)
    by_cases stopped : underway.running.has_got_stop_event
    · rw [Connection.tick_stopped (valid.standing current stopped), if_pos stopped]
      rwa [if_pos stopped] at within
    · rw [if_neg stopped] at within ⊢
      have started := timed.started
      have slow := paced underway.current_vm_index
      have ticked := (Connection.tick_clock (loop.world.connections underway.current_vm_index) (ticks underway.current_vm_index)).2
      omega
  commanded sent := by
    obtain ⟨duration, found, commanded⟩ := timed.commanded sent
    obtain ⟨_, _, begun⟩ := valid.underway underway current
    exact ⟨duration, found, commanded.tick _ (valid.world.standing (begun _))⟩

/-- The command carries the clock the machine stands at. -/
theorem Timed.command (timed : loop.Timed links underway) (valid : Valid monitor links booted loop) (current : loop.underway = some underway)
    (pass : underway.pass = .starting) (sent : loop.world.send links = some world) :
    Timed links (loop.proceed { underway with pass := .polling } world) { underway with pass := .polling } := by
  obtain ⟨own, place, _⟩ := valid.underway underway current
  simp only [Underway.At, pass] at place
  have chosen := own.chosen
  rw [valid.clocks] at chosen
  obtain ⟨duration, found, rfl⟩ := World.send_choose place chosen sent
  have resting := (valid.world.connections underway.current_vm_index).stage
  rw [place] at resting
  obtain ⟨rest, _⟩ := resting
  have moved := World.goto_self loop.world underway.current_vm_index
    ((loop.world.connections underway.current_vm_index).send (.run_time_slice (commanded_duration_ms duration)))
    (.listen underway.current_vm_index)
  refine ⟨timed.started, ?_, fun _ => ⟨duration, ?_, ?_⟩⟩
  · have within := timed.within
    change ((loop.world.goto _ _ _).connections underway.current_vm_index).virtual_clock_ns ≤ _
    rw [moved]
    exact within
  · rw [← found, ← valid.clocks]
    rfl
  · change ((loop.world.goto _ _ _).connections underway.current_vm_index).Commanded _ _
    rw [moved]
    refine .sent (Connection.sent_begins _ _ rest.begins) rest.timers ?_
    · have idle := valid.world.idle_clock (i := underway.current_vm_index) (by rw [place]; rfl)
      rw [← valid.clocks] at idle
      exact idle.symm

end

/-- What the passage of time leaves to be said of a run, given that no machine's
clock overtakes the one of the host. -/
structure Paced (links : Links VM_NUMBER) (virtual_clock_ns : Fin VM_NUMBER → Nat) (now : Nat) (booted : Fin VM_NUMBER → Nat)
    (loop : MainLoop VM_NUMBER) : Prop where
  behind : loop.Behind
  forward : now ≤ loop.now
  ceiling : ∀ i, (loop.world.connections i).virtual_clock_ns ≤ virtual_clock_ns i + (loop.now - now)
  began : ∀ underway, loop.underway = some underway → now ≤ underway.start_exec_time ∧
    ∀ i, loop.state.virtual_clocks_ns i ≤ virtual_clock_ns i + (underway.start_exec_time - now)
  underway : ∀ underway, loop.underway = some underway → loop.Timed links underway
  slices : Machine.Every (Simulator.step links) (fun state slice => Plausible state slice ∧ Fulfilled links state slice ∧
    ∀ i, state.virtual_clocks_ns i ≤ virtual_clock_ns i + (loop.now - now)) { virtual_clocks_ns := booted } loop.slices

variable {virtual_clock_ns : Fin VM_NUMBER → Nat} {now : Nat}

theorem line_serves (returned : loop.world.line monitor = some world) (j : Fin VM_NUMBER) :
    (loop.world.connections j).Serves monitor (world.connections j) :=
  .other (World.line_kept Connection.machine (fun _ _ _ _ _ _ => rfl) returned j)

theorem Timed.step {later : Fin VM_NUMBER → Nat} (valid : Valid monitor links booted loop) (kept : Valid monitor links later next)
    (timed : ∀ underway, loop.underway = some underway → loop.Timed links underway) (taken : Step monitor links loop event next)
    (paced : event.Paced) : ∀ underway, next.underway = some underway → next.Timed links underway := by
  intro underway current
  cases taken with
  | beside allowed moved =>
    have serves := beside_serves allowed moved current (valid.underway underway current).2.1 underway.current_vm_index
    have clock := World.step_clock moved (fun i elapsed same => by rw [same] at allowed; exact allowed) underway.current_vm_index
    exact (timed underway current).stay clock serves
  | elapse elapsed ticks => exact (timed underway current).elapse valid current paced
  | @begin vm duration limit idle control chosen found bound =>
    cases current
    refine ⟨le_rfl, ?_, fun sent => absurd rfl sent⟩
    have standing := valid.world.idle_clock (i := vm) (by rw [control]; rfl)
    change (loop.world.connections vm).virtual_clock_ns ≤ loop.state.virtual_clocks_ns vm + _
    rw [valid.clocks, ← standing]
    exact Nat.le_add_right _ _
  | command active pass sent =>
    cases current
    exact (timed _ active).command valid active pass sent
  | poll active pass tested =>
    cases current
    exact (timed _ active).proceed rfl rfl fun _ => ⟨by simp [pass], .rest monitor _⟩
  | @stress busy world active pass sent =>
    cases current
    have served : (loop.world.connections busy.current_vm_index).Serves monitor (world.connections busy.current_vm_index) :=
      World.poll_serves sent _
    exact (timed _ active).proceed rfl served.still fun _ => ⟨by simp [pass], served⟩
  | @ready busy world tap active pass selected =>
    cases current
    have same (j : Fin VM_NUMBER) := congrFun (World.ready_connections selected).1 j
    have served : (loop.world.connections busy.current_vm_index).Serves monitor (world.connections busy.current_vm_index) := by
      rw [same]
      exact .rest monitor _
    exact (timed _ active).proceed rfl (congrArg _ (same _)) fun _ => ⟨by simp [pass], served⟩
  | quiet tap active pass =>
    cases current
    exact (timed _ active).proceed rfl rfl fun _ => ⟨by simp [pass], .rest monitor _⟩
  | boot idle returned =>
    rw [idle] at current
    cases current
  | answer active pass read returned =>
    cases current
    have open_loop := ((valid.underway _ active).1.waiting pass (by simp) fun _ => rfl).1
    refine (timed _ active).proceed ?_ (World.line_kept Connection.virtual_clock_ns (fun _ _ _ _ _ _ => rfl) returned _)
      fun _ => ⟨by simp [pass], line_serves returned _⟩
    simp only [open_loop, Bool.false_or, Bool.false_eq_true, if_false]
    split <;> rfl
  | clock active pass returned stored => cases current
  | other active pass returned waiting =>
    exact (timed underway current).stay (World.line_kept Connection.virtual_clock_ns (fun _ _ _ _ _ _ => rfl) returned _)
      (line_serves returned _)
  | receive read active pass received =>
    cases current
    exact (timed _ active).proceed rfl rfl fun _ => ⟨by simp [pass], .rest monitor _⟩
  | @deliver busy qmp_line packet active pass =>
    cases current
    refine (timed _ active).proceed ?_ rfl fun _ => ⟨by simp [pass], .rest monitor _⟩
    split <;> rfl

/-- The slice of an iteration that ends now. -/
theorem Timed.slice {underway : Underway VM_NUMBER} (timed : loop.Timed links underway) (valid : Valid monitor links booted loop)
    (current : loop.underway = some underway) (pass : underway.pass = .stopped) (behind : loop.Behind) (kept : world.Valid monitor)
    (returned : loop.world.line monitor = some world) (stored : world.control = .choose)
    (sorted : (underway.slice 0).readings.Pairwise (· ≤ ·)) :
    Plausible loop.state (underway.slice (world.virtual_clocks_ns underway.current_vm_index)) ∧
      Fulfilled links loop.state (underway.slice (world.virtual_clocks_ns underway.current_vm_index)) := by
  obtain ⟨own, _, _⟩ := valid.underway underway current
  have stopped : underway.running.has_got_stop_event = true := by
    obtain ⟨limit, running, _, _, ended, reads⟩ := own.passes
    rw [pass] at ended reads
    cases reads
    exact ended.mpr rfl
  have standing := kept.idle_clock (i := underway.current_vm_index) (by rw [stored]; rfl)
  have same := World.line_kept Connection.virtual_clock_ns (fun _ _ _ _ _ _ => rfl) returned underway.current_vm_index
  have within := timed.within
  have above := behind underway.current_vm_index
  rw [if_pos stopped] at within
  rw [← valid.clocks] at above
  refine ⟨⟨sorted, fun vm chosen => ?_⟩, fun vm chosen duration found => ?_⟩
  · obtain rfl := Option.some.inj (own.chosen.symm.trans chosen)
    change loop.state.virtual_clocks_ns underway.current_vm_index ≤ world.virtual_clocks_ns underway.current_vm_index ∧
      world.virtual_clocks_ns underway.current_vm_index ≤
        loop.state.virtual_clocks_ns underway.current_vm_index + (underway.stop_time - underway.start_exec_time)
    rw [standing, same]
    exact ⟨above, within⟩
  · obtain rfl := Option.some.inj (own.chosen.symm.trans chosen)
    obtain ⟨commanded_duration, known, commanded⟩ := timed.commanded (by simp [pass])
    obtain rfl := Option.some.inj (known.symm.trans found)
    have resting := (kept.connections underway.current_vm_index).stage
    rw [stored] at resting
    obtain ⟨rest, _⟩ := resting
    change delayed _ _ ≤ world.virtual_clocks_ns underway.current_vm_index
    rw [standing]
    exact (commanded.serves (line_serves returned _)).rested rest.pending rest.timers

theorem Paced.start (links : Links VM_NUMBER) (running : Fin VM_NUMBER → Bool) (virtual_clock_ns : Fin VM_NUMBER → Nat) (now : Nat) :
    Paced links virtual_clock_ns now (fun _ => 0) (start running virtual_clock_ns now) where
  behind _ := Nat.zero_le _
  forward := le_rfl
  ceiling _ := Nat.le_add_right _ _
  began _ none := nomatch none
  underway _ none := nomatch none
  slices := trivial

theorem Paced.step {later : Fin VM_NUMBER → Nat} (before : Paced links virtual_clock_ns now booted loop)
    (valid : Valid monitor links booted loop) (kept : Valid monitor links later next) (same : later = booted ∨ next.slices = [])
    (chronological : next.Chronological) (taken : Step monitor links loop event next) (paced : event.Paced) :
    Paced links virtual_clock_ns now later next := by
  have moved : loop.now ≤ next.now ∧ ∀ i, (next.world.connections i).virtual_clock_ns ≤ virtual_clock_ns i + (next.now - now) := by
    have forward := before.forward
    rcases taken.timeless with ⟨elapsed, ticks, rfl, rfl⟩ | ⟨time, clocks⟩
    · refine ⟨Nat.le_add_right _ _, fun i => ?_⟩
      have ceiling := before.ceiling i
      have slow := paced i
      have ticked := (Connection.tick_clock (loop.world.connections i) (ticks i)).2
      change ((loop.world.connections i).tick (ticks i)).virtual_clock_ns ≤ virtual_clock_ns i + (loop.now + elapsed - now)
      omega
    · rw [time]
      exact ⟨le_rfl, fun i => (clocks i).trans_le (before.ceiling i)⟩
  obtain ⟨advance, ceiling⟩ := moved
  have began : ∀ underway, next.underway = some underway → now ≤ underway.start_exec_time ∧
      ∀ i, next.state.virtual_clocks_ns i ≤ virtual_clock_ns i + (underway.start_exec_time - now) := by
    intro underway current
    obtain ⟨state, present | ⟨earlier, active, same⟩⟩ := taken.started current
    · rw [state, present, valid.clocks]
      exact ⟨before.forward, fun i => (before.behind i).trans (before.ceiling i)⟩
    · rw [state, same]
      exact before.began earlier active
  refine ⟨before.behind.step valid.world kept.world taken, before.forward.trans advance, ceiling, began,
    Timed.step valid kept before.underway taken paced, ?_⟩
  rcases same with rfl | none
  · have earlier : Machine.Every (Simulator.step links) (fun state slice => Plausible state slice ∧ Fulfilled links state slice ∧
        ∀ i, state.virtual_clocks_ns i ≤ virtual_clock_ns i + (next.now - now)) { virtual_clocks_ns := later } loop.slices :=
      before.slices.imp fun state slice met => ⟨met.1, met.2.1, fun i => (met.2.2 i).trans (by omega)⟩
    cases taken with
    | @clock underway world current pass returned stored =>
      refine Machine.Every.snoc_iff.mpr ⟨earlier, fun state ran => ?_⟩
      obtain rfl := Option.some.inj (valid.ran.symm.trans ran)
      have sorted : (underway.slice 0).readings.Pairwise (· ≤ ·) := by
        have all := chronological.1
        simp only [readings, List.flatMap_append, List.flatMap_singleton, Option.elim_none, List.append_nil] at all
        exact (List.pairwise_append.mp all).2.1
      obtain ⟨credible, fulfilled⟩ :=
        (before.underway underway current).slice valid current pass before.behind kept.world returned stored sorted
      refine ⟨credible, fulfilled, fun i => ?_⟩
      rw [valid.clocks]
      exact (before.behind i).trans (before.ceiling i)
    | _ => exact earlier
  · rw [none]
    trivial

theorem run_paced (documented : monitor.Documented) {running : Fin VM_NUMBER → Bool} {events : List (Event VM_NUMBER)}
    (paced : ∀ event ∈ events, event.Paced)
    (ran : Machine.run (MainLoop.step monitor links) (start running virtual_clock_ns now) events = some loop) :
    ∃ booted, Valid monitor links booted loop ∧ Paced links virtual_clock_ns now booted loop := by
  have reached : (∃ booted, Valid monitor links booted loop ∧ Paced links virtual_clock_ns now booted loop) ∧ loop.Chronological := by
    have every : Machine.Every (MainLoop.step monitor links) (fun _ event => event.Paced) (start running virtual_clock_ns now) events :=
      .of_forall paced
    apply every.invariant (fun loop => (∃ booted, Valid monitor links booted loop ∧ Paced links virtual_clock_ns now booted loop) ∧
      loop.Chronological) _ _ ran
    · exact ⟨⟨_, Valid.start monitor links running virtual_clock_ns now, Paced.start links running virtual_clock_ns now⟩,
        List.Pairwise.nil, fun _ none => nomatch none⟩
    · intro loop event next before paced taken
      obtain ⟨⟨booted, valid, held⟩, chronological⟩ := before
      have cases := step_cases taken
      obtain ⟨later, kept, same⟩ := valid.step documented cases
      have ordered := chronological.step valid cases
      exact ⟨⟨later, kept, held.step valid kept same ordered cases paced⟩, ordered⟩
  exact reached.1

end MainLoop
end NetworkSimulator.Simulator
