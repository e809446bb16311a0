import NetworkSimulator.Proofs.LoopRefinement

/-! The clock of the host as the main loop reads it. Each step reads it at most
once, so the times of the slices, in the order in which they were read, never
go back. -/

namespace NetworkSimulator.Simulator
variable {VM_NUMBER : Nat} {monitor : Monitor} {links : Links VM_NUMBER}

def Pass.packet_time : Pass → List Nat
  | .delivering _ packet => (packet.map Prod.fst).toList
  | _ => []

/-- The times of the slice that have been read so far. -/
def Underway.readings (underway : Underway VM_NUMBER) : List Nat :=
  match underway.pass with
  | .stopped => (underway.slice 0).readings
  | pass => underway.start_exec_time :: underway.polls.flatMap Poll.readings ++
      ((if underway.running.has_got_stop_event then [underway.stop_time] else []) ++ pass.packet_time)

theorem Underway.readings_of {underway : Underway VM_NUMBER} {pass : Pass} (same : underway.pass = pass) (open_loop : pass ≠ .stopped) :
    underway.readings = underway.start_exec_time :: underway.polls.flatMap Poll.readings ++
      ((if underway.running.has_got_stop_event then [underway.stop_time] else []) ++ pass.packet_time) := by
  unfold Underway.readings
  rw [same]
  cases pass with
  | stopped => exact absurd rfl open_loop
  | _ => rfl

theorem Underway.readings_tap {underway : Underway VM_NUMBER} {running : Running VM_NUMBER} {qmp_line : Option String} {tap : Bool}
    {stop_time : Nat} : Underway.readings { underway with running, pass := .tap qmp_line tap, stop_time } =
      underway.start_exec_time :: underway.polls.flatMap Poll.readings ++ if running.has_got_stop_event then [stop_time] else [] := by
  have early : Pass.tap qmp_line tap ≠ .stopped := by cases tap <;> simp [Pass.tap]
  have none : (Pass.tap qmp_line tap).packet_time = [] := by cases tap <;> rfl
  rw [Underway.readings_of rfl early, none, List.append_nil]

namespace MainLoop
variable {booted : Fin VM_NUMBER → Nat} {loop next : MainLoop VM_NUMBER} {event : Event VM_NUMBER}

def readings (loop : MainLoop VM_NUMBER) : List Nat :=
  loop.slices.flatMap Slice.readings ++ loop.underway.elim [] Underway.readings

theorem readings_underway {underway : Underway VM_NUMBER} (current : loop.underway = some underway) :
    loop.readings = loop.slices.flatMap Slice.readings ++ underway.readings := by
  rw [readings, current, Option.elim_some]

theorem readings_proceed (underway : Underway VM_NUMBER) (world : World VM_NUMBER) :
    (loop.proceed underway world).readings = loop.slices.flatMap Slice.readings ++ underway.readings := rfl

/-- A step reads the clock once or not at all. -/
theorem Valid.step_readings (valid : Valid monitor links booted loop) (taken : Step monitor links loop event next) :
    loop.now ≤ next.now ∧ (next.readings = loop.readings ∨ next.readings = loop.readings ++ [loop.now]) := by
  cases taken with
  | beside allowed moved => exact ⟨le_rfl, Or.inl rfl⟩
  | elapse elapsed ticks => exact ⟨Nat.le_add_right _ _, Or.inl rfl⟩
  | begin idle control chosen found bound =>
    refine ⟨le_rfl, Or.inr ?_⟩
    simp only [readings, idle, Option.elim_none, Option.elim_some, List.append_nil]
    rfl
  | command current pass sent =>
    refine ⟨le_rfl, Or.inl ?_⟩
    rw [readings_proceed, readings_underway current, Underway.readings_of pass (by simp)]
    rfl
  | @poll underway later current pass tested =>
    refine ⟨le_rfl, Or.inl ?_⟩
    rw [readings_proceed, readings_underway current, Underway.readings_of pass (by simp)]
    rcases tested_cases tested with rfl | rfl <;> rfl
  | stress current pass sent =>
    refine ⟨le_rfl, Or.inl ?_⟩
    rw [readings_proceed, readings_underway current, Underway.readings_of pass (by simp)]
    rfl
  | ready tap current pass selected =>
    refine ⟨le_rfl, Or.inl ?_⟩
    rw [readings_proceed, readings_underway current, Underway.readings_of pass (by simp)]
    rfl
  | @quiet underway tap current pass =>
    refine ⟨le_rfl, Or.inl ?_⟩
    rw [readings_proceed, readings_underway current, Underway.readings_of pass (by simp)]
    have tapped : Underway.readings { underway with pass := .tap none tap } = _ := Underway.readings_tap
    rw [tapped]
    simp only [Pass.packet_time, List.append_nil]
  | boot idle returned =>
    exact ⟨le_rfl, Or.inl rfl⟩
  | @answer underway world tap response connection current pass read returned =>
    have open_loop := ((valid.underway _ current).1.waiting pass (by simp) fun _ => rfl).1
    refine ⟨le_rfl, ?_⟩
    rw [readings_proceed, readings_underway current, Underway.readings_of pass (by simp), Underway.readings_tap]
    simp only [open_loop, Bool.false_or, Bool.false_eq_true, if_false, Pass.packet_time, List.append_nil]
    cases isStopEvent response with
    | true => exact Or.inr (by simp)
    | false => exact Or.inl (by simp)
  | @clock underway world current pass returned stored =>
    refine ⟨le_rfl, Or.inl ?_⟩
    rw [readings_underway current]
    simp only [readings, List.flatMap_append, List.flatMap_singleton, Option.elim_none, List.append_nil, Underway.readings, pass]
    rfl
  | other current pass returned waiting => exact ⟨le_rfl, Or.inl rfl⟩
  | receive read current pass received =>
    refine ⟨le_rfl, Or.inr ?_⟩
    rw [readings_proceed, readings_underway current, Underway.readings_of pass (by simp), Underway.readings_of rfl (by simp)]
    simp [Pass.packet_time]
  | @deliver underway qmp_line packet current pass =>
    refine ⟨le_rfl, Or.inr ?_⟩
    rw [readings_proceed, readings_underway current, Underway.readings_of pass (by simp)]
    cases stopped : underway.running.has_got_stop_event with
    | true => simp [Underway.readings, Underway.slice, Slice.readings, Poll.readings, Pass.packet_time]
    | false =>
      have kept : (if underway.running.deque_to_deliver = [] then underway.running
          else underway.running.deliver underway.current_vm_index
            (virtual_time (underway.running.state.virtual_clocks_ns underway.current_vm_index) underway.start_exec_time
              loop.now)).has_got_stop_event = false := by
        split <;> exact stopped
      simp [Underway.readings, kept, Poll.readings, Pass.packet_time]

/-- No reading is before an earlier one. -/
def Chronological (loop : MainLoop VM_NUMBER) : Prop := loop.readings.Pairwise (· ≤ ·) ∧ ∀ time ∈ loop.readings, time ≤ loop.now

theorem Chronological.step (before : loop.Chronological) (valid : Valid monitor links booted loop) (taken : Step monitor links loop event next) :
    next.Chronological := by
  obtain ⟨sorted, past⟩ := before
  obtain ⟨forward, same | more⟩ := valid.step_readings taken
  · rw [Chronological, same]
    exact ⟨sorted, fun time read => (past time read).trans forward⟩
  · rw [Chronological, more]
    refine ⟨List.pairwise_append.mpr ⟨sorted, List.pairwise_singleton _ _, ?_⟩, ?_⟩
    · intro time earlier now last
      obtain rfl := List.mem_singleton.mp last
      exact past time earlier
    · intro time read
      rcases List.mem_append.mp read with earlier | last
      · exact (past time earlier).trans forward
      · obtain rfl := List.mem_singleton.mp last
        exact forward

/-- What holds of every state the main loop comes to. -/
theorem run_valid (documented : monitor.Documented) {running : Fin VM_NUMBER → Bool} {virtual_clock_ns : Fin VM_NUMBER → Nat} {now : Nat}
    {events : List (Event VM_NUMBER)} (ran : Machine.run (step monitor links) (start running virtual_clock_ns now) events = some loop) :
    (∃ booted, Valid monitor links booted loop) ∧ loop.Chronological := by
  apply Machine.run_invariant (fun loop => (∃ booted, Valid monitor links booted loop) ∧ loop.Chronological) _ _ ran
  · exact ⟨⟨_, Valid.start monitor links running virtual_clock_ns now⟩, List.Pairwise.nil, fun _ none => nomatch none⟩
  · intro loop event next before taken
    obtain ⟨⟨booted, valid⟩, chronological⟩ := before
    have cases := step_cases taken
    obtain ⟨later, kept, _⟩ := valid.step documented cases
    exact ⟨⟨later, kept⟩, chronological.step valid cases⟩

end MainLoop

/-- However the steps of `main`, of the monitors and of the clock interleave, the
iterations that came to their end are a run over slices whose times never go back.
From the clocks of the boot slices on, each machine was stopped exactly at the ends
of its slices, and between two slices it stands at the clock it is chosen by. -/
theorem main_loop_refines_slices (documented : monitor.Documented) {running : Fin VM_NUMBER → Bool}
    {virtual_clock_ns : Fin VM_NUMBER → Nat} {now : Nat} {events : List (Event VM_NUMBER)} {loop : MainLoop VM_NUMBER}
    (ran : Machine.run (MainLoop.step monitor links) (.start running virtual_clock_ns now) events = some loop) :
    ∃ booted, Machine.run (step links) { virtual_clocks_ns := booted } loop.slices = some loop.state ∧
      (loop.slices.flatMap Slice.readings).Pairwise (· ≤ ·) ∧
      (loop.world.control = .choose → ∀ i,
        (loop.world.connections i).frozen = booted i :: ends links { virtual_clocks_ns := booted } loop.slices i ∧
        (loop.world.connections i).running = false ∧ (loop.world.connections i).virtual_clock_ns = loop.state.virtual_clocks_ns i) := by
  obtain ⟨⟨booted, valid⟩, sorted, _⟩ := MainLoop.run_valid documented ran
  refine ⟨booted, valid.ran, (List.pairwise_append.mp sorted).1, fun control i => ?_⟩
  obtain ⟨begun, all, count, stopped, clock⟩ := (valid.world.neverStale i).ended control
  obtain ⟨first, later⟩ := valid.ends i
  rw [valid.clocks]
  refine ⟨?_, stopped, clock.symm⟩
  rw [← later, first, ← all]
  cases history : (loop.world.connections i).stored with
  | nil =>
    rw [← all, history, List.length_nil] at count
    omega
  | cons head rest => rfl

/-! Two machines 10 ms apart. In its first slice VM 0 broadcasts a frame, which is
written to VM 1 in the second one; there the STOP is read so late that `main` has
sent a dummy command before. -/

def stopEvent : List Char := "\x7b\"timestamp\": \x7b\"seconds\": 1, \"microseconds\": 2\x7d, \"event\": \"STOP\"\x7d\r".toList

def emptyReply : List Char := "\x7b\"return\": \x7b\x7d\x7d\r".toList

def timeReplies : List (Nat × List Char) :=
  [(10000000000, "\x7b\"return\": \x7b\"time\": 10000000000\x7d\x7d\r".toList),
    (10010000000, "\x7b\"return\": \x7b\"time\": 10010000000\x7d\x7d\r".toList),
    (10020000000, "\x7b\"return\": \x7b\"time\": 10020000000\x7d\x7d\r".toList)]

def threeTimes : Monitor where
  writes
    | .time time, text => (time, text) ∈ timeReplies
    | .stop, text => text = stopEvent
    | .other, text => text = emptyReply
  get_time text := (timeReplies.find? fun entry => entry.2 = text).map Prod.fst

theorem threeTimes_documented : threeTimes.Documented := by
  have replies : ∀ entry ∈ timeReplies, ('\n' ∉ entry.2 ∧ '\x00' ∉ entry.2) ∧
      isTimeReply entry.2 ∧ ¬ isStopEvent entry.2 ∧ threeTimes.get_time entry.2 = some entry.1 := by decide +kernel
  constructor
  · intro kind text written
    cases kind with
    | time time => exact (replies _ (of_decide_eq_true written)).1
    | stop =>
      obtain rfl := of_decide_eq_true written
      decide +kernel
    | other =>
      obtain rfl := of_decide_eq_true written
      decide +kernel
  · intro text written
    obtain rfl := of_decide_eq_true written
    decide +kernel
  · exact fun time text written => (replies _ (of_decide_eq_true written)).2
  · intro text written
    obtain rfl := of_decide_eq_true written
    decide +kernel

def tenApart : Links 2 where
  inter_vm_delays_ms := fun _ _ => 10

/-- `read_line` of a line with so many characters, four at a time. -/
def readLine (length : Nat) : List (Event 2) :=
  List.flatten [List.replicate (length / 4) (.read 4), if length % 4 = 0 then [] else [.read (length % 4)], [.line]]

def vm0 : Fin 2 := ⟨0, Nat.two_pos⟩

def vm1 : Fin 2 := ⟨1, Nat.one_lt_two⟩

def twoBoots : List (Event 2) :=
  let reply (i : Fin 2) : List (Event 2) := [.send, .execute i emptyReply] ++ readLine 16
  let clock (i : Fin 2) : List (Event 2) :=
    readLine 67 ++ [.send, .execute i "\x7b\"return\": \x7b\"time\": 10000000000\x7d\x7d\r".toList] ++ readLine 35
  List.flatten [reply vm0, reply vm1, reply vm0, reply vm1,
    [.elapse 10000000000 fun _ => 10000000000, .stop vm0 stopEvent, .stop vm1 stopEvent], clock vm0, clock vm1]

def twoSlices : List (Event 2) :=
  let broadcast : List UInt8 := [0xff, 0xff, 0xff, 0xff, 0xff, 0xff]
  let clock (i : Fin 2) (test : List (Event 2)) (text : String) : List (Event 2) :=
    test ++ [.select true false] ++ readLine 67 ++ [.deliver, .send, .execute i text.toList] ++ readLine 35
  List.flatten [
    [.begin, .send, .execute vm0 emptyReply, .poll, .select true true], readLine 16, [.receive (some broadcast), .deliver, .poll,
      .elapse 10000000 fun _ => 10000000, .stop vm0 stopEvent, .select false false, .deliver],
    clock vm0 [.poll] "\x7b\"return\": \x7b\"time\": 10010000000\x7d\x7d\r",
    [.begin, .elapse 3 fun _ => 0, .send, .execute vm1 emptyReply, .elapse 20000000 fun _ => 20000000, .stop vm1 stopEvent, .poll,
      .select true false],
    readLine 16, [.deliver], clock vm1 [.elapse 1000000 fun _ => 0, .poll, .send] "\x7b\"return\": \x7b\"time\": 10020000000\x7d\x7d\r"]

theorem twoSlices_run : ∃ loop, Machine.run (MainLoop.step threeTimes tenApart) (.start (fun _ => false) (fun _ => 0) 5)
    (twoBoots ++ twoSlices) = some loop ∧ loop.now = 10031000008 ∧ loop.underway.isNone ∧ loop.state.pushed 1 0 ≠ [] := by
  have ends : (Machine.run (MainLoop.step threeTimes tenApart) (.start (fun _ => false) (fun _ => 0) 5) (twoBoots ++ twoSlices)).any
      fun loop => decide (loop.now = 10031000008 ∧ loop.underway.isNone ∧ loop.state.pushed 1 0 ≠ []) := by decide +kernel
  obtain ⟨loop, ran, same⟩ := (Option.any_eq_true _ _).mp ends
  exact ⟨loop, ran, of_decide_eq_true same⟩

theorem main_loop_refines_slices_two : ∃ loop, Machine.run (MainLoop.step threeTimes tenApart) (.start (fun _ => false) (fun _ => 0) 5)
      (twoBoots ++ twoSlices) = some loop ∧
    ∃ booted, Machine.run (step tenApart) { virtual_clocks_ns := booted } loop.slices = some loop.state ∧
      (loop.slices.flatMap Slice.readings).Pairwise (· ≤ ·) ∧
      (loop.world.control = .choose → ∀ i,
        (loop.world.connections i).frozen = booted i :: ends tenApart { virtual_clocks_ns := booted } loop.slices i ∧
        (loop.world.connections i).running = false ∧
          (loop.world.connections i).virtual_clock_ns = loop.state.virtual_clocks_ns i) := by
  obtain ⟨loop, ran, _⟩ := twoSlices_run
  exact ⟨loop, ran, main_loop_refines_slices threeTimes_documented ran⟩

end NetworkSimulator.Simulator
