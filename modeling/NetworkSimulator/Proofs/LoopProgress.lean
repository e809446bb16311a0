import NetworkSimulator.Proofs.GlobalProgress
import NetworkSimulator.Proofs.LoopClocks

/-! How virtual time goes on while the simulator runs. Nothing is assumed of the
slices: that they are as long as commanded, and no longer than has passed on the
host, follows from what the monitors do. -/

namespace NetworkSimulator.Simulator
variable {VM_NUMBER : Nat} {monitor : Monitor} {links : Links VM_NUMBER} {running : Fin VM_NUMBER → Bool}
  {virtual_clock_ns : Fin VM_NUMBER → Nat} {now : Nat} {events : List (Event VM_NUMBER)} {loop : MainLoop VM_NUMBER}

theorem twoSlices_paced : ∀ event ∈ twoBoots ++ twoSlices, event.Paced := by decide +kernel

/-- Where all times fit, a machine that has run for as long as commanded has obeyed. -/
theorem Fulfilled.obeyed {state : State VM_NUMBER} {slice : Slice} (fulfilled : Fulfilled links state slice)
    (small : ∀ i j, state.virtual_clocks_ns i + links.inter_vm_delays_ms j i * 1000000 < 2 ^ 31 * 1000000) :
    Obeyed links state slice := by
  intro vm chosen
  refine ⟨fun i => (small i vm).trans (by decide), fun shortest found => ?_⟩
  have met := fulfilled vm chosen shortest found
  obtain ⟨i, listed, rfl⟩ := List.mem_map.mp (Search.minElement_mem found)
  have fits := small i vm
  have reach := clock_add_duration (current_vm_index_le chosen i) (fits.trans (by decide))
  have short : duration_ms (duration links state.virtual_clocks_ns vm i) < 2 ^ 31 := by
    apply Nat.div_lt_of_lt_mul
    omega
  have whole : duration_ms (duration links state.virtual_clocks_ns vm i) * 1000000 ≤ duration links state.virtual_clocks_ns vm i :=
    Nat.div_mul_le_self _ _
  refine ⟨short, ?_⟩
  rw [commanded_duration_ms_eq (by omega) short] at met ⊢
  rwa [delayed_small (by omega)] at met

/-- The clocks the main loop starts with are those of the first STOP. -/
theorem MainLoop.Valid.booted_frozen {booted : Fin VM_NUMBER → Nat} (valid : MainLoop.Valid monitor links booted loop)
    (ended : loop.slices ≠ []) (i : Fin VM_NUMBER) : (loop.world.connections i).frozen.head? = some (booted i) := by
  have kept := (valid.world.neverStale i).stored
  have some_clock : (loop.world.connections i).stored ≠ [] := by
    cases current : loop.underway with
    | some underway => exact (valid.underway underway current).2.2 i
    | none =>
      by_cases control : loop.world.control = .choose
      · obtain ⟨begun, all, count, _⟩ := (valid.world.neverStale i).ended control
        rw [all]
        exact List.ne_nil_of_length_pos (by omega)
      · exact absurd (valid.booting current control).1 ended
  rw [(valid.ends i).1]
  obtain ⟨later, frozen⟩ := kept
  rw [← frozen, List.head?_append_of_ne_nil _ some_clock]
  cases history : (loop.world.connections i).stored with
  | nil => exact absurd history some_clock
  | cons head rest => rfl

/-- In every interleaving each slice is plausible to the host: its times do not go
back, and its machine has run for at most the time between the start time and the
reading of STOP. And the machine has run for as long as commanded. -/
theorem slices_in_time (documented : monitor.Documented)
    (paced : ∀ event ∈ events, event.Paced)
    (ran : Machine.run (MainLoop.step monitor links) (.start running virtual_clock_ns now) events = some loop)
    (small : ∀ i j, virtual_clock_ns i + (loop.now - now) + links.inter_vm_delays_ms j i * 1000000 < 2 ^ 31 * 1000000) :
    ∃ booted, Machine.run (step links) { virtual_clocks_ns := booted } loop.slices = some loop.state ∧
      (loop.slices ≠ [] → ∀ i, (loop.world.connections i).frozen.head? = some (booted i)) ∧
      Machine.Every (step links) (fun state slice => Plausible state slice ∧ Obeyed links state slice)
        { virtual_clocks_ns := booted } loop.slices := by
  obtain ⟨booted, valid, held⟩ := MainLoop.run_paced documented paced ran
  refine ⟨booted, valid.ran, valid.booted_frozen, held.slices.imp fun state slice met => ⟨met.1, met.2.1.obeyed fun i j => ?_⟩⟩
  have bound := met.2.2 i
  have fits := small i j
  omega

theorem slices_in_time_two : ∃ loop, Machine.run (MainLoop.step threeTimes tenApart) (.start (fun _ => false) (fun _ => 0) 5)
      (twoBoots ++ twoSlices) = some loop ∧
    ∃ booted, Machine.run (step tenApart) { virtual_clocks_ns := booted } loop.slices = some loop.state ∧
      (loop.slices ≠ [] → ∀ i, (loop.world.connections i).frozen.head? = some (booted i)) ∧
      Machine.Every (step tenApart) (fun state slice => Plausible state slice ∧ Obeyed tenApart state slice)
        { virtual_clocks_ns := booted } loop.slices := by
  obtain ⟨loop, ran, brief⟩ := twoSlices_run
  refine ⟨loop, ran, slices_in_time threeTimes_documented twoSlices_paced ran fun i j => ?_⟩
  rw [brief.1]
  change 0 + (10031000008 - 5) + 10 * 1000000 < 2 ^ 31 * 1000000
  decide

/-- After each round of as many slices as there are machines, all clocks are past
the least one of the round before by the shortest delay; and no clock is further
than the time that has passed on the host. The rounds begin at the clocks of the
first STOP. -/
theorem virtual_time_progress {L : Nat} (lookahead : ∀ i j, i ≠ j ∨ VM_NUMBER = 1 → L ≤ links.inter_vm_delays_ms i j)
    (documented : monitor.Documented) (paced : ∀ event ∈ events, event.Paced)
    (ran : Machine.run (MainLoop.step monitor links) (.start running virtual_clock_ns now) events = some loop)
    (small : ∀ i j, virtual_clock_ns i + (loop.now - now) + links.inter_vm_delays_ms j i * 1000000 < 2 ^ 31 * 1000000) :
    ∃ booted, Machine.run (step links) { virtual_clocks_ns := booted } loop.slices = some loop.state ∧
      (loop.slices ≠ [] → ∀ i, (loop.world.connections i).frozen.head? = some (booted i)) ∧
      ∀ least, (∀ i, least ≤ booted i) → ∀ i,
        least + loop.slices.length / VM_NUMBER * (L * 1000000) ≤ loop.state.virtual_clocks_ns i ∧
        loop.state.virtual_clocks_ns i ≤ virtual_clock_ns i + (loop.now - now) := by
  obtain ⟨booted, valid, held⟩ := MainLoop.run_paced documented paced ran
  refine ⟨booted, valid.ran, valid.booted_frozen, fun least below i => ⟨?_, ?_⟩⟩
  · have every : Machine.Every (step links) (Obeyed links) { virtual_clocks_ns := booted } loop.slices := by
      apply held.slices.imp
      intro state slice met
      refine met.2.1.obeyed fun i j => ?_
      have bound := met.2.2 i
      have fits := small i j
      omega
    have served := clocks_served lookahead every valid.ran
    have split : loop.slices.length = loop.slices.length / VM_NUMBER * Fintype.card (Fin VM_NUMBER) + loop.slices.length % VM_NUMBER := by
      rw [Fintype.card_fin]
      exact (Nat.div_add_mod' _ _).symm
    rw [split] at served
    obtain ⟨middle, rounds, rest⟩ := served.split
    have raised := rounds.rounds (Nat.zero_le _) below i
    rw [smul_eq_mul] at raised
    exact raised.trans (rest.mono (Nat.zero_le _) i)
  · rw [valid.clocks]
    exact (held.behind i).trans (held.ceiling i)

theorem virtual_time_progress_two : ∃ loop, Machine.run (MainLoop.step threeTimes tenApart) (.start (fun _ => false) (fun _ => 0) 5)
      (twoBoots ++ twoSlices) = some loop ∧
    ∃ booted, Machine.run (step tenApart) { virtual_clocks_ns := booted } loop.slices = some loop.state ∧
      (loop.slices ≠ [] → ∀ i, (loop.world.connections i).frozen.head? = some (booted i)) ∧
      ∀ least, (∀ i, least ≤ booted i) → ∀ i,
        least + loop.slices.length / 2 * (10 * 1000000) ≤ loop.state.virtual_clocks_ns i ∧
        loop.state.virtual_clocks_ns i ≤ 0 + (loop.now - 5) := by
  obtain ⟨loop, ran, brief⟩ := twoSlices_run
  refine ⟨loop, ran, virtual_time_progress (by decide) threeTimes_documented twoSlices_paced ran fun i j => ?_⟩
  rw [brief.1]
  change 0 + (10031000008 - 5) + 10 * 1000000 < 2 ^ 31 * 1000000
  decide

end NetworkSimulator.Simulator
