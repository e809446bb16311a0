import NetworkSimulator.Proofs.ForgedDelivery

/-! Agreement between correct processes. One delivery means that most of the
Readies behind it reach everybody, provided the faulty processes contributed at
most one vote each and the correct ones are enough to repeat it. -/

namespace NetworkSimulator.Bracha
variable {process_number number_of_msg_per_process : Nat} {faulty : Finset (Fin process_number)}

namespace Net

/-- Readies of correct processes alone carry a delivery to everyone. -/
theorem Valid.delivery_spreads {net : Net process_number} (valid : net.Valid number_of_msg_per_process faulty)
    (tolerated : faulty.card ≤ process_number / 3) (quiet : net.Quiescent faulty) {value : MsgValueType} {i : Fin process_number}
    (delivered : value ∈ (net.nodes i).msgs_delivered)
    (restrained : (net.forged i).count (.Ready value) ≤ process_number / 3)
    (enough : 2 * (process_number / 3) < process_number - faulty.card) {k : Fin process_number} (target : k ∉ faulty) :
    value ∈ (net.nodes k).msgs_delivered := by
  have received : max 1 (2 * (process_number / 3)) ≤ ((net.nodes i).ledger value).readies :=
    (valid.ledger i value).delivered_iff.mp delivered
  have origins : ((net.nodes i).ledger value).readies ≤ net.sentTo (· == .Ready value) i +
      (net.forged i).count (.Ready value) := valid.handled_le _
  rw [valid.sentTo_ready] at origins
  have self : i ∈ net.readiers value := mem_readiers.mpr ((valid.ledger i value).delivered_readied delivered)
  have many : process_number / 3 + 1 ≤ (net.readiers value).card := by
    have others := Finset.card_erase_of_mem self
    have positive := Finset.card_pos.mpr ⟨i, self⟩
    omega
  have readies (j : Fin process_number) (correct : j ∉ faulty) :
      ((net.readiers value).erase j).card ≤ ((net.nodes j).ledger value).readies := by
    rw [← valid.sentTo_ready]
    exact valid.le_handled (quiet j correct) _
  have all_ready (j : Fin process_number) (correct : j ∉ faulty) : j ∈ net.readiers value := by
    apply Classical.byContradiction
    intro waiting
    have amplified := readies j correct
    rw [Finset.erase_eq_of_notMem waiting] at amplified
    exact waiting (mem_readiers.mpr ((valid.ledger j value).readies_readied (many.trans amplified)))
  -- Without tolerance the one Ready behind the delivery came from another process.
  have several : 2 ≤ process_number := by
    have inside := i.isLt
    by_cases alone : process_number = 1
    · have erased : ((net.readiers value).erase i).card = 0 := by
        have bounded := Finset.card_le_univ (net.readiers value)
        rw [Fintype.card_fin] at bounded
        rw [Finset.card_erase_of_mem self]
        omega
      omega
    · omega
  have quorum : max 1 (2 * (process_number / 3)) ≤ process_number - faulty.card - 1 := by omega
  have votes := card_present_erase faulty (net.readiers value) fun j correct (_ : j ≠ k) => all_ready j correct
  exact (valid.ledger k value).delivered_iff.mpr (quorum.trans (votes.trans (readies k target)))

/-- A process stays one that has delivered. -/
theorem Valid.delivered_later {net later : Net process_number} (valid : net.Valid number_of_msg_per_process faulty)
    (after : Machine.Reachable (Net.step number_of_msg_per_process faulty) net later) {value : MsgValueType} {i : Fin process_number}
    (delivered : value ∈ (net.nodes i).msgs_delivered) :
    later.Valid number_of_msg_per_process faulty ∧ value ∈ (later.nodes i).msgs_delivered := by
  obtain ⟨actions, ran⟩ := after
  apply Machine.run_invariant (fun net => net.Valid number_of_msg_per_process faulty ∧ value ∈ (net.nodes i).msgs_delivered)
    ⟨valid, delivered⟩ _ ran
  intro state action next kept taken
  have step := step_iff.mp taken
  have still := kept.1.step step
  exact ⟨still, kept.1.delivered_mono still (step.handled i) kept.2⟩

/-- Forgeries to one process only do not support the value -1, which nobody sends. -/
theorem Valid.unsupported_forgery {net : Net process_number} (valid : net.Valid number_of_msg_per_process faulty)
    (tolerated : faulty.card ≤ process_number / 3) {f : Fin process_number} (byzantine : f ∈ faulty)
    (fits : max 1 number_of_msg_per_process * process_number + process_number - 1 ≤ 2 ^ 31 - 1) {i : Fin process_number}
    (unforged : ∀ j, j ≠ i → net.forged j = []) : net.Unsupported faulty {i} (-1) := by
  have size := Finset.card_pos.mpr ⟨f, byzantine⟩
  constructor
  · intro owner sent
    obtain ⟨round, low, before, same⟩ := (valid.nodes owner).initial_mem.mp sent
    have bounded : (net.nodes owner).current_msg_id_to_send ≤ max 1 number_of_msg_per_process + 1 := (valid.nodes owner).bounded
    have number : ((processConfig number_of_msg_per_process owner).ownValue round).toInt =
        round * process_number + owner := ownValue_toInt (Nat.le_of_lt_succ (Nat.lt_of_lt_of_le before bounded)) fits
    rw [same] at number
    have positive : (0 : Int) ≤ round * process_number := Int.mul_nonneg (Int.natCast_nonneg _) (Int.natCast_nonneg _)
    have negative : (-1 : MsgValueType).toInt = -1 := by decide
    omega
  all_goals
    intro j _ other
    have nothing := unforged j (fun same => other (Finset.mem_singleton.mpr same))
    simp only [nothing, List.count_nil, Finset.card_singleton, List.not_mem_nil, not_false_eq_true]
    try omega

end Net

open Net in
/-- A delivery at one correct process is a delivery at all of them in every
later quiescent state, if each correct process got no more forged Readies than
there may be faulty processes and the correct ones outnumber twice that bound.
Any single faulty process can break this by repeating one Ready. -/
theorem totality_restrained (tolerated : faulty.card ≤ process_number / 3) :
    (∀ net later : Net process_number, Reachable number_of_msg_per_process faulty net →
        Machine.Reachable (Net.step number_of_msg_per_process faulty) net later → later.Quiescent faulty →
        ∀ value i, i ∉ faulty → value ∈ (net.nodes i).msgs_delivered →
          (∀ k, k ∉ faulty → (later.forged k).count (.Ready value) ≤ process_number / 3) →
          2 * (process_number / 3) < process_number - faulty.card →
            ∀ k, k ∉ faulty → value ∈ (later.nodes k).msgs_delivered) ∧
      (faulty.Nonempty → max 1 number_of_msg_per_process * process_number + process_number - 1 ≤ 2 ^ 31 - 1 →
        ∃ net later : Net process_number, Reachable number_of_msg_per_process faulty net ∧
          Machine.Reachable (Net.step number_of_msg_per_process faulty) net later ∧ later.Quiescent faulty ∧
            ∃ value i k, i ∉ faulty ∧ k ∉ faulty ∧ value ∈ (net.nodes i).msgs_delivered ∧
              value ∉ (later.nodes k).msgs_delivered) := by
  constructor
  · intro net later reached after quiet value i correct delivered restrained enough k target
    obtain ⟨valid, still⟩ := reached.valid.delivered_later after delivered
    exact valid.delivery_spreads tolerated quiet still (restrained i correct) enough target
  · intro found fits
    obtain ⟨f, byzantine⟩ := found
    obtain ⟨k, i, target, correct, different⟩ := two_correct tolerated byzantine
    obtain ⟨net, reached, delivered, _, unforged, running⟩ := forged_delivery number_of_msg_per_process byzantine correct (-1)
    obtain ⟨actions, later, _, ran, ⟨still, unforged⟩, settled⟩ :=
      quiesce number_of_msg_per_process faulty (fun _ => True) false
        (fun net => (∀ j, net.left j = false) ∧ ∀ j, j ≠ i → net.forged j = [])
        (fun _ _ _ driven kept taken => ⟨fun j => (taken.left_driven driven j).trans (kept.1 j),
          fun j other => (taken.forged_driven driven j).trans (kept.2 j other)⟩)
        net ⟨running, unforged⟩
    have final : Reachable number_of_msg_per_process faulty later := Machine.Reachable.extend reached ran
    have unsupported := final.valid.unsupported_forgery tolerated byzantine fits unforged
    have unheard := final.unheard unsupported k (fun member => different (Finset.mem_singleton.mp member))
    refine ⟨net, later, reached, ⟨actions, ran⟩, fun j settledCorrect other _ => ?_, -1, i, k, correct, target, delivered,
      fun spread => ?_⟩
    · rcases settled j trivial settledCorrect with left | done
      · rw [still j] at left
        cases left
      · exact done.2 other
    · have ready : (later.nodes k).msgs_states (-1) = some .SentReady := (final.valid.ledger k (-1)).delivered_readied spread
      rw [unheard] at ready
      cases ready

/-- Every correct process reads one message from each of the two others. -/
private def reads : List (Action 4) := [.receive 1 0 true, .receive 2 0 true, .receive 0 1 true, .receive 2 1 true,
  .receive 0 2 true, .receive 1 2 true]

set_option maxRecDepth 20000 in
/-- Process 3 forges one Ready for process 0, which is then the first to deliver
the value 4; the others follow. With more forgeries they need not. -/
theorem totality_restrained_four :
    (∃ net later : Net 4,
      Machine.run (Net.step 1 {3}) {} ([.start 0, .start 1, .start 2, .forge 3 0 (.Ready 4), .receive 0 3 true] ++
        (reads ++ reads ++ reads ++ reads.take 3)) = some net ∧
      Machine.run (Net.step 1 {3}) net (reads.drop 3 ++ reads ++ reads ++ reads) = some later ∧
      4 ∈ (net.nodes 0).msgs_delivered ∧ 4 ∉ (net.nodes 1).msgs_delivered ∧
      ∀ k, k ∉ ({3} : Finset (Fin 4)) → 4 ∈ (later.nodes k).msgs_delivered) ∧
    ∃ net later : Net 4, Reachable 1 {3} net ∧ Machine.Reachable (Net.step 1 {3}) net later ∧ later.Quiescent {3} ∧
      ∃ value i k, i ∉ ({3} : Finset (Fin 4)) ∧ k ∉ ({3} : Finset (Fin 4)) ∧ value ∈ (net.nodes i).msgs_delivered ∧
        value ∉ (later.nodes k).msgs_delivered := by
  obtain ⟨spreads, splits⟩ := @totality_restrained 4 1 {3} (by decide)
  obtain ⟨net, ran, delivered, missing, later, rest, quiet, restrained⟩ : ∃ net : Net 4,
      Machine.run (Net.step 1 {3}) {} ([.start 0, .start 1, .start 2, .forge 3 0 (.Ready 4), .receive 0 3 true] ++
        (reads ++ reads ++ reads ++ reads.take 3)) = some net ∧
      4 ∈ (net.nodes 0).msgs_delivered ∧ 4 ∉ (net.nodes 1).msgs_delivered ∧ ∃ later : Net 4,
      Machine.run (Net.step 1 {3}) net (reads.drop 3 ++ reads ++ reads ++ reads) = some later ∧
      (∀ i, i ∉ ({3} : Finset (Fin 4)) → ∀ j, j ∉ ({3} : Finset (Fin 4)) → later.channels j i = []) ∧
      ∀ k, k ∉ ({3} : Finset (Fin 4)) → (later.forged k).count (.Ready 4) ≤ 4 / 3 := by
    refine ⟨_, rfl, ?_, ?_, _, rfl, ?_, ?_⟩ <;> decide
  exact ⟨⟨net, later, ran, rest, delivered, missing,
    spreads net later ⟨_, ran⟩ ⟨_, rest⟩ quiet 4 0 (by decide) delivered restrained (by decide)⟩, splits (by decide) (by decide)⟩

set_option maxRecDepth 10000 in
/-- Process 2 sends the same Ready twice to process 0 only. Process 1 handles
everything process 0 makes of it and never delivers. -/
theorem selective_readies_split_three : ({2} : Finset (Fin 3)).card ≤ (processConfig 1 (0 : Fin 3)).max_byzantin_process_number ∧
    ∃ net later : Net 3, Reachable 1 {2} net ∧ Machine.Reachable (Net.step 1 {2}) net later ∧ later.Quiescent {2} ∧
      -1 ∈ (net.nodes 0).msgs_delivered ∧ -1 ∉ (later.nodes 1).msgs_delivered := by
  obtain ⟨net, ran, delivered, later, rest, quiet, missing⟩ : ∃ net : Net 3,
      Machine.run (Net.step 1 {2}) {} [.start 0, .forge 2 0 (.Ready (-1)), .forge 2 0 (.Ready (-1)), .receive 0 2 true,
        .receive 0 2 true] = some net ∧ -1 ∈ (net.nodes 0).msgs_delivered ∧ ∃ later : Net 3,
      Machine.run (Net.step 1 {2}) net [.start 1, .receive 1 0 true, .receive 1 0 true, .receive 1 0 true, .receive 0 1 true,
        .receive 0 1 true, .receive 1 0 true] = some later ∧
      (∀ i, i ∉ ({2} : Finset (Fin 3)) → ∀ j, j ∉ ({2} : Finset (Fin 3)) → later.channels j i = []) ∧
      -1 ∉ (later.nodes 1).msgs_delivered := by
    refine ⟨_, rfl, ?_, _, rfl, ?_, ?_⟩ <;> decide
  exact ⟨by decide, net, later, ⟨_, ran⟩, ⟨_, rest⟩, quiet, delivered, missing⟩

end NetworkSimulator.Bracha
