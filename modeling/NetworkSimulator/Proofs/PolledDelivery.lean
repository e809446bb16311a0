import NetworkSimulator.Library.Machine
import NetworkSimulator.Proofs.SliceEffects

/-! Delivery by polling. However often the loop comes round, after a reading the
frames written are those due by that reading, each at the first reading that is
not before its timestamp. -/

namespace NetworkSimulator.Simulator
variable {VM_NUMBER : Nat} {vm : Fin VM_NUMBER}

/-- No search goes past the end of what it searches. -/
theorem due_le_length (estimate : Nat) (deque_to_deliver : List (Fin VM_NUMBER × FrameToDeliver)) :
    due estimate deque_to_deliver ≤ deque_to_deliver.length := Search.upperBound_le _ _

/-- Walking the deque while popping it writes what lies before the boundary. -/
theorem Running.deliver_frames_eq (running : Running VM_NUMBER) (estimate : Nat) :
    running.deliver_frames vm estimate = some (running.deliver vm estimate) := by
  have inside := due_le_length estimate running.deque_to_deliver
  have walked := @Deque.consume_take _ ⟨0, running.deque_to_deliver⟩ _ (running.deque_to_deliver.length + 1) inside (by omega)
  simp only [deliver_frames]
  rw [show Search.upperBound _ running.deque_to_deliver = due estimate running.deque_to_deliver from rfl, walked]
  rfl

/-- The bound that the last reading, if there was one, puts on what was due. -/
def released (readings : List Nat) (entry : Fin VM_NUMBER × FrameToDeliver) : Bool :=
  readings.getLast?.any fun reading => decide (entry.2.delivery_timestamp_ns ≤ reading)

theorem released_concat (past : List Nat) (reading : Nat) : (released (past ++ [reading]) : Fin VM_NUMBER × FrameToDeliver → Bool) =
    fun entry => decide (entry.2.delivery_timestamp_ns ≤ reading) := by
  funext entry
  simp [released]

/-- What was due by the readings so far is due by a later one. -/
theorem released_later {past : List Nat} {reading : Nat} (upTo : ∀ earlier ∈ past, earlier ≤ reading)
    {entry : Fin VM_NUMBER × FrameToDeliver} (before : released past entry = true) : released (past ++ [reading]) entry = true := by
  obtain ⟨last, latest, due⟩ := (Option.any_eq_true _ _).mp before
  rw [released_concat]
  exact decide_eq_true ((of_decide_eq_true due).trans (upTo last (List.mem_of_getLast? latest)))

section
variable {past : List Nat} (monotone : past.Pairwise (· ≤ ·)) {entry : Fin VM_NUMBER × FrameToDeliver}
include monotone

theorem released_last {last : Nat} (latest : past.getLast? = some last) {reading : Nat} (read : reading ∈ past) : reading ≤ last := by
  obtain ⟨early, rfl⟩ := List.getLast?_eq_some_iff.mp latest
  rcases List.mem_append.mp read with before | now
  · exact (List.pairwise_append.mp monotone).2.2 reading before last (List.mem_singleton_self _)
  · exact (List.mem_singleton.mp now).le

/-- What the last reading leaves in a sorted deque was not due at any of them. -/
theorem unreleased_late {deque_to_deliver : List (Fin VM_NUMBER × FrameToDeliver)} (sorted : Sorted deque_to_deliver)
    (left : entry ∈ deque_to_deliver.dropWhile (released past)) {reading : Nat} (read : reading ∈ past) :
    reading < entry.2.delivery_timestamp_ns := by
  cases latest : past.getLast? with
  | none => simp [List.getLast?_eq_none_iff.mp latest] at read
  | some last =>
    have bound : (released past : Fin VM_NUMBER × FrameToDeliver → Bool) = fun entry => decide (entry.2.delivery_timestamp_ns ≤ last) := by
      funext entry
      simp [released, latest]
    rw [bound] at left
    exact (released_last monotone latest read).trans_lt (Search.lt_of_mem_dropWhile sorted left)

theorem unreleased_unread {deque_to_deliver : List (Fin VM_NUMBER × FrameToDeliver)} (sorted : Sorted deque_to_deliver)
    (left : entry ∈ deque_to_deliver.dropWhile (released past)) :
    past.find? (fun reading => decide (entry.2.delivery_timestamp_ns ≤ reading)) = none := by
  apply List.find?_eq_none.mpr
  intro reading read
  have late := unreleased_late monotone sorted left read
  simpa using late

end

/-- One reading cuts a sorted deque at the last frame that is due. -/
theorem deliveries_sorted {deque_to_deliver : List (Fin VM_NUMBER × FrameToDeliver)} (sorted : Sorted deque_to_deliver) (reading : Nat) :
    (deliveries reading deque_to_deliver).map Delivery.entry =
        deque_to_deliver.takeWhile (fun entry => decide (entry.2.delivery_timestamp_ns ≤ reading)) ∧
      deque_to_deliver.drop (due reading deque_to_deliver) =
        deque_to_deliver.dropWhile fun entry => decide (entry.2.delivery_timestamp_ns ≤ reading) := by
  have boundary : due reading deque_to_deliver = _ := Search.upperBound_sorted sorted reading
  have whole := deliveries_entries reading deque_to_deliver
  have front : (deliveries reading deque_to_deliver).map Delivery.entry =
      deque_to_deliver.takeWhile (fun entry => decide (entry.2.delivery_timestamp_ns ≤ reading)) := by
    rw [deliveries, List.map_map, boundary, ← List.prefix_iff_eq_take.mp (List.takeWhile_prefix _)]
    exact List.map_id _
  refine ⟨front, ?_⟩
  rw [front] at whole
  exact List.append_cancel_left (whole.trans List.takeWhile_append_dropWhile.symm)

/-- After any number of readings that do not decrease, the frames written are
those in front of the first one not due by the last reading. -/
theorem polled_prefix {running : Running VM_NUMBER} (sorted : Sorted running.deque_to_deliver) {readings : List Nat}
    (monotone : readings.Pairwise (· ≤ ·)) :
    ∃ final sent, Machine.run (Running.deliver_frames vm) running readings = some final ∧
      final.state = running.state.write vm sent ∧
      sent.map Delivery.entry = running.deque_to_deliver.takeWhile (released readings) ∧
      final.deque_to_deliver = running.deque_to_deliver.dropWhile (released readings) ∧
      ∀ delivery ∈ sent, readings.find? (fun reading => decide (delivery.frame.delivery_timestamp_ns ≤ reading)) =
        some delivery.current_virtual_time_estimation_ns := by
  induction readings using List.reverseRecOn with
  | nil =>
    have nothing : (released [] : Fin VM_NUMBER × FrameToDeliver → Bool) = fun _ => false := rfl
    refine ⟨running, [], rfl, (State.write_nil _ _).symm, ?_, ?_, ?_⟩
    · simp [nothing]
    · rw [nothing]
      cases running.deque_to_deliver <;> rfl
    · intro delivery none
      cases none
  | append_singleton past reading ih =>
    obtain ⟨earlier, _, upTo⟩ := List.pairwise_append.mp monotone
    obtain ⟨middle, sent, ran, state, written, left, first⟩ := ih earlier
    have shorter : Sorted middle.deque_to_deliver := by
      rw [left]
      exact sorted.sublist (List.dropWhile_sublist _)
    obtain ⟨taken, kept⟩ := deliveries_sorted shorter reading
    have earliest (reached : Nat) (member : reached ∈ past) : reached ≤ reading :=
      upTo reached member reading (List.mem_singleton_self _)
    have weaker (entry : Fin VM_NUMBER × FrameToDeliver) := @released_later _ past reading earliest entry
    obtain ⟨fronts, backs⟩ := Search.takeWhile_step weaker running.deque_to_deliver
    rw [released_concat, ← left] at fronts backs
    refine ⟨middle.deliver vm reading, sent ++ deliveries reading middle.deque_to_deliver,
      Machine.run_snoc ran (middle.deliver_frames_eq reading), ?_, ?_, ?_, ?_⟩
    · rw [← State.write_write, ← state]
      rfl
    · rw [List.map_append, written, taken, released_concat]
      exact fronts
    · rw [released_concat]
      exact kept.trans backs
    · intro delivery member
      rw [List.find?_append]
      rcases List.mem_append.mp member with before | now
      · rw [first delivery before, Option.some_or]
      · have waited : delivery.entry ∈ running.deque_to_deliver.dropWhile (released past) := by
          rw [← left]
          apply (List.takeWhile_prefix _).subset
          rw [← taken]
          exact List.mem_map_of_mem now
        have prompt := deliveries_due shorter now
        obtain ⟨entry, _, rfl⟩ := List.mem_map.mp now
        have due : entry.2.delivery_timestamp_ns ≤ reading := prompt
        have unread : past.find? (fun reading => decide (entry.2.delivery_timestamp_ns ≤ reading)) = none :=
          unreleased_unread earlier sorted waited
        rw [unread, Option.none_or]
        simpa using due

theorem released_ordered {deque_to_deliver : List (Fin VM_NUMBER × FrameToDeliver)} (sorted : Sorted deque_to_deliver) (readings : List Nat) :
    deque_to_deliver.Pairwise fun a b => released readings b = true → released readings a = true := by
  apply sorted.imp
  intro a b earlier due
  obtain ⟨last, latest, before⟩ := (Option.any_eq_true _ _).mp due
  exact (Option.any_eq_true _ _).mpr ⟨last, latest, decide_eq_true (earlier.trans (of_decide_eq_true before))⟩

/-- The frames written are those due by the last reading, in the order of the
deque, each at the first reading that is not before its timestamp. -/
theorem polled_delivery {running : Running VM_NUMBER} (sorted : Sorted running.deque_to_deliver) {readings : List Nat}
    (monotone : readings.Pairwise (· ≤ ·)) :
    ∃ final sent, Machine.run (Running.deliver_frames vm) running readings = some final ∧
      final.state = running.state.write vm sent ∧
      sent.map Delivery.entry = running.deque_to_deliver.filter (released readings) ∧
      final.deque_to_deliver = running.deque_to_deliver.filter (fun entry => !released readings entry) ∧
      ∀ delivery ∈ sent, readings.find? (fun reading => decide (delivery.frame.delivery_timestamp_ns ≤ reading)) =
        some delivery.current_virtual_time_estimation_ns := by
  obtain ⟨front, back⟩ := Search.takeWhile_filter (released_ordered sorted readings)
  obtain ⟨final, sent, ran, state, written, left, first⟩ := polled_prefix sorted monotone
  exact ⟨final, sent, ran, state, written.trans front, left.trans back, first⟩

private def equal_stamps (first last : Fin 2) : Running 2 where
  state := { virtual_clocks_ns := fun _ => 0 }
  deque_to_deliver := [(last, ⟨5, [1]⟩), (first, ⟨5, [2]⟩), (last, ⟨7, [3]⟩), (first, ⟨9, [4]⟩)]

/-- Polling four times writes three of four frames, two of them together. -/
theorem polled_delivery_four : ∃ final sent, Machine.run (Running.deliver_frames 0) (equal_stamps 0 1) [4, 5, 5, 8] = some final ∧
    final.state = (equal_stamps 0 1).state.write 0 sent ∧
    sent.map Delivery.entry = (equal_stamps 0 1).deque_to_deliver.filter (released [4, 5, 5, 8]) ∧
    final.deque_to_deliver = (equal_stamps 0 1).deque_to_deliver.filter (fun entry => !released [4, 5, 5, 8] entry) ∧
    ∀ delivery ∈ sent, [4, 5, 5, 8].find? (fun reading => decide (delivery.frame.delivery_timestamp_ns ≤ reading)) =
      some delivery.current_virtual_time_estimation_ns := polled_delivery (by unfold Sorted; decide) (by decide)

end NetworkSimulator.Simulator
