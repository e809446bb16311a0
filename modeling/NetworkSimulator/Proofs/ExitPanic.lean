import NetworkSimulator.Proofs.ExitSilence
import NetworkSimulator.Proofs.NetworkForgery

/-! Networks of four processes and more. The others can finish without the last
one, which has then still to broadcast its Echo of its own last value. -/

namespace NetworkSimulator.Bracha
variable {process_number number_of_msg_per_process : Nat}

namespace Net

theorem Step.actor {net next : Net process_number} {action : Action process_number}
    (taken : Step number_of_msg_per_process ∅ net action next) {k : Fin process_number} (other : k ≠ action.actor) :
    next.nodes k = net.nodes k := by
  cases taken with
  | start =>
    simp only [Action.actor] at other
    simp [advance, other]
  | receive =>
    simp only [Action.actor] at other
    simp [endPass, advance, consume, other]
  | forge => rfl

/-- A process whose peers all had their last word on a value, and which has not
heard of it itself. -/
structure LastSpeaker (number_of_msg_per_process : Nat) (net : Net process_number) (d : Fin process_number) : Prop where
  reached : Reachable number_of_msg_per_process ∅ net
  spoken : number_of_msg_per_process < (net.nodes d).current_msg_id_to_send
  running : ∀ k, net.left k = false
  unheard : ∀ k, (net.nodes k).msgs_states (lastValue number_of_msg_per_process d) = none

/-- The step that begins the last round of a process finds its value unheard of. -/
private theorem last_round {net next : Net process_number} {action : Action process_number} {d : Fin process_number}
    (rounds : 1 ≤ number_of_msg_per_process) (fits : number_of_msg_per_process * process_number ≤ 2 ^ 32)
    (reached : Reachable number_of_msg_per_process ∅ net) (taken : Step number_of_msg_per_process ∅ net action next)
    (before : (net.nodes d).current_msg_id_to_send ≤ number_of_msg_per_process)
    (after : number_of_msg_per_process < (next.nodes d).current_msg_id_to_send) (k : Fin process_number) :
    (next.nodes k).msgs_states (lastValue number_of_msg_per_process d) = none := by
  have valid := reached.valid
  have silent := reached.silent
  have unsupported : net.Unsupported ∅ ∅ (lastValue number_of_msg_per_process d) := by
    constructor
    · intro owner sent
      have position := valid.announced_sent rounds fits rounds (Nat.le_refl _) ⟨owner, sent⟩
      omega
    all_goals intro j _ _
    · simp [silent j]
    · simp only [silent j, List.count_nil, Finset.card_empty]
      omega
    · simp [silent j]
  have earlier := reached.unheard unsupported k (Finset.notMem_empty k)
  have actor : d = action.actor := by
    apply Classical.byContradiction
    intro other
    rw [taken.actor other] at after
    omega
  by_cases same : k = d
  · subst same
    cases taken with
    | @start i correct running first =>
      have equal : k = i := actor
      subst equal
      simpa only [advance, Function.update_self, Node.sendInitial, Node.broadcast] using earlier
    | @receive i j last msg rest node correct running started head handled =>
      have equal : k = i := actor
      subst equal
      simp only [endPass, advance, Function.update_self] at after ⊢
      cases Node.handle_moved handled with
      | stayed current initials waiting => omega
      | released current initials remaining own delivered =>
        have begun := (valid.nodes k).started
        have newest : (net.nodes k).current_msg_id_to_send = number_of_msg_per_process := by omega
        have different : (processConfig number_of_msg_per_process k).ownValue number_of_msg_per_process ≠ msg.value := by
          intro collision
          rw [own, newest] at collision
          have equal := ownValue_injective fits ⟨rounds, by omega⟩ ⟨Nat.le_refl _, Nat.sub_le _ _⟩ collision
          omega
        have ledger := Node.handle_ledger _ _ ((processConfig number_of_msg_per_process k).ownValue
          number_of_msg_per_process) handled
        rw [if_neg different] at ledger
        exact (congrArg Ledger.state ledger).trans earlier
    | forge byzantine => exact earlier
  · rw [taken.actor (actor ▸ same)]
    exact earlier

/-- Every process comes to begin its last round while all others still run. -/
theorem last_speaker (many : 2 ≤ process_number) (rounds : 1 ≤ number_of_msg_per_process)
    (fits : number_of_msg_per_process * process_number ≤ 2 ^ 32) (d : Fin process_number) :
    ∃ net, LastSpeaker number_of_msg_per_process net d := by
  obtain ⟨actions, final, driven, ran, running, settled⟩ :=
    quiesce number_of_msg_per_process (∅ : Finset (Fin process_number)) (fun _ => True) false
      (fun net => ∀ k, net.left k = false)
      (fun _ _ _ driven kept taken k => (taken.left_driven driven k).trans (kept k)) {} fun _ => rfl
  have reached : Reachable number_of_msg_per_process ∅ final := ⟨actions, ran⟩
  have silent := reached.silent
  have genuine := reached.genuine silent
  have idle (k : Fin process_number) : (final.nodes k).current_msg_id_to_send ≠ 1 ∧ ∀ j, final.channels j k = [] := by
    rcases settled k trivial (Finset.notMem_empty k) with left | done
    · rw [running k] at left
      cases left
    · exact done
  have complete := reached.valid.complete silent genuine (reached.waiting rounds fits silent) many rounds
    (by omega) (by rw [Finset.card_empty]; omega) (fun k _ => (idle k).1) (fun k _ _ j _ => (idle k).2 j)
    (fun k member => absurd member (Finset.notMem_empty k)) (Finset.notMem_empty d)
  have spoken := reached.valid.last_round_begun silent genuine rounds fits (Finset.notMem_empty d) complete
  obtain ⟨past, action, rest, net, next, split, before, unspoken, taken, after⟩ :=
    Machine.run_crossing (fun net : Net process_number => number_of_msg_per_process < (net.nodes d).current_msg_id_to_send)
      (by show ¬ number_of_msg_per_process < 1; omega) ran spoken
  have step := step_iff.mp taken
  have along : Machine.run (Net.step number_of_msg_per_process ∅) {} (past ++ [action]) = some next :=
    Machine.run_snoc before taken
  refine ⟨next, ⟨⟨_, along⟩, after, ?_, last_round rounds fits ⟨past, before⟩ step (Nat.le_of_not_lt unspoken) after⟩⟩
  apply left_driven_run (fun _ => True) _ along
  intro other member
  apply driven
  rw [split]
  simp only [List.mem_append, List.mem_cons, List.not_mem_nil, or_false] at member ⊢
  exact member.imp_right Or.inl

/-- Whoever has delivered everything has left. -/
def Eager (number_of_msg_per_process : Nat) (net : Net process_number) : Prop :=
  ∀ k, (net.nodes k).msgs_delivered.card = number_of_msg_per_process * process_number → net.left k = true

theorem Eager.step {net next : Net process_number} {action : Action process_number} {active : Fin process_number → Prop}
    (fits : number_of_msg_per_process * process_number ≤ 2 ^ 32) (eager : net.Eager number_of_msg_per_process)
    (driven : Drives active true action)
    (taken : Step number_of_msg_per_process ∅ net action next) : next.Eager number_of_msg_per_process := by
  intro k full
  cases taken with
  | @start i correct running first =>
    by_cases same : k = i
    · subst same
      simp only [advance, Function.update_self, Node.sendInitial, Node.broadcast] at full
      exact eager k full
    · simp only [advance, Function.update_of_ne same] at full
      exact eager k full
  | @receive i j last msg rest node correct running started head handled =>
    have tested : last = true := driven.2
    by_cases same : k = i
    · subst same
      simp only [endPass, advance, Function.update_self] at full ⊢
      rw [tested, Bool.true_and, Node.finished, full, Bool.or_eq_true, beq_iff_eq]
      exact Or.inr (Nat.mod_eq_of_lt (Nat.lt_of_le_of_lt fits (by decide))).symm
    · simp only [endPass, advance, consume, Function.update_of_ne same] at full ⊢
      exact eager k full
  | forge => exact False.elim driven

theorem Drives.actor {active : Fin process_number → Prop} {exits : Bool} {action : Action process_number}
    (driven : Drives active exits action) : active action.actor := by
  cases action with
  | start i => exact driven
  | receive i j last => exact driven.1
  | forge f i msg => exact False.elim driven

theorem Step.left_other {net next : Net process_number} {action : Action process_number}
    (taken : Step number_of_msg_per_process ∅ net action next) {k : Fin process_number} (other : k ≠ action.actor) :
    next.left k = net.left k := by
  cases taken with
  | start | forge => rfl
  | receive =>
    simp only [Action.actor] at other
    simp [endPass, advance, consume, other]

/-- All processes but `d` have left, and `d` has not changed. -/
structure Deserted (number_of_msg_per_process : Nat) (before net : Net process_number) (d : Fin process_number) : Prop where
  reached : Reachable number_of_msg_per_process ∅ net
  same : net.nodes d = before.nodes d
  running : net.left d = false
  gone : ∀ k, k ≠ d → net.left k = true

theorem LastSpeaker.unfinished {net : Net process_number} {d : Fin process_number}
    (speaker : LastSpeaker number_of_msg_per_process net d) (rounds : 1 ≤ number_of_msg_per_process) (k : Fin process_number) :
    (net.nodes k).msgs_delivered.card ≠ number_of_msg_per_process * process_number := by
  intro full
  have valid := speaker.reached.valid
  have silent := speaker.reached.silent
  have delivered := valid.full_delivered silent (speaker.reached.genuine silent) rounds full
  have last : lastValue number_of_msg_per_process d ∈ (net.nodes k).msgs_delivered := by
    rw [delivered]
    exact lastValue_mem rounds (Finset.notMem_empty d)
  have ready := (valid.ledger k _).delivered_readied last
  have unheard : ((net.nodes k).ledger (lastValue number_of_msg_per_process d)).state = none := speaker.unheard k
  rw [unheard] at ready
  cases ready

/-- Four processes or more can all finish but one. -/
theorem LastSpeaker.deserted {net : Net process_number} {d : Fin process_number}
    (speaker : LastSpeaker number_of_msg_per_process net d) (large : 4 ≤ process_number)
    (rounds : 1 ≤ number_of_msg_per_process) (fits : number_of_msg_per_process * process_number ≤ 2 ^ 32) :
    ∃ final, Deserted number_of_msg_per_process net final d := by
  obtain ⟨actions, final, _, _, ⟨reached, same, running, eager⟩, settled⟩ :=
    quiesce number_of_msg_per_process ∅ (· ≠ d) true
      (fun now => Reachable number_of_msg_per_process ∅ now ∧ now.nodes d = net.nodes d ∧ now.left d = false ∧
        now.Eager number_of_msg_per_process)
      (by
        intro now action next driven found taken
        obtain ⟨⟨past, ran⟩, same, running, eager⟩ := found
        have other : d ≠ action.actor := Ne.symm (Drives.actor driven)
        exact ⟨⟨_, Machine.run_snoc ran (step_iff.mpr taken)⟩, (taken.actor other).trans same,
          (taken.left_other other).trans running, eager.step fits driven taken⟩)
      net ⟨speaker.reached, rfl, speaker.running d, fun k full => absurd full (speaker.unfinished rounds k)⟩
  have valid := reached.valid
  have silent := reached.silent
  have genuine := reached.genuine silent
  have begun (k : Fin process_number) (other : k ∉ ({d} : Finset (Fin process_number))) :
      (final.nodes k).current_msg_id_to_send ≠ 1 := by
    rcases settled k (fun same => other (Finset.mem_singleton.mpr same)) (Finset.notMem_empty k) with left | done
    · have position := valid.last_round_begun silent genuine rounds fits (Finset.notMem_empty k)
        (valid.left_delivered silent genuine rounds (by omega) left)
      omega
    · exact done.1
  have drained (k : Fin process_number) (other : k ∉ ({d} : Finset (Fin process_number))) (active : final.left k = false) :
      final.CaughtUp ∅ k := by
    rcases settled k (fun same => other (Finset.mem_singleton.mpr same)) (Finset.notMem_empty k) with left | done
    · rw [active] at left
      cases left
    · exact fun j _ => done.2 j
  refine ⟨final, reached, same, running, fun k other => eager k ?_⟩
  have complete := valid.complete silent genuine (reached.waiting rounds fits silent) (by omega) rounds (by omega)
    (by rw [Finset.card_singleton]; omega) begun drained
    (fun i member _ => by rw [Finset.mem_singleton.mp member, same]; exact speaker.spoken)
    (fun member => other (Finset.mem_singleton.mp member))
  rw [complete, card_values fits, Finset.card_empty, Nat.sub_zero]

/-- The Echoes of all others make a process send its own. -/
theorem Valid.echoes_back {net : Net process_number} (valid : net.Valid number_of_msg_per_process ∅)
    {d : Fin process_number} (caught : net.CaughtUp ∅ d) (large : 4 ≤ process_number) {value : MsgValueType}
    (others : ∀ k, k ≠ d → (net.nodes k).msgs_states value = some .SentReady) : .Echo value ∈ (net.nodes d).broadcasts := by
  have votes : process_number - (∅ : Finset (Fin process_number)).card - 1 ≤ ((net.echoers value).erase d).card := by
    apply card_present_erase
    intro k _ other
    rw [mem_echoers, others k other]
    simp
  have received := valid.le_handled caught (· == .Echo value)
  rw [valid.sentTo_echo] at received
  rw [Finset.card_empty] at votes
  have ready : (net.nodes d).msgs_states value = some .SentReady := by
    apply (valid.ledger d value).echoes_readied
    · exact Nat.lt_of_lt_of_le (by omega) (votes.trans received)
    · exact Nat.le_trans (by omega) (votes.trans received)
  apply List.count_pos_iff.mp
  rw [((valid.nodes d).readied ready).1]
  exact Nat.zero_lt_one

/-- The process left behind has still to echo its own last value. -/
theorem LastSpeaker.must_broadcast {before net : Net process_number} {d : Fin process_number}
    (speaker : LastSpeaker number_of_msg_per_process before d)
    (deserted : Deserted number_of_msg_per_process before net d) (large : 4 ≤ process_number)
    (rounds : 1 ≤ number_of_msg_per_process) (unwrapped : number_of_msg_per_process * process_number < 2 ^ 64) :
    ∃ state action next, Reachable number_of_msg_per_process ∅ state ∧ (∀ k, k ≠ d → state.left k = true) ∧
      action.actor = d ∧ state.step number_of_msg_per_process ∅ action = some next ∧
        (next.nodes d).broadcasts ≠ (state.nodes d).broadcasts := by
  obtain ⟨actions, final, driven, ran, _, settled⟩ :=
    quiesce number_of_msg_per_process ∅ (· = d) false (fun _ => True) (fun _ _ _ _ _ _ => trivial) net trivial
  obtain ⟨past, origin⟩ := deserted.reached
  have reached : Reachable number_of_msg_per_process ∅ final := ⟨_, Machine.run_append origin ran⟩
  have valid := reached.valid
  have silent := reached.silent
  have left := left_driven_run _ driven ran
  have unechoed : .Echo (lastValue number_of_msg_per_process d) ∉ (net.nodes d).broadcasts := by
    rw [deserted.same]
    exact (speaker.reached.valid.nodes d).unechoed (speaker.unheard d)
  have caught : final.CaughtUp ∅ d := by
    rcases settled d rfl (Finset.notMem_empty d) with gone | done
    · rw [left d, deserted.running] at gone
      cases gone
    · exact fun j _ => done.2 j
  have echoed : .Echo (lastValue number_of_msg_per_process d) ∈ (final.nodes d).broadcasts := by
    apply valid.echoes_back caught large
    intro k other
    have complete := valid.left_delivered silent (reached.genuine silent) rounds unwrapped ((left k).trans (deserted.gone k other))
    have delivered : lastValue number_of_msg_per_process d ∈ (final.nodes k).msgs_delivered := by
      rw [complete]
      exact lastValue_mem rounds (Finset.notMem_empty d)
    exact (valid.ledger k _).delivered_readied delivered
  obtain ⟨early, action, rest, state, next, split, along, unspoken, taken, spoke⟩ :=
    Machine.run_crossing (fun net : Net process_number => .Echo (lastValue number_of_msg_per_process d) ∈
      (net.nodes d).broadcasts) unechoed ran echoed
  have actor : action.actor = d := Drives.actor (driven action (by simp [split]))
  have unchanged := left_driven_run _ (fun other member => driven other (by simp [split, member])) along
  exact ⟨state, action, next, ⟨_, Machine.run_append origin along⟩, fun k other => (unchanged k).trans (deserted.gone k other),
    actor, taken, fun same => unspoken (same ▸ spoke)⟩

end Net

/-- What a network does, the cluster does without a panic. -/
theorem Cluster.run_act {net final : Net process_number} {actions : List (Action process_number)}
    (ran : Machine.run (Net.step number_of_msg_per_process ∅) net actions = some final) :
    Machine.run (Cluster.step number_of_msg_per_process) { net } (actions.map .act) = some { net := final } := by
  induction actions generalizing net with
  | nil =>
    cases ran
    rfl
  | cons action rest ih =>
    obtain ⟨middle, taken, later⟩ := (Machine.run_cons_iff _).mp ran
    refine (Machine.run_cons_iff _).mpr ⟨{ net := middle }, ?_, ih later⟩
    simp [Cluster.step, taken]

/-- A process that has to broadcast when a peer has left can panic. -/
theorem Cluster.panic_possible {state next : Net process_number} {action : Action process_number}
    (reached : Reachable number_of_msg_per_process ∅ state) {q : Fin process_number} (other : q ≠ action.actor)
    (left : state.left q = true) (taken : state.step number_of_msg_per_process ∅ action = some next)
    (spoke : (next.nodes action.actor).broadcasts ≠ (state.nodes action.actor).broadcasts) :
    ∃ cluster, Machine.Reachable (Cluster.step number_of_msg_per_process) {} cluster ∧
      cluster.panicked action.actor = true := by
  obtain ⟨actions, ran⟩ := reached
  obtain ⟨output, extended⟩ := (Net.step_iff.mp taken).broadcasts action.actor
  cases output with
  | nil =>
    rw [List.append_nil] at extended
    exact absurd extended.symm spoke
  | cons msg rest =>
    have written : ((next.nodes action.actor).broadcasts.drop (state.nodes action.actor).broadcasts.length)[0]? = some msg := by
      simp [← extended]
    have closed : ∃ q, q ≠ action.actor ∧ ({ net := state } : Cluster process_number).closed q = true :=
      ⟨q, other, by simp [Cluster.closed, left]⟩
    have failed : Cluster.step number_of_msg_per_process { net := state } (.fail action 0 fun _ => false) =
        some (({ net := state } : Cluster process_number).abort action.actor [] msg fun _ => false) := by
      simp only [Cluster.step, Bool.false_eq_true, if_false, taken, Option.bind_eq_bind, Option.bind_some, written, and_true]
      rw [if_pos closed, List.take_zero]
    exact ⟨_, ⟨_, Machine.run_snoc (Cluster.run_act ran) failed⟩, by simp [Cluster.abort]⟩

/-- A process that leaves its loop never makes another one panic when there are
at most three processes, or when there are so many messages that the exit test
asks for more than the 2^32 values; the first only while the product of the test
does not wrap, where there is no other case. -/
theorem exit_brings_nobody_down (many : 2 ≤ process_number) (rounds : 1 ≤ number_of_msg_per_process) :
    (process_number ≤ 3 ∧ number_of_msg_per_process * process_number < 2 ^ 64 ∨
        2 ^ 32 < number_of_msg_per_process * process_number % 2 ^ 64 →
      ∀ cluster : Cluster process_number, Machine.Reachable (Cluster.step number_of_msg_per_process) {} cluster →
        ∀ i, cluster.panicked i = false) ∧
    (number_of_msg_per_process * process_number < 2 ^ 64 →
      (∀ cluster : Cluster process_number, Machine.Reachable (Cluster.step number_of_msg_per_process) {} cluster →
        ∀ i, cluster.panicked i = false) →
      process_number ≤ 3 ∨ 2 ^ 32 < number_of_msg_per_process * process_number) := by
  constructor
  · intro safe cluster reached
    exact (Cluster.reachable_small reached many rounds safe).1
  · intro unwrapped safe
    apply Classical.byContradiction
    intro neither
    have large : 4 ≤ process_number := by omega
    have fits : number_of_msg_per_process * process_number ≤ 2 ^ 32 := by omega
    obtain ⟨net, speaker⟩ := Net.last_speaker many rounds fits ⟨0, by omega⟩
    obtain ⟨final, deserted⟩ := speaker.deserted large rounds fits
    obtain ⟨state, action, next, reached, gone, actor, taken, spoke⟩ := speaker.must_broadcast deserted large rounds unwrapped
    have other : (⟨1, by omega⟩ : Fin process_number) ≠ ⟨0, by omega⟩ := by simp
    rw [← actor] at other gone spoke
    obtain ⟨cluster, crashed, panicked⟩ := Cluster.panic_possible reached other (gone _ other) taken spoke
    rw [safe cluster crashed] at panicked
    cases panicked

theorem exit_brings_nobody_down_three_not_four :
    (∀ cluster : Cluster 3, Machine.Reachable (Cluster.step 1) {} cluster → ∀ i, cluster.panicked i = false) ∧
      ¬ ∀ cluster : Cluster 4, Machine.Reachable (Cluster.step 1) {} cluster → ∀ i, cluster.panicked i = false :=
  ⟨(@exit_brings_nobody_down 3 1 (by decide) (by decide)).1 (by decide),
    fun safe => absurd ((@exit_brings_nobody_down 4 1 (by decide) (by decide)).2 (by decide) safe) (by decide)⟩

set_option maxRecDepth 20000 in
/-- Four processes with one message each: process 1 delivers everything and
leaves before process 0 has read a single message, and process 0 panics in the
Echo it owes to the first one. -/
theorem exit_of_one_panics_zero : ∃ cluster : Cluster 4, Machine.Reachable (Cluster.step 1) {} cluster ∧
    cluster.net.left 1 = true ∧ cluster.panicked 0 = true := by
  obtain ⟨cluster, ran, left, panicked⟩ : ∃ cluster : Cluster 4, Machine.run (Cluster.step 1) {}
      ([.act (.start 0), .act (.start 1), .act (.start 2), .act (.start 3)] ++
        [(1, 0), (1, 2), (1, 3), (2, 0), (1, 2), (2, 1), (1, 2), (2, 1), (1, 2), (2, 1), (2, 1), (2, 1), (2, 3), (1,
          2), (2, 1), (3, 0), (1, 3), (2, 3), (3, 1), (1, 3), (2, 1), (1, 2), (2, 1), (2, 3), (3, 1), (1, 3), (2, 3),
          (3, 1), (3, 1), (3, 1), (3, 1), (3, 1), (1, 3), (2, 3), (3, 1), (3, 2), (1, 3), (2, 1), (2, 3), (1, 2), (1,
          2), (3, 1), (3, 2), (3, 2), (3, 2), (3, 2), (1, 3), (1, 3), (2, 3), (1, 2), (2, 3), (3, 2), (3, 2), (1, 3)].map
          (fun edge => .act (.receive edge.1 edge.2 true)) ++
        [.fail (.receive 0 1 true) 0 fun _ => false]) = some cluster ∧
      cluster.net.left 1 = true ∧ cluster.panicked 0 = true := by
    refine ⟨_, rfl, ?_, ?_⟩ <;> decide
  exact ⟨cluster, ⟨_, ran⟩, left, panicked⟩

end NetworkSimulator.Bracha
