import NetworkSimulator.Bracha.Streams
import NetworkSimulator.Library.Framing
import NetworkSimulator.Library.Machine

/-! What `broadcast` leaves on the streams. A stream that takes only a part of a
message gets the next message right behind that part. -/

namespace NetworkSimulator.Bracha

/-- The bytes of a message that a `write` puts on a stream. -/
def put (addr : String) (call : Msg × (String → Except Unit Nat)) : List UInt8 :=
  match call.2 addr with
  | .error _ => []
  | .ok n => call.1.serialized.take n

/-- What `write` promises: a count between 1 and the length offered. -/
def Counts (tcp_streams : TcpStreams) (call : Msg × (String → Except Unit Nat)) : Prop :=
  ∀ stream ∈ tcp_streams, ∀ n, call.2 stream.1 = .ok n → 1 ≤ n ∧ n ≤ call.1.serialized.length

/-- Every `write` of the call took the whole message. -/
def Whole (tcp_streams : TcpStreams) (call : Msg × (String → Except Unit Nat)) : Prop :=
  ∀ stream ∈ tcp_streams, call.2 stream.1 = .ok call.1.serialized.length

/-- Every stream holds the complete messages, one after the other. -/
def Intact (before : TcpStreams) (calls : List (Msg × (String → Except Unit Nat))) (after : TcpStreams) : Prop :=
  after = before.map fun stream => (stream.1, stream.2 ++ calls.flatMap fun call => call.1.serialized)

theorem broadcast_put {msg : Msg} {write : String → Except Unit Nat} {before after : TcpStreams}
    (done : broadcast msg write before = (.ok (), after)) :
    after = before.map (fun stream => (stream.1, stream.2 ++ put stream.1 (msg, write))) ∧
      ∀ stream ∈ before, ∃ n, write stream.1 = .ok n := by
  induction before generalizing after with
  | nil =>
    cases done
    exact ⟨rfl, by simp⟩
  | cons stream rest ih =>
    obtain ⟨addr, bytes⟩ := stream
    rw [broadcast] at done
    cases returned : write addr with
    | error e => simp [returned] at done
    | ok n =>
      simp only [returned, Prod.mk.injEq] at done
      obtain ⟨result, rfl⟩ := done
      obtain ⟨later, others⟩ := ih (Prod.ext result rfl)
      constructor
      · simp only [List.map_cons, put, returned]
        exact congrArg _ later
      · exact List.forall_mem_cons.mpr ⟨⟨n, returned⟩, others⟩

theorem broadcast_unwrap_put {before after : TcpStreams} {call : Msg × (String → Except Unit Nat)}
    (done : broadcast_unwrap before call = some after) :
    after = before.map (fun stream => (stream.1, stream.2 ++ put stream.1 call)) ∧
      ∀ stream ∈ before, ∃ n, call.2 stream.1 = .ok n := by
  unfold broadcast_unwrap at done
  split at done
  next rest sent =>
    cases done
    exact broadcast_put sent
  next => cases done

theorem broadcasts_put {before after : TcpStreams} {calls : List (Msg × (String → Except Unit Nat))}
    (ran : Machine.run broadcast_unwrap before calls = some after) :
    after = before.map (fun stream => (stream.1, stream.2 ++ calls.flatMap (put stream.1))) ∧
      ∀ call ∈ calls, ∀ stream ∈ before, ∃ n, call.2 stream.1 = .ok n := by
  induction calls generalizing before with
  | nil =>
    cases ran
    simp
  | cons call calls ih =>
    obtain ⟨middle, taken, rest⟩ := (Machine.run_cons_iff _).mp ran
    obtain ⟨rfl, now⟩ := broadcast_unwrap_put taken
    obtain ⟨later, others⟩ := ih rest
    constructor
    · rw [later, List.map_map]
      simp only [Function.comp_def, List.flatMap_cons, List.append_assoc]
    · intro next member stream present
      rcases List.mem_cons.mp member with rfl | further
      · exact now stream present
      · exact others next further (stream.1, stream.2 ++ put stream.1 call) (List.mem_map.mpr ⟨stream, present, rfl⟩)

theorem put_length_le (addr : String) (call : Msg × (String → Except Unit Nat)) :
    (put addr call).length ≤ call.1.serialized.length := by
  unfold put
  split
  · exact Nat.zero_le _
  · exact List.length_take_le' _ _

/-- After calls that all return `Ok`, the streams hold complete messages if and
only if every `write` took all it was offered. -/
theorem broadcasts_intact_iff {before after : TcpStreams} {calls : List (Msg × (String → Except Unit Nat))}
    (counts : ∀ call ∈ calls, Counts before call) (ran : Machine.run broadcast_unwrap before calls = some after) :
    Intact before calls after ↔ ∀ call ∈ calls, Whole before call := by
  obtain ⟨written, returned⟩ := broadcasts_put ran
  rw [Intact, written, List.map_inj_left]
  constructor
  · intro intact call member stream present
    have same := List.append_cancel_left (Prod.mk.inj (intact stream present)).2
    have whole := Framing.parts_whole (fun call _ => put_length_le stream.1 call) same call member
    obtain ⟨n, taken⟩ := returned call member stream present
    have bounded := (counts call member stream present n taken).2
    have length := congrArg List.length whole
    simp only [put, taken, List.length_take] at length
    rw [taken]
    exact congrArg Except.ok (by omega)
  · intro whole stream present
    have same : calls.flatMap (put stream.1) = calls.flatMap fun call => call.1.serialized := by
      apply List.flatMap_congr
      intro call member
      simp only [put, whole call member stream present, List.take_length]
    rw [same]

theorem one_peer_counts {addr : String} {msg : Msg} {count : Nat} (positive : 1 ≤ count) (bounded : count ≤ msg.serialized.length) :
    ∀ call ∈ [(msg, fun _ => Except.ok count)], Counts [(addr, [])] call := by
  intro call member stream _ n returned
  cases List.mem_singleton.mp member
  cases returned
  exact ⟨positive, bounded⟩

theorem broadcasts_intact_one : ∃ after, Machine.run broadcast_unwrap [("10.0.0.2", [])] [(.Echo 4, fun _ => .ok 16)] = some after ∧
    (Intact [("10.0.0.2", [])] [(.Echo 4, fun _ => .ok 16)] after ↔
      ∀ call ∈ [(Msg.Echo 4, fun _ => Except.ok 16)], Whole [("10.0.0.2", [])] call) :=
  ⟨_, rfl, broadcasts_intact_iff (one_peer_counts (by decide) (by decide +kernel)) rfl⟩

/-- A stream that takes one byte of an Echo has lost the rest of it. -/
theorem short_write_tears : ∃ after, (∀ call ∈ [(Msg.Echo 4, fun _ => Except.ok 1)], Counts [("10.0.0.2", [])] call) ∧
    Machine.run broadcast_unwrap [("10.0.0.2", [])] [(.Echo 4, fun _ => .ok 1)] = some after ∧
      ¬ Intact [("10.0.0.2", [])] [(.Echo 4, fun _ => .ok 1)] after := by
  refine ⟨_, one_peer_counts (by decide) (by decide +kernel), rfl, ?_⟩
  unfold Intact
  decide +kernel

end NetworkSimulator.Bracha
