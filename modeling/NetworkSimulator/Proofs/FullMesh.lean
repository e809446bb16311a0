import NetworkSimulator.Bracha.Setup
import NetworkSimulator.Library.Endpoints
import NetworkSimulator.Library.Machine
import Mathlib.Data.Fin.VecNotation

/-! Set-up ends in a full mesh. Every pair makes one connection, from the earlier
process of the list to the later one, and both keep their end of it. -/

namespace NetworkSimulator.Bracha
variable {process_number : Nat}

theorem StreamMap.insert_new {tcp_streams : StreamMap} {addr : String} (new : addr ∉ tcp_streams.map Prod.fst) (stream : Nat) :
    tcp_streams.insert addr stream = (addr, stream) :: tcp_streams := by
  have kept : tcp_streams.filter (·.1 ≠ addr) = tcp_streams := by
    apply List.filter_eq_self.mpr
    intro entry member
    exact decide_eq_true (ne_of_mem_of_not_mem (List.mem_map_of_mem member) new)
  rw [insert, kept]

/-- The peers a process has connected to already. -/
def Phase.past : Phase process_number → Fin process_number → Prop
  | .unbound, _ => False
  | .connecting i, j => j < i
  | .accepting, _ => True
  | .running, _ => True

/-- What the phase of process `i` says about its map. -/
def Phase.Fits (i : Fin process_number) : Phase process_number → StreamMap → Prop
  | .unbound, _ => True
  | .connecting p, _ => i < p
  | .accepting, tcp_streams => tcp_streams.length < process_number - 1
  | .running, tcp_streams => tcp_streams.length = process_number - 1

namespace Setup

theorem past_peers_from {i : Nat} {tcp_streams : StreamMap} (j : Fin process_number) :
    (peers_from i tcp_streams).past j ↔ j.val < i := by
  unfold peers_from
  split
  · exact Iff.rfl
  next outside =>
    have below : j.val < i := Nat.lt_of_lt_of_le j.isLt (Nat.le_of_not_lt outside)
    split
    · exact iff_of_true trivial below
    · exact iff_of_true trivial below

theorem peers_from_fits {id : Fin process_number} {i : Nat} {tcp_streams : StreamMap} (after : id.val < i)
    (bound : tcp_streams.length ≤ process_number - 1) : (peers_from i tcp_streams).Fits id tcp_streams := by
  unfold peers_from
  split
  · exact after
  · split
    next fewer => exact fewer
    next enough => exact Nat.le_antisymm bound (Nat.le_of_not_lt enough)

theorem peers_from_bound {i : Nat} {tcp_streams : StreamMap} :
    (peers_from i tcp_streams : Phase process_number) ≠ .unbound := by
  unfold peers_from
  intro unbound
  split at unbound
  · cases unbound
  · split at unbound
    · cases unbound
    · cases unbound

/-- The ends of the connections of process `i`, by address. -/
def held (addresses : Fin process_number → String) (connections : List (Fin process_number × Fin process_number))
    (i : Fin process_number) : List (String × Nat) :=
  (Endpoints.ends i connections).map fun entry => (addresses entry.1, entry.2)

theorem held_concat (addresses : Fin process_number → String) (connections : List (Fin process_number × Fin process_number))
    (client server i : Fin process_number) : held addresses (connections ++ [(client, server)]) i =
      held addresses connections i ++ (if client = i then [(addresses server, connections.length)]
        else if server = i then [(addresses client, connections.length)] else []) := by
  rw [held, Endpoints.ends_concat, List.map_append, Endpoints.peerOf]
  split
  · rfl
  · split
    · rfl
    · rfl

/-- Every end of every connection is in the map of its process or still waits for
it, and the connections made are those that the processes have got past. -/
structure Valid (addresses : Fin process_number → String) (setup : Setup process_number) : Prop where
  streams : ∀ i, (setup.tcp_streams i ++ setup.incoming i).Perm (held addresses setup.connections i)
  once : setup.connections.Nodup
  made : ∀ a b, (a, b) ∈ setup.connections ↔ a < b ∧ (setup.phase a).past b
  phases : ∀ i, (setup.phase i).Fits i (setup.tcp_streams i)

section
variable {addresses : Fin process_number → String} (distinct : Function.Injective addresses)
include distinct

theorem held_keys {connections : List (Fin process_number × Fin process_number)}
    (upward : ∀ connection ∈ connections, connection.1 < connection.2) (once : connections.Nodup) (i : Fin process_number) :
    ((held addresses connections i).map Prod.fst).Nodup := by
  have peers := (Endpoints.peers_nodup upward once i).map distinct
  rw [List.map_map] at peers
  rw [held, List.map_map]
  exact peers

variable {setup : Setup process_number}

omit distinct in
theorem Valid.upward (valid : setup.Valid addresses) : ∀ connection ∈ setup.connections, connection.1 < connection.2 :=
  fun connection member => ((valid.made connection.1 connection.2).mp member).1

omit distinct in
theorem Valid.length_le (valid : setup.Valid addresses) (i : Fin process_number) :
    (setup.tcp_streams i).length + (setup.incoming i).length ≤ process_number - 1 := by
  have length := (valid.streams i).length_eq
  have bound := Endpoints.length_ends_le valid.upward valid.once i
  rw [List.length_append, held, List.length_map] at length
  rw [Fintype.card_fin] at bound
  omega

omit distinct in
theorem Valid.fewer (valid : setup.Valid addresses) {i : Fin process_number} (accepting : setup.phase i = .accepting) :
    (setup.tcp_streams i).length < process_number - 1 := by
  have fits := valid.phases i
  rwa [accepting] at fits

omit distinct in
/-- A process connects to those after it, and once. -/
theorem Valid.turn (valid : setup.Valid addresses) {i p : Fin process_number} (connecting : setup.phase i = .connecting p) :
    i < p ∧ (i, p) ∉ setup.connections := by
  have fits := valid.phases i
  rw [connecting] at fits
  refine ⟨fits, ?_⟩
  rw [valid.made, connecting]
  exact fun made => absurd made.2 (lt_irrefl p)

theorem Valid.keys (valid : setup.Valid addresses) (i : Fin process_number) :
    ((setup.tcp_streams i ++ setup.incoming i).map Prod.fst).Nodup :=
  ((valid.streams i).map Prod.fst).nodup_iff.mpr (held_keys distinct valid.upward valid.once i)

/-- A stream that waits is under an address that is not in the map. -/
theorem Valid.unseen (valid : setup.Valid addresses) {i : Fin process_number} {position : Nat} {addr : String} {stream : Nat}
    (waits : (setup.incoming i)[position]? = some (addr, stream)) : addr ∉ (setup.tcp_streams i).map Prod.fst := by
  have keys := valid.keys distinct i
  rw [List.map_append, List.nodup_append] at keys
  intro member
  exact keys.2.2 _ member _ (List.mem_map_of_mem (List.mem_of_getElem? waits)) rfl

end

theorem valid_initial (addresses : Fin process_number → String) : ({} : Setup process_number).Valid addresses where
  streams _ := .refl _
  once := List.nodup_nil
  made a b := by simp [Phase.past]
  phases _ := trivial

section
variable {addresses : Fin process_number → String} (distinct : Function.Injective addresses) {setup next : Setup process_number}
  {id : Fin process_number} (valid : setup.Valid addresses)
include valid

/-- A step changes the phase and the map of one process. -/
theorem Valid.phases_changed
    (others : ∀ i, i ≠ id → next.phase i = setup.phase i ∧ next.tcp_streams i = setup.tcp_streams i)
    (here : (next.phase id).Fits id (next.tcp_streams id)) (i : Fin process_number) : (next.phase i).Fits i (next.tcp_streams i) := by
  by_cases same : i = id
  · subst same
    exact here
  · obtain ⟨phase, streams⟩ := others i same
    rw [phase, streams]
    exact valid.phases i

theorem Valid.bind (done : setup.step addresses (.bind id) = some next) : next.Valid addresses := by
  simp only [step, Option.ite_none_right_eq_some, Option.some.injEq] at done
  obtain ⟨unbound, rfl⟩ := done
  refine ⟨valid.streams, valid.once, ?_, ?_⟩
  · intro a b
    rw [valid.made]
    by_cases same : a = id
    · subst same
      have none : ¬ (setup.phase a).past b := by
        rw [unbound]
        exact fun past => past
      simp only [Function.update_self, past_peers_from, none, and_false, false_iff, not_and]
      exact fun below => Nat.not_lt.mpr below
    · simp only [Function.update_of_ne same]
  · refine valid.phases_changed (fun i other => ⟨Function.update_of_ne other _ _, rfl⟩) ?_
    have bound := valid.length_le id
    simp only [Function.update_self]
    exact peers_from_fits (Nat.lt_succ_self _) (by omega)

section
variable {p : Fin process_number} (below : id < p) (new : (id, p) ∉ setup.connections)
include below new

theorem Valid.extended : (setup.connections ++ [(id, p)]).Nodup ∧
    ∀ connection ∈ setup.connections ++ [(id, p)], connection.1 < connection.2 := by
  constructor
  · apply List.nodup_append.mpr ⟨valid.once, List.nodup_singleton _, _⟩
    intro connection member last single
    rw [List.mem_singleton.mp single]
    exact ne_of_mem_of_not_mem member new
  · intro connection member
    rcases List.mem_append.mp member with earlier | last
    · exact valid.upward connection earlier
    · rw [List.mem_singleton.mp last]
      exact below

/-- There is room for one more stream, -/
theorem Valid.room : (setup.tcp_streams id).length + 1 ≤ process_number - 1 := by
  obtain ⟨once, upward⟩ := valid.extended below new
  have bound := Endpoints.length_ends_le upward once id
  have length := (valid.streams id).length_eq
  rw [Endpoints.ends_concat, Endpoints.peerOf, if_pos rfl] at bound
  rw [held] at length
  simp only [List.length_append, List.length_map, Option.map_some, Option.toList_some, List.length_singleton,
    Fintype.card_fin] at bound length
  omega

include distinct

/-- under an address that is not in the map. -/
theorem Valid.fresh : addresses p ∉ (setup.tcp_streams id).map Prod.fst := by
  obtain ⟨once, upward⟩ := valid.extended below new
  have keys := held_keys distinct upward once id
  rw [held_concat, if_pos rfl, List.map_append, List.nodup_append] at keys
  intro member
  have listed : addresses p ∈ (held addresses setup.connections id).map Prod.fst := by
    apply ((valid.streams id).map Prod.fst).mem_iff.mp
    rw [List.map_append]
    exact List.mem_append_left _ member
  exact keys.2.2 _ listed _ (List.mem_singleton_self _) rfl

end

/-- The new end goes into the map of the one and to the listener of the other. -/
theorem Valid.connect_streams {p : Fin process_number} (below : id < p) (i : Fin process_number) :
    (Function.update setup.tcp_streams id ((addresses p, setup.connections.length) :: setup.tcp_streams id) i ++
      Function.update setup.incoming p (setup.incoming p ++ [(addresses id, setup.connections.length)]) i).Perm
        (held addresses (setup.connections ++ [(id, p)]) i) := by
  rw [held_concat]
  by_cases client : i = id
  · subst client
    rw [Function.update_self, Function.update_of_ne below.ne, if_pos rfl]
    exact ((valid.streams i).cons _).trans (List.perm_append_singleton _ _).symm
  · rw [Function.update_of_ne client, if_neg (Ne.symm client)]
    by_cases server : i = p
    · subst server
      rw [Function.update_self, if_pos rfl, ← List.append_assoc]
      exact (valid.streams i).append_right _
    · rw [Function.update_of_ne server, if_neg (Ne.symm server), List.append_nil]
      exact valid.streams i

/-- And the process is past one more peer. -/
theorem Valid.connect_made {p : Fin process_number} (phase : setup.phase id = .connecting p) (below : id < p)
    (tcp_streams : StreamMap) (a b : Fin process_number) : (a, b) ∈ setup.connections ++ [(id, p)] ↔
      a < b ∧ (Function.update setup.phase id (peers_from (p.val + 1) tcp_streams) a).past b := by
  rw [List.mem_append, valid.made, List.mem_singleton, Prod.mk.injEq]
  by_cases same : a = id
  · subst same
    have now : (setup.phase a).past b ↔ b < p := by
      rw [phase]
      exact Iff.rfl
    rw [Function.update_self, past_peers_from, now]
    simp only [true_and, Fin.lt_def, Fin.ext_iff]
    have order := Fin.lt_def.mp below
    omega
  · simp only [Function.update_of_ne same, same, false_and, or_false]

include distinct

/-- One more connection, from a process to the peer that is its turn. -/
theorem Valid.connect (done : setup.step addresses (.connect id) = some next) : next.Valid addresses := by
  cases phase : setup.phase id with
  | connecting p =>
    simp only [step, phase, Option.ite_none_left_eq_some, Option.some.injEq] at done
    obtain ⟨_, rfl⟩ := done
    obtain ⟨below, new⟩ := valid.turn phase
    simp only [StreamMap.insert_new (valid.fresh distinct below new)]
    refine ⟨valid.connect_streams below, (valid.extended below new).1, valid.connect_made phase below _, ?_⟩
    refine valid.phases_changed (fun i other => ⟨Function.update_of_ne other _ _, Function.update_of_ne other _ _⟩) ?_
    simp only [Function.update_self]
    exact peers_from_fits (Nat.lt_succ_of_lt below) (valid.room below new)
  | unbound => simp [step, phase] at done
  | accepting => simp [step, phase] at done
  | running => simp [step, phase] at done

/-- Accepting moves one end from the listener to the map. -/
theorem Valid.accept {position : Nat} (done : setup.step addresses (.accept id position) = some next) : next.Valid addresses := by
  simp only [step, Option.ite_none_right_eq_some, Option.bind_eq_bind, Option.bind_eq_some_iff, Option.some.injEq] at done
  obtain ⟨accepting, ⟨addr, stream⟩, taken, rfl⟩ := done
  obtain ⟨inside, entry⟩ := List.getElem?_eq_some_iff.mp taken
  have moved : ((addr, stream) :: setup.tcp_streams id ++ (setup.incoming id).eraseIdx position).Perm
      (setup.tcp_streams id ++ setup.incoming id) := by
    rw [List.cons_append, ← entry]
    exact List.perm_middle.symm.trans ((List.getElem_cons_eraseIdx_perm inside).append_left _)
  simp only [StreamMap.insert_new (valid.unseen distinct taken)]
  refine ⟨?_, valid.once, ?_, ?_⟩
  · intro i
    by_cases same : i = id
    · subst same
      simp only [Function.update_self]
      exact moved.trans (valid.streams i)
    · simp only [Function.update_of_ne same]
      exact valid.streams i
  · intro a b
    rw [valid.made]
    split
    · by_cases same : a = id
      · subst same
        simp only [Function.update_self, accepting, Phase.past]
      · simp only [Function.update_of_ne same]
    · rfl
  · refine @Valid.phases_changed _ _ _ _ id valid ?_ ?_
    · intro i other
      refine ⟨?_, Function.update_of_ne other _ _⟩
      change (if _ then _ else _ : Fin process_number → Phase process_number) i = setup.phase i
      split
      · exact Function.update_of_ne other _ _
      · rfl
    · simp only [Function.update_self]
      split
      next full =>
        simp only [Function.update_self]
        exact full
      next fewer =>
        rw [accepting]
        exact Nat.lt_of_le_of_ne (valid.fewer accepting) fewer

theorem Valid.step {action : SetupAction process_number} (done : setup.step addresses action = some next) :
    next.Valid addresses := by
  cases action with
  | bind id => exact valid.bind done
  | connect id => exact valid.connect distinct done
  | refused id =>
    simp only [Setup.step] at done
    split at done
    · split at done
      · cases done
        exact valid
      · cases done
    · cases done
  | accept id position => exact valid.accept distinct done

end

section
variable {addresses : Fin process_number → String} {setup : Setup process_number} (valid : setup.Valid addresses)
include valid

theorem Valid.full {i : Fin process_number} (running : setup.phase i = .running) :
    (setup.tcp_streams i).length = process_number - 1 := by
  have fits := valid.phases i
  rwa [running] at fits

/-- A process that is done has nothing left to accept. -/
theorem Valid.incoming_nil {i : Fin process_number} (running : setup.phase i = .running) : setup.incoming i = [] := by
  have full := valid.full running
  have bound := valid.length_le i
  exact List.length_eq_zero_iff.mp (by omega)

theorem Valid.mem_streams {i : Fin process_number} (running : setup.phase i = .running) {addr : String} {stream : Nat} :
    (addr, stream) ∈ setup.tcp_streams i ↔ ∃ peer, (peer, stream) ∈ Endpoints.ends i setup.connections ∧ addresses peer = addr := by
  have ends := valid.streams i
  rw [valid.incoming_nil running, List.append_nil] at ends
  rw [ends.mem_iff, held, List.mem_map]
  constructor
  · intro found
    obtain ⟨⟨peer, number⟩, member, same⟩ := found
    obtain ⟨rfl, rfl⟩ := Prod.mk.inj same
    exact ⟨peer, member, rfl⟩
  · intro found
    obtain ⟨peer, member, rfl⟩ := found
    exact ⟨(peer, stream), member, rfl⟩

theorem Valid.peers {i : Fin process_number} (running : setup.phase i = .running) (j : Fin process_number) (other : j ≠ i) :
    j ∈ (Endpoints.ends i setup.connections).map Prod.fst := by
  have length := (valid.streams i).length_eq
  rw [valid.incoming_nil running, List.append_nil, held, List.length_map] at length
  apply (Endpoints.length_ends_iff valid.upward valid.once i).mp _ j other
  rw [Fintype.card_fin, ← length, valid.full running]

/-- Both ends of one connection. -/
theorem Valid.shared {i j : Fin process_number} (first : setup.phase i = .running) (second : setup.phase j = .running)
    (other : j ≠ i) : ∃ stream connection, (addresses j, stream) ∈ setup.tcp_streams i ∧
      (addresses i, stream) ∈ setup.tcp_streams j ∧ setup.connections[stream]? = some connection ∧
      (connection = (i, j) ∨ connection = (j, i)) := by
  obtain ⟨⟨peer, stream⟩, member, same⟩ := List.mem_map.mp (valid.peers first j other)
  cases same
  obtain ⟨connection, placed, named⟩ := Endpoints.mem_ends.mp member
  have up := valid.upward connection (List.mem_of_getElem? placed)
  have back := Endpoints.mem_ends.mpr ⟨connection, placed, Endpoints.peerOf_symm up named⟩
  refine ⟨stream, connection, (valid.mem_streams first).mpr ⟨_, member, rfl⟩, (valid.mem_streams second).mpr ⟨i, back, rfl⟩,
    placed, ?_⟩
  rcases (Endpoints.peerOf_eq_some_iff up).mp named with found | found
  · exact Or.inl found.1
  · exact Or.inr found.1

/-- With every listener bound and nobody left to connect, a process that accepts
has a connection waiting. -/
theorem Valid.waiting (bound : ∀ a, setup.phase a ≠ .unbound) (connected : ∀ a p, setup.phase a ≠ .connecting p)
    {i : Fin process_number} (accepting : setup.phase i = .accepting) : setup.incoming i ≠ [] := by
  have past (a b : Fin process_number) : (setup.phase a).past b := by
    cases phase : setup.phase a with
    | unbound => exact absurd phase (bound a)
    | connecting p => exact absurd phase (connected a p)
    | accepting => trivial
    | running => trivial
  have all : (Endpoints.ends i setup.connections).length = Fintype.card (Fin process_number) - 1 := by
    apply (Endpoints.length_ends_iff valid.upward valid.once i).mpr
    intro j other
    apply Endpoints.exists_end.mpr
    rcases lt_or_gt_of_ne other with below | above
    · exact ⟨(j, i), (valid.made j i).mpr ⟨below, past j i⟩, (Endpoints.peerOf_eq_some_iff below).mpr (Or.inr ⟨rfl, below⟩)⟩
    · exact ⟨(i, j), (valid.made i j).mpr ⟨above, past i j⟩, (Endpoints.peerOf_eq_some_iff above).mpr (Or.inl ⟨rfl, above⟩)⟩
  have missing := valid.fewer accepting
  have length := (valid.streams i).length_eq
  rw [List.length_append, held, List.length_map, all, Fintype.card_fin] at length
  intro none
  rw [none, List.length_nil] at length
  omega

/-- Some process can always go on. -/
theorem Valid.progress {i : Fin process_number} (unfinished : setup.phase i ≠ .running) :
    ∃ action next, action.Advances ∧ setup.step addresses action = some next ∧ next ≠ setup := by
  by_cases unbound : ∃ a, setup.phase a = .unbound
  · obtain ⟨a, phase⟩ := unbound
    refine ⟨.bind a, _, trivial, if_pos phase, ?_⟩
    intro same
    have after := congrArg (fun setup => Setup.phase setup a) same
    simp only [Function.update_self, phase] at after
    exact peers_from_bound after
  · push Not at unbound
    by_cases connecting : ∃ a p, setup.phase a = .connecting p
    · obtain ⟨a, p, phase⟩ := connecting
      obtain ⟨next, done, longer⟩ : ∃ next, setup.step addresses (.connect a) = some next ∧
          next.connections = setup.connections ++ [(a, p)] := by
        simp only [Setup.step, phase, if_neg (unbound p)]
        exact ⟨_, rfl, rfl⟩
      refine ⟨.connect a, next, trivial, done, ?_⟩
      intro same
      have length := congrArg List.length longer
      rw [same, List.length_append, List.length_singleton] at length
      omega
    · push Not at connecting
      have accepting : setup.phase i = .accepting := by
        cases phase : setup.phase i with
        | unbound => exact absurd phase (unbound i)
        | connecting p => exact absurd phase (connecting i p)
        | accepting => rfl
        | running => exact absurd phase unfinished
      obtain ⟨entry, rest, shape⟩ := List.exists_cons_of_ne_nil (valid.waiting unbound connecting accepting)
      obtain ⟨next, done, shorter⟩ : ∃ next, setup.step addresses (.accept i 0) = some next ∧ next.incoming i = rest := by
        simp only [Setup.step, if_pos accepting, shape, List.getElem?_cons_zero, Option.bind_eq_bind, Option.bind_some]
        exact ⟨_, rfl, Function.update_self ..⟩
      refine ⟨.accept i 0, next, trivial, done, ?_⟩
      intro same
      rw [same, shape] at shorter
      exact List.cons_ne_self entry rest shorter

end
end Setup

/-- Whatever order the processes start and connect in, who leaves set-up has one
stream for every other process, two such processes share a connection, and as long
as one is not done some step other than a failed attempt is possible. -/
theorem setup_full_mesh {addresses : Fin process_number → String} (distinct : Function.Injective addresses)
    {setup : Setup process_number} (reached : Machine.Reachable (Setup.step addresses) {} setup) :
    (∀ i, setup.phase i = .running →
      (∀ j, j ≠ i → ∃! stream, (addresses j, stream) ∈ setup.tcp_streams i) ∧
      (∀ entry ∈ setup.tcp_streams i, ∃ j, j ≠ i ∧ entry.1 = addresses j) ∧
      (setup.tcp_streams i).length = process_number - 1) ∧
    (∀ i j, j ≠ i → setup.phase i = .running → setup.phase j = .running →
      ∃ stream connection, (addresses j, stream) ∈ setup.tcp_streams i ∧ (addresses i, stream) ∈ setup.tcp_streams j ∧
        setup.connections[stream]? = some connection ∧ (connection = (i, j) ∨ connection = (j, i))) ∧
    ∀ i, setup.phase i ≠ .running →
      ∃ action next, action.Advances ∧ setup.step addresses action = some next ∧ next ≠ setup := by
  have valid : setup.Valid addresses := reached.invariant (Setup.Valid addresses) (Setup.valid_initial addresses)
    fun _ _ _ valid done => valid.step distinct done
  refine ⟨?_, fun i j other first second => valid.shared first second other, fun i unfinished => valid.progress unfinished⟩
  intro i running
  refine ⟨?_, ?_, ?_⟩
  · intro j other
    obtain ⟨⟨peer, stream⟩, member, same⟩ := List.mem_map.mp (valid.peers running j other)
    cases same
    refine ⟨stream, (valid.mem_streams running).mpr ⟨_, member, rfl⟩, ?_⟩
    intro again listed
    have keys := valid.keys distinct i
    rw [valid.incoming_nil running, List.append_nil] at keys
    have entries := List.inj_on_of_nodup_map keys listed ((valid.mem_streams running).mpr ⟨_, member, rfl⟩) rfl
    exact (Prod.mk.inj entries).2
  · intro entry member
    obtain ⟨peer, listed, same⟩ := (valid.mem_streams running).mp member
    refine ⟨peer, ?_, same.symm⟩
    intro own
    subst own
    exact Endpoints.peer_ne valid.upward (List.mem_map_of_mem listed)
  · exact valid.full running

def two_addresses : Fin 2 → String := !["192.168.15.0", "192.168.15.1"]

/-- The earlier process connects as soon as the later one listens. -/
theorem setup_full_mesh_two : ∃ setup,
    Machine.run (Setup.step two_addresses) {} [.bind 0, .refused 0, .bind 1, .connect 0, .accept 1 0] = some setup ∧
      (setup.phase 0 = .running ∧ setup.phase 1 = .running) ∧
      (∃! stream, (two_addresses 1, stream) ∈ setup.tcp_streams 0) ∧
      ∃ stream connection, (two_addresses 1, stream) ∈ setup.tcp_streams 0 ∧ (two_addresses 0, stream) ∈ setup.tcp_streams 1 ∧
        setup.connections[stream]? = some connection ∧ (connection = (0, 1) ∨ connection = (1, 0)) := by
  have distinct : Function.Injective two_addresses := by decide
  obtain ⟨streams, shared, _⟩ := setup_full_mesh distinct
    ⟨[.bind 0, .refused 0, .bind 1, .connect 0, .accept 1 0], rfl⟩
  exact ⟨_, rfl, ⟨rfl, rfl⟩, (streams 0 rfl).1 1 (by decide), shared 0 1 (by decide) rfl rfl⟩

end NetworkSimulator.Bracha
