import Mathlib.Data.Finset.Card
import Mathlib.Data.Fintype.Card
import Mathlib.Data.List.Induction
import Mathlib.Order.Basic

/-! The connections made between some parties, in the order in which they were
made, and their ends at one party. Where every connection goes from the smaller to
the larger party and none is made twice, a party has at most one end for a peer. -/

namespace Endpoints
universe u
variable {ι : Type u} [DecidableEq ι]

/-- The peer of a party in a connection. -/
def peerOf (i : ι) (connection : ι × ι) : Option ι :=
  if connection.1 = i then some connection.2 else if connection.2 = i then some connection.1 else none

/-- The ends at a party: the peer, and the number of the connection. -/
def ends (i : ι) (connections : List (ι × ι)) : List (ι × Nat) :=
  connections.zipIdx.filterMap fun entry => (peerOf i entry.1).map (·, entry.2)

theorem ends_concat (i : ι) (connections : List (ι × ι)) (connection : ι × ι) :
    ends i (connections ++ [connection]) =
      ends i connections ++ ((peerOf i connection).map (·, connections.length)).toList := by
  rw [ends, List.zipIdx_append, List.filterMap_append]
  cases peer : peerOf i connection <;> simp [ends, peer]

theorem mem_ends {i peer : ι} {number : Nat} {connections : List (ι × ι)} :
    (peer, number) ∈ ends i connections ↔
      ∃ connection, connections[number]? = some connection ∧ peerOf i connection = some peer := by
  rw [ends, List.mem_filterMap]
  constructor
  · intro found
    obtain ⟨⟨connection, index⟩, listed, same⟩ := found
    obtain ⟨_, named, equal⟩ := Option.map_eq_some_iff.mp same
    obtain ⟨rfl, rfl⟩ := Prod.mk.inj equal
    exact ⟨connection, List.mem_zipIdx_iff_getElem?.mp listed, named⟩
  · intro found
    obtain ⟨connection, placed, named⟩ := found
    exact ⟨(connection, number), List.mem_zipIdx_iff_getElem?.mpr placed, by rw [named, Option.map_some]⟩

theorem exists_end {i peer : ι} {connections : List (ι × ι)} :
    peer ∈ (ends i connections).map Prod.fst ↔ ∃ connection ∈ connections, peerOf i connection = some peer := by
  rw [List.mem_map]
  constructor
  · intro found
    obtain ⟨⟨_, number⟩, member, rfl⟩ := found
    obtain ⟨connection, placed, named⟩ := mem_ends.mp member
    exact ⟨connection, List.mem_of_getElem? placed, named⟩
  · intro found
    obtain ⟨connection, member, named⟩ := found
    obtain ⟨number, placed⟩ := List.mem_iff_getElem?.mp member
    exact ⟨(peer, number), mem_ends.mpr ⟨connection, placed, named⟩, rfl⟩

section
variable [Preorder ι]

/-- A connection that goes upward is determined by its two parties. -/
theorem peerOf_eq_some_iff {i peer : ι} {connection : ι × ι} (upward : connection.1 < connection.2) :
    peerOf i connection = some peer ↔ connection = (i, peer) ∧ i < peer ∨ connection = (peer, i) ∧ peer < i := by
  obtain ⟨low, high⟩ := connection
  simp only [peerOf, Prod.mk.injEq]
  constructor
  · intro named
    split at named
    next first =>
      cases named
      exact Or.inl ⟨⟨first, rfl⟩, first ▸ upward⟩
    next =>
      rw [Option.ite_none_right_eq_some] at named
      obtain ⟨second, same⟩ := named
      cases same
      exact Or.inr ⟨⟨rfl, second⟩, second ▸ upward⟩
  · intro found
    rcases found with ⟨⟨rfl, rfl⟩, _⟩ | ⟨⟨rfl, rfl⟩, below⟩
    · rw [if_pos rfl]
    · rw [if_neg below.ne, if_pos rfl]

variable {connections : List (ι × ι)} (upward : ∀ connection ∈ connections, connection.1 < connection.2)
include upward

theorem peer_ne {i : ι} : i ∉ (ends i connections).map Prod.fst := by
  intro member
  obtain ⟨connection, listed, named⟩ := exists_end.mp member
  rcases (peerOf_eq_some_iff (upward connection listed)).mp named with ⟨_, below⟩ | ⟨_, below⟩
  · exact lt_irrefl i below
  · exact lt_irrefl i below

omit upward in
/-- Two connections upward with the same two parties are one. -/
theorem peerOf_injective {i peer : ι} {first second : ι × ι} (up : first.1 < first.2) (alsoUp : second.1 < second.2)
    (named : peerOf i first = some peer) (again : peerOf i second = some peer) : first = second := by
  rcases (peerOf_eq_some_iff up).mp named with ⟨rfl, above⟩ | ⟨rfl, below⟩
  · rcases (peerOf_eq_some_iff alsoUp).mp again with ⟨rfl, _⟩ | ⟨_, other⟩
    · rfl
    · exact absurd other (lt_asymm above)
  · rcases (peerOf_eq_some_iff alsoUp).mp again with ⟨_, other⟩ | ⟨rfl, _⟩
    · exact absurd other (lt_asymm below)
    · rfl

omit upward in
theorem peerOf_symm {i peer : ι} {connection : ι × ι} (up : connection.1 < connection.2) (named : peerOf i connection = some peer) :
    peerOf peer connection = some i := by
  rcases (peerOf_eq_some_iff up).mp named with found | found
  · exact (peerOf_eq_some_iff up).mpr (Or.inr found)
  · exact (peerOf_eq_some_iff up).mpr (Or.inl found)

/-- No party has two ends for one peer. -/
theorem peers_nodup (once : connections.Nodup) (i : ι) : ((ends i connections).map Prod.fst).Nodup := by
  induction connections using List.reverseRecOn with
  | nil => exact List.nodup_nil
  | append_singleton connections last ih =>
    obtain ⟨earlier, _, new⟩ := List.nodup_append.mp once
    have before := fun connection member => upward connection (List.mem_append_left _ member)
    have final := upward last (List.mem_append_right _ (List.mem_singleton_self last))
    rw [ends_concat, List.map_append]
    cases named : peerOf i last with
    | none => simpa using ih before earlier
    | some peer =>
      apply List.nodup_append.mpr
      refine ⟨ih before earlier, by simp, ?_⟩
      intro other member same listed equal
      have single : same = peer := by simpa using listed
      subst single equal
      obtain ⟨connection, inside, also⟩ := exists_end.mp member
      exact new connection inside last (List.mem_singleton_self last) (peerOf_injective (before connection inside) final also named)

variable [Fintype ι] (once : connections.Nodup) (i : ι)
include once

/-- So it has at most one for each of the others, -/
theorem length_ends_le : (ends i connections).length ≤ Fintype.card ι - 1 := by
  have all : (i :: (ends i connections).map Prod.fst).Nodup :=
    List.nodup_cons.mpr ⟨peer_ne upward, peers_nodup upward once i⟩
  have bound := all.length_le_card
  rw [List.length_cons, List.length_map] at bound
  omega

/-- and that many exactly when it has one for every other. -/
theorem length_ends_iff : (ends i connections).length = Fintype.card ι - 1 ↔
    ∀ j, j ≠ i → j ∈ (ends i connections).map Prod.fst := by
  have all : (i :: (ends i connections).map Prod.fst).Nodup :=
    List.nodup_cons.mpr ⟨peer_ne upward, peers_nodup upward once i⟩
  have size : (i :: (ends i connections).map Prod.fst).toFinset.card = (ends i connections).length + 1 := by
    rw [List.toFinset_card_of_nodup all, List.length_cons, List.length_map]
  have parties : 0 < Fintype.card ι := Fintype.card_pos_iff.mpr ⟨i⟩
  constructor
  · intro length j other
    have full : (i :: (ends i connections).map Prod.fst).toFinset = Finset.univ := by
      apply Finset.eq_univ_of_card
      omega
    have member := Finset.mem_univ j
    rw [← full, List.mem_toFinset, List.mem_cons] at member
    exact member.resolve_left other
  · intro covered
    have full : (i :: (ends i connections).map Prod.fst).toFinset = Finset.univ := by
      apply Finset.eq_univ_of_forall
      intro j
      rw [List.mem_toFinset, List.mem_cons]
      by_cases same : j = i
      · exact Or.inl same
      · exact Or.inr (covered j same)
    rw [full, Finset.card_univ] at size
    omega

end
end Endpoints
