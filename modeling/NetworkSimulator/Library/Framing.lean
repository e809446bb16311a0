import Mathlib.Data.List.Infix

/-! Messages written one after the other with nothing between them. When no
encoding is a prefix of another, every cut of the text falls after a definite
number of messages and inside at most one more. -/

namespace Framing
universe u v
variable {α : Type u} {β : Type v} (encode : α → List β)

def PrefixFree : Prop := ∀ a b, encode a <+: encode b → a = b

/-- What a cut leaves over: nothing, or the beginning of the next encoding. -/
def Partial (rest : List β) : List α → Prop
  | [] => rest = []
  | next :: _ => rest <+: encode next ∧ rest ≠ encode next

variable {encode}

theorem Partial.incomplete (free : PrefixFree encode) {rest : List β} {pending : List α} (part : Partial encode rest pending)
    (nonempty : ∀ a, encode a ≠ []) (a : α) : ¬ encode a <+: rest := by
  intro complete
  cases pending with
  | nil =>
    rw [show rest = [] from part] at complete
    exact nonempty a (List.prefix_nil.mp complete)
  | cons next later =>
    have same := free a next (complete.trans part.1)
    subst same
    exact part.2 (part.1.eq_of_length_le complete.length_le)

/-- The encoding a text begins with is determined by the text. -/
theorem PrefixFree.first (free : PrefixFree encode) {a m : α} {text : List β} (begins : encode a <+: encode m ++ text) :
    a = m := by
  rcases List.prefix_or_prefix_of_prefix begins (List.prefix_append (encode m) text) with shorter | longer
  · exact free a m shorter
  · exact (free m a longer).symm

/-- Every beginning of the text is some whole messages and a partial one. -/
theorem split_prefix (msgs : List α) (text : List β) (begins : text <+: msgs.flatMap encode) :
    ∃ complete pending rest, msgs = complete ++ pending ∧ text = complete.flatMap encode ++ rest ∧
      Partial encode rest pending := by
  induction msgs generalizing text with
  | nil => exact ⟨[], [], text, rfl, rfl, List.prefix_nil.mp begins⟩
  | cons m msgs ih =>
    rw [List.flatMap_cons] at begins
    by_cases whole : encode m <+: text
    · obtain ⟨after, rfl⟩ := whole
      obtain ⟨complete, pending, rest, split, cut, part⟩ := ih after ((List.prefix_append_right_inj _).mp begins)
      refine ⟨m :: complete, pending, rest, by rw [split, List.cons_append], ?_, part⟩
      rw [cut, List.flatMap_cons, List.append_assoc]
    · refine ⟨[], m :: msgs, text, rfl, rfl, ?_, fun same => whole (same ▸ List.prefix_rfl)⟩
      rcases List.prefix_or_prefix_of_prefix begins (List.prefix_append (encode m) _) with inside | beyond
      · exact inside
      · exact absurd beyond whole

/-- A delimiter ends a field wherever it stands first. -/
theorem delimited {stop : β} {first second front back : List β} (outsideFirst : stop ∉ first) (outsideSecond : stop ∉ second)
    (begins : first ++ stop :: front <+: second ++ stop :: back) : first = second := by
  induction first generalizing second with
  | nil =>
    cases second with
    | nil => rfl
    | cons b second =>
      rw [List.nil_append, List.cons_append, List.cons_prefix_cons] at begins
      exact absurd (begins.1 ▸ List.mem_cons_self) outsideSecond
  | cons a first ih =>
    cases second with
    | nil =>
      rw [List.nil_append, List.cons_append, List.cons_prefix_cons] at begins
      exact absurd (begins.1 ▸ List.mem_cons_self) outsideFirst
    | cons b second =>
      rw [List.cons_append, List.cons_append, List.cons_prefix_cons] at begins
      rw [begins.1, ih (fun member => outsideFirst (List.mem_cons_of_mem _ member))
        (fun member => outsideSecond (List.mem_cons_of_mem _ member)) begins.2]

theorem delimited_split {stop : β} {first second front back : List β} (outsideFirst : stop ∉ first) (outsideSecond : stop ∉ second)
    (same : first ++ stop :: front = second ++ stop :: back) : first = second ∧ front = back := by
  obtain rfl := delimited outsideFirst outsideSecond ⟨[], (List.append_nil _).trans same⟩
  exact ⟨rfl, (List.cons.inj (List.append_cancel_left same)).2⟩

/-- Texts no longer than the encodings can only add up to the encodings if each
is as long as its own. -/
theorem parts_whole {parts wholes : α → List β} {msgs : List α} (bound : ∀ msg ∈ msgs, (parts msg).length ≤ (wholes msg).length)
    (same : msgs.flatMap parts = msgs.flatMap wholes) : ∀ msg ∈ msgs, parts msg = wholes msg := by
  have shorter (rest : List α) (bound : ∀ msg ∈ rest, (parts msg).length ≤ (wholes msg).length) :
      (rest.flatMap parts).length ≤ (rest.flatMap wholes).length := by
    induction rest with
    | nil => exact Nat.le_refl _
    | cons msg rest ih =>
      obtain ⟨first, others⟩ := List.forall_mem_cons.mp bound
      rw [List.flatMap_cons, List.flatMap_cons, List.length_append, List.length_append]
      exact Nat.add_le_add first (ih others)
  induction msgs with
  | nil => simp
  | cons msg msgs ih =>
    obtain ⟨first, others⟩ := List.forall_mem_cons.mp bound
    have rest := shorter msgs others
    rw [List.flatMap_cons, List.flatMap_cons] at same
    have lengths := congrArg List.length same
    rw [List.length_append, List.length_append] at lengths
    obtain ⟨head, tail⟩ := List.append_inj same (by omega)
    exact List.forall_mem_cons.mpr ⟨head, ih others tail⟩

section Cut
variable (encode)

/-- A write of one message of which the channel took only so many symbols. -/
def taken (write : α × Nat) : List β := (encode write.1).take write.2

def Complete (write : α × Nat) : Prop := (encode write.1).length ≤ write.2

instance (write : α × Nat) : Decidable (Complete encode write) := Nat.decLe _ _

/-- What a reader that stops at the first incomplete message is left with. Behind
a write that was cut short it never finds the next message. -/
def Held (rest : List β) : List (α × Nat) → Prop
  | [] => rest = []
  | write :: later =>
    (Complete encode write → rest <+: encode write.1 ∧ rest ≠ encode write.1) ∧
      (¬ Complete encode write → rest <+: (write :: later).flatMap (taken encode))

variable {encode}

theorem taken_whole {write : α × Nat} (whole : Complete encode write) : taken encode write = encode write.1 :=
  List.take_of_length_le whole

theorem flatMap_taken {writes : List (α × Nat)} (whole : ∀ write ∈ writes, Complete encode write) :
    writes.flatMap (taken encode) = (writes.map Prod.fst).flatMap encode := by
  rw [List.flatMap_map]
  exact List.flatMap_congr fun write member => taken_whole (whole write member)

/-- What is written later does not change what is held, unless it was nothing. -/
theorem Held.append {rest : List β} {pending : List (α × Nat)} (held : Held encode rest pending) (more : List (α × Nat))
    (nonempty : ∀ a, encode a ≠ []) : Held encode rest (pending ++ more) := by
  cases pending with
  | nil =>
    cases (show rest = [] from held)
    cases more with
    | nil => rfl
    | cons write later => exact ⟨fun _ => ⟨List.nil_prefix, Ne.symm (nonempty write.1)⟩, fun _ => List.nil_prefix⟩
  | cons write later =>
    refine ⟨held.1, fun short => ?_⟩
    change rest <+: (write :: later ++ more).flatMap (taken encode)
    rw [List.flatMap_append]
    exact (held.2 short).trans (List.prefix_append _ _)

/-- Every beginning of what was written is some whole messages, all of them from
writes that took everything, and a rest that is held. -/
theorem split_writes (writes : List (α × Nat)) (text : List β) (begins : text <+: writes.flatMap (taken encode)) :
    ∃ complete pending rest, writes = complete ++ pending ∧ (∀ write ∈ complete, Complete encode write) ∧
      text = (complete.map Prod.fst).flatMap encode ++ rest ∧ Held encode rest pending := by
  induction writes generalizing text with
  | nil => exact ⟨[], [], text, rfl, by simp, rfl, List.prefix_nil.mp begins⟩
  | cons write writes ih =>
    by_cases whole : Complete encode write
    · rw [List.flatMap_cons, taken_whole whole] at begins
      by_cases complete : encode write.1 <+: text
      · obtain ⟨after, rfl⟩ := complete
        obtain ⟨complete, pending, rest, split, wholes, cut, held⟩ := ih after ((List.prefix_append_right_inj _).mp begins)
        refine ⟨write :: complete, pending, rest, by rw [split, List.cons_append], ?_, ?_, held⟩
        · exact List.forall_mem_cons.mpr ⟨whole, wholes⟩
        · rw [cut, List.map_cons, List.flatMap_cons, List.append_assoc]
      · refine ⟨[], write :: writes, text, rfl, by simp, rfl, fun _ => ⟨?_, fun same => complete (same ▸ List.prefix_rfl)⟩,
          fun short => absurd whole short⟩
        rcases List.prefix_or_prefix_of_prefix begins (List.prefix_append (encode write.1) _) with inside | beyond
        · exact inside
        · exact absurd beyond complete
    · exact ⟨[], write :: writes, text, rfl, by simp, rfl, fun full => absurd full whole, fun _ => begins⟩

end Cut

end Framing
