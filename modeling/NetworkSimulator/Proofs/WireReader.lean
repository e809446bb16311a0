import NetworkSimulator.Proofs.WireFormat

/-! A deserializer for exactly the compact form. It keeps the documented
promises, so what is proved from them is not empty. -/

namespace NetworkSimulator.Bracha

def candidate (text : List UInt8) (kind : MsgValueType → Msg) : Msg :=
  kind (Int32.ofInt (readNumber ((text.drop (kind 0).head.length).takeWhile (· != 125))))

/-- The message a text begins with, if any. -/
def readMsg (text : List UInt8) : Option Msg :=
  ([Msg.Initial, Msg.Echo, Msg.Ready].map (candidate text)).find? fun msg => msg.serialized.isPrefixOf text

/-- The slice, the bytes consumed, and whether an error has ended the stream. -/
structure Reader where
  slice : List UInt8
  offset : Nat := 0
  failed : Bool := false

def Reader.next (reader : Reader) : Option (Except Unit Msg) × Reader :=
  if reader.failed ∨ reader.slice.drop reader.offset = [] then (none, reader)
  else
    match readMsg (reader.slice.drop reader.offset) with
    | some msg => (some (.ok msg), { reader with offset := reader.offset + msg.serialized.length })
    | none => (some (.error ()), { reader with failed := true })

def reader : StreamDeserializer Reader where
  from_slice slice := { slice }
  next := Reader.next
  byte_offset := Reader.offset

def Reader.Reads (reader : Reader) (slice : List UInt8) (k : Nat) : Prop := reader = { slice, offset := k }

theorem takeWhile_number (v : MsgValueType) (rest : List UInt8) :
    (number v ++ 125 :: rest).takeWhile (· != 125) = number v := by
  rw [List.takeWhile_append_of_pos]
  · simp
  · intro digit member
    have other : digit ≠ 125 := fun same => brace_not_mem_number v (same ▸ member)
    simpa using other

/-- Reading back what the right kind of message begins with. -/
theorem candidate_serialized (kind : MsgValueType → Msg) (v : MsgValueType) {text : List UInt8}
    (heads : (kind 0).head = (kind v).head) (value : (kind v).value = v) (begins : (kind v).serialized <+: text) :
    candidate text kind = kind v := by
  obtain ⟨rest, rfl⟩ := begins
  have remaining : ((kind v).serialized ++ rest).drop (kind 0).head.length = number v ++ 125 :: (125 :: rest) := by
    rw [Msg.serialized_eq, heads, value, List.append_assoc, List.drop_left]
    simp
  rw [candidate, remaining, takeWhile_number, readNumber_number, Int32.ofInt_toInt]

theorem readMsg_starts {text : List UInt8} {msg : Msg} (found : readMsg text = some msg) : msg.serialized <+: text := by
  have accepted := @List.find?_some _ (fun msg : Msg => msg.serialized.isPrefixOf text) _ _ found
  exact List.isPrefixOf_iff_prefix.mp accepted

theorem readMsg_complete {text : List UInt8} {msg : Msg} (begins : msg.serialized <+: text) :
    ∃ found, readMsg text = some found := by
  apply Option.ne_none_iff_exists'.mp
  intro absent
  have refused := List.find?_eq_none.mp absent msg
  apply refused
  · cases msg with
    | Initial v =>
      have read := candidate_serialized .Initial v rfl rfl begins
      simp [read]
    | Echo v =>
      have read := candidate_serialized .Echo v rfl rfl begins
      simp [read]
    | Ready v =>
      have read := candidate_serialized .Ready v rfl rfl begins
      simp [read]
  · exact List.isPrefixOf_iff_prefix.mpr begins

theorem reader_documented : reader.Documented Reader.Reads := by
  constructor
  · intro slice
    rfl
  · intro s slice k same found
    subst same
    obtain ⟨msg, begins⟩ := found
    obtain ⟨found, read⟩ := readMsg_complete begins
    have nonempty : slice.drop k ≠ [] := fun empty => msg.serialized_ne_nil (List.prefix_nil.mp (empty ▸ begins))
    exact ⟨found, { slice, offset := k + found.serialized.length }, by simp [reader, Reader.next, nonempty, read],
      readMsg_starts read, rfl, rfl⟩
  · intro s slice k same nonempty _ incomplete
    subst same
    have refused : readMsg (slice.drop k) = none := by
      cases read : readMsg (slice.drop k) with
      | none => rfl
      | some msg => exact absurd (readMsg_starts read) (incomplete msg)
    exact ⟨{ slice, offset := k, failed := true }, by simp [reader, Reader.next, nonempty, refused],
      by simp [reader, Reader.next]⟩
  · intro s slice k same empty
    subst same
    simp [reader, Reader.next, empty]

end NetworkSimulator.Bracha
