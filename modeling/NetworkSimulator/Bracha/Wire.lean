import NetworkSimulator.Bracha.Node
import Mathlib.Data.Nat.Digits.Defs

/-! The bytes on one stream: what `broadcast` writes and what the receive loop
does with each read. The deserializer is a parameter. -/

namespace NetworkSimulator.Bracha

def ascii (text : String) : List UInt8 := text.toList.map fun c => UInt8.ofNat c.toNat

/-- Decimal digits, most significant first. -/
def decimal (n : Nat) : List UInt8 :=
  if n = 0 then ascii "0" else (Nat.digits 10 n).reverse.map fun digit => UInt8.ofNat (digit + 48)

def number (v : MsgValueType) : List UInt8 :=
  if v.toInt < 0 then ascii "-" ++ decimal v.toInt.natAbs else decimal v.toInt.natAbs

/-- `serde_json::to_string`: the compact, externally tagged form. -/
def Msg.serialized : Msg → List UInt8
  | .Initial v => ascii "\x7b\"Initial\":\x7b\"v\":" ++ number v ++ ascii "\x7d\x7d"
  | .Echo v => ascii "\x7b\"Echo\":\x7b\"v\":" ++ number v ++ ascii "\x7d\x7d"
  | .Ready v => ascii "\x7b\"Ready\":\x7b\"v\":" ++ number v ++ ascii "\x7d\x7d"

/-- `serde_json`'s stream deserializer over a slice. `next` yields a message, an
error or the end, and the state to go on with. -/
structure StreamDeserializer (σ : Type) where
  from_slice : List UInt8 → σ
  next : σ → Option (Except Unit Msg) × σ
  byte_offset : σ → Nat

/-- What the documentation promises about slices cut from a sequence of compact
objects. `reads s slice k` says that `s` has consumed `k` bytes of `slice` and
met no error. -/
structure StreamDeserializer.Documented {σ : Type} (de : StreamDeserializer σ) (reads : σ → List UInt8 → Nat → Prop) : Prop where
  created : ∀ slice, reads (de.from_slice slice) slice 0
  value : ∀ s slice k, reads s slice k → (∃ msg : Msg, msg.serialized <+: slice.drop k) →
    ∃ (msg : Msg) (s' : σ), de.next s = (some (.ok msg), s') ∧ msg.serialized <+: slice.drop k ∧
      reads s' slice (k + msg.serialized.length) ∧ de.byte_offset s' = k + msg.serialized.length
  incomplete : ∀ s slice k, reads s slice k → slice.drop k ≠ [] → (∃ msg : Msg, slice.drop k <+: msg.serialized) →
    (∀ msg : Msg, ¬ msg.serialized <+: slice.drop k) →
      ∃ s' : σ, de.next s = (some (.error ()), s') ∧ (de.next s').1 = none
  ended : ∀ s slice k, reads s slice k → slice.drop k = [] → (de.next s).1 = none

/-- A process and the buffer of one of its streams. -/
structure Endpoint where
  node : Node
  recv_buffer : List UInt8 := []

variable {σ : Type} (de : StreamDeserializer σ) (config : Config)

/-- The inner loop over `msg_result_stream`, for at most `fuel` calls of `next`:
the node, and `number_bytes_correctly_processed`. An error is only printed. -/
def process : Nat → σ → Node → Nat → Option (Node × Nat)
  | 0, _, _, _ => none
  | fuel + 1, s, node, number_bytes_correctly_processed =>
    match de.next s with
    | (none, _) => some (node, number_bytes_correctly_processed)
    | (some (.error _), s') => process fuel s' node number_bytes_correctly_processed
    | (some (.ok msg), s') => do
      let node ← node.handle config msg
      process fuel s' node (de.byte_offset s')

/-- One read: append, deserialize, and `drain` what was processed. -/
def Endpoint.receive (fuel : Nat) (endpoint : Endpoint) (temp_recv_buffer : List UInt8) : Option Endpoint := do
  let recv_buffer := endpoint.recv_buffer ++ temp_recv_buffer
  let (node, number_bytes_correctly_processed) ← process de config fuel (de.from_slice recv_buffer) endpoint.node 0
  if number_bytes_correctly_processed ≤ recv_buffer.length then
    some { node, recv_buffer := recv_buffer.drop number_bytes_correctly_processed }
  else none

end NetworkSimulator.Bracha
