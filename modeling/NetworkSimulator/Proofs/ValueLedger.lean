import NetworkSimulator.Proofs.NodeHandler
import Mathlib.Data.List.Count

/-! Everything a node holds about one value. Messages about other values leave
a ledger untouched, so a node is a family of independent three-state machines
joined only by its own sending position. -/

namespace NetworkSimulator.Bracha

/-- The last three counts are messages received and handled, without the
node's own Echo and Ready. -/
structure Ledger where
  state : Option MsgState
  echoCount : Nat
  readyCount : Nat
  delivered : Prop
  echoSent : Nat
  readySent : Nat
  initials : Nat
  echoes : Nat
  readies : Nat

def Node.ledger (node : Node) (value : MsgValueType) : Ledger where
  state := node.msgs_states value
  echoCount := node.echoCount value
  readyCount := node.readyCount value
  delivered := value ∈ node.msgs_delivered
  echoSent := node.broadcasts.count (.Echo value)
  readySent := node.broadcasts.count (.Ready value)
  initials := node.handled.count (.Initial value)
  echoes := node.handled.count (.Echo value)
  readies := node.handled.count (.Ready value)

def Msg.value : Msg → MsgValueType
  | .Initial v | .Echo v | .Ready v => v

namespace Ledger

def sendEcho (ledger : Ledger) : Ledger :=
  { ledger with state := some .SentEcho, echoCount := ledger.echoCount + 1, echoSent := ledger.echoSent + 1 }

def sendReady (ledger : Ledger) : Ledger :=
  { ledger with state := some .SentReady, readyCount := ledger.readyCount + 1, readySent := ledger.readySent + 1 }

def advance (ledger : Ledger) : Ledger :=
  match ledger.state with
  | none => ledger.sendEcho.sendReady
  | some .SentEcho => ledger.sendReady
  | some .SentReady => ledger

def deliver (ledger : Ledger) : Ledger := { ledger with delivered := True }

variable (quorum tolerated : Nat)

def onInitial (ledger : Ledger) : Ledger :=
  let counted := { ledger with initials := ledger.initials + 1 }
  if counted.state = none then counted.sendEcho else counted

def onEcho (ledger : Ledger) : Ledger :=
  let counted := { ledger with echoes := ledger.echoes + 1, echoCount := ledger.echoCount + 1 }
  if quorum ≤ counted.echoCount then counted.advance else counted

def onReady (ledger : Ledger) : Ledger :=
  let counted := { ledger with readies := ledger.readies + 1, readyCount := ledger.readyCount + 1 }
  if tolerated + 1 ≤ counted.readyCount then
    if 2 * tolerated + 1 ≤ counted.advance.readyCount then counted.advance.deliver else counted.advance
  else counted

def on (config : Config) (ledger : Ledger) : Msg → Ledger
  | .Initial _ => ledger.onInitial
  | .Echo _ => ledger.onEcho config.echoQuorum
  | .Ready _ => ledger.onReady config.max_byzantin_process_number

theorem advance_state (ledger : Ledger) : ledger.advance.state = some .SentReady := by
  rcases state : ledger.state with _ | (_ | _)
  all_goals simp only [advance, sendEcho, sendReady, state]

theorem onInitial_state (ledger : Ledger) :
    ledger.onInitial.state = if ledger.state = none then some .SentEcho else ledger.state := by
  simp only [onInitial]
  split <;> rfl

theorem onEcho_state (ledger : Ledger) :
    (ledger.onEcho quorum).state = if quorum ≤ ledger.echoCount + 1 then some .SentReady else ledger.state := by
  simp only [onEcho]
  split
  · exact advance_state _
  · rfl

theorem onReady_state (ledger : Ledger) :
    (ledger.onReady tolerated).state = if tolerated + 1 ≤ ledger.readyCount + 1 then some .SentReady else ledger.state := by
  simp only [onReady]
  split
  · split
    · exact advance_state _
    · exact advance_state _
  · rfl

/-- What the counters mean, and which receptions have which consequences. The
thresholds are stated in received messages: the node's own Echo and Ready can
complete a count only at a reception. -/
structure Valid (ledger : Ledger) : Prop where
  echo_counted : ledger.echoCount = ledger.echoes + ledger.echoSent
  ready_counted : ledger.readyCount = ledger.readies + ledger.readySent
  echo_sent : ledger.echoSent = if ledger.state = none then 0 else 1
  ready_sent : ledger.readySent = if ledger.state = some .SentReady then 1 else 0
  initial_echoed : 0 < ledger.initials → ledger.state ≠ none
  echoes_readied : 0 < ledger.echoes → quorum ≤ ledger.echoes → ledger.state = some .SentReady
  readies_readied : tolerated + 1 ≤ ledger.readies → ledger.state = some .SentReady
  delivered_iff : ledger.delivered ↔ max 1 (2 * tolerated) ≤ ledger.readies
  echoed_because : ledger.state ≠ none →
    0 < ledger.initials ∨ (0 < ledger.echoes ∧ quorum ≤ ledger.echoes) ∨ tolerated + 1 ≤ ledger.readies
  readied_because : ledger.state = some .SentReady →
    (0 < ledger.echoes ∧ quorum ≤ ledger.echoes + 1) ∨ tolerated + 1 ≤ ledger.readies

variable {quorum tolerated}

theorem Valid.onInitial {ledger : Ledger} (valid : ledger.Valid quorum tolerated) :
    ledger.onInitial.Valid quorum tolerated := by
  obtain ⟨echoCounted, readyCounted, echoSent, readySent, _, echoes, readies, delivered, echoed, readied⟩ := valid
  cases state : ledger.state with
  | none | some state =>
    simp only [Ledger.onInitial, Ledger.sendEcho, state, if_true, reduceCtorEq, if_false]
    constructor <;> grind

theorem Valid.onEcho {ledger : Ledger} (valid : ledger.Valid quorum tolerated) :
    (ledger.onEcho quorum).Valid quorum tolerated := by
  obtain ⟨echoCounted, readyCounted, echoSent, readySent, initial, echoes, readies, delivered, echoed, readied⟩ := valid
  by_cases reached : quorum ≤ ledger.echoCount + 1
  all_goals
    rcases state : ledger.state with _ | (_ | _)
    all_goals
      simp only [Ledger.onEcho, reached, Ledger.advance, Ledger.sendEcho, Ledger.sendReady, state, if_true, if_false]
      constructor <;> grind

theorem Valid.onReady {ledger : Ledger} (valid : ledger.Valid quorum tolerated) :
    (ledger.onReady tolerated).Valid quorum tolerated := by
  obtain ⟨echoCounted, readyCounted, echoSent, readySent, initial, echoes, readies, delivered, echoed, readied⟩ := valid
  by_cases reached : tolerated + 1 ≤ ledger.readyCount + 1
  · by_cases enough : 2 * tolerated + 1 ≤
        ({ ledger with readies := ledger.readies + 1, readyCount := ledger.readyCount + 1 } : Ledger).advance.readyCount
    all_goals
      rcases state : ledger.state with _ | (_ | _)
      all_goals
        simp only [Ledger.onReady, reached, enough, if_true, if_false]
        simp only [Ledger.deliver, Ledger.advance, Ledger.sendEcho, Ledger.sendReady, state] at enough ⊢
        constructor <;> grind
  · rcases state : ledger.state with _ | (_ | _)
    all_goals
      simp only [Ledger.onReady, reached, if_false]
      constructor <;> grind

theorem Valid.delivered_readied {ledger : Ledger} (valid : ledger.Valid quorum tolerated) (delivered : ledger.delivered) :
    ledger.state = some .SentReady := by
  have received := valid.delivered_iff.mp delivered
  exact valid.readies_readied (by omega)

/-- Before a value is settled its counters are within the thresholds. -/
theorem Valid.unsettled {ledger : Ledger} (valid : ledger.Valid quorum tolerated) (unready : ledger.state ≠ some .SentReady) :
    ledger.echoCount ≤ quorum + 1 ∧ ledger.readyCount ≤ tolerated := by
  obtain ⟨echoCounted, readyCounted, echoSent, readySent, _, echoes, readies, _, _, _⟩ := valid
  grind

/-- Another Ready for a delivered value is only counted. -/
theorem Valid.onReady_delivered {ledger : Ledger} (valid : ledger.Valid quorum tolerated) (delivered : ledger.delivered) :
    ledger.onReady tolerated = { ledger with readies := ledger.readies + 1, readyCount := ledger.readyCount + 1 } := by
  have state := valid.delivered_readied delivered
  have enough := valid.delivered_iff.mp delivered
  have counted := valid.ready_counted
  have reached : tolerated + 1 ≤ ledger.readyCount + 1 := by omega
  have further : 2 * tolerated + 1 ≤ ledger.readyCount + 1 := by omega
  simp only [Ledger.onReady, Ledger.advance, Ledger.deliver, state, reached, further, if_true, eq_true delivered]

end Ledger

namespace Node
variable (config : Config) (node : Node) (value other : MsgValueType)

theorem sendEcho_ledger : (node.sendEcho value).ledger other =
    if other = value then (node.ledger other).sendEcho else node.ledger other := by
  by_cases same : other = value
  · subst same
    simp [ledger, sendEcho, broadcast, echoCount, readyCount, Ledger.sendEcho]
  · simp [ledger, sendEcho, broadcast, echoCount, readyCount, same, bump_other, Ne.symm same]

theorem sendReady_ledger : (node.sendReady value).ledger other =
    if other = value then (node.ledger other).sendReady else node.ledger other := by
  by_cases same : other = value
  · subst same
    simp [ledger, sendReady, broadcast, echoCount, readyCount, Ledger.sendReady]
  · simp [ledger, sendReady, broadcast, echoCount, readyCount, same, bump_other, Ne.symm same]

theorem advance_ledger : (node.advance value).ledger other =
    if other = value then (node.ledger other).advance else node.ledger other := by
  by_cases same : other = value
  · subst same
    rcases state : node.msgs_states other with _ | (_ | _)
    all_goals simp [advance, Ledger.advance, state, sendEcho_ledger, sendReady_ledger]
    all_goals simp [ledger, state]
  · rcases state : node.msgs_states value with _ | (_ | _)
    all_goals simp [advance, state, sendEcho_ledger, sendReady_ledger, same]

theorem sendInitial_ledger : (node.sendInitial config).ledger other = node.ledger other := by
  simp [ledger, sendInitial, broadcast, echoCount, readyCount]

theorem deliver_ledger : (node.deliver config value).ledger other =
    if other = value then (node.ledger other).deliver else node.ledger other := by
  have released : (node.deliver config value).ledger other =
      ({ node with msgs_delivered := insert value node.msgs_delivered } : Node).ledger other := by
    unfold deliver
    simp only
    split
    · split
      · rw [sendInitial_ledger]
        rfl
      · rfl
    · rfl
  rw [released]
  by_cases same : other = value
  · simp [ledger, echoCount, readyCount, same, Ledger.deliver]
  · simp [ledger, echoCount, readyCount, same]

private theorem initial_counted : ((node.record (.Initial value)).countInitial value).ledger other =
    if other = value then { node.ledger other with initials := (node.ledger other).initials + 1 } else node.ledger other := by
  by_cases same : other = value
  · subst same
    simp [ledger, record, countInitial, echoCount, readyCount]
  · simp [ledger, record, countInitial, echoCount, readyCount, same, Ne.symm same]

private theorem echo_counted : ((node.record (.Echo value)).countEcho value).ledger other =
    if other = value then { node.ledger other with
      echoes := (node.ledger other).echoes + 1, echoCount := (node.ledger other).echoCount + 1 }
    else node.ledger other := by
  by_cases same : other = value
  · subst same
    simp [ledger, record, countEcho, echoCount, readyCount]
  · simp [ledger, record, countEcho, echoCount, readyCount, same, Ne.symm same, bump_other]

theorem ready_counted : ((node.record (.Ready value)).countReady value).ledger other =
    if other = value then { node.ledger other with
      readies := (node.ledger other).readies + 1, readyCount := (node.ledger other).readyCount + 1 }
    else node.ledger other := by
  by_cases same : other = value
  · subst same
    simp [ledger, record, countReady, echoCount, readyCount]
  · simp [ledger, record, countReady, echoCount, readyCount, same, Ne.symm same, bump_other]

/-- A message moves the ledger of its own value and no other. -/
theorem handle_ledger {next : Node} {msg : Msg} (handled : node.handle config msg = some next) :
    next.ledger other = if other = msg.value then (node.ledger other).on config msg else node.ledger other := by
  cases msg with
  | Initial value =>
    rw [handle, handleInitial_eq, Option.some.injEq] at handled
    subst handled
    have state : (node.record (.Initial value)).msgs_states value = (node.ledger value).state := rfl
    rw [state]
    by_cases same : other = value
    · subst same
      by_cases absent : (node.ledger other).state = none
      · simp [absent, sendEcho_ledger, initial_counted, Msg.value, Ledger.on, Ledger.onInitial]
      · simp [absent, initial_counted, Msg.value, Ledger.on, Ledger.onInitial]
    · split <;> simp [sendEcho_ledger, initial_counted, Msg.value, same]
  | Echo value =>
    rw [handle, handleEcho_eq, Option.some.injEq] at handled
    subst handled
    have count : (node.record (.Echo value)).echoCount value = (node.ledger value).echoCount := rfl
    rw [count]
    by_cases same : other = value
    · subst same
      by_cases reached : config.echoQuorum ≤ (node.ledger other).echoCount + 1
      · simp [reached, advance_ledger, echo_counted, Msg.value, Ledger.on, Ledger.onEcho]
      · simp [reached, echo_counted, Msg.value, Ledger.on, Ledger.onEcho]
    · split <;> simp [advance_ledger, echo_counted, Msg.value, same]
  | Ready value =>
    rw [handle, handleReady_eq, Option.some.injEq] at handled
    subst handled
    have count : (node.record (.Ready value)).readyCount value = (node.ledger value).readyCount := rfl
    have advanced (counted : Node) : (counted.advance value).readyCount value = (counted.ledger value).advance.readyCount := by
      have moved := counted.advance_ledger value value
      rw [if_pos rfl] at moved
      exact congrArg Ledger.readyCount moved
    simp only [count, advanced]
    by_cases same : other = value
    · subst same
      simp only [ready_counted, if_true, Msg.value, Ledger.on, Ledger.onReady]
      split
      · split <;> simp [deliver_ledger, advance_ledger, ready_counted]
      · simp [ready_counted]
    · split
      · split <;> simp [deliver_ledger, advance_ledger, ready_counted, Msg.value, same]
      · simp [ready_counted, Msg.value, same]

end Node
end NetworkSimulator.Bracha
