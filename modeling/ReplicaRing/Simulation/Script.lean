import ReplicaRing.Client.Basic

/-! Scripted nodes, to run operations against. Each node is known by its port and answers calls with
the replies it was given, in order; the last one repeats, and a node without replies has nothing.
Pages of listings are handed out one by one, whoever asks. Time goes by whole milliseconds. -/
namespace ReplicaRing.Simulation

inductive ReplyKind
  | found
  | missing
  | silent
  | failure (cause : FailureCause)
  | server (status : UInt16) (body : String)

/-- `delay` after the call, nodes are disabled and enabled, then the operation may be stopped, and then
the node replies. -/
structure Reply where
  kind : ReplyKind
  text : Option String
  delay : Nat
  stops : Bool
  disable : List UInt16
  enable : List UInt16

structure Stage where
  scripts : List (UInt16 × List Reply)
  pages : List ListPage

/-- Ticks of a millisecond, and no sleep longer than thirty years of 365 days. -/
def timers : Timers := ⟨nanosPerMilli, by decide, some (30 * 365 * 86400 * nanosPerSecond)⟩

def Reply.missing : Reply := ⟨.missing, none, 0, false, [], []⟩

def address (port : UInt16) : NodeAddress := ⟨"10.0.0.1", port⟩

/-- A node that covers everything reports its flag. -/
def report (port : UInt16) (disabled : Bool) (t : RoutingTable) : RoutingTable :=
  let full := t.space.fullRange
  (t.updateDirect (address port) ⟨address port, none, full, full, disabled, 1⟩ 0 0 0).2

/-- A table of nodes that cover everything, some disabled. -/
def table (space : KeySpace) (nodes : List (UInt16 × Bool)) : RoutingTable :=
  nodes.foldl (fun t (port, disabled) => report port disabled t) (.empty space)

namespace Stage

/-- The next reply of a node, which is used up unless it is the last. -/
def next (s : Stage) (port : UInt16) : Reply × Stage :=
  match s.scripts.find? fun entry => entry.1 = port with
  | some (_, [reply]) => (reply, s)
  | some (_, reply :: rest) =>
    (reply, { s with scripts := s.scripts.map fun entry => if entry.1 = port then (port, rest) else entry })
  | _ => (.missing, s)

/-- The next page, which is taken; pages that have run out are empty. -/
def turn (s : Stage) : ListPage × Stage :=
  match s.pages with
  | [] => (⟨[], none⟩, s)
  | page :: rest => (page, { s with pages := rest })

end Stage

/-- Calls that follow the scripts. `find` makes the value of a node that has it, and changes the stage
if that uses something up. -/
def call {α : Type} (stoppable : Bool) (find : Reply → Stage → α × Stage) : Primitive Stage α :=
  fun world context =>
    let (reply, outside) := world.outside.next context.address.port
    let delay := timers.sleepSpan reply.delay
    let due := context.started + delay
    let flagged := reply.enable.foldl (fun t port => report port false t)
      (reply.disable.foldl (fun t port => report port true t) world.table)
    let (outcome, last) : Option (CallResult α) × Stage := match reply.kind with
      | .found =>
        let (value, last) := find reply outside
        (some (.success value), last)
      | .missing => (some .missing, outside)
      | .silent => (none, outside)
      | .failure cause => (some (.failure (context.failure due cause)), outside)
      | .server status body => (some (.failure (context.serverFailure due status body)), outside)
    ⟨⟨world.table, outside⟩, delay, ⟨flagged, last⟩, stoppable && reply.stops, outcome⟩

/-- Nodes that all hold the same content under every key. -/
def accessor (content : ByteArray) : Accessor Stage where
  get _ range := call false fun _ s => (range.elim content fun range => range.cut content, s)
  head _ := call false fun _ s => (content.size.toUInt64, s)
  info key := call false fun _ s => (⟨key, content.size.toUInt64, false, 1000⟩, s)
  list _ _ _ _ := call false fun _ s => s.turn
  delete _ := call false fun _ s => ((), s)

/-- Nodes whose value is the text of their reply, and which can stop the operation. -/
def network {α : Type} (value : Reply → α) : Network (Surroundings Stage) α :=
  ⟨timers, fun world => world.table.isDisabled, call true fun reply s => (value reply, s)⟩

end ReplicaRing.Simulation
