import ReplicaRing.Config.Basic
import ReplicaRing.Content.ByteRange
import ReplicaRing.Content.Listing
import ReplicaRing.Operation.Run
import ReplicaRing.Routing.Table

/-! A client of a replicated store. Every operation looks up the nodes for its key once, and then runs
over them; the routing table may be updated while calls are under way, which the run sees as nodes
becoming disabled or enabled. -/
namespace ReplicaRing

/-- A client's configuration is valid, by construction. -/
structure Client where
  config : ClientConfig
  table : RoutingTable
  stopped : Bool
  valid : config.validate = .ok ()

/-- The world of a client's calls: its own routing table, and all that is outside. -/
structure Surroundings (σ : Type) where
  table : RoutingTable
  outside : σ

abbrev Primitive (σ α : Type) := Surroundings σ → CallContext → Answer (Surroundings σ) α

/-- Calls to a single node. -/
structure Accessor (σ : Type) where
  get : RawKey → Option ByteRange → Primitive σ ByteArray
  head : RawKey → Primitive σ UInt64
  info : RawKey → Primitive σ EntryInfo
  list : RawKey → ListKind → Nat → Option RawKey → Primitive σ ListPage
  delete : RawKey → Primitive σ Unit

/-- Where an operation finds the world, by which timers, and when it may be stopped. -/
structure Moment (σ : Type) where
  timers : Timers
  outside : σ
  now : Nat
  signal : StopSignal

namespace Client

variable {σ α : Type}

def make (config : ClientConfig) : Except ConfigError Client :=
  match valid : config.validate with
  | .ok () => .ok ⟨config, .empty config.space, false, valid⟩
  | .error cause => .error cause

def stop (c : Client) : Client := { c with stopped := true }

/-- Runs an operation over the nodes for a key. A stopped client calls no node. Flags are read by address from the table
as it then is, so a node that is forgotten during the run is no longer disabled; a run that held on to the nodes it
looked up would go by the last flag of such a node. -/
def operate (c : Client) (limits : Limits) (goal : Goal α) (key : String) (call : Primitive σ α)
    (m : Moment σ) : Run (Surroundings σ) α :=
  let (route, table) := c.table.lookup (c.table.hashKey key)
  Operation.run ⟨m.timers, fun world => world.table.isDisabled, call⟩ limits goal route.nodes ⟨table, m.outside⟩
    m.now (if c.stopped then some m.now else m.signal)

/-- The client when a run is over. -/
def after (c : Client) (r : Run (Surroundings σ) α) : Client :=
  { c with table := r.world.table, stopped := r.isStopped }

def get (c : Client) (a : Accessor σ) (key : String) (range : Option ByteRange) (m : Moment σ) :
    Run (Surroundings σ) ByteArray :=
  c.operate c.config.limitsForReads (.read none) key (a.get (.ofText key) range) m

def head (c : Client) (a : Accessor σ) (key : String) (m : Moment σ) : Run (Surroundings σ) UInt64 :=
  c.operate c.config.limitsForReads (.read none) key (a.head (.ofText key)) m

def info (c : Client) (a : Accessor σ) (key : String) (m : Moment σ) : Run (Surroundings σ) EntryInfo :=
  c.operate c.config.limitsForReads (.read none) key (a.info (.ofText key)) m

/-- One page of the entries whose keys begin with `stem`. -/
def listPage (c : Client) (a : Accessor σ) (stem : String) (kind : ListKind) (max : Nat)
    (lastSeen : Option RawKey) (m : Moment σ) : Run (Surroundings σ) ListPage :=
  c.operate c.config.limitsForListing (.read none) stem (a.list (.ofText stem) kind max lastSeen) m

def delete (c : Client) (a : Accessor σ) (key : String) (m : Moment σ) : Run (Surroundings σ) Unit :=
  c.operate c.config.limitsForDeletes (.delete c.config.operation.thresholds []) key (a.delete (.ofText key)) m

end Client
end ReplicaRing
