import ReplicaRing.Duration.Basic
import ReplicaRing.Text.Utf8

/-! Why a value is refused. Causes carry the numbers and texts at fault; only `message` words them. -/
namespace ReplicaRing

inductive ArgumentError
  | emptyKeySpace
  | keySpaceTooLong (length : Nat)
  | rangeStart (start space : Nat)
  | rangeLength (length space : Nat)
  | rangeText (text : String)
  | segmentIndex (index count : Nat)
  | noCopies
  | missingPort (text : String)
  | missingHost (text : String)
  | invalidPort (text : String)
  | byteRange (first stop : Nat)
  | nothingToList
  | rawKey (fault : Utf8.Fault)
deriving DecidableEq

inductive ConfigError
  | noMinimalOks
  | thresholds (minimal optimal maximal : Nat)
  | minimumTimeout (timeout : Duration)
deriving DecidableEq

inductive ClusterError
  | argument (cause : ArgumentError)
  | config (cause : ConfigError)
deriving DecidableEq

/-- The most slots a key space may have: sums of two lengths fit 32 bits. -/
def maxKeySpaceLength : Nat := 2147483647

def ArgumentError.detail : ArgumentError → String
  | emptyKeySpace => "key space length must be positive"
  | keySpaceTooLong length => s!"key space length {length} exceeds maximum of {maxKeySpaceLength}"
  | rangeStart start space => s!"Invalid 'start' argument, {start}; must be [0, {space}["
  | rangeLength length space => s!"Invalid 'length' argument, {length}; must be [0, {space}]"
  | rangeText text => s!"Invalid key range '{text}'"
  | segmentIndex index count => s!"Invalid segment index {index}; must be [0, {count}["
  | noCopies => "Number of copies must be positive"
  | missingPort text => s!"missing port in '{text}'"
  | missingHost text => s!"missing host in '{text}'"
  | invalidPort text => s!"invalid port in '{text}'"
  | byteRange first stop => s!"Invalid byte range [{first}, {stop}): must not be empty"
  | nothingToList => "Number of entries to list must be positive"
  | rawKey fault => s!"raw key is not UTF-8: {fault.message}"

def ConfigError.detail : ConfigError → String
  | noMinimalOks => "minimal_oks must be positive"
  | thresholds minimal optimal maximal =>
    s!"expected minimal_oks <= optimal_oks <= maximal_oks, got {minimal} / {optimal} / {maximal}"
  | minimumTimeout timeout => s!"minimum_timeout ({timeout.shortText}) exceeds a per-call timeout"

def ArgumentError.message (e : ArgumentError) : String := s!"Invalid argument: {e.detail}"

def ConfigError.message (e : ConfigError) : String := s!"Invalid configuration: {e.detail}"

def ClusterError.message : ClusterError → String
  | argument e => e.message
  | config e => e.message

end ReplicaRing
