import Electorate.Code

namespace Electorate

/-- A request turned down in the ordinary course of events, with what it was about. -/
structure Refusal where
  code : Code
  path : Option String := none
  cause : Option String := none
  deriving DecidableEq, Repr

/-- An empty path is kept but not shown. -/
def Refusal.message (r : Refusal) : String :=
  let head := "KeeperErrorCode = " ++ r.code.message
  match r.path with
  | none => head
  | some p => if p.isEmpty then head else head ++ " for " ++ p

inductive SpecFault where
  | zeroId
  | openBracket (server : String)
  | noPortsAfterBracket (host : String)
  | noPorts (server : String)
  | emptyHost
  | fieldCount (server : String)
  | port (text : String)
  | role (text : String)
  deriving DecidableEq, Repr

def SpecFault.message : SpecFault → String
  | .zeroId => "server id must be positive"
  | .openBracket s => s!"unterminated IPv6 address in '{s}'"
  | .noPortsAfterBracket h => s!"missing ports after '[{h}]'"
  | .noPorts s => s!"missing ports in '{s}'"
  | .emptyHost => "empty host"
  | .fieldCount s => s!"expected host:peerPort:electionPort[:role], got '{s}'"
  | .port t => s!"invalid port '{t}'"
  | .role t => s!"unknown learner type '{t}'"

/-- Why a configuration, or a command that needs one, is turned down. Line numbers count from
one. -/
inductive ConfigFault where
  | notAnEntry (line : Nat) (text : String)
  | serverId (line : Nat) (text : String)
  | weight (line : Nat) (text : String)
  | unknownKey (line : Nat) (key : String)
  | duplicateWeight (id : UInt64)
  | duplicateVersion
  | strayWeight (id : UInt64)
  | weightOverflow
  | noParticipants
  | zeroNodeId
  | logFormat (text : String)
  | noDynamicConfig
  | noMembershipAnywhere
  | noMembershipGiven
  | noServersAsked
  | noNodeGiven
  deriving DecidableEq, Repr

def ConfigFault.message : ConfigFault → String
  | .notAnEntry n t => s!"line {n}: expected key=value, got '{t}'"
  | .serverId n t => s!"line {n}: invalid server id '{t}'"
  | .weight n t => s!"line {n}: invalid weight '{t}'"
  | .unknownKey n k => s!"line {n}: unknown key '{k}'"
  | .duplicateWeight i => s!"duplicate weight for server {i}"
  | .duplicateVersion => "duplicate version line"
  | .strayWeight i => s!"weight.{i} given for unknown server"
  | .weightOverflow => "total voting weight overflows u64"
  | .noParticipants => "configuration has no participants"
  | .zeroNodeId => "node.id must be positive"
  | .logFormat t => s!"logging.format must be 'pretty' or 'json', got '{t}'"
  | .noDynamicConfig => "quorum.dynamic_config is not set"
  | .noMembershipAnywhere => "no membership file given and quorum.dynamic_config is not set"
  | .noMembershipGiven => "no membership file given (pass a file or --config)"
  | .noServersAsked => "at least one participant is required"
  | .noNodeGiven => "info requires --config"

/-- A call that a correct caller never makes. -/
inductive Violation where
  | nothingPending
  | poisoned
  | refusalFromOk
  | unknownCode (number : Int)
  deriving DecidableEq, Repr

def Violation.message : Violation → String
  | .nothingPending => "no reconfiguration pending"
  | .poisoned => "ack tracker lock poisoned"
  | .refusalFromOk => "cannot build a consensus error from code OK"
  | .unknownCode n => s!"unknown consensus code {n}"

inductive Error where
  | config (fault : ConfigFault)
  /-- The node's settings are not well formed or have a field of the wrong type. -/
  | settings
  | serverSpec (id : UInt64) (fault : SpecFault)
  | duplicateServer (id : UInt64)
  | version (text : String)
  | refused (refusal : Refusal)
  | violated (violation : Violation)
  | file (detail : String)
  | json
  deriving DecidableEq, Repr

namespace Error

def message : Error → String
  | config f => "Configuration error: " ++ f.message
  | settings => "Invalid configuration file: not the settings of a node"
  | serverSpec i f => s!"Invalid server spec for server.{i}: " ++ f.message
  | duplicateServer i => s!"Duplicate server id: {i}"
  | version t => "Invalid configuration version: " ++ t
  | refused r => r.message
  | violated v => "Invariant violated: " ++ v.message
  | file d => "I/O error: " ++ d
  | json => "JSON error: not a document of the expected form"

def code? : Error → Option Code
  | refused r => some r.code
  | _ => none

/-- A later attempt may succeed; whether to make one is up to the caller. -/
def isRetryable (e : Error) : Bool :=
  e.code? == some .newConfigNoQuorum || e.code? == some .badVersion

/-- The input was at fault, before any configuration was in force. -/
def isConfigError : Error → Bool
  | config _ | settings | serverSpec _ _ | duplicateServer _ | version _ => true
  | refused _ | violated _ | file _ | json => false

end Error

/-- The refusal that a number from another server stands for. -/
def Refusal.ofNumber (n : Int) : Except Error Refusal :=
  match Code.ofNumber? n with
  | some .ok => .error (.violated .refusalFromOk)
  | some c => .ok (Refusal.mk c none none)
  | none => .error (.violated (.unknownCode n))

end Electorate
