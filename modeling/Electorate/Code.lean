namespace Electorate

/-- The outcome of a request to the coordination service. -/
inductive Code where
  | ok
  | systemError
  | runtimeInconsistency
  | dataInconsistency
  | connectionLoss
  | marshallingError
  | unimplemented
  | operationTimeout
  | badArguments
  | unknownSession
  | newConfigNoQuorum
  | reconfigInProgress
  | apiError
  | noNode
  | noAuth
  | badVersion
  | noChildrenForEphemerals
  | nodeExists
  | notEmpty
  | sessionExpired
  | invalidCallback
  | invalidAcl
  | authFailed
  | sessionMoved
  | notReadonly
  | ephemeralOnLocalSession
  | noWatcher
  | requestTimeout
  | reconfigDisabled
  | sessionClosedRequireSaslAuth
  | throttledOp
  deriving DecidableEq, Repr

namespace Code

/-- Every code once, in descending order of number. -/
def all : List Code :=
  [.ok, .systemError, .runtimeInconsistency, .dataInconsistency, .connectionLoss,
   .marshallingError, .unimplemented, .operationTimeout, .badArguments, .unknownSession,
   .newConfigNoQuorum, .reconfigInProgress, .apiError, .noNode, .noAuth, .badVersion,
   .noChildrenForEphemerals, .nodeExists, .notEmpty, .sessionExpired, .invalidCallback,
   .invalidAcl, .authFailed, .sessionMoved, .notReadonly, .ephemeralOnLocalSession,
   .noWatcher, .requestTimeout, .reconfigDisabled, .sessionClosedRequireSaslAuth, .throttledOp]

/-- The number under which a code travels between servers. -/
def number : Code → Int
  | .ok => 0
  | .systemError => -1
  | .runtimeInconsistency => -2
  | .dataInconsistency => -3
  | .connectionLoss => -4
  | .marshallingError => -5
  | .unimplemented => -6
  | .operationTimeout => -7
  | .badArguments => -8
  | .unknownSession => -12
  | .newConfigNoQuorum => -13
  | .reconfigInProgress => -14
  | .apiError => -100
  | .noNode => -101
  | .noAuth => -102
  | .badVersion => -103
  | .noChildrenForEphemerals => -108
  | .nodeExists => -110
  | .notEmpty => -111
  | .sessionExpired => -112
  | .invalidCallback => -113
  | .invalidAcl => -114
  | .authFailed => -115
  | .sessionMoved => -118
  | .notReadonly => -119
  | .ephemeralOnLocalSession => -120
  | .noWatcher => -121
  | .requestTimeout => -122
  | .reconfigDisabled => -123
  | .sessionClosedRequireSaslAuth => -124
  | .throttledOp => -127

def name : Code → String
  | .ok => "OK"
  | .systemError => "SYSTEM_ERROR"
  | .runtimeInconsistency => "RUNTIME_INCONSISTENCY"
  | .dataInconsistency => "DATA_INCONSISTENCY"
  | .connectionLoss => "CONNECTION_LOSS"
  | .marshallingError => "MARSHALLING_ERROR"
  | .unimplemented => "UNIMPLEMENTED"
  | .operationTimeout => "OPERATION_TIMEOUT"
  | .badArguments => "BAD_ARGUMENTS"
  | .unknownSession => "UNKNOWN_SESSION"
  | .newConfigNoQuorum => "NEW_CONFIG_NO_QUORUM"
  | .reconfigInProgress => "RECONFIG_IN_PROGRESS"
  | .apiError => "API_ERROR"
  | .noNode => "NO_NODE"
  | .noAuth => "NO_AUTH"
  | .badVersion => "BAD_VERSION"
  | .noChildrenForEphemerals => "NO_CHILDREN_FOR_EPHEMERALS"
  | .nodeExists => "NODE_EXISTS"
  | .notEmpty => "NOT_EMPTY"
  | .sessionExpired => "SESSION_EXPIRED"
  | .invalidCallback => "INVALID_CALLBACK"
  | .invalidAcl => "INVALID_ACL"
  | .authFailed => "AUTH_FAILED"
  | .sessionMoved => "SESSION_MOVED"
  | .notReadonly => "NOT_READONLY"
  | .ephemeralOnLocalSession => "EPHEMERAL_ON_LOCAL_SESSION"
  | .noWatcher => "NO_WATCHER"
  | .requestTimeout => "REQUEST_TIMEOUT"
  | .reconfigDisabled => "RECONFIG_DISABLED"
  | .sessionClosedRequireSaslAuth => "SESSION_CLOSED_REQUIRE_SASL_AUTH"
  | .throttledOp => "THROTTLED_OP"

def message : Code → String
  | .ok => "ok"
  | .systemError => "SystemError"
  | .runtimeInconsistency => "RuntimeInconsistency"
  | .dataInconsistency => "DataInconsistency"
  | .connectionLoss => "ConnectionLoss"
  | .marshallingError => "MarshallingError"
  | .unimplemented => "Unimplemented"
  | .operationTimeout => "OperationTimeout"
  | .badArguments => "BadArguments"
  | .unknownSession => "Unknown error UNKNOWN_SESSION"
  | .newConfigNoQuorum => "NewConfigNoQuorum"
  | .reconfigInProgress => "ReconfigInProgress"
  | .apiError => "APIError"
  | .noNode => "NoNode"
  | .noAuth => "NoAuth"
  | .badVersion => "BadVersion"
  | .noChildrenForEphemerals => "NoChildrenForEphemerals"
  | .nodeExists => "NodeExists"
  | .notEmpty => "Directory not empty"
  | .sessionExpired => "Session expired"
  | .invalidCallback => "Invalid callback"
  | .invalidAcl => "InvalidACL"
  | .authFailed => "AuthFailed"
  | .sessionMoved => "Session moved"
  | .notReadonly => "Not a read-only call"
  | .ephemeralOnLocalSession => "Ephemeral node on local session"
  | .noWatcher => "No such watcher"
  | .requestTimeout => "Unknown error REQUEST_TIMEOUT"
  | .reconfigDisabled => "Reconfig is disabled"
  | .sessionClosedRequireSaslAuth => "Session closed because client failed to authenticate"
  | .throttledOp => "Op throttled due to high load"

def ofNumber? (n : Int) : Option Code := all.find? (·.number == n)

def ofName? (s : String) : Option Code := all.find? (·.name == s)

/-- System errors lie between the two markers, the upper one included. -/
def isSystemError (c : Code) : Bool :=
  decide (c.number ≤ systemError.number) && decide (apiError.number < c.number)

/-- Errors of the interface lie below its marker. -/
def isApiError (c : Code) : Bool := decide (c.number < apiError.number)

theorem ofNumber?_number (c : Code) : ofNumber? c.number = some c := by
  cases c <;> rfl

end Code

end Electorate
