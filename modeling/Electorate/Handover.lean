import Electorate.Tracker

namespace Electorate

/-- A proposal that waits for a quorum of its own and one of the committed configuration. -/
structure Pending where
  proposed : Configuration
  tracker : Tracker
  committedSlot : Nat
  proposedSlot : Nat
  deriving DecidableEq

/-- The change from one committed configuration to the next. At most one proposal is pending. -/
structure Handover where
  committed : Configuration
  enabled : Bool
  pending : Option Pending
  deriving DecidableEq

namespace Handover

def start (committed : Configuration) (enabled : Bool) : Handover := ⟨committed, enabled, none⟩

def isInProgress (h : Handover) : Bool := h.pending.isSome

def proposed? (h : Handover) : Option Configuration := h.pending.map Pending.proposed

def setEnabled (h : Handover) (on : Bool) : Handover := { h with enabled := on }

/-- The first ground on which a proposal is refused. `base`, where given, is the version that the
proposer takes to be committed, and `version` the one under which the proposal is to stand. -/
def refusal? (h : Handover) (base : Option UInt64) (proposed : Configuration) (version : UInt64) :
    Option Refusal :=
  if !h.enabled then some (Refusal.mk .reconfigDisabled none none)
  else
    match h.pending with
    | some p => some (Refusal.mk .reconfigInProgress (some (versionTag p.proposed.version)) none)
    | none =>
      match base.filter (· != h.committed.version) with
      | some b => some (Refusal.mk .badVersion (some (versionTag b)) none)
      | none =>
        if proposed.sameAs h.committed then
          some (Refusal.mk .badArguments (some (versionTag proposed.version ++ " is a no-op")) none)
        else if version ≤ h.committed.version then
          some (Refusal.mk .badArguments
            (some (versionTag version ++ " does not follow " ++ versionTag h.committed.version))
            none)
        else none

def propose (h : Handover) (base : Option UInt64) (proposed : Configuration) (version : UInt64) :
    Handover × Except Error Configuration :=
  match h.refusal? base proposed version with
  | some r => (h, .error (.refused r))
  | none =>
    let stamped := proposed.stamp version
    -- acknowledgments are counted from here on, so the tracker is a new one
    let first := Tracker.empty.register h.committed
    let second := first.1.register stamped
    ({ h with pending := some (Pending.mk stamped second.1 first.2 second.2) }, .ok stamped)

/-- Records an acknowledgment for the pending proposal and tells whether it was new. -/
def recordAck (h : Handover) (id : UInt64) : Handover × Bool :=
  match h.pending with
  | none => (h, false)
  | some p =>
    let r := p.tracker.recordAck id
    ({ h with pending := some { p with tracker := r.1 } }, r.2)

def recordAll (h : Handover) (ids : List UInt64) : Handover :=
  ids.foldl (fun h id => (h.recordAck id).1) h

def isVotingMember (h : Handover) (id : UInt64) : Bool :=
  match h.pending with
  | none => h.committed.isVoter id
  | some p => p.tracker.isVotingMember id

def hasAllQuorums (h : Handover) : Bool :=
  match h.pending with
  | none => false
  | some p => p.tracker.hasAllQuorums

/-- The acknowledgments for the pending proposal, those of the committed configuration first. -/
def ackSummary? (h : Handover) : Option String := h.pending.map (fun p => p.tracker.summary)

/-- Commits the pending proposal once both configurations agree. -/
def tryCommit (h : Handover) : Handover × Except Error (Option Configuration) :=
  match h.pending with
  | none => (h, .error (.violated .nothingPending))
  | some p =>
    if !p.tracker.hasQuorum p.proposedSlot then
      (h, .error (.refused
        (Refusal.mk .newConfigNoQuorum (some (versionTag p.proposed.version)) none)))
    -- the proposal has its quorum, and the commit waits for the other one
    else if !p.tracker.hasQuorum p.committedSlot then (h, .ok none)
    else ({ h with committed := p.proposed, pending := none }, .ok (some p.proposed))

def abandon (h : Handover) : Handover × Option Configuration :=
  ({ h with pending := none }, h.proposed?)

end Handover

end Electorate
