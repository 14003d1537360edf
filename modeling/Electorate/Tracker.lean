import Electorate.Configuration

namespace Electorate

/-- A configuration under watch and the ids of its voters that have acknowledged since it was
registered. -/
structure Entry where
  config : Configuration
  acks : IdSet
  deriving DecidableEq

namespace Entry

def start (c : Configuration) : Entry := ⟨c, IdMap.empty⟩

def lacks (e : Entry) (id : UInt64) : Bool := e.config.isVoter id && !e.acks.contains id

/-- Only voters enter the set, each once. -/
def ack (e : Entry) (id : UInt64) : Entry :=
  if e.lacks id then { e with acks := e.acks.insert id () } else e

def hasQuorum (e : Entry) : Bool := e.config.hasQuorum e.acks

end Entry

inductive Phase where
  | empty
  | single
  | dual
  | cascading (n : Nat)
  deriving DecidableEq, Repr

def Phase.text : Phase → String
  | empty => "EMPTY"
  | single => "SINGLE"
  | dual => "DUAL"
  | cascading n => s!"CASCADING({n})"

def idsText (acks : IdSet) : String :=
  "\x7b" ++ ", ".intercalate (acks.ids.map toString) ++ "\x7d"

/-- The acknowledgments of one operation against every configuration in force. A slot is taken by
registration, emptied by retirement and never taken again. -/
structure Tracker where
  slots : List (Option Entry)
  deriving DecidableEq

namespace Tracker

def empty : Tracker := ⟨[]⟩

instance : Inhabited Tracker := ⟨empty⟩

/-- Opens the next slot with nothing acknowledged. -/
def register (t : Tracker) (c : Configuration) : Tracker × Nat :=
  (⟨t.slots ++ [some (Entry.start c)]⟩, t.slots.length)

def entryAt? (t : Tracker) (slot : Nat) : Option Entry := (t.slots[slot]?).join

/-- Empties a slot and gives back its configuration, if there was one. -/
def retire (t : Tracker) (slot : Nat) : Tracker × Option Configuration :=
  (⟨t.slots.set slot none⟩, (t.entryAt? slot).map Entry.config)

/-- The entries in force, in order of registration. -/
def active (t : Tracker) : List Entry := t.slots.filterMap id

/-- Records an acknowledgment wherever `id` votes and tells whether any set has grown. -/
def recordAck (t : Tracker) (id : UInt64) : Tracker × Bool :=
  (⟨t.slots.map (Option.map (Entry.ack · id))⟩, t.active.any (Entry.lacks · id))

def registerAll (t : Tracker) (cs : List Configuration) : Tracker :=
  cs.foldl (fun t c => (t.register c).1) t

def recordAll (t : Tracker) (ids : List UInt64) : Tracker :=
  ids.foldl (fun t id => (t.recordAck id).1) t

def isVotingMember (t : Tracker) (id : UInt64) : Bool := t.active.all (fun e => e.config.isVoter id)

def hasAllQuorums (t : Tracker) : Bool := t.active.all Entry.hasQuorum

/-- Whether one slot has a quorum, which an empty slot never has. -/
def hasQuorum (t : Tracker) (slot : Nat) : Bool :=
  match t.entryAt? slot with
  | some e => e.hasQuorum
  | none => false

def config? (t : Tracker) (slot : Nat) : Option Configuration := (t.entryAt? slot).map Entry.config

def acked? (t : Tracker) (slot : Nat) : Option IdSet := (t.entryAt? slot).map Entry.acks

def ackCount (t : Tracker) (slot : Nat) : Nat :=
  match t.acked? slot with
  | some acks => acks.size
  | none => 0

def activeCount (t : Tracker) : Nat := t.active.length

def phase (t : Tracker) : Phase :=
  match t.activeCount with
  | 0 => .empty
  | 1 => .single
  | 2 => .dual
  | n => .cascading n

def summary (t : Tracker) : String := ",".intercalate (t.active.map fun e => idsText e.acks)

end Tracker

end Electorate
