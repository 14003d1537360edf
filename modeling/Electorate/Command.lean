import Electorate.Command.Load
import Electorate.Json.Printer
import Electorate.Json.Record

namespace Electorate

inductive Command where
  | validate (file : Option String)
  | display (file : Option String) (json : Bool)
  | check (file : Option String) (next : List String) (acks : List UInt64)
  | reconfig (proposed : String) (committed : Option String) (base : Option UInt64)
      (version : UInt64) (acks : List UInt64)
  | init (output : String) (servers observers : UInt64)
  | info
  deriving DecidableEq, Repr

namespace Command

def hexText (n : UInt64) : String := String.ofList (hexadecimal n.toNat)

def idList (ids : List UInt64) : String := "[" ++ ", ".intercalate (ids.map toString) ++ "]"

def printLines (lines : List String) : Action Unit := lines.forM Action.printLine

def validateLines (c : Configuration) : List String :=
  ["✓ Membership is valid",
   "  Version:    " ++ hexText c.version,
   "  Policy:     " ++ c.policy.name,
   "  Voters:     " ++ idList c.voting.ids,
   "  Observers:  " ++ idList c.observing.ids,
   s!"  Quorum:     weight > {c.threshold}"]

def slotLine (t : Tracker) (slot : Nat) : Option String :=
  (t.config? slot).map fun c =>
    let reached := if t.hasQuorum slot then "reached" else "not reached"
    versionTag c.version ++ " (" ++ c.policy.name ++ "): " ++ toString (t.ackCount slot) ++ " of "
      ++ toString c.voting.size ++ " voters acked, quorum " ++ reached

def replay (cs : List Configuration) (acks : List UInt64) : Tracker :=
  (Tracker.empty.registerAll cs).recordAll acks

def checkLines (t : Tracker) : List String :=
  (List.range t.slots.length).filterMap (slotLine t) ++
    ["Phase:       " ++ t.phase.text,
     "Ack sets:    " ++ t.summary,
     "All quorums: " ++ if t.hasAllQuorums then "yes" else "no"]

/-- Plays a change from the committed configuration to the proposed one: what is shown where both
agree, and where the committed one has to agree still. -/
def reconfigLines (committed proposed : Configuration) (enabled : Bool) (base : Option UInt64)
    (version : UInt64) (acks : List UInt64) : Except Error (List String) := do
  let (h, admitted) := (Handover.start committed enabled).propose base proposed version
  let _ ← admitted
  let h := h.recordAll acks
  match ← h.tryCommit.2 with
  | some c => .ok ["✓ Committed " ++ versionTag c.version, c.text]
  | none =>
    .ok ["… Proposal has quorum, committed config does not yet (" ++ h.ackSummary?.getD "" ++ ")"]

/-- The line of the `i`th server of a starter file. -/
def starterLine (servers : UInt64) (i : Nat) : List Char :=
  -- voters come first
  let role := if i ≤ servers.toNat then Role.participant else .observer
  "server.".toList ++ (decimal i ++ ("=127.0.0.1:".toList ++ (decimal (7700 + i) ++ ':' ::
    (decimal (7800 + i) ++ ':' :: (role.name.toList ++ ';' :: decimal (7600 + i))))))

/-- A membership of servers on one machine, voters first, under version one. -/
def starterText (servers observers : UInt64) : String :=
  let lines := "# WolfQuorum dynamic membership".toList ::
    "# server.<id>=<host>:<peerPort>:<electionPort>[:role][;clientPort]".toList ::
    ((List.range' 1 (servers + observers).toNat).map (starterLine servers) ++
      ["version=1".toList])
  String.ofList (lines.flatMap (· ++ ['\n']))

def runInit (output : String) (servers observers : UInt64) : Action Unit :=
  if servers = 0 then Action.ofExcept (.error (.config .noServersAsked))
  else do
    let text := starterText servers observers
    -- nothing is written that cannot be read back
    let _ ← Action.ofExcept (Configuration.parse text)
    Action.writeFile output text
    printLines
      ["Membership file created: " ++ output,
       "Check it with: wolfquorum validate " ++ output]

def infoLines (n : Node) : List String :=
  ["WolfQuorum Node Information",
   "===========================",
   "",
   s!"Node ID:          {n.id}",
   "Policy:           " ++ (match n.policy with
      | some p => p.name
      | none => "(from membership file)"),
   "Reconfig:         " ++ (if n.reconfigEnabled then "enabled" else "disabled"),
   "Membership File:  " ++ n.dynamicConfig.getD "(none)",
   "Log Level:        " ++ n.logLevel,
   "Log Format:       " ++ n.logFormat]

def memberLine (m : Member) : String :=
  s!"  server.{m.id} = " ++ m.text ++ s!" (weight {m.weight})"

def membershipLines (c : Configuration) : List String :=
  "" :: ("Membership " ++ versionTag c.version ++ ":") :: c.members.values.map memberLine

def runInfo (node : Option Node) : Action Unit :=
  match node with
  | none => Action.ofExcept (.error (.config .noNodeGiven))
  | some n => do
    -- the settings are seen even where the membership cannot be loaded
    printLines (infoLines n)
    match ← n.loadMembership? with
    | some c => printLines (membershipLines c)
    | none => pure ()

def run (node : Option Node) : Command → Action Unit
  | .validate file => do
    let c ← loadMembership file node
    printLines (validateLines c)
  | .display file json => do
    let c ← loadMembership file node
    Action.printLine (if json then c.summary.toJson.pretty else c.text)
  | .check file next acks => do
    let c ← loadMembership file node
    let cs ← next.mapM fun path => loadMembership (some path) node
    printLines (checkLines (replay (c :: cs) acks))
  | .reconfig proposed committed base version acks => do
    let committed ← loadMembership committed node
    let proposed ← loadMembership (some proposed) node
    let enabled := match node with
      | some n => n.reconfigEnabled
      | none => true
    let lines ← Action.ofExcept (reconfigLines committed proposed enabled base version acks)
    printLines lines
  | .init output servers observers => runInit output servers observers
  | .info => runInfo node

end Command

end Electorate
