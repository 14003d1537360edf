import Electorate.Tracker

namespace Electorate.Tracker

inductive Call where
  | register (config : Configuration)
  | retire (slot : Nat)
  | ack (id : UInt64)
  | isVotingMember (id : UInt64)
  | hasAllQuorums
  | hasQuorum (slot : Nat)
  | config (slot : Nat)
  | acked (slot : Nat)
  | ackCount (slot : Nat)
  | phase
  | activeCount
  | summary
  deriving DecidableEq

inductive Answer where
  | slot (slot : Nat)
  | retired (config : Option Configuration)
  | flag (b : Bool)
  | config (config : Option Configuration)
  | acked (acks : Option IdSet)
  | count (n : Nat)
  | phase (phase : Phase)
  | summary (text : String)
  deriving DecidableEq

def step (t : Tracker) : Call → Tracker × Answer
  | .register c => ((t.register c).1, .slot (t.register c).2)
  | .retire s => ((t.retire s).1, .retired (t.retire s).2)
  | .ack id => ((t.recordAck id).1, .flag (t.recordAck id).2)
  | .isVotingMember id => (t, .flag (t.isVotingMember id))
  | .hasAllQuorums => (t, .flag t.hasAllQuorums)
  | .hasQuorum s => (t, .flag (t.hasQuorum s))
  | .config s => (t, .config (t.config? s))
  | .acked s => (t, .acked (t.acked? s))
  | .ackCount s => (t, .count (t.ackCount s))
  | .phase => (t, .phase t.phase)
  | .activeCount => (t, .count t.activeCount)
  | .summary => (t, .summary t.summary)

def run (t : Tracker) : List Call → Tracker × List Answer
  | [] => (t, [])
  | c :: calls =>
    let first := t.step c
    let later := run first.1 calls
    (later.1, first.2 :: later.2)

/-- The tracker that a history of calls leaves behind. -/
def after (calls : List Call) : Tracker := (run empty calls).1

@[simp] theorem run_nil (t : Tracker) : t.run [] = (t, []) := rfl

theorem run_append (t : Tracker) (a b : List Call) :
    t.run (a ++ b) = (((t.run a).1.run b).1, (t.run a).2 ++ ((t.run a).1.run b).2) := by
  induction a generalizing t with
  | nil => rfl
  | cons c a ih => simp [run, ih]

end Electorate.Tracker
