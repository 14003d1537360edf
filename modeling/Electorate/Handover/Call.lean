import Electorate.Handover

namespace Electorate.Handover

inductive Call where
  | propose (base : Option UInt64) (config : Configuration) (version : UInt64)
  | ack (id : UInt64)
  | isVotingMember (id : UInt64)
  | tryCommit
  | abandon
  | setEnabled (on : Bool)
  | committed
  | pending
  deriving DecidableEq

inductive Answer where
  | proposed (result : Except Error Configuration)
  | flag (b : Bool)
  | commit (result : Except Error (Option Configuration))
  | dropped (config : Option Configuration)
  | done
  | committed (config : Configuration)
  | pending (config : Option Configuration)

def step (h : Handover) : Call → Handover × Answer
  | .propose base c v => ((h.propose base c v).1, .proposed (h.propose base c v).2)
  | .ack id => ((h.recordAck id).1, .flag (h.recordAck id).2)
  | .isVotingMember id => (h, .flag (h.isVotingMember id))
  | .tryCommit => (h.tryCommit.1, .commit h.tryCommit.2)
  | .abandon => (h.abandon.1, .dropped h.abandon.2)
  | .setEnabled on => (h.setEnabled on, .done)
  | .committed => (h, .committed h.committed)
  | .pending => (h, .pending h.proposed?)

def run (h : Handover) : List Call → Handover × List Answer
  | [] => (h, [])
  | c :: calls =>
    let first := h.step c
    let later := run first.1 calls
    (later.1, first.2 :: later.2)

@[simp] theorem run_nil (h : Handover) : h.run [] = (h, []) := rfl

theorem run_append (h : Handover) (a b : List Call) :
    h.run (a ++ b) = (((h.run a).1.run b).1, (h.run a).2 ++ ((h.run a).1.run b).2) := by
  induction a generalizing h with
  | nil => rfl
  | cons c a ih => simp [run, ih]

end Electorate.Handover
