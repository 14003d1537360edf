import Electorate.Tracker.Call

namespace Electorate

/-- A tracker behind one lock. A holder that fails leaves it poisoned, with what the holder had
done so far. -/
structure SharedTracker where
  tracker : Tracker
  poisoned : Bool
  deriving DecidableEq

namespace SharedTracker

def start (t : Tracker) : SharedTracker := ⟨t, false⟩

/-- What may happen under one holding of the lock: a single call, or several, after which the
holder may fail. -/
inductive Section where
  | call (call : Tracker.Call)
  | within (calls : List Tracker.Call) (fails : Bool)
  deriving DecidableEq

inductive Answer where
  | one (answer : Tracker.Answer)
  | several (answers : List Tracker.Answer)
  | failed
  deriving DecidableEq

/-- Runs one section. Once poisoned, nothing runs and every section is an error. -/
def step (s : SharedTracker) (c : Section) : SharedTracker × Except Error Answer :=
  if s.poisoned then (s, .error (.violated .poisoned))
  else
    match c with
    | .call c =>
      let r := s.tracker.step c
      (⟨r.1, false⟩, .ok (.one r.2))
    | .within calls fails =>
      let r := s.tracker.run calls
      (⟨r.1, fails⟩, .ok (if fails then .failed else .several r.2))

def run (s : SharedTracker) : List Section → SharedTracker × List (Except Error Answer)
  | [] => (s, [])
  | c :: sections =>
    let first := s.step c
    let later := run first.1 sections
    (later.1, first.2 :: later.2)

/-- The state that every holder sees, which a poisoned lock hides. -/
def summary? (s : SharedTracker) : Option String :=
  if s.poisoned then none else some s.tracker.summary

end SharedTracker

end Electorate
