import Electorate.Proofs.Quorum
import Electorate.Tracker.Shared

/-! A shared tracker behaves as a plain one under the calls in the order of the lock, up to the
first holder that fails. What that holder has done stays, and nothing happens after it. -/
namespace Electorate

theorem Tracker.length_answers (t : Tracker) (calls : List Tracker.Call) :
    (t.run calls).2.length = calls.length := by
  induction calls generalizing t with
  | nil => rfl
  | cons call calls ih =>
    have hrest := ih (t.step call).1
    rw [Tracker.run, List.length_cons, List.length_cons, hrest]

namespace SharedTracker

/-- The calls that a holder makes, until it fails if it does. -/
def Section.calls : Section → List Tracker.Call
  | .call c => [c]
  | .within calls _ => calls

def Section.fails : Section → Bool
  | .call _ => false
  | .within _ fails => fails

/-- The sections in the order in which they get the lock, each with the number of the clone that
it came through. -/
abbrev Order := List (Nat × Section)

/-- What a plain tracker would be asked to do in the same order. -/
def plainCalls (order : Order) : List Tracker.Call := order.flatMap fun x => x.2.calls

/-- The clones are handles on one state, so that only the order counts. -/
def runOrder (t : Tracker) (order : Order) : SharedTracker × List (Except Error Answer) :=
  (start t).run (order.map Prod.snd)

/-- The answers of the tracker that a caller is given. -/
def told : Except Error Answer → List Tracker.Answer
  | .ok (.one answer) => [answer]
  | .ok (.several answers) => answers
  | .ok .failed | .error _ => []

/-- A call is answered by itself, and several under one lock are answered together. -/
inductive Answers : Section → Except Error Answer → Prop where
  | one (call : Tracker.Call) (answer : Tracker.Answer) : Answers (.call call) (.ok (.one answer))
  | several (calls : List Tracker.Call) (answers : List Tracker.Answer)
      (h : answers.length = calls.length) :
      Answers (.within calls false) (.ok (.several answers))

/-- The results of a run are those of a plain tracker, given out section by section. -/
structure Passes (t : Tracker) (order : Order) (results : List (Except Error Answer)) : Prop where
  plain : results.flatMap told = (t.run (plainCalls order)).2
  each : List.Forall₂ (fun x result => Answers x.2 result) order results

theorem plainCalls_cons (x : Nat × Section) (order : Order) :
    plainCalls (x :: order) = x.2.calls ++ plainCalls order := List.flatMap_cons

theorem run_append (s : SharedTracker) (a b : List Section) :
    s.run (a ++ b) = (((s.run a).1.run b).1, (s.run a).2 ++ ((s.run a).1.run b).2) := by
  induction a generalizing s with
  | nil => rfl
  | cons c a ih => simp [run, ih]

/-- A holder that does not fail does to the tracker what its calls do. -/
theorem step_of_not_fails (t : Tracker) {c : Section} (hc : c.fails = false) :
    ∃ result, (start t).step c = (start (t.run c.calls).1, result) ∧
      told result = (t.run c.calls).2 ∧ Answers c result := by
  cases c with
  | call call => exact ⟨_, rfl, rfl, Answers.one call _⟩
  | within calls fails =>
    obtain rfl : fails = false := hc
    exact ⟨_, rfl, rfl, Answers.several calls _ (t.length_answers calls)⟩

theorem run_of_not_fails (t : Tracker) {order : Order} (h : ∀ x ∈ order, x.2.fails = false) :
    (runOrder t order).1 = start (t.run (plainCalls order)).1 ∧
      Passes t order (runOrder t order).2 := by
  induction order generalizing t with
  | nil => exact ⟨rfl, rfl, List.Forall₂.nil⟩
  | cons x order ih =>
    obtain ⟨result, hstep, htold, hanswers⟩ := step_of_not_fails t (h x List.mem_cons_self)
    obtain ⟨hstate, hplain, heach⟩ :=
      ih (t.run x.2.calls).1 fun y hy => h y (List.mem_cons_of_mem x hy)
    have hrun : runOrder t (x :: order) =
        ((runOrder (t.run x.2.calls).1 order).1,
          result :: (runOrder (t.run x.2.calls).1 order).2) := by
      rw [runOrder, List.map_cons, run, hstep]
      rfl
    -- the plain tracker makes the calls of the first section before all others
    rw [hrun, plainCalls_cons]
    refine ⟨?_, ?_, List.Forall₂.cons hanswers heach⟩
    · rw [hstate, Tracker.run_append]
    · rw [plainCalls_cons, List.flatMap_cons, htold, hplain, Tracker.run_append]

/-- Every later section is an error, also one that would only read or do nothing at all. -/
theorem run_of_poisoned {s : SharedTracker} (hs : s.poisoned = true) (sections : List Section) :
    s.run sections = (s, List.replicate sections.length (.error (.violated .poisoned))) := by
  have hstep (c : Section) : s.step c = (s, .error (.violated .poisoned)) := by
    unfold step
    rw [if_pos hs]
  induction sections with
  | nil => rfl
  | cons c sections ih => simp only [run, hstep, ih, List.length_cons, List.replicate_succ]

/-- A holder that fails leaves its calls done and the lock poisoned for all that follows. -/
theorem run_of_fails (t : Tracker) {before : Order} (h : ∀ x ∈ before, x.2.fails = false)
    (clone : Nat) (calls : List Tracker.Call) (later : Order) :
    runOrder t (before ++ (clone, .within calls true) :: later) =
      (⟨(t.run (plainCalls before ++ calls)).1, true⟩,
        (runOrder t before).2 ++
          .ok .failed :: List.replicate later.length (.error (.violated .poisoned))) := by
  obtain ⟨hstate, -⟩ := run_of_not_fails t h
  have hfailed (s : Tracker) : (start s).step (.within calls true) =
      (⟨(s.run calls).1, true⟩, .ok .failed) := rfl
  have hsections : (before ++ (clone, Section.within calls true) :: later).map Prod.snd =
      before.map Prod.snd ++ .within calls true :: later.map Prod.snd := by simp
  rw [runOrder] at hstate
  calc runOrder t (before ++ (clone, .within calls true) :: later)
    _ = (start t).run (before.map Prod.snd ++ .within calls true :: later.map Prod.snd) := by
      rw [runOrder, hsections]
    _ = let rest := (start (t.run (plainCalls before)).1).run
          (.within calls true :: later.map Prod.snd)
        (rest.1, (runOrder t before).2 ++ rest.2) := by
      rw [run_append, hstate, runOrder]
    _ = _ := by
      rw [run, hfailed, run_of_poisoned rfl, List.length_map, Tracker.run_append]

theorem all_or_first_failing (order : Order) : (∀ x ∈ order, x.2.fails = false) ∨
    ∃ before clone calls later, order = before ++ (clone, .within calls true) :: later ∧
      ∀ x ∈ before, x.2.fails = false := by
  induction order with
  | nil => exact Or.inl nofun
  | cons x order ih =>
    -- a first section that fails is the one looked for, whatever comes after it
    obtain ⟨clone, c⟩ := x
    cases hc : c.fails with
    | true =>
      cases c with
      | call call => cases hc
      | within calls fails =>
        obtain rfl : fails = true := hc
        exact Or.inr ⟨[], clone, calls, order, rfl, nofun⟩
    | false =>
      rcases ih with hall | ⟨before, clone', calls, later, rfl, hbefore⟩
      · exact Or.inl (List.forall_mem_cons.mpr ⟨hc, hall⟩)
      · exact Or.inr ⟨(clone, c) :: before, clone', calls, later, rfl,
          List.forall_mem_cons.mpr ⟨hc, hbefore⟩⟩

/-- Whatever comes through whichever clone, a shared tracker that no holder has failed with is the
plain tracker after the same calls, and has given out its answers. The first holder to fail leaves
what it has done so far; every section after it, of whatever clone, is an error and leaves the state
as it is. How calls are put together under one lock shows neither in the state nor in the
answers. -/
theorem shared_tracker_is_plain_until_poisoned (t : Tracker) (order : Order) :
    (((∀ x ∈ order, x.2.fails = false) ∧
        (runOrder t order).1 = start (t.run (plainCalls order)).1 ∧
        Passes t order (runOrder t order).2) ∨
      ∃ before clone calls later results,
        order = before ++ (clone, .within calls true) :: later ∧
        (∀ x ∈ before, x.2.fails = false) ∧
        (runOrder t order).1 = ⟨(t.run (plainCalls before ++ calls)).1, true⟩ ∧
        (runOrder t order).2 = results ++
          .ok .failed :: List.replicate later.length (.error (.violated .poisoned)) ∧
        Passes t before results) ∧
    ∀ order', (∀ x ∈ order, x.2.fails = false) → (∀ x ∈ order', x.2.fails = false) →
      plainCalls order = plainCalls order' →
      (runOrder t order).1 = (runOrder t order').1 ∧
        (runOrder t order).2.flatMap told = (runOrder t order').2.flatMap told := by
  constructor
  · rcases all_or_first_failing order with hall | ⟨before, clone, calls, later, rfl, hbefore⟩
    · exact Or.inl ⟨hall, run_of_not_fails t hall⟩
    · have hrun := run_of_fails t hbefore clone calls later
      exact Or.inr ⟨before, clone, calls, later, _, rfl, hbefore, congrArg Prod.fst hrun,
        congrArg Prod.snd hrun, (run_of_not_fails t hbefore).2⟩
  · intro order' hall hall' hcalls
    obtain ⟨hstate, hpasses⟩ := run_of_not_fails t hall
    obtain ⟨hstate', hpasses'⟩ := run_of_not_fails t hall'
    constructor
    · rw [hstate, hstate', hcalls]
    · rw [hpasses.plain, hpasses'.plain, hcalls]

/-- Two clones bring the calls in other groups and through other hands, to the same end. Then one
of them fails in the middle of its work, which the other cannot undo or read. -/
theorem two_clones_of_trio_until_one_fails :
    let C := Configuration.mk 1 .majority .trio
    let order : Order := [(0, .call (.register C)), (1, .within [.ack 1, .ack 1] false),
      (0, .call (.ack 2)), (1, .call .hasAllQuorums)]
    let grouped : Order := [(1, .within [.register C, .ack 1] false), (0, .within [] false),
      (0, .within [.ack 1, .ack 2, .hasAllQuorums] false)]
    let broken : Order := order ++ (1, .within [.ack 3, .ack 9] true) ::
      [(0, .call .summary), (1, .within [] false), (0, .within [.retire 0] true)]
    ((∀ x ∈ order, x.2.fails = false) ∧ (∀ x ∈ grouped, x.2.fails = false) ∧
      plainCalls order = plainCalls grouped) ∧
    ((runOrder .empty order).1 = (runOrder .empty grouped).1 ∧
      (runOrder .empty order).2.flatMap told = (runOrder .empty grouped).2.flatMap told) ∧
    (runOrder .empty broken).1.poisoned = true ∧
    (runOrder .empty broken).1.tracker.acked? 0 = some (IdMap.ofIds [1, 2, 3]) ∧
    (runOrder .empty broken).2.drop 4 = [.ok .failed, .error (.violated .poisoned),
      .error (.violated .poisoned), .error (.violated .poisoned)] := by
  intro C order grouped broken
  have horder : ∀ x ∈ order, x.2.fails = false := by simp [order, Section.fails]
  have hgrouped : ∀ x ∈ grouped, x.2.fails = false := by simp [grouped, Section.fails]
  have hsame := (shared_tracker_is_plain_until_poisoned .empty order).2 grouped horder hgrouped rfl
  exact ⟨⟨horder, hgrouped, rfl⟩, hsame, by decide +kernel, by decide +kernel, by decide +kernel⟩

end SharedTracker

end Electorate
