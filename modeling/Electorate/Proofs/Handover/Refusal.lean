import Electorate.Handover.Call
import Electorate.Proofs.Tracker.Acks

/-! Refused calls leave no trace, in the state and in the answers to other calls. -/
namespace Electorate.Handover

/-- A call that turned out to do nothing, as its answer tells. -/
inductive Refused : Call → Answer → Prop where
  | proposal (base : Option UInt64) (c : Configuration) (version : UInt64) (e : Error) :
      Refused (.propose base c version) (.proposed (.error e))
  | ack (id : UInt64) : Refused (.ack id) (.flag false)
  | commit (e : Error) : Refused .tryCommit (.commit (.error e))
  | waiting : Refused .tryCommit (.commit (.ok none))
  | nothingToDrop : Refused .abandon (.dropped none)

theorem step_propose_of_refused {h : Handover} {base : Option UInt64} {c : Configuration}
    {version : UInt64} (hr : Refused (.propose base c version)
      (h.step (.propose base c version)).2) : (h.step (.propose base c version)).1 = h := by
  rw [step, propose] at hr ⊢
  cases hf : h.refusal? base c version with
  | some r => rfl
  | none =>
    rw [hf] at hr
    cases hr

theorem step_ack_of_refused {h : Handover} {id : UInt64}
    (hr : Refused (.ack id) (h.step (.ack id)).2) : (h.step (.ack id)).1 = h := by
  have hfalse : (h.recordAck id).2 = false := by
    rw [step] at hr
    cases hb : (h.recordAck id).2 with
    | false => rfl
    | true =>
      rw [hb] at hr
      cases hr
  rw [step]
  unfold recordAck at hfalse ⊢
  cases hp : h.pending with
  | none => rfl
  | some p =>
    rw [hp] at hfalse
    have hsame := Tracker.recordAck_eq_self hfalse
    simp only [hsame]
    rw [← hp]

theorem step_tryCommit_of_refused {h : Handover} (hr : Refused .tryCommit (h.step .tryCommit).2) :
    (h.step .tryCommit).1 = h := by
  rw [step] at hr ⊢
  unfold tryCommit at hr ⊢
  cases hp : h.pending with
  | none => rfl
  | some p =>
    rw [hp] at hr
    simp only at hr ⊢
    split_ifs at hr ⊢
    · rfl
    · rfl
    · cases hr

theorem step_abandon_of_refused {h : Handover} (hr : Refused .abandon (h.step .abandon).2) :
    (h.step .abandon).1 = h := by
  rw [step, abandon, proposed?] at hr ⊢
  cases hp : h.pending with
  | none => rw [← hp]
  | some p =>
    rw [hp] at hr
    cases hr

/-- Whatever call is refused, the handover stays as it was. -/
theorem step_of_refused {h : Handover} {call : Call} (hr : Refused call (h.step call).2) :
    (h.step call).1 = h := by
  cases call with
  | propose base c version => exact step_propose_of_refused hr
  | ack id => exact step_ack_of_refused hr
  | tryCommit => exact step_tryCommit_of_refused hr
  | abandon => exact step_abandon_of_refused hr
  | _ => cases hr

/-- A call with the state it is made in and the answer it gets. -/
structure Moment where
  state : Handover
  call : Call
  answer : Answer

def moments (h : Handover) : List Call → List Moment
  | [] => []
  | call :: calls => ⟨h, call, (h.step call).2⟩ :: (h.step call).1.moments calls

theorem answer_moments (h : Handover) (calls : List Call) :
    (h.moments calls).map Moment.answer = (h.run calls).2 := by
  induction calls generalizing h with
  | nil => rfl
  | cons call calls ih => exact congrArg (_ :: ·) (ih (h.step call).1)

/-- What is kept when any of the refused calls are left out. -/
inductive Thinned : List Moment → List Moment → Prop where
  | nil : Thinned [] []
  | keep (m : Moment) {whole kept : List Moment} (ht : Thinned whole kept) :
      Thinned (m :: whole) (m :: kept)
  | leaveOut (m : Moment) {whole kept : List Moment} (hr : Refused m.call m.answer)
      (ht : Thinned whole kept) : Thinned (m :: whole) kept

/-- A run without some of its refused calls passes through the other moments and ends the same. -/
theorem run_of_thinned {whole kept : List Moment} (ht : Thinned whole kept) {h : Handover}
    {calls : List Call} (hw : h.moments calls = whole) :
    h.moments (kept.map Moment.call) = kept ∧
      (h.run (kept.map Moment.call)).1 = (h.run calls).1 := by
  induction ht generalizing h calls with
  | nil =>
    cases calls with
    | nil => exact ⟨rfl, rfl⟩
    | cons call calls => cases hw
  | keep m ht ih =>
    cases calls with
    | nil => cases hw
    | cons call calls =>
      obtain ⟨rfl, hrest⟩ := List.cons.inj hw
      obtain ⟨hmoments, hstate⟩ := ih hrest
      exact ⟨congrArg (_ :: ·) hmoments, hstate⟩
  | leaveOut m hr ht ih =>
    cases calls with
    | nil => cases hw
    | cons call calls =>
      obtain ⟨rfl, hrest⟩ := List.cons.inj hw
      -- the rest of the run starts where the refused call was made
      have hsame : (h.step call).1 = h := step_of_refused hr
      rw [hsame] at hrest
      obtain ⟨hmoments, hstate⟩ := ih hrest
      refine ⟨hmoments, ?_⟩
      rw [hstate, run, hsame]

/-- A refused call leaves the whole state as it was. So when any refused calls of a run are left
out, every other call is still made in the same state and gets the same answer, and the run ends
in the same state. -/
theorem refused_calls_leave_no_trace (h : Handover) :
    (∀ call, Refused call (h.step call).2 → (h.step call).1 = h) ∧
    ∀ calls kept, Thinned (h.moments calls) kept →
      let remaining := kept.map Moment.call
      h.moments remaining = kept ∧ (h.run remaining).2 = kept.map Moment.answer ∧
        (h.run remaining).1 = (h.run calls).1 := by
  refine ⟨fun call hr => step_of_refused hr, ?_⟩
  intro calls kept ht remaining
  obtain ⟨hmoments, hstate⟩ := run_of_thinned ht rfl
  refine ⟨hmoments, ?_, hstate⟩
  rw [← answer_moments, hmoments]

/-- A proposal beside the pending one and a second acknowledgment of one id are left out. -/
theorem refused_calls_left_out_of_handover_of_trio :
    let h := start (Configuration.mk 1 .majority .trio) true
    let next := Configuration.mk 0 .majority .quartet
    let calls := [.propose none next 2, .ack 9, .ack 1, .propose none next 3, .tryCommit, .ack 2,
      .ack 3, .ack 1, .tryCommit, .abandon]
    let kept := ((h.moments calls).eraseIdx 7).eraseIdx 3
    (Refused (.ack 9) (h.step (.ack 9)).2 ∧ (h.step (.ack 9)).1 = h) ∧
      Thinned (h.moments calls) kept ∧
      (h.run [.propose none next 2, .ack 9, .ack 1, .tryCommit, .ack 2, .ack 3, .tryCommit,
        .abandon]).1 = (h.run calls).1 := by
  intro h next calls kept
  have hr : Refused (.ack 9) (h.step (.ack 9)).2 := Refused.ack 9
  have hagain : Refused (.ack 1) (.flag ((h.run (calls.take 7)).1.recordAck 1).2) := by
    have hfalse : ((h.run (calls.take 7)).1.recordAck 1).2 = false := by decide +kernel
    rw [hfalse]
    exact Refused.ack 1
  have ht : Thinned (h.moments calls) kept :=
    .keep _ (.keep _ (.keep _ (.leaveOut _ (.proposal ..) (.keep _ (.keep _ (.keep _
      (.leaveOut _ hagain (.keep _ (.keep _ .nil)))))))))
  exact ⟨⟨hr, (refused_calls_leave_no_trace h).1 _ hr⟩, ht,
    ((refused_calls_leave_no_trace h).2 calls kept ht).2.2⟩

end Electorate.Handover
