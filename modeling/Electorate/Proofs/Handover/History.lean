import Electorate.Handover.Call
import Electorate.Proofs.Tracker.Answers

/-! What a handover has pending, read off the calls and answers so far. -/
namespace Electorate.Handover

/-- A call with the answer it got. -/
abbrev Event := Call × Answer

/-- The state after the calls, for a handover that starts out with `first` committed. -/
def after (first : Configuration) (enabled : Bool) (calls : List Call) : Handover :=
  ((start first enabled).run calls).1

/-- What a caller has seen of the calls. -/
def events (first : Configuration) (enabled : Bool) (calls : List Call) : List Event :=
  calls.zip ((start first enabled).run calls).2

/-- Answers that take the pending proposal away, by committing or by dropping it. -/
inductive Ends : Answer → Prop where
  | committed (c : Configuration) : Ends (.commit (.ok (some c)))
  | dropped (c : Configuration) : Ends (.dropped (some c))

/-- A proposal stands if it was admitted and nothing has taken it away among the events `since`
its admission. -/
def Standing (past : List Event) (proposed : Configuration) (since : List Event) : Prop :=
  ∃ before base config version,
    past = before ++ (Call.propose base config version, Answer.proposed (.ok proposed)) :: since ∧
      ∀ e ∈ since, ¬ Ends e.2

/-- The ids that acknowledge, in order and with repetitions. -/
def ackIds (past : List Event) : List UInt64 :=
  past.filterMap fun e =>
    match e.1 with
    | .ack id => some id
    | _ => none

def acknowledged (past : List Event) : Finset UInt64 := (ackIds past).toFinset

theorem mem_acknowledged {past : List Event} {id : UInt64} :
    id ∈ acknowledged past ↔ ∃ answer, (Call.ack id, answer) ∈ past := by
  rw [acknowledged, List.mem_toFinset, ackIds, List.mem_filterMap]
  constructor
  · intro h
    obtain ⟨⟨call, answer⟩, he, hid⟩ := h
    cases call with
    | ack j =>
      obtain rfl := Option.some.inj hid
      exact ⟨answer, he⟩
    | _ => exact absurd hid (by simp)
  · intro h
    obtain ⟨answer, he⟩ := h
    exact ⟨_, he, rfl⟩

theorem length_answers (h : Handover) (calls : List Call) :
    (h.run calls).2.length = calls.length := by
  induction calls generalizing h with
  | nil => rfl
  | cons call calls ih => simp [run, ih]

section
variable (first : Configuration) (enabled : Bool)

theorem after_append_singleton (calls : List Call) (call : Call) :
    after first enabled (calls ++ [call]) = ((after first enabled calls).step call).1 := by
  rw [after, after, run_append]
  rfl

theorem events_append_singleton (calls : List Call) (call : Call) :
    events first enabled (calls ++ [call]) =
      events first enabled calls ++ [(call, ((after first enabled calls).step call).2)] := by
  rw [events, events, after, run_append, List.zip_append (length_answers _ calls).symm]
  rfl

/-- The state in which call number `i` is made, counting from zero. -/
def stateAt (calls : List Call) (i : Nat) : Handover := after first enabled (calls.take i)

end

theorem getElem?_answers (h : Handover) (calls : List Call) (i : Nat) :
    (h.run calls).2[i]? =
      calls[i]?.map (fun call => ((h.run (calls.take i)).1.step call).2) := by
  induction calls generalizing h i with
  | nil => rfl
  | cons call calls ih =>
    cases i with
    | zero => rfl
    | succ i => exact ih (h.step call).1 i

section
variable {first : Configuration} {enabled : Bool} {calls : List Call}

theorem stateAt_length : stateAt first enabled calls calls.length = after first enabled calls := by
  rw [stateAt, List.take_length]

theorem stateAt_add_one {i : Nat} {call : Call} (hc : calls[i]? = some call) :
    stateAt first enabled calls (i + 1) = ((stateAt first enabled calls i).step call).1 := by
  rw [stateAt, List.take_add_one, hc]
  exact after_append_singleton first enabled (calls.take i) call

theorem getElem?_events {i : Nat} {call : Call} (hc : calls[i]? = some call) :
    (events first enabled calls)[i]? =
      some (call, ((stateAt first enabled calls i).step call).2) := by
  have hanswer := getElem?_answers (start first enabled) calls i
  rw [hc, Option.map_some] at hanswer
  exact List.getElem?_zip_eq_some.mpr ⟨hc, hanswer⟩

/-- Each event of a run is the step from the state before it to the state after it. -/
theorem step_stateAt {i : Nat} {call : Call} {answer : Answer}
    (he : (events first enabled calls)[i]? = some (call, answer)) :
    (stateAt first enabled calls i).step call = (stateAt first enabled calls (i + 1), answer) := by
  obtain ⟨hc, -⟩ := List.getElem?_zip_eq_some.mp he
  have hanswer := he.symm.trans (getElem?_events hc)
  rw [Option.some.injEq, Prod.mk.injEq] at hanswer
  exact Prod.ext (stateAt_add_one hc).symm hanswer.2.symm

/-- What holds at first and survives every call holds in every state of a run. -/
theorem stateAt_induction {P : Handover → Prop} {i j : Nat} (hij : i ≤ j)
    (hi : P (stateAt first enabled calls i))
    (hstep : ∀ k call, i ≤ k → k < j → calls[k]? = some call → P (stateAt first enabled calls k) →
      P ((stateAt first enabled calls k).step call).1) :
    P (stateAt first enabled calls j) := by
  induction j, hij using Nat.le_induction with
  | base => exact hi
  | succ k hik ih =>
    have hk : P (stateAt first enabled calls k) :=
      ih fun m call him hmk => hstep m call him (Nat.lt_succ_of_lt hmk)
    cases hc : calls[k]? with
    | some call =>
      rw [stateAt_add_one hc]
      exact hstep k call hik (Nat.lt_succ_self k) hc hk
    | none =>
      -- the run is over, and the state stays
      have htake : calls.take (k + 1) = calls.take k := by
        rw [List.take_add_one, hc]
        exact List.append_nil _
      rw [stateAt, htake]
      exact hk

end

/-- After one more event a proposal stands if it stood before and the event does not end it, or if
the event admits it. -/
theorem standing_append_singleton {past since : List Event} {e : Event} {p : Configuration} :
    Standing (past ++ [e]) p since ↔
      (∃ earlier, since = earlier ++ [e] ∧ Standing past p earlier ∧ ¬ Ends e.2) ∨
      (since = [] ∧
        ∃ base config version, e = (Call.propose base config version, .proposed (.ok p))) := by
  constructor
  · intro h
    obtain ⟨before, base, config, version, hsplit, hends⟩ := h
    rcases append_singleton_eq_iff.mp hsplit with ⟨earlier, rfl, hpast⟩ | ⟨rfl, _, he⟩
    · refine Or.inl ⟨earlier, rfl, ⟨before, base, config, version, hpast, ?_⟩, ?_⟩
      · intro x hx
        exact hends x (List.mem_append_left _ hx)
      · exact hends e (List.mem_append_right _ List.mem_cons_self)
    · exact Or.inr ⟨rfl, base, config, version, he⟩
  · intro h
    rcases h with ⟨earlier, rfl, ⟨before, base, config, version, rfl, hends⟩, he⟩ |
      ⟨rfl, base, config, version, rfl⟩
    · refine ⟨before, base, config, version, by simp, ?_⟩
      intro x hx
      rcases List.mem_append.mp hx with hx | hx
      · exact hends x hx
      · exact List.mem_singleton.mp hx ▸ he
    · exact ⟨past, base, config, version, rfl, fun _ hx => absurd hx List.not_mem_nil⟩

theorem not_standing_nil {p : Configuration} {since : List Event} : ¬ Standing [] p since := by
  intro h
  obtain ⟨before, base, config, version, hsplit, _⟩ := h
  simp at hsplit

/-- What waits for `committed` and `proposed` once `ids` have acknowledged. -/
def watched (committed proposed : Configuration) (ids : List UInt64) : Pending where
  proposed := proposed
  tracker := (Tracker.after [.register committed, .register proposed]).recordAll ids
  committedSlot := 0
  proposedSlot := 1

/-- A handover mirrors its past if exactly the standing proposal is pending, in a tracker that has
recorded the acknowledgments since its admission and no others. -/
structure Mirrors (past : List Event) (h : Handover) : Prop where
  pending : ∀ {p since}, Standing past p since →
    h.pending = some (watched h.committed p (ackIds since))
  standing : ∀ {q}, h.pending = some q → ∃ since, Standing past q.proposed since

def Pending.hear (ids : List UInt64) (p : Pending) : Pending :=
  { p with tracker := p.tracker.recordAll ids }

theorem hear_watched (c p : Configuration) (ids more : List UInt64) :
    Pending.hear more (watched c p ids) = watched c p (ids ++ more) := by
  rw [Pending.hear, watched, watched, Tracker.recordAll, Tracker.recordAll, Tracker.recordAll,
    List.foldl_append]

/-- Answers that neither admit a proposal nor take one away. -/
def Keeps (a : Answer) : Prop := ¬ Ends a ∧ ∀ p, a ≠ .proposed (.ok p)

/-- An event that neither admits nor ends a proposal leaves standing what stood, and what it
acknowledges is heard. -/
theorem Mirrors.carry {past : List Event} {h h' : Handover} (hm : Mirrors past h) {e : Event}
    (hkeeps : Keeps e.2) (hcommitted : h'.committed = h.committed)
    (hpending : h'.pending = h.pending.map (Pending.hear (ackIds [e]))) :
    Mirrors (past ++ [e]) h' where
  pending := by
    intro p since hs
    rcases standing_append_singleton.mp hs with ⟨earlier, rfl, hold, _⟩ |
      ⟨_, base, config, version, he⟩
    · have hids : ackIds (earlier ++ [e]) = ackIds earlier ++ ackIds [e] :=
        List.filterMap_append
      rw [hpending, hm.pending hold, Option.map_some, hear_watched, hcommitted, hids]
    · exact absurd (congrArg Prod.snd he) (hkeeps.2 p)
  standing := by
    intro q hq
    rw [hpending] at hq
    obtain ⟨p, hp, rfl⟩ := Option.map_eq_some_iff.mp hq
    obtain ⟨since, hs⟩ := hm.standing hp
    exact ⟨since ++ [e], standing_append_singleton.mpr (Or.inl ⟨since, rfl, hs, hkeeps.1⟩)⟩

/-- A proposal that has just been admitted has heard from nobody. -/
theorem Mirrors.admit {past : List Event} {h h' : Handover} (hm : Mirrors past h)
    {base : Option UInt64} {config p : Configuration} {version : UInt64}
    (hnone : h.pending = none) (hpending : h'.pending = some (watched h'.committed p [])) :
    Mirrors (past ++ [(Call.propose base config version, Answer.proposed (.ok p))]) h' where
  pending := by
    intro p' since hs
    rcases standing_append_singleton.mp hs with ⟨earlier, _, hold, _⟩ | ⟨rfl, _, _, _, he⟩
    · -- nothing stood before, or the proposal would have been refused
      have hsome := hm.pending hold
      rw [hnone] at hsome
      exact absurd hsome (by simp)
    · obtain ⟨_, hp⟩ := Prod.mk.inj he
      obtain rfl := Except.ok.inj (Answer.proposed.inj hp)
      exact hpending
  standing := by
    intro q hq
    obtain rfl := Option.some.inj (hpending.symm.trans hq)
    exact ⟨[], standing_append_singleton.mpr (Or.inr ⟨rfl, base, config, version, rfl⟩)⟩

theorem Mirrors.close {past : List Event} {h' : Handover} {e : Event} (hends : Ends e.2)
    (hpending : h'.pending = none) : Mirrors (past ++ [e]) h' where
  pending := by
    intro p since hs
    rcases standing_append_singleton.mp hs with ⟨_, _, _, hnot⟩ | ⟨_, _, _, _, rfl⟩
    · exact absurd hends hnot
    · cases hends
  standing := by
    intro q hq
    exact absurd (hpending.symm.trans hq) (by simp)

theorem pending_of_refusal?_eq_none {h : Handover} {base : Option UInt64} {c : Configuration}
    {version : UInt64} (hr : h.refusal? base c version = none) : h.pending = none := by
  cases hp : h.pending with
  | none => rfl
  | some p =>
    unfold refusal? at hr
    rw [hp] at hr
    split_ifs at hr

theorem map_hear_nil (x : Option Pending) : x.map (Pending.hear []) = x := by
  cases x <;> rfl

/-- Acknowledgments reach what is pending and nothing else. -/
theorem recordAll_eq (h : Handover) (ids : List UInt64) :
    h.recordAll ids = { h with pending := h.pending.map (Pending.hear ids) } := by
  induction ids generalizing h with
  | nil =>
    rw [map_hear_nil]
    rfl
  | cons id ids ih =>
    have hrest : h.recordAll (id :: ids) = (h.recordAck id).1.recordAll ids := rfl
    rw [hrest, ih]
    obtain ⟨committed, enabled, pending⟩ := h
    cases pending <;> rfl

end Electorate.Handover
