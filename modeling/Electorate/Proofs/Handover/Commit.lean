import Electorate.Proofs.Handover.Step

/-! The outcome of a commit, read off the calls and answers so far. -/
namespace Electorate.Handover

theorem heard_append_map_ack (x : Configuration) (ids : List UInt64)
    {front : List Tracker.Call} (hfront : ∀ id, Tracker.Call.ack id ∉ front) :
    Tracker.heard x (front ++ ids.map Tracker.Call.ack) = ids.toFinset ∩ x.voters := by
  ext id
  simp [Tracker.mem_heard, x.mem_voters, hfront, and_comm]

/-- A slot of the pending tracker decides by the acknowledgments since the admission, whichever of
the two configurations it was opened for. -/
theorem hasQuorum_watched {c p x : Configuration} {ids : List UInt64} {s : Nat}
    {front : List Tracker.Call}
    (hopened : Tracker.Opened [.register c, .register p] s x front)
    (hretire : Tracker.Call.retire s ∉ front) (hack : ∀ id, Tracker.Call.ack id ∉ front) :
    (watched c p ids).tracker.hasQuorum s = true ↔ x.IsQuorum (ids.toFinset ∩ x.voters) := by
  obtain ⟨before, hsplit, hs⟩ := hopened
  have hin : Tracker.InForce
      ([.register c, .register p] ++ ids.map Tracker.Call.ack) s x
      (front ++ ids.map Tracker.Call.ack) := by
    refine ⟨⟨before, ?_, hs⟩, ?_⟩
    · rw [hsplit, List.append_assoc, List.cons_append]
    · simp [hretire]
  rw [← heard_append_map_ack x ids hack, ← Tracker.hasQuorum_iff_of_inForce hin,
    ← Tracker.recordAll_after]
  rfl

/-- The first slot decides for the committed configuration. -/
theorem hasQuorum_committed (c p : Configuration) (ids : List UInt64) :
    (watched c p ids).tracker.hasQuorum 0 = true ↔ c.IsQuorum (ids.toFinset ∩ c.voters) :=
  hasQuorum_watched ⟨[], rfl, rfl⟩ (by simp) (by simp)

/-- The second slot decides for the proposed one. -/
theorem hasQuorum_proposed (c p : Configuration) (ids : List UInt64) :
    (watched c p ids).tracker.hasQuorum 1 = true ↔ p.IsQuorum (ids.toFinset ∩ p.voters) :=
  hasQuorum_watched ⟨[.register c], rfl, rfl⟩ (by simp) (by simp)

/-- What an attempt to commit comes to while a proposal is pending. The quorum of the proposal is
asked for first. -/
theorem tryCommit_cases {h : Handover} {p : Configuration} {ids : List UInt64}
    (hp : h.pending = some (watched h.committed p ids)) :
    (¬ p.IsQuorum (ids.toFinset ∩ p.voters) ∧
      h.tryCommit = (h, .error (.refused
        (Refusal.mk .newConfigNoQuorum (some (versionTag p.version)) none)))) ∨
    (p.IsQuorum (ids.toFinset ∩ p.voters) ∧
      ¬ h.committed.IsQuorum (ids.toFinset ∩ h.committed.voters) ∧ h.tryCommit = (h, .ok none)) ∨
    (p.IsQuorum (ids.toFinset ∩ p.voters) ∧
      h.committed.IsQuorum (ids.toFinset ∩ h.committed.voters) ∧
      h.tryCommit = ({ h with committed := p, pending := none }, .ok (some p))) := by
  have hslots : h.tryCommit =
      if !(watched h.committed p ids).tracker.hasQuorum 1 then
        (h, .error (.refused (Refusal.mk .newConfigNoQuorum (some (versionTag p.version)) none)))
      else if !(watched h.committed p ids).tracker.hasQuorum 0 then (h, .ok none)
      else ({ h with committed := p, pending := none }, .ok (some p)) := by
    rw [tryCommit, hp]
    rfl
  -- the two slots decide alone which of the three outcomes it is
  rw [← hasQuorum_proposed h.committed p ids, ← hasQuorum_committed h.committed p ids, hslots]
  cases (watched h.committed p ids).tracker.hasQuorum 1 <;>
    cases (watched h.committed p ids).tracker.hasQuorum 0 <;> simp

/-- What is pending is what the history leaves standing. -/
theorem proposed?_eq_some_iff {past : List Event} {h : Handover} (hm : Mirrors past h)
    {p : Configuration} : h.proposed? = some p ↔ ∃ since, Standing past p since := by
  rw [proposed?, Option.map_eq_some_iff]
  constructor
  · intro hq
    obtain ⟨q, hq, rfl⟩ := hq
    exact hm.standing hq
  · intro hs
    obtain ⟨since, hs⟩ := hs
    exact ⟨_, hm.pending hs, rfl⟩

/-- At every point of every run, a commit is decided by the acknowledgments since the admission of
the standing proposal, counted among the voters of the proposal first and then among those of the
committed configuration. -/
theorem tryCommit_decided_by_acks_since_admission (first : Configuration) (enabled : Bool)
    (calls : List Call) :
    let h := after first enabled calls
    let past := events first enabled calls
    (h.tryCommit.2 = .error (.violated .nothingPending) ↔ h.proposed? = none) ∧
    (∀ p, h.proposed? = some p ↔ ∃ since, Standing past p since) ∧
    ∀ p since, Standing past p since →
      (h.tryCommit.2 = .error (.refused
          (Refusal.mk .newConfigNoQuorum (some (versionTag p.version)) none)) ↔
        ¬ p.IsQuorum (acknowledged since ∩ p.voters)) ∧
      (h.tryCommit.2 = .ok none ↔
        p.IsQuorum (acknowledged since ∩ p.voters) ∧
          ¬ h.committed.IsQuorum (acknowledged since ∩ h.committed.voters)) ∧
      (h.tryCommit.2 = .ok (some p) ↔
        p.IsQuorum (acknowledged since ∩ p.voters) ∧
          h.committed.IsQuorum (acknowledged since ∩ h.committed.voters)) ∧
      (h.tryCommit.2 = .ok (some p) →
        h.tryCommit.1.committed = p ∧ h.tryCommit.1.proposed? = none) := by
  intro h past
  have hm : Mirrors past h := mirrors_after first enabled calls
  refine ⟨?_, fun p => proposed?_eq_some_iff hm, ?_⟩
  · cases hp : h.pending with
    | none => simp [tryCommit, proposed?, hp]
    | some q =>
      obtain ⟨since, hs⟩ := hm.standing hp
      rcases tryCommit_cases (hm.pending hs) with ⟨_, ht⟩ | ⟨_, _, ht⟩ | ⟨_, _, ht⟩ <;>
        simp [ht, proposed?, hp]
  · intro p since hs
    rw [acknowledged]
    rcases tryCommit_cases (hm.pending hs) with ⟨hp, ht⟩ | ⟨hp, hc, ht⟩ | ⟨hp, hc, ht⟩
    · simp [ht, hp]
    · simp [ht, hp, hc]
    · simp [ht, hp, hc, proposed?]

/-- One proposal is given up, and a second one finds its quorums. What was acknowledged before its
admission counts for nothing. -/
theorem trio_hands_over_to_quartet :
    let first := Configuration.mk 1 .majority .trio
    let next := Configuration.mk 0 .majority .quartet
    let calls := [.ack 3, .propose none next 2, .ack 1, .abandon, .propose (some 1) next 3,
      .ack 1, .propose none next 4, .ack 2, .ack 4]
    let since := [(Call.ack 1, Answer.flag true),
      (.propose none next 4, .proposed (.error (.refused
        (Refusal.mk .reconfigInProgress (some (versionTag 3)) none)))),
      (.ack 2, .flag true), (.ack 4, .flag true)]
    Standing (events first true calls) (next.stamp 3) since ∧
      (next.stamp 3).IsQuorum (acknowledged since ∩ (next.stamp 3).voters) ∧
      first.IsQuorum (acknowledged since ∩ first.voters) := by
  intro first next calls since
  have hs : Standing (events first true calls) (next.stamp 3) since := by
    refine ⟨[(.ack 3, .flag false), (.propose none next 2, .proposed (.ok (next.stamp 2))),
      (.ack 1, .flag true), (.abandon, .dropped (some (next.stamp 2)))], some 1, next, 3, ?_, ?_⟩
    · simp only [first, next, calls, since]
      rfl
    · intro e he
      simp only [since, List.mem_cons, List.not_mem_nil, or_false] at he
      rcases he with rfl | rfl | rfl | rfl <;> exact nofun
  have ht : (after first true calls).tryCommit.2 = .ok (some (next.stamp 3)) := by
    decide +kernel
  have hdecided := (tryCommit_decided_by_acks_since_admission first true calls).2.2
    (next.stamp 3) since hs
  exact ⟨hs, hdecided.2.2.1.mp ht⟩

end Electorate.Handover
