import Electorate.Proofs.Handover.Commit

/-! Versions order the commits of a run, so a proposal made on top of a version takes effect only
if nothing else has been committed on top of that version. -/
namespace Electorate.Handover

/-- The pending proposal follows the committed configuration and has other members. -/
structure Ahead (h : Handover) : Prop where
  version : ∀ p, h.proposed? = some p → h.committed.version < p.version
  members : ∀ p, h.proposed? = some p → p.members ≠ h.committed.members

theorem proposed?_of_hear {h h' : Handover} {ids : List UInt64}
    (hp : h'.pending = h.pending.map (Pending.hear ids)) : h'.proposed? = h.proposed? := by
  rw [proposed?, proposed?, hp, Option.map_map]
  rfl

theorem ahead_start (first : Configuration) (enabled : Bool) : Ahead (start first enabled) :=
  ⟨nofun, nofun⟩

/-- No call leaves a pending version at or below the committed one. -/
theorem ahead_step {h : Handover} (ha : Ahead h) (call : Call) : Ahead (h.step call).1 := by
  have he := effect_step h call
  generalize h.step call = r at he ⊢
  cases he with
  | admitted had =>
    constructor
    · intro p hp
      obtain rfl := Option.some.inj hp
      exact had.follows
    · intro p hp
      obtain rfl := Option.some.inj hp
      exact had.members_ne
  | committed hp => exact ⟨nofun, nofun⟩
  | dropped hp => exact ⟨nofun, nofun⟩
  | kept hk hc hp =>
    have hsame := proposed?_of_hear hp
    constructor
    · intro p h'
      rw [hc]
      exact ha.version p (hsame ▸ h')
    · intro p h'
      rw [hc]
      exact ha.members p (hsame ▸ h')

/-- An admitted proposal met every condition, and is pending under the version asked for. -/
theorem admits_of_answer {h : Handover} {base : Option UInt64} {c p : Configuration}
    {version : UInt64} (hs : (h.step (.propose base c version)).2 = .proposed (.ok p)) :
    Admits h base c version ∧ p = c.stamp version ∧
      (h.step (.propose base c version)).1.isInProgress = true := by
  have he := effect_step h (.propose base c version)
  generalize h.step (.propose base c version) = r at he hs ⊢
  cases he with
  | admitted had =>
    have hp : c.stamp version = p := Except.ok.inj (Answer.proposed.inj hs)
    exact ⟨had, hp.symm, rfl⟩
  | kept hk hc hp => exact absurd hs (hk.2 p)

theorem committed_of_answer {h : Handover} {call : Call} {p : Configuration}
    (hs : (h.step call).2 = .commit (.ok (some p))) :
    h.proposed? = some p ∧ (h.step call).1.committed = p := by
  have he := effect_step h call
  generalize h.step call = r at he hs ⊢
  cases he with
  | admitted had => cases hs
  | committed hp =>
    obtain rfl := Option.some.inj (Except.ok.inj (Answer.commit.inj hs))
    exact ⟨by rw [proposed?, hp, Option.map_some], rfl⟩
  | dropped hp => cases hs
  | kept hk hc hp => exact absurd (hs ▸ Ends.committed p) hk.1

/-- Nothing but a commit changes what is committed. -/
theorem commits_of_committed_ne {h : Handover} {call : Call}
    (hne : (h.step call).1.committed ≠ h.committed) :
    call = .tryCommit ∧ ∃ p, (h.step call).2 = .commit (.ok (some p)) := by
  have he := effect_step h call
  generalize h.step call = r at he hne ⊢
  cases he with
  | admitted had => exact absurd rfl hne
  | committed hp => exact ⟨rfl, _, rfl⟩
  | dropped hp => exact absurd rfl hne
  | kept hk hc hp => exact absurd hc hne

theorem isInProgress_step {h : Handover} {call : Call} (hp : h.isInProgress = true)
    (hends : ¬ Ends (h.step call).2) : (h.step call).1.isInProgress = true := by
  have he := effect_step h call
  generalize h.step call = r at he hends ⊢
  cases he with
  | admitted had => rfl
  | committed h' => exact absurd (Ends.committed _) hends
  | dropped h' => exact absurd (Ends.dropped _) hends
  | kept hk hc h' =>
    rw [isInProgress, h', Option.isSome_map]
    exact hp

theorem version_le_step {h : Handover} (ha : Ahead h) (call : Call) :
    h.committed.version ≤ (h.step call).1.committed.version := by
  by_cases hne : (h.step call).1.committed = h.committed
  · rw [hne]
    exact UInt64.le_refl _
  · obtain ⟨-, p, hs⟩ := commits_of_committed_ne hne
    obtain ⟨hp, hc⟩ := committed_of_answer hs
    rw [hc]
    exact UInt64.le_of_lt (ha.version p hp)

/-- None of the calls after call `i` and before call `j` ends a proposal. -/
def Undecided (past : List Event) (i j : Nat) : Prop :=
  ∀ k e, i < k → k < j → past[k]? = some e → ¬ Ends e.2

/-- Call `i` admits a proposal made on top of `base`, and the first call to end it is call `j`,
which commits it. -/
structure LeadsToCommit (past : List Event) (base : Option UInt64) (i j : Nat) : Prop where
  admission : ∃ c version p, past[i]? = some (.propose base c version, .proposed (.ok p))
  undecided : Undecided past i j
  later : i < j
  commit : ∃ p, past[j]? = some (.tryCommit, .commit (.ok (some p)))

section
variable {first : Configuration} {enabled : Bool} {calls : List Call}

theorem ahead_stateAt (i : Nat) : Ahead (stateAt first enabled calls i) :=
  stateAt_induction (Nat.zero_le i) (ahead_start first enabled)
    fun _ call _ _ _ ha => ahead_step ha call

/-- The committed version never falls during a run. -/
theorem version_le_stateAt {i j : Nat} (hij : i ≤ j) :
    (stateAt first enabled calls i).committed.version ≤
      (stateAt first enabled calls j).committed.version := by
  apply stateAt_induction (P := fun h =>
    (stateAt first enabled calls i).committed.version ≤ h.committed.version) hij (UInt64.le_refl _)
  intro k call _ _ _ hk
  exact UInt64.le_trans hk (version_le_step (ahead_stateAt k) call)

theorem admits_stateAt {base : Option UInt64} {c p : Configuration} {version : UInt64} {i : Nat}
    (he : (events first enabled calls)[i]? =
      some (.propose base c version, .proposed (.ok p))) :
    Admits (stateAt first enabled calls i) base c version ∧ p = c.stamp version ∧
      (stateAt first enabled calls (i + 1)).isInProgress = true := by
  have hs := step_stateAt he
  have ha := admits_of_answer (congrArg Prod.snd hs)
  rw [hs] at ha
  exact ha

/-- A proposal is still pending when nothing since its admission has ended it. -/
theorem isInProgress_stateAt {base : Option UInt64} {c p : Configuration} {version : UInt64}
    {i j : Nat} (he : (events first enabled calls)[i]? =
      some (.propose base c version, .proposed (.ok p)))
    (hu : Undecided (events first enabled calls) i j) (hij : i < j) :
    (stateAt first enabled calls j).isInProgress = true := by
  apply stateAt_induction (P := fun h => h.isInProgress = true) (Nat.succ_le_of_lt hij)
    (admits_stateAt he).2.2
  intro k call hik hkj hc hk
  exact isInProgress_step hk (hu k _ (Nat.lt_of_succ_le hik) hkj (getElem?_events hc))

/-- A proposal on top of a version is admitted only while that version is committed. -/
theorem version_of_base {v : UInt64} {c p : Configuration} {version : UInt64} {i : Nat}
    (he : (events first enabled calls)[i]? =
      some (.propose (some v) c version, .proposed (.ok p))) :
    (stateAt first enabled calls i).committed.version = v :=
  ((admits_stateAt he).1.base v rfl).symm

/-- Once a proposal on top of a version is committed, the committed version stays above it. -/
theorem LeadsToCommit.version_lt {v : UInt64} {i j k : Nat}
    (h : LeadsToCommit (events first enabled calls) (some v) i j) (hjk : j < k) :
    v < (stateAt first enabled calls k).committed.version := by
  obtain ⟨c, version, p, he⟩ := h.admission
  obtain ⟨q, hcommit⟩ := h.commit
  have hs := step_stateAt hcommit
  obtain ⟨hq, hcommitted⟩ := committed_of_answer (congrArg Prod.snd hs)
  rw [hs] at hcommitted
  have hbefore : v ≤ (stateAt first enabled calls j).committed.version := by
    rw [← version_of_base he]
    exact version_le_stateAt (Nat.le_of_lt h.later)
  have hrise : (stateAt first enabled calls j).committed.version <
      (stateAt first enabled calls (j + 1)).committed.version := by
    rw [hcommitted]
    exact (ahead_stateAt j).version q hq
  have hafter : (stateAt first enabled calls (j + 1)).committed.version ≤
      (stateAt first enabled calls k).committed.version := version_le_stateAt hjk
  exact UInt64.lt_of_le_of_lt hbefore (UInt64.lt_of_lt_of_le hrise hafter)

/-- Once a proposal on top of `v` is committed, none is admitted on top of `v`. -/
theorem LeadsToCommit.not_admitted {v : UInt64} {c p : Configuration} {version : UInt64}
    {i j k : Nat} (h : LeadsToCommit (events first enabled calls) (some v) i j) (hjk : j < k) :
    (events first enabled calls)[k]? ≠ some (.propose (some v) c version, .proposed (.ok p)) := by
  intro he
  have hlt := h.version_lt hjk
  rw [version_of_base he] at hlt
  exact UInt64.lt_irrefl v hlt

/-- Of two proposals on top of one version that are both committed, neither comes first. -/
theorem LeadsToCommit.not_lt {v : UInt64} {i j i' j' : Nat}
    (h : LeadsToCommit (events first enabled calls) (some v) i j)
    (h' : LeadsToCommit (events first enabled calls) (some v) i' j') : ¬ i < i' := by
  intro hii
  obtain ⟨c, version, p, he⟩ := h.admission
  obtain ⟨c', version', p', he'⟩ := h'.admission
  rcases Nat.lt_or_ge j i' with hji | hij
  · exact h.not_admitted hji he'
  · -- the first proposal is still pending, so the second one is turned down
    have hopen : Undecided (events first enabled calls) i i' :=
      fun k e hik hki => h.undecided k e hik (Nat.lt_of_lt_of_le hki hij)
    have hpending := isInProgress_stateAt he hopen hii
    rw [isInProgress, (admits_stateAt he').1.idle] at hpending
    exact Bool.noConfusion hpending

/-- What is pending was admitted at some event, and nothing has been decided since. -/
theorem exists_admission {p : Configuration}
    (hp : (after first enabled calls).proposed? = some p) :
    ∃ i base c version,
      (events first enabled calls)[i]? = some (.propose base c version, .proposed (.ok p)) ∧
      Undecided (events first enabled calls) i (events first enabled calls).length := by
  obtain ⟨since, before, base, c, version, hsplit, hends⟩ :=
    (proposed?_eq_some_iff (mirrors_after first enabled calls)).mp hp
  have hafter (k : Nat) (hk : before.length < k) :
      (events first enabled calls)[k]? = since[k - before.length - 1]? := by
    rw [hsplit, List.getElem?_append_right (Nat.le_of_lt hk), List.getElem?_cons]
    split_ifs with hzero
    · omega
    · rfl
  refine ⟨before.length, base, c, version, ?_, ?_⟩
  · rw [hsplit]
    simp
  · intro k e hk _ he
    rw [hafter k hk] at he
    exact hends e (List.mem_of_getElem? he)

end

/-- What the versions settle about a run. -/
structure OrderedByVersion (first : Configuration) (enabled : Bool) (calls : List Call) : Prop where
  ahead (p : Configuration) (hp : (after first enabled calls).proposed? = some p) :
    (after first enabled calls).committed.version < p.version
  /-- Whatever call comes next, only a commit changes what is committed. -/
  change (call : Call) (hne : ((after first enabled calls).step call).1.committed ≠
      (after first enabled calls).committed) :
    call = .tryCommit ∧
      ∃ p, ((after first enabled calls).step call).2 = .commit (.ok (some p))
  /-- A commit raises the version and changes the members. It installs what was proposed at the
  admission, under the version asked for there. -/
  commit (p : Configuration)
      (hp : ((after first enabled calls).step .tryCommit).2 = .commit (.ok (some p))) :
    ((after first enabled calls).step .tryCommit).1.committed = p ∧
      (after first enabled calls).committed.version < p.version ∧
      p.members ≠ (after first enabled calls).committed.members ∧
      ∃ i base c version,
        (events first enabled calls)[i]? = some (.propose base c version, .proposed (.ok p)) ∧
        Undecided (events first enabled calls) i (events first enabled calls).length ∧
        p.version = version ∧ p.policy = c.policy ∧ p.membership = c.membership
  /-- At most one proposal made on top of a version is ever committed. -/
  once (v : UInt64) (i j i' j' : Nat)
      (h : LeadsToCommit (events first enabled calls) (some v) i j)
      (h' : LeadsToCommit (events first enabled calls) (some v) i' j') : i = i'
  /-- After that commit every further proposal on top of the version fails. -/
  closed (v : UInt64) (i j k : Nat) (c : Configuration) (version : UInt64) (answer : Answer)
      (h : LeadsToCommit (events first enabled calls) (some v) i j) (hjk : j < k)
      (he : (events first enabled calls)[k]? = some (.propose (some v) c version, answer)) :
    ∃ error, answer = .proposed (.error error)

/-- Versions order the commits of every run. Each installs what was admitted, under a higher
version, and at most one is made on top of each version. -/
theorem commits_ordered_by_version (first : Configuration) (enabled : Bool) (calls : List Call) :
    OrderedByVersion first enabled calls where
  ahead p hp := by
    have ha : Ahead (stateAt first enabled calls calls.length) := ahead_stateAt _
    rw [stateAt_length] at ha
    exact ha.version p hp
  change call hne := commits_of_committed_ne hne
  commit p hp := by
    have ha : Ahead (stateAt first enabled calls calls.length) := ahead_stateAt _
    rw [stateAt_length] at ha
    obtain ⟨hpending, hcommitted⟩ := committed_of_answer hp
    obtain ⟨i, base, c, version, he, hu⟩ := exists_admission hpending
    obtain ⟨-, hstamp, -⟩ := admits_stateAt he
    refine ⟨hcommitted, ha.version p hpending, ha.members p hpending, i, base, c, version, he, hu,
      ?_⟩
    rw [hstamp]
    exact ⟨rfl, rfl, rfl⟩
  once v i j i' j' h h' := by
    have hle : i' ≤ i := Nat.le_of_not_lt (h.not_lt h')
    have hge : i ≤ i' := Nat.le_of_not_lt (h'.not_lt h)
    omega
  closed v i j k c version answer h hjk he := by
    have hanswer : Answer.proposed ((stateAt first enabled calls k).propose (some v) c version).2 =
        answer := congrArg Prod.snd (step_stateAt he)
    cases hr : ((stateAt first enabled calls k).propose (some v) c version).2 with
    | error e => exact ⟨e, by rw [← hanswer, hr]⟩
    | ok p =>
      rw [← hanswer, hr] at he
      exact absurd he (h.not_admitted hjk)

/-- After the commit on top of version 1, another proposal on top of it is refused for its base. -/
theorem second_proposal_on_trio_fails :
    let first := Configuration.mk 1 .majority .trio
    let next := Configuration.mk 0 .majority .quartet
    let calls := [.propose (some 1) next 2, .ack 1, .propose (some 1) (next.stamp 5) 3, .ack 2,
      .ack 3, .tryCommit, .propose (some 1) (next.stamp 5) 4]
    let refusal := Error.refused (Refusal.mk .badVersion (some (versionTag 1)) none)
    LeadsToCommit (events first true calls) (some 1) 0 5 ∧
      (events first true calls)[6]? =
        some (.propose (some 1) (next.stamp 5) 4, .proposed (.error refusal)) ∧
      ∃ error, Answer.proposed (.error refusal) = .proposed (.error error) := by
  intro first next calls refusal
  have hends : ∀ e ∈ ((events first true calls).take 5).drop 1, ¬ Ends e.2 := by
    have hopen : ((events first true calls).take 5).drop 1 = [(.ack 1, .flag true),
        (.propose (some 1) (next.stamp 5) 3, .proposed (.error (.refused
          (Refusal.mk .reconfigInProgress (some (versionTag 2)) none)))),
        (.ack 2, .flag true), (.ack 3, .flag true)] := by
      simp only [first, next, calls]
      rfl
    rw [hopen]
    intro e he
    simp only [List.mem_cons, List.not_mem_nil, or_false] at he
    rcases he with rfl | rfl | rfl | rfl <;> exact nofun
  have h : LeadsToCommit (events first true calls) (some 1) 0 5 := by
    refine ⟨⟨next, 2, next.stamp 2, ?_⟩, ?_, by decide, next.stamp 2, ?_⟩
    · simp only [first, next, calls]
      rfl
    · intro k e hk hkj he
      apply hends
      rw [List.mem_iff_getElem?]
      refine ⟨k - 1, ?_⟩
      rw [List.getElem?_drop, List.getElem?_take_of_lt (by omega), Nat.add_sub_cancel' hk]
      exact he
    · simp only [first, next, calls]
      rfl
  have he : (events first true calls)[6]? =
      some (.propose (some 1) (next.stamp 5) 4, .proposed (.error refusal)) := by
    simp only [first, next, calls, refusal]
    rfl
  exact ⟨h, he,
    (commits_ordered_by_version first true calls).closed 1 0 5 6 _ 4 _ h (by decide) he⟩

end Electorate.Handover
