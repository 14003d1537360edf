import Electorate.Proofs.Handover.History

/-! What one call can do to a handover: admit a proposal, end the pending one, or neither. So every
run mirrors its past. -/
namespace Electorate.Handover

/-- The grounds for admitting a proposal, each of which the handover checks. -/
structure Admits (h : Handover) (base : Option UInt64) (c : Configuration) (version : UInt64) :
    Prop where
  enabled : h.enabled = true
  idle : h.pending = none
  base : ∀ b, base = some b → b = h.committed.version
  differs : c.sameAs h.committed = false
  follows : h.committed.version < version

/-- A proposal is admitted exactly if none of the grounds for refusal holds. -/
theorem refusal?_eq_none_iff {h : Handover} {base : Option UInt64} {c : Configuration}
    {version : UInt64} : h.refusal? base c version = none ↔ Admits h base c version := by
  have hbase : base.filter (· != h.committed.version) = none ↔
      ∀ b, base = some b → b = h.committed.version := by
    simp [Option.filter_eq_none_iff]
  constructor
  · intro hr
    have hidle := pending_of_refusal?_eq_none hr
    unfold refusal? at hr
    rw [hidle] at hr
    cases hf : base.filter (· != h.committed.version) with
    | some b =>
      rw [hf] at hr
      split_ifs at hr
    | none =>
      rw [hf] at hr
      split_ifs at hr with he hs hv
      exact ⟨by simpa using he, hidle, hbase.mp hf, by simpa using hs, UInt64.not_le.mp hv⟩
  · intro ha
    have hv : ¬ version ≤ h.committed.version := UInt64.not_le.mpr ha.follows
    simp [refusal?, ha.enabled, ha.idle, hbase.mpr ha.base, ha.differs, hv]

/-- A proposal under another version is compared by its members, so an admitted one changes
them. -/
theorem Admits.members_ne {h : Handover} {base : Option UInt64} {c : Configuration}
    {version : UInt64} (ha : Admits h base c version) : c.members ≠ h.committed.members := by
  have hs := ha.differs
  rw [Configuration.sameAs, Bool.or_eq_false_iff] at hs
  exact beq_eq_false_iff_ne.mp hs.2

/-- What a call makes of a handover, with the answer it gives. -/
inductive Effect (h : Handover) : Call → Handover × Answer → Prop where
  | admitted {base : Option UInt64} {c : Configuration} {version : UInt64}
      (ha : Admits h base c version) : Effect h (.propose base c version)
        ({ h with pending := some (watched h.committed (c.stamp version) []) },
          .proposed (.ok (c.stamp version)))
  | committed {p : Pending} (hp : h.pending = some p) : Effect h .tryCommit
      ({ h with committed := p.proposed, pending := none }, .commit (.ok (some p.proposed)))
  | dropped {p : Pending} (hp : h.pending = some p) : Effect h .abandon
      ({ h with pending := none }, .dropped (some p.proposed))
  /-- Both configurations stay. If the call is an acknowledgment, the pending one records it. -/
  | kept {call : Call} {r : Handover × Answer} (hk : Keeps r.2)
      (hc : r.1.committed = h.committed)
      (hp : r.1.pending = h.pending.map (Pending.hear (ackIds [(call, r.2)]))) : Effect h call r

theorem Effect.idle {h h' : Handover} {call : Call} {a : Answer} (hk : Keeps a)
    (hack : ackIds [(call, a)] = []) (hc : h'.committed = h.committed)
    (hp : h'.pending = h.pending) : Effect h call (h', a) := by
  apply Effect.kept hk hc
  rw [hack, map_hear_nil]
  exact hp

theorem effect_propose (h : Handover) (base : Option UInt64) (c : Configuration)
    (version : UInt64) : Effect h (.propose base c version) (h.step (.propose base c version)) := by
  rw [step, propose]
  cases hr : h.refusal? base c version with
  | some r => exact Effect.idle ⟨nofun, nofun⟩ rfl rfl rfl
  | none => exact Effect.admitted (refusal?_eq_none_iff.mp hr)

theorem effect_ack (h : Handover) (id : UInt64) : Effect h (.ack id) (h.step (.ack id)) := by
  have hboth : (h.recordAck id).1.committed = h.committed ∧
      (h.recordAck id).1.pending = h.pending.map (Pending.hear [id]) := by
    unfold recordAck
    cases hp : h.pending with
    | none => exact ⟨rfl, hp⟩
    | some p => exact ⟨rfl, rfl⟩
  exact Effect.kept ⟨nofun, nofun⟩ hboth.1 hboth.2

theorem effect_tryCommit (h : Handover) : Effect h .tryCommit (h.step .tryCommit) := by
  rw [step, tryCommit]
  cases hp : h.pending with
  | none => exact Effect.idle ⟨nofun, nofun⟩ rfl rfl rfl
  | some p =>
    simp only
    split_ifs
    · exact Effect.idle ⟨nofun, nofun⟩ rfl rfl rfl
    · exact Effect.idle ⟨nofun, nofun⟩ rfl rfl rfl
    · exact Effect.committed hp

theorem effect_abandon (h : Handover) : Effect h .abandon (h.step .abandon) := by
  rw [step, abandon, proposed?]
  cases hp : h.pending with
  | none => exact Effect.idle ⟨nofun, nofun⟩ rfl rfl hp.symm
  | some p => exact Effect.dropped hp

/-- Every call has one of these effects. -/
theorem effect_step (h : Handover) (call : Call) : Effect h call (h.step call) := by
  cases call with
  | propose base c version => exact effect_propose h base c version
  | ack id => exact effect_ack h id
  | tryCommit => exact effect_tryCommit h
  | abandon => exact effect_abandon h
  | _ => exact Effect.idle ⟨nofun, nofun⟩ rfl rfl rfl

/-- What a handover holds goes along with its history, call by call. -/
theorem mirrors_step {past : List Event} {h : Handover} (hm : Mirrors past h) (call : Call) :
    Mirrors (past ++ [(call, (h.step call).2)]) (h.step call).1 := by
  have he := effect_step h call
  generalize h.step call = r at he ⊢
  cases he with
  | admitted ha => exact hm.admit ha.idle rfl
  | @committed p hp => exact Mirrors.close (Ends.committed p.proposed) rfl
  | @dropped p hp => exact Mirrors.close (Ends.dropped p.proposed) rfl
  | kept hk hc hp => exact hm.carry hk hc hp

/-- Every run mirrors its past, through refusals, abandoned proposals and further ones. -/
theorem mirrors_after (first : Configuration) (enabled : Bool) (calls : List Call) :
    Mirrors (events first enabled calls) (after first enabled calls) := by
  -- on the last call, as for trackers: a proposal stands through what follows its admission
  induction calls using List.reverseRecOn with
  | nil => exact ⟨fun h => absurd h not_standing_nil, fun h => absurd h (by simp [after, start])⟩
  | append_singleton calls call ih =>
    rw [events_append_singleton, after_append_singleton]
    exact mirrors_step ih call

end Electorate.Handover
