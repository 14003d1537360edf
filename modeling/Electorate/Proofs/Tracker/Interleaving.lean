import Electorate.Tracker.Shared
import Electorate.Proofs.Tracker.Acks
import Electorate.Proofs.Tracker.Answers

/-! Several threads acknowledge on one shared tracker. The order in which they get the lock makes
no difference to what the tracker holds or to how many of them bring news. -/
namespace Electorate.SharedTracker

/-- The acknowledgments of all threads in the order in which they get the lock, each with the
number of its thread. Any thread that has some left may come next. -/
inductive Interleaves : List (List UInt64) → List (Nat × UInt64) → Prop where
  | done {threads : List (List UInt64)} (h : ∀ ids ∈ threads, ids = []) : Interleaves threads []
  | turn {threads : List (List UInt64)} {k : Nat} {id : UInt64} {rest : List UInt64}
      {order : List (Nat × UInt64)} (hk : threads[k]? = some (id :: rest))
      (h : Interleaves (threads.set k rest) order) : Interleaves threads ((k, id) :: order)

/-- A turn of one thread takes its first id off what is left to send. -/
theorem flatten_perm_of_turn {threads : List (List UInt64)} {k : Nat} {id : UInt64}
    {rest : List UInt64} (hk : threads[k]? = some (id :: rest)) :
    threads.flatten.Perm (id :: (threads.set k rest).flatten) := by
  induction threads generalizing k with
  | nil => simp at hk
  | cons ids threads ih =>
    cases k with
    | zero =>
      obtain rfl := Option.some.inj hk
      exact List.Perm.refl _
    | succ k =>
      have hrest : (ids ++ threads.flatten).Perm (ids ++ id :: (threads.set k rest).flatten) :=
        (ih hk).append_left ids
      exact hrest.trans List.perm_middle

/-- The threads send in some order what they have to send, each id as often as it comes up. -/
theorem Interleaves.perm {threads : List (List UInt64)} {order : List (Nat × UInt64)}
    (h : Interleaves threads order) : (order.map Prod.snd).Perm threads.flatten := by
  induction h with
  | done hempty =>
    rw [List.flatten_eq_nil_iff.mpr hempty]
    exact List.Perm.nil
  | turn hk _ ih => exact (ih.cons _).trans (flatten_perm_of_turn hk).symm

theorem Interleaves.mem_iff {threads : List (List UInt64)} {order : List (Nat × UInt64)}
    (h : Interleaves threads order) (id : UInt64) :
    id ∈ order.map Prod.snd ↔ ∃ ids ∈ threads, id ∈ ids := by
  rw [h.perm.mem_iff, List.mem_flatten]

/-- Each acknowledgment holds the lock for itself. -/
def sections (order : List (Nat × UInt64)) : List Section :=
  order.map fun x => .call (.ack x.2)

def final (t : Tracker) (order : List (Nat × UInt64)) : SharedTracker :=
  ((start t).run (sections order)).1

def answers (t : Tracker) (order : List (Nat × UInt64)) : List (Except Error Answer) :=
  ((start t).run (sections order)).2

def isNews : Except Error Answer → Bool
  | .ok (.one (.flag true)) => true
  | _ => false

/-- The acknowledgments that were told they changed something. -/
def news (t : Tracker) (order : List (Nat × UInt64)) : List (Nat × UInt64) :=
  ((order.zip (answers t order)).filter (fun x => isNews x.2)).map Prod.fst

/-- The sections leave what one list of all their acknowledgments leaves. -/
theorem final_eq (t : Tracker) (order : List (Nat × UInt64)) :
    final t order = start (t.recordAll (order.map Prod.snd)) := by
  induction order generalizing t with
  | nil => rfl
  | cons x order ih => exact ih (t.recordAck x.2).1

theorem answers_cons (t : Tracker) (x : Nat × UInt64) (order : List (Nat × UInt64)) :
    answers t (x :: order) =
      .ok (.one (.flag (t.recordAck x.2).2)) :: answers (t.recordAck x.2).1 order := rfl

theorem length_answers (t : Tracker) (order : List (Nat × UInt64)) :
    (answers t order).length = order.length := by
  induction order generalizing t with
  | nil => rfl
  | cons x order ih => rw [answers_cons, List.length_cons, List.length_cons, ih]

theorem exists_flag_of_mem_answers {t : Tracker} {order : List (Nat × UInt64)}
    {a : Except Error Answer} (ha : a ∈ answers t order) : ∃ b, a = .ok (.one (.flag b)) := by
  induction order generalizing t with
  | nil => exact absurd ha List.not_mem_nil
  | cons x order ih =>
    rcases List.mem_cons.mp ha with rfl | ha
    · exact ⟨_, rfl⟩
    · exact ih ha

theorem news_cons (t : Tracker) (x : Nat × UInt64) (order : List (Nat × UInt64)) :
    news t (x :: order) = if (t.recordAck x.2).2 = true then x :: news (t.recordAck x.2).1 order
      else news (t.recordAck x.2).1 order := by
  rw [news, answers_cons, List.zip_cons_cons, List.filter_cons]
  cases (t.recordAck x.2).2 <;> rfl

/-- An id is news from some call if it would be so in the state at the start. -/
theorem mem_news (t : Tracker) (order : List (Nat × UInt64)) (id : UInt64) :
    id ∈ (news t order).map Prod.snd ↔
      id ∈ order.map Prod.snd ∧ (t.recordAck id).2 = true := by
  induction order generalizing t with
  | nil => simp [news]
  | cons x order ih =>
    have hrest : id ∈ (news (t.recordAck x.2).1 order).map Prod.snd ↔
        id ∈ order.map Prod.snd ∧ id ≠ x.2 ∧ (t.recordAck id).2 = true := by
      rw [ih, Tracker.recordAck_recordAck, Bool.and_eq_true, decide_eq_true_iff]
    rw [news_cons, List.map_cons, List.mem_cons]
    by_cases hid : id = x.2
    · rw [← hid] at hrest ⊢
      split_ifs with hnew
      · rw [List.map_cons, ← hid]
        simp [hnew]
      · rw [hrest]
        simp [hnew]
    · split_ifs
      · rw [List.map_cons, List.mem_cons, hrest]
        simp [hid]
      · rw [hrest]
        simp [hid]

/-- An id is news once at most, however often and from whichever thread it comes. -/
theorem nodup_news (t : Tracker) (order : List (Nat × UInt64)) :
    ((news t order).map Prod.snd).Nodup := by
  induction order generalizing t with
  | nil => exact List.nodup_nil
  | cons x order ih =>
    have hnot : x.2 ∉ (news (t.recordAck x.2).1 order).map Prod.snd := by
      rw [mem_news, Tracker.recordAck_recordAck]
      simp
    rw [news_cons]
    split_ifs
    · exact List.nodup_cons.mpr ⟨hnot, ih _⟩
    · exact ih _

/-- As many answers are news as there are ids that were missing and are sent. -/
theorem length_news (t : Tracker) (order : List (Nat × UInt64)) :
    (news t order).length =
      ((order.map Prod.snd).toFinset.filter (fun id => (t.recordAck id).2 = true)).card := by
  have hset : ((news t order).map Prod.snd).toFinset =
      (order.map Prod.snd).toFinset.filter (fun id => (t.recordAck id).2 = true) := by
    ext id
    rw [List.mem_toFinset, mem_news, Finset.mem_filter, List.mem_toFinset]
  rw [← hset, List.toFinset_card_of_nodup (nodup_news t order), List.length_map]

/-- The id votes in some configuration in force whose set does not hold it yet. -/
def IsMissing (t : Tracker) (id : UInt64) : Prop :=
  ∃ s e, t.entryAt? s = some e ∧ e.config.isVoter id = true ∧ e.acks.contains id = false

theorem isMissing_iff (t : Tracker) (id : UInt64) :
    IsMissing t id ↔ (t.recordAck id).2 = true := Tracker.recordAck_eq_true_iff.symm

/-- What the acknowledgments of all threads come to when they get the lock in this order. -/
structure Outcome (t : Tracker) (threads : List (List UInt64)) (order : List (Nat × UInt64)) :
    Prop where
  /-- One after the other or mixed, they end in one state. -/
  state : final t order = start (t.recordAll threads.flatten)
  answered : (answers t order).length = order.length ∧
    ∀ a ∈ answers t order, ∃ b, a = .ok (.one (.flag b))
  /-- Each set in force has gained exactly the voters among the ids sent. -/
  gained (s : Nat) (e : Entry) (he : t.entryAt? s = some e) :
    ∃ acks : IdSet, (final t order).tracker.entryAt? s = some ⟨e.config, acks⟩ ∧
      ∀ id, acks.contains id = true ↔ e.acks.contains id = true ∨
        (e.config.isVoter id = true ∧ ∃ ids ∈ threads, id ∈ ids)
  retired (s : Nat) (he : t.entryAt? s = none) : (final t order).tracker.entryAt? s = none
  /-- Of all calls with an id, from whatever thread, exactly one is told of a change if the id
  was missing somewhere, and none otherwise. -/
  once (id : UInt64) (hsent : ∃ ids ∈ threads, id ∈ ids) (hm : IsMissing t id) :
    ((news t order).map Prod.snd).count id = 1
  never (id : UInt64) (hm : ¬ IsMissing t id) : ((news t order).map Prod.snd).count id = 0

/-- Every order in which threads may run has the one outcome. -/
theorem outcome_of_interleaves (t : Tracker) {threads : List (List UInt64)}
    {order : List (Nat × UInt64)} (h : Interleaves threads order) : Outcome t threads order where
  state := by
    rw [final_eq, t.recordAll_congr fun id => h.perm.mem_iff]
  answered := ⟨length_answers t order, fun _ ha => exists_flag_of_mem_answers ha⟩
  gained s e he := by
    refine ⟨(e.ackAll (order.map Prod.snd)).acks, ?_, ?_⟩
    · rw [final_eq, start, Tracker.entryAt?_recordAll, he, Option.map_some]
      exact congrArg some (congrArg₂ Entry.mk (e.config_ackAll _) rfl)
    · intro id
      rw [← IdMap.mem_support, e.mem_support_ackAll, IdMap.mem_support, h.mem_iff, and_comm]
  retired s he := by
    rw [final_eq, start, Tracker.entryAt?_recordAll, he, Option.map_none]
  once id hsent hm := by
    apply List.count_eq_one_of_mem (nodup_news t order)
    exact (mem_news t order id).mpr ⟨(h.mem_iff id).mpr hsent, (isMissing_iff t id).mp hm⟩
  never id hm := by
    apply List.count_eq_zero.mpr
    intro hnews
    exact hm ((isMissing_iff t id).mpr ((mem_news t order id).mp hnews).2)

/-- Every interleaving of the acknowledgments of any number of threads has the one outcome. The
final state and the number of calls told of a change depend on the set of ids alone: on no order,
no repetition and no thread. -/
theorem acks_commute_across_threads (t : Tracker) (threads : List (List UInt64))
    (order : List (Nat × UInt64)) (h : Interleaves threads order) :
    Outcome t threads order ∧
    ∀ threads' order', Interleaves threads' order' →
      (∀ id, (∃ ids ∈ threads, id ∈ ids) ↔ ∃ ids ∈ threads', id ∈ ids) →
      final t order = final t order' ∧ (news t order).length = (news t order').length := by
  refine ⟨outcome_of_interleaves t h, ?_⟩
  intro threads' order' h' hsame
  have hids (id : UInt64) : id ∈ order.map Prod.snd ↔ id ∈ order'.map Prod.snd := by
    rw [h.mem_iff, hsame, h'.mem_iff]
  constructor
  · rw [final_eq, final_eq, t.recordAll_congr hids]
  · have hset : (order.map Prod.snd).toFinset = (order'.map Prod.snd).toFinset := by
      ext id
      rw [List.mem_toFinset, List.mem_toFinset, hids]
    rw [length_news, length_news, hset]

/-- Four threads, of which one sends nothing, beside a single one that sends each id once. -/
theorem threads_of_trio_acknowledge_in_any_order :
    let C := Configuration.mk 1 .majority .trio
    let next := Configuration.mk 2 .majority .quartet
    let t := Tracker.after [.register C, .register next, .ack 3]
    let threads : List (List UInt64) := [[1, 2, 1], [2, 9], [], [4, 1]]
    let order : List (Nat × UInt64) := [(1, 2), (0, 1), (3, 4), (0, 2), (3, 1), (1, 9), (0, 1)]
    let sorted : List (Nat × UInt64) := [(0, 1), (0, 2), (0, 4), (0, 9)]
    Interleaves threads order ∧ Interleaves [[1, 2, 4, 9]] sorted ∧
      Outcome t threads order ∧ final t order = final t sorted ∧
      (news t order).length = (news t sorted).length ∧
      news t order = [(1, 2), (0, 1), (3, 4)] ∧ (final t order).tracker.hasAllQuorums = true := by
  simp only
  have horder : Interleaves [[1, 2, 1], [2, 9], [], [4, 1]]
      [(1, 2), (0, 1), (3, 4), (0, 2), (3, 1), (1, 9), (0, 1)] :=
    .turn rfl (.turn rfl (.turn rfl (.turn rfl (.turn rfl (.turn rfl (.turn rfl
      (.done (by decide))))))))
  have hsorted : Interleaves [[1, 2, 4, 9]] [(0, 1), (0, 2), (0, 4), (0, 9)] :=
    .turn rfl (.turn rfl (.turn rfl (.turn rfl (.done (by decide)))))
  have hresult := acks_commute_across_threads
    (Tracker.after [.register ⟨1, .majority, .trio⟩, .register ⟨2, .majority, .quartet⟩, .ack 3])
    _ _ horder
  have hsame := hresult.2 _ _ hsorted (by intro id; simp; grind)
  exact ⟨horder, hsorted, hresult.1, hsame.1, hsame.2, by decide +kernel, by decide +kernel⟩

end Electorate.SharedTracker
