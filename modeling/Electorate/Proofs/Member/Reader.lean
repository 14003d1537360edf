import Electorate.Proofs.Except
import Electorate.Proofs.Member.Format
import Electorate.Proofs.Text.Trim

/-! What the reader of a server line takes its fields from, and what every member has that comes
out of it. -/
namespace Electorate

/-- A host ends at the bracket that closes it, or at the first colon where no bracket opens it. -/
theorem splitHost_eq_ok_iff {s host rest : List Char} : splitHost s = .ok (host, rest) ↔
    (s = '[' :: (host ++ ']' :: ':' :: rest) ∧ ']' ∉ host) ∨
    (s = host ++ ':' :: rest ∧ ':' ∉ host ∧ host ≠ [] ∧ host.head? ≠ some '[') := by
  constructor
  · intro h
    unfold splitHost at h
    split at h
    · next inner =>
      split at h
      · cases h
      · next found after hsplit =>
        obtain ⟨rfl, rfl⟩ := Prod.mk.inj (Except.ok.inj h)
        obtain ⟨hinner, hfound⟩ := splitFirst?_eq_some hsplit
        exact Or.inl ⟨by rw [hinner], hfound⟩
      · cases h
    · next hopen =>
      split at h
      · cases h
      · cases h
      · next found after hne hsplit =>
        obtain ⟨rfl, rfl⟩ := Prod.mk.inj (Except.ok.inj h)
        obtain ⟨hs, hfound⟩ := splitFirst?_eq_some hsplit
        refine Or.inr ⟨hs, hfound, hne, ?_⟩
        intro hhead
        obtain ⟨tail, rfl⟩ := List.head?_eq_some_iff.mp hhead
        exact hopen _ hs
  · intro h
    rcases h with ⟨rfl, hclose⟩ | ⟨rfl, hcolon, hne, hhead⟩
    · simp [splitHost, splitFirst?_append hclose]
    · cases host with
      | nil => exact absurd rfl hne
      | cons c tail =>
        have hc : c ≠ '[' := fun hc => hhead (by rw [hc]; rfl)
        unfold splitHost
        split
        · next inner hs => exact absurd (List.cons.inj hs).1 hc
        · rw [splitFirst?_append hcolon]

theorem readPort_ne_zero {s : List Char} {p : UInt16} (h : readPort s = .ok p) : p ≠ 0 := by
  unfold readPort at h
  split at h
  · split_ifs at h with hp
    exact Except.ok.inj h ▸ hp
  · cases h

theorem readPort_decimal {p : UInt16} (hp : p ≠ 0) : readPort (decimal p.toNat) = .ok p := by
  have htrim : trim (decimal p.toNat) = decimal p.toNat :=
    trim_eq_self (forall_mem_decimal isBlank_digitChar p.toNat)
  rw [readPort, htrim, readWord16_decimal]
  exact if_neg hp

/-- A host that stands bare of the brackets that an address for clients may have around it. -/
structure Bare (host : List Char) : Prop where
  ne_nil : host ≠ []
  head : host.head? ≠ some '['
  last : host.getLast? ≠ some ']'

theorem dropWhile_replicate_append {c : Char} {s : List Char} (n : ℕ) (h : s.head? ≠ some c) :
    (List.replicate n c ++ s).dropWhile (· == c) = s := by
  induction n with
  | zero =>
    cases s with
    | nil => rfl
    | cons d s =>
      have hd : (d == c) = false := by
        apply beq_eq_false_iff_ne.mpr
        exact fun hd => h (by rw [hd]; rfl)
      rw [List.replicate_zero, List.nil_append, List.dropWhile_cons, hd]
      rfl
  | succ n ih =>
    rw [List.replicate_succ, List.cons_append, List.dropWhile_cons, if_pos (beq_self_eq_true c)]
    exact ih

theorem exists_replicate_append_dropWhile (c : Char) (s : List Char) :
    ∃ n, s = List.replicate n c ++ s.dropWhile (· == c) := by
  have hall : ∀ d ∈ s.takeWhile (· == c), d = c := by
    intro d hd
    exact beq_iff_eq.mp (List.mem_takeWhile_imp (p := (· == c)) hd)
  refine ⟨(s.takeWhile (· == c)).length, ?_⟩
  rw [← List.eq_replicate_of_mem hall, List.takeWhile_append_dropWhile]

theorem head?_dropWhile_ne (c : Char) (s : List Char) : (s.dropWhile (· == c)).head? ≠ some c := by
  intro hc
  have hnot := List.head?_dropWhile_not (· == c) s
  rw [hc] at hnot
  simp at hnot

/-- Brackets are dropped one by one, first in front and then at the end. -/
theorem isStripped_iff {s host : List Char} : IsStripped s host ↔
    host = ((s.dropWhile (· == '[')).reverse.dropWhile (· == ']')).reverse := by
  constructor
  · intro h
    obtain ⟨⟨i, j, rfl⟩, hopen, hclose⟩ := h
    have hfront : (host ++ List.replicate j ']').head? ≠ some '[' := by
      cases host with
      | nil => cases j <;> simp [List.replicate_succ]
      | cons c host => exact hopen
    have hback : host.reverse.head? ≠ some ']' := by
      rw [List.head?_reverse]
      exact hclose
    rw [dropWhile_replicate_append i hfront, List.reverse_append, List.reverse_replicate,
      dropWhile_replicate_append j hback, List.reverse_reverse]
  · intro h
    obtain ⟨i, hi⟩ := exists_replicate_append_dropWhile '[' s
    have hopen := head?_dropWhile_ne '[' s
    generalize s.dropWhile (· == '[') = inner at h hi hopen
    obtain ⟨j, hj⟩ := exists_replicate_append_dropWhile ']' inner.reverse
    have hclose := head?_dropWhile_ne ']' inner.reverse
    have hinner : inner = host ++ List.replicate j ']' := by
      rw [← inner.reverse_reverse, hj, List.reverse_append, List.reverse_replicate, h]
    refine ⟨⟨i, j, by rw [hi, hinner]⟩, ?_, ?_⟩
    · -- what is first in the host is first in front of the closing brackets too
      intro hhead
      obtain ⟨tail, rfl⟩ := List.head?_eq_some_iff.mp hhead
      exact hopen (by rw [hinner]; rfl)
    · rw [h, List.getLast?_reverse]
      exact hclose

theorem exists_isStripped (s : List Char) : ∃ host, IsStripped s host :=
  ⟨_, isStripped_iff.mpr rfl⟩

/-- An address with nothing between its brackets stands for every host. -/
theorem clientHost_of_isStripped {s host : List Char} (h : IsStripped s host) :
    clientHost s = if host = [] then anyHost else host := by
  rw [clientHost, ← isStripped_iff.mp h]
  simp only [List.isEmpty_iff]
  rfl

theorem IsStripped.bare {s host : List Char} (h : IsStripped s host) (hne : host ≠ []) :
    Bare host := ⟨hne, h.2.1, h.2.2⟩

theorem clientHost_cases (s : List Char) : clientHost s = anyHost ∨
    (clientHost s <:+: s ∧ Bare (clientHost s)) := by
  obtain ⟨host, hhost⟩ := exists_isStripped s
  rw [clientHost_of_isStripped hhost]
  by_cases hne : host = []
  · exact Or.inl (if_pos hne)
  · rw [if_neg hne]
    obtain ⟨i, j, hs⟩ := hhost.1
    exact Or.inr ⟨⟨_, _, by rw [hs, List.append_assoc]⟩, hhost.bare hne⟩

theorem bare_clientHost (s : List Char) : Bare (clientHost s) := by
  rcases clientHost_cases s with h | h
  · rw [h]
    exact ⟨by decide, by decide, by decide⟩
  · exact h.2

theorem readClientAddress_eq_ok {s : List Char} {a : String} (h : readClientAddress s = .ok a) :
    ∃ x p, a.toList = addressText (clientHost x) p ∧ p ≠ 0 ∧ ∀ c ∈ x, c ∈ s := by
  unfold readClientAddress at h
  split at h
  · next host port hsplit =>
    obtain ⟨p, hp, rfl⟩ := exists_of_map_eq_ok h
    refine ⟨host, p, String.toList_ofList, readPort_ne_zero hp, ?_⟩
    intro c hc
    rw [(splitLast?_eq_some hsplit).1]
    exact List.mem_append_left _ hc
  · obtain ⟨p, hp, rfl⟩ := exists_of_map_eq_ok h
    exact ⟨[], p, String.toList_ofList, readPort_ne_zero hp, nofun⟩

def readRole (role? : Option (List Char)) : Except SpecFault Role :=
  match role? with
  | none => .ok .participant
  | some r => Role.parse r

def readClient (client? : Option (List Char)) : Except SpecFault (Option String) :=
  match client? with
  | none => .ok none
  | some c => (readClientAddress c).map some

namespace Member

/-- The order in which the parts of a line are checked, once the id is in order. -/
theorem read_eq {id : UInt64} (hid : id ≠ 0) (spec : List Char) : read id spec =
    (splitHost (splitClient spec).1).bind fun split =>
    (splitFields (splitClient spec).1 split.2).bind fun fields =>
    (readPort fields.1).bind fun peerPort =>
    (readPort fields.2.1).bind fun electionPort =>
    (readRole fields.2.2).bind fun role =>
    (readClient (splitClient spec).2).bind fun clientAddress =>
    .ok (Member.mk id (String.ofList split.1) peerPort electionPort clientAddress role 1) := by
  rw [read, if_neg hid]
  generalize splitClient spec = parts
  obtain ⟨server, client?⟩ := parts
  refine congrArg (Except.bind (splitHost server)) (funext fun split => ?_)
  obtain ⟨host, rest⟩ := split
  refine congrArg (Except.bind (splitFields server rest)) (funext fun fields => ?_)
  obtain ⟨peer, election, role?⟩ := fields
  refine congrArg (Except.bind (readPort peer)) (funext fun peerPort => ?_)
  refine congrArg (Except.bind (readPort election)) (funext fun electionPort => ?_)
  -- what is missing from the line is supplied before the last steps
  cases role? with
  | none => cases client? <;> rfl
  | some r => cases client? <;> rfl

theorem id_ne_zero_of_read {id : UInt64} {spec : List Char} {m : Member}
    (h : read id spec = .ok m) : id ≠ 0 := by
  intro hid
  rw [read, if_pos hid] at h
  cases h

/-- A member is read from one host, its fields and its address for clients, each taken up for
itself. -/
theorem read_eq_ok_iff {id : UInt64} {spec : List Char} {m : Member} : read id spec = .ok m ↔
    id ≠ 0 ∧ ∃ host rest peer election role?,
      splitHost (splitClient spec).1 = .ok (host, rest) ∧
      splitFields (splitClient spec).1 rest = .ok (peer, election, role?) ∧
      readPort peer = .ok m.peerPort ∧ readPort election = .ok m.electionPort ∧
      readRole role? = .ok m.role ∧
      readClient (splitClient spec).2 = .ok m.clientAddress ∧
      m.id = id ∧ m.host.toList = host ∧ m.weight = 1 := by
  constructor
  · intro h
    have hid := id_ne_zero_of_read h
    rw [read_eq hid] at h
    obtain ⟨⟨host, rest⟩, hsplit, h⟩ := bind_eq_ok_iff.mp h
    obtain ⟨⟨peer, election, role?⟩, hfields, h⟩ := bind_eq_ok_iff.mp h
    obtain ⟨peerPort, hpeer, h⟩ := bind_eq_ok_iff.mp h
    obtain ⟨electionPort, helection, h⟩ := bind_eq_ok_iff.mp h
    obtain ⟨role, hrole, h⟩ := bind_eq_ok_iff.mp h
    obtain ⟨clientAddress, hclient, h⟩ := bind_eq_ok_iff.mp h
    obtain rfl := Except.ok.inj h
    exact ⟨hid, host, rest, peer, election, role?, hsplit, hfields, hpeer, helection, hrole,
      hclient, rfl, String.toList_ofList, rfl⟩
  · intro h
    obtain ⟨hid, host, rest, peer, election, role?, hsplit, hfields, hpeer, helection, hrole,
      hclient, hmid, rfl, hweight⟩ := h
    rw [read_eq hid, hsplit, Except.bind, hfields, Except.bind, hpeer, Except.bind, helection,
      Except.bind, hrole, Except.bind, hclient, Except.bind, String.ofList_toList, ← hmid,
      ← hweight]

theorem id_of_read {id : UInt64} {spec : List Char} {m : Member} (h : read id spec = .ok m) :
    m.id = id := by
  obtain ⟨-, _, _, _, _, _, -, -, -, -, -, -, hid, -⟩ := read_eq_ok_iff.mp h
  exact hid

theorem weight_of_read {id : UInt64} {spec : List Char} {m : Member} (h : read id spec = .ok m) :
    m.weight = 1 := by
  obtain ⟨-, _, _, _, _, _, -, -, -, -, -, -, -, -, hweight⟩ := read_eq_ok_iff.mp h
  exact hweight

/-- What every member has that was read from a line. The weight is not on the line. -/
structure Lined (m : Member) : Prop where
  id : m.id ≠ 0
  peerPort : m.peerPort ≠ 0
  electionPort : m.electionPort ≠ 0
  semicolon : ';' ∉ m.host.toList
  bracket : ':' ∈ m.host.toList → ']' ∉ m.host.toList
  client : ∀ a, m.clientAddress = some a →
    ∃ host p, a.toList = addressText host p ∧ p ≠ 0 ∧ Bare host

end Member

theorem not_mem_splitClient_fst (spec : List Char) : ';' ∉ (splitClient spec).1 := by
  unfold splitClient
  cases h : splitFirst? ';' spec with
  | none => exact fun hm => splitFirst?_eq_none.mp h (mem_of_mem_trim hm)
  | some halves => exact fun hm => (splitFirst?_eq_some h).2 (mem_of_mem_trim hm)

theorem mem_of_mem_splitClient_fst {spec : List Char} {c : Char} (h : c ∈ (splitClient spec).1) :
    c ∈ spec := by
  unfold splitClient at h
  cases hs : splitFirst? ';' spec with
  | none =>
    rw [hs] at h
    exact mem_of_mem_trim h
  | some halves =>
    rw [hs] at h
    rw [(splitFirst?_eq_some hs).1]
    exact List.mem_append_left _ (mem_of_mem_trim h)

theorem mem_of_mem_splitClient_snd {spec client : List Char} {c : Char}
    (hclient : (splitClient spec).2 = some client) (h : c ∈ client) : c ∈ spec := by
  unfold splitClient at hclient
  cases hs : splitFirst? ';' spec with
  | none =>
    rw [hs] at hclient
    cases hclient
  | some halves =>
    rw [hs] at hclient
    obtain rfl := Option.some.inj hclient
    rw [(splitFirst?_eq_some hs).1]
    exact List.mem_append_right _ (List.mem_cons_of_mem _ (mem_of_mem_trim h))

theorem splitClient_trim (spec : List Char) : splitClient (trim spec) = splitClient spec := by
  cases h : splitFirst? ';' spec with
  | none =>
    have htrim : splitFirst? ';' (trim spec) = none := by
      rw [splitFirst?_eq_none] at h ⊢
      exact fun hm => h (mem_of_mem_trim hm)
    rw [splitClient, splitClient, htrim, h]
    simp only [trim_trim]
  | some halves =>
    obtain ⟨server, client⟩ := halves
    obtain ⟨rfl, hserver⟩ := splitFirst?_eq_some h
    have hstart : ';' ∉ trimStart server := fun hm => hserver (mem_of_mem_trimStart hm)
    rw [splitClient, splitClient, h, trim_append_cons (by decide), splitFirst?_append hstart]
    simp only [trim_trimStart, trim_trimEnd]

theorem mem_of_mem_host {s host rest : List Char} (h : splitHost s = .ok (host, rest)) {c : Char}
    (hc : c ∈ host) : c ∈ s := by
  rcases splitHost_eq_ok_iff.mp h with ⟨rfl, -⟩ | ⟨rfl, -⟩
  · exact List.mem_cons_of_mem _ (List.mem_append_left _ hc)
  · exact List.mem_append_left _ hc

theorem exists_of_readClient {client? : Option (List Char)} {a : String}
    (h : readClient client? = .ok (some a)) :
    ∃ s, client? = some s ∧ readClientAddress s = .ok a := by
  cases client? with
  | none => cases h
  | some s =>
    obtain ⟨b, hb, hab⟩ := exists_of_map_eq_ok h
    obtain rfl := Option.some.inj hab
    exact ⟨s, rfl, hb⟩

theorem not_mem_addressText {host : List Char} (h : '\n' ∉ host) (p : UInt16) :
    '\n' ∉ addressText host p := by
  have hport : '\n' ∉ decimal p.toNat := not_mem_decimal (by decide) p.toNat
  unfold addressText hostText
  split_ifs <;> simp [h, hport]

namespace Member

theorem lined_of_read {id : UInt64} {spec : List Char} {m : Member} (h : read id spec = .ok m) :
    Lined m := by
  obtain ⟨hid, host, rest, peer, election, role?, hsplit, -, hpeer, helection, -, hclient, rfl,
    hhost, -⟩ := read_eq_ok_iff.mp h
  refine ⟨hid, readPort_ne_zero hpeer, readPort_ne_zero helection, ?_, ?_, ?_⟩
  · rw [hhost]
    exact fun hm => not_mem_splitClient_fst spec (mem_of_mem_host hsplit hm)
  · rw [hhost]
    intro hcolon
    rcases splitHost_eq_ok_iff.mp hsplit with ⟨-, hbracket⟩ | ⟨-, hnot, -⟩
    · exact hbracket
    · exact absurd hcolon hnot
  · intro a ha
    rw [ha] at hclient
    obtain ⟨s, -, hs⟩ := exists_of_readClient hclient
    obtain ⟨x, p, htext, hp, -⟩ := readClientAddress_eq_ok hs
    exact ⟨clientHost x, p, htext, hp, bare_clientHost x⟩

/-- Neither the host nor the address for clients breaks the line. -/
def OneLine (m : Member) : Prop :=
  '\n' ∉ m.host.toList ∧ ∀ a, m.clientAddress = some a → '\n' ∉ a.toList

theorem oneLine_of_read {id : UInt64} {spec : List Char} {m : Member} (hs : '\n' ∉ spec)
    (h : read id spec = .ok m) : m.OneLine := by
  obtain ⟨-, host, rest, peer, election, role?, hsplit, -, -, -, -, hclient, -, rfl, -⟩ :=
    read_eq_ok_iff.mp h
  refine ⟨fun hm => hs (mem_of_mem_splitClient_fst (mem_of_mem_host hsplit hm)), ?_⟩
  intro a ha
  rw [ha] at hclient
  obtain ⟨client, hparts, hread⟩ := exists_of_readClient hclient
  obtain ⟨x, p, htext, -, hx⟩ := readClientAddress_eq_ok hread
  have hhost : '\n' ∉ clientHost x := by
    rcases clientHost_cases x with hall | ⟨hpart, -⟩
    · rw [hall]
      decide
    · exact fun hm => hs (mem_of_mem_splitClient_snd hparts (hx _ (hpart.subset hm)))
  rw [htext]
  exact not_mem_addressText hhost p

/-- Blanks around a line have no effect on what is read from it. -/
theorem read_trim (id : UInt64) (spec : List Char) : read id (trim spec) = read id spec := by
  rw [read, read, splitClient_trim]

end Member

end Electorate
