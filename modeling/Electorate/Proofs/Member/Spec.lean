import Electorate.Proofs.Member.Reader

/-! Which members are read back from the lines that they are written as. -/
namespace Electorate

theorem role_parse_name (r : Role) : Role.parse r.name.toList = .ok r := by
  have hlower : String.ofList (r.name.toList.map Char.toLower) = r.name := by
    cases r <;> decide +kernel
  rw [Role.parse, hlower]
  cases r with
  | participant => exact if_pos rfl
  | observer =>
    have hne : Role.observer.name ≠ "participant" := by decide +kernel
    rw [if_neg hne]
    exact if_pos rfl

theorem isBlank_of_mem_name (r : Role) : ∀ c ∈ r.name.toList, isBlank c = false := by
  cases r <;> simp [Role.name, isBlank, blanks]

theorem hostText_of_not_mem {host : List Char} (h : ':' ∉ host) : hostText host = host := by
  rw [hostText, if_neg (by simpa using h)]

theorem hostText_of_mem {host : List Char} (h : ':' ∈ host) :
    hostText host = '[' :: (host ++ [']']) := by
  rw [hostText, if_pos (by simpa using h)]

/-- The brackets that are put around a host come off again. -/
theorem clientHost_hostText {host : List Char} (hb : Bare host) :
    clientHost (hostText host) = host := by
  have hstripped : IsStripped (hostText host) host := by
    refine ⟨?_, hb.head, hb.last⟩
    by_cases hcolon : ':' ∈ host
    · exact ⟨1, 1, hostText_of_mem hcolon⟩
    · exact ⟨0, 0, by simp [hostText_of_not_mem hcolon]⟩
  rw [clientHost_of_isStripped hstripped, if_neg hb.ne_nil]

theorem trim_addressText (host : List Char) (p : UInt16) :
    trim (addressText host p) = trimStart (hostText host) ++ ':' :: decimal p.toNat := by
  have hend : trimEnd (decimal p.toNat) = decimal p.toNat :=
    trimEnd_eq_self (forall_mem_decimal isBlank_digitChar p.toNat)
  rw [addressText, trim_append_cons (by decide), hend]

theorem readClientAddress_append (x : List Char) {p : UInt16} (hp : p ≠ 0) :
    readClientAddress (x ++ ':' :: decimal p.toNat) =
      .ok (String.ofList (addressText (clientHost x) p)) := by
  have hcolon : ':' ∉ decimal p.toNat := not_mem_decimal (by decide) p.toNat
  rw [readClientAddress, splitLast?_append x hcolon]
  simp only [readPort_decimal hp]
  rfl

/-- A host without colons is stripped back to itself unless a blank in front of it is lost. -/
theorem clientHost_trimStart_iff {host : List Char} (hb : Bare host) (hcolon : ':' ∉ host) :
    clientHost (trimStart host) = host ↔ ∀ c, host.head? = some c → isBlank c = false := by
  obtain ⟨c, tail, rfl⟩ := List.exists_cons_of_ne_nil hb.ne_nil
  constructor
  · intro hsame d hd
    obtain rfl := Option.some.inj hd
    rcases clientHost_cases (trimStart (c :: tail)) with hdefault | ⟨hpart, -⟩
    · rw [hsame] at hdefault
      obtain rfl := (List.cons.inj hdefault).1
      decide
    · -- the host is as long as what is left of it, so it has no blank in front
      rw [hsame] at hpart
      have hwhole : trimStart (c :: tail) = c :: tail := by
        apply (List.dropWhile_sublist _).eq_of_length_le
        exact hpart.length_le
      exact isBlank_of_trimStart_eq_cons hwhole
  · intro h
    have hhost := clientHost_hostText hb
    rw [hostText_of_not_mem hcolon] at hhost
    rw [trimStart_cons (h c rfl), hhost]

/-- An address for clients is read back unless blanks in front of it are lost. -/
theorem readClientAddress_iff {a : String} {host : List Char} {p : UInt16}
    (ha : a.toList = addressText host p) (hp : p ≠ 0) (hb : Bare host) :
    readClientAddress (trim a.toList) = .ok a ↔
      ∀ c, a.toList.head? = some c → isBlank c = false := by
  rw [ha, trim_addressText, readClientAddress_append _ hp, Except.ok.injEq]
  have heq : String.ofList (addressText (clientHost (trimStart (hostText host))) p) = a ↔
      addressText (clientHost (trimStart (hostText host))) p = addressText host p := by
    rw [← ha, ← String.toList_inj, String.toList_ofList]
  rw [heq]
  by_cases hcolon : ':' ∈ host
  · -- in brackets nothing is lost
    have htext := hostText_of_mem hcolon
    have hstart : trimStart (hostText host) = hostText host := by
      rw [htext]
      exact trimStart_cons (by decide)
    rw [hstart, clientHost_hostText hb, addressText, htext]
    simp [isBlank, blanks]
  · have htext := hostText_of_not_mem hcolon
    have hhead : (addressText host p).head? = host.head? := by
      rw [addressText, htext, List.head?_append_of_ne_nil _ hb.ne_nil]
    rw [hhead, ← clientHost_trimStart_iff hb hcolon, htext]
    constructor
    · intro h
      have hdigits : ':' ∉ decimal p.toNat := not_mem_decimal (by decide) p.toNat
      have hsplit := congrArg (splitLast? ':') h
      rw [addressText, addressText, splitLast?_append _ hdigits, splitLast?_append _ hdigits,
        Option.some.injEq, Prod.mk.injEq, htext] at hsplit
      -- brackets would bring in a colon
      have hplain : ':' ∉ clientHost (trimStart host) := by
        intro hm
        rw [hostText_of_mem hm] at hsplit
        exact hcolon (hsplit.1 ▸ List.mem_cons_of_mem _ (List.mem_append_left _ hm))
      rw [hostText_of_not_mem hplain] at hsplit
      exact hsplit.1
    · intro h
      rw [h]

namespace Member

/-- The part of the line that follows the host and its colon, up to the address for clients. -/
def fieldsText (m : Member) : List Char :=
  decimal m.peerPort.toNat ++ ':' :: (decimal m.electionPort.toNat ++ ':' :: m.role.name.toList)

theorem spec_eq (m : Member) : m.spec = (hostText m.host.toList ++ ':' :: m.fieldsText) ++
    (match m.clientAddress with
      | none => []
      | some a => ';' :: a.toList) := by
  rw [spec, fieldsText]
  cases m.clientAddress <;> simp

theorem trimEnd_fieldsText (m : Member) : trimEnd m.fieldsText = m.fieldsText := by
  rw [fieldsText, trimEnd_append_cons (by decide), trimEnd_append_cons (by decide),
    trimEnd_eq_self (isBlank_of_mem_name m.role)]

theorem not_mem_fieldsText (m : Member) : ';' ∉ m.fieldsText := by
  have hpeer : ';' ∉ decimal m.peerPort.toNat := not_mem_decimal (by decide) _
  have helection : ';' ∉ decimal m.electionPort.toNat := not_mem_decimal (by decide) _
  have hrole : ';' ∉ m.role.name.toList := by cases m.role <;> decide
  simp [fieldsText, hpeer, helection, hrole]

theorem not_mem_spec {m : Member} (h : m.OneLine) : '\n' ∉ m.spec := by
  have hhost : '\n' ∉ hostText m.host.toList := by
    unfold hostText
    split_ifs <;> simp [h.1]
  have hpeer : '\n' ∉ decimal m.peerPort.toNat := not_mem_decimal (by decide) _
  have helection : '\n' ∉ decimal m.electionPort.toNat := not_mem_decimal (by decide) _
  have hrole : '\n' ∉ m.role.name.toList := by cases m.role <;> decide
  have hclient := h.2
  rw [spec]
  cases hc : m.clientAddress with
  | none => simp [hhost, hpeer, helection, hrole]
  | some a => simp [hhost, hpeer, helection, hrole, hclient a hc]

theorem splitFields_fieldsText (server : List Char) (m : Member) :
    splitFields server m.fieldsText =
      .ok (decimal m.peerPort.toNat, decimal m.electionPort.toNat, some m.role.name.toList) := by
  have hpeer : ':' ∉ decimal m.peerPort.toNat := not_mem_decimal (by decide) _
  have helection : ':' ∉ decimal m.electionPort.toNat := not_mem_decimal (by decide) _
  have hrole : ':' ∉ m.role.name.toList := by cases m.role <;> decide
  rw [splitFields, fieldsText, List.splitOn_append_cons_self_of_not_mem hpeer,
    List.splitOn_append_cons_self_of_not_mem helection, List.splitOn_eq_singleton hrole]

/-- A written member is cut where its client address was put on. -/
theorem splitClient_spec {m : Member} (h : ';' ∉ m.host.toList) : splitClient m.spec =
    (trimStart (hostText m.host.toList) ++ ':' :: m.fieldsText,
      m.clientAddress.map fun a => trim a.toList) := by
  have hhost : ';' ∉ hostText m.host.toList := by
    unfold hostText
    split_ifs <;> simp [h]
  have hserver : ';' ∉ hostText m.host.toList ++ ':' :: m.fieldsText := by
    simp [hhost, m.not_mem_fieldsText]
  have htrim : trim (hostText m.host.toList ++ ':' :: m.fieldsText) =
      trimStart (hostText m.host.toList) ++ ':' :: m.fieldsText := by
    rw [trim_append_cons (by decide), m.trimEnd_fieldsText]
  rw [spec_eq, splitClient]
  cases m.clientAddress with
  | none =>
    simp only [List.append_nil]
    rw [splitFirst?_eq_none.mpr hserver]
    simp only [htrim]
    rfl
  | some a =>
    simp only
    rw [splitFirst?_append hserver]
    simp only [htrim]
    rfl

/-- What a line must not lose when it is written: a host without a colon stands there without
brackets, and blanks in front of an address are dropped. -/
@[mk_iff]
structure Rereads (m : Member) : Prop where
  host : ':' ∈ m.host.toList ∨ ∃ c ∈ m.host.toList.head?, c ≠ '[' ∧ isBlank c = false
  client : ∀ a ∈ m.clientAddress, ∀ c ∈ a.toList.head?, isBlank c = false

/-- The host of a written member is cut off as it was, if it is one of those that are read back. -/
theorem splitHost_spec {m : Member} (hm : Lined m) (hr : Rereads m) :
    splitHost (trimStart (hostText m.host.toList) ++ ':' :: m.fieldsText) =
      .ok (m.host.toList, m.fieldsText) := by
  rw [splitHost_eq_ok_iff]
  by_cases hcolon : ':' ∈ m.host.toList
  · have htext : trimStart (hostText m.host.toList) = '[' :: (m.host.toList ++ [']']) := by
      rw [hostText_of_mem hcolon]
      exact trimStart_cons (by decide)
    exact Or.inl ⟨by simp [htext], hm.bracket hcolon⟩
  · obtain ⟨c, hhead, hopen, hblank⟩ := hr.host.resolve_left hcolon
    obtain ⟨tail, hhost⟩ := List.head?_eq_some_iff.mp hhead
    have htext : trimStart (hostText m.host.toList) = m.host.toList := by
      rw [hostText_of_not_mem hcolon, hhost]
      exact trimStart_cons hblank
    refine Or.inr ⟨by rw [htext], hcolon, by simp [hhost], ?_⟩
    rw [hhead]
    simpa using hopen

theorem rereads_host {m : Member} {rest : List Char}
    (h : splitHost (trimStart (hostText m.host.toList) ++ ':' :: m.fieldsText) =
      .ok (m.host.toList, rest)) :
    ':' ∈ m.host.toList ∨
      ∃ c, m.host.toList.head? = some c ∧ c ≠ '[' ∧ isBlank c = false := by
  by_cases hcolon : ':' ∈ m.host.toList
  · exact Or.inl hcolon
  · rw [hostText_of_not_mem hcolon] at h
    generalize m.host.toList = host at h hcolon
    have hstart : ':' ∉ trimStart host := fun hm => hcolon (mem_of_mem_trimStart hm)
    rcases splitHost_eq_ok_iff.mp h with ⟨h, -⟩ | ⟨h, -, hne, hopen⟩
    · -- a bracket in front would have to come from a longer host
      have hbracketed : ':' ∉ '[' :: (host ++ [']']) := by simp [hcolon]
      have hlonger : trimStart host ++ ':' :: m.fieldsText =
          ('[' :: (host ++ [']'])) ++ ':' :: rest := by
        rw [h]
        simp
      have hlength := length_trimStart_le host
      rw [(eq_of_append_cons hstart hbracketed hlonger).1] at hlength
      simp at hlength
    · have hwhole : trimStart host = host := (eq_of_append_cons hstart hcolon h).1
      obtain ⟨c, tail, rfl⟩ := List.exists_cons_of_ne_nil hne
      refine Or.inr ⟨c, rfl, ?_, isBlank_of_trimStart_eq_cons hwhole⟩
      exact fun hc => hopen (by rw [hc]; rfl)

/-- The written client address is read back unless a blank begins it. -/
theorem readClient_iff {m : Member} (hm : Lined m) :
    readClient (m.clientAddress.map fun a => trim a.toList) = .ok m.clientAddress ↔
      ∀ a, m.clientAddress = some a → ∀ c, a.toList.head? = some c → isBlank c = false := by
  cases hclient : m.clientAddress with
  | none => simp [readClient]
  | some a =>
    obtain ⟨host, p, ha, hp, hb⟩ := hm.client a hclient
    have hread : readClient ((some a).map fun a => trim a.toList) = .ok (some a) ↔
        readClientAddress (trim a.toList) = .ok a := by
      constructor
      · intro h
        obtain ⟨s, hs, hread⟩ := exists_of_readClient h
        obtain rfl := Option.some.inj hs
        exact hread
      · intro h
        rw [Option.map_some, readClient, h]
        rfl
    rw [hread, readClientAddress_iff ha hp hb]
    simp

/-- A member that was read once is read again from what is written of it, but for its weight, in
exactly these cases. -/
theorem read_spec_iff {m : Member} (hm : Lined m) :
    read m.id m.spec = .ok { m with weight := 1 } ↔ Rereads m := by
  rw [read_eq_ok_iff, splitClient_spec hm.semicolon]
  constructor
  · intro h
    obtain ⟨-, host, rest, peer, election, role?, hsplit, -, -, -, -, hclient, -, rfl, -⟩ := h
    exact ⟨rereads_host hsplit, (readClient_iff hm).mp hclient⟩
  · intro hr
    exact ⟨hm.id, m.host.toList, m.fieldsText, _, _, _, splitHost_spec hm hr,
      splitFields_fieldsText _ m, readPort_decimal hm.peerPort, readPort_decimal hm.electionPort,
      role_parse_name m.role, (readClient_iff hm).mpr hr.client, rfl, rfl, rfl⟩

end Member

end Electorate
