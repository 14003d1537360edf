import Electorate.Proofs.Member.Spec

/-! The reader accepts the lines of the format and no others, and makes of them the member that they
describe. -/
namespace Electorate

theorem isShown_iff {host shown : List Char} : IsShown host shown ↔ shown = hostText host := by
  by_cases hcolon : ':' ∈ host
  · simp [IsShown, hcolon, hostText_of_mem hcolon]
  · simp [IsShown, hcolon, hostText_of_not_mem hcolon]

theorem isAddress_iff {address host : List Char} {port : UInt16} :
    IsAddress address host port.toNat ↔ address = addressText host port := by
  simp only [IsAddress, isShown_iff, exists_eq_left]
  exact Iff.rfl

/-- A port is a numeral between blanks that does not stand for zero. -/
theorem readPort_eq_ok_iff {s : List Char} {port : UInt16} :
    readPort s = .ok port ↔ IsNumeral 10 (trim s) port.toNat ∧ port ≠ 0 := by
  rw [← readWord16_eq_some_iff, readPort]
  cases hread : readWord16 (trim s) with
  | none => simp
  | some p =>
    by_cases hp : p = 0
    · simp [hp, eq_comm]
    · simp only [if_neg hp, Except.ok.injEq, Option.some.injEq]
      constructor
      · intro h
        exact ⟨h, h ▸ hp⟩
      · intro h
        exact h.1

theorem isPort_iff {s : List Char} (hcolon : ':' ∉ s) {port : UInt16} :
    IsPort s port ↔ readPort s = .ok port := by
  rw [readPort_eq_ok_iff]
  constructor
  · intro h
    exact ⟨h.numeral, h.ne_zero⟩
  · intro h
    exact ⟨hcolon, h.1, h.2⟩

theorem port_ne_zero_iff {p : UInt16} : p ≠ 0 ↔ 1 ≤ p.toNat := by
  rw [Nat.one_le_iff_ne_zero, ne_eq, ne_eq, ← UInt16.toNat_inj]
  rfl

/-- A number in the range of the ports is one as a word. -/
theorem port_of_range {n : ℕ} (hlow : 1 ≤ n) (hhigh : n ≤ 65535) :
    (UInt16.ofNat n).toNat = n ∧ UInt16.ofNat n ≠ 0 := by
  have hsize : n < UInt16.size := by
    change n < 65536
    omega
  have hword : (UInt16.ofNat n).toNat = n := UInt16.toNat_ofNat_of_lt' hsize
  refine ⟨hword, ?_⟩
  rw [port_ne_zero_iff, hword]
  exact hlow

theorem isPort_decimal {n : ℕ} (hlow : 1 ≤ n) (hhigh : n ≤ 65535) :
    IsPort (decimal n) (UInt16.ofNat n) := by
  obtain ⟨hword, hp⟩ := port_of_range hlow hhigh
  have hread := readPort_decimal hp
  rw [hword] at hread
  exact (isPort_iff (not_mem_decimal (by decide) n)).mpr hread

theorem splitHost_eq_ok_iff_isHost {s host rest : List Char} :
    splitHost s = .ok (host, rest) ↔ ∃ h, IsHost h host ∧ s = h ++ ':' :: rest := by
  rw [splitHost_eq_ok_iff]
  constructor
  · intro h
    rcases h with ⟨hs, hclose⟩ | ⟨hs, hcolon, hne, hopen⟩
    · exact ⟨_, IsHost.bracketed hclose, by simp [hs]⟩
    · exact ⟨host, IsHost.bare hne hcolon hopen, hs⟩
  · intro h
    obtain ⟨_, hhost, hs⟩ := h
    cases hhost with
    | bracketed hclose => exact Or.inl ⟨by simp [hs], hclose⟩
    | bare hne hcolon hopen => exact Or.inr ⟨hs, hcolon, hne, hopen⟩

/-- Behind the host come two fields, or two fields and a role. -/
theorem splitFields_eq_ok_iff {server rest p e : List Char} {role? : Option (List Char)} :
    splitFields server rest = .ok (p, e, role?) ↔ ':' ∉ p ∧ ':' ∉ e ∧
      match role? with
      | none => rest = p ++ ':' :: e
      | some r => ':' ∉ r ∧ rest = p ++ ':' :: (e ++ ':' :: r) := by
  have htwo : rest.splitOn ':' = [p, e] ↔ rest = p ++ ':' :: e ∧ ':' ∉ p ∧ ':' ∉ e := by
    rw [splitOn_eq_iff (List.cons_ne_nil _ _)]
    simp [List.intercalate]
  have hthree (r : List Char) : rest.splitOn ':' = [p, e, r] ↔
      rest = p ++ ':' :: (e ++ ':' :: r) ∧ ':' ∉ p ∧ ':' ∉ e ∧ ':' ∉ r := by
    rw [splitOn_eq_iff (List.cons_ne_nil _ _)]
    simp [List.intercalate]
  have hpieces : splitFields server rest = .ok (p, e, role?) ↔
      match role? with
      | none => rest.splitOn ':' = [p, e]
      | some r => rest.splitOn ':' = [p, e, r] := by
    unfold splitFields
    split
    · next hsplit => cases role? <;> simp [hsplit]
    · next hsplit => cases role? <;> simp [hsplit]
    · next hnot hnot' =>
      cases role? with
      | none => simpa using hnot p e
      | some r => simpa using hnot' p e r
  rw [hpieces]
  cases role? with
  | none =>
    simp only [htwo]
    tauto
  | some r =>
    simp only [hthree]
    tauto

theorem toNat_toLower (c : Char) : c.toLower.toNat =
    if 65 ≤ c.toNat ∧ c.toNat ≤ 90 then c.toNat + 32 else c.toNat := by
  unfold Char.toLower
  split
  · next h =>
    have hlow : 65 ≤ c.toNat := h.1
    have hhigh : c.toNat ≤ 90 := h.2
    have hsum : (c.val + 32).toNat = (c.toNat + 32) % 2 ^ 32 := UInt32.toNat_add c.val 32
    rw [if_pos ⟨hlow, hhigh⟩]
    apply hsum.trans
    omega
  · next h => exact (if_neg h).symm

/-- A small letter is the small form of itself and of its capital, and of no other character. -/
theorem toLower_eq_iff {c d : Char} (hd : 'a' ≤ d ∧ d ≤ 'z') :
    c.toLower = d ↔ c = d ∨ c = d.toUpper := by
  have hlow : 97 ≤ d.toNat := hd.1
  have hhigh : d.toNat ≤ 122 := hd.2
  have hcapital : ∀ n < 26, (Char.ofNat (n + 97)).toUpper.toNat = n + 65 := by decide
  have hupper : d.toUpper.toNat = d.toNat - 97 + 65 := by
    have h := hcapital (d.toNat - 97) (by omega)
    have hsum : d.toNat - 97 + 97 = d.toNat := by omega
    rwa [hsum, Char.ofNat_toNat] at h
  rw [← Char.toNat_inj, ← Char.toNat_inj, ← Char.toNat_inj, toNat_toLower, hupper]
  split_ifs <;> omega

theorem forall₂_case_iff {s name : List Char} (hname : ∀ d ∈ name, 'a' ≤ d ∧ d ≤ 'z') :
    List.Forall₂ (fun c d => c = d ∨ c = d.toUpper) s name ↔ s.map Char.toLower = name := by
  induction name generalizing s with
  | nil => simp
  | cons d name ih =>
    rw [List.forall_mem_cons] at hname
    cases s with
    | nil => simp
    | cons c s =>
      rw [List.forall₂_cons, ih hname.2, ← toLower_eq_iff hname.1, List.map_cons, List.cons.injEq]

theorem letter_of_mem_name (role : Role) : ∀ d ∈ role.name.toList, 'a' ≤ d ∧ d ≤ 'z' := by
  cases role <;> simp [Role.name]

theorem isRole_iff_map {s : List Char} {role : Role} :
    IsRole s role ↔ s.map Char.toLower = role.name.toList :=
  forall₂_case_iff (letter_of_mem_name role)

/-- A role goes by its name in any mixture of cases. -/
theorem isRole_iff {s : List Char} {role : Role} : IsRole s role ↔ Role.parse s = .ok role := by
  have htext : s.map Char.toLower = role.name.toList ↔
      String.ofList (s.map Char.toLower) = role.name := by
    rw [← String.toList_inj, String.toList_ofList]
  rw [isRole_iff_map, htext, Role.parse]
  generalize String.ofList (s.map Char.toLower) = t
  -- the reader asks for the two names one after the other
  by_cases hp : t = "participant"
  · cases role <;> simp [hp, Role.name]
  · by_cases ho : t = "observer" <;> cases role <;> simp [hp, ho, Role.name]

theorem not_mem_of_isRole {s : List Char} {role : Role} (h : IsRole s role) : ':' ∉ s := by
  intro hm
  have hname : ':' ∈ role.name.toList := by
    rw [← isRole_iff_map.mp h]
    exact List.mem_map.mpr ⟨':', hm, by decide⟩
  exact absurd (letter_of_mem_name role ':' hname) (by decide)

/-- The pieces of the part for the servers are what the reader takes up one after the other. -/
theorem isServer_iff {s host : List Char} {peer election : UInt16} {role : Role} :
    IsServer host peer election s role ↔ ∃ rest p e role?, splitHost s = .ok (host, rest) ∧
      splitFields s rest = .ok (p, e, role?) ∧ readPort p = .ok peer ∧
      readPort e = .ok election ∧ readRole role? = .ok role := by
  simp only [splitHost_eq_ok_iff_isHost, splitFields_eq_ok_iff]
  constructor
  · intro h
    cases h with
    | @voter h p e hhost hpeer helection =>
      exact ⟨_, p, e, none, ⟨h, hhost, rfl⟩, ⟨hpeer.colon, helection.colon, rfl⟩,
        (isPort_iff hpeer.colon).mp hpeer, (isPort_iff helection.colon).mp helection, rfl⟩
    | @withRole h p e r _ hhost hpeer helection hrole =>
      exact ⟨_, p, e, some r, ⟨h, hhost, rfl⟩,
        ⟨hpeer.colon, helection.colon, not_mem_of_isRole hrole, rfl⟩,
        (isPort_iff hpeer.colon).mp hpeer, (isPort_iff helection.colon).mp helection,
        isRole_iff.mp hrole⟩
  · intro h
    obtain ⟨rest, p, e, role?, ⟨h, hhost, rfl⟩, ⟨hp, he, hrest⟩, hpeer, helection, hrole⟩ := h
    have hpeer := (isPort_iff hp).mpr hpeer
    have helection := (isPort_iff he).mpr helection
    cases role? with
    | none =>
      obtain rfl := Except.ok.inj hrole
      rw [hrest]
      exact IsServer.voter hhost hpeer helection
    | some r =>
      rw [hrest.2]
      exact IsServer.withRole hhost hpeer helection (isRole_iff.mpr hrole)

theorem readClientAddress_eq_ok_iff {s : List Char} {a : String} :
    readClientAddress s = .ok a ↔ IsClient s a.toList := by
  have htext {host : List Char} {port : UInt16} :
      String.ofList (addressText host port) = a ↔ IsAddress a.toList host port.toNat := by
    rw [isAddress_iff, ← String.toList_inj, String.toList_ofList, eq_comm]
  constructor
  · intro h
    unfold readClientAddress at h
    split at h
    · next x p hsplit =>
      obtain ⟨hs, hcolon⟩ := splitLast?_eq_some hsplit
      obtain ⟨port, hport, haddress⟩ := exists_of_map_eq_ok h
      have hport := (isPort_iff hcolon).mpr hport
      obtain ⟨host, hhost⟩ := exists_isStripped x
      rw [htext, clientHost_of_isStripped hhost] at haddress
      rw [hs]
      by_cases hne : host = []
      · rw [if_pos hne] at haddress
        exact IsClient.noHost (hne ▸ hhost) hport haddress
      · rw [if_neg hne] at haddress
        exact IsClient.host hne hhost hport haddress
    · next hsplit =>
      obtain ⟨port, hport, haddress⟩ := exists_of_map_eq_ok h
      exact IsClient.port ((isPort_iff (splitLast?_eq_none hsplit)).mpr hport)
        (htext.mp haddress)
  · intro h
    cases h with
    | port hport haddress =>
      have hsplit : splitLast? ':' s = none := by
        rw [splitLast?, Option.map_eq_none_iff, splitFirst?_eq_none]
        exact fun hm => hport.colon (List.mem_reverse.mp hm)
      rw [readClientAddress, hsplit]
      simp only [(isPort_iff hport.colon).mp hport]
      exact congrArg Except.ok (htext.mpr haddress)
    | noHost hhost hport haddress =>
      rw [readClientAddress, splitLast?_append _ hport.colon]
      simp only [(isPort_iff hport.colon).mp hport, clientHost_of_isStripped hhost]
      exact congrArg Except.ok (htext.mpr haddress)
    | host hne hhost hport haddress =>
      rw [readClientAddress, splitLast?_append _ hport.colon]
      simp only [(isPort_iff hport.colon).mp hport, clientHost_of_isStripped hhost, if_neg hne]
      exact congrArg Except.ok (htext.mpr haddress)

/-- The semicolon comes first, so that neither part can be taken for a piece of the other. -/
theorem isLine_iff {line host : List Char} {peer election : UInt16} {role : Role}
    {address : Option String} :
    IsLine host peer election role line (address.map String.toList) ↔
      IsServer host peer election (splitClient line).1 role ∧
        readClient (splitClient line).2 = .ok address := by
  constructor
  · intro h
    generalize hshown : address.map String.toList = shown at h
    cases h with
    | server hsep hserver =>
      rw [splitClient, splitFirst?_eq_none.mpr hsep, Option.map_eq_none_iff.mp hshown]
      exact ⟨hserver, rfl⟩
    | client hsep hserver hclient =>
      obtain ⟨a, rfl, rfl⟩ := Option.map_eq_some_iff.mp hshown
      rw [splitClient, splitFirst?_append hsep]
      refine ⟨hserver, ?_⟩
      simp only [readClient, readClientAddress_eq_ok_iff.mpr hclient]
      rfl
  · intro h
    obtain ⟨hserver, hclient⟩ := h
    rw [splitClient] at hserver hclient
    cases hsplit : splitFirst? ';' line with
    | none =>
      rw [hsplit] at hserver hclient
      obtain rfl := Except.ok.inj hclient
      exact IsLine.server (splitFirst?_eq_none.mp hsplit) hserver
    | some halves =>
      obtain ⟨s, c⟩ := halves
      rw [hsplit] at hserver hclient
      obtain ⟨rfl, hsep⟩ := splitFirst?_eq_some hsplit
      obtain ⟨a, ha, rfl⟩ := exists_of_map_eq_ok hclient
      exact IsLine.client hsep hserver (readClientAddress_eq_ok_iff.mp ha)

namespace Member

/-- A member is read from the lines that describe it, under its own id. -/
theorem read_eq_ok_iff_ofLine {id : UInt64} {line : List Char} {m : Member} :
    read id line = .ok m ↔ m.id = id ∧ OfLine line m := by
  rw [read_eq_ok_iff]
  constructor
  · intro h
    obtain ⟨hid, host, rest, p, e, role?, hhost, hfields, hpeer, helection, hrole, hclient, rfl,
      rfl, hweight⟩ := h
    have hserver := isServer_iff.mpr ⟨rest, p, e, role?, hhost, hfields, hpeer, helection, hrole⟩
    exact ⟨rfl, isLine_iff.mpr ⟨hserver, hclient⟩, hid, hweight⟩
  · intro h
    obtain ⟨rfl, hline, hid, hweight⟩ := h
    obtain ⟨hserver, hclient⟩ := isLine_iff.mp hline
    obtain ⟨rest, p, e, role?, hhost, hfields, hpeer, helection, hrole⟩ := isServer_iff.mp hserver
    exact ⟨hid, _, rest, p, e, role?, hhost, hfields, hpeer, helection, hrole, hclient, rfl, rfl,
      hweight⟩

theorem parse_eq_ok_iff {id : UInt64} {spec : String} {m : Member} :
    parse id spec = .ok m ↔ read id spec.toList = .ok m := by
  constructor
  · exact eq_ok_of_mapError
  · intro h
    rw [parse, h]
    rfl

/-- A line is accepted exactly if it is of the format, under every id but zero, and as the member
that it describes. All that is wrong with a line is reported as a fault of that server. -/
theorem parse_accepts_exactly_the_lines (id : UInt64) (spec : String) :
    (id = 0 → parse id spec = .error (.serverSpec id .zeroId)) ∧
    (id ≠ 0 → ((∃ m, parse id spec = .ok m) ↔
      ∃ host peer election role address, IsLine host peer election role spec.toList address)) ∧
    (∀ m, parse id spec = .ok m ↔ m.id = id ∧ OfLine spec.toList m) ∧
    ∀ e, parse id spec = .error e → ∃ fault, e = .serverSpec id fault := by
  have hexact (m : Member) : parse id spec = .ok m ↔ m.id = id ∧ OfLine spec.toList m := by
    rw [parse_eq_ok_iff, read_eq_ok_iff_ofLine]
  refine ⟨?_, ?_, hexact, ?_⟩
  · intro hid
    rw [parse, read, if_pos hid]
    rfl
  · intro hid
    constructor
    · intro h
      obtain ⟨m, hm⟩ := h
      exact ⟨_, _, _, _, _, ((hexact m).mp hm).2.line⟩
    · intro h
      obtain ⟨host, peer, election, role, address, hline⟩ := h
      -- what the line says is all that there is to a member, but for its id
      let m := Member.mk id (String.ofList host) peer election (address.map String.ofList) role 1
      have hhost : m.host.toList = host := String.toList_ofList
      have haddress : m.clientAddress.map String.toList = address := by
        cases address with
        | none => rfl
        | some a => exact congrArg some String.toList_ofList
      refine ⟨m, (hexact m).mpr ⟨rfl, ?_, hid, rfl⟩⟩
      rw [hhost, haddress]
      exact hline
  · intro e h
    obtain ⟨fault, -, he⟩ := mapError_eq_error_iff.mp h
    exact ⟨fault, he.symm⟩

/-- Brackets around both hosts, and twice around one of them, signs, leading zeros, blanks at every
place where they may stand, and a role in both cases. -/
theorem uneven_line_is_read :
    let line := " [::1]:+0001: 65535\t:OBServer ; [[a:b]]:080 "
    let m := Member.mk 7 "::1" 1 65535 (some "[a:b]:80") .observer 1
    ((0 : UInt64) = 0 ∧ parse 0 line = .error (.serverSpec 0 .zeroId)) ∧
    ((7 : UInt64) ≠ 0 ∧ parse 7 line = .ok m) ∧ OfLine line.toList m ∧
    ∃ host peer election role address, IsLine host peer election role line.toList address := by
  intro line m
  have hparse : parse 7 line = .ok m := by decide +kernel
  have hid : (7 : UInt64) ≠ 0 := by decide
  obtain ⟨hzero, -⟩ := parse_accepts_exactly_the_lines 0 line
  obtain ⟨-, haccepts, hexact, -⟩ := parse_accepts_exactly_the_lines 7 line
  exact ⟨⟨rfl, hzero rfl⟩, ⟨hid, hparse⟩, ((hexact m).mp hparse).2,
    (haccepts hid).mp ⟨m, hparse⟩⟩

end Member

end Electorate
