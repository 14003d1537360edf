import Electorate.Proofs.Member.Acceptance

/-! Exactly which members are read back from the lines that they are written as, wherever they come
from. -/
namespace Electorate

/-- A host of an address for clients that is none of the brackets around it, and that is not changed
by dropping blanks in front of the address. -/
structure Fixed (host : List Char) : Prop where
  bare : Bare host
  front : ':' ∈ host ∨ ∀ c, host.head? = some c → isBlank c = false

/-- An opening bracket is no blank, so brackets keep the blanks of the host that they are around. -/
theorem head_addressText_iff {host : List Char} (hne : host ≠ []) (p : UInt16) :
    (∀ c, (addressText host p).head? = some c → isBlank c = false) ↔
      ':' ∈ host ∨ ∀ c, host.head? = some c → isBlank c = false := by
  by_cases hcolon : ':' ∈ host
  · have hhead : (addressText host p).head? = some '[' := by
      rw [addressText, hostText_of_mem hcolon]
      rfl
    have hblank : isBlank '[' = false := by decide
    simp [hhead, hcolon, hblank]
  · have hhead : (addressText host p).head? = host.head? := by
      rw [addressText, hostText_of_not_mem hcolon, List.head?_append_of_ne_nil _ hne]
    simp [hhead, hcolon]

/-- The reader writes an address the way it finds it if this is the only way to write it. -/
theorem exists_fixed_iff {a : String} :
    ((∃ host p, a.toList = addressText host p ∧ p ≠ 0 ∧ Bare host) ∧
      ∀ c, a.toList.head? = some c → isBlank c = false) ↔
    ∃ host port, IsAddress a.toList host port ∧ (1 ≤ port ∧ port ≤ 65535) ∧ Fixed host := by
  constructor
  · intro h
    obtain ⟨⟨host, p, ha, hp, hbare⟩, hfront⟩ := h
    have hlt : p.toNat < 65536 := p.toNat_lt
    have hpos : 1 ≤ p.toNat := port_ne_zero_iff.mp hp
    rw [ha, head_addressText_iff hbare.ne_nil] at hfront
    exact ⟨host, p.toNat, isAddress_iff.mpr ha, ⟨hpos, by omega⟩, hbare, hfront⟩
  · intro h
    obtain ⟨host, port, haddress, ⟨hlow, hhigh⟩, hbare, hfront⟩ := h
    obtain ⟨hword, hp⟩ := port_of_range hlow hhigh
    rw [← hword, isAddress_iff] at haddress
    refine ⟨⟨host, _, haddress, hp, hbare⟩, ?_⟩
    rw [haddress, head_addressText_iff hbare.ne_nil]
    exact hfront

namespace Member

/-- What it takes for a member to be read back as it is. -/
structure RoundTrips (m : Member) : Prop where
  id : m.id ≠ 0
  weight : m.weight = 1
  peerPort : m.peerPort ≠ 0
  electionPort : m.electionPort ≠ 0
  semicolon : ';' ∉ m.host.toList
  host : (':' ∈ m.host.toList ∧ ']' ∉ m.host.toList) ∨
    (':' ∉ m.host.toList ∧ ∃ c, m.host.toList.head? = some c ∧ c ≠ '[' ∧ isBlank c = false)
  client : ∀ a, m.clientAddress = some a →
    ∃ host port, IsAddress a.toList host port ∧ (1 ≤ port ∧ port ≤ 65535) ∧ Fixed host

/-- It takes what every member has that was read, and that its own line loses nothing. -/
theorem roundTrips_iff {m : Member} : RoundTrips m ↔ m.weight = 1 ∧ Lined m ∧ Rereads m := by
  constructor
  · intro h
    have hclient (a : String) (ha : m.clientAddress = some a) :=
      exists_fixed_iff.mpr (h.client a ha)
    refine ⟨h.weight, ⟨h.id, h.peerPort, h.electionPort, h.semicolon, ?_, ?_⟩, ⟨?_, ?_⟩⟩
    · intro hcolon
      rcases h.host with ⟨-, hclose⟩ | ⟨hplain, -⟩
      · exact hclose
      · exact absurd hcolon hplain
    · intro a ha
      exact (hclient a ha).1
    · exact h.host.imp And.left And.right
    · intro a ha
      exact (hclient a ha).2
  · intro h
    obtain ⟨hweight, hlined, hrereads⟩ := h
    refine ⟨hlined.id, hweight, hlined.peerPort, hlined.electionPort, hlined.semicolon, ?_, ?_⟩
    · by_cases hcolon : ':' ∈ m.host.toList
      · exact Or.inl ⟨hcolon, hlined.bracket hcolon⟩
      · exact Or.inr ⟨hcolon, hrereads.host.resolve_left hcolon⟩
    · intro a ha
      exact exists_fixed_iff.mp ⟨hlined.client a ha, hrereads.client a ha⟩

/-- A member is read back from its own line exactly if its id, ports and weight are such as the
reader gives, its host has nothing in it that would end it early or be dropped, and its address for
clients is one that the reader would write. -/
theorem parse_text_eq_self_iff (m : Member) : parse m.id m.text = .ok m ↔ RoundTrips m := by
  have hspec : m.text.toList = m.spec := String.toList_ofList
  rw [parse_eq_ok_iff, hspec, roundTrips_iff]
  constructor
  · intro h
    have hweight := weight_of_read h
    have hlined := lined_of_read h
    have hone : m = { m with weight := 1 } := by rw [← hweight]
    rw [hone] at h
    exact ⟨hweight, hlined, (read_spec_iff hlined).mp h⟩
  · intro h
    obtain ⟨hweight, hlined, hrereads⟩ := h
    have hread := (read_spec_iff hlined).mpr hrereads
    rwa [← hweight] at hread

end Member

end Electorate
