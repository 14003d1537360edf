import Electorate.Proofs.Json.Record

/-! Which objects are read as which member: exactly those that show it under every known name. -/
namespace Electorate

theorem Role.ofName?_eq_some_iff {s : String} {r : Role} :
    Role.ofName? s = some r ↔ s = r.name := by
  unfold Role.ofName?
  cases r <;> split_ifs <;> simp_all [Role.name]

namespace Member
open Json (values)

/-- A field that an object may lack, since reading gives it this value by itself. -/
def MayLack (m : Member) (name : String) : Prop :=
  (name = "client_address" ∧ m.clientAddress = none) ∨ (name = "weight" ∧ m.weight = 1)

/-- What may stand under a known name of an object that is read as the member. -/
inductive Shows (m : Member) : String → List Json → Prop
  | stored {name : String} {v : Json} (h : (name, v) ∈ m.stored) : Shows m name [v]
  | lacking {name : String} (h : m.MayLack name) : Shows m name []
  | roleKey : Shows m "learner_type" [.object [(some m.role.name, .null)]]

section
variable {m : Member} {slot : Option Json}

/-- A field shows the member by what is stored there, by being left out where that is allowed, or
for the role by an object as well. -/
theorem shows_iff {name : String} : m.Shows name slot.toList ↔
    (∃ v, slot = some v ∧ (name, v) ∈ m.stored) ∨ (slot = none ∧ m.MayLack name) ∨
      (name = "learner_type" ∧ slot = some (.object [(some m.role.name, .null)])) := by
  constructor
  · intro h
    cases slot with
    | none =>
      change m.Shows name [] at h
      cases h with
      | lacking hlack => exact Or.inr (Or.inl ⟨rfl, hlack⟩)
    | some v =>
      change m.Shows name [v] at h
      cases h with
      | stored hstored => exact Or.inl ⟨v, rfl, hstored⟩
      | roleKey => exact Or.inr (Or.inr ⟨rfl, rfl⟩)
  · intro h
    rcases h with ⟨v, rfl, hstored⟩ | ⟨rfl, hlack⟩ | ⟨rfl, rfl⟩
    · exact .stored hstored
    · exact .lacking hlack
    · exact .roleKey

theorem shows_id : m.Shows "id" slot.toList ↔ slot.bind Json.word64? = some m.id := by
  simp [shows_iff, Option.bind_eq_some_iff, Json.word64?_eq_some_iff, stored, MayLack]

theorem shows_host : m.Shows "host" slot.toList ↔ slot.bind Json.text? = some m.host := by
  simp [shows_iff, Option.bind_eq_some_iff, Json.text?_eq_some_iff, stored, MayLack]

theorem shows_peerPort :
    m.Shows "peer_port" slot.toList ↔ slot.bind Json.word16? = some m.peerPort := by
  simp [shows_iff, Option.bind_eq_some_iff, Json.word16?_eq_some_iff, stored, MayLack]

theorem shows_electionPort :
    m.Shows "election_port" slot.toList ↔ slot.bind Json.word16? = some m.electionPort := by
  simp [shows_iff, Option.bind_eq_some_iff, Json.word16?_eq_some_iff, stored, MayLack]

theorem shows_clientAddress : m.Shows "client_address" slot.toList ↔
    Json.orDefault (Json.orNull? Json.text?) none slot = some m.clientAddress := by
  have hread (v : Json) : v.orNull? Json.text? = some m.clientAddress ↔
      v = Json.orNull Json.text m.clientAddress :=
    Json.orNull?_eq_some_iff rfl fun _ _ => Json.text?_eq_some_iff
  simp [shows_iff, Json.orDefault_eq_some_iff, hread, stored, MayLack]

theorem shows_role : m.Shows "learner_type" slot.toList ↔
    slot.bind (Json.choice? Role.ofName?) = some m.role := by
  have hread (v : Json) : v.choice? Role.ofName? = some m.role ↔
      v = .text m.role.name ∨ v = .object [(some m.role.name, .null)] := by
    simp only [Json.choice?_eq_some_iff, Role.ofName?_eq_some_iff, exists_eq_left]
  simp [shows_iff, Option.bind_eq_some_iff, hread, and_or_left, exists_or, stored, MayLack]

theorem shows_weight : m.Shows "weight" slot.toList ↔
    Json.orDefault Json.word64? 1 slot = some m.weight := by
  simp [shows_iff, Json.orDefault_eq_some_iff, Json.word64?_eq_some_iff, stored, MayLack]

end

section
variable {m : Member}

/-- Nothing or one value stands under each known name. -/
theorem Shows.exists_slot {name : String} {vs : List Json} (h : m.Shows name vs) :
    ∃ slot : Option Json, vs = slot.toList := by
  cases h with
  | stored _ => exact ⟨some _, rfl⟩
  | lacking _ => exact ⟨none, rfl⟩
  | roleKey => exact ⟨some _, rfl⟩

/-- Reading takes the fields one by one, each of them in its own way. -/
theorem ofJson?_eq_some_iff {v : Json} : ofJson? v = some m ↔
    ∃ id host peer election client role weight,
      v.fields? fieldNames = some [id, host, peer, election, client, role, weight] ∧
      id.bind Json.word64? = some m.id ∧ host.bind Json.text? = some m.host ∧
      peer.bind Json.word16? = some m.peerPort ∧ election.bind Json.word16? = some m.electionPort ∧
      Json.orDefault (Json.orNull? Json.text?) none client = some m.clientAddress ∧
      role.bind (Json.choice? Role.ofName?) = some m.role ∧
      Json.orDefault Json.word64? 1 weight = some m.weight := by
  constructor
  · intro h
    unfold ofJson? at h
    split at h
    · next id host peer election client role weight hfields =>
      obtain ⟨_, hid, h⟩ := Option.bind_eq_some_iff.mp h
      obtain ⟨_, hhost, h⟩ := Option.bind_eq_some_iff.mp h
      obtain ⟨_, hpeer, h⟩ := Option.bind_eq_some_iff.mp h
      obtain ⟨_, helection, h⟩ := Option.bind_eq_some_iff.mp h
      obtain ⟨_, hclient, h⟩ := Option.bind_eq_some_iff.mp h
      obtain ⟨_, hrole, h⟩ := Option.bind_eq_some_iff.mp h
      obtain ⟨_, hweight, h⟩ := Option.bind_eq_some_iff.mp h
      rw [← Option.some.inj h]
      exact ⟨id, host, peer, election, client, role, weight, hfields, hid, hhost, hpeer, helection,
        hclient, hrole, hweight⟩
    · cases h
  · intro h
    obtain ⟨id, host, peer, election, client, role, weight, hfields, hid, hhost, hpeer, helection,
      hclient, hrole, hweight⟩ := h
    rw [ofJson?, hfields]
    simp only [hid, hhost, hpeer, helection, hclient, hrole, hweight, Option.bind_eq_bind,
      Option.bind_some]

/-- An object is read as the member that all of its known names show. -/
theorem ofJson?_record_eq_some_iff {fields : List (String × Json)} :
    ofJson? (Json.record fields) = some m ↔
      ∀ name ∈ fieldNames, m.Shows name (values name fields) := by
  simp only [ofJson?_eq_some_iff, Json.fields?_record_eq_some_iff, ← shows_id, ← shows_host,
    ← shows_peerPort, ← shows_electionPort, ← shows_clientAddress, ← shows_role, ← shows_weight]
  have hnames : (∀ name ∈ fieldNames, m.Shows name (values name fields)) ↔
      m.Shows "id" (values "id" fields) ∧ m.Shows "host" (values "host" fields) ∧
      m.Shows "peer_port" (values "peer_port" fields) ∧
      m.Shows "election_port" (values "election_port" fields) ∧
      m.Shows "client_address" (values "client_address" fields) ∧
      m.Shows "learner_type" (values "learner_type" fields) ∧
      m.Shows "weight" (values "weight" fields) := by
    simp only [fieldNames, List.forall_mem_cons, List.not_mem_nil, false_imp_iff, implies_true,
      and_true]
  constructor
  · intro h
    obtain ⟨id, host, peer, election, client, role, weight, hslots, hshows⟩ := h
    simp only [fieldNames, List.map_cons, List.cons.injEq] at hslots
    obtain ⟨hid, hhost, hpeer, helection, hclient, hrole, hweight, -⟩ := hslots
    rw [hnames, hid, hhost, hpeer, helection, hclient, hrole, hweight]
    exact hshows
  · intro h
    have hslot (name : String) (hname : name ∈ fieldNames) := (h name hname).exists_slot
    obtain ⟨id, hid⟩ := hslot "id" (by decide)
    obtain ⟨host, hhost⟩ := hslot "host" (by decide)
    obtain ⟨peer, hpeer⟩ := hslot "peer_port" (by decide)
    obtain ⟨election, helection⟩ := hslot "election_port" (by decide)
    obtain ⟨client, hclient⟩ := hslot "client_address" (by decide)
    obtain ⟨role, hrole⟩ := hslot "learner_type" (by decide)
    obtain ⟨weight, hweight⟩ := hslot "weight" (by decide)
    rw [hnames, hid, hhost, hpeer, helection, hclient, hrole, hweight] at h
    refine ⟨id, host, peer, election, client, role, weight, ?_, h⟩
    simp only [fieldNames, List.map_cons, List.map_nil, hid, hhost, hpeer, helection, hclient,
      hrole, hweight]

end

end Member
end Electorate
